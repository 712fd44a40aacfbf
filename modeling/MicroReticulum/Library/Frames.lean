import MicroReticulum.Library.Prog

/-!
# Frames

A frame is a relation between the state before and behind a program that programs are composed under: it is
reflexive and transitive. The rules of `Prog.Keeps` take these two facts each time; here they are packaged once,
and there is one rule for each form the programs come in.
-/

namespace MicroReticulum.Library.Prog

variable {ε σ α β : Type} {R : σ → σ → Prop}

/-- A function boundary does not change the state. -/
theorem call_state (m : Prog ε σ Unit) (s : σ) : (call m s).2 = (m s).2 := by
  unfold call
  rcases m s with ⟨_ | _ | _ | _, t⟩ <;> rfl

/-- A loop over one element leaves the state of its body. -/
theorem forEach_singleton_state (b : β) (f : β → Prog ε σ Unit) (s : σ) : (forEach [b] f s).2 = (f b s).2 := by
  show ((f b >>= fun _ => Pure.pure ()) s).2 = _
  rw [bind_run]
  rcases f b s with ⟨_ | _ | _ | _, t⟩ <;> rfl

/-- A relation that holds where nothing happens, and of two programs if it holds of each. -/
structure Frame (R : σ → σ → Prop) : Prop where
  refl : ∀ s, R s s
  trans : ∀ s t u, R s t → R t u → R s u

namespace Frame

variable {m : Prog ε σ α} {g : α → Prog ε σ β} {f : σ → σ}

theorem pure (hR : Frame R) (a : α) : Keeps R (Pure.pure a : Prog ε σ α) := .pure hR.refl a

theorem leave (hR : Frame R) : Keeps R (Prog.leave : Prog ε σ α) := .leave hR.refl

theorem bind (hR : Frame R) (hm : Keeps R m) (hg : ∀ a, Keeps R (g a)) : Keeps R (m >>= g) :=
  .bind hR.trans hm hg

theorem get_bind (hR : Frame R) {g : σ → Prog ε σ β} (hg : ∀ s, Keeps R (g s)) : Keeps R (Prog.get >>= g) :=
  hR.bind (.get hR.refl) hg

theorem modify_bind (hR : Frame R) {g : Unit → Prog ε σ β} (hf : ∀ s, R s (f s)) (hg : Keeps R (g ())) :
    Keeps R (Prog.modify f >>= g) := hR.bind (.modify hf) fun _ => hg

theorem require_bind (hR : Frame R) {c : Prop} [Decidable c] {e : ε} {g : Unit → Prog ε σ β}
    (hg : Keeps R (g ())) : Keeps R (Prog.require c e >>= g) := hR.bind (.require hR.refl c e) fun _ => hg

theorem ofExcept_bind (hR : Frame R) {r : Except ε α} (hg : ∀ a, Keeps R (g a)) :
    Keeps R (Prog.ofExcept r >>= g) := hR.bind (.ofExcept hR.refl r) hg

theorem when (hR : Frame R) {c : Prop} [Decidable c] {m : Prog ε σ Unit} (hm : Keeps R m) :
    Keeps R (Prog.when c m) := .when hR.refl fun _ => hm

theorem catching (hR : Frame R) {h : ε → Prog ε σ α} (hm : Keeps R m) (hh : ∀ e, Keeps R (h e)) :
    Keeps R (Prog.catching m h) := .catching hR.trans hm hh

theorem forEach (hR : Frame R) {f : β → Prog ε σ Unit} (hf : ∀ b, Keeps R (f b)) (bs : List β) :
    Keeps R (Prog.forEach bs f) := .forEach hR.refl hR.trans bs fun b _ => hf b

/-- One more program behind a run whose end is known. -/
theorem after (hR : Frame R) {s s' : σ} (hm : R s (m s').2) (hg : ∀ a, Keeps R (g a)) :
    R s ((m >>= g) s').2 := by
  rw [bind_run]
  rcases hrun : m s' with ⟨a | _ | _ | _, t⟩ <;> rw [hrun] at hm
  case value => exact hR.trans s t _ hm (hg a t)
  all_goals exact hm

end Frame

end MicroReticulum.Library.Prog
