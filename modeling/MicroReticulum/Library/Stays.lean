import MicroReticulum.Library.Prog
import Mathlib.Logic.Relation

/-!
# Programs that stay within an invariant

A program writes its state in small steps, of which the relation `W` says what they may do, and between
operations an invariant `ok` holds of it. `Stays` says this of one run: every step of it is one of `W`, the
invariant holds again where the run ends, however that is, and a value it ends with satisfies a postcondition.

The invariant may be broken on the way. A program that breaks it is treated as one step of its callers, by a
proof of its own.
-/

namespace MicroReticulum.Library.Prog

open Relation (ReflTransGen)

variable {ε σ α β : Type} {W : σ → σ → Prop} {ok : σ → Prop}

/-- From a state that satisfies the invariant the program makes steps of `W` only, to a state that satisfies
it, and its value satisfies `Q`. -/
def Stays (W : σ → σ → Prop) (ok : σ → Prop) (m : Prog ε σ α) (s : σ) (Q : α → σ → Prop) : Prop :=
  ok s → ReflTransGen W s (m s).2 ∧ ok (m s).2 ∧ ∀ a, (m s).1 = .value a → Q a (m s).2

namespace Stays

variable {m : Prog ε σ α} {s : σ} {Q R : α → σ → Prop}

/-- The invariant may be used in the proof. -/
theorem assuming (h : ok s → Stays W ok m s Q) : Stays W ok m s Q := fun hs => h hs hs

theorem mono (h : Stays W ok m s Q) (himp : ∀ a t, ReflTransGen W s t → Q a t → R a t) :
    Stays W ok m s R := by
  intro hs
  obtain ⟨hw, hok, hq⟩ := h hs
  exact ⟨hw, hok, fun a ha => himp a _ hw (hq a ha)⟩

theorem weaken (h : Stays W ok m s Q) : Stays W ok m s fun _ _ => True :=
  h.mono fun _ _ _ _ => trivial

theorem pure {a : α} (h : Q a s) : Stays W ok (Pure.pure a : Prog ε σ α) s Q := by
  intro hs
  refine ⟨.refl, hs, fun b hb => ?_⟩
  cases hb
  exact h

theorem leave : Stays W ok (Prog.leave : Prog ε σ α) s Q := by
  intro hs
  refine ⟨.refl, hs, fun b hb => ?_⟩
  cases hb

theorem ofExcept {r : Except ε α} (h : ∀ a, r = .ok a → Q a s) :
    Stays W ok (Prog.ofExcept r : Prog ε σ α) s Q := by
  cases r with
  | ok a => exact Stays.pure (h a rfl)
  | error e =>
    intro hs
    refine ⟨.refl, hs, fun b hb => ?_⟩
    cases hb

theorem require {c : Prop} [Decidable c] {e : ε} {Q : Unit → σ → Prop} (h : c → Q () s) :
    Stays W ok (Prog.require c e : Prog ε σ Unit) s Q := by
  unfold Prog.require
  split
  case isTrue hc => exact Stays.pure (h hc)
  case isFalse =>
    intro hs
    refine ⟨.refl, hs, fun b hb => ?_⟩
    cases hb

/-- A write, and why it is one. -/
theorem modify {g : σ → σ} {Q : Unit → σ → Prop} (h : ok s → ReflTransGen W s (g s) ∧ ok (g s))
    (hq : Q () (g s)) : Stays W ok (Prog.modify g : Prog ε σ Unit) s Q := by
  intro hs
  exact ⟨(h hs).1, (h hs).2, fun _ _ => hq⟩

/-- The sequencing rule. -/
theorem bind {f : α → Prog ε σ β} {Q : β → σ → Prop} (hm : Stays W ok m s R)
    (hf : ∀ a t, ReflTransGen W s t → R a t → Stays W ok (f a) t Q) : Stays W ok (m >>= f) s Q := by
  intro hs
  obtain ⟨hw, hok, hr⟩ := hm hs
  rw [bind_run]
  rcases hrun : m s with ⟨a | _ | _ | _, t⟩ <;> rw [hrun] at hw hok hr
  case value =>
    obtain ⟨hw', hok', hq⟩ := hf a t hw (hr a rfl) hok
    exact ⟨hw.trans hw', hok', hq⟩
  all_goals
    refine ⟨hw, hok, fun b hb => ?_⟩
    cases hb

theorem get_bind {f : σ → Prog ε σ β} {Q : β → σ → Prop} (h : Stays W ok (f s) s Q) :
    Stays W ok (Prog.get >>= f) s Q := h

theorem modify_bind {g : σ → σ} {f : Unit → Prog ε σ β} {Q : β → σ → Prop}
    (hg : ok s → ReflTransGen W s (g s) ∧ ok (g s)) (hf : Stays W ok (f ()) (g s) Q) :
    Stays W ok (Prog.modify g >>= f) s Q := by
  refine Stays.bind (R := fun _ t => t = g s) (Stays.modify hg rfl) ?_
  rintro _ t - rfl
  exact hf

theorem when {c : Prop} [Decidable c] {m : Prog ε σ Unit} {Q : Unit → σ → Prop}
    (h : c → Stays W ok m s Q) (hskip : ¬ c → Q () s) : Stays W ok (Prog.when c m) s Q := by
  unfold Prog.when
  split
  case isTrue hc => exact h hc
  case isFalse hc => exact Stays.pure (hskip hc)

theorem ite {c : Prop} [Decidable c] {m₁ m₂ : Prog ε σ α} (h₁ : c → Stays W ok m₁ s Q)
    (h₂ : ¬ c → Stays W ok m₂ s Q) : Stays W ok (if c then m₁ else m₂) s Q := by
  split
  case isTrue hc => exact h₁ hc
  case isFalse hc => exact h₂ hc

/-- The rule for a function boundary, behind which nothing is known of how the body ended. -/
theorem call {m : Prog ε σ Unit} {Q : Unit → σ → Prop} (h : Stays W ok m s Q) :
    Stays W ok (Prog.call m) s fun _ _ => True := by
  intro hs
  obtain ⟨hw, hok, -⟩ := h hs
  unfold Prog.call
  rcases hrun : m s with ⟨_ | _ | _ | _, t⟩ <;> rw [hrun] at hw hok <;> exact ⟨hw, hok, fun _ _ => trivial⟩

/-- The rule for an exception handler. -/
theorem catching {hd : ε → Prog ε σ α} (hm : Stays W ok m s Q)
    (hh : ∀ e t, ReflTransGen W s t → Stays W ok (hd e) t Q) : Stays W ok (Prog.catching m hd) s Q := by
  intro hs
  obtain ⟨hw, hok, hq⟩ := hm hs
  unfold Prog.catching
  rcases hrun : m s with ⟨a | _ | e | _, t⟩ <;> rw [hrun] at hw hok hq
  case thrown =>
    obtain ⟨hw', hok', hq'⟩ := hh e t hw hok
    exact ⟨hw.trans hw', hok', hq'⟩
  all_goals exact ⟨hw, hok, hq⟩

/-- The loop rule: `J` holds before every round, of the elements that are left. -/
theorem forEach {f : β → Prog ε σ Unit} (J : List β → σ → Prop)
    (hf : ∀ b bs t, J (b :: bs) t → Stays W ok (f b) t fun _ u => J bs u) (bs : List β) (h : J bs s) :
    Stays W ok (Prog.forEach bs f) s fun _ t => J [] t := by
  induction bs generalizing s with
  | nil => exact Stays.pure h
  | cons b bs ih => exact Stays.bind (hf b bs s h) fun _ t _ ht => ih ht

/-- More may be written, as long as the invariant asked for is the same. -/
theorem widen {W' : σ → σ → Prop} {ok' : σ → Prop} (h : Stays W ok m s Q) (hw : ∀ t u, W t u → W' t u)
    (hok : ok' s → ok s) (hok' : ∀ t, ReflTransGen W s t → ok' s → ok t → ok' t) : Stays W' ok' m s Q := by
  intro hs
  obtain ⟨hrun, hend, hq⟩ := h (hok hs)
  exact ⟨ReflTransGen.mono hw _ _ hrun, hok' _ hrun hs hend, hq⟩

end Stays

end MicroReticulum.Library.Prog
