import Mathlib.Data.List.Basic
import Mathlib.Logic.Basic

/-!
# Imperative programs with four ways to end

A program reads and writes a state `σ`. It ends with a value, it leaves the enclosing function
early, it throws, or it never gets past a loop that waits for another party. The four are the
constructors of `Outcome`; the state is kept in all of them, since a caller that catches an
exception sees what the callee had already written.

`Prog.Ends` states a postcondition over the outcome and the final state. The rules below follow
the program constructors (sequencing, function boundary, exception handler, loop over a list), and
`Prog.Keeps` is the frame form used for "this program does not touch that part of the state".

Waiting is a final outcome here, so a statement about a program that waits is a statement about
one that does not return. Nothing is said about how long a returning program runs.
-/

namespace MicroReticulum.Library

/-- How a program ends. -/
inductive Outcome (ε α : Type) where
  /-- the program ran to its end and produced a value -/
  | value (a : α)
  /-- a `return` statement left the enclosing function -/
  | returned
  /-- an exception is propagating -/
  | thrown (e : ε)
  /-- the program waits for a condition that nothing will change -/
  | waits
  deriving DecidableEq, Repr

namespace Outcome

variable {ε α : Type}

/-- The call came back to its caller, normally or by an exception. -/
def Ended : Outcome ε α → Prop
  | .waits => False
  | _ => True

instance : DecidablePred (Ended (ε := ε) (α := α)) := fun o => by
  cases o <;> unfold Ended <;> infer_instance

/-- The same ending, with another value. -/
def map {β : Type} (f : α → β) : Outcome ε α → Outcome ε β
  | .value a => .value (f a)
  | .returned => .returned
  | .thrown e => .thrown e
  | .waits => .waits

end Outcome

/-- A program over the state `σ` with exceptions `ε`. -/
def Prog (ε σ α : Type) : Type := σ → Outcome ε α × σ

namespace Prog

variable {ε σ α β : Type}

/-- Sequencing: the second program runs only when the first one produced a value. -/
def bind (m : Prog ε σ α) (f : α → Prog ε σ β) : Prog ε σ β := fun s =>
  match m s with
  | (.value a, t) => f a t
  | (.returned, t) => (.returned, t)
  | (.thrown e, t) => (.thrown e, t)
  | (.waits, t) => (.waits, t)

instance : Monad (Prog ε σ) where
  pure a := fun s => (.value a, s)
  bind := bind

/-- The current state. -/
def get : Prog ε σ σ := fun s => (.value s, s)

/-- Change the state. -/
def modify (f : σ → σ) : Prog ε σ Unit := fun s => (.value (), f s)

/-- Throw an exception. -/
def throw (e : ε) : Prog ε σ α := fun s => (.thrown e, s)

/-- Leave the enclosing function. -/
def leave : Prog ε σ α := fun s => (.returned, s)

/-- Wait forever. -/
def wait : Prog ε σ α := fun s => (.waits, s)

/-- The boundary of a `void` function: an early `return` becomes a normal end. -/
def call (m : Prog ε σ Unit) : Prog ε σ Unit := fun s =>
  match m s with
  | (.returned, t) => (.value (), t)
  | r => r

/-- `try m catch h`: the handler runs in the state the exception left behind. -/
def catching (m : Prog ε σ α) (h : ε → Prog ε σ α) : Prog ε σ α := fun s =>
  match m s with
  | (.thrown e, t) => h e t
  | r => r

/-- The value of a pure computation that may throw. -/
def ofExcept (r : Except ε α) : Prog ε σ α := fun s =>
  match r with
  | .ok a => (.value a, s)
  | .error e => (.thrown e, s)

/-- Throw unless the condition holds. -/
def require (c : Prop) [Decidable c] (e : ε) : Prog ε σ Unit :=
  if c then pure () else throw e

/-- Run the program if the condition holds. -/
def when (c : Prop) [Decidable c] (m : Prog ε σ Unit) : Prog ε σ Unit :=
  if c then m else pure ()

/-- Run a program on a part of the state. -/
def zoom {τ : Type} (part : σ → τ) (put : τ → σ → σ) (m : Prog ε τ α) : Prog ε σ α := fun s =>
  ((m (part s)).1, put (m (part s)).2 s)

/-- Run the body for every element of a list, in order, with an accumulator. -/
def fold : List β → α → (α → β → Prog ε σ α) → Prog ε σ α
  | [], a, _ => pure a
  | b :: bs, a, f => f a b >>= fun a' => fold bs a' f

/-- Run the body for every element of a list, in order. -/
def forEach : List β → (β → Prog ε σ Unit) → Prog ε σ Unit
  | [], _ => pure ()
  | b :: bs, f => f b >>= fun _ => forEach bs f

/-- Run the body for every element of a list, in order, and collect the results. -/
def mapEach : List β → (β → Prog ε σ α) → Prog ε σ (List α)
  | [], _ => pure []
  | b :: bs, f => f b >>= fun a => mapEach bs f >>= fun as => pure (a :: as)

/-! ## Evaluation -/

@[simp] theorem pure_run (a : α) (s : σ) : (pure a : Prog ε σ α) s = (.value a, s) := rfl
@[simp] theorem get_run (s : σ) : (get : Prog ε σ σ) s = (.value s, s) := rfl
@[simp] theorem modify_run (f : σ → σ) (s : σ) :
    (modify f : Prog ε σ Unit) s = (.value (), f s) := rfl
@[simp] theorem throw_run (e : ε) (s : σ) : (throw e : Prog ε σ α) s = (.thrown e, s) := rfl
@[simp] theorem leave_run (s : σ) : (leave : Prog ε σ α) s = (.returned, s) := rfl
@[simp] theorem wait_run (s : σ) : (wait : Prog ε σ α) s = (.waits, s) := rfl

@[simp] theorem ofExcept_ok_run (a : α) (s : σ) :
    (ofExcept (.ok a) : Prog ε σ α) s = (.value a, s) := rfl
@[simp] theorem ofExcept_error_run (e : ε) (s : σ) :
    (ofExcept (.error e) : Prog ε σ α) s = (.thrown e, s) := rfl

theorem require_run_of {c : Prop} [Decidable c] (h : c) (e : ε) (s : σ) :
    (require c e : Prog ε σ Unit) s = (.value (), s) := by
  unfold require
  rw [if_pos h]
  rfl

theorem require_run_of_not {c : Prop} [Decidable c] (h : ¬ c) (e : ε) (s : σ) :
    (require c e : Prog ε σ Unit) s = (.thrown e, s) := by
  unfold require
  rw [if_neg h]
  rfl

theorem when_of {c : Prop} [Decidable c] (h : c) (m : Prog ε σ Unit) : when c m = m := if_pos h

theorem when_of_not {c : Prop} [Decidable c] (h : ¬ c) (m : Prog ε σ Unit) :
    when c m = pure () := if_neg h

/-- It runs, or nothing happens. -/
theorem when_run_cases (c : Prop) [Decidable c] (m : Prog ε σ Unit) (s : σ) :
    c ∧ when c m s = m s ∨ ¬ c ∧ when c m s = (.value (), s) := by
  by_cases h : c
  · exact .inl ⟨h, by rw [when_of h]⟩
  · exact .inr ⟨h, by rw [when_of_not h]; rfl⟩

theorem bind_run (m : Prog ε σ α) (f : α → Prog ε σ β) (s : σ) :
    (m >>= f) s = match m s with
      | (.value a, t) => f a t
      | (.returned, t) => (.returned, t)
      | (.thrown e, t) => (.thrown e, t)
      | (.waits, t) => (.waits, t) := rfl

/-- Sequencing after a program that produced a value. -/
theorem bind_value {m : Prog ε σ α} {f : α → Prog ε σ β} {s t : σ} {a : α}
    (h : m s = (.value a, t)) : (m >>= f) s = f a t := by
  rw [bind_run, h]

/-- A sequence that ends with a value ran through both programs. -/
theorem exists_of_bind_value {m : Prog ε σ α} {f : α → Prog ε σ β} {s u : σ} {b : β}
    (h : (m >>= f) s = (.value b, u)) : ∃ a t, m s = (.value a, t) ∧ f a t = (.value b, u) := by
  rw [bind_run] at h
  rcases hm : m s with ⟨a | _ | _ | _, t⟩ <;> rw [hm] at h
  case value => exact ⟨a, t, rfl, h⟩
  all_goals cases h

/-- A check that was passed holds. -/
theorem of_require_value {c : Prop} [Decidable c] {e : ε} {f : Unit → Prog ε σ β} {s u : σ} {b : β}
    (h : (require c e >>= f) s = (.value b, u)) : c ∧ f () s = (.value b, u) := by
  by_cases hc : c
  · rw [bind_value (require_run_of hc e s)] at h
    exact ⟨hc, h⟩
  · obtain ⟨_, t, hrequired, -⟩ := exists_of_bind_value h
    rw [require_run_of_not hc] at hrequired
    cases hrequired

/-- A result that was used is there. -/
theorem of_ofExcept_value {r : Except ε α} {f : α → Prog ε σ β} {s u : σ} {b : β}
    (h : (ofExcept r >>= f) s = (.value b, u)) : ∃ a, r = .ok a ∧ f a s = (.value b, u) := by
  cases r with
  | ok a => exact ⟨a, rfl, h⟩
  | error e => cases h

/-- Nothing runs after an exception. -/
theorem bind_thrown {m : Prog ε σ α} {f : α → Prog ε σ β} {s t : σ} {e : ε}
    (h : m s = (.thrown e, t)) : (m >>= f) s = (.thrown e, t) := by
  rw [bind_run, h]

/-- A handler that only answers leaves the state the program left. -/
theorem catching_pure_state (m : Prog ε σ α) (a : ε → α) (s : σ) :
    (catching m (fun e => Pure.pure (a e)) s).2 = (m s).2 := by
  unfold catching
  rcases m s with ⟨_ | _ | _ | _, t⟩ <;> rfl

@[simp] theorem get_bind_run (f : σ → Prog ε σ β) (s : σ) : (get >>= f) s = f s s := rfl
@[simp] theorem modify_bind_run (g : σ → σ) (f : Unit → Prog ε σ β) (s : σ) :
    (modify g >>= f) s = f () (g s) := rfl
/-- What follows may be replaced by what does the same. -/
theorem bind_congr_run (m : Prog ε σ α) {f g : α → Prog ε σ β} (h : ∀ a t, f a t = g a t) (s : σ) :
    (m >>= f) s = (m >>= g) s := by
  rw [bind_run, bind_run]
  rcases m s with ⟨a | _ | _ | _, t⟩
  case value => exact h a t
  all_goals rfl

/-- The same where only the values that occur count. -/
theorem bind_congr_value {m : Prog ε σ α} {f g : α → Prog ε σ β} {s : σ}
    (h : ∀ a t, m s = (.value a, t) → f a t = g a t) : (m >>= f) s = (m >>= g) s := by
  rw [bind_run, bind_run]
  rcases hm : m s with ⟨a | _ | _ | _, t⟩
  case value => exact h a t hm
  all_goals rfl

/-- A function boundary sees only what its body does from the state it is called in. -/
theorem call_congr_run {m m' : Prog ε σ Unit} {s : σ} (h : m s = m' s) : call m s = call m' s := by
  unfold call
  rw [h]

/-- Only the value is worked on. -/
theorem bind_pure_run (m : Prog ε σ α) (g : α → β) (s : σ) :
    (m >>= fun a => Pure.pure (g a)) s = ((m s).1.map g, (m s).2) := by
  rw [bind_run]
  rcases m s with ⟨a | _ | _ | _, t⟩ <;> rfl

/-- Mapping over a list runs its head first, and the rest only where the head gave a value. -/
theorem mapEach_cons_run (b : β) (bs : List β) (f : β → Prog ε σ α) (s : σ) :
    mapEach (b :: bs) f s = match f b s with
      | (.value a, t) => ((mapEach bs f t).1.map (a :: ·), (mapEach bs f t).2)
      | (.returned, t) => (.returned, t)
      | (.thrown e, t) => (.thrown e, t)
      | (.waits, t) => (.waits, t) := by
  show (f b >>= fun a => mapEach bs f >>= fun as => Pure.pure (a :: as)) s = _
  rw [bind_run]
  rcases f b s with ⟨a | _ | _ | _, t⟩
  case value => exact bind_pure_run (mapEach bs f) (a :: ·) t
  all_goals rfl

/-- Sequencing is associative. -/
theorem bind_assoc_run {γ : Type} (m : Prog ε σ α) (f : α → Prog ε σ β) (g : β → Prog ε σ γ)
    (s : σ) : ((m >>= f) >>= g) s = (m >>= fun a => f a >>= g) s := by
  rw [bind_run, bind_run, bind_run]
  rcases m s with ⟨a | _ | _ | _, t⟩ <;> rfl

/-- What a program ends with may be split off behind its first part. -/
theorem bind_split_run {γ : Type} (m : Prog ε σ α) {f : α → Prog ε σ γ} {f' : α → Prog ε σ β}
    {g : β → Prog ε σ γ} (h : ∀ a t, f a t = (f' a >>= g) t) (s : σ) :
    (m >>= f) s = ((m >>= f') >>= g) s := by
  rw [bind_assoc_run]
  exact bind_congr_run m h s

/-- Two loops with the same body are one. -/
theorem forEach_append_run (bs bs' : List β) (f : β → Prog ε σ Unit) (s : σ) :
    forEach (bs ++ bs') f s = (forEach bs f >>= fun _ => forEach bs' f) s := by
  induction bs generalizing s with
  | nil => rfl
  | cons b bs ih =>
    show (f b >>= fun _ => forEach (bs ++ bs') f) s
      = ((f b >>= fun _ => forEach bs f) >>= fun _ => forEach bs' f) s
    rw [bind_assoc_run]
    exact bind_congr_run (f b) (fun _ t => ih t) s

/-- A loop that counts in what every round came to collects the results first. -/
theorem fold_eq_mapEach {γ : Type} (bs : List β) (f : β → Prog ε σ γ) (g : α → γ → α) (a : α)
    (s : σ) :
    fold bs a (fun a b => f b >>= fun c => Pure.pure (g a c)) s
      = (mapEach bs f >>= fun cs => Pure.pure (cs.foldl g a)) s := by
  induction bs generalizing a s with
  | nil => rfl
  | cons b bs ih =>
    show ((f b >>= fun c => Pure.pure (g a c)) >>= fun a' =>
        fold bs a' (fun a b => f b >>= fun c => Pure.pure (g a c))) s
      = ((f b >>= fun c => mapEach bs f >>= fun cs => Pure.pure (c :: cs)) >>= fun cs =>
        Pure.pure (cs.foldl g a)) s
    rw [bind_assoc_run, bind_assoc_run]
    rw [bind_run, bind_run]
    rcases f b s with ⟨c | _ | _ | _, t⟩
    case value =>
      show fold bs (g a c) (fun a b => f b >>= fun c => Pure.pure (g a c)) t
        = ((mapEach bs f >>= fun cs => Pure.pure (c :: cs)) >>= fun cs =>
          Pure.pure (cs.foldl g a)) t
      rw [ih, bind_assoc_run]
      rfl
    all_goals rfl

@[simp] theorem pure_bind_run (a : α) (f : α → Prog ε σ β) (s : σ) :
    ((pure a : Prog ε σ α) >>= f) s = f a s := rfl

/-! ## Postconditions -/

/-- Run from `s`, the program ends in an outcome and a state that satisfy `Q`. -/
def Ends (m : Prog ε σ α) (s : σ) (Q : Outcome ε α → σ → Prop) : Prop := Q (m s).1 (m s).2

/-- A weaker postcondition follows from a stronger one. -/
theorem Ends.mono {m : Prog ε σ α} {s : σ} {Q R : Outcome ε α → σ → Prop}
    (h : m.Ends s Q) (himp : ∀ o t, Q o t → R o t) : m.Ends s R := himp _ _ h

/-- The sequencing rule: the values of the first program start the second one, every other
outcome is the outcome of the whole. -/
theorem Ends.bind {m : Prog ε σ α} {f : α → Prog ε σ β} {s : σ}
    {Q : Outcome ε β → σ → Prop}
    (h : m.Ends s fun o t => match o with
      | .value a => (f a).Ends t Q
      | .returned => Q .returned t
      | .thrown e => Q (.thrown e) t
      | .waits => Q .waits t) :
    (m >>= f).Ends s Q := by
  unfold Ends at h ⊢
  rw [bind_run]
  rcases hm : m s with ⟨_ | _ | _ | _, t⟩ <;> rw [hm] at h <;> exact h

/-- The rule for a function boundary. -/
theorem Ends.call {m : Prog ε σ Unit} {s : σ} {Q : Outcome ε Unit → σ → Prop}
    (h : m.Ends s fun o t => match o with
      | .returned => Q (.value ()) t
      | o => Q o t) :
    (Prog.call m).Ends s Q := by
  unfold Ends Prog.call at *
  rcases hm : m s with ⟨_ | _ | _ | _, t⟩ <;> rw [hm] at h <;> simpa [hm] using h

/-- The rule for an exception handler. -/
theorem Ends.catching {m : Prog ε σ α} {hd : ε → Prog ε σ α} {s : σ}
    {Q : Outcome ε α → σ → Prop}
    (h : m.Ends s fun o t => match o with
      | .thrown e => (hd e).Ends t Q
      | o => Q o t) :
    (Prog.catching m hd).Ends s Q := by
  unfold Ends Prog.catching at *
  rcases hm : m s with ⟨_ | _ | _ | _, t⟩ <;> rw [hm] at h <;> simpa [hm] using h

/-- Whatever value the program ends with satisfies `P`. -/
def Returns (P : α → Prop) (m : Prog ε σ α) : Prop := ∀ s a t, m s = (.value a, t) → P a

theorem Returns.pure {P : α → Prop} {a : α} (h : P a) : Returns P (Pure.pure a : Prog ε σ α) := by
  intro s b t hrun
  cases hrun
  exact h

/-- Only the last program of a sequence decides what is returned. -/
theorem Returns.bind {P : β → Prop} (m : Prog ε σ α) {f : α → Prog ε σ β}
    (hf : ∀ a, Returns P (f a)) : Returns P (m >>= f) := by
  intro s b t hrun
  rw [bind_run] at hrun
  rcases hm : m s with ⟨a | _ | _ | _, u⟩ <;> rw [hm] at hrun
  case value => exact hf a u b t hrun
  all_goals cases hrun

/-- The program ends with a value or an exception: it neither waits nor leaves its caller. -/
def Answers (m : Prog ε σ α) : Prop :=
  ∀ s, (∃ a, (m s).1 = .value a) ∨ ∃ e, (m s).1 = .thrown e

theorem Answers.pure (a : α) : Answers (Pure.pure a : Prog ε σ α) := fun _ => .inl ⟨a, rfl⟩

theorem Answers.get : Answers (Prog.get : Prog ε σ σ) := fun s => .inl ⟨s, rfl⟩

theorem Answers.modify (f : σ → σ) : Answers (Prog.modify f : Prog ε σ Unit) := fun _ => .inl ⟨(), rfl⟩

theorem Answers.ofExcept (r : Except ε α) : Answers (Prog.ofExcept r : Prog ε σ α) := by
  intro s
  cases r with
  | ok a => exact .inl ⟨a, rfl⟩
  | error e => exact .inr ⟨e, rfl⟩

theorem Answers.require (c : Prop) [Decidable c] (e : ε) : Answers (Prog.require c e : Prog ε σ Unit) := by
  intro s
  by_cases h : c
  · exact .inl ⟨(), congrArg Prod.fst (require_run_of h e s)⟩
  · exact .inr ⟨e, congrArg Prod.fst (require_run_of_not h e s)⟩

theorem Answers.when {c : Prop} [Decidable c] {m : Prog ε σ Unit} (hm : Answers m) :
    Answers (Prog.when c m) := by
  unfold Prog.when
  split
  · exact hm
  · exact Answers.pure ()

theorem Answers.bind {m : Prog ε σ α} {f : α → Prog ε σ β} (hm : Answers m)
    (hf : ∀ a, Answers (f a)) : Answers (m >>= f) := by
  intro s
  rw [bind_run]
  rcases hrun : m s with ⟨a | _ | e | _, t⟩
  case value => exact hf a t
  case thrown => exact .inr ⟨e, rfl⟩
  all_goals simpa [hrun] using hm s

/-- With a handler that answers with a value, nothing but a value comes out. -/
theorem Answers.catching {m : Prog ε σ α} (hm : Answers m) (a : ε → α) (s : σ) :
    ∃ b, (Prog.catching m (fun e => Pure.pure (a e)) s).1 = .value b := by
  unfold Prog.catching
  rcases hrun : m s with ⟨b | _ | e | _, t⟩
  case value => exact ⟨b, rfl⟩
  case thrown => exact ⟨a e, rfl⟩
  all_goals simpa [hrun] using hm s

/-- The program never leaves the function it is part of. -/
def NeverLeaves (m : Prog ε σ α) : Prop := ∀ s, (m s).1 ≠ .returned

section NeverLeaves

theorem NeverLeaves.pure (a : α) : NeverLeaves (Pure.pure a : Prog ε σ α) := by
  intro s h
  cases h

theorem NeverLeaves.get : NeverLeaves (Prog.get : Prog ε σ σ) := by
  intro s h
  cases h

theorem NeverLeaves.modify (f : σ → σ) : NeverLeaves (Prog.modify f : Prog ε σ Unit) := by
  intro s h
  cases h

theorem NeverLeaves.wait : NeverLeaves (Prog.wait : Prog ε σ α) := by
  intro s h
  cases h

theorem NeverLeaves.ofExcept (r : Except ε α) : NeverLeaves (Prog.ofExcept r : Prog ε σ α) := by
  intro s h
  cases r <;> cases h

theorem NeverLeaves.require (c : Prop) [Decidable c] (e : ε) :
    NeverLeaves (Prog.require c e : Prog ε σ Unit) := by
  unfold Prog.require
  split
  · exact NeverLeaves.pure ()
  · intro s h
    cases h

theorem NeverLeaves.when {c : Prop} [Decidable c] {m : Prog ε σ Unit} (hm : NeverLeaves m) :
    NeverLeaves (Prog.when c m) := by
  unfold Prog.when
  split
  · exact hm
  · exact NeverLeaves.pure ()

theorem NeverLeaves.ite {c : Prop} [Decidable c] {m₁ m₂ : Prog ε σ α} (h₁ : NeverLeaves m₁)
    (h₂ : NeverLeaves m₂) : NeverLeaves (if c then m₁ else m₂) := by
  split
  · exact h₁
  · exact h₂

theorem NeverLeaves.bind {m : Prog ε σ α} {f : α → Prog ε σ β} (hm : NeverLeaves m)
    (hf : ∀ a, NeverLeaves (f a)) : NeverLeaves (m >>= f) := by
  intro s
  rw [bind_run]
  rcases hms : m s with ⟨a | _ | _ | _, t⟩
  case value => exact hf a t
  case returned => exact fun _ => hm s (congrArg Prod.fst hms)
  all_goals
    intro h
    cases h

theorem NeverLeaves.catching {m : Prog ε σ α} {hd : ε → Prog ε σ α} (hm : NeverLeaves m)
    (hh : ∀ e, NeverLeaves (hd e)) : NeverLeaves (Prog.catching m hd) := by
  intro s
  unfold Prog.catching
  rcases hms : m s with ⟨_ | _ | e | _, t⟩
  case thrown => exact hh e t
  case returned => exact fun _ => hm s (congrArg Prod.fst hms)
  all_goals
    intro h
    cases h

/-- A loop that carries a value has no early return if its body has none. -/
theorem NeverLeaves.fold {f : α → β → Prog ε σ α} (hf : ∀ a b, NeverLeaves (f a b)) (bs : List β)
    (a : α) : NeverLeaves (Prog.fold bs a f) := by
  induction bs generalizing a with
  | nil => exact NeverLeaves.pure a
  | cons b bs ih => exact (hf a b).bind ih

theorem NeverLeaves.forEach {f : β → Prog ε σ Unit} (hf : ∀ b, NeverLeaves (f b)) (bs : List β) :
    NeverLeaves (Prog.forEach bs f) := by
  induction bs with
  | nil => exact NeverLeaves.pure ()
  | cons b bs ih => exact (hf b).bind fun _ => ih

end NeverLeaves

/-- The program ends with a value, from every state. -/
def Succeeds (m : Prog ε σ α) : Prop := ∀ s, ∃ a t, m s = (.value a, t)

theorem Succeeds.pure (a : α) : Succeeds (Pure.pure a : Prog ε σ α) := fun s => ⟨a, s, rfl⟩

theorem Succeeds.get : Succeeds (Prog.get : Prog ε σ σ) := fun s => ⟨s, s, rfl⟩

theorem Succeeds.modify (f : σ → σ) : Succeeds (Prog.modify f : Prog ε σ Unit) :=
  fun s => ⟨(), f s, rfl⟩

theorem Succeeds.when {c : Prop} [Decidable c] {m : Prog ε σ Unit} (hm : Succeeds m) :
    Succeeds (Prog.when c m) := by
  unfold Prog.when
  split
  · exact hm
  · exact Succeeds.pure ()

theorem Succeeds.bind {m : Prog ε σ α} {f : α → Prog ε σ β} (hm : Succeeds m)
    (hf : ∀ a, Succeeds (f a)) : Succeeds (m >>= f) := by
  intro s
  obtain ⟨a, t, hrun⟩ := hm s
  rw [bind_value hrun]
  exact hf a t

theorem Succeeds.fold {f : α → β → Prog ε σ α} (hf : ∀ a b, Succeeds (f a b)) (bs : List β)
    (a : α) : Succeeds (Prog.fold bs a f) := by
  induction bs generalizing a with
  | nil => exact Succeeds.pure a
  | cons b bs ih => exact (hf a b).bind ih

theorem Succeeds.forEach {f : β → Prog ε σ Unit} (hf : ∀ b, Succeeds (f b)) (bs : List β) :
    Succeeds (Prog.forEach bs f) := by
  induction bs with
  | nil => exact Succeeds.pure ()
  | cons b bs ih => exact (hf b).bind fun _ => ih

/-! ## Frames -/

/-- However the program ends, the relation `R` holds between the first and the last state. -/
def Keeps (R : σ → σ → Prop) (m : Prog ε σ α) : Prop := ∀ s, R s (m s).2

section Keeps

variable {R : σ → σ → Prop}

theorem Keeps.pure (hrefl : ∀ s, R s s) (a : α) :
    Keeps R (Pure.pure a : Prog ε σ α) := fun s => hrefl s

theorem Keeps.get (hrefl : ∀ s, R s s) : Keeps R (Prog.get : Prog ε σ σ) := fun s => hrefl s

theorem Keeps.throw (hrefl : ∀ s, R s s) (e : ε) :
    Keeps R (Prog.throw e : Prog ε σ α) := fun s => hrefl s

theorem Keeps.leave (hrefl : ∀ s, R s s) :
    Keeps R (Prog.leave : Prog ε σ α) := fun s => hrefl s

theorem Keeps.wait (hrefl : ∀ s, R s s) :
    Keeps R (Prog.wait : Prog ε σ α) := fun s => hrefl s

theorem Keeps.modify {f : σ → σ} (h : ∀ s, R s (f s)) :
    Keeps R (Prog.modify f : Prog ε σ Unit) := h

theorem Keeps.ofExcept (hrefl : ∀ s, R s s) (r : Except ε α) :
    Keeps R (Prog.ofExcept r : Prog ε σ α) := by
  intro s
  cases r <;> exact hrefl s

theorem Keeps.require (hrefl : ∀ s, R s s) (c : Prop) [Decidable c] (e : ε) :
    Keeps R (Prog.require c e : Prog ε σ Unit) := by
  unfold Prog.require
  split
  · exact Keeps.pure hrefl ()
  · exact Keeps.throw hrefl e

theorem Keeps.when (hrefl : ∀ s, R s s) {c : Prop} [Decidable c] {m : Prog ε σ Unit}
    (hm : c → Keeps R m) : Keeps R (Prog.when c m) := by
  unfold Prog.when
  split
  case isTrue h => exact hm h
  case isFalse => exact Keeps.pure hrefl ()

/-- What holds behind a value of the program. -/
theorem Keeps.of_value {m : Prog ε σ α} (hm : Keeps R m) {s t : σ} {a : α}
    (h : m s = (.value a, t)) : R s t := by
  have hkept := hm s
  rw [h] at hkept
  exact hkept

theorem Keeps.bind (htrans : ∀ s t u, R s t → R t u → R s u)
    {m : Prog ε σ α} {f : α → Prog ε σ β} (hm : Keeps R m) (hf : ∀ a, Keeps R (f a)) :
    Keeps R (m >>= f) := by
  intro s
  have h1 := hm s
  rw [bind_run]
  rcases hms : m s with ⟨a | _ | _ | _, t⟩ <;> rw [hms] at h1
  case value => exact htrans s t _ h1 (hf a t)
  all_goals exact h1

/-- Whatever the first program does, the second one keeps `R` from the state it left on. -/
theorem Keeps.after (hrefl : ∀ s, R s s) (m : Prog ε σ α) {f : α → Prog ε σ β}
    (hf : ∀ a, Keeps R (f a)) (s : σ) : R (m s).2 ((m >>= f) s).2 := by
  rw [bind_run]
  rcases m s with ⟨a | _ | _ | _, t⟩
  case value => exact hf a t
  all_goals exact hrefl t

theorem Keeps.call {m : Prog ε σ Unit} (hm : Keeps R m) : Keeps R (Prog.call m) := by
  intro s
  have h1 := hm s
  unfold Prog.call
  rcases hms : m s with ⟨_ | _ | _ | _, t⟩ <;> rw [hms] at h1 <;> exact h1

theorem Keeps.catching (htrans : ∀ s t u, R s t → R t u → R s u)
    {m : Prog ε σ α} {hd : ε → Prog ε σ α} (hm : Keeps R m) (hh : ∀ e, Keeps R (hd e)) :
    Keeps R (Prog.catching m hd) := by
  intro s
  have h1 := hm s
  unfold Prog.catching
  rcases hms : m s with ⟨_ | _ | e | _, t⟩ <;> rw [hms] at h1
  case thrown => exact htrans s t _ h1 (hh e t)
  all_goals exact h1

theorem Keeps.ite {c : Prop} [Decidable c] {m₁ m₂ : Prog ε σ α} (h₁ : Keeps R m₁)
    (h₂ : Keeps R m₂) : Keeps R (if c then m₁ else m₂) := by
  split
  · exact h₁
  · exact h₂

/-- The loop rule with an accumulator. -/
theorem Keeps.fold (hrefl : ∀ s, R s s) (htrans : ∀ s t u, R s t → R t u → R s u)
    {f : α → β → Prog ε σ α} (bs : List β) (hf : ∀ b ∈ bs, ∀ a, Keeps R (f a b)) (a : α) :
    Keeps R (Prog.fold bs a f) := by
  induction bs generalizing a with
  | nil => exact Keeps.pure hrefl a
  | cons b bs ih =>
    exact Keeps.bind htrans (hf b List.mem_cons_self a) fun a' =>
      ih (fun x hx => hf x (List.mem_cons_of_mem b hx)) a'

theorem Keeps.mapEach (hrefl : ∀ s, R s s) (htrans : ∀ s t u, R s t → R t u → R s u)
    {f : β → Prog ε σ α} (bs : List β) (hf : ∀ b ∈ bs, Keeps R (f b)) :
    Keeps R (Prog.mapEach bs f) := by
  induction bs with
  | nil => exact Keeps.pure hrefl []
  | cons b bs ih =>
    refine Keeps.bind htrans (hf b List.mem_cons_self) fun _ => ?_
    exact Keeps.bind htrans (ih fun x hx => hf x (List.mem_cons_of_mem b hx)) fun _ =>
      Keeps.pure hrefl _

/-- The loop rule: what every body keeps, the whole loop keeps. -/
theorem Keeps.forEach (hrefl : ∀ s, R s s) (htrans : ∀ s t u, R s t → R t u → R s u)
    {f : β → Prog ε σ Unit} (bs : List β) (hf : ∀ b ∈ bs, Keeps R (f b)) :
    Keeps R (Prog.forEach bs f) := by
  induction bs with
  | nil => exact Keeps.pure hrefl ()
  | cons b bs ih =>
    exact Keeps.bind htrans (hf b List.mem_cons_self) fun _ =>
      ih fun x hx => hf x (List.mem_cons_of_mem b hx)

/-- The sequencing rule for a first program of which only a frame is known. -/
theorem Ends.bind_keeps {m : Prog ε σ α} {f : α → Prog ε σ β} {s : σ}
    {Q : Outcome ε β → σ → Prop} (hm : Keeps R m) (hf : ∀ a t, R s t → (f a).Ends t Q)
    (hstop : ∀ o t, (∀ b, o ≠ .value b) → R s t → Q o t) : (m >>= f).Ends s Q := by
  have hkept := hm s
  unfold Ends
  rw [bind_run]
  rcases hms : m s with ⟨a | _ | e | _, t⟩ <;> rw [hms] at hkept
  case value => exact hf a t hkept
  all_goals exact hstop _ t (fun b h => by cases h) hkept

end Keeps

end Prog

end MicroReticulum.Library
