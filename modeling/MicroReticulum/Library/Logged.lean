import MicroReticulum.Library.Prog

/-!
# Programs that note what they do

A program over `Logged σ κ` works on a state `σ` and notes events of type `κ`, oldest first. It has the
effect of a program over `σ` alone when the notes are dropped, which is `Erases`; the rules follow the
program constructors. `Notes` is the other half: what a program adds to the log.
-/

namespace MicroReticulum.Library

/-- A state, and what was noted on the way to it. -/
structure Logged (σ κ : Type) where
  state : σ
  log : List κ := []

namespace Logged

variable {ε σ κ α β : Type}

/-- Run a program that notes nothing. -/
def lift (m : Prog ε σ α) : Prog ε (Logged σ κ) α :=
  Prog.zoom state (fun t s => { s with state := t }) m

/-- Note an event. -/
def note (event : κ) : Prog ε (Logged σ κ) Unit :=
  Prog.modify fun s => { s with log := s.log ++ [event] }

theorem lift_run (m : Prog ε σ α) (s : Logged σ κ) :
    lift m s = ((m s.state).1, { s with state := (m s.state).2 }) := rfl

theorem lift_answers {m : Prog ε σ α} (h : m.Answers) :
    (lift m : Prog ε (Logged σ κ) α).Answers := fun s => h s.state

/-! ## Dropping the notes -/

/-- Apart from its notes, the program does what the other one does. -/
def Erases (m : Prog ε (Logged σ κ) α) (m' : Prog ε σ α) : Prop :=
  ∀ s, (m s).1 = (m' s.state).1 ∧ (m s).2.state = (m' s.state).2

theorem Erases.lift (m : Prog ε σ α) : Erases (Logged.lift m : Prog ε (Logged σ κ) α) m :=
  fun _ => ⟨rfl, rfl⟩

theorem Erases.pure (a : α) :
    Erases (Pure.pure a : Prog ε (Logged σ κ) α) (Pure.pure a) := fun _ => ⟨rfl, rfl⟩

theorem Erases.ofExcept (r : Except ε α) :
    Erases (Prog.ofExcept r : Prog ε (Logged σ κ) α) (Prog.ofExcept r) := by
  intro s
  cases r <;> exact ⟨rfl, rfl⟩

theorem Erases.bind {m : Prog ε (Logged σ κ) α} {m' : Prog ε σ α}
    {f : α → Prog ε (Logged σ κ) β} {f' : α → Prog ε σ β} (hm : Erases m m')
    (hf : ∀ a, Erases (f a) (f' a)) : Erases (m >>= f) (m' >>= f') := by
  intro s
  obtain ⟨houtcome, hstate⟩ := hm s
  rw [Prog.bind_run, Prog.bind_run]
  rcases hrun : m s with ⟨o, t⟩
  rcases hrun' : m' s.state with ⟨o', t'⟩
  rw [hrun, hrun'] at houtcome hstate
  cases houtcome
  cases hstate
  cases o with
  | value a => exact hf a t
  | returned => exact ⟨rfl, rfl⟩
  | thrown e => exact ⟨rfl, rfl⟩
  | waits => exact ⟨rfl, rfl⟩

/-- A note in front makes no difference. -/
theorem Erases.note_bind (event : κ) {f : Unit → Prog ε (Logged σ κ) β} {m' : Prog ε σ β}
    (hf : Erases (f ()) m') : Erases (note event >>= f) m' := fun s =>
  hf { s with log := s.log ++ [event] }

theorem Erases.when {c : Prop} [Decidable c] {m : Prog ε (Logged σ κ) Unit} {m' : Prog ε σ Unit}
    (hm : Erases m m') : Erases (Prog.when c m) (Prog.when c m') := by
  unfold Prog.when
  split
  · exact hm
  · exact Erases.pure ()

theorem Erases.catching {m : Prog ε (Logged σ κ) α} {m' : Prog ε σ α}
    {h : ε → Prog ε (Logged σ κ) α} {h' : ε → Prog ε σ α} (hm : Erases m m')
    (hh : ∀ e, Erases (h e) (h' e)) : Erases (Prog.catching m h) (Prog.catching m' h') := by
  intro s
  obtain ⟨houtcome, hstate⟩ := hm s
  unfold Prog.catching
  rcases hrun : m s with ⟨o, t⟩
  rcases hrun' : m' s.state with ⟨o', t'⟩
  rw [hrun, hrun'] at houtcome hstate
  cases houtcome
  cases hstate
  cases o with
  | thrown e => exact hh e t
  | value a => exact ⟨rfl, rfl⟩
  | returned => exact ⟨rfl, rfl⟩
  | waits => exact ⟨rfl, rfl⟩

/-! ## What is noted -/

/-- Run from `s`, the program notes exactly `events`. -/
def Notes (m : Prog ε (Logged σ κ) α) (s : Logged σ κ) (events : List κ) : Prop :=
  (m s).2.log = s.log ++ events

theorem Notes.lift (m : Prog ε σ α) (s : Logged σ κ) :
    Notes (Logged.lift m : Prog ε (Logged σ κ) α) s [] := (List.append_nil _).symm

theorem Notes.pure (a : α) (s : Logged σ κ) :
    Notes (Pure.pure a : Prog ε (Logged σ κ) α) s [] := (List.append_nil _).symm

theorem Notes.note (event : κ) (s : Logged σ κ) :
    Notes (note event : Prog ε (Logged σ κ) Unit) s [event] := rfl

/-- What follows a value notes behind it. -/
theorem Notes.bind {m : Prog ε (Logged σ κ) α} {f : α → Prog ε (Logged σ κ) β} {s : Logged σ κ}
    {first rest : List κ} {a : α} (hm : Notes m s first) (hvalue : (m s).1 = .value a)
    (hf : ∀ t, Notes (f a) t rest) : Notes (m >>= f) s (first ++ rest) := by
  unfold Notes at hm ⊢
  rw [Prog.bind_run]
  rcases hrun : m s with ⟨o, t⟩
  rw [hrun] at hm hvalue
  cases hvalue
  have hnext := hf t
  unfold Notes at hnext
  rw [hnext, hm, List.append_assoc]

/-- Nothing is noted behind an exception. -/
theorem Notes.bind_thrown {m : Prog ε (Logged σ κ) α} {f : α → Prog ε (Logged σ κ) β}
    {s : Logged σ κ} {first : List κ} {e : ε} (hm : Notes m s first) (hthrown : (m s).1 = .thrown e) :
    Notes (m >>= f) s first := by
  unfold Notes at hm ⊢
  rw [Prog.bind_run]
  rcases hrun : m s with ⟨o, t⟩
  rw [hrun] at hm hthrown
  cases hthrown
  exact hm

/-- A handler that only answers notes nothing. -/
theorem Notes.catching {m : Prog ε (Logged σ κ) α} {s : Logged σ κ} {events : List κ}
    (hm : Notes m s events) (a : ε → α) :
    Notes (Prog.catching m fun e => Pure.pure (a e)) s events := by
  unfold Notes at hm ⊢
  rw [Prog.catching_pure_state]
  exact hm

end Logged

end MicroReticulum.Library
