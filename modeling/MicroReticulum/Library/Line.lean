import Mathlib.Data.List.Basic
import Mathlib.Logic.Function.Iterate

/-!
# Nodes in a line

A message is handed from node to node, and each of them changes its state, and may change the message or keep it to
itself. `carry` is the whole way, and `Carried` says what each node heard where the message came out at the other end.
If every node that passes a message on makes the same change to it, whether it comes out is a question to each node
alone (`carry_eq_some_iff`).
-/

namespace MicroReticulum.Library

variable {N M : Type*}

/-- Hand a message along a line: the nodes behind it, and what comes out at the end. -/
def carry (pass : N → M → N × Option M) : List N → M → List N × Option M
  | [], m => ([], some m)
  | n :: l, m =>
    match pass n m with
    | (n', none) => (n' :: l, none)
    | (n', some m') => (n' :: (carry pass l m').1, (carry pass l m').2)

/-- A message comes out at the end of a line. -/
inductive Carried (pass : N → M → N × Option M) : List N → M → List N → M → Prop
  | nil (m : M) : Carried pass [] m [] m
  | cons {n n' : N} {m m' out : M} {l l' : List N} (hpass : pass n m = (n', some m'))
    (hrest : Carried pass l m' l' out) : Carried pass (n :: l) m (n' :: l') out

/-- Each node of a line holds with what it hears, if the nodes before it have changed the message by `next`. -/
def Along (P : N → M → Prop) (next : M → M) : List N → M → Prop
  | [], _ => True
  | n :: l, m => P n m ∧ Along P next l (next m)

variable {pass : N → M → N × Option M} {next : M → M} {P Q : N → M → Prop} {n : N} {m out : M} {l l' : List N}

theorem carried_of_carry (h : (carry pass l m).2 = some out) : Carried pass l m (carry pass l m).1 out := by
  induction l generalizing m with
  | nil =>
    cases h
    exact .nil _
  | cons n l ih =>
    unfold carry at h ⊢
    rcases hpass : pass n m with ⟨n', _ | m'⟩ <;> rw [hpass] at h
    case none => cases h
    case some => exact .cons hpass (ih h)

theorem Carried.length (h : Carried pass l m l' out) : l'.length = l.length := by
  induction h with
  | nil => rfl
  | cons _ _ ih => simp [ih]

/-- Node by node. -/
theorem along_iff_getElem : Along P next l m ↔ ∀ j (hj : j < l.length), P l[j] (next^[j] m) := by
  induction l generalizing m with
  | nil => simp [Along]
  | cons n l ih =>
    unfold Along
    rw [ih]
    constructor
    · rintro ⟨hfirst, hrest⟩ j hj
      cases j with
      | zero => exact hfirst
      | succ j => exact hrest j (Nat.lt_of_succ_lt_succ hj)
    · intro h
      exact ⟨h 0 (Nat.zero_lt_succ _), fun j hj => h (j + 1) (Nat.succ_lt_succ hj)⟩

theorem Along.of_forall {I : M → Prop} (hnext : ∀ m, I m → I (next m)) (h : ∀ n ∈ l, ∀ m, I m → P n m) (hm : I m) :
    Along P next l m := by
  induction l generalizing m with
  | nil => trivial
  | cons n l ih =>
    exact ⟨h n List.mem_cons_self m hm, ih (fun n hn => h n (List.mem_cons_of_mem _ hn)) (hnext m hm)⟩

/-- A message comes out of a line exactly if every node takes it, where each node passes it on with the same change if
it takes it, and keeps it otherwise. -/
theorem carry_eq_some_iff {takes : N → M → Prop}
    (h : Along (fun n m => takes n m ∧ (pass n m).2 = some (next m) ∨ ¬ takes n m ∧ (pass n m).2 = none) next l m) :
    (carry pass l m).2 = some (next^[l.length] m) ↔ Along takes next l m := by
  induction l generalizing m with
  | nil => simp [carry, Along]
  | cons n l ih =>
    obtain ⟨hfirst, hrest⟩ := h
    unfold carry Along
    rcases hpass : pass n m with ⟨n', _ | m'⟩ <;> rw [hpass] at hfirst
    case none =>
      rcases hfirst with ⟨_, hsome⟩ | ⟨hnot, -⟩
      · cases hsome
      · simp [hnot]
    case some =>
      rcases hfirst with ⟨htakes, hsome⟩ | ⟨-, hnone⟩
      · cases hsome
        simpa [htakes] using ih hrest
      · cases hnone

/-- A message that every node passes on comes out, with one change for each node. -/
theorem carry_of_forall (f : ℕ → M) (h : ∀ n ∈ l, ∀ k, (pass n (f k)).2 = some (f (k + 1))) :
    (carry pass l (f 0)).2 = some (f l.length) := by
  induction l generalizing f with
  | nil => rfl
  | cons n l ih =>
    have hfirst := h n List.mem_cons_self 0
    have hrest := ih (fun k => f (k + 1)) fun n hn k => h n (List.mem_cons_of_mem _ hn) (k + 1)
    unfold carry
    rcases hpass : pass n (f 0) with ⟨n', _ | m'⟩ <;> rw [hpass] at hfirst
    case none => cases hfirst
    case some =>
      cases hfirst
      exact hrest

end MicroReticulum.Library
