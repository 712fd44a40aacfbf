import Mathlib.Data.List.Basic
import Mathlib.Algebra.Order.Group.Nat

/-!
# Slots that are filled one by one

A list of optional values stands for an array of slots, each of which is filled once. `filledCount` and
`filledPrefix` are what is kept about them: how many are filled, and how many are filled before the first that is
not.
-/

namespace MicroReticulum.Library

variable {α : Type} {slots : List (Option α)} {i n : Nat} {a : α}

/-- How many slots are filled. -/
def filledCount (slots : List (Option α)) : Nat := slots.countP Option.isSome

/-- How many slots are filled before the first one that is not. -/
def filledPrefix (slots : List (Option α)) : Nat := (slots.takeWhile Option.isSome).length

/-- The slot is filled. -/
def Filled (slots : List (Option α)) (i : Nat) : Prop := ∃ a, slots[i]? = some (some a)

theorem filledCount_le (slots : List (Option α)) : filledCount slots ≤ slots.length := List.countP_le_length

/-- All of them are filled where the count says so. -/
theorem filledCount_eq_length_iff : filledCount slots = slots.length ↔ ∀ slot ∈ slots, slot.isSome :=
  List.countP_eq_length

@[simp] theorem filledCount_replicate (n : Nat) : filledCount (List.replicate n (none : Option α)) = 0 := by
  simp [filledCount, List.countP_replicate]

@[simp] theorem filledPrefix_replicate (n : Nat) : filledPrefix (List.replicate n (none : Option α)) = 0 := by
  cases n <;> simp [filledPrefix, List.replicate_succ]

/-- One more slot is filled. -/
theorem filledCount_set (h : slots[i]? = some none) : filledCount (slots.set i (some a)) = filledCount slots + 1 := by
  obtain ⟨hi, hempty⟩ := List.getElem?_eq_some_iff.mp h
  have hset := List.countP_set (p := Option.isSome) (a := some a) hi
  rw [hempty] at hset
  simpa [filledCount] using hset

theorem Filled.set {j : Nat} (h : slots[i]? = some none) (hj : Filled slots j) : Filled (slots.set i (some a)) j := by
  obtain ⟨b, hb⟩ := hj
  refine ⟨b, ?_⟩
  rw [List.getElem?_set_ne (fun hij => ?_), hb]
  rw [hij, hb] at h
  cases h

theorem filled_set_self (h : slots[i]? = some none) : Filled (slots.set i (some a)) i := by
  obtain ⟨hi, -⟩ := List.getElem?_eq_some_iff.mp h
  exact ⟨a, by rw [List.getElem?_set_self hi]⟩

/-- Behind slots that are filled the prefix goes on as far as it does in the rest. -/
theorem filledPrefix_eq_add (h : ∀ j < n, Filled slots j) : filledPrefix slots = n + filledPrefix (slots.drop n) := by
  induction n generalizing slots with
  | zero => simp
  | succ n ih =>
    cases slots with
    | nil =>
      obtain ⟨a, ha⟩ := h 0 (Nat.succ_pos n)
      cases ha
    | cons slot slots =>
      obtain ⟨a, ha⟩ := h 0 (Nat.succ_pos n)
      cases ha
      have hrest := ih fun j hj => h (j + 1) (Nat.succ_lt_succ hj)
      simp only [filledPrefix, List.takeWhile_cons, Option.isSome_some, if_true, List.length_cons,
        List.drop_succ_cons] at hrest ⊢
      omega

/-- The prefix reaches as far as slots are filled. -/
theorem le_filledPrefix (h : ∀ j < n, Filled slots j) : n ≤ filledPrefix slots := by
  rw [filledPrefix_eq_add h]
  exact Nat.le_add_right n _

/-- The slots of the prefix are filled. -/
theorem filled_of_lt (h : i < filledPrefix slots) : Filled slots i := by
  induction slots generalizing i with
  | nil => exact absurd h (Nat.not_lt_zero i)
  | cons slot slots ih =>
    cases slot with
    | none => exact absurd h (Nat.not_lt_zero i)
    | some a =>
      cases i with
      | zero => exact ⟨a, rfl⟩
      | succ i => exact ih (by simpa [filledPrefix, List.takeWhile_cons] using h)

/-- The slot behind the prefix is not. -/
theorem not_filled_filledPrefix (slots : List (Option α)) : ¬ Filled slots (filledPrefix slots) := by
  intro h
  have hle : filledPrefix slots + 1 ≤ filledPrefix slots := by
    refine le_filledPrefix fun j hj => ?_
    obtain hlt | rfl := Nat.lt_succ_iff_lt_or_eq.mp hj
    · exact filled_of_lt hlt
    · exact h
  omega

end MicroReticulum.Library
