import Mathlib.Data.List.AList
import Mathlib.Data.List.Basic

/-!
# Position indices beside a list

A map from keys to positions stands beside a list that grows at its end. Only some entries need to have a key. The map
is the index of the list (`Indexes`) if it gives, under each key, the position of the one entry with that key; a new
entry keeps it so if the key was free.
-/

namespace MicroReticulum.Library

variable {α κ : Type} [DecidableEq κ] {key : α → Option κ} {l : List α} {index : AList fun _ : κ => Nat}
  {x : α} {k : κ} {i : Nat}

/-- The map gives the position of the entry with a key, for each key. -/
def Indexes (key : α → Option κ) (l : List α) (index : AList fun _ : κ => Nat) : Prop :=
  ∀ k i, index.lookup k = some i ↔ ∃ x, l[i]? = some x ∧ key x = some k

/-- The entry an index leads to. -/
def indexed (l : List α) (index : AList fun _ : κ => Nat) (k : κ) : Option α :=
  (index.lookup k).bind fun i => l[i]?

theorem getElem?_concat_iff {y : α} : (l ++ [x])[i]? = some y ↔ l[i]? = some y ∨ i = l.length ∧ x = y := by
  rw [List.getElem?_append, List.getElem?_singleton]
  by_cases hi : i < l.length
  · simp [hi, Nat.ne_of_lt hi]
  · have hlast : i - l.length = 0 ↔ i = l.length := by omega
    simp [hi, hlast]

namespace Indexes

theorem empty : Indexes key [] (∅ : AList fun _ : κ => Nat) := by
  intro k i
  simp

/-- Two entries with the same key are the same. -/
theorem unique (h : Indexes key l index) {y : α} (hx : x ∈ l) (hy : y ∈ l) (hkx : key x = some k)
    (hky : key y = some k) : x = y := by
  obtain ⟨i, hi⟩ := List.mem_iff_getElem?.mp hx
  obtain ⟨j, hj⟩ := List.mem_iff_getElem?.mp hy
  have hli := (h k i).mpr ⟨x, hi, hkx⟩
  rw [(h k j).mpr ⟨y, hj, hky⟩] at hli
  cases hli
  exact Option.some.inj (hi.symm.trans hj)

/-- A key is found exactly if an entry has it. -/
theorem lookup_isSome_iff (h : Indexes key l index) : (index.lookup k).isSome ↔ ∃ x ∈ l, key x = some k := by
  rw [Option.isSome_iff_exists]
  constructor
  · rintro ⟨i, hi⟩
    obtain ⟨x, hx, hk⟩ := (h k i).mp hi
    exact ⟨x, List.mem_of_getElem? hx, hk⟩
  · rintro ⟨x, hx, hk⟩
    obtain ⟨i, hi⟩ := List.mem_iff_getElem?.mp hx
    exact ⟨i, (h k i).mpr ⟨x, hi, hk⟩⟩

theorem indexed_eq_some_iff (h : Indexes key l index) : indexed l index k = some x ↔ x ∈ l ∧ key x = some k := by
  unfold indexed
  rw [Option.bind_eq_some_iff]
  constructor
  · rintro ⟨i, hi, hx⟩
    obtain ⟨y, hy, hk⟩ := (h k i).mp hi
    rw [hx] at hy
    cases hy
    exact ⟨List.mem_of_getElem? hx, hk⟩
  · rintro ⟨hx, hk⟩
    obtain ⟨i, hi⟩ := List.mem_iff_getElem?.mp hx
    exact ⟨i, (h k i).mpr ⟨x, hi, hk⟩, hi⟩

/-- A new entry without a key. -/
theorem concat_of_none (h : Indexes key l index) (hx : key x = none) : Indexes key (l ++ [x]) index := by
  intro k i
  rw [h k i]
  constructor
  · rintro ⟨y, hy, hk⟩
    exact ⟨y, getElem?_concat_iff.mpr (.inl hy), hk⟩
  · rintro ⟨y, hy, hk⟩
    rcases getElem?_concat_iff.mp hy with hy | ⟨-, rfl⟩
    · exact ⟨y, hy, hk⟩
    · rw [hx] at hk
      cases hk

/-- A new entry with a key that was free. -/
theorem concat_insert (h : Indexes key l index) (hx : key x = some k) (hfree : index.lookup k = none) :
    Indexes key (l ++ [x]) (index.insert k l.length) := by
  intro k' i
  by_cases hk : k' = k
  · subst hk
    rw [AList.lookup_insert, Option.some_inj]
    constructor
    · rintro rfl
      exact ⟨x, getElem?_concat_iff.mpr (.inr ⟨rfl, rfl⟩), hx⟩
    · rintro ⟨y, hy, hky⟩
      rcases getElem?_concat_iff.mp hy with hy | ⟨hi, -⟩
      · rw [(h k' i).mpr ⟨y, hy, hky⟩] at hfree
        cases hfree
      · exact hi.symm
  · rw [AList.lookup_insert_ne hk, h k' i]
    constructor
    · rintro ⟨y, hy, hky⟩
      exact ⟨y, getElem?_concat_iff.mpr (.inl hy), hky⟩
    · rintro ⟨y, hy, hky⟩
      rcases getElem?_concat_iff.mp hy with hy | ⟨-, rfl⟩
      · exact ⟨y, hy, hky⟩
      · rw [hx] at hky
        exact absurd (Option.some.inj hky).symm hk

end Indexes

end MicroReticulum.Library
