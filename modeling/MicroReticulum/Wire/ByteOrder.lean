import Mathlib.Data.List.Find
import Mathlib.Data.Set.Basic
import MicroReticulum.Wire.CopyOnWrite

/-!
# The order of byte strings

A `Bytes` object that is empty may have no vector, or an empty one. `Bytes::compare` puts the first below the second,
and both below everything else, so it is an order of what the objects point to (`place`), not of their contents.

`ordered_by_contents_iff` says what this means for the objects of a table or of a set: their order is the order of
their contents unless both kinds of empty objects are among them.

The order of tables with other keys than `Bytes` is not the matter here.
-/

namespace MicroReticulum.CopyOnWrite

open Library (Store Handle)

variable {V : Type}

/-! ## The comparisons of the source -/

/-- `Bytes::compare` with another object -/
def compare (s : Memory V) (x bytes : V) : Int :=
  match (s.handles x).cell, (s.handles bytes).cell with
  | none, none => 0
  | none, some _ => -1
  | some _, none => 1
  | some data, some data' =>
    if data = data' then 0
    else if s.cells data < s.cells data' then -1
    else if s.cells data' < s.cells data then 1
    else 0

/-- `memcmp`: the sign is that of the first difference. -/
def memcmp : Bytes → Bytes → Nat → Int
  | a :: as, b :: bs, n + 1 => if a = b then memcmp as bs n else a.toNat - b.toNat
  | _, _, _ => 0

/-- The comparison of a vector with a buffer and its size. -/
def compareData (data buf : Bytes) : Int :=
  let cmp := memcmp data buf (if data.length < buf.length then data.length else buf.length)
  if cmp = 0 ∧ data.length < buf.length then -1
  else if cmp = 0 ∧ buf.length < data.length then 1
  else cmp

/-- `Bytes::compare` with a buffer and its size -/
def compareBuffer (s : Memory V) (x : V) (buf : Bytes) : Int :=
  match (s.handles x).cell with
  | none => if buf.length = 0 then 0 else -1
  | some data => compareData (s.cells data) buf

/-- `Bytes::compare` with a C string -/
def compareString (s : Memory V) (x : V) (str : Option Bytes) : Int :=
  match str with
  | none => if (contents s x).isEmpty then 0 else 1
  | some str => compareBuffer s x (cString str)

/-- `std::map::find`, by `operator<` of the keys: the entry with an equivalent key. -/
def find {β : Type} (s : Memory V) (table : List (V × β)) (key : V) : Option (V × β) :=
  table.find? fun entry => !(compare s entry.1 key < 0) && !(compare s key entry.1 < 0)

/-! ## What is compared -/

/-- What an object points to, if anything. -/
def place (s : Memory V) (x : V) : Option Bytes := (s.handles x).cell.map s.cells

/-- The result of a comparison. -/
def signOf : Ordering → Int
  | .lt => -1
  | .eq => 0
  | .gt => 1

theorem signOf_swap (o : Ordering) : signOf o.swap = - signOf o := by
  cases o <;> rfl

theorem signOf_eq_zero {o : Ordering} : signOf o = 0 ↔ o = .eq := by
  cases o <;> decide

theorem signOf_nonpos {o : Ordering} : signOf o ≤ 0 ↔ o.isLE = true := by
  cases o <;> decide

theorem compare_bytes_eq_lt {a b : Bytes} : Ord.compare a b = .lt ↔ a < b := by
  induction a generalizing b with
  | nil =>
    cases b with
    | nil => simp
    | cons b bs => simp
  | cons a as ih =>
    cases b with
    | nil => simp
    | cons b bs =>
      rw [List.compare_cons_cons, Ordering.then_eq_lt, ih, List.cons_lt_cons_iff, Std.LawfulLTCmp.eq_lt_iff_lt,
        Std.LawfulEqOrd.compare_eq_iff_eq]

theorem compare_bytes_eq_gt {a b : Bytes} : Ord.compare a b = .gt ↔ b < a := by
  rw [← compare_bytes_eq_lt, Std.OrientedCmp.gt_iff_lt]

variable {s : Memory V} {x y z : V} {buf : Bytes}

theorem place_of_none (h : (s.handles x).cell = none) : place s x = none := by
  unfold place
  rw [h]
  rfl

theorem place_of_some {c : Nat} (h : (s.handles x).cell = some c) : place s x = some (s.cells c) := by
  unfold place
  rw [h]
  rfl

theorem contents_eq_place (s : Memory V) (x : V) : contents s x = (place s x).getD [] := by
  cases h : (s.handles x).cell with
  | none => rw [place_of_none h]; exact Store.shows_of_none h
  | some c => rw [place_of_some h]; exact Store.shows_of_cell h

/-- Two objects are compared by what they point to. -/
theorem compare_eq_place (s : Memory V) (x y : V) : compare s x y = signOf (Ord.compare (place s x) (place s y)) := by
  unfold compare
  cases hx : (s.handles x).cell with
  | none =>
    rw [place_of_none hx]
    cases hy : (s.handles y).cell with
    | none => rw [place_of_none hy]; rfl
    | some c' => rw [place_of_some hy]; rfl
  | some c =>
    rw [place_of_some hx]
    cases hy : (s.handles y).cell with
    | none => rw [place_of_none hy]; rfl
    | some c' =>
      rw [place_of_some hy]
      show _ = signOf (Ord.compare (s.cells c) (s.cells c'))
      dsimp only
      by_cases hsame : c = c'
      · have hself : Ord.compare (s.cells c') (s.cells c') = .eq := Std.ReflOrd.compare_self
        rw [if_pos hsame, hsame, hself]
        rfl
      · rw [if_neg hsame]
        cases hcompare : Ord.compare (s.cells c) (s.cells c') with
        | lt => rw [if_pos (compare_bytes_eq_lt.mp hcompare)]; rfl
        | gt =>
          have hgt := compare_bytes_eq_gt.mp hcompare
          rw [if_neg (List.lt_asymm hgt), if_pos hgt]
          rfl
        | eq =>
          rw [Std.LawfulEqOrd.eq_of_compare hcompare, if_neg (List.lt_irrefl _), if_neg (List.lt_irrefl _)]
          rfl

theorem compareData_cons (a : UInt8) (as bs : Bytes) : compareData (a :: as) (a :: bs) = compareData as bs := by
  have hlength : (if (a :: as).length < (a :: bs).length then (a :: as).length else (a :: bs).length)
      = (if as.length < bs.length then as.length else bs.length) + 1 := by
    simp only [List.length_cons]
    split <;> split <;> omega
  have hmemcmp : ∀ n, memcmp (a :: as) (a :: bs) (n + 1) = memcmp as bs n := fun n => if_pos rfl
  unfold compareData
  dsimp only
  rw [hlength, hmemcmp]
  simp only [List.length_cons, Nat.add_lt_add_iff_right]

/-- The sign of the comparison is that of the contents. -/
theorem compareData_sign (data buf : Bytes) : (compareData data buf).sign = signOf (Ord.compare data buf) := by
  induction data generalizing buf with
  | nil =>
    cases buf with
    | nil => rfl
    | cons b bs => rfl
  | cons a as ih =>
    cases buf with
    | nil => rfl
    | cons b bs =>
      rw [List.compare_cons_cons]
      by_cases hab : a = b
      · subst hab
        have hself : Ord.compare a a = .eq := Std.ReflOrd.compare_self
        rw [compareData_cons, ih, hself]
        rfl
      · have hlength : ∃ n, (if (a :: as).length < (b :: bs).length then (a :: as).length else (b :: bs).length)
            = n + 1 := by
          simp only [List.length_cons]
          split
          · exact ⟨_, rfl⟩
          · exact ⟨_, rfl⟩
        obtain ⟨n, hn⟩ := hlength
        have hdifferent : (a.toNat : Int) - b.toNat ≠ 0 := by
          have : a.toNat ≠ b.toNat := fun h => hab (UInt8.toNat_inj.mp h)
          omega
        have hmemcmp : memcmp (a :: as) (b :: bs) (n + 1) = a.toNat - b.toNat := if_neg hab
        unfold compareData
        dsimp only
        rw [hn, hmemcmp, if_neg fun h => hdifferent h.1, if_neg fun h => hdifferent h.1]
        cases hcompare : Ord.compare a b with
        | lt =>
          have hlt : a.toNat < b.toNat := UInt8.lt_iff_toNat_lt.mp (Std.LawfulLTCmp.eq_lt_iff_lt.mp hcompare)
          exact Int.sign_eq_neg_one_of_neg (by omega)
        | eq => exact absurd (Std.LawfulEqOrd.eq_of_compare hcompare) hab
        | gt =>
          have hgt : b.toNat < a.toNat := UInt8.lt_iff_toNat_lt.mp (Std.LawfulLTCmp.eq_gt_iff_gt.mp hcompare)
          exact Int.sign_eq_one_of_pos (by omega)

theorem compareBuffer_sign (s : Memory V) (x : V) (buf : Bytes) :
    (compareBuffer s x buf).sign = signOf (Ord.compare (contents s x) buf) := by
  unfold compareBuffer
  rw [contents_eq_place]
  cases hx : (s.handles x).cell with
  | none =>
    rw [place_of_none hx]
    cases buf with
    | nil => rfl
    | cons b bs => rfl
  | some c =>
    rw [place_of_some hx]
    exact compareData_sign (s.cells c) buf

/-! ## Order by contents -/

/-- The comparisons of some objects say what their contents say, and lookups do. -/
structure OrderedByContents (s : Memory V) (objects : Set V) : Prop where
  zero_iff : ∀ x ∈ objects, ∀ y ∈ objects, compare s x y = 0 ↔ contents s x = contents s y
  antisymmetric : ∀ x ∈ objects, ∀ y ∈ objects, compare s y x = - compare s x y
  transitive : ∀ x ∈ objects, ∀ y ∈ objects, ∀ z ∈ objects, compare s x y ≤ 0 → compare s y z ≤ 0 → compare s x z ≤ 0
  contents_only : ∀ x ∈ objects, ∀ y ∈ objects, ∀ x' ∈ objects, ∀ y' ∈ objects, contents s x = contents s x' →
    contents s y = contents s y' → compare s x y = compare s x' y'
  buffer : ∀ x ∈ objects, ∀ y ∈ objects, (compareBuffer s x (contents s y)).sign = (compare s x y).sign
  string : ∀ x ∈ objects, ∀ y ∈ objects, 0 ∉ contents s y →
    (compareString s x (some (contents s y))).sign = (compare s x y).sign
  lookup : ∀ {β : Type} (table : List (V × β)), (∀ entry ∈ table, entry.1 ∈ objects) → ∀ x ∈ objects, ∀ y ∈ objects,
    contents s x = contents s y → find s table x = find s table y

/-- Some of the objects are empty without a vector, others with an empty one. -/
def EmptyBothWays (s : Memory V) (objects : Set V) : Prop :=
  (∃ x ∈ objects, place s x = none) ∧ ∃ x ∈ objects, place s x = some []

/-- Where objects are empty in one way, they are compared by their contents. -/
theorem compare_place_contents {objects : Set V} (h : ¬ EmptyBothWays s objects) (hx : x ∈ objects)
    (hy : y ∈ objects) : Ord.compare (place s x) (place s y) = Ord.compare (contents s x) (contents s y) := by
  rw [contents_eq_place, contents_eq_place]
  cases hplace : place s x with
  | none =>
    cases hplace' : place s y with
    | none => rfl
    | some data =>
      cases data with
      | nil => exact absurd ⟨⟨x, hx, hplace⟩, y, hy, hplace'⟩ h
      | cons b bs => rfl
  | some data =>
    cases hplace' : place s y with
    | none =>
      cases data with
      | nil => exact absurd ⟨⟨y, hy, hplace'⟩, x, hx, hplace⟩ h
      | cons a as => rfl
    | some data' => rfl

theorem compare_antisymmetric (s : Memory V) (x y : V) : compare s y x = - compare s x y := by
  rw [compare_eq_place, compare_eq_place, ← signOf_swap, ← Std.OrientedOrd.eq_swap]

theorem compare_transitive (hxy : compare s x y ≤ 0) (hyz : compare s y z ≤ 0) : compare s x z ≤ 0 := by
  rw [compare_eq_place, signOf_nonpos] at hxy hyz ⊢
  exact Std.TransOrd.isLE_trans hxy hyz

theorem compare_eq_zero_iff (s : Memory V) (x y : V) : compare s x y = 0 ↔ place s x = place s y := by
  rw [compare_eq_place, signOf_eq_zero, Std.LawfulEqOrd.compare_eq_iff_eq]

/-- The order of objects is that of their contents exactly if they are not empty in both ways. -/
theorem ordered_by_contents_iff (s : Memory V) (objects : Set V) :
    OrderedByContents s objects ↔ ¬ EmptyBothWays s objects := by
  constructor
  · rintro h ⟨⟨x, hx, hnone⟩, y, hy, hempty⟩
    have hsame : contents s x = contents s y := by rw [contents_eq_place, contents_eq_place, hnone, hempty]; rfl
    have hplace := (compare_eq_zero_iff s x y).mp ((h.zero_iff x hx y hy).mpr hsame)
    rw [hnone, hempty] at hplace
    cases hplace
  · intro h
    have hcompare : ∀ x ∈ objects, ∀ y ∈ objects, compare s x y = signOf (Ord.compare (contents s x) (contents s y)) :=
      fun x hx y hy => by rw [compare_eq_place, compare_place_contents h hx hy]
    have hcontents : ∀ x ∈ objects, ∀ y ∈ objects, ∀ x' ∈ objects, ∀ y' ∈ objects, contents s x = contents s x' →
        contents s y = contents s y' → compare s x y = compare s x' y' := by
      intro x hx y hy x' hx' y' hy' hxx hyy
      rw [hcompare x hx y hy, hcompare x' hx' y' hy', hxx, hyy]
    have hbuffer : ∀ x ∈ objects, ∀ y ∈ objects, (compareBuffer s x (contents s y)).sign = (compare s x y).sign := by
      intro x hx y hy
      rw [compareBuffer_sign, hcompare x hx y hy]
      cases Ord.compare (contents s x) (contents s y) <;> rfl
    refine ⟨fun x hx y hy => ?_, fun x _ y _ => compare_antisymmetric s x y,
      fun x _ y _ z _ hxy hyz => compare_transitive hxy hyz, hcontents, hbuffer, fun x hx y hy hzero => ?_,
      fun table htable x hx y hy hsame => ?_⟩
    · rw [hcompare x hx y hy, signOf_eq_zero, Std.LawfulEqOrd.compare_eq_iff_eq]
    · have hstring : cString (contents s y) = contents s y := by
        unfold cString
        rw [List.takeWhile_eq_self_iff]
        exact fun c hc => decide_eq_true fun h => hzero (h ▸ hc)
      show (compareBuffer s x (cString (contents s y))).sign = _
      rw [hstring]
      exact hbuffer x hx y hy
    · unfold find
      refine List.find?_congr fun entry hentry => ?_
      have hkey := htable entry hentry
      rw [hcontents entry.1 hkey x hx entry.1 hkey y hy rfl hsame,
        hcontents x hx entry.1 hkey y hy entry.1 hkey hsame rfl]

/-- An object with a capacity, and one that was made of nothing. -/
theorem empty_objects_differ :
    ¬ ∀ (ops : List (Op Bool)) (x y : Option Bool),
      compare (run ops) x y = 0 ↔ contents (run ops) x = contents (run ops) y := by
  intro h
  have hequal := (h [.construct true, .constructCapacity false] (some true) (some false)).mpr (by decide)
  exact absurd hequal (by decide)

end MicroReticulum.CopyOnWrite
