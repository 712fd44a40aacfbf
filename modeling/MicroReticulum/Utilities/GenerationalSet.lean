import Mathlib.Data.Finset.Sort
import Mathlib.Data.List.DropRight
import MicroReticulum.Library.GenerationalSet

/-!
# The generational set

`GenerationalSet` of the source with its iterators: a `const_iterator` walks the previous generation and then the
active one. A run is a list of calls on a set whose capacity is fixed; where the source's behaviour is undefined, the
run is none.

The capacity is a `size_t`, and so is the sum that half the capacity is taken of. `w` is how many bits a `size_t` has:
32 on the devices, 64 on a host. At the largest capacity of all the sum is zero, and every insertion rotates.

`bounded_window` is what the container promises over runs, for every capacity but the largest. A value is in the window
as long as fewer than half the capacity of new values came after it; that is less than being among the last values that
are still wanted (`survivors_leave`), and at the largest capacity it is one value (`widest_forgets`).

Nothing is said of the memory of the elements, nor of an allocation that fails.
-/

namespace MicroReticulum.Library.GenerationalSet

variable {α : Type} [LinearOrder α] {s t : GenerationalSet α} {v : α} {w : Nat}

/-! ## Iterators -/

/-- The generation an iterator is in. -/
inductive Where where
  | previous
  | active
  | ended
  deriving DecidableEq, Repr

/-- A `const_iterator`. Its parent is the set it is used with, and `⊤` is the end of a generation. -/
structure ConstIterator (α : Type) where
  place : Where
  inner : WithTop α
  deriving DecidableEq

/-- Advance past empty ranges. -/
def normalize (s : GenerationalSet α) (it : ConstIterator α) : ConstIterator α :=
  let moved := if it.place = .previous ∧ it.inner = ⊤ then ⟨.active, s.active.min⟩ else it
  if moved.place = .active ∧ moved.inner = ⊤ then { moved with place := .ended } else moved

def makeIter (s : GenerationalSet α) (place : Where) (inner : WithTop α) : ConstIterator α := s.normalize ⟨place, inner⟩

def beginIter (s : GenerationalSet α) : ConstIterator α := s.makeIter .previous s.previous.min

def endIter (s : GenerationalSet α) : ConstIterator α := s.makeIter .ended ⊤

/-- The next place of an ordered set. -/
def successor (generation : Finset α) (p : WithTop α) : WithTop α :=
  (generation.filter fun (w : α) => p < (w : WithTop α)).min

/-- `operator++`. -/
def next (s : GenerationalSet α) (it : ConstIterator α) : ConstIterator α :=
  match it.place with
  | .previous => s.makeIter .previous (successor s.previous it.inner)
  | place => s.makeIter place (successor s.active it.inner)

/-- `operator==`. -/
def ConstIterator.same (it other : ConstIterator α) : Bool :=
  it.place = .ended && other.place = .ended || it.place = other.place && it.inner = other.inner

/-- Whether the set has a value at the iterator, or it is the end. -/
def has (s : GenerationalSet α) (it : ConstIterator α) : Bool :=
  match it.place with
  | .previous => decide (∃ v ∈ s.previous, it.inner = v)
  | .active => decide (∃ v ∈ s.active, it.inner = v)
  | .ended => decide (it.inner = ⊤)

/-! ## The calls -/

def size (s : GenerationalSet α) : Nat := s.active.card + s.previous.card

/-- `rotation_due`, with the sum in a `size_t`. -/
def rotationDueIn (w : Nat) (s : GenerationalSet α) : Bool :=
  0 < s.maxSize && (s.maxSize + 1) % 2 ^ w / 2 ≤ s.active.card

def insertValue (w : Nat) (s : GenerationalSet α) (value : α) : GenerationalSet α × ConstIterator α × Bool :=
  if value ∈ s.previous then (s, s.makeIter .previous value, false)
  else if value ∈ s.active then (s, s.makeIter .active value, false)
  else
    let grown := { s with active := Insert.insert value s.active }
    -- the iterator of the new value stays with the elements that are moved
    if grown.rotationDueIn w then (grown.rotate, grown.rotate.makeIter .previous value, true)
    else (grown, grown.makeIter .active value, true)

/-- How many elements of a set are equal to a value. -/
def times (generation : Finset α) (value : α) : Nat := if value ∈ generation then 1 else 0

def eraseValue (s : GenerationalSet α) (value : α) : GenerationalSet α × Nat :=
  ({ s with active := s.active.erase value, previous := s.previous.erase value },
    times s.active value + times s.previous value)

def eraseAt (s : GenerationalSet α) (pos : ConstIterator α) : GenerationalSet α × ConstIterator α :=
  match pos.place with
  | .active =>
    let erased := { s with active := s.active.filter fun v => ↑v ≠ pos.inner }
    (erased, erased.makeIter .active (successor s.active pos.inner))
  | .previous =>
    let erased := { s with previous := s.previous.filter fun v => ↑v ≠ pos.inner }
    (erased, erased.makeIter .previous (successor s.previous pos.inner))
  | .ended => (s, s.endIter)

def find (s : GenerationalSet α) (value : α) : ConstIterator α :=
  if value ∈ s.active then s.makeIter .active value
  else if value ∈ s.previous then s.makeIter .previous value
  else s.endIter

def count (s : GenerationalSet α) (value : α) : Nat :=
  if 0 < times s.active value ∨ 0 < times s.previous value then 1 else 0

/-- The values of `for (it = begin(); it != end(); ++it)`, if the loop ends within the steps. -/
def iterate (s : GenerationalSet α) : Nat → ConstIterator α → Option (List α)
  | 0, _ => none
  | steps + 1, it =>
    if it.same s.endIter then some []
    else match it.inner with
      | ⊤ => none
      | (v : α) => (iterate s steps (s.next it)).map (v :: ·)

/-! ## Runs -/

/-- A call on the set. A lookup is any of `find`, `contains`, `count` and the walks. -/
inductive Op (α : Type) where
  | insert (value : α)
  | erase (value : α)
  | eraseAt (pos : ConstIterator α)
  | lookup (value : α)
  deriving DecidableEq

/-- The set after a call. To erase at an iterator that is not the set's is undefined. -/
def apply (w : Nat) (s : GenerationalSet α) : Op α → Option (GenerationalSet α)
  | .insert value => some (s.insertValue w value).1
  | .erase value => some (s.eraseValue value).1
  | .eraseAt pos => if s.has pos then some (s.eraseAt pos).1 else none
  | .lookup _ => some s

/-- The set after some calls. -/
def run (w : Nat) (s : GenerationalSet α) : List (Op α) → Option (GenerationalSet α)
  | [] => some s
  | op :: rest => (s.apply w op).bind fun t => run w t rest

/-- What a call newly inserts, with the calls after it. -/
def newlyBy (w : Nat) (s : GenerationalSet α) (op : Op α) (rest : List (Op α)) : List (α × List (Op α)) :=
  match op with
  | .insert value => if (s.insertValue w value).2.2 then [(value, rest)] else []
  | _ => []

/-- The newly inserted values of a run, each with the calls after it. -/
def newly (w : Nat) (s : GenerationalSet α) : List (Op α) → List (α × List (Op α))
  | [] => []
  | op :: rest => s.newlyBy w op rest ++ ((s.apply w op).map fun t => newly w t rest).getD []

/-- The call erases the value, if the set has it. -/
def Op.erases (value : α) : Op α → Bool
  | .erase w => w = value
  | .eraseAt pos => pos.inner = value
  | _ => false

/-- No call after the insertion erases the value. -/
def kept (entry : α × List (Op α)) : Bool := entry.2.all fun op => !op.erases entry.1

/-! ## Walking the set -/

/-- The values of a generation from a place on. -/
def upwards (generation : Finset α) (p : WithTop α) : List α :=
  (generation.filter fun (v : α) => p ≤ (v : WithTop α)).sort (· ≤ ·)

/-- Upwards from the smallest value lies the whole generation, in order. -/
theorem upwards_min (generation : Finset α) : upwards generation generation.min = generation.sort (· ≤ ·) := by
  unfold upwards
  rw [Finset.filter_true_of_mem fun v hv => Finset.min_le hv]

theorem upwards_top (generation : Finset α) : upwards generation ⊤ = [] := by
  unfold upwards
  rw [Finset.filter_false_of_mem, Finset.sort_empty]
  intro v _ htop
  exact WithTop.coe_ne_top (top_le_iff.mp htop)

/-- Upwards from a value lie the value and what lies upwards from its successor. -/
theorem upwards_cons {generation : Finset α} (hv : v ∈ generation) :
    upwards generation v = v :: upwards generation (successor generation v) := by
  have hafter : (generation.filter fun (w : α) => successor generation v ≤ (w : WithTop α))
      = generation.filter fun w => v < w := by
    apply Finset.filter_congr
    intro w hw
    constructor
    · intro hle
      have hlt : (v : WithTop α) < successor generation v := by
        cases hmin : successor generation v with
        | top => exact WithTop.coe_lt_top v
        | coe u => exact (Finset.mem_filter.mp (Finset.mem_of_min hmin)).2
      exact WithTop.coe_lt_coe.mp (hlt.trans_le hle)
    · intro hlt
      exact Finset.min_le (Finset.mem_filter.mpr ⟨hw, WithTop.coe_lt_coe.mpr hlt⟩)
  have hfrom : (generation.filter fun (w : α) => (v : WithTop α) ≤ (w : WithTop α))
      = Insert.insert v (generation.filter fun w => v < w) := by
    ext w
    rw [Finset.mem_filter, Finset.mem_insert, Finset.mem_filter, WithTop.coe_le_coe, le_iff_eq_or_lt]
    constructor
    · rintro ⟨hw, rfl | hlt⟩
      · exact .inl rfl
      · exact .inr ⟨hw, hlt⟩
    · rintro (rfl | ⟨hw, hlt⟩)
      · exact ⟨hv, .inl rfl⟩
      · exact ⟨hw, .inr hlt⟩
  unfold upwards
  rw [hafter, hfrom]
  apply Finset.sort_insert
  · intro w hw
    exact (Finset.mem_filter.mp hw).2.le
  · intro hself
    exact lt_irrefl v (Finset.mem_filter.mp hself).2

/-- What a walk from an iterator has still to visit. -/
def rest (s : GenerationalSet α) (it : ConstIterator α) : List α :=
  match it.place with
  | .previous => upwards s.previous it.inner ++ s.active.sort (· ≤ ·)
  | .active => upwards s.active it.inner
  | .ended => []

/-- An iterator that is not at an end stays where it is. -/
theorem normalize_of_ne_top {it : ConstIterator α} (h : it.inner ≠ ⊤) : s.normalize it = it := by
  unfold normalize
  simp [h]

/-- Going on to the other generation loses nothing of what is left to visit. -/
theorem rest_normalize (s : GenerationalSet α) (it : ConstIterator α) : s.rest (s.normalize it) = s.rest it := by
  obtain ⟨place, inner⟩ := it
  have hactive (p : WithTop α) : s.rest (s.normalize ⟨.active, p⟩) = upwards s.active p := by
    by_cases htop : p = ⊤
    case pos =>
      subst htop
      exact (upwards_top s.active).symm
    case neg => rw [normalize_of_ne_top htop, rest]
  cases place with
  | ended => rfl
  | active => exact hactive inner
  | previous =>
    by_cases htop : inner = ⊤
    case pos =>
      subst htop
      show s.rest (s.normalize ⟨.active, s.active.min⟩) = upwards s.previous ⊤ ++ _
      rw [hactive, upwards_min, upwards_top]
      rfl
    case neg => rw [normalize_of_ne_top htop]

/-- A place in a generation: its end, or one of its values. -/
def Within (generation : Finset α) (p : WithTop α) : Prop := p = ⊤ ∨ ∃ v ∈ generation, p = v

/-- The smallest value of a part lies within the generation. -/
theorem within_min {generation part : Finset α} (h : part ⊆ generation) : Within generation part.min := by
  cases hmin : part.min with
  | top => exact .inl rfl
  | coe v => exact .inr ⟨v, h (Finset.mem_of_min hmin), rfl⟩

/-- The set has what its places are normalized to. -/
theorem has_normalize {it : ConstIterator α} (hprevious : it.place = .previous → Within s.previous it.inner)
    (hactive : it.place = .active → Within s.active it.inner) (hplace : it.place ≠ .ended) :
    s.has (s.normalize it) = true := by
  obtain ⟨place, inner⟩ := it
  have hmoved {p : WithTop α} (h : Within s.active p) : s.has (s.normalize ⟨.active, p⟩) = true := by
    rcases h with rfl | ⟨v, hv, rfl⟩
    · rfl
    · exact decide_eq_true ⟨v, hv, rfl⟩
  cases place with
  | ended => exact absurd rfl hplace
  | active => exact hmoved (hactive rfl)
  | previous =>
    rcases hprevious rfl with rfl | ⟨v, hv, rfl⟩
    · exact hmoved (within_min (Finset.Subset.refl _))
    · exact decide_eq_true ⟨v, hv, rfl⟩

/-- One step of a walk visits the iterator's value. -/
theorem walk_step {it : ConstIterator α} (h : s.has it = true) (hplace : it.place ≠ .ended) :
    ∃ v : α, it.inner = v ∧ s.rest it = v :: s.rest (s.next it) ∧ s.has (s.next it) = true := by
  obtain ⟨place, inner⟩ := it
  cases place with
  | ended => exact absurd rfl hplace
  | previous =>
    obtain ⟨v, hv, rfl⟩ := of_decide_eq_true h
    refine ⟨v, rfl, ?_, has_normalize (fun _ => within_min (Finset.filter_subset _ _)) nofun nofun⟩
    show upwards s.previous v ++ _ = v :: s.rest (s.makeIter .previous (successor s.previous v))
    rw [makeIter, rest_normalize, upwards_cons hv]
    rfl
  | active =>
    obtain ⟨v, hv, rfl⟩ := of_decide_eq_true h
    refine ⟨v, rfl, ?_, has_normalize nofun (fun _ => within_min (Finset.filter_subset _ _)) nofun⟩
    show upwards s.active v = v :: s.rest (s.makeIter .active (successor s.active v))
    rw [makeIter, rest_normalize, upwards_cons hv]
    rfl

/-- A walk visits the rest and ends. -/
theorem iterate_eq {it : ConstIterator α} (h : s.has it = true) {steps : Nat} (hsteps : (s.rest it).length < steps) :
    s.iterate steps it = some (s.rest it) := by
  induction steps generalizing it with
  | zero => omega
  | succ steps ih =>
    unfold iterate
    by_cases hplace : it.place = .ended
    case pos =>
      have hrest : s.rest it = [] := by
        unfold rest
        rw [hplace]
      have hsame : it.same s.endIter = true := by
        unfold ConstIterator.same
        rw [hplace]
        rfl
      rw [if_pos hsame, hrest]
    case neg =>
      obtain ⟨v, hinner, hrest, hnext⟩ := walk_step h hplace
      have hsame : ¬ it.same s.endIter = true := by
        unfold ConstIterator.same
        have hend : s.endIter.place = .ended := rfl
        simp [hplace, hend]
      rw [hrest, List.length_cons] at hsteps
      rw [if_neg hsame, hinner, hrest]
      show (s.iterate steps (s.next it)).map (v :: ·) = some (v :: s.rest (s.next it))
      rw [ih hnext (by omega)]
      rfl

/-- From the beginning all values are left to visit: those of the previous generation, then those of the active
one. -/
theorem rest_begin (s : GenerationalSet α) :
    s.rest s.beginIter = s.previous.sort (· ≤ ·) ++ s.active.sort (· ≤ ·) := by
  unfold beginIter makeIter
  rw [rest_normalize]
  show upwards s.previous s.previous.min ++ _ = _
  rw [upwards_min]

/-- A whole walk: the previous generation in order, then the active one. -/
theorem iterate_begin (s : GenerationalSet α) :
    s.iterate (s.size + 1) s.beginIter = some (s.previous.sort (· ≤ ·) ++ s.active.sort (· ≤ ·)) := by
  rw [← rest_begin]
  apply iterate_eq
  · exact has_normalize (fun _ => within_min (Finset.Subset.refl _)) nofun nofun
  · rw [rest_begin, List.length_append, Finset.length_sort, Finset.length_sort]
    unfold size
    omega

/-! ## What a call does -/

/-- There is no capacity, or its successor is a `size_t` as well. -/
def Fits (w : Nat) (s : GenerationalSet α) : Prop := s.maxSize = 0 ∨ s.maxSize + 1 < 2 ^ w

omit [LinearOrder α] in
/-- Where the sum does not wrap the rotation is due when the library says so. -/
theorem Fits.rotationDueIn (h : s.Fits w) : s.rotationDueIn w = s.rotationDue := by
  unfold GenerationalSet.rotationDueIn rotationDue half
  rcases h with hzero | hfits
  · simp [hzero]
  · rw [Nat.mod_eq_of_lt hfits]

/-- Where the sum does not wrap the insertion is the library's. -/
theorem insertValue_fst (h : s.Fits w) (value : α) : (s.insertValue w value).1 = s.insert value := by
  have hdue : GenerationalSet.rotationDueIn w { s with active := Insert.insert value s.active }
      = rotationDue { s with active := Insert.insert value s.active } := Fits.rotationDueIn h
  unfold insertValue insert
  dsimp only
  rw [hdue]
  split
  case isTrue => rfl
  case isFalse =>
    split
    case isTrue => rfl
    case isFalse => rw [apply_ite Prod.fst]

/-- The insertion reports whether the value was new. -/
theorem insertValue_new (w : Nat) (s : GenerationalSet α) (value : α) :
    (s.insertValue w value).2.2 = !s.contains value := by
  unfold insertValue contains
  split
  case isTrue hprevious => simp [hprevious]
  case isFalse hprevious =>
    split
    case isTrue hactive => simp [hactive]
    case isFalse hactive =>
      rw [apply_ite Prod.snd, apply_ite Prod.snd, ite_self]
      simp [hprevious, hactive]

/-- What is left when some values are gone. -/
def without (s : GenerationalSet α) (gone : α → Bool) : GenerationalSet α :=
  { s with active := s.active.filter fun v => ¬ gone v, previous := s.previous.filter fun v => ¬ gone v }

theorem without_of_not {gone : α → Bool} (h : ∀ v, s.contains v = true → gone v = false) : s.without gone = s := by
  unfold without
  rw [Finset.filter_true_of_mem fun v hv => by simp [h v (contains_iff.mpr (.inl hv))],
    Finset.filter_true_of_mem fun v hv => by simp [h v (contains_iff.mpr (.inr hv))]]

/-- What holds of the two generations between calls. -/
structure WellFormed (w : Nat) (s : GenerationalSet α) : Prop where
  fits : s.Fits w
  disjoint : Disjoint s.active s.previous
  active_few : 0 < s.maxSize → s.active.card < s.half
  previous_few : 0 < s.maxSize → s.previous.card ≤ s.half
  unbounded : s.maxSize = 0 → s.previous = ∅

/-- A call inserts a value, or takes away those it erases. -/
theorem apply_cases (hs : s.WellFormed w) {op : Op α} (h : s.apply w op = some t) :
    (∃ value, op = .insert value ∧ t = s.insert value) ∨ (∀ value, op ≠ .insert value) ∧ t = s.without op.erases := by
  cases op with
  | insert value =>
    refine .inl ⟨value, rfl, ?_⟩
    rw [← insertValue_fst hs.fits]
    exact (Option.some.inj h).symm
  | erase value =>
    refine .inr ⟨nofun, (Option.some.inj h).symm.trans ?_⟩
    unfold eraseValue without Op.erases
    simp [← Finset.filter_ne]
  | lookup value => exact .inr ⟨nofun, (Option.some.inj h).symm.trans (without_of_not fun _ _ => rfl).symm⟩
  | eraseAt pos =>
    refine .inr ⟨nofun, ?_⟩
    have h : (if s.has pos then some (s.eraseAt pos).1 else none) = some t := h
    split at h
    case isFalse => cases h
    case isTrue hhas =>
      refine (Option.some.inj h).symm.trans ?_
      obtain ⟨place, inner⟩ := pos
      unfold has at hhas
      cases place with
      | ended =>
        obtain rfl := of_decide_eq_true hhas
        exact (without_of_not fun (v : α) _ => decide_eq_false (WithTop.top_ne_coe (a := v))).symm
      | active =>
        obtain ⟨v, hv, rfl⟩ := of_decide_eq_true hhas
        have hother : v ∉ s.previous := Finset.disjoint_left.mp hs.disjoint hv
        have hkept : s.previous.filter (fun w => ¬ v = w) = s.previous :=
          Finset.filter_true_of_mem fun w hw hsame => hother (hsame ▸ hw)
        simp [eraseAt, without, Op.erases, hkept, eq_comm]
      | previous =>
        obtain ⟨v, hv, rfl⟩ := of_decide_eq_true hhas
        have hother : v ∉ s.active := Finset.disjoint_right.mp hs.disjoint hv
        have hkept : s.active.filter (fun w => ¬ v = w) = s.active :=
          Finset.filter_true_of_mem fun w hw hsame => hother (hsame ▸ hw)
        simp [eraseAt, without, Op.erases, hkept, eq_comm]

/-- The library's insertion keeps the set well formed. -/
theorem WellFormed.insert (hs : s.WellFormed w) (value : α) : (s.insert value).WellFormed w := by
  by_cases hknown : s.contains value = true
  case pos => rwa [insert_of_contains hknown]
  case neg =>
    have hnew := fun h => hknown (contains_iff.mpr h)
    rcases insert_cases hknown with ⟨hroom, heq⟩ | ⟨⟨hbounded, hdue⟩, heq⟩
    · rw [heq]
      refine ⟨hs.fits, ?_, fun hpos => ?_, hs.previous_few, hs.unbounded⟩
      · exact Finset.disjoint_insert_left.mpr ⟨fun hprevious => hnew (.inr hprevious), hs.disjoint⟩
      · exact hroom.resolve_left fun hzero => absurd hzero hpos.ne'
    · rw [heq]
      refine ⟨hs.fits, Finset.disjoint_empty_left _, fun hpos => ?_, fun hpos => ?_,
        fun hzero => absurd hzero hbounded.ne'⟩
      · show 0 < (s.maxSize + 1) / 2
        have hpos : 0 < s.maxSize := hpos
        omega
      · exact (Finset.card_insert_le value s.active).trans (hs.active_few hpos)

omit [LinearOrder α] in
theorem WellFormed.without (hs : s.WellFormed w) (gone : α → Bool) : (s.without gone).WellFormed w where
  fits := hs.fits
  disjoint := hs.disjoint.mono (Finset.filter_subset _ _) (Finset.filter_subset _ _)
  active_few hpos := (Finset.card_filter_le _ _).trans_lt (hs.active_few hpos)
  previous_few hpos := (Finset.card_filter_le _ _).trans (hs.previous_few hpos)
  unbounded hzero := by
    show s.previous.filter _ = ∅
    rw [hs.unbounded hzero, Finset.filter_empty]

omit [LinearOrder α] in
/-- An empty set is well formed, if its size is zero or below the largest number. -/
theorem wellFormed_empty {n : Nat} (h : n = 0 ∨ n + 1 < 2 ^ w) :
    ({ maxSize := n } : GenerationalSet α).WellFormed w where
  fits := h
  disjoint := Finset.disjoint_empty_left _
  active_few hpos := by
    have hpos : 0 < n := hpos
    show 0 < (n + 1) / 2
    omega
  previous_few _ := Nat.zero_le _
  unbounded _ := rfl

theorem WellFormed.apply (hs : s.WellFormed w) {op : Op α} (h : s.apply w op = some t) : t.WellFormed w := by
  rcases apply_cases hs h with ⟨value, -, rfl⟩ | ⟨-, rfl⟩
  · exact hs.insert value
  · exact hs.without op.erases

/-- No operation changes the size that was set. -/
theorem apply_maxSize (hs : s.WellFormed w) {op : Op α} (h : s.apply w op = some t) : t.maxSize = s.maxSize := by
  rcases apply_cases hs h with ⟨value, -, rfl⟩ | ⟨-, rfl⟩
  · exact insert_maxSize s value
  · rfl

/-- The generations of every run. -/
theorem WellFormed.run (hs : s.WellFormed w) {ops : List (Op α)} (h : s.run w ops = some t) :
    t.WellFormed w ∧ t.maxSize = s.maxSize := by
  induction ops generalizing s with
  | nil =>
    obtain rfl := Option.some.inj h
    exact ⟨hs, rfl⟩
  | cons op ops ih =>
    obtain ⟨u, hop, hrest⟩ := Option.bind_eq_some_iff.mp h
    obtain ⟨ht, hsize⟩ := ih (hs.apply hop) hrest
    exact ⟨ht, hsize.trans (apply_maxSize hs hop)⟩

omit [LinearOrder α] in
/-- A set that is well formed holds no more than the size that was set. -/
theorem WellFormed.size_le (hs : s.WellFormed w) (hpos : 0 < s.maxSize) : s.size ≤ s.maxSize := by
  have hactive := hs.active_few hpos
  have hprevious := hs.previous_few hpos
  unfold half at hactive hprevious
  unfold size
  omega

/-! ## The window -/

omit [LinearOrder α] in
/-- A value that is not removed is remembered as before. -/
theorem Remembers.without {others : Finset α} (h : s.Remembers v others) {gone : α → Bool} (hv : gone v = false) :
    (s.without gone).Remembers v others := by
  have hkept : ¬ gone v = true := by simp [hv]
  rcases h with hactive | ⟨hprevious, hothers⟩
  · exact .inl (Finset.mem_filter.mpr ⟨hactive, hkept⟩)
  · exact .inr ⟨Finset.mem_filter.mpr ⟨hprevious, hkept⟩, (Finset.filter_subset _ _).trans hothers⟩

/-- What a program inserts newly is what its first operation does, and what the rest does. -/
theorem newly_cons {op : Op α} (h : s.apply w op = some t) (rest : List (Op α)) :
    s.newly w (op :: rest) = s.newlyBy w op rest ++ t.newly w rest := by
  rw [newly, h]
  rfl

/-- An insertion is new exactly if the value was not contained. -/
theorem newlyBy_insert (w : Nat) (s : GenerationalSet α) (value : α) (rest : List (Op α)) :
    s.newlyBy w (.insert value) rest = if s.contains value then [] else [(value, rest)] := by
  show (if (s.insertValue w value).2.2 then [(value, rest)] else []) = _
  rw [insertValue_new]
  cases s.contains value <;> rfl

theorem newlyBy_of_ne {op : Op α} (h : ∀ value, op ≠ .insert value) (s : GenerationalSet α)
    (rest : List (Op α)) : s.newlyBy w op rest = [] := by
  cases op with
  | insert value => exact absurd rfl (h value)
  | erase value => rfl
  | eraseAt pos => rfl
  | lookup value => rfl

/-- A value that is not erased stays as long as the new ones after it are few. -/
theorem Remembers.run {all : Finset α} (h : s.Remembers v all) (hs : s.WellFormed w) (hfew : s.Few all)
    {ops : List (Op α)} (hnew : ∀ entry ∈ s.newly w ops, entry.1 ∈ all) (hkept : ∀ op ∈ ops, op.erases v = false)
    (hrun : s.run w ops = some t) : t.contains v = true := by
  induction ops generalizing s with
  | nil =>
    obtain rfl := Option.some.inj hrun
    exact h.contains
  | cons op ops ih =>
    obtain ⟨u, hop, hrest⟩ := Option.bind_eq_some_iff.mp hrun
    rw [newly_cons hop] at hnew
    have hlater : ∀ entry ∈ u.newly w ops, entry.1 ∈ all := fun entry he => hnew entry (List.mem_append_right _ he)
    have hlate : ∀ op ∈ ops, op.erases v = false := fun op hmem => hkept op (List.mem_cons_of_mem _ hmem)
    rcases apply_cases hs hop with ⟨value, rfl, rfl⟩ | ⟨-, rfl⟩
    · refine ih ?_ (hs.insert value) (hfew.insert value) hlater hlate hrest
      by_cases hknown : s.contains value = true
      case pos => rwa [insert_of_contains hknown]
      case neg =>
        have hvalue : value ∈ all := by
          apply hnew (value, ops)
          rw [newlyBy_insert, if_neg hknown]
          exact List.mem_append_left _ (List.mem_singleton_self _)
        exact h.see (Finset.Subset.refl all) (.inr hvalue) hfew
    · exact ih (h.without (hkept op List.mem_cons_self)) (hs.without op.erases) hfew hlater hlate hrest

/-- What is among the last elements of a longer list is among those of the shorter one, or is the new one while there
is room. -/
theorem mem_rtake_cons {β : Type} {x y : β} {l : List β} {k : Nat} (h : x ∈ (y :: l).rtake k) :
    x ∈ l.rtake k ∨ x = y ∧ l.length < k := by
  unfold List.rtake at h ⊢
  rw [List.length_cons] at h
  by_cases hlong : k ≤ l.length
  case pos =>
    rw [Nat.succ_sub hlong, List.drop_succ_cons] at h
    exact .inl h
  case neg =>
    rw [Nat.sub_eq_zero_of_le (by omega : l.length + 1 ≤ k), List.drop_zero] at h
    rw [Nat.sub_eq_zero_of_le (by omega : l.length ≤ k), List.drop_zero]
    rcases List.mem_cons.mp h with rfl | hmem
    · exact .inr ⟨rfl, by omega⟩
    · exact .inl hmem

/-- Of the newest values, those that were not erased are in the set. -/
theorem contains_of_newest (hs : s.WellFormed w) {ops : List (Op α)} {entry : α × List (Op α)}
    (hnewest : entry ∈ (s.newly w ops).rtake s.half) (hkept : kept entry = true) (hrun : s.run w ops = some t) :
    t.contains entry.1 = true := by
  induction ops generalizing s with
  | nil => cases List.mem_of_mem_drop hnewest
  | cons op ops ih =>
    obtain ⟨u, hop, hrest⟩ := Option.bind_eq_some_iff.mp hrun
    have hu := hs.apply hop
    have hhalf : u.half = s.half := by
      unfold half
      rw [apply_maxSize hs hop]
    rw [newly_cons hop, ← hhalf] at hnewest
    rcases apply_cases hs hop with ⟨value, rfl, rfl⟩ | ⟨hother, -⟩
    case inr =>
      rw [newlyBy_of_ne hother] at hnewest
      exact ih hu hnewest hrest
    case inl =>
      rw [newlyBy_insert] at hnewest
      split at hnewest
      case isTrue => exact ih hu hnewest hrest
      case isFalse hnew =>
        rcases mem_rtake_cons hnewest with hlater | ⟨rfl, hfew⟩
        · exact ih hu hlater hrest
        · let all := (((s.insert value).newly w ops).map Prod.fst).toFinset
          have hall : all.card < (s.insert value).half :=
            ((List.toFinset_card_le _).trans (List.length_map Prod.fst).le).trans_lt hfew
          have hremembers : (s.insert value).Remembers value all :=
            (remembers_insert hnew).imp_right fun h => ⟨h.1, h.2.trans (Finset.empty_subset all)⟩
          apply hremembers.run ((insertValue_fst hs.fits value) ▸ hu) (.inr hall) ?_ ?_ hrest
          · intro entry he
            exact List.mem_toFinset.mpr (List.mem_map_of_mem he)
          · intro op hop
            have hnot := List.all_eq_true.mp hkept op hop
            simpa using hnot

/-! ## The promise -/

/-- What a call makes of an ordinary set. -/
def Op.onSet (members : Finset α) : Op α → Finset α
  | .insert value => Insert.insert value members
  | .erase value => members.erase value
  | .eraseAt pos => members.filter fun v => ↑v ≠ pos.inner
  | .lookup _ => members

/-- Every call answers as an ordinary set with these members would. -/
structure Ordinary (w : Nat) (s : GenerationalSet α) (members : Finset α) : Prop where
  contains : ∀ value, s.contains value = decide (value ∈ members)
  inserted : ∀ value, (s.insertValue w value).2.2 = decide (value ∉ members)
  erased : ∀ value, (s.eraseValue value).2 = times members value
  counted : ∀ value, s.count value = times members value
  found : ∀ value, if value ∈ members then (s.find value).inner = value else (s.find value).same s.endIter = true
  size : s.size = members.card
  iterated : s.iterate (s.size + 1) s.beginIter = some (members.sort (· ≤ ·))

/-- Without a size the operations act on the active generation as on an ordinary set. -/
theorem apply_onSet (hs : s.WellFormed w) (hzero : s.maxSize = 0) {op : Op α} (h : s.apply w op = some t) :
    t.active = op.onSet s.active := by
  rcases apply_cases hs h with ⟨value, rfl, rfl⟩ | ⟨hother, rfl⟩
  case inl =>
    show (s.insert value).active = Insert.insert value s.active
    by_cases hknown : s.contains value = true
    case pos =>
      have hprevious : value ∉ s.previous := by
        rw [hs.unbounded hzero]
        exact Finset.notMem_empty value
      rw [insert_of_contains hknown, Finset.insert_eq_of_mem ((contains_iff.mp hknown).resolve_right hprevious)]
    case neg =>
      rcases insert_cases hknown with ⟨-, heq⟩ | ⟨⟨hpos, -⟩, -⟩
      · rw [heq]
      · omega
  case inr =>
    show s.active.filter (fun v => ¬ op.erases v) = op.onSet s.active
    cases op with
    | insert value => exact absurd rfl (hother value)
    | erase value => simp [Op.erases, Op.onSet, ← Finset.filter_ne]
    | eraseAt pos => simp [Op.erases, Op.onSet, eq_comm]
    | lookup value => simp [Op.erases, Op.onSet]

/-- The members of a set without a capacity are those of the ordinary set. -/
theorem active_eq (hs : s.WellFormed w) (hzero : s.maxSize = 0) {ops : List (Op α)} (hrun : s.run w ops = some t) :
    t.active = ops.foldl Op.onSet s.active := by
  induction ops generalizing s with
  | nil => exact congrArg active (Option.some.inj hrun).symm
  | cons op ops ih =>
    obtain ⟨u, hop, hrest⟩ := Option.bind_eq_some_iff.mp hrun
    rw [List.foldl_cons, ih (hs.apply hop) ((apply_maxSize hs hop).trans hzero) hrest, apply_onSet hs hzero hop]

/-- Without a size the set is an ordinary one. -/
theorem WellFormed.ordinary (hs : s.WellFormed w) (hzero : s.maxSize = 0) : s.Ordinary w s.active := by
  have hprevious := hs.unbounded hzero
  have hcontains (value : α) : s.contains value = decide (value ∈ s.active) := by
    unfold GenerationalSet.contains
    simp [hprevious]
  refine ⟨hcontains, fun value => ?_, fun value => ?_, fun value => ?_, fun value => ?_, ?_, ?_⟩
  case refine_1 => rw [insertValue_new, hcontains, decide_not]
  case refine_2 => simp [eraseValue, times, hprevious]
  case refine_3 =>
    unfold count times
    split <;> simp [hprevious]
  case refine_4 =>
    unfold find
    split
    case isTrue => rw [makeIter, normalize_of_ne_top WithTop.coe_ne_top]
    case isFalse =>
      rw [hprevious, if_neg (Finset.notMem_empty value)]
      rfl
  case refine_5 => simp [size, hprevious]
  case refine_6 =>
    rw [iterate_begin, hprevious, Finset.sort_empty]
    rfl

/-- The bounded window: whatever was inserted and erased, a set with a capacity whose successor is a `size_t` keeps to
it, its generations are apart, an insertion tells whether the value was there, the newest values are in unless they were
erased, and a walk visits every value once. Without a capacity it is an ordinary set. -/
theorem bounded_window {n : Nat} {ops : List (Op α)} {s : GenerationalSet α}
    (h : run w { maxSize := n } ops = some s) :
    (0 < n → n + 1 < 2 ^ w → s.size ≤ n ∧ Disjoint s.active s.previous
      ∧ (∀ value, (s.insertValue w value).2.2 = true ↔ s.contains value = false)
      ∧ (∀ entry ∈ (newly w { maxSize := n } ops).rtake ((n + 1) / 2), kept entry = true → s.contains entry.1 = true)
      ∧ ∃ visited, s.iterate (s.size + 1) s.beginIter = some visited ∧ visited.Nodup
        ∧ ∀ value, value ∈ visited ↔ s.contains value = true)
    ∧ (n = 0 → s.Ordinary w (ops.foldl Op.onSet ∅)) := by
  constructor
  case left =>
    intro hn hfits
    have hempty := wellFormed_empty (α := α) (.inr hfits)
    obtain ⟨hs, hsize⟩ := hempty.run h
    refine ⟨?_, hs.disjoint, fun value => ?_, fun entry hnewest hkept => ?_, _, iterate_begin s, ?_, ?_⟩
    · rw [← show s.maxSize = n from hsize] at hn ⊢
      exact hs.size_le hn
    · rw [insertValue_new, Bool.not_eq_true']
    · exact contains_of_newest hempty hnewest hkept h
    · refine List.nodup_append.mpr ⟨Finset.sort_nodup _ _, Finset.sort_nodup _ _, fun v hprevious w hactive => ?_⟩
      rintro rfl
      exact Finset.disjoint_left.mp hs.disjoint ((Finset.mem_sort _).mp hactive) ((Finset.mem_sort _).mp hprevious)
    · intro value
      rw [List.mem_append, Finset.mem_sort, Finset.mem_sort, contains_iff, or_comm]
  case right =>
    rintro rfl
    have hempty := wellFormed_empty (α := α) (w := w) (.inl rfl)
    obtain ⟨hs, hsize⟩ := hempty.run h
    rw [← active_eq hempty rfl h]
    exact hs.ordinary hsize

theorem bounded_window_five : ∃ s : GenerationalSet Nat,
    run 32 { maxSize := 3 } [.insert 1, .insert 2, .insert 3, .erase 2, .insert 4] = some s ∧ s.size ≤ 3
      ∧ s.contains 3 = true := by
  have h := Option.eq_some_of_isSome (o := run 32 ({ maxSize := 3 } : GenerationalSet Nat)
    [.insert 1, .insert 2, .insert 3, .erase 2, .insert 4]) (by decide)
  obtain ⟨hsize, -, -, hnewest, -⟩ := (bounded_window h).1 (by decide) (by decide)
  exact ⟨_, h, hsize, hnewest (3, [.erase 2, .insert 4]) (by decide) (by decide)⟩

/-- The newest values among those that are still wanted can be gone: a rotation counts the erased ones too. -/
theorem survivors_leave : ¬ ∀ (n : Nat) (ops : List (Op Nat)) (s : GenerationalSet Nat), 0 < n → n + 1 < 2 ^ 32 →
    run 32 { maxSize := n } ops = some s →
    ∀ entry ∈ ((newly 32 { maxSize := n } ops).filter kept).rtake ((n + 1) / 2), s.contains entry.1 = true := by
  intro h
  have hrun := Option.eq_some_of_isSome (o := run 32 ({ maxSize := 4 } : GenerationalSet Nat)
    [.insert 1, .insert 2, .insert 3, .insert 4, .insert 5, .insert 6, .erase 6]) (by decide)
  have hgone := h 4 _ _ (by decide) (by decide) hrun
  revert hgone
  decide

/-- At the largest capacity the sum is zero, and every insertion of a new value rotates. -/
theorem insertValue_widest (hmax : s.maxSize = 2 ^ (w + 1) - 1) (hnew : s.contains v = false) :
    (s.insertValue (w + 1) v).1 = { s with active := ∅, previous := Insert.insert v s.active } := by
  have hpos : 0 < 2 ^ (w + 1) := Nat.two_pow_pos _
  have hbounded : 0 < s.maxSize := by
    have htwo : 2 ≤ 2 ^ (w + 1) := Nat.le_self_pow (Nat.succ_ne_zero w) 2
    omega
  have hzero : (s.maxSize + 1) % 2 ^ (w + 1) / 2 = 0 := by
    rw [hmax, Nat.sub_add_cancel hpos, Nat.mod_self]
  have hnot := fun h => Bool.eq_false_iff.mp hnew (contains_iff.mpr h)
  unfold insertValue
  rw [if_neg fun h => hnot (.inr h), if_neg fun h => hnot (.inl h)]
  dsimp only
  rw [if_pos (by simp [rotationDueIn, hzero, hbounded])]
  rfl

/-- So at the largest capacity the window is one value: of two, the first is gone. -/
theorem widest_forgets {v' : α} (hne : v' ≠ v) : ∃ s : GenerationalSet α,
    run (w + 1) { maxSize := 2 ^ (w + 1) - 1 } [.insert v, .insert v'] = some s ∧ s.contains v = false := by
  let first : GenerationalSet α := { previous := {v}, maxSize := 2 ^ (w + 1) - 1 }
  have hfirst : (insertValue (w + 1) ({ maxSize := 2 ^ (w + 1) - 1 } : GenerationalSet α) v).1 = first :=
    insertValue_widest rfl rfl
  have hsecond := insertValue_widest (s := first) (v := v') rfl (by simp [contains, first, hne])
  refine ⟨{ previous := {v'}, maxSize := 2 ^ (w + 1) - 1 }, ?_, ?_⟩
  · show some (insertValue (w + 1) (insertValue (w + 1) { maxSize := 2 ^ (w + 1) - 1 } v).1 v').1 = _
    rw [hfirst, hsecond]
    rfl
  · simp [contains, hne.symm]

end MicroReticulum.Library.GenerationalSet
