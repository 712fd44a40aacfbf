import Mathlib.Logic.Function.Basic
import Mathlib.Data.Option.Basic

/-!
# Variables that share their cells

A variable refers to a cell, or to none. Two variables may refer to the same cell, and a variable that takes its
cell for its own writes into it. `Store.Sound` is what such a store lives by: a cell that somebody takes for its
own is referred to by nobody else.

Each operation comes with what it does to the values the variables show: as long as only own cells are written
to, it is what the same operation does to variables that share nothing. `Store.write_shows` is the exception: a
write that is not through an own cell is seen by everybody who refers to it.
-/

namespace MicroReticulum.Library

/-- A variable: the cell it refers to, and whether it takes it for its own. -/
structure Handle where
  cell : Option Nat := none
  own : Bool := true
  deriving DecidableEq

/-- Cells from `next` on have not been used. -/
structure Store (V α : Type) where
  handles : V → Handle
  cells : Nat → α
  next : Nat

namespace Store

variable {V α : Type}

/-- The value a variable shows; one without a cell shows `empty`. -/
def shows (empty : α) (s : Store V α) (x : V) : α :=
  match (s.handles x).cell with
  | none => empty
  | some c => s.cells c

/-- Two variables refer to the same cell. -/
def Shares (s : Store V α) (x y : V) : Prop := ∃ c, (s.handles x).cell = some c ∧ (s.handles y).cell = some c

structure Sound (s : Store V α) : Prop where
  allocated : ∀ {x : V} {c : Nat}, (s.handles x).cell = some c → c < s.next
  apart : ∀ {x y : V}, (s.handles x).own = true → s.Shares x y → x = y

/-- Write into the cell that `x` refers to. -/
def write (x : V) (f : α → α) (s : Store V α) : Store V α :=
  match (s.handles x).cell with
  | none => s
  | some c => { s with cells := Function.update s.cells c (f (s.cells c)) }

variable {empty : α} {s : Store V α} {x y : V}

theorem shows_of_none (h : (s.handles x).cell = none) : s.shows empty x = empty := by
  unfold shows
  rw [h]

theorem shows_of_cell {c : Nat} (h : (s.handles x).cell = some c) : s.shows empty x = s.cells c := by
  unfold shows
  rw [h]

theorem write_write (x : V) (f g : α → α) (s : Store V α) : (s.write x f).write x g = s.write x (g ∘ f) := by
  cases hc : (s.handles x).cell with
  | none => simp [write, hc]
  | some c => simp [write, hc]

theorem Sound.write (hs : s.Sound) (x : V) (f : α → α) : (s.write x f).Sound := by
  unfold Store.write
  split
  · exact hs
  · exact ⟨hs.allocated, hs.apart⟩

/-- What is written is shown by everybody who refers to the cell. -/
theorem write_shows {c : Nat} (hc : (s.handles x).cell = some c) (f : α → α) (y : V) [Decidable (s.Shares x y)] :
    (s.write x f).shows empty y = if s.Shares x y then f (s.shows empty x) else s.shows empty y := by
  have hwrite : s.write x f = { s with cells := Function.update s.cells c (f (s.cells c)) } := by
    unfold write
    rw [hc]
  rw [hwrite, shows_of_cell hc]
  split
  case isTrue hshares =>
    obtain ⟨c', hx, hy⟩ := hshares
    obtain rfl : c = c' := Option.some.inj (hc.symm.trans hx)
    unfold shows
    dsimp only
    rw [hy]
    exact Function.update_self _ _ _
  case isFalse hapart =>
    unfold shows
    dsimp only
    cases hy : (s.handles y).cell with
    | none => rfl
    | some c' =>
      have hne : c' ≠ c := fun heq => hapart ⟨c, hc, heq ▸ hy⟩
      exact Function.update_of_ne hne _ _

/-! ## Operations -/

variable [DecidableEq V]

/-- Refer to nothing. -/
def release (x : V) (s : Store V α) : Store V α := { s with handles := Function.update s.handles x {} }

/-- Refer to a new cell, which nobody else knows. -/
def allocate (x : V) (v : α) (s : Store V α) : Store V α where
  handles := Function.update s.handles x { cell := some s.next, own := true }
  cells := Function.update s.cells s.next v
  next := s.next + 1

/-- Nobody takes the cell of `y` for its own from now on. -/
def disown (y : V) (s : Store V α) : Store V α :=
  { s with handles := Function.update s.handles y { s.handles y with own := false } }

/-- `x` refers to what `y` refers to. -/
def share (x y : V) (s : Store V α) : Store V α :=
  let s := s.disown y
  { s with handles := Function.update s.handles x { cell := (s.handles y).cell, own := false } }

/-- `x` becomes what `y` was, which is no more. -/
def rename (x y : V) (s : Store V α) : Store V α :=
  { s with handles := Function.update (Function.update s.handles y {}) x (s.handles y) }

/-! ## The invariant -/

/-- A store in which the handle of one variable changes stays sound, when an own cell is new to the others. -/
theorem Sound.update (hs : s.Sound) (x : V) (h : Handle) (halloc : ∀ c, h.cell = some c → c < s.next)
    (hapart : ∀ c, h.cell = some c → ∀ y, y ≠ x → (s.handles y).cell = some c →
      h.own = false ∧ (s.handles y).own = false) :
    ({ s with handles := Function.update s.handles x h } : Store V α).Sound where
  allocated := by
    intro y c hy
    dsimp only at hy
    by_cases hyx : y = x
    · subst hyx
      rw [Function.update_self] at hy
      exact halloc c hy
    · rw [Function.update_of_ne hyx] at hy
      exact hs.allocated hy
  apart := by
    intro y z hown hshares
    obtain ⟨c, hy, hz⟩ := hshares
    by_cases hyx : y = x <;> by_cases hzx : z = x
    · rw [hyx, hzx]
    · subst hyx
      simp only [Function.update_self, Function.update_of_ne hzx] at hown hy hz
      have hfalse := (hapart c hy z hzx hz).1
      rw [hown] at hfalse
      cases hfalse
    · subst hzx
      simp only [Function.update_self, Function.update_of_ne hyx] at hown hy hz
      have hfalse := (hapart c hz y hyx hy).2
      rw [hown] at hfalse
      cases hfalse
    · simp only [Function.update_of_ne hyx, Function.update_of_ne hzx] at hown hy hz
      exact hs.apart hown ⟨c, hy, hz⟩

theorem Sound.release (hs : s.Sound) (x : V) : (s.release x).Sound :=
  hs.update x {} (fun _ h => by cases h) fun _ h => by cases h

theorem Sound.disown (hs : s.Sound) (y : V) : (s.disown y).Sound := by
  refine hs.update y _ (fun c h => hs.allocated h) fun c hc z hz hzc => ⟨rfl, ?_⟩
  by_contra hown
  rw [Bool.not_eq_false] at hown
  exact hz (hs.apart hown ⟨c, hzc, hc⟩)

theorem Sound.share (hs : s.Sound) (x y : V) : (s.share x y).Sound := by
  have hdisown := hs.disown y
  refine hdisown.update x _ (fun c h => hdisown.allocated h) fun c hc z hz hzc => ⟨rfl, ?_⟩
  by_cases hzy : z = y
  · subst hzy
    simp [Store.disown]
  · by_contra hown
    rw [Bool.not_eq_false] at hown
    exact hzy (hdisown.apart hown ⟨c, hzc, hc⟩)

theorem Sound.allocate (hs : s.Sound) (x : V) (v : α) : (s.allocate x v).Sound := by
  have hgrown : ({ s with cells := (s.allocate x v).cells, next := s.next + 1 } : Store V α).Sound :=
    ⟨fun h => Nat.lt_trans (hs.allocated h) (Nat.lt_succ_self _), hs.apart⟩
  refine hgrown.update x _ (fun c hc => ?_) fun c hc y hy hyc => ?_
  · cases hc
    exact Nat.lt_succ_self _
  · cases hc
    exact absurd (hs.allocated hyc) (Nat.lt_irrefl _)

theorem Sound.rename (hs : s.Sound) (x y : V) : (s.rename x y).Sound := by
  have hfreed : (s.release y).Sound := hs.release y
  refine hfreed.update x (s.handles y) (fun c hc => hs.allocated hc) fun c hc z hz hzc => ?_
  have hzy : z ≠ y := by
    rintro rfl
    simp [Store.release] at hzc
  have hzc' : (s.handles z).cell = some c := by simpa [Store.release, Function.update_of_ne hzy] using hzc
  constructor
  · by_contra hown
    rw [Bool.not_eq_false] at hown
    exact hzy (hs.apart hown ⟨c, hc, hzc'⟩).symm
  · by_contra hown
    rw [Bool.not_eq_false] at hown
    rw [show (s.release y).handles z = s.handles z from Function.update_of_ne hzy _ _] at hown
    exact hzy (hs.apart hown ⟨c, hzc', hc⟩)

/-! ## What the variables show -/

theorem release_shows (x : V) (s : Store V α) :
    (s.release x).shows empty = Function.update (s.shows empty) x empty := by
  funext y
  by_cases hyx : y = x
  · subst hyx
    simp [shows, release]
  · simp [shows, release, Function.update_of_ne hyx]

theorem share_shows (x y : V) (s : Store V α) :
    (s.share x y).shows empty = Function.update (s.shows empty) x (s.shows empty y) := by
  have hdisown : (s.disown y).shows empty = s.shows empty := by
    funext z
    by_cases hzy : z = y
    · subst hzy
      simp [shows, disown]
    · simp [shows, disown, Function.update_of_ne hzy]
  rw [← hdisown]
  funext z
  by_cases hzx : z = x
  · subst hzx
    simp [shows, share]
  · simp [shows, share, Function.update_of_ne hzx]

theorem allocate_shows (hs : s.Sound) (x : V) (v : α) :
    (s.allocate x v).shows empty = Function.update (s.shows empty) x v := by
  funext y
  by_cases hyx : y = x
  · subst hyx
    simp [shows, allocate]
  · have hcell : (s.allocate x v).handles y = s.handles y := Function.update_of_ne hyx _ _
    rw [Function.update_of_ne hyx]
    unfold shows
    rw [hcell]
    cases hc : (s.handles y).cell with
    | none => rfl
    | some c => exact Function.update_of_ne (Nat.ne_of_lt (hs.allocated hc)) _ _

theorem rename_shows (hxy : x ≠ y) (s : Store V α) :
    (s.rename x y).shows empty = Function.update (Function.update (s.shows empty) y empty) x (s.shows empty y) := by
  funext z
  by_cases hzx : z = x
  · subst hzx
    simp [shows, rename]
  · by_cases hzy : z = y
    · subst hzy
      simp [shows, rename, Function.update_of_ne hzx]
    · simp [shows, rename, Function.update_of_ne hzx, Function.update_of_ne hzy]

/-- A write into an own cell is seen by nobody else. -/
theorem write_shows_own (hs : s.Sound) {c : Nat} (hc : (s.handles x).cell = some c) (hown : (s.handles x).own = true)
    (f : α → α) : (s.write x f).shows empty = Function.update (s.shows empty) x (f (s.shows empty x)) := by
  classical
  funext y
  rw [write_shows hc]
  by_cases hyx : y = x
  · subst hyx
    rw [if_pos ⟨c, hc, hc⟩, Function.update_self]
  · rw [if_neg fun hshares => hyx (hs.apart hown hshares).symm, Function.update_of_ne hyx]

end Store

end MicroReticulum.Library
