import Mathlib.Data.Finset.Card

/-!
# A set that forgets by generations

New members go to the active generation. When it has half the capacity it becomes the previous one, and what was the
previous one is forgotten. A member is not moved when it is seen again.

`seeAll_contains` is what such a set is good for: a member is remembered at least until half the capacity of others
have been seen.
-/

namespace MicroReticulum.Library

/-- Two generations; a capacity of zero is none. -/
structure GenerationalSet (α : Type) where
  active : Finset α := ∅
  previous : Finset α := ∅
  maxSize : Nat := 0

namespace GenerationalSet

variable {α : Type} [DecidableEq α] {s : GenerationalSet α} {x y : α}

def contains (s : GenerationalSet α) (x : α) : Bool := x ∈ s.active || x ∈ s.previous

/-- The size at which the active generation becomes the previous one. The sum is not cut to a machine word: a program
that takes it in one agrees with this as long as the capacity's successor fits. -/
def half (s : GenerationalSet α) : Nat := (s.maxSize + 1) / 2

def rotationDue (s : GenerationalSet α) : Bool := 0 < s.maxSize && s.half ≤ s.active.card

def rotate (s : GenerationalSet α) : GenerationalSet α := { s with active := ∅, previous := s.active }

def insert (s : GenerationalSet α) (x : α) : GenerationalSet α :=
  if x ∈ s.previous then s
  else if x ∈ s.active then s
  else
    let grown := { s with active := Insert.insert x s.active }
    if grown.rotationDue then grown.rotate else grown

theorem contains_iff : s.contains x = true ↔ x ∈ s.active ∨ x ∈ s.previous := by
  unfold contains
  rw [Bool.or_eq_true, decide_eq_true_iff, decide_eq_true_iff]

theorem insert_of_contains (h : s.contains x = true) : s.insert x = s := by
  unfold insert
  rcases contains_iff.mp h with hactive | hprevious
  · rw [if_pos hactive, ite_self]
  · rw [if_pos hprevious]

/-- What a new member makes of the set. -/
theorem insert_cases (h : ¬ s.contains x = true) :
    (s.maxSize = 0 ∨ (Insert.insert x s.active).card < s.half)
        ∧ s.insert x = { s with active := Insert.insert x s.active }
      ∨ (0 < s.maxSize ∧ s.half ≤ (Insert.insert x s.active).card)
        ∧ s.insert x = { s with active := ∅, previous := Insert.insert x s.active } := by
  rw [contains_iff, not_or] at h
  unfold insert
  rw [if_neg h.2, if_neg h.1]
  dsimp only
  unfold rotationDue rotate half
  by_cases hdue : 0 < s.maxSize ∧ (s.maxSize + 1) / 2 ≤ (Insert.insert x s.active).card
  case pos =>
    rw [if_pos (by simpa using hdue)]
    exact .inr ⟨hdue, rfl⟩
  case neg =>
    rw [if_neg (by simpa using hdue)]
    refine .inl ⟨?_, rfl⟩
    omega

@[simp] theorem insert_maxSize (s : GenerationalSet α) (x : α) : (s.insert x).maxSize = s.maxSize := by
  by_cases h : s.contains x = true
  case pos => rw [insert_of_contains h]
  case neg =>
    rcases insert_cases h with ⟨-, heq⟩ | ⟨-, heq⟩
    · rw [heq]
    · rw [heq]

/-- See some members, one after the other. -/
def seeAll (s : GenerationalSet α) (l : List α) : GenerationalSet α := l.foldl insert s

/-- The member is remembered, and everything in the generation behind it is among the others that were seen. -/
def Remembers (s : GenerationalSet α) (x : α) (others : Finset α) : Prop :=
  x ∈ s.active ∨ x ∈ s.previous ∧ s.active ⊆ others

theorem Remembers.contains {others : Finset α} (h : s.Remembers x others) : s.contains x = true :=
  contains_iff.mpr (h.imp_right And.left)

/-- A new member is remembered. -/
theorem remembers_insert (h : ¬ s.contains x = true) : (s.insert x).Remembers x ∅ := by
  rcases insert_cases h with ⟨-, heq⟩ | ⟨-, heq⟩
  · rw [heq]
    exact .inl (Finset.mem_insert_self x _)
  · rw [heq]
    exact .inr ⟨Finset.mem_insert_self x _, Finset.Subset.refl ∅⟩

/-- Fewer others than half the capacity, if there is one. -/
def Few (s : GenerationalSet α) (others : Finset α) : Prop := s.maxSize = 0 ∨ others.card < s.half

theorem Few.insert {others : Finset α} (h : s.Few others) (y : α) : (s.insert y).Few others := by
  unfold Few half at h ⊢
  rw [insert_maxSize]
  exact h

omit [DecidableEq α] in
theorem Few.subset {others all : Finset α} (h : s.Few all) (hall : others ⊆ all) : s.Few others :=
  h.imp_right fun hfew => (Finset.card_le_card hall).trans_lt hfew

/-- As long as the others are few, the member stays. -/
theorem Remembers.see {others all : Finset α} (h : s.Remembers x others) (hall : others ⊆ all)
    (hy : y = x ∨ y ∈ all) (hfew : s.Few all) : (s.insert y).Remembers x all := by
  by_cases hknown : s.contains y = true
  case pos =>
    rw [insert_of_contains hknown]
    exact h.imp_right fun hprevious => ⟨hprevious.1, hprevious.2.trans hall⟩
  case neg =>
    have hmem : y ∈ all := hy.resolve_left fun hsame => hknown (hsame ▸ h.contains)
    rcases insert_cases hknown with ⟨-, heq⟩ | ⟨⟨hbounded, hdue⟩, heq⟩
    · rw [heq]
      rcases h with hactive | ⟨hprevious, hothers⟩
      · exact .inl (Finset.mem_insert_of_mem hactive)
      · exact .inr ⟨hprevious, Finset.insert_subset hmem (hothers.trans hall)⟩
    · rw [heq]
      rcases h with hactive | ⟨-, hothers⟩
      · exact .inr ⟨Finset.mem_insert_of_mem hactive, Finset.empty_subset all⟩
      · have hmany : s.half ≤ all.card :=
          hdue.trans (Finset.card_le_card (Finset.insert_subset hmem (hothers.trans hall)))
        rcases hfew with hunbounded | hfew
        · omega
        · omega

theorem Remembers.seeAll {others all : Finset α} (h : s.Remembers x others) (hall : others ⊆ all) (hfew : s.Few all)
    {l : List α} (hl : ∀ y ∈ l, y = x ∨ y ∈ all) : (s.seeAll l).Remembers x all := by
  induction l generalizing s others with
  | nil => exact h.imp_right fun hprevious => ⟨hprevious.1, hprevious.2.trans hall⟩
  | cons y l ih =>
    have hnext := h.see hall (hl y List.mem_cons_self) hfew
    exact ih hnext (Finset.Subset.refl all) (hfew.insert y) fun z hz => hl z (List.mem_cons_of_mem _ hz)

/-- A new member is remembered at least until half the capacity of others have been seen. -/
theorem seeAll_contains (h : ¬ s.contains x = true) {l : List α} (hfew : s.Few (l.toFinset.erase x)) :
    ((s.insert x).seeAll l).contains x = true := by
  apply Remembers.contains
  apply (remembers_insert h).seeAll (Finset.empty_subset _) (hfew.insert x)
  intro y hy
  by_cases hsame : y = x
  · exact .inl hsame
  · exact .inr (Finset.mem_erase.mpr ⟨hsame, List.mem_toFinset.mpr hy⟩)

/-! ## What is new -/

/-- The members that were new when they were seen. -/
def news (s : GenerationalSet α) : List α → List α
  | [] => []
  | x :: l => if s.contains x then news s l else x :: news (s.insert x) l

theorem news_append (s : GenerationalSet α) (l : List α) (x : α) :
    s.news (l ++ [x]) = s.news l ++ if (s.seeAll l).contains x then [] else [x] := by
  induction l generalizing s with
  | nil =>
    show (if s.contains x then [] else [x]) = _
    rfl
  | cons y l ih =>
    show (if s.contains y then s.news (l ++ [x]) else y :: (s.insert y).news (l ++ [x]))
      = (if s.contains y then s.news l else y :: (s.insert y).news l)
        ++ if ((s.insert y).seeAll l).contains x then [] else [x]
    split
    case isTrue hknown => rw [ih, insert_of_contains hknown]
    case isFalse => rw [ih, List.cons_append]

/-- How often a member was new. -/
def timesNew (s : GenerationalSet α) (l : List α) (x : α) : Nat := (s.news l).count x

theorem timesNew_append (s : GenerationalSet α) (l : List α) (x y : α) :
    s.timesNew (l ++ [y]) x = s.timesNew l x + if ¬ (s.seeAll l).contains y = true ∧ y = x then 1 else 0 := by
  unfold timesNew
  rw [news_append, List.count_append]
  congr 1
  by_cases hknown : (s.seeAll l).contains y = true
  case pos =>
    rw [if_pos hknown, if_neg fun h => h.1 hknown]
    rfl
  case neg =>
    rw [if_neg hknown, List.count_singleton]
    simp [hknown]

/-- What is remembered is not new, as long as the others are few. -/
theorem Remembers.not_mem_news {all : Finset α} (h : s.Remembers x all) (hfew : s.Few all) {l : List α}
    (hl : ∀ y ∈ l, y = x ∨ y ∈ all) : x ∉ s.news l := by
  induction l generalizing s with
  | nil => exact List.not_mem_nil
  | cons y l ih =>
    have hrest : ∀ z ∈ l, z = x ∨ z ∈ all := fun z hz => hl z (List.mem_cons_of_mem _ hz)
    have hlater := ih (h.see (Finset.Subset.refl all) (hl y List.mem_cons_self) hfew) (hfew.insert y) hrest
    unfold news
    split
    case isTrue => exact ih h hfew hrest
    case isFalse hnew =>
      intro hmem
      rcases List.mem_cons.mp hmem with rfl | hmem
      · exact hnew h.contains
      · exact hlater hmem

/-- Among few others a member is new once. -/
theorem timesNew_le (x : α) {l : List α} (hfew : s.Few (l.toFinset.erase x)) : s.timesNew l x ≤ 1 := by
  unfold timesNew
  induction l generalizing s with
  | nil => exact Nat.zero_le 1
  | cons y l ih =>
    have hfewer : s.Few (l.toFinset.erase x) := by
      apply hfew.subset
      apply Finset.erase_subset_erase
      rw [List.toFinset_cons]
      exact Finset.subset_insert y _
    unfold news
    split
    case isTrue => exact ih hfewer
    case isFalse hnew =>
      by_cases hsame : y = x
      case neg =>
        rw [List.count_cons_of_ne hsame]
        exact ih (hfewer.insert y)
      case pos =>
        subst hsame
        have hold : y ∉ (s.insert y).news l := by
          have hremembers : (s.insert y).Remembers y (l.toFinset.erase y) :=
            (remembers_insert hnew).imp_right fun h => ⟨h.1, h.2.trans (Finset.empty_subset _)⟩
          apply hremembers.not_mem_news (hfewer.insert y)
          intro z hz
          by_cases hzy : z = y
          · exact .inl hzy
          · exact .inr (Finset.mem_erase.mpr ⟨hzy, List.mem_toFinset.mpr hz⟩)
        rw [List.count_cons_self, List.count_eq_zero.mpr hold]

end GenerationalSet

end MicroReticulum.Library
