import Mathlib.Data.List.Basic
import Mathlib.Data.List.Count
import Mathlib.Data.List.Nodup
import Mathlib.Data.List.Perm.Basic
import Mathlib.Data.List.Perm.Subperm

/-!
# Forests kept as a list of parent links

Entries of a list have a key and may name the key of a parent. The list is grown one entry at a time, with a key that
is new and a parent that is there (`Links.Grown`). That is enough for a forest: from each entry the parents lead to a
root over entries that are all different (`Links.Grown.ancestry`), and a walk from the roots down to the children ends
and lists every entry once (`Links.Grown.walks`).

A walk is given by its big steps, for any function that says what is below an entry: it has a listing exactly if it
ends.
-/

namespace MicroReticulum.Library

variable {α κ : Type}

/-- What the entries are linked by. -/
structure Links (α κ : Type) where
  key : α → κ
  parent : α → Option κ

/-- A walk down over entries and what is below them, each entry before what is below it. -/
inductive Walks (below : α → List α) : List α → List α → Prop
  | nil : Walks below [] []
  | cons {x : α} {xs under rest : List α} (hunder : Walks below (below x) under) (hrest : Walks below xs rest) :
    Walks below (x :: xs) (x :: (under ++ rest))

namespace Walks

variable {below below' : α → List α} {xs ys out out' : List α}

theorem append (h : Walks below xs out) (h' : Walks below ys out') : Walks below (xs ++ ys) (out ++ out') := by
  induction h with
  | nil => exact h'
  | cons hunder _ _ ihrest =>
    have happ := Walks.cons hunder ihrest
    rwa [← List.append_assoc, ← List.cons_append] at happ

/-- An entry with nothing below it. -/
theorem leaf {x : α} (h : below x = []) : Walks below [x] [x] := by
  have hunder : Walks below (below x) [] := by
    rw [h]
    exact .nil
  exact .cons hunder .nil

/-- A walk that stays among some entries depends on what is below those only. -/
theorem congr {l : List α} (heq : ∀ x ∈ l, below' x = below x) (hbelow : ∀ x ∈ l, below x ⊆ l)
    (h : Walks below xs out) (hxs : xs ⊆ l) : Walks below' xs out := by
  induction h with
  | nil => exact .nil
  | @cons x xs under rest _ _ ihunder ihrest =>
    have hx : x ∈ l := hxs List.mem_cons_self
    have hunder := ihunder (hbelow x hx)
    rw [← heq x hx] at hunder
    exact .cons hunder (ihrest fun y hy => hxs (List.mem_cons_of_mem x hy))

/-- A walk that comes to an entry from which there is always a way on does not end. -/
theorem not_mem_of_endless (endless : α → Prop) (hendless : ∀ x, endless x → ∃ y ∈ below x, endless y)
    (h : Walks below xs out) : ∀ x ∈ xs, ¬ endless x := by
  induction h with
  | nil =>
    intro x hx
    cases hx
  | cons _ _ ihunder ihrest =>
    intro x hx hx'
    rcases List.mem_cons.mp hx with rfl | hx
    · obtain ⟨y, hy, hy'⟩ := hendless x hx'
      exact ihunder y hy hy'
    · exact ihrest x hx hx'

end Walks

namespace Links

variable {L : Links α κ} {l : List α} {x y : α}

/-- The list was grown entry by entry, each with a new key and below an entry that was there. -/
inductive Grown (L : Links α κ) : List α → Prop
  | nil : Grown L []
  | snoc {l : List α} {x : α} (h : Grown L l) (hnew : L.key x ∉ l.map L.key)
      (hparent : ∀ k ∈ L.parent x, k ∈ l.map L.key) : Grown L (l ++ [x])

/-- The entries passed on the way from an entry up to a root. -/
inductive Ancestry (L : Links α κ) (l : List α) : α → List α → Prop
  | root {x : α} (hx : x ∈ l) (hroot : L.parent x = none) : Ancestry L l x [x]
  | link {x y : α} {c : List α} (hx : x ∈ l) (hlink : L.parent x = some (L.key y)) (h : Ancestry L l y c) :
    Ancestry L l x (x :: c)

/-! ## Up -/

theorem Ancestry.subset {c : List α} (h : Ancestry L l x c) : c ⊆ l := by
  induction h with
  | root hx _ =>
    intro y hy
    rwa [List.mem_singleton.mp hy]
  | link hx _ _ ih => exact List.cons_subset.mpr ⟨hx, ih⟩

theorem Ancestry.mono {c m : List α} (hlm : l ⊆ m) (h : Ancestry L l x c) : Ancestry L m x c := by
  induction h with
  | root hx hroot => exact .root (hlm hx) hroot
  | link hx hlink _ ih => exact .link (hlm hx) hlink ih

/-- The way up ends at a root. -/
theorem Ancestry.exists_root {c : List α} (h : Ancestry L l x c) : ∃ y ∈ c, L.parent y = none := by
  induction h with
  | root _ hroot => exact ⟨_, List.mem_cons_self, hroot⟩
  | link _ _ _ ih =>
    obtain ⟨y, hy, hroot⟩ := ih
    exact ⟨y, List.mem_cons_of_mem _ hy, hroot⟩

/-- Each entry on the way up is where it starts, or has an entry of the way below it. -/
theorem Ancestry.exists_child {c : List α} (h : Ancestry L l x c) (hy : y ∈ c) :
    y = x ∨ ∃ z ∈ c, L.parent z = some (L.key y) := by
  induction h with
  | root => exact .inl (List.mem_singleton.mp hy)
  | @link x x' c _ hlink _ ih =>
    rcases List.mem_cons.mp hy with rfl | hy
    · exact .inl rfl
    · rcases ih hy with rfl | ⟨z, hz, hzy⟩
      · exact .inr ⟨x, List.mem_cons_self, hlink⟩
      · exact .inr ⟨z, List.mem_cons_of_mem x hz, hzy⟩

/-- A way up that passes no entry twice is no longer than the list. -/
theorem Ancestry.length_le {c : List α} (h : Ancestry L l x c) (hnodup : c.Nodup) : c.length ≤ l.length :=
  (List.subperm_of_subset hnodup h.subset).length_le

namespace Grown

theorem keys_nodup (h : Grown L l) : (l.map L.key).Nodup := by
  induction h with
  | nil => exact List.nodup_nil
  | snoc _ hnew _ ih =>
    rw [List.map_append, List.map_singleton]
    exact List.Nodup.append ih (List.nodup_singleton _) (List.disjoint_singleton.mpr hnew)

/-- The parent of an entry is there. -/
theorem parent_mem (h : Grown L l) (hx : x ∈ l) {k : κ} (hk : L.parent x = some k) : k ∈ l.map L.key := by
  induction h with
  | nil => cases hx
  | snoc _ _ hparent ih =>
    rw [List.map_append, List.mem_append]
    rcases List.mem_append.mp hx with hx | hx
    · exact .inl (ih hx)
    · rw [List.mem_singleton.mp hx] at hk
      exact .inl (hparent k hk)

/-- The parents of an entry lead to a root, over entries that are all different. -/
theorem ancestry (h : Grown L l) (hx : x ∈ l) : ∃ c, Ancestry L l x c ∧ c.Nodup := by
  induction h generalizing x with
  | nil => cases hx
  | @snoc l z hl hnew hparent ih =>
    have hsub : l ⊆ l ++ [z] := List.subset_append_left l [z]
    rcases List.mem_append.mp hx with hx | hx
    · obtain ⟨c, hc, hnodup⟩ := ih hx
      exact ⟨c, hc.mono hsub, hnodup⟩
    · rw [List.mem_singleton] at hx
      subst hx
      have hx : x ∈ l ++ [x] := List.mem_append_right l List.mem_cons_self
      cases hp : L.parent x with
      | none => exact ⟨[x], .root hx hp, List.nodup_singleton x⟩
      | some k =>
        obtain ⟨y, hy, rfl⟩ := List.mem_map.mp (hparent k hp)
        obtain ⟨c, hc, hnodup⟩ := ih hy
        have hfresh : x ∉ c := fun hmem => hnew (List.mem_map_of_mem (hc.subset hmem))
        exact ⟨x :: c, .link hx hp (hc.mono hsub), List.nodup_cons.mpr ⟨hfresh, hnodup⟩⟩

end Grown

/-! ## Down -/

/-- The entries without a parent. -/
def roots (L : Links α κ) (l : List α) : List α := l.filter fun y => L.parent y = none

theorem roots_snoc (l : List α) (z : α) :
    L.roots (l ++ [z]) = L.roots l ++ if L.parent z = none then [z] else [] := by
  simp [roots, List.filter_append, List.filter_singleton]

variable [DecidableEq κ]

/-- The entries below an entry. -/
def children (L : Links α κ) (l : List α) (x : α) : List α := l.filter fun y => L.parent y = some (L.key x)

theorem children_snoc (l : List α) (z x : α) :
    L.children (l ++ [z]) x = L.children l x ++ if L.parent z = some (L.key x) then [z] else [] := by
  simp [children, List.filter_append, List.filter_singleton]

/-- Nothing is below an entry whose key no entry names. -/
theorem children_eq_nil (h : ∀ y ∈ l, L.parent y ≠ some (L.key x)) : L.children l x = [] :=
  List.filter_eq_nil_iff.mpr fun y hy => by simpa using h y hy

/-- With a new entry a walk lists that behind each listing of its parent. -/
theorem walks_snoc {z : α} {xs out : List α} (hleaf : L.children (l ++ [z]) z = [])
    (h : Walks (L.children l) xs out) :
    ∃ out', Walks (L.children (l ++ [z])) xs out' ∧
      out'.Perm (out ++ (out.filter fun y => L.parent z = some (L.key y)).map fun _ => z) := by
  induction h with
  | nil => exact ⟨[], .nil, by simp⟩
  | @cons x xs under rest _ _ ihunder ihrest =>
    obtain ⟨under', hunder, hperm⟩ := ihunder
    obtain ⟨rest', hrest, hperm'⟩ := ihrest
    by_cases hx : L.parent z = some (L.key x)
    · refine ⟨x :: ((under' ++ [z]) ++ rest'), .cons ?_ hrest, ?_⟩
      · rw [children_snoc, if_pos hx]
        exact hunder.append (.leaf hleaf)
      · classical
        rw [List.perm_iff_count] at hperm hperm' ⊢
        intro a
        have hunder := hperm a
        have hrest := hperm' a
        simp only [List.count_cons, List.count_append, List.filter_cons, List.filter_append, List.map_append,
          hx, decide_true, if_true, List.map_cons, List.count_nil] at hunder hrest ⊢
        omega
    · refine ⟨x :: (under' ++ rest'), .cons ?_ hrest, ?_⟩
      · rwa [children_snoc, if_neg hx, List.append_nil]
      · classical
        rw [List.perm_iff_count] at hperm hperm' ⊢
        intro a
        have hunder := hperm a
        have hrest := hperm' a
        simp only [List.count_cons, List.count_append, List.filter_cons, List.filter_append, List.map_append,
          hx, decide_false, Bool.false_eq_true, if_false] at hunder hrest ⊢
        omega

/-- Of unique keys one is found once. -/
theorem filter_key_eq {k : κ} (hnodup : (l.map L.key).Nodup) (hk : k ∈ l.map L.key) :
    ((l.filter fun y => some k = some (L.key y)).map fun _ => x) = [x] := by
  have hcount : ((l.filter fun y => some k = some (L.key y))).length = 1 := by
    rw [← List.countP_eq_length_filter, ← List.count_eq_one_of_mem hnodup hk, List.count, List.countP_map]
    refine List.countP_congr fun y _ => ?_
    simp only [Option.some_inj, Function.comp_apply, decide_eq_true_eq, beq_iff_eq]
    exact eq_comm
  obtain ⟨y, hy⟩ := List.length_eq_one_iff.mp hcount
  rw [hy]
  rfl

/-- The walk down from the roots ends, and lists every entry once. -/
theorem Grown.walks (h : Grown L l) : ∃ out, Walks (L.children l) (L.roots l) out ∧ out.Perm l := by
  induction h with
  | nil => exact ⟨[], .nil, List.Perm.refl []⟩
  | @snoc l z hl hnew hparent ih =>
    obtain ⟨out, hwalk, hperm⟩ := ih
    have hself : L.parent z ≠ some (L.key z) := fun hz => hnew (hparent _ hz)
    have hleaf : L.children (l ++ [z]) z = [] := by
      refine children_eq_nil fun y hy hz => ?_
      rcases List.mem_append.mp hy with hy | hy
      · exact hnew (hl.parent_mem hy hz)
      · rw [List.mem_singleton.mp hy] at hz
        exact hself hz
    obtain ⟨out', hwalk', hperm'⟩ := walks_snoc hleaf hwalk
    rw [roots_snoc]
    cases hp : L.parent z with
    | none =>
      rw [hp] at hperm'
      refine ⟨out' ++ [z], ?_, ?_⟩
      · rw [if_pos rfl]
        exact hwalk'.append (.leaf hleaf)
      · have hout : out'.Perm out := by simpa using hperm'
        exact (hout.trans hperm).append_right [z]
    | some k =>
      have hkeys : (out.map L.key).Perm (l.map L.key) := hperm.map L.key
      rw [hp, filter_key_eq (hkeys.nodup_iff.mpr hl.keys_nodup) (hkeys.mem_iff.mpr (hparent k hp))] at hperm'
      refine ⟨out', ?_, hperm'.trans (hperm.append_right [z])⟩
      rwa [if_neg (by simp), List.append_nil]

end Links

end MicroReticulum.Library
