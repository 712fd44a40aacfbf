import MicroReticulum.Library.Forest
import MicroReticulum.Library.Indexed
import MicroReticulum.Provisioning.Provisioner

/-!
# The namespace registry

The registry keeps the namespaces in the order of their registration, with two indices beside the list: from ids, and
from the names of root namespaces. Namespaces name their parents by id, and 0 stands for no parent.

The cycle check of `add_namespace` walks up from the parent over a registry that grew this way. It is given with the
number of steps it may take, and says nothing where they are not enough.
-/

namespace MicroReticulum.Provisioning

open MicroReticulum Library

variable {R : Type}

/-- `Registry` -/
structure Registry (R : Type) where
  namespaces : List (NamespaceDecl R) := []
  /-- `_id_index` -/
  idIndex : AList fun _ : NamespaceId => Nat := ∅
  /-- `_name_index` -/
  nameIndex : AList fun _ : Bytes => Nat := ∅

namespace Registry

/-- `find(id)` -/
def find (r : Registry R) (id : NamespaceId) : Option (NamespaceDecl R) := indexed r.namespaces r.idIndex id

/-- `find(name)`; the name may be a null pointer. -/
def findName (r : Registry R) : Option Bytes → Option (NamespaceDecl R)
  | none => none
  | some name => indexed r.namespaces r.nameIndex name

/-- `children_of` -/
def childrenOf (r : Registry R) (parentId : NamespaceId) : List (NamespaceDecl R) :=
  r.namespaces.filter fun n => n.parentId = parentId

/-- The cycle check of `add_namespace`, from `hop` up: whether `id` may come below. -/
def walkParents (r : Registry R) (id : NamespaceId) : Nat → NamespaceId → Option Bool
  | 0, _ => none
  | fuel + 1, hop =>
    if hop = 0 then some true
    else if hop = id then some false
    else match r.find hop with
      | none => some false
      | some n => walkParents r id fuel n.parentId

/-- `Namespace(id, name, parent_id)`, before any field is added. -/
def newNamespace (id : NamespaceId) (name : Option Bytes) (parentId : NamespaceId) : NamespaceDecl R where
  id := id
  name := name.getD []
  parentId := parentId
  fields := []
  distinct := List.nodup_nil

/-- The end of `add_namespace`, behind its checks. -/
def push (r : Registry R) (n : NamespaceDecl R) : Registry R where
  namespaces := r.namespaces ++ [n]
  idIndex := r.idIndex.insert n.id r.namespaces.length
  nameIndex :=
    if n.name ≠ [] ∧ n.parentId = 0 then r.nameIndex.insert n.name r.namespaces.length else r.nameIndex

/-- `add_namespace`; what it returns is the new namespace, or nothing. -/
def addNamespace (fuel : Nat) (r : Registry R) (id : NamespaceId) (name : Option Bytes) (parentId : NamespaceId) :
    Option (Option (NamespaceDecl R) × Registry R) :=
  if (r.idIndex.lookup id).isSome then some (none, r)
  else
    let sname := name.getD []
    if sname ≠ [] ∧ parentId = 0 ∧ (r.nameIndex.lookup sname).isSome then some (none, r)
    else
      -- without a parent the walk is over before its first step
      match walkParents r id fuel parentId with
      | none => none
      | some false => some (none, r)
      | some true =>
        let n := newNamespace id name parentId
        some (some n, r.push n)

/-- `clear` -/
def clear (_ : Registry R) : Registry R := {}

/-- What is called on a registry. -/
inductive Call where
  | addNamespace (id : NamespaceId) (name : Option Bytes) (parentId : NamespaceId)
  | clear

def call (fuel : Nat) (r : Registry R) : Call → Option (Registry R)
  | .addNamespace id name parentId => (r.addNamespace fuel id name parentId).map Prod.snd
  | .clear => some r.clear

/-- The registry after some calls. -/
def run (fuel : Nat) : List Call → Registry R → Option (Registry R)
  | [], r => some r
  | c :: calls, r => (r.call fuel c).bind (run fuel calls)

/-! ## A coherent registry -/

/-- The name a namespace is found by: roots only, and not without a name. -/
def rootName (n : NamespaceDecl R) : Option Bytes := if n.name ≠ [] ∧ n.parentId = 0 then some n.name else none

/-- Namespaces are linked by their ids, and 0 is no parent. -/
def parentLinks : Links (NamespaceDecl R) NamespaceId where
  key := NamespaceDecl.id
  parent n := if n.parentId = 0 then none else some n.parentId

/-- The registry grew namespace by namespace, and its indices are those of its list. -/
structure Coherent (r : Registry R) : Prop where
  grown : parentLinks.Grown r.namespaces
  ids : Indexes (fun n => some n.id) r.namespaces r.idIndex
  names : Indexes rootName r.namespaces r.nameIndex

variable {r : Registry R} {id hop : NamespaceId} {n : NamespaceDecl R} {fuel : Nat}

theorem parentLinks_parent_eq_none_iff : parentLinks.parent n = none ↔ n.parentId = 0 := by
  simp [parentLinks]

theorem parentLinks_parent_eq_some_iff : parentLinks.parent n = some id ↔ n.parentId ≠ 0 ∧ n.parentId = id := by
  simp [parentLinks]

theorem rootName_eq_some_iff {name : Bytes} :
    rootName n = some name ↔ (name ≠ [] ∧ n.parentId = 0) ∧ n.name = name := by
  unfold rootName
  rw [Option.ite_none_right_eq_some, Option.some_inj]
  constructor
  · rintro ⟨h, rfl⟩
    exact ⟨h, rfl⟩
  · rintro ⟨h, rfl⟩
    exact ⟨h, rfl⟩

theorem Coherent.empty : Coherent ({} : Registry R) := ⟨.nil, .empty, .empty⟩

namespace Coherent

theorem find_eq_some_iff (h : Coherent r) : r.find id = some n ↔ n ∈ r.namespaces ∧ n.id = id := by
  unfold find
  rw [h.ids.indexed_eq_some_iff, Option.some_inj]

theorem find_isSome_iff (h : Coherent r) : (r.find id).isSome ↔ id ∈ r.namespaces.map NamespaceDecl.id := by
  rw [Option.isSome_iff_exists, List.mem_map]
  exact exists_congr fun n => h.find_eq_some_iff

theorem findName_eq_some_iff (h : Coherent r) {name : Bytes} :
    r.findName (some name) = some n ↔ n ∈ r.namespaces ∧ (name ≠ [] ∧ n.parentId = 0) ∧ n.name = name := by
  unfold findName
  rw [h.names.indexed_eq_some_iff, rootName_eq_some_iff]

/-- The id index finds what a search of the list for the id finds. -/
theorem find_eq_find? (h : Coherent r) (id : NamespaceId) :
    r.find id = r.namespaces.find? fun n => n.id = id := by
  refine Option.ext fun n => ?_
  rw [h.find_eq_some_iff]
  constructor
  · rintro ⟨hn, rfl⟩
    exact NamespaceDecl.find_of_nodup h.grown.keys_nodup hn
  · intro hfind
    exact ⟨List.mem_of_find?_eq_some hfind, by simpa using List.find?_some hfind⟩

/-- The provisioner over the namespaces of a registry finds what the registry finds. -/
theorem find_eq_provisioner_find {F : Type} (h : Coherent r) {p : Provisioner R F} (hp : p.decls = r.namespaces)
    (id : NamespaceId) : r.find id = p.find id := by
  unfold Provisioner.find
  rw [hp]
  exact h.find_eq_find? id

/-! ## The parent walk -/

/-- From a namespace that is registered the walk gets to the root, for an id that is not. -/
theorem walkParents_of_ancestry (h : Coherent r) (hfresh : r.find id = none) {c : List (NamespaceDecl R)}
    (hc : parentLinks.Ancestry r.namespaces n c) (hfuel : c.length < fuel) :
    walkParents r id fuel n.id = some true := by
  induction hc generalizing fuel with
  | @root n hn hroot =>
    obtain ⟨fuel, rfl⟩ : ∃ k, fuel = k + 2 := ⟨fuel - 2, by simp at hfuel; omega⟩
    have hfind : r.find n.id = some n := h.find_eq_some_iff.mpr ⟨hn, rfl⟩
    have hne : n.id ≠ id := by
      rintro rfl
      rw [hfresh] at hfind
      cases hfind
    simp [walkParents, hne, hfind, parentLinks_parent_eq_none_iff.mp hroot]
  | @link n m c hn hlink hm ih =>
    obtain ⟨fuel, rfl⟩ : ∃ k, fuel = k + 1 := ⟨fuel - 1, by omega⟩
    have hfind : r.find n.id = some n := h.find_eq_some_iff.mpr ⟨hn, rfl⟩
    have hne : n.id ≠ id := by
      rintro rfl
      rw [hfresh] at hfind
      cases hfind
    have hparent : n.parentId = m.id := (parentLinks_parent_eq_some_iff.mp hlink).2
    rw [List.length_cons, Nat.add_lt_add_iff_right] at hfuel
    simp [walkParents, hne, hfind, hparent, ih hfuel]

/-- The walk ends within as many steps as there are namespaces. It lets a new id in below a namespace that is
registered, and at the root. -/
theorem walkParents_eq (h : Coherent r) (hfresh : r.find id = none) (hfuel : r.namespaces.length < fuel)
    (hop : NamespaceId) : walkParents r id fuel hop = some (hop = 0 || (r.find hop).isSome) := by
  cases hfind : r.find hop with
  | some n =>
    obtain ⟨hn, rfl⟩ := h.find_eq_some_iff.mp hfind
    obtain ⟨c, hc, hnodup⟩ := h.grown.ancestry hn
    rw [h.walkParents_of_ancestry hfresh hc (Nat.lt_of_le_of_lt (hc.length_le hnodup) hfuel)]
    simp
  | none =>
    obtain ⟨fuel, rfl⟩ : ∃ k, fuel = k + 1 := ⟨fuel - 1, by omega⟩
    unfold walkParents
    by_cases hroot : hop = 0
    · simp [hroot]
    · simp [hroot, hfind]

end Coherent

/-! ## One call -/

/-- What `add_namespace` asks for. -/
structure Accepts (r : Registry R) (id : NamespaceId) (name : Bytes) (parentId : NamespaceId) : Prop where
  id_free : r.find id = none
  name_free : name ≠ [] → parentId = 0 → r.findName (some name) = none
  parent_there : parentId = 0 ∨ (r.find parentId).isSome

namespace Coherent

theorem find_eq_none_iff (h : Coherent r) : r.find id = none ↔ r.idIndex.lookup id = none := by
  rw [← Option.not_isSome_iff_eq_none, ← Option.not_isSome_iff_eq_none, h.ids.lookup_isSome_iff, h.find_isSome_iff]
  simp

theorem findName_eq_none_iff (h : Coherent r) {name : Bytes} :
    r.findName (some name) = none ↔ r.nameIndex.lookup name = none := by
  rw [← Option.not_isSome_iff_eq_none, ← Option.not_isSome_iff_eq_none, h.names.lookup_isSome_iff,
    Option.isSome_iff_exists]
  refine not_congr (exists_congr fun n => ?_)
  rw [h.findName_eq_some_iff, rootName_eq_some_iff]

/-- An accepted namespace goes to the end of the list. -/
theorem addNamespace_of_accepts (h : Coherent r) {name : Option Bytes} {parentId : NamespaceId}
    (hfuel : r.namespaces.length < fuel) (haccepts : r.Accepts id (name.getD []) parentId) :
    r.addNamespace fuel id name parentId
      = some (some (newNamespace id name parentId), r.push (newNamespace id name parentId)) := by
  have hid := h.find_eq_none_iff.mp haccepts.id_free
  have hname : ¬ (name.getD [] ≠ [] ∧ parentId = 0 ∧ (r.nameIndex.lookup (name.getD [])).isSome) := by
    rintro ⟨hne, hroot, hsome⟩
    rw [h.findName_eq_none_iff.mp (haccepts.name_free hne hroot)] at hsome
    cases hsome
  have hwalk : walkParents r id fuel parentId = some true := by
    rw [h.walkParents_eq haccepts.id_free hfuel]
    simpa using haccepts.parent_there
  unfold addNamespace
  simp only [hid, Option.isSome_none, Bool.false_eq_true, if_false, if_neg hname, hwalk]

/-- One that is not accepted leaves the registry as it is. -/
theorem addNamespace_of_not_accepts (h : Coherent r) {name : Option Bytes} {parentId : NamespaceId}
    (hfuel : r.namespaces.length < fuel) (haccepts : ¬ r.Accepts id (name.getD []) parentId) :
    r.addNamespace fuel id name parentId = some (none, r) := by
  unfold addNamespace
  by_cases hid : (r.idIndex.lookup id).isSome
  · exact if_pos hid
  rw [if_neg hid]
  by_cases hname : name.getD [] ≠ [] ∧ parentId = 0 ∧ (r.nameIndex.lookup (name.getD [])).isSome
  · exact if_pos hname
  rw [Option.not_isSome_iff_eq_none, ← h.find_eq_none_iff] at hid
  have hparent : (parentId = 0 || (r.find parentId).isSome : Bool) = false := by
    rw [Bool.eq_false_iff]
    intro hthere
    rw [Bool.or_eq_true, decide_eq_true_iff] at hthere
    refine haccepts ⟨hid, fun hne hroot => ?_, hthere⟩
    rw [h.findName_eq_none_iff, ← Option.not_isSome_iff_eq_none]
    exact fun hsome => hname ⟨hne, hroot, hsome⟩
  simp only [if_neg hname, h.walkParents_eq hid hfuel, hparent]

theorem parent_registered (h : Coherent r) {name : Option Bytes} {parentId k : NamespaceId}
    (hthere : parentId = 0 ∨ (r.find parentId).isSome)
    (hk : k ∈ parentLinks.parent (newNamespace (R := R) id name parentId)) :
    k ∈ r.namespaces.map NamespaceDecl.id := by
  obtain ⟨hne, rfl⟩ := parentLinks_parent_eq_some_iff.mp hk
  exact h.find_isSome_iff.mp (hthere.resolve_left hne)

/-- A registry that takes a namespace it accepts stays coherent. -/
theorem push (h : Coherent r) {name : Option Bytes} {parentId : NamespaceId}
    (haccepts : r.Accepts id (name.getD []) parentId) : Coherent (r.push (newNamespace id name parentId)) where
  grown := by
    have hnew : id ∉ r.namespaces.map NamespaceDecl.id := by
      rw [← h.find_isSome_iff, haccepts.id_free]
      exact Bool.false_ne_true
    exact .snoc h.grown hnew fun k => h.parent_registered haccepts.parent_there
  ids := h.ids.concat_insert rfl (h.find_eq_none_iff.mp haccepts.id_free)
  names := by
    by_cases hroot : name.getD [] ≠ [] ∧ parentId = 0
    · have hfree := h.findName_eq_none_iff.mp (haccepts.name_free hroot.1 hroot.2)
      have hname : rootName (newNamespace (R := R) id name parentId) = some (name.getD []) := if_pos hroot
      have hindex : (r.push (newNamespace id name parentId)).nameIndex
          = r.nameIndex.insert (name.getD []) r.namespaces.length := if_pos hroot
      rw [hindex]
      exact h.names.concat_insert hname hfree
    · have hname : rootName (newNamespace (R := R) id name parentId) = none := if_neg hroot
      have hindex : (r.push (newNamespace id name parentId)).nameIndex = r.nameIndex := if_neg hroot
      rw [hindex]
      exact h.names.concat_of_none hname

end Coherent

end Registry

end MicroReticulum.Provisioning
