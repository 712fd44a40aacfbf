import MicroReticulum.Provisioning.Registry

/-!
# The registry is a forest

Whatever is called on a registry, it stays coherent, and each call comes to an end (`run_coherent`). So the namespaces
are a forest at any time: ids lead to their namespaces, parents lead to the root, and the tree a client draws from the
schema has every namespace in it once.

Two things are not excluded. Root namespaces without a name may be many, and none of them is found by its name. And 0
may be the id of a namespace: to the parent walk and to a client, who takes a parent 0 for none, that namespace has
nothing below it, but `children_of` gives the roots as its children, so that a walk over them does not end.
-/

namespace MicroReticulum.Provisioning.Registry

open MicroReticulum Library

variable {R : Type} {r : Registry R}

/-! ## Calls in a row -/

/-- A call on a coherent registry ends, and leaves it coherent with at most one more namespace. -/
theorem call_coherent (h : Coherent r) (c : Call) :
    ∃ r' : Registry R, Coherent r' ∧ r'.namespaces.length ≤ r.namespaces.length + 1 ∧
      ∀ fuel, r.namespaces.length < fuel → r.call fuel c = some r' := by
  cases c with
  | clear => exact ⟨{}, .empty, Nat.zero_le _, fun _ _ => rfl⟩
  | addNamespace id name parentId =>
    by_cases haccepts : r.Accepts id (name.getD []) parentId
    · refine ⟨r.push (newNamespace id name parentId), h.push haccepts, ?_, fun fuel hfuel => ?_⟩
      · simp [push]
      · simp only [call, h.addNamespace_of_accepts hfuel haccepts, Option.map_some]
    · refine ⟨r, h, Nat.le_succ _, fun fuel hfuel => ?_⟩
      simp only [call, h.addNamespace_of_not_accepts hfuel haccepts, Option.map_some]

/-- So do calls in a row. -/
theorem run_coherent (calls : List Call) (h : Coherent r) :
    ∃ r' : Registry R, Coherent r' ∧
      ∀ fuel, r.namespaces.length + calls.length ≤ fuel → run fuel calls r = some r' := by
  induction calls generalizing r with
  | nil => exact ⟨r, h, fun _ _ => rfl⟩
  | cons c calls ih =>
    obtain ⟨r₁, h₁, hlen, hcall⟩ := call_coherent h c
    obtain ⟨r₂, h₂, hrun⟩ := ih h₁
    refine ⟨r₂, h₂, fun fuel hfuel => ?_⟩
    rw [List.length_cons] at hfuel
    unfold run
    rw [hcall fuel (by omega), Option.bind_some, hrun fuel (by omega)]

/-! ## Walks down -/

/-- The roots of the tree a client draws from the schema. -/
def schemaRoots (r : Registry R) : List (NamespaceDecl R) := r.namespaces.filter fun n => n.parentId = 0

/-- What a client draws below a namespace. -/
def schemaChildren (r : Registry R) (n : NamespaceDecl R) : List (NamespaceDecl R) :=
  r.namespaces.filter fun m => m.parentId ≠ 0 ∧ m.parentId = n.id

theorem schemaRoots_eq (r : Registry R) : r.schemaRoots = parentLinks.roots r.namespaces :=
  List.filter_congr fun _ _ => decide_eq_decide.mpr parentLinks_parent_eq_none_iff.symm

theorem schemaChildren_eq (r : Registry R) : r.schemaChildren = parentLinks.children r.namespaces := by
  funext n
  exact List.filter_congr fun _ _ => decide_eq_decide.mpr parentLinks_parent_eq_some_iff.symm

/-- A client lists every namespace once. -/
theorem Coherent.schema_walk (h : Coherent r) :
    ∃ out, Walks r.schemaChildren r.schemaRoots out ∧ out.Perm r.namespaces := by
  rw [schemaRoots_eq, schemaChildren_eq]
  exact h.grown.walks

/-- Without a namespace 0 the children of the source are those of the schema. -/
theorem Coherent.childrenOf_walk (h : Coherent r) (hzero : r.find 0 = none) :
    ∃ out, Walks (fun n => r.childrenOf n.id) (r.childrenOf 0) out ∧ out.Perm r.namespaces := by
  obtain ⟨out, hwalk, hperm⟩ := h.schema_walk
  refine ⟨out, hwalk.congr (l := r.namespaces) (fun n hn => ?_) (fun n _ => ?_) ?_, hperm⟩
  · have hne : n.id ≠ 0 := by
      intro hid
      rw [h.find_eq_some_iff.mpr ⟨hn, hid⟩] at hzero
      cases hzero
    exact List.filter_congr fun m _ => decide_eq_decide.mpr ⟨fun heq => ⟨heq ▸ hne, heq⟩, fun heq => heq.2⟩
  · exact List.filter_subset_self _
  · exact List.filter_subset_self _

/-- With one, a walk over them comes back to the roots again and again. -/
theorem Coherent.childrenOf_endless (h : Coherent r) (hzero : (r.find 0).isSome) :
    ¬ ∃ out, Walks (fun n => r.childrenOf n.id) (r.childrenOf 0) out := by
  rintro ⟨out, hwalk⟩
  obtain ⟨z, hz⟩ := Option.isSome_iff_exists.mp hzero
  obtain ⟨hzmem, hzid⟩ := h.find_eq_some_iff.mp hz
  obtain ⟨c, hc, -⟩ := h.grown.ancestry hzmem
  obtain ⟨root, hroot, hrootless⟩ := hc.exists_root
  have hrootmem : root ∈ r.childrenOf 0 :=
    List.mem_filter.mpr ⟨hc.subset hroot, by simpa using parentLinks_parent_eq_none_iff.mp hrootless⟩
  refine hwalk.not_mem_of_endless (fun n => n ∈ c) (fun n hn => ?_) root hrootmem hroot
  rcases hc.exists_child hn with rfl | ⟨m, hm, hlink⟩
  · exact ⟨root, by rwa [hzid], hroot⟩
  · have hparent : m.parentId = n.id := (parentLinks_parent_eq_some_iff.mp hlink).2
    exact ⟨m, List.mem_filter.mpr ⟨hc.subset hm, by simpa using hparent⟩, hm⟩

/-! ## The forest -/

/-- What a registry is at any time. -/
structure Forest (r : Registry R) : Prop where
  ids_unique : (r.namespaces.map NamespaceDecl.id).Nodup
  find_iff : ∀ id n, r.find id = some n ↔ n ∈ r.namespaces ∧ n.id = id
  /-- the parents of a namespace lead to a root, over namespaces that are all different -/
  to_root : ∀ n ∈ r.namespaces, ∃ c, parentLinks.Ancestry r.namespaces n c ∧ c.Nodup
  /-- the cycle check of a new id ends -/
  check_ends : ∀ id hop fuel, r.find id = none → r.namespaces.length < fuel → (r.walkParents id fuel hop).isSome
  root_names_unique : ∀ n ∈ r.namespaces, ∀ m ∈ r.namespaces, n.parentId = 0 → m.parentId = 0 → n.name ≠ [] →
    n.name = m.name → n = m
  findName_iff : ∀ name ≠ [], ∀ n, r.findName (some name) = some n ↔
    n ∈ r.namespaces ∧ n.parentId = 0 ∧ n.name = name
  /-- a client's tree has every namespace in it once -/
  schema_walk : ∃ out, Walks r.schemaChildren r.schemaRoots out ∧ out.Perm r.namespaces
  childrenOf_walk : r.find 0 = none →
    ∃ out, Walks (fun n => r.childrenOf n.id) (r.childrenOf 0) out ∧ out.Perm r.namespaces

theorem Coherent.forest (h : Coherent r) : Forest r where
  ids_unique := h.grown.keys_nodup
  find_iff _ _ := h.find_eq_some_iff
  to_root _ hn := h.grown.ancestry hn
  check_ends _ hop _ hfresh hfuel := by
    rw [h.walkParents_eq hfresh hfuel hop]
    rfl
  root_names_unique n hn m hm hroot hroot' hne heq := by
    have hname : rootName n = some n.name := rootName_eq_some_iff.mpr ⟨⟨hne, hroot⟩, rfl⟩
    have hname' : rootName m = some n.name := rootName_eq_some_iff.mpr ⟨⟨hne, hroot'⟩, heq.symm⟩
    exact h.names.unique hn hm hname hname'
  findName_iff name hne n := by
    rw [h.findName_eq_some_iff]
    simp [hne]
  schema_walk := h.schema_walk
  childrenOf_walk := h.childrenOf_walk

/-- After any calls the registry is a forest, and what is added next is taken or changes nothing. -/
theorem stays_forest (R : Type) (calls : List Call) :
    ∃ r : Registry R, (∀ fuel, calls.length ≤ fuel → run fuel calls {} = some r) ∧ Forest r ∧
      ∀ id name parentId, ∃ result,
        (∀ fuel, r.namespaces.length < fuel → r.addNamespace fuel id name parentId = some result) ∧
          (result.1 = none → result.2 = r) := by
  obtain ⟨r, h, hrun⟩ := run_coherent calls (Coherent.empty (R := R))
  refine ⟨r, fun fuel hfuel => hrun fuel (by simpa using hfuel), h.forest, fun id name parentId => ?_⟩
  by_cases haccepts : r.Accepts id (name.getD []) parentId
  · exact ⟨_, fun fuel hfuel => h.addNamespace_of_accepts hfuel haccepts, fun hnone => by cases hnone⟩
  · exact ⟨_, fun fuel hfuel => h.addNamespace_of_not_accepts hfuel haccepts, fun _ => rfl⟩

/-- Two root namespaces without a name, and one with the id 0. -/
theorem unnamed_roots :
    ∃ r : Registry Unit,
      run 3 [.addNamespace 7 none 0, .addNamespace 8 none 0, .addNamespace 0 none 0] {} = some r ∧
      ¬ ((r.childrenOf 0).map NamespaceDecl.name).Nodup ∧ r.findName (some []) = none ∧
      ¬ ∃ out, Walks (fun n => r.childrenOf n.id) (r.childrenOf 0) out := by
  obtain ⟨r, h, hrun⟩ := run_coherent (R := Unit)
    [.addNamespace 7 none 0, .addNamespace 8 none 0, .addNamespace 0 none 0] .empty
  have hrun := hrun 3 (Nat.le_refl 3)
  refine ⟨r, hrun, ?_, ?_, h.childrenOf_endless ?_⟩
  all_goals cases hrun
  · decide
  · rfl
  · rfl

end MicroReticulum.Provisioning.Registry
