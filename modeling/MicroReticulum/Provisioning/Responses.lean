import MicroReticulum.Library.Packed
import MicroReticulum.Provisioning.Invariant

/-!
# The builders keep count

Every payload of a response is one value, and in none but the response to a Commit request can a map
have a key twice: there the map of the values has one entry for each time the filter names a registered
namespace (`packed_commitBody_iff`).

Whether the transport below carries a response of that length is not asked.
-/

namespace MicroReticulum.Provisioning

open MicroReticulum Library

variable {R F : Type}

/-! ## Values and entries -/

theorem packed_num (n : Nat) : Packed [num n] := packed_int n

theorem packed_text (s : String) : Packed [text s] := packed_str _

/-- An array of scalars. -/
theorem packed_scalars {α : Type} (l : List α) {scalar : α → Token} (h : ∀ a ∈ l, Packed [scalar a]) :
    Packed (.arr l.length :: l.map scalar) := by
  rw [List.map_eq_flatMap]
  exact (packed_arr_iff fun a ha => (h a ha).complete).mpr h

/-- A value that is not empty is packed as one value. -/
theorem packed_packValue {v : Value} (h : v.isNone = false) : Packed (packValue v) := by
  cases v with
  | none => cases h
  | bool b => exact packed_bool b
  | int i => exact packed_int _
  | float d => exact packed_float d
  | string s => exact packed_str _
  | bytes b => exact packed_bin b
  | enum i => exact packed_int _
  | bytesList l => exact packed_scalars l fun b _ => packed_bin b
  | void => exact packed_nil

/-- A map header that counts its entries, followed by complete values, is a complete object. -/
theorem complete_entries {n : Nat} {es : List (UInt16 × List Token)} (hn : n = es.length)
    (hvalues : ∀ e ∈ es, Complete e.2) : Complete (.map n :: packEntries es) :=
  hn ▸ complete_map (fun e : UInt16 × List Token => (e.1.toNat : Int)) hvalues

/-- A count that is the number of entries, over different keys. -/
theorem packed_entries_iff {n : Nat} {es : List (UInt16 × List Token)} (hn : n = es.length)
    (hvalues : ∀ e ∈ es, Complete e.2) :
    Packed (.map n :: packEntries es) ↔ (es.map Prod.fst).Nodup ∧ ∀ e ∈ es, Packed e.2 := by
  have hkeys : (es.map fun e => (e.1.toNat : Int)).Nodup ↔ (es.map Prod.fst).Nodup := by
    rw [← List.nodup_map_iff (f := fun k : UInt16 => (k.toNat : Int)), List.map_map]
    · rfl
    · exact fun a b h => UInt16.toNat_inj.mp (Int.ofNat.inj h)
  rw [hn, ← hkeys]
  exact packed_map_iff (fun e : UInt16 × List Token => (e.1.toNat : Int)) hvalues

/-- Some of the entries that have the given keys. -/
theorem packed_entries {n : Nat} {es : List (UInt16 × List Token)} (keys : List UInt16)
    (hnodup : keys.Nodup) (hn : n = es.length) (hkeys : (es.map Prod.fst).Sublist keys)
    (hvalues : ∀ e ∈ es, Packed e.2) : Packed (.map n :: packEntries es) :=
  (packed_entries_iff hn fun e he => (hvalues e he).complete).mpr ⟨hnodup.sublist hkeys, hvalues⟩

/-! ## The schema -/

/-- The default of a field is packed as one object. -/
theorem packed_packFieldDefault (f : Field R) : Packed (packFieldDefault f) := by
  unfold packFieldDefault
  cases f.type with
  | none => exact packed_nil
  | bool => exact packed_bool _
  | int => exact packed_int _
  | float => exact packed_float _
  | string => exact packed_str _
  | bytes => exact packed_bin _
  | enum => exact packed_int _
  | bytesList => exact packed_scalars _ fun b _ => packed_bin b
  | void => exact packed_nil

/-- `schema_field_entries` counts what the loop packs. -/
theorem schemaFieldEntries_eq (f : Field R) :
    schemaFieldEntries f = 5 + (constraintEntries f).length := by
  unfold schemaFieldEntries constraintEntries
  simp only [List.length_append, apply_ite List.length, List.length_cons, List.length_nil,
    Nat.add_assoc, Nat.zero_add, Nat.reduceAdd]

/-- A branch packs some of its entries. -/
theorem keys_ite_sublist {c : Prop} [Decidable c] {es : List (UInt16 × List Token)}
    {keys : List UInt16} (h : (es.map Prod.fst).Sublist keys) :
    ((if c then es else []).map Prod.fst).Sublist keys := by
  split
  · exact h
  · exact List.nil_sublist _

/-- The keys a constraint can have, in the order in which they are packed. -/
def constraintKeys : List UInt16 :=
  [Key.fieldMinI, Key.fieldMaxI] ++ [Key.fieldMinF, Key.fieldMaxF] ++ [Key.fieldMaxLen]
    ++ ([Key.fieldEnumValues] ++ [Key.fieldEnumLabels])
    ++ ([Key.fieldElementSize] ++ [Key.fieldMaxCount])

/-- The constraints of a field are written in the order of the constraint keys, each at most once. -/
theorem constraintEntries_keys (f : Field R) :
    ((constraintEntries f).map Prod.fst).Sublist constraintKeys := by
  unfold constraintEntries constraintKeys
  simp only [List.map_append]
  refine .append (.append (.append (.append ?_ ?_) ?_) ?_) ?_
  · exact keys_ite_sublist (.refl _)
  · exact keys_ite_sublist (.refl _)
  · exact keys_ite_sublist (.refl _)
  · refine keys_ite_sublist ?_
    rw [List.map_append]
    exact .append (keys_ite_sublist (.refl _)) (keys_ite_sublist (.refl _))
  · refine keys_ite_sublist ?_
    rw [List.map_append]
    exact .append (keys_ite_sublist (.refl _)) (keys_ite_sublist (.refl _))

theorem packed_constraintEntries (f : Field R) : ∀ e ∈ constraintEntries f, Packed e.2 := by
  intro e he
  unfold constraintEntries at he
  simp only [List.mem_append, List.mem_ite_nil_right, List.mem_cons, List.not_mem_nil,
    or_false] at he
  rcases he with (((⟨_, rfl | rfl⟩ | ⟨_, rfl | rfl⟩) | ⟨_, rfl⟩) | ⟨_, ⟨_, rfl⟩ | ⟨_, rfl⟩⟩)
    | ⟨_, ⟨_, rfl⟩ | ⟨_, rfl⟩⟩
  · exact packed_int _
  · exact packed_int _
  · exact packed_float _
  · exact packed_float _
  · exact packed_num _
  · exact packed_scalars _ fun _ _ => packed_int _
  · exact packed_scalars _ fun _ _ => packed_str _
  · exact packed_num _
  · exact packed_num _

/-- The schema of a field is one packed object. -/
theorem packed_packFieldSchema (f : Field R) : Packed (packFieldSchema f) := by
  refine packed_entries ([Key.fieldId, Key.fieldName, Key.fieldType, Key.fieldFlags, Key.fieldDefault]
    ++ constraintKeys) (by decide) ?_ ?_ ?_
  · rw [schemaFieldEntries_eq, List.length_append]
    rfl
  · rw [List.map_append]
    exact .append (.refl _) (constraintEntries_keys f)
  · simp only [List.forall_mem_append, List.forall_mem_cons]
    exact ⟨⟨packed_num _, packed_str _, packed_num _, packed_num _, packed_packFieldDefault f,
      fun _ he => (by cases he)⟩, packed_constraintEntries f⟩

/-- The schema of a namespace is one packed object. -/
theorem packed_packNamespaceSchema (d : NamespaceDecl R) : Packed (packNamespaceSchema d) := by
  have hfields : Packed (.arr d.fields.length :: d.fields.flatMap packFieldSchema) :=
    (packed_arr_iff fun f _ => (packed_packFieldSchema f).complete).mpr fun f _ =>
      packed_packFieldSchema f
  have hitems : ∀ ts ∈ [[num d.id.toNat], [Token.str (cString d.name)], [num d.parentId.toNat],
      .arr d.fields.length :: d.fields.flatMap packFieldSchema], Packed ts := by
    simp only [List.forall_mem_cons]
    exact ⟨packed_num _, packed_str _, packed_num _, hfields, fun _ hts => (by cases hts)⟩
  have hpacked : Packed (.arr 4 :: List.flatMap id [[num d.id.toNat], [Token.str (cString d.name)],
      [num d.parentId.toNat], .arr d.fields.length :: d.fields.flatMap packFieldSchema]) :=
    (packed_arr_iff fun ts hts => (hitems ts hts).complete).mpr hitems
  simpa [packNamespaceSchema] using hpacked

theorem packed_packSchemas (ds : List (NamespaceDecl R)) : Packed (packSchemas ds) :=
  (packed_arr_iff fun d _ => (packed_packNamespaceSchema d).complete).mpr fun d _ =>
    packed_packNamespaceSchema d

/-! ## The state -/

section State

variable {p : Provisioner R F}

/-- Every namespace's values are one map. -/
theorem packed_fieldValues (p : Provisioner R F) (d : NamespaceDecl R) :
    Packed (.map (fieldEntries p d) :: d.fields.flatMap fun f =>
      let v := reportedValue p d f
      if v.isNone then [] else num f.id.toNat :: packValue v) := by
  have hcount : fieldEntries p d
      = (d.fields.filter fun f => !(reportedValue p d f).isNone).length :=
    List.countP_eq_length_filter
  have hloop : (d.fields.flatMap fun f =>
      let v := reportedValue p d f
      if v.isNone then [] else num f.id.toNat :: packValue v)
        = packEntries ((d.fields.filter fun f => !(reportedValue p d f).isNone).map fun f =>
          (f.id, packValue (reportedValue p d f))) := by
    unfold packEntries
    rw [flatMap_eq_filter (fun f => !(reportedValue p d f).isNone), List.flatMap_map]
    · refine List.flatMap_congr fun f hf => ?_
      have hsome := (List.mem_filter.mp hf).2
      rw [Bool.not_eq_true'] at hsome
      simp [hsome]
    · intro f _ hnone
      rw [Bool.not_eq_false'] at hnone
      simp [hnone]
  rw [hloop]
  refine packed_entries _ d.distinct (by rw [List.length_map, hcount]) ?_ ?_
  · rw [List.map_map]
    exact List.filter_sublist.map _
  · simp only [List.forall_mem_map]
    intro f hf
    have hsome := (List.mem_filter.mp hf).2
    rw [Bool.not_eq_true'] at hsome
    exact packed_packValue hsome

/-- The values of namespaces are a complete object, whatever the namespaces are. -/
theorem complete_packNsValues (p : Provisioner R F) (ds : List (NamespaceDecl R)) :
    Complete (packNsValues p ds) :=
  complete_map (fun d : NamespaceDecl R => (d.id.toNat : Int)) fun d _ =>
    (packed_fieldValues p d).complete

/-- A namespace id as it is packed. -/
theorem nodup_packedIds_iff (ds : List (NamespaceDecl R)) :
    (ds.map fun d => (d.id.toNat : Int)).Nodup ↔ (ds.map NamespaceDecl.id).Nodup := by
  rw [← List.nodup_map_iff (f := fun k : UInt16 => (k.toNat : Int)), List.map_map]
  · rfl
  · exact fun a b h => UInt16.toNat_inj.mp (Int.ofNat.inj h)

/-- They are a map without a repeated key exactly when no namespace comes twice. -/
theorem packed_packNsValues_iff (p : Provisioner R F) (ds : List (NamespaceDecl R)) :
    Packed (packNsValues p ds) ↔ (ds.map NamespaceDecl.id).Nodup := by
  rw [← nodup_packedIds_iff]
  exact (packed_map_iff (fun d : NamespaceDecl R => (d.id.toNat : Int)) fun d _ =>
    (packed_fieldValues p d).complete).trans (and_iff_left fun d _ => packed_fieldValues p d)

/-- No draft is empty. -/
def DraftsPresent (p : Provisioner R F) : Prop :=
  ∀ d ∈ p.decls, ∀ id v, (p.stateOf d.id).draft.lookup id = some v → v.isNone = false

/-- Every namespace's drafts are one map. -/
theorem packed_fieldDrafts (hp : DraftsPresent p) {d : NamespaceDecl R} (hd : d ∈ p.decls) :
    Packed (.map (draftEntries p d) :: d.fields.flatMap fun f =>
      match (p.stateOf d.id).draft.lookup f.id with
      | none => []
      | some v => num f.id.toNat :: packValue v) := by
  have hcount : draftEntries p d
      = (d.fields.filter fun f => (p.stateOf d.id).hasDraft f.id).length :=
    List.countP_eq_length_filter
  have hloop : (d.fields.flatMap fun f =>
      match (p.stateOf d.id).draft.lookup f.id with
      | none => []
      | some v => num f.id.toNat :: packValue v)
        = packEntries ((d.fields.filter fun f => (p.stateOf d.id).hasDraft f.id).map fun f =>
          (f.id, packValue (((p.stateOf d.id).draft.lookup f.id).getD .none))) := by
    unfold packEntries NamespaceState.hasDraft
    rw [flatMap_eq_filter (fun f => ((p.stateOf d.id).draft.lookup f.id).isSome), List.flatMap_map]
    · refine List.flatMap_congr fun f hf => ?_
      obtain ⟨v, hv⟩ := Option.isSome_iff_exists.mp (List.mem_filter.mp hf).2
      simp [hv]
    · intro f _ hnone
      rw [Option.isSome_eq_false_iff, Option.isNone_iff_eq_none] at hnone
      rw [hnone]
  rw [hloop]
  refine packed_entries _ d.distinct (by rw [List.length_map, hcount]) ?_ ?_
  · rw [List.map_map]
    exact List.filter_sublist.map _
  · simp only [List.forall_mem_map]
    intro f hf
    obtain ⟨v, hv⟩ := Option.isSome_iff_exists.mp (List.mem_filter.mp hf).2
    rw [hv]
    exact packed_packValue (hp d hd f.id v hv)

/-- The drafts of distinct registered namespaces are one packed object. -/
theorem packed_packNsDrafts (hp : DraftsPresent p) {ds : List (NamespaceDecl R)}
    (hds : ∀ d ∈ ds, d ∈ p.decls) (hnodup : (ds.map NamespaceDecl.id).Nodup) :
    Packed (packNsDrafts p ds) := by
  have hvalues := fun d hd => packed_fieldDrafts hp (hds d hd)
  exact (packed_map_iff (fun d : NamespaceDecl R => (d.id.toNat : Int)) fun d hd =>
    (hvalues d hd).complete).mpr ⟨(nodup_packedIds_iff ds).mpr hnodup, hvalues⟩

theorem decls_nodup (p : Provisioner R F) : (p.decls.map NamespaceDecl.id).Nodup := by
  unfold Provisioner.decls
  rw [List.map_map]
  exact p.distinct

/-- The namespaces in scope are registered ones, in the order of registration. -/
theorem inScope_sublist (p : Provisioner R F) (o : Options) : (inScope p o).Sublist p.decls := by
  unfold inScope
  split
  · exact List.filter_sublist
  · exact .refl _

/-- `op_get_state`, with or without the hash. -/
theorem packed_packContent (hp : DraftsPresent p) (o : Options) (hash : Option UInt32) :
    Packed (packContent p o hash) := by
  have hscope := inScope_sublist p o
  have hnodup : ((inScope p o).map NamespaceDecl.id).Nodup := (decls_nodup p).sublist (hscope.map _)
  have hvalues := (packed_packNsValues_iff p (inScope p o)).mpr hnodup
  have hdrafts : Packed (packNsDrafts p (if o.draft then withDrafts p (inScope p o) else [])) := by
    have hsub : (if o.draft then withDrafts p (inScope p o) else []).Sublist (inScope p o) := by
      split
      · exact List.filter_sublist
      · exact List.nil_sublist _
    exact packed_packNsDrafts hp (fun d hd => hscope.subset (hsub.subset hd))
      (hnodup.sublist (hsub.map _))
  unfold packContent
  generalize (if o.draft then withDrafts p (inScope p o) else []) = drafts at hdrafts
  dsimp only
  refine packed_entries ([Key.values] ++ [Key.drafts] ++ [Key.hash]) (by decide) ?_ ?_ ?_
  · cases hash <;> cases (o.draft && !drafts.isEmpty) <;> rfl
  · rw [List.map_append, List.map_append]
    refine .append (.append (.refl _) (keys_ite_sublist (.refl _))) ?_
    cases hash with
    | none => exact List.nil_sublist _
    | some hash => exact .refl _
  · simp only [List.forall_mem_append, List.forall_mem_cons]
    refine ⟨⟨⟨hvalues, fun _ he => (by cases he)⟩, ?_⟩, ?_⟩
    · split
      · simpa using hdrafts
      · exact fun _ he => (by cases he)
    · cases hash with
      | none => exact fun _ he => (by cases he)
      | some hash => simpa using packed_num _

/-- The body of a state response is one packed object. -/
theorem packed_stateBody (env : Env F) (hp : DraftsPresent p) (o : Options) :
    Packed (stateBody env p o) := by
  unfold stateBody
  split
  · exact packed_entries [Key.unchanged] (by decide) rfl (.refl _) (by simpa using packed_bool true)
  · exact packed_packContent hp o _

/-! ### SetState and Commit -/

theorem packed_packError (e : FieldError) : Packed (packError e) := by
  have hitems : ∀ n ∈ [e.nsId.toNat, e.fieldId.toNat, e.code.code.toNat], Packed [num n] :=
    fun n _ => packed_num n
  exact packed_scalars _ hitems

/-- The namespaces a SetState request has named are registered, and each is listed once. -/
def TouchedOnce (a : SetStateRun R F) : Prop :=
  (∀ d ∈ a.touched, d ∈ a.p.decls) ∧ (a.touched.map NamespaceDecl.id).Nodup

/-- Touching a namespace lists it once, also when it was touched before. -/
theorem TouchedOnce.touch {a : SetStateRun R F} (h : TouchedOnce a) (d : Option (NamespaceDecl R))
    (hd : ∀ e, d = some e → e ∈ a.p.decls) : TouchedOnce (a.touch d) := by
  unfold SetStateRun.touch
  cases d with
  | none => exact h
  | some d =>
    dsimp only
    split
    case isTrue => exact h
    case isFalse hnew =>
      refine ⟨fun e he => ?_, ?_⟩
      · rcases List.mem_append.mp he with he | he
        · exact h.1 e he
        · exact List.mem_singleton.mp he ▸ hd d rfl
      · rw [List.map_append, List.nodup_append]
        refine ⟨h.2, List.nodup_singleton _, fun x hx y hy hxy => hnew ?_⟩
        obtain ⟨t, ht, rfl⟩ := List.mem_map.mp hx
        rw [List.mem_singleton.mp hy] at hxy
        exact List.any_eq_true.mpr ⟨t, ht, by simpa using hxy⟩

/-- After the entries of its payload a SetState request has named every namespace once. -/
theorem setStateRun_touchedOnce (env : Env F) (p : Provisioner R F) (payload : Cursor) :
    TouchedOnce (setStateRun env p payload) := by
  have hstep : ∀ (a : SetStateRun R F) (x : Setting R), x.Registered a.p.decls → TouchedOnce a →
      TouchedOnce (a.apply x) := by
    intro a x hx h
    cases x with
    | touch d =>
      refine h.touch d fun e he => ?_
      subst he
      exact hx
    | write nsId d f v =>
      have htouched := (stage_options nsId d f v a).2
      have hdecls := SetStateRun.stage_decls nsId d f v a
      unfold TouchedOnce SetStateRun.apply
      rw [htouched, hdecls]
      exact h
    | _ => exact h
  have hfold : ∀ (xs : List (Setting R)) (a : SetStateRun R F),
      (∀ x ∈ xs, x.Registered a.p.decls) → TouchedOnce a → TouchedOnce (xs.foldl .apply a) := by
    intro xs
    induction xs with
    | nil => exact fun _ _ h => h
    | cons x xs ih =>
      intro a hxs h
      refine ih (a.apply x) (fun y hy => ?_) (hstep a x (hxs x List.mem_cons_self) h)
      rw [SetStateRun.apply_decls]
      exact hxs y (List.mem_cons_of_mem x hy)
  rw [setStateRun_eq_apply]
  exact hfold _ _ (settings_registered env p.decls payload) ⟨fun _ hd => (by cases hd), List.nodup_nil⟩

/-- The body of the answer to SetState is one packed object. -/
theorem packed_setStateBody (env : Env F) {a : SetStateRun R F} (ha : TouchedOnce a)
    (hp : DraftsPresent a.p) : Packed (setStateBody env a) := by
  have hvalues := (packed_packNsValues_iff a.p a.touched).mpr ha.2
  have hdrafts : Packed (packNsDrafts a.p (touchedWithDrafts a)) := by
    have hsub : (touchedWithDrafts a).Sublist a.touched := by
      unfold touchedWithDrafts
      split
      · exact List.filter_sublist
      · exact List.nil_sublist _
    exact packed_packNsDrafts hp (fun d hd => ha.1 d (hsub.subset hd)) (ha.2.sublist (hsub.map _))
  have herrors : Packed (.arr a.errors.length :: a.errors.flatMap packError) :=
    (packed_arr_iff fun e _ => (packed_packError e).complete).mpr fun e _ => packed_packError e
  unfold setStateBody
  generalize touchedWithDrafts a = drafts at hdrafts
  dsimp only
  refine packed_entries ([Key.applied, Key.draftHasReboot] ++ [Key.fieldErrors]
    ++ ([Key.postOpValues] ++ [Key.postOpDrafts] ++ [Key.postOpHash])) (by decide) ?_ ?_ ?_
  · cases a.errors.isEmpty <;> cases a.includeState <;> cases drafts.isEmpty <;> rfl
  · rw [List.map_append, List.map_append]
    refine .append (.append (.refl _) ?_) (keys_ite_sublist ?_)
    · split
      · exact List.nil_sublist _
      · exact .refl _
    · rw [List.map_append, List.map_append]
      refine .append (.append (.refl _) ?_) (.refl _)
      split
      · exact List.nil_sublist _
      · exact .refl _
  · intro e he
    simp only [List.mem_append, List.mem_ite_nil_left, List.mem_ite_nil_right, List.mem_cons,
      List.not_mem_nil, or_false] at he
    rcases he with ((rfl | rfl) | ⟨_, rfl⟩) | ⟨_, (rfl | ⟨_, rfl⟩) | rfl⟩
    · exact packed_num _
    · exact packed_bool _
    · exact herrors
    · exact hvalues
    · exact hdrafts
    · exact packed_num _

/-- The body of the answer to Commit is a complete object. -/
theorem complete_commitBody (env : Env F) (q : Provisioner R F) (includeState : Bool) (applied : Nat)
    (touched : List (NamespaceDecl R)) : Complete (commitBody env q includeState applied touched) := by
  refine complete_entries (by cases includeState <;> rfl) fun e he => ?_
  simp only [List.mem_append, List.mem_ite_nil_right, List.mem_cons, List.not_mem_nil, or_false] at he
  rcases he with (rfl | rfl) | ⟨_, rfl | rfl⟩
  · exact (packed_num _).complete
  · exact (packed_bool _).complete
  · exact complete_packNsValues q touched
  · exact (packed_num _).complete

/-- In the response to a Commit request no map has a key twice exactly if no namespace is reported
twice. -/
theorem packed_commitBody_iff (env : Env F) (q : Provisioner R F) (includeState : Bool) (applied : Nat)
    (touched : List (NamespaceDecl R)) : Packed (commitBody env q includeState applied touched)
      ↔ (includeState = true → (touched.map NamespaceDecl.id).Nodup) := by
  rw [← packed_packNsValues_iff q touched]
  cases includeState with
  | false =>
    refine iff_of_true (packed_entries [Key.applied, Key.needsReboot] (by decide) rfl (.refl _) ?_)
      fun h => (by cases h)
    simp only [Bool.false_eq_true, if_false, List.append_nil, List.forall_mem_cons]
    exact ⟨packed_num _, packed_bool _, fun _ he => (by cases he)⟩
  | true =>
    have hvalues : ∀ P : List Token → Prop, (∀ ts, Packed ts → P ts) → P (packNsValues q touched) →
        ∀ e ∈ [(Key.applied, [num applied]), (Key.needsReboot, [Token.bool q.needsReboot]),
          (Key.postOpValues, packNsValues q touched),
          (Key.postOpHash, [num (commitHash env q touched).toNat])], P e.2 := by
      intro P hP hmain
      simp only [List.forall_mem_cons]
      exact ⟨hP _ (packed_num _), hP _ (packed_bool _), hmain, hP _ (packed_num _),
        fun _ he => (by cases he)⟩
    refine (packed_entries_iff rfl (hvalues Complete (fun _ h => h.complete)
      (complete_packNsValues q touched))).trans ?_
    constructor
    · exact fun h _ => h.2 (Key.postOpValues, packNsValues q touched) (by simp)
    · have hkeys : [Key.applied, Key.needsReboot, Key.postOpValues, Key.postOpHash].Nodup := by decide
      exact fun h => ⟨hkeys, hvalues Packed (fun _ h => h) (h rfl)⟩

end State

end MicroReticulum.Provisioning
