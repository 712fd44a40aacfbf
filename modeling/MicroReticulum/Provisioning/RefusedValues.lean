import MicroReticulum.Provisioning.Commit

/-!
# A setter that refuses its value

A setter answers whether the value took effect. `commit_one` asks it last: by then the draft is gone and,
unless the field is write-only, the value is the working one and the namespace is to be saved. A refusal is
not counted, and nothing is rolled back.

`commitWithoutDraft` is a commit of the same field as if it had had no draft, on the runtime that the setter
leaves. `commits_alike` compares the two over the drafts of a namespace, and `refused_own` says what becomes of
the fields whose setters refuse.
-/

namespace MicroReticulum.Provisioning

open MicroReticulum Library Provisioner

variable {R F : Type}

/-! ## One field -/

namespace Field

/-- The setter call that the commit of a draft makes. -/
def setterCall (f : Field R) (v : Value) : Option (Prog String R Bool) :=
  if f.hasFlag ffWriteOnly || f.hasFlag ffLiveApply then f.setter.map fun setter => setter v else none

/-- What the commit of a draft makes of the working values, whatever the setter says. -/
def promote (f : Field R) (v : Value) (s : NamespaceState) : NamespaceState :=
  if f.hasFlag ffWriteOnly then s else s.putWorking f.id v

variable (f : Field R) (v : Value) (s : NamespaceState)

/-- A write-only field has no working value to promote to. -/
theorem promote_writeOnly (h : f.hasFlag ffWriteOnly = true) : f.promote v s = s := if_pos h

theorem promote_stateful (h : f.hasFlag ffWriteOnly = false) : f.promote v s = s.putWorking f.id v :=
  if_neg (Bool.eq_false_iff.mp h)

@[simp] theorem promote_draft : (f.promote v s).draft = s.draft := by
  unfold promote
  split <;> rfl

end Field

/-- What a commit counts. -/
def CommitOutcome.applied : CommitOutcome → Bool
  | .appliedLive | .appliedReboot => true
  | _ => false

/-- Applying a draft by whether the field has a setter, and what the setter says. -/
theorem applyDraft_eq (f : Field R) (v : Value) (s : NamespaceState) (r : R) :
    NamespaceDecl.applyDraft f v (s, r) = match f.setterCall v with
      | some call => ((call r).1.map fun ok => if ok then .appliedLive else .setterFailed, (f.promote v s, (call r).2))
      | none => (.value (if !f.hasFlag ffWriteOnly && f.hasFlag ffRebootRequired then .appliedReboot else .appliedLive),
          (f.promote v s, r)) := by
  have hcall : ∀ (setter : Value → Prog String R Bool) (s : NamespaceState),
      (NamespaceDecl.callSetter setter v >>= fun ok =>
          pure (if ok then CommitOutcome.appliedLive else .setterFailed)) (s, r)
        = ((setter v r).1.map fun ok => if ok then CommitOutcome.appliedLive else .setterFailed, (s, (setter v r).2)) :=
    fun setter s => Prog.bind_pure_run _ _ _
  unfold Field.setterCall
  cases hwriteOnly : f.hasFlag ffWriteOnly with
  | true =>
    unfold NamespaceDecl.applyDraft
    rw [f.promote_writeOnly v s hwriteOnly, if_pos hwriteOnly]
    cases f.setter with
    | none => rfl
    | some setter => exact hcall setter s
  | false =>
    rw [f.promote_stateful v s hwriteOnly]
    cases hlive : f.hasFlag ffLiveApply && f.setter.isSome with
    | true =>
      obtain ⟨hflag, hsome⟩ := Bool.and_eq_true_iff.mp hlive
      obtain ⟨setter, hsetter⟩ := Option.isSome_iff_exists.mp hsome
      rw [applyDraft_live hwriteOnly hflag hsetter, hflag, hsetter]
      exact hcall setter _
    | false =>
      rw [applyDraft_working hwriteOnly hlive]
      cases hflag : f.hasFlag ffLiveApply with
      | false => rfl
      | true =>
        rw [hflag, Bool.true_and] at hlive
        rw [Option.isSome_eq_false_iff, Option.isNone_iff_eq_none] at hlive
        rw [hlive]
        rfl

namespace NamespaceDecl

/-- The field and the value whose turn it is, if a commit takes them. -/
def taken (d : NamespaceDecl R) (s : NamespaceState) (id : FieldId) : Option (Field R × Value) :=
  (d.findField id).bind fun f => (s.draft.lookup id).bind fun v =>
    if !f.hasFlag ffReadOnly && f.validate v then some (f, v) else none

variable {d : NamespaceDecl R} {s : NamespaceState} {id : FieldId} {f : Field R} {v : Value}

/-- A draft is taken exactly when its field exists, may be written and finds the value valid. -/
theorem taken_iff : d.taken s id = some (f, v) ↔ d.findField id = some f ∧ s.draft.lookup id = some v
    ∧ f.hasFlag ffReadOnly = false ∧ f.validate v = true := by
  unfold taken
  simp only [Option.bind_eq_some_iff, Option.ite_none_right_eq_some, Option.some.injEq, Prod.mk.injEq,
    Bool.and_eq_true, Bool.not_eq_true']
  constructor
  · rintro ⟨f', hf, v', hv, ⟨hreadOnly, hvalid⟩, rfl, rfl⟩
    exact ⟨hf, hv, hreadOnly, hvalid⟩
  · rintro ⟨hf, hv, hreadOnly, hvalid⟩
    exact ⟨f, hf, v, hv, ⟨hreadOnly, hvalid⟩, rfl, rfl⟩

/-- Whether it is taken depends on that draft alone. -/
theorem taken_congr {t : NamespaceState} (h : s.draft.lookup id = t.draft.lookup id) :
    d.taken s id = d.taken t id := by
  unfold taken
  rw [h]

/-- A draft that is taken comes off its list and is applied. -/
theorem commitOne_taken (h : d.taken s id = some (f, v)) (r : R) :
    d.commitOne id (s, r) = applyDraft f v (s.eraseDraft id, r) := by
  obtain ⟨hfind, hdraft, hreadOnly, hvalid⟩ := taken_iff.mp h
  unfold commitOne
  rw [hfind]
  simp only [Prog.get_bind_run, hdraft, hreadOnly, hvalid, Bool.false_eq_true, if_false, Bool.not_true]
  rfl

/-- Anything else is not counted, and leaves the working values. -/
theorem commitOne_not_taken (h : d.taken s id = none) :
    ∃ o, o.applied = false ∧ ∃ drop : Bool, ∀ t : NamespaceState, t.draft.lookup id = s.draft.lookup id → ∀ r : R,
      d.commitOne id (t, r) = (.value o, (if drop then t.eraseDraft id else t, r)) := by
  unfold commitOne
  cases hfind : d.findField id with
  | none => exact ⟨.unknown, rfl, false, fun t _ r => rfl⟩
  | some f =>
    simp only [Prog.get_bind_run]
    cases hdraft : s.draft.lookup id with
    | none => exact ⟨.noChange, rfl, false, fun t ht r => by simp only [ht]; rfl⟩
    | some v =>
      cases hreadOnly : f.hasFlag ffReadOnly with
      | true => exact ⟨.readOnly, rfl, true, fun t ht r => by simp only [ht, if_true]; rfl⟩
      | false =>
        cases hvalid : f.validate v with
        | false => exact ⟨.invalidValue, rfl, false, fun t ht r => by simp only [ht, hvalid]; rfl⟩
        | true => cases h.symm.trans (taken_iff.mpr ⟨hfind, hdraft, hreadOnly, hvalid⟩)

end NamespaceDecl

/-- A draft that its setter refused, and the runtime the setter left. -/
structure Refusal (R : Type) where
  field : Field R
  value : Value
  runtime : R

namespace NamespaceDecl

variable {d : NamespaceDecl R} {id : FieldId} {x : NamespaceState × R}

/-- The refusal that the commit of a field comes to. -/
def refusal (d : NamespaceDecl R) (id : FieldId) (x : NamespaceState × R) : Option (Refusal R) :=
  match d.taken x.1 id with
  | none => none
  | some (f, v) =>
    match f.setterCall v with
    | none => none
    | some call =>
      match call x.2 with
      | (.value false, r) => some ⟨f, v, r⟩
      | _ => none

/-- The commit of a field which counts as one without a draft where the setter refuses. What the setter did
to the runtime stays. -/
def commitWithoutDraft (d : NamespaceDecl R) (id : FieldId) : Prog String (NamespaceState × R) CommitOutcome :=
  fun x => match d.refusal id x with
    | some w => d.commitOne id (x.1.eraseDraft id, w.runtime)
    | none => d.commitOne id x

/-- The setter, if one is called, comes back with an answer. -/
def Answered (d : NamespaceDecl R) (id : FieldId) (x : NamespaceState × R) : Prop :=
  ∀ f v call, d.taken x.1 id = some (f, v) → f.setterCall v = some call → ∃ ok, (call x.2).1 = .value ok

theorem refusal_congr {s t : NamespaceState} (h : s.draft.lookup id = t.draft.lookup id) (r : R) :
    d.refusal id (s, r) = d.refusal id (t, r) := by
  unfold refusal
  rw [taken_congr h]

/-- A refusal names the field of the draft. -/
theorem refusal_field {w : Refusal R} (h : d.refusal id x = some w) :
    d.findField id = some w.field ∧ w.field.id = id := by
  unfold refusal at h
  split at h
  · cases h
  · next f v htaken =>
    have hfind := (taken_iff.mp htaken).1
    split at h
    · cases h
    · split at h
      · cases h
        exact ⟨hfind, findField_id hfind⟩
      · cases h

/-- A field without a draft is passed over. -/
theorem commitOne_erased (d : NamespaceDecl R) (id : FieldId) (s : NamespaceState) (r : R) :
    ∃ o, o.applied = false ∧ d.commitOne id (s.eraseDraft id, r) = (.value o, (s.eraseDraft id, r)) := by
  have hnone : (s.eraseDraft id).draft.lookup id = none := by rw [NamespaceState.lookup_eraseDraft, if_pos rfl]
  unfold commitOne
  cases d.findField id with
  | none => exact ⟨.unknown, rfl, rfl⟩
  | some f => exact ⟨.noChange, rfl, by simp only [Prog.get_bind_run, hnone]; rfl⟩

end NamespaceDecl

/-- Two states of a namespace whose working values differ at some ids only; what is to be saved of the second
one is to be saved of the first. -/
structure AlikeBut (lost : List FieldId) (s t : NamespaceState) : Prop where
  draft : ∀ id, s.draft.lookup id = t.draft.lookup id
  working : ∀ id ∉ lost, s.working.lookup id = t.working.lookup id
  dirty : t.dirtyForPersist = true → s.dirtyForPersist = true

/-- A change of the entries of one field. -/
structure Local (id : FieldId) (change : NamespaceState → NamespaceState) : Prop where
  draft : ∀ s other, other ≠ id → (change s).draft.lookup other = s.draft.lookup other
  working : ∀ s other, other ≠ id → (change s).working.lookup other = s.working.lookup other
  dirty : ∀ s, s.dirtyForPersist = true → (change s).dirtyForPersist = true
  alike : ∀ lost s t, AlikeBut lost s t → AlikeBut lost (change s) (change t)

theorem AlikeBut.refl (s : NamespaceState) : AlikeBut [] s s := ⟨fun _ => rfl, fun _ _ => rfl, fun h => h⟩

theorem AlikeBut.mono {lost more : List FieldId} {s t : NamespaceState} (h : AlikeBut lost s t) (hsub : lost ⊆ more) :
    AlikeBut more s t := ⟨h.draft, fun id hid => h.working id fun hlost => hid (hsub hlost), h.dirty⟩

theorem Local.unchanged (id : FieldId) : Local id fun s => s :=
  ⟨fun _ _ _ => rfl, fun _ _ _ => rfl, fun _ h => h, fun _ _ _ h => h⟩

/-- Erasing a draft is local to its field. -/
theorem Local.eraseDraft (id : FieldId) : Local id (NamespaceState.eraseDraft id) where
  draft s other hne := by rw [NamespaceState.lookup_eraseDraft, if_neg hne]
  working _ _ _ := rfl
  dirty _ h := h
  alike lost s t h := ⟨fun other => by simp only [NamespaceState.lookup_eraseDraft, h.draft], h.working, h.dirty⟩

/-- Promoting a draft is local to its field. -/
theorem Local.promote (f : Field R) (v : Value) : Local f.id fun s => f.promote v (s.eraseDraft f.id) := by
  have herase := Local.eraseDraft f.id
  cases hflag : f.hasFlag ffWriteOnly with
  | true => simpa only [Field.promote, hflag, if_true] using herase
  | false =>
    simp only [Field.promote, hflag, Bool.false_eq_true, if_false]
    refine ⟨herase.draft, fun s other hne => ?_, fun _ _ => rfl, fun lost s t h => ?_⟩
    · rw [NamespaceState.lookup_putWorking, if_neg hne]
      rfl
    · refine ⟨(herase.alike lost s t h).draft, fun id hid => ?_, fun _ => rfl⟩
      simp only [NamespaceState.lookup_putWorking]
      split
      · rfl
      · exact h.working id hid

namespace NamespaceDecl

variable {d : NamespaceDecl R}

/-- The commit of a field: a change of its own entries that depends on its draft alone, or a refusal. -/
theorem commitOne_step {id : FieldId} {x : NamespaceState × R} (h : d.Answered id x) :
    (d.refusal id x = none ∧ ∃ o change r, Local id change ∧ ∀ t : NamespaceState,
      t.draft.lookup id = x.1.draft.lookup id → d.commitOne id (t, x.2) = (.value o, (change t, r)))
    ∨ ∃ w, d.refusal id x = some w ∧ w.field.id = id ∧ x.1.draft.lookup id = some w.value
      ∧ d.commitOne id x = (.value .setterFailed, (w.field.promote w.value (x.1.eraseDraft id), w.runtime)) := by
  obtain ⟨s, r⟩ := x
  cases htaken : d.taken s id with
  | none =>
    obtain ⟨o, -, drop, hrun⟩ := commitOne_not_taken htaken
    refine .inl ⟨by simp only [refusal, htaken], o, fun t => if drop then t.eraseDraft id else t, r, ?_,
      fun t ht => hrun t ht r⟩
    cases drop with
    | true => exact Local.eraseDraft id
    | false => exact Local.unchanged id
  | some fv =>
    obtain ⟨f, v⟩ := fv
    obtain ⟨hfind, hdraft, -, -⟩ := taken_iff.mp htaken
    obtain rfl := findField_id hfind
    have hrun : ∀ t : NamespaceState, t.draft.lookup f.id = s.draft.lookup f.id →
        d.commitOne f.id (t, r) = applyDraft f v (t.eraseDraft f.id, r) := fun t ht =>
      commitOne_taken ((taken_congr ht).trans htaken) r
    cases hcall : f.setterCall v with
    | none =>
      refine .inl ⟨by simp only [refusal, htaken, hcall], if !f.hasFlag ffWriteOnly && f.hasFlag ffRebootRequired
        then .appliedReboot else .appliedLive, _, r, Local.promote f v, fun t ht => ?_⟩
      rw [hrun t ht, applyDraft_eq, hcall]
    | some call =>
      obtain ⟨ok, hok⟩ := h f v call htaken hcall
      obtain ⟨o, r', hanswer⟩ : ∃ o r', call r = (o, r') := ⟨_, _, rfl⟩
      rw [hanswer] at hok
      obtain rfl : o = .value ok := hok
      cases ok with
      | true =>
        refine .inl ⟨by simp only [refusal, htaken, hcall, hanswer], .appliedLive, _, r', Local.promote f v,
          fun t ht => ?_⟩
        rw [hrun t ht, applyDraft_eq, hcall]
        simp only [hanswer]
        rfl
      | false =>
        refine .inr ⟨⟨f, v, r'⟩, by simp only [refusal, htaken, hcall, hanswer], rfl, hdraft, ?_⟩
        rw [hrun s rfl, applyDraft_eq, hcall]
        simp only [hanswer]
        rfl

/-- Refused or not, it is a change of the entries of the field. -/
theorem commitOne_local {id : FieldId} {x : NamespaceState × R} (h : d.Answered id x) :
    ∃ o change r, Local id change ∧ d.commitOne id x = (.value o, (change x.1, r)) := by
  rcases commitOne_step h with ⟨-, o, change, r, hlocal, hrun⟩ | ⟨w, -, rfl, -, hrun⟩
  · exact ⟨o, change, r, hlocal, hrun x.1 rfl⟩
  · exact ⟨_, _, _, Local.promote w.field w.value, hrun⟩

/-! ## The drafts of a namespace -/

/-- The refusals that the commits of some fields come to, one after the other. -/
def refusals (d : NamespaceDecl R) : List FieldId → NamespaceState × R → List (Refusal R)
  | [], _ => []
  | id :: ids, x => (d.refusal id x).toList ++ d.refusals ids (d.commitOne id x).2

/-- Every setter that they call comes back with an answer. -/
def AllAnswered (d : NamespaceDecl R) : List FieldId → NamespaceState × R → Prop
  | [], _ => True
  | id :: ids, x => d.Answered id x ∧ d.AllAnswered ids (d.commitOne id x).2

end NamespaceDecl

/-- The fields that are left with a refused value. -/
def leftWith (ws : List (Refusal R)) : List FieldId :=
  (ws.filter fun w => !w.field.hasFlag ffWriteOnly).map fun w => w.field.id

namespace NamespaceDecl

variable {d : NamespaceDecl R} {ids : List FieldId} {x : NamespaceState × R}

/-- The commits of some fields leave the entries of the others. -/
theorem commits_frame (h : d.AllAnswered ids x) :
    ∃ os s r, Prog.mapEach ids d.commitOne x = (.value os, (s, r))
      ∧ (∀ id ∉ ids, s.draft.lookup id = x.1.draft.lookup id ∧ s.working.lookup id = x.1.working.lookup id)
      ∧ (x.1.dirtyForPersist = true → s.dirtyForPersist = true) := by
  induction ids generalizing x with
  | nil => exact ⟨[], x.1, x.2, rfl, fun _ _ => ⟨rfl, rfl⟩, fun h => h⟩
  | cons id ids ih =>
    obtain ⟨o, change, r, hlocal, hone⟩ := commitOne_local h.1
    have hanswered := h.2
    rw [hone] at hanswered
    obtain ⟨os, s, r', hrest, hframe, hdirty⟩ := ih hanswered
    refine ⟨o :: os, s, r', ?_, fun other hother => ?_, fun h => hdirty (hlocal.dirty x.1 h)⟩
    · rw [Prog.mapEach_cons_run, hone]
      simp only [hrest]
      rfl
    · obtain ⟨hne, hnot⟩ := not_or.mp (mt List.mem_cons.mpr hother)
      obtain ⟨hdraft, hworking⟩ := hframe other hnot
      exact ⟨hdraft.trans (hlocal.draft x.1 other hne), hworking.trans (hlocal.working x.1 other hne)⟩

/-- Every other field is committed as if the fields whose setters refuse had had no drafts. -/
theorem commits_alike (h : d.AllAnswered ids x) {lost : List FieldId} {t : NamespaceState}
    (halike : AlikeBut lost x.1 t) :
    ∃ os os' s t' r, Prog.mapEach ids d.commitOne x = (.value os, (s, r))
      ∧ Prog.mapEach ids d.commitWithoutDraft (t, x.2) = (.value os', (t', r))
      ∧ os.filter CommitOutcome.applied = os'.filter CommitOutcome.applied
      ∧ AlikeBut (leftWith (d.refusals ids x) ++ lost) s t' := by
  induction ids generalizing x lost t with
  | nil => exact ⟨[], [], x.1, t, x.2, rfl, rfl, rfl, halike⟩
  | cons id ids ih =>
    have hsame : d.refusal id (t, x.2) = d.refusal id x := refusal_congr (halike.draft id).symm x.2
    have hanswered := h.2
    rcases commitOne_step h.1 with ⟨hnone, o, change, r, hlocal, hrun⟩ | ⟨w, hsome, rfl, -, hone⟩
    · have hone : d.commitOne id x = (.value o, (change x.1, r)) := hrun x.1 rfl
      have hwithout : d.commitWithoutDraft id (t, x.2) = (.value o, (change t, r)) := by
        simp only [commitWithoutDraft, hsame, hnone]
        exact hrun t (halike.draft id).symm
      rw [hone] at hanswered
      obtain ⟨os, os', s, t', r', hrest, hrest', hcount, hend⟩ := ih hanswered (hlocal.alike lost x.1 t halike)
      refine ⟨o :: os, o :: os', s, t', r', ?_, ?_, ?_, ?_⟩
      · rw [Prog.mapEach_cons_run, hone]
        simp only [hrest]
        rfl
      · rw [Prog.mapEach_cons_run, hwithout]
        simp only [hrest']
        rfl
      · rw [List.filter_cons, List.filter_cons, hcount]
      · simpa only [refusals, hnone, hone, Option.toList_none, List.nil_append] using hend
    · obtain ⟨o, ho, herased⟩ := commitOne_erased d w.field.id t w.runtime
      have hwithout : d.commitWithoutDraft w.field.id (t, x.2) = (.value o, (t.eraseDraft w.field.id, w.runtime)) := by
        simp only [commitWithoutDraft, hsame, hsome]
        exact herased
      have hdropped := (Local.eraseDraft w.field.id).alike lost x.1 t halike
      have hnext : AlikeBut (leftWith [w] ++ lost) (w.field.promote w.value (x.1.eraseDraft w.field.id))
          (t.eraseDraft w.field.id) := by
        cases hflag : w.field.hasFlag ffWriteOnly with
        | true =>
          rw [w.field.promote_writeOnly _ _ hflag]
          exact hdropped.mono (List.subset_append_right _ _)
        | false =>
          rw [w.field.promote_stateful _ _ hflag]
          simp only [leftWith, hflag, Bool.not_false, List.filter_cons_of_pos, List.filter_nil, List.map_cons,
            List.map_nil, List.singleton_append]
          refine ⟨hdropped.draft, fun id hid => ?_, fun _ => rfl⟩
          obtain ⟨hne, hnot⟩ := not_or.mp (mt List.mem_cons.mpr hid)
          rw [NamespaceState.lookup_putWorking, if_neg hne]
          exact hdropped.working id hnot
      rw [hone] at hanswered
      obtain ⟨os, os', s, t', r', hrest, hrest', hcount, hend⟩ := ih hanswered hnext
      refine ⟨.setterFailed :: os, o :: os', s, t', r', ?_, ?_, ?_, ?_⟩
      · rw [Prog.mapEach_cons_run, hone]
        simp only [hrest]
        rfl
      · rw [Prog.mapEach_cons_run, hwithout]
        simp only [hrest']
        rfl
      · rw [List.filter_cons_of_neg (by simp [CommitOutcome.applied]), List.filter_cons_of_neg (by simp [ho]), hcount]
      · refine hend.mono fun other hother => ?_
        simp only [refusals, hsome, hone, Option.toList_some, List.singleton_append]
        unfold leftWith at hother ⊢
        rw [List.filter_cons]
        grind

/-- Refusals are about fields of the namespace that had drafts. -/
theorem mem_refusals {w : Refusal R} (hw : w ∈ d.refusals ids x) : w.field.id ∈ ids ∧ w.field ∈ d.fields := by
  induction ids generalizing x with
  | nil => cases hw
  | cons id ids ih =>
    unfold refusals at hw
    rcases List.mem_append.mp hw with hfirst | hrest
    · obtain ⟨hfind, rfl⟩ := refusal_field (Option.mem_toList.mp hfirst)
      exact ⟨List.mem_cons_self, findField_mem hfind⟩
    · exact ⟨List.mem_cons_of_mem id (ih hrest).1, (ih hrest).2⟩

/-- A field whose setter refuses: a write-only one keeps its working value, any other one has the refused
value, which is to be saved. -/
theorem refused_own (hnodup : ids.Nodup) (h : d.AllAnswered ids x) {w : Refusal R} (hw : w ∈ d.refusals ids x) :
    x.1.draft.lookup w.field.id = some w.value ∧
      let s := (Prog.mapEach ids d.commitOne x).2.1
      if w.field.hasFlag ffWriteOnly then s.working.lookup w.field.id = x.1.working.lookup w.field.id
      else s.working.lookup w.field.id = some w.value ∧ s.dirtyForPersist = true := by
  induction ids generalizing x with
  | nil => cases hw
  | cons id ids ih =>
    obtain ⟨hnot, hnodup⟩ := List.nodup_cons.mp hnodup
    have hanswered := h.2
    unfold refusals at hw
    obtain ⟨o, change, r, hlocal, hone⟩ := commitOne_local h.1
    rw [hone] at hanswered hw
    have hrun : (Prog.mapEach (id :: ids) d.commitOne x).2 = (Prog.mapEach ids d.commitOne (change x.1, r)).2 := by
      rw [Prog.mapEach_cons_run, hone]
    obtain ⟨_, s, r', hrest, hframe, hdirty⟩ := commits_frame hanswered
    rw [hrun]
    rcases List.mem_append.mp hw with hfirst | hlater
    · have hrefused := Option.mem_toList.mp hfirst
      rcases commitOne_step h.1 with ⟨hnone, -⟩ | ⟨w', hsome, rfl, hdraft, hone'⟩
      · cases hnone.symm.trans hrefused
      · obtain rfl : w' = w := Option.some.inj (hsome.symm.trans hrefused)
        have hchange : change x.1 = w'.field.promote w'.value (x.1.eraseDraft w'.field.id) :=
          congrArg (fun y : Outcome String CommitOutcome × NamespaceState × R => y.2.1) (hone.symm.trans hone')
        have hown := (hframe w'.field.id hnot).2
        rw [hchange] at hown hdirty
        refine ⟨hdraft, ?_⟩
        dsimp only
        rw [hrest, hown]
        split
        · next hflag => rw [w'.field.promote_writeOnly _ _ hflag]; rfl
        · next hflag =>
          rw [w'.field.promote_stateful _ _ (Bool.eq_false_iff.mpr hflag)] at hdirty ⊢
          exact ⟨by rw [NamespaceState.lookup_putWorking, if_pos rfl], hdirty rfl⟩
    · have hne : w.field.id ≠ id := fun heq => hnot (heq ▸ (mem_refusals hlater).1)
      obtain ⟨hdraft, hown⟩ := ih hnodup hanswered hlater
      refine ⟨(hlocal.draft x.1 _ hne).symm.trans hdraft, ?_⟩
      rwa [← hlocal.working x.1 _ hne]

end NamespaceDecl

end MicroReticulum.Provisioning
