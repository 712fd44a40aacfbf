import MicroReticulum.Library.Rounds
import MicroReticulum.Provisioning.CommitRefusals
import MicroReticulum.Provisioning.SavedValues

/-!
# A field that is set and committed

A field with a valid value in its draft settles at that value in the next commit of its namespace, whatever else is
committed with it: a live field shows it through its getter, and a field that waits for a reboot has it as its working
value. The next boot pushes the working value through the setter (`applied_at_boot`).

What this takes of the rest of the device is `Undisturbed`: code that comes back, and leaves alone what the getter of
the field shows. It says nothing of the field's own setter, which has to store the value it is given
(`Field.Settable`).
-/

namespace MicroReticulum.Provisioning

open MicroReticulum Library Provisioner

variable {R F : Type}

/-! ## One namespace -/

/-- The getter of the field shows the same of both. -/
def Field.SameShown (f : Field R) (r r' : R) : Prop := ∀ getter, f.getter = some getter → getter r' = getter r

theorem Field.SameShown.refl (f : Field R) (r : R) : f.SameShown r r := fun _ _ => rfl

theorem Field.SameShown.trans (f : Field R) (r r' r'' : R) (h : f.SameShown r r') (h' : f.SameShown r' r'') :
    f.SameShown r r'' := fun getter hg => (h' getter hg).trans (h getter hg)

/-- The program leaves alone what the getter of the field shows. -/
def Field.Unmoved {α : Type} (f : Field R) (m : Prog String R α) : Prop := Prog.Keeps f.SameShown m

/-- A stateful field and a value that it takes: it is valid, comparisons with it are exact, and if the field is set at
once its setter stores it. -/
structure Field.Settable (f : Field R) (v : Value) : Prop where
  valid : f.validate v = true
  writable : f.hasFlag ffReadOnly = false
  stateful : f.hasFlag ffWriteOnly = false
  exact : ∀ w : Value, w.eq v = true → w = v
  applied : f.hasFlag ffRebootRequired = true ∧ f.hasFlag ffLiveApply = false ∨
    f.hasFlag ffRebootRequired = false ∧ f.hasFlag ffLiveApply = true ∧
      ∃ setter getter, f.setter = some setter ∧ f.getter = some getter ∧ ∀ r, getter (setter v r).2 = v

/-- The field stands for the value, and nothing else is pending. -/
def Settled (d : NamespaceDecl R) (f : Field R) (v : Value) (x : NamespaceState × R) : Prop :=
  x.1.draft.lookup f.id = none ∧ d.settledValue x.1 x.2 f = v

/-- The value is pending, or the field stands for it. -/
def Pending (d : NamespaceDecl R) (f : Field R) (v : Value) (x : NamespaceState × R) : Prop :=
  x.1.draft.lookup f.id = some v ∨ Settled d f v x

section Namespace

variable {d : NamespaceDecl R} {f : Field R} {v : Value} {x y : NamespaceState × R}

/-- What a field stands for depends on its working value and on what its getter shows. -/
theorem settledValue_same (hf : f ∈ d.fields) (hworking : y.1.working.lookup f.id = x.1.working.lookup f.id)
    (hshown : f.SameShown x.2 y.2) : d.settledValue y.1 y.2 f = d.settledValue x.1 x.2 f := by
  have hvalue : y.1.workingValue f.id = x.1.workingValue f.id := by
    unfold NamespaceState.workingValue
    rw [hworking]
  unfold NamespaceDecl.settledValue NamespaceDecl.effective
  rw [NamespaceDecl.findField_of_mem hf, hvalue]
  simp only
  cases hgetter : f.getter with
  | none => rfl
  | some getter => simp only [hshown getter hgetter]

theorem Settled.congr (h : Settled d f v x) (hf : f ∈ d.fields)
    (hdraft : y.1.draft.lookup f.id = x.1.draft.lookup f.id)
    (hworking : y.1.working.lookup f.id = x.1.working.lookup f.id) (hshown : f.SameShown x.2 y.2) :
    Settled d f v y := ⟨hdraft.trans h.1, (settledValue_same hf hworking hshown).trans h.2⟩

theorem Pending.congr (h : Pending d f v x) (hf : f ∈ d.fields)
    (hdraft : y.1.draft.lookup f.id = x.1.draft.lookup f.id)
    (hworking : y.1.working.lookup f.id = x.1.working.lookup f.id) (hshown : f.SameShown x.2 y.2) :
    Pending d f v y :=
  h.imp (fun hpending => hdraft.trans hpending) fun hsettled => hsettled.congr hf hdraft hworking hshown

/-- `set_draft` leaves the value pending, or takes back the draft of a field that stands for it. -/
theorem stageDraft_pending (hset : f.Settable v) (s : NamespaceState) (r : R) :
    Pending d f v (d.stageDraft r f v s, r) := by
  unfold NamespaceDecl.stageDraft
  cases heq : !f.hasFlag ffWriteOnly && (d.settledValue s r f).eq v with
  | true =>
    rw [if_pos rfl]
    refine .inr ⟨?_, ?_⟩
    · rw [NamespaceState.lookup_eraseDraft, if_pos rfl]
    · exact hset.exact _ (Bool.and_eq_true_iff.mp heq).2
  | false =>
    rw [if_neg Bool.false_ne_true]
    exact .inl (by rw [NamespaceState.lookup_insertDraft, if_pos rfl])

/-- The commit of a field changes its own entries, and the runtime at most through its setter. -/
theorem commitOne_run
    (hsetters : ∀ g ∈ d.fields, ∀ setter, g.setter = some setter → ∀ w, Prog.Succeeds (setter w)) (id : FieldId)
    (x : NamespaceState × R) :
    ∃ o change r, Local id change ∧ d.commitOne id x = (.value o, (change x.1, r)) ∧
      (r = x.2 ∨ ∃ g ∈ d.fields, g.id = id ∧ ∃ setter w, g.setter = some setter ∧ r = (setter w x.2).2) := by
  have hcall : ∀ (g : Field R) w call, g.setterCall w = some call →
      ∃ setter, g.setter = some setter ∧ call = setter w := by
    intro g w call hcall
    unfold Field.setterCall at hcall
    obtain ⟨-, hcall⟩ := Option.ite_none_right_eq_some.mp hcall
    obtain ⟨setter, hsetter, heq⟩ := Option.map_eq_some_iff.mp hcall
    exact ⟨setter, hsetter, heq.symm⟩
  have hanswered : d.Answered id x := by
    intro g w call htaken hcalled
    obtain ⟨setter, hsetter, rfl⟩ := hcall g w call hcalled
    obtain ⟨ok, t, hrun⟩ := hsetters g (NamespaceDecl.findField_mem (NamespaceDecl.taken_iff.mp htaken).1) setter
      hsetter w x.2
    exact ⟨ok, by rw [hrun]⟩
  obtain ⟨o, change, r, hlocal, hrun⟩ := NamespaceDecl.commitOne_local hanswered
  refine ⟨o, change, r, hlocal, hrun, ?_⟩
  cases htaken : d.taken x.1 id with
  | none =>
    obtain ⟨o', -, drop, hrun'⟩ := NamespaceDecl.commitOne_not_taken htaken
    have heq := congrArg (fun z => z.2.2) (hrun.symm.trans (hrun' x.1 rfl x.2))
    exact .inl heq
  | some gw =>
    obtain ⟨g, w⟩ := gw
    have hrun' := NamespaceDecl.commitOne_taken htaken x.2
    rw [applyDraft_eq] at hrun'
    have heq := congrArg (fun z => z.2.2) (hrun.symm.trans hrun')
    have hfind := (NamespaceDecl.taken_iff.mp htaken).1
    cases hcalled : g.setterCall w with
    | none =>
      rw [hcalled] at heq
      exact .inl heq
    | some call =>
      rw [hcalled] at heq
      obtain ⟨setter, hsetter, rfl⟩ := hcall g w call hcalled
      exact .inr ⟨g, NamespaceDecl.findField_mem hfind, NamespaceDecl.findField_id hfind, setter, w, hsetter, heq⟩

/-- A pending value settles in the commit of the field. -/
theorem commitOne_settles (hf : f ∈ d.fields) (hset : f.Settable v) (h : Pending d f v x) :
    Settled d f v (d.commitOne f.id x).2 := by
  rcases h with hdraft | hsettled
  · have htaken : d.taken x.1 f.id = some (f, v) :=
      NamespaceDecl.taken_iff.mpr ⟨NamespaceDecl.findField_of_mem hf, hdraft, hset.writable, hset.valid⟩
    have herased : ((x.1.eraseDraft f.id).putWorking f.id v).draft.lookup f.id = none := by
      show (x.1.eraseDraft f.id).draft.lookup f.id = none
      rw [NamespaceState.lookup_eraseDraft, if_pos rfl]
    have hworking : ((x.1.eraseDraft f.id).putWorking f.id v).workingValue f.id = v := by
      unfold NamespaceState.workingValue
      rw [NamespaceState.lookup_putWorking, if_pos rfl]
      rfl
    rw [show d.commitOne f.id x = _ from NamespaceDecl.commitOne_taken htaken x.2, applyDraft_eq,
      f.promote_stateful v _ hset.stateful]
    rcases hset.applied with ⟨hreboot, hlive⟩ | ⟨hreboot, hlive, setter, getter, hsetter, hgetter, hstores⟩
    · have hcall : f.setterCall v = none := by simp [Field.setterCall, hset.stateful, hlive]
      rw [hcall]
      refine ⟨herased, ?_⟩
      unfold NamespaceDecl.settledValue
      rw [if_pos hreboot]
      exact hworking
    · have hcall : f.setterCall v = some (setter v) := by simp [Field.setterCall, hlive, hsetter]
      rw [hcall]
      refine ⟨herased, ?_⟩
      unfold NamespaceDecl.settledValue NamespaceDecl.effective
      rw [if_neg (Bool.eq_false_iff.mp hreboot), NamespaceDecl.findField_of_mem hf]
      simp only [hset.stateful, hgetter, Bool.false_eq_true, if_false]
      exact hstores x.2
  · have hrun : d.commitOne f.id x = (.value .noChange, x) := by
      unfold NamespaceDecl.commitOne
      rw [NamespaceDecl.findField_of_mem hf]
      simp only [Prog.get_bind_run, hsettled.1]
      rfl
    rw [hrun]
    exact hsettled

end Namespace

/-! ## The device -/

/-- The rest of the device comes back, and leaves alone what the getter of a field shows: hooks, the setters of the
other fields, and the callback that a reboot is needed. -/
structure Undisturbed (env : Env F) (p : Provisioner R F) (d : NamespaceDecl R) (f : Field R) : Prop where
  responsive : Responsive env p
  own : d.onCommit = none
  hooks : ∀ d' ∈ p.decls, ∀ hook, d'.onCommit = some hook →
    Prog.Keeps (fun x y : NamespaceState × R => f.SameShown x.2 y.2) (hook d'.fields)
  setters : ∀ d' ∈ p.decls, ∀ g ∈ d'.fields, ∀ setter, g.setter = some setter → ∀ v, Prog.Succeeds (setter v)
  others : ∀ d' ∈ p.decls, ∀ g ∈ d'.fields, ¬ (d' = d ∧ g.id = f.id) → ∀ setter, g.setter = some setter →
    ∀ v, f.Unmoved (setter v)
  callback : ∀ m, p.onRebootRequired = some m → f.Unmoved m

theorem Undisturbed.congr {env : Env F} {p q : Provisioner R F} {d : NamespaceDecl R} {f : Field R}
    (h : Undisturbed env p d f) (hsame : SameRegistration p q) : Undisturbed env q d f where
  responsive := h.responsive.congr hsame.1 hsame.2
  own := h.own
  hooks := by rw [hsame.1]; exact h.hooks
  setters := by rw [hsame.1]; exact h.setters
  others := by rw [hsame.1]; exact h.others
  callback := by rw [hsame.2]; exact h.callback

section Device

variable {env : Env F} {p q : Provisioner R F} {d d' : NamespaceDecl R} {f : Field R} {v : Value}

/-- The state of a namespace, with the runtime. -/
def Provisioner.stateAt (p : Provisioner R F) (d : NamespaceDecl R) : NamespaceState × R := (p.stateOf d.id, p.runtime)

/-- The same namespaces are registered, and the field shows and has the same. -/
structure FieldKept (d : NamespaceDecl R) (f : Field R) (p q : Provisioner R F) : Prop where
  registration : SameRegistration p q
  draft : (q.stateAt d).1.draft.lookup f.id = (p.stateAt d).1.draft.lookup f.id
  working : (q.stateAt d).1.working.lookup f.id = (p.stateAt d).1.working.lookup f.id
  shown : f.SameShown p.runtime q.runtime

theorem FieldKept.settled (h : FieldKept d f p q) (hf : f ∈ d.fields) (hp : Settled d f v (p.stateAt d)) :
    Settled d f v (q.stateAt d) := hp.congr hf h.draft h.working h.shown

theorem FieldKept.pending (h : FieldKept d f p q) (hf : f ∈ d.fields) (hp : Pending d f v (p.stateAt d)) :
    Pending d f v (q.stateAt d) := hp.congr hf h.draft h.working h.shown

/-- A change of one namespace and the runtime, seen from another namespace. -/
theorem withState_kept (hd : d ∈ p.decls) (hne : d.id ≠ d'.id) {x : NamespaceState × R}
    (hshown : f.SameShown p.runtime x.2) : FieldKept d f p (p.withState d' x) := by
  have hstate : (p.withState d' x).stateOf d.id = p.stateOf d.id := by
    show (p.setState d'.id x.1).stateOf d.id = _
    rw [stateOf_setState hd, if_neg hne]
  refine ⟨⟨setState_decls d'.id x.1 p, rfl⟩, ?_, ?_, hshown⟩
  · simp only [Provisioner.stateAt, hstate]
  · simp only [Provisioner.stateAt, hstate]

/-- Saving writes a file. -/
theorem saveNamespace_kept (hu : Undisturbed env p d f) (hd : d ∈ p.decls) (hd' : d' ∈ p.decls) :
    ∃ saved q, saveNamespace env d' p = (.value saved, q) ∧ FieldKept d f p q := by
  obtain ⟨saved, q, hrun, hsame⟩ := saveNamespace_run (p := p) hu.responsive.files (decls_unique hd')
  refine ⟨saved, q, hrun, ⟨hsame.decls, hsame.onRebootRequired⟩, ?_, ?_, ?_⟩
  · simp only [Provisioner.stateAt, hsame.draft d hd]
  · simp only [Provisioner.stateAt, hsame.working d hd]
  · rw [hsame.runtime]
    exact Field.SameShown.refl f p.runtime

/-- The flag goes up, and the callback runs. -/
theorem setRebootFlag_kept (hu : Undisturbed env p d f) (b : Bool) : FieldKept d f p (setRebootFlag b p).2 := by
  have hflag : ∀ m, (∀ m', m = some m' → f.Unmoved m') →
      Prog.Keeps (FieldKept (F := F) d f) (Provisioner.callback m) := by
    intro m hm q
    cases m with
    | none => exact ⟨SameRegistration.refl q, rfl, rfl, Field.SameShown.refl f q.runtime⟩
    | some m =>
      refine ⟨SameRegistration.refl q, rfl, rfl, ?_⟩
      exact Prog.Keeps.catching (Field.SameShown.trans f) (hm m rfl)
        (fun _ => Prog.Keeps.pure (Field.SameShown.refl f) ()) q.runtime
  unfold setRebootFlag
  rw [Prog.get_bind_run]
  cases b with
  | false => exact ⟨SameRegistration.refl p, rfl, rfl, Field.SameShown.refl f p.runtime⟩
  | true =>
    rw [Prog.when_of rfl, Prog.modify_bind_run]
    rcases Prog.when_run_cases (p.needsReboot = false) (Provisioner.callback p.onRebootRequired)
      { p with needsReboot := true } with ⟨-, hrun⟩ | ⟨-, hrun⟩
    · rw [hrun]
      have hkept := hflag p.onRebootRequired hu.callback { p with needsReboot := true }
      exact ⟨hkept.registration, hkept.draft, hkept.working, hkept.shown⟩
    · rw [hrun]
      exact ⟨SameRegistration.refl p, rfl, rfl, Field.SameShown.refl f p.runtime⟩

/-- The hook of a namespace, which the namespace of the field does not have. -/
theorem runHook_kept (hu : Undisturbed env p d f) (hd : d ∈ p.decls) (hd' : d' ∈ p.decls) :
    ∃ q, runHook d' p = (.value (), q) ∧ FieldKept d f p q := by
  have hsame : FieldKept d f p p := ⟨SameRegistration.refl p, rfl, rfl, Field.SameShown.refl f p.runtime⟩
  refine ⟨(runHook d' p).2, Prod.ext (runHook_value hu.responsive hd') rfl, ?_⟩
  unfold runHook
  rw [Prog.get_bind_run]
  cases hhook : d'.onCommit with
  | none => exact hsame
  | some hook =>
    have hne : d.id ≠ d'.id := by
      intro heq
      rw [← decls_unique hd' d hd heq, hu.own] at hhook
      cases hhook
    show FieldKept d f p (Prog.when _ (onNamespace d' (Prog.catching (hook d'.fields) fun _ => pure ())) p).2
    rcases Prog.when_run_cases ((p.stateOf d'.id).hasAnyDraft = true)
      (onNamespace d' (Prog.catching (hook d'.fields) fun _ => pure ())) p with ⟨-, hrun⟩ | ⟨-, hrun⟩
    · rw [hrun]
      have hshown := Prog.Keeps.catching (fun x y z => Field.SameShown.trans f x.2 y.2 z.2) (hu.hooks d' hd' hook hhook)
        (fun _ => Prog.Keeps.pure (fun x => Field.SameShown.refl f x.2) ()) (p.stateAt d')
      exact withState_kept hd hne hshown
    · rw [hrun]
      exact hsame

/-- One draft of a commit. -/
theorem commitOne_round (hu : Undisturbed env p d f) (hf : f ∈ d.fields) (hset : f.Settable v) (hd : d ∈ p.decls)
    (hd' : d' ∈ p.decls) (id : FieldId) (hp : Pending d f v (p.stateAt d)) :
    ∃ o q, onNamespace d' (d'.commitOne id) p = (.value o, q) ∧ SameRegistration p q ∧ Pending d f v (q.stateAt d)
      ∧ (Settled d f v (p.stateAt d) → Settled d f v (q.stateAt d))
      ∧ (d' = d → id = f.id → Settled d f v (q.stateAt d)) := by
  obtain ⟨o, change, r, hlocal, hrun, hruntime⟩ := commitOne_run (hu.setters d' hd') id (p.stateAt d')
  have hshown : ¬ (d' = d ∧ id = f.id) → f.SameShown p.runtime r := by
    intro hother
    rcases hruntime with rfl | ⟨g, hg, rfl, setter, w, hsetter, rfl⟩
    · exact Field.SameShown.refl f p.runtime
    · exact hu.others d' hd' g hg hother setter hsetter w p.runtime
  refine ⟨o, _, onNamespace_run hrun, ⟨setState_decls _ _ p, rfl⟩, ?_⟩
  by_cases hself : d' = d ∧ id = f.id
  · obtain ⟨rfl, rfl⟩ := hself
    have hstate : (p.withState d' (change (p.stateAt d').1, r)).stateAt d' = (d'.commitOne f.id (p.stateAt d')).2 := by
      rw [hrun]
      exact Prod.ext (stateOf_withState hd _) rfl
    have hsettled := commitOne_settles hf hset hp
    rw [← hstate] at hsettled
    exact ⟨.inr hsettled, fun _ => hsettled, fun _ _ => hsettled⟩
  · have hkept : FieldKept d f p (p.withState d' (change (p.stateAt d').1, r)) := by
      by_cases heq : d' = d
      · subst heq
        have hid : f.id ≠ id := fun hid => hself ⟨rfl, hid.symm⟩
        refine ⟨⟨setState_decls _ _ p, rfl⟩, ?_, ?_, hshown hself⟩
        · simp only [Provisioner.stateAt, stateOf_withState hd]
          exact hlocal.draft _ _ hid
        · simp only [Provisioner.stateAt, stateOf_withState hd]
          exact hlocal.working _ _ hid
      · exact withState_kept hd (fun hid => heq (decls_unique hd d' hd' hid.symm)) (hshown hself)
    exact ⟨hkept.pending hf hp, hkept.settled hf, fun heq hid => absurd ⟨heq, hid⟩ hself⟩

/-- What a commit keeps of a field whose value is pending, over the namespaces and drafts it comes to. -/
structure Awaits (p : Provisioner R F) (d : NamespaceDecl R) (f : Field R) (v : Value) (q : Provisioner R F) :
    Prop where
  registration : SameRegistration p q
  pending : Pending d f v (q.stateAt d)

/-- The drafts of a namespace, and its file. -/
theorem commitDrafts_round (hu : Undisturbed env p d f) (hf : f ∈ d.fields) (hset : f.Settable v) (hd : d ∈ p.decls)
    (hd' : d' ∈ p.decls) (hp : Pending d f v (p.stateAt d)) :
    ∃ c q, commitDrafts env d' p = (.value c, q) ∧ Awaits p d f v q
      ∧ (Settled d f v (p.stateAt d) → Settled d f v (q.stateAt d)) ∧ (d' = d → Settled d f v (q.stateAt d)) := by
  obtain ⟨p₁, hhook, hkept⟩ := runHook_kept hu hd hd'
  have hround : ∀ id ∈ draftIds d' (p₁.stateOf d'.id), ∀ s, Awaits p d f v s → ∃ o t,
      onNamespace d' (d'.commitOne id) s = (.value o, t) ∧ Awaits p d f v t
        ∧ (Settled d f v (s.stateAt d) → Settled d f v (t.stateAt d)) := by
    intro id _ s hs
    obtain ⟨o, t, hrun, hsame, hpending, hsettled, -⟩ := commitOne_round (hu.congr hs.registration) hf hset
      (hs.registration.1 ▸ hd) (hs.registration.1 ▸ hd') id hs.pending
    exact ⟨o, t, hrun, ⟨SameRegistration.trans p s t hs.registration hsame, hpending⟩, hsettled⟩
  have hstart : Awaits p d f v p₁ := ⟨hkept.registration, hkept.pending hf hp⟩
  obtain ⟨os, p₂, hdrafts, hp₂, hsettled, hreached⟩ := Prog.mapEach_reaches hround hstart
  have hown : d' = d → Settled d f v (p₂.stateAt d) := by
    rintro rfl
    cases hdraft : (p₁.stateOf d'.id).hasDraft f.id with
    | true =>
      have hmem : f.id ∈ draftIds d' (p₁.stateOf d'.id) :=
        List.mem_map_of_mem (List.mem_filter.mpr ⟨hf, hdraft⟩)
      refine hreached f.id hmem fun s hs => ?_
      obtain ⟨o, t, hrun, -, -, -, hself⟩ := commitOne_round (hu.congr hs.registration) hf hset
        (hs.registration.1 ▸ hd) (hs.registration.1 ▸ hd') f.id hs.pending
      rw [hrun]
      exact hself rfl rfl
    | false =>
      refine hsettled (hstart.pending.resolve_left fun hpending => ?_)
      rw [NamespaceState.hasDraft, Option.isSome_eq_false_iff, Option.isNone_iff_eq_none] at hdraft
      rw [show (p₁.stateAt d').1.draft.lookup f.id = none from hdraft] at hpending
      cases hpending
  have happlied : applyDrafts d' p = (.value os, p₂) := by
    unfold applyDrafts
    rw [Prog.bind_value hhook, Prog.get_bind_run]
    exact hdrafts
  obtain ⟨saved, q, hsave, hfile⟩ := saveNamespace_kept (hu.congr hp₂.registration) (hp₂.registration.1 ▸ hd)
    (hp₂.registration.1 ▸ hd')
  let c : Committed R := { decl := d', hadDraft := (p.stateOf d'.id).hasAnyDraft, outcomes := os, saved }
  refine ⟨c, q, ?_, ⟨SameRegistration.trans p p₂ q hp₂.registration hfile.registration, hfile.pending hf hp₂.pending⟩,
    fun h => hfile.settled hf (hsettled (hkept.settled hf h)), fun heq => hfile.settled hf (hown heq)⟩
  unfold commitDrafts
  rw [Prog.get_bind_run, Prog.bind_value happlied, Prog.bind_value hsave]
  rfl

/-- The same, with the flag where a commit in process raises it. -/
theorem Way.one_round (way : Way) (hu : Undisturbed env p d f) (hf : f ∈ d.fields) (hset : f.Settable v)
    (hd : d ∈ p.decls) (hd' : d' ∈ p.decls) (hp : Pending d f v (p.stateAt d)) :
    ∃ c q, way.one env d' p = (.value c, q) ∧ Awaits p d f v q
      ∧ (Settled d f v (p.stateAt d) → Settled d f v (q.stateAt d)) ∧ (d' = d → Settled d f v (q.stateAt d)) := by
  obtain ⟨c, q, hrun, hq, hsettled, hown⟩ := commitDrafts_round hu hf hset hd hd' hp
  cases way with
  | wire => exact ⟨c, q, hrun, hq, hsettled, hown⟩
  | inProcess id =>
    rw [Way.one_inProcess, Prog.bind_value hrun]
    rcases Prog.when_run_cases (c.reboot = true) (setRebootFlag true) q with ⟨-, hwhen⟩ | ⟨-, hwhen⟩
    · have hu' := hu.congr hq.registration
      have hkept := setRebootFlag_kept hu' true
      refine ⟨c, (setRebootFlag true q).2, ?_, ?_, ?_, ?_⟩
      · rw [Prog.bind_value (hwhen.trans (Prod.ext (setRebootFlag_value hu'.responsive true) rfl))]
        rfl
      · exact ⟨SameRegistration.trans _ _ _ hq.registration hkept.registration, hkept.pending hf hq.pending⟩
      · exact fun h => hkept.settled hf (hsettled h)
      · exact fun heq => hkept.settled hf (hown heq)
    · exact ⟨c, q, by rw [Prog.bind_value hwhen]; rfl, hq, hsettled, hown⟩

/-- A commit comes to its end, and a value that is pending in one of its namespaces has settled. -/
theorem Way.commit_settles (way : Way) (hu : Undisturbed env p d f) (hf : f ∈ d.fields) (hset : f.Settable v)
    (hd : d ∈ way.scope p) (hp : Pending d f v (p.stateAt d)) :
    ∃ answer q, way.commit env p = (.value answer, q) ∧ SameRegistration p q ∧ Settled d f v (q.stateAt d) := by
  have hmem : d ∈ p.decls := way.scope_mem hd
  have hround : ∀ d' ∈ way.scope p, ∀ s, Awaits p d f v s → ∃ c t, way.one env d' s = (.value c, t)
      ∧ Awaits p d f v t ∧ (Settled d f v (s.stateAt d) → Settled d f v (t.stateAt d)) := by
    intro d' hd' s hs
    obtain ⟨c, t, hrun, ht, hsettled, -⟩ := way.one_round (hu.congr hs.registration) hf hset
      (hs.registration.1 ▸ hmem) (hs.registration.1 ▸ way.scope_mem hd') hs.pending
    exact ⟨c, t, hrun, ⟨SameRegistration.trans p s t hs.registration ht.registration, ht.pending⟩, hsettled⟩
  have hstart : Awaits p d f v p := ⟨SameRegistration.refl p, hp⟩
  obtain ⟨cs, t, hrun, ht, -, hreached⟩ := Prog.mapEach_reaches hround hstart
  have hsettled : Settled d f v (t.stateAt d) := by
    refine hreached d hd fun s hs => ?_
    obtain ⟨c, u, hone, -, -, hown⟩ := way.one_round (hu.congr hs.registration) hf hset
      (hs.registration.1 ▸ hmem) (hs.registration.1 ▸ hmem) hs.pending
    rw [hone]
    exact hown rfl
  obtain ⟨answer, q, hcommit, ⟨b, rfl⟩, -, -⟩ := way.commit_value hu.responsive hrun
  have hkept := setRebootFlag_kept (hu.congr ht.registration) b
  exact ⟨answer, _, hcommit, SameRegistration.trans p t _ ht.registration hkept.registration, hkept.settled hf hsettled⟩

/-! ## Setting a field -/

/-- The payload of a SetState request for one field. -/
def fieldRequest (nsId : NamespaceId) (fieldId : FieldId) (v : Value) : Object :=
  .map [(.int Key.state.toNat, .map [(.int nsId.toNat, .map [(.int fieldId.toNat, packed v)])])]

/-- A field is set by a request for it alone, or in process. -/
inductive SetWay where
  | wire (seq : UInt64)
  | inProcess

/-- The field is set. -/
def SetWay.set (env : Env F) (nsId : NamespaceId) (fieldId : FieldId) (v : Value) :
    SetWay → Prog String (Provisioner R F) Unit
  | .wire seq => opSetState env seq (some (fieldRequest nsId fieldId v).tokens) >>= fun _ => pure ()
  | .inProcess => setField nsId fieldId v >>= fun _ => pure ()

theorem setDraft_of_settable (hf : f ∈ d.fields) (hset : f.Settable v) (s : NamespaceState) (r : R) :
    d.setDraft r f.id v s = (true, d.stageDraft r f v s) := by
  unfold NamespaceDecl.setDraft
  rw [NamespaceDecl.findField_of_mem hf]
  simp only [hset.writable, hset.valid, Bool.false_eq_true, if_false, Bool.not_true]

/-- Either way the value becomes the draft. -/
theorem SetWay.set_run (way : SetWay) (hd : d ∈ p.decls) (hf : f ∈ d.fields) (hset : f.Settable v) (hwhole : v.Whole) :
    way.set env d.id f.id v p = (.value (), p.setState d.id (d.stageDraft p.runtime f v (p.stateOf d.id))) := by
  have hdraft := setDraft_of_settable hf hset (p.stateOf d.id) p.runtime
  have hfind := find_of_mem hd
  cases way with
  | inProcess =>
    have hrun : setField d.id f.id v p
        = (.value true, p.setState d.id (d.stageDraft p.runtime f v (p.stateOf d.id))) := by
      unfold setField
      rw [Prog.get_bind_run, hfind]
      simp only [Prog.modify_bind_run, hdraft]
      rfl
    exact Prog.bind_value hrun
  | wire seq =>
    have hnone : v ≠ .none := by
      rintro rfl
      have hvalid := hset.valid
      have htype := Field.type_of_validate hvalid
      unfold Field.validate at hvalid
      rw [← htype] at hvalid
      cases hvalid
    have hmatches : wireMatches f.type (packed v) = true := Field.type_of_validate hset.valid ▸ wireMatches_packed hnone
    have hvalue : valueOf env.floatOfInt f.type (packed v) = v := by
      rw [← Field.type_of_validate hset.valid, valueOf_packed env.floatOfInt v hnone]
      exact (cut_eq_iff v).mpr hwhole
    have halone := congrArg Prod.fst (applyAlone_field env (p, []) (idOfWire_toNat Key.state) d.id.toNat
      (.int f.id.toNat, packed v))
    simp only [idOfWire_toNat, hfind] at halone
    have hstate : (setStateRun env p (fieldRequest d.id f.id v).tokens).p
        = p.setState d.id (d.stageDraft p.runtime f v (p.stateOf d.id)) := by
      refine Eq.trans halone ?_
      show (fieldEffect env d.id (some d) (.int f.id.toNat, packed v) { p }).p = _
      unfold fieldEffect
      simp only [idOfWire_toNat, NamespaceDecl.findField_of_mem hf, hmatches, if_true, hvalue]
      unfold SetStateRun.stage
      simp only [hset.writable, Bool.false_eq_true, if_false, hdraft, if_true]
    rw [← hstate]
    exact Prog.bind_value (opSetState_run env seq p _ _)

theorem Way.scope_congr (way : Way) (h : q.decls = p.decls) : way.scope q = way.scope p := by
  have hfind : q.find = p.find := by
    funext id
    unfold Provisioner.find
    rw [h]
  cases way with
  | wire seq payload =>
    show named q _ _ = named p _ _
    unfold named
    rw [h, hfind]
  | inProcess id => rw [Way.scope_inProcess, Way.scope_inProcess, h, hfind]

/-- A field that is set settles at the value in the next commit of its namespace. -/
theorem set_and_committed (set : SetWay) (way : Way) (hu : Undisturbed env p d f) (hf : f ∈ d.fields)
    (hset : f.Settable v) (hwhole : v.Whole) (hd : d ∈ way.scope p) :
    ∃ answer q, (set.set env d.id f.id v >>= fun _ => way.commit env) p = (.value answer, q)
      ∧ Settled d f v (q.stateAt d) := by
  have hmem : d ∈ p.decls := way.scope_mem hd
  let p₁ := p.setState d.id (d.stageDraft p.runtime f v (p.stateOf d.id))
  have hdecls : p₁.decls = p.decls := setState_decls _ _ p
  have hpending : Pending d f v (p₁.stateAt d) := by
    have hstate : p₁.stateAt d = (d.stageDraft p.runtime f v (p.stateOf d.id), p.runtime) := by
      refine Prod.ext ?_ rfl
      show (p.setState d.id _).stateOf d.id = _
      rw [stateOf_setState hmem, if_pos rfl]
    rw [hstate]
    exact stageDraft_pending hset _ _
  obtain ⟨answer, q, hcommit, -, hsettled⟩ := way.commit_settles (p := p₁) (hu.congr ⟨hdecls, rfl⟩) hf hset
    (by rwa [way.scope_congr hdecls]) hpending
  exact ⟨answer, q, by rw [Prog.bind_value (set.set_run hmem hf hset hwhole)]; exact hcommit, hsettled⟩

end Device

/-! ## The next boot -/

/-- What a setter makes of the value, seen through the getter, from what the getter showed before. A value that
compares equal to what is there is not set again, so it has to be one that setting would leave. -/
structure Field.Outcome (f : Field R) (v : Value) (outcome : Value → Value) : Prop where
  writable : f.hasFlag ffReadOnly = false
  stateful : f.hasFlag ffWriteOnly = false
  present : v.isNone = false
  calls : ∃ setter getter, f.setter = some setter ∧ f.getter = some getter
    ∧ (∀ r, getter (setter v r).2 = outcome (getter r)) ∧ ∀ r, v.eq (getter r) = true → outcome (getter r) = getter r
  twice : ∀ w, outcome (outcome w) = outcome w

/-- What pushing the loaded values keeps of a field, over the fields it comes to. -/
structure Pushing (p : Provisioner R F) (d : NamespaceDecl R) (getter : R → Value) (outcome : Value → Value)
    (q : Provisioner R F) : Prop where
  registration : SameRegistration p q
  state : q.stateOf d.id = p.stateOf d.id
  shown : getter q.runtime = getter p.runtime ∨ getter q.runtime = outcome (getter p.runtime)

section Boot

variable {p q : Provisioner R F} {d d' : NamespaceDecl R} {f g : Field R}

theorem withState_runtime (p : Provisioner R F) (d : NamespaceDecl R) (r : R) :
    p.withState d (p.stateOf d.id, r) = { p with runtime := r } := by
  show { p.withState d (p.stateOf d.id, p.runtime) with runtime := r } = _
  rw [withState_same]

/-- One field is pushed: the states of the namespaces stay, and the runtime changes at most by its setter. -/
theorem applyLoadedField_run (hsetters : ∀ setter, g.setter = some setter → ∀ w, Prog.Succeeds (setter w))
    (d' : NamespaceDecl R) (p : Provisioner R F) :
    (applyLoadedField d' g p = (.value (), p) ∧ (∀ setter, g.setter = some setter → g.hasFlag ffReadOnly = false →
        g.hasFlag ffWriteOnly = false → ((p.stateOf d'.id).workingValue g.id).isNone = false →
        ((p.stateOf d'.id).workingValue g.id).eq (g.seed p.runtime) = true))
      ∨ ∃ setter, g.setter = some setter ∧ applyLoadedField d' g p
        = (.value (), { p with runtime := (setter ((p.stateOf d'.id).workingValue g.id) p.runtime).2 }) := by
  unfold applyLoadedField
  rw [Prog.get_bind_run]
  cases hsetter : g.setter with
  | none => exact .inl ⟨rfl, fun setter h => by cases h⟩
  | some setter =>
    simp only
    rcases Prog.when_run_cases
        ((!g.hasFlag ffReadOnly && !g.hasFlag ffWriteOnly && !((p.stateOf d'.id).workingValue g.id).isNone
          && !((p.stateOf d'.id).workingValue g.id).eq (g.seed p.runtime)) = true)
        (onNamespace d' (Prog.catching
          (do let _ ← NamespaceDecl.callSetter setter ((p.stateOf d'.id).workingValue g.id); pure ())
          fun _ => pure ())) p with ⟨-, hrun⟩ | ⟨hskip, hrun⟩
    · refine .inr ⟨setter, rfl, ?_⟩
      obtain ⟨ok, t, hcall⟩ := hsetters setter hsetter ((p.stateOf d'.id).workingValue g.id) p.runtime
      have hcalled : NamespaceDecl.callSetter setter ((p.stateOf d'.id).workingValue g.id) (p.stateOf d'.id, p.runtime)
          = (.value ok, (p.stateOf d'.id, t)) := by
        show Prog.zoom _ _ _ _ = _
        unfold Prog.zoom
        simp only [hcall]
      have hcaught : Prog.catching
          (do let _ ← NamespaceDecl.callSetter setter ((p.stateOf d'.id).workingValue g.id); pure ())
          (fun _ => pure ()) (p.stateOf d'.id, p.runtime) = (.value (), (p.stateOf d'.id, t)) := by
        unfold Prog.catching
        rw [Prog.bind_value hcalled]
        rfl
      rw [hrun, onNamespace_run hcaught, withState_runtime, hcall]
    · refine .inl ⟨hrun, ?_⟩
      rintro _ - hreadOnly hwriteOnly hnone
      by_contra heq
      exact hskip (by simp [hreadOnly, hwriteOnly, hnone, heq])

/-- One field is pushed, seen through the getter of a field that no other setter touches. -/
theorem applyLoadedField_round {v : Value} {outcome : Value → Value} (hout : f.Outcome v outcome)
    (hf : f ∈ d.fields) (hg : g ∈ d'.fields)
    (hsetters : ∀ setter, g.setter = some setter → ∀ w, Prog.Succeeds (setter w))
    (hothers : ¬ (d' = d ∧ g.id = f.id) → ∀ setter, g.setter = some setter → ∀ w, f.Unmoved (setter w))
    (hvalue : (p.stateOf d.id).workingValue f.id = v) {getter : R → Value} (hgetter : f.getter = some getter)
    (hq : Pushing p d getter outcome q) :
    ∃ t, applyLoadedField d' g q = (.value (), t) ∧ Pushing p d getter outcome t
      ∧ (getter q.runtime = outcome (getter p.runtime) → getter t.runtime = outcome (getter p.runtime))
      ∧ (d' = d → g.id = f.id → getter t.runtime = outcome (getter p.runtime)) := by
  obtain ⟨setter, getter', hsetter, hgetter', hcalls, hkept⟩ := hout.calls
  obtain rfl : getter' = getter := Option.some.inj (hgetter'.symm.trans hgetter)
  -- once it has been set, setting it again changes nothing
  have hreached : outcome (getter' q.runtime) = outcome (getter' p.runtime) := by
    rcases hq.shown with hshown | hshown
    · rw [hshown]
    · rw [hshown, hout.twice]
  by_cases hself : d' = d ∧ g.id = f.id
  · obtain ⟨rfl, hid⟩ := hself
    obtain rfl : g = f := by
      have hfind := NamespaceDecl.findField_of_mem hg
      rw [hid] at hfind
      exact Option.some.inj (hfind.symm.trans (NamespaceDecl.findField_of_mem hf))
    have hvalue' : (q.stateOf d'.id).workingValue g.id = v := by rw [hq.state, hvalue]
    rcases applyLoadedField_run hsetters d' q with ⟨hrun, hskip⟩ | ⟨setter', hsetter', hrun⟩
    · have heq := hskip setter hsetter hout.writable hout.stateful (by rw [hvalue']; exact hout.present)
      have hseed : g.seed q.runtime = getter' q.runtime := by unfold Field.seed; rw [hgetter]
      rw [hvalue', hseed] at heq
      have hthere := (hkept q.runtime heq).symm.trans hreached
      exact ⟨q, hrun, hq, id, fun _ _ => hthere⟩
    · obtain rfl : setter' = setter := Option.some.inj (hsetter'.symm.trans hsetter)
      rw [hvalue'] at hrun
      have hthere := (hcalls q.runtime).trans hreached
      exact ⟨_, hrun, ⟨hq.registration, hq.state, .inr hthere⟩, fun _ => hthere, fun _ _ => hthere⟩
  · rcases applyLoadedField_run hsetters d' q with ⟨hrun, -⟩ | ⟨setter', hsetter', hrun⟩
    · exact ⟨q, hrun, hq, id, fun heq hid => absurd ⟨heq, hid⟩ hself⟩
    · have hshown := hothers hself setter' hsetter' ((q.stateOf d'.id).workingValue g.id) q.runtime getter' hgetter
      exact ⟨_, hrun, ⟨hq.registration, hq.state, by rw [hshown]; exact hq.shown⟩, fun h => hshown.trans h,
        fun heq hid => absurd ⟨heq, hid⟩ hself⟩

/-- The boot pushes the working value of a field through its setter; the other setters do not undo it. -/
theorem applied_at_boot {v : Value} {outcome : Value → Value} (hout : f.Outcome v outcome)
    (hsetters : ∀ d' ∈ p.decls, ∀ g ∈ d'.fields, ∀ setter, g.setter = some setter → ∀ w, Prog.Succeeds (setter w))
    (hothers : ∀ d' ∈ p.decls, ∀ g ∈ d'.fields, ¬ (d' = d ∧ g.id = f.id) → ∀ setter, g.setter = some setter →
      ∀ w, f.Unmoved (setter w))
    (hd : d ∈ p.decls) (hf : f ∈ d.fields) (hvalue : (p.stateOf d.id).workingValue f.id = v) {getter : R → Value}
    (hgetter : f.getter = some getter) :
    ∃ q, applyLoadedToRuntime p = (.value (), q) ∧ getter q.runtime = outcome (getter p.runtime) := by
  let Reached (q : Provisioner R F) : Prop := getter q.runtime = outcome (getter p.runtime)
  have hfield : ∀ d' ∈ p.decls, ∀ g ∈ d'.fields, ∀ s, Pushing p d getter outcome s →
      ∃ t, applyLoadedField d' g s = (.value (), t) ∧ Pushing p d getter outcome t ∧ (Reached s → Reached t)
        ∧ (d' = d → g.id = f.id → Reached t) := fun d' hd' g hg s hs =>
    applyLoadedField_round hout hf hg (hsetters d' hd' g hg) (hothers d' hd' g hg) hvalue hgetter hs
  have hnamespace : ∀ d' ∈ p.decls, ∀ s, Pushing p d getter outcome s →
      ∃ t, Prog.forEach d'.fields (applyLoadedField d') s = (.value (), t) ∧ Pushing p d getter outcome t
        ∧ (Reached s → Reached t) ∧ (d' = d → Reached t) := by
    intro d' hd' s hs
    obtain ⟨t, hrun, ht, hkept, hreached⟩ := Prog.forEach_reaches (Q := Reached) (fun g hg s hs => by
      obtain ⟨t, hrun, ht, hkept, -⟩ := hfield d' hd' g hg s hs
      exact ⟨t, hrun, ht, hkept⟩) hs
    refine ⟨t, hrun, ht, hkept, ?_⟩
    rintro rfl
    refine hreached f hf fun s hs => ?_
    obtain ⟨t, hrun, -, -, hself⟩ := hfield d' hd' f hf s hs
    rw [hrun]
    exact hself rfl rfl
  have hstart : Pushing p d getter outcome p := ⟨SameRegistration.refl p, rfl, .inl rfl⟩
  obtain ⟨q, hrun, -, -, hreached⟩ := Prog.forEach_reaches (Q := Reached) (fun d' hd' s hs => by
    obtain ⟨t, hrun, ht, hkept, -⟩ := hnamespace d' hd' s hs
    exact ⟨t, hrun, ht, hkept⟩) hstart
  refine ⟨q, ?_, hreached d hd fun s hs => ?_⟩
  · unfold applyLoadedToRuntime
    rw [Prog.get_bind_run]
    exact hrun
  · obtain ⟨t, hrun, -, -, hself⟩ := hnamespace d hd s hs
    rw [hrun]
    exact hself rfl

end Boot

end MicroReticulum.Provisioning
