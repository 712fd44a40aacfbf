import MicroReticulum.Provisioning.Handlers
import MicroReticulum.Library.Relational

/-!
# Two ways to commit

`op_commit` and `Provisioner::commit` each have their own copy of the steps that commit a namespace: the
hook, the drafts, the file. `commitDrafts` is what the copies have in common, and the two functions are
compared through it. They differ in two places. The flag that a reboot is needed is raised once at the end
on the wire and after every namespace in process, which shows when a setter throws in between. And the
answer of the storage is returned in process, while on the wire it is dropped.

`commits_agree_iff` says when the two cannot be told apart. The runtime is arbitrary, so that the setter
calls in their order are part of what is compared.

The response of the wire is compared only as far as it is an error or not, since the other
way makes none.
-/

namespace MicroReticulum.Provisioning

open MicroReticulum Library Provisioner

variable {R F : Type}

/-! ## The common steps -/

/-- What the commit of a namespace came to. -/
structure Committed (R : Type) where
  decl : NamespaceDecl R
  hadDraft : Bool
  outcomes : List CommitOutcome
  saved : Bool

/-- A field was applied that needs a reboot. -/
def Committed.reboot (c : Committed R) : Bool := c.outcomes.contains .appliedReboot

/-- The fields of a namespace that have drafts. -/
def draftIds (d : NamespaceDecl R) (s : NamespaceState) : List FieldId :=
  (d.fields.filter fun f => s.hasDraft f.id).map Field.id

/-- The hook, and the drafts that are there after it. -/
def applyDrafts (d : NamespaceDecl R) : Prog String (Provisioner R F) (List CommitOutcome) := do
  runHook d
  let p ← Prog.get
  Prog.mapEach (draftIds d (p.stateOf d.id)) fun id => onNamespace d (d.commitOne id)

/-- The drafts and the file. -/
def commitDrafts (env : Env F) (d : NamespaceDecl R) :
    Prog String (Provisioner R F) (Committed R) := do
  let before ← Prog.get
  let outcomes ← applyDrafts d
  let saved ← saveNamespace env d
  pure { decl := d, hadDraft := (before.stateOf d.id).hasAnyDraft, outcomes, saved }

/-- What the commit on the wire makes of a namespace. -/
def countCommitted (report : Bool → Bool) (progress : CommitProgress R) (c : Committed R) :
    CommitProgress R :=
  let progress := c.outcomes.foldl countOutcome progress
  if report c.hadDraft then { progress with touched := progress.touched ++ [c.decl] } else progress

/-- `do_one` of `op_commit` counts in what the common steps came to. -/
theorem commitNamespace_eq (env : Env F) (report : Bool → Bool) (d : NamespaceDecl R)
    (progress : CommitProgress R) :
    commitNamespace env report d progress
      = commitDrafts env d >>= fun c => pure (countCommitted report progress c) := by
  funext p
  unfold commitNamespace commitDrafts applyDrafts
  rw [Prog.get_bind_run, Prog.bind_assoc_run, Prog.get_bind_run, Prog.bind_assoc_run,
    Prog.bind_assoc_run]
  refine Prog.bind_congr_run _ (fun _ t => ?_) p
  rw [Prog.get_bind_run, Prog.bind_assoc_run, Prog.get_bind_run]
  show (Prog.fold (draftIds d (t.stateOf d.id)) progress _ >>= _) t = _
  rw [Prog.bind_run, Prog.fold_eq_mapEach, ← Prog.bind_run, Prog.bind_assoc_run]
  refine Prog.bind_congr_run _ (fun outcomes u => ?_) t
  rw [Prog.pure_bind_run, Prog.bind_assoc_run]
  rfl

/-- `do_one` of `Provisioner::commit` raises the flag and answers. -/
theorem commitInProcess_eq (env : Env F) (d : NamespaceDecl R) :
    commitInProcess env d
      = commitDrafts env d >>= fun c =>
          Prog.when (c.reboot = true) (setRebootFlag true) >>= fun _ => pure c.saved := by
  funext p
  unfold commitInProcess commitDrafts applyDrafts
  rw [Prog.bind_assoc_run, Prog.get_bind_run, Prog.bind_assoc_run, Prog.bind_assoc_run]
  refine Prog.bind_congr_run _ (fun _ t => ?_) p
  rw [Prog.get_bind_run, Prog.bind_assoc_run, Prog.get_bind_run]
  show (Prog.fold (draftIds d (t.stateOf d.id)) false _ >>= _) t = _
  rw [Prog.bind_run, Prog.fold_eq_mapEach, ← Prog.bind_run, Prog.bind_assoc_run]
  refine Prog.bind_congr_run _ (fun outcomes u => ?_) t
  have hany : ∀ b, outcomes.foldl (fun anyReboot outcome =>
      anyReboot || outcome = CommitOutcome.appliedReboot) b
        = (b || outcomes.contains .appliedReboot) := by
    induction outcomes with
    | nil => intro b; simp
    | cons o outcomes ih => intro b; simp [ih, Bool.or_assoc, eq_comm]
  rw [Prog.pure_bind_run, Prog.bind_assoc_run, hany, Bool.false_or]
  rfl

/-! ## The flag -/

/-- The provisioner with another flag and another callback. -/
def withFlag (b : Bool) (callback : Option (Prog String R Unit)) (p : Provisioner R F) :
    Provisioner R F :=
  { p with needsReboot := b, onRebootRequired := callback }

/-- Two provisioners that differ in the flag and the callback. -/
def SameButFlag (b : Bool) (callback : Option (Prog String R Unit)) (p q : Provisioner R F) : Prop :=
  q = withFlag b callback p

section Flag

variable {b : Bool} {callback : Option (Prog String R Unit)}

theorem onNamespace_sameButFlag {α : Type} (d : NamespaceDecl R)
    (m : Prog String (NamespaceState × R) α) :
    Prog.Related (SameButFlag (F := F) b callback) Eq (onNamespace d m) (onNamespace d m) := by
  rintro p _ rfl
  exact ⟨Outcome.rel_refl (m (p.stateOf d.id, p.runtime)).1, rfl⟩

theorem onStorage_sameButFlag {α : Type} (default : α) (m : Prog String F α) :
    Prog.Related (SameButFlag (R := R) b callback) Eq (onStorage default m)
      (onStorage default m) := by
  rintro ⟨_, storage, _, _, _, _, _, _, _, _⟩ _ rfl
  cases storage with
  | none => exact ⟨rfl, rfl⟩
  | some fs => exact ⟨Outcome.rel_refl (m fs).1, rfl⟩

theorem applyDrafts_sameButFlag (d : NamespaceDecl R) :
    Prog.Related (SameButFlag (F := F) b callback) Eq (applyDrafts d) (applyDrafts d) := by
  have hhook : Prog.Related (SameButFlag (F := F) b callback) Eq (runHook d) (runHook d) := by
    rintro p _ rfl
    refine Prog.RelatedAt.get_bind ?_
    cases d.onCommit with
    | none => exact Prog.RelatedAt.pure rfl rfl
    | some hook => exact Prog.Related.when Iff.rfl (fun _ => onNamespace_sameButFlag d _) _ _ rfl
  refine hhook.bind fun _ _ _ => ?_
  rintro p _ rfl
  refine Prog.RelatedAt.get_bind ?_
  exact Prog.Related.mapEach _ (fun id _ => onNamespace_sameButFlag d _) _ _ rfl

theorem saveNamespace_sameButFlag (env : Env F) (d : NamespaceDecl R) :
    Prog.Related (SameButFlag b callback) Eq (saveNamespace env d) (saveNamespace env d) := by
  rintro p _ rfl
  refine Prog.RelatedAt.get_bind ?_
  show Prog.RelatedAt _ _ (if p.storage.isNone || !(p.stateOf d.id).dirtyForPersist then _ else _) p
    (if p.storage.isNone || !(p.stateOf d.id).dirtyForPersist then _ else _) _
  by_cases hclean : (p.storage.isNone || !(p.stateOf d.id).dirtyForPersist) = true
  · rw [if_pos hclean, if_pos hclean]
    exact Prog.RelatedAt.pure rfl rfl
  · rw [if_neg hclean, if_neg hclean]
    refine Prog.RelatedAt.bind (onStorage_sameButFlag _ _ _ _ rfl) fun saved _ t _ hsaved ht => ?_
    subst hsaved ht
    let mark : Prog String (Provisioner R F) Unit :=
      Prog.when (saved = true) (Prog.modify (setState d.id (p.stateOf d.id).markClean))
    have hmark : Prog.Related (SameButFlag b callback) Eq mark mark :=
      Prog.Related.when Iff.rfl fun _ => Prog.Related.modify (by rintro q _ rfl; rfl)
    exact (hmark _ _ rfl).bind fun _ _ u _ _ hu => Prog.RelatedAt.pure rfl hu

theorem commitDrafts_sameButFlag (env : Env F) (d : NamespaceDecl R) :
    Prog.Related (SameButFlag b callback) Eq (commitDrafts env d) (commitDrafts env d) := by
  rintro p _ rfl
  refine Prog.RelatedAt.get_bind ?_
  refine Prog.RelatedAt.bind (applyDrafts_sameButFlag d _ _ rfl) fun _ _ t _ ho ht => ?_
  subst ho ht
  refine Prog.RelatedAt.bind (saveNamespace_sameButFlag env d _ _ rfl) fun _ _ u _ hs hu => ?_
  subst hs
  exact Prog.RelatedAt.pure rfl hu

/-- The common steps do not look at the flag. -/
theorem commitDrafts_withFlag (env : Env F) (d : NamespaceDecl R) (p : Provisioner R F) :
    commitDrafts env d (withFlag b callback p)
      = ((commitDrafts env d p).1, withFlag b callback (commitDrafts env d p).2) := by
  obtain ⟨hout, hstate⟩ := commitDrafts_sameButFlag env d p (withFlag b callback p) rfl
  exact Prod.ext (Outcome.eq_of_rel hout).symm hstate

end Flag

/-- The common steps keep the flag and the callback. -/
theorem commitDrafts_flag (env : Env F) (d : NamespaceDecl R) (p : Provisioner R F) :
    (commitDrafts env d p).2.needsReboot = p.needsReboot
      ∧ (commitDrafts env d p).2.onRebootRequired = p.onRebootRequired := by
  have h : (commitDrafts env d p).2
      = withFlag p.needsReboot p.onRebootRequired (commitDrafts env d p).2 :=
    congrArg Prod.snd (commitDrafts_withFlag env d p)
  constructor
  · exact (congrArg Provisioner.needsReboot h).trans rfl
  · exact (congrArg Provisioner.onRebootRequired h).trans rfl

/-- A callback as the documentation has it: it shows that a reboot is needed, and leaves what the
settings work on as it is. -/
def Passive (callback : Option (Prog String R Unit)) : Prop :=
  ∀ m, callback = some m → ∀ r, m r = (.value (), r) ∨ ∃ e, m r = (.thrown e, r)

/-- The provisioner with the flag. -/
def withReboot (b : Bool) (p : Provisioner R F) : Provisioner R F := { p with needsReboot := b }

theorem callback_passive {p : Provisioner R F} {m : Option (Prog String R Unit)} (h : Passive m) :
    callback m p = (.value (), p) := by
  cases m with
  | none => rfl
  | some m =>
    unfold callback Prog.zoom Prog.catching
    rcases h m rfl p.runtime with hrun | ⟨e, hrun⟩
    · simp only [hrun]
    · simp only [hrun, Prog.pure_run]

theorem setRebootFlag_run {p : Provisioner R F} (h : Passive p.onRebootRequired) (b : Bool) :
    setRebootFlag b p = (.value (), withReboot (p.needsReboot || b) p) := by
  unfold setRebootFlag
  rw [Prog.get_bind_run]
  cases b with
  | false =>
    rw [Prog.when_of_not (by simp)]
    show (Outcome.value (), p) = _
    unfold withReboot
    rw [Bool.or_false]
  | true =>
    rw [Prog.when_of rfl, Prog.modify_bind_run, Bool.or_true]
    by_cases hflag : p.needsReboot = false
    · rw [Prog.when_of hflag, callback_passive h]
      rfl
    · rw [Prog.when_of_not hflag]
      rfl

/-! ## What a commit comes across -/

/-- The namespaces a commit comes to, each in the state it finds. -/
def stages (env : Env F) : List (NamespaceDecl R) → Provisioner R F →
    List (NamespaceDecl R × Provisioner R F)
  | [], _ => []
  | d :: ds, p =>
    (d, p) :: match commitDrafts env d p with
      | (.value _, q) => stages env ds q
      | _ => []

/-- The namespace is committed to its end: no setter throws. -/
def Finishes (env : Env F) (d : NamespaceDecl R) (p : Provisioner R F) : Prop :=
  ∃ c q, commitDrafts env d p = (.value c, q)

/-- The storage refuses the file of a namespace whose drafts have been applied. -/
def SaveRefused (env : Env F) (d : NamespaceDecl R) (p : Provisioner R F) : Prop :=
  ∃ outcomes q, applyDrafts d p = (.value outcomes, q)
    ∧ (saveNamespace env d q).1 = .value false

/-- A draft that takes effect with a reboot. -/
def Field.waitsForReboot (f : Field R) (v : Value) : Bool :=
  !f.hasFlag ffReadOnly && f.validate v && !f.hasFlag ffWriteOnly
    && !(f.hasFlag ffLiveApply && f.setter.isSome) && f.hasFlag ffRebootRequired

/-- One of the drafts that the hook leaves takes effect with a reboot. -/
def RebootPending (d : NamespaceDecl R) (p : Provisioner R F) : Prop :=
  ∃ f ∈ d.fields, ∃ v, ((runHook d p).2.stateOf d.id).draft.lookup f.id = some v
    ∧ f.waitsForReboot v = true

/-- A setter throws before the flag is up, and behind a namespace that raises it. -/
def BrokenOff (env : Env F) (ds : List (NamespaceDecl R)) (p : Provisioner R F) : Prop :=
  p.needsReboot = false
    ∧ (∃ x ∈ stages env ds p, ¬ Finishes env x.1 x.2)
    ∧ ∃ x ∈ stages env ds p, Finishes env x.1 x.2 ∧ RebootPending x.1 x.2

/-- The setter decides between two outcomes, neither of which asks for a reboot. -/
theorem callSetter_not_appliedReboot (setter : Value → Prog String R Bool) (v : Value) :
    Prog.Returns (· ≠ CommitOutcome.appliedReboot)
      (NamespaceDecl.callSetter setter v >>= fun ok =>
        pure (if ok then CommitOutcome.appliedLive else .setterFailed)) := by
  refine Prog.Returns.bind _ fun ok => Prog.Returns.pure ?_
  cases ok <;> exact fun h => by cases h

/-- A draft that is applied at once becomes the working value and is handed to the setter. -/
theorem applyDraft_live {f : Field R} {v : Value} {setter : Value → Prog String R Bool}
    (hwriteOnly : f.hasFlag ffWriteOnly = false) (hlive : f.hasFlag ffLiveApply = true)
    (hsetter : f.setter = some setter) :
    NamespaceDecl.applyDraft f v = (do
      NamespaceDecl.modifyState (.putWorking f.id v)
      let ok ← NamespaceDecl.callSetter setter v
      pure (if ok then CommitOutcome.appliedLive else .setterFailed)) := by
  unfold NamespaceDecl.applyDraft
  simp only [hwriteOnly, hlive, hsetter, Bool.false_eq_true, if_false]

/-- Any other draft that is kept becomes the working value. -/
theorem applyDraft_working {f : Field R} {v : Value} (hwriteOnly : f.hasFlag ffWriteOnly = false)
    (hlive : (f.hasFlag ffLiveApply && f.setter.isSome) = false) :
    NamespaceDecl.applyDraft f v = (do
      NamespaceDecl.modifyState (.putWorking f.id v)
      pure (if f.hasFlag ffRebootRequired then CommitOutcome.appliedReboot else .appliedLive)) := by
  unfold NamespaceDecl.applyDraft
  cases hflag : f.hasFlag ffLiveApply <;> cases hsetter : f.setter <;>
    simp_all only [Bool.false_eq_true, if_false, Bool.true_and, Option.isSome_some, reduceCtorEq]

theorem applyDraft_appliedReboot {f : Field R} {v : Value} {x y : NamespaceState × R}
    {o : CommitOutcome} (h : NamespaceDecl.applyDraft f v x = (.value o, y)) :
    o = .appliedReboot ↔ f.hasFlag ffWriteOnly = false
      ∧ (f.hasFlag ffLiveApply && f.setter.isSome) = false ∧ f.hasFlag ffRebootRequired = true := by
  cases hwriteOnly : f.hasFlag ffWriteOnly with
  | true =>
    unfold NamespaceDecl.applyDraft at h
    simp only [hwriteOnly, if_true] at h
    have hne : o ≠ .appliedReboot := by
      cases hsetter : f.setter with
      | none =>
        rw [hsetter] at h
        cases h
        exact fun h => by cases h
      | some setter =>
        rw [hsetter] at h
        exact callSetter_not_appliedReboot setter v _ _ _ h
    exact ⟨fun heq => absurd heq hne, fun hno => by cases hno.1⟩
  | false =>
    cases hlive : f.hasFlag ffLiveApply && f.setter.isSome with
    | true =>
      obtain ⟨hflag, hsome⟩ := Bool.and_eq_true_iff.mp hlive
      obtain ⟨setter, hsetter⟩ := Option.isSome_iff_exists.mp hsome
      rw [applyDraft_live hwriteOnly hflag hsetter] at h
      have hne := callSetter_not_appliedReboot setter v _ _ _ h
      exact ⟨fun heq => absurd heq hne, fun hno => by cases hno.2.1⟩
    | false =>
      rw [applyDraft_working hwriteOnly hlive] at h
      cases h
      cases f.hasFlag ffRebootRequired <;> simp

/-- What the commit of one draft comes to. -/
theorem commitOne_appliedReboot {d : NamespaceDecl R} {f : Field R} (hf : f ∈ d.fields)
    {x y : NamespaceState × R} {o : CommitOutcome} (h : d.commitOne f.id x = (.value o, y)) :
    o = .appliedReboot ↔ ∃ v, x.1.draft.lookup f.id = some v ∧ f.waitsForReboot v = true := by
  unfold NamespaceDecl.commitOne at h
  rw [NamespaceDecl.findField_of_mem hf] at h
  simp only [Prog.get_bind_run] at h
  cases hdraft : x.1.draft.lookup f.id with
  | none =>
    rw [hdraft] at h
    cases h
    simp
  | some v =>
    simp only [hdraft] at h
    unfold Field.waitsForReboot
    cases hreadOnly : f.hasFlag ffReadOnly with
    | true =>
      simp only [hreadOnly, if_true] at h
      cases h
      simp
    | false =>
      cases hvalid : f.validate v with
      | false =>
        simp only [hreadOnly, hvalid, Bool.false_eq_true, if_false, Bool.not_false, if_true] at h
        cases h
        simp [hvalid]
      | true =>
        simp only [hreadOnly, hvalid, Bool.false_eq_true, if_false, Bool.not_true] at h
        replace h : NamespaceDecl.applyDraft f v (x.1.eraseDraft f.id, x.2) = (.value o, y) := h
        rw [applyDraft_appliedReboot h]
        generalize (f.hasFlag ffLiveApply && f.setter.isSome) = live
        simp [hvalid, and_assoc]

/-- The commit of a draft leaves the other drafts. -/
theorem commitOne_draft (d : NamespaceDecl R) (id : FieldId) :
    Prog.Keeps (fun x y : NamespaceState × R =>
      ∀ other, other ≠ id → y.1.draft.lookup other = x.1.draft.lookup other) (d.commitOne id) := by
  have hrefl : ∀ x : NamespaceState × R, ∀ other, other ≠ id →
      x.1.draft.lookup other = x.1.draft.lookup other := fun _ _ _ => rfl
  have htrans : ∀ x y z : NamespaceState × R,
      (∀ other, other ≠ id → y.1.draft.lookup other = x.1.draft.lookup other) →
      (∀ other, other ≠ id → z.1.draft.lookup other = y.1.draft.lookup other) →
      ∀ other, other ≠ id → z.1.draft.lookup other = x.1.draft.lookup other :=
    fun x y z h h' other hne => (h' other hne).trans (h other hne)
  have herase : Prog.Keeps (fun x y : NamespaceState × R =>
      ∀ other, other ≠ id → y.1.draft.lookup other = x.1.draft.lookup other)
      (NamespaceDecl.modifyState (.eraseDraft id)) := by
    intro x other hne
    show (x.1.eraseDraft id).draft.lookup other = _
    rw [NamespaceState.lookup_eraseDraft, if_neg hne]
  have hsetter : ∀ setter v, Prog.Keeps (fun x y : NamespaceState × R =>
      ∀ other, other ≠ id → y.1.draft.lookup other = x.1.draft.lookup other)
      (NamespaceDecl.callSetter (R := R) setter v >>= fun ok =>
        pure (if ok then CommitOutcome.appliedLive else .setterFailed)) := fun setter v =>
    Prog.Keeps.bind htrans (fun x other _ => rfl) fun _ => Prog.Keeps.pure hrefl _
  unfold NamespaceDecl.commitOne
  split
  case h_1 => exact Prog.Keeps.pure hrefl _
  case h_2 f _ =>
    refine Prog.Keeps.bind htrans (Prog.Keeps.get hrefl) fun x => ?_
    split
    case h_1 => exact Prog.Keeps.pure hrefl _
    case h_2 v _ =>
      refine Prog.Keeps.ite (Prog.Keeps.bind htrans herase fun _ => Prog.Keeps.pure hrefl _) ?_
      refine Prog.Keeps.ite (Prog.Keeps.pure hrefl _) ?_
      refine Prog.Keeps.bind htrans herase fun _ => ?_
      unfold NamespaceDecl.applyDraft
      refine Prog.Keeps.ite ?_ (Prog.Keeps.bind htrans (fun x other _ => rfl) fun _ => ?_)
      all_goals
        split
        first
        | exact Prog.Keeps.pure hrefl _
        | exact hsetter _ _
      all_goals first
        | exact Prog.Keeps.pure hrefl _
        | exact hsetter _ _

/-- A program on a registered namespace leaves the state it comes to. -/
theorem onNamespace_stateOf {α : Type} {d : NamespaceDecl R} {p : Provisioner R F} (hd : d ∈ p.decls)
    (m : Prog String (NamespaceState × R) α) :
    (onNamespace d m p).2.stateOf d.id = (m (p.stateOf d.id, p.runtime)).2.1 := by
  show (p.setState d.id (m (p.stateOf d.id, p.runtime)).2.1).stateOf d.id = _
  rw [stateOf_setState hd, if_pos rfl]

/-- Some field that needs a reboot is among those whose drafts are committed. -/
theorem mapEach_commitOne_reboot {d : NamespaceDecl R} {fs : List (Field R)}
    (hfs : ∀ f ∈ fs, f ∈ d.fields) (hnodup : (fs.map Field.id).Nodup) {p q : Provisioner R F}
    (hd : d ∈ p.decls) {outcomes : List CommitOutcome}
    (h : Prog.mapEach (fs.map Field.id) (fun id => onNamespace d (d.commitOne id)) p
      = (.value outcomes, q)) :
    outcomes.contains .appliedReboot = true
      ↔ ∃ f ∈ fs, ∃ v, (p.stateOf d.id).draft.lookup f.id = some v ∧ f.waitsForReboot v = true := by
  induction fs generalizing p outcomes with
  | nil =>
    cases h
    simp
  | cons f fs ih =>
    rw [List.map_cons, List.nodup_cons] at hnodup
    have hdecls : d ∈ (onNamespace d (d.commitOne f.id) p).2.decls :=
      (onNamespace_decls d (d.commitOne f.id) p).symm ▸ hd
    have hstate := onNamespace_stateOf hd (d.commitOne f.id)
    have hframe := commitOne_draft d f.id (p.stateOf d.id, p.runtime)
    rw [List.map_cons, Prog.mapEach_cons_run] at h
    rcases hone : onNamespace d (d.commitOne f.id) p with ⟨o | _ | _ | _, t⟩ <;> rw [hone] at h
    case value =>
      rw [hone] at hdecls hstate
      dsimp only at h
      rcases hrest : Prog.mapEach (fs.map Field.id) (fun id => onNamespace d (d.commitOne id)) t
        with ⟨os | _ | _ | _, u⟩ <;> rw [hrest] at h <;> cases h
      have hvalue : (d.commitOne f.id (p.stateOf d.id, p.runtime)).1 = .value o :=
        congrArg Prod.fst hone
      have hfirst := commitOne_appliedReboot (hfs f List.mem_cons_self) (Prod.ext hvalue rfl)
      have hothers := ih (fun g hg => hfs g (List.mem_cons_of_mem f hg)) hnodup.2 hdecls hrest
      have hsame : ∀ g ∈ fs, (t.stateOf d.id).draft.lookup g.id
          = (p.stateOf d.id).draft.lookup g.id := by
        intro g hg
        rw [hstate]
        exact hframe g.id fun heq => hnodup.1 (heq ▸ List.mem_map_of_mem hg)
      rw [List.contains_cons, Bool.or_eq_true, beq_iff_eq, eq_comm, hfirst, hothers]
      simp only [List.mem_cons, exists_eq_or_imp]
      refine or_congr_right (exists_congr fun g => and_congr_right fun hg => ?_)
      rw [hsame g hg]
    all_goals cases h

theorem commitDrafts_decls (env : Env F) (d : NamespaceDecl R) :
    Prog.Keeps SameDecls (commitDrafts env d) := by
  refine Prog.Keeps.bind SameDecls.trans (Prog.Keeps.get SameDecls.refl) fun before => ?_
  refine Prog.Keeps.bind SameDecls.trans ?_ fun outcomes => ?_
  · refine Prog.Keeps.bind SameDecls.trans (runHook_decls d) fun _ => ?_
    refine Prog.Keeps.bind SameDecls.trans (Prog.Keeps.get SameDecls.refl) fun p => ?_
    exact Prog.Keeps.mapEach SameDecls.refl SameDecls.trans _ fun id _ => onNamespace_decls d _
  · exact Prog.Keeps.bind SameDecls.trans (saveNamespace_decls env d) fun saved =>
      Prog.Keeps.pure SameDecls.refl _

theorem commitInProcess_decls (env : Env F) (d : NamespaceDecl R) :
    Prog.Keeps SameDecls (commitInProcess env d) := by
  rw [commitInProcess_eq]
  refine Prog.Keeps.bind SameDecls.trans (commitDrafts_decls env d) fun c => ?_
  refine Prog.Keeps.bind SameDecls.trans ?_ fun _ => Prog.Keeps.pure SameDecls.refl _
  exact Prog.Keeps.when SameDecls.refl fun _ => setRebootFlag_decls true

/-- The flag that a namespace raises is known from its drafts. -/
theorem commitDrafts_reboot {env : Env F} {d : NamespaceDecl R} {p q : Provisioner R F}
    (hd : d ∈ p.decls) {c : Committed R} (h : commitDrafts env d p = (.value c, q)) :
    c.reboot = true ↔ RebootPending d p := by
  unfold commitDrafts at h
  rw [Prog.get_bind_run, Prog.bind_run] at h
  rcases happly : applyDrafts d p with ⟨outcomes | _ | _ | _, t⟩ <;> rw [happly] at h
  case value =>
    simp only [Prog.bind_pure_run] at h
    have houtcomes : c.outcomes = outcomes := by
      rcases hsave : saveNamespace env d t with ⟨saved | _ | _ | _, u⟩ <;> rw [hsave] at h <;>
        cases h
      rfl
    unfold Committed.reboot RebootPending
    rw [houtcomes]
    unfold applyDrafts at happly
    have hdecls := runHook_decls (F := F) d p
    rw [Prog.bind_run] at happly
    rcases hhook : runHook d p with ⟨_ | _ | _ | _, u⟩ <;> rw [hhook] at happly hdecls
    case value =>
      simp only [Prog.get_bind_run] at happly
      have hmem : d ∈ u.decls := (show u.decls = p.decls from hdecls).symm ▸ hd
      rw [mapEach_commitOne_reboot (fun f hf => (List.mem_filter.mp hf).1)
        (d.distinct.sublist (List.filter_sublist.map Field.id)) hmem happly]
      refine exists_congr fun f => ?_
      rw [List.mem_filter, and_assoc]
      refine and_congr_right fun _ => ?_
      constructor
      · exact fun hboth => hboth.2
      · rintro ⟨v, hv, hwaits⟩
        exact ⟨(NamespaceState.hasDraft_iff _ _).mpr ⟨v, hv⟩, v, hv, hwaits⟩
    all_goals cases happly
  all_goals cases h

/-! ## Both runs -/

/-- A namespace that was committed to its end was one with a field that needs a reboot. -/
def rebootsDone (env : Env F) : List (NamespaceDecl R) → Provisioner R F → Bool
  | [], _ => false
  | d :: ds, p =>
    match commitDrafts env d p with
    | (.value c, q) => c.reboot || rebootsDone env ds q
    | _ => false

theorem rebootsDone_of_value (env : Env F) {ds : List (NamespaceDecl R)} {p q : Provisioner R F}
    {cs : List (Committed R)} (h : Prog.mapEach ds (commitDrafts env) p = (.value cs, q)) :
    rebootsDone env ds p = cs.any Committed.reboot := by
  induction ds generalizing p cs with
  | nil => cases h; rfl
  | cons d ds ih =>
    unfold rebootsDone
    rw [Prog.mapEach_cons_run] at h
    rcases hd : commitDrafts env d p with ⟨c | _ | _ | _, t⟩ <;> rw [hd] at h
    case value =>
      dsimp only at h
      rcases hrest : Prog.mapEach ds (commitDrafts env) t with ⟨cs' | _ | _ | _, u⟩ <;>
        rw [hrest] at h <;> cases h
      show (c.reboot || rebootsDone env ds t) = _
      rw [List.any_cons, ih hrest]
    all_goals cases h

/-- The common steps for every namespace keep the flag and the callback. -/
theorem mapEach_commitDrafts_flag (env : Env F) (ds : List (NamespaceDecl R))
    (p : Provisioner R F) :
    (Prog.mapEach ds (commitDrafts env) p).2.needsReboot = p.needsReboot
      ∧ (Prog.mapEach ds (commitDrafts env) p).2.onRebootRequired = p.onRebootRequired := by
  induction ds generalizing p with
  | nil => exact ⟨rfl, rfl⟩
  | cons d ds ih =>
    have hflag := commitDrafts_flag env d p
    rw [Prog.mapEach_cons_run]
    rcases hd : commitDrafts env d p with ⟨c | _ | _ | _, t⟩ <;> rw [hd] at hflag
    case value =>
      exact ⟨(ih t).1.trans hflag.1, (ih t).2.trans hflag.2⟩
    all_goals exact hflag

/-- The commit of a namespace raises the flag. -/
def raises : Outcome String (Committed R) → Bool
  | .value c => c.reboot
  | _ => false

/-- One namespace in process: the common steps, and the flag as it has come to. -/
theorem commitInProcess_run (env : Env F) (d : NamespaceDecl R) {p : Provisioner R F}
    (h : Passive p.onRebootRequired) (b : Bool) :
    commitInProcess env d (withReboot b p)
      = ((commitDrafts env d p).1.map Committed.saved,
          withReboot (b || raises (commitDrafts env d p).1) (commitDrafts env d p).2) := by
  have hcallback := (commitDrafts_flag env d p).2
  have hcommit : commitDrafts env d (withReboot b p)
      = ((commitDrafts env d p).1, withReboot b (commitDrafts env d p).2) := by
    have hframe : commitDrafts env d (withFlag b p.onRebootRequired p) = _ :=
      commitDrafts_withFlag env d p
    refine Eq.trans (show _ = commitDrafts env d (withFlag b p.onRebootRequired p) from rfl)
      (hframe.trans ?_)
    unfold withFlag withReboot
    rw [← hcallback]
  have hpassive : Passive (commitDrafts env d p).2.onRebootRequired := hcallback.symm ▸ h
  rw [commitInProcess_eq, Prog.bind_run, hcommit]
  rcases hd : commitDrafts env d p with ⟨c | _ | _ | _, t⟩ <;> rw [hd] at hpassive
  case value =>
    have hflag : Prog.when (c.reboot = true) (setRebootFlag true) (withReboot b t)
        = (.value (), withReboot (b || c.reboot) t) := by
      cases hreboot : c.reboot with
      | false =>
        rw [Prog.when_of_not (by simp), Bool.or_false]
        rfl
      | true =>
        rw [Prog.when_of rfl]
        exact setRebootFlag_run (show Passive (withReboot b t).onRebootRequired from hpassive) true
    dsimp only
    rw [Prog.bind_value hflag]
    rfl
  all_goals
    simp only [Outcome.map, raises, Bool.or_false]

/-- The run in process. -/
theorem inProcess_run (env : Env F) (ds : List (NamespaceDecl R)) {p : Provisioner R F}
    (h : Passive p.onRebootRequired) (b : Bool) :
    Prog.mapEach ds (commitInProcess env) (withReboot b p)
      = ((Prog.mapEach ds (commitDrafts env) p).1.map (List.map Committed.saved),
          withReboot (b || rebootsDone env ds p) (Prog.mapEach ds (commitDrafts env) p).2) := by
  induction ds generalizing p b with
  | nil =>
    unfold rebootsDone
    rw [Bool.or_false]
    rfl
  | cons d ds ih =>
    have hpassive : Passive (commitDrafts env d p).2.onRebootRequired :=
      (commitDrafts_flag env d p).2.symm ▸ h
    unfold rebootsDone
    rw [Prog.mapEach_cons_run, Prog.mapEach_cons_run, commitInProcess_run env d h]
    rcases hd : commitDrafts env d p with ⟨c | _ | _ | _, t⟩ <;> rw [hd] at hpassive
    case value =>
      simp only [Outcome.map, raises]
      rw [ih hpassive, Bool.or_assoc]
      rcases Prog.mapEach ds (commitDrafts env) t with ⟨cs | _ | _ | _, u⟩ <;> rfl
    all_goals
      simp only [Outcome.map, raises, Bool.or_false]

/-- A commit on the wire needs a reboot as soon as one of its namespaces does. -/
theorem foldl_countCommitted_anyReboot (report : Bool → Bool) (cs : List (Committed R))
    (progress : CommitProgress R) :
    (cs.foldl (countCommitted report) progress).anyReboot
      = (progress.anyReboot || cs.any Committed.reboot) := by
  have hcount : ∀ (outcomes : List CommitOutcome) (progress : CommitProgress R),
      (outcomes.foldl countOutcome progress).anyReboot
        = (progress.anyReboot || outcomes.contains .appliedReboot) := by
    intro outcomes
    induction outcomes with
    | nil => intro progress; simp
    | cons x outcomes ih =>
      intro progress
      rw [List.foldl_cons, ih]
      cases x <;> simp [countOutcome]
  induction cs generalizing progress with
  | nil => simp
  | cons c cs ih =>
    have hone : (countCommitted report progress c).anyReboot
        = (progress.anyReboot || c.reboot) := by
      unfold countCommitted
      dsimp only
      split <;> exact hcount c.outcomes progress
    rw [List.foldl_cons, ih, hone, List.any_cons, Bool.or_assoc]

/-- The run on the wire: the common steps, and the flag once they are done. -/
theorem opCommit_state (env : Env F) (seq : UInt64) (payload : Option Cursor) {p : Provisioner R F}
    (h : Passive p.onRebootRequired) {o : Options}
    (ho : readOptions { namespaceFilter := true, includeState := true } payload = o)
    {ds : List (NamespaceDecl R)} (hds : named p o.hasFilter o.filter = ds) :
    (opCommit env seq payload p).2
      = match Prog.mapEach ds (commitDrafts env) p with
        | (.value cs, q) => withReboot (p.needsReboot || cs.any Committed.reboot) q
        | (_, q) => q := by
  have hflag := mapEach_commitDrafts_flag env ds p
  unfold opCommit
  simp only [ho, commitNamespace_eq]
  rw [Prog.get_bind_run, hds, Prog.bind_run, Prog.fold_eq_mapEach, Prog.bind_pure_run]
  rcases hrun : Prog.mapEach ds (commitDrafts env) p with ⟨cs | _ | _ | _, q⟩ <;> rw [hrun] at hflag
  case value =>
    have hq : Passive q.onRebootRequired := hflag.2.symm ▸ h
    simp only [Outcome.map]
    rw [Prog.bind_value (setRebootFlag_run hq _), foldl_countCommitted_anyReboot, hflag.1]
    rfl
  all_goals rfl

/-! ## Agreement -/

/-- The commit of all namespaces ends with a value exactly if each of them does. -/
theorem mapEach_commitDrafts_value_iff (env : Env F) (ds : List (NamespaceDecl R))
    (p : Provisioner R F) :
    (∃ cs q, Prog.mapEach ds (commitDrafts env) p = (.value cs, q))
      ↔ ∀ x ∈ stages env ds p, Finishes env x.1 x.2 := by
  induction ds generalizing p with
  | nil => exact ⟨fun _ _ hx => absurd hx List.not_mem_nil, fun _ => ⟨[], p, rfl⟩⟩
  | cons d ds ih =>
    unfold stages
    rw [List.forall_mem_cons, Prog.mapEach_cons_run]
    unfold Finishes
    rcases hd : commitDrafts env d p with ⟨c | _ | _ | _, t⟩
    case value =>
      have hrest := ih t
      dsimp only
      constructor
      · rintro ⟨cs, q, hrun⟩
        refine ⟨⟨c, t, rfl⟩, hrest.mp ?_⟩
        rcases hmap : Prog.mapEach ds (commitDrafts env) t with ⟨cs' | _ | _ | _, u⟩ <;>
          rw [hmap] at hrun <;> cases hrun
        exact ⟨cs', _, rfl⟩
      · rintro ⟨-, hall⟩
        obtain ⟨cs, q, hrun⟩ := hrest.mpr hall
        exact ⟨c :: cs, q, by rw [hrun]; rfl⟩
    all_goals
      dsimp only
      exact ⟨fun ⟨_, _, h⟩ => (by cases h), fun ⟨⟨_, _, h⟩, _⟩ => (by cases h)⟩

/-- The flag is raised in process exactly behind a namespace with a draft that needs a reboot. -/
theorem rebootsDone_iff (env : Env F) {ds : List (NamespaceDecl R)} {p : Provisioner R F}
    (hds : ∀ d ∈ ds, d ∈ p.decls) :
    rebootsDone env ds p = true
      ↔ ∃ x ∈ stages env ds p, Finishes env x.1 x.2 ∧ RebootPending x.1 x.2 := by
  induction ds generalizing p with
  | nil => exact ⟨fun h => (by cases h), fun ⟨_, hx, _⟩ => absurd hx List.not_mem_nil⟩
  | cons d ds ih =>
    have hdecls := commitDrafts_decls env d p
    have hd := hds d List.mem_cons_self
    unfold rebootsDone stages
    rw [List.exists_mem_cons_iff]
    unfold Finishes
    rcases hrun : commitDrafts env d p with ⟨c | _ | _ | _, t⟩ <;> rw [hrun] at hdecls
    case value =>
      have hrest : ∀ d ∈ ds, d ∈ t.decls := fun d' hd' =>
        (show t.decls = p.decls from hdecls).symm ▸ hds d' (List.mem_cons_of_mem d hd')
      dsimp only
      rw [Bool.or_eq_true, commitDrafts_reboot hd hrun, ih hrest]
      exact or_congr_left ⟨fun h => ⟨⟨c, t, rfl⟩, h⟩, fun h => h.2⟩
    all_goals
      dsimp only
      refine ⟨fun h => (by cases h), fun h => ?_⟩
      rcases h with ⟨⟨_, _, h⟩, _⟩ | ⟨_, hx, _⟩
      · cases h
      · cases hx

/-- The answers of `Provisioner::commit`, called for one namespace after the other until a setter
throws. -/
def answers (env : Env F) : List NamespaceId → Provisioner R F → List Bool
  | [], _ => []
  | id :: ids, p =>
    match commit env id p with
    | (.value ok, q) => ok :: answers env ids q
    | _ => []

/-- The response is an error. -/
def IsError : Outcome String (List Token) → Prop
  | .value response => ∃ rest, response = .arr 3 :: num Op.error.toNat :: rest
  | _ => False

/-- The commit of a registered namespace. -/
theorem commit_run (env : Env F) {d : NamespaceDecl R} {p : Provisioner R F} (hd : d ∈ p.decls)
    (hid : d.id ≠ 0) : commit env d.id p = commitInProcess env d p := by
  unfold commit
  rw [Prog.get_bind_run, if_neg hid, find_of_mem hd]

/-- One call after the other is the run in process. -/
theorem mapEach_commit (env : Env F) {ds : List (NamespaceDecl R)} {p : Provisioner R F}
    (hds : ∀ d ∈ ds, d ∈ p.decls ∧ d.id ≠ 0) :
    Prog.mapEach (ds.map NamespaceDecl.id) (commit env) p
      = Prog.mapEach ds (commitInProcess env) p := by
  induction ds generalizing p with
  | nil => rfl
  | cons d ds ih =>
    obtain ⟨hd, hid⟩ := hds d List.mem_cons_self
    have hdecls := commitInProcess_decls env d p
    rw [List.map_cons, Prog.mapEach_cons_run, Prog.mapEach_cons_run, commit_run env hd hid]
    rcases hrun : commitInProcess env d p with ⟨ok | _ | _ | _, t⟩ <;> rw [hrun] at hdecls
    case value =>
      dsimp only
      rw [ih fun d' hd' => (show t.decls = p.decls from hdecls).symm ▸
        hds d' (List.mem_cons_of_mem d hd')]

theorem saved_false_iff (env : Env F) {d : NamespaceDecl R} {p q : Provisioner R F}
    {c : Committed R} (h : commitDrafts env d p = (.value c, q)) :
    c.saved = false ↔ SaveRefused env d p := by
  unfold commitDrafts at h
  rw [Prog.get_bind_run, Prog.bind_run] at h
  unfold SaveRefused
  rcases happly : applyDrafts d p with ⟨outcomes | _ | _ | _, t⟩ <;> rw [happly] at h
  case value =>
    simp only [Prog.bind_pure_run] at h
    rcases hsave : saveNamespace env d t with ⟨saved | _ | _ | _, u⟩ <;> rw [hsave] at h <;>
      cases h
    constructor
    · rintro rfl
      exact ⟨outcomes, t, rfl, congrArg Prod.fst hsave⟩
    · rintro ⟨_, _, heq, hrefused⟩
      cases heq
      rw [hsave] at hrefused
      cases hrefused
      rfl
  all_goals cases h

/-- A commit in process answers with a failure exactly where the storage refuses a file. -/
theorem answers_false_iff (env : Env F) {ds : List (NamespaceDecl R)} {p : Provisioner R F}
    (hds : ∀ d ∈ ds, d ∈ p.decls ∧ d.id ≠ 0) (h : Passive p.onRebootRequired) (b : Bool) :
    false ∈ answers env (ds.map NamespaceDecl.id) (withReboot b p)
      ↔ ∃ x ∈ stages env ds p, SaveRefused env x.1 x.2 := by
  induction ds generalizing p b with
  | nil => exact ⟨fun h => (by cases h), fun ⟨_, hx, _⟩ => absurd hx List.not_mem_nil⟩
  | cons d ds ih =>
    obtain ⟨hd, hid⟩ := hds d List.mem_cons_self
    have hdecls := commitDrafts_decls env d p
    have hpassive : Passive (commitDrafts env d p).2.onRebootRequired :=
      (commitDrafts_flag env d p).2.symm ▸ h
    unfold stages
    rw [List.map_cons, List.exists_mem_cons_iff]
    unfold answers
    rw [commit_run env (show d ∈ (withReboot b p).decls from hd) hid, commitInProcess_run env d h]
    rcases hrun : commitDrafts env d p with ⟨c | _ | _ | _, t⟩ <;> rw [hrun] at hdecls hpassive
    case value =>
      have hrest : ∀ d ∈ ds, d ∈ t.decls ∧ d.id ≠ 0 := fun d' hd' =>
        (show t.decls = p.decls from hdecls).symm ▸ hds d' (List.mem_cons_of_mem d hd')
      simp only [Outcome.map, List.mem_cons]
      rw [ih hrest hpassive, eq_comm, saved_false_iff env hrun]
    all_goals
      have hnot : ¬ SaveRefused env d p := by
        rintro ⟨outcomes, q, happly, hrefused⟩
        unfold commitDrafts at hrun
        rw [Prog.get_bind_run, Prog.bind_value happly, Prog.bind_pure_run, hrefused] at hrun
        cases hrun
      simp only [Outcome.map]
      refine ⟨fun h => absurd h List.not_mem_nil, fun h => ?_⟩
      rcases h with h | ⟨_, hx, _⟩
      · exact absurd h hnot
      · cases hx

/-- The wire has no way to say that a file was refused. -/
theorem opCommit_not_error (env : Env F) (seq : UInt64) (payload : Option Cursor)
    (p : Provisioner R F) : ¬ IsError (opCommit env seq payload p).1 := by
  have hreturns : Prog.Returns (fun response => ¬ ∃ rest,
      response = .arr 3 :: num Op.error.toNat :: rest) (opCommit (R := R) env seq payload) := by
    unfold opCommit
    refine Prog.Returns.bind _ fun p => Prog.Returns.bind _ fun progress =>
      Prog.Returns.bind _ fun _ => Prog.Returns.bind _ fun q => Prog.Returns.pure ?_
    rintro ⟨rest, heq⟩
    have hop : num Op.commit.toNat = num Op.error.toNat := (List.cons.inj (List.cons.inj heq).2).1
    cases hop
  intro h
  rcases hrun : opCommit env seq payload p with ⟨response | _ | _ | _, q⟩ <;> rw [hrun] at h
  case value => exact hreturns p response q hrun h
  all_goals exact h

/-- The namespaces a commit request is about. -/
def commitScope (p : Provisioner R F) (payload : Option Cursor) : List (NamespaceDecl R) :=
  let o := readOptions { namespaceFilter := true, includeState := true } payload
  named p o.hasFilter o.filter

/-- The namespaces a filter names are registered. -/
theorem named_mem {p : Provisioner R F} {hasFilter : Bool} {filter : List NamespaceId}
    {d : NamespaceDecl R} (h : d ∈ named p hasFilter filter) : d ∈ p.decls := by
  unfold named at h
  split at h
  · obtain ⟨id, -, hfind⟩ := List.mem_filterMap.mp h
    exact List.mem_of_find?_eq_some hfind
  · exact h

theorem commitScope_mem {p : Provisioner R F} {payload : Option Cursor} {d : NamespaceDecl R}
    (h : d ∈ commitScope p payload) : d ∈ p.decls := named_mem h

/-- The states of the two runs differ only in the flag, and only where a setter broke them off. -/
theorem commits_state_iff (env : Env F) (seq : UInt64) (payload : Option Cursor)
    {p : Provisioner R F} (hpassive : Passive p.onRebootRequired) {ds : List (NamespaceDecl R)}
    (hds : commitScope p payload = ds) (hregistered : ∀ d ∈ ds, d ∈ p.decls ∧ d.id ≠ 0) :
    (opCommit env seq payload p).2 = (Prog.mapEach (ds.map NamespaceDecl.id) (commit env) p).2
      ↔ ¬ BrokenOff env ds p := by
  have hinProcess : Prog.mapEach ds (commitInProcess env) p = _ :=
    inProcess_run env ds hpassive p.needsReboot
  have hflag := mapEach_commitDrafts_flag env ds p
  have hvalue := mapEach_commitDrafts_value_iff env ds p
  have hdone := rebootsDone_iff env fun d hd => (hregistered d hd).1
  rw [opCommit_state env seq payload hpassive rfl hds, mapEach_commit env hregistered, hinProcess]
  by_cases hall : ∀ x ∈ stages env ds p, Finishes env x.1 x.2
  · obtain ⟨cs, q, hrun⟩ := hvalue.mpr hall
    have hnot : ¬ BrokenOff env ds p := fun ⟨_, ⟨x, hx, hx'⟩, _⟩ => hx' (hall x hx)
    rw [hrun, rebootsDone_of_value env hrun]
    exact ⟨fun _ => hnot, fun _ => rfl⟩
  · have hbroken : BrokenOff env ds p ↔ p.needsReboot = false ∧ rebootsDone env ds p = true := by
      unfold BrokenOff
      rw [hdone]
      push Not at hall
      exact and_congr_right fun _ => ⟨fun h => h.2, fun h => ⟨hall, h⟩⟩
    rw [hbroken]
    have hcut : ∀ q : Provisioner R F, q.needsReboot = p.needsReboot →
        (q = withReboot (p.needsReboot || rebootsDone env ds p) q
          ↔ ¬ (p.needsReboot = false ∧ rebootsDone env ds p = true)) := by
      intro q hq
      constructor
      · rintro heq ⟨hlow, hhigh⟩
        have hsame := congrArg Provisioner.needsReboot heq
        rw [hq, hlow, hhigh] at hsame
        cases hsame
      · intro hno
        have hsame : (p.needsReboot || rebootsDone env ds p) = q.needsReboot := by
          rw [hq]
          cases hlow : p.needsReboot with
          | true => rfl
          | false =>
            rw [Bool.false_or]
            exact Bool.eq_false_iff.mpr fun h => hno ⟨hlow, h⟩
        rw [hsame]
        rfl
    rcases hrun : Prog.mapEach ds (commitDrafts env) p with ⟨cs | _ | _ | _, q⟩ <;> rw [hrun] at hflag
    case value => exact absurd (hvalue.mp ⟨cs, q, hrun⟩) hall
    all_goals exact hcut q hflag.1

/-- The two commits leave the same state, and every failure is reported, exactly if the storage takes
every file and no setter throws behind a namespace that raises the flag. -/
theorem commits_agree_iff (env : Env F) (seq : UInt64) (payload : Option Cursor)
    (p : Provisioner R F) (hpassive : Passive p.onRebootRequired)
    (hids : ∀ d ∈ p.decls, d.id ≠ 0) :
    ((opCommit env seq payload p).2
          = (Prog.mapEach ((commitScope p payload).map NamespaceDecl.id) (commit env) p).2
        ∧ (false ∈ answers env ((commitScope p payload).map NamespaceDecl.id) p →
          IsError (opCommit env seq payload p).1))
      ↔ (∀ x ∈ stages env (commitScope p payload) p, ¬ SaveRefused env x.1 x.2)
        ∧ ¬ BrokenOff env (commitScope p payload) p := by
  have hregistered : ∀ d ∈ commitScope p payload, d ∈ p.decls ∧ d.id ≠ 0 := fun d hd =>
    ⟨commitScope_mem hd, hids d (commitScope_mem hd)⟩
  have hanswers : false ∈ answers env ((commitScope p payload).map NamespaceDecl.id) p ↔ _ :=
    answers_false_iff env hregistered hpassive p.needsReboot
  rw [commits_state_iff env seq payload hpassive rfl hregistered,
    imp_iff_not (opCommit_not_error env seq payload p), hanswers, and_comm]
  push Not
  rfl

/-- The device with one draft. -/
def drafted : Provisioner Unit Unit :=
  radio { draft := AList.singleton 11 (.int 7) }

/-- A platform that keeps the files it is given, each under its last name. -/
def filingEnv : Env (List (Bytes × Bytes)) where
  decode _ := []
  encode ts := ts.flatMap fun t => match t with
    | .int k => [UInt8.ofNat k.toNat]
    | .map n => [UInt8.ofNat n]
    | _ => []
  floatOfInt v := .fin v
  compress _ := []
  fs :=
    { directoryExists := fun _ => pure true
      createDirectory := fun _ => pure true
      fileExists := fun path files => (.value (files.any fun f => f.1 = path), files)
      readFile := fun path files => (.value ((files.find? fun f => f.1 = path).elim [] Prod.snd), files)
      removeFile := fun path files => (.value (files.any fun f => f.1 = path), files.filter fun f => f.1 ≠ path)
      writeFile := fun path data files => (.value data.length, (path, data) :: files.filter fun f => f.1 ≠ path)
      renameFile := fun old new files => (.value (files.any fun f => f.1 = old),
        files.map fun f => if f.1 = old then (new, f.2) else f) }
  root := []

/-- The device with one draft, and a storage without files. -/
def draftedWithStorage : Provisioner Unit (List (Bytes × Bytes)) where
  namespaces := drafted.namespaces
  storage := some []
  started := true
  needsReboot := false
  schemaHash := 0
  runtime := ()
  distinct := drafted.distinct

/-- The device commits its draft, and both commits store the same file. -/
theorem commits_agree_iff_drafted :
    (opCommit filingEnv 0 none draftedWithStorage).2
        = (Prog.mapEach ((commitScope draftedWithStorage none).map NamespaceDecl.id) (commit filingEnv)
          draftedWithStorage).2
      ∧ ((opCommit filingEnv 0 none draftedWithStorage).2.storage.map List.length) = some 1 := by
  have hpassive : Passive draftedWithStorage.onRebootRequired := fun m hm => by cases hm
  have hids : ∀ d ∈ draftedWithStorage.decls, d.id ≠ 0 := by
    intro d hd
    rw [List.mem_singleton.mp hd]
    decide
  have hstage : ∀ x ∈ stages filingEnv (commitScope draftedWithStorage none) draftedWithStorage,
      x = (radioDecl, draftedWithStorage) := by
    intro x hx
    rcases List.mem_cons.mp hx with hx | hx
    · exact hx
    · split at hx <;> cases hx
  have hfinishes : ∃ outcomes q, applyDrafts radioDecl draftedWithStorage = (.value outcomes, q)
      ∧ (saveNamespace filingEnv radioDecl q).1 = .value true := ⟨_, _, rfl, by decide +kernel⟩
  obtain ⟨outcomes, q, happly, hsaved⟩ := hfinishes
  refine ⟨((commits_agree_iff filingEnv 0 none draftedWithStorage hpassive hids).mpr ⟨?_, ?_⟩).1, by decide +kernel⟩
  · rintro x hx ⟨outcomes', q', happly', hrefused⟩
    rw [hstage x hx] at happly' hrefused
    cases happly.symm.trans happly'
    cases hrefused.symm.trans hsaved
  · rintro ⟨-, ⟨x, hx, hnot⟩, -⟩
    rw [hstage x hx] at hnot
    refine hnot ⟨{ decl := radioDecl, hadDraft := true, outcomes, saved := true },
      (saveNamespace filingEnv radioDecl q).2, ?_⟩
    unfold commitDrafts
    rw [Prog.get_bind_run, Prog.bind_value happly, Prog.bind_value (Prod.ext hsaved rfl)]
    rfl

/-- A storage that refuses a file goes unnoticed on the wire. -/
theorem refused_file_not_reported :
    ¬ ∀ (env : Env Unit) (seq : UInt64) (payload : Option Cursor) (p : Provisioner Unit Unit),
      Passive p.onRebootRequired → (∀ d ∈ p.decls, d.id ≠ 0) →
      (opCommit env seq payload p).2
          = (Prog.mapEach ((commitScope p payload).map NamespaceDecl.id) (commit env) p).2
        ∧ (false ∈ answers env ((commitScope p payload).map NamespaceDecl.id) p →
          IsError (opCommit env seq payload p).1) := by
  intro h
  have hids : ∀ d ∈ ({ drafted with storage := some () } : Provisioner Unit Unit).decls,
      d.id ≠ 0 := by
    intro d hd
    rw [List.mem_singleton.mp hd]
    decide
  obtain ⟨-, hreports⟩ := h bareEnv 0 none { drafted with storage := some () }
    (fun m hm => by cases hm) hids
  have hfails : answers bareEnv
      ((commitScope { drafted with storage := some () } none).map NamespaceDecl.id)
      { drafted with storage := some () } = [false] := rfl
  refine opCommit_not_error bareEnv 0 none { drafted with storage := some () } (hreports ?_)
  rw [hfails]
  exact List.mem_singleton_self false

end MicroReticulum.Provisioning
