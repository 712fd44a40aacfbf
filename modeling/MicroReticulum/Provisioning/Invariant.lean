import MicroReticulum.Provisioning.Settings
import MicroReticulum.Provisioning.Dispatch
import MicroReticulum.Provisioning.Load
import MicroReticulum.Provisioning.Commit

/-!
# What drafts and working values keep in a run

A `Policy` says what is offered to fields, and what drafts and working values are then. It suits a
registration when every offered value that passes the check of its field is such a draft or working value.
`Sound` follows the drafts and the working values of all namespaces, and with them a property of the
runtime that setter calls with working values keep, through every operation, and `Step` puts the operations
together to runs.

Values enter through SetState, the interface in process, the files and the defaults; a commit hook may edit
drafts, as documented.
-/

namespace MicroReticulum.Provisioning

open MicroReticulum Library

variable {R F : Type}

/-- What may be offered to a field, and what its drafts and its working values are. -/
structure Policy (R : Type) where
  offered : Field R → Value → Prop
  draft : Field R → Value → Prop
  working : Field R → Value → Prop

/-! ## Namespaces -/

namespace NamespaceState

/-- Every value of a map belongs to a declared field and fits it. -/
def Allowed (fits : Field R → Value → Prop) (d : NamespaceDecl R) (values : FieldMap) : Prop :=
  ∀ id v, values.lookup id = some v → ∃ f, d.findField id = some f ∧ fits f v

/-- The drafts and the working values are as the policy has them. -/
structure Valid (pol : Policy R) (d : NamespaceDecl R) (s : NamespaceState) : Prop where
  draft : Allowed pol.draft d s.draft
  working : Allowed pol.working d s.working

variable {pol : Policy R} {d : NamespaceDecl R} {s : NamespaceState}

/-- Removing a draft leaves the others, and the working values, as the policy allows. -/
theorem Valid.eraseDraft (h : s.Valid pol d) (id : FieldId) : (s.eraseDraft id).Valid pol d := by
  refine ⟨fun other v hv => ?_, h.working⟩
  rw [lookup_eraseDraft] at hv
  split at hv
  · cases hv
  · exact h.draft other v hv

/-- A draft the policy allows can be put into a valid state. -/
theorem Valid.insertDraft (h : s.Valid pol d) {f : Field R} (hf : d.findField f.id = some f) {v : Value}
    (hv : pol.draft f v) : (s.insertDraft f.id v).Valid pol d := by
  refine ⟨fun other w hw => ?_, h.working⟩
  rw [lookup_insertDraft] at hw
  split at hw
  case isTrue heq =>
    cases hw
    exact ⟨f, heq ▸ hf, hv⟩
  case isFalse => exact h.draft other w hw

/-- A working value the policy allows can be put into a valid state. -/
theorem Valid.putWorking (h : s.Valid pol d) {f : Field R} (hf : d.findField f.id = some f) {v : Value}
    (hv : pol.working f v) : (s.putWorking f.id v).Valid pol d := by
  refine ⟨h.draft, fun other w hw => ?_⟩
  rw [lookup_putWorking] at hw
  split at hw
  case isTrue heq =>
    cases hw
    exact ⟨f, heq ▸ hf, hv⟩
  case isFalse => exact h.working other w hw

/-- Without drafts only the working values are left to be checked. -/
theorem Valid.clearDraft (h : s.Valid pol d) : s.clearDraft.Valid pol d :=
  ⟨fun _ _ hv => (by cases hv), h.working⟩

/-- The mark that a namespace is saved has nothing to do with its values. -/
theorem Valid.markClean (h : s.Valid pol d) : s.markClean.Valid pol d := ⟨h.draft, h.working⟩

end NamespaceState

namespace NamespaceDecl

/-- What passes the check of a field and may be offered to it becomes its draft or its working value. -/
def Accepts (pol : Policy R) (d : NamespaceDecl R) : Prop :=
  ∀ f ∈ d.fields, ∀ v, f.validate v = true → pol.offered f v → pol.draft f v ∧ pol.working f v

variable {pol : Policy R} {d : NamespaceDecl R} {s : NamespaceState}

/-- `set_draft` stages nothing but what it has checked. -/
theorem setDraft_valid (haccepts : d.Accepts pol) (h : s.Valid pol d) (r : R) (id : FieldId)
    (v : Value) (hoffered : ∀ f, d.findField id = some f → pol.offered f v) :
    (d.setDraft r id v s).2.Valid pol d := by
  unfold setDraft
  cases hfind : d.findField id with
  | none => exact h
  | some f =>
    have hid : f.id = id := findField_id hfind
    dsimp only
    split
    · exact h
    · split
      · exact h
      · rename_i hvalid
        have hvalid : f.validate v = true := by simpa using hvalid
        have hdraft := (haccepts f (findField_mem hfind) v hvalid (hoffered f hfind)).1
        unfold stageDraft
        dsimp only
        split
        · exact h.eraseDraft f.id
        · exact h.insertDraft (hid.symm ▸ hfind) hdraft

/-- The documented ways for a commit hook to change the drafts of its namespace, with values that may
be offered. -/
inductive Edit (pol : Policy R) (d : NamespaceDecl R) : NamespaceState → NamespaceState → Prop
  | setDraft (s : NamespaceState) (r : R) (id : FieldId) (v : Value)
      (offered : ∀ f, d.findField id = some f → pol.offered f v) :
      Edit pol d s (d.setDraft r id v s).2
  | eraseDraft (s : NamespaceState) (id : FieldId) : Edit pol d s (s.eraseDraft id)
  | clearDraft (s : NamespaceState) : Edit pol d s s.clearDraft

/-- The commit hook edits drafts, in the documented ways. -/
def HookEdits (pol : Policy R) (d : NamespaceDecl R) : Prop :=
  ∀ hook, d.onCommit = some hook → ∀ x,
    Relation.ReflTransGen (d.Edit pol) x.1 (hook d.fields x).2.1

/-- Edits that the namespace accepts keep its state valid, by induction on the edits. -/
theorem edits_valid (haccepts : d.Accepts pol) {t : NamespaceState}
    (hedits : Relation.ReflTransGen (d.Edit pol) s t) (h : s.Valid pol d) : t.Valid pol d := by
  induction hedits with
  | refl => exact h
  | tail _ hedit ih =>
    cases hedit with
    | setDraft r id v offered => exact setDraft_valid haccepts ih r id v offered
    | eraseDraft id => exact ih.eraseDraft id
    | clearDraft => exact ih.clearDraft

end NamespaceDecl

/-! ## The invariant, and a property of the runtime -/

section Invariant

variable (pol : Policy R) (ds : List (NamespaceDecl R)) (J : R → Prop)

/-- A registration that the policy suits, whose hooks edit drafts, and whose setters, when they are called
with working values, and hooks keep the property of the runtime. -/
structure WellRegistered : Prop where
  accepts : ∀ d ∈ ds, d.Accepts pol
  /-- a draft may become a working value -/
  promoted : ∀ f v, pol.draft f v → pol.working f v
  defaults : ∀ d ∈ ds, ∀ f ∈ d.fields, pol.working f f.defaultValue
  edits : ∀ d ∈ ds, d.HookEdits pol
  setter : ∀ d ∈ ds, ∀ f ∈ d.fields, ∀ setter, f.setter = some setter → ∀ v, pol.working f v →
    ∀ r, J r → J (setter v r).2
  hook : ∀ d ∈ ds, ∀ hook, d.onCommit = some hook → ∀ x, J x.2 → J (hook d.fields x).2.2

/-- What holds in every state of a run. -/
structure Sound (p : Provisioner R F) : Prop where
  decls : p.decls = ds
  states : ∀ d ∈ ds, (p.stateOf d.id).Valid pol d
  runtime : J p.runtime
  callbacks : ∀ m, p.onRebootRequired = some m ∨ p.onReboot = some m ∨ p.onFactoryReset = some m →
    ∀ r, J r → J (m r).2

/-- The program keeps the invariant, however it ends. -/
def KeepsSound {α : Type} (m : Prog String (Provisioner R F) α) : Prop :=
  Prog.Keeps (fun p q => Sound pol ds J p → Sound pol ds J q) m

variable {pol ds J}

theorem KeepsSound.refl (p : Provisioner R F) : Sound pol ds J p → Sound pol ds J p := id

theorem KeepsSound.trans (p q t : Provisioner R F) (h : Sound pol ds J p → Sound pol ds J q)
    (h' : Sound pol ds J q → Sound pol ds J t) : Sound pol ds J p → Sound pol ds J t := h' ∘ h

/-- A valid state can be put in for a namespace; the states of the others are not looked at. -/
theorem Sound.setState {p : Provisioner R F} (h : Sound pol ds J p) {d : NamespaceDecl R} (hd : d ∈ ds)
    {s : NamespaceState} (hs : s.Valid pol d) : Sound pol ds J (p.setState d.id s) := by
  refine ⟨(Provisioner.setState_decls d.id s p).trans h.decls, fun d' hd' => ?_, h.runtime,
    h.callbacks⟩
  rw [Provisioner.stateOf_setState (h.decls.symm ▸ hd')]
  split
  case isTrue heq =>
    have hsame : d' = d := by
      have hfind := Provisioner.find_of_mem (h.decls.symm ▸ hd' : d' ∈ p.decls)
      rw [heq, Provisioner.find_of_mem (h.decls.symm ▸ hd : d ∈ p.decls)] at hfind
      exact (Option.some.inj hfind).symm
    rw [hsame]
    exact hs
  case isFalse => exact h.states d' hd'

/-- Every program that only puts other contents into the storage. -/
theorem onStorage_sound {α : Type} (default : α) (m : Prog String F α) :
    KeepsSound pol ds J (Provisioner.onStorage default m) := by
  intro p h
  unfold Provisioner.onStorage
  split
  · exact h
  · exact ⟨h.decls, h.states, h.runtime, h.callbacks⟩

/-- A callback that keeps the invariant of the runtime keeps the provisioner sound. -/
theorem callback_sound {m : Option (Prog String R Unit)}
    (hm : ∀ c, m = some c → ∀ r, J r → J (c r).2) :
    KeepsSound (F := F) pol ds J (Provisioner.callback m) := by
  intro p h
  cases m with
  | none => exact h
  | some c =>
    refine ⟨h.decls, h.states, ?_, h.callbacks⟩
    show J (Prog.catching c (fun _ => pure ()) p.runtime).2
    rw [Prog.catching_pure_state]
    exact hm c rfl p.runtime h.runtime

/-- The reboot flag is no value of a field, and its callback keeps the invariant. -/
theorem setRebootFlag_sound (b : Bool) : KeepsSound (F := F) pol ds J (Provisioner.setRebootFlag b) := by
  intro p h
  unfold Provisioner.setRebootFlag
  rw [Prog.get_bind_run]
  have hraised : KeepsSound (F := F) pol ds J (Prog.modify fun p => { p with needsReboot := true }) :=
    fun q hq => ⟨hq.decls, hq.states, hq.runtime, hq.callbacks⟩
  have hcallback : KeepsSound (F := F) pol ds J (Provisioner.callback p.onRebootRequired) :=
    callback_sound fun c hc => h.callbacks c (.inl hc)
  refine (?_ : KeepsSound pol ds J _) p h
  refine Prog.Keeps.when KeepsSound.refl fun _ => ?_
  exact Prog.Keeps.bind KeepsSound.trans hraised fun _ =>
    Prog.Keeps.when KeepsSound.refl fun _ => hcallback

/-- A program on a namespace and the runtime. -/
theorem onNamespace_sound {α : Type} {d : NamespaceDecl R} (hd : d ∈ ds)
    {m : Prog String (NamespaceState × R) α}
    (hm : ∀ x, x.1.Valid pol d → J x.2 → (m x).2.1.Valid pol d ∧ J (m x).2.2) :
    KeepsSound (F := F) pol ds J (Provisioner.onNamespace d m) := by
  intro p h
  obtain ⟨hstate, hruntime⟩ := hm (p.stateOf d.id, p.runtime) (h.states d hd) h.runtime
  have hset := h.setState hd hstate
  exact ⟨hset.decls, hset.states, hruntime, h.callbacks⟩

/-! ### Committing -/

/-- The invariant, for one namespace. -/
def SoundAt (pol : Policy R) (d : NamespaceDecl R) (J : R → Prop) (x : NamespaceState × R) : Prop :=
  x.1.Valid pol d ∧ J x.2

/-- The program on a namespace keeps the invariant. -/
def KeepsSoundAt (pol : Policy R) (d : NamespaceDecl R) (J : R → Prop) {α : Type}
    (m : Prog String (NamespaceState × R) α) : Prop :=
  Prog.Keeps (fun x y => SoundAt pol d J x → SoundAt pol d J y) m

theorem KeepsSoundAt.refl {d : NamespaceDecl R} (x : NamespaceState × R) :
    SoundAt pol d J x → SoundAt pol d J x := id

theorem KeepsSoundAt.trans {d : NamespaceDecl R} (x y z : NamespaceState × R)
    (h : SoundAt pol d J x → SoundAt pol d J y) (h' : SoundAt pol d J y → SoundAt pol d J z) :
    SoundAt pol d J x → SoundAt pol d J z := h' ∘ h

/-- A setter gets a value the policy allows as a working value, and keeps the invariant of the runtime. -/
theorem callSetter_sound (happ : WellRegistered pol ds J) {d : NamespaceDecl R} (hd : d ∈ ds) {f : Field R}
    (hf : f ∈ d.fields) {setter : Value → Prog String R Bool} (hsetter : f.setter = some setter)
    {v : Value} (hv : pol.working f v) : KeepsSoundAt pol d J (NamespaceDecl.callSetter setter v) :=
  fun x h => ⟨h.1, happ.setter d hd f hf setter hsetter v hv x.2 h.2⟩

theorem modifyState_sound {d : NamespaceDecl R} {g : NamespaceState → NamespaceState}
    (hg : ∀ s : NamespaceState, s.Valid pol d → (g s).Valid pol d) :
    KeepsSoundAt pol d J (NamespaceDecl.modifyState g) := fun x h => ⟨hg x.1 h.1, h.2⟩

/-- Applying a draft puts the value in or refuses it; both leave a sound state. -/
theorem applyDraft_sound (happ : WellRegistered pol ds J) {d : NamespaceDecl R} (hd : d ∈ ds) {f : Field R}
    (hf : d.findField f.id = some f) {v : Value} (hv : pol.working f v) :
    KeepsSoundAt pol d J (NamespaceDecl.applyDraft f v) := by
  have hmem := NamespaceDecl.findField_mem hf
  have hsetter : ∀ setter, f.setter = some setter → KeepsSoundAt pol d J
      (NamespaceDecl.callSetter setter v >>= fun ok =>
        pure (if ok then CommitOutcome.appliedLive else .setterFailed)) := fun setter hsetter =>
    Prog.Keeps.bind KeepsSoundAt.trans (callSetter_sound happ hd hmem hsetter hv) fun _ =>
      Prog.Keeps.pure KeepsSoundAt.refl _
  unfold NamespaceDecl.applyDraft
  refine Prog.Keeps.ite ?_ (Prog.Keeps.bind KeepsSoundAt.trans
    (modifyState_sound fun s hs => hs.putWorking hf hv) fun _ => ?_)
  · split
    case h_1 => exact Prog.Keeps.pure KeepsSoundAt.refl _
    case h_2 setter hs => exact hsetter setter hs
  · split
    case h_1 setter _ hs => exact hsetter setter hs
    case h_2 => exact Prog.Keeps.pure KeepsSoundAt.refl _

/-- Committing a field takes its draft out and applies it, or does nothing where there is none. -/
theorem commitOne_sound (happ : WellRegistered pol ds J) {d : NamespaceDecl R} (hd : d ∈ ds)
    (id : FieldId) : KeepsSoundAt pol d J (d.commitOne id) := by
  unfold NamespaceDecl.commitOne
  cases hfind : d.findField id with
  | none => exact Prog.Keeps.pure KeepsSoundAt.refl _
  | some f =>
    have hid : f.id = id := NamespaceDecl.findField_id hfind
    intro x h
    dsimp only
    rw [Prog.get_bind_run]
    cases hdraft : x.1.draft.lookup id with
    | none => exact h
    | some v =>
      obtain ⟨g, hg, hv⟩ := h.1.draft id v hdraft
      rw [hfind] at hg
      cases hg
      have herase : KeepsSoundAt pol d J (NamespaceDecl.modifyState (.eraseDraft id)) :=
        modifyState_sound fun s hs => hs.eraseDraft id
      have hread : KeepsSoundAt pol d J (NamespaceDecl.modifyState (.eraseDraft id) >>= fun _ =>
          pure CommitOutcome.readOnly) :=
        Prog.Keeps.bind KeepsSoundAt.trans herase fun _ => Prog.Keeps.pure KeepsSoundAt.refl _
      have happly : KeepsSoundAt pol d J (NamespaceDecl.modifyState (.eraseDraft id) >>= fun _ =>
          NamespaceDecl.applyDraft f v) :=
        Prog.Keeps.bind KeepsSoundAt.trans herase fun _ =>
          applyDraft_sound happ hd (hid.symm ▸ hfind) (happ.promoted f v hv)
      exact Prog.Keeps.ite hread (Prog.Keeps.ite (Prog.Keeps.pure KeepsSoundAt.refl _) happly) x h

/-- The hook of a namespace edits its state as it is accepted to. -/
theorem runHook_sound (happ : WellRegistered pol ds J) {d : NamespaceDecl R} (hd : d ∈ ds) :
    KeepsSound (F := F) pol ds J (Provisioner.runHook d) := by
  refine Prog.Keeps.bind KeepsSound.trans (Prog.Keeps.get KeepsSound.refl) fun p => ?_
  cases honCommit : d.onCommit with
  | none => exact Prog.Keeps.pure KeepsSound.refl ()
  | some hook =>
    refine Prog.Keeps.when KeepsSound.refl fun _ => onNamespace_sound hd fun x hx hr => ?_
    rw [Prog.catching_pure_state]
    exact ⟨NamespaceDecl.edits_valid (happ.accepts d hd) (happ.edits d hd hook honCommit x) hx,
      happ.hook d hd hook honCommit x hr⟩

/-- Saving reads the working values and changes none. -/
theorem saveNamespace_sound (env : Env F) {d : NamespaceDecl R} (hd : d ∈ ds) :
    KeepsSound pol ds J (Provisioner.saveNamespace env d) := by
  intro p h
  unfold Provisioner.saveNamespace
  rw [Prog.get_bind_run]
  have hmark : KeepsSound (F := F) pol ds J
      (Prog.modify (Provisioner.setState d.id (p.stateOf d.id).markClean)) :=
    fun q hq => hq.setState hd (h.states d hd).markClean
  refine (?_ : KeepsSound pol ds J _) p h
  refine Prog.Keeps.ite (Prog.Keeps.pure KeepsSound.refl _) ?_
  refine Prog.Keeps.bind KeepsSound.trans (onStorage_sound _ _) fun saved => ?_
  exact Prog.Keeps.bind KeepsSound.trans (Prog.Keeps.when KeepsSound.refl fun _ => hmark) fun _ =>
    Prog.Keeps.pure KeepsSound.refl saved

/-- Committing the drafts of a namespace keeps the provisioner sound, from the hook to the file. -/
theorem commitDrafts_sound (env : Env F) (happ : WellRegistered pol ds J) {d : NamespaceDecl R}
    (hd : d ∈ ds) : KeepsSound pol ds J (commitDrafts env d) := by
  refine Prog.Keeps.bind KeepsSound.trans (Prog.Keeps.get KeepsSound.refl) fun before => ?_
  refine Prog.Keeps.bind KeepsSound.trans ?_ fun outcomes =>
    Prog.Keeps.bind KeepsSound.trans (saveNamespace_sound env hd) fun saved =>
      Prog.Keeps.pure KeepsSound.refl _
  refine Prog.Keeps.bind KeepsSound.trans (runHook_sound happ hd) fun _ => ?_
  refine Prog.Keeps.bind KeepsSound.trans (Prog.Keeps.get KeepsSound.refl) fun p => ?_
  exact Prog.Keeps.mapEach KeepsSound.refl KeepsSound.trans _ fun id _ =>
    onNamespace_sound hd fun x hx hr => commitOne_sound happ hd id x ⟨hx, hr⟩

/-- A commit from within the application is a commit of the drafts, and the reboot flag. -/
theorem commitInProcess_sound (env : Env F) (happ : WellRegistered pol ds J) {d : NamespaceDecl R}
    (hd : d ∈ ds) : KeepsSound pol ds J (Provisioner.commitInProcess env d) := by
  rw [commitInProcess_eq]
  refine Prog.Keeps.bind KeepsSound.trans (commitDrafts_sound env happ hd) fun c => ?_
  exact Prog.Keeps.bind KeepsSound.trans (Prog.Keeps.when KeepsSound.refl fun _ =>
    setRebootFlag_sound true) fun _ => Prog.Keeps.pure KeepsSound.refl _

/-- `Provisioner::commit` -/
theorem commit_sound (env : Env F) (happ : WellRegistered pol ds J) (id : NamespaceId) :
    KeepsSound pol ds J (Provisioner.commit env id) := by
  intro p h
  unfold Provisioner.commit
  rw [Prog.get_bind_run]
  refine (?_ : KeepsSound pol ds J _) p h
  refine Prog.Keeps.ite ?_ ?_
  · refine Prog.Keeps.fold KeepsSound.refl KeepsSound.trans _ (fun d hd ok => ?_) _
    exact Prog.Keeps.bind KeepsSound.trans (commitInProcess_sound env happ (h.decls ▸ hd)) fun _ =>
      Prog.Keeps.pure KeepsSound.refl _
  · cases hfind : p.find id with
    | none => exact Prog.Keeps.pure KeepsSound.refl _
    | some d =>
      exact commitInProcess_sound env happ (h.decls ▸ List.mem_of_find?_eq_some hfind)

/-- `op_commit` -/
theorem opCommit_sound (env : Env F) (happ : WellRegistered pol ds J) (seq : UInt64)
    (payload : Option Cursor) : KeepsSound pol ds J (opCommit env seq payload) := by
  intro p h
  unfold opCommit
  rw [Prog.get_bind_run]
  refine (?_ : KeepsSound pol ds J _) p h
  refine Prog.Keeps.bind KeepsSound.trans ?_ fun progress => ?_
  · refine Prog.Keeps.fold KeepsSound.refl KeepsSound.trans _ (fun d hd progress => ?_) _
    rw [commitNamespace_eq]
    exact Prog.Keeps.bind KeepsSound.trans
      (commitDrafts_sound env happ (h.decls ▸ commitScope_mem hd)) fun c =>
      Prog.Keeps.pure KeepsSound.refl _
  · refine Prog.Keeps.bind KeepsSound.trans (setRebootFlag_sound _) fun _ => ?_
    exact Prog.Keeps.bind KeepsSound.trans (Prog.Keeps.get KeepsSound.refl) fun _ =>
      Prog.Keeps.pure KeepsSound.refl _

/-! ### Discarding and resetting -/

/-- Discarding the drafts of a namespace keeps the provisioner sound. -/
theorem clearDraft_sound {d : NamespaceDecl R} (hd : d ∈ ds) :
    KeepsSound (F := F) pol ds J
      (Provisioner.onNamespace d (NamespaceDecl.modifyState .clearDraft)) :=
  onNamespace_sound hd fun x hx hr => modifyState_sound (fun _ hs => hs.clearDraft) x ⟨hx, hr⟩

/-- `Provisioner::discard` -/
theorem discard_sound (id : NamespaceId) : KeepsSound (F := F) pol ds J (Provisioner.discard id) := by
  intro p h
  unfold Provisioner.discard
  rw [Prog.get_bind_run]
  refine (?_ : KeepsSound pol ds J _) p h
  refine Prog.Keeps.ite ?_ ?_
  · refine Prog.Keeps.bind KeepsSound.trans ?_ fun _ => Prog.Keeps.pure KeepsSound.refl _
    exact Prog.Keeps.forEach KeepsSound.refl KeepsSound.trans _ fun d hd =>
      clearDraft_sound (h.decls ▸ hd)
  · cases hfind : p.find id with
    | none => exact Prog.Keeps.pure KeepsSound.refl _
    | some d =>
      exact Prog.Keeps.bind KeepsSound.trans
        (clearDraft_sound (h.decls ▸ List.mem_of_find?_eq_some hfind)) fun _ =>
        Prog.Keeps.pure KeepsSound.refl _

/-- `op_discard` -/
theorem opDiscard_sound (env : Env F) (seq : UInt64) (payload : Option Cursor) :
    KeepsSound (R := R) pol ds J (opDiscard env seq payload) := by
  intro p h
  unfold opDiscard
  dsimp only
  rw [Prog.get_bind_run]
  refine (?_ : KeepsSound pol ds J _) p h
  refine Prog.Keeps.bind KeepsSound.trans ?_ fun _ => Prog.Keeps.pure KeepsSound.refl _
  refine Prog.Keeps.fold KeepsSound.refl KeepsSound.trans _ (fun d hd cleared => ?_) _
  refine Prog.Keeps.bind KeepsSound.trans (Prog.Keeps.get KeepsSound.refl) fun _ => ?_
  exact Prog.Keeps.bind KeepsSound.trans (clearDraft_sound (h.decls ▸ named_mem hd)) fun _ =>
    Prog.Keeps.pure KeepsSound.refl _

/-- A reset puts in the default, which the policy allows, or hands it to the setter. -/
theorem resetField_sound (happ : WellRegistered pol ds J) {d : NamespaceDecl R} (hd : d ∈ ds)
    {f : Field R} (hf : f ∈ d.fields) : KeepsSound (F := F) pol ds J (Provisioner.resetField d f) := by
  have hdefault := happ.defaults d hd f hf
  refine Prog.Keeps.bind KeepsSound.trans (onNamespace_sound hd fun x hx hr => ?_) fun _ => ?_
  · exact modifyState_sound
      (fun _ hs => hs.putWorking (NamespaceDecl.findField_of_mem hf) hdefault) x ⟨hx, hr⟩
  · cases hsetter : f.setter with
    | none => exact Prog.Keeps.pure KeepsSound.refl _
    | some setter =>
      refine Prog.Keeps.when KeepsSound.refl fun _ => onNamespace_sound hd fun x hx hr => ?_
      rw [Prog.catching_pure_state]
      exact Prog.Keeps.bind KeepsSoundAt.trans (callSetter_sound happ hd hf hsetter hdefault)
        (fun _ => Prog.Keeps.pure KeepsSoundAt.refl ()) x ⟨hx, hr⟩

/-- `factory_reset` -/
theorem factoryReset_sound (env : Env F) (happ : WellRegistered pol ds J) :
    KeepsSound pol ds J (Provisioner.factoryReset env) := by
  intro p h
  unfold Provisioner.factoryReset
  rw [Prog.get_bind_run]
  refine (?_ : KeepsSound pol ds J _) p h
  refine Prog.Keeps.bind KeepsSound.trans ?_ fun _ => ?_
  · refine Prog.Keeps.forEach KeepsSound.refl KeepsSound.trans _ fun d hd => ?_
    have hd : d ∈ ds := h.decls ▸ hd
    refine Prog.Keeps.bind KeepsSound.trans (clearDraft_sound hd) fun _ => ?_
    refine Prog.Keeps.bind KeepsSound.trans (Prog.Keeps.forEach KeepsSound.refl KeepsSound.trans _
      fun f hf => resetField_sound happ hd hf) fun _ => ?_
    exact onNamespace_sound hd fun x hx hr =>
      modifyState_sound (fun _ hs => hs.markClean) x ⟨hx, hr⟩
  refine Prog.Keeps.bind KeepsSound.trans ?_ fun _ => ?_
  · refine Prog.Keeps.bind KeepsSound.trans (Prog.Keeps.get KeepsSound.refl) fun q => ?_
    refine Prog.Keeps.fold KeepsSound.refl KeepsSound.trans _ (fun d _ ok => ?_) _
    exact Prog.Keeps.bind KeepsSound.trans (onStorage_sound _ _) fun _ =>
      Prog.Keeps.pure KeepsSound.refl _
  have hlowered : KeepsSound (F := F) pol ds J (Prog.modify fun p => { p with needsReboot := false }) :=
    fun q hq => ⟨hq.decls, hq.states, hq.runtime, hq.callbacks⟩
  exact Prog.Keeps.bind KeepsSound.trans hlowered fun _ =>
    callback_sound fun c hc => h.callbacks c (.inr (.inr hc))

/-! ### Setting -/

/-- `Provisioner::field` with a value -/
theorem setField_sound (happ : WellRegistered pol ds J) {p : Provisioner R F} (h : Sound pol ds J p)
    (nsId : NamespaceId) (fieldId : FieldId) (v : Value)
    (hoffered : ∀ d ∈ ds, ∀ f ∈ d.fields, d.id = nsId → f.id = fieldId → pol.offered f v) :
    Sound pol ds J (Provisioner.setField nsId fieldId v p).2 := by
  unfold Provisioner.setField
  rw [Prog.get_bind_run]
  cases hfind : p.find nsId with
  | none => exact h
  | some d =>
    have hd : d ∈ ds := h.decls ▸ List.mem_of_find?_eq_some hfind
    have hid : d.id = nsId := by simpa using List.find?_some hfind
    exact h.setState hd (NamespaceDecl.setDraft_valid (happ.accepts d hd) (h.states d hd) _ _ _
      fun f hf => hoffered d hd f (NamespaceDecl.findField_mem hf) hid (NamespaceDecl.findField_id hf))

/-- A setting offers its field a value the policy has for it. -/
def Setting.Offered (pol : Policy R) : Setting R → Prop
  | .write _ _ f v => pol.offered f v
  | _ => True

/-- Staging puts a draft in if it passes the check, and counts an error if it does not. -/
theorem stage_sound (happ : WellRegistered pol ds J) {a : SetStateRun R F} (h : Sound pol ds J a.p)
    (nsId : NamespaceId) {d : NamespaceDecl R} (hd : d ∈ ds) {f : Field R} (hf : f ∈ d.fields)
    {v : Value} (hoffered : pol.offered f v) : Sound pol ds J (a.stage nsId d f v).p := by
  unfold SetStateRun.stage
  split
  · exact h
  · dsimp only
    split
    · refine h.setState hd (NamespaceDecl.setDraft_valid (happ.accepts d hd) (h.states d hd) _ _ _
        fun g hg => ?_)
      rw [NamespaceDecl.findField_of_mem hf] at hg
      cases hg
      exact hoffered
    · exact h

/-- Every setting a request decodes to keeps the provisioner sound, if the policy allows what it offers. -/
theorem apply_sound (happ : WellRegistered pol ds J) {a : SetStateRun R F} (h : Sound pol ds J a.p)
    {x : Setting R} (hx : x.Registered ds) (hoffered : x.Offered pol) : Sound pol ds J (a.apply x).p := by
  cases x with
  | touch d => exact (SetStateRun.touch_p d a).symm ▸ h
  | write nsId d f v => exact stage_sound happ h nsId hx.1 hx.2 hoffered
  | _ => exact h

/-- `op_set_state` -/
theorem opSetState_sound (env : Env F) (happ : WellRegistered pol ds J) {p : Provisioner R F}
    (h : Sound pol ds J p) (seq : UInt64) (payload : Option Cursor)
    (hoffered : ∀ c, payload = some c → ∀ x ∈ settings env ds c, x.Offered pol) :
    Sound pol ds J (opSetState env seq payload p).2 := by
  have hfold : ∀ (xs : List (Setting R)) (a : SetStateRun R F), Sound pol ds J a.p →
      (∀ x ∈ xs, x.Registered ds ∧ x.Offered pol) → Sound pol ds J (xs.foldl .apply a).p := by
    intro xs
    induction xs with
    | nil => exact fun a ha _ => ha
    | cons x xs ih =>
      intro a ha hxs
      obtain ⟨hx, hx'⟩ := hxs x List.mem_cons_self
      exact ih _ (apply_sound happ ha hx hx') fun y hy => hxs y (List.mem_cons_of_mem x hy)
  unfold opSetState
  split
  · rename_i n rest
    have hrun := hfold (settings env ds (.map n :: rest)) { p } h fun x hx =>
      ⟨settings_registered env ds _ x hx, hoffered _ rfl x hx⟩
    have happlied := setStateRun_eq_apply env p (.map n :: rest)
    rw [h.decls] at happlied
    rw [← happlied] at hrun
    exact hrun
  · exact h

/-! ### Requests -/

/-- A SetState request offers what the policy has. -/
def RequestOffers (pol : Policy R) (env : Env F) (ds : List (NamespaceDecl R)) (c : Cursor) : Prop :=
  ∀ seq payload, readEnvelope c = some (Op.setState, seq, some payload) →
    ∀ x ∈ settings env ds payload, x.Offered pol

/-- A request, whatever it is. -/
theorem handleObjects_sound (env : Env F) (happ : WellRegistered pol ds J) {p : Provisioner R F}
    (h : Sound pol ds J p) {c : Cursor} (hoffered : RequestOffers pol env ds c) :
    Sound pol ds J (handleObjects env c p).2 := by
  by_cases hstarted : p.started = true
  case neg =>
    unfold handleObjects
    rw [Prog.get_bind_run, if_pos (by simpa using hstarted)]
    exact h
  cases hread : readEnvelope c with
  | none =>
    obtain ⟨code, msg, hrun⟩ := handleObjects_of_no_envelope (R := R) (F := F) hread
    rw [hrun env p hstarted]
    exact h
  | some envelope =>
    obtain ⟨op, seq, payload⟩ := envelope
    rw [handleObjects_of_envelope env hstarted hread]
    have hreads : ∀ g : Provisioner R F → List Token,
        KeepsSound pol ds J (Prog.get >>= fun p => pure (g p)) := fun g =>
      Prog.Keeps.bind KeepsSound.trans (Prog.Keeps.get KeepsSound.refl) fun _ =>
        Prog.Keeps.pure KeepsSound.refl _
    refine dispatch_of (fun m => Sound pol ds J (m p).2) (hreads _ p h) (hreads _ p h) (hreads _ p h)
      (fun _ => hreads _ p h) ?setState (opCommit_sound env happ seq payload p h)
      (opDiscard_sound env seq payload p h) ?reset ?reboot h
    case setState =>
      intro hop
      subst hop
      refine opSetState_sound env happ h seq payload fun c hc => ?_
      subst hc
      exact hoffered seq c hread
    case reset =>
      refine (?_ : KeepsSound pol ds J (opFactoryReset env seq payload)) p h
      refine Prog.Keeps.bind KeepsSound.trans (factoryReset_sound env happ) fun _ => ?_
      exact Prog.Keeps.bind KeepsSound.trans (Prog.Keeps.get KeepsSound.refl) fun _ =>
        Prog.Keeps.pure KeepsSound.refl _
    case reboot =>
      unfold opReboot
      rw [Prog.get_bind_run]
      refine (?_ : KeepsSound pol ds J _) p h
      exact Prog.Keeps.bind KeepsSound.trans (callback_sound fun c hc =>
        h.callbacks c (.inr (.inl hc))) fun _ => Prog.Keeps.pure KeepsSound.refl _

/-! ### Loading -/

/-- What one entry of a file is read as: the field and its value. -/
def entryValue (env : Env F) (d : NamespaceDecl R) (c : Cursor) : List (Field R × Value) × Cursor :=
  match c with
  | .int v :: rest =>
    match d.findField (idOfWire v) with
    | none => ([], skipValue rest)
    | some f =>
      match unpackValue env.floatOfInt f.type rest with
      | (none, c) => ([], c)
      | (some value, c) => ([(f, value)], c)
  | c => ([], skip c 2)

/-- The values of a file. -/
def fileValues (env : Env F) (d : NamespaceDecl R) (c : Cursor) : List (Field R × Value) :=
  match c with
  | .map n :: rest => (gather (entryValue env d) n rest).1
  | _ => []

/-- A value of a file is taken over if it is valid. -/
def takeOver (s : NamespaceState) (e : Field R × Value) : NamespaceState :=
  if e.1.validate e.2 then s.putWorking e.1.id e.2 else s

/-- Reading an entry of a file is reading its value and taking it over. -/
theorem workingEntry_eq (env : Env F) (d : NamespaceDecl R) (c : Cursor) (s : NamespaceState) :
    workingEntry env d c s = ((entryValue env d c).1.foldl takeOver s, (entryValue env d c).2) := by
  cases c with
  | nil => rfl
  | cons t rest =>
    cases t with
    | int k =>
      unfold workingEntry entryValue
      dsimp only
      cases d.findField (idOfWire k) with
      | none => rfl
      | some f =>
        dsimp only
        rcases unpackValue env.floatOfInt f.type rest with ⟨v | v, c'⟩ <;> rfl
    | _ => rfl

/-- Reading a file is taking over the values of its entries one after the other. -/
theorem unpackNamespaceWorking_eq (env : Env F) (d : NamespaceDecl R) (c : Cursor)
    (s : NamespaceState) :
    (unpackNamespaceWorking env d c s).2 = (fileValues env d c).foldl takeOver s := by
  cases c with
  | nil => rfl
  | cons t rest =>
    cases t with
    | map n =>
      exact congrArg Prod.fst (times_eq_gather (P := fun _ : NamespaceState => True)
        (fun _ _ _ => trivial) (fun c s _ => workingEntry_eq env d c s) n rest s trivial)
    | _ => rfl

/-- The values come from fields of the declaration. -/
theorem fileValues_mem (env : Env F) (d : NamespaceDecl R) (c : Cursor) :
    ∀ e ∈ fileValues env d c, d.findField e.1.id = some e.1 := by
  intro e he
  unfold fileValues at he
  split at he
  · obtain ⟨c', hc'⟩ := exists_of_mem_gather _ _ he
    unfold entryValue at hc'
    split at hc'
    · cases hfind : d.findField (idOfWire _) with
      | none =>
        rw [hfind] at hc'
        cases hc'
      | some f =>
        rw [hfind] at hc'
        dsimp only at hc'
        split at hc'
        · cases hc'
        · rw [List.mem_singleton.mp hc']
          exact (NamespaceDecl.findField_id hfind).symm ▸ hfind
    · cases hc'
  · cases he

/-- A file offers what the policy has. -/
def FileOffers (pol : Policy R) (env : Env F) (d : NamespaceDecl R) (raw : Bytes) : Prop :=
  ∀ e ∈ fileValues env d (env.decode raw), pol.offered e.1 e.2

/-- Reading a file whose values the policy allows leaves a valid state. -/
theorem unpackNamespaceWorking_valid (env : Env F) {d : NamespaceDecl R}
    (haccepts : d.Accepts pol) {raw : Bytes} (hoffered : FileOffers pol env d raw)
    {s : NamespaceState} (h : s.Valid pol d) :
    (unpackNamespaceWorking env d (env.decode raw) s).2.Valid pol d := by
  have hfold : ∀ (es : List (Field R × Value)) (s : NamespaceState), s.Valid pol d →
      (∀ e ∈ es, d.findField e.1.id = some e.1 ∧ pol.offered e.1 e.2) →
        (es.foldl takeOver s).Valid pol d := by
    intro es
    induction es with
    | nil => exact fun s hs _ => hs
    | cons e es ih =>
      intro s hs hes
      obtain ⟨hfind, hoffer⟩ := hes e List.mem_cons_self
      refine ih _ ?_ fun e' he' => hes e' (List.mem_cons_of_mem e he')
      unfold takeOver
      split
      case isTrue hvalid =>
        exact hs.putWorking hfind
          (haccepts e.1 (NamespaceDecl.findField_mem hfind) e.2 hvalid hoffer).2
      case isFalse => exact hs
  rw [unpackNamespaceWorking_eq]
  exact hfold _ s h fun e he => ⟨fileValues_mem env d _ e he, hoffered e he⟩

/-- The file a load of a namespace reads offers what the policy has. -/
def LoadOffers (pol : Policy R) (env : Env F) (d : NamespaceDecl R) (p : Provisioner R F) : Prop :=
  ∀ raw, (Provisioner.onStorage none (readNamespaceFile env d.id) p).1 = .value (some raw) →
    FileOffers pol env d raw

/-- `load_namespace` -/
theorem loadNamespace_sound (env : Env F) (happ : WellRegistered pol ds J) {d : NamespaceDecl R}
    (hd : d ∈ ds) {p : Provisioner R F} (h : Sound pol ds J p) (hoffered : LoadOffers pol env d p) :
    Sound pol ds J (Provisioner.loadNamespace env d p).2 := by
  unfold LoadOffers at hoffered
  have hstorage : Sound pol ds J (Provisioner.onStorage none (readNamespaceFile env d.id) p).2 :=
    onStorage_sound none (readNamespaceFile env d.id) p h
  unfold Provisioner.loadNamespace
  rw [Prog.bind_run]
  rcases hread : Provisioner.onStorage none (readNamespaceFile env d.id) p
    with ⟨raw | _ | _ | _, q⟩ <;> rw [hread] at hoffered hstorage
  case value =>
    cases raw with
    | none => exact hstorage
    | some raw =>
      have hvalid := unpackNamespaceWorking_valid env (happ.accepts d hd) (hoffered raw rfl)
        (hstorage.states d hd)
      refine hstorage.setState hd ?_
      split
      · exact hvalid.markClean
      · exact hvalid
  all_goals exact hstorage

/-- Every file that is loaded offers what the policy has. -/
def LoadsOffer (pol : Policy R) (env : Env F) : List (NamespaceDecl R) → Provisioner R F → Prop
  | [], _ => True
  | d :: ds, p => LoadOffers pol env d p ∧ LoadsOffer pol env ds (Provisioner.loadNamespace env d p).2

/-- Loading the files of namespaces one after the other keeps the provisioner sound. -/
theorem loads_sound (env : Env F) (happ : WellRegistered pol ds J) {es : List (NamespaceDecl R)}
    (hes : ∀ d ∈ es, d ∈ ds) {p : Provisioner R F} (h : Sound pol ds J p)
    (hoffered : LoadsOffer pol env es p) (loaded : Nat) :
    Sound pol ds J (Prog.fold es loaded (fun loaded d => do
      let ok ← Provisioner.loadNamespace env d
      pure (if ok then loaded + 1 else loaded)) p).2 := by
  induction es generalizing p loaded with
  | nil => exact h
  | cons d es ih =>
    obtain ⟨hone, hrest⟩ := hoffered
    have hloaded := loadNamespace_sound env happ (hes d List.mem_cons_self) h hone
    show Sound pol ds J (((Provisioner.loadNamespace env d >>= fun ok => _) >>= fun loaded =>
      Prog.fold es loaded _) p).2
    rw [Prog.bind_assoc_run, Prog.bind_run]
    rcases hrun : Provisioner.loadNamespace env d p with ⟨ok | _ | _ | _, q⟩ <;>
      rw [hrun] at hloaded hrest
    case value => exact ih (fun d' hd' => hes d' (List.mem_cons_of_mem d hd')) hloaded hrest _
    all_goals exact hloaded

/-- `load_all` -/
theorem loadAll_sound (env : Env F) (happ : WellRegistered pol ds J) {p : Provisioner R F}
    (h : Sound pol ds J p)
    (hoffered : LoadsOffer pol env ds (Provisioner.onStorage true (ensureDirectory env) p).2) :
    Sound pol ds J (Provisioner.loadAll env p).2 := by
  have hstorage : Sound pol ds J (Provisioner.onStorage true (ensureDirectory env) p).2 :=
    onStorage_sound true (ensureDirectory env) p h
  unfold Provisioner.loadAll
  rw [Prog.get_bind_run, Prog.bind_run]
  rcases hread : Provisioner.onStorage true (ensureDirectory env) p
    with ⟨there | _ | _ | _, q⟩ <;> rw [hread] at hoffered hstorage
  case value =>
    cases there with
    | false => exact hstorage
    | true =>
      rw [h.decls]
      exact loads_sound env happ (fun d hd => hd) hstorage hoffered 0
  all_goals exact hstorage

/-- `apply_loaded_to_runtime` -/
theorem applyLoadedToRuntime_sound (happ : WellRegistered pol ds J) :
    KeepsSound (F := F) pol ds J Provisioner.applyLoadedToRuntime := by
  intro p h
  unfold Provisioner.applyLoadedToRuntime
  rw [Prog.get_bind_run]
  refine (?_ : KeepsSound pol ds J _) p h
  refine Prog.Keeps.forEach KeepsSound.refl KeepsSound.trans _ fun d hd => ?_
  have hd : d ∈ ds := h.decls ▸ hd
  refine Prog.Keeps.forEach KeepsSound.refl KeepsSound.trans _ fun f hf => ?_
  intro q hq
  unfold Provisioner.applyLoadedField
  rw [Prog.get_bind_run]
  cases hsetter : f.setter with
  | none => exact hq
  | some setter =>
    show Sound pol ds J ((Prog.when _ _ : Prog String (Provisioner R F) Unit) q).2
    by_cases hpush : (!f.hasFlag ffReadOnly && !f.hasFlag ffWriteOnly
        && !((q.stateOf d.id).workingValue f.id).isNone
        && !((q.stateOf d.id).workingValue f.id).eq (f.seed q.runtime)) = true
    case neg =>
      rw [Prog.when_of_not hpush]
      exact hq
    case pos =>
      have hallowed : pol.working f ((q.stateOf d.id).workingValue f.id) := by
        unfold NamespaceState.workingValue at hpush ⊢
        cases hworking : (q.stateOf d.id).working.lookup f.id with
        | none => simp [hworking, Value.isNone, Value.type] at hpush
        | some v =>
          obtain ⟨g, hg, hv⟩ := (hq.states d hd).working f.id v hworking
          rw [NamespaceDecl.findField_of_mem hf] at hg
          cases hg
          exact hv
      rw [Prog.when_of hpush]
      refine onNamespace_sound hd (fun x hx hr => ?_) q hq
      rw [Prog.catching_pure_state]
      exact Prog.Keeps.bind KeepsSoundAt.trans (callSetter_sound happ hd hf hsetter hallowed)
        (fun _ => Prog.Keeps.pure KeepsSoundAt.refl ()) x ⟨hx, hr⟩

/-- `begin` -/
theorem start_sound (env : Env F) (happ : WellRegistered pol ds J) {p : Provisioner R F}
    (h : Sound pol ds J p)
    (hoffered : LoadsOffer pol env ds (Provisioner.onStorage true (ensureDirectory env) p).2) :
    Sound pol ds J (Provisioner.start env p).2 := by
  have hloaded := loadAll_sound env happ h hoffered
  unfold Provisioner.start
  rw [Prog.get_bind_run]
  by_cases hstarted : p.started = false
  case neg =>
    rw [Prog.when_of_not hstarted]
    exact h
  case pos =>
    have hrest : KeepsSound (F := F) pol ds J (Provisioner.applyLoadedToRuntime >>= fun _ =>
        Prog.modify fun p => { p with
          needsReboot := false, schemaHash := Provisioner.packedSchemaHash env p.decls
          started := true }) :=
      Prog.Keeps.bind KeepsSound.trans (applyLoadedToRuntime_sound happ) fun _ q hq =>
        ⟨hq.decls, hq.states, hq.runtime, hq.callbacks⟩
    rw [Prog.when_of hstarted, Prog.bind_run]
    rcases hrun : Provisioner.loadAll env p with ⟨loaded | _ | _ | _, q⟩ <;> rw [hrun] at hloaded
    case value => exact hrest q hloaded
    all_goals exact hloaded

end Invariant

/-! ## Runs -/

/-- A step of a run that offers what the policy has; `Changes` is what the application may do to the
runtime on its own. -/
inductive Step (pol : Policy R) (Changes : R → R → Prop) (env : Env F) :
    Provisioner R F → Provisioner R F → Prop
  | setField (p) (nsId : NamespaceId) (fieldId : FieldId) (v : Value)
      (offered : ∀ d ∈ p.decls, ∀ f ∈ d.fields, d.id = nsId → f.id = fieldId → pol.offered f v) :
      Step pol Changes env p (Provisioner.setField nsId fieldId v p).2
  | request (p) (request : Bytes) (offered : RequestOffers pol env p.decls (env.decode request)) :
      Step pol Changes env p (handleMessage env request p).2
  | commit (p) (id : NamespaceId) : Step pol Changes env p (Provisioner.commit env id p).2
  | discard (p) (id : NamespaceId) : Step pol Changes env p (Provisioner.discard id p).2
  | factoryReset (p) : Step pol Changes env p (Provisioner.factoryReset env p).2
  | loadAll (p) (offered : LoadsOffer pol env p.decls
      (Provisioner.onStorage true (ensureDirectory env) p).2) :
      Step pol Changes env p (Provisioner.loadAll env p).2
  | start (p) (offered : LoadsOffer pol env p.decls
      (Provisioner.onStorage true (ensureDirectory env) p).2) :
      Step pol Changes env p (Provisioner.start env p).2
  | runtime (p) (r : R) (changes : Changes p.runtime r) :
      Step pol Changes env p { p with runtime := r }

section Runs

variable {pol : Policy R} {Changes : R → R → Prop} {ds : List (NamespaceDecl R)} {J : R → Prop}

/-- Every step keeps the provisioner sound: a request, a commit from within, a reset, a load, or a change
of the runtime that keeps its invariant. -/
theorem step_sound {env : Env F} (happ : WellRegistered pol ds J)
    (hJ : ∀ r r', Changes r r' → J r → J r') {p q : Provisioner R F}
    (hstep : Step pol Changes env p q) (h : Sound pol ds J p) : Sound pol ds J q := by
  have hdecls := h.decls
  cases hstep with
  | setField nsId fieldId v offered =>
    exact setField_sound happ h nsId fieldId v (hdecls ▸ offered)
  | request request offered =>
    have hobjects := handleObjects_sound env happ h (hdecls ▸ offered)
    unfold handleMessage
    rw [Prog.bind_pure_run]
    exact hobjects
  | commit id => exact commit_sound env happ id p h
  | discard id => exact discard_sound id p h
  | factoryReset => exact factoryReset_sound env happ p h
  | loadAll offered => exact loadAll_sound env happ h (hdecls ▸ offered)
  | start offered => exact start_sound env happ h (hdecls ▸ offered)
  | runtime r changes => exact ⟨h.decls, h.states, hJ _ r changes h.runtime, h.callbacks⟩

/-- What holds at the start of a run holds in every state it reaches. -/
theorem run_sound {env : Env F} (happ : WellRegistered pol ds J)
    (hJ : ∀ r r', Changes r r' → J r → J r') {p q : Provisioner R F}
    (hrun : Relation.ReflTransGen (Step pol Changes env) p q) (h : Sound pol ds J p) :
    Sound pol ds J q := by
  induction hrun with
  | refl => exact h
  | tail _ hstep ih => exact step_sound happ hJ hstep ih

end Runs

/-- Newly registered fields hold their seeds. -/
theorem registered_valid {pol : Policy R} {d : NamespaceDecl R} {r : R}
    (hseeds : ∀ f ∈ d.fields, pol.working f (f.seed r)) : (d.registered r).Valid pol d := by
  have hfold : ∀ (fs : List (Field R)) (working : FieldMap), (∀ f ∈ fs, f ∈ d.fields) →
      NamespaceState.Allowed pol.working d working →
      NamespaceState.Allowed pol.working d
        (fs.foldl (fun working f => working.insert f.id (f.seed r)) working) := by
    intro fs
    induction fs with
    | nil => exact fun _ _ h => h
    | cons f fs ih =>
      intro working hfs h
      refine ih _ (fun g hg => hfs g (List.mem_cons_of_mem f hg)) fun id v hv => ?_
      have hf := hfs f List.mem_cons_self
      by_cases heq : id = f.id
      · subst heq
        rw [AList.lookup_insert] at hv
        cases hv
        exact ⟨f, NamespaceDecl.findField_of_mem hf, hseeds f hf⟩
      · rw [AList.lookup_insert_ne heq] at hv
        exact h id v hv
  exact ⟨fun _ _ hv => (by cases hv),
    hfold d.fields ∅ (fun _ hf => hf) fun _ _ hv => (by cases hv)⟩

end MicroReticulum.Provisioning
