import MicroReticulum.Provisioning.Settings
import MicroReticulum.Provisioning.Payload
import MicroReticulum.Library.Relational

/-!
# Two devices that differ in their secrets

`Alike` relates two provisioners with the same registration whose states differ only in the values of
`FF_SECRET` fields, working or draft; what is in their files may differ in any way. Every response is
compared in both. The responses are equal as long as no draft of a secret field is reported, which is
what the `Discreet` conditions say of a request and the state before it.

The application is a parameter: `Respects` says that its setters, getters, hooks and callbacks do not
turn the value of a secret field into something else than runtime state related by `RR`, as far as a
request can lead to them. What the device does with a secret at its next boot is not looked at, nor is
what can be told from the time an answer takes.
-/

namespace MicroReticulum.Provisioning

open MicroReticulum Library

variable {R F : Type}

/-! ## States that differ in secrets -/

/-- Is the id that of an `FF_SECRET` field? -/
def NamespaceDecl.isSecret (d : NamespaceDecl R) (id : FieldId) : Bool :=
  match d.findField id with
  | some f => f.hasFlag ffSecret
  | none => false

/-- A field is found by its id, so the namespace calls it secret exactly if its flag does. -/
theorem NamespaceDecl.isSecret_of_mem {d : NamespaceDecl R} {f : Field R} (h : f ∈ d.fields) :
    d.isSecret f.id = f.hasFlag ffSecret := by
  unfold isSecret
  rw [findField_of_mem h]

/-- The drafts of the secret fields pass their own checks. -/
def NamespaceState.SecretsValid (d : NamespaceDecl R) (s : NamespaceState) : Prop :=
  ∀ f ∈ d.fields, f.hasFlag ffSecret = true → ∀ v, s.draft.lookup f.id = some v →
    f.validate v = true

/-- The states of a namespace on two devices. -/
structure NamespaceState.Alike (d : NamespaceDecl R) (s₁ s₂ : NamespaceState) : Prop where
  working : ∀ id, d.isSecret id = false → s₁.working.lookup id = s₂.working.lookup id
  draft : ∀ id, d.isSecret id = false → s₁.draft.lookup id = s₂.draft.lookup id
  /-- a secret field has a draft on both or on none -/
  pending : ∀ id, s₁.hasDraft id = s₂.hasDraft id
  valid₁ : s₁.SecretsValid d
  valid₂ : s₂.SecretsValid d

/-- Two devices that differ in their secrets; `RR` relates their runtimes. -/
structure Provisioner.Alike (ds : List (NamespaceDecl R)) (RR : R → R → Prop)
    (p₁ p₂ : Provisioner R F) : Prop where
  decls₁ : p₁.decls = ds
  decls₂ : p₂.decls = ds
  states : ∀ d ∈ ds, NamespaceState.Alike d (p₁.stateOf d.id) (p₂.stateOf d.id)
  runtime : RR p₁.runtime p₂.runtime
  started : p₁.started = p₂.started
  needsReboot : p₁.needsReboot = p₂.needsReboot
  schemaHash : p₁.schemaHash = p₂.schemaHash
  onRebootRequired : p₁.onRebootRequired = p₂.onRebootRequired
  onReboot : p₁.onReboot = p₂.onReboot
  onFactoryReset : p₁.onFactoryReset = p₂.onFactoryReset
  /-- the callbacks do not tell secrets apart -/
  callbacks : ∀ m, p₁.onRebootRequired = some m ∨ p₁.onReboot = some m
    ∨ p₁.onFactoryReset = some m → Prog.Related RR Eq m m

/-- A namespace's state and the runtime, as a setter or a hook finds them. -/
def NamespaceAlike (d : NamespaceDecl R) (RR : R → R → Prop) (x₁ x₂ : NamespaceState × R) : Prop :=
  NamespaceState.Alike d x₁.1 x₂.1 ∧ RR x₁.2 x₂.2

/-- The value of the field is read through its getter, not from what was committed last. -/
def Field.ReadLive (f : Field R) : Prop :=
  f.hasFlag ffRebootRequired = false ∧ f.hasFlag ffWriteOnly = false

/-- A commit calls the setter of the field. -/
def Field.SetByCommit (f : Field R) : Prop :=
  f.hasFlag ffReadOnly = false ∧ (f.hasFlag ffWriteOnly = true ∨ f.hasFlag ffLiveApply = true)

/-- A factory reset calls the setter of the field, with the default. -/
def Field.SetByReset (f : Field R) : Prop :=
  f.hasFlag ffReadOnly = false ∧ f.hasFlag ffWriteOnly = false ∧ f.defaultValue.isNone = false

/-- The getter and the setter of a field keep runtimes related, and what they answer does not depend on the
value of a secret. Only the calls that a request can lead to are spoken of: the setter of a secret field
that takes effect with the next boot may do with the secret what it likes. -/
structure Field.Respects (RR : R → R → Prop) (f : Field R) : Prop where
  getter : f.hasFlag ffSecret = false → f.ReadLive → ∀ getter, f.getter = some getter →
    ∀ r₁ r₂, RR r₁ r₂ → getter r₁ = getter r₂
  /-- a commit has checked the value -/
  setter : f.SetByCommit → ∀ setter, f.setter = some setter → ∀ v₁ v₂, f.validate v₁ = true →
    f.validate v₂ = true → v₁ = v₂ ∨ f.hasFlag ffSecret = true → Prog.Related RR Eq (setter v₁) (setter v₂)
  reset : f.SetByReset → ∀ setter, f.setter = some setter →
    Prog.Related RR Eq (setter f.defaultValue) (setter f.defaultValue)

/-- The application keeps runtimes related, and its answers do not depend on the value of a secret. -/
structure Respects (ds : List (NamespaceDecl R)) (RR : R → R → Prop) : Prop where
  fields : ∀ d ∈ ds, ∀ f ∈ d.fields, f.Respects RR
  onCommit : ∀ d ∈ ds, ∀ hook, d.onCommit = some hook →
    Prog.Related (NamespaceAlike d RR) Eq (hook d.fields) (hook d.fields)

/-! ## Single states -/

namespace NamespaceState

variable {d : NamespaceDecl R} {s₁ s₂ : NamespaceState}

/-- States that are alike have drafts in the same places, so one has any if the other has. -/
theorem Alike.hasAnyDraft (h : Alike d s₁ s₂) : s₁.hasAnyDraft = s₂.hasAnyDraft := by
  rw [Bool.eq_iff_iff, hasAnyDraft_iff, hasAnyDraft_iff]
  exact exists_congr fun id => by rw [h.pending id]

/-- Whether a draft asks for a reboot is said by the flags of its field, which are the same. -/
theorem Alike.draftHasReboot (h : Alike d s₁ s₂) : d.draftHasReboot s₁ = d.draftHasReboot s₂ := by
  have hkeys : ∀ id, id ∈ s₁.draft.keys ↔ id ∈ s₂.draft.keys := by
    intro id
    rw [← AList.mem_keys, ← AList.mem_keys, ← AList.lookup_isSome, ← AList.lookup_isSome]
    exact Bool.eq_iff_iff.mp (h.pending id)
  unfold NamespaceDecl.draftHasReboot
  rw [Bool.eq_iff_iff, List.any_eq_true, List.any_eq_true]
  exact exists_congr fun id => and_congr_left fun _ => hkeys id

/-- The value of a field that is no secret is the same in states that are alike. -/
theorem Alike.workingValue (h : Alike d s₁ s₂) {f : Field R} (hf : f ∈ d.fields)
    (hsecret : f.hasFlag ffSecret = false) : s₁.workingValue f.id = s₂.workingValue f.id := by
  unfold NamespaceState.workingValue
  rw [h.working f.id ((NamespaceDecl.isSecret_of_mem hf).trans hsecret)]

/-- Removing a draft leaves the secret drafts that remain valid. -/
theorem SecretsValid.eraseDraft {s : NamespaceState} (h : s.SecretsValid d) (id : FieldId) :
    (s.eraseDraft id).SecretsValid d := by
  intro f hf hsecret v hv
  rw [lookup_eraseDraft] at hv
  split at hv
  · cases hv
  · exact h f hf hsecret v hv

/-- A draft that is put in is valid if it is a secret, so the secret drafts stay valid. -/
theorem SecretsValid.insertDraft {s : NamespaceState} (h : s.SecretsValid d) {f : Field R}
    (hf : f ∈ d.fields) {v : Value} (hv : f.hasFlag ffSecret = true → f.validate v = true) :
    (s.insertDraft f.id v).SecretsValid d := by
  intro g hg hsecret w hw
  rw [lookup_insertDraft] at hw
  split at hw
  case isTrue heq =>
    have hsame : g = f := Option.some.inj <|
      (NamespaceDecl.findField_of_mem hg).symm.trans (heq ▸ NamespaceDecl.findField_of_mem hf)
    cases hw
    subst hsame
    exact hv hsecret
  case isFalse => exact h g hg hsecret w hw

/-- The same draft can be removed from both states. -/
theorem Alike.eraseDraft (h : Alike d s₁ s₂) (id : FieldId) :
    Alike d (s₁.eraseDraft id) (s₂.eraseDraft id) := by
  refine ⟨h.working, fun other hother => ?_, fun other => ?_, h.valid₁.eraseDraft id,
    h.valid₂.eraseDraft id⟩
  · rw [lookup_eraseDraft, lookup_eraseDraft, h.draft other hother]
  · have hpending := h.pending other
    unfold hasDraft at hpending ⊢
    rw [lookup_eraseDraft, lookup_eraseDraft]
    split
    · rfl
    · exact hpending

/-- The same draft, or two secret ones that are both valid, can be put into both states. -/
theorem Alike.insertDraft (h : Alike d s₁ s₂) {f : Field R} (hf : f ∈ d.fields) {v₁ v₂ : Value}
    (hv : v₁ = v₂ ∧ f.hasFlag ffSecret = false ∨ f.validate v₁ = true ∧ f.validate v₂ = true
      ∧ f.hasFlag ffSecret = true) :
    Alike d (s₁.insertDraft f.id v₁) (s₂.insertDraft f.id v₂) := by
  refine ⟨h.working, fun other hother => ?_, fun other => ?_,
    h.valid₁.insertDraft hf fun hsecret => ?_, h.valid₂.insertDraft hf fun hsecret => ?_⟩
  · rw [lookup_insertDraft, lookup_insertDraft, h.draft other hother]
    split
    case isTrue heq =>
      rw [heq, NamespaceDecl.isSecret_of_mem hf] at hother
      rcases hv with ⟨rfl, -⟩ | ⟨-, -, hsecret⟩
      · rfl
      · rw [hsecret] at hother
        cases hother
    case isFalse => rfl
  · have hpending := h.pending other
    unfold hasDraft at hpending ⊢
    rw [lookup_insertDraft, lookup_insertDraft]
    split
    · rfl
    · exact hpending
  · rcases hv with ⟨-, hopen⟩ | ⟨hvalid, -, -⟩
    · rw [hsecret] at hopen
      cases hopen
    · exact hvalid
  · rcases hv with ⟨-, hopen⟩ | ⟨-, hvalid, -⟩
    · rw [hsecret] at hopen
      cases hopen
    · exact hvalid

theorem Alike.clearDraft (h : Alike d s₁ s₂) : Alike d s₁.clearDraft s₂.clearDraft :=
  ⟨h.working, fun _ _ => rfl, fun _ => rfl, fun _ _ _ _ hv => (by cases hv),
    fun _ _ _ _ hv => (by cases hv)⟩

/-- The same value, or two of a secret field, can be put into both states. -/
theorem Alike.putWorking (h : Alike d s₁ s₂) (id : FieldId) {v₁ v₂ : Value}
    (hv : d.isSecret id = false → v₁ = v₂) :
    Alike d (s₁.putWorking id v₁) (s₂.putWorking id v₂) := by
  refine ⟨fun other hother => ?_, h.draft, h.pending, h.valid₁, h.valid₂⟩
  rw [lookup_putWorking, lookup_putWorking, h.working other hother]
  split
  case isTrue heq => rw [hv (heq ▸ hother)]
  case isFalse => rfl

end NamespaceState

/-! ## Values -/

section Values

variable {ds : List (NamespaceDecl R)} {RR : R → R → Prop} {d : NamespaceDecl R}

/-- The value a namespace is left with for a field that is no secret is the same for runtimes that are alike. -/
theorem settledValue_alike (happ : Respects ds RR) (hd : d ∈ ds) {f : Field R} (hf : f ∈ d.fields)
    (hsecret : f.hasFlag ffSecret = false) {s₁ s₂ : NamespaceState} {r₁ r₂ : R}
    (h : NamespaceState.Alike d s₁ s₂) (hr : RR r₁ r₂) :
    d.settledValue s₁ r₁ f = d.settledValue s₂ r₂ f := by
  have hworking := h.workingValue hf hsecret
  unfold NamespaceDecl.settledValue NamespaceDecl.effective
  rw [NamespaceDecl.findField_of_mem hf]
  split
  · exact hworking
  · next hreboot =>
    simp only
    split
    · rfl
    · next hwrite =>
      have hlive : f.ReadLive := ⟨Bool.eq_false_iff.mpr hreboot, Bool.eq_false_iff.mpr hwrite⟩
      cases hgetter : f.getter with
      | none => exact hworking
      | some getter => exact (happ.fields d hd f hf).getter hsecret hlive getter hgetter r₁ r₂ hr

variable {p₁ p₂ : Provisioner R F}

/-- A response reports the same value in both runs: nothing of a secret field, and of the others what is the same. -/
theorem reportedValue_alike (happ : Respects ds RR) (h : Provisioner.Alike ds RR p₁ p₂)
    (hd : d ∈ ds) {f : Field R} (hf : f ∈ d.fields) :
    reportedValue p₁ d f = reportedValue p₂ d f := by
  unfold reportedValue
  cases hsecret : f.hasFlag ffSecret with
  | true => rfl
  | false =>
    have hvalue : d.baseStateValue (p₁.stateOf d.id) p₁.runtime f
        = d.baseStateValue (p₂.stateOf d.id) p₂.runtime f :=
      settledValue_alike happ hd hf hsecret (h.states d hd) h.runtime
    rw [hvalue]

/-- The working values reported are the same. -/
theorem packNsValues_alike (happ : Respects ds RR) (h : Provisioner.Alike ds RR p₁ p₂)
    {scope : List (NamespaceDecl R)} (hscope : ∀ d ∈ scope, d ∈ ds) :
    packNsValues p₁ scope = packNsValues p₂ scope := by
  have hvalue : ∀ d ∈ scope, ∀ f ∈ d.fields, reportedValue p₁ d f = reportedValue p₂ d f :=
    fun d hd f hf => reportedValue_alike happ h (hscope d hd) hf
  have hentries : ∀ d ∈ scope, fieldEntries p₁ d = fieldEntries p₂ d := fun d hd =>
    List.countP_congr fun f hf => by rw [hvalue d hd f hf]
  unfold packNsValues
  refine congrArg _ (List.flatMap_congr fun d hd => ?_)
  rw [hentries d hd]
  refine congrArg _ (congrArg _ (List.flatMap_congr fun f hf => ?_))
  rw [hvalue d hd f hf]

/-- No draft of a secret field is pending in the namespace. -/
def NoSecretDraft (p : Provisioner R F) (d : NamespaceDecl R) : Prop :=
  ∀ f ∈ d.fields, f.hasFlag ffSecret = true → (p.stateOf d.id).hasDraft f.id = false

/-- The drafts reported are the same if none of them is secret. -/
theorem packNsDrafts_alike (h : Provisioner.Alike ds RR p₁ p₂) {scope : List (NamespaceDecl R)}
    (hscope : ∀ d ∈ scope, d ∈ ds) (hopen : ∀ d ∈ scope, NoSecretDraft p₁ d) :
    packNsDrafts p₁ scope = packNsDrafts p₂ scope := by
  have hentries : ∀ d ∈ scope, draftEntries p₁ d = draftEntries p₂ d := fun d hd =>
    List.countP_congr fun f _ => by rw [(h.states d (hscope d hd)).pending f.id]
  unfold packNsDrafts
  refine congrArg _ (List.flatMap_congr fun d hd => ?_)
  rw [hentries d hd]
  refine congrArg _ (congrArg _ (List.flatMap_congr fun f hf => ?_))
  have halike := h.states d (hscope d hd)
  cases hsecret : f.hasFlag ffSecret with
  | true =>
    have hnone₁ := hopen d hd f hf hsecret
    have hnone₂ := (halike.pending f.id).symm.trans hnone₁
    unfold NamespaceState.hasDraft at hnone₁ hnone₂
    rw [Option.isSome_eq_false_iff, Option.isNone_iff_eq_none] at hnone₁ hnone₂
    rw [hnone₁, hnone₂]
  | false => rw [halike.draft f.id ((NamespaceDecl.isSecret_of_mem hf).trans hsecret)]

/-- The namespaces with drafts are the same in both runs. -/
theorem withDrafts_alike (h : Provisioner.Alike ds RR p₁ p₂) {scope : List (NamespaceDecl R)}
    (hscope : ∀ d ∈ scope, d ∈ ds) : withDrafts p₁ scope = withDrafts p₂ scope :=
  List.filter_congr fun d hd => (h.states d (hscope d hd)).hasAnyDraft

/-- Whether some draft asks for a reboot is the same in both runs. -/
theorem draftHasReboot_alike (h : Provisioner.Alike ds RR p₁ p₂) :
    p₁.draftHasReboot = p₂.draftHasReboot := by
  rw [Provisioner.draftHasReboot_eq, Provisioner.draftHasReboot_eq, h.decls₁, h.decls₂]
  rw [Bool.eq_iff_iff, List.any_eq_true, List.any_eq_true]
  exact exists_congr fun d => and_congr_right fun hd => by
    rw [(h.states d hd).draftHasReboot]

end Values

/-! ## Programs -/

section Programs

variable {ds : List (NamespaceDecl R)} {RR : R → R → Prop} {d : NamespaceDecl R}

/-- Putting alike states of one namespace into alike devices. -/
theorem Provisioner.Alike.setState {p₁ p₂ : Provisioner R F} (h : Alike ds RR p₁ p₂)
    {s₁ s₂ : NamespaceState} (hs : NamespaceState.Alike d s₁ s₂)
    (hunique : ∀ d' ∈ ds, d'.id = d.id → d' = d) :
    Alike ds RR (p₁.setState d.id s₁) (p₂.setState d.id s₂) := by
  refine { h with
    decls₁ := (setState_decls _ _ _).trans h.decls₁
    decls₂ := (setState_decls _ _ _).trans h.decls₂
    states := fun d' hd' => ?_ }
  rw [stateOf_setState (h.decls₁.symm ▸ hd'), stateOf_setState (h.decls₂.symm ▸ hd')]
  split
  case isTrue heq =>
    rw [hunique d' hd' heq]
    exact hs
  case isFalse => exact h.states d' hd'

/-- A namespace is known by its id. -/
theorem Provisioner.Alike.unique {p₁ p₂ : Provisioner R F} (h : Alike ds RR p₁ p₂) (hd : d ∈ ds) :
    ∀ d' ∈ ds, d'.id = d.id → d' = d := by
  intro d' hd' heq
  have hnodup : (p₁.decls.map NamespaceDecl.id).Nodup := by
    have := p₁.distinct
    unfold decls
    rwa [List.map_map]
  rw [h.decls₁] at hnodup
  have hfind := NamespaceDecl.find_of_nodup hnodup hd
  rw [← heq] at hfind
  exact Option.some.inj ((NamespaceDecl.find_of_nodup hnodup hd').symm.trans hfind)

/-- A program on a namespace, on alike devices. -/
theorem onNamespace_related (hd : d ∈ ds) {α : Type} {RA : α → α → Prop}
    {m₁ m₂ : Prog String (NamespaceState × R) α}
    (hm : Prog.Related (NamespaceAlike d RR) RA m₁ m₂) :
    Prog.Related (Provisioner.Alike ds RR) RA
      (Provisioner.onNamespace d m₁ : Prog String (Provisioner R F) α)
      (Provisioner.onNamespace d m₂) := by
  refine Prog.Related.zoom hm (fun p₁ p₂ h => ⟨h.states d hd, h.runtime⟩) ?_
  rintro p₁ p₂ h ⟨s₁, r₁⟩ ⟨s₂, r₂⟩ ⟨hs, hr⟩
  exact { h.setState hs (h.unique hd) with runtime := hr }

/-- A callback that relates the runtimes relates the provisioners. -/
theorem callback_related {m : Option (Prog String R Unit)}
    (hm : ∀ c, m = some c → Prog.Related RR Eq c c) :
    Prog.Related (Provisioner.Alike ds RR) Eq
      (Provisioner.callback m : Prog String (Provisioner R F) Unit) (Provisioner.callback m) := by
  cases m with
  | none => exact Prog.Related.pure rfl
  | some c =>
    exact Prog.Related.zoom ((hm c rfl).catching fun _ => Prog.Related.pure rfl)
      (fun _ _ h => h.runtime) fun _ _ h _ _ hr => { h with runtime := hr }

/-- A change that keeps states alike keeps the namespaces alike. -/
theorem modifyState_related {g₁ g₂ : NamespaceState → NamespaceState}
    (hg : ∀ s₁ s₂, NamespaceState.Alike d s₁ s₂ → NamespaceState.Alike d (g₁ s₁) (g₂ s₂)) :
    Prog.Related (NamespaceAlike d RR) Eq (NamespaceDecl.modifyState g₁ :
      Prog String (NamespaceState × R) Unit) (NamespaceDecl.modifyState g₂) :=
  Prog.Related.modify fun _ _ h => ⟨hg _ _ h.1, h.2⟩

/-- Two values for a field: the same, or both valid and secret. -/
def ValuesAlike (f : Field R) (v₁ v₂ : Value) : Prop :=
  v₁ = v₂ ∨ (f.hasFlag ffSecret = true ∧ f.validate v₁ = true ∧ f.validate v₂ = true)

/-- A setter that answers the same and keeps the runtimes alike keeps the namespaces alike, also where it throws. -/
theorem callSetter_related {setter : Value → Prog String R Bool} {v₁ v₂ : Value}
    (h : Prog.Related RR Eq (setter v₁) (setter v₂)) :
    Prog.Related (NamespaceAlike d RR) Eq (NamespaceDecl.callSetter setter v₁)
      (NamespaceDecl.callSetter setter v₂) :=
  Prog.Related.zoom h (fun _ _ h => h.2) fun _ _ h _ _ hr => ⟨h.1, hr⟩

/-! ### Commit -/

/-- Applying a draft has the same outcome in both runs, with the same value or with two valid secret ones. -/
theorem applyDraft_related (happ : Respects ds RR) (hd : d ∈ ds) {f : Field R} (hf : f ∈ d.fields)
    (hread : f.hasFlag ffReadOnly = false) {v₁ v₂ : Value} (hv : ValuesAlike f v₁ v₂)
    (hv₁ : f.validate v₁ = true) (hv₂ : f.validate v₂ = true) :
    Prog.Related (NamespaceAlike d RR) Eq (NamespaceDecl.applyDraft f v₁)
      (NamespaceDecl.applyDraft f v₂) := by
  have hworking : d.isSecret f.id = false → v₁ = v₂ := by
    intro hopen
    rw [NamespaceDecl.isSecret_of_mem hf] at hopen
    rcases hv with rfl | ⟨hsecret, -⟩
    · rfl
    · rw [hopen] at hsecret
      cases hsecret
  have hset : f.SetByCommit → ∀ setter, f.setter = some setter →
      Prog.Related (NamespaceAlike d RR) Eq
        (do let ok ← NamespaceDecl.callSetter setter v₁
            pure (if ok then CommitOutcome.appliedLive else .setterFailed))
        (do let ok ← NamespaceDecl.callSetter setter v₂
            pure (if ok then CommitOutcome.appliedLive else .setterFailed)) := by
    intro hcommit setter hsetter
    have hcall := (happ.fields d hd f hf).setter hcommit setter hsetter v₁ v₂ hv₁ hv₂
      (hv.imp_right fun h => h.1)
    exact (callSetter_related hcall).bind fun ok₁ ok₂ hok => Prog.Related.pure (by rw [hok])
  unfold NamespaceDecl.applyDraft
  split
  · next hwrite =>
    cases hsetter : f.setter with
    | none => exact Prog.Related.pure rfl
    | some setter => exact hset ⟨hread, .inl hwrite⟩ setter hsetter
  · refine (modifyState_related fun _ _ h => h.putWorking f.id hworking).bind fun _ _ _ => ?_
    cases hlive : f.hasFlag ffLiveApply with
    | false => exact Prog.Related.pure rfl
    | true =>
      cases hsetter : f.setter with
      | none => exact Prog.Related.pure rfl
      | some setter => exact hset ⟨hread, .inr hlive⟩ setter hsetter

/-- Committing one field has the same outcome in both runs. -/
theorem commitOne_related (happ : Respects ds RR) (hd : d ∈ ds) (id : FieldId) :
    Prog.Related (NamespaceAlike d RR) Eq (d.commitOne id) (d.commitOne id) := by
  unfold NamespaceDecl.commitOne
  cases hfind : d.findField id with
  | none => exact Prog.Related.pure rfl
  | some f =>
    have hf := NamespaceDecl.findField_mem hfind
    have hid := NamespaceDecl.findField_id hfind
    intro x₁ x₂ h
    refine Prog.RelatedAt.get_bind ?_
    have hpending := h.1.pending id
    unfold NamespaceState.hasDraft at hpending
    cases h₁ : x₁.1.draft.lookup id with
    | none =>
      rw [h₁] at hpending
      have h₂ : x₂.1.draft.lookup id = none := by
        rw [← Option.isNone_iff_eq_none, ← Option.isSome_eq_false_iff]
        exact hpending.symm
      simp only [h₂]
      exact Prog.RelatedAt.pure rfl h
    | some v₁ =>
      rw [h₁] at hpending
      obtain ⟨v₂, h₂⟩ := Option.isSome_iff_exists.mp hpending.symm
      have hv : ValuesAlike f v₁ v₂ := by
        cases hsecret : f.hasFlag ffSecret with
        | true =>
          rw [← hid] at h₁ h₂
          exact .inr ⟨hsecret, h.1.valid₁ f hf hsecret v₁ h₁, h.1.valid₂ f hf hsecret v₂ h₂⟩
        | false =>
          have hdraft := h.1.draft id (by
            rw [← hid]
            exact (NamespaceDecl.isSecret_of_mem hf).trans hsecret)
          rw [h₁, h₂] at hdraft
          exact .inl (Option.some.inj hdraft)
      have hvalid : f.validate v₁ = f.validate v₂ := by
        rcases hv with rfl | ⟨-, hv₁, hv₂⟩
        · rfl
        · rw [hv₁, hv₂]
      simp only [h₂, ← hvalid]
      have herase : Prog.Related (NamespaceAlike d RR) Eq
          (NamespaceDecl.modifyState (.eraseDraft id)) (NamespaceDecl.modifyState (.eraseDraft id)) :=
        modifyState_related fun _ _ h => NamespaceState.Alike.eraseDraft h id
      split
      · exact (herase.bind fun _ _ _ => Prog.Related.pure rfl) x₁ x₂ h
      · next hread =>
        split
        · exact Prog.RelatedAt.pure rfl h
        · next hchecked =>
          have hv₁ : f.validate v₁ = true := by simpa using hchecked
          exact (herase.bind fun _ _ _ => applyDraft_related happ hd hf (Bool.eq_false_iff.mpr hread) hv hv₁
            (hvalid ▸ hv₁)) x₁ x₂ h

end Programs

/-! ## Files -/

/-- The file operations end, with a result or an exception. -/
structure FileSystem.Answer (fs : FileSystem F) : Prop where
  directoryExists : ∀ path, Prog.Answers (fs.directoryExists path)
  createDirectory : ∀ path, Prog.Answers (fs.createDirectory path)
  fileExists : ∀ path, Prog.Answers (fs.fileExists path)
  removeFile : ∀ path, Prog.Answers (fs.removeFile path)
  writeFile : ∀ path data, Prog.Answers (fs.writeFile path data)
  renameFile : ∀ old new, Prog.Answers (fs.renameFile old new)

section Files

variable {env : Env F} (hfs : env.fs.Answer)
include hfs

/-- On a file system that answers, the directory is there or is made. -/
theorem ensureDirectory_value (s : F) : ∃ b, (ensureDirectory env s).1 = .value b := by
  refine Prog.Answers.catching ((hfs.directoryExists _).bind fun found => ?_) _ s
  split
  · exact Prog.Answers.pure true
  · exact hfs.createDirectory _

/-- On a file system that answers, writing a namespace comes back or throws. -/
theorem writeNamespace_answers (id : NamespaceId) (encoded : Bytes) :
    Prog.Answers (writeNamespace env id encoded) := by
  refine (hfs.writeFile _ _).bind fun wrote => ?_
  split
  · exact (hfs.removeFile _).bind fun _ => Prog.Answers.pure false
  refine (hfs.renameFile _ _).bind fun renamed => ?_
  split
  · exact Prog.Answers.pure true
  refine Prog.Answers.bind (fun s => ?_) fun _ => (hfs.renameFile _ _).bind fun again => ?_
  · exact .inl (((hfs.removeFile _).bind fun _ => Prog.Answers.pure ()).catching (fun _ => ()) s)
  split
  · exact Prog.Answers.pure true
  · exact (hfs.removeFile _).bind fun _ => Prog.Answers.pure false

/-- On a file system that answers, saving comes back with a verdict: what is thrown inside is caught. -/
theorem saveNamespaceForce_value (d : NamespaceDecl R) (s : NamespaceState) (r : R) (x : F) :
    ∃ b, (saveNamespaceForce env d s r x).1 = .value b := by
  obtain ⟨there, hthere⟩ := ensureDirectory_value hfs x
  have hrun : ensureDirectory env x = (.value there, (ensureDirectory env x).2) :=
    Prod.ext hthere rfl
  unfold saveNamespaceForce
  rw [Prog.bind_value hrun]
  split
  · exact (writeNamespace_answers hfs d.id _).catching (fun _ => false) _
  · exact ⟨false, rfl⟩

/-- On a file system that answers, removing a file comes back with a verdict. -/
theorem removeNamespace_value (id : NamespaceId) (x : F) :
    ∃ b, (removeNamespace env id x).1 = .value b := by
  have hremove : ∀ path ok, Prog.Answers (removeIfExists env path ok) := by
    intro path ok
    refine (hfs.fileExists path).bind fun found => ?_
    split
    · exact (hfs.removeFile path).bind fun _ => Prog.Answers.pure _
    · exact Prog.Answers.pure ok
  exact Prog.Answers.catching ((hremove _ _).bind fun ok => hremove _ ok) _ x

end Files

/-- Everything but the files and the flags that tell whether they are behind. -/
structure SameButFiles (p q : Provisioner R F) : Prop where
  decls : q.decls = p.decls
  working : ∀ d ∈ p.decls, (q.stateOf d.id).working = (p.stateOf d.id).working
  draft : ∀ d ∈ p.decls, (q.stateOf d.id).draft = (p.stateOf d.id).draft
  runtime : q.runtime = p.runtime
  started : q.started = p.started
  needsReboot : q.needsReboot = p.needsReboot
  schemaHash : q.schemaHash = p.schemaHash
  onRebootRequired : q.onRebootRequired = p.onRebootRequired
  onReboot : q.onReboot = p.onReboot
  onFactoryReset : q.onFactoryReset = p.onFactoryReset

theorem SameButFiles.storage (p : Provisioner R F) (storage : Option F) :
    SameButFiles p { p with storage } :=
  ⟨rfl, fun _ _ => rfl, fun _ _ => rfl, rfl, rfl, rfl, rfl, rfl, rfl, rfl⟩

/-- What happens to the files does not make devices differ in anything else. -/
theorem Provisioner.Alike.files {ds : List (NamespaceDecl R)} {RR : R → R → Prop}
    {p₁ p₂ q₁ q₂ : Provisioner R F} (h : Alike ds RR p₁ p₂) (h₁ : SameButFiles p₁ q₁)
    (h₂ : SameButFiles p₂ q₂) : Alike ds RR q₁ q₂ where
  decls₁ := h₁.decls.trans h.decls₁
  decls₂ := h₂.decls.trans h.decls₂
  states := fun d hd => by
    have hs := h.states d hd
    have hw₁ := h₁.working d (h.decls₁.symm ▸ hd)
    have hw₂ := h₂.working d (h.decls₂.symm ▸ hd)
    have hd₁ := h₁.draft d (h.decls₁.symm ▸ hd)
    have hd₂ := h₂.draft d (h.decls₂.symm ▸ hd)
    exact {
      working := by rw [hw₁, hw₂]; exact hs.working
      draft := by rw [hd₁, hd₂]; exact hs.draft
      pending := by unfold NamespaceState.hasDraft; rw [hd₁, hd₂]; exact hs.pending
      valid₁ := by unfold NamespaceState.SecretsValid; rw [hd₁]; exact hs.valid₁
      valid₂ := by unfold NamespaceState.SecretsValid; rw [hd₂]; exact hs.valid₂ }
  runtime := by rw [h₁.runtime, h₂.runtime]; exact h.runtime
  started := by rw [h₁.started, h₂.started]; exact h.started
  needsReboot := by rw [h₁.needsReboot, h₂.needsReboot]; exact h.needsReboot
  schemaHash := by rw [h₁.schemaHash, h₂.schemaHash]; exact h.schemaHash
  onRebootRequired := by rw [h₁.onRebootRequired, h₂.onRebootRequired]; exact h.onRebootRequired
  onReboot := by rw [h₁.onReboot, h₂.onReboot]; exact h.onReboot
  onFactoryReset := by rw [h₁.onFactoryReset, h₂.onFactoryReset]; exact h.onFactoryReset
  callbacks := by
    rw [h₁.onRebootRequired, h₁.onReboot, h₁.onFactoryReset]
    exact h.callbacks

/-- A file operation that ends with a value changes nothing but files. -/
theorem onStorage_run {α : Type} (default : α) {m : Prog String F α}
    (hm : ∀ x, ∃ a, (m x).1 = .value a) (p : Provisioner R F) :
    ∃ a storage, Provisioner.onStorage default m p = (.value a, { p with storage }) := by
  cases hstorage : p.storage with
  | none =>
    refine ⟨default, p.storage, ?_⟩
    simp only [Provisioner.onStorage, hstorage]
    rw [← hstorage]
  | some fs =>
    obtain ⟨a, ha⟩ := hm fs
    refine ⟨a, some (m fs).2, ?_⟩
    simp only [Provisioner.onStorage, hstorage, ha]

/-- Marking a namespace as saved changes what is known about the files alone. -/
theorem SameButFiles.markClean {p : Provisioner R F} (storage : Option F) {d : NamespaceDecl R}
    (hunique : ∀ d' ∈ p.decls, d'.id = d.id → d' = d) :
    SameButFiles p
      (Provisioner.setState d.id (p.stateOf d.id).markClean { p with storage }) := by
  have hstate : ∀ d' ∈ p.decls, (Provisioner.setState d.id (p.stateOf d.id).markClean
      { p with storage }).stateOf d'.id
        = if d'.id = d.id then (p.stateOf d.id).markClean else p.stateOf d'.id :=
    fun d' hd' => Provisioner.stateOf_setState (p := { p with storage }) hd' _ _
  refine { SameButFiles.storage p storage with
    decls := Provisioner.setState_decls _ _ _
    working := fun d' hd' => ?_
    draft := fun d' hd' => ?_ }
  · rw [hstate d' hd']
    split
    case isTrue heq => rw [hunique d' hd' heq]; rfl
    case isFalse => rfl
  · rw [hstate d' hd']
    split
    case isTrue heq => rw [hunique d' hd' heq]; rfl
    case isFalse => rfl

/-- Saving a namespace changes nothing but files. -/
theorem saveNamespace_run {env : Env F} (hfs : env.fs.Answer) {p : Provisioner R F}
    {d : NamespaceDecl R} (hunique : ∀ d' ∈ p.decls, d'.id = d.id → d' = d) :
    ∃ b q, Provisioner.saveNamespace env d p = (.value b, q) ∧ SameButFiles p q := by
  unfold Provisioner.saveNamespace
  rw [Prog.get_bind_run]
  split
  · exact ⟨true, p, rfl, SameButFiles.storage p p.storage⟩
  · obtain ⟨b, storage, hrun⟩ := onStorage_run true
      (fun x => saveNamespaceForce_value hfs d (p.stateOf d.id) p.runtime x) p
    rw [Prog.bind_value hrun]
    cases b with
    | false => exact ⟨false, _, rfl, SameButFiles.storage p storage⟩
    | true => exact ⟨true, _, rfl, SameButFiles.markClean storage hunique⟩

section Handlers

variable {ds : List (NamespaceDecl R)} {RR : R → R → Prop} {env : Env F}

/-- The progress of a commit on two devices. -/
def SameProgress (ds : List (NamespaceDecl R)) (c₁ c₂ : Provisioner.CommitProgress R) : Prop :=
  c₁ = c₂ ∧ ∀ d ∈ c₁.touched, d ∈ ds

/-- Saving keeps the provisioners alike. The verdicts need not agree, and the responses do not tell them. -/
theorem saveNamespace_related (hfs : env.fs.Answer) {d : NamespaceDecl R} (hd : d ∈ ds) :
    Prog.Related (Provisioner.Alike ds RR) (fun _ _ => True)
      (Provisioner.saveNamespace env d : Prog String (Provisioner R F) Bool)
      (Provisioner.saveNamespace env d) := by
  intro p₁ p₂ h
  have hunique := h.unique hd
  obtain ⟨b₁, q₁, hrun₁, hfiles₁⟩ := saveNamespace_run (p := p₁) hfs (h.decls₁.symm ▸ hunique)
  obtain ⟨b₂, q₂, hrun₂, hfiles₂⟩ := saveNamespace_run (p := p₂) hfs (h.decls₂.symm ▸ hunique)
  unfold Prog.RelatedAt
  rw [hrun₁, hrun₂]
  exact ⟨trivial, h.files hfiles₁ hfiles₂⟩

/-- The hook of a namespace keeps the provisioners alike, as the application is required to see to. -/
theorem runHook_related (happ : Respects ds RR) {d : NamespaceDecl R} (hd : d ∈ ds) :
    Prog.Related (Provisioner.Alike ds RR) Eq
      (Provisioner.runHook d : Prog String (Provisioner R F) Unit) (Provisioner.runHook d) := by
  intro p₁ p₂ h
  unfold Provisioner.runHook
  refine Prog.RelatedAt.get_bind ?_
  cases hhook : d.onCommit with
  | none => exact Prog.RelatedAt.pure rfl h
  | some hook =>
    refine Prog.Related.when ?_ (fun _ => onNamespace_related hd
      ((happ.onCommit d hd hook hhook).catching fun _ => Prog.Related.pure rfl)) p₁ p₂ h
    rw [(h.states d hd).hasAnyDraft]

/-- Committing a namespace makes the same progress in both runs. -/
theorem commitNamespace_related (happ : Respects ds RR) (hfs : env.fs.Answer)
    (report : Bool → Bool) {d : NamespaceDecl R} (hd : d ∈ ds)
    {c₁ c₂ : Provisioner.CommitProgress R} (hc : SameProgress ds c₁ c₂) :
    Prog.Related (Provisioner.Alike ds RR) (SameProgress ds)
      (Provisioner.commitNamespace env report d c₁ :
        Prog String (Provisioner R F) (Provisioner.CommitProgress R))
      (Provisioner.commitNamespace env report d c₂) := by
  intro p₁ p₂ h
  unfold Provisioner.commitNamespace
  refine Prog.RelatedAt.get_bind ?_
  have hbefore : (p₁.stateOf d.id).hasAnyDraft = (p₂.stateOf d.id).hasAnyDraft :=
    (h.states d hd).hasAnyDraft
  refine (runHook_related happ hd p₁ p₂ h).bind fun _ _ q₁ q₂ _ hq => ?_
  refine Prog.RelatedAt.get_bind ?_
  have hids : (d.fields.filter fun f => (q₁.stateOf d.id).hasDraft f.id)
      = d.fields.filter fun f => (q₂.stateOf d.id).hasDraft f.id :=
    List.filter_congr fun f _ => (hq.states d hd).pending f.id
  simp only [hids, hbefore]
  have hstep : ∀ id ∈ (d.fields.filter fun f => (q₂.stateOf d.id).hasDraft f.id).map Field.id,
      ∀ a₁ a₂ : Provisioner.CommitProgress R, SameProgress ds a₁ a₂ →
      Prog.Related (Provisioner.Alike ds RR) (SameProgress ds)
        (do let outcome ← (Provisioner.onNamespace d (d.commitOne id) :
              Prog String (Provisioner R F) CommitOutcome)
            pure (Provisioner.countOutcome a₁ outcome))
        (do let outcome ← (Provisioner.onNamespace d (d.commitOne id) :
              Prog String (Provisioner R F) CommitOutcome)
            pure (Provisioner.countOutcome a₂ outcome)) := by
    intro id _ a₁ a₂ ha
    refine (onNamespace_related hd (commitOne_related happ hd id)).bind fun o₁ o₂ ho =>
      Prog.Related.pure ?_
    obtain ⟨rfl, htouched⟩ := ha
    subst ho
    refine ⟨rfl, ?_⟩
    cases o₁ <;> exact htouched
  have hfold := Prog.Related.fold _ hstep hc
  refine (hfold q₁ q₂ hq).bind fun a₁ a₂ t₁ t₂ ha ht => ?_
  refine (saveNamespace_related hfs hd t₁ t₂ ht).bind fun _ _ u₁ u₂ _ hu => ?_
  obtain ⟨rfl, htouched⟩ := ha
  refine Prog.RelatedAt.pure ⟨rfl, ?_⟩ hu
  split
  · intro d' hd'
    rcases List.mem_append.mp hd' with hd' | hd'
    · exact htouched d' hd'
    · exact List.mem_singleton.mp hd' ▸ hd
  · exact htouched

theorem setRebootFlag_related (b : Bool) :
    Prog.Related (Provisioner.Alike ds RR) Eq
      (Provisioner.setRebootFlag b : Prog String (Provisioner R F) Unit)
      (Provisioner.setRebootFlag b) := by
  intro p₁ p₂ h
  unfold Provisioner.setRebootFlag
  refine Prog.RelatedAt.get_bind ?_
  refine Prog.Related.when Iff.rfl (fun _ => ?_) p₁ p₂ h
  have hflag : Prog.Related (Provisioner.Alike ds RR) Eq
      (Prog.modify fun p => { p with needsReboot := true } : Prog String (Provisioner R F) Unit)
      (Prog.modify fun p => { p with needsReboot := true }) :=
    Prog.Related.modify fun _ _ h => { h with needsReboot := rfl }
  refine hflag.bind fun _ _ _ => ?_
  rw [← h.onRebootRequired]
  exact Prog.Related.when (by rw [h.needsReboot]) fun _ =>
    callback_related fun c hc => h.callbacks c (.inl hc)

/-- Resetting a field to its default keeps the provisioners alike: the default is the same. -/
theorem resetField_related (happ : Respects ds RR) {d : NamespaceDecl R} (hd : d ∈ ds)
    {f : Field R} (hf : f ∈ d.fields) :
    Prog.Related (Provisioner.Alike ds RR) Eq
      (Provisioner.resetField d f : Prog String (Provisioner R F) Unit)
      (Provisioner.resetField d f) := by
  unfold Provisioner.resetField
  refine (onNamespace_related hd (modifyState_related fun _ _ h =>
    h.putWorking f.id fun _ => rfl)).bind fun _ _ _ => ?_
  cases hsetter : f.setter with
  | none => exact Prog.Related.pure rfl
  | some setter =>
    refine Prog.Related.when Iff.rfl fun hreset => onNamespace_related hd (Prog.Related.catching ?_
      fun _ => Prog.Related.pure rfl)
    have hset : f.SetByReset := by
      simpa only [Field.SetByReset, Bool.and_eq_true, Bool.not_eq_true', and_assoc] using hreset
    exact (callSetter_related ((happ.fields d hd f hf).reset hset setter hsetter)).bind fun _ _ _ => Prog.Related.pure rfl

/-- Marking both states as saved leaves them alike. -/
theorem NamespaceState.Alike.markClean {d : NamespaceDecl R} {s₁ s₂ : NamespaceState}
    (h : NamespaceState.Alike d s₁ s₂) : NamespaceState.Alike d s₁.markClean s₂.markClean :=
  ⟨h.working, h.draft, h.pending, h.valid₁, h.valid₂⟩

/-- Resetting a namespace field by field keeps the provisioners alike. -/
theorem resetNamespace_related (happ : Respects ds RR) {d : NamespaceDecl R} (hd : d ∈ ds) :
    Prog.Related (Provisioner.Alike ds RR) Eq
      (Provisioner.resetNamespace d : Prog String (Provisioner R F) Unit)
      (Provisioner.resetNamespace d) := by
  unfold Provisioner.resetNamespace
  refine (onNamespace_related hd (modifyState_related fun _ _ h => h.clearDraft)).bind fun _ _ _ => ?_
  refine (Prog.Related.forEach d.fields fun f hf => resetField_related happ hd hf).bind
    fun _ _ _ => ?_
  exact onNamespace_related hd (modifyState_related fun _ _ h => h.markClean)

/-- Removing the files keeps the provisioners alike, though the verdicts need not agree. -/
theorem resetStorage_related (hfs : env.fs.Answer) :
    Prog.Related (Provisioner.Alike ds RR) (fun _ _ => True)
      (Provisioner.resetStorage env : Prog String (Provisioner R F) Bool)
      (Provisioner.resetStorage env) := by
  intro p₁ p₂ h
  unfold Provisioner.resetStorage
  refine Prog.RelatedAt.get_bind ?_
  rw [h.decls₁, h.decls₂]
  have hstep : ∀ d ∈ ds, ∀ a₁ a₂ : Bool, True → Prog.Related (Provisioner.Alike ds RR)
      (fun _ _ => True)
      (do let removed ← (Provisioner.onStorage true (removeNamespace env d.id) :
            Prog String (Provisioner R F) Bool)
          pure (removed && a₁))
      (do let removed ← (Provisioner.onStorage true (removeNamespace env d.id) :
            Prog String (Provisioner R F) Bool)
          pure (removed && a₂)) := by
    intro d _ a₁ a₂ _ q₁ q₂ hq
    obtain ⟨b₁, storage₁, hrun₁⟩ := onStorage_run true (removeNamespace_value hfs d.id) q₁
    obtain ⟨b₂, storage₂, hrun₂⟩ := onStorage_run true (removeNamespace_value hfs d.id) q₂
    unfold Prog.RelatedAt
    rw [Prog.bind_value hrun₁, Prog.bind_value hrun₂]
    exact ⟨trivial, hq.files (SameButFiles.storage q₁ storage₁) (SameButFiles.storage q₂ storage₂)⟩
  exact Prog.Related.fold ds hstep trivial p₁ p₂ h

/-- A factory reset keeps the provisioners alike from its callback to the removal of the files. -/
theorem factoryReset_related (happ : Respects ds RR) (hfs : env.fs.Answer) :
    Prog.Related (Provisioner.Alike ds RR) Eq
      (Provisioner.factoryReset env : Prog String (Provisioner R F) Unit)
      (Provisioner.factoryReset env) := by
  intro p₁ p₂ h
  unfold Provisioner.factoryReset
  refine Prog.RelatedAt.get_bind ?_
  rw [h.decls₁, h.decls₂, ← h.onFactoryReset]
  refine Prog.Related.bind (Prog.Related.forEach ds fun d hd => resetNamespace_related happ hd)
    (fun _ _ _ => ?_) p₁ p₂ h
  refine (resetStorage_related hfs).bind fun _ _ _ => ?_
  refine Prog.Related.bind (Prog.Related.modify fun _ _ h => { h with needsReboot := rfl })
    fun _ _ _ => ?_
  exact callback_related fun c hc => h.callbacks c (.inr (.inr hc))

end Handlers

end MicroReticulum.Provisioning
