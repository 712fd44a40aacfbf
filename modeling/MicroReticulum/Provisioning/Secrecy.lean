import MicroReticulum.Provisioning.Secrets

/-!
# Responses do not tell secrets apart

`Provisioning.Secrets` compares what the handlers do on two devices that differ in their secrets. Here
the responses to one request are compared, where a SetState request may supply different secrets to the
two devices.

`Discreet` is the condition on a request and the state it finds: it does not ask for the drafts of a
namespace in which a draft of a secret field is pending, or becomes pending by the request itself.
Without the condition the drafts in the response tell the secrets apart.

What the application tells of a secret in other ways is not compared, nor the time a
response takes.
-/

namespace MicroReticulum.Provisioning

open MicroReticulum Library

variable {R F : Type}

/-! ## Settings that differ in secrets -/

/-- The same setting, but for the value of a secret field. -/
def Setting.SameButSecret : Setting R → Setting R → Prop
  | .write nsId₁ d₁ f₁ v₁, .write nsId₂ d₂ f₂ v₂ =>
    nsId₁ = nsId₂ ∧ d₁ = d₂ ∧ f₁ = f₂ ∧ (v₁ = v₂ ∨ f₁.hasFlag ffSecret = true)
  | x, y => x = y

theorem Setting.SameButSecret.refl (x : Setting R) : x.SameButSecret x := by
  cases x with
  | write nsId d f v => exact ⟨rfl, rfl, rfl, .inl rfl⟩
  | _ => rfl

/-- A supplied secret is valid and not the value the field already stands for. -/
def Setting.Fresh (p : Provisioner R F) : Setting R → Prop
  | .write _ d f v => f.hasFlag ffSecret = true → f.hasFlag ffReadOnly = false →
      f.validate v = true ∧ (f.hasFlag ffWriteOnly = false →
        (d.settledValue (p.stateOf d.id) p.runtime f).eq v = false)
  | _ => True

/-! ## Staging -/

/-- Staging a writable field is one change of the state if the value passes its check, and an error if not. -/
theorem stage_eq {a : SetStateRun R F} {nsId : NamespaceId} {d : NamespaceDecl R} {f : Field R}
    (hf : f ∈ d.fields) (hread : f.hasFlag ffReadOnly = false) (v : Value) :
    a.stage nsId d f v
      = if f.validate v then
          { a with
            p := a.p.setState d.id (d.stageDraft a.p.runtime f v (a.p.stateOf d.id))
            applied := a.applied + 1 }
        else a.error nsId f.id .constraintViolation := by
  unfold SetStateRun.stage NamespaceDecl.setDraft
  rw [NamespaceDecl.findField_of_mem hf]
  cases hvalid : f.validate v <;> simp [hread, hvalid]

/-- Staging leaves the working values as they are. -/
theorem stageDraft_working (d : NamespaceDecl R) (r : R) (f : Field R) (v : Value)
    (s : NamespaceState) : (d.stageDraft r f v s).working = s.working := by
  unfold NamespaceDecl.stageDraft
  split <;> rfl

/-- What a staged value leaves of the state of any namespace: its working values. -/
theorem stage_working {ds : List (NamespaceDecl R)} {a : SetStateRun R F} (ha : a.p.decls = ds)
    (nsId : NamespaceId) {d d' : NamespaceDecl R} (hd' : d' ∈ ds) {f : Field R}
    (hf : f ∈ d.fields) (v : Value) :
    ((a.stage nsId d f v).p.stateOf d'.id).working = (a.p.stateOf d'.id).working
      ∧ (a.stage nsId d f v).p.runtime = a.p.runtime := by
  cases hread : f.hasFlag ffReadOnly with
  | true =>
    have hrun : a.stage nsId d f v = a.error nsId f.id .readOnly := by
      unfold SetStateRun.stage
      rw [if_pos hread]
    rw [hrun]
    exact ⟨rfl, rfl⟩
  | false =>
    rw [stage_eq hf hread]
    split
    · refine ⟨?_, rfl⟩
      show ((a.p.setState d.id _).stateOf d'.id).working = _
      rw [Provisioner.stateOf_setState (ha.symm ▸ hd')]
      split
      case isTrue heq => rw [stageDraft_working, heq]
      case isFalse => rfl
    · exact ⟨rfl, rfl⟩

section SetState

variable {ds : List (NamespaceDecl R)} {RR : R → R → Prop} {p₁ p₂ : Provisioner R F}

/-- What every field stands for is as at the start of the request. -/
def SameSettled (ds : List (NamespaceDecl R)) (p : Provisioner R F) (a : SetStateRun R F) : Prop :=
  a.p.runtime = p.runtime ∧ ∀ d ∈ ds, (a.p.stateOf d.id).working = (p.stateOf d.id).working

/-- A SetState request on two devices, after some of its settings. -/
structure RunAlike (ds : List (NamespaceDecl R)) (RR : R → R → Prop) (p₁ p₂ : Provisioner R F)
    (a₁ a₂ : SetStateRun R F) : Prop where
  devices : Provisioner.Alike ds RR a₁.p a₂.p
  applied : a₁.applied = a₂.applied
  errors : a₁.errors = a₂.errors
  includeState : a₁.includeState = a₂.includeState
  compress : a₁.compress = a₂.compress
  sawState : a₁.sawState = a₂.sawState
  touched : a₁.touched = a₂.touched
  scope : ∀ d ∈ a₁.touched, d ∈ ds
  settled₁ : SameSettled ds p₁ a₁
  settled₂ : SameSettled ds p₂ a₂

/-- The value a namespace is left with depends on its working values and the runtime. -/
theorem settledValue_congr {d : NamespaceDecl R} {s s' : NamespaceState} (h : s.working = s'.working)
    (r : R) (f : Field R) : d.settledValue s r f = d.settledValue s' r f := by
  unfold NamespaceDecl.settledValue NamespaceDecl.effective NamespaceState.workingValue
  rw [h]

/-- While only drafts are staged, the settled values are those from before. -/
theorem SameSettled.settledValue {p : Provisioner R F} {a : SetStateRun R F} (h : SameSettled ds p a)
    {d : NamespaceDecl R} (hd : d ∈ ds) (f : Field R) :
    d.settledValue (a.p.stateOf d.id) a.p.runtime f
      = d.settledValue (p.stateOf d.id) p.runtime f := by
  rw [h.1]
  exact settledValue_congr (h.2 d hd) _ f

/-- The same error can be counted in both runs. -/
theorem RunAlike.error {a₁ a₂ : SetStateRun R F} (h : RunAlike ds RR p₁ p₂ a₁ a₂)
    (nsId : NamespaceId) (fieldId : FieldId) (code : ErrorCode) :
    RunAlike ds RR p₁ p₂ (a₁.error nsId fieldId code) (a₂.error nsId fieldId code) :=
  { h with errors := congrArg (· ++ [_]) h.errors }

/-- The same namespace can be named in both runs. -/
theorem RunAlike.touch {a₁ a₂ : SetStateRun R F} (h : RunAlike ds RR p₁ p₂ a₁ a₂)
    {d : Option (NamespaceDecl R)} (hd : ∀ d', d = some d' → d' ∈ ds) :
    RunAlike ds RR p₁ p₂ (a₁.touch d) (a₂.touch d) := by
  unfold SetStateRun.touch
  cases d with
  | none => exact h
  | some d =>
    simp only [← h.touched]
    split
    · exact h
    · refine { h with touched := rfl, scope := fun d' hd' => ?_ }
      rcases List.mem_append.mp hd' with hd' | hd'
      · exact h.scope d' hd'
      · exact List.mem_singleton.mp hd' ▸ hd d rfl

/-- Staging a value, or two different fresh secrets. -/
theorem RunAlike.stage (happ : Respects ds RR) {a₁ a₂ : SetStateRun R F}
    (h : RunAlike ds RR p₁ p₂ a₁ a₂) (nsId : NamespaceId) {d : NamespaceDecl R} (hd : d ∈ ds)
    {f : Field R} (hf : f ∈ d.fields) {v₁ v₂ : Value} (hv : v₁ = v₂ ∨ f.hasFlag ffSecret = true)
    (h₁ : (Setting.write nsId d f v₁).Fresh p₁) (h₂ : (Setting.write nsId d f v₂).Fresh p₂) :
    RunAlike ds RR p₁ p₂ (a₁.stage nsId d f v₁) (a₂.stage nsId d f v₂) := by
  cases hread : f.hasFlag ffReadOnly with
  | true =>
    unfold SetStateRun.stage
    rw [if_pos hread, if_pos hread]
    exact h.error nsId f.id .readOnly
  | false =>
    have hstates := h.devices.states d hd
    have hw₁ := fun d' (hd' : d' ∈ ds) => stage_working h.devices.decls₁ nsId hd' hf v₁
    have hw₂ := fun d' (hd' : d' ∈ ds) => stage_working h.devices.decls₂ nsId hd' hf v₂
    have hsettled₁ : SameSettled ds p₁ (a₁.stage nsId d f v₁) :=
      ⟨(hw₁ d hd).2.trans h.settled₁.1, fun d' hd' => (hw₁ d' hd').1.trans (h.settled₁.2 d' hd')⟩
    have hsettled₂ : SameSettled ds p₂ (a₂.stage nsId d f v₂) :=
      ⟨(hw₂ d hd).2.trans h.settled₂.1, fun d' hd' => (hw₂ d' hd').1.trans (h.settled₂.2 d' hd')⟩
    have hvalid : f.validate v₁ = f.validate v₂ := by
      cases hsecret : f.hasFlag ffSecret with
      | true => rw [(h₁ hsecret hread).1, (h₂ hsecret hread).1]
      | false =>
        rw [hsecret] at hv
        rw [hv.resolve_right Bool.false_ne_true]
    have hdraft : f.validate v₁ = true → NamespaceState.Alike d
        (d.stageDraft a₁.p.runtime f v₁ (a₁.p.stateOf d.id))
        (d.stageDraft a₂.p.runtime f v₂ (a₂.p.stateOf d.id)) := by
      intro hv₁
      unfold NamespaceDecl.stageDraft
      rw [h.settled₁.settledValue hd, h.settled₂.settledValue hd]
      cases hsecret : f.hasFlag ffSecret with
      | true =>
        -- a fresh secret is never taken for the current value
        have hnew : ∀ {p : Provisioner R F} {v : Value}, (Setting.write nsId d f v).Fresh p →
            (!f.hasFlag ffWriteOnly && (d.settledValue (p.stateOf d.id) p.runtime f).eq v)
              = false := by
          intro p v hfresh
          cases hwrite : f.hasFlag ffWriteOnly with
          | true => rfl
          | false => exact (hfresh hsecret hread).2 hwrite
        rw [hnew h₁, hnew h₂]
        exact hstates.insertDraft hf
          (.inr ⟨(h₁ hsecret hread).1, (h₂ hsecret hread).1, hsecret⟩)
      | false =>
        rw [hsecret] at hv
        have heq := hv.resolve_right Bool.false_ne_true
        subst heq
        have hcurrent : d.settledValue (p₁.stateOf d.id) p₁.runtime f
            = d.settledValue (p₂.stateOf d.id) p₂.runtime f := by
          rw [← h.settled₁.settledValue hd, ← h.settled₂.settledValue hd]
          exact settledValue_alike happ hd hf hsecret hstates h.devices.runtime
        rw [hcurrent]
        split
        · exact hstates.eraseDraft f.id
        · exact hstates.insertDraft hf (.inl ⟨rfl, hsecret⟩)
    rw [stage_eq hf hread] at hsettled₁ hsettled₂ ⊢
    rw [stage_eq hf hread]
    rw [← hvalid] at hsettled₂ ⊢
    cases hv₁ : f.validate v₁ with
    | true =>
      rw [hv₁] at hsettled₁ hsettled₂
      exact { h with
        devices := h.devices.setState (hdraft hv₁) (h.devices.unique hd)
        applied := congrArg (· + 1) h.applied
        settled₁ := hsettled₁
        settled₂ := hsettled₂ }
    | false => exact h.error nsId f.id .constraintViolation

/-- Settings that are the same but for the values of secrets keep the runs alike. -/
theorem RunAlike.apply (happ : Respects ds RR) {a₁ a₂ : SetStateRun R F}
    (h : RunAlike ds RR p₁ p₂ a₁ a₂) {x₁ x₂ : Setting R} (hx : x₁.SameButSecret x₂)
    (hreg : x₁.Registered ds) (h₁ : x₁.Fresh p₁) (h₂ : x₂.Fresh p₂) :
    RunAlike ds RR p₁ p₂ (a₁.apply x₁) (a₂.apply x₂) := by
  cases x₁ with
  | write nsId d f v₁ =>
    cases x₂ with
    | write nsId₂ d₂ f₂ v₂ =>
      obtain ⟨rfl, rfl, rfl, hv⟩ := hx
      exact h.stage happ nsId hreg.1 hreg.2 hv h₁ h₂
    | _ => cases hx
  | includeState b =>
    obtain rfl : .includeState b = x₂ := hx
    exact { h with includeState := rfl }
  | compress b =>
    obtain rfl : .compress b = x₂ := hx
    exact { h with compress := rfl }
  | state =>
    obtain rfl : .state = x₂ := hx
    exact { h with sawState := rfl }
  | touch d =>
    obtain rfl : .touch d = x₂ := hx
    refine h.touch fun d' hd' => ?_
    subst hd'
    exact hreg
  | refuse nsId fieldId code =>
    obtain rfl : .refuse nsId fieldId code = x₂ := hx
    exact h.error nsId fieldId code

/-- A run over settings that differ in secrets. -/
theorem RunAlike.foldl (happ : Respects ds RR) {xs₁ xs₂ : List (Setting R)}
    (hxs : List.Forall₂ Setting.SameButSecret xs₁ xs₂) {a₁ a₂ : SetStateRun R F}
    (h : RunAlike ds RR p₁ p₂ a₁ a₂) (hreg : ∀ x ∈ xs₁, x.Registered ds)
    (h₁ : ∀ x ∈ xs₁, x.Fresh p₁) (h₂ : ∀ x ∈ xs₂, x.Fresh p₂) :
    RunAlike ds RR p₁ p₂ (xs₁.foldl .apply a₁) (xs₂.foldl .apply a₂) := by
  induction hxs generalizing a₁ a₂ with
  | nil => exact h
  | cons hx _ ih =>
    rw [List.forall_mem_cons] at hreg h₁ h₂
    exact ih (h.apply happ hx hreg.1 h₁.1 h₂.1) hreg.2 h₁.2 h₂.2

/-! ### Where a response looks -/

/-- Does the payload ask for the state after the operation? -/
def asksState (xs : List (Setting R)) : Bool :=
  xs.foldl (fun b x => match x with | .includeState b' => b' | _ => b) false

/-- Whether the state is asked for is decided by the last setting that says so. -/
theorem includeState_foldl (xs : List (Setting R)) (a : SetStateRun R F) :
    (xs.foldl .apply a).includeState
      = xs.foldl (fun b x => match x with | .includeState b' => b' | _ => b) a.includeState := by
  induction xs generalizing a with
  | nil => rfl
  | cons x xs ih =>
    rw [List.foldl_cons, List.foldl_cons, ih]
    congr 1
    cases x with
    | touch d =>
      show (a.touch d).includeState = a.includeState
      unfold SetStateRun.touch
      split
      · rfl
      · split <;> rfl
    | write nsId d f v => exact (stage_options nsId d f v a).1
    | _ => rfl

/-- A namespace is reported if it was before, or if a setting names it. -/
theorem touched_foldl (xs : List (Setting R)) (a : SetStateRun R F) :
    ∀ d ∈ (xs.foldl .apply a).touched, d ∈ a.touched ∨ .touch (some d) ∈ xs := by
  induction xs generalizing a with
  | nil => exact fun d hd => .inl hd
  | cons x xs ih =>
    intro d hd
    rcases ih (a.apply x) d hd with hd | hd
    · cases x with
      | touch d' =>
        have hd' : d ∈ (a.touch d').touched := hd
        unfold SetStateRun.touch at hd'
        split at hd'
        · exact .inl hd'
        · split at hd'
          · exact .inl hd'
          · rcases List.mem_append.mp hd' with hd' | hd'
            · exact .inl hd'
            · exact .inr (List.mem_singleton.mp hd' ▸ List.mem_cons_self)
      | write nsId d' f v => exact .inl ((stage_options nsId d' f v a).2 ▸ hd)
      | _ => exact .inl hd
    · exact .inr (List.mem_cons_of_mem x hd)

/-- A field that is not written gets no draft. -/
theorem stage_hasDraft {a : SetStateRun R F} (hunique : ∀ d d', d ∈ a.p.decls → d' ∈ a.p.decls →
      d'.id = d.id → d' = d) {d d' : NamespaceDecl R} (hd : d ∈ a.p.decls) (hd' : d' ∈ a.p.decls)
    {f f' : Field R} (hf : f ∈ d.fields) (hf' : f' ∈ d'.fields) (nsId : NamespaceId) (v : Value)
    (hother : f'.hasFlag ffReadOnly = true ∨ ¬ (d' = d ∧ f' = f))
    (hnone : (a.p.stateOf d.id).hasDraft f.id = false) :
    ((a.stage nsId d' f' v).p.stateOf d.id).hasDraft f.id = false := by
  cases hread : f'.hasFlag ffReadOnly with
  | true =>
    unfold SetStateRun.stage
    rw [if_pos hread]
    exact hnone
  | false =>
    have hne := hother.resolve_left (by simp [hread])
    rw [stage_eq hf' hread]
    split
    · show ((a.p.setState d'.id _).stateOf d.id).hasDraft f.id = false
      rw [Provisioner.stateOf_setState hd]
      split
      case isTrue heq =>
        have hsame := hunique d d' hd hd' heq.symm
        subst hsame
        have hid : f.id ≠ f'.id := fun hid => hne ⟨rfl, Option.some.inj <|
          (NamespaceDecl.findField_of_mem hf').symm.trans
            (hid ▸ NamespaceDecl.findField_of_mem hf)⟩
        unfold NamespaceDecl.stageDraft NamespaceState.hasDraft at *
        split
        · rw [NamespaceState.lookup_eraseDraft, if_neg hid]
          exact hnone
        · rw [NamespaceState.lookup_insertDraft, if_neg hid]
          exact hnone
      case isFalse => exact hnone
    · exact hnone

/-- A field that no setting writes has a draft if it had one before. -/
theorem hasDraft_foldl {d : NamespaceDecl R} (hd : d ∈ ds) {f : Field R} (hf : f ∈ d.fields)
    (hunique : ∀ d d', d ∈ ds → d' ∈ ds → d'.id = d.id → d' = d) (xs : List (Setting R))
    (hreg : ∀ x ∈ xs, x.Registered ds)
    (hunwritten : f.hasFlag ffReadOnly = true ∨ ∀ nsId v, .write nsId d f v ∉ xs)
    {a : SetStateRun R F} (ha : a.p.decls = ds)
    (hnone : (a.p.stateOf d.id).hasDraft f.id = false) :
    ((xs.foldl .apply a).p.stateOf d.id).hasDraft f.id = false := by
  induction xs generalizing a with
  | nil => exact hnone
  | cons x xs ih =>
    rw [List.forall_mem_cons] at hreg
    refine ih hreg.2 (hunwritten.imp_right fun h nsId v hmem =>
      h nsId v (List.mem_cons_of_mem x hmem)) ((a.apply_decls x).trans ha) ?_
    cases x with
    | touch d' =>
      show ((a.touch d').p.stateOf d.id).hasDraft f.id = false
      rw [SetStateRun.touch_p]
      exact hnone
    | write nsId d' f' v =>
      refine stage_hasDraft (by rw [ha]; exact hunique) (ha.symm ▸ hd) (ha.symm ▸ hreg.1.1) hf
        hreg.1.2 nsId v ?_ hnone
      by_cases hsame : d' = d ∧ f' = f
      · obtain ⟨rfl, rfl⟩ := hsame
        exact .inl (hunwritten.resolve_right fun h => h nsId v List.mem_cons_self)
      · exact .inr hsame
    | _ => exact hnone

end SetState

/-! ## Payloads that differ in the values of secret fields -/

section Payloads

variable {ds : List (NamespaceDecl R)} (env : Env F)

/-- The same field, with another value if it is secret. -/
def FieldsAlike (d : Option (NamespaceDecl R)) (e₁ e₂ : Object × Object) : Prop :=
  e₁ = e₂ ∨ ∃ k f, e₁.1 = .int k ∧ e₂.1 = .int k
    ∧ (d.bind fun d => d.findField (idOfWire k)) = some f ∧ f.hasFlag ffSecret = true

/-- The same namespace, with other values of secret fields. -/
def NamespacesAlike (ds : List (NamespaceDecl R)) (e₁ e₂ : Object × Object) : Prop :=
  e₁ = e₂ ∨ ∃ k fields₁ fields₂, e₁ = (.int k, .map fields₁) ∧ e₂ = (.int k, .map fields₂)
    ∧ List.Forall₂ (FieldsAlike (findDecl ds (idOfWire k))) fields₁ fields₂

/-- The same entry of a payload, with other values of secret fields in a `State` map. -/
def EntriesAlike (ds : List (NamespaceDecl R)) (e₁ e₂ : Object × Object) : Prop :=
  e₁ = e₂ ∨ ∃ k namespaces₁ namespaces₂, idOfWire k = Key.state
    ∧ e₁ = (.int k, .map namespaces₁) ∧ e₂ = (.int k, .map namespaces₂)
    ∧ List.Forall₂ (NamespacesAlike ds) namespaces₁ namespaces₂

/-- A step that passes both of two entries and decodes them alike. -/
def DecodesAlike (step : Cursor → List (Setting R) × Cursor) (e₁ e₂ : Object × Object) : Prop :=
  ∀ rest₁ rest₂,
    List.Forall₂ Setting.SameButSecret (step (writeEntry e₁ rest₁)).1
      (step (writeEntry e₂ rest₂)).1
    ∧ (step (writeEntry e₁ rest₁)).2 = rest₁ ∧ (step (writeEntry e₂ rest₂)).2 = rest₂

/-- Entries that are decoded alike make maps that are decoded alike. -/
theorem gather_alike {step : Cursor → List (Setting R) × Cursor} {es₁ es₂ : List (Object × Object)}
    (h : List.Forall₂ (DecodesAlike step) es₁ es₂) (rest₁ rest₂ : Cursor) :
    List.Forall₂ Setting.SameButSecret
      (gather step es₁.length (Object.entryTokens es₁ ++ rest₁)).1
      (gather step es₂.length (Object.entryTokens es₂ ++ rest₂)).1
    ∧ (gather step es₁.length (Object.entryTokens es₁ ++ rest₁)).2 = rest₁
    ∧ (gather step es₂.length (Object.entryTokens es₂ ++ rest₂)).2 = rest₂ := by
  rw [entryTokens_append, entryTokens_append]
  induction h with
  | nil => exact ⟨.nil, rfl, rfl⟩
  | @cons e₁ e₂ es₁ es₂ he _ ih =>
    obtain ⟨hout, h₁, h₂⟩ := he (es₁.foldr writeEntry rest₁) (es₂.foldr writeEntry rest₂)
    obtain ⟨houts, hs₁, hs₂⟩ := ih
    simp only [List.length_cons, List.foldr_cons, gather, h₁, h₂]
    exact ⟨List.rel_append hout houts, hs₁, hs₂⟩

/-- What a field decodes to when its value is passed. -/
theorem fieldSettings_passed (nsId : NamespaceId) {d : Option (NamespaceDecl R)}
    {e : Object × Object} (h : FieldPassed d e) :
    ∃ xs, (∀ rest, fieldSettings env nsId d (writeEntry e rest) = (xs, rest))
      ∧ ∀ k f, e.1 = .int k → (d.bind fun d => d.findField (idOfWire k)) = some f →
        ∃ d', d = some d' ∧ xs = [.write nsId d' f (valueOf env.floatOfInt f.type e.2)] := by
  obtain ⟨k, v⟩ := e
  have hskip := skip_entry_eq_iff (k, v)
  cases hkey : k with
  | int k =>
    subst hkey
    cases d with
    | none =>
      refine ⟨[.refuse nsId (idOfWire k) .unknownNamespace], fun rest => ?_, fun _ _ _ hf => by cases hf⟩
      exact Prod.ext rfl ((skipValue_eq_iff v rest).mpr h)
    | some d =>
      cases hfind : d.findField (idOfWire k) with
      | none =>
        refine ⟨[.refuse nsId (idOfWire k) .unknownField], fun rest => ?_, fun k' f hk hf => ?_⟩
        · simp only [FieldPassed, Option.bind_some, hfind] at h
          simp only [fieldSettings, writeEntry, Object.tokens, List.cons_append, List.nil_append,
            hfind]
          exact Prod.ext rfl ((skipValue_eq_iff v rest).mpr h)
        · cases hk
          rw [Option.bind_some, hfind] at hf
          cases hf
      | some f =>
        refine ⟨[.write nsId d f (valueOf env.floatOfInt f.type v)], fun rest => ?_,
          fun k' f' hk hf => ⟨d, rfl, ?_⟩⟩
        · have hmatches := (fieldPassed_found v hfind).mp h
          simp only [fieldSettings, writeEntry, Object.tokens, List.cons_append, List.nil_append,
            hfind, unpackValue_of_wireMatches env.floatOfInt hmatches]
        · cases hk
          rw [Option.bind_some, hfind] at hf
          cases hf
          rfl
  | _ =>
    rw [hkey] at h hskip
    exact ⟨[], fun rest => Prod.ext rfl ((hskip rest).mpr h), fun _ _ hk => by cases hk⟩

/-- Entries that are alike but for secrets decode to settings that are. -/
theorem fields_decodeAlike (nsId : NamespaceId) {d : Option (NamespaceDecl R)}
    {e₁ e₂ : Object × Object} (h : FieldsAlike d e₁ e₂) (h₁ : FieldPassed d e₁)
    (h₂ : FieldPassed d e₂) : DecodesAlike (fieldSettings env nsId d) e₁ e₂ := by
  obtain ⟨xs₁, hrun₁, hwrite₁⟩ := fieldSettings_passed env nsId h₁
  obtain ⟨xs₂, hrun₂, hwrite₂⟩ := fieldSettings_passed env nsId h₂
  intro rest₁ rest₂
  rw [hrun₁, hrun₂]
  refine ⟨?_, rfl, rfl⟩
  rcases h with rfl | ⟨k, f, hk₁, hk₂, hf, hsecret⟩
  · have hsame := congrArg Prod.fst ((hrun₁ []).symm.trans (hrun₂ []))
    simp only at hsame
    subst hsame
    exact List.forall₂_same.mpr fun x _ => Setting.SameButSecret.refl x
  · obtain ⟨d₁, hd₁, rfl⟩ := hwrite₁ k f hk₁ hf
    obtain ⟨d₂, hd₂, rfl⟩ := hwrite₂ k f hk₂ hf
    obtain rfl := Option.some.inj (hd₁.symm.trans hd₂)
    exact .cons ⟨rfl, rfl, rfl, .inr hsecret⟩ .nil

/-- Namespaces that are alike but for secrets decode to settings that are. -/
theorem namespaces_decodeAlike {e₁ e₂ : Object × Object} (h : NamespacesAlike ds e₁ e₂)
    (h₁ : NamespacePassed ds e₁) (h₂ : NamespacePassed ds e₂) :
    DecodesAlike (namespaceSettings env ds) e₁ e₂ := by
  have hmap : ∀ {k : Int} {fields₁ fields₂ : List (Object × Object)},
      List.Forall₂ (FieldsAlike (findDecl ds (idOfWire k))) fields₁ fields₂ →
      (∀ e ∈ fields₁, FieldPassed (findDecl ds (idOfWire k)) e) →
      (∀ e ∈ fields₂, FieldPassed (findDecl ds (idOfWire k)) e) →
      DecodesAlike (namespaceSettings env ds) (.int k, .map fields₁) (.int k, .map fields₂) := by
    intro k fields₁ fields₂ hfields hp₁ hp₂ rest₁ rest₂
    have hall : List.Forall₂ (DecodesAlike
        (fieldSettings env (idOfWire k) (findDecl ds (idOfWire k)))) fields₁ fields₂ := by
      induction hfields with
      | nil => exact .nil
      | cons he _ ih =>
        rw [List.forall_mem_cons] at hp₁ hp₂
        exact .cons (fields_decodeAlike env _ he hp₁.1 hp₂.1) (ih hp₁.2 hp₂.2)
    obtain ⟨hout, hr₁, hr₂⟩ := gather_alike hall rest₁ rest₂
    exact ⟨.cons rfl hout, hr₁, hr₂⟩
  rcases h with rfl | ⟨k, fields₁, fields₂, rfl, rfl, hfields⟩
  · obtain ⟨k, v⟩ := e₁
    have hskip := skip_entry_eq_iff (k, v)
    have hvalue := skipValue_eq_iff v
    cases hkey : k with
    | int k =>
      subst hkey
      cases hv : v with
      | map fields =>
        subst hv
        exact hmap (List.forall₂_same.mpr fun e _ => .inl rfl) h₁ h₂
      | _ =>
        subst hv
        intro rest₁ rest₂
        exact ⟨.cons rfl (.cons rfl .nil), (hvalue rest₁).mpr h₁, (hvalue rest₂).mpr h₁⟩
    | _ =>
      rw [hkey] at h₁ hskip
      exact fun rest₁ rest₂ => ⟨.nil, (hskip rest₁).mpr h₁, (hskip rest₂).mpr h₁⟩
  · exact hmap hfields h₁ h₂

/-- A flag is decoded in the same way whatever follows it. -/
theorem flagSettings_tokens (set : Bool → Setting R) {v : Object} (h : v.plain = true) :
    ∃ xs, ∀ rest, flagSettings set (v.tokens ++ rest) = (xs, rest) := by
  have hskip := skipValue_eq_iff v
  cases v with
  | bool b => exact ⟨[set b], fun _ => rfl⟩
  | _ => exact ⟨[], fun rest => Prod.ext rfl ((hskip rest).mpr h)⟩

/-- An entry that is not a `State` map decodes to the same settings whatever follows it. -/
theorem entrySettings_option {k : Int} {v : Object} (hplain : v.plain = true)
    (h : idOfWire k ≠ Key.state ∨ ∀ entries, v ≠ .map entries) :
    ∃ xs, ∀ rest, entrySettings env ds (writeEntry (.int k, v) rest) = (xs, rest) := by
  have hrun : ∀ rest, entrySettings env ds (writeEntry (.int k, v) rest)
      = if idOfWire k = Key.includeState then flagSettings .includeState (v.tokens ++ rest)
        else if idOfWire k = Key.reqCompress then flagSettings .compress (v.tokens ++ rest)
        else if idOfWire k = Key.state then stateSettings env ds (v.tokens ++ rest)
        else ([], skipValue (v.tokens ++ rest)) := fun _ => rfl
  have hskip := fun rest => (skipValue_eq_iff v rest).mpr hplain
  by_cases hinclude : idOfWire k = Key.includeState
  · simp only [hrun, if_pos hinclude]
    exact flagSettings_tokens _ hplain
  by_cases hcompress : idOfWire k = Key.reqCompress
  · simp only [hrun, if_neg hinclude, if_pos hcompress]
    exact flagSettings_tokens _ hplain
  by_cases hstate : idOfWire k = Key.state
  · have hmap := h.resolve_left (not_not_intro hstate)
    refine ⟨[.state], fun rest => ?_⟩
    rw [hrun, if_neg hinclude, if_neg hcompress, if_pos hstate]
    cases v with
    | map entries => exact absurd rfl (hmap entries)
    | _ => exact Prod.ext rfl (hskip rest)
  · refine ⟨[], fun rest => ?_⟩
    rw [hrun, if_neg hinclude, if_neg hcompress, if_neg hstate, hskip rest]

/-- Payloads that are alike but for secrets decode to settings that are, entry by entry. -/
theorem entries_decodeAlike {e₁ e₂ : Object × Object} (h : EntriesAlike ds e₁ e₂)
    (h₁ : EntryPassed ds e₁) (h₂ : EntryPassed ds e₂) :
    DecodesAlike (entrySettings env ds) e₁ e₂ := by
  have hmap : ∀ {k : Int} {nss₁ nss₂ : List (Object × Object)}, idOfWire k = Key.state →
      List.Forall₂ (NamespacesAlike ds) nss₁ nss₂ → (∀ e ∈ nss₁, NamespacePassed ds e) →
      (∀ e ∈ nss₂, NamespacePassed ds e) →
      DecodesAlike (entrySettings env ds) (.int k, .map nss₁) (.int k, .map nss₂) := by
    intro k nss₁ nss₂ hstate hnss hp₁ hp₂ rest₁ rest₂
    have hall : List.Forall₂ (DecodesAlike (namespaceSettings env ds)) nss₁ nss₂ := by
      induction hnss with
      | nil => exact .nil
      | cons he _ ih =>
        rw [List.forall_mem_cons] at hp₁ hp₂
        exact .cons (namespaces_decodeAlike env he hp₁.1 hp₂.1) (ih hp₁.2 hp₂.2)
    obtain ⟨hout, hr₁, hr₂⟩ := gather_alike hall rest₁ rest₂
    have hrun : ∀ (nss : List (Object × Object)) (rest : Cursor),
        entrySettings env ds (writeEntry (.int k, .map nss) rest)
          = stateSettings env ds (.map nss.length :: (Object.entryTokens nss ++ rest)) := by
      intro nss rest
      show (if idOfWire k = Key.includeState then _ else if idOfWire k = Key.reqCompress then _
        else if idOfWire k = Key.state then _ else _) = _
      rw [hstate]
      rfl
    rw [hrun, hrun]
    exact ⟨.cons rfl hout, hr₁, hr₂⟩
  rcases h with rfl | ⟨k, nss₁, nss₂, hstate, rfl, rfl, hnss⟩
  · obtain ⟨k, v⟩ := e₁
    cases k with
    | int k =>
      by_cases hstate : idOfWire k = Key.state ∧ ∃ entries, v = .map entries
      · obtain ⟨hstate, entries, rfl⟩ := hstate
        simp only [EntryPassed, if_pos hstate] at h₁
        exact hmap hstate (List.forall₂_same.mpr fun e _ => .inl rfl) h₁ h₁
      · have hplain : v.plain = true := by
          cases v with
          | map entries =>
            have hne : idOfWire k ≠ Key.state := fun heq => hstate ⟨heq, entries, rfl⟩
            simpa only [EntryPassed, if_neg hne] using h₁
          | _ => exact h₁
        have hoption : idOfWire k ≠ Key.state ∨ ∀ entries, v ≠ .map entries :=
          (not_and_or.mp hstate).imp_right fun h entries heq => h ⟨entries, heq⟩
        obtain ⟨xs, hxs⟩ : ∃ xs, ∀ rest,
            entrySettings env ds (writeEntry (.int k, v) rest) = (xs, rest) :=
          entrySettings_option env hplain hoption
        intro rest₁ rest₂
        rw [hxs, hxs]
        exact ⟨List.forall₂_same.mpr fun x _ => Setting.SameButSecret.refl x, rfl, rfl⟩
    | _ => exact h₁.elim
  · simp only [EntryPassed, if_pos hstate] at h₁ h₂
    exact hmap hstate hnss h₁ h₂

/-- Two payloads that differ in the values of secret fields, all of them passed, are alike requests. -/
theorem settings_alike {es₁ es₂ : List (Object × Object)} (h : List.Forall₂ (EntriesAlike ds) es₁ es₂)
    (h₁ : ∀ e ∈ es₁, EntryPassed ds e) (h₂ : ∀ e ∈ es₂, EntryPassed ds e) (rest₁ rest₂ : Cursor) :
    List.Forall₂ Setting.SameButSecret (settings env ds ((Object.map es₁).tokens ++ rest₁))
      (settings env ds ((Object.map es₂).tokens ++ rest₂)) := by
  have hall : List.Forall₂ (DecodesAlike (entrySettings env ds)) es₁ es₂ := by
    induction h with
    | nil => exact .nil
    | cons he _ ih =>
      rw [List.forall_mem_cons] at h₁ h₂
      exact .cons (entries_decodeAlike env he h₁.1 h₂.1) (ih h₁.2 h₂.2)
  exact (gather_alike hall rest₁ rest₂).1

end Payloads

/-! ## Responses -/

/-- The options of a GetState request. -/
def stateOptions (payload : Option Cursor) : Options :=
  readOptions { namespaceFilter := true, draft := true, priorHash := true } payload

/-- The condition on a request: it does not ask for drafts where a draft of a secret field is pending
or is staged by the request. -/
def Discreet (env : Env F) (p : Provisioner R F) (c : Cursor) : Prop :=
  (∀ seq payload, readEnvelope c = some (Op.getState, seq, payload) →
    (stateOptions payload).draft = true →
      ∀ d ∈ inScope p (stateOptions payload), NoSecretDraft p d)
  ∧ ∀ seq payload, readEnvelope c = some (Op.setState, seq, some payload) →
    let xs := settings env p.decls payload
    asksState xs = true → ∀ d, .touch (some d) ∈ xs → NoSecretDraft p d
      ∧ ∀ f ∈ d.fields, f.hasFlag ffSecret = true →
        f.hasFlag ffReadOnly = true ∨ ∀ nsId v, .write nsId d f v ∉ xs

/-- Every secret a request supplies is valid and different from the current one. -/
def SuppliesFresh (env : Env F) (p : Provisioner R F) (c : Cursor) : Prop :=
  ∀ seq payload, readEnvelope c = some (Op.setState, seq, some payload) →
    ∀ x ∈ settings env p.decls payload, x.Fresh p

/-- The same request, or two SetState requests that differ in the values of secret fields and in which
the reader passes every value. -/
def RequestsAlike (ds : List (NamespaceDecl R)) (c₁ c₂ : Cursor) : Prop :=
  c₁ = c₂ ∨ ∃ seq es₁ es₂ rest₁ rest₂,
    readEnvelope c₁ = some (Op.setState, seq, some ((Object.map es₁).tokens ++ rest₁))
      ∧ readEnvelope c₂ = some (Op.setState, seq, some ((Object.map es₂).tokens ++ rest₂))
      ∧ List.Forall₂ (EntriesAlike ds) es₁ es₂
      ∧ (∀ e ∈ es₁, EntryPassed ds e) ∧ ∀ e ∈ es₂, EntryPassed ds e

section Responses

variable {ds : List (NamespaceDecl R)} {RR : R → R → Prop} {env : Env F} {p₁ p₂ : Provisioner R F}

/-- The namespaces of a request are chosen by their ids, which are the same in both runs. -/
theorem inScope_alike (h : Provisioner.Alike ds RR p₁ p₂) (o : Options) :
    inScope p₁ o = inScope p₂ o := by
  unfold inScope
  rw [h.decls₁, h.decls₂]

theorem inScope_mem (h : Provisioner.Alike ds RR p₁ p₂) (o : Options) : ∀ d ∈ inScope p₁ o, d ∈ ds := by
  intro d hd
  rw [← h.decls₁]
  unfold inScope at hd
  split at hd
  · exact (List.mem_filter.mp hd).1
  · exact hd

/-- The namespaces a filter names are the same in both runs, and registered. -/
theorem named_alike (h : Provisioner.Alike ds RR p₁ p₂) (hasFilter : Bool)
    (filter : List NamespaceId) :
    named p₁ hasFilter filter = named p₂ hasFilter filter
      ∧ ∀ d ∈ named p₁ hasFilter filter, d ∈ ds := by
  have hfind : (p₁.find : NamespaceId → _) = p₂.find := by
    funext id
    unfold Provisioner.find
    rw [h.decls₁, h.decls₂]
  unfold named
  rw [hfind, h.decls₁, h.decls₂]
  refine ⟨rfl, fun d hd => ?_⟩
  split at hd
  · obtain ⟨id, -, hid⟩ := List.mem_filterMap.mp hd
    rw [← h.decls₂]
    exact List.mem_of_find?_eq_some hid
  · exact hd

theorem withDrafts_mem {p : Provisioner R F} {scope : List (NamespaceDecl R)} :
    ∀ d ∈ withDrafts p scope, d ∈ scope := fun _ hd => List.mem_of_mem_filter hd

/-- GetState answers with the body of the state and changes nothing. -/
theorem opGetState_run (env : Env F) (seq : UInt64) (payload : Option Cursor)
    (p : Provisioner R F) : opGetState env seq payload p
      = (.value (packResponse env Op.getState seq (stateOptions payload).compress
          (stateBody env p (stateOptions payload))), p) := rfl

/-- GetState answers the same in both runs, if it is not asked for drafts or no secret has one. -/
theorem opGetState_related (happ : Respects ds RR) (seq : UInt64) (payload : Option Cursor)
    (h : Provisioner.Alike ds RR p₁ p₂)
    (hquiet : (stateOptions payload).draft = true →
      ∀ d ∈ inScope p₁ (stateOptions payload), NoSecretDraft p₁ d) :
    Prog.RelatedAt (Provisioner.Alike ds RR) Eq (opGetState env seq payload) p₁
      (opGetState env seq payload) p₂ := by
  have hmem := inScope_mem h (stateOptions payload)
  have hscope := inScope_alike h (stateOptions payload)
  have hcontent : ∀ hash, packContent p₁ (stateOptions payload) hash
      = packContent p₂ (stateOptions payload) hash := by
    intro hash
    unfold packContent
    rw [← hscope, ← withDrafts_alike h hmem, ← packNsValues_alike happ h hmem]
    cases hdraft : (stateOptions payload).draft with
    | false => rfl
    | true =>
      have hdrafts : packNsDrafts p₁ (withDrafts p₁ (inScope p₁ (stateOptions payload)))
          = packNsDrafts p₂ (withDrafts p₁ (inScope p₁ (stateOptions payload))) :=
        packNsDrafts_alike h (fun d hd => hmem d (withDrafts_mem d hd))
          fun d hd => hquiet hdraft d (withDrafts_mem d hd)
      simp only [if_true, hdrafts]
  have hbody : stateBody env p₁ (stateOptions payload) = stateBody env p₂ (stateOptions payload) := by
    unfold stateBody bodyHash
    rw [hcontent none, hcontent]
  refine ⟨?_, h⟩
  rw [opGetState_run, opGetState_run, hbody]
  rfl

/-- The response to SetState is the same in both runs, if the state is not asked for or no secret that is named
has a draft. -/
theorem setStateResponse_alike (happ : Respects ds RR) (seq : UInt64) {a₁ a₂ : SetStateRun R F}
    (h : RunAlike ds RR p₁ p₂ a₁ a₂)
    (hquiet : a₁.includeState = true → ∀ d ∈ a₁.touched, NoSecretDraft a₁.p d) :
    setStateResponse env seq a₁ = setStateResponse env seq a₂ := by
  have htouched : touchedWithDrafts a₁ = touchedWithDrafts a₂ := by
    unfold touchedWithDrafts
    rw [← h.includeState, ← h.touched, ← withDrafts_alike h.devices h.scope]
  have hdrafts : packNsDrafts a₁.p (touchedWithDrafts a₁) = packNsDrafts a₂.p (touchedWithDrafts a₁) := by
    unfold touchedWithDrafts
    cases hinclude : a₁.includeState with
    | false => rfl
    | true =>
      exact packNsDrafts_alike h.devices (fun d hd => h.scope d (withDrafts_mem d hd))
        fun d hd => hquiet hinclude d (withDrafts_mem d hd)
  unfold setStateResponse setStateBody setStateHash
  rw [← h.applied, ← h.errors, ← h.compress, ← h.includeState, ← h.touched, ← htouched,
    ← draftHasReboot_alike h.devices, ← packNsValues_alike happ h.devices h.scope]
  simp only [hdrafts]

/-- A SetState request with fresh secrets on two devices. -/
theorem opSetState_related (happ : Respects ds RR) (seq : UInt64) {n₁ n₂ : Nat}
    {rest₁ rest₂ : Cursor} (h : Provisioner.Alike ds RR p₁ p₂)
    (hxs : List.Forall₂ Setting.SameButSecret (settings env ds (.map n₁ :: rest₁))
      (settings env ds (.map n₂ :: rest₂)))
    (h₁ : ∀ x ∈ settings env ds (.map n₁ :: rest₁), x.Fresh p₁)
    (h₂ : ∀ x ∈ settings env ds (.map n₂ :: rest₂), x.Fresh p₂)
    (hquiet : asksState (settings env ds (.map n₁ :: rest₁)) = true →
      ∀ d, .touch (some d) ∈ settings env ds (.map n₁ :: rest₁) → NoSecretDraft p₁ d
        ∧ ∀ f ∈ d.fields, f.hasFlag ffSecret = true → f.hasFlag ffReadOnly = true
          ∨ ∀ nsId v, .write nsId d f v ∉ settings env ds (.map n₁ :: rest₁)) :
    Prog.RelatedAt (Provisioner.Alike ds RR) Eq (opSetState env seq (some (.map n₁ :: rest₁))) p₁
      (opSetState env seq (some (.map n₂ :: rest₂))) p₂ := by
  have hrun₁ := setStateRun_eq_apply env p₁ (.map n₁ :: rest₁)
  have hrun₂ := setStateRun_eq_apply env p₂ (.map n₂ :: rest₂)
  rw [h.decls₁] at hrun₁
  rw [h.decls₂] at hrun₂
  have hreg := settings_registered env ds (.map n₁ :: rest₁)
  have hstart : RunAlike ds RR p₁ p₂ { p := p₁ } { p := p₂ } :=
    ⟨h, rfl, rfl, rfl, rfl, rfl, rfl, fun _ hd => (by cases hd), ⟨rfl, fun _ _ => rfl⟩,
      ⟨rfl, fun _ _ => rfl⟩⟩
  have hend := hstart.foldl happ hxs hreg h₁ h₂
  rw [← hrun₁, ← hrun₂] at hend
  have hopen : (setStateRun env p₁ (.map n₁ :: rest₁)).includeState = true →
      ∀ d ∈ (setStateRun env p₁ (.map n₁ :: rest₁)).touched,
        NoSecretDraft (setStateRun env p₁ (.map n₁ :: rest₁)).p d := by
    intro hasks d hd f hf hsecret
    have hmem : d ∈ ds := hend.scope d hd
    rw [hrun₁] at hasks hd ⊢
    rw [includeState_foldl] at hasks
    have htouch := (touched_foldl _ _ d hd).resolve_left (by simp)
    obtain ⟨hnone, hwrites⟩ := hquiet hasks d htouch
    exact hasDraft_foldl hmem hf (fun d d' hd hd' => h.unique hd d' hd') _ hreg
      (hwrites f hf hsecret) h.decls₁ (hnone f hf hsecret)
  have hresponse : setStateResponse env seq (setStateRun env p₁ (.map n₁ :: rest₁))
      = setStateResponse env seq (setStateRun env p₂ (.map n₂ :: rest₂)) :=
    setStateResponse_alike happ seq hend hopen
  unfold Prog.RelatedAt
  rw [opSetState_run, opSetState_run]
  refine ⟨?_, hend.devices⟩
  simp only [hend.sawState, hresponse]
  rfl

/-- Commit answers the same in both runs: it reports values and no drafts. -/
theorem opCommit_related (happ : Respects ds RR) (hfs : env.fs.Answer) (seq : UInt64)
    (payload : Option Cursor) :
    Prog.Related (Provisioner.Alike ds RR) Eq
      (opCommit env seq payload : Prog String (Provisioner R F) (List Token))
      (opCommit env seq payload) := by
  intro p₁ p₂ h
  unfold opCommit
  refine Prog.RelatedAt.get_bind ?_
  obtain ⟨hnamed, hmem⟩ := named_alike h
    (readOptions { namespaceFilter := true, includeState := true } payload).hasFilter
    (readOptions { namespaceFilter := true, includeState := true } payload).filter
  rw [← hnamed]
  refine Prog.Related.bind (Prog.Related.fold _ (fun d hd c₁ c₂ hc =>
    commitNamespace_related happ hfs _ (hmem d hd) hc) ⟨rfl, fun _ hd => (by cases hd)⟩)
    (fun c₁ c₂ hc => ?_) p₁ p₂ h
  obtain ⟨rfl, htouched⟩ := hc
  refine (setRebootFlag_related c₁.anyReboot).bind fun _ _ _ q₁ q₂ hq => ?_
  refine Prog.RelatedAt.get_bind ?_
  have hbody : ∀ includeState, commitBody env q₁ includeState c₁.applied c₁.touched
      = commitBody env q₂ includeState c₁.applied c₁.touched := fun includeState => by
    unfold commitBody commitHash
    rw [packNsValues_alike happ hq htouched, hq.needsReboot]
  rw [hbody]
  exact Prog.RelatedAt.pure rfl hq

/-- Discarding counts the same drafts in both runs. -/
theorem discardNamespace_related {d : NamespaceDecl R} (hd : d ∈ ds) (cleared : Nat) :
    Prog.Related (Provisioner.Alike ds RR) Eq
      (discardNamespace d cleared : Prog String (Provisioner R F) Nat)
      (discardNamespace d cleared) := by
  intro p₁ p₂ h
  unfold discardNamespace
  refine Prog.RelatedAt.get_bind ?_
  have hdrafts : (d.fields.filter fun f => (p₁.stateOf d.id).hasDraft f.id)
      = d.fields.filter fun f => (p₂.stateOf d.id).hasDraft f.id :=
    List.filter_congr fun f _ => (h.states d hd).pending f.id
  simp only [hdrafts]
  exact (onNamespace_related hd (modifyState_related fun _ _ h => h.clearDraft)).bind
    (fun _ _ _ => Prog.Related.pure rfl) p₁ p₂ h

theorem opDiscard_related (seq : UInt64) (payload : Option Cursor) :
    Prog.Related (Provisioner.Alike ds RR) Eq
      (opDiscard env seq payload : Prog String (Provisioner R F) (List Token))
      (opDiscard env seq payload) := by
  intro p₁ p₂ h
  unfold opDiscard
  rcases readDiscard payload with ⟨hasFilter, filter⟩
  obtain ⟨hnamed, hmem⟩ := named_alike h hasFilter filter
  refine Prog.RelatedAt.get_bind ?_
  rw [← hnamed]
  refine Prog.Related.bind (Prog.Related.fold _ (fun d hd a₁ a₂ ha => ?_) rfl)
    (fun c₁ c₂ hc => Prog.Related.pure (by rw [hc])) p₁ p₂ h
  subst ha
  exact discardNamespace_related (hmem d hd) a₁

/-- FactoryReset answers the same in both runs, with the same defaults behind it. -/
theorem opFactoryReset_related (happ : Respects ds RR) (hfs : env.fs.Answer) (seq : UInt64)
    (payload : Option Cursor) :
    Prog.Related (Provisioner.Alike ds RR) Eq
      (opFactoryReset env seq payload : Prog String (Provisioner R F) (List Token))
      (opFactoryReset env seq payload) := by
  refine (factoryReset_related happ hfs).bind fun _ _ _ p₁ p₂ h => ?_
  refine Prog.RelatedAt.get_bind ?_
  rw [h.needsReboot]
  exact Prog.RelatedAt.pure rfl h

theorem opReboot_related (seq : UInt64) :
    Prog.Related (Provisioner.Alike ds RR) Eq
      (opReboot env seq : Prog String (Provisioner R F) (List Token)) (opReboot env seq) := by
  intro p₁ p₂ h
  unfold opReboot
  refine Prog.RelatedAt.get_bind ?_
  rw [← h.onReboot]
  exact Prog.Related.bind (callback_related fun c hc => h.callbacks c (.inr (.inl hc)))
    (fun _ _ _ => Prog.Related.pure rfl) p₁ p₂ h

/-- A response that reads the device without its states. -/
theorem pure_related {g : Provisioner R F → List Token} (h : Provisioner.Alike ds RR p₁ p₂)
    (hg : g p₁ = g p₂) :
    Prog.RelatedAt (Provisioner.Alike ds RR) Eq
      (Prog.get >>= fun p => pure (g p) : Prog String (Provisioner R F) (List Token)) p₁
      (Prog.get >>= fun p => pure (g p)) p₂ := by
  refine Prog.RelatedAt.get_bind ?_
  rw [hg]
  exact Prog.RelatedAt.pure rfl h

/-- The same operation with the same payload on two devices. -/
theorem dispatch_related (happ : Respects ds RR) (hfs : env.fs.Answer) (op : UInt8) (seq : UInt64)
    (payload : Option Cursor) (h : Provisioner.Alike ds RR p₁ p₂)
    (hget : op = Op.getState → (stateOptions payload).draft = true →
      ∀ d ∈ inScope p₁ (stateOptions payload), NoSecretDraft p₁ d)
    (hset : op = Op.setState → Prog.RelatedAt (Provisioner.Alike ds RR) Eq
      (opSetState env seq payload) p₁ (opSetState env seq payload) p₂) :
    Prog.RelatedAt (Provisioner.Alike ds RR) Eq (dispatch env op seq payload) p₁
      (dispatch env op seq payload) p₂ := by
  refine dispatch_of (fun m => Prog.RelatedAt (Provisioner.Alike ds RR) Eq m p₁ m p₂) ?schema ?info ?capabilities
    (fun heq => opGetState_related happ seq payload h (hget heq)) hset
    (opCommit_related happ hfs seq payload p₁ p₂ h) (opDiscard_related seq payload p₁ p₂ h)
    (opFactoryReset_related happ hfs seq payload p₁ p₂ h) (opReboot_related seq p₁ p₂ h)
    (Prog.RelatedAt.pure rfl h)
  case schema => exact pure_related h (by rw [inScope_alike h])
  case info => exact pure_related h (by rw [h.needsReboot, h.schemaHash])
  case capabilities => exact pure_related h (by rw [h.decls₁, h.decls₂])

/-! ## Requests -/

/-- One request, or two requests that differ in the secrets they supply, on two devices. -/
theorem handleObjects_related (happ : Respects ds RR) (hfs : env.fs.Answer)
    (h : Provisioner.Alike ds RR p₁ p₂) {c₁ c₂ : Cursor} (hc : RequestsAlike ds c₁ c₂)
    (h₁ : SuppliesFresh env p₁ c₁) (h₂ : SuppliesFresh env p₂ c₂) (hquiet : Discreet env p₁ c₁) :
    Prog.RelatedAt (Provisioner.Alike ds RR) Eq (handleObjects env c₁) p₁
      (handleObjects env c₂) p₂ := by
  cases hstarted : p₁.started with
  | false =>
    unfold handleObjects
    refine Prog.RelatedAt.get_bind ?_
    rw [if_pos hstarted, if_pos (h.started ▸ hstarted)]
    exact Prog.RelatedAt.pure rfl h
  | true =>
    have hstarted₂ : p₂.started = true := h.started ▸ hstarted
    unfold SuppliesFresh at h₁ h₂
    unfold Discreet at hquiet
    rw [h.decls₁] at h₁ hquiet
    rw [h.decls₂] at h₂
    -- the settings of both payloads are applied side by side
    have hset : ∀ seq n₁ n₂ rest₁ rest₂,
        readEnvelope c₁ = some (Op.setState, seq, some (.map n₁ :: rest₁)) →
        readEnvelope c₂ = some (Op.setState, seq, some (.map n₂ :: rest₂)) →
        List.Forall₂ Setting.SameButSecret (settings env ds (.map n₁ :: rest₁))
          (settings env ds (.map n₂ :: rest₂)) →
        Prog.RelatedAt (Provisioner.Alike ds RR) Eq (opSetState env seq (some (.map n₁ :: rest₁)))
          p₁ (opSetState env seq (some (.map n₂ :: rest₂))) p₂ :=
      fun seq _ _ _ _ he₁ he₂ hxs => opSetState_related happ seq h hxs (h₁ seq _ he₁)
        (h₂ seq _ he₂) (hquiet.2 seq _ he₁)
    unfold Prog.RelatedAt
    rcases hc with rfl | ⟨seq, es₁, es₂, rest₁, rest₂, he₁, he₂, hes, hp₁, hp₂⟩
    · cases hread : readEnvelope c₁ with
      | none =>
        obtain ⟨code, msg, hrun⟩ := handleObjects_of_no_envelope (R := R) (F := F) hread
        rw [hrun env p₁ hstarted, hrun env p₂ hstarted₂]
        exact ⟨rfl, h⟩
      | some e =>
        obtain ⟨op, seq, payload⟩ := e
        rw [handleObjects_of_envelope env hstarted hread, handleObjects_of_envelope env hstarted₂ hread]
        refine dispatch_related happ hfs op seq payload h
          (fun heq => hquiet.1 seq payload (heq ▸ hread)) fun heq => ?_
        subst heq
        cases payload with
        | none => exact Prog.RelatedAt.pure rfl h
        | some c =>
          cases c with
          | nil => exact Prog.RelatedAt.pure rfl h
          | cons t rest =>
            cases t with
            | map n =>
              exact hset seq n n rest rest hread hread
                (List.forall₂_same.mpr fun x _ => Setting.SameButSecret.refl x)
            | _ => exact Prog.RelatedAt.pure rfl h
    · rw [handleObjects_of_envelope env hstarted he₁, handleObjects_of_envelope env hstarted₂ he₂]
      exact hset seq _ _ _ _ he₁ he₂ (settings_alike env hes hp₁ hp₂ rest₁ rest₂)

end Responses

end MicroReticulum.Provisioning
