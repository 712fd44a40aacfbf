import MicroReticulum.Provisioning.Invariant

/-!
# Only values that satisfy the constraint take effect

`Field.Satisfies` is what a declaration promises: the type, both ends of a range, the members of an
enumeration, the limits of strings and lists. `Field.validate` tests it by negated comparisons, which
something that is not a number passes (`validate_iff`).

The drafts and the working values of all namespaces are followed through runs, and with them a log of the
setter calls: `NamespaceDecl.traced` is a registration whose setters write what they are called with to a
log beside the runtime. `constraints_hold` is about runs in which no ranged field is offered something that
is not a number.
-/

namespace MicroReticulum.Provisioning

open MicroReticulum Library

variable {R F : Type}

/-! ## The declared constraint -/

namespace Field

/-- The value is one the declaration of the field allows. -/
def Satisfies (f : Field R) (v : Value) : Prop :=
  v.type = f.type ∧ match f.type with
    | .none => False
    | .bool => True
    | .int => f.constraint.hasRange = true →
      f.constraint.imin ≤ v.asInt ∧ v.asInt ≤ f.constraint.imax
    | .float => f.constraint.hasRange = true →
      f.constraint.fmin.le v.asFloat = true ∧ v.asFloat.le f.constraint.fmax = true
    | .string => 0 < f.constraint.maxLen → v.asString.length ≤ f.constraint.maxLen
    | .bytes => 0 < f.constraint.maxLen → v.asBytes.length ≤ f.constraint.maxLen
    | .enum => f.constraint.enumValues ≠ [] → v.asInt ∈ f.constraint.enumValues
    | .bytesList =>
      (0 < f.constraint.maxCount → v.asBytesList.length ≤ f.constraint.maxCount)
        ∧ (0 < f.constraint.elementSize →
          ∀ e ∈ v.asBytesList, e.length = f.constraint.elementSize)
    | .void => True

/-- Something that is not a number, for a field with a range. -/
def Unordered (f : Field R) (v : Value) : Prop :=
  f.constraint.hasRange = true ∧ v = .float .nan

theorem validate_float {f : Field R} (hf : f.type = .float) (d : Double) :
    f.validate (.float d) = true ↔ (f.constraint.hasRange = true →
      d.lt f.constraint.fmin = false ∧ f.constraint.fmax.lt d = false) := by
  unfold validate
  rw [if_neg (by rw [hf]; exact fun h => h rfl), hf]
  cases f.constraint.hasRange <;> simp [Value.asFloat]

/-- An upper limit that is not checked when it is zero. -/
theorem limit_iff (limit n : Nat) :
    (!(decide (0 < limit) && decide (limit < n))) = true ↔ (0 < limit → n ≤ limit) := by
  simp only [Bool.not_eq_true', Bool.and_eq_false_iff, decide_eq_false_iff_not]
  omega

/-- The check lets through what satisfies the constraint, and what cannot be compared to it. -/
theorem validate_iff {f : Field R} {default : Value} (hdefault : f.Satisfies default) (v : Value) :
    f.validate v = true ↔ f.Satisfies v ∨ (f.type = .float ∧ f.Unordered v) := by
  by_cases htype : v.type = f.type
  case neg =>
    have hinvalid : f.validate v = false := if_pos htype
    rw [hinvalid]
    refine ⟨fun h => (by cases h), fun h => ?_⟩
    rcases h with h | ⟨hf, -, rfl⟩
    · exact absurd h.1 htype
    · exact absurd hf.symm htype
  cases hf : f.type
  case float =>
    rw [hf] at htype
    cases v with
    | float d =>
      unfold Satisfies Unordered at *
      rw [hf] at hdefault
      rw [validate_float hf, hf]
      cases hrange : f.constraint.hasRange with
      | false => simp [Value.type]
      | true =>
        obtain ⟨hmin, hmax⟩ := hdefault.2 hrange
        have hmin := (Double.ne_nan_of_le hmin).1
        have hmax := (Double.ne_nan_of_le hmax).2
        by_cases hd : d = .nan
        · subst hd
          simp
        · have h₁ := Double.not_lt_iff_le hmin hd
          have h₂ := Double.not_lt_iff_le hd hmax
          rw [Bool.not_eq_true'] at h₁ h₂
          simp [h₁, h₂, Value.type, Value.asFloat, hd]
    | _ => cases htype
  all_goals
    unfold validate Satisfies
    rw [if_neg (not_not_intro htype), hf]
    simp only [htype, hf, true_and, reduceCtorEq, false_and, or_false]
  case int => cases f.constraint.hasRange <;> simp
  case string => exact limit_iff _ _
  case bytes => exact limit_iff _ _
  case enum => by_cases hnil : f.constraint.enumValues = [] <;> simp [hnil]
  case bytesList =>
    rw [Bool.and_eq_true, limit_iff]
    refine and_congr_right fun _ => ?_
    simp only [Bool.or_eq_true, decide_eq_true_eq, List.all_eq_true]
    rcases Nat.eq_zero_or_pos f.constraint.elementSize with hzero | hpos
    · simp [hzero]
    · simp [hpos, Nat.pos_iff_ne_zero.mp hpos]

/-- Of what passes the check, exactly what cannot be compared does not satisfy the constraint. -/
theorem satisfies_iff_of_validate {f : Field R} {default : Value} (hdefault : f.Satisfies default)
    {v : Value} (h : f.validate v = true) : f.Satisfies v ↔ ¬ f.Unordered v := by
  constructor
  · rintro ⟨htype, hbounds⟩ ⟨hrange, rfl⟩
    rw [show f.type = .float from htype.symm] at hbounds
    exact (Double.ne_nan_of_le (hbounds hrange).1).2 rfl
  · exact fun hnot => ((validate_iff hdefault v).mp h).resolve_right fun hun => hnot hun.2

end Field

/-- The declared constraint, for runs in which no ranged field is offered something that is not a
number. -/
def Policy.constraint (R : Type) : Policy R where
  offered f v := ¬ f.Unordered v
  draft := Field.Satisfies
  working := Field.Satisfies

/-- The defaults of a registration satisfy their constraints. -/
def NamespaceDecl.DefaultsAllowed (d : NamespaceDecl R) : Prop :=
  ∀ f ∈ d.fields, f.Satisfies f.defaultValue

theorem NamespaceDecl.DefaultsAllowed.accepts {d : NamespaceDecl R} (h : d.DefaultsAllowed) :
    d.Accepts (Policy.constraint R) := by
  intro f hf v hvalid hoffered
  have hsatisfies := (Field.satisfies_iff_of_validate (h f hf) hvalid).mpr hoffered
  exact ⟨hsatisfies, hsatisfies⟩

/-! ## The log of setter calls -/

/-- A setter call: whose setter, and with what. -/
structure SetterCall where
  nsId : NamespaceId
  fieldId : FieldId
  value : Value

/-- The value is one the field's declaration allows. -/
def SetterCall.Allowed (ds : List (NamespaceDecl R)) (call : SetterCall) : Prop :=
  ∃ d ∈ ds, d.id = call.nsId ∧ ∃ f, d.findField call.fieldId = some f ∧ f.Satisfies call.value

/-- The field, with a setter that logs its calls. -/
def Field.traced (nsId : NamespaceId) (f : Field R) : Field (R × List SetterCall) where
  id := f.id
  name := f.name
  type := f.type
  flags := f.flags
  constraint := f.constraint
  defaultValue := f.defaultValue
  setter := f.setter.map fun setter v => do
    Prog.modify fun x => (x.1, x.2 ++ [{ nsId, fieldId := f.id, value := v }])
    Prog.zoom Prod.fst (fun r x => (r, x.2)) (setter v)
  getter := f.getter.map fun getter x => getter x.1

/-- The namespace, with a log of the setter calls. -/
def NamespaceDecl.traced (d : NamespaceDecl R) : NamespaceDecl (R × List SetterCall) where
  id := d.id
  name := d.name
  parentId := d.parentId
  fields := d.fields.map (Field.traced d.id)
  onCommit := d.onCommit.map fun hook _ =>
    Prog.zoom (fun x => (x.1, x.2.1)) (fun y x => (y.1, (y.2, x.2.2))) (hook d.fields)
  schemaHash := d.schemaHash
  distinct := by
    rw [List.map_map]
    exact d.distinct

/-- A callback of the application calls no setter of a field. -/
def tracedCallback (m : Prog String R Unit) : Prog String (R × List SetterCall) Unit :=
  Prog.zoom Prod.fst (fun r x => (r, x.2)) m

/-- The provisioner, with a log of the setter calls. -/
def Provisioner.traced (p : Provisioner R F) : Provisioner (R × List SetterCall) F where
  namespaces := p.namespaces.map fun n => { decl := n.decl.traced, state := n.state }
  storage := p.storage
  started := p.started
  needsReboot := p.needsReboot
  schemaHash := p.schemaHash
  runtime := (p.runtime, [])
  onRebootRequired := p.onRebootRequired.map tracedCallback
  onReboot := p.onReboot.map tracedCallback
  onFactoryReset := p.onFactoryReset.map tracedCallback
  distinct := by
    rw [List.map_map]
    exact p.distinct

namespace NamespaceDecl

theorem findField_traced (d : NamespaceDecl R) (id : FieldId) :
    d.traced.findField id = (d.findField id).map (Field.traced d.id) := by
  unfold findField
  exact List.find?_map ..

/-- Tracing does not change what a draft is made of. -/
theorem setDraft_traced (d : NamespaceDecl R) (r : R) (log : List SetterCall) (id : FieldId)
    (v : Value) (s : NamespaceState) : d.traced.setDraft (r, log) id v s = d.setDraft r id v s := by
  unfold setDraft
  rw [findField_traced]
  cases hfind : d.findField id with
  | none => rfl
  | some f =>
    have hsettled : d.traced.settledValue s (r, log) (f.traced d.id) = d.settledValue s r f := by
      have hf := findField_of_mem (findField_mem hfind)
      unfold settledValue effective
      rw [show (f.traced d.id).id = f.id from rfl, findField_traced, hf]
      dsimp only [Option.map_some]
      refine if_congr Iff.rfl rfl (if_congr Iff.rfl rfl ?_)
      unfold Field.traced
      cases f.getter <;> rfl
    have hstage : d.traced.stageDraft (r, log) (f.traced d.id) v s = d.stageDraft r f v s := by
      unfold stageDraft
      rw [hsettled]
      rfl
    refine if_congr Iff.rfl rfl (if_congr Iff.rfl rfl ?_)
    rw [hstage]

theorem edit_traced {d : NamespaceDecl R} {s t : NamespaceState}
    (h : d.Edit (Policy.constraint R) s t) : d.traced.Edit (Policy.constraint _) s t := by
  cases h with
  | setDraft r id v offered =>
    rw [← setDraft_traced d r [] id v s]
    refine Edit.setDraft s (r, []) id v fun f hf => ?_
    rw [findField_traced, Option.map_eq_some_iff] at hf
    obtain ⟨g, hg, rfl⟩ := hf
    exact offered g hg
  | eraseDraft id => exact Edit.eraseDraft s id
  | clearDraft => exact Edit.clearDraft s

end NamespaceDecl

/-- Every call in the log is allowed. -/
def LogAllowed (ds : List (NamespaceDecl R)) (x : R × List SetterCall) : Prop :=
  ∀ call ∈ x.2, call.Allowed ds

theorem wellRegistered_traced {ds : List (NamespaceDecl R)} (hdefaults : ∀ d ∈ ds, d.DefaultsAllowed)
    (hedits : ∀ d ∈ ds, d.HookEdits (Policy.constraint R)) :
    WellRegistered (Policy.constraint _) (ds.map NamespaceDecl.traced) (LogAllowed ds) where
  accepts := by
    intro _ hd
    obtain ⟨d, hd', rfl⟩ := List.mem_map.mp hd
    refine NamespaceDecl.DefaultsAllowed.accepts fun _ hf => ?_
    obtain ⟨f, hf', rfl⟩ := List.mem_map.mp hf
    exact hdefaults d hd' f hf'
  promoted _ _ h := h
  defaults := by
    intro _ hd _ hf
    obtain ⟨d, hd', rfl⟩ := List.mem_map.mp hd
    obtain ⟨f, hf', rfl⟩ := List.mem_map.mp hf
    exact hdefaults d hd' f hf'
  edits := by
    intro _ hd _ hhook x
    obtain ⟨d, hd', rfl⟩ := List.mem_map.mp hd
    obtain ⟨hook, honCommit, rfl⟩ := Option.map_eq_some_iff.mp hhook
    exact Relation.ReflTransGen.mono (fun _ _ h => NamespaceDecl.edit_traced h) _ _
      (hedits d hd' hook honCommit (x.1, x.2.1))
  setter := by
    intro _ hd _ hf _ hsetter v hv x hx
    obtain ⟨d, hd', rfl⟩ := List.mem_map.mp hd
    obtain ⟨f, hf', rfl⟩ := List.mem_map.mp hf
    obtain ⟨setter, -, rfl⟩ := Option.map_eq_some_iff.mp hsetter
    intro call hcall
    rcases List.mem_append.mp hcall with hcall | hcall
    · exact hx call hcall
    · rw [List.mem_singleton.mp hcall]
      exact ⟨d, hd', rfl, f, NamespaceDecl.findField_of_mem hf', hv⟩
  hook := by
    intro _ hd _ hhook x hx
    obtain ⟨d, hd', rfl⟩ := List.mem_map.mp hd
    obtain ⟨hook, -, rfl⟩ := Option.map_eq_some_iff.mp hhook
    exact hx

/-! ## Runs -/

/-- The application changes the runtime, and the log is about setter calls only. -/
def SameLog (x y : R × List SetterCall) : Prop := y.2 = x.2

/-- Of what passes the check, exactly something that is not a number violates the constraint, that of a
range. In a run in which no ranged field is offered such a value, every draft, every working value and
every argument of a setter satisfies the constraint of its field. -/
theorem constraints_hold (env : Env F) (p : Provisioner R F)
    (hdefaults : ∀ d ∈ p.decls, d.DefaultsAllowed) (hedits : ∀ d ∈ p.decls, d.HookEdits (Policy.constraint R))
    (hregistered : ∀ n ∈ p.namespaces, n.state = n.decl.registered p.runtime)
    (hseeds : ∀ d ∈ p.decls, ∀ f ∈ d.fields, f.Satisfies (f.seed p.runtime))
    (q : Provisioner (R × List SetterCall) F)
    (hrun : Relation.ReflTransGen (Step (Policy.constraint _) SameLog env) p.traced q) :
    (∀ d ∈ p.decls, ∀ f ∈ d.fields, ∀ v, f.validate v = true → (f.Satisfies v ↔ ¬ f.Unordered v))
      ∧ (∀ d ∈ q.decls, (q.stateOf d.id).Valid (Policy.constraint _) d)
      ∧ ∀ call ∈ q.runtime.2, call.Allowed p.decls := by
  have happ := wellRegistered_traced hdefaults hedits
  have hdecls : p.traced.decls = p.decls.map NamespaceDecl.traced := by
    unfold Provisioner.traced Provisioner.decls
    rw [List.map_map, List.map_map]
    rfl
  have hstart : Sound (Policy.constraint _) (p.decls.map NamespaceDecl.traced)
      (LogAllowed p.decls) p.traced := by
    refine ⟨hdecls, fun d hd => ?_, fun call hcall => (by cases hcall), fun m hm => ?_⟩
    · rw [← hdecls] at hd
      obtain ⟨_, hn, rfl⟩ := List.mem_map.mp hd
      rw [Provisioner.stateOf_of_mem hn]
      obtain ⟨n, hn', rfl⟩ := List.mem_map.mp hn
      have hvalid : (n.decl.registered p.runtime).Valid (Policy.constraint R) n.decl :=
        registered_valid (hseeds n.decl (List.mem_map_of_mem hn'))
      rw [← hregistered n hn'] at hvalid
      have hallowed : ∀ values, NamespaceState.Allowed Field.Satisfies n.decl values →
          NamespaceState.Allowed Field.Satisfies n.decl.traced values := by
        intro values h id v hv
        obtain ⟨f, hf, hsatisfies⟩ := h id v hv
        exact ⟨f.traced n.decl.id, by rw [NamespaceDecl.findField_traced, hf]; rfl, hsatisfies⟩
      exact ⟨hallowed _ hvalid.draft, hallowed _ hvalid.working⟩
    · have hlog : ∀ c : Option (Prog String R Unit), c.map tracedCallback = some m →
          ∀ x, LogAllowed p.decls x → LogAllowed p.decls (m x).2 := by
        intro c hc x hx
        obtain ⟨m, -, rfl⟩ := Option.map_eq_some_iff.mp hc
        exact hx
      rcases hm with hm | hm | hm
      · exact hlog _ hm
      · exact hlog _ hm
      · exact hlog _ hm
  have hlog : ∀ x y : R × List SetterCall, SameLog x y → LogAllowed p.decls x →
      LogAllowed p.decls y := by
    intro x y hsame hx call hcall
    exact hx call (hsame ▸ hcall)
  have hsound := run_sound happ hlog hrun hstart
  refine ⟨fun d hd f hf v hv => ?_, fun d hd => hsound.states d (hsound.decls ▸ hd), hsound.runtime⟩
  exact Field.satisfies_iff_of_validate (hdefaults d hd f hf) hv

/-- A namespace with a level between zero and one. -/
def gaugeDecl : NamespaceDecl Unit where
  id := 1
  name := "gauge".toUTF8.toList
  fields :=
    [{ id := 10, name := "level".toUTF8.toList, type := .float, flags := ffLiveApply
       constraint := { hasRange := true, fmin := .fin 0, fmax := .fin 1 }
       defaultValue := .float (.fin 0) }]
  distinct := by decide

/-- A device whose only namespace has just been registered. -/
def gauge : Provisioner Unit Unit where
  namespaces := [{ decl := gaugeDecl, state := gaugeDecl.registered () }]
  storage := none
  started := false
  needsReboot := false
  schemaHash := 0
  runtime := ()
  distinct := List.nodup_singleton _

theorem gauge_defaults : ∀ d ∈ gauge.decls, d.DefaultsAllowed := by
  intro d hd f hf
  rw [List.mem_singleton.mp hd] at hf
  rw [List.mem_singleton.mp hf]
  exact ⟨rfl, fun _ => ⟨rfl, rfl⟩⟩

theorem gauge_seeds : ∀ d ∈ gauge.decls, ∀ f ∈ d.fields, f.Satisfies (f.seed gauge.runtime) := by
  intro d hd f hf
  have hdefault := gauge_defaults d hd f hf
  rw [List.mem_singleton.mp hd] at hf
  rw [List.mem_singleton.mp hf] at hdefault ⊢
  exact hdefault

/-- The level is set to one and committed. -/
theorem constraints_hold_gauge :
    ((Provisioner.commit bareEnv 0
        (Provisioner.setField 1 10 (.float (.fin 1)) gauge.traced).2).2.stateOf 1).Valid
      (Policy.constraint _) gaugeDecl.traced := by
  have hedits : ∀ d ∈ gauge.decls, d.HookEdits (Policy.constraint Unit) := by
    intro d hd hook hhook
    rw [List.mem_singleton.mp hd] at hhook
    cases hhook
  have hregistered : ∀ n ∈ gauge.namespaces, n.state = n.decl.registered gauge.runtime := by
    intro n hn
    rw [List.mem_singleton.mp hn]
  have hset : Step (Policy.constraint _) SameLog bareEnv gauge.traced
      (Provisioner.setField 1 10 (.float (.fin 1)) gauge.traced).2 := by
    refine Step.setField gauge.traced 1 10 (.float (.fin 1)) fun d hd f hf _ _ hun => ?_
    cases hun.2
  have hstates := (constraints_hold bareEnv gauge gauge_defaults hedits hregistered gauge_seeds _
    (.tail (.tail .refl hset) (Step.commit _ 0))).2.1
  exact hstates gaugeDecl.traced List.mem_cons_self

/-- Something that is not a number becomes the draft of a level between zero and one. -/
theorem not_a_number_staged :
    ¬ ∀ (p : Provisioner Unit Unit) (nsId : NamespaceId) (fieldId : FieldId) (v : Value),
      (∀ d ∈ p.decls, d.DefaultsAllowed) → (∀ d ∈ p.decls, (p.stateOf d.id).Valid (Policy.constraint Unit) d) →
      ∀ d ∈ p.decls, ((Provisioner.setField nsId fieldId v p).2.stateOf d.id).Valid
        (Policy.constraint Unit) d := by
  intro h
  have hvalid : ∀ d ∈ gauge.decls, (gauge.stateOf d.id).Valid (Policy.constraint Unit) d := by
    intro d hd
    rw [List.mem_singleton.mp hd]
    exact registered_valid (gauge_seeds gaugeDecl List.mem_cons_self)
  have hdraft := (h gauge 1 10 (.float .nan) gauge_defaults hvalid gaugeDecl
    List.mem_cons_self).draft 10 (.float .nan) rfl
  obtain ⟨f, hf, hsatisfies⟩ := hdraft
  cases hf
  exact absurd (hsatisfies.2 rfl).1 (by decide)

end MicroReticulum.Provisioning
