import MicroReticulum.Provisioning.SetState

/-!
# What a SetState payload decodes to

How the reader moves over a SetState payload depends on the declarations only. So the payload decodes to
a list of `Setting`s before anything is written, and the handler applies them in order
(`setStateRun_eq_apply`). Two payloads that decode to the same settings, but for the values of some
fields, are then the same request but for these values.
-/

namespace MicroReticulum.Provisioning

open MicroReticulum Library

variable {R F : Type}

/-- One thing a SetState payload makes the handler do. -/
inductive Setting (R : Type) where
  | includeState (b : Bool)
  | compress (b : Bool)
  /-- a `State` key -/
  | state
  /-- a namespace is named -/
  | touch (d : Option (NamespaceDecl R))
  | refuse (nsId : NamespaceId) (fieldId : FieldId) (code : ErrorCode)
  /-- a field is given a decoded value -/
  | write (nsId : NamespaceId) (d : NamespaceDecl R) (f : Field R) (v : Value)

/-- The handler's reaction. -/
def SetStateRun.apply (a : SetStateRun R F) : Setting R → SetStateRun R F
  | .includeState b => { a with includeState := b }
  | .compress b => { a with compress := b }
  | .state => { a with sawState := true }
  | .touch d => a.touch d
  | .refuse nsId fieldId code => a.error nsId fieldId code
  | .write nsId d f v => a.stage nsId d f v

theorem SetStateRun.apply_decls (a : SetStateRun R F) (x : Setting R) :
    (a.apply x).p.decls = a.p.decls := by
  cases x with
  | touch d => exact congrArg Provisioner.decls (SetStateRun.touch_p d a)
  | write nsId d f v => exact SetStateRun.stage_decls nsId d f v a
  | _ => rfl

/-- A field that is given a value changes no option. -/
theorem stage_options (nsId : NamespaceId) (d : NamespaceDecl R) (f : Field R) (v : Value)
    (a : SetStateRun R F) : (a.stage nsId d f v).includeState = a.includeState
      ∧ (a.stage nsId d f v).touched = a.touched := by
  unfold SetStateRun.stage
  split
  · exact ⟨rfl, rfl⟩
  · simp only
    split <;> exact ⟨rfl, rfl⟩

/-! ## Decoding -/

section Decoding

variable (env : Env F)

/-- `fieldEntry` -/
def fieldSettings (nsId : NamespaceId) (d : Option (NamespaceDecl R)) (c : Cursor) :
    List (Setting R) × Cursor :=
  match c with
  | .int k :: rest =>
    match d with
    | none => ([.refuse nsId (idOfWire k) .unknownNamespace], skipValue rest)
    | some d =>
      match d.findField (idOfWire k) with
      | none => ([.refuse nsId (idOfWire k) .unknownField], skipValue rest)
      | some f =>
        match unpackValue env.floatOfInt f.type rest with
        | (none, c') => ([.refuse nsId (idOfWire k) .invalidValue], c')
        | (some v, c') => ([.write nsId d f v], c')
  | c => ([], skip c 2)

/-- `namespaceEntry`, over fixed declarations -/
def namespaceSettings (ds : List (NamespaceDecl R)) (c : Cursor) : List (Setting R) × Cursor :=
  match c with
  | .int k :: .map n :: rest =>
    let d := findDecl ds (idOfWire k)
    (.touch d :: (gather (fieldSettings env (idOfWire k) d) n rest).1,
      (gather (fieldSettings env (idOfWire k) d) n rest).2)
  | .int k :: rest =>
    let d := findDecl ds (idOfWire k)
    ([.touch d, .refuse (idOfWire k) 0
      (if d.isNone then .unknownNamespace else .malformedRequest)], skipValue rest)
  | c => ([], skip c 2)

/-- `stateValue` -/
def stateSettings (ds : List (NamespaceDecl R)) (c : Cursor) : List (Setting R) × Cursor :=
  match c with
  | .map n :: rest =>
    (.state :: (gather (namespaceSettings env ds) n rest).1,
      (gather (namespaceSettings env ds) n rest).2)
  | c => ([.state], skipValue c)

/-- A flag that is given a boolean. -/
def flagSettings (set : Bool → Setting R) (c : Cursor) : List (Setting R) × Cursor :=
  match c with
  | .bool b :: rest => ([set b], rest)
  | c => ([], skipValue c)

/-- `setStateEntry` -/
def entrySettings (ds : List (NamespaceDecl R)) (c : Cursor) : List (Setting R) × Cursor :=
  match readUintKey c with
  | none => ([], skipValue c)
  | some (key, rest) =>
    if key = Key.includeState then flagSettings .includeState rest
    else if key = Key.reqCompress then flagSettings .compress rest
    else if key = Key.state then stateSettings env ds rest
    else ([], skipValue rest)

/-- The settings of a SetState payload. -/
def settings (ds : List (NamespaceDecl R)) (payload : Cursor) : List (Setting R) :=
  match payload with
  | .map n :: rest => (gather (entrySettings env ds) n rest).1
  | _ => []

theorem fieldEntry_eq (nsId : NamespaceId) (d : Option (NamespaceDecl R)) (c : Cursor)
    (a : SetStateRun R F) : fieldEntry env nsId d c a
      = ((fieldSettings env nsId d c).1.foldl .apply a, (fieldSettings env nsId d c).2) := by
  cases c with
  | nil => rfl
  | cons t rest =>
    cases t with
    | int k =>
      unfold fieldEntry fieldSettings fieldValue
      cases d with
      | none => rfl
      | some d =>
        simp only
        cases d.findField (idOfWire k) with
        | none => rfl
        | some f =>
          simp only
          rcases unpackValue env.floatOfInt f.type rest with ⟨v | v, c'⟩ <;> rfl
    | _ => rfl

theorem namespaceEntry_eq {ds : List (NamespaceDecl R)} (c : Cursor) {a : SetStateRun R F}
    (ha : a.p.decls = ds) : namespaceEntry env c a
      = ((namespaceSettings env ds c).1.foldl .apply a, (namespaceSettings env ds c).2) := by
  subst ha
  cases c with
  | nil => rfl
  | cons t rest =>
    cases t with
    | int k =>
      cases rest with
      | nil => rfl
      | cons t rest =>
        cases t with
        | map n =>
          exact times_eq_gather (P := fun _ => True) (fun _ _ _ => trivial)
            (fun c a _ => fieldEntry_eq env _ _ c a) n rest _ trivial
        | _ => rfl
    | _ => rfl

theorem stateValue_eq {ds : List (NamespaceDecl R)} (c : Cursor) {a : SetStateRun R F}
    (ha : a.p.decls = ds) : stateValue env c a
      = ((stateSettings env ds c).1.foldl .apply a, (stateSettings env ds c).2) := by
  cases c with
  | nil => rfl
  | cons t rest =>
    cases t with
    | map n =>
      exact times_eq_gather (P := fun a : SetStateRun R F => a.p.decls = ds)
        (fun a x h => (a.apply_decls x).trans h) (fun c a h => namespaceEntry_eq env c h) n rest
        { a with sawState := true } ha
    | _ => rfl

theorem setStateEntry_eq {ds : List (NamespaceDecl R)} (c : Cursor) {a : SetStateRun R F}
    (ha : a.p.decls = ds) : setStateEntry env c a
      = ((entrySettings env ds c).1.foldl .apply a, (entrySettings env ds c).2) := by
  unfold setStateEntry entrySettings
  cases readUintKey c with
  | none => rfl
  | some r =>
    obtain ⟨key, rest⟩ := r
    simp only
    split
    · cases rest with
      | nil => rfl
      | cons t rest => cases t <;> rfl
    · split
      · cases rest with
        | nil => rfl
        | cons t rest => cases t <;> rfl
      · split
        · exact stateValue_eq env rest ha
        · rfl

/-- The handler applies the settings it decodes. -/
theorem setStateRun_eq_apply (p : Provisioner R F) (payload : Cursor) :
    setStateRun env p payload = (settings env p.decls payload).foldl .apply { p } := by
  cases payload with
  | nil => rfl
  | cons t rest =>
    cases t with
    | map n =>
      exact congrArg Prod.fst (times_eq_gather (P := fun a : SetStateRun R F => a.p.decls = p.decls)
        (fun a x h => (a.apply_decls x).trans h) (fun c a h => setStateEntry_eq env c h) n rest
        { p } rfl)
    | _ => rfl

/-! ### Settings name what is registered -/

/-- A setting is about registered namespaces and fields. -/
def Setting.Registered (ds : List (NamespaceDecl R)) : Setting R → Prop
  | .touch (some d) => d ∈ ds
  | .write _ d f _ => d ∈ ds ∧ f ∈ d.fields
  | _ => True

theorem fieldSettings_registered {ds : List (NamespaceDecl R)} (nsId : NamespaceId)
    {d : Option (NamespaceDecl R)} (hd : ∀ d', d = some d' → d' ∈ ds) (c : Cursor) :
    ∀ x ∈ (fieldSettings env nsId d c).1, x.Registered ds := by
  intro x hx
  cases c with
  | nil => cases hx
  | cons t rest =>
    cases t with
    | int k =>
      unfold fieldSettings at hx
      cases d with
      | none => rw [List.mem_singleton.mp hx]; trivial
      | some d =>
        simp only at hx
        cases hfind : d.findField (idOfWire k) with
        | none =>
          rw [hfind] at hx
          rw [List.mem_singleton.mp hx]
          trivial
        | some f =>
          rw [hfind] at hx
          rcases hrun : unpackValue env.floatOfInt f.type rest with ⟨v | v, c'⟩ <;>
            simp only [hrun] at hx <;> rw [List.mem_singleton.mp hx]
          · trivial
          · exact ⟨hd d rfl, NamespaceDecl.findField_mem hfind⟩
    | _ => cases hx

theorem namespaceSettings_registered (ds : List (NamespaceDecl R)) (c : Cursor) :
    ∀ x ∈ (namespaceSettings env ds c).1, x.Registered ds := by
  have hfind : ∀ id d, findDecl ds id = some d → d ∈ ds := fun _ _ h =>
    List.mem_of_find?_eq_some h
  have htouch : ∀ id, (Setting.touch (findDecl ds id)).Registered ds := by
    intro id
    cases h : findDecl ds id with
    | none => trivial
    | some d => exact hfind id d h
  intro x hx
  unfold namespaceSettings at hx
  split at hx
  · rcases List.mem_cons.mp hx with rfl | hx
    · exact htouch _
    · obtain ⟨c', hc'⟩ := exists_of_mem_gather _ _ hx
      exact fieldSettings_registered env _ (hfind _) c' x hc'
  · rcases List.mem_cons.mp hx with rfl | hx
    · exact htouch _
    · rw [List.mem_singleton.mp hx]
      trivial
  · cases hx

theorem entrySettings_registered (ds : List (NamespaceDecl R)) (c : Cursor) :
    ∀ x ∈ (entrySettings env ds c).1, x.Registered ds := by
  have hflag : ∀ (set : Bool → Setting R), (∀ b, (set b).Registered ds) → ∀ c,
      ∀ x ∈ (flagSettings set c).1, x.Registered ds := by
    intro set hset c x hx
    unfold flagSettings at hx
    split at hx
    · rw [List.mem_singleton.mp hx]
      exact hset _
    · cases hx
  intro x hx
  unfold entrySettings at hx
  split at hx
  · cases hx
  · split at hx
    · exact hflag .includeState (fun _ => trivial) _ x hx
    · split at hx
      · exact hflag .compress (fun _ => trivial) _ x hx
      · split at hx
        · unfold stateSettings at hx
          split at hx
          · rcases List.mem_cons.mp hx with rfl | hx
            · trivial
            · obtain ⟨c', hc'⟩ := exists_of_mem_gather _ _ hx
              exact namespaceSettings_registered env ds c' x hc'
          · rw [List.mem_singleton.mp hx]
            trivial
        · cases hx

theorem settings_registered (ds : List (NamespaceDecl R)) (payload : Cursor) :
    ∀ x ∈ settings env ds payload, x.Registered ds := by
  intro x hx
  unfold settings at hx
  split at hx
  · obtain ⟨c', hc'⟩ := exists_of_mem_gather _ _ hx
    exact entrySettings_registered env ds c' x hc'
  · cases hx

end Decoding

end MicroReticulum.Provisioning
