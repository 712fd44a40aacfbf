import MicroReticulum.Provisioning.Handlers

/-!
# SetState, entry by entry

A SetState payload is a map whose `State` value is a map of maps. The handler reads all of it with one
cursor, so an entry is decoded independently of the entries before it only if each of those moved the
cursor past its value. `fieldLoop`, `namespaceLoop` and `payloadLoop` describe the three nested loops
as instances of `Loop`; `entries_independent_iff` puts them together.

Keys and values are arbitrary objects throughout. `ValuesPassed` is the condition on a payload: a value
that is refused because of its wire type, or that hides an extension value where it is skipped, is
only harmless at the very end.

The drafts are checked again when they are committed, and that is proved there.
-/

namespace MicroReticulum.Provisioning

open MicroReticulum Library

variable {R F : Type}

/-- A key and its value, in front of what follows. -/
def writeEntry (e : Object × Object) (rest : Cursor) : Cursor := e.1.tokens ++ (e.2.tokens ++ rest)

theorem entryTokens_append (entries : List (Object × Object)) (rest : Cursor) :
    Object.entryTokens entries ++ rest = entries.foldr writeEntry rest := by
  induction entries with
  | nil => rfl
  | cons e es ih =>
    simp only [Object.entryTokens, List.append_assoc, List.foldr_cons, writeEntry, ih]

/-- Where the keys of a map's entries stand; `one` tells it for a single entry. -/
def positionsOf (one : Object × Object → Cursor → List Cursor) :
    List (Object × Object) → Cursor → List Cursor
  | [], _ => []
  | e :: es, rest => one e (Object.entryTokens es ++ rest) ++ positionsOf one es rest

section Entries

variable {A : Type} (loop : Loop Cursor A (Object × Object))

/-- A loop that reads entries reads the entries of a map. -/
theorem writeAll_eq (hwrite : loop.write = writeEntry) (es : List (Object × Object))
    (rest : Cursor) : loop.writeAll es rest = Object.entryTokens es ++ rest := by
  rw [entryTokens_append]
  induction es with
  | nil => rfl
  | cons e es ih =>
    show loop.write e (loop.writeAll es rest) = _
    rw [hwrite, ih]
    rfl

/-- The positions in a loop are those at its entries, one after the other. -/
theorem positionsAll_eq (hwrite : loop.write = writeEntry) (es : List (Object × Object))
    (rest : Cursor) : loop.positionsAll es rest = positionsOf loop.positions es rest := by
  induction es with
  | nil => rfl
  | cons e es ih =>
    show loop.positions e (loop.writeAll es rest) ++ loop.positionsAll es rest = _
    rw [writeAll_eq loop hwrite, ih]
    rfl

/-- `Loop.reads_eq` over the entries of a map. -/
theorem reads_entries (hwrite : loop.write = writeEntry) {es : List (Object × Object)}
    (h : AllButLast loop.good loop.late es) (rest : Cursor) {a : A} (ha : loop.invariant a) :
    reads loop.log loop.body es.length (Object.entryTokens es ++ rest) a
      = positionsOf loop.positions es rest := by
  rw [← writeAll_eq loop hwrite, ← positionsAll_eq loop hwrite]
  exact loop.reads_eq h rest ha

/-- `Loop.reads_diverge` over the entries of a map. -/
theorem reads_entries_diverge (hwrite : loop.write = writeEntry) {es : List (Object × Object)}
    (h : ¬ AllButLast loop.good loop.late es) (rest : Cursor) {a : A} (ha : loop.invariant a)
    (l l' : List Cursor) :
    reads loop.log loop.body es.length (Object.entryTokens es ++ rest) a ++ l
      ≠ positionsOf loop.positions es rest ++ l' := by
  rw [← writeAll_eq loop hwrite, ← positionsAll_eq loop hwrite]
  exact loop.reads_diverge h rest ha l l'

/-- `Loop.times_eq` over the entries of a map. -/
theorem times_entries (hwrite : loop.write = writeEntry) {es : List (Object × Object)}
    (h : AllButLast loop.good loop.late es) (rest : Cursor) {a : A} (ha : loop.invariant a) :
    (times loop.body es.length (Object.entryTokens es ++ rest) a).1
        = es.foldl (fun a e => loop.effect e a) a
      ∧ ((times loop.body es.length (Object.entryTokens es ++ rest) a).2 = rest
        ↔ ∀ e ∈ es, loop.good e) := by
  rw [← writeAll_eq loop hwrite]
  exact loop.times_eq h rest ha

end Entries

/-- A value of a complete map ends where the rest begins exactly if skipping passes it. -/
theorem skipValue_eq_iff (o : Object) (rest : Cursor) :
    skipValue (o.tokens ++ rest) = rest ↔ o.plain = true := by
  unfold skipValue
  refine ⟨fun h => ?_, fun h => ?_⟩
  · by_contra hplain
    obtain ⟨inside, hstuck⟩ := skip_tokens_stuck o (Bool.eq_false_iff.mpr hplain) rest 0
    have := congrArg List.length (hstuck.symm.trans h)
    simp only [List.length_cons, List.length_append] at this
    omega
  · exact (skip_tokens o h rest 0).trans (skip_zero rest)

/-- A key and its value are passed together exactly if skipping passes both. -/
theorem skip_entry_eq_iff (e : Object × Object) (rest : Cursor) :
    skip (writeEntry e rest) 2 = rest ↔ e.1.plain = true ∧ e.2.plain = true := by
  obtain ⟨k, v⟩ := e
  cases hkey : k.plain with
  | true =>
    have hvalue := skipValue_eq_iff v rest
    rw [show skip (writeEntry (k, v) rest) 2 = skipValue (v.tokens ++ rest) from
      skip_tokens k hkey _ 1, hvalue]
    simp
  | false =>
    obtain ⟨inside, hstuck⟩ := skip_tokens_stuck k hkey (v.tokens ++ rest) 1
    refine ⟨fun h => ?_, fun h => absurd h.1 Bool.false_ne_true⟩
    have := congrArg List.length (hstuck.symm.trans h)
    simp only [List.length_cons, List.length_append] at this
    omega

/-- Passing only the key of an entry does not pass the entry. -/
theorem skipValue_key_ne (e : Object × Object) (rest : Cursor) :
    skipValue (writeEntry e rest) ≠ rest := by
  obtain ⟨k, v⟩ := e
  intro h
  have hpos := List.length_pos_iff.mpr (tokens_ne_nil v)
  have hlen := congrArg List.length h
  cases hkey : k.plain with
  | true =>
    have hskip : skipValue (writeEntry (k, v) rest) = v.tokens ++ rest :=
      (skipValue_eq_iff k _).mpr hkey
    rw [hskip, List.length_append] at hlen
    omega
  | false =>
    obtain ⟨inside, hstuck⟩ := skip_tokens_stuck k hkey (v.tokens ++ rest) 0
    have hskip : skipValue (writeEntry (k, v) rest) = _ := hstuck
    rw [hskip] at hlen
    simp only [List.length_cons, List.length_append] at hlen
    omega

/-! ## Declarations stay as they are -/

namespace SetStateRun

@[simp] theorem error_p (nsId : NamespaceId) (fieldId : FieldId) (code : ErrorCode)
    (a : SetStateRun R F) : (a.error nsId fieldId code).p = a.p := rfl

@[simp] theorem touch_p (d : Option (NamespaceDecl R)) (a : SetStateRun R F) :
    (a.touch d).p = a.p := by
  unfold touch
  split
  · rfl
  · split <;> rfl

theorem stage_decls (nsId : NamespaceId) (d : NamespaceDecl R) (f : Field R) (v : Value)
    (a : SetStateRun R F) : (a.stage nsId d f v).p.decls = a.p.decls := by
  unfold stage
  split
  · rfl
  · simp only
    split
    · exact Provisioner.setState_decls _ _ _
    · rfl

end SetStateRun

/-! ## One field -/

/-- What a field of a `State` map does, decoded from its own bytes. -/
def fieldEffect (env : Env F) (nsId : NamespaceId) (d : Option (NamespaceDecl R))
    (e : Object × Object) (a : SetStateRun R F) : SetStateRun R F :=
  match e.1 with
  | .int k =>
    match d with
    | none => a.error nsId (idOfWire k) .unknownNamespace
    | some d =>
      match d.findField (idOfWire k) with
      | none => a.error nsId (idOfWire k) .unknownField
      | some f =>
        if wireMatches f.type e.2 then a.stage nsId d f (valueOf env.floatOfInt f.type e.2)
        else a.error nsId (idOfWire k) .invalidValue
  | _ => a

theorem fieldEffect_decls (env : Env F) (nsId : NamespaceId) (d : Option (NamespaceDecl R))
    (e : Object × Object) (a : SetStateRun R F) :
    (fieldEffect env nsId d e a).p.decls = a.p.decls := by
  unfold fieldEffect
  split
  · split
    · rfl
    · split
      · rfl
      · split
        · exact SetStateRun.stage_decls _ _ _ _ a
        · rfl
  · rfl

/-- The cursor is moved past a field of a `State` map: its value has the wire type of the field; a value
that is only skipped contains no extension value. -/
def FieldPassed (d : Option (NamespaceDecl R)) (e : Object × Object) : Prop :=
  match e.1 with
  | .int k =>
    match d.bind fun d => d.findField (idOfWire k) with
    | some f => wireMatches f.type e.2 = true
    | none => e.2.plain = true
  | k => k.plain = true ∧ e.2.plain = true

/-- A registered field is passed exactly if the value has its type on the wire. -/
theorem fieldPassed_found {d : NamespaceDecl R} {k : Int} {f : Field R} (v : Object)
    (hfind : d.findField (idOfWire k) = some f) : FieldPassed (some d) (.int k, v) ↔ wireMatches f.type v = true := by
  simp only [FieldPassed, Option.bind_some, hfind]

instance (d : Option (NamespaceDecl R)) : DecidablePred (FieldPassed d) := fun e => by
  unfold FieldPassed
  split
  · split <;> infer_instance
  · infer_instance

/-- Reading a field that is written out has its effect. -/
theorem fieldEntry_effect (env : Env F) (nsId : NamespaceId) (d : Option (NamespaceDecl R))
    (e : Object × Object) (rest : Cursor) (a : SetStateRun R F) :
    (fieldEntry env nsId d (writeEntry e rest) a).1 = fieldEffect env nsId d e a := by
  obtain ⟨k, v⟩ := e
  cases k with
  | int n =>
    show (fieldValue env nsId d (idOfWire n) (v.tokens ++ rest) a).1 = _
    unfold fieldValue fieldEffect
    cases d with
    | none => rfl
    | some d =>
      simp only
      cases d.findField (idOfWire n) with
      | none => rfl
      | some f =>
        simp only
        cases hmatch : wireMatches f.type v with
        | true => simp only [unpackValue_of_wireMatches env.floatOfInt hmatch, if_true]
        | false =>
          obtain ⟨c, hc, -⟩ := unpackValue_of_not_wireMatches env.floatOfInt hmatch rest
          simp only [hc, Bool.false_eq_true, if_false]
  | _ => rfl

/-- Reading a field that is written out stops behind it exactly if the field is passed. -/
theorem fieldEntry_passes_iff (env : Env F) (nsId : NamespaceId) (d : Option (NamespaceDecl R))
    (e : Object × Object) (rest : Cursor) (a : SetStateRun R F) :
    (fieldEntry env nsId d (writeEntry e rest) a).2 = rest ↔ FieldPassed d e := by
  obtain ⟨k, v⟩ := e
  have hskip := skip_entry_eq_iff (k, v) rest
  cases hkey : k with
  | int n =>
    show (fieldValue env nsId d (idOfWire n) (v.tokens ++ rest) a).2 = rest ↔ _
    unfold fieldValue FieldPassed
    cases d with
    | none => exact skipValue_eq_iff v rest
    | some d =>
      simp only [Option.bind_some]
      cases d.findField (idOfWire n) with
      | none => exact skipValue_eq_iff v rest
      | some f =>
        simp only
        cases hmatch : wireMatches f.type v with
        | true => simp only [unpackValue_of_wireMatches env.floatOfInt hmatch]
        | false =>
          obtain ⟨c, hc, hlen⟩ := unpackValue_of_not_wireMatches env.floatOfInt hmatch rest
          simp only [hc, Bool.false_eq_true, iff_false]
          intro heq
          rw [heq] at hlen
          omega
  | _ =>
    rw [hkey] at hskip
    exact hskip

def fieldPositions (e : Object × Object) (rest : Cursor) : List Cursor := [writeEntry e rest]

theorem fieldPositions_head (e : Object × Object) (rest : Cursor) :
    ∃ l, fieldPositions e rest = writeEntry e rest :: l := ⟨[], rfl⟩

/-- The loop over the fields of a namespace. -/
def fieldLoop (env : Env F) (nsId : NamespaceId) (d : Option (NamespaceDecl R)) :
    Loop Cursor (SetStateRun R F) (Object × Object) where
  body := fieldEntry env nsId d
  log c _ := [c]
  write := writeEntry
  positions := fieldPositions
  good := FieldPassed d
  late _ := True
  effect := fieldEffect env nsId d
  invariant _ := True
  late_of_good _ _ := trivial
  invariant_effect _ _ _ := trivial
  log_head _ _ := ⟨[], rfl⟩
  positions_head := fieldPositions_head
  log_of_late _ _ _ _ _ := rfl
  log_of_not_late _ _ _ _ h := absurd trivial h
  body_of_late e rest a _ _ := fieldEntry_effect env nsId d e rest a
  passed_iff e rest a _ _ := fieldEntry_passes_iff env nsId d e rest a

/-! ## One namespace -/

/-- What the value of a namespace does, decoded from its own bytes. -/
def namespaceValueEffect (env : Env F) (nsId : NamespaceId) (v : Object)
    (d : Option (NamespaceDecl R)) (a : SetStateRun R F) : SetStateRun R F :=
  match v with
  | .map fields => fields.foldl (fun a e => fieldEffect env nsId d e a) (a.touch d)
  | _ => (a.touch d).error nsId 0 (if d.isNone then .unknownNamespace else .malformedRequest)

/-- What a namespace of a `State` map does, decoded from its own bytes. -/
def namespaceEffect (env : Env F) (e : Object × Object) (a : SetStateRun R F) : SetStateRun R F :=
  match e with
  | (.int k, v) => namespaceValueEffect env (idOfWire k) v (a.p.find (idOfWire k)) a
  | _ => a

theorem namespaceEffect_decls (env : Env F) (e : Object × Object) (a : SetStateRun R F) :
    (namespaceEffect env e a).p.decls = a.p.decls := by
  have hfields : ∀ (id : NamespaceId) (d : Option (NamespaceDecl R)) (fields : List (Object × Object))
      (a : SetStateRun R F),
      (fields.foldl (fun a e => fieldEffect env id d e a) a).p.decls = a.p.decls := by
    intro id d fields
    induction fields with
    | nil => intro a; rfl
    | cons e es ih => intro a; exact (ih _).trans (fieldEffect_decls env id d e a)
  unfold namespaceEffect
  split
  · unfold namespaceValueEffect
    split
    · rw [hfields, SetStateRun.touch_p]
    · rw [SetStateRun.error_p, SetStateRun.touch_p]
  · rfl

/-- The namespace an id names. -/
def findDecl (ds : List (NamespaceDecl R)) (id : NamespaceId) : Option (NamespaceDecl R) :=
  ds.find? fun d => d.id = id

/-- The cursor is moved past a namespace of a `State` map. -/
def NamespacePassed (ds : List (NamespaceDecl R)) (e : Object × Object) : Prop :=
  match e with
  | (.int k, .map fields) => ∀ e ∈ fields, FieldPassed (findDecl ds (idOfWire k)) e
  | (.int _, v) => v.plain = true
  | (k, v) => k.plain = true ∧ v.plain = true

/-- Every field of the namespace is read from its own place. -/
def NamespaceRead (ds : List (NamespaceDecl R)) (e : Object × Object) : Prop :=
  match e with
  | (.int k, .map fields) =>
    AllButLast (FieldPassed (findDecl ds (idOfWire k))) (fun _ => True) fields
  | _ => True

/-- The places `namespaceEntry` reads keys from. -/
def namespaceLog (env : Env F) (c : Cursor) (a : SetStateRun R F) : List Cursor :=
  c :: match c with
    | .int k :: .map n :: rest =>
      reads (fun c _ => [c]) (fieldEntry env (idOfWire k) (a.p.find (idOfWire k))) n rest
        (a.touch (a.p.find (idOfWire k)))
    | _ => []

def namespacePositions (e : Object × Object) (rest : Cursor) : List Cursor :=
  writeEntry e rest :: match e with
    | (.int _, .map fields) => positionsOf fieldPositions fields rest
    | _ => []

/-- The loop over the namespaces of a `State` map, over fixed declarations. -/
def namespaceLoop (env : Env F) (ds : List (NamespaceDecl R)) :
    Loop Cursor (SetStateRun R F) (Object × Object) where
  body := namespaceEntry env
  log := namespaceLog env
  write := writeEntry
  positions := namespacePositions
  good := NamespacePassed ds
  late := NamespaceRead ds
  effect := namespaceEffect env
  invariant a := a.p.decls = ds
  late_of_good := by
    rintro ⟨k, v⟩ h
    cases k with
    | int k =>
      cases v with
      | map fields => exact (fieldLoop env (idOfWire k) _).allButLast_of_all h
      | _ => trivial
    | _ => trivial
  invariant_effect e _ ha := (namespaceEffect_decls env e _).trans ha
  log_head c a := ⟨_, rfl⟩
  positions_head e rest := ⟨_, rfl⟩
  log_of_late := by
    rintro ⟨k, v⟩ rest a rfl h
    cases k with
    | int k =>
      cases v with
      | map fields =>
        exact congrArg (List.cons _)
          (reads_entries (fieldLoop env (idOfWire k) (a.p.find (idOfWire k))) rfl h rest trivial)
      | _ => rfl
    | _ => rfl
  log_of_not_late := by
    rintro ⟨k, v⟩ rest a rfl h l l'
    cases k with
    | int k =>
      cases v with
      | map fields =>
        intro heq
        exact reads_entries_diverge (fieldLoop env (idOfWire k) (a.p.find (idOfWire k))) rfl h rest
          trivial l l' (List.cons.inj heq).2
      | _ => exact absurd trivial h
    | _ => exact absurd trivial h
  body_of_late := by
    rintro ⟨k, v⟩ rest a rfl h
    cases k with
    | int k =>
      cases v with
      | map fields =>
        exact (times_entries (fieldLoop env (idOfWire k) (a.p.find (idOfWire k))) rfl h rest
          trivial).1
      | _ => rfl
    | _ => rfl
  passed_iff := by
    rintro ⟨k, v⟩ rest a rfl h
    have hskip := skip_entry_eq_iff (k, v) rest
    have hvalue := skipValue_eq_iff v rest
    cases hkey : k with
    | int k =>
      rw [hkey] at h
      cases hmap : v with
      | map fields =>
        rw [hmap] at h
        exact (times_entries (fieldLoop env (idOfWire k) (a.p.find (idOfWire k))) rfl h rest
          trivial).2
      | _ =>
        rw [hmap] at hvalue
        exact hvalue
    | _ =>
      rw [hkey] at hskip
      exact hskip

/-! ## The payload -/

/-- The value of a boolean option. -/
def flagOf (flag : Bool) : Object → Bool
  | .bool b => b
  | _ => flag

/-- Whatever a boolean option is given, its value is skipped like any other. -/
theorem readFlag_tokens (flag : Bool) (v : Object) (rest : Cursor) :
    readFlag flag (v.tokens ++ rest) = (flagOf flag v, skipValue (v.tokens ++ rest)) := by
  cases v with
  | bool b =>
    show (b, rest) = (b, skip rest 0)
    rw [skip_zero]
  | _ => rfl

/-- What an entry of the payload does, decoded from its own bytes. -/
def payloadEffect (env : Env F) (e : Object × Object) (a : SetStateRun R F) : SetStateRun R F :=
  match e with
  | (.int k, v) =>
    if idOfWire k = Key.includeState then { a with includeState := flagOf a.includeState v }
    else if idOfWire k = Key.reqCompress then { a with compress := flagOf a.compress v }
    else if idOfWire k = Key.state then
      match v with
      | .map namespaces =>
        namespaces.foldl (fun a e => namespaceEffect env e a) { a with sawState := true }
      | _ => { a with sawState := true }
    else a
  | _ => a

theorem payloadEffect_decls (env : Env F) (e : Object × Object) (a : SetStateRun R F) :
    (payloadEffect env e a).p.decls = a.p.decls := by
  have hnamespaces : ∀ (namespaces : List (Object × Object)) (a : SetStateRun R F),
      (namespaces.foldl (fun a e => namespaceEffect env e a) a).p.decls = a.p.decls := by
    intro namespaces
    induction namespaces with
    | nil => intro a; rfl
    | cons e es ih => intro a; exact (ih _).trans (namespaceEffect_decls env e a)
  unfold payloadEffect
  split
  · split
    · rfl
    · split
      · rfl
      · split
        · split
          · exact hnamespaces _ _
          · rfl
        · rfl
  · rfl

/-- The cursor is moved past an entry of the payload. The value of a key that is not an integer is
never skipped. -/
def EntryPassed (ds : List (NamespaceDecl R)) (e : Object × Object) : Prop :=
  match e with
  | (.int k, .map entries) =>
    if idOfWire k = Key.state then ∀ e ∈ entries, NamespacePassed ds e
    else (Object.map entries).plain = true
  | (.int _, v) => v.plain = true
  | _ => False

/-- Every namespace and every field of the entry is read from its own place. -/
def EntryRead (ds : List (NamespaceDecl R)) (e : Object × Object) : Prop :=
  match e with
  | (.int k, .map entries) =>
    if idOfWire k = Key.state then AllButLast (NamespacePassed ds) (NamespaceRead ds) entries
    else True
  | _ => True

/-- The places `setStateEntry` reads keys from. -/
def setStateLog (env : Env F) (c : Cursor) (a : SetStateRun R F) : List Cursor :=
  c :: match c with
    | .int k :: .map n :: rest =>
      if idOfWire k = Key.state then
        reads (namespaceLog env) (namespaceEntry env) n rest { a with sawState := true }
      else []
    | _ => []

def entryPositions (e : Object × Object) (rest : Cursor) : List Cursor :=
  writeEntry e rest :: match e with
    | (.int k, .map entries) =>
      if idOfWire k = Key.state then positionsOf namespacePositions entries rest else []
    | _ => []

/-- An entry under an integer key that is not the `State` map. -/
theorem setStateEntry_option (env : Env F) {k : Int} (v : Object)
    (h : idOfWire k ≠ Key.state ∨ ∀ entries, v ≠ .map entries) (rest : Cursor)
    (a : SetStateRun R F) :
    setStateEntry env (writeEntry (.int k, v) rest) a
      = (payloadEffect env (.int k, v) a, skipValue (v.tokens ++ rest)) := by
  have hread : readUintKey (writeEntry (.int k, v) rest) = some (idOfWire k, v.tokens ++ rest) := rfl
  unfold setStateEntry payloadEffect
  rw [hread]
  simp only [readFlag_tokens]
  by_cases hinclude : idOfWire k = Key.includeState
  · simp only [if_pos hinclude]
  by_cases hcompress : idOfWire k = Key.reqCompress
  · simp only [if_neg hinclude, if_pos hcompress]
  by_cases hstate : idOfWire k = Key.state
  · simp only [if_neg hinclude, if_neg hcompress, if_pos hstate]
    cases v with
    | map entries => exact absurd rfl (h.resolve_left (not_not_intro hstate) entries)
    | _ => rfl
  · simp only [if_neg hinclude, if_neg hcompress, if_neg hstate]

/-- The `State` map. -/
theorem setStateEntry_state (env : Env F) {k : Int} (hstate : idOfWire k = Key.state)
    (entries : List (Object × Object)) (rest : Cursor) (a : SetStateRun R F) :
    setStateEntry env (writeEntry (.int k, .map entries) rest) a
      = times (namespaceEntry env) entries.length (Object.entryTokens entries ++ rest)
        { a with sawState := true } := by
  show (if idOfWire k = Key.includeState then _ else if idOfWire k = Key.reqCompress then _
    else if idOfWire k = Key.state then _ else _) = _
  rw [hstate]
  rfl

/-- The loop over the entries of the payload. -/
def payloadLoop (env : Env F) (ds : List (NamespaceDecl R)) :
    Loop Cursor (SetStateRun R F) (Object × Object) where
  body := setStateEntry env
  log := setStateLog env
  write := writeEntry
  positions := entryPositions
  good := EntryPassed ds
  late := EntryRead ds
  effect := payloadEffect env
  invariant a := a.p.decls = ds
  late_of_good := by
    rintro ⟨k, v⟩ h
    cases k with
    | int k =>
      cases v with
      | map entries =>
        by_cases hstate : idOfWire k = Key.state
        · simp only [EntryPassed, EntryRead, if_pos hstate] at h ⊢
          exact (namespaceLoop env ds).allButLast_of_all h
        · simp only [EntryRead, if_neg hstate]
      | _ => trivial
    | _ => trivial
  invariant_effect e _ ha := (payloadEffect_decls env e _).trans ha
  log_head _ _ := ⟨_, rfl⟩
  positions_head _ _ := ⟨_, rfl⟩
  log_of_late := by
    rintro ⟨k, v⟩ rest a ha h
    cases k with
    | int k =>
      cases v with
      | map entries =>
        refine congrArg (List.cons _) ?_
        show (if idOfWire k = Key.state then _ else _) = if idOfWire k = Key.state then _ else _
        by_cases hstate : idOfWire k = Key.state
        · simp only [EntryRead, if_pos hstate] at h ⊢
          exact reads_entries (namespaceLoop env ds) rfl h rest (a := { a with sawState := true }) ha
        · simp only [if_neg hstate]
      | _ => rfl
    | _ => rfl
  log_of_not_late := by
    rintro ⟨k, v⟩ rest a ha h l l' heq
    cases k with
    | int k =>
      cases v with
      | map entries =>
        by_cases hstate : idOfWire k = Key.state
        · simp only [EntryRead, if_pos hstate] at h
          have htail := (List.cons.inj heq).2
          simp only [writeEntry, Object.tokens, List.cons_append, List.nil_append, if_pos hstate]
            at htail
          exact reads_entries_diverge (namespaceLoop env ds) rfl h rest
            (a := { a with sawState := true }) ha l l' htail
        · simp only [EntryRead, if_neg hstate, not_true] at h
      | _ => exact absurd trivial h
    | _ => exact absurd trivial h
  body_of_late := by
    rintro ⟨k, v⟩ rest a ha h
    cases k with
    | int k =>
      by_cases hmap : ∃ entries, idOfWire k = Key.state ∧ v = .map entries
      · obtain ⟨entries, hstate, rfl⟩ := hmap
        rw [setStateEntry_state env hstate]
        simp only [EntryRead, if_pos hstate] at h
        refine (times_entries (namespaceLoop env ds) rfl h rest
          (a := { a with sawState := true }) ha).1.trans ?_
        unfold payloadEffect
        simp only [hstate]
        rfl
      · rw [setStateEntry_option env v (by grind)]
    | _ => rfl
  passed_iff := by
    rintro ⟨k, v⟩ rest a ha h
    have hkeyOnly := skipValue_key_ne (k, v) rest
    cases hkey : k with
    | int k =>
      rw [hkey] at h
      by_cases hmap : ∃ entries, idOfWire k = Key.state ∧ v = .map entries
      · obtain ⟨entries, hstate, rfl⟩ := hmap
        rw [setStateEntry_state env hstate]
        simp only [EntryRead, EntryPassed, if_pos hstate] at h ⊢
        exact (times_entries (namespaceLoop env ds) rfl h rest
          (a := { a with sawState := true }) ha).2
      · rw [setStateEntry_option env v (by grind)]
        refine (skipValue_eq_iff v rest).trans ?_
        cases v with
        | map entries =>
          have hstate : idOfWire k ≠ Key.state := fun heq => hmap ⟨entries, heq, rfl⟩
          simp only [EntryPassed, if_neg hstate]
        | _ => exact Iff.rfl
    | _ =>
      rw [hkey] at hkeyOnly
      exact iff_of_false hkeyOnly id

/-! ## Entries on their own -/

/-- The local variables of `op_set_state` after the last entry of its payload. -/
def setStateRun (env : Env F) (p : Provisioner R F) (payload : Cursor) : SetStateRun R F :=
  match payload with
  | .map n :: rest => (times (setStateEntry env) n rest { p }).1
  | _ => { p }

/-- The handler leaves the provisioner its loop has reached. -/
theorem opSetState_run (env : Env F) (seq : UInt64) (p : Provisioner R F) (n : Nat)
    (rest : Cursor) :
    opSetState env seq (some (.map n :: rest)) p
      = (let a := setStateRun env p (.map n :: rest)
        (.value (if a.sawState then setStateResponse env seq a
          else encodeError env seq .malformedRequest "missing State key"), a.p)) := rfl

/-- The entries of a namespace, each in a payload of its own. -/
def aloneFields (k : Int) (ns : Object × Object) : List (Object × Object) :=
  match ns with
  | (.int n, .map fields) => fields.map fun f => (.int k, .map [(.int n, .map [f])])
  | ns => [(.int k, .map [ns])]

/-- The entries of a `State` map, each in a payload of its own. -/
def aloneEntries (e : Object × Object) : List (Object × Object) :=
  match e with
  | (.int k, .map namespaces) =>
    if idOfWire k = Key.state then namespaces.flatMap (aloneFields k) else []
  | _ => []

/-- A request with a single entry, after requests that left `r`. -/
def applyAlone (env : Env F) (r : Provisioner R F × List FieldError) (e : Object × Object) :
    Provisioner R F × List FieldError :=
  let a := setStateRun env r.1 (Object.map [e]).tokens
  (a.p, r.2 ++ a.errors)

/-- All entries of a payload, each in a request of its own. -/
def applyEach (env : Env F) (p : Provisioner R F) (entries : List (Object × Object)) :
    Provisioner R F × List FieldError :=
  (entries.flatMap aloneEntries).foldl (applyAlone env) (p, [])

namespace SetStateRun

/-- Provisioner and errors, the part of the run the entries share. -/
def outcome (a : SetStateRun R F) : Provisioner R F × List FieldError := (a.p, a.errors)

/-- What a change of the run adds to an outcome when it starts afresh. -/
def onOutcome (g : SetStateRun R F → SetStateRun R F) (r : Provisioner R F × List FieldError) :
    Provisioner R F × List FieldError :=
  ((g { p := r.1 }).p, r.2 ++ (g { p := r.1 }).errors)

/-- The change adds the same to every run with the same provisioner. -/
def Uniform (g : SetStateRun R F → SetStateRun R F) : Prop :=
  ∀ a, (g a).outcome = onOutcome g a.outcome

/-- On the outcome, one effect behind the other is one behind the other. -/
theorem onOutcome_comp {g h : SetStateRun R F → SetStateRun R F} (hh : Uniform h)
    (r : Provisioner R F × List FieldError) :
    onOutcome (fun a => h (g a)) r = onOutcome h (onOutcome g r) := by
  have hstart := hh (g { p := r.1 })
  have hp := congrArg Prod.fst hstart
  have herrors := congrArg Prod.snd hstart
  refine Prod.ext hp ?_
  show r.2 ++ (h (g { p := r.1 })).errors = r.2 ++ _ ++ _
  rw [List.append_assoc]
  exact congrArg (r.2 ++ ·) herrors

/-- Two effects that look at the outcome only, one behind the other, do so too. -/
theorem Uniform.comp {g h : SetStateRun R F → SetStateRun R F} (hg : Uniform g) (hh : Uniform h) :
    Uniform fun a => h (g a) := fun a => by
  rw [onOutcome_comp hh, ← hg a]
  exact hh (g a)

theorem uniform_id : Uniform fun a : SetStateRun R F => a := fun a =>
  (congrArg (Prod.mk a.p) (List.append_nil a.errors)).symm

/-- A run of uniform changes, on outcomes. -/
theorem outcome_foldl {ι : Type} {g : ι → SetStateRun R F → SetStateRun R F}
    (hg : ∀ x, Uniform (g x)) (xs : List ι) (a : SetStateRun R F) :
    (xs.foldl (fun a x => g x a) a).outcome
      = xs.foldl (fun r x => onOutcome (g x) r) a.outcome := by
  induction xs generalizing a with
  | nil => rfl
  | cons x xs ih =>
    rw [List.foldl_cons, List.foldl_cons, ih, hg x a]

/-- A loop of effects that look at the outcome only does so too. -/
theorem uniform_foldl {ι : Type} {g : ι → SetStateRun R F → SetStateRun R F}
    (hg : ∀ x, Uniform (g x)) (xs : List ι) : Uniform fun a => xs.foldl (fun a x => g x a) a := by
  induction xs with
  | nil => exact uniform_id
  | cons x xs ih => exact (hg x).comp ih

/-- Naming a namespace says nothing about the outcome. -/
theorem outcome_touch (d : Option (NamespaceDecl R)) (a : SetStateRun R F) :
    (a.touch d).outcome = a.outcome := by
  unfold touch
  split
  · rfl
  · split <;> rfl

theorem onOutcome_touch (d : Option (NamespaceDecl R)) (r : Provisioner R F × List FieldError) :
    onOutcome (touch d) r = r := by
  have h := outcome_touch d { p := r.1 }
  have hp : (touch d { p := r.1 }).p = r.1 := congrArg Prod.fst h
  have herrors : (touch d { p := r.1 }).errors = [] := congrArg Prod.snd h
  exact Prod.ext hp ((congrArg (r.2 ++ ·) herrors).trans (List.append_nil r.2))

theorem uniform_touch (d : Option (NamespaceDecl R)) :
    Uniform (touch d : SetStateRun R F → SetStateRun R F) := fun a =>
  (outcome_touch d a).trans (onOutcome_touch d a.outcome).symm

theorem uniform_error (nsId : NamespaceId) (fieldId : FieldId) (code : ErrorCode) :
    Uniform (error nsId fieldId code : SetStateRun R F → SetStateRun R F) := fun _ => rfl

/-- Staging a value looks at the provisioner only. -/
theorem uniform_stage (nsId : NamespaceId) (d : NamespaceDecl R) (f : Field R) (v : Value) :
    Uniform (stage nsId d f v : SetStateRun R F → SetStateRun R F) := by
  intro a
  unfold onOutcome outcome stage error
  split
  · rfl
  · simp only
    split
    · simp
    · rfl

end SetStateRun

open SetStateRun

/-- The effect of a field looks at the outcome so far only. -/
theorem uniform_fieldEffect (env : Env F) (nsId : NamespaceId) (d : Option (NamespaceDecl R))
    (e : Object × Object) : Uniform (fieldEffect env nsId d e) := by
  unfold fieldEffect
  split
  · split
    · exact uniform_error _ _ _
    · split
      · exact uniform_error _ _ _
      · split
        · exact uniform_stage _ _ _ _
        · exact uniform_error _ _ _
  · exact uniform_id

/-- The effect of a namespace's fields looks at the outcome so far only. -/
theorem uniform_namespaceValueEffect (env : Env F) (nsId : NamespaceId) (v : Object)
    (d : Option (NamespaceDecl R)) : Uniform (namespaceValueEffect env nsId v d) := by
  cases v with
  | map fields =>
    exact (uniform_touch d).comp (uniform_foldl (uniform_fieldEffect env nsId d) fields)
  | _ => exact (uniform_touch d).comp (uniform_error _ _ _)

/-- The effect of a namespace looks at the outcome so far only. -/
theorem uniform_namespaceEffect (env : Env F) (e : Object × Object) :
    Uniform (namespaceEffect env e : SetStateRun R F → SetStateRun R F) := by
  obtain ⟨k, v⟩ := e
  cases k with
  | int k =>
    exact fun a => uniform_namespaceValueEffect env (idOfWire k) v (a.p.find (idOfWire k)) a
  | _ => exact uniform_id

/-- A payload of one entry is read from its own bytes. -/
theorem setStateRun_single (env : Env F) (p : Provisioner R F) {e : Object × Object}
    (h : EntryRead p.decls e) :
    setStateRun env p (Object.map [e]).tokens = payloadEffect env e { p } := by
  have hlast : AllButLast (EntryPassed p.decls) (EntryRead p.decls) [e] := h
  have hrun := (times_entries (payloadLoop env p.decls) rfl hlast [] (a := { p }) rfl).1
  rw [List.append_nil] at hrun
  exact hrun


/-- A namespace alone in a payload acts as it does among others. -/
theorem applyAlone_namespace (env : Env F) (r : Provisioner R F × List FieldError) {k : Int}
    (hstate : idOfWire k = Key.state) {ns : Object × Object} (h : NamespaceRead r.1.decls ns) :
    applyAlone env r (.int k, .map [ns]) = onOutcome (namespaceEffect env ns) r := by
  have hread : EntryRead r.1.decls (.int k, .map [ns]) := by
    simp only [EntryRead, if_pos hstate]
    exact h
  have hstart : (_, _) = ((namespaceEffect env ns { p := r.1 }).p, [] ++ _) :=
    uniform_namespaceEffect env ns { p := r.1, sawState := true }
  have heffect : payloadEffect env (.int k, .map [ns]) { p := r.1 }
      = namespaceEffect env ns { p := r.1, sawState := true } := by
    simp only [payloadEffect, hstate]
    rfl
  unfold applyAlone
  rw [setStateRun_single env r.1 hread, heffect]
  obtain ⟨hp, herrors⟩ := Prod.mk.inj hstart
  exact Prod.ext hp (congrArg (r.2 ++ ·) herrors)

/-- A field alone in a payload acts as it does among others. -/
theorem applyAlone_field (env : Env F) (r : Provisioner R F × List FieldError) {k : Int}
    (hstate : idOfWire k = Key.state) (n : Int) (f : Object × Object) :
    applyAlone env r (.int k, .map [(.int n, .map [f])])
      = onOutcome (fieldEffect env (idOfWire n) (r.1.find (idOfWire n)) f) r := by
  have hread : NamespaceRead r.1.decls (.int n, .map [f]) := trivial
  rw [applyAlone_namespace env r hstate hread]
  show onOutcome (fun a => fieldEffect env (idOfWire n) (r.1.find (idOfWire n)) f
    (touch (r.1.find (idOfWire n)) a)) r = _
  rw [onOutcome_comp (uniform_fieldEffect _ _ _ _), onOutcome_touch]

/-- A fold along which an invariant holds. -/
theorem foldl_congr_of_invariant {α β : Type} {P : β → Prop} {f g : β → α → β}
    (hP : ∀ b x, P b → P (g b x)) (h : ∀ b x, P b → f b x = g b x) (xs : List α) :
    ∀ b, P b → xs.foldl f b = xs.foldl g b := by
  induction xs with
  | nil => exact fun _ _ => rfl
  | cons x xs ih =>
    intro b hb
    rw [List.foldl_cons, List.foldl_cons, h b x hb]
    exact ih _ (hP b x hb)

/-- A namespace does what its entries do on their own. -/
theorem outcome_namespaceEffect (env : Env F) {k : Int} (hstate : idOfWire k = Key.state)
    (ns : Object × Object) (a : SetStateRun R F) :
    (namespaceEffect env ns a).outcome = (aloneFields k ns).foldl (applyAlone env) a.outcome := by
  have hsingle : NamespaceRead a.p.decls ns →
      (namespaceEffect env ns a).outcome
        = [((.int k, .map [ns]) : Object × Object)].foldl (applyAlone env) a.outcome :=
    fun hread => (uniform_namespaceEffect env ns a).trans
      (applyAlone_namespace env a.outcome hstate hread).symm
  obtain ⟨n, v⟩ := ns
  cases n with
  | int n =>
    cases v with
    | map fields =>
      unfold aloneFields
      rw [List.foldl_map]
      have hfold := outcome_foldl (uniform_fieldEffect env (idOfWire n) (a.p.find (idOfWire n)))
        fields (a.touch (a.p.find (idOfWire n)))
      rw [outcome_touch] at hfold
      -- the namespace is looked up again for every entry, among the same declarations
      refine hfold.trans (foldl_congr_of_invariant (P := fun r => r.1.decls = a.p.decls)
        (fun r f hr => ?_) (fun r f hr => ?_) fields a.outcome rfl).symm
      · exact (fieldEffect_decls _ _ _ f _).trans hr
      · have hfind : r.1.find (idOfWire n) = a.p.find (idOfWire n) :=
          congrArg (findDecl · (idOfWire n)) hr
        rw [applyAlone_field env r hstate, hfind]
    | _ => exact hsingle trivial
  | _ => exact hsingle trivial

/-- The namespaces of a `State` map do what their entries do on their own. -/
theorem outcome_namespaces (env : Env F) {k : Int} (hstate : idOfWire k = Key.state)
    (namespaces : List (Object × Object)) (a : SetStateRun R F) :
    (namespaces.foldl (fun a e => namespaceEffect env e a) a).outcome
      = (namespaces.flatMap (aloneFields k)).foldl (applyAlone env) a.outcome := by
  rw [List.foldl_flatMap]
  induction namespaces generalizing a with
  | nil => rfl
  | cons ns nss ih =>
    rw [List.foldl_cons, List.foldl_cons, ih, outcome_namespaceEffect env hstate]

/-- What is not a `State` map leaves the outcome alone. -/
theorem outcome_option (env : Env F) (k : Int) (v : Object)
    (h : (∀ entries, v ≠ .map entries) ∨ idOfWire k ≠ Key.state) (a : SetStateRun R F) :
    (payloadEffect env (.int k, v) a).outcome = a.outcome := by
  unfold payloadEffect
  simp only
  split
  · rfl
  · split
    · rfl
    · split
      case isTrue hstate =>
        split
        case h_1 => exact absurd rfl (h.resolve_right (not_not_intro hstate) _)
        case h_2 => rfl
      case isFalse => rfl

/-- An entry of the payload does what the entries in it do on their own. -/
theorem outcome_payloadEffect (env : Env F) (e : Object × Object) (a : SetStateRun R F) :
    (payloadEffect env e a).outcome = (aloneEntries e).foldl (applyAlone env) a.outcome := by
  obtain ⟨k, v⟩ := e
  cases k with
  | int k =>
    cases v with
    | map namespaces =>
      by_cases hstate : idOfWire k = Key.state
      · have heffect : payloadEffect env (.int k, .map namespaces) a
            = namespaces.foldl (fun a e => namespaceEffect env e a) { a with sawState := true } := by
          simp only [payloadEffect, hstate]
          rfl
        rw [heffect]
        simp only [aloneEntries, if_pos hstate]
        exact outcome_namespaces env hstate namespaces { a with sawState := true }
      · rw [outcome_option env k _ (.inr hstate)]
        simp only [aloneEntries, if_neg hstate, List.foldl_nil]
    | _ => exact outcome_option env k _ (.inl fun _ h => by cases h) a
  | _ => rfl

/-- The effects of all entries are those of the entries on their own. -/
theorem outcome_payload (env : Env F) (entries : List (Object × Object)) (a : SetStateRun R F) :
    (entries.foldl (fun a e => payloadEffect env e a) a).outcome
      = (entries.flatMap aloneEntries).foldl (applyAlone env) a.outcome := by
  rw [List.foldl_flatMap]
  induction entries generalizing a with
  | nil => rfl
  | cons e es ih => rw [List.foldl_cons, List.foldl_cons, ih, outcome_payloadEffect]

/-- A value of another wire type costs one error, and nothing is written. -/
theorem applyAlone_refused (env : Env F) (r : Provisioner R F × List FieldError) {k n m : Int}
    {v : Object} {d : NamespaceDecl R} {f : Field R} (hstate : idOfWire k = Key.state)
    (hd : r.1.find (idOfWire n) = some d) (hf : d.findField (idOfWire m) = some f)
    (h : wireMatches f.type v = false) :
    applyAlone env r (.int k, .map [(.int n, .map [(.int m, v)])])
      = (r.1, r.2 ++ [{ nsId := idOfWire n, fieldId := idOfWire m, code := .invalidValue }]) := by
  rw [applyAlone_field env r hstate, hd]
  simp [onOutcome, fieldEffect, hf, h, SetStateRun.error]

/-! ## Independence -/

/-- What it means that a payload is applied entry by entry, with `rest` behind it. -/
structure EntriesIndependent (env : Env F) (seq : UInt64) (p : Provisioner R F)
    (entries : List (Object × Object)) (rest : Cursor) : Prop where
  /-- every key is read from the place it was written to, so no key and no value is read from the
  bytes of another value -/
  keys : reads (setStateLog env) (setStateEntry env) entries.length
      (Object.entryTokens entries ++ rest) { p } = positionsOf entryPositions entries rest
  /-- the drafts, and everything else the request leaves behind -/
  state : (opSetState env seq (some ((Object.map entries).tokens ++ rest)) p).2
      = (applyEach env p entries).1
  errors : (setStateRun env p ((Object.map entries).tokens ++ rest)).errors
      = (applyEach env p entries).2
  /-- a value of another wire type costs its field one error -/
  refused : ∀ (r : Provisioner R F × List FieldError) (k n m : Int) (v : Object)
    (d : NamespaceDecl R) (f : Field R), idOfWire k = Key.state →
    r.1.find (idOfWire n) = some d → d.findField (idOfWire m) = some f →
    wireMatches f.type v = false →
    applyAlone env r (.int k, .map [(.int n, .map [(.int m, v)])])
      = (r.1, r.2 ++ [{ nsId := idOfWire n, fieldId := idOfWire m, code := .invalidValue }])

/-- Every value of the payload but the very last one is passed. -/
def ValuesPassed (ds : List (NamespaceDecl R)) (entries : List (Object × Object)) : Prop :=
  AllButLast (EntryPassed ds) (EntryRead ds) entries

/-- The entries of a payload are applied independently exactly if the reader is moved past every value
but the last: none of them has another wire type than its field, and none that is skipped contains an
extension value. -/
theorem entries_independent_iff (env : Env F) (seq : UInt64) (p : Provisioner R F)
    (entries : List (Object × Object)) (rest : Cursor) :
    EntriesIndependent env seq p entries rest ↔ ValuesPassed p.decls entries := by
  constructor
  · intro h
    by_contra hbad
    refine reads_entries_diverge (payloadLoop env p.decls) rfl hbad rest (a := { p }) rfl [] [] ?_
    exact congrArg (· ++ []) h.keys
  · intro h
    have hrun := (times_entries (payloadLoop env p.decls) rfl h rest (a := { p }) rfl).1
    have houtcome : (setStateRun env p ((Object.map entries).tokens ++ rest)).outcome
        = applyEach env p entries :=
      (congrArg SetStateRun.outcome hrun).trans (outcome_payload env entries { p })
    exact {
      keys := reads_entries (payloadLoop env p.decls) rfl h rest (a := { p }) rfl
      state := congrArg Prod.fst houtcome
      errors := congrArg Prod.snd houtcome
      refused := fun r _ _ _ _ _ _ hstate hd hf hv => applyAlone_refused env r hstate hd hf hv }

/-- Field 10 is a text and is given the number 11, field 12 is given 5. The number is read again as the
next field id: field 11 gets the draft 12, and field 12 gets none. -/
theorem refused_value_read_as_key :
    ¬ EntriesIndependent bareEnv 0 (radio {})
      [(.int 3, .map [(.int 1, .map [(.int 10, .int 11), (.int 12, .int 5)])])] [] := by
  intro h
  have hwritten : ((opSetState bareEnv 0 (some ((Object.map
      [(.int 3, .map [(.int 1, .map [(.int 10, .int 11), (.int 12, .int 5)])])]).tokens ++ []))
      (radio {})).2.stateOf 1).draft.lookup 11 = some (.int 12) := rfl
  rw [h.state] at hwritten
  cases hwritten

end MicroReticulum.Provisioning
