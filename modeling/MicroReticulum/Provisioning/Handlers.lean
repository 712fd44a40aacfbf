import MicroReticulum.Provisioning.Provisioner
import MicroReticulum.Library.Reader
import MicroReticulum.Utilities.Crc

/-!
# The message handlers

`handleMessage` is `Provisioner::handle_message`: the envelope, the dispatch on the operation, and one
handler for each operation. A handler parses its payload in one pass over the reader and packs a
response. Every loop of the source that runs over the announced number of entries is `times` of the
body that reads one entry.

A response is the list of the objects packed; the bytes are made of it at the very end. Packing a
payload first and appending it to the envelope, as the source does, gives the same list. A map starts
with a count that its builder makes on its own, before and apart from the entries it then packs.
-/

namespace MicroReticulum.Provisioning

open MicroReticulum Library

/-! ## Operations, errors and keys -/

namespace Op

def getSchema : UInt8 := 1
def getInfo : UInt8 := 2
def getCapabilities : UInt8 := 3
def getState : UInt8 := 4
def setState : UInt8 := 5
def commit : UInt8 := 6
def discard : UInt8 := 7
def factoryReset : UInt8 := 8
def reboot : UInt8 := 9
def error : UInt8 := 101

/-- The operations a request can ask for. -/
def requests : List UInt8 :=
  [getSchema, getInfo, getCapabilities, getState, setState, commit, discard, factoryReset, reboot]

end Op

/-- `ErrorCode` -/
inductive ErrorCode where
  | malformedRequest | unknownOp | unknownNamespace | unknownField | invalidValue
  | constraintViolation | readOnly | notInitialized
  deriving DecidableEq, Repr

namespace ErrorCode

def code : ErrorCode → UInt16
  | .malformedRequest => 1 | .unknownOp => 2 | .unknownNamespace => 3 | .unknownField => 4
  | .invalidValue => 5 | .constraintViolation => 6 | .readOnly => 7 | .notInitialized => 9

end ErrorCode

namespace Key

def errorCode : UInt16 := 1
def errorMessage : UInt16 := 2
def applied : UInt16 := 1
def needsReboot : UInt16 := 2
def draftHasReboot : UInt16 := 2
def fieldErrors : UInt16 := 3
def postOpValues : UInt16 := 4
def postOpDrafts : UInt16 := 5
def postOpHash : UInt16 := 6
def namespaceFilter : UInt16 := 1
def draft : UInt16 := 2
def state : UInt16 := 3
def priorHash : UInt16 := 4
def includeState : UInt16 := 5
def values : UInt16 := 1
def drafts : UInt16 := 2
def hash : UInt16 := 3
def unchanged : UInt16 := 4
def firmwareVersion : UInt16 := 1
def schemaVersion : UInt16 := 2
def needsRebootInfo : UInt16 := 3
def schemaHash : UInt16 := 4
def nsId : UInt16 := 1
def nsName : UInt16 := 2
def nsParent : UInt16 := 4
def nsFieldCount : UInt16 := 5
def nsSchemaHash : UInt16 := 6
def fieldId : UInt16 := 1
def fieldName : UInt16 := 2
def fieldType : UInt16 := 3
def fieldFlags : UInt16 := 4
def fieldMinI : UInt16 := 5
def fieldMaxI : UInt16 := 6
def fieldMinF : UInt16 := 7
def fieldMaxF : UInt16 := 8
def fieldMaxLen : UInt16 := 9
def fieldEnumValues : UInt16 := 10
def fieldEnumLabels : UInt16 := 11
def fieldDefault : UInt16 := 12
def fieldElementSize : UInt16 := 13
def fieldMaxCount : UInt16 := 14
def reqCompress : UInt16 := 100
def compressedPayload : UInt16 := 101

end Key

/-- An unsigned number, packed. -/
def num (n : Nat) : Token := .int n

/-- A text constant, packed. -/
def text (s : String) : Token := .str s.toUTF8.toList

variable {R F : Type}

/-! ## Responses -/

/-- `WRAPPER_OVERHEAD` -/
def wrapperOverhead : Nat := 8

/-- `pack_response`: compressed only where that saves bytes. -/
def packResponse (env : Env F) (op : UInt8) (seq : UInt64) (compress : Bool)
    (payload : List Token) : List Token :=
  let compressed := env.compress (env.encode payload)
  .arr 3 :: num op.toNat :: num seq.toNat ::
    if compress && !compressed.isEmpty
        && compressed.length + wrapperOverhead < (env.encode payload).length then
      [.map 1, num Key.compressedPayload.toNat, .bin compressed]
    else payload

/-- `Provisioner::encode_error`; its operation argument is not used. -/
def encodeError (env : Env F) (seq : UInt64) (code : ErrorCode) (msg : String) : List Token :=
  packResponse env Op.error seq false
    [.map 2, num Key.errorCode.toNat, num code.code.toNat, num Key.errorMessage.toNat, text msg]

/-- `Provisioner::encode_ack` -/
def encodeAck (env : Env F) (op : UInt8) (seq : UInt64) : List Token :=
  packResponse env op seq false [.nil]

/-! ## Reading requests -/

/-- `read_uint_key` -/
def readUintKey : Cursor → Option (UInt16 × Cursor)
  | .int v :: rest => some (idOfWire v, rest)
  | _ => none

/-- `skip_value` -/
def skipValue (c : Cursor) : Cursor := skip c 1

/-- A boolean option, which keeps its value when the wire type is another one. -/
def readFlag (flag : Bool) : Cursor → Bool × Cursor
  | .bool b :: rest => (b, rest)
  | c => (flag, skipValue c)

/-- One element of a namespace filter. -/
def filterEntry (c : Cursor) (filter : List NamespaceId) : List NamespaceId × Cursor :=
  match c with
  | .int v :: rest => (filter ++ [idOfWire v], rest)
  | c => (filter, skipValue c)

/-- The options of the requests that have a namespace filter. -/
structure Options where
  filter : List NamespaceId := []
  hasFilter : Bool := false
  draft : Bool := false
  /-- `has_prior_hash` and `prior_hash` -/
  priorHash : Option UInt32 := none
  includeState : Bool := false
  compress : Bool := false

/-- The value of a `NamespaceFilter` key. -/
def readFilter (o : Options) : Cursor → Options × Cursor
  | .arr m :: rest =>
    let (filter, c) := times filterEntry m rest o.filter
    ({ o with filter, hasFilter := true }, c)
  | c => (o, skipValue c)

/-- The value of a `PriorHash` key. -/
def readPriorHash (o : Options) : Cursor → Options × Cursor
  | .int v :: rest => ({ o with priorHash := some (wireInt v).toUInt64.toUInt32 }, rest)
  | c => (o, skipValue c)

/-- The options an operation knows. -/
structure KnownOptions where
  namespaceFilter : Bool := false
  draft : Bool := false
  priorHash : Bool := false
  includeState : Bool := false

/-- One entry of an options map. A key that is not an integer is skipped without its value. -/
def optionEntry (known : KnownOptions) (c : Cursor) (o : Options) : Options × Cursor :=
  match readUintKey c with
  | none => (o, skipValue c)
  | some (key, rest) =>
    if known.namespaceFilter && key = Key.namespaceFilter then readFilter o rest
    else if known.draft && key = Key.draft then
      let (draft, c) := readFlag o.draft rest
      ({ o with draft }, c)
    else if known.priorHash && key = Key.priorHash then readPriorHash o rest
    else if known.includeState && key = Key.includeState then
      let (includeState, c) := readFlag o.includeState rest
      ({ o with includeState }, c)
    else if key = Key.reqCompress then
      let (compress, c) := readFlag o.compress rest
      ({ o with compress }, c)
    else (o, skipValue rest)

/-- An options map; any other payload is skipped and leaves the defaults. -/
def readOptions (known : KnownOptions) : Option Cursor → Options
  | some (.map n :: rest) => (times (optionEntry known) n rest {}).1
  | _ => {}

/-- `parse_compress_only` -/
def parseCompressOnly (payload : Option Cursor) : Bool := (readOptions {} payload).compress

/-! ## Schema -/

/-- `pack_field_default` -/
def packFieldDefault (f : Field R) : List Token :=
  match f.type with
  | .none => [.nil]
  | .bool => [.bool f.defaultValue.asBool]
  | .int => [.int f.defaultValue.asInt.toInt]
  | .enum => [.int f.defaultValue.asInt.toInt]
  | .float => [.float f.defaultValue.asFloat]
  | .string => [.str (cString f.defaultValue.asString)]
  | .bytes => [.bin f.defaultValue.asBytes]
  | .bytesList => .arr f.defaultValue.asBytesList.length :: f.defaultValue.asBytesList.map .bin
  | .void => [.nil]

/-- Packed values under integer keys. -/
def packEntries (entries : List (UInt16 × List Token)) : List Token :=
  entries.flatMap fun e => num e.1.toNat :: e.2

/-- `schema_field_entries` -/
def schemaFieldEntries (f : Field R) : Nat :=
  5 + (if f.type = .int ∧ f.constraint.hasRange then 2 else 0)
    + (if f.type = .float ∧ f.constraint.hasRange then 2 else 0)
    + (if (f.type = .string ∨ f.type = .bytes) ∧ 0 < f.constraint.maxLen then 1 else 0)
    + (if f.type = .enum then
        (if f.constraint.enumValues ≠ [] then 1 else 0)
          + (if f.constraint.enumLabels ≠ [] then 1 else 0)
      else 0)
    + (if f.type = .bytesList then
        (if 0 < f.constraint.elementSize then 1 else 0)
          + (if 0 < f.constraint.maxCount then 1 else 0)
      else 0)

/-- The constraint entries of a field, key and value each. -/
def constraintEntries (f : Field R) : List (UInt16 × List Token) :=
  (if f.type = .int ∧ f.constraint.hasRange then
      [(Key.fieldMinI, [.int f.constraint.imin.toInt]),
        (Key.fieldMaxI, [.int f.constraint.imax.toInt])] else [])
    ++ (if f.type = .float ∧ f.constraint.hasRange then
      [(Key.fieldMinF, [.float f.constraint.fmin]),
        (Key.fieldMaxF, [.float f.constraint.fmax])] else [])
    ++ (if (f.type = .string ∨ f.type = .bytes) ∧ 0 < f.constraint.maxLen then
      [(Key.fieldMaxLen, [num f.constraint.maxLen])] else [])
    ++ (if f.type = .enum then
        (if f.constraint.enumValues ≠ [] then
          [(Key.fieldEnumValues, .arr f.constraint.enumValues.length ::
            f.constraint.enumValues.map fun v => .int v.toInt)] else [])
          ++ (if f.constraint.enumLabels ≠ [] then
            [(Key.fieldEnumLabels, .arr f.constraint.enumLabels.length ::
              f.constraint.enumLabels.map fun s => .str (cString s))] else [])
      else [])
    ++ (if f.type = .bytesList then
        (if 0 < f.constraint.elementSize then
          [(Key.fieldElementSize, [num f.constraint.elementSize])] else [])
          ++ (if 0 < f.constraint.maxCount then
            [(Key.fieldMaxCount, [num f.constraint.maxCount])] else [])
      else [])

/-- One field of a schema. -/
def packFieldSchema (f : Field R) : List Token :=
  .map (schemaFieldEntries f) :: packEntries
    ([(Key.fieldId, [num f.id.toNat]), (Key.fieldName, [.str (cString f.name)]),
      (Key.fieldType, [num f.type.code.toNat]), (Key.fieldFlags, [num f.flags.toNat]),
      (Key.fieldDefault, packFieldDefault f)] ++ constraintEntries f)

/-- `pack_namespace_schema` -/
def packNamespaceSchema (d : NamespaceDecl R) : List Token :=
  [.arr 4, num d.id.toNat, .str (cString d.name), num d.parentId.toNat, .arr d.fields.length]
    ++ d.fields.flatMap packFieldSchema

/-- An array of namespace schemas; `pack_schema_payload` for all of them. -/
def packSchemas (ds : List (NamespaceDecl R)) : List Token :=
  .arr ds.length :: ds.flatMap packNamespaceSchema

/-! ## State -/

/-- The value `pack_ns_values` reports of a field, empty for a field it passes over. -/
def reportedValue (p : Provisioner R F) (d : NamespaceDecl R) (f : Field R) : Value :=
  if f.hasFlag ffSecret then .none
  else if f.hasFlag ffWriteOnly then .none
  else d.baseStateValue (p.stateOf d.id) p.runtime f

/-- `fld_entries` -/
def fieldEntries (p : Provisioner R F) (d : NamespaceDecl R) : Nat :=
  d.fields.countP fun f => !(reportedValue p d f).isNone

/-- `pack_ns_values` -/
def packNsValues (p : Provisioner R F) (ds : List (NamespaceDecl R)) : List Token :=
  .map ds.length :: ds.flatMap fun d =>
    num d.id.toNat :: .map (fieldEntries p d) :: d.fields.flatMap fun f =>
      let v := reportedValue p d f
      if v.isNone then [] else num f.id.toNat :: packValue v

/-- `draft_entries` -/
def draftEntries (p : Provisioner R F) (d : NamespaceDecl R) : Nat :=
  d.fields.countP fun f => (p.stateOf d.id).hasDraft f.id

/-- `pack_ns_drafts` -/
def packNsDrafts (p : Provisioner R F) (ds : List (NamespaceDecl R)) : List Token :=
  .map ds.length :: ds.flatMap fun d =>
    num d.id.toNat :: .map (draftEntries p d) :: d.fields.flatMap fun f =>
      match (p.stateOf d.id).draft.lookup f.id with
      | none => []
      | some v => num f.id.toNat :: packValue v

/-- The namespaces in scope that have drafts. -/
def withDrafts (p : Provisioner R F) (ds : List (NamespaceDecl R)) : List (NamespaceDecl R) :=
  ds.filter fun d => (p.stateOf d.id).hasAnyDraft

/-! ## Handlers -/

/-- `op_get_info` -/
def opGetInfo (env : Env F) (seq : UInt64) (payload : Option Cursor) :
    Prog String (Provisioner R F) (List Token) := do
  let p ← Prog.get
  pure (packResponse env Op.getInfo seq (parseCompressOnly payload) (.map 4 :: packEntries
    [(Key.firmwareVersion, [text "microReticulum"]), (Key.schemaVersion, [num 2]),
      (Key.needsRebootInfo, [.bool p.needsReboot]), (Key.schemaHash, [num p.schemaHash.toNat])]))

/-- `op_get_capabilities` -/
def opGetCapabilities (env : Env F) (seq : UInt64) (payload : Option Cursor) :
    Prog String (Provisioner R F) (List Token) := do
  let p ← Prog.get
  pure (packResponse env Op.getCapabilities seq (parseCompressOnly payload)
    (.arr p.decls.length :: p.decls.flatMap fun d => .map 5 :: packEntries
      [(Key.nsId, [num d.id.toNat]), (Key.nsName, [.str (cString d.name)]),
        (Key.nsParent, [num d.parentId.toNat]), (Key.nsFieldCount, [num d.fields.length]),
        (Key.nsSchemaHash, [num d.schemaHash.toNat])]))

/-- The namespaces of a request, in the order of registration. -/
def inScope (p : Provisioner R F) (o : Options) : List (NamespaceDecl R) :=
  if o.hasFilter then p.decls.filter fun d => o.filter.contains d.id else p.decls

/-- `op_get_schema` -/
def opGetSchema (env : Env F) (seq : UInt64) (payload : Option Cursor) :
    Prog String (Provisioner R F) (List Token) := do
  let o := readOptions { namespaceFilter := true } payload
  let p ← Prog.get
  pure (packResponse env Op.getSchema seq o.compress (packSchemas (inScope p o)))

/-- `pack_content` of `op_get_state` -/
def packContent (p : Provisioner R F) (o : Options) (hash : Option UInt32) : List Token :=
  let drafts := if o.draft then withDrafts p (inScope p o) else []
  let emitDrafts := o.draft && !drafts.isEmpty
  .map (1 + (if emitDrafts then 1 else 0) + (if hash.isSome then 1 else 0)) :: packEntries
    ([(Key.values, packNsValues p (inScope p o))]
      ++ (if emitDrafts then [(Key.drafts, packNsDrafts p drafts)] else [])
      ++ (match hash with
        | none => []
        | some hash => [(Key.hash, [num hash.toNat])]))

/-- `body_hash` -/
def bodyHash (env : Env F) (p : Provisioner R F) (o : Options) : UInt32 :=
  Utilities.crc32 0 (env.encode (packContent p o none))

/-- The payload of the response to a GetState request. -/
def stateBody (env : Env F) (p : Provisioner R F) (o : Options) : List Token :=
  if o.priorHash = some (bodyHash env p o) then
    .map 1 :: packEntries [(Key.unchanged, [.bool true])]
  else packContent p o (some (bodyHash env p o))

/-- `op_get_state` -/
def opGetState (env : Env F) (seq : UInt64) (payload : Option Cursor) :
    Prog String (Provisioner R F) (List Token) := do
  let o := readOptions { namespaceFilter := true, draft := true, priorHash := true } payload
  let p ← Prog.get
  pure (packResponse env Op.getState seq o.compress (stateBody env p o))

/-! ### SetState -/

/-- An entry of `FieldErrors`. -/
structure FieldError where
  nsId : NamespaceId
  fieldId : FieldId
  code : ErrorCode
  deriving DecidableEq, Repr

/-- The local variables of `op_set_state`, with the provisioner it writes to. -/
structure SetStateRun (R F : Type) where
  p : Provisioner R F
  applied : Nat := 0
  errors : List FieldError := []
  includeState : Bool := false
  compress : Bool := false
  sawState : Bool := false
  touched : List (NamespaceDecl R) := []

namespace SetStateRun

/-- `errors.push_back` -/
def error (nsId : NamespaceId) (fieldId : FieldId) (code : ErrorCode) (a : SetStateRun R F) :
    SetStateRun R F :=
  { a with errors := a.errors ++ [{ nsId, fieldId, code }] }

/-- A namespace counts as touched when it is named for the first time. -/
def touch (d : Option (NamespaceDecl R)) (a : SetStateRun R F) : SetStateRun R F :=
  match d with
  | none => a
  | some d => if a.touched.any fun t => t.id = d.id then a else { a with touched := a.touched ++ [d] }

/-- A decoded value: refused for a read-only field or by the constraint, staged otherwise. -/
def stage (nsId : NamespaceId) (d : NamespaceDecl R) (f : Field R) (v : Value)
    (a : SetStateRun R F) : SetStateRun R F :=
  if f.hasFlag ffReadOnly then a.error nsId f.id .readOnly
  else
    let (ok, s) := d.setDraft a.p.runtime f.id v (a.p.stateOf d.id)
    if ok then { a with p := a.p.setState d.id s, applied := a.applied + 1 }
    else a.error nsId f.id .constraintViolation

end SetStateRun

/-- The value of one field of a `State` map. A value that is not decoded is not skipped. -/
def fieldValue (env : Env F) (nsId : NamespaceId) (d : Option (NamespaceDecl R)) (fieldId : FieldId)
    (c : Cursor) (a : SetStateRun R F) : SetStateRun R F × Cursor :=
  match d with
  | none => (a.error nsId fieldId .unknownNamespace, skipValue c)
  | some d =>
    match d.findField fieldId with
    | none => (a.error nsId fieldId .unknownField, skipValue c)
    | some f =>
      match unpackValue env.floatOfInt f.type c with
      | (none, c') => (a.error nsId fieldId .invalidValue, c')
      | (some v, c') => (a.stage nsId d f v, c')

/-- One field of a namespace in a `State` map. -/
def fieldEntry (env : Env F) (nsId : NamespaceId) (d : Option (NamespaceDecl R)) (c : Cursor)
    (a : SetStateRun R F) : SetStateRun R F × Cursor :=
  match c with
  | .int v :: rest => fieldValue env nsId d (idOfWire v) rest a
  | c => (a, skip c 2)

/-- The value of one namespace of a `State` map. -/
def namespaceValue (env : Env F) (nsId : NamespaceId) (c : Cursor) (a : SetStateRun R F) :
    SetStateRun R F × Cursor :=
  let d := a.p.find nsId
  match c with
  | .map n :: rest => times (fieldEntry env nsId d) n rest (a.touch d)
  | c =>
    ((a.touch d).error nsId 0 (if d.isNone then .unknownNamespace else .malformedRequest),
      skipValue c)

/-- One namespace of a `State` map. -/
def namespaceEntry (env : Env F) (c : Cursor) (a : SetStateRun R F) : SetStateRun R F × Cursor :=
  match c with
  | .int v :: rest => namespaceValue env (idOfWire v) rest a
  | c => (a, skip c 2)

/-- The `State` map. -/
def stateValue (env : Env F) (c : Cursor) (a : SetStateRun R F) : SetStateRun R F × Cursor :=
  match c with
  | .map n :: rest => times (namespaceEntry env) n rest { a with sawState := true }
  | c => ({ a with sawState := true }, skipValue c)

/-- One entry of a SetState payload. -/
def setStateEntry (env : Env F) (c : Cursor) (a : SetStateRun R F) : SetStateRun R F × Cursor :=
  match readUintKey c with
  | none => (a, skipValue c)
  | some (key, rest) =>
    if key = Key.includeState then
      let (includeState, c) := readFlag a.includeState rest
      ({ a with includeState }, c)
    else if key = Key.reqCompress then
      let (compress, c) := readFlag a.compress rest
      ({ a with compress }, c)
    else if key = Key.state then stateValue env rest a
    else (a, skipValue rest)

/-- `touched_with_drafts` -/
def touchedWithDrafts (a : SetStateRun R F) : List (NamespaceDecl R) :=
  if a.includeState then withDrafts a.p a.touched else []

/-- The `PostOpHash` of `op_set_state` -/
def setStateHash (env : Env F) (a : SetStateRun R F) : UInt32 :=
  Utilities.crc32 0 (env.encode (packNsValues a.p a.touched
    ++ if (touchedWithDrafts a).isEmpty then [] else packNsDrafts a.p (touchedWithDrafts a)))

/-- An entry of `FieldErrors`, packed. -/
def packError (e : FieldError) : List Token :=
  [.arr 3, num e.nsId.toNat, num e.fieldId.toNat, num e.code.code.toNat]

/-- The payload of the response to a SetState request that has a `State` key. -/
def setStateBody (env : Env F) (a : SetStateRun R F) : List Token :=
  let drafts := touchedWithDrafts a
  .map (2 + (if a.errors.isEmpty then 0 else 1)
    + (if a.includeState then 2 + (if drafts.isEmpty then 0 else 1) else 0)) :: packEntries
    ([(Key.applied, [num a.applied]), (Key.draftHasReboot, [.bool a.p.draftHasReboot])]
      ++ (if a.errors.isEmpty then []
        else [(Key.fieldErrors, .arr a.errors.length :: a.errors.flatMap packError)])
      ++ (if a.includeState then
          [(Key.postOpValues, packNsValues a.p a.touched)]
            ++ (if drafts.isEmpty then [] else [(Key.postOpDrafts, packNsDrafts a.p drafts)])
            ++ [(Key.postOpHash, [num (setStateHash env a).toNat])]
        else []))

/-- The response to a SetState request that has a `State` key. -/
def setStateResponse (env : Env F) (seq : UInt64) (a : SetStateRun R F) : List Token :=
  packResponse env Op.setState seq a.compress (setStateBody env a)

/-- `op_set_state` -/
def opSetState (env : Env F) (seq : UInt64) (payload : Option Cursor) :
    Prog String (Provisioner R F) (List Token) := do
  match payload with
  | some (.map n :: rest) => do
    let p ← Prog.get
    let a := (times (setStateEntry env) n rest { p }).1
    Prog.modify fun _ => a.p
    pure (if a.sawState then setStateResponse env seq a
      else encodeError env seq .malformedRequest "missing State key")
  | _ => pure (encodeError env seq .malformedRequest "expected map payload")

/-! ### The other writing operations -/

/-- The namespaces a filter names, once for each time it does; without a filter all of them. -/
def named (p : Provisioner R F) (hasFilter : Bool) (filter : List NamespaceId) :
    List (NamespaceDecl R) :=
  if hasFilter then filter.filterMap p.find else p.decls

/-- The `PostOpHash` of `op_commit` -/
def commitHash (env : Env F) (p : Provisioner R F) (touched : List (NamespaceDecl R)) : UInt32 :=
  Utilities.crc32 0 (env.encode (packNsValues p touched))

/-- The payload of the response to a Commit request. -/
def commitBody (env : Env F) (p : Provisioner R F) (includeState : Bool) (applied : Nat)
    (touched : List (NamespaceDecl R)) : List Token :=
  .map (if includeState then 4 else 2) :: packEntries
    ([(Key.applied, [num applied]), (Key.needsReboot, [.bool p.needsReboot])]
      ++ if includeState then
          [(Key.postOpValues, packNsValues p touched),
            (Key.postOpHash, [num (commitHash env p touched).toNat])]
        else [])

/-- `op_commit` -/
def opCommit (env : Env F) (seq : UInt64) (payload : Option Cursor) :
    Prog String (Provisioner R F) (List Token) := do
  let o := readOptions { namespaceFilter := true, includeState := true } payload
  let p ← Prog.get
  let progress ← Prog.fold (named p o.hasFilter o.filter) {} fun progress d =>
    Provisioner.commitNamespace env (fun hadDraft => o.includeState && (o.hasFilter || hadDraft))
      d progress
  Provisioner.setRebootFlag progress.anyReboot
  let p ← Prog.get
  pure (packResponse env Op.commit seq o.compress
    (commitBody env p o.includeState progress.applied progress.touched))

/-- The payload of a discard: a list of namespaces, or anything else for all of them. -/
def readDiscard : Option Cursor → Bool × List NamespaceId
  | some (.arr n :: rest) => (true, (times filterEntry n rest []).1)
  | _ => (false, [])

/-- `count_and_clear` -/
def discardNamespace (d : NamespaceDecl R) (cleared : Nat) :
    Prog String (Provisioner R F) Nat := do
  let p ← Prog.get
  let drafts := d.fields.filter fun f => (p.stateOf d.id).hasDraft f.id
  Provisioner.onNamespace d (NamespaceDecl.modifyState .clearDraft)
  pure (cleared + drafts.length)

/-- `op_discard` -/
def opDiscard (env : Env F) (seq : UInt64) (payload : Option Cursor) :
    Prog String (Provisioner R F) (List Token) := do
  let (hasFilter, filter) := readDiscard payload
  let p ← Prog.get
  let cleared ← Prog.fold (named p hasFilter filter) 0 fun cleared d => discardNamespace d cleared
  pure (packResponse env Op.discard seq false
    (.map 1 :: packEntries [(Key.applied, [num cleared])]))

/-- `op_factory_reset` -/
def opFactoryReset (env : Env F) (seq : UInt64) (payload : Option Cursor) :
    Prog String (Provisioner R F) (List Token) := do
  Provisioner.factoryReset env
  let p ← Prog.get
  pure (packResponse env Op.factoryReset seq (parseCompressOnly payload)
    (.map 1 :: packEntries [(Key.needsReboot, [.bool p.needsReboot])]))

/-- `op_reboot` -/
def opReboot (env : Env F) (seq : UInt64) : Prog String (Provisioner R F) (List Token) := do
  let p ← Prog.get
  Provisioner.callback p.onReboot
  pure (encodeAck env Op.reboot seq)

/-! ## Dispatch -/

/-- The `switch` of `handle_message`. -/
def dispatch (env : Env F) (op : UInt8) (seq : UInt64) (payload : Option Cursor) :
    Prog String (Provisioner R F) (List Token) :=
  if op = Op.getSchema then opGetSchema env seq payload
  else if op = Op.getInfo then opGetInfo env seq payload
  else if op = Op.getCapabilities then opGetCapabilities env seq payload
  else if op = Op.getState then opGetState env seq payload
  else if op = Op.setState then opSetState env seq payload
  else if op = Op.commit then opCommit env seq payload
  else if op = Op.discard then opDiscard env seq payload
  else if op = Op.factoryReset then opFactoryReset env seq payload
  else if op = Op.reboot then opReboot env seq
  else pure (encodeError env seq .unknownOp "unrecognised op id")

/-- What relates every handler on two platforms, and the answers to an operation that is not known, relates the
`switch` on both. -/
theorem dispatch_both (holds : Prog String (Provisioner R F) (List Token) → Prog String (Provisioner R F) (List Token) →
      Prop) (env env' : Env F) {op : UInt8} {seq : UInt64} {payload : Option Cursor}
    (hschema : op = Op.getSchema → holds (opGetSchema env seq payload) (opGetSchema env' seq payload))
    (hinfo : op = Op.getInfo → holds (opGetInfo env seq payload) (opGetInfo env' seq payload))
    (hcapabilities : op = Op.getCapabilities →
      holds (opGetCapabilities env seq payload) (opGetCapabilities env' seq payload))
    (hgetState : op = Op.getState → holds (opGetState env seq payload) (opGetState env' seq payload))
    (hsetState : op = Op.setState → holds (opSetState env seq payload) (opSetState env' seq payload))
    (hcommit : op = Op.commit → holds (opCommit env seq payload) (opCommit env' seq payload))
    (hdiscard : op = Op.discard → holds (opDiscard env seq payload) (opDiscard env' seq payload))
    (hreset : op = Op.factoryReset → holds (opFactoryReset env seq payload) (opFactoryReset env' seq payload))
    (hreboot : op = Op.reboot → holds (opReboot env seq) (opReboot env' seq))
    (hunknown : op ∉ Op.requests → holds (pure (encodeError env seq .unknownOp "unrecognised op id"))
      (pure (encodeError env' seq .unknownOp "unrecognised op id"))) :
    holds (dispatch env op seq payload) (dispatch env' op seq payload) := by
  have hbranch : ∀ {c : Prop} [Decidable c] {m m' n n' : Prog String (Provisioner R F) (List Token)},
      (c → holds m m') → (¬ c → holds n n') → holds (if c then m else n) (if c then m' else n') := by
    intro c _ m m' n n' hc hn
    split
    · next h => exact hc h
    · next h => exact hn h
  refine hbranch hschema fun h₁ => hbranch hinfo fun h₂ => hbranch hcapabilities fun h₃ => ?_
  refine hbranch hgetState fun h₄ => hbranch hsetState fun h₅ => hbranch hcommit fun h₆ => ?_
  refine hbranch hdiscard fun h₇ => hbranch hreset fun h₈ => hbranch hreboot fun h₉ => hunknown ?_
  simp only [Op.requests, List.mem_cons, List.not_mem_nil, or_false, not_or]
  exact ⟨h₁, h₂, h₃, h₄, h₅, h₆, h₇, h₈, h₉⟩

/-- What holds of every handler, and of the answer to an operation that is not known, holds of the `switch`. -/
theorem dispatch_of (holds : Prog String (Provisioner R F) (List Token) → Prop) {env : Env F} {op : UInt8}
    {seq : UInt64} {payload : Option Cursor} (hschema : holds (opGetSchema env seq payload))
    (hinfo : holds (opGetInfo env seq payload)) (hcapabilities : holds (opGetCapabilities env seq payload))
    (hgetState : op = Op.getState → holds (opGetState env seq payload))
    (hsetState : op = Op.setState → holds (opSetState env seq payload))
    (hcommit : holds (opCommit env seq payload)) (hdiscard : holds (opDiscard env seq payload))
    (hreset : holds (opFactoryReset env seq payload)) (hreboot : holds (opReboot env seq))
    (hunknown : holds (pure (encodeError env seq .unknownOp "unrecognised op id"))) :
    holds (dispatch env op seq payload) :=
  dispatch_both (fun m _ => holds m) env env (fun _ => hschema) (fun _ => hinfo) (fun _ => hcapabilities) hgetState
    hsetState (fun _ => hcommit) (fun _ => hdiscard) (fun _ => hreset) (fun _ => hreboot) fun _ => hunknown

/-- The sequence number, which is zero when it is absent or not an integer. -/
def readSeq (size : Nat) (c : Cursor) : UInt64 × Cursor :=
  if size < 2 then (0, c)
  else match c with
    | .int v :: rest => ((wireInt v).toUInt64, rest)
    | c => (0, skipValue c)

/-- A request behind the header of its envelope. -/
def handleEnvelope (env : Env F) (size : Nat) (c : Cursor) :
    Prog String (Provisioner R F) (List Token) :=
  if size < 1 then pure (encodeError env 0 .malformedRequest "envelope empty")
  else match c with
    | .int op :: rest =>
      let (seq, c) := readSeq size rest
      dispatch env (narrowOp (wireInt op)) seq (if 3 ≤ size then some c else none)
    | _ => pure (encodeError env 0 .malformedRequest "op id must be uint")

/-- A request to a device that has been started. -/
def handleStarted (env : Env F) (c : Cursor) : Prog String (Provisioner R F) (List Token) :=
  match c with
  | .arr size :: rest => handleEnvelope env size rest
  | _ => pure (encodeError env 0 .malformedRequest "envelope must be array")

/-- `Provisioner::handle_message`, as the objects of the response. -/
def handleObjects (env : Env F) (c : Cursor) : Prog String (Provisioner R F) (List Token) := do
  let p ← Prog.get
  if p.started = false then
    pure (encodeError env 0 .notInitialized "Provisioning::begin not called")
  else handleStarted env c

/-- `Provisioner::handle_message` -/
def handleMessage (env : Env F) (request : Bytes) : Prog String (Provisioner R F) Bytes := do
  let response ← handleObjects env (env.decode request)
  pure (env.encode response)

/-! ## A small device -/

/-- A platform without files and compression. -/
def bareEnv : Env Unit where
  decode _ := []
  encode _ := []
  floatOfInt v := .fin v
  compress _ := []
  fs :=
    { directoryExists := fun _ => pure false
      createDirectory := fun _ => pure false
      fileExists := fun _ => pure false
      readFile := fun _ => pure []
      removeFile := fun _ => pure false
      writeFile := fun _ _ => pure 0
      renameFile := fun _ _ => pure false }
  root := []

/-- A namespace with a text, two numbers and a key. -/
def radioDecl : NamespaceDecl Unit where
  id := 1
  name := "radio".toUTF8.toList
  fields :=
    [{ id := 10, name := "name".toUTF8.toList, type := .string, flags := ffLiveApply,
       defaultValue := .string [] },
     { id := 11, name := "power".toUTF8.toList, type := .int, flags := ffLiveApply,
       defaultValue := .int 0 },
     { id := 12, name := "channel".toUTF8.toList, type := .int, flags := ffLiveApply,
       defaultValue := .int 0 },
     { id := 13, name := "key".toUTF8.toList, type := .bytes, flags := ffLiveApply ||| ffSecret,
       defaultValue := .bytes [] }]
  distinct := by decide

/-- The device with the given state of its only namespace. -/
def radio (s : NamespaceState) : Provisioner Unit Unit where
  namespaces := [{ decl := radioDecl, state := s }]
  storage := none
  started := true
  needsReboot := false
  schemaHash := 0
  runtime := ()
  distinct := List.nodup_singleton _

end MicroReticulum.Provisioning
