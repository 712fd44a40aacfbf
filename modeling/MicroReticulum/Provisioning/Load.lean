import MicroReticulum.Provisioning.Handlers

/-!
# Registration and loading

`begin` mounts the storage below a registry that is complete: every namespace's file is read into its
working values, and what was read is pushed into the runtime. The end of the previous life of the device
leaves nothing but the files and the runtime.

An entry of a file is taken over when it is read with the type of a registered field and the field
validates it. Nothing else in a file has an effect, except on where the reader stands.

Nothing is said of a boot that loses power while it reads.
-/

namespace MicroReticulum.Provisioning

open MicroReticulum Library

variable {R F : Type}

/-! ## Registration -/

/-- The working value `add_field` seeds: what the runtime has, or the default. -/
def Field.seed (f : Field R) (r : R) : Value :=
  match f.getter with
  | some getter => getter r
  | none => f.defaultValue

/-- The state of a namespace whose fields have just been registered. -/
def NamespaceDecl.registered (d : NamespaceDecl R) (r : R) : NamespaceState where
  working := d.fields.foldl (fun working f => working.insert f.id (f.seed r)) ∅

/-! ## Reading a file -/

/-- A temporary file that an interrupted save left behind is removed, as far as that works. -/
def discardStale (env : Env F) (id : NamespaceId) : Prog String F Unit :=
  Prog.catching
    (do
      let stale ← env.fs.fileExists (tmpPath env.root id)
      Prog.when (stale = true) do
        let _ ← env.fs.removeFile (tmpPath env.root id)
        pure ())
    fun _ => pure ()

/-- The contents of the file in place; an empty file is as good as none. -/
def readFinal (env : Env F) (id : NamespaceId) : Prog String F (Option Bytes) :=
  Prog.catching
    (do
      let found ← env.fs.fileExists (filePath env.root id)
      if found then do
        let raw ← env.fs.readFile (filePath env.root id)
        pure (if raw = [] then none else some raw)
      else pure none)
    fun _ => pure none

/-- `load_namespace` up to the contents of the file. -/
def readNamespaceFile (env : Env F) (id : NamespaceId) : Prog String F (Option Bytes) := do
  discardStale env id
  readFinal env id

/-- One entry of a file. A value of another type is left where it is, an invalid one is passed. -/
def workingEntry (env : Env F) (d : NamespaceDecl R) (c : Cursor) (s : NamespaceState) :
    NamespaceState × Cursor :=
  match c with
  | .int v :: rest =>
    match d.findField (idOfWire v) with
    | none => (s, skipValue rest)
    | some f =>
      match unpackValue env.floatOfInt f.type rest with
      | (none, c) => (s, c)
      | (some value, c) => (if f.validate value then s.putWorking f.id value else s, c)
  | c => (s, skip c 2)

/-- `Codec::unpack_namespace_working` -/
def unpackNamespaceWorking (env : Env F) (d : NamespaceDecl R) (c : Cursor) (s : NamespaceState) :
    Bool × NamespaceState :=
  match c with
  | .map n :: rest => (true, (times (workingEntry env d) n rest s).1)
  | _ => (false, s)

namespace Provisioner

/-- `load_namespace` -/
def loadNamespace (env : Env F) (d : NamespaceDecl R) : Prog String (Provisioner R F) Bool := do
  let raw ← onStorage none (readNamespaceFile env d.id)
  match raw with
  | none => pure false
  | some raw => do
    let p ← Prog.get
    let result := unpackNamespaceWorking env d (env.decode raw) (p.stateOf d.id)
    Prog.modify (setState d.id (if result.1 then result.2.markClean else result.2))
    pure result.1

/-- `load_all`: how many files were loaded. -/
def loadAll (env : Env F) : Prog String (Provisioner R F) Nat := do
  let p ← Prog.get
  let there ← onStorage true (ensureDirectory env)
  if there then
    Prog.fold p.decls 0 fun loaded d => do
      let ok ← loadNamespace env d
      pure (if ok then loaded + 1 else loaded)
  else pure 0

/-! ## Pushing loaded values into the runtime -/

/-- One field of `apply_loaded_to_runtime`. A value the runtime has already is not set again. -/
def applyLoadedField (d : NamespaceDecl R) (f : Field R) : Prog String (Provisioner R F) Unit := do
  let p ← Prog.get
  let v := (p.stateOf d.id).workingValue f.id
  match f.setter with
  | none => pure ()
  | some setter =>
    Prog.when (!f.hasFlag ffReadOnly && !f.hasFlag ffWriteOnly && !v.isNone
        && !v.eq (f.seed p.runtime))
      (onNamespace d (Prog.catching
        (do let _ ← NamespaceDecl.callSetter setter v; pure ()) fun _ => pure ()))

/-- `apply_loaded_to_runtime` -/
def applyLoadedToRuntime : Prog String (Provisioner R F) Unit := do
  let p ← Prog.get
  Prog.forEach p.decls fun d => Prog.forEach d.fields (applyLoadedField d)

/-- The CRC-32 of the packed schema, computed when the registration is complete. -/
def packedSchemaHash (env : Env F) (ds : List (NamespaceDecl R)) : UInt32 :=
  Utilities.crc32 0 (env.encode (packSchemas ds))

/-- `begin` of a complete registry: load, apply, and answer requests from now on. -/
def start (env : Env F) : Prog String (Provisioner R F) Unit := do
  let p ← Prog.get
  Prog.when (p.started = false) do
    let _ ← loadAll env
    applyLoadedToRuntime
    Prog.modify fun p =>
      { p with needsReboot := false, schemaHash := packedSchemaHash env p.decls, started := true }

end Provisioner

end MicroReticulum.Provisioning
