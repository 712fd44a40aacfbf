import MicroReticulum.Provisioning.Namespace
import MicroReticulum.Provisioning.Codec

/-!
# The provisioner: state, storage, commit and reset

`Provisioner` is the registry of namespaces with the flags and callbacks of the source's singleton,
after registration. The runtime state `R` is the application's, the file system `F` the platform's;
both are reached only through the operations given here.

Saving follows the source's temporary-file protocol, over file operations that may fail or throw.
-/

namespace MicroReticulum.Provisioning

open MicroReticulum Library

/-- The file operations of `Utilities::OS`. -/
structure FileSystem (F : Type) where
  directoryExists : Bytes → Prog String F Bool
  createDirectory : Bytes → Prog String F Bool
  fileExists : Bytes → Prog String F Bool
  /-- the contents, as far as they could be read -/
  readFile : Bytes → Prog String F Bytes
  removeFile : Bytes → Prog String F Bool
  /-- how many bytes were written -/
  writeFile : Bytes → Bytes → Prog String F Nat
  renameFile : Bytes → Bytes → Prog String F Bool

/-- What the provisioner calls outside itself: the `MsgPack` reader and packer, the compressor and the
file system. -/
structure Env (F : Type) where
  /-- the objects of a message -/
  decode : Bytes → Cursor
  encode : List Token → Bytes
  floatOfInt : FloatOfInt
  compress : Bytes → Bytes
  fs : FileSystem F
  /-- `_root` of the storage -/
  root : Bytes

/-- `Provisioner` -/
structure Provisioner (R F : Type) where
  namespaces : List (Namespace R)
  /-- the file system, when there is a `_storage` -/
  storage : Option F
  started : Bool
  needsReboot : Bool
  schemaHash : UInt32
  runtime : R
  onRebootRequired : Option (Prog String R Unit) := none
  onReboot : Option (Prog String R Unit) := none
  onFactoryReset : Option (Prog String R Unit) := none
  /-- `add_namespace` refuses an id that is taken -/
  distinct : (namespaces.map fun n => n.decl.id).Nodup

variable {R F : Type}

namespace Provisioner

/-- The declarations, in the order of registration. -/
def decls (p : Provisioner R F) : List (NamespaceDecl R) := p.namespaces.map Namespace.decl

/-- `Registry::find(id)` -/
def find (p : Provisioner R F) (id : NamespaceId) : Option (NamespaceDecl R) :=
  p.decls.find? fun d => d.id = id

/-- The state of a namespace; empty for an id that is not registered. -/
def stateOf (p : Provisioner R F) (id : NamespaceId) : NamespaceState :=
  ((p.namespaces.find? fun n => n.decl.id = id).map Namespace.state).getD {}

/-- Put another state into a namespace. -/
def putState (id : NamespaceId) (s : NamespaceState) (n : Namespace R) : Namespace R :=
  if n.decl.id = id then { n with state := s } else n

@[simp] theorem putState_decl (id : NamespaceId) (s : NamespaceState) (n : Namespace R) :
    (putState id s n).decl = n.decl := by
  unfold putState
  split <;> rfl

/-- The provisioner with another state of one namespace. -/
def setState (id : NamespaceId) (s : NamespaceState) (p : Provisioner R F) : Provisioner R F :=
  { p with
    namespaces := p.namespaces.map (putState id s)
    distinct := by
      rw [List.map_map]
      simpa [Function.comp_def] using p.distinct }

/-- Run a program on the state of a namespace and the runtime. -/
def onNamespace {α : Type} (d : NamespaceDecl R) (m : Prog String (NamespaceState × R) α) :
    Prog String (Provisioner R F) α :=
  Prog.zoom (fun p => (p.stateOf d.id, p.runtime))
    (fun x p => { p.setState d.id x.1 with runtime := x.2 }) m

/-- Run a callback on the runtime; what it throws is logged. -/
def callback (m : Option (Prog String R Unit)) : Prog String (Provisioner R F) Unit :=
  match m with
  | none => pure ()
  | some m => Prog.zoom runtime (fun r p => { p with runtime := r })
      (Prog.catching m fun _ => pure ())

/-- `draft_has_reboot` -/
def draftHasReboot (p : Provisioner R F) : Bool :=
  p.namespaces.any fun n => n.decl.draftHasReboot n.state

/-- `set_reboot_flag` -/
def setRebootFlag (anyRebootApplied : Bool) : Prog String (Provisioner R F) Unit := do
  let p ← Prog.get
  Prog.when (anyRebootApplied = true) do
    Prog.modify fun p => { p with needsReboot := true }
    Prog.when (p.needsReboot = false) (callback p.onRebootRequired)

/-! ### Another state of one namespace -/

@[simp] theorem setState_decls (id : NamespaceId) (s : NamespaceState)
    (p : Provisioner R F) : (p.setState id s).decls = p.decls := by
  unfold setState decls
  rw [List.map_map]
  exact List.map_congr_left fun n _ => putState_decl id s n

theorem stateOf_of_mem {p : Provisioner R F} {n : Namespace R} (h : n ∈ p.namespaces) :
    p.stateOf n.decl.id = n.state := by
  have hfind : p.namespaces.find? (fun m => m.decl.id = n.decl.id) = some n :=
    NamespaceDecl.find_of_nodup p.distinct h
  unfold stateOf
  rw [hfind]
  rfl

theorem draftHasReboot_eq (p : Provisioner R F) :
    p.draftHasReboot = p.decls.any fun d => d.draftHasReboot (p.stateOf d.id) := by
  unfold draftHasReboot decls
  rw [List.any_map, Bool.eq_iff_iff, List.any_eq_true, List.any_eq_true]
  exact exists_congr fun n => and_congr_right fun hn => by
    rw [Function.comp_apply, stateOf_of_mem hn]

/-- Another state of one namespace, seen from all of them. -/
theorem stateOf_setState {p : Provisioner R F} {d : NamespaceDecl R} (hd : d ∈ p.decls)
    (id : NamespaceId) (s : NamespaceState) :
    (p.setState id s).stateOf d.id = if d.id = id then s else p.stateOf d.id := by
  obtain ⟨n, hn, rfl⟩ := List.mem_map.mp hd
  have hmem : putState id s n ∈ (p.setState id s).namespaces := List.mem_map_of_mem hn
  have hstate := stateOf_of_mem hmem
  rw [putState_decl] at hstate
  rw [hstate, stateOf_of_mem hn]
  unfold putState
  split <;> rfl

end Provisioner

/-! ## Storage -/

/-- The decimal digits of a number, as characters. -/
def decimal (n : Nat) : Bytes := (Nat.toDigits 10 n).map fun ch => UInt8.ofNat ch.toNat

/-- `file_path`: `/ns<id>.msgpack` below the root. -/
def filePath (root : Bytes) (id : NamespaceId) : Bytes :=
  root ++ "/ns".toUTF8.toList ++ decimal id.toNat ++ ".msgpack".toUTF8.toList

/-- `tmp_path` -/
def tmpPath (root : Bytes) (id : NamespaceId) : Bytes := filePath root id ++ ".tmp".toUTF8.toList

/-- `ensure_directory` -/
def ensureDirectory (env : Env F) : Prog String F Bool :=
  Prog.catching
    (do
      let found ← env.fs.directoryExists env.root
      if found then pure true else env.fs.createDirectory env.root)
    fun _ => pure false

/-- The fields `pack_namespace_working` writes. -/
def persisted (d : NamespaceDecl R) (s : NamespaceState) (r : R) : List (Field R) :=
  d.fields.filter fun f =>
    !(f.hasFlag ffReadOnly || f.hasFlag ffWriteOnly) && !(d.persistValue s r f).isNone

/-- `Codec::pack_namespace_working` -/
def packNamespaceWorking (d : NamespaceDecl R) (s : NamespaceState) (r : R) : List Token :=
  .map (persisted d s r).length :: (persisted d s r).flatMap fun f =>
    .int f.id.toNat :: packValue (d.persistValue s r f)

/-- The write, rename and clean-up steps of `save_namespace_force`. -/
def writeNamespace (env : Env F) (id : NamespaceId) (encoded : Bytes) : Prog String F Bool := do
  let tmp := tmpPath env.root id
  let final := filePath env.root id
  let wrote ← env.fs.writeFile tmp encoded
  if wrote ≠ encoded.length then do
    let _ ← env.fs.removeFile tmp
    pure false
  else do
    let renamed ← env.fs.renameFile tmp final
    if renamed then pure true
    else do
      Prog.catching (do let _ ← env.fs.removeFile final; pure ()) fun _ => pure ()
      let renamedAgain ← env.fs.renameFile tmp final
      if renamedAgain then pure true
      else do
        let _ ← env.fs.removeFile tmp
        pure false

/-- `save_namespace_force` up to the flag of the namespace. -/
def saveNamespaceForce (env : Env F) (d : NamespaceDecl R) (s : NamespaceState) (r : R) :
    Prog String F Bool := do
  let there ← ensureDirectory env
  if there then
    Prog.catching (writeNamespace env d.id (env.encode (packNamespaceWorking d s r)))
      fun _ => pure false
  else pure false

/-- Remove a file that exists; the flag tells whether everything so far worked. -/
def removeIfExists (env : Env F) (path : Bytes) (ok : Bool) : Prog String F Bool := do
  let found ← env.fs.fileExists path
  if found then do
    let removed ← env.fs.removeFile path
    pure (removed && ok)
  else pure ok

/-- `remove_namespace` -/
def removeNamespace (env : Env F) (id : NamespaceId) : Prog String F Bool :=
  Prog.catching
    (do
      let ok ← removeIfExists env (tmpPath env.root id) true
      removeIfExists env (filePath env.root id) ok)
    fun _ => pure false

namespace Provisioner

/-- Run a program on the file system, if there is one. -/
def onStorage {α : Type} (default : α) (m : Prog String F α) : Prog String (Provisioner R F) α :=
  fun p =>
    match p.storage with
    | none => (.value default, p)
    | some fs => ((m fs).1, { p with storage := some (m fs).2 })

/-- `save_namespace`, which is only called when there is a storage: a namespace that is not dirty is
not written. -/
def saveNamespace (env : Env F) (d : NamespaceDecl R) : Prog String (Provisioner R F) Bool := do
  let p ← Prog.get
  let s := p.stateOf d.id
  if p.storage.isNone || !s.dirtyForPersist then pure true
  else do
    let saved ← onStorage true (saveNamespaceForce env d s p.runtime)
    Prog.when (saved = true) (Prog.modify (setState d.id s.markClean))
    pure saved

/-- `Storage::factory_reset`, over every namespace -/
def resetStorage (env : Env F) : Prog String (Provisioner R F) Bool := do
  let p ← Prog.get
  Prog.fold p.decls true fun ok d => do
    let removed ← onStorage true (removeNamespace env d.id)
    pure (removed && ok)

/-! ## Commit, discard and factory reset -/

/-- What a commit has done so far. -/
structure CommitProgress (R : Type) where
  applied : Nat := 0
  anyReboot : Bool := false
  /-- the namespaces a response has to report -/
  touched : List (NamespaceDecl R) := []

/-- One field of a commit. -/
def countOutcome (progress : CommitProgress R) : CommitOutcome → CommitProgress R
  | .appliedLive => { progress with applied := progress.applied + 1 }
  | .appliedReboot => { progress with applied := progress.applied + 1, anyReboot := true }
  | _ => progress

/-- The commit hook, in its own exception handler. -/
def runHook (d : NamespaceDecl R) : Prog String (Provisioner R F) Unit := do
  let p ← Prog.get
  match d.onCommit with
  | none => pure ()
  | some hook =>
    Prog.when ((p.stateOf d.id).hasAnyDraft = true)
      (onNamespace d (Prog.catching (hook d.fields) fun _ => pure ()))

/-- `do_one` of `op_commit`: hook, drafts, file. Every draft counts that is there after the hook. -/
def commitNamespace (env : Env F) (report : Bool → Bool) (d : NamespaceDecl R)
    (progress : CommitProgress R) : Prog String (Provisioner R F) (CommitProgress R) := do
  let before ← Prog.get
  runHook d
  let p ← Prog.get
  let ids := (d.fields.filter fun f => (p.stateOf d.id).hasDraft f.id).map Field.id
  let progress ← Prog.fold ids progress fun progress id => do
    let outcome ← onNamespace d (d.commitOne id)
    pure (countOutcome progress outcome)
  let _ ← saveNamespace env d
  pure (if report (before.stateOf d.id).hasAnyDraft then
      { progress with touched := progress.touched ++ [d] }
    else progress)

/-- `do_one` of `Provisioner::commit`: whether the file was saved. -/
def commitInProcess (env : Env F) (d : NamespaceDecl R) : Prog String (Provisioner R F) Bool := do
  runHook d
  let p ← Prog.get
  let ids := (d.fields.filter fun f => (p.stateOf d.id).hasDraft f.id).map Field.id
  let anyReboot ← Prog.fold ids false fun anyReboot id => do
    let outcome ← onNamespace d (d.commitOne id)
    pure (anyReboot || outcome = .appliedReboot)
  let ok ← saveNamespace env d
  Prog.when (anyReboot = true) (setRebootFlag true)
  pure ok

/-- `Provisioner::commit`; the id zero stands for all namespaces. -/
def commit (env : Env F) (id : NamespaceId) : Prog String (Provisioner R F) Bool := do
  let p ← Prog.get
  if id = 0 then
    Prog.fold p.decls true fun ok d => do
      let saved ← commitInProcess env d
      pure (saved && ok)
  else
    match p.find id with
    | none => pure false
    | some d => commitInProcess env d

/-- `Provisioner::discard`; the id zero stands for all namespaces. -/
def discard (id : NamespaceId) : Prog String (Provisioner R F) Bool := do
  let p ← Prog.get
  if id = 0 then do
    Prog.forEach p.decls fun d => onNamespace d (NamespaceDecl.modifyState .clearDraft)
    pure true
  else
    match p.find id with
    | none => pure false
    | some d => do
      onNamespace d (NamespaceDecl.modifyState .clearDraft)
      pure true

/-- `Provisioner::field` with a value: `set_draft` of a registered namespace. -/
def setField (nsId : NamespaceId) (fieldId : FieldId) (v : Value) :
    Prog String (Provisioner R F) Bool := do
  let p ← Prog.get
  match p.find nsId with
  | none => pure false
  | some d => do
    let result := d.setDraft p.runtime fieldId v (p.stateOf d.id)
    Prog.modify (setState d.id result.2)
    pure result.1

/-- One field of `factory_reset`. -/
def resetField (d : NamespaceDecl R) (f : Field R) : Prog String (Provisioner R F) Unit := do
  onNamespace d (NamespaceDecl.modifyState (.putWorking f.id f.defaultValue))
  match f.setter with
  | none => pure ()
  | some setter =>
    Prog.when (!f.hasFlag ffReadOnly && !f.hasFlag ffWriteOnly && !f.defaultValue.isNone)
      (onNamespace d (Prog.catching
        (do let _ ← NamespaceDecl.callSetter setter f.defaultValue; pure ()) fun _ => pure ()))

/-- One namespace of `factory_reset`. -/
def resetNamespace (d : NamespaceDecl R) : Prog String (Provisioner R F) Unit := do
  onNamespace d (NamespaceDecl.modifyState .clearDraft)
  Prog.forEach d.fields (resetField d)
  onNamespace d (NamespaceDecl.modifyState .markClean)

/-- `factory_reset`; the answer of the storage is not used by the message handler. -/
def factoryReset (env : Env F) : Prog String (Provisioner R F) Unit := do
  let p ← Prog.get
  Prog.forEach p.decls resetNamespace
  let _ ← resetStorage env
  Prog.modify fun p => { p with needsReboot := false }
  callback p.onFactoryReset

/-! ## The registry stays as it is -/

/-- The same namespaces are registered. -/
def SameDecls (p q : Provisioner R F) : Prop := q.decls = p.decls

theorem SameDecls.refl (p : Provisioner R F) : SameDecls p p := rfl

theorem SameDecls.trans (p q t : Provisioner R F) (h : SameDecls p q) (h' : SameDecls q t) :
    SameDecls p t := Eq.trans h' h

/-- A registered namespace is found under its id. -/
theorem find_of_mem {p : Provisioner R F} {d : NamespaceDecl R} (hd : d ∈ p.decls) :
    p.find d.id = some d := by
  have hnodup : (p.decls.map NamespaceDecl.id).Nodup := by
    unfold decls
    rw [List.map_map]
    exact p.distinct
  exact NamespaceDecl.find_of_nodup hnodup hd

theorem onNamespace_decls {α : Type} (d : NamespaceDecl R) (m : Prog String (NamespaceState × R) α) :
    Prog.Keeps SameDecls (onNamespace (F := F) d m) := fun p => setState_decls _ _ p

theorem onStorage_decls {α : Type} (default : α) (m : Prog String F α) :
    Prog.Keeps SameDecls (onStorage (R := R) default m) := by
  intro p
  unfold onStorage
  split <;> rfl

theorem runHook_decls (d : NamespaceDecl R) : Prog.Keeps SameDecls (runHook (F := F) d) := by
  refine Prog.Keeps.bind SameDecls.trans (Prog.Keeps.get SameDecls.refl) fun p => ?_
  cases d.onCommit with
  | none => exact Prog.Keeps.pure SameDecls.refl ()
  | some hook => exact Prog.Keeps.when SameDecls.refl fun _ => onNamespace_decls d _

theorem callback_decls (m : Option (Prog String R Unit)) :
    Prog.Keeps SameDecls (callback (F := F) m) := by
  cases m with
  | none => exact Prog.Keeps.pure SameDecls.refl ()
  | some m => exact fun _ => rfl

theorem setRebootFlag_decls (b : Bool) :
    Prog.Keeps (SameDecls (R := R) (F := F)) (setRebootFlag b) := by
  refine Prog.Keeps.bind SameDecls.trans (Prog.Keeps.get SameDecls.refl) fun p => ?_
  refine Prog.Keeps.when SameDecls.refl fun _ => ?_
  refine Prog.Keeps.bind SameDecls.trans (Prog.Keeps.modify fun _ => rfl) fun _ => ?_
  exact Prog.Keeps.when SameDecls.refl fun _ => callback_decls _

theorem saveNamespace_decls (env : Env F) (d : NamespaceDecl R) :
    Prog.Keeps SameDecls (saveNamespace env d) := by
  refine Prog.Keeps.bind SameDecls.trans (Prog.Keeps.get SameDecls.refl) fun p => ?_
  refine Prog.Keeps.ite (Prog.Keeps.pure SameDecls.refl true) ?_
  refine Prog.Keeps.bind SameDecls.trans (onStorage_decls _ _) fun saved => ?_
  refine Prog.Keeps.bind SameDecls.trans ?_ fun _ => Prog.Keeps.pure SameDecls.refl saved
  exact Prog.Keeps.when SameDecls.refl fun _ => Prog.Keeps.modify fun p => setState_decls _ _ p

end Provisioner

end MicroReticulum.Provisioning
