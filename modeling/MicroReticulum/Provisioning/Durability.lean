import MicroReticulum.Provisioning.Load
import Mathlib.Logic.Function.Basic

/-!
# What an interrupted save leaves behind

`Disk` is a file system whose operations go wrong by a script: an operation does nothing and says so,
it throws, or the power is lost before it. A write that fails may leave a part of its bytes. The power
coming back is a disk with the same files and nothing left of the script.

A save writes a temporary file and renames it. When the rename is refused, the file in place is removed
and the rename is tried again; a save that ends between the two leaves no file at all, and the loader
removes the temporary one. `saved_or_kept_iff` says that this is the only way to lose the contents.

Wear and bit rot are left out: what is once in a file stays in it until an operation touches
it.
-/

namespace MicroReticulum.Provisioning

open MicroReticulum Library

variable {R F : Type}

/-! ## Disks -/

/-- How a file operation goes. -/
inductive Fault where
  | none
  /-- the operation reports a failure; a write has written that many bytes -/
  | fails (written : Nat)
  | throws (e : String)
  | powerLoss
  deriving DecidableEq, Repr

/-- The files of a device and what is going to happen to it. -/
structure Disk where
  files : Bytes → Option Bytes
  /-- how the operations that change files go, in order -/
  faults : Nat → Fault := fun _ => .none
  /-- how many of them there have been -/
  operation : Nat := 0
  /-- the answers of `directory_exists` and `create_directory` -/
  directory : Except String Bool := .ok true
  create : Except String Bool := .ok true

namespace Disk

/-- The disk behind one more operation. -/
def tick (d : Disk) : Disk := { d with operation := d.operation + 1 }

/-- The disk with a file written, or removed. -/
def put (path : Bytes) (contents : Option Bytes) (d : Disk) : Disk :=
  { d with files := Function.update d.files path contents }

/-- The disk after the power has come back. -/
def restarted (d : Disk) : Disk := { files := d.files }

/-- Run an operation as the script has it. -/
def perform {α : Type} (effect : Prog String Disk α) (failure : Nat → Prog String Disk α) :
    Prog String Disk α := do
  let d ← Prog.get
  match d.faults d.operation with
  | .powerLoss => Prog.wait
  | .throws e => do
    Prog.modify tick
    Prog.throw e
  | .fails written => do
    Prog.modify tick
    failure written
  | .none => do
    Prog.modify tick
    effect

/-- `write_file` -/
def writeFile (path contents : Bytes) : Prog String Disk Nat :=
  perform
    (do
      Prog.modify (put path (some contents))
      pure contents.length)
    fun written => do
      Prog.modify (put path (some (contents.take written)))
      pure (contents.take written).length

/-- `remove_file`: a file that is not there is not removed. -/
def removeFile (path : Bytes) : Prog String Disk Bool :=
  perform
    (do
      let d ← Prog.get
      Prog.modify (put path none)
      pure (d.files path).isSome)
    fun _ => pure false

/-- `rename_file`, with whatever was there replaced. -/
def renameFile (path path' : Bytes) : Prog String Disk Bool :=
  perform
    (do
      let d ← Prog.get
      match d.files path with
      | none => pure false
      | some contents => do
        Prog.modify (put path none)
        Prog.modify (put path' (some contents))
        pure true)
    fun _ => pure false

/-- The file operations of a disk. -/
def fileSystem : FileSystem Disk where
  directoryExists _ := do
    let d ← Prog.get
    Prog.ofExcept d.directory
  createDirectory _ := do
    let d ← Prog.get
    Prog.ofExcept d.create
  fileExists path := do
    let d ← Prog.get
    pure (d.files path).isSome
  readFile path := do
    let d ← Prog.get
    pure ((d.files path).getD [])
  removeFile := removeFile
  writeFile := writeFile
  renameFile := renameFile

end Disk

/-- The platform with its files on a disk. -/
def Env.onDisk (env : Env F) : Env Disk :=
  { decode := env.decode, encode := env.encode, floatOfInt := env.floatOfInt, compress := env.compress
    fs := Disk.fileSystem, root := env.root }

/-- What a load of a namespace reads once the power is back. -/
def laterLoad (env : Env F) (id : NamespaceId) (disk : Disk) : Outcome String (Option Bytes) :=
  (readNamespaceFile env.onDisk id disk.restarted).1

/-- What a load makes of the contents of a file. -/
def readable (contents : Option Bytes) : Option Bytes := contents.filter (· ≠ [])

/-- A file with contents is read as they are. -/
theorem readable_of_ne_nil {contents : Bytes} (h : contents ≠ []) :
    readable (some contents) = some contents := by
  unfold readable
  rw [Option.filter_some, if_pos (decide_eq_true h)]

/-! ## Operations -/

namespace Disk

variable {d : Disk}

/-- An operation on the disk by its fate: power loss, failure or effect. -/
theorem perform_run {α : Type} (effect : Prog String Disk α) (failure : Nat → Prog String Disk α)
    (d : Disk) :
    perform effect failure d = match d.faults d.operation with
      | .powerLoss => (.waits, d)
      | .throws e => (.thrown e, d.tick)
      | .fails written => failure written d.tick
      | .none => effect d.tick := by
  unfold perform
  rw [Prog.get_bind_run]
  cases d.faults d.operation <;> rfl

@[simp] theorem put_faults (path : Bytes) (contents : Option Bytes) (d : Disk) :
    (d.put path contents).faults = d.faults := rfl
@[simp] theorem put_operation (path : Bytes) (contents : Option Bytes) (d : Disk) :
    (d.put path contents).operation = d.operation := rfl
@[simp] theorem tick_faults (d : Disk) : d.tick.faults = d.faults := rfl
@[simp] theorem tick_files (d : Disk) : d.tick.files = d.files := rfl
@[simp] theorem tick_operation (d : Disk) : d.tick.operation = d.operation + 1 := rfl

@[simp] theorem put_files_same (path : Bytes) (contents : Option Bytes) (d : Disk) :
    (d.put path contents).files path = contents := by
  simp [put]

theorem put_files_other {path path' : Bytes} (h : path' ≠ path) (contents : Option Bytes)
    (d : Disk) : (d.put path contents).files path' = d.files path' := by
  simp [put, h]

end Disk

/-- The temporary file is another file. -/
theorem tmpPath_ne_filePath (root : Bytes) (id : NamespaceId) :
    tmpPath root id ≠ filePath root id := by
  intro h
  have hlen := congrArg List.length h
  unfold tmpPath at hlen
  rw [List.length_append] at hlen
  have hext : 0 < (".tmp".toUTF8.toList).length := by decide +kernel
  omega

/-! ## Saving -/

section Save

variable (env : Env F) (id : NamespaceId) (encoded : Bytes)

/-- The file in place after an operation that does not take effect, whatever it does with the
temporary file. -/
theorem removeFile_tmp_keeps (d : Disk) :
    (Disk.removeFile (tmpPath env.root id) d).2.files (filePath env.root id)
      = d.files (filePath env.root id) := by
  have hne := (tmpPath_ne_filePath env.root id).symm
  unfold Disk.removeFile
  rw [Disk.perform_run]
  cases d.faults d.operation with
  | none => exact Disk.put_files_other hne _ _
  | _ => rfl

/-- The write leaves the complete contents in the temporary file. -/
def Fault.Writes (encoded : Bytes) : Fault → Prop
  | .none => True
  | .fails written => encoded.length ≤ written
  | _ => False

/-- The first rename is refused and the file in place is removed, but the second rename does not
happen. -/
def Abandoned (encoded : Bytes) (d : Disk) : Prop :=
  (d.faults d.operation).Writes encoded
    ∧ (∃ w, d.faults (d.operation + 1) = .fails w)
    ∧ d.faults (d.operation + 2) = .none
    ∧ d.faults (d.operation + 3) ≠ .none

/-- A rename of the complete temporary file: done, or the file in place stays. -/
theorem renameFile_final {d : Disk} (htmp : d.files (tmpPath env.root id) = some encoded) :
    (d.faults d.operation = .none →
        Disk.renameFile (tmpPath env.root id) (filePath env.root id) d
          = (.value true, (d.tick.put (tmpPath env.root id) none).put (filePath env.root id)
              (some encoded)))
      ∧ ((∃ w, d.faults d.operation = .fails w) →
          Disk.renameFile (tmpPath env.root id) (filePath env.root id) d = (.value false, d.tick))
      ∧ (d.faults d.operation ≠ .none →
          (Disk.renameFile (tmpPath env.root id) (filePath env.root id) d).2.files
            (filePath env.root id) = d.files (filePath env.root id)) := by
  unfold Disk.renameFile
  rw [Disk.perform_run]
  refine ⟨fun h => ?_, fun ⟨w, h⟩ => ?_, fun h => ?_⟩
  · rw [h]
    dsimp only
    rw [Prog.get_bind_run, Disk.tick_files, htmp]
    rfl
  · rw [h]
    rfl
  · cases hfault : d.faults d.operation with
    | none => exact absurd hfault h
    | _ => rfl

/-- The removal of the file in place, as the retry makes it. -/
def removeFinal : Prog String Disk Unit :=
  Prog.catching (do let _ ← Disk.removeFile (filePath env.root id); pure ()) fun _ => pure ()

/-- The removal either takes effect, or leaves the files alone; on a power loss it does not end. -/
theorem removeFinal_run (d : Disk) :
    (d.faults d.operation = .none →
        removeFinal env id d = (.value (), d.tick.put (filePath env.root id) none))
      ∧ (d.faults d.operation = .powerLoss → removeFinal env id d = (.waits, d))
      ∧ (d.faults d.operation ≠ .none → d.faults d.operation ≠ .powerLoss →
        removeFinal env id d = (.value (), d.tick)) := by
  unfold removeFinal Prog.catching Disk.removeFile
  rw [Prog.bind_run, Disk.perform_run]
  cases d.faults d.operation with
  | none => exact ⟨fun _ => rfl, fun h => (by cases h), fun h => absurd rfl h⟩
  | powerLoss => exact ⟨fun h => (by cases h), fun _ => rfl, fun _ h => absurd rfl h⟩
  | fails written => exact ⟨fun h => (by cases h), fun h => (by cases h), fun _ _ => rfl⟩
  | throws e => exact ⟨fun h => (by cases h), fun h => (by cases h), fun _ _ => rfl⟩

/-- The second rename and the clean-up behind it. -/
def renameAgain : Prog String Disk Bool := do
  let renamedAgain ← Disk.renameFile (tmpPath env.root id) (filePath env.root id)
  if renamedAgain then pure true
  else do
    let _ ← Disk.removeFile (tmpPath env.root id)
    pure false

/-- The second rename puts the file in place, or leaves the place empty. -/
theorem renameAgain_final {d : Disk} (htmp : d.files (tmpPath env.root id) = some encoded) :
    (d.faults d.operation = .none →
        (renameAgain env id d).2.files (filePath env.root id) = some encoded)
      ∧ (d.faults d.operation ≠ .none →
        (renameAgain env id d).2.files (filePath env.root id) = d.files (filePath env.root id)) := by
  obtain ⟨hdone, hfails, hkeeps⟩ := renameFile_final env id encoded htmp
  unfold renameAgain
  refine ⟨fun h => ?_, fun h => ?_⟩
  · rw [Prog.bind_value (hdone h)]
    exact Disk.put_files_same _ _ _
  · rw [Prog.bind_run]
    cases hfault : d.faults d.operation with
    | none => exact absurd hfault h
    | fails w =>
      rw [hfails ⟨w, hfault⟩]
      show ((Disk.removeFile (tmpPath env.root id) >>= fun _ => pure false) d.tick).2.files _ = _
      have hclean := removeFile_tmp_keeps env id d.tick
      rw [Prog.bind_run]
      rcases hrun : Disk.removeFile (tmpPath env.root id) d.tick with ⟨_ | _ | _ | _, t⟩ <;>
        rw [hrun] at hclean <;> exact hclean
    | throws e =>
      have hkept := hkeeps h
      have hrun : Disk.renameFile (tmpPath env.root id) (filePath env.root id) d
          = (.thrown e, d.tick) := by
        unfold Disk.renameFile
        rw [Disk.perform_run, hfault]
      rw [hrun] at hkept ⊢
      exact hkept
    | powerLoss =>
      have hrun : Disk.renameFile (tmpPath env.root id) (filePath env.root id) d = (.waits, d) := by
        unfold Disk.renameFile
        rw [Disk.perform_run, hfault]
      rw [hrun]

/-- What a save can leave in place: nothing, when it was `lost`, and otherwise the old contents or the
new ones. -/
def Leaves (lost : Prop) (old : Option Bytes) (new : Bytes) (after : Option Bytes) : Prop :=
  (lost → after = none) ∧ (¬ lost → after = old ∨ after = some new)

/-- The retry behind a refused rename. -/
theorem retry_leaves {d : Disk} (htmp : d.files (tmpPath env.root id) = some encoded) :
    Leaves (d.faults d.operation = .none ∧ d.faults (d.operation + 1) ≠ .none)
      (d.files (filePath env.root id)) encoded
      (((removeFinal env id >>= fun _ => renameAgain env id) d).2.files (filePath env.root id)) := by
  obtain ⟨hremoves, hstops, hkeeps⟩ := removeFinal_run env id d
  by_cases hfirst : d.faults d.operation = .none
  case pos =>
    have htmp' : ((d.tick.put (filePath env.root id) none).files (tmpPath env.root id))
        = some encoded := by
      rw [Disk.put_files_other (tmpPath_ne_filePath env.root id)]
      exact htmp
    obtain ⟨hdone, hnot⟩ := renameAgain_final env id encoded htmp'
    rw [Prog.bind_value (hremoves hfirst)]
    refine ⟨fun h => ?_, fun h => .inr (hdone ?_)⟩
    · rw [hnot h.2]
      exact Disk.put_files_same _ _ _
    · by_contra hne
      exact h ⟨hfirst, hne⟩
  case neg =>
    refine ⟨fun h => absurd h.1 hfirst, fun _ => ?_⟩
    by_cases hpower : d.faults d.operation = .powerLoss
    · rw [Prog.bind_run, hstops hpower]
      exact .inl rfl
    · rw [Prog.bind_value (hkeeps hfirst hpower)]
      obtain ⟨hdone, hnot⟩ := renameAgain_final env id encoded (d := d.tick) htmp
      by_cases hsecond : d.tick.faults d.tick.operation = .none
      · exact .inr (hdone hsecond)
      · exact .inl (hnot hsecond)

/-- Everything behind the write: the rename, and its retry. -/
def moveIntoPlace : Prog String Disk Bool :=
  Disk.renameFile (tmpPath env.root id) (filePath env.root id) >>= fun renamed =>
    if renamed then pure true else removeFinal env id >>= fun _ => renameAgain env id

/-- Moving the file into place leaves the old contents, the new, or nothing, and nothing only where the
second rename fails after the first. -/
theorem moveIntoPlace_leaves {d : Disk} (htmp : d.files (tmpPath env.root id) = some encoded) :
    Leaves ((∃ w, d.faults d.operation = .fails w) ∧ d.faults (d.operation + 1) = .none
        ∧ d.faults (d.operation + 2) ≠ .none)
      (d.files (filePath env.root id)) encoded
      ((moveIntoPlace env id d).2.files (filePath env.root id)) := by
  unfold moveIntoPlace
  obtain ⟨hdone, hfails, hkeeps⟩ := renameFile_final env id encoded htmp
  cases hfault : d.faults d.operation with
  | none =>
    rw [Prog.bind_value (hdone hfault)]
    exact ⟨fun ⟨⟨w, h⟩, _⟩ => (by cases h), fun _ => .inr (Disk.put_files_same _ _ _)⟩
  | fails w =>
    rw [Prog.bind_value (hfails ⟨w, hfault⟩)]
    obtain ⟨hlost, hkept⟩ := retry_leaves env id encoded (d := d.tick) htmp
    exact ⟨fun h => hlost h.2, fun h => hkept fun h' => h ⟨⟨w, rfl⟩, h'⟩⟩
  | throws e =>
    have hrename : Disk.renameFile (tmpPath env.root id) (filePath env.root id) d
        = (.thrown e, d.tick) := by
      unfold Disk.renameFile
      rw [Disk.perform_run, hfault]
    rw [Prog.bind_thrown hrename]
    exact ⟨fun ⟨⟨w, h⟩, _⟩ => (by cases h), fun _ => .inl rfl⟩
  | powerLoss =>
    have hrename : Disk.renameFile (tmpPath env.root id) (filePath env.root id) d
        = (.waits, d) := by
      unfold Disk.renameFile
      rw [Disk.perform_run, hfault]
    rw [Prog.bind_run, hrename]
    exact ⟨fun ⟨⟨w, h⟩, _⟩ => (by cases h), fun _ => .inl rfl⟩

/-- Writing a namespace is a write beside the file, then the move into place. -/
theorem writeNamespace_eq :
    writeNamespace env.onDisk id encoded
      = (Disk.writeFile (tmpPath env.root id) encoded >>= fun wrote =>
          if wrote ≠ encoded.length then
            Disk.removeFile (tmpPath env.root id) >>= fun _ => pure false
          else moveIntoPlace env id) := rfl

/-- How the write ends: complete, short, or not at all. -/
theorem writeFile_run (d : Disk) :
    ((d.faults d.operation).Writes encoded →
        Disk.writeFile (tmpPath env.root id) encoded d
          = (.value encoded.length, d.tick.put (tmpPath env.root id) (some encoded)))
      ∧ (¬ (d.faults d.operation).Writes encoded →
        (∃ e, Disk.writeFile (tmpPath env.root id) encoded d = (.thrown e, d.tick))
          ∨ Disk.writeFile (tmpPath env.root id) encoded d = (.waits, d)
          ∨ ∃ n contents, n ≠ encoded.length ∧ Disk.writeFile (tmpPath env.root id) encoded d
            = (.value n, d.tick.put (tmpPath env.root id) contents)) := by
  unfold Disk.writeFile
  rw [Disk.perform_run]
  cases d.faults d.operation with
  | none => exact ⟨fun _ => rfl, fun h => absurd trivial h⟩
  | throws e => exact ⟨fun h => h.elim, fun _ => .inl ⟨e, rfl⟩⟩
  | powerLoss => exact ⟨fun h => h.elim, fun _ => .inr (.inl rfl)⟩
  | fails w =>
    constructor
    · intro h
      have hall : encoded.take w = encoded := List.take_of_length_le h
      show (Outcome.value (encoded.take w).length,
        Disk.put _ (some (encoded.take w)) d.tick) = _
      rw [hall]
    · intro h
      refine .inr (.inr ⟨(encoded.take w).length, some (encoded.take w), ?_, rfl⟩)
      have hshort : w < encoded.length := Nat.lt_of_not_le h
      rw [List.length_take]
      omega

/-- The file in place after all the steps of a save. -/
theorem writeNamespace_leaves (d : Disk) :
    Leaves (Abandoned encoded d) (d.files (filePath env.root id)) encoded
      ((writeNamespace env.onDisk id encoded d).2.files (filePath env.root id)) := by
  rw [writeNamespace_eq]
  have hother : ∀ contents : Option Bytes,
      (d.tick.put (tmpPath env.root id) contents).files (filePath env.root id)
        = d.files (filePath env.root id) := fun contents =>
    Disk.put_files_other (tmpPath_ne_filePath env.root id).symm contents d.tick
  obtain ⟨hcomplete, hincomplete⟩ := writeFile_run env id encoded d
  by_cases hwrites : (d.faults d.operation).Writes encoded
  case pos =>
    rw [Prog.bind_value (hcomplete hwrites), if_neg (by simp)]
    obtain ⟨hlost, hkept⟩ := moveIntoPlace_leaves env id encoded
      (d := d.tick.put (tmpPath env.root id) (some encoded)) (Disk.put_files_same _ _ _)
    rw [hother] at hkept
    exact ⟨fun h => hlost h.2, fun h => hkept fun h' => h ⟨hwrites, h'⟩⟩
  case neg =>
    refine ⟨fun h => absurd h.1 hwrites, fun _ => .inl ?_⟩
    rcases hincomplete hwrites with ⟨e, hrun⟩ | hrun | ⟨n, contents, hn, hrun⟩
    · rw [Prog.bind_thrown hrun]
      rfl
    · rw [Prog.bind_run, hrun]
    · rw [Prog.bind_value hrun, if_pos hn]
      have hclean := removeFile_tmp_keeps env id (d.tick.put (tmpPath env.root id) contents)
      rw [hother] at hclean
      rw [Prog.bind_run]
      rcases hremove : Disk.removeFile (tmpPath env.root id)
          (d.tick.put (tmpPath env.root id) contents) with ⟨_ | _ | _ | _, t⟩ <;>
        rw [hremove] at hclean <;> exact hclean

end Save

/-! ## Saving and loading -/

/-- The storage directory is there or can be created. -/
def Disk.HasDirectory (d : Disk) : Prop :=
  d.directory = .ok true ∨ d.directory = .ok false ∧ d.create = .ok true

/-- The directory is reported to be there exactly when it is, and nothing is changed. -/
theorem ensureDirectory_run (env : Env F) (disk : Disk) :
    (disk.HasDirectory → ensureDirectory env.onDisk disk = (.value true, disk))
      ∧ (¬ disk.HasDirectory → ensureDirectory env.onDisk disk = (.value false, disk)) := by
  have hexists : env.onDisk.fs.directoryExists env.onDisk.root disk
      = Prog.ofExcept disk.directory disk := rfl
  have hcreate : env.onDisk.fs.createDirectory env.onDisk.root disk
      = Prog.ofExcept disk.create disk := rfl
  unfold ensureDirectory Prog.catching Disk.HasDirectory
  rw [Prog.bind_run, hexists]
  rcases disk.directory with e | _ | _
  case error =>
    exact ⟨fun h => (by rcases h with h | ⟨h, _⟩ <;> cases h), fun _ => rfl⟩
  case ok.true => exact ⟨fun _ => rfl, fun h => absurd (.inl rfl) h⟩
  case ok.false =>
    rw [Prog.ofExcept_ok_run]
    dsimp only
    rw [if_neg Bool.false_ne_true, hcreate]
    rcases disk.create with e | _ | _
    · exact ⟨fun h => (by rcases h with h | ⟨_, h⟩ <;> cases h), fun _ => rfl⟩
    · exact ⟨fun h => (by rcases h with h | ⟨_, h⟩ <;> cases h), fun _ => rfl⟩
    · exact ⟨fun _ => rfl, fun h => absurd (.inr ⟨rfl, rfl⟩) h⟩

/-- On a disk without faults the clean-up ends, and touches the temporary file only. -/
theorem discardStale_run (env : Env F) (id : NamespaceId) (disk : Disk) (h : ∀ n, disk.faults n = .none) :
    ∃ t : Disk, t.files (filePath env.root id) = disk.files (filePath env.root id)
      ∧ discardStale env.onDisk id disk = (.value (), t) := by
  have hexists : env.onDisk.fs.fileExists (tmpPath env.onDisk.root id) disk
      = (.value (disk.files (tmpPath env.root id)).isSome, disk) := rfl
  have hremove : env.onDisk.fs.removeFile (tmpPath env.onDisk.root id) disk
      = (.value (disk.files (tmpPath env.root id)).isSome,
        disk.tick.put (tmpPath env.root id) none) := by
    show Disk.removeFile (tmpPath env.root id) disk = _
    unfold Disk.removeFile
    rw [Disk.perform_run, h]
    rfl
  unfold discardStale Prog.catching
  rw [Prog.bind_value hexists]
  cases (disk.files (tmpPath env.root id)).isSome with
  | false => exact ⟨disk, rfl, rfl⟩
  | true =>
    refine ⟨disk.tick.put (tmpPath env.root id) none,
      Disk.put_files_other (tmpPath_ne_filePath env.root id).symm _ _, ?_⟩
    rw [Prog.when_of rfl, Prog.bind_value hremove]
    rfl

/-- Reading a namespace reads its file and changes nothing. -/
theorem readFinal_run (env : Env F) (id : NamespaceId) (disk : Disk) :
    readFinal env.onDisk id disk
      = (.value (readable (disk.files (filePath env.root id))), disk) := by
  have hexists : env.onDisk.fs.fileExists (filePath env.onDisk.root id) disk
      = (.value (disk.files (filePath env.root id)).isSome, disk) := rfl
  have hread : env.onDisk.fs.readFile (filePath env.onDisk.root id) disk
      = (.value ((disk.files (filePath env.root id)).getD []), disk) := rfl
  unfold readFinal Prog.catching readable
  rw [Prog.bind_value hexists]
  cases hcontents : disk.files (filePath env.root id) with
  | none => rfl
  | some contents =>
    rw [hcontents] at hread
    rw [Option.isSome_some, if_pos rfl, Prog.bind_value hread]
    by_cases hempty : contents = []
    · rw [hempty]
      rfl
    · have hsame := readable_of_ne_nil hempty
      unfold readable at hsame
      rw [hsame, Option.getD_some, Prog.pure_run, if_neg hempty]

/-- What a later load reads is what is in place. -/
theorem laterLoad_eq (env : Env F) (id : NamespaceId) (disk : Disk) :
    laterLoad env id disk = .value (readable (disk.files (filePath env.root id))) := by
  obtain ⟨t, hfinal, hrun⟩ := discardStale_run env id disk.restarted fun _ => rfl
  unfold laterLoad readNamespaceFile
  rw [Prog.bind_value hrun, readFinal_run, hfinal]
  rfl

/-- With a directory, saving is writing the packed working values. -/
theorem saveNamespaceForce_state (env : Env F) (d : NamespaceDecl R) (s : NamespaceState) (r : R)
    {disk : Disk} (h : disk.HasDirectory) :
    (saveNamespaceForce env.onDisk d s r disk).2
      = (writeNamespace env.onDisk d.id (env.encode (packNamespaceWorking d s r)) disk).2 := by
  unfold saveNamespaceForce
  rw [Prog.bind_value ((ensureDirectory_run env disk).1 h), if_pos rfl]
  exact Prog.catching_pure_state _ _ _

/-- A save ends in the abandoned rename, and there was something to lose. -/
def LosesContents (env : Env F) (id : NamespaceId) (encoded : Bytes) (disk : Disk) : Prop :=
  disk.HasDirectory ∧ Abandoned encoded disk ∧ encoded ≠ []
    ∧ readable (disk.files (filePath env.root id)) ≠ none

/-- After a save, whatever goes wrong in it and wherever the power is lost, a later load reads the
previous contents or the new ones, exactly when the save does not end between the removal of the file in
place and the second rename. -/
theorem saved_or_kept_iff (env : Env F) (d : NamespaceDecl R) (s : NamespaceState) (r : R)
    (disk : Disk) :
    (laterLoad env d.id (saveNamespaceForce env.onDisk d s r disk).2 = laterLoad env d.id disk
        ∨ laterLoad env d.id (saveNamespaceForce env.onDisk d s r disk).2
          = .value (readable (some (env.encode (packNamespaceWorking d s r)))))
      ↔ ¬ LosesContents env d.id (env.encode (packNamespaceWorking d s r)) disk := by
  set encoded := env.encode (packNamespaceWorking d s r)
  simp only [laterLoad_eq, Outcome.value.injEq]
  by_cases hdirectory : disk.HasDirectory
  case neg =>
    have hrun : (saveNamespaceForce env.onDisk d s r disk).2 = disk := by
      unfold saveNamespaceForce
      rw [Prog.bind_value ((ensureDirectory_run env disk).2 hdirectory)]
      rfl
    rw [hrun]
    exact ⟨fun _ h => hdirectory h.1, fun _ => .inl rfl⟩
  case pos =>
    obtain ⟨hlost, hkept⟩ := writeNamespace_leaves env d.id encoded disk
    rw [saveNamespaceForce_state env d s r hdirectory]
    constructor
    · rintro h ⟨_, habandoned, hne, hold⟩
      rw [hlost habandoned] at h
      rcases h with h | h
      · exact hold h.symm
      · rw [readable_of_ne_nil hne] at h
        cases h
    · intro h
      by_cases habandoned : Abandoned encoded disk
      case neg =>
        rcases hkept habandoned with h' | h'
        · exact .inl (congrArg readable h')
        · exact .inr (congrArg readable h')
      case pos =>
        rw [hlost habandoned]
        by_cases hne : encoded = []
        · exact .inr (by rw [hne]; rfl)
        · left
          by_contra hold
          exact h ⟨hdirectory, habandoned, hne, fun h' => hold h'.symm⟩

/-- A disk with a saved namespace, whose file system does not rename over an existing file, and which
loses its power before the second rename. -/
def flashDisk (path : Bytes) : Disk where
  files := Function.update (fun _ => none) path (some [0x81, 0x01, 0x02])
  faults n := if n = 1 then .fails 0 else if n = 3 then .powerLoss else .none

/-- On such a disk a namespace loses its file: the next start reads neither the previous contents nor the new
ones. -/
theorem contents_lost_on_flash :
    ¬ ∀ (env : Env Unit) (d : NamespaceDecl Unit) (s : NamespaceState) (r : Unit) (disk : Disk),
      laterLoad env d.id (saveNamespaceForce env.onDisk d s r disk).2 = laterLoad env d.id disk
        ∨ laterLoad env d.id (saveNamespaceForce env.onDisk d s r disk).2
          = .value (readable (some (env.encode (packNamespaceWorking d s r)))) := by
  intro h
  let env : Env Unit := { bareEnv with encode := fun _ => [0x80] }
  let disk := flashDisk (filePath env.root radioDecl.id)
  have hdirectory : disk.HasDirectory := .inl rfl
  have habandoned : Abandoned [0x80] disk := ⟨trivial, ⟨0, rfl⟩, rfl, by decide⟩
  have hold : disk.files (filePath env.root radioDecl.id) = some [0x81, 0x01, 0x02] := by
    simp [disk, flashDisk]
  have hlost := (writeNamespace_leaves env radioDecl.id [0x80] disk).1 habandoned
  have hread := h env radioDecl {} () disk
  rw [laterLoad_eq, laterLoad_eq, saveNamespaceForce_state env radioDecl {} () hdirectory] at hread
  rw [hlost, hold] at hread
  rcases hread with hread | hread <;> cases hread

end MicroReticulum.Provisioning
