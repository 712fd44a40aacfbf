import MicroReticulum.Provisioning.Field
import Mathlib.Data.List.AList

/-!
# Namespaces

A namespace has a declaration, fixed when the registration is over, and a state: the working values,
the drafts, and a flag that tells whether the file on disk is behind. The source keeps both in one
class; here the declaration is a value of its own, so that what a commit hook or a setter can change
is visible in its type.

A commit hook gets the declaration and works on the state and the runtime. It may throw.
-/

namespace MicroReticulum.Provisioning

open MicroReticulum Library

variable {R : Type}

/-- `std::unordered_map<fid_t, Value>` -/
abbrev FieldMap : Type := AList fun _ : FieldId => Value

/-- `_working`, `_draft` and `_dirty_for_persist` of a namespace. -/
structure NamespaceState where
  working : FieldMap := ∅
  draft : FieldMap := ∅
  dirtyForPersist : Bool := false

/-- What the registration of a namespace fixes. -/
structure NamespaceDecl (R : Type) where
  id : NamespaceId
  name : Bytes
  parentId : NamespaceId := 0
  fields : List (Field R)
  /-- the commit hook, on the declared fields -/
  onCommit : Option (List (Field R) → Prog String (NamespaceState × R) Unit) := none
  schemaHash : UInt32 := 0
  /-- `add_field` refuses an id that is taken -/
  distinct : (fields.map Field.id).Nodup

/-- `Namespace` -/
structure Namespace (R : Type) where
  decl : NamespaceDecl R
  state : NamespaceState

/-- `Namespace::CommitOutcome` -/
inductive CommitOutcome where
  | noChange | appliedLive | appliedReboot | invalidValue | unknown | readOnly | setterFailed
  deriving DecidableEq, Repr

namespace NamespaceState

/-- `has_draft` -/
def hasDraft (s : NamespaceState) (id : FieldId) : Bool := (s.draft.lookup id).isSome

/-- `has_any_draft` -/
def hasAnyDraft (s : NamespaceState) : Bool := !s.draft.entries.isEmpty

/-- `clear_draft(field_id)`, also the erasures of `set_draft` and `commit_one` -/
def eraseDraft (id : FieldId) (s : NamespaceState) : NamespaceState :=
  { s with draft := s.draft.erase id }

/-- `_draft[field_id] = v` -/
def insertDraft (id : FieldId) (v : Value) (s : NamespaceState) : NamespaceState :=
  { s with draft := s.draft.insert id v }

/-- `clear_draft()` -/
def clearDraft (s : NamespaceState) : NamespaceState := { s with draft := ∅ }

/-- `put_working` -/
def putWorking (id : FieldId) (v : Value) (s : NamespaceState) : NamespaceState :=
  { s with working := s.working.insert id v, dirtyForPersist := true }

/-- `mark_clean` -/
def markClean (s : NamespaceState) : NamespaceState := { s with dirtyForPersist := false }

/-- `working(field_id)` -/
def workingValue (s : NamespaceState) (id : FieldId) : Value := (s.working.lookup id).getD .none

/-! ### Lookups -/

theorem hasDraft_iff (s : NamespaceState) (id : FieldId) :
    s.hasDraft id = true ↔ ∃ v, s.draft.lookup id = some v := Option.isSome_iff_exists

/-- There is some draft exactly if some id has one. -/
theorem hasAnyDraft_iff (s : NamespaceState) : s.hasAnyDraft = true ↔ ∃ id, s.hasDraft id = true := by
  unfold hasAnyDraft hasDraft
  rw [Bool.not_eq_true', List.isEmpty_eq_false_iff]
  constructor
  · intro h
    obtain ⟨x, hx⟩ := List.exists_mem_of_ne_nil _ h
    exact ⟨x.1, AList.lookup_isSome.mpr (AList.mem_keys.mpr (List.mem_map_of_mem hx))⟩
  · rintro ⟨id, hid⟩ hnil
    have hmem := AList.lookup_isSome.mp hid
    rw [AList.mem_keys] at hmem
    simp [AList.keys, hnil] at hmem

theorem lookup_eraseDraft (s : NamespaceState) (id other : FieldId) :
    (s.eraseDraft id).draft.lookup other = if other = id then none else s.draft.lookup other := by
  split
  case isTrue heq => rw [heq]; exact AList.lookup_erase _ _
  case isFalse hne => exact AList.lookup_erase_ne hne

theorem lookup_insertDraft (s : NamespaceState) (id other : FieldId) (v : Value) :
    (s.insertDraft id v).draft.lookup other
      = if other = id then some v else s.draft.lookup other := by
  split
  case isTrue heq => rw [heq]; exact AList.lookup_insert _
  case isFalse hne => exact AList.lookup_insert_ne hne

theorem lookup_putWorking (s : NamespaceState) (id other : FieldId) (v : Value) :
    (s.putWorking id v).working.lookup other
      = if other = id then some v else s.working.lookup other := by
  split
  case isTrue heq => rw [heq]; exact AList.lookup_insert _
  case isFalse hne => exact AList.lookup_insert_ne hne

end NamespaceState

namespace NamespaceDecl

/-- `find_field(id)` -/
def findField (d : NamespaceDecl R) (id : FieldId) : Option (Field R) :=
  d.fields.find? fun f => f.id = id

/-- `effective(field_id)` -/
def effective (d : NamespaceDecl R) (s : NamespaceState) (r : R) (id : FieldId) : Value :=
  match d.findField id with
  | none => .none
  | some f =>
    if f.hasFlag ffWriteOnly then .none
    else match f.getter with
      | some getter => getter r
      | none => s.workingValue id

/-- The value a field stands for: the committed one while a reboot is pending, else the live one. -/
def settledValue (d : NamespaceDecl R) (s : NamespaceState) (r : R) (f : Field R) : Value :=
  if f.hasFlag ffRebootRequired then s.workingValue f.id else d.effective s r f.id

/-- `base_state_value` -/
def baseStateValue (d : NamespaceDecl R) : NamespaceState → R → Field R → Value := d.settledValue

/-- `persist_value` -/
def persistValue (d : NamespaceDecl R) : NamespaceState → R → Field R → Value := d.settledValue

/-- `set_draft` behind its checks. A value the field already stands for takes its draft back. -/
def stageDraft (d : NamespaceDecl R) (r : R) (f : Field R) (v : Value) (s : NamespaceState) :
    NamespaceState :=
  if !f.hasFlag ffWriteOnly && (d.settledValue s r f).eq v then s.eraseDraft f.id
  else s.insertDraft f.id v

/-- `set_draft` -/
def setDraft (d : NamespaceDecl R) (r : R) (id : FieldId) (v : Value) (s : NamespaceState) :
    Bool × NamespaceState :=
  match d.findField id with
  | none => (false, s)
  | some f =>
    if f.hasFlag ffReadOnly then (false, s)
    else if !f.validate v then (false, s)
    else (true, d.stageDraft r f v s)

/-- `draft_has_reboot` -/
def draftHasReboot (d : NamespaceDecl R) (s : NamespaceState) : Bool :=
  s.draft.keys.any fun id =>
    match d.findField id with
    | some f => f.hasFlag ffRebootRequired
    | none => false

/-- A setter call, on the runtime. -/
def callSetter (setter : Value → Prog String R Bool) (v : Value) :
    Prog String (NamespaceState × R) Bool :=
  Prog.zoom Prod.snd (fun r x => (x.1, r)) (setter v)

/-- A change of the namespace's own state. -/
def modifyState (g : NamespaceState → NamespaceState) : Prog String (NamespaceState × R) Unit :=
  Prog.modify fun x => (g x.1, x.2)

/-- The end of `commit_one`, for a draft that is taken off its list. -/
def applyDraft (f : Field R) (v : Value) : Prog String (NamespaceState × R) CommitOutcome :=
  if f.hasFlag ffWriteOnly then
    match f.setter with
    | none => pure .appliedLive
    | some setter => do
      let ok ← callSetter setter v
      pure (if ok then .appliedLive else .setterFailed)
  else do
    modifyState (.putWorking f.id v)
    match f.hasFlag ffLiveApply, f.setter with
    | true, some setter => do
      let ok ← callSetter setter v
      pure (if ok then .appliedLive else .setterFailed)
    | _, _ => pure (if f.hasFlag ffRebootRequired then .appliedReboot else .appliedLive)

/-- `commit_one` -/
def commitOne (d : NamespaceDecl R) (id : FieldId) :
    Prog String (NamespaceState × R) CommitOutcome :=
  match d.findField id with
  | none => pure .unknown
  | some f => do
    let x ← Prog.get
    match x.1.draft.lookup id with
    | none => pure .noChange
    | some v =>
      if f.hasFlag ffReadOnly then do
        modifyState (.eraseDraft id)
        pure .readOnly
      else if !f.validate v then pure .invalidValue
      else do
        modifyState (.eraseDraft id)
        applyDraft f v

/-! ### Fields -/

/-- A field is found under its own id. -/
theorem findField_id {d : NamespaceDecl R} {id : FieldId} {f : Field R}
    (h : d.findField id = some f) : f.id = id := by
  simpa using List.find?_some h

theorem findField_mem {d : NamespaceDecl R} {id : FieldId} {f : Field R}
    (h : d.findField id = some f) : f ∈ d.fields := List.mem_of_find?_eq_some h

/-- Where keys are unique, every element is found under its own. -/
theorem find_of_nodup {α β : Type} [DecidableEq β] {key : α → β} {l : List α}
    (hnodup : (l.map key).Nodup) {x : α} (hx : x ∈ l) :
    l.find? (fun y => key y = key x) = some x := by
  induction l with
  | nil => cases hx
  | cons y l ih =>
    rw [List.map_cons, List.nodup_cons] at hnodup
    rcases List.mem_cons.mp hx with rfl | hx
    · simp
    · have hne : key y ≠ key x := fun heq => hnodup.1 (heq ▸ List.mem_map_of_mem hx)
      simp [hne, ih hnodup.2 hx]

/-- Ids are unique, so every field of the declaration is found. -/
theorem findField_of_mem {d : NamespaceDecl R} {f : Field R} (h : f ∈ d.fields) :
    d.findField f.id = some f := find_of_nodup d.distinct h

end NamespaceDecl

end MicroReticulum.Provisioning
