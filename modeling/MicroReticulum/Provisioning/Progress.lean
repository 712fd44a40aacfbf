import MicroReticulum.Library.Unread
import MicroReticulum.Provisioning.Load

/-!
# Where the decoders go on

The calls of `skip_value` and the iterations of the decoding loops, for a request and for a settings file, as the
decoders make them. A call leaves fewer bytes unread exactly if there is something ahead that the reader knows
(`progress_iff`), so the decoding as a whole may spin: a header announces how often a loop runs, and nothing compares it
with what is there. `progress_of_complete` is about inputs that are what they announce.

A type byte that no test takes, of an extension value or the one that is never used, is `Token.ext`.

Progress is counted in the unread bytes; the memory that a long list of entries takes is not
counted.
-/

namespace MicroReticulum.Provisioning

open MicroReticulum Library

variable {R F : Type} {env : Env F}

/-! ## The calls -/

/-- The iterations over a bytes list. At any other value the decoding of the list ends. -/
def binCalls : Nat → Cursor → List Call
  | n + 1, .bin b :: rest => ⟨.bin b :: rest, rest⟩ :: binCalls n rest
  | _, _ => []

/-- The iterations inside `unpack_value`. -/
def valueCalls : FieldType → Cursor → List Call
  | .bytesList, .arr n :: rest => binCalls n rest
  | _, _ => []

/-- The calls behind the key of a registered field, or of none. -/
def fieldValueCalls (f : Option (Field R)) (c : Cursor) : List Call :=
  match f with
  | none => skipCalls c 1
  | some f => valueCalls f.type c

/-- The calls of an iteration of `unpack_namespace_working`. -/
def workingCalls (env : Env F) (d : NamespaceDecl R) (c : Cursor) (s : NamespaceState) : List Call :=
  ⟨c, (workingEntry env d c s).2⟩ :: match c with
    | .int v :: rest => fieldValueCalls (d.findField (idOfWire v)) rest
    | c => skipCalls c 2

/-- The calls of `unpack_namespace_working`. -/
def fileCalls (env : Env F) (d : NamespaceDecl R) (s : NamespaceState) : Cursor → List Call
  | .map n :: rest => traced (workingCalls env d) (workingEntry env d) n rest s
  | _ => []

/-- A value is read if it is an integer, and skipped otherwise. -/
def intCalls : Cursor → List Call
  | .int _ :: _ => []
  | c => skipCalls c 1

/-- A value is read if it is a boolean, and skipped otherwise. -/
def flagCalls : Cursor → List Call
  | .bool _ :: _ => []
  | c => skipCalls c 1

def filterCalls (c : Cursor) (filter : List NamespaceId) : List Call := ⟨c, (filterEntry c filter).2⟩ :: intCalls c

/-- The calls over the value of a `NamespaceFilter` key. -/
def readFilterCalls (filter : List NamespaceId) : Cursor → List Call
  | .arr m :: rest => traced filterCalls filterEntry m rest filter
  | c => skipCalls c 1

/-- The calls of an iteration over an options map. -/
def optionCalls (known : KnownOptions) (c : Cursor) (o : Options) : List Call :=
  ⟨c, (optionEntry known c o).2⟩ :: match readUintKey c with
    | none => skipCalls c 1
    | some (key, rest) =>
      if known.namespaceFilter && key = Key.namespaceFilter then readFilterCalls o.filter rest
      else if known.draft && key = Key.draft then flagCalls rest
      else if known.priorHash && key = Key.priorHash then intCalls rest
      else if known.includeState && key = Key.includeState then flagCalls rest
      else if key = Key.reqCompress then flagCalls rest
      else skipCalls rest 1

/-- The calls over a payload that is an options map, or is skipped. -/
def optionsCalls (known : KnownOptions) : Option Cursor → List Call
  | some (.map n :: rest) => traced (optionCalls known) (optionEntry known) n rest {}
  | some c => skipCalls c 1
  | none => []

def fieldCalls (env : Env F) (nsId : NamespaceId) (d : Option (NamespaceDecl R)) (c : Cursor) (a : SetStateRun R F) :
    List Call :=
  ⟨c, (fieldEntry env nsId d c a).2⟩ :: match c with
    | .int v :: rest => fieldValueCalls (d.bind fun d => d.findField (idOfWire v)) rest
    | c => skipCalls c 2

/-- The calls over the value of a namespace in a `State` map. -/
def namespaceValueCalls (env : Env F) (nsId : NamespaceId) (c : Cursor) (a : SetStateRun R F) : List Call :=
  match c with
  | .map n :: rest =>
    traced (fieldCalls env nsId (a.p.find nsId)) (fieldEntry env nsId (a.p.find nsId)) n rest (a.touch (a.p.find nsId))
  | c => skipCalls c 1

def namespaceCalls (env : Env F) (c : Cursor) (a : SetStateRun R F) : List Call :=
  ⟨c, (namespaceEntry env c a).2⟩ :: match c with
    | .int v :: rest => namespaceValueCalls env (idOfWire v) rest a
    | c => skipCalls c 2

/-- The calls over the value of a `State` key. -/
def stateCalls (env : Env F) (c : Cursor) (a : SetStateRun R F) : List Call :=
  match c with
  | .map n :: rest => traced (namespaceCalls env) (namespaceEntry env) n rest { a with sawState := true }
  | c => skipCalls c 1

/-- The calls of an iteration over the payload of a SetState request. -/
def setStateCalls (env : Env F) (c : Cursor) (a : SetStateRun R F) : List Call :=
  ⟨c, (setStateEntry env c a).2⟩ :: match readUintKey c with
    | none => skipCalls c 1
    | some (key, rest) =>
      if key = Key.includeState then flagCalls rest
      else if key = Key.reqCompress then flagCalls rest
      else if key = Key.state then stateCalls env rest a
      else skipCalls rest 1

/-- The calls of `op_set_state`; a payload that is not a map is refused unread. -/
def setStatePayloadCalls (env : Env F) (p : Provisioner R F) : Option Cursor → List Call
  | some (.map n :: rest) => traced (setStateCalls env) (setStateEntry env) n rest { p }
  | _ => []

/-- The calls of `op_discard`. -/
def discardCalls : Option Cursor → List Call
  | some c => readFilterCalls [] c
  | none => []

/-- The calls of the handler of an operation. -/
def handlerCalls (env : Env F) (p : Provisioner R F) (op : UInt8) (payload : Option Cursor) : List Call :=
  if op = Op.getSchema then optionsCalls { namespaceFilter := true } payload
  else if op = Op.getState then optionsCalls { namespaceFilter := true, draft := true, priorHash := true } payload
  else if op = Op.setState then setStatePayloadCalls env p payload
  else if op = Op.commit then optionsCalls { namespaceFilter := true, includeState := true } payload
  else if op = Op.discard then discardCalls payload
  else if op = Op.getInfo ∨ op = Op.getCapabilities ∨ op = Op.factoryReset ∨ op = Op.reboot then optionsCalls {} payload
  else []

/-- The calls of `handle_message`, for a request that is decoded to these objects. -/
def requestCalls (env : Env F) (p : Provisioner R F) : Cursor → List Call
  | .arr size :: .int op :: rest =>
    if p.started = false ∨ size < 1 then []
    else
      (if size < 2 then [] else intCalls rest)
        ++ handlerCalls env p (narrowOp (wireInt op)) (if 3 ≤ size then some (readSeq size rest).2 else none)
  | _ => []

/-! ## Each call moves -/

/-- An array of byte strings is read from the front: what is left of the cursor is its end. -/
theorem unpackBins_suffix (n : Nat) (c : Cursor) : (unpackBins n c).2 <:+ c := by
  fun_induction unpackBins n c with
  | case1 c => exact List.suffix_refl c
  | case2 n b rest l c hread ih =>
    rw [hread] at ih
    exact ih.trans (List.suffix_cons _ _)
  | case3 n b rest c hread ih =>
    rw [hread] at ih
    exact ih.trans (List.suffix_cons _ _)
  | case4 n c => exact List.suffix_refl c

/-- Whatever the type that is asked for, what is left behind a value is the end of the cursor. -/
theorem unpackValue_suffix (floatOfInt : FloatOfInt) (t : FieldType) (c : Cursor) :
    (unpackValue floatOfInt t c).2 <:+ c := by
  unfold unpackValue
  split
  case h_8 n rest =>
    have hbins := unpackBins_suffix n rest
    split
    · rename_i hread
      rw [hread] at hbins
      exact hbins.trans (List.suffix_cons _ _)
    · rename_i hread
      rw [hread] at hbins
      exact hbins.trans (List.suffix_cons _ _)
  case h_10 => exact List.suffix_refl c
  all_goals exact List.suffix_cons _ _

theorem skipValue_suffix (c : Cursor) : skipValue c <:+ c := skip_suffix c 1

/-- Where reading goes on behind the value of a registered field, or of none. -/
def afterValue (floatOfInt : FloatOfInt) (f : Option (Field R)) (c : Cursor) : Cursor :=
  f.elim (skipValue c) fun f => (unpackValue floatOfInt f.type c).2

/-- The value of a field, known or not, is passed from the front of the cursor. -/
theorem afterValue_suffix (floatOfInt : FloatOfInt) (f : Option (Field R)) (c : Cursor) :
    afterValue floatOfInt f c <:+ c := by
  cases f with
  | none => exact skipValue_suffix c
  | some f => exact unpackValue_suffix floatOfInt f.type c

/-- An entry of a file is passed by its integer key and the value behind it, read or skipped. -/
theorem workingEntry_snd (d : NamespaceDecl R) (v : Int) (rest : Cursor) (s : NamespaceState) :
    (workingEntry env d (.int v :: rest) s).2 = afterValue env.floatOfInt (d.findField (idOfWire v)) rest := by
  unfold workingEntry afterValue
  dsimp only
  cases d.findField (idOfWire v) with
  | none => rfl
  | some f =>
    dsimp only [Option.elim_some]
    rcases unpackValue env.floatOfInt f.type rest with ⟨value | value, c⟩ <;> rfl

/-- The value of a field in a SetState request is passed like any other, also where it is refused. -/
theorem fieldValue_snd (nsId : NamespaceId) (d : Option (NamespaceDecl R)) (fieldId : FieldId) (c : Cursor)
    (a : SetStateRun R F) :
    (fieldValue env nsId d fieldId c a).2
      = afterValue env.floatOfInt (d.bind fun d => d.findField fieldId) c := by
  unfold fieldValue afterValue
  cases d with
  | none => rfl
  | some d =>
    dsimp only [Option.bind_some]
    cases d.findField fieldId with
    | none => rfl
    | some f =>
      dsimp only [Option.elim_some]
      rcases unpackValue env.floatOfInt f.type c with ⟨value | value, c⟩ <;> rfl

/-- An iteration that reads an integer key, and skips something else. -/
theorem iteration_moves {c stop : Cursor} {n : Nat} (hkey : ∀ v rest, c = .int v :: rest → stop <:+ rest)
    (hother : (∀ v rest, c ≠ .int v :: rest) → stop = skip c (n + 1)) : Call.Moves ⟨c, stop⟩ := by
  by_cases h : ∃ v rest, c = .int v :: rest
  case pos =>
    obtain ⟨v, rest, rfl⟩ := h
    exact Call.moves_of_suffix nofun (hkey v rest rfl)
  case neg =>
    rw [hother fun v rest heq => h ⟨v, rest, heq⟩]
    exact skip_moves c n

/-- No call of the reader that fetches the elements of an array stands still unless the cursor is used up. -/
theorem binCalls_moves (n : Nat) (c : Cursor) : ∀ call ∈ binCalls n c, call.Moves := by
  fun_induction binCalls n c with
  | case1 n b rest ih => exact List.forall_mem_cons.mpr ⟨Call.moves_of_suffix nofun (List.suffix_refl rest), ih⟩
  | case2 => exact fun call hcall => absurd hcall List.not_mem_nil

/-- The calls that read a value of a type each take at least one object off the cursor that is not empty. -/
theorem valueCalls_moves (t : FieldType) (c : Cursor) : ∀ call ∈ valueCalls t c, call.Moves := by
  unfold valueCalls
  split
  · exact binCalls_moves _ _
  · exact fun call hcall => absurd hcall List.not_mem_nil

/-- The calls that pass a value move, whether a field of that id is registered or not. -/
theorem fieldValueCalls_moves (f : Option (Field R)) (c : Cursor) : ∀ call ∈ fieldValueCalls f c, call.Moves := by
  cases f with
  | none => exact skipCalls_moves c 1
  | some f => exact valueCalls_moves f.type c

/-- An entry of a file moves the cursor on. -/
theorem workingEntry_moves (d : NamespaceDecl R) (c : Cursor) (s : NamespaceState) :
    Call.Moves ⟨c, (workingEntry env d c s).2⟩ := by
  apply iteration_moves (n := 1)
  · rintro v rest rfl
    rw [workingEntry_snd]
    exact afterValue_suffix _ _ rest
  · intro hother
    unfold workingEntry
    split
    · exact absurd rfl (hother _ _)
    · rfl

/-- All calls within an entry of a file move. -/
theorem workingCalls_moves (d : NamespaceDecl R) (c : Cursor) (s : NamespaceState) :
    ∀ call ∈ workingCalls env d c s, call.Moves := by
  refine List.forall_mem_cons.mpr ⟨workingEntry_moves d c s, ?_⟩
  split
  · exact fieldValueCalls_moves _ _
  · exact skipCalls_moves _ _

/-- All calls in the reading of a file move, by induction over the entries its header counts. -/
theorem fileCalls_moves (d : NamespaceDecl R) (s : NamespaceState) (c : Cursor) :
    ∀ call ∈ fileCalls env d s c, call.Moves := by
  unfold fileCalls
  split
  · exact forall_traced (workingCalls_moves d) _ _ _
  · exact fun call hcall => absurd hcall List.not_mem_nil

theorem intCalls_moves (c : Cursor) : ∀ call ∈ intCalls c, call.Moves := by
  unfold intCalls
  split
  · exact fun call hcall => absurd hcall List.not_mem_nil
  · exact skipCalls_moves _ _

theorem flagCalls_moves (c : Cursor) : ∀ call ∈ flagCalls c, call.Moves := by
  unfold flagCalls
  split
  · exact fun call hcall => absurd hcall List.not_mem_nil
  · exact skipCalls_moves _ _

/-- An entry of a filter moves the cursor on, whether it is an integer or not. -/
theorem filterEntry_moves (c : Cursor) (filter : List NamespaceId) : Call.Moves ⟨c, (filterEntry c filter).2⟩ := by
  apply iteration_moves (n := 0)
  · rintro v rest rfl
    exact List.suffix_refl rest
  · intro hother
    unfold filterEntry
    split
    · exact absurd rfl (hother _ _)
    · rfl

/-- All calls within an entry of a filter move. -/
theorem filterCalls_moves (c : Cursor) (filter : List NamespaceId) : ∀ call ∈ filterCalls c filter, call.Moves :=
  List.forall_mem_cons.mpr ⟨filterEntry_moves c filter, intCalls_moves c⟩

/-- All calls in the reading of a filter move. -/
theorem readFilterCalls_moves (filter : List NamespaceId) (c : Cursor) :
    ∀ call ∈ readFilterCalls filter c, call.Moves := by
  unfold readFilterCalls
  split
  · exact forall_traced filterCalls_moves _ _ _
  · exact skipCalls_moves _ _

/-- A flag of another type is skipped, so the cursor is behind it either way. -/
theorem readFlag_suffix (flag : Bool) (c : Cursor) : (readFlag flag c).2 <:+ c := by
  unfold readFlag
  split
  · exact List.suffix_cons _ _
  · exact skipValue_suffix _

/-- A hash of another type is skipped, so the cursor is behind it either way. -/
theorem readPriorHash_suffix (o : Options) (c : Cursor) : (readPriorHash o c).2 <:+ c := by
  unfold readPriorHash
  split
  · exact List.suffix_cons _ _
  · exact skipValue_suffix _

/-- What is left behind a filter is the end of the cursor, however many of its entries were read. -/
theorem readFilter_suffix (o : Options) (c : Cursor) : (readFilter o c).2 <:+ c := by
  unfold readFilter
  split
  · exact (times_suffix (fun c filter => (filterEntry_moves c filter).suffix) _ _ _).trans (List.suffix_cons _ _)
  · exact skipValue_suffix _

/-- An entry of an options map moves the cursor on, known or not. -/
theorem optionEntry_moves (known : KnownOptions) (c : Cursor) (o : Options) :
    Call.Moves ⟨c, (optionEntry known c o).2⟩ := by
  apply iteration_moves (n := 0)
  · rintro v rest rfl
    unfold optionEntry readUintKey
    dsimp only
    split
    · exact readFilter_suffix _ _
    split
    · exact readFlag_suffix _ _
    split
    · exact readPriorHash_suffix _ _
    split
    · exact readFlag_suffix _ _
    split
    · exact readFlag_suffix _ _
    · exact skipValue_suffix _
  · intro hother
    unfold optionEntry readUintKey
    cases c with
    | nil => rfl
    | cons t rest =>
      cases t with
      | int v => exact absurd rfl (hother v rest)
      | _ => rfl

/-- All calls within an entry of an options map move. -/
theorem optionCalls_moves (known : KnownOptions) (c : Cursor) (o : Options) :
    ∀ call ∈ optionCalls known c o, call.Moves := by
  refine List.forall_mem_cons.mpr ⟨optionEntry_moves known c o, ?_⟩
  split
  · exact skipCalls_moves _ _
  split
  · exact readFilterCalls_moves _ _
  split
  · exact flagCalls_moves _
  split
  · exact intCalls_moves _
  split
  · exact flagCalls_moves _
  split
  · exact flagCalls_moves _
  · exact skipCalls_moves _ _

/-- All calls in the reading of an options map move, and there are none without a payload. -/
theorem optionsCalls_moves (known : KnownOptions) (payload : Option Cursor) :
    ∀ call ∈ optionsCalls known payload, call.Moves := by
  unfold optionsCalls
  split
  · exact forall_traced (optionCalls_moves known) _ _ _
  · exact skipCalls_moves _ _
  · exact fun call hcall => absurd hcall List.not_mem_nil

/-- What is left behind the value of a field is the end of the cursor, whether the value is staged or refused. -/
theorem fieldValue_suffix (nsId : NamespaceId) (d : Option (NamespaceDecl R)) (fieldId : FieldId) (c : Cursor)
    (a : SetStateRun R F) : (fieldValue env nsId d fieldId c a).2 <:+ c := by
  rw [fieldValue_snd]
  exact afterValue_suffix _ _ c

/-- A field of a SetState request moves the cursor on, also under a key that is no integer. -/
theorem fieldEntry_moves (nsId : NamespaceId) (d : Option (NamespaceDecl R)) (c : Cursor) (a : SetStateRun R F) :
    Call.Moves ⟨c, (fieldEntry env nsId d c a).2⟩ := by
  apply iteration_moves (n := 1)
  · rintro v rest rfl
    exact fieldValue_suffix nsId d (idOfWire v) rest a
  · intro hother
    unfold fieldEntry
    split
    · exact absurd rfl (hother _ _)
    · rfl

/-- All calls within a field of a SetState request move. -/
theorem fieldCalls_moves (nsId : NamespaceId) (d : Option (NamespaceDecl R)) (c : Cursor) (a : SetStateRun R F) :
    ∀ call ∈ fieldCalls env nsId d c a, call.Moves := by
  refine List.forall_mem_cons.mpr ⟨fieldEntry_moves nsId d c a, ?_⟩
  split
  · exact fieldValueCalls_moves _ _
  · exact skipCalls_moves _ _

/-- What is left behind the fields of a namespace is the end of the cursor. -/
theorem namespaceValue_suffix (nsId : NamespaceId) (c : Cursor) (a : SetStateRun R F) :
    (namespaceValue env nsId c a).2 <:+ c := by
  unfold namespaceValue
  dsimp only
  split
  · exact (times_suffix (fun c a => (fieldEntry_moves nsId _ c a).suffix) _ _ _).trans (List.suffix_cons _ _)
  · exact skipValue_suffix _

/-- All calls in the fields of a namespace move, by induction over the entries. -/
theorem namespaceValueCalls_moves (nsId : NamespaceId) (c : Cursor) (a : SetStateRun R F) :
    ∀ call ∈ namespaceValueCalls env nsId c a, call.Moves := by
  unfold namespaceValueCalls
  split
  · exact forall_traced (fieldCalls_moves nsId _) _ _ _
  · exact skipCalls_moves _ _

/-- A namespace of a SetState request moves the cursor on. -/
theorem namespaceEntry_moves (c : Cursor) (a : SetStateRun R F) : Call.Moves ⟨c, (namespaceEntry env c a).2⟩ := by
  apply iteration_moves (n := 1)
  · rintro v rest rfl
    exact namespaceValue_suffix (idOfWire v) rest a
  · intro hother
    unfold namespaceEntry
    split
    · exact absurd rfl (hother _ _)
    · rfl

/-- All calls within a namespace of a SetState request move. -/
theorem namespaceCalls_moves (c : Cursor) (a : SetStateRun R F) : ∀ call ∈ namespaceCalls env c a, call.Moves := by
  refine List.forall_mem_cons.mpr ⟨namespaceEntry_moves c a, ?_⟩
  split
  · exact namespaceValueCalls_moves _ _ _
  · exact skipCalls_moves _ _

/-- What is left behind the `State` map is the end of the cursor. -/
theorem stateValue_suffix (c : Cursor) (a : SetStateRun R F) : (stateValue env c a).2 <:+ c := by
  unfold stateValue
  split
  · exact (times_suffix (fun c a => (namespaceEntry_moves c a).suffix) _ _ _).trans (List.suffix_cons _ _)
  · exact skipValue_suffix _

theorem stateCalls_moves (c : Cursor) (a : SetStateRun R F) : ∀ call ∈ stateCalls env c a, call.Moves := by
  unfold stateCalls
  split
  · exact forall_traced namespaceCalls_moves _ _ _
  · exact skipCalls_moves _ _

/-- An entry of a SetState payload moves the cursor on. -/
theorem setStateEntry_moves (c : Cursor) (a : SetStateRun R F) : Call.Moves ⟨c, (setStateEntry env c a).2⟩ := by
  apply iteration_moves (n := 0)
  · rintro v rest rfl
    unfold setStateEntry readUintKey
    dsimp only
    split
    · exact readFlag_suffix _ _
    split
    · exact readFlag_suffix _ _
    split
    · exact stateValue_suffix _ _
    · exact skipValue_suffix _
  · intro hother
    unfold setStateEntry readUintKey
    cases c with
    | nil => rfl
    | cons t rest =>
      cases t with
      | int v => exact absurd rfl (hother v rest)
      | _ => rfl

/-- All calls within an entry of a SetState payload move. -/
theorem setStateCalls_moves (c : Cursor) (a : SetStateRun R F) : ∀ call ∈ setStateCalls env c a, call.Moves := by
  refine List.forall_mem_cons.mpr ⟨setStateEntry_moves c a, ?_⟩
  split
  · exact skipCalls_moves _ _
  split
  · exact flagCalls_moves _
  split
  · exact flagCalls_moves _
  split
  · exact stateCalls_moves _ _
  · exact skipCalls_moves _ _

/-- All calls that a handler makes on its payload move, whichever operation it is. -/
theorem handlerCalls_moves (p : Provisioner R F) (op : UInt8) (payload : Option Cursor) :
    ∀ call ∈ handlerCalls env p op payload, call.Moves := by
  unfold handlerCalls
  split
  · exact optionsCalls_moves _ _
  split
  · exact optionsCalls_moves _ _
  split
  · unfold setStatePayloadCalls
    split
    · exact forall_traced setStateCalls_moves _ _ _
    · exact fun call hcall => absurd hcall List.not_mem_nil
  split
  · exact optionsCalls_moves _ _
  split
  · unfold discardCalls
    split
    · exact readFilterCalls_moves _ _
    · exact fun call hcall => absurd hcall List.not_mem_nil
  split
  · exact optionsCalls_moves _ _
  · exact fun call hcall => absurd hcall List.not_mem_nil

/-- All calls in the handling of a request move, from its header to the last entry of its payload. -/
theorem requestCalls_moves (p : Provisioner R F) (c : Cursor) : ∀ call ∈ requestCalls env p c, call.Moves := by
  unfold requestCalls
  split
  · split
    · exact fun call hcall => absurd hcall List.not_mem_nil
    · refine List.forall_mem_append.mpr ⟨?_, handlerCalls_moves p _ _⟩
      split
      · exact fun call hcall => absurd hcall List.not_mem_nil
      · exact intCalls_moves _
  · exact fun call hcall => absurd hcall List.not_mem_nil

/-! ## Complete inputs -/

/-- None of the calls is stuck. -/
def Unstuck (calls : List Call) : Prop := ∀ call ∈ calls, ¬ Stuck call.start

theorem unstuck_nil : Unstuck [] := fun _ hcall => absurd hcall List.not_mem_nil

/-- With another object to read behind it a call is not stuck, and neither is a sequence that begins with it. -/
theorem unstuck_cons {c stop : Cursor} {calls : List Call} {n : Nat} (hc : Fed (n + 1) c) (h : Unstuck calls) :
    Unstuck (⟨c, stop⟩ :: calls) := List.forall_mem_cons.mpr ⟨hc.not_stuck, h⟩

/-- A cursor that holds one value more than is needed behind it is passed by one value and no call is stuck. -/
theorem skipValue_fed {m : Nat} {c : Cursor} (h : Fed (m + 1) c) : Fed m (skipValue c) ∧ Unstuck (skipCalls c 1) :=
  ⟨h.skip, (h.mono (Nat.le_add_left 1 m)).skipCalls⟩

/-- The elements of an array are read from a cursor that holds them, and what is needed behind them is still there. -/
theorem unpackBins_fed {n m : Nat} {c : Cursor} (h : Fed (n + m) c) :
    Fed m (unpackBins n c).2 ∧ Unstuck (binCalls n c) := by
  fun_induction unpackBins n c with
  | case1 c => exact ⟨h.mono (Nat.le_add_left m 0), unstuck_nil⟩
  | case2 n b rest l c hread ih =>
    have h : Fed (n + m + 1) (.bin b :: rest) := h.mono (by omega)
    obtain ⟨hnext, hlater⟩ := ih h.behind
    rw [hread] at hnext
    exact ⟨hnext, unstuck_cons h hlater⟩
  | case3 n b rest c hread ih =>
    have h : Fed (n + m + 1) (.bin b :: rest) := h.mono (by omega)
    obtain ⟨hnext, hlater⟩ := ih h.behind
    rw [hread] at hnext
    exact ⟨hnext, unstuck_cons h hlater⟩
  | case4 n c hother =>
    refine ⟨h.mono (by omega), ?_⟩
    unfold binCalls
    split
    · exact absurd rfl (hother _ _)
    · exact unstuck_nil

/-- A value is read from a cursor that holds it, of whatever type it is and whatever type is asked for. -/
theorem unpackValue_fed (floatOfInt : FloatOfInt) (t : FieldType) {m : Nat} {c : Cursor} (h : Fed (m + 1) c) :
    Fed m (unpackValue floatOfInt t c).2 ∧ Unstuck (valueCalls t c) := by
  constructor
  · unfold unpackValue
    split
    case h_8 n rest =>
      have hbins := (unpackBins_fed (n := n) (m := m) h.tail).1
      split
      · rename_i hread
        exact congrArg Prod.snd hread ▸ hbins
      · rename_i hread
        exact congrArg Prod.snd hread ▸ hbins
    case h_10 => exact h.mono (Nat.le_succ m)
    all_goals exact h.behind
  · unfold valueCalls
    split
    · exact (unpackBins_fed (m := m) h.tail).2
    · exact unstuck_nil

/-- The value of a field is passed from a cursor that holds it, and no call in it is stuck. -/
theorem afterValue_fed (floatOfInt : FloatOfInt) (f : Option (Field R)) {m : Nat} {c : Cursor} (h : Fed (m + 1) c) :
    Fed m (afterValue floatOfInt f c) ∧ Unstuck (fieldValueCalls f c) := by
  cases f with
  | none => exact skipValue_fed h
  | some f => exact unpackValue_fed floatOfInt f.type h

/-- An iteration that skips a key that is not an integer, with its value. -/
theorem iteration_fed {m : Nat} {c stop : Cursor} {calls : List Call} (h : Fed (m + 2) c)
    (hkey : ∀ v rest, c = .int v :: rest → Fed (m + 1) rest → Fed m stop ∧ Unstuck calls)
    (hother : (∀ v rest, c ≠ .int v :: rest) → stop = skip c 2 ∧ calls = skipCalls c 2) :
    Fed m stop ∧ Unstuck (⟨c, stop⟩ :: calls) := by
  by_cases hint : ∃ v rest, c = .int v :: rest
  case pos =>
    obtain ⟨v, rest, rfl⟩ := hint
    obtain ⟨hnext, hcalls⟩ := hkey v rest rfl h.behind
    exact ⟨hnext, unstuck_cons h hcalls⟩
  case neg =>
    obtain ⟨rfl, rfl⟩ := hother fun v rest heq => hint ⟨v, rest, heq⟩
    exact ⟨h.skip, unstuck_cons h (h.mono (Nat.le_add_left 2 m)).skipCalls⟩

/-- An entry of a file is a key and a value; both are there to be read. -/
theorem workingEntry_fed (d : NamespaceDecl R) (m : Nat) (c : Cursor) (s : NamespaceState) (h : Fed (m + 2) c) :
    Fed m (workingEntry env d c s).2 ∧ Unstuck (workingCalls env d c s) := by
  apply iteration_fed h
  · rintro v rest rfl hrest
    rw [workingEntry_snd]
    exact afterValue_fed _ _ hrest
  · intro hother
    cases c with
    | nil => exact ⟨rfl, rfl⟩
    | cons t rest =>
      cases t with
      | int v => exact absurd rfl (hother v rest)
      | _ => exact ⟨rfl, rfl⟩

/-- A complete file is read without a call that is stuck. -/
theorem fileCalls_unstuck (d : NamespaceDecl R) (s : NamespaceState) {c : Cursor} (h : Fed 1 c) :
    Unstuck (fileCalls env d s c) := by
  unfold fileCalls
  split
  · exact (Fed.times (m := 0) (workingEntry_fed d) (h.tail.mono (by rw [arity]; omega))).2
  · exact unstuck_nil

theorem intCalls_unstuck {c : Cursor} (h : Fed 1 c) : Unstuck (intCalls c) := by
  unfold intCalls
  split
  · exact unstuck_nil
  · exact h.skipCalls

theorem flagCalls_unstuck {c : Cursor} (h : Fed 1 c) : Unstuck (flagCalls c) := by
  unfold flagCalls
  split
  · exact unstuck_nil
  · exact h.skipCalls

/-- An entry of a filter is one value, which is there to be read. -/
theorem filterEntry_fed (m : Nat) (c : Cursor) (filter : List NamespaceId) (h : Fed (m + 1) c) :
    Fed m (filterEntry c filter).2 ∧ Unstuck (filterCalls c filter) := by
  refine ⟨?_, unstuck_cons h (intCalls_unstuck (h.mono (Nat.le_add_left 1 m)))⟩
  unfold filterEntry
  split
  · exact h.behind
  · exact h.skip

/-- A complete filter is read without a call that is stuck. -/
theorem readFilter_fed {m : Nat} {c : Cursor} (h : Fed (m + 1) c) (o : Options) :
    Fed m (readFilter o c).2 ∧ Unstuck (readFilterCalls o.filter c) := by
  cases c with
  | nil => exact skipValue_fed h
  | cons t rest =>
    cases t with
    | arr n => exact Fed.times (m := m) filterEntry_fed (h.tail.mono (by rw [arity]; omega))
    | _ => exact skipValue_fed h

theorem readFlag_fed {m : Nat} {c : Cursor} (h : Fed (m + 1) c) (flag : Bool) : Fed m (readFlag flag c).2 := by
  unfold readFlag
  split
  · exact h.behind
  · exact h.skip

theorem readPriorHash_fed {m : Nat} {c : Cursor} (h : Fed (m + 1) c) (o : Options) : Fed m (readPriorHash o c).2 := by
  unfold readPriorHash
  split
  · exact h.behind
  · exact h.skip

/-- An entry of an options map is a key and a value; both are there to be read. -/
theorem optionEntry_fed (known : KnownOptions) (m : Nat) (c : Cursor) (o : Options) (h : Fed (m + 2) c) :
    Fed m (optionEntry known c o).2 ∧ Unstuck (optionCalls known c o) := by
  obtain ⟨hskip, hskipCalls⟩ := skipValue_fed (m := m + 1) h
  have hother : Fed m (skipValue c) ∧ Unstuck (⟨c, skipValue c⟩ :: skipCalls c 1) :=
    ⟨hskip.mono (Nat.le_succ m), unstuck_cons h hskipCalls⟩
  cases c with
  | nil => exact hother
  | cons t rest =>
    cases t with
    | int v =>
      have hrest : Fed (m + 1) rest := h.behind
      have hone : Fed 1 rest := hrest.mono (Nat.le_add_left 1 m)
      unfold optionCalls optionEntry readUintKey
      dsimp only
      split_ifs
      · exact ⟨(readFilter_fed hrest o).1, unstuck_cons h (readFilter_fed hrest o).2⟩
      · exact ⟨readFlag_fed hrest _, unstuck_cons h (flagCalls_unstuck hone)⟩
      · exact ⟨readPriorHash_fed hrest o, unstuck_cons h (intCalls_unstuck hone)⟩
      · exact ⟨readFlag_fed hrest _, unstuck_cons h (flagCalls_unstuck hone)⟩
      · exact ⟨readFlag_fed hrest _, unstuck_cons h (flagCalls_unstuck hone)⟩
      · exact ⟨hrest.skip, unstuck_cons h hone.skipCalls⟩
    | _ => exact hother

/-- A complete options map is read without a call that is stuck; a missing one makes no calls. -/
theorem optionsCalls_unstuck (known : KnownOptions) {payload : Option Cursor} (h : ∀ c, payload = some c → Fed 1 c) :
    Unstuck (optionsCalls known payload) := by
  cases payload with
  | none => exact unstuck_nil
  | some c =>
    have hc := h c rfl
    cases c with
    | nil => exact hc.skipCalls
    | cons t rest =>
      cases t with
      | map n => exact (Fed.times (m := 0) (optionEntry_fed known) (hc.tail.mono (by rw [arity]; omega))).2
      | _ => exact hc.skipCalls

/-- A field of a SetState request is a key and a value; both are there to be read. -/
theorem fieldEntry_fed (nsId : NamespaceId) (d : Option (NamespaceDecl R)) (m : Nat) (c : Cursor) (a : SetStateRun R F)
    (h : Fed (m + 2) c) : Fed m (fieldEntry env nsId d c a).2 ∧ Unstuck (fieldCalls env nsId d c a) := by
  apply iteration_fed h
  · rintro v rest rfl hrest
    show Fed m (fieldValue env nsId d (idOfWire v) rest a).2 ∧ _
    rw [fieldValue_snd]
    exact afterValue_fed _ _ hrest
  · intro hother
    cases c with
    | nil => exact ⟨rfl, rfl⟩
    | cons t rest =>
      cases t with
      | int v => exact absurd rfl (hother v rest)
      | _ => exact ⟨rfl, rfl⟩

/-- A namespace of a SetState request is a key and a map; both are there to be read. -/
theorem namespaceEntry_fed (m : Nat) (c : Cursor) (a : SetStateRun R F) (h : Fed (m + 2) c) :
    Fed m (namespaceEntry env c a).2 ∧ Unstuck (namespaceCalls env c a) := by
  apply iteration_fed h
  · rintro v rest rfl hrest
    cases rest with
    | nil => exact skipValue_fed hrest
    | cons t rest =>
      cases t with
      | map n => exact Fed.times (m := m) (fieldEntry_fed _ _) (hrest.tail.mono (by rw [arity]; omega))
      | _ => exact skipValue_fed hrest
  · intro hother
    cases c with
    | nil => exact ⟨rfl, rfl⟩
    | cons t rest =>
      cases t with
      | int v => exact absurd rfl (hother v rest)
      | _ => exact ⟨rfl, rfl⟩

/-- A complete `State` map is read without a call that is stuck. -/
theorem stateValue_fed {m : Nat} {c : Cursor} (h : Fed (m + 1) c) (a : SetStateRun R F) :
    Fed m (stateValue env c a).2 ∧ Unstuck (stateCalls env c a) := by
  cases c with
  | nil => exact skipValue_fed h
  | cons t rest =>
    cases t with
    | map n => exact Fed.times (m := m) namespaceEntry_fed (h.tail.mono (by rw [arity]; omega))
    | _ => exact skipValue_fed h

/-- An entry of a SetState payload is a key and a value; both are there to be read. -/
theorem setStateEntry_fed (m : Nat) (c : Cursor) (a : SetStateRun R F) (h : Fed (m + 2) c) :
    Fed m (setStateEntry env c a).2 ∧ Unstuck (setStateCalls env c a) := by
  obtain ⟨hskip, hskipCalls⟩ := skipValue_fed (m := m + 1) h
  have hother : Fed m (skipValue c) ∧ Unstuck (⟨c, skipValue c⟩ :: skipCalls c 1) :=
    ⟨hskip.mono (Nat.le_succ m), unstuck_cons h hskipCalls⟩
  cases c with
  | nil => exact hother
  | cons t rest =>
    cases t with
    | int v =>
      have hrest : Fed (m + 1) rest := h.behind
      have hone : Fed 1 rest := hrest.mono (Nat.le_add_left 1 m)
      unfold setStateCalls setStateEntry readUintKey
      dsimp only
      split_ifs
      · exact ⟨readFlag_fed hrest _, unstuck_cons h (flagCalls_unstuck hone)⟩
      · exact ⟨readFlag_fed hrest _, unstuck_cons h (flagCalls_unstuck hone)⟩
      · exact ⟨(stateValue_fed hrest a).1, unstuck_cons h (stateValue_fed hrest a).2⟩
      · exact ⟨hrest.skip, unstuck_cons h hone.skipCalls⟩
    | _ => exact hother

/-- A handler whose payload is complete makes no call that is stuck, whichever operation it is. -/
theorem handlerCalls_unstuck (p : Provisioner R F) (op : UInt8) {payload : Option Cursor}
    (h : ∀ c, payload = some c → Fed 1 c) : Unstuck (handlerCalls env p op payload) := by
  unfold handlerCalls
  split
  · exact optionsCalls_unstuck _ h
  split
  · exact optionsCalls_unstuck _ h
  split
  · unfold setStatePayloadCalls
    split
    · exact (Fed.times (m := 0) setStateEntry_fed ((h _ rfl).tail.mono (by rw [arity]; omega))).2
    · exact unstuck_nil
  split
  · exact optionsCalls_unstuck _ h
  split
  · unfold discardCalls
    split
    · exact (readFilter_fed (m := 0) (h _ rfl) {}).2
    · exact unstuck_nil
  split
  · exact optionsCalls_unstuck _ h
  · exact unstuck_nil

/-- The sequence number of a request is one of the values its header counts. -/
theorem readSeq_fed {size m : Nat} {c : Cursor} (hsize : ¬ size < 2) (h : Fed (m + 1) c) :
    Fed m (readSeq size c).2 := by
  unfold readSeq
  rw [if_neg hsize]
  split
  · exact h.behind
  · exact h.skip

/-- A complete request is handled without a call that is stuck. -/
theorem requestCalls_unstuck (p : Provisioner R F) {c : Cursor} (h : Fed 1 c) : Unstuck (requestCalls env p c) := by
  unfold requestCalls
  split
  case h_2 => exact unstuck_nil
  case h_1 size op rest =>
    split
    case isTrue => exact unstuck_nil
    case isFalse hrun =>
      have hsize : 1 ≤ size := by omega
      have hrest : Fed (size - 1) rest := by
        apply Fed.behind (t := .int op)
        exact h.tail.mono (by rw [arity]; omega)
      refine List.forall_mem_append.mpr ⟨?_, handlerCalls_unstuck p _ ?_⟩
      · split
        case isTrue => exact unstuck_nil
        case isFalse hseq => exact intCalls_unstuck (hrest.mono (by omega))
      · intro c hc
        split at hc
        case isFalse => cases hc
        case isTrue hpayload =>
          obtain rfl := Option.some.inj hc
          exact readSeq_fed (by omega) (hrest.mono (by omega))

/-! ## The measure -/

/-- Every call leaves fewer bytes unread. -/
def Decreasing (width : Token → ℕ+) (calls : List Call) : Prop := ∀ call ∈ calls, call.Progresses width

/-- Where all calls move, they use up the cursor step by step exactly if none of them is stuck at its end. -/
theorem decreasing_iff {calls : List Call} (h : ∀ call ∈ calls, call.Moves) (width : Token → ℕ+) :
    Decreasing width calls ↔ Unstuck calls :=
  forall₂_congr fun call hcall => (h call hcall).progresses_iff width

/-- The decoding of a request, and of a settings file, goes on in each of its iterations and calls exactly if none of
them begins at the end of the input or at a type that the reader does not know. -/
theorem progress_iff (width : Token → ℕ+) (env : Env F) (p : Provisioner R F) (d : NamespaceDecl R)
    (s : NamespaceState) (request file : Bytes) :
    Decreasing width (requestCalls env p (env.decode request)) ∧ Decreasing width (fileCalls env d s (env.decode file))
      ↔ Unstuck (requestCalls env p (env.decode request)) ∧ Unstuck (fileCalls env d s (env.decode file)) :=
  and_congr (decreasing_iff (requestCalls_moves p _) width) (decreasing_iff (fileCalls_moves d s _) width)

/-- An input that is what its headers announce, without extension values, is decoded without a call that is stuck. -/
theorem progress_of_complete (width : Token → ℕ+) (p : Provisioner R F) (d : NamespaceDecl R) (s : NamespaceState)
    {o : Object} (h : o.plain = true) (after : Cursor) :
    Decreasing width (requestCalls env p (o.tokens ++ after))
      ∧ Decreasing width (fileCalls env d s (o.tokens ++ after)) := by
  have hfed : Fed 1 (o.tokens ++ after) := by
    refine ⟨[o], after, ?_, ?_, le_refl _⟩
    · simp [Object.itemTokens]
    · simp [Object.plainItems, h]
  exact ⟨(decreasing_iff (requestCalls_moves p _) width).mpr (requestCalls_unstuck p hfed),
    (decreasing_iff (fileCalls_moves d s _) width).mpr (fileCalls_unstuck d s hfed)⟩

/-- A file of a header and a type that is never used: the loop runs as often as the header says, and goes nowhere. -/
theorem header_spins : ¬ ∀ (width : Token → ℕ+) (env : Env Unit) (request file : Bytes),
    Decreasing width (requestCalls env (radio {}) (env.decode request))
      ∧ Decreasing width (fileCalls env radioDecl {} (env.decode file)) := by
  intro h
  obtain ⟨-, hfile⟩ := h (fun _ => 1) { bareEnv with decode := fun _ => [.map 3, .ext] } [] []
  exact lt_irrefl _ (hfile ⟨[.ext], [.ext]⟩ List.mem_cons_self)

end MicroReticulum.Provisioning
