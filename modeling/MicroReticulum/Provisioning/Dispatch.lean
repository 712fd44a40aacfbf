import MicroReticulum.Provisioning.SetState

/-!
# What a wire integer selects

Operations, namespace ids, field ids and payload keys are integers on the wire, and each of them is cast
to the width of its table before it is looked up. `Role` lists the places where that happens; `Exact`
says what a request gets there for an integer that is in no table.

The cast is the only thing that goes wrong, and `dispatch_exact_iff` says for which integers it does.

Nothing is said of who may send a request; this code does not ask.
-/

namespace MicroReticulum.Provisioning

open MicroReticulum Library

variable {R F : Type}

/-! ## Casts -/

theorem idOfWire_eq_iff (k : Int) (id : UInt16) : idOfWire k = id ↔ k % 65536 = id.toNat := by
  rw [← toNat_idOfWire]
  exact ⟨fun h => congrArg (fun i : UInt16 => (i.toNat : Int)) h,
    fun h => UInt16.toNat_inj.mp (Int.ofNat_inj.mp h)⟩

theorem opOfWire_eq_iff (k : Int) (op : UInt8) :
    narrowOp (wireInt k) = op ↔ k % 256 = op.toNat := by
  rw [← toNat_opOfWire]
  exact ⟨fun h => congrArg (fun i : UInt8 => (i.toNat : Int)) h,
    fun h => UInt8.toNat_inj.mp (Int.ofNat_inj.mp h)⟩

/-! ## The places -/

/-- The keys an options map is searched for. -/
def KnownOptions.keys (known : KnownOptions) : List UInt16 :=
  (if known.namespaceFilter then [Key.namespaceFilter] else [])
    ++ (if known.draft then [Key.draft] else [])
    ++ (if known.priorHash then [Key.priorHash] else [])
    ++ (if known.includeState then [Key.includeState] else [])
    ++ [Key.reqCompress]

/-- The keys a SetState payload is searched for. -/
def setStateKeys : List UInt16 := [Key.includeState, Key.reqCompress, Key.state]

/-- The places where a wire integer selects something. -/
inductive Role (R : Type) where
  /-- the operation of the envelope -/
  | operation
  /-- a key of a `State` map -/
  | namespaceId
  /-- a key of the map of a namespace -/
  | fieldId (d : NamespaceDecl R)
  /-- an element of a namespace filter -/
  | filter
  /-- a key of an options map -/
  | optionKey (known : KnownOptions)
  /-- a key of a SetState payload -/
  | setStateKey

namespace Role

/-- The integers that select something in a role. Before `begin` no operation is looked at. -/
def codes (p : Provisioner R F) : Role R → List Nat
  | operation => if p.started then Op.requests.map UInt8.toNat else []
  | namespaceId => p.decls.map fun d => d.id.toNat
  | fieldId d => d.fields.map fun f => f.id.toNat
  | filter => p.decls.map fun d => d.id.toNat
  | optionKey known => known.keys.map UInt16.toNat
  | setStateKey => setStateKeys.map UInt16.toNat

/-- The width a wire integer is cast to. -/
def modulus : Role R → Int
  | operation => 256
  | _ => 65536

end Role

/-- In the given role the wire integer selects nothing unless it is one of the codes itself. -/
def Exact (env : Env F) (p : Provisioner R F) (k : Int) : Role R → Prop
  | .operation => p.started = true → (∀ op ∈ Op.requests, k ≠ op.toNat) →
      ∀ size rest, 1 ≤ size → handleObjects env (.arr size :: .int k :: rest) p
        = (.value (encodeError env (readSeq size rest).1 .unknownOp "unrecognised op id"), p)
  | .namespaceId => (∀ d ∈ p.decls, k ≠ d.id.toNat) →
      ∀ c (a : SetStateRun R F), a.p = p → (namespaceEntry env (.int k :: c) a).1.p = p
        ∧ ∀ e ∈ (namespaceEntry env (.int k :: c) a).1.errors,
          e ∈ a.errors ∨ e.code = .unknownNamespace
  | .fieldId d => (∀ f ∈ d.fields, k ≠ f.id.toNat) →
      ∀ nsId c (a : SetStateRun R F), fieldEntry env nsId (some d) (.int k :: c) a
        = (a.error nsId (idOfWire k) .unknownField, skipValue c)
  | .filter => (∀ d ∈ p.decls, k ≠ d.id.toNat) →
      ∀ c l, named p true (filterEntry (.int k :: c) l).1 = named p true l
        ∧ inScope p { filter := (filterEntry (.int k :: c) l).1, hasFilter := true }
          = inScope p { filter := l, hasFilter := true }
  | .optionKey known => (∀ key ∈ known.keys, k ≠ key.toNat) →
      ∀ c o, optionEntry known (.int k :: c) o = (o, skipValue c)
  | .setStateKey => (∀ key ∈ setStateKeys, k ≠ key.toNat) →
      ∀ c (a : SetStateRun R F), setStateEntry env (.int k :: c) a = (a, skipValue c)

/-! ## Operations -/

/-- A response to an operation is not an error. -/
theorem packResponse_ne_error (env : Env F) {op : UInt8} (hop : op ∈ Op.requests) (seq : UInt64)
    (compress : Bool) (payload : List Token) (code : ErrorCode) (msg : String) :
    packResponse env op seq compress payload ≠ encodeError env seq code msg := by
  intro h
  have hcode := (List.cons.inj (List.cons.inj h).2).1
  have hnat : (op.toNat : Int) = Op.error.toNat := Token.int.inj hcode
  have heq : op = Op.error := UInt8.toNat_inj.mp (Int.ofNat_inj.mp hnat)
  rw [heq] at hop
  exact absurd hop (by decide)

theorem malformed_ne_unknownOp (env : Env F) (seq : UInt64) (msg msg' : String) :
    encodeError env seq .malformedRequest msg ≠ encodeError env seq .unknownOp msg' := by
  intro h
  simp [encodeError, packResponse, num, ErrorCode.code] at h

/-- An answer to the operation, or, for SetState only, that its payload is malformed. -/
def AnswerTo (env : Env F) (op : UInt8) (seq : UInt64) (r : List Token) : Prop :=
  (∃ compress content, r = packResponse env op seq compress content)
    ∨ op = Op.setState ∧ ∃ msg, r = encodeError env seq .malformedRequest msg

/-- What the handler of a defined operation answers, if it answers. -/
theorem dispatch_returns (env : Env F) {op : UInt8} (hop : op ∈ Op.requests) (seq : UInt64)
    (payload : Option Cursor) :
    Prog.Returns (AnswerTo env op seq)
      (dispatch env op seq payload : Prog String (Provisioner R F) (List Token)) := by
  have hpack : ∀ {op : UInt8} (compress : Bool) (content : List Token),
      Prog.Returns (AnswerTo env op seq)
        (pure (packResponse env op seq compress content) :
          Prog String (Provisioner R F) (List Token)) :=
    fun _ _ => Prog.Returns.pure (.inl ⟨_, _, rfl⟩)
  simp only [Op.requests, List.mem_cons, List.not_mem_nil, or_false] at hop
  rcases hop with rfl | rfl | rfl | rfl | rfl | rfl | rfl | rfl | rfl
  · exact Prog.Returns.bind _ fun _ => hpack _ _
  · exact Prog.Returns.bind _ fun _ => hpack _ _
  · exact Prog.Returns.bind _ fun _ => hpack _ _
  · exact Prog.Returns.bind _ fun _ => hpack _ _
  · show Prog.Returns _ (opSetState env seq payload)
    unfold opSetState
    split
    · refine Prog.Returns.bind _ fun _ => Prog.Returns.bind _ fun _ => ?_
      split
      · exact hpack _ _
      · exact Prog.Returns.pure (.inr ⟨rfl, _, rfl⟩)
    · exact Prog.Returns.pure (.inr ⟨rfl, _, rfl⟩)
  · exact Prog.Returns.bind _ fun _ => Prog.Returns.bind _ fun _ => Prog.Returns.bind _ fun _ =>
      Prog.Returns.bind _ fun _ => hpack _ _
  · exact Prog.Returns.bind _ fun _ => Prog.Returns.bind _ fun _ => hpack _ _
  · exact Prog.Returns.bind _ fun _ => Prog.Returns.bind _ fun _ => hpack _ _
  · exact Prog.Returns.bind _ fun _ => Prog.Returns.bind _ fun _ => hpack _ _

/-- No defined operation answers that it is unknown. -/
theorem answer_ne_unknownOp {env : Env F} {op : UInt8} (hop : op ∈ Op.requests) {seq : UInt64}
    {r : List Token} (h : AnswerTo env op seq r) (msg : String) :
    r ≠ encodeError env seq .unknownOp msg := by
  rcases h with ⟨compress, content, rfl⟩ | ⟨-, malformed, rfl⟩
  · exact packResponse_ne_error env hop seq compress content _ _
  · exact malformed_ne_unknownOp env seq malformed msg

/-- Any other operation does nothing else. -/
theorem dispatch_of_not_mem (env : Env F) {op : UInt8} (hop : op ∉ Op.requests) (seq : UInt64)
    (payload : Option Cursor) :
    (dispatch env op seq payload : Prog String (Provisioner R F) (List Token))
      = pure (encodeError env seq .unknownOp "unrecognised op id") := by
  simp only [Op.requests, List.mem_cons, List.not_mem_nil, or_false, not_or] at hop
  obtain ⟨h1, h2, h3, h4, h5, h6, h7, h8, h9⟩ := hop
  unfold dispatch
  rw [if_neg h1, if_neg h2, if_neg h3, if_neg h4, if_neg h5, if_neg h6, if_neg h7, if_neg h8, if_neg h9]

theorem handleObjects_started (env : Env F) {p : Provisioner R F} (hstarted : p.started = true)
    (c : Cursor) : handleObjects env c p = handleStarted env c p := by
  have hopen : ¬ p.started = false := by simp [hstarted]
  unfold handleObjects
  rw [Prog.get_bind_run, if_neg hopen]

/-- A request to a started device, behind its operation. -/
theorem handleObjects_operation (env : Env F) {p : Provisioner R F} (hstarted : p.started = true)
    {size : Nat} (hsize : 1 ≤ size) (k : Int) (rest : Cursor) :
    handleObjects env (.arr size :: .int k :: rest) p
      = dispatch env (narrowOp (wireInt k)) (readSeq size rest).1
        (if 3 ≤ size then some (readSeq size rest).2 else none) p := by
  rw [handleObjects_started env hstarted]
  unfold handleStarted handleEnvelope
  simp only [if_neg (show ¬ size < 1 by omega)]

theorem operation_exact_iff (env : Env F) (p : Provisioner R F) (k : Int) :
    Exact env p k .operation
      ↔ ∀ code ∈ (Role.operation : Role R).codes p, k % 256 = code → k = code := by
  cases hstarted : p.started with
  | false => simp [Exact, Role.codes, hstarted]
  | true =>
    simp only [Exact, Role.codes, hstarted, if_true, forall_const, List.forall_mem_map]
    constructor
    · intro h op hop hmod
      by_contra hne
      have hnone : ∀ op ∈ Op.requests, k ≠ op.toNat := by
        intro other _ heq
        have hsmall := other.toNat_lt
        have hsame : op.toNat = other.toNat := by omega
        exact hne (hsame ▸ heq)
      have hrun := h hnone 1 [] le_rfl
      rw [handleObjects_operation env hstarted le_rfl, (opOfWire_eq_iff k op).mpr hmod] at hrun
      exact answer_ne_unknownOp hop (dispatch_returns env hop _ _ p _ p hrun) _ rfl
    · intro h hnone size rest hsize
      have hop : narrowOp (wireInt k) ∉ Op.requests := fun hmem =>
        hnone _ hmem (h _ hmem ((opOfWire_eq_iff k _).mp rfl))
      rw [handleObjects_operation env hstarted hsize, dispatch_of_not_mem env hop]
      rfl

/-! ### The envelope -/

/-- The operation, the sequence number and the payload of a request that gets to an operation. -/
def readEnvelope (c : Cursor) : Option (UInt8 × UInt64 × Option Cursor) :=
  match c with
  | .arr size :: .int op :: rest =>
    if size < 1 then none
    else some (narrowOp (wireInt op), (readSeq size rest).1,
      if 3 ≤ size then some (readSeq size rest).2 else none)
  | _ => none

theorem handleObjects_of_envelope (env : Env F) {p : Provisioner R F}
    (hstarted : p.started = true) {c : Cursor} {op : UInt8} {seq : UInt64} {payload : Option Cursor}
    (h : readEnvelope c = some (op, seq, payload)) :
    handleObjects env c p = dispatch env op seq payload p := by
  unfold readEnvelope at h
  split at h
  case h_1 size k rest =>
    split at h
    case isTrue => cases h
    case isFalse hsize =>
      cases h
      exact handleObjects_operation env hstarted (by omega) k rest
  case h_2 => cases h

/-- A request that gets to no operation is refused without looking at the device. -/
theorem handleObjects_of_no_envelope {c : Cursor} (h : readEnvelope c = none) :
    ∃ code msg, ∀ (env : Env F) (p : Provisioner R F), p.started = true →
      handleObjects env c p = (.value (encodeError env 0 code msg), p) := by
  cases c with
  | nil => exact ⟨_, _, fun env p hstarted => handleObjects_started env hstarted []⟩
  | cons t rest =>
    cases t with
    | arr size =>
      by_cases hsize : size < 1
      · refine ⟨.malformedRequest, "envelope empty", fun env p hstarted => ?_⟩
        refine (handleObjects_started env hstarted _).trans ?_
        exact congrFun (if_pos hsize) p
      · refine ⟨.malformedRequest, "op id must be uint", fun env p hstarted => ?_⟩
        refine (handleObjects_started env hstarted _).trans ((congrFun (if_neg hsize) p).trans ?_)
        cases rest with
        | nil => rfl
        | cons t rest =>
          cases t with
          | int op => simp [readEnvelope, hsize] at h
          | _ => rfl
    | _ => exact ⟨_, _, fun env p hstarted => handleObjects_started env hstarted _⟩

/-! ## Ids -/

/-- A search by id fails exactly if no element has it. -/
theorem find_none_iff {α : Type} (l : List α) (id : α → UInt16) (k : Int) :
    (l.find? fun x => id x = idOfWire k) = none ↔ ∀ x ∈ l, k % 65536 ≠ (id x).toNat := by
  rw [List.find?_eq_none]
  refine forall₂_congr fun x _ => ?_
  rw [decide_eq_true_iff, eq_comm, idOfWire_eq_iff]

/-- The general shape of exactness: a table without `k` itself has nothing under the cast of `k`. -/
theorem alias_iff {α : Type} (l : List α) (id : α → UInt16) (k : Int) :
    ((∀ x ∈ l, k ≠ (id x).toNat) → (l.find? fun x => id x = idOfWire k) = none)
      ↔ ∀ code ∈ l.map fun x => (id x).toNat, k % 65536 = code → k = code := by
  rw [find_none_iff, List.forall_mem_map]
  constructor
  · intro h x hx hmod
    by_contra hne
    refine h (fun y _ heq => ?_) x hx hmod
    have hsmall := (id y).toNat_lt
    omega
  · intro h hnone x hx hmod
    exact hnone x hx (h x hx hmod)

/-- A value under an unknown namespace costs errors of one kind, wherever its fields are read from. -/
theorem namespaceValue_unknown (env : Env F) {a : SetStateRun R F} {id : NamespaceId}
    (hfind : a.p.find id = none) (c : Cursor) :
    (namespaceValue env id c a).1.p = a.p
      ∧ ∀ e ∈ (namespaceValue env id c a).1.errors, e ∈ a.errors ∨ e.code = .unknownNamespace := by
  have herror : ∀ (fieldId : FieldId) (b : SetStateRun R F),
      (b.p = a.p ∧ ∀ e ∈ b.errors, e ∈ a.errors ∨ e.code = .unknownNamespace) →
      (b.error id fieldId .unknownNamespace).p = a.p
        ∧ ∀ e ∈ (b.error id fieldId .unknownNamespace).errors,
          e ∈ a.errors ∨ e.code = .unknownNamespace := by
    intro fieldId b hb
    refine ⟨hb.1, fun e he => ?_⟩
    rcases List.mem_append.mp he with he | he
    · exact hb.2 e he
    · rw [List.mem_singleton.mp he]
      exact .inr rfl
  have hstart : a.p = a.p ∧ ∀ e ∈ a.errors, e ∈ a.errors ∨ e.code = .unknownNamespace :=
    ⟨rfl, fun _ he => .inl he⟩
  unfold namespaceValue
  simp only [hfind]
  split
  · refine times_keeps (P := fun b : SetStateRun R F => b.p = a.p
      ∧ ∀ e ∈ b.errors, e ∈ a.errors ∨ e.code = .unknownNamespace) (fun c b hb => ?_) _ _ _ hstart
    unfold fieldEntry
    split
    · exact herror _ b hb
    · exact hb
  · exact herror 0 a hstart

theorem namespaceId_exact_iff (env : Env F) (p : Provisioner R F) (k : Int) :
    Exact env p k .namespaceId
      ↔ ∀ code ∈ (Role.namespaceId : Role R).codes p, k % 65536 = code → k = code := by
  refine Iff.trans ?_ (alias_iff p.decls NamespaceDecl.id k)
  refine forall_congr' fun _ => ?_
  constructor
  · intro h
    cases hfind : p.find (idOfWire k) with
    | none => exact hfind
    | some d =>
      -- a value that is not a map tells whether the namespace is known
      have herror : (⟨idOfWire k, 0, .malformedRequest⟩ : FieldError)
          ∈ (namespaceEntry env [.int k] { p }).1.errors := by
        refine List.mem_append_right _ ?_
        rw [hfind]
        exact List.mem_singleton.mpr rfl
      rcases (h [] { p } rfl).2 _ herror with hmem | hcode
      · cases hmem
      · cases hcode
  · rintro hfind c a rfl
    exact namespaceValue_unknown env hfind c

theorem fieldId_exact_iff (env : Env F) (p : Provisioner R F) (d : NamespaceDecl R) (k : Int) :
    Exact env p k (.fieldId d)
      ↔ ∀ code ∈ (Role.fieldId d).codes p, k % 65536 = code → k = code := by
  refine Iff.trans ?_ (alias_iff d.fields Field.id k)
  refine forall_congr' fun _ => ?_
  constructor
  · intro h
    cases hfind : d.findField (idOfWire k) with
    | none => exact hfind
    | some f =>
      -- at the end of the message the value of a known field cannot be decoded
      have hentry := congrArg (fun r => r.1.errors) (h 0 [] { p })
      have hnothing : unpackValue env.floatOfInt f.type [] = (none, []) := by
        cases f.type <;> rfl
      simp [fieldEntry, fieldValue, hfind, hnothing, SetStateRun.error] at hentry
  · intro hfind nsId c a
    have hnone : d.findField (idOfWire k) = none := hfind
    simp only [fieldEntry, fieldValue, hnone]

theorem filter_exact_iff (env : Env F) (p : Provisioner R F) (k : Int) :
    Exact env p k .filter
      ↔ ∀ code ∈ (Role.filter : Role R).codes p, k % 65536 = code → k = code := by
  refine Iff.trans ?_ (alias_iff p.decls NamespaceDecl.id k)
  refine forall_congr' fun _ => ?_
  constructor
  · intro h
    have hnamed : ([] ++ [idOfWire k]).filterMap p.find = [] := (h [] []).1
    rw [List.nil_append, List.filterMap_eq_nil_iff] at hnamed
    exact hnamed _ (List.mem_singleton.mpr rfl)
  · intro hfind c l
    have hnone : p.find (idOfWire k) = none := hfind
    refine ⟨?_, ?_⟩
    · show (l ++ [idOfWire k]).filterMap p.find = l.filterMap p.find
      rw [List.filterMap_append, List.filterMap_cons_none hnone, List.filterMap_nil,
        List.append_nil]
    · refine List.filter_congr fun d hd => ?_
      have hne : d.id ≠ idOfWire k := fun heq =>
        absurd heq (by simpa using List.find?_eq_none.mp hnone d hd)
      show (l ++ [idOfWire k]).contains d.id = l.contains d.id
      simp [hne]

/-! ## Keys -/

/-- A key selects something exactly if it is searched for. -/
theorem key_alias_iff (keys : List UInt16) (k : Int) :
    ((∀ key ∈ keys, k ≠ key.toNat) → idOfWire k ∉ keys)
      ↔ ∀ code ∈ keys.map UInt16.toNat, k % 65536 = code → k = code := by
  refine Iff.trans ?_ (alias_iff keys id k)
  refine forall_congr' fun _ => ?_
  rw [List.find?_eq_none]
  refine ⟨fun h key hkey => ?_, fun h hmem => absurd (h _ hmem) (by simp)⟩
  simp only [id_eq, decide_eq_true_eq]
  exact fun heq => h (heq ▸ hkey)

/-- A key no option has is skipped with its value. -/
theorem optionEntry_unknown {known : KnownOptions} {k : Int} (h : idOfWire k ∉ known.keys)
    (c : Cursor) (o : Options) : optionEntry known (.int k :: c) o = (o, skipValue c) := by
  simp only [KnownOptions.keys, List.mem_append, List.mem_ite_nil_right, List.mem_singleton,
    not_or, not_and] at h
  obtain ⟨⟨⟨⟨hfilter, hdraft⟩, hprior⟩, hinclude⟩, hcompress⟩ := h
  have hunused : ∀ {flag : Bool} {key : UInt16}, (flag = true → ¬ idOfWire k = key) →
      ¬ (flag && idOfWire k = key) = true := by
    intro flag key himp hand
    rw [Bool.and_eq_true, decide_eq_true_iff] at hand
    exact himp hand.1 hand.2
  simp only [optionEntry, readUintKey, if_neg (hunused hfilter), if_neg (hunused hdraft),
    if_neg (hunused hprior), if_neg (hunused hinclude), if_neg hcompress]

/-- A key some option has changes the options, given a fitting value. -/
theorem optionEntry_known {known : KnownOptions} {k : Int} (h : idOfWire k ∈ known.keys) :
    ∃ t, (optionEntry known [.int k, t] {}).1 ≠ {} := by
  simp only [KnownOptions.keys, List.mem_append, List.mem_ite_nil_right, List.mem_singleton] at h
  rcases h with (((⟨hknown, hkey⟩ | ⟨hknown, hkey⟩) | ⟨hknown, hkey⟩) | ⟨hknown, hkey⟩) | hkey
  · refine ⟨.arr 0, fun heq => ?_⟩
    have hflag := congrArg Options.hasFilter heq
    simp [optionEntry, readUintKey, hkey, hknown, readFilter, times] at hflag
  · refine ⟨.bool true, fun heq => ?_⟩
    have hflag := congrArg Options.draft heq
    simp [optionEntry, readUintKey, hkey, hknown, Key.draft, Key.namespaceFilter, readFlag] at hflag
  · refine ⟨.int 0, fun heq => ?_⟩
    have hflag := congrArg Options.priorHash heq
    simp [optionEntry, readUintKey, hkey, hknown, Key.priorHash, Key.draft, Key.namespaceFilter,
      readPriorHash] at hflag
  · refine ⟨.bool true, fun heq => ?_⟩
    have hflag := congrArg Options.includeState heq
    simp [optionEntry, readUintKey, hkey, hknown, Key.includeState, Key.priorHash, Key.draft,
      Key.namespaceFilter, readFlag] at hflag
  · refine ⟨.bool true, fun heq => ?_⟩
    have hflag := congrArg Options.compress heq
    simp [optionEntry, readUintKey, hkey, Key.reqCompress, Key.includeState, Key.priorHash,
      Key.draft, Key.namespaceFilter, readFlag] at hflag

theorem optionKey_exact_iff (env : Env F) (p : Provisioner R F) (known : KnownOptions) (k : Int) :
    Exact env p k (.optionKey known)
      ↔ ∀ code ∈ (Role.optionKey known : Role R).codes p, k % 65536 = code → k = code := by
  refine Iff.trans ?_ (key_alias_iff known.keys k)
  refine forall_congr' fun _ => ?_
  constructor
  · intro h hmem
    obtain ⟨t, ht⟩ := optionEntry_known hmem
    exact ht (congrArg Prod.fst (h [t] {}))
  · exact fun hmem c o => optionEntry_unknown hmem c o

theorem setStateKey_exact_iff (env : Env F) (p : Provisioner R F) (k : Int) :
    Exact env p k .setStateKey
      ↔ ∀ code ∈ (Role.setStateKey : Role R).codes p, k % 65536 = code → k = code := by
  refine Iff.trans ?_ (key_alias_iff setStateKeys k)
  refine forall_congr' fun _ => ?_
  simp only [setStateKeys, List.mem_cons, List.not_mem_nil, or_false, not_or]
  constructor
  · intro h
    refine ⟨fun hkey => ?_, fun hkey => ?_, fun hkey => ?_⟩
    · have hflag := congrArg (fun r => r.1.includeState) (h [.bool true] { p })
      simp [setStateEntry, readUintKey, hkey, readFlag] at hflag
    · have hflag := congrArg (fun r => r.1.compress) (h [.bool true] { p })
      simp [setStateEntry, readUintKey, hkey, readFlag, Key.reqCompress, Key.includeState] at hflag
    · have hflag := congrArg (fun r => r.1.sawState) (h [] { p })
      simp [setStateEntry, readUintKey, hkey, stateValue, Key.state, Key.reqCompress,
        Key.includeState] at hflag
  · rintro ⟨hinclude, hcompress, hstate⟩ c a
    simp only [setStateEntry, readUintKey, if_neg hinclude, if_neg hcompress, if_neg hstate]

/-! ## Every role -/

/-- A wire integer selects nothing but its own code exactly if no code is congruent to it modulo the
width of the cast. -/
theorem dispatch_exact_iff (env : Env F) (p : Provisioner R F) (role : Role R) (k : Int) :
    Exact env p k role ↔ ∀ code ∈ role.codes p, k % role.modulus = code → k = code := by
  cases role with
  | operation => exact operation_exact_iff env p k
  | namespaceId => exact namespaceId_exact_iff env p k
  | fieldId d => exact fieldId_exact_iff env p d k
  | filter => exact filter_exact_iff env p k
  | optionKey known => exact optionKey_exact_iff env p known k
  | setStateKey => exact setStateKey_exact_iff env p k

/-- Operation 264 is not defined; it resets the device. -/
theorem undefined_operation_resets :
    ¬ Exact bareEnv (radio {}) 264 (.operation : Role Unit) := by
  intro h
  have hundefined : ∀ op ∈ Op.requests, (264 : Int) ≠ op.toNat := by
    intro op _
    have hlt := op.toNat_lt
    omega
  have hrun := h rfl hundefined 1 [] le_rfl
  have hreset : ((handleObjects bareEnv [.arr 1, .int 264] (radio {})).2.stateOf 1).workingValue 11
      = .int 0 := rfl
  rw [hrun] at hreset
  cases hreset

end MicroReticulum.Provisioning
