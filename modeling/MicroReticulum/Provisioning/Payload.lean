import MicroReticulum.Provisioning.Dispatch

/-!
# Payloads outside the documented shapes

`Documented` is the shape the client guide gives the payload of each operation: nothing or an options
map, for SetState a map with a `State` map in it, for Discard nothing or a list of namespace ids. The
handlers read their payload in one pass and fall back to defaults where they find something else, so
`MalformedRequest` is answered for SetState only, and there only if no `State` key comes up.

That the operations do the right thing with a documented payload is proved where the
operations are.
-/

namespace MicroReticulum.Provisioning

open MicroReticulum Library

variable {R F : Type}

/-! ## The documented shapes -/

/-- The keys the guide documents for an operation's payload. -/
def documentedKeys (op : UInt8) : List UInt16 :=
  if op = Op.getSchema then [Key.namespaceFilter, Key.reqCompress]
  else if op = Op.getState then [Key.namespaceFilter, Key.draft, Key.priorHash, Key.reqCompress]
  else if op = Op.setState then [Key.state, Key.includeState, Key.reqCompress]
  else if op = Op.commit then [Key.namespaceFilter, Key.includeState, Key.reqCompress]
  else [Key.reqCompress]

/-- An array of namespace ids. -/
def IdList (o : Object) : Prop := ∃ items, o = .arr items ∧ ∀ i ∈ items, ∃ v, i = .int v

/-- The type the guide documents for the value of a key. -/
def KeyShape (key : UInt16) (v : Object) : Prop :=
  if key = Key.namespaceFilter then IdList v
  else if key = Key.priorHash then ∃ i, v = .int i
  else if key = Key.state then ∃ entries, v = .map entries
  else ∃ b, v = .bool b

/-- An entry of a documented payload: an integer key, and a value of the key's type if the operation has
that key. -/
def EntryShape (op : UInt8) (e : Object × Object) : Prop :=
  ∃ k : Int, e.1 = .int k ∧ ∀ key ∈ documentedKeys op, k = key.toNat → KeyShape key e.2

/-- A payload as documented. -/
def Shape (op : UInt8) (o : Object) : Prop :=
  if op = Op.discard then o = .nil ∨ IdList o
  else if op = Op.setState then
    ∃ entries, o = .map entries ∧ (∀ e ∈ entries, EntryShape op e)
      ∧ ∃ v, (.int Key.state.toNat, v) ∈ entries
  else o = .nil ∨ ∃ entries, o = .map entries ∧ ∀ e ∈ entries, EntryShape op e

/-- The message goes on with a complete payload as documented. -/
def Documented (op : UInt8) (c : Cursor) : Prop := ∃ o rest, c = o.tokens ++ rest ∧ Shape op o

/-! ## The scan for the `State` key -/

/-- Where the next entry is read from, up to the first `State` key. -/
def afterOption : Cursor → Cursor
  | .int _ :: rest => skipValue rest
  | c => skipValue c

/-- The next key is a `State` key. -/
def atState : Cursor → Bool
  | .int k :: _ => idOfWire k = Key.state
  | _ => false

/-- The entries of a SetState payload are scanned up to the first `State` key. -/
def seesState : Nat → Cursor → Bool
  | 0, _ => false
  | n + 1, c => atState c || seesState n (afterOption c)

/-- A map in which the scan comes upon a `State` key. -/
def SeesState (c : Cursor) : Prop := ∃ n rest, c = .map n :: rest ∧ seesState n rest = true

/-- A flag is read or skipped, and either way passed. -/
theorem readFlag_snd (flag : Bool) (c : Cursor) : (readFlag flag c).2 = skipValue c := by
  unfold readFlag
  split
  · exact (skip_zero _).symm
  · rfl

/-- Up to the first `State` key nothing but options is read. -/
theorem setStateEntry_of_not_atState (env : Env F) {c : Cursor} (h : atState c = false)
    (a : SetStateRun R F) :
    ∃ b, setStateEntry env c a = (b, afterOption c) ∧ b.p = a.p ∧ b.sawState = a.sawState := by
  cases c with
  | nil => exact ⟨a, rfl, rfl, rfl⟩
  | cons t rest =>
    cases t with
    | int k =>
      have hstate : ¬ idOfWire k = Key.state := of_decide_eq_false h
      simp only [setStateEntry, readUintKey, if_neg hstate]
      split
      · exact ⟨_, Prod.ext rfl (readFlag_snd _ _), rfl, rfl⟩
      · split
        · exact ⟨_, Prod.ext rfl (readFlag_snd _ _), rfl, rfl⟩
        · exact ⟨a, rfl, rfl, rfl⟩
    | _ => exact ⟨a, rfl, rfl, rfl⟩

/-! Below a `State` key no flag changes, and nothing takes back that the key was seen. -/

/-- `IncludeState`, `ReqCompress`, and whether a `State` key was seen. -/
def SetStateRun.flags (a : SetStateRun R F) : Bool × Bool × Bool := (a.includeState, a.compress, a.sawState)

theorem fieldEntry_flags (env : Env F) (nsId : NamespaceId) (d : Option (NamespaceDecl R))
    (c : Cursor) (a : SetStateRun R F) : (fieldEntry env nsId d c a).1.flags = a.flags := by
  unfold fieldEntry fieldValue SetStateRun.stage SetStateRun.error SetStateRun.flags
  grind

theorem namespaceEntry_flags (env : Env F) (c : Cursor) (a : SetStateRun R F) :
    (namespaceEntry env c a).1.flags = a.flags := by
  have htouch : ∀ d : Option (NamespaceDecl R), (a.touch d).flags = a.flags := by
    intro d
    unfold SetStateRun.touch
    split
    · rfl
    · split <;> rfl
  unfold namespaceEntry namespaceValue
  split
  · simp only
    split
    · exact times_keeps (P := fun b : SetStateRun R F => b.flags = a.flags)
        (fun c b hb => (fieldEntry_flags env _ _ c b).trans hb) _ _ _ (htouch _)
    · exact htouch _
  · rfl

theorem setStateEntry_sawState (env : Env F) (c : Cursor) {a : SetStateRun R F}
    (h : a.sawState = true ∨ atState c = true) : (setStateEntry env c a).1.sawState = true := by
  cases hat : atState c with
  | false =>
    obtain ⟨b, hrun, -, hsaw⟩ := setStateEntry_of_not_atState env hat a
    rw [hrun, hsaw]
    exact h.resolve_right (by simp [hat])
  | true =>
    cases c with
    | nil => cases hat
    | cons t rest =>
      cases t with
      | int k =>
        have hstate : idOfWire k = Key.state := of_decide_eq_true hat
        have hrun : setStateEntry env (.int k :: rest) a = stateValue env rest a := by
          simp only [setStateEntry, readUintKey, hstate]
          rfl
        rw [hrun]
        unfold stateValue
        split
        · exact times_keeps (P := fun b : SetStateRun R F => b.sawState = true)
            (fun c b hb => (congrArg (·.2.2) (namespaceEntry_flags env c b)).trans hb) _ _ _ rfl
        · rfl
      | _ => cases hat

/-- A payload in which no `State` key comes up changes nothing. -/
theorem times_of_not_seesState (env : Env F) (n : Nat) (c : Cursor) (a : SetStateRun R F)
    (h : seesState n c = false) :
    (times (setStateEntry env) n c a).1.p = a.p
      ∧ (times (setStateEntry env) n c a).1.sawState = a.sawState := by
  induction n generalizing c a with
  | zero => exact ⟨rfl, rfl⟩
  | succ n ih =>
    obtain ⟨hat, hrest⟩ := Bool.or_eq_false_iff.mp h
    obtain ⟨b, hrun, hp, hsaw⟩ := setStateEntry_of_not_atState env hat a
    simp only [times, hrun]
    obtain ⟨hp', hsaw'⟩ := ih (afterOption c) b hrest
    exact ⟨hp'.trans hp, hsaw'.trans hsaw⟩

theorem times_of_seesState (env : Env F) (n : Nat) (c : Cursor) (a : SetStateRun R F)
    (h : seesState n c = true) : (times (setStateEntry env) n c a).1.sawState = true := by
  induction n generalizing c a with
  | zero => cases h
  | succ n ih =>
    cases hat : atState c with
    | true =>
      exact times_keeps (P := fun b : SetStateRun R F => b.sawState = true)
        (fun c b hb => setStateEntry_sawState env c (.inl hb)) n _ _
        (setStateEntry_sawState env c (.inr hat))
    | false =>
      obtain ⟨b, hrun, -, -⟩ := setStateEntry_of_not_atState env hat a
      simp only [times, hrun]
      refine ih (afterOption c) b ?_
      simpa only [seesState, hat, Bool.false_or] using h

/-! ## When the handlers refuse -/

/-- `handle_message` answers that the request is malformed and leaves everything as it is: drafts,
working values, runtime and storage. -/
def Refused (env : Env F) (p : Provisioner R F) (request : Cursor) (seq : UInt64) : Prop :=
  ∃ msg, handleObjects env request p = (.value (encodeError env seq .malformedRequest msg), p)

theorem opSetState_refuses_iff (env : Env F) (seq : UInt64) (c : Cursor) (p : Provisioner R F) :
    (∃ msg, opSetState env seq (some c) p
        = (.value (encodeError env seq .malformedRequest msg), p)) ↔ ¬ SeesState c := by
  have hother : (∀ n rest, c ≠ .map n :: rest) → opSetState env seq (some c) p
      = (.value (encodeError env seq .malformedRequest "expected map payload"), p) := by
    intro hmap
    cases c with
    | nil => rfl
    | cons t rest =>
      cases t with
      | map n => exact absurd rfl (hmap n rest)
      | _ => rfl
  by_cases hmap : ∃ n rest, c = .map n :: rest
  · obtain ⟨n, rest, rfl⟩ := hmap
    have hrun := opSetState_run env seq p n rest
    simp only [setStateRun] at hrun
    cases hsees : seesState n rest with
    | true =>
      have hsaw := times_of_seesState env n rest { p } hsees
      refine iff_of_false ?_ (not_not_intro ⟨n, rest, rfl, hsees⟩)
      rintro ⟨msg, heq⟩
      rw [hrun] at heq
      simp only [hsaw, if_true] at heq
      exact packResponse_ne_error env (by decide) seq _ _ _ msg
        (Outcome.value.inj (congrArg Prod.fst heq))
    | false =>
      obtain ⟨hp, hsaw⟩ := times_of_not_seesState env n rest { p } hsees
      refine iff_of_true ⟨"missing State key", ?_⟩ ?_
      · rw [hrun]
        simp only [hsaw, hp]
        rfl
      · rintro ⟨m, rest', heq, hsees'⟩
        cases heq
        rw [hsees] at hsees'
        cases hsees'
  · have hne : ∀ n rest, c ≠ .map n :: rest := fun n rest heq => hmap ⟨n, rest, heq⟩
    exact iff_of_true ⟨_, hother hne⟩ fun ⟨n, rest, heq, _⟩ => hne n rest heq

/-- A payload outside the documented shape is refused exactly if the operation is SetState and no
`State` key comes up in it. -/
theorem undocumented_refused_iff (env : Env F) {p : Provisioner R F} (hstarted : p.started = true)
    {op : UInt8} (hop : op ∈ Op.requests) {size : Nat} (hsize : 3 ≤ size) (rest : Cursor) :
    (¬ Documented op (readSeq size rest).2 →
        Refused env p (.arr size :: .int op.toNat :: rest) (readSeq size rest).1)
      ↔ Documented op (readSeq size rest).2
        ∨ op = Op.setState ∧ ¬ SeesState (readSeq size rest).2 := by
  have hcast : narrowOp (wireInt op.toNat) = op := by
    have hlt := op.toNat_lt
    exact (opOfWire_eq_iff _ op).mpr (by omega)
  have hrun := handleObjects_operation env hstarted (show 1 ≤ size by omega) op.toNat rest
  rw [hcast, if_pos hsize] at hrun
  have hrefused : Refused env p (.arr size :: .int op.toNat :: rest) (readSeq size rest).1
      ↔ op = Op.setState ∧ ¬ SeesState (readSeq size rest).2 := by
    unfold Refused
    rw [hrun]
    by_cases hset : op = Op.setState
    · subst hset
      exact (opSetState_refuses_iff env _ _ p).trans (by simp)
    · refine iff_of_false ?_ fun h => hset h.1
      rintro ⟨msg, heq⟩
      rcases dispatch_returns env hop _ _ p _ p heq with ⟨compress, content, hpack⟩ | ⟨hset', -⟩
      · exact packResponse_ne_error env hop _ _ _ _ msg hpack.symm
      · exact hset hset'
  rw [hrefused]
  exact ⟨fun h => or_iff_not_imp_left.mpr h, fun h => or_iff_not_imp_left.mp h⟩

/-- A map that ends before its first entry. -/
theorem undocumented_refused_iff_truncated :
    ¬ Documented Op.setState [.map 1]
      ∧ Refused bareEnv (radio {}) [.arr 3, .int Op.setState.toNat, .int 0, .map 1] 0 := by
  have htruncated : ¬ Documented Op.setState [.map 1] := by
    rintro ⟨o, rest, heq, entries, rfl, -, v, hv⟩
    cases entries with
    | nil => cases hv
    | cons e es =>
      have hlen := congrArg List.length heq
      have hkey := List.length_pos_iff.mpr (tokens_ne_nil e.1)
      simp only [Object.tokens, Object.entryTokens, List.length_cons, List.length_append,
        List.length_nil] at hlen
      omega
  have hscan : ¬ SeesState [.map 1] := by
    rintro ⟨n, rest, heq, hsees⟩
    cases heq
    cases hsees
  exact ⟨htruncated, (undocumented_refused_iff bareEnv rfl (by decide) le_rfl
    [.int 0, .map 1]).mpr (.inr ⟨rfl, hscan⟩) htruncated⟩

/-- A Commit whose payload is a number is no documented request. It commits every draft there is. -/
theorem undocumented_commit_widens :
    ¬ Documented Op.commit [.int 1] ∧
      ¬ Refused bareEnv (radio { draft := (∅ : FieldMap).insert 11 (.int 5) })
        [.arr 3, .int Op.commit.toNat, .int 0, .int 1] 0 := by
  constructor
  · rintro ⟨o, rest, heq, hshape⟩
    have hcases : o = .nil ∨ ∃ entries, o = .map entries ∧ ∀ e ∈ entries, EntryShape Op.commit e :=
      hshape
    rcases hcases with rfl | ⟨entries, rfl, -⟩
    · cases heq
    · cases heq
  · rintro ⟨msg, heq⟩
    have hcommitted : ((handleObjects bareEnv [.arr 3, .int Op.commit.toNat, .int 0, .int 1]
        (radio { draft := (∅ : FieldMap).insert 11 (.int 5) })).2.stateOf 1).workingValue 11
          = .int 5 := rfl
    rw [heq] at hcommitted
    cases hcommitted

end MicroReticulum.Provisioning
