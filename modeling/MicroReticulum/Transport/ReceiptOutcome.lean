import Mathlib.Data.List.Induction
import MicroReticulum.Link.Endpoint
import MicroReticulum.Transport.Receipts

/-!
# The outcome of a packet receipt

A receipt is concluded by a proof, by its timeout, by being culled, or by the response to the request its packet
carried. `ReceiptOp` is each of these for one receipt, whoever holds it; `Follows` says that the loops of `Transport`
do nothing else to any of the receipts.

Only the timeout looks whether the receipt is still waiting. A proof that is valid delivers a receipt that has failed
before, and a response delivers one that was delivered by the progress of the same response.
`oneOutcome_iff` says in which runs no receipt is concluded twice.

When the timeout is checked is up to the jobs, so no time is promised by which an outcome is
told.
-/

namespace MicroReticulum.Transport

open MicroReticulum Packet Link Library

/-- A receipt, and the status of the `RequestReceipt` that refers to it, if there is one. -/
structure HeldReceipt where
  receipt : Receipt
  request : Option Link.ReceiptStatus := none

section

variable (now : ℚ)

/-- The delivery by a response calls the callback only, and not the handler. -/
def deliverByResponse : Prog Fault (Logged HeldReceipt ReceiptEvent) Unit := do
  Logged.lift (Prog.modify fun s => { s with receipt := s.receipt.delivered now })
  let s ← Prog.get
  Prog.when s.state.receipt.deliveryCallback (Logged.note .delivered)

/-- The part of `RequestReceipt::response_resource_progress` that concerns the packet receipt. -/
def responseResourceProgress : Prog Fault (Logged HeldReceipt ReceiptEvent) Unit := do
  let s ← Prog.get
  Prog.when (s.state.request.isSome ∧ s.state.request ≠ some .failed) do
    Logged.lift (Prog.modify fun s => { s with request := some .receiving })
    Prog.when (s.state.receipt.status ≠ .delivered) (deliverByResponse now)

/-- The part of `RequestReceipt::response_received` that concerns the packet receipt. -/
def responseReceived : Prog Fault (Logged HeldReceipt ReceiptEvent) Unit := do
  let s ← Prog.get
  Prog.when (s.state.request.isSome ∧ s.state.request ≠ some .failed) do
    Logged.lift (Prog.modify fun s => { s with request := some .ready })
    deliverByResponse now

end

/-- What the receipt has become, and what it was seen to do. -/
def HeldReceipt.put (t : Logged Receipt ReceiptEvent) (s : Logged HeldReceipt ReceiptEvent) :
    Logged HeldReceipt ReceiptEvent where
  state := { s.state with receipt := t.state }
  log := s.log ++ t.log

/-- Run what the receipt does by itself. -/
def onHeld {α : Type} (m : Prog Fault (Logged Receipt ReceiptEvent) α) :
    Prog Fault (Logged HeldReceipt ReceiptEvent) α :=
  Prog.zoom (fun s => { state := s.state.receipt }) HeldReceipt.put m

/-- What happens to a receipt. -/
inductive ReceiptOp where
  | setTimeout (timeout : Int16)
  | setDeliveryHandler (given : Bool)
  | setDeliveryCallback (given : Bool)
  | setTimeoutHandler (handler : TimeoutHandler)
  | checkTimeout (now : ℚ)
  | cull (now : ℚ)
  | proof (now : ℚ) (p : Packet) (link : Option LinkState)
  | responseResourceProgress (now : ℚ)
  | responseReceived (now : ℚ)
  /-- what else the status of a request becomes -/
  | request (status : Option Link.ReceiptStatus)

variable (verify : Bytes → Bytes → Bytes → Bool)

def ReceiptOp.step (s : Logged HeldReceipt ReceiptEvent) : ReceiptOp → Logged HeldReceipt ReceiptEvent
  | .setTimeout timeout => (onHeld (Transport.setTimeout timeout) s).2
  | .setDeliveryHandler given => HeldReceipt.put ⟨{ s.state.receipt with deliveryHandler := given }, []⟩ s
  | .setDeliveryCallback given => HeldReceipt.put ⟨{ s.state.receipt with deliveryCallback := given }, []⟩ s
  | .setTimeoutHandler handler => HeldReceipt.put ⟨{ s.state.receipt with timeoutHandler := handler }, []⟩ s
  | .checkTimeout now => (onHeld (Transport.checkTimeout now) s).2
  | .cull now => (onHeld (do Transport.setTimeout (-1); Transport.checkTimeout now) s).2
  | .proof now p link => (onHeld (validateProofPacket verify now p link) s).2
  | .responseResourceProgress now => (Transport.responseResourceProgress now s).2
  | .responseReceived now => (Transport.responseReceived now s).2
  | .request status => { s with state := { s.state with request := status } }

/-- The state behind a run. -/
def receiptRun (s : Logged HeldReceipt ReceiptEvent) (ops : List ReceiptOp) : Logged HeldReceipt ReceiptEvent :=
  ops.foldl (ReceiptOp.step verify) s

/-- The callbacks that were called. -/
def calls (s : Logged HeldReceipt ReceiptEvent) : List ReceiptEvent :=
  s.log.filter fun e => e = .delivered ∨ e = .timedOut

/-- The outcome is final. -/
def Stands (s t : Logged HeldReceipt ReceiptEvent) : Prop :=
  s.state.receipt.status ≠ .sent → t.state.receipt.status = s.state.receipt.status

/-- The calls of a receipt that is delivered by a response. -/
def Receipt.responseCalls (r : Receipt) : List ReceiptEvent := if r.deliveryCallback then [.delivered] else []

/-- The step delivers the receipt, and makes these calls. -/
inductive ReceiptOp.Delivers : HeldReceipt → ReceiptOp → List ReceiptEvent → Prop
  | proof (s : HeldReceipt) (now : ℚ) (p : Packet) (h : s.receipt.ProvenBy verify p.data) :
    Delivers s (.proof now p none) s.receipt.deliveryCalls
  | responseResourceProgress (s : HeldReceipt) (now : ℚ) (h : s.request.isSome ∧ s.request ≠ some .failed)
    (hnew : s.receipt.status ≠ .delivered) : Delivers s (.responseResourceProgress now) s.receipt.responseCalls
  | responseReceived (s : HeldReceipt) (now : ℚ) (h : s.request.isSome ∧ s.request ≠ some .failed) :
    Delivers s (.responseReceived now) s.receipt.responseCalls

/-- A step that delivers comes to a receipt that waits, or to one that was delivered and has nobody to call again. -/
def ReceiptOp.Meets (s : Logged HeldReceipt ReceiptEvent) (op : ReceiptOp) : Prop :=
  ∀ called, op.Delivers verify s.state called → s.state.receipt.status = .sent
    ∨ s.state.receipt.status = .delivered ∧ (called = [] ∨ calls s = [])

/-! ## What a step does -/

/-- The three things a step may do to the outcome. -/
inductive OutcomeStep (s : Logged HeldReceipt ReceiptEvent) (op : ReceiptOp) (t : Logged HeldReceipt ReceiptEvent) :
    Prop
  | keeps (hstatus : t.state.receipt.status = s.state.receipt.status) (hcalls : calls t = calls s)
    (h : ∀ called, ¬ op.Delivers verify s.state called)
  | expires (hsent : s.state.receipt.status = .sent) (hstatus : t.state.receipt.status ≠ .sent)
    (called : List ReceiptEvent) (hcalls : calls t = calls s ++ called) (hlength : called.length ≤ 1)
    (h : ∀ called, ¬ op.Delivers verify s.state called)
  | delivers (called : List ReceiptEvent) (h : op.Delivers verify s.state called)
    (hstatus : t.state.receipt.status = .delivered) (hcalls : calls t = calls s ++ called)

variable {verify} {now : ℚ} {s t : Logged HeldReceipt ReceiptEvent}

/-- The outcomes called so far, after an operation on one receipt. -/
theorem calls_put (t : Logged Receipt ReceiptEvent) (s : Logged HeldReceipt ReceiptEvent) :
    calls (HeldReceipt.put t s) = calls s ++ t.log.filter fun e => e = .delivered ∨ e = .timedOut :=
  List.filter_append _ _

theorem deliveryCalls_filter (r : Receipt) :
    r.deliveryCalls.filter (fun e => e = .delivered ∨ e = .timedOut) = r.deliveryCalls := by
  unfold Receipt.deliveryCalls
  split <;> rfl

theorem Delivers.length_le {op : ReceiptOp} {called : List ReceiptEvent} {s : HeldReceipt}
    (h : op.Delivers verify s called) : called.length ≤ 1 := by
  cases h with
  | proof =>
    unfold Receipt.deliveryCalls
    split <;> simp
  | responseResourceProgress =>
    unfold Receipt.responseCalls
    split <;> simp
  | responseReceived =>
    unfold Receipt.responseCalls
    split <;> simp

/-- What `check_timeout` does to a receipt. -/
theorem checkTimeout_cases (now : ℚ) (r : Receipt) :
    (checkTimeout now ⟨r, []⟩).2 = ⟨r, []⟩
      ∨ r.status = .sent ∧ ∃ log, (checkTimeout now ⟨r, []⟩).2 = ⟨r.expired now, log⟩ ∧ (log = [] ∨ log = [.timedOut]) := by
  unfold checkTimeout Prog.when
  rw [Prog.get_bind_run]
  split
  · next h =>
    refine .inr ⟨h.1, ?_⟩
    by_cases hhandler : r.timeoutHandler = .none
    · exact ⟨[], by simp [Prog.bind_run, Logged.lift, Prog.zoom, hhandler], .inl rfl⟩
    · exact ⟨[.timedOut], by simp [Prog.bind_run, Logged.lift, Logged.note, Prog.zoom, hhandler], .inr rfl⟩
  · exact .inl rfl

theorem expired_status (now : ℚ) (r : Receipt) : (r.expired now).status ≠ .sent := by
  unfold Receipt.expired
  dsimp only
  split <;> exact fun h => ReceiptStatus.noConfusion h

/-- A response concludes its receipt as delivered, whatever it was before. -/
theorem deliverByResponse_run (now : ℚ) (s : Logged HeldReceipt ReceiptEvent) :
    deliverByResponse now s = (.value (),
      ⟨{ s.state with receipt := s.state.receipt.delivered now }, s.log ++ s.state.receipt.responseCalls⟩) := by
  have hrun : deliverByResponse now s = Prog.when s.state.receipt.deliveryCallback (Logged.note .delivered)
      ⟨{ s.state with receipt := s.state.receipt.delivered now }, s.log⟩ := rfl
  rw [hrun]
  unfold Prog.when Receipt.responseCalls
  split
  · rfl
  · rw [List.append_nil]
    rfl

theorem responseCalls_filter (r : Receipt) :
    r.responseCalls.filter (fun e => e = .delivered ∨ e = .timedOut) = r.responseCalls := by
  unfold Receipt.responseCalls
  split <;> rfl

/-- Checking the timeout is a step of the outcome. -/
theorem checkTimeout_outcome (now : ℚ) (s : Logged HeldReceipt ReceiptEvent) (op : ReceiptOp) (r : Receipt)
    (hstatus : r.status = s.state.receipt.status) (h : ∀ called, ¬ op.Delivers verify s.state called) :
    OutcomeStep verify s op (HeldReceipt.put (checkTimeout now ⟨r, []⟩).2 s) := by
  rcases checkTimeout_cases now r with hrun | ⟨hsent, log, hrun, hlog⟩
  · rw [hrun]
    exact .keeps hstatus ((calls_put _ s).trans (List.append_nil _)) h
  · rw [hrun]
    refine .expires (hstatus.symm.trans hsent) (expired_status now _) log ?_ ?_ h
    · rw [calls_put]
      rcases hlog with rfl | rfl <;> rfl
    · rcases hlog with rfl | rfl <;> simp

/-- A proof that comes in is a step of the outcome. -/
theorem proof_outcome (now : ℚ) (p : Packet) (link : Option LinkState) (s : Logged HeldReceipt ReceiptEvent) :
    OutcomeStep verify s (.proof now p link) (ReceiptOp.step verify s (.proof now p link)) := by
  cases link with
  | some link =>
    have hrun : ReceiptOp.step verify s (.proof now p (some link))
        = HeldReceipt.put (validateLinkProof now p.data link ⟨s.state.receipt, []⟩).2 s := rfl
    rw [hrun, validateLinkProof_run]
    exact .keeps rfl ((calls_put _ s).trans (List.append_nil _)) fun _ h => by cases h
  | none =>
    have hrun : ReceiptOp.step verify s (.proof now p none)
        = HeldReceipt.put (validateProof verify now p.data ⟨s.state.receipt, []⟩).2 s := rfl
    have hjudged := validateProof_judged verify now s.state.receipt p.data
    rw [hrun]
    rcases hproof : validateProof verify now p.data ⟨s.state.receipt, []⟩ with ⟨o, t⟩
    rw [hproof] at hjudged
    dsimp only at hjudged ⊢
    cases hjudged with
    | skips h =>
      refine .keeps rfl ((calls_put _ s).trans (List.append_nil _)) fun called hdelivers => ?_
      cases hdelivers with
      | proof _ _ hproven => exact h hproven.1
    | keyless _ hkey fault =>
      refine .keeps rfl ((calls_put _ s).trans (List.append_nil _)) fun called hdelivers => ?_
      cases hdelivers with
      | proof _ _ hproven =>
        obtain ⟨-, key, hkey', -⟩ := hproven
        rw [hkey] at hkey'
        cases hkey'
    | refuted key hkey hinvalid =>
      refine .keeps rfl ((calls_put _ s).trans (List.append_nil _)) fun called hdelivers => ?_
      cases hdelivers with
      | proof _ _ hproven =>
        obtain ⟨-, key', hkey', hvalid⟩ := hproven
        rw [hkey] at hkey'
        cases hkey'
        rw [hinvalid] at hvalid
        cases hvalid
    | proven key h =>
      refine .delivers _ (.proof s.state now p h) rfl ?_
      rw [calls_put]
      exact congrArg _ (deliveryCalls_filter _)

/-- A receipt that only learns something else. -/
theorem put_outcome (r : Receipt) (s : Logged HeldReceipt ReceiptEvent) (op : ReceiptOp)
    (hstatus : r.status = s.state.receipt.status) (h : ∀ called, ¬ op.Delivers verify s.state called) :
    OutcomeStep verify s op (HeldReceipt.put ⟨r, []⟩ s) :=
  .keeps hstatus ((calls_put _ s).trans (List.append_nil _)) h

/-- Every operation on a receipt is a step of its outcome. -/
theorem step_outcome (s : Logged HeldReceipt ReceiptEvent) (op : ReceiptOp) :
    OutcomeStep verify s op (op.step verify s) := by
  cases op with
  | setTimeout timeout => exact put_outcome _ s _ rfl fun _ h => by cases h
  | setDeliveryHandler given => exact put_outcome _ s _ rfl fun _ h => by cases h
  | setDeliveryCallback given => exact put_outcome _ s _ rfl fun _ h => by cases h
  | setTimeoutHandler handler => exact put_outcome _ s _ rfl fun _ h => by cases h
  | checkTimeout now => exact checkTimeout_outcome now s _ s.state.receipt rfl fun _ h => by cases h
  | cull now =>
    exact checkTimeout_outcome now s _ { s.state.receipt with timeout := (-1 : Int16).toInt } rfl fun _ h => by cases h
  | proof now p link => exact proof_outcome now p link s
  | request status => exact .keeps rfl rfl fun _ h => by cases h
  | responseReceived now =>
    have hrun : ReceiptOp.step verify s (.responseReceived now) = (responseReceived now s).2 := rfl
    rw [hrun]
    unfold responseReceived Prog.when
    rw [Prog.get_bind_run]
    split
    · next h =>
      change OutcomeStep verify s _ (deliverByResponse now ⟨{ s.state with request := some .ready }, s.log⟩).2
      rw [deliverByResponse_run]
      refine .delivers _ (.responseReceived s.state now h) rfl ?_
      exact (List.filter_append _ _).trans (congrArg _ (responseCalls_filter _))
    · next h =>
      refine .keeps rfl rfl fun called hdelivers => ?_
      cases hdelivers with
      | responseReceived _ h' => exact h h'
  | responseResourceProgress now =>
    have hrun : ReceiptOp.step verify s (.responseResourceProgress now) = (responseResourceProgress now s).2 := rfl
    rw [hrun]
    unfold responseResourceProgress Prog.when
    rw [Prog.get_bind_run]
    split
    · next h =>
      by_cases hnew : s.state.receipt.status = .delivered
      · rw [if_neg (fun hne => hne hnew)]
        refine .keeps rfl rfl fun called hdelivers => ?_
        cases hdelivers with
        | responseResourceProgress _ _ hnew' => exact hnew' hnew
      · rw [if_pos hnew]
        change OutcomeStep verify s _ (deliverByResponse now ⟨{ s.state with request := some .receiving }, s.log⟩).2
        rw [deliverByResponse_run]
        refine .delivers _ (.responseResourceProgress s.state now h hnew) rfl ?_
        exact (List.filter_append _ _).trans (congrArg _ (responseCalls_filter _))
    · next h =>
      refine .keeps rfl rfl fun called hdelivers => ?_
      cases hdelivers with
      | responseResourceProgress _ h' => exact h h'

/-! ## Runs -/

/-- What is known of a receipt that has had one outcome at most. -/
def Single (s : Logged HeldReceipt ReceiptEvent) : Prop :=
  (s.state.receipt.status = .sent → calls s = []) ∧ (calls s).length ≤ 1

/-- A step that meets its condition leaves an outcome as it is, and calls nobody a second time. -/
theorem OutcomeStep.single {op : ReceiptOp} (h : OutcomeStep verify s op t) (hs : Single s) (hmeets : op.Meets verify s) :
    Stands s t ∧ Single t := by
  obtain ⟨hsent, hone⟩ := hs
  cases h with
  | keeps hstatus hcalls =>
    unfold Single
    rw [hstatus, hcalls]
    exact ⟨fun _ => hstatus, hsent, hone⟩
  | expires hwas hstatus called hcalls hlength =>
    rw [hsent hwas, List.nil_append] at hcalls
    exact ⟨fun h => absurd hwas h, fun h => absurd h hstatus, by rw [hcalls]; exact hlength⟩
  | delivers called hdelivers hstatus hcalls =>
    have hdelivered : t.state.receipt.status ≠ .sent := by
      rw [hstatus]
      exact fun h => ReceiptStatus.noConfusion h
    have hlength := Delivers.length_le hdelivers
    rcases hmeets called hdelivers with hwas | ⟨hwas, hnobody⟩
    · rw [hsent hwas, List.nil_append] at hcalls
      exact ⟨fun h => absurd hwas h, fun h => absurd h hdelivered, by rw [hcalls]; exact hlength⟩
    · refine ⟨fun _ => hstatus.trans hwas.symm, fun h => absurd h hdelivered, ?_⟩
      rw [hcalls]
      rcases hnobody with hnobody | hnobody
      · rw [hnobody, List.append_nil]
        exact hone
      · rw [hnobody, List.nil_append]
        exact hlength

/-- And only such a step does. -/
theorem OutcomeStep.meets {op : ReceiptOp} (h : OutcomeStep verify s op t) (hstands : Stands s t)
    (hone : (calls t).length ≤ 1) : op.Meets verify s := by
  intro called hdelivers
  by_cases hsent : s.state.receipt.status = .sent
  · exact .inl hsent
  have hstatus := hstands hsent
  cases h with
  | keeps _ _ hnot => exact absurd hdelivers (hnot called)
  | expires _ _ _ _ _ hnot => exact absurd hdelivers (hnot called)
  | delivers called' hdelivers' hdelivered hcalls =>
    obtain rfl : called' = called := by
      cases hdelivers <;> cases hdelivers' <;> rfl
    refine .inr ⟨hstatus.symm.trans hdelivered, ?_⟩
    rw [hcalls, List.length_append] at hone
    rcases called' with _ | ⟨e, rest⟩
    · exact .inl rfl
    · right
      rw [List.length_cons] at hone
      exact List.length_eq_zero_iff.mp (by omega)

theorem receiptRun_append (s : Logged HeldReceipt ReceiptEvent) (ops : List ReceiptOp) (op : ReceiptOp) :
    receiptRun verify s (ops ++ [op]) = op.step verify (receiptRun verify s ops) := List.foldl_concat _ _ _ _

/-- After each step of a run the outcome the receipt had before is still its outcome, and one callback at most has
been called. -/
def OneOutcome (verify : Bytes → Bytes → Bytes → Bool) (s : Logged HeldReceipt ReceiptEvent) (run : List ReceiptOp) :
    Prop :=
  ∀ ops op, ops ++ [op] <+: run → Stands (receiptRun verify s ops) (receiptRun verify s (ops ++ [op]))
    ∧ (calls (receiptRun verify s (ops ++ [op]))).length ≤ 1

/-- A receipt that has called nobody yet has one outcome in exactly the runs whose steps meet their condition. -/
theorem oneOutcome_iff (verify : Bytes → Bytes → Bytes → Bool) (r : HeldReceipt) (run : List ReceiptOp) :
    OneOutcome verify ⟨r, []⟩ run
      ↔ ∀ ops op, ops ++ [op] <+: run → op.Meets verify (receiptRun verify ⟨r, []⟩ ops) := by
  constructor
  · intro hone ops op hrun
    obtain ⟨hstands, hcalls⟩ := hone ops op hrun
    rw [receiptRun_append] at hstands hcalls
    exact (step_outcome _ op).meets hstands hcalls
  · intro hmeets
    have hsingle : ∀ ops, ops <+: run → Single (receiptRun verify ⟨r, []⟩ ops) := by
      intro ops
      induction ops using List.reverseRecOn with
      | nil => exact fun _ => ⟨fun _ => rfl, Nat.zero_le _⟩
      | append_singleton ops op ih =>
        intro hrun
        rw [receiptRun_append]
        exact ((step_outcome _ op).single (ih ((List.prefix_append ops [op]).trans hrun)) (hmeets ops op hrun)).2
    intro ops op hrun
    rw [receiptRun_append]
    have hstep := (step_outcome (receiptRun verify ⟨r, []⟩ ops) op).single
      (hsingle ops ((List.prefix_append ops [op]).trans hrun)) (hmeets ops op hrun)
    exact ⟨hstep.1, hstep.2.2⟩

namespace Sample

/-- A receipt with a key to check proofs with. -/
def singleReceipt : HeldReceipt where
  receipt := { linkReceipt with destination := { type := .single, hash := .fill 7, identity := some (some [1]) } }

end Sample

/-- A valid proof comes when the receipt has failed. -/
theorem failed_receipt_delivered :
    ¬ ∀ (verify : Bytes → Bytes → Bytes → Bool) (r : HeldReceipt), r.receipt.status = .sent →
      ∀ run, OneOutcome verify ⟨r, []⟩ run := by
  intro h
  have hone := h (fun _ _ _ => true) Sample.singleReceipt rfl
    [.setTimeout 1, .checkTimeout 5, .proof 6 { Sample.packetProof with destinationType := .single } none]
    [.setTimeout 1, .checkTimeout 5] _ (List.prefix_refl _)
  have hstands := hone.1 (by decide +kernel)
  revert hstands
  decide +kernel

/-! ## What the loops of `Transport` do to a receipt -/

/-- One of all receipts. -/
def held (r : Nat) (s : Logged Receipts (Nat × ReceiptEvent)) : Logged HeldReceipt ReceiptEvent :=
  ⟨{ receipt := s.state.objects r }, (s.log.filter fun e => e.1 = r).map Prod.snd⟩

/-- What happened to any receipt is a run of operations of some kind. -/
def Follows (verify : Bytes → Bytes → Bytes → Bool) (kind : ReceiptOp → Prop)
    (s t : Logged Receipts (Nat × ReceiptEvent)) : Prop :=
  ∀ r, ∃ ops, (∀ op ∈ ops, kind op) ∧ held r t = receiptRun verify (held r s) ops

section

variable {kind : ReceiptOp → Prop} {s t u : Logged Receipts (Nat × ReceiptEvent)}

theorem Follows.refl (s : Logged Receipts (Nat × ReceiptEvent)) : Follows verify kind s s :=
  fun _ => ⟨[], ⟨fun _ h => absurd h List.not_mem_nil, rfl⟩⟩

theorem Follows.trans (s t u : Logged Receipts (Nat × ReceiptEvent)) (h : Follows verify kind s t)
    (h' : Follows verify kind t u) : Follows verify kind s u := by
  intro r
  obtain ⟨ops, hops, hrun⟩ := h r
  obtain ⟨ops', hops', hrun'⟩ := h' r
  refine ⟨ops ++ ops', fun op hop => (List.mem_append.mp hop).elim (hops op) (hops' op), ?_⟩
  rw [hrun', hrun]
  exact (List.foldl_append ..).symm

theorem held_putReceipt (q r : Nat) (t : Logged Receipt ReceiptEvent) (s : Logged Receipts (Nat × ReceiptEvent)) :
    held r (putReceipt q t s) = if q = r then HeldReceipt.put t (held r s) else held r s := by
  unfold held putReceipt HeldReceipt.put
  split
  · next hq =>
    subst hq
    have hall : (t.log.map (Prod.mk q)).filter (fun e => e.1 = q) = t.log.map (Prod.mk q) :=
      List.filter_eq_self.mpr fun e he => by
        obtain ⟨_, -, rfl⟩ := List.mem_map.mp he
        simp
    simp [hall, Function.comp_def]
  · next hq =>
    have hnone : (t.log.map (Prod.mk q)).filter (fun e => e.1 = r) = [] :=
      List.filter_eq_nil_iff.mpr fun e he => by
        obtain ⟨_, -, rfl⟩ := List.mem_map.mp he
        simpa using hq
    simp [hnone, Function.update_of_ne (Ne.symm hq)]

/-- What a receipt does by itself follows as one operation. -/
theorem Follows.onReceipt {α : Type} (q : Nat) (m : Prog Fault (Logged Receipt ReceiptEvent) α) (op : ReceiptOp)
    (hkind : kind op) (hop : ∀ s, op.step verify s = (onHeld m s).2) :
    Prog.Keeps (Follows verify kind) (onReceipt q m) := by
  intro s r
  rw [onReceipt_run, held_putReceipt]
  split
  · next hq =>
    subst hq
    exact ⟨[op], ⟨fun _ h => List.mem_singleton.mp h ▸ hkind, (hop (held q s)).symm⟩⟩
  · exact ⟨[], ⟨fun _ h => absurd h List.not_mem_nil, rfl⟩⟩

/-- The list is nothing to a receipt. -/
theorem Follows.modifyList (f : Receipts → List Nat) :
    Prog.Keeps (Follows verify kind)
      (Logged.lift (Prog.modify fun s => { s with outstanding := f s }) : Prog Fault (Logged Receipts _) Unit) :=
  fun _ _ => ⟨[], ⟨fun _ h => absurd h List.not_mem_nil, rfl⟩⟩

/-- A proof that comes in is an operation on the receipts it is offered to. -/
theorem deliverProof_follows (activeLinks : List LinkState) (p : Packet) :
    Prog.Keeps (Follows verify fun op => op = .proof now p (attachedLink activeLinks p))
      (deliverProof verify now activeLinks p) := by
  refine .bind Follows.trans (.get Follows.refl) fun s => ?_
  refine .bind Follows.trans (.fold Follows.refl Follows.trans _ (fun r _ concluded => ?_) _) fun concluded =>
    Follows.modifyList _
  refine .bind Follows.trans (.get Follows.refl) fun _ => .ite ?_ (.pure Follows.refl _)
  exact .bind Follows.trans (Follows.onReceipt r _ _ rfl fun _ => rfl) fun _ => .pure Follows.refl _

/-- The job checks timeouts, and culls. -/
theorem receiptsJob_follows :
    Prog.Keeps (Follows verify fun op => op = .setTimeout (-1) ∨ op = .checkTimeout now) (receiptsJob now) := by
  have hcheck : ∀ r, Prog.Keeps (Follows verify fun op => op = .setTimeout (-1) ∨ op = .checkTimeout now)
      (onReceipt r (checkTimeout now)) := fun r => Follows.onReceipt r _ _ (.inr rfl) fun _ => rfl
  refine .bind Follows.trans ?_ fun _ => .bind Follows.trans (.get Follows.refl) fun s => ?_
  · refine .bind Follows.trans (.get Follows.refl) fun s => .forEach Follows.refl Follows.trans _ fun r _ => ?_
    exact .bind Follows.trans (Follows.modifyList _) fun _ =>
      .bind Follows.trans (Follows.onReceipt r _ _ (.inl rfl) fun _ => rfl) fun _ => hcheck r
  · refine .bind Follows.trans (.fold Follows.refl Follows.trans _ (fun r _ concluded => ?_) _) fun _ =>
      Follows.modifyList _
    exact .bind Follows.trans (hcheck r) fun _ => .bind Follows.trans (.get Follows.refl) fun _ => .pure Follows.refl _

end

end MicroReticulum.Transport
