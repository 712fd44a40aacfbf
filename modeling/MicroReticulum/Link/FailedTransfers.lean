import MicroReticulum.Link.LifeCycle

/-!
# Requests whose transfer fails

A request waits for its response among the pending requests of the link. When the transfer of the request or
of the response ends badly, `resource_concluded` is told, but hands on only what is complete; so
`request_timed_out` is reached on no way, and a receipt leaves the pending requests only when it is ready.

`REJECTED` has the value of `NONE`. That a transfer was rejected is seen from the event.

Requests that went out in one packet wait on their receipt, and are the subject of
`Link.SendRequest`.
-/

namespace MicroReticulum.Link

open MicroReticulum Packet Library Resource

/-! ## What is expected of a failed transfer -/

/-- The transfer has ended with `FAILED`, `CORRUPT` or `REJECTED`. -/
def TransferFailed (s : Endpoint) (r : Nat) : Prop :=
  (s.resources r).status = .failed ∨ (s.resources r).status = .corrupt ∨ Event.rejected r ∈ s.events

/-- A call of the failed callback of the receipt. -/
def Event.isFailure (receipt : Nat) : Event → Bool
  | .failed q => q = receipt
  | _ => false

/-- The request has failed: the receipt says so, the link no longer waits, and the callback was called once. -/
structure FailedOnce (s : Endpoint) (receipt : Nat) : Prop where
  status : (s.receipts receipt).status = .failed
  notPending : receipt ∉ s.pendingRequests
  calls : s.events.countP (Event.isFailure receipt) = 1

/-! ## Requests wait -/

/-- No request of the link has failed, and each is pending or has its response. -/
structure RequestsWait (e : Endpoint) : Prop where
  waits : ∀ q < e.requested, q ∈ e.pendingRequests ∨ (e.receipts q).status = .ready
  unfailed : ∀ q < e.requested, (e.receipts q).status ≠ .failed
  uncalled : ∀ q, e.events.countP (Event.isFailure q) = 0

section Steps

variable {env : Env} {scope : Scope} {e t : Endpoint}

/-- Only the receipts count, and the calls of the callback. -/
theorem RequestsWait.keep (h : RequestsWait e) (hreceipts : t.receipts = e.receipts)
    (hrequested : t.requested = e.requested) (hpending : t.pendingRequests = e.pendingRequests) {event : Event}
    (hevents : t.events = e.events ++ [event]) (hevent : ∀ q, event.isFailure q = false) : RequestsWait t where
  waits := by
    rw [hreceipts, hrequested, hpending]
    exact h.waits
  unfailed := by
    rw [hreceipts, hrequested]
    exact h.unfailed
  uncalled q := by
    have hnone : [event].countP (Event.isFailure q) = 0 := by simp [hevent q]
    rw [hevents, List.countP_append, h.uncalled q, hnone]

theorem withReceipt_self (q : Nat) (f : RequestReceipt → RequestReceipt) (e : Endpoint) :
    (e.withReceipt q f).receipts q = f (e.receipts q) := Function.update_self ..

theorem withReceipt_of_ne {q r : Nat} (h : r ≠ q) (f : RequestReceipt → RequestReceipt) (e : Endpoint) :
    (e.withReceipt q f).receipts r = e.receipts r := Function.update_of_ne h ..

theorem addReceipt_self (receipt : RequestReceipt) (e : Endpoint) :
    (e.addReceipt receipt).receipts e.requested = receipt := Function.update_self ..

theorem addReceipt_of_lt {r : Nat} {e : Endpoint} (h : r < e.requested) (receipt : RequestReceipt) :
    (e.addReceipt receipt).receipts r = e.receipts r := Function.update_of_ne (Nat.ne_of_lt h) ..

theorem RequestsWait.ask (h : RequestsWait e) {receipt : RequestReceipt} (hsent : receipt.status = .sent) :
    RequestsWait (e.addReceipt receipt) where
  waits q hq := by
    obtain hold | rfl := Nat.lt_or_eq_of_le (Nat.le_of_lt_succ hq)
    · obtain hpending | hready := h.waits q hold
      · exact .inl (List.mem_append_left _ hpending)
      · exact .inr ((congrArg _ (addReceipt_of_lt hold receipt)).trans hready)
    · exact .inl (List.mem_append_right _ List.mem_cons_self)
  unfailed q hq := by
    obtain hold | rfl := Nat.lt_or_eq_of_le (Nat.le_of_lt_succ hq)
    · rw [addReceipt_of_lt hold]
      exact h.unfailed q hold
    · rw [addReceipt_self, hsent]
      exact ReceiptStatus.noConfusion
  uncalled := h.uncalled

theorem RequestsWait.answer (h : RequestsWait e) {q : Nat} {f : RequestReceipt → RequestReceipt}
    (hf : (f (e.receipts q)).status = (e.receipts q).status ∨ (f (e.receipts q)).status = .ready) :
    RequestsWait (e.withReceipt q f) where
  waits r hr := by
    by_cases hself : r = q
    · subst hself
      rw [withReceipt_self]
      obtain hsame | hready := hf
      · rw [hsame]
        exact h.waits r hr
      · exact .inr hready
    · rw [withReceipt_of_ne hself]
      exact h.waits r hr
  unfailed r hr := by
    by_cases hself : r = q
    · subst hself
      rw [withReceipt_self]
      obtain hsame | hready := hf
      · rw [hsame]
        exact h.unfailed r hr
      · rw [hready]
        exact ReceiptStatus.noConfusion
    · rw [withReceipt_of_ne hself]
      exact h.unfailed r hr
  uncalled := h.uncalled

theorem RequestsWait.settle (h : RequestsWait e) {q : Nat}
    (hsettled : (e.receipts q).status = .ready ∨ (e.receipts q).status = .failed) :
    RequestsWait { e with pendingRequests := e.pendingRequests.filter (· ≠ q) } where
  waits r hr := by
    by_cases hself : r = q
    · subst hself
      exact .inr (hsettled.resolve_right (h.unfailed r hr))
    · obtain hpending | hready := h.waits r hr
      · exact .inl (List.mem_filter.mpr ⟨hpending, decide_eq_true hself⟩)
      · exact .inr hready
  unfailed := h.unfailed
  uncalled := h.uncalled

theorem Gentle.requestsWait (h : Gentle env scope e t) (he : RequestsWait e) : RequestsWait t := by
  cases h
  case note event hplain => exact he.keep rfl rfl rfl rfl fun q => by cases event <;> first | rfl | cases hplain
  case sent => exact he.keep rfl rfl rfl rfl fun _ => rfl
  case prove => exact he.keep rfl rfl rfl rfl fun _ => rfl
  case generate => exact he.keep rfl rfl rfl rfl fun _ => rfl
  case identify => exact he.keep rfl rfl rfl rfl fun _ => rfl
  case begin => exact he.keep rfl rfl rfl rfl fun _ => rfl
  case advertise => exact he.keep rfl rfl rfl rfl fun _ => rfl
  case queue => exact he.keep rfl rfl rfl rfl fun _ => rfl
  case ask hsent => exact he.ask hsent
  case answer hf => exact he.answer hf
  case settle hsettled => exact he.settle hsettled
  all_goals exact ⟨he.waits, he.unfailed, he.uncalled⟩

/-- No write fails a request. -/
theorem Write.requestsWait (h : Write env scope e t) (he : RequestsWait e) : RequestsWait t := by
  cases h
  case gentle hg => exact hg.requestsWait he
  case reject => exact he.keep rfl rfl rfl rfl fun _ => rfl
  all_goals exact ⟨he.waits, he.unfailed, he.uncalled⟩

end Steps

section Runs

variable {env : Env} {c : Primitives} {established : LinkState → Except String Unit} {e : Endpoint}

/-- What keeps the requests waiting. -/
def Waits (s t : Endpoint) : Prop := RequestsWait s → RequestsWait t

theorem onLink_waits {α : Type} (m : Prog String LinkState α) : Prog.Keeps Waits (onLink m) :=
  fun _ h => ⟨h.waits, h.unfailed, h.uncalled⟩

/-- A link proof is no concern of the requests. -/
theorem validateLinkProof_requestsWait (a : Arrival) (he : RequestsWait e) :
    RequestsWait (validateLinkProof c established a e) := by
  have hrefl : ∀ s, Waits s s := fun _ => id
  have htrans : ∀ s t u, Waits s t → Waits t u → Waits s u := fun _ _ _ h h' hs => h' (h hs)
  have hnote : ∀ event : Event, (∀ q, event.isFailure q = false) →
      Prog.Keeps Waits (Prog.modify (.note event) : Prog String Endpoint Unit) :=
    fun event hevent => .modify fun _ h => h.keep rfl rfl rfl rfl hevent
  have hlink : ∀ f : LinkState → LinkState,
      Prog.Keeps Waits (Prog.modify (.withLink f) : Prog String Endpoint Unit) :=
    fun _ => .modify fun _ h => ⟨h.waits, h.unfailed, h.uncalled⟩
  have hestablish : ∀ mtu, Prog.Keeps Waits (establishLink c established a mtu) :=
    fun _ => .bind htrans (.get hrefl) fun s => .bind htrans (onLink_waits _) fun _ =>
      .bind htrans (hnote _ fun _ => rfl) fun _ => .bind htrans (.get hrefl) fun _ => .ofExcept hrefl _
  have hcheck : ∀ payload, Prog.Keeps Waits (checkLinkProof c established a payload) :=
    fun _ => .bind htrans (.get hrefl) fun _ => .bind htrans (hlink _) fun _ =>
      .bind htrans (onLink_waits _) fun _ => .bind htrans (hlink _) fun _ =>
        .bind htrans (.get hrefl) fun _ => .when hrefl fun _ => hestablish _
  have hbody : Prog.Keeps Waits (validateLinkProofBody c established a) :=
    .bind htrans (.get hrefl) fun _ => .when hrefl fun _ => .bind htrans (.require hrefl _ _) fun _ =>
      .bind htrans (.ofExcept hrefl _) fun _ => .when hrefl fun _ => hcheck _
  have hall : Prog.Keeps Waits
      (Prog.catching (validateLinkProofBody c established a) fun _ => do
        Prog.modify (.note .proofFailed)
        Prog.modify (.withLink (.setStatus .closed))) :=
    .catching htrans hbody fun _ => .bind htrans (hnote _ fun _ => rfl) fun _ => hlink _
  exact hall e he

theorem lifeRun_requestsWait (hfresh : e.Fresh) (hnone : e.requested = 0) (inputs : List LifeInput) :
    RequestsWait (lifeRun env c established e inputs) := by
  have hstart : RequestsWait e := by
    refine ⟨fun q hq => ?_, fun q hq => ?_, fun q => ?_⟩
    · omega
    · omega
    · rw [hfresh.events]
      rfl
  have hrun : RequestsWait (lifeRun env c established e inputs)
      ∧ (lifeRun env c established e inputs).Clean :=
    lifeRun_invariant (fun _ _ _ hw => hw.requestsWait) (fun a _ => validateLinkProof_requestsWait a) hfresh.clean
      hstart inputs
  exact hrun.1

end Runs

/-- For every link, every run and every transfer that has failed in it: the request it belongs to has not. It
is pending still, or has a response.
-/
theorem failed_transfers_unnoticed (env : Env) (c : Primitives) (established : LinkState → Except String Unit)
    (e : Endpoint) (hfresh : e.Fresh) (hnone : e.requested = 0) (inputs : List LifeInput) (s : Endpoint)
    (hs : s = lifeRun env c established e inputs) :
    (∀ r q, q < s.requested → TransferFailed s r → (s.receipts q).requestId = (s.resources r).requestId →
        ¬ FailedOnce s q)
      ∧ ∀ q < s.requested, (q ∈ s.pendingRequests ∨ (s.receipts q).status = .ready)
        ∧ (s.receipts q).status ≠ .failed ∧ s.events.countP (Event.isFailure q) = 0 := by
  subst hs
  have hwait : RequestsWait (lifeRun env c established e inputs) := lifeRun_requestsWait hfresh hnone inputs
  refine ⟨fun r q hq _ _ hfailed => hwait.unfailed q hq hfailed.status, fun q hq => ?_⟩
  exact ⟨hwait.waits q hq, hwait.unfailed q hq, hwait.uncalled q⟩

namespace Sample

/-- A link with nothing on it. -/
def idle : Endpoint where
  link := link true

theorem idle_fresh : idle.Fresh where
  created := rfl
  incoming := rfl
  outgoing := rfl
  resources _ := rfl
  pending := rfl
  remoteIdentity := rfl
  events := rfl

/-- A request that is too large for a packet, and the transfer is cancelled. -/
def requestCancelled : Endpoint :=
  lifeRun (plainEnv tailHash) samplePrimitives (fun _ => .ok ()) idle
    [.handles (.request [] (List.replicate 450 0)), .handles (.cancel 0)]

theorem requestCancelled_failed : 0 < requestCancelled.requested ∧ TransferFailed requestCancelled 0
    ∧ (requestCancelled.receipts 0).requestId = (requestCancelled.resources 0).requestId := by
  unfold TransferFailed
  refine ⟨?_, .inl ?_, ?_⟩
  · decide +kernel
  · decide +kernel
  · decide +kernel

end Sample

/-- The request goes on waiting. -/
theorem cancelled_request_waits : ¬ FailedOnce Sample.requestCancelled 0 := by
  obtain ⟨hrequested, hfailed, hid⟩ := Sample.requestCancelled_failed
  exact (failed_transfers_unnoticed (Sample.plainEnv tailHash) samplePrimitives (fun _ => .ok ()) Sample.idle
    Sample.idle_fresh rfl _ Sample.requestCancelled rfl).1 0 0 hrequested hfailed hid

/-- A request whose transfer was cancelled is not failed. -/
theorem cancelled_request_not_failed : ¬ ∀ (env : Env) (c : Primitives)
    (established : LinkState → Except String Unit) (e : Endpoint), e.Fresh → e.requested = 0 →
    ∀ inputs s, s = lifeRun env c established e inputs →
      ∀ r q, q < s.requested → TransferFailed s r → (s.receipts q).requestId = (s.resources r).requestId →
        FailedOnce s q := by
  intro h
  obtain ⟨hrequested, hfailed, hid⟩ := Sample.requestCancelled_failed
  have honce : FailedOnce Sample.requestCancelled 0 :=
    h (Sample.plainEnv tailHash) samplePrimitives (fun _ => .ok ()) Sample.idle Sample.idle_fresh rfl _
      Sample.requestCancelled rfl 0 0 hrequested hfailed hid
  have hwait : RequestsWait Sample.requestCancelled := lifeRun_requestsWait Sample.idle_fresh rfl _
  exact hwait.unfailed 0 hrequested honce.status

end MicroReticulum.Link
