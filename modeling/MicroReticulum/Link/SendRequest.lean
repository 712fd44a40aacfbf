import MicroReticulum.Link.Receive
import MicroReticulum.Transport.Reported
import MicroReticulum.Transport.Timeout

/-!
# Sending a request

`Link::request` sends a packet and keeps its receipt. `Packet::send` returns the packet, though, and not the receipt
that `Transport::outbound` made for it: the assignment converts the packet with the constructor of `PacketReceipt`.
What the request receipt holds is therefore an object of its own, made from any packet, sent or not.

`Node` is a link together with the transport layer of its node, where packet receipts are objects with a number. A
request that travels in a packet never says that it was not sent, and no proof or timeout that the transport layer
handles reaches the receipt it holds.

What the answer to a request holds is not the matter here, only what its sender is told of
it.
-/

namespace MicroReticulum.Link

open MicroReticulum Packet Library Resource
open MicroReticulum.Transport (TransportState Environment OutgoingPacket Receipt Receipts Narrowing AcceptedSince
  newReceipt)

/-- A link and the transport layer of its node. -/
structure Node where
  transport : TransportState
  /-- the packet receipts, and `Transport::_receipts` -/
  receipts : Receipts
  /-- so many packet receipts were made -/
  created : Nat
  allocated : ∀ r ∈ receipts.outstanding, r < created
  endpoint : Endpoint
  /-- `_packet_receipt` of the request receipts -/
  held : Nat → Option Nat

namespace Node

/-- `new Object()` of a packet receipt -/
def allocate (receipt : Receipt) (n : Node) : Node where
  transport := n.transport
  receipts := { n.receipts with objects := Function.update n.receipts.objects n.created receipt }
  created := n.created + 1
  allocated r hr := Nat.lt_succ_of_lt (n.allocated r hr)
  endpoint := n.endpoint
  held := n.held

/-- A packet receipt that is made for the list of outstanding ones. -/
def allocateOutstanding (receipt : Receipt) (n : Node) : Node where
  transport := n.transport
  receipts :=
    { objects := Function.update n.receipts.objects n.created receipt
      outstanding := n.receipts.outstanding ++ [n.created] }
  created := n.created + 1
  allocated r hr := by
    rcases List.mem_append.mp hr with hold | hnew
    · exact Nat.lt_succ_of_lt (n.allocated r hold)
    · rw [List.mem_singleton.mp hnew]
      exact Nat.lt_succ_self n.created
  endpoint := n.endpoint
  held := n.held

/-- Change a packet receipt. -/
def withPacketReceipt (r : Nat) (f : Receipt → Receipt) (n : Node) : Node :=
  { n with
    receipts := { n.receipts with objects := Function.update n.receipts.objects r (f (n.receipts.objects r)) }
    allocated := n.allocated }

/-- `RequestReceipt`: it holds the packet receipt, and goes into the pending requests of the link. -/
def addRequestReceipt (receipt : RequestReceipt) (packetReceipt : Option Nat) (n : Node) : Node :=
  { n with
    endpoint := n.endpoint.addReceipt receipt
    held := Function.update n.held n.endpoint.requested packetReceipt }

/-- Run what the transport layer does. -/
def onTransport {α : Type} (m : Prog String TransportState α) : Prog String Node α :=
  Prog.zoom Node.transport (fun transport n => { n with transport }) m

/-- Run what the link does. -/
def onEndpoint {α : Type} (m : Prog String Endpoint α) : Prog String Node α :=
  Prog.zoom Node.endpoint (fun endpoint n => { n with endpoint }) m

end Node

variable (env : Env) (environment : Environment) (narrowing : Narrowing)

/-- The `PacketReceipt` of a packet over a link: the destination of such a packet has no identity. -/
def linkReceiptOf (p : OutgoingPacket) (receipt : Transport.PacketReceipt) : Receipt where
  toPacketReceipt := receipt
  destination := { type := .link, hash := p.packet.destinationHash, identity := none }

/-- What the link notes of a packet that was handed to the transport layer. -/
def noteOutbound (packet : Packet) (sent : Bool) (e : Endpoint) : Endpoint :=
  if sent then ({ e with draws := e.draws + 1 } : Endpoint).note (.sent packet) else { e with draws := e.draws + 1 }

/-- The receipt that `outbound` made, if any, goes into the list of outstanding ones. -/
def putOutstanding (p : OutgoingPacket) (receipt : Option Transport.PacketReceipt) (n : Node) : Node :=
  receipt.elim n fun receipt => n.allocateOutstanding (linkReceiptOf p receipt)

/-- `Transport::outbound` -/
def outboundPacket (p : OutgoingPacket) : Prog String Node Bool := do
  let result ← Node.onTransport (Transport.outbound environment p)
  Prog.modify (putOutstanding p result.receipt)
  Node.onEndpoint (Prog.modify (noteOutbound p.packet result.sent))
  pure result.sent

/-- The packet of `Packet(link, data)`, before it is handed to the transport layer. -/
def packPacket (context : ContextType) (data : Bytes) : Prog String Endpoint OutgoingPacket := do
  let e ← Prog.get
  Prog.require (e.link.status ≠ .closed) "Attempt to transmit over a closed link"
  Prog.modify (.withLink fun l => if plaintextOnWire (linkSpec l .data context data) then l else l.keepToken)
  let packet ← Prog.ofExcept (packFor env e .data context data)
  Prog.modify fun e => { e with draws := e.draws + 1 }
  pure { packet, destination := some .link, destinationLink := some e.link }

/-- `Packet::send`, which returns the packet whether or not an interface took it. -/
def sendPacket (context : ContextType) (data : Bytes) : Prog String Node OutgoingPacket := do
  let p ← Node.onEndpoint (packPacket env context data)
  let _ ← outboundPacket environment p
  pure p

/-- `PacketReceipt(const Packet&)`: a new object, whatever the packet is. -/
def packetReceipt (p : OutgoingPacket) : Prog String Node (Option Nat) := do
  let n ← Prog.get
  let receipt ← Prog.ofExcept (newReceipt environment n.transport p)
  Prog.modify (Node.allocate (linkReceiptOf p receipt))
  pure (some n.created)

/-- The timeout of a request that was given none, behind `Type::Resource::RESPONSE_MAX_GRACE_TIME`. -/
def requestTimeout (link : LinkState) (timeout : ℚ) : ℚ :=
  if timeout = 0 then link.rtt * 6 + 10 * (9 / 8) else timeout

/-- The `RequestReceipt` constructor. -/
def newRequestReceipt (receipt : RequestReceipt) (packetReceipt : Option Nat) (timeout : ℚ) :
    Prog String Node Nat := do
  Prog.require (timeout ≠ 0) "No timeout specified for request receipt"
  let n ← Prog.get
  Prog.modify (Node.addRequestReceipt receipt packetReceipt)
  pure n.endpoint.requested

/-- The envelope of a request. -/
def packedRequest (e : Endpoint) (path data : Bytes) : Bytes :=
  packRequestEnvelope env (env.now e.draws) (truncatedHash env.fullHash path).toList data

/-- The part of `Link::request` that sends a packet. -/
def requestByPacket (packed : Bytes) (timeout : ℚ) : Prog String Node (Option Nat) := do
  let n ← Prog.get
  let p ← sendPacket env environment ContextType.request packed
  let held ← packetReceipt environment p
  match held with
  | none => pure none
  | some receipt => do
    let seconds := requestTimeout n.endpoint.link timeout
    Prog.modify (Node.withPacketReceipt receipt fun r => { r with timeout := (narrowing.toInt16 seconds).toInt })
    let number ← newRequestReceipt
      { requestId := (p.packet.getTruncatedHash env.fullHash).toList, requestSize := packed.length
        hasPacketReceipt := true } (some receipt) seconds
    pure (some number)

/-- `Link::request`: the number of the request receipt, or none for `Type::NONE`. -/
def sendRequest (path data : Bytes) (timeout : ℚ) : Prog String Node (Option Nat) := do
  let n ← Prog.get
  if (packedRequest env n.endpoint path data).length ≤ linkMdu then
    requestByPacket env environment narrowing (packedRequest env n.endpoint path data) timeout
  else do
    let number ← Node.onEndpoint (request env path data)
    pure (some number)

/-! ## What comes of a request in a packet -/

variable {env environment narrowing}

/-- The packet of a request was transmitted. -/
def Transmitted (environment : Environment) (n m : Node) : Prop :=
  AcceptedSince environment n.transport.wire m.transport.wire

/-- A request that is not transmitted is answered with none, and nothing is left of it; of one that is, the request
receipt holds the receipt the transport layer has of it.
-/
structure TellsTruth (environment : Environment) (n : Node) (run : Outcome String (Option Nat) × Node) : Prop where
  refused : ¬ Transmitted environment n run.2 → run.1 = .value none
    ∧ run.2.endpoint.pendingRequests = n.endpoint.pendingRequests
    ∧ run.2.receipts.outstanding = n.receipts.outstanding
  sent : Transmitted environment n run.2 → ∃ number receipt, run.1 = .value (some number)
    ∧ run.2.held number = some receipt ∧ receipt ∈ run.2.receipts.outstanding

theorem packetReceipt_endpoint {p : OutgoingPacket} {n m : Node} {held : Option Nat}
    (h : packetReceipt environment p n = (.value held, m)) : m.endpoint = n.endpoint := by
  unfold packetReceipt at h
  rw [Prog.get_bind_run] at h
  cases hreceipt : newReceipt environment n.transport p with
  | error e =>
    rw [hreceipt] at h
    cases h
  | ok r =>
    rw [hreceipt] at h
    cases h
    rfl

/-- The receipt a converted packet gives is not in the list of outstanding ones. -/
theorem packetReceipt_run {p : OutgoingPacket} {n m : Node} {held : Option Nat}
    (h : packetReceipt environment p n = (.value held, m)) :
    ∃ receipt, held = some receipt ∧ receipt ∉ m.receipts.outstanding := by
  unfold packetReceipt at h
  rw [Prog.get_bind_run] at h
  obtain ⟨receipt, m₁, hnew, hrest⟩ := Prog.exists_of_bind_value h
  have hm₁ : m₁ = n := by
    cases hreceipt : newReceipt environment n.transport p with
    | error e =>
      rw [hreceipt] at hnew
      cases hnew
    | ok r =>
      rw [hreceipt] at hnew
      cases hnew
      rfl
  subst hm₁
  cases hrest
  refine ⟨m₁.created, rfl, fun hmem => ?_⟩
  exact Nat.lt_irrefl _ (m₁.allocated _ hmem)

theorem newRequestReceipt_run {receipt : RequestReceipt} {held : Option Nat} {timeout : ℚ} {n m : Node}
    {number : Nat} (h : newRequestReceipt receipt held timeout n = (.value number, m)) :
    m.held number = held ∧ m.receipts.outstanding = n.receipts.outstanding
      ∧ number ∈ m.endpoint.pendingRequests := by
  unfold newRequestReceipt at h
  by_cases htimeout : timeout ≠ 0
  · rw [Prog.bind_value (Prog.require_run_of htimeout _ _), Prog.get_bind_run, Prog.modify_bind_run] at h
    cases h
    refine ⟨Function.update_self .., rfl, ?_⟩
    exact List.mem_append_right _ List.mem_cons_self
  · rw [Prog.bind_thrown (Prog.require_run_of_not htimeout _ _)] at h
    cases h

theorem newRequestReceipt_endpoint {receipt : RequestReceipt} {held : Option Nat} {timeout : ℚ} {n m : Node}
    {number : Nat} (h : newRequestReceipt receipt held timeout n = (.value number, m)) :
    number = n.endpoint.requested ∧ m.endpoint = n.endpoint.addReceipt receipt := by
  unfold newRequestReceipt at h
  by_cases htimeout : timeout ≠ 0
  · rw [Prog.bind_value (Prog.require_run_of htimeout _ _), Prog.get_bind_run, Prog.modify_bind_run] at h
    cases h
    exact ⟨rfl, rfl⟩
  · rw [Prog.bind_thrown (Prog.require_run_of_not htimeout _ _)] at h
    cases h

/-- A request in a packet that comes back has a request receipt, with a packet receipt that is not outstanding. -/
theorem requestByPacket_run {packed : Bytes} {timeout : ℚ} {n m : Node} {answer : Option Nat}
    (h : requestByPacket env environment narrowing packed timeout n = (.value answer, m)) :
    ∃ number receipt, answer = some number ∧ m.held number = some receipt
      ∧ receipt ∉ m.receipts.outstanding ∧ number ∈ m.endpoint.pendingRequests := by
  unfold requestByPacket at h
  rw [Prog.get_bind_run] at h
  obtain ⟨p, n₁, hsend, h⟩ := Prog.exists_of_bind_value h
  obtain ⟨held, n₂, hreceipt, h⟩ := Prog.exists_of_bind_value h
  obtain ⟨receipt, rfl, hfresh⟩ := packetReceipt_run hreceipt
  dsimp only at h
  rw [Prog.modify_bind_run] at h
  obtain ⟨number, n₃, hnumber, h⟩ := Prog.exists_of_bind_value h
  cases h
  obtain ⟨hheld, houtstanding, hpending⟩ := newRequestReceipt_run hnumber
  exact ⟨number, receipt, rfl, hheld, fun hmem => hfresh (houtstanding ▸ hmem), hpending⟩

/-! ## The end of the link alone -/

theorem onEndpoint_run {α : Type} {m : Prog String Endpoint α} {n n' : Node} {a : α}
    (h : Node.onEndpoint m n = (.value a, n')) :
    ∃ e, m n.endpoint = (.value a, e) ∧ n' = { n with endpoint := e } := by
  have hvalue : (m n.endpoint).1 = .value a := congrArg Prod.fst h
  have hnode : { n with endpoint := (m n.endpoint).2 } = n' := congrArg Prod.snd h
  exact ⟨(m n.endpoint).2, Prod.ext hvalue rfl, hnode.symm⟩

theorem packPacket_run {context : ContextType} {data : Bytes} {e e' : Endpoint} {p : OutgoingPacket}
    (h : packPacket env context data e = (.value p, e')) :
    e.link.status ≠ .closed ∧ packFor env e .data context data = .ok p.packet
      ∧ e' = { e with
          link := if plaintextOnWire (linkSpec e.link .data context data) then e.link else e.link.keepToken
          draws := e.draws + 1 } := by
  unfold packPacket at h
  rw [Prog.get_bind_run] at h
  by_cases hopen : e.link.status ≠ .closed
  · rw [Prog.bind_value (Prog.require_run_of hopen _ _)] at h
    cases hpack : packFor env e .data context data with
    | error message =>
      rw [hpack] at h
      cases h
    | ok packet =>
      rw [hpack] at h
      cases h
      exact ⟨hopen, rfl, rfl⟩
  · rw [Prog.bind_thrown (Prog.require_run_of_not hopen _ _)] at h
    cases h

theorem outboundPacket_run {p : OutgoingPacket} {n n' : Node} {sent : Bool}
    (h : outboundPacket environment p n = (.value sent, n')) :
    n'.endpoint = noteOutbound p.packet sent n.endpoint := by
  unfold outboundPacket at h
  obtain ⟨result, n₁, hout, h⟩ := Prog.exists_of_bind_value h
  have hn₁ : n₁.endpoint = n.endpoint := by
    have hnode : (Node.onTransport (Transport.outbound environment p) n).2 = n₁ := congrArg Prod.snd hout
    rw [← hnode]
    rfl
  rw [Prog.modify_bind_run] at h
  obtain ⟨_, n₂, hnote, h⟩ := Prog.exists_of_bind_value h
  obtain ⟨e, he, rfl⟩ := onEndpoint_run hnote
  cases he
  cases h
  have hput : (putOutstanding p result.receipt n₁).endpoint = n₁.endpoint := by
    unfold putOutstanding
    cases result.receipt <;> rfl
  show noteOutbound p.packet result.sent (putOutstanding p result.receipt n₁).endpoint = _
  rw [hput, hn₁]

/-- `request` with an envelope that fits a packet. -/
theorem request_small (env : Env) {path data : Bytes} {e : Endpoint}
    (hsmall : (packedRequest env e path data).length ≤ linkMdu) : request env path data e
      = (send env .data ContextType.request (packedRequest env e path data) >>= fun p => do
          Prog.modify (.addReceipt
            { requestId := (p.getTruncatedHash env.fullHash).toList
              requestSize := (packedRequest env e path data).length, hasPacketReceipt := true })
          pure e.requested) e := by
  unfold request
  rw [Prog.get_bind_run]
  exact congrFun (if_pos hsmall) e

/-- The request was sent. -/
theorem request_by_packet (env : Env) {path data : Bytes} {e e' : Endpoint} {p : Packet}
    (hsmall : (packedRequest env e path data).length ≤ linkMdu)
    (hsend : send env .data ContextType.request (packedRequest env e path data) e = (.value p, e')) :
    request env path data e = (.value e.requested, e'.addReceipt
      { requestId := (p.getTruncatedHash env.fullHash).toList
        requestSize := (packedRequest env e path data).length, hasPacketReceipt := true }) := by
  rw [request_small env hsmall, Prog.bind_value hsend]
  rfl

/-- For the link alone, a request that comes back is what `request` does when the interfaces answer as they did. -/
theorem sendRequest_endpoint {path data : Bytes} {timeout : ℚ} {n m : Node} {number : Nat}
    (h : sendRequest env environment narrowing path data timeout n = (.value (some number), m)) :
    ∃ transmits, request { env with transmits } path data n.endpoint = (.value number, m.endpoint) := by
  unfold sendRequest at h
  rw [Prog.get_bind_run] at h
  split at h
  case isFalse hlarge =>
    obtain ⟨answer, n₁, hrequest, h⟩ := Prog.exists_of_bind_value h
    obtain ⟨e, he, rfl⟩ := onEndpoint_run hrequest
    cases h
    exact ⟨env.transmits, he⟩
  case isTrue hsmall =>
    unfold requestByPacket at h
    rw [Prog.get_bind_run] at h
    obtain ⟨p, n₁, hsend, h⟩ := Prog.exists_of_bind_value h
    obtain ⟨held, n₂, hreceipt, h⟩ := Prog.exists_of_bind_value h
    obtain ⟨receipt, rfl, -⟩ := packetReceipt_run hreceipt
    have hn₂ : n₂.endpoint = n₁.endpoint := packetReceipt_endpoint hreceipt
    dsimp only at h
    rw [Prog.modify_bind_run] at h
    obtain ⟨k, n₃, hnumber, h⟩ := Prog.exists_of_bind_value h
    cases h
    obtain ⟨hk, hn₃⟩ := newRequestReceipt_endpoint hnumber
    unfold sendPacket at hsend
    obtain ⟨p', n₀, hpack, hsend⟩ := Prog.exists_of_bind_value hsend
    obtain ⟨sent, n₁', hout, hsend⟩ := Prog.exists_of_bind_value hsend
    cases hsend
    obtain ⟨e, he, rfl⟩ := onEndpoint_run hpack
    obtain ⟨hopen, hpacked, rfl⟩ := packPacket_run he
    have hn₁ := outboundPacket_run hout
    refine ⟨fun _ => sent, ?_⟩
    -- the same packet, and behind it the same notes
    have hrun : send { env with transmits := fun _ => sent } .data ContextType.request
        (packedRequest env n.endpoint path data) n.endpoint = (.value p.packet, n₁.endpoint) := by
      unfold send
      rw [Prog.get_bind_run, Prog.bind_value (Prog.require_run_of hopen _ _), Prog.modify_bind_run]
      have hpacked' : packFor { env with transmits := fun _ => sent } n.endpoint .data ContextType.request
          (packedRequest env n.endpoint path data) = .ok p.packet := hpacked
      rw [hpacked', Prog.bind_value (Prog.ofExcept_ok_run _ _), Prog.modify_bind_run, hn₁]
      cases sent <;> rfl
    have hrequest := request_by_packet { env with transmits := fun _ => sent } hsmall hrun
    have hsame : n₁.endpoint.requested = n.endpoint.requested := by
      rw [hn₁]
      cases sent <;> rfl
    have hnumber : number = n.endpoint.requested := hk.trans ((congrArg Endpoint.requested hn₂).trans hsame)
    have hend : (Node.withPacketReceipt receipt (fun r => { r with timeout :=
          ((narrowing.toInt16 (requestTimeout n.endpoint.link timeout)).toInt : ℚ) }) n₂).endpoint = n₁.endpoint := hn₂
    rw [hrequest, hnumber, hn₃, hend]
    rfl

/-- A request in a packet never tells the truth, and nothing else is a request packet. -/
theorem sendRequest_truthful_iff (env : Env) (environment : Environment) (narrowing : Narrowing) (n : Node)
    (path data : Bytes) (timeout : ℚ) :
    ((packedRequest env n.endpoint path data).length ≤ linkMdu →
        TellsTruth environment n (sendRequest env environment narrowing path data timeout n))
      ↔ linkMdu < (packedRequest env n.endpoint path data).length := by
  constructor
  · intro htruth
    by_contra hsmall
    have hpacket := not_lt.mp hsmall
    have hrun : sendRequest env environment narrowing path data timeout n
        = requestByPacket env environment narrowing (packedRequest env n.endpoint path data) timeout n := by
      unfold sendRequest
      rw [Prog.get_bind_run, if_pos hpacket]
    have htells := htruth hpacket
    rw [hrun] at htells
    by_cases hsent : Transmitted environment n
        (requestByPacket env environment narrowing (packedRequest env n.endpoint path data) timeout n).2
    · obtain ⟨number, receipt, hanswer, hheld, houtstanding⟩ := htells.sent hsent
      obtain ⟨number', receipt', hnumber, hheld', hfresh, -⟩ := requestByPacket_run (Prod.ext hanswer rfl)
      cases hnumber
      rw [hheld] at hheld'
      cases hheld'
      exact hfresh houtstanding
    · obtain ⟨number, receipt, hnumber, -⟩ := requestByPacket_run (Prod.ext (htells.refused hsent).1 rfl)
      cases hnumber
  · intro hlarge hsmall
    omega

namespace Sample

/-- An active link on a node with one interface. -/
def node : Node where
  transport := { interfaces := [{ id := 0 }] }
  receipts :=
    { objects := fun _ => ⟨{ hash := .replicate 32 0, truncatedHash := .replicate 16 0, sentAt := 0, timeout := 0 },
        { type := .link, hash := .replicate 16 0, identity := none }, false, false, false⟩
      outstanding := [] }
  created := 0
  allocated := by simp
  endpoint := { link := link true }
  held _ := none

/-- The interface refuses everything. -/
def refusing : Environment := { Environment.idle with sendOutgoing := fun _ _ _ => false }

end Sample

/-- No interface takes the request, and its receipt is returned all the same. -/
theorem refused_request_returns_receipt : ¬ ∀ (env : Env) (environment : Environment) (narrowing : Narrowing)
    (n : Node) (path data : Bytes) (timeout : ℚ), (packedRequest env n.endpoint path data).length ≤ linkMdu →
      TellsTruth environment n (sendRequest env environment narrowing path data timeout n) := by
  intro h
  have htells := h (Sample.plainEnv fun _ => .replicate 32 3) Sample.refusing Transport.Sample.wrapping Sample.node [] [0xC0]
    15 (by decide +kernel)
  have hnot : ∀ run : Node, ¬ Transmitted Sample.refusing Sample.node run := by
    rintro run ⟨earlier, i, raw, -, -, hyes⟩
    cases hyes
  have hnone := (htells.refused (hnot _)).1
  have hanswer : (sendRequest (Sample.plainEnv fun _ => .replicate 32 3) Sample.refusing Transport.Sample.wrapping [] [0xC0]
      15 Sample.node).1 = .value (some 0) := by decide +kernel
  rw [hanswer] at hnone
  cases hnone

end MicroReticulum.Link
