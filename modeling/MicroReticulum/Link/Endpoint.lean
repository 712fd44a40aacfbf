import MicroReticulum.Cryptography.Token
import MicroReticulum.Resource.State

/-!
# One end of a link

`Endpoint` is what one party of a link holds: the link, the resources and request receipts the link refers
to, and the request handlers of the destination it belongs to. Resources and receipts are shared objects in
the source; here they have numbers, in the order of their creation.

`send` is `Packet::send` of a packet for the link. What it needs from outside comes from `Env`: initialisation
vectors, random hashes, and whether an interface takes the packet. `draws` counts what was taken, so no two
draws are the same by construction, and a statement for every `Env` is one for every sequence of them.

Callbacks of the application are noted as events, with some other facts about a run that later statements refer
to. They do not call back into the link.
-/

namespace MicroReticulum.Link

open MicroReticulum Packet Library Cryptography Resource
open MicroReticulum.Transport (reticulumMdu)

/-! ## Surroundings -/

/-- The crypto and `MsgPack` libraries, and what an endpoint takes from outside. -/
structure Env where
  ciphers : Ciphers
  fullHash : Bytes → Hash
  /-- Ed25519: public key, signature, message -/
  verify : Bytes → Bytes → Bytes → Bool
  /-- the bytes `MsgPack::Packer` makes of its objects -/
  encode : List Library.Token → Bytes
  /-- the objects `MsgPack::Unpacker` finds -/
  decode : Bytes → List Library.Token
  /-- `MsgPack::Packer::packFloat32` -/
  encodeFloat32 : Double → Bytes
  /-- is the second object of the message a `float32`? -/
  isFloat32 : Bytes → Bool
  iv : Nat → Bytes
  /-- `Identity::get_random_hash` -/
  randomHash : Nat → Bytes
  now : Nat → Double
  /-- does an interface take the packet? -/
  transmits : Nat → Bool

/-! ## Requests -/

/-- `Type::RequestReceipt::status` -/
inductive ReceiptStatus where
  | failed | sent | delivered | receiving | ready
  deriving DecidableEq, Repr

/-- The fields of `RequestReceiptData` that are not times. -/
structure RequestReceipt where
  requestId : Bytes
  requestSize : Nat
  status : ReceiptStatus := .sent
  response : Bytes := []
  responseSize : Nat := 0
  responseTransferSize : Nat := 0
  /-- the packet of the request was sent with a receipt -/
  hasPacketReceipt : Bool
  deriving DecidableEq

/-- `Type::Destination::request_policies` -/
inductive RequestPolicy where
  | allowNone | allowAll | allowList
  deriving DecidableEq, Repr

/-- `ResourceRequest` -/
structure ResourceRequest where
  requestedAt : Double
  pathHash : Bytes
  requestData : Bytes
  deriving DecidableEq

/-- The arguments of a response generator. -/
structure GeneratorCall where
  path : Bytes
  data : Bytes
  requestId : Bytes
  linkId : Address
  /-- public key of the remote identity -/
  remoteIdentity : Option Bytes
  requestedAt : Double
  deriving DecidableEq

/-- `RequestHandler` -/
structure RequestHandler where
  path : Bytes
  responseGenerator : GeneratorCall → Except String Bytes
  allow : RequestPolicy
  allowedList : List Address

/-- `Type::Link::resource_strategy` -/
inductive ResourceStrategy where
  | acceptNone | acceptApp | acceptAll
  deriving DecidableEq, Repr

/-- `Type::Link::teardown_reason` -/
inductive TeardownReason where
  | none | timeout | initiatorClosed | destinationClosed
  deriving DecidableEq, Repr

/-! ## The endpoint -/

/-- What is noted of a run, in its order: what an endpoint does that others can see, and what statements about
runs refer to. -/
inductive Event where
  /-- an interface took the packet -/
  | sent (p : Packet)
  /-- the packet callback of the link -/
  | packet (plaintext : Bytes)
  /-- a response generator was called, on a link of this status -/
  | generated (handler : RequestHandler) (call : GeneratorCall) (status : Status)
  /-- the packet identified the remote peer -/
  | identified (p : Packet) (publicKey : Bytes)
  /-- a resource was started with this payload -/
  | started (resource : Nat) (payload : Bytes)
  /-- a resource was advertised where the link was ready for it, and queued where it was not -/
  | advertising (resource : Nat) (ready : Bool)
  /-- a resource was rejected -/
  | rejected (resource : Nat)
  /-- the concluded callback of a resource, with its status -/
  | concluded (resource : Nat) (status : ResourceStatus)
  /-- the response callback of a receipt -/
  | answered (receipt : Nat)
  /-- the failed callback of a receipt -/
  | failed (receipt : Nat)
  /-- the established callback of a link that was in this state before -/
  | established (before : Status)
  /-- the link is torn down, from this state -/
  | tornDown (before : Status)
  /-- an exception while a link proof is validated closes the link -/
  | proofFailed
  /-- the closed callback of the link -/
  | closed

/-- One end of a link. -/
structure Endpoint where
  link : LinkState
  teardownReason : TeardownReason := .none
  resources : Nat → ResourceData := fun _ => {}
  created : Nat := 0
  incomingResources : List Nat := []
  outgoingResources : List Nat := []
  receipts : Nat → RequestReceipt := fun _ => { requestId := [], requestSize := 0, hasPacketReceipt := false }
  requested : Nat := 0
  pendingRequests : List Nat := []
  requestHandlers : List (Bytes × RequestHandler) := []
  resourceStrategy : ResourceStrategy := .acceptNone
  /-- the resource callback of the link is set -/
  resourceCallback : Bool := false
  /-- the concluded callback for accepted resources is set -/
  resourceConcludedCallback : Bool := false
  events : List Event := []
  draws : Nat := 0

namespace Endpoint

/-- Change a resource. -/
def withResource (r : Nat) (f : ResourceData → ResourceData) (e : Endpoint) : Endpoint :=
  { e with resources := Function.update e.resources r (f (e.resources r)) }

@[simp] theorem withResource_self (r : Nat) (f : ResourceData → ResourceData) (e : Endpoint) :
    (e.withResource r f).resources r = f (e.resources r) := Function.update_self ..

theorem withResource_of_ne {r q : Nat} (h : q ≠ r) (f : ResourceData → ResourceData) (e : Endpoint) :
    (e.withResource r f).resources q = e.resources q := Function.update_of_ne h ..

/-- Change a receipt. -/
def withReceipt (r : Nat) (f : RequestReceipt → RequestReceipt) (e : Endpoint) : Endpoint :=
  { e with receipts := Function.update e.receipts r (f (e.receipts r)) }

/-- Note an event. -/
def note (event : Event) (e : Endpoint) : Endpoint := { e with events := e.events ++ [event] }

@[simp] theorem note_resources (event : Event) (e : Endpoint) : (e.note event).resources = e.resources := rfl

/-- Change the link. -/
def withLink (f : LinkState → LinkState) (e : Endpoint) : Endpoint := { e with link := f e.link }

/-- `Link::register_outgoing_resource` -/
def registerOutgoingResource (r : Nat) (e : Endpoint) : Endpoint :=
  { e with outgoingResources := e.outgoingResources ++ [r] }

/-- `Link::register_incoming_resource` -/
def registerIncomingResource (r : Nat) (e : Endpoint) : Endpoint :=
  { e with incomingResources := e.incomingResources ++ [r] }

/-- `Link::cancel_outgoing_resource` -/
def cancelOutgoingResource (r : Nat) (e : Endpoint) : Endpoint :=
  { e with outgoingResources := e.outgoingResources.filter (· ≠ r) }

/-- `Link::cancel_incoming_resource` -/
def cancelIncomingResource (r : Nat) (e : Endpoint) : Endpoint :=
  { e with incomingResources := e.incomingResources.filter (· ≠ r) }

/-- `Link::ready_for_new_resource` -/
def readyForNewResource (e : Endpoint) : Bool := e.outgoingResources.isEmpty

/-- `Link::has_incoming_resource`, by the hash -/
def hasIncomingResource (hash : Bytes) (e : Endpoint) : Bool :=
  e.incomingResources.any fun r => (e.resources r).hash = hash

/-- `RequestReceipt`: what goes into the pending requests of the link. -/
def addReceipt (receipt : RequestReceipt) (e : Endpoint) : Endpoint :=
  { e with
    receipts := Function.update e.receipts e.requested receipt
    requested := e.requested + 1
    pendingRequests := e.pendingRequests ++ [e.requested] }

end Endpoint

variable (env : Env)

/-- `Link::encrypt`. The token stays behind. -/
def encrypt (plaintext : Bytes) : Prog String Endpoint Bytes := do
  let e ← Prog.get
  let token ← Prog.ofExcept e.link.getToken
  Prog.modify fun e => { e with link := { e.link with token := some token }, draws := e.draws + 1 }
  pure (tokenEncrypt env.ciphers token (env.iv e.draws) plaintext)

/-- `Link::decrypt`: what does not decrypt is nothing. -/
def decrypt (ciphertext : Bytes) : Prog String Endpoint Bytes := do
  let e ← Prog.get
  match e.link.getToken with
  | .error _ => pure []
  | .ok token =>
    Prog.modify (.withLink fun l => { l with token := some token })
    pure ((tokenDecrypt env.ciphers token ciphertext).toOption.getD [])

/-- The packet of `Packet(link, data)`, packed. -/
def packFor (e : Endpoint) (packetType : PacketType) (context : ContextType) (data : Bytes) :
    Except String Packet :=
  pack (fun _ plaintext => e.link.getToken.map fun token =>
      tokenEncrypt env.ciphers token (env.iv e.draws) plaintext)
    (linkSpec e.link packetType context (data.left reticulumMdu))

/-- `Transport::outbound`: does an interface take the packet? -/
def outbound (p : Packet) : Prog String Endpoint Bool := do
  let e ← Prog.get
  Prog.modify fun e => { e with draws := e.draws + 1 }
  Prog.when (env.transmits e.draws) (Prog.modify (.note (.sent p)))
  pure (env.transmits e.draws)

/-- `Packet(link, data)` with its type and context, and `Packet::send`, which gives the packet back whether
or not an interface took it. -/
def send (packetType : PacketType) (context : ContextType) (data : Bytes) :
    Prog String Endpoint Packet := do
  let e ← Prog.get
  Prog.require (e.link.status ≠ .closed) "Attempt to transmit over a closed link"
  -- packing leaves a token behind where it encrypts, also when the packet is too long then
  Prog.modify (.withLink fun l => if plaintextOnWire (linkSpec l packetType context data) then l else l.keepToken)
  let p ← Prog.ofExcept (packFor env e packetType context data)
  Prog.modify fun e => { e with draws := e.draws + 1 }
  let _ ← outbound env p
  pure p

/-- A `send` whose exception is caught and logged. -/
def trySend (packetType : PacketType) (context : ContextType) (data : Bytes) :
    Prog String Endpoint Unit :=
  Prog.catching (do let _ ← send env packetType context data) fun _ => pure ()

end MicroReticulum.Link
