import MicroReticulum.Transport.Announce

/-!
# Receiving

`inbound` is `Transport::inbound`: `arrive` up to the hop count of the packet, `process` for a packet
that the filter accepted, and the release of the jobs lock. `process` is transport handling (plain
broadcasts, cache requests, next hops, link transport) followed by local handling by packet type.

The source leaves the function early in four places, by `Prog.leave` here: without an identity, when
the packet does not unpack, when a cache request was answered, and when the signalling bytes of a link
request to be passed on cannot be rebuilt. The interface is an option, because a packet from the cache
is replayed without one.

The receive callback, which cannot refuse, and the signal quality of a packet are left out.
-/

namespace MicroReticulum.Transport

open MicroReticulum Packet Link Library

/-! ## Arrival -/

/-- A packet on its way through `inbound`. -/
structure Arrived where
  packet : Packet
  receivingInterface : Interface
  /-- hash of `_identity` -/
  identity : Address

/-- The hop byte of a packet as `inbound` counts it: one more than on the wire, but not when it came
from a local client or from a shared instance. -/
def arrivalHops (s : TransportState) (i : Interface) (hops : UInt8) : UInt8 :=
  if s.localClientInterfaces ≠ [] then
    if isLocalClientInterface i then hops + 1 - 1 else hops + 1
  else if interfaceToSharedInstance i then hops + 1 - 1
  else hops + 1

/-- `Transport::inbound` up to the hop count. -/
def arrive (raw : Bytes) (interface : Option Interface) : Prog String TransportState Arrived := do
  waitForJobs
  let s ← Prog.get
  match s.identity with
  | none => Prog.leave
  | some identity => do
    Prog.modify (setJobsLocked true)
    match unpack raw with
    | none => Prog.leave
    | some p =>
      match interface with
      -- the flags of an empty handle are asserted not to be read
      | none => Prog.wait
      | some i =>
        pure { packet := { p with hops := arrivalHops s i p.hops }, receivingInterface := i, identity }

/-- The filter callback, then `Transport::packet_filter`. An exception in the callback accepts. -/
def acceptsPacket (env : Environment) (s : TransportState) (p : Packet) : Bool :=
  (match env.filterPacket p with
    | .ok accept => accept
    | .error _ => true) && packetFilter env s p

/-- Packets of known links and link proofs are not remembered yet: they may arrive on the wrong
interface first. -/
def rememberHash (env : Environment) (p : Packet) (s : TransportState) : TransportState :=
  if p.destinationHash ∉ s.linkTable
      ∧ ¬ (p.packetType = .proof ∧ p.context = ContextType.lrproof) then
    addPacketHash (p.getHash env.fullHash) s
  else s

/-- What `inbound` finds out about local clients. -/
structure ClientFlags where
  fromLocalClient : Bool
  forLocalClient : Bool
  forLocalClientLink : Bool
  proofForLocalClient : Bool

/-- An interface is among `_local_client_interfaces`. -/
def isLocalClient (s : TransportState) (i : Interface) : Bool :=
  s.localClientInterfaces.any fun l => l.id = i.id

/-- The four flags of a packet. -/
def clientFlags (s : TransportState) (a : Arrived) : ClientFlags where
  fromLocalClient := isLocalClient s a.receivingInterface
  forLocalClient := a.packet.packetType ≠ .announce &&
    (getPath s a.packet.destinationHash).any fun entry => entry.hops = 0
  forLocalClientLink := a.packet.packetType ≠ .announce &&
    (s.linkTable.lookup a.packet.destinationHash).any fun entry =>
      isLocalClient s entry.receivingInterface || isLocalClient s entry.outboundInterface
  proofForLocalClient := (s.reverseTable.lookup a.packet.destinationHash).any fun entry =>
    isLocalClient s entry.receivingInterface

/-! ## Transport handling -/

/-- Hand a packet to every interface of a list. -/
def transmitOn (env : Environment) (interfaces : List Interface) (raw : Bytes) :
    Prog String TransportState Unit :=
  Prog.forEach interfaces fun i => do
    let _ ← transmit env i raw
    pure ()

/-- What a node transmits on one interface is on the wire, unless the interface has an access code. -/
theorem transmitOn_one (env : Environment) (i : Interface) (raw : Bytes) (s : TransportState) :
    (transmitOn env [i] raw s).2 = if i.ifacIdentity = false then { s with wire := (i, raw) :: s.wire } else s := by
  unfold transmitOn Prog.forEach transmit
  by_cases hifac : i.ifacIdentity = false
  · simp only [Prog.when_of hifac, if_pos hifac]
    rfl
  · simp only [Prog.when_of_not hifac, if_neg hifac]
    rfl

/-- Plain broadcasts go from local clients to everyone else, and from everyone else to local
clients. -/
def broadcastPlain (env : Environment) (flags : ClientFlags) (a : Arrived) :
    Prog String TransportState Unit := do
  let s ← Prog.get
  Prog.when (a.packet.destinationHash ∉ s.controlHashes ∧ a.packet.destinationType = .plain
      ∧ a.packet.transportType = .broadcast) <|
    if flags.fromLocalClient then
      transmitOn env (s.interfaces.filter fun i => i.id ≠ a.receivingInterface.id) a.packet.raw
    else transmitOn env s.localClientInterfaces a.packet.raw

/-- The condition for general transport handling. -/
def transports (env : Environment) (flags : ClientFlags) : Bool :=
  env.transportEnabled || flags.fromLocalClient || flags.forLocalClient || flags.forLocalClientLink

/-- A packet for a local client has lost its transport id on the previous hop. -/
def regenerateTransportId (flags : ClientFlags) (a : Arrived) : Arrived :=
  if a.packet.transportId = none ∧ flags.forLocalClient = true then
    { a with packet := { a.packet with transportId := some a.identity } }
  else a

/-- The cached packet a cache request asks for. -/
def requestedPacket (s : TransportState) (p : Packet) : Option CachedPacket :=
  if p.context = ContextType.cacheRequest ∧ p.data.length = 32 then s.packetCache.lookup p.data
  else none

/-- `Transport::cache_request_packet`: the cached packet is replayed, and processing ends. It comes
from no interface, so the replay ends in `arrive`. -/
def answerCacheRequest (a : Arrived) : Prog String TransportState Unit := do
  let s ← Prog.get
  match requestedPacket s a.packet with
  | none => pure ()
  | some cached => do
    Prog.call do
      let _ ← arrive cached.raw none
      pure ()
    Prog.leave

/-- The link table entry of a link request that is passed on. -/
def linkEntry (env : Environment) (a : Arrived) (entry : DestinationEntry) : LinkEntry where
  timestamp := env.now
  nextHop := entry.receivedFrom
  outboundInterface := entry.receivingInterface
  remainingHops := entry.hops
  receivingInterface := a.receivingInterface
  hops := a.packet.hops
  destinationHash := a.packet.destinationHash
  validated := false
  proofTimeout := extraLinkProofTimeout a.receivingInterface + env.now
    + defaultPerHopTimeout * max 1 entry.hops.toNat

/-- The reverse table entry of any other packet that is passed on. -/
def reverseEntry (env : Environment) (a : Arrived) (entry : DestinationEntry) : ReverseEntry where
  receivingInterface := a.receivingInterface
  outboundInterface := entry.receivingInterface
  timestamp := env.now
  nextHop := entry.receivedFrom

/-- Record a packet that is passed on. -/
def recordForward (env : Environment) (a : Arrived) (entry : DestinationEntry)
    (s : TransportState) : TransportState :=
  if a.packet.packetType = .linkrequest then
    let linkId := linkIdFromLrPacket env.fullHash a.packet
    { s with linkTable := s.linkTable.emplace linkId (linkEntry env a entry) }
  else
    let packetHash := a.packet.getTruncatedHash env.fullHash
    { s with reverseTable := s.reverseTable.emplace packetHash (reverseEntry env a entry) }

/-- The path along which this node is the designated next hop of a packet. -/
def nextHopPath (s : TransportState) (a : Arrived) : Option DestinationEntry :=
  if a.packet.packetType ≠ .announce ∧ a.packet.transportId = some a.identity then
    getPath s a.packet.destinationHash
  else none

/-- What the designated next hop transmits along a path. -/
def forwardRaw (a : Arrived) (entry : DestinationEntry) : Except String Bytes :=
  nextHopForward a.packet a.receivingInterface.hwMtu entry.receivingInterface entry.receivedFrom
    entry.hops

/-- A packet for which this node is the designated next hop. A link request whose signalling bytes
cannot be clamped is dropped. -/
def forwardNextHop (env : Environment) (a : Arrived) : Prog String TransportState Unit := do
  let s ← Prog.get
  match nextHopPath s a with
  | none => pure ()
  | some entry =>
    match forwardRaw a entry with
    | .error _ => Prog.leave
    | .ok raw => do
      Prog.modify (recordForward env a entry)
      transmitOn env [entry.receivingInterface] raw

/-- The interface on the other side of a link in transport, when the hop count is one of those
expected. -/
def linkTransportInterface (a : Arrived) (entry : LinkEntry) : Option Interface :=
  if entry.outboundInterface.id = entry.receivingInterface.id then
    if a.packet.hops = entry.remainingHops ∨ a.packet.hops = entry.hops then
      some entry.outboundInterface
    else none
  else if a.receivingInterface.id = entry.outboundInterface.id then
    if a.packet.hops = entry.remainingHops then some entry.receivingInterface else none
  else if a.receivingInterface.id = entry.receivingInterface.id then
    if a.packet.hops = entry.hops then some entry.outboundInterface else none
  else none

/-- Link transport. -/
def linkTransport (env : Environment) (a : Arrived) : Prog String TransportState Unit := do
  let s ← Prog.get
  Prog.when (a.packet.packetType ≠ .announce ∧ a.packet.packetType ≠ .linkrequest
      ∧ a.packet.context ≠ ContextType.lrproof) <|
    match (s.linkTable.lookup a.packet.destinationHash).bind (linkTransportInterface a) with
    | none => pure ()
    | some i => do
      transmitOn env [i] (hopRaw a.packet)
      Prog.modify fun s =>
        { s with linkTable := s.linkTable.adjust a.packet.destinationHash fun entry =>
            { entry with timestamp := env.now } }
      Prog.modify (addPacketHash (a.packet.getHash env.fullHash))

/-- General transport handling. The result is the packet, with a regenerated transport id. -/
def transportHandling (env : Environment) (flags : ClientFlags) (a : Arrived) :
    Prog String TransportState Arrived :=
  if transports env flags then do
    let a := regenerateTransportId flags a
    answerCacheRequest a
    forwardNextHop env a
    linkTransport env a
    pure a
  else pure a

/-! ## Local handling -/

/-- A link request with its signalled MTU clamped to what the receiving interface can carry; the error
is the exception that makes the source drop the request. -/
def clampLinkRequest (i : Interface) (p : Packet) : Except String Packet :=
  let pathMtu := mtuFromLrPacket p
  let nhMtu : UInt16 :=
    if i.autoconfigureMtu || i.fixedMtu then i.hwMtu else UInt16.ofNat reticulumMtu
  let stripped := p.data.left (p.data.length - linkMtuSize)
  if pathMtu = 0 then .ok p
  else if i.hwMtu = 0 then .ok { p with data := stripped }
  else if nhMtu < pathMtu then
    (signallingBytes nhMtu (modeFromLrPacket p)).map fun clamped => { p with data := stripped ++ clamped }
  else .ok p

/-- The registered destination a packet is addressed to, of the type its flags name. -/
def localDestination (s : TransportState) (p : Packet) : Option LocalDestination :=
  (s.destinations.lookup p.destinationHash).filter fun d => d.type = p.destinationType

/-- A link request for a local destination. -/
def handleLinkRequest (env : Environment) (a : Arrived) : Prog String TransportState Unit := do
  let s ← Prog.get
  Prog.when ((a.packet.transportId = none ∨ a.packet.transportId = some a.identity)
      ∧ (localDestination s a.packet).isSome) <|
    match clampLinkRequest a.receivingInterface a.packet with
    | .error _ => pure ()
    | .ok p => callHandler (env.destinationReceive p.destinationHash p)

/-- Data for a link. On the wrong interface its hash is forgotten again. -/
def handleLinkData (env : Environment) (a : Arrived) : Prog String TransportState Unit := do
  let s ← Prog.get
  match s.activeLinks.find? fun l => l.linkId = a.packet.destinationHash with
  | none => pure ()
  | some link =>
    if sameInterface link.attachedInterface (some a.receivingInterface) then
      callHandler (env.linkReceive link.linkId a.packet)
    else
      Prog.modify fun s =>
        { s with packetHashlist := s.packetHashlist.filter (· ≠ a.packet.getHash env.fullHash) }

/-- Data for a local destination, and the proof its strategy asks for. -/
def handleDestinationData (env : Environment) (a : Arrived) : Prog String TransportState Unit := do
  let s ← Prog.get
  match localDestination s a.packet with
  | none => pure ()
  | some destination => do
    callHandler (env.destinationReceive a.packet.destinationHash a.packet)
    match destination.proofStrategy with
    | .proveAll => callHandler (env.provePacket a.packet)
    | .proveApp =>
      match env.proofRequested a.packet.destinationHash with
      | none => pure ()
      | some requested =>
        Prog.catching
          (do
            let prove ← callHandler (requested a.packet)
            Prog.when (prove = true) (callHandler (env.provePacket a.packet)))
          fun _ => pure ()
    | .proveNone => pure ()

/-- What the destination of a link signs in its proof. -/
def linkProofSigned (p : Packet) (peerSigPub signalling : Bytes) : Bytes :=
  p.destinationHash.toList ++ p.data.midLen siglength (ecpubsize / 2) ++ peerSigPub ++ signalling

/-- The signalling bytes of a link proof of either size. -/
def linkProofSignalling (p : Packet) : Except String Bytes :=
  if p.data.length = siglength + ecpubsize / 2 + linkMtuSize then
    signallingBytes (mtuFromLpPacket p) (modeFromLpPacket p)
  else .ok []

/-- A link proof of a link in transport, on the interface it is expected on. -/
def transportLinkProof (env : Environment) (a : Arrived) (entry : LinkEntry) :
    Prog String TransportState Unit :=
  let p := a.packet
  Prog.when (p.data.length = siglength + ecpubsize / 2
      ∨ p.data.length = siglength + ecpubsize / 2 + linkMtuSize) do
    let signalling ← Prog.ofExcept (linkProofSignalling p)
    let identity ← identityRecall env entry.destinationHash
    match identity with
    | none => pure ()
    | some identity =>
      let peerSigPub := identity.publicKey.midLen (ecpubsize / 2) (ecpubsize / 2)
      Prog.when (env.verify peerSigPub (p.data.left siglength)
          (linkProofSigned p peerSigPub signalling) = true) do
        Prog.modify fun s =>
          { s with linkTable := s.linkTable.adjust p.destinationHash fun entry =>
              { entry with validated := true } }
        transmitOn env [entry.receivingInterface] (hopRaw p)

/-- A proof of a link request: passed on, or given to a pending link. -/
def handleLinkProof (env : Environment) (flags : ClientFlags) (a : Arrived) :
    Prog String TransportState Unit := do
  let s ← Prog.get
  match
    if env.transportEnabled || flags.forLocalClientLink || flags.fromLocalClient then
      s.linkTable.lookup a.packet.destinationHash
    else none with
  | some entry =>
    Prog.when (a.receivingInterface.id = entry.outboundInterface.id) <|
      Prog.catching (transportLinkProof env a entry) fun _ => pure ()
  | none =>
    Prog.forEach (s.pendingLinks.filter fun l => l.linkId = a.packet.destinationHash) fun l =>
      callHandler (env.linkValidateProof l.linkId a.packet)

/-- A proof of a resource. -/
def handleResourceProof (env : Environment) (a : Arrived) : Prog String TransportState Unit := do
  let s ← Prog.get
  Prog.forEach (s.activeLinks.filter fun l => l.linkId = a.packet.destinationHash) fun l =>
    callHandler (env.linkReceive l.linkId a.packet)

/-- A proof on its way back along the reverse table. -/
def transportProof (env : Environment) (flags : ClientFlags) (a : Arrived) :
    Prog String TransportState Unit := do
  let s ← Prog.get
  match
    if env.transportEnabled || flags.fromLocalClient || flags.proofForLocalClient then
      s.reverseTable.lookup a.packet.destinationHash
    else none with
  | none => pure ()
  | some entry =>
    Prog.when (a.receivingInterface.id = entry.outboundInterface.id) do
      transmitOn env [entry.receivingInterface] (hopRaw a.packet)
      Prog.modify (recordNeighborProof env.now entry.nextHop)

/-- The packet hash an explicit proof names: `Type::PacketReceipt::EXPL_LENGTH` bytes. -/
def proofHash (p : Packet) : Option Bytes :=
  if p.data.length = 32 + siglength then some (p.data.left 32) else none

/-- Offer a proof to the outstanding receipts it may belong to, and remove those it concludes. -/
def concludeReceipts (env : Environment) (a : Arrived) : Prog String TransportState Unit := do
  let s ← Prog.get
  let link :=
    if a.packet.destinationType = .link then
      s.activeLinks.find? fun l => l.linkId = a.packet.destinationHash
    else none
  let candidates := s.receipts.filter fun r =>
    (proofHash a.packet).all fun hash => r.hash.toList = hash
  let concluded ← Prog.fold candidates [] fun concluded r => do
    let validated ← callHandler (env.validateProofPacket r a.packet link)
    pure (if validated then r.hash :: concluded else concluded)
  Prog.modify fun s => { s with receipts := s.receipts.filter fun r => r.hash ∉ concluded }

/-- Any kind of proof. -/
def handleProof (env : Environment) (flags : ClientFlags) (a : Arrived) :
    Prog String TransportState Unit :=
  if a.packet.context = ContextType.lrproof then handleLinkProof env flags a
  else if a.packet.context = ContextType.resourcePrf then handleResourceProof env a
  else do
    transportProof env flags a
    concludeReceipts env a

/-- Local handling, by packet type. -/
def localHandling (env : Environment) (flags : ClientFlags) (a : Arrived) :
    Prog String TransportState Unit :=
  match a.packet.packetType with
  | .announce => handleAnnounce env a.packet a.receivingInterface a.identity
  | .linkrequest => handleLinkRequest env a
  | .data =>
    if a.packet.destinationType = .link then handleLinkData env a else handleDestinationData env a
  | .proof => handleProof env flags a

/-! ## `inbound` -/

/-- `Transport::inbound` for a packet that the filter accepted. -/
def process (env : Environment) (a : Arrived) : Prog String TransportState Unit := do
  Prog.modify (rememberHash env a.packet)
  let s ← Prog.get
  let flags := clientFlags s a
  broadcastPlain env flags a
  let a ← transportHandling env flags a
  localHandling env flags a

/-- `Transport::inbound` -/
def inbound (env : Environment) (raw : Bytes) (interface : Option Interface) :
    Prog String TransportState Unit :=
  Prog.call do
    let a ← arrive raw interface
    let s ← Prog.get
    Prog.when (acceptsPacket env s a.packet = true) (process env a)
    Prog.modify (setJobsLocked false)

end MicroReticulum.Transport
