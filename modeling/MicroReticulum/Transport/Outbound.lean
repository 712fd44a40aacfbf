import MicroReticulum.Library.Rounding
import MicroReticulum.Transport.State

/-!
# Sending

`outbound` is `Transport::outbound` and `transmit` is `Transport::transmit`. A packet whose
destination has a known path goes to the interface of that path, inserted into transport when the
destination is more than one hop away. Any other packet goes to every outgoing interface that its
link, its attached interface and the announce rules of the interface's mode allow.

What the source writes to the packet object (`sent`, `sent_at`, `receipt`) is the result. The hooks
that only count (`sent_announce`, `sent_path_request`) and the transmit callback, which cannot refuse,
are left out; so is the packet cache, in which `outbound` never stores anything.
-/

namespace MicroReticulum.Transport

open MicroReticulum Packet Link Library

/-- A packed packet with what `outbound` reads of its objects. -/
structure OutgoingPacket where
  packet : Packet
  /-- type of `_destination`; `none` when the packet has no destination -/
  destination : Option DestinationType
  destinationLink : Option LinkState := none
  attachedInterface : Option Interface := none
  createReceipt : Bool := true

/-- What `outbound` reports: its return value and the receipt it made. -/
structure SendResult where
  sent : Bool
  receipt : Option PacketReceipt

/-- The loop that waits for `_jobs_running`; on one thread nothing else clears the flag. -/
def waitForJobs : Prog String TransportState Unit := do
  let s ← Prog.get
  if s.jobsRunning then Prog.wait else pure ()

/-- The assignment of `_jobs_locked`. -/
def setJobsLocked (locked : Bool) (s : TransportState) : TransportState :=
  { s with jobsLocked := locked }

/-- What an interface's driver answers when it is handed a packet. -/
def accepts (env : Environment) (s : TransportState) (interface : Interface) (raw : Bytes) : Bool :=
  !interface.ifacIdentity && env.sendOutgoing s.wire interface raw

/-- `Transport::transmit`: nothing is sent on an interface with an access code. -/
def transmit (env : Environment) (interface : Interface) (raw : Bytes) :
    Prog String TransportState Bool := do
  let s ← Prog.get
  Prog.when (interface.ifacIdentity = false) <|
    Prog.modify fun s => { s with wire := (interface, raw) :: s.wire }
  pure (accepts env s interface raw)

/-! ## Known paths -/

/-- The path `outbound` uses for a packet. -/
def outboundPath (s : TransportState) (p : OutgoingPacket) : Option DestinationEntry :=
  if p.packet.packetType ≠ .announce ∧ p.destination ≠ some .plain ∧ p.destination ≠ some .group then
    getPath s p.packet.destinationHash
  else none

/-- A packet for this path has to be inserted into transport: the destination is more than one hop
away, or one hop behind a shared instance. -/
def insertsTransport (env : Environment) (entry : DestinationEntry) : Bool :=
  1 < entry.hops || (entry.hops = 1 && env.ownerConnectedToSharedInstance)

/-- The bytes `outbound` transmits along a known path; a packet that already has a transport header is
not inserted again, and not sent. -/
def knownPathRaw (env : Environment) (p : Packet) (entry : DestinationEntry) : Option Bytes :=
  if insertsTransport env entry then
    if p.headerType = .header1 then some (insertTransport p entry.receivedFrom) else none
  else some p.raw

/-- `outbound` along a known path. -/
def outboundKnown (env : Environment) (p : Packet) (entry : DestinationEntry) :
    Prog String TransportState Bool :=
  match knownPathRaw env p entry with
  | none => pure false
  | some raw => do
    let sent ← transmit env entry.receivingInterface raw
    Prog.when (sent = true) <| Prog.modify (recordNeighborPacket env.now entry.receivedFrom)
    pure sent

/-! ## Broadcast -/

/-- A packet for a link is sent while the link is open, on its attached interface. -/
def linkAllows (p : OutgoingPacket) (interface : Interface) : Except String Bool :=
  if p.destination = some .link then
    match p.destinationLink with
    | none => .error "Packet is not associated with a Link"
    | some link =>
      .ok (link.status ≠ .closed
        && (link.attachedInterface.isNone || sameInterface (some interface) link.attachedInterface))
  else .ok true

/-- A packet with an attached interface is sent nowhere else. -/
def attachedAllows (p : OutgoingPacket) (interface : Interface) : Bool :=
  p.attachedInterface.isNone || sameInterface (some interface) p.attachedInterface

/-- An announce that is not from here is passed on only when its next hop has an interface whose mode
is none of `blocked`. -/
def fromInterfaceAllows (s : TransportState) (p : Packet) (blocked : List InterfaceMode) : Bool :=
  p.destinationHash ∈ s.destinations ||
    match nextHopInterface s p.destinationHash with
    | none => false
    | some fromInterface => fromInterface.mode ∉ blocked

/-- The random blob of an announce: `Type::Identity::RANDOM_HASH_LENGTH / 8` bytes behind the public
key and the name hash. -/
def randomBlob (p : Packet) : Bytes := p.data.midLen (ecpubsize + 10) 10

/-- `OS::from_bytes_big_endian` of the five bytes at offset five. -/
def emissionOf (blob : Bytes) : Nat :=
  (List.range 5).foldl (fun n i => n * 256 + (blob.byte (5 + i)).toNat) 0

/-- `Transport::announce_emitted` -/
def announceEmitted (p : Packet) : Nat := if randomBlob p = [] then 0 else emissionOf (randomBlob p)

/-- A float that is not negative as a `uint16_t`: its fraction is cut off. -/
def toUInt16 (env : Environment) (q : ℚ) : UInt16 := if q < 65536 then UInt16.ofNat ⌊q⌋.toNat else env.outOfRange q

/-- The seconds an interface stays quiet behind an announce. The time of the transmission is a `uint16_t`, and it is
divided by the cap as a 32-bit float. -/
def announceWait (env : Environment) (interface : Interface) (raw : Bytes) : UInt16 :=
  if 0 < interface.bitrate ∧ 0 < interface.announceCap then
    let txTime := UInt16.ofNat (raw.length * 8 / interface.bitrate)
    toUInt16 env (roundBinary32 (txTime.toNat / interface.announceCap))
  else 0

-- a second of transmission under a cap of 0.05, which as a float is a little more
example : announceWait .idle { id := 1, bitrate := 4000, announceCap := 13421773 / 268435456 }
    (List.replicate 500 0) = 20 := by
  decide +kernel

/-- Replace or add an announce in an interface's queue. -/
def queueAnnounce (now : ℚ) (p : Packet) (queue : List QueuedAnnounce) : List QueuedAnnounce :=
  if queue.length < maxQueuedAnnounces then
    let queued : QueuedAnnounce :=
      { destination := p.destinationHash, time := now, hops := p.hops, emitted := announceEmitted p
        raw := p.raw }
    match queue.findIdx? fun q => q.destination = p.destinationHash with
    | none => queue ++ [queued]
    | some i => queue.modify i fun q => if q.emitted < queued.emitted then queued else q
  else queue

/-- The setter `announce_allowed_at` of an interface. -/
def setAnnounceAllowedAt (id : Nat) (time : ℚ) (s : TransportState) : TransportState :=
  { s with announceAllowedAt := Function.update s.announceAllowedAt id time }

/-- The announce queue of an interface, changed in place. -/
def adjustAnnounceQueue (id : Nat) (f : List QueuedAnnounce → List QueuedAnnounce)
    (s : TransportState) : TransportState :=
  { s with announceQueue := Function.update s.announceQueue id (f (s.announceQueue id)) }

/-- The bandwidth cap for announces that were passed on: the announce may go out now, or it is
queued. -/
def announceCapAllows (env : Environment) (p : Packet) (interface : Interface) :
    Prog String TransportState Bool := do
  let s ← Prog.get
  if p.hops = 0 then pure true
  else if s.announceQueue interface.id = [] ∧ s.announceAllowedAt interface.id < env.now then do
    Prog.modify (setAnnounceAllowedAt interface.id (env.now + (announceWait env interface p.raw).toNat))
    pure true
  else do
    Prog.modify (adjustAnnounceQueue interface.id (queueAnnounce env.now p))
    pure false

/-- The announce rules of an interface's mode. -/
def announceAllows (env : Environment) (p : Packet) (interface : Interface) :
    Prog String TransportState Bool := do
  let s ← Prog.get
  match interface.mode with
  | .accessPoint => pure false
  | .roaming => pure (fromInterfaceAllows s p [.none, .roaming, .boundary])
  | .boundary => pure (fromInterfaceAllows s p [.none, .roaming])
  | _ => announceCapAllows env p interface

/-- The announce rules, for an announce without an attached interface. -/
def announceRules (env : Environment) (p : OutgoingPacket) (interface : Interface) :
    Prog String TransportState Bool :=
  if p.packet.packetType = .announce ∧ p.attachedInterface.isNone then
    announceAllows env p.packet interface
  else pure true

/-- `should_transmit` of the broadcast loop. -/
def shouldTransmit (env : Environment) (p : OutgoingPacket) (interface : Interface) :
    Prog String TransportState Bool := do
  let onLink ← Prog.ofExcept (linkAllows p interface)
  let allowed ← announceRules env p interface
  pure (onLink && attachedAllows p interface && allowed)

/-- The two variables of the broadcast loop. -/
structure BroadcastState where
  sent : Bool := false
  storedHash : Bool := false

/-- One round of the broadcast loop. The result of every transmission replaces the one before. -/
def broadcastOn (env : Environment) (p : OutgoingPacket) (b : BroadcastState)
    (interface : Interface) : Prog String TransportState BroadcastState :=
  if interface.out then do
    let should ← shouldTransmit env p interface
    if should then do
      Prog.when (b.storedHash = false) <|
        Prog.modify (addPacketHash (p.packet.getHash env.fullHash))
      let sent ← transmit env interface p.packet.raw
      pure { sent, storedHash := true }
    else pure b
  else pure b

/-- `outbound` without a known path. -/
def outboundBroadcast (env : Environment) (p : OutgoingPacket) :
    Prog String TransportState Bool := do
  let s ← Prog.get
  let b ← Prog.fold s.interfaces {} (broadcastOn env p)
  pure b.sent

/-! ## Receipts -/

/-- The packets `outbound` makes a receipt for. -/
def wantsReceipt (p : OutgoingPacket) : Bool :=
  p.createReceipt && p.packet.packetType = .data && p.destination ≠ some .plain
    && !(ContextType.keepalive ≤ p.packet.context && p.packet.context ≤ ContextType.lrproof)
    && !(ContextType.resource ≤ p.packet.context && p.packet.context ≤ ContextType.resourceRcl)

/-- The `PacketReceipt` constructor. The timeout is kept as it is computed; how `int16_t _timeout` cuts it is
`TimeoutSource.stored` of a `Narrowing`. -/
def newReceipt (env : Environment) (s : TransportState) (p : OutgoingPacket) :
    Except String PacketReceipt :=
  let receipt (timeout : ℚ) : PacketReceipt :=
    { hash := p.packet.getHash env.fullHash
      truncatedHash := p.packet.getTruncatedHash env.fullHash, sentAt := env.now, timeout }
  if p.destination = some .link then
    match p.destinationLink with
    | none => .error "Packet is not associated with a Link"
    | some link => .ok (receipt (max (link.rtt * 6) (5 / 1000)))
  else
    .ok (receipt (firstHopTimeout s p.packet.destinationHash
      + defaultPerHopTimeout * (hopsTo s p.packet.destinationHash).toNat))

/-- The receipt of a packet, when it was sent. -/
def addReceipt (env : Environment) (p : OutgoingPacket) (sent : Bool) :
    Prog String TransportState (Option PacketReceipt) :=
  if sent ∧ wantsReceipt p then do
    let s ← Prog.get
    let receipt ← Prog.ofExcept (newReceipt env s p)
    Prog.modify fun s => { s with receipts := s.receipts ++ [receipt] }
    pure (some receipt)
  else pure none

/-! ## `outbound` -/

/-- The transmission part of `outbound`. -/
def transmitPacket (env : Environment) (p : OutgoingPacket) : Prog String TransportState Bool := do
  let s ← Prog.get
  match outboundPath s p with
  | some entry => outboundKnown env p.packet entry
  | none => outboundBroadcast env p

/-- `Transport::outbound` between taking and releasing the jobs lock. -/
def outboundLocked (env : Environment) (p : OutgoingPacket) :
    Prog String TransportState SendResult := do
  let sent ← transmitPacket env p
  let receipt ← addReceipt env p sent
  pure { sent, receipt }

/-- `Transport::outbound` -/
def outbound (env : Environment) (p : OutgoingPacket) : Prog String TransportState SendResult :=
  match p.destination with
  | none => pure { sent := false, receipt := none }
  | some _ => do
    waitForJobs
    Prog.modify (setJobsLocked true)
    let result ← outboundLocked env p
    Prog.modify (setJobsLocked false)
    pure result

/-- A packet that was built and not packed yet. -/
structure NewPacket where
  spec : PacketSpec
  destinationLink : Option LinkState := none
  attachedInterface : Option Interface := none
  createReceipt : Bool := true

/-- `Packet::send` of a packet that was not sent before. The traffic counters of its link are left
out. -/
def send (env : Environment) (p : NewPacket) : Prog String TransportState SendResult := do
  Prog.ofExcept <|
    if p.spec.destinationType = .link then
      match p.destinationLink with
      | none => .error "Packet is not associated with a Link"
      | some link =>
        if link.status = .closed then .error "Attempt to transmit over a closed link" else .ok ()
    else .ok ()
  let packet ← Prog.ofExcept (pack env.encrypt p.spec)
  outbound env
    { packet, destination := some p.spec.destinationType, destinationLink := p.destinationLink
      attachedInterface := p.attachedInterface, createReceipt := p.createReceipt }

end MicroReticulum.Transport
