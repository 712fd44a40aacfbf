import MicroReticulum.Library.Objects
import MicroReticulum.Link.State
import MicroReticulum.Transport.Rewrite
import Mathlib.Data.List.AList
import Mathlib.Data.Rat.Floor

/-!
# The state of the transport layer

`TransportState` holds the static members of `Transport` that sending, receiving and the job loop
read and write: the two job flags, the tables, the outstanding receipts and what every interface was
handed. The tables are association lists, with `emplace` for the `insert` of `std::map`, which keeps
an entry that is already there. The path store keeps its entries encoded, so `getPath` decodes an
entry each time it is looked up.

`Environment` is the rest of the world during one call: the clock, the settings, the interface
drivers, the store below the path table, cryptography and the handlers of destinations, links and the
application. A handler comes back with a value or an exception and may change the state in between; an
interface driver only answers, from what it was handed before. The one exception the source has for a
failing lookup of static members, a failed `assert` on an empty handle, is `Prog.wait`: nothing runs
behind it.
-/

namespace MicroReticulum.Transport

open MicroReticulum Packet Link Library

/-! ## Constants -/

/-- `Type::Transport::PATHFINDER_M` -/
def pathfinderM : UInt8 := 128

/-- `Type::Transport::PATHFINDER_R` -/
def pathfinderR : UInt8 := 1

/-- `Type::Transport::PATHFINDER_RW` -/
def pathfinderRW : ℚ := 1 / 2

/-- `Type::Transport::LOCAL_REBROADCASTS_MAX` -/
def localRebroadcastsMax : UInt8 := 2

/-- `Type::Transport::PATHFINDER_E`, also `DESTINATION_TIMEOUT` -/
def pathfinderE : ℚ := 60 * 60 * 24 * 7

/-- `Type::Transport::AP_PATH_TIME` -/
def apPathTime : ℚ := 60 * 60 * 24

/-- `Type::Transport::ROAMING_PATH_TIME` -/
def roamingPathTime : ℚ := 60 * 60 * 6

/-- `Type::Transport::MAX_RANDOM_BLOBS` -/
def maxRandomBlobs : Nat := 32

/-- `Type::Transport::PERSIST_RANDOM_BLOBS` -/
def persistRandomBlobs : Nat := 16

/-- `Type::Transport::MAX_RATE_TIMESTAMPS` -/
def maxRateTimestamps : Nat := 16

/-- `Type::Transport::MAX_RECEIPTS` -/
def maxReceipts : Nat := 20

/-- `Type::Reticulum::MAX_QUEUED_ANNOUNCES` -/
def maxQueuedAnnounces : Nat := 20

/-- `Type::Reticulum::DEFAULT_PER_HOP_TIMEOUT`, also `ESTABLISHMENT_TIMEOUT_PER_HOP` of links and
`TIMEOUT_PER_HOP` of packets -/
def defaultPerHopTimeout : ℚ := 6

/-- `Type::Reticulum::MDU`, also `Type::Packet::MDU` -/
def reticulumMdu : Nat := reticulumMtu - headerMaxsize - 1

/-! ## Tables -/

/-- A table keyed by an address, `std::map<Bytes, V>`. -/
abbrev Table (V : Type) : Type := AList fun _ : Address => V

namespace Table

variable {V : Type}

/-- `std::map::insert`: an entry that is there stays. -/
def emplace (t : Table V) (k : Address) (v : V) : Table V := if k ∈ t then t else t.insert k v

/-- Change an entry in place. -/
def adjust (t : Table V) (k : Address) (f : V → V) : Table V :=
  match t.lookup k with
  | none => t
  | some v => t.insert k (f v)

/-- `erase` for every key of a list. -/
def eraseAll (t : Table V) (ks : List Address) : Table V := ks.foldl (fun t k => t.erase k) t

/-- The keys whose entries satisfy `p`. -/
def keysWhere (t : Table V) (p : Address → V → Bool) : List Address :=
  (t.entries.filter fun e => p e.1 e.2).map fun e => e.1

end Table

/-- What the path store keeps for a destination: the encoding of a `DestinationEntry`. -/
structure StoredPath where
  timestamp : ℚ
  receivedFrom : Address
  hops : UInt8
  expires : ℚ
  randomBlobs : List Bytes
  /-- hash of the receiving interface -/
  receivingInterface : Nat
  /-- raw bytes of the announce packet -/
  announce : Bytes

/-- `DestinationEntry` -/
structure DestinationEntry where
  timestamp : ℚ
  receivedFrom : Address
  hops : UInt8
  expires : ℚ
  randomBlobs : List Bytes
  receivingInterface : Interface
  announcePacket : Packet

/-- `microStore::Codec<DestinationEntry>::encode` -/
def DestinationEntry.encode (e : DestinationEntry) : StoredPath where
  timestamp := e.timestamp
  receivedFrom := e.receivedFrom
  hops := e.hops
  expires := e.expires
  randomBlobs := e.randomBlobs.drop (e.randomBlobs.length - persistRandomBlobs)
  receivingInterface := e.receivingInterface.id
  announce := e.announcePacket.raw

/-- `Transport::AnnounceEntry` -/
structure AnnounceEntry where
  timestamp : ℚ
  retransmitTimeout : ℚ
  retries : UInt8
  receivedFrom : Address
  hops : UInt8
  packet : Packet
  localRebroadcasts : UInt8
  blockRebroadcasts : Bool
  attachedInterface : Option Interface

/-- `Transport::LinkEntry` -/
structure LinkEntry where
  timestamp : ℚ
  nextHop : Address
  outboundInterface : Interface
  remainingHops : UInt8
  receivingInterface : Interface
  hops : UInt8
  destinationHash : Address
  validated : Bool
  proofTimeout : ℚ

/-- `Transport::ReverseEntry` -/
structure ReverseEntry where
  receivingInterface : Interface
  outboundInterface : Interface
  timestamp : ℚ
  nextHop : Address

/-- `Transport::RateEntry` -/
structure RateEntry where
  last : ℚ
  rateViolations : ℚ := 0
  blockedUntil : ℚ := 0
  timestamps : List ℚ

/-- `Transport::NeighborStat` -/
structure NeighborStat where
  packetsForwarded : UInt32 := 0
  proofsReceived : UInt32 := 0
  lastPacketAt : ℚ := 0
  lastProofAt : ℚ := 0
  lastProbeAt : ℚ := 0
  probePending : Bool := false
  pendingProbeHash : Option Address := none

/-- `Type::Transport::state` -/
inductive PathState where
  | unknown | unresponsive | responsive
  deriving DecidableEq, Repr

/-- `PathRequestEntry` -/
structure PathRequestEntry where
  timeout : ℚ
  requestingInterface : Option Interface

/-- An announce waiting in `_announce_queue` of an interface. -/
structure QueuedAnnounce where
  destination : Address
  time : ℚ
  hops : UInt8
  emitted : Nat
  raw : Bytes

/-- `Type::Destination::proof_strategies` -/
inductive ProofStrategy where
  | proveNone | proveApp | proveAll
  deriving DecidableEq, Repr

/-- What `inbound` and `Identity::recall` read of a registered destination. -/
structure LocalDestination where
  type : DestinationType
  proofStrategy : ProofStrategy
  /-- public key of its identity, where it has one -/
  publicKey : Option Bytes

/-- `IdentityEntry`, what is remembered of a destination from its announces -/
structure IdentityEntry where
  publicKey : Bytes
  appData : Bytes

/-- `Type::PacketReceipt::status` -/
inductive ReceiptStatus where
  | failed | sent | delivered | culled
  deriving DecidableEq, Repr

/-- What a receipt calls when it times out: the outcome handler of a neighbour probe, or a callback of
the application. -/
inductive TimeoutHandler where
  | none
  | neighborProbe (neighbor : Address)
  | application (id : Nat)
  deriving DecidableEq

/-- The fields of a `PacketReceipt` that do not depend on its destination object. -/
structure PacketReceipt where
  hash : Hash
  truncatedHash : Address
  status : ReceiptStatus := .sent
  sentAt : ℚ
  timeout : ℚ
  concludedAt : ℚ := 0
  timeoutHandler : TimeoutHandler := .none
  deriving DecidableEq

/-- `BlackholeEntry` -/
structure BlackholeEntry where
  /-- hash of the identity that blackholed it -/
  source : Bytes
  /-- a time, or zero for ever -/
  expires : Double
  reason : Bytes

/-- A packet in the cache on disk. The only packets that are ever forced into it are the proofs a
receiver of a resource has sent. -/
structure CachedPacket where
  raw : Bytes
  packet : Packet
  unpacks : unpack raw = some packet
  isProof : packet.packetType = .proof
  ofResource : packet.context = ContextType.resourcePrf

structure TransportState where
  jobsRunning : Bool := false
  jobsLocked : Bool := false
  /-- hash of `_identity` -/
  identity : Option Address := none
  interfaces : List Interface := []
  localClientInterfaces : List Interface := []
  announceQueue : Nat → List QueuedAnnounce := fun _ => []
  announceAllowedAt : Nat → ℚ := fun _ => 0
  packetHashlist : List Hash := []
  pathTable : Table StoredPath := ∅
  pathStates : Table PathState := ∅
  linkTable : Table LinkEntry := ∅
  reverseTable : Table ReverseEntry := ∅
  announceTable : Table AnnounceEntry := ∅
  heldAnnounces : Table AnnounceEntry := ∅
  announceRateTable : Table RateEntry := ∅
  pendingLocalPathRequests : Table (Option Interface) := ∅
  discoveryPathRequests : Table PathRequestEntry := ∅
  /-- by identity hash; what is read from a file may have any length -/
  blackholedIdentities : AList (fun _ : Bytes => BlackholeEntry) := ∅
  neighborStats : Table NeighborStat := ∅
  destinations : Table LocalDestination := ∅
  controlHashes : List Address := []
  knownDestinations : Table IdentityEntry := ∅
  receipts : List PacketReceipt := []
  pendingLinks : List LinkState := []
  activeLinks : List LinkState := []
  packetCache : List (Bytes × CachedPacket) := []
  /-- what the interfaces were handed, newest first -/
  wire : List (Interface × Bytes) := []

/-- Code that is called and comes back, with a value or an exception. -/
abbrev Handler (σ α : Type) : Type := σ → Except String α × σ

/-- Call a handler. -/
def callHandler {σ α : Type} (h : Handler σ α) : Prog String σ α := fun s =>
  match h s with
  | (.ok a, t) => (.value a, t)
  | (.error e, t) => (.thrown e, t)

/-- A registered announce handler. -/
structure AnnounceHandler where
  /-- `aspect_filter`, as the destination hash it expects of an identity; `none` when it is empty -/
  expectedHash : Option (Option IdentityEntry → Address)
  /-- destination hash, identity, application data -/
  receivedAnnounce : Address → Option IdentityEntry → Bytes → Handler TransportState Unit

structure Environment where
  /-- `OS::time()` -/
  now : ℚ
  fullHash : Bytes → Hash
  /-- `Reticulum::transport_enabled()` -/
  transportEnabled : Bool
  /-- `is_connected_to_shared_instance()` of the Reticulum instance -/
  ownerConnectedToSharedInstance : Bool
  announceTableMaxsize : Nat
  pathTableMaxsize : Nat
  /-- the packet filter callback; absent, it accepts -/
  filterPacket : Packet → Except String Bool
  /-- `Interface::send_outgoing`, from what was handed to interfaces before -/
  sendOutgoing : List (Interface × Bytes) → Interface → Bytes → Bool
  /-- answer of the path store to a `put` -/
  storePath : Address → StoredPath → Except String Bool
  /-- answer of the store of known destinations to a `put` -/
  storeIdentity : Address → Bool
  /-- `Cryptography::random()` -/
  random : ℚ
  /-- what the device makes of a float that is to be a `uint16_t` and is out of its range, which is undefined -/
  outOfRange : ℚ → UInt16 := fun _ => 0
  encrypt : PacketSpec → Bytes → Except String Bytes
  /-- public key, signature, message -/
  verify : Bytes → Bytes → Bytes → Bool
  /-- `Identity::validate_announce` -/
  validateAnnounce : Packet → Handler TransportState Bool
  announceHandlers : List AnnounceHandler
  /-- `Destination::receive` of the destination registered under a hash -/
  destinationReceive : Address → Packet → Handler TransportState Unit
  /-- `_proof_requested` of a destination, where it is set -/
  proofRequested : Address → Option (Packet → Handler TransportState Bool)
  /-- `Packet::prove` -/
  provePacket : Packet → Handler TransportState Unit
  /-- `Link::receive` and `Link::validate_proof` of the link with an id -/
  linkReceive : Address → Packet → Handler TransportState Unit
  linkValidateProof : Address → Packet → Handler TransportState Unit
  /-- `PacketReceipt::validate_proof_packet`, with the link the proof was assigned to -/
  validateProofPacket : PacketReceipt → Packet → Option LinkState → Handler TransportState Bool

/-- A node without handlers or callbacks, whose stores and interfaces accept everything. -/
def Environment.idle : Environment where
  now := 0
  fullHash _ := List.Vector.replicate 32 0
  transportEnabled := false
  ownerConnectedToSharedInstance := false
  announceTableMaxsize := 100
  pathTableMaxsize := 100
  filterPacket _ := .ok true
  sendOutgoing _ _ _ := true
  storePath _ _ := .ok true
  storeIdentity _ := true
  random := 0
  encrypt _ data := .ok data
  verify _ _ _ := true
  validateAnnounce _ s := (.ok true, s)
  announceHandlers := []
  destinationReceive _ _ s := (.ok (), s)
  proofRequested _ := none
  provePacket _ s := (.ok (), s)
  linkReceive _ _ s := (.ok (), s)
  linkValidateProof _ _ s := (.ok (), s)
  validateProofPacket _ _ _ s := (.ok false, s)

/-! ## Lookups -/

variable (env : Environment) (s : TransportState)

/-- `Transport::find_interface_from_hash` -/
def findInterface (hash : Nat) : Option Interface := s.interfaces.find? fun i => i.id = hash

/-- `microStore::Codec<DestinationEntry>::decode`. An entry whose interface is not registered any
more comes back without one, which makes it false; the announce packet was received once already. -/
def StoredPath.decode (p : StoredPath) : Option DestinationEntry :=
  match findInterface s p.receivingInterface, unpack p.announce with
  | some receivingInterface, some packet =>
    some
      { timestamp := p.timestamp, receivedFrom := p.receivedFrom, hops := p.hops
        expires := p.expires, randomBlobs := p.randomBlobs, receivingInterface
        announcePacket := { packet with hops := packet.hops + 1 } }
  | _, _ => none

/-- `_new_path_table.get` and the test of the entry. -/
def getPath (destinationHash : Address) : Option DestinationEntry :=
  (s.pathTable.lookup destinationHash).bind (StoredPath.decode s)

/-- `Transport::next_hop_interface` -/
def nextHopInterface (destinationHash : Address) : Option Interface :=
  (getPath s destinationHash).map DestinationEntry.receivingInterface

/-- `Transport::hops_to` -/
def hopsTo (destinationHash : Address) : UInt8 :=
  ((getPath s destinationHash).map DestinationEntry.hops).getD pathfinderM

/-- `Transport::first_hop_timeout`, from the latency of the next hop's interface. -/
def firstHopTimeout (destinationHash : Address) : ℚ :=
  let bitrate := ((nextHopInterface s destinationHash).map Interface.bitrate).getD 0
  if 0 < bitrate then reticulumMtu * (1 / (bitrate : ℚ) * 8) + defaultPerHopTimeout
  else defaultPerHopTimeout

/-- `Transport::extra_link_proof_timeout`; a bitrate of zero makes it infinite in the source. -/
def extraLinkProofTimeout (i : Interface) : ℚ := 1 / (i.bitrate : ℚ) * 8 * reticulumMtu

/-- `Transport::path_is_unresponsive` -/
def pathIsUnresponsive (destinationHash : Address) : Bool :=
  s.pathStates.lookup destinationHash = some .unresponsive

/-- `_announce_packet` of a decoded entry, which was received once already. -/
def StoredPath.announcePacket (p : StoredPath) : Option Packet :=
  (unpack p.announce).map fun packet => { packet with hops := packet.hops + 1 }

/-- `Transport::find_announce_packet_from_hash`: the interface of the path is not asked for. -/
def findAnnouncePacket (destinationHash : Address) : Option Packet :=
  (s.pathTable.lookup destinationHash).bind StoredPath.announcePacket

/-- `Identity::hash` of the identity with a public key -/
def identityHash (entry : IdentityEntry) : Address := truncatedHash env.fullHash entry.publicKey

/-- `Identity::recall`, without what it remembers: the known destinations, then the announce of a
known path, then the registered destinations. -/
def recalled (destinationHash : Address) : Option IdentityEntry :=
  match s.knownDestinations.lookup destinationHash with
  | some entry => some entry
  | none =>
    match findAnnouncePacket s destinationHash with
    | some p => some { publicKey := p.data.left ecpubsize, appData := p.data.mid (ecpubsize + 84) }
    | none =>
      ((s.destinations.lookup destinationHash).bind LocalDestination.publicKey).map fun publicKey =>
        { publicKey, appData := [] }

/-- `Transport::is_blackholed` -/
def isBlackholed (identityHash : Address) : Bool := identityHash.toList ∈ s.blackholedIdentities

/-- `Transport::packet_filter` -/
def packetFilter (p : Packet) : Bool :=
  if env.ownerConnectedToSharedInstance then true
  else if p.transportId.isSome && p.packetType ≠ .announce && p.transportId ≠ s.identity then false
  else if p.context ∈ [ContextType.keepalive, ContextType.resourceReq, ContextType.resourcePrf,
      ContextType.resource, ContextType.cacheRequest, ContextType.channel] then true
  else if p.destinationType = .plain ∨ p.destinationType = .group then
    p.packetType ≠ .announce && p.hops ≤ 1
  else if p.getHash env.fullHash ∉ s.packetHashlist then true
  else p.packetType = .announce && p.destinationType = .single

variable {env s}

/-! ## Updates -/

/-- `Transport::add_packet_hash` -/
def addPacketHash (hash : Hash) (s : TransportState) : TransportState :=
  { s with packetHashlist := hash :: s.packetHashlist.filter (· ≠ hash) }

/-- `Transport::mark_path_unknown_state` and its two siblings: a path that is not there is not
marked. -/
def markPath (state : PathState) (destinationHash : Address) (s : TransportState) :
    TransportState :=
  if (getPath s destinationHash).isSome then
    { s with pathStates := s.pathStates.insert destinationHash state }
  else s

/-- `Transport::_record_neighbor_packet` -/
def recordNeighborPacket (now : ℚ) (nextHop : Address) (s : TransportState) : TransportState :=
  let stat := (s.neighborStats.lookup nextHop).getD {}
  let stat' := { stat with packetsForwarded := stat.packetsForwarded + 1, lastPacketAt := now }
  { s with neighborStats := s.neighborStats.insert nextHop stat' }

/-- `Transport::_record_neighbor_proof` -/
def recordNeighborProof (now : ℚ) (nextHop : Address) (s : TransportState) : TransportState :=
  { s with neighborStats := s.neighborStats.adjust nextHop fun stat =>
      { stat with proofsReceived := stat.proofsReceived + 1, lastProofAt := now } }

/-- `Identity::remember` -/
def remember (env : Environment) (destinationHash : Address) (entry : IdentityEntry) :
    Prog String TransportState Unit := do
  Prog.require (entry.publicKey.length = ecpubsize) s!"the public key size of {entry.publicKey.length} is not valid."
  Prog.when (env.storeIdentity destinationHash) <|
    Prog.modify fun s =>
      { s with knownDestinations := s.knownDestinations.insert destinationHash entry }

/-- `Identity::recall`: what comes from the announce of a path is remembered. -/
def identityRecall (env : Environment) (destinationHash : Address) :
    Prog String TransportState (Option IdentityEntry) := do
  let s ← Prog.get
  match recalled s destinationHash with
  | none => pure none
  | some entry => do
    Prog.when (destinationHash ∉ s.knownDestinations ∧ (findAnnouncePacket s destinationHash).isSome) <|
      remember env destinationHash entry
    pure (some entry)

/-- The oldest entries first, keys breaking ties as in a sorted index of pairs. -/
def AnnounceEntry.older (a b : (_ : Address) × AnnounceEntry) : Bool :=
  a.2.timestamp < b.2.timestamp || (a.2.timestamp = b.2.timestamp && a.1.toList ≤ b.1.toList)

/-- The removals of `Transport::cull_announce_table`: it goes on until the table fits the limit of the
path table. -/
def cullOldest (limit : Nat) : List Address → Table AnnounceEntry → Table AnnounceEntry
  | [], t => t
  | k :: ks, t =>
    let t' := t.erase k
    if t'.entries.length ≤ limit then t' else cullOldest limit ks t'

/-- `Transport::cull_announce_table` -/
def cullAnnounceTable (env : Environment) (s : TransportState) : TransportState :=
  if env.announceTableMaxsize < s.announceTable.entries.length then
    let sorted := s.announceTable.entries.mergeSort AnnounceEntry.older
    { s with announceTable :=
        cullOldest env.pathTableMaxsize (sorted.map fun e => e.1) s.announceTable }
  else s

end MicroReticulum.Transport
