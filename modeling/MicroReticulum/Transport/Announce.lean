import MicroReticulum.Transport.Outbound

/-!
# Announces

The announce part of `Transport::inbound`: hearing a rebroadcast of an announce that is still waiting
here, the decision whether an announce replaces the known path, the rate limit, the announce table,
answers to waiting path requests, and the path table.

The hop count of the announce is the one `inbound` left in the packet. It goes unchanged into the
announce table, the path table and the answers.
-/

namespace MicroReticulum.Transport

open MicroReticulum Packet Link Library

/-! ## Hearing a rebroadcast -/

/-- The next node has passed the announce on often enough, or passed it on further. -/
def rebroadcastDone (now : ℚ) (p : Packet) (entry : AnnounceEntry) : Bool :=
  ((p.hops.toNat : Int) - 1 = entry.hops.toNat
      && localRebroadcastsMax ≤ entry.localRebroadcasts + 1)
    || ((p.hops.toNat : Int) - 1 = entry.hops.toNat + 1 && 0 < entry.retries
      && now < entry.timestamp)

/-- An announce with a transport id may be the rebroadcast of one that waits in the announce table. -/
def hearRebroadcast (now : ℚ) (p : Packet) (s : TransportState) : TransportState :=
  match s.announceTable.lookup p.destinationHash with
  | none => s
  | some entry =>
    if rebroadcastDone now p entry then
      { s with announceTable := s.announceTable.erase p.destinationHash }
    else if (p.hops.toNat : Int) - 1 = entry.hops.toNat then
      { s with announceTable := s.announceTable.adjust p.destinationHash fun entry =>
          { entry with localRebroadcasts := entry.localRebroadcasts + 1 } }
    else s

/-- The node an announce came from. -/
def receivedFrom (p : Packet) : Address := p.transportId.getD p.destinationHash

/-! ## Accepting an announce -/

/-- `Transport::timebase_from_random_blob` -/
def timebaseFromRandomBlob (blob : Bytes) : Nat := if blob.length < 10 then 0 else emissionOf blob

/-- `Transport::timebase_from_random_blobs` -/
def timebaseFromRandomBlobs (blobs : List Bytes) : Nat :=
  blobs.foldl (fun timebase blob => max timebase (timebaseFromRandomBlob blob)) 0

/-- The latest emission among the random blobs of a path; the search stops when it is not older than
the announce. -/
def pathAnnounceEmitted (emitted : Nat) : Nat → List Bytes → Nat
  | latest, [] => latest
  | latest, blob :: blobs =>
    let latest' := max latest (emissionOf blob)
    if emitted ≤ latest' then latest' else pathAnnounceEmitted emitted latest' blobs

/-- How an announce compares with the path that is known. -/
inductive Comparison where
  /-- it replaces the path, which loses its state -/
  | replaces
  /-- it was heard before, and the path has not answered -/
  | retries
  | ignored
  deriving DecidableEq, Repr

/-- The comparison of an announce with the known path to its destination. -/
def compareAnnounce (now : ℚ) (s : TransportState) (p : Packet) (entry : DestinationEntry) :
    Comparison :=
  let fresh := randomBlob p ∉ entry.randomBlobs
  if p.hops ≤ entry.hops then
    if fresh ∧ timebaseFromRandomBlobs entry.randomBlobs < announceEmitted p then .replaces
    else .ignored
  else if entry.expires ≤ now then
    if fresh then .replaces else .ignored
  else
    let latest := pathAnnounceEmitted (announceEmitted p) 0 entry.randomBlobs
    if latest < announceEmitted p then
      if fresh then .replaces else .ignored
    else if announceEmitted p = latest ∧ pathIsUnresponsive s p.destinationHash then .retries
    else .ignored

/-- `should_add`, up to the blackhole check. -/
def shouldAddPath (now : ℚ) (p : Packet) : Prog String TransportState Bool := do
  let s ← Prog.get
  match getPath s p.destinationHash with
  | none => pure true
  | some entry => do
    Prog.when (compareAnnounce now s p entry = .replaces) <|
      Prog.modify (markPath .unknown p.destinationHash)
    let s' ← Prog.get
    pure (compareAnnounce now s p entry ≠ .ignored || pathIsUnresponsive s' p.destinationHash)

/-- The blackhole check on an announce that would be added. -/
def blackholeAllows (env : Environment) (p : Packet) (shouldAdd : Bool) :
    Prog String TransportState Bool := do
  let s ← Prog.get
  if shouldAdd = false ∨ s.blackholedIdentities.entries = [] then pure shouldAdd
  else do
    let identity ← identityRecall env p.destinationHash
    let s ← Prog.get
    match identity with
    | none => pure true
    | some entry => pure (!isBlackholed s (identityHash env entry))

/-! ## The rate limit -/

/-- The last `n` elements of a list. -/
def lastOf {α : Type} (n : Nat) (l : List α) : List α := l.drop (l.length - n)

/-- A further announce of a destination within the rate table. -/
def RateEntry.announced (now : ℚ) (i : Interface) (entry : RateEntry) : RateEntry × Bool :=
  let entry := { entry with timestamps := lastOf maxRateTimestamps (entry.timestamps ++ [now]) }
  if entry.blockedUntil < now then
    let violations :=
      if now - entry.last < i.announceRateTarget then entry.rateViolations + 1
      else max 0 (entry.rateViolations - 1)
    if (i.announceRateGrace : ℚ) < violations then
      ({ entry with
          rateViolations := violations
          blockedUntil := entry.last + i.announceRateTarget + i.announceRatePenalty }, true)
    else ({ entry with rateViolations := violations, last := now }, false)
  else (entry, true)

/-- The rate limit of the receiving interface: whether the announce is blocked. -/
def rateBlocked (now : ℚ) (p : Packet) (i : Interface) : Prog String TransportState Bool := do
  let s ← Prog.get
  if p.context ≠ ContextType.pathResponse ∧ 0 < i.announceRateTarget then
    match s.announceRateTable.lookup p.destinationHash with
    | none => do
      let entry : RateEntry := { last := now, timestamps := [now] }
      Prog.modify fun s =>
        { s with announceRateTable := s.announceRateTable.insert p.destinationHash entry }
      pure false
    | some entry => do
      let result := entry.announced now i
      Prog.modify fun s =>
        { s with announceRateTable := s.announceRateTable.insert p.destinationHash result.1 }
      pure result.2
  else pure false

/-! ## The announce table -/

/-- The packet a node sends for an announce it passes on, under its own transport id. The constructor
cuts the data at the MDU. -/
def rebroadcastSpec (identity : Address) (p : Packet) (context : ContextType) (hops : UInt8) :
    PacketSpec where
  destinationType := .single
  destinationHash := p.destinationHash
  headerType := .header2
  transportType := .transport
  packetType := .announce
  context := context
  contextFlag := p.contextFlag
  transportId := some identity
  hops := hops
  data := p.data.left reticulumMdu

/-- Insert an announce into the announce table, and cull the table. -/
def addAnnounceEntry (env : Environment) (destinationHash : Address) (entry : AnnounceEntry)
    (s : TransportState) : TransportState :=
  cullAnnounceTable env { s with announceTable := s.announceTable.emplace destinationHash entry }

/-- The announce table entry of an announce; that of a local client is sent at once, and only once. -/
def announceEntry (env : Environment) (p : Packet) (now : Bool) : AnnounceEntry where
  timestamp := env.now
  retransmitTimeout := if now then env.now else env.now + env.random * pathfinderRW
  retries := if now then pathfinderR else 0
  receivedFrom := receivedFrom p
  hops := p.hops
  packet := p
  localRebroadcasts := 0
  blockRebroadcasts := false
  attachedInterface := none

/-- Schedule an accepted announce for retransmission. -/
def scheduleAnnounce (env : Environment) (p : Packet) (i : Interface) (blocked : Bool) :
    Prog String TransportState Unit := do
  let s ← Prog.get
  let fromLocalClient := isLocalClientInterface i
  if (env.transportEnabled || fromLocalClient) && p.context ≠ ContextType.pathResponse then
    Prog.when (blocked = false) <|
      Prog.modify (addAnnounceEntry env p.destinationHash (announceEntry env p fromLocalClient))
  else
    -- a path response of a local client is passed on when somebody asked for it
    Prog.when (fromLocalClient = true ∧ p.context = ContextType.pathResponse
        ∧ p.destinationHash ∈ s.pendingLocalPathRequests) <|
      Prog.modify fun s => addAnnounceEntry env p.destinationHash (announceEntry env p true)
        { s with pendingLocalPathRequests := s.pendingLocalPathRequests.erase p.destinationHash }

/-- Send an announce on one interface now. -/
def answerAnnounce (env : Environment) (p : Packet) (identity : Address) (context : ContextType)
    (attachedInterface : Option Interface) : Prog String TransportState Unit := do
  let _ ← send env { spec := rebroadcastSpec identity p context p.hops, attachedInterface }
  pure ()

/-- Local clients hear of an accepted announce at once, and so does whoever waits for a path to its
destination. -/
def answerWaiting (env : Environment) (p : Packet) (i : Interface) (identity : Address) :
    Prog String TransportState Unit := do
  let s ← Prog.get
  Prog.when (s.localClientInterfaces ≠ []) do
    let _ ← identityRecall env p.destinationHash
    Prog.forEach (s.localClientInterfaces.filter fun l => l.id ≠ i.id) fun l =>
      answerAnnounce env p identity ContextType.none (some l)
  let s ← Prog.get
  match s.discoveryPathRequests.lookup p.destinationHash with
  | none => pure ()
  | some entry => do
    let _ ← identityRecall env p.destinationHash
    answerAnnounce env p identity ContextType.pathResponse entry.requestingInterface

/-! ## The path table -/

/-- How long a path lives, by the mode of the interface it was heard on. -/
def pathTime (i : Interface) : ℚ :=
  match i.mode with
  | .accessPoint => apPathTime
  | .roaming => roamingPathTime
  | _ => pathfinderE

/-- The random blobs of a path with that of an announce. -/
def addRandomBlob (blob : Bytes) (blobs : List Bytes) : List Bytes :=
  if blob ∈ blobs then blobs else lastOf maxRandomBlobs (blobs ++ [blob])

/-- The path an announce stands for. -/
def announcedPath (env : Environment) (p : Packet) (i : Interface) (blobs : List Bytes) :
    DestinationEntry where
  timestamp := env.now
  receivedFrom := receivedFrom p
  hops := p.hops
  expires := env.now + pathTime i
  randomBlobs := addRandomBlob (randomBlob p) blobs
  receivingInterface := i
  announcePacket := p

/-- `_new_path_table.put`, where the store takes the entry. -/
def putPath (destinationHash : Address) (path : StoredPath) (s : TransportState) : TransportState :=
  { s with pathTable := s.pathTable.insert destinationHash path }

/-- Store the path of an accepted announce; what the store throws is caught. -/
def storePath (env : Environment) (p : Packet) (i : Interface) (blobs : List Bytes) :
    Prog String TransportState Unit :=
  let path := (announcedPath env p i blobs).encode
  Prog.catching
    (do
      let stored ← Prog.ofExcept (env.storePath p.destinationHash path)
      Prog.when (stored = true) do
        Prog.modify (putPath p.destinationHash path)
        Prog.modify (markPath .unknown p.destinationHash))
    fun _ => pure ()

/-- Call the announce handlers whose filter the destination passes. -/
def callAnnounceHandlers (env : Environment) (p : Packet) : Prog String TransportState Unit :=
  Prog.when (p.context ≠ ContextType.pathResponse) <|
    Prog.forEach env.announceHandlers fun handler =>
      Prog.catching
        (do
          let identity ← identityRecall env p.destinationHash
          let s ← Prog.get
          let appData := ((s.knownDestinations.lookup p.destinationHash).map
            IdentityEntry.appData).getD []
          Prog.when ((handler.expectedHash.map fun f => f identity).getD p.destinationHash
              = p.destinationHash) <|
            callHandler (handler.receivedAnnounce p.destinationHash identity appData))
        fun _ => pure ()

/-- Everything that follows from accepting an announce. -/
def acceptAnnounce (env : Environment) (p : Packet) (i : Interface) (identity : Address)
    (blobs : List Bytes) : Prog String TransportState Unit := do
  let blocked ← rateBlocked env.now p i
  scheduleAnnounce env p i blocked
  answerWaiting env p i identity
  storePath env p i blobs
  callAnnounceHandlers env p

/-- `Transport::inbound` for an announce. -/
def handleAnnounce (env : Environment) (p : Packet) (i : Interface) (identity : Address) :
    Prog String TransportState Unit := do
  let s ← Prog.get
  Prog.when (p.destinationHash ∉ s.destinations) do
    let valid ← callHandler (env.validateAnnounce p)
    Prog.when (valid = true) do
      Prog.when (p.transportId.isSome ∧ env.transportEnabled = true) <|
        Prog.modify (hearRebroadcast env.now p)
      let s ← Prog.get
      Prog.when (p.destinationHash ∉ s.destinations ∧ p.hops < pathfinderM + 1) do
        let blobs := ((getPath s p.destinationHash).map DestinationEntry.randomBlobs).getD []
        let shouldAdd ← shouldAddPath env.now p
        let shouldAdd ← blackholeAllows env p shouldAdd
        Prog.when (shouldAdd = true) (acceptAnnounce env p i identity blobs)

end MicroReticulum.Transport
