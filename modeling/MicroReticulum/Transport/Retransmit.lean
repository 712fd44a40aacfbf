import MicroReticulum.Transport.Announce

/-!
# Announces sent later

What a node sends of an announce after it was accepted: `retransmitAnnounces` is the part of
`Transport::jobs` that goes through the announce table, with the sending behind the loop in
`announceJob`, and `pathRequest` is `Transport::path_request`, whose answer is put into the announce
table for the job to send.

The job goes through the table in the order of its keys. In the source the entry that makes place for a
held announce is erased while the loop stands on it, and its key is read through the reference of the
loop afterwards. That is undefined behaviour. `reinsertHeld` is what the lines say when the reference is
taken for a copy of the key, and the loop here goes on with the keys it started with; `reinsertThrough`
follows the reference, and `JobDefined` says of a job that it never comes to such a place. What is proved
of a job says nothing about the code where the job is not defined.

The answer of a local destination and the requests that are passed on are parameters. The build options
are the defaults: no answer along a path that is marked unresponsive, no answer ahead of the job, and a
path that nobody knows is asked for on the interface of the request too.
-/

namespace MicroReticulum.Transport

open MicroReticulum Packet Link Library

/-- `Type::Transport::PATHFINDER_G` -/
def pathfinderG : ℚ := 5

/-- `Type::Transport::PATH_REQUEST_GRACE` -/
def pathRequestGrace : ℚ := 2 / 5

/-- `Type::Transport::PATH_REQUEST_RG` -/
def pathRequestRG : ℚ := 3 / 2

/-- `Type::Transport::PATH_REQUEST_TIMEOUT` -/
def pathRequestTimeout : ℚ := 15

/-! ## The announce job -/

/-- What the loop over the announce table has collected, and whether an exception has ended it. -/
structure Retransmissions where
  outgoing : List NewPacket := []
  completed : List Address := []
  aborted : Bool := false

/-- The entry was sent often enough. -/
def AnnounceEntry.finished (e : AnnounceEntry) : Bool :=
  (0 < e.retries && localRebroadcastsMax ≤ e.retries) || pathfinderR < e.retries

/-- The entry once it is sent. -/
def AnnounceEntry.retried (now : ℚ) (e : AnnounceEntry) : AnnounceEntry :=
  { e with retransmitTimeout := now + pathfinderG + pathfinderRW, retries := e.retries + 1 }

/-- The packet the job sends for an entry. -/
def AnnounceEntry.newPacket (identity : Address) (e : AnnounceEntry) : NewPacket where
  spec := rebroadcastSpec identity e.packet
    (if e.blockRebroadcasts then ContextType.pathResponse else ContextType.none) e.hops
  attachedInterface := e.attachedInterface

/-- A held announce takes the place of the entry that was sent. The source erases the entry under
`destination_hash`, which is the key of that entry, and inserts the held one under the same reference;
here the key is a value, so this is the code only where nothing is held (`reinsertThrough`). -/
def reinsertHeld (env : Environment) (destinationHash : Address) (s : TransportState) :
    TransportState :=
  match s.heldAnnounces.lookup destinationHash with
  | none => s
  | some held =>
    cullAnnounceTable env
      { s with
        heldAnnounces := s.heldAnnounces.erase destinationHash
        announceTable := (s.announceTable.erase destinationHash).insert destinationHash held }

/-- An entry whose time has come. -/
def retransmitEntry (env : Environment) (identity : Address) (destinationHash : Address)
    (entry : AnnounceEntry) (r : Retransmissions) : Prog String TransportState Retransmissions := do
  Prog.modify fun s =>
    { s with announceTable := s.announceTable.adjust destinationHash (AnnounceEntry.retried env.now) }
  let recalled ← identityRecall env entry.packet.destinationHash
  match recalled with
  | none => pure { r with completed := destinationHash :: r.completed }
  | some _ => do
    Prog.modify (reinsertHeld env destinationHash)
    pure { r with outgoing := r.outgoing ++ [entry.newPacket identity] }

/-- One round of the loop. An exception ends the loop, and what was collected is sent. Where a round puts
a held announce back, the source goes on from an entry that has been freed. -/
def retransmitAnnounce (env : Environment) (identity : Address) (r : Retransmissions)
    (destinationHash : Address) : Prog String TransportState Retransmissions :=
  if r.aborted then pure r
  else do
    let s ← Prog.get
    match s.announceTable.lookup destinationHash with
    | none => pure r
    | some entry =>
      if entry.finished then pure { r with completed := destinationHash :: r.completed }
      else if entry.retransmitTimeout < env.now then
        Prog.catching (retransmitEntry env identity destinationHash entry r) fun _ =>
          pure { r with aborted := true }
      else pure r

/-- The keys of the announce table, in order. -/
def announceKeys (s : TransportState) : List Address :=
  s.announceTable.keys.mergeSort fun a b => a.toList ≤ b.toList

/-- The announce part of `Transport::jobs`; what it returns is `outgoing`. -/
def retransmitAnnounces (env : Environment) (identity : Address) :
    Prog String TransportState (List NewPacket) := do
  let s ← Prog.get
  let r ← Prog.fold (announceKeys s) {} (retransmitAnnounce env identity)
  Prog.when (r.aborted = false) <|
    Prog.modify fun s => { s with announceTable := s.announceTable.eraseAll r.completed }
  pure r.outgoing

/-- The announce part of `Transport::jobs` with the sending that follows it. -/
def announceJob (env : Environment) : Prog String TransportState Unit := do
  let s ← Prog.get
  match s.identity with
  | none => Prog.wait
  | some identity => do
    let outgoing ← retransmitAnnounces env identity
    Prog.forEach outgoing fun p => do
      let _ ← send env p
      pure ()

/-! ## The reference of the loop -/

/-- The key that a reference to the key of an entry gives: none when the entry is not there any more. -/
def keyAt (table : Table AnnounceEntry) (destinationHash : Address) : Option Address :=
  if destinationHash ∈ table then some destinationHash else none

/-- The lines that put a held announce back, with the key of the insertion read behind the erasure.
`none` is undefined behaviour. -/
def reinsertThrough (env : Environment) (destinationHash : Address) (s : TransportState) :
    Option TransportState :=
  match s.heldAnnounces.lookup destinationHash with
  | none => some s
  | some held =>
    let erased := s.announceTable.erase destinationHash
    (keyAt erased destinationHash).map fun key =>
      cullAnnounceTable env
        { s with
          heldAnnounces := s.heldAnnounces.erase destinationHash
          announceTable := erased.insert key held }

theorem reinsertThrough_of_not_held {env : Environment} {d : Address} {s : TransportState}
    (h : d ∉ s.heldAnnounces) : reinsertThrough env d s = some s := by
  unfold reinsertThrough
  rw [AList.lookup_eq_none.mpr h]

theorem reinsertThrough_of_held {env : Environment} {d : Address} {s : TransportState}
    (h : d ∈ s.heldAnnounces) : reinsertThrough env d s = none := by
  obtain ⟨held, hheld⟩ := Option.isSome_iff_exists.mp (AList.lookup_isSome.mpr h)
  have hgone : d ∉ s.announceTable.erase d := fun hmem => (AList.mem_erase.mp hmem).1 rfl
  unfold reinsertThrough keyAt
  rw [hheld]
  dsimp only
  rw [if_neg hgone]
  rfl

/-- The state in which an entry has been counted as sent. -/
def countedSent (env : Environment) (d : Address) (s : TransportState) : TransportState :=
  { s with announceTable := s.announceTable.adjust d (AnnounceEntry.retried env.now) }

/-- The entry of `d` is due, and the announce job sends it. -/
structure Serves (env : Environment) (d : Address) (e : AnnounceEntry) (s u : TransportState) : Prop where
  waits : s.announceTable.lookup d = some e
  unfinished : e.finished = false
  due : e.retransmitTimeout < env.now
  recalled : ∃ identity,
    identityRecall env e.packet.destinationHash (countedSent env d s) = (.value (some identity), u)

/-- The round of `d` reads no key that has been erased. -/
def RoundDefined (env : Environment) (r : Retransmissions) (d : Address) (s : TransportState) : Prop :=
  r.aborted = false → ∀ e u, Serves env d e s u → (reinsertThrough env d u).isSome

/-- None of the rounds does. -/
def LoopDefined (env : Environment) (identity : Address) :
    List Address → Retransmissions → TransportState → Prop
  | [], _, _ => True
  | d :: keys, r, s => RoundDefined env r d s
      ∧ ∀ r' t, retransmitAnnounce env identity r d s = (.value r', t) → LoopDefined env identity keys r' t

/-- The announce job behaves as the standard defines it. -/
def JobDefined (env : Environment) (s : TransportState) : Prop :=
  ∀ identity, s.identity = some identity → LoopDefined env identity (announceKeys s) {} s

/-! ## Path requests -/

/-- What `path_request` calls: the announce of a local destination, and `request_path` on an
interface. -/
structure PathRequestCalls where
  announceLocal : Address → Handler TransportState Unit
  requestPath : Address → Interface → Handler TransportState Unit

/-- A path request as `path_request` is given it. -/
structure PathRequest where
  destinationHash : Address
  isFromLocalClient : Bool
  attachedInterface : Interface
  requestorTransportId : Option Address

/-- `Interface::DISCOVER_PATHS_FOR` -/
def discoverPathsFor : List InterfaceMode := [.accessPoint, .gateway, .roaming]

/-- The known path is not told: it leads back over a roaming interface, or to the requestor. -/
def withholdsPath (r : PathRequest) (entry : DestinationEntry) : Bool :=
  (r.attachedInterface.mode = .roaming && r.attachedInterface.id = entry.receivingInterface.id)
    || r.requestorTransportId = some entry.receivedFrom

/-- `retransmit_timeout` of an answer -/
def answerTime (now : ℚ) (r : PathRequest) : ℚ :=
  if r.isFromLocalClient then now
  else if r.attachedInterface.mode = .roaming then now + pathRequestGrace + pathRequestRG
  else now + pathRequestGrace

/-- The announce table entry of an answer: the announce of the path record, with the hop count it is
read with. -/
def answerEntry (now : ℚ) (r : PathRequest) (entry : DestinationEntry) : AnnounceEntry where
  timestamp := now
  retransmitTimeout := answerTime now r
  retries := pathfinderR
  receivedFrom := entry.receivedFrom
  hops := entry.announcePacket.hops
  packet := entry.announcePacket
  localRebroadcasts := 0
  blockRebroadcasts := true
  attachedInterface := some r.attachedInterface

/-- An announce that waits to be sent is held until the answer was sent. -/
def holdAnnounce (destinationHash : Address) (s : TransportState) : TransportState :=
  match s.announceTable.lookup destinationHash with
  | none => s
  | some waiting => { s with heldAnnounces := s.heldAnnounces.emplace destinationHash waiting }

/-- The answer to a request for a known path. -/
def answerKnownPath (env : Environment) (r : PathRequest) (entry : DestinationEntry) :
    Prog String TransportState Unit := do
  let s ← Prog.get
  Prog.when (pathIsUnresponsive s r.destinationHash = false ∧ withholdsPath r entry = false) do
    Prog.modify (holdAnnounce entry.announcePacket.destinationHash)
    Prog.modify (addAnnounceEntry env entry.announcePacket.destinationHash
      (answerEntry env.now r entry))

/-- The request of somebody who waits for the path to be found. -/
def waitForPath (env : Environment) (r : PathRequest) (s : TransportState) : TransportState :=
  let entry : PathRequestEntry :=
    { timeout := env.now + pathRequestTimeout, requestingInterface := some r.attachedInterface }
  { s with discoveryPathRequests := s.discoveryPathRequests.emplace r.destinationHash entry }

/-- A path to a destination of a local client is asked for by others. -/
def notePendingLocal (r : PathRequest) (entry : Option DestinationEntry) (s : TransportState) :
    TransportState :=
  if s.localClientInterfaces ≠ [] ∧ (entry.any fun e => isLocalClientInterface e.receivingInterface) then
    { s with pendingLocalPathRequests :=
        s.pendingLocalPathRequests.emplace r.destinationHash (some r.attachedInterface) }
  else s

/-- `Transport::path_request` -/
def pathRequest (env : Environment) (calls : PathRequestCalls) (r : PathRequest) :
    Prog String TransportState Unit := do
  let s ← Prog.get
  let known := getPath s r.destinationHash
  Prog.modify (notePendingLocal r known)
  let s ← Prog.get
  if r.destinationHash ∈ s.destinations then callHandler (calls.announceLocal r.destinationHash)
  else
    match if env.transportEnabled || r.isFromLocalClient then known else none with
    | some entry => answerKnownPath env r entry
    | none =>
      if r.isFromLocalClient then
        Prog.forEach (s.interfaces.filter fun i => i.id ≠ r.attachedInterface.id) fun i =>
          callHandler (calls.requestPath r.destinationHash i)
      else if env.transportEnabled ∧ r.attachedInterface.mode ∈ discoverPathsFor then
        Prog.when (r.destinationHash ∉ s.discoveryPathRequests) do
          Prog.modify (waitForPath env r)
          Prog.forEach s.interfaces fun i =>
            callHandler (calls.requestPath r.destinationHash i)
      else
        Prog.forEach s.localClientInterfaces fun i =>
          callHandler (calls.requestPath r.destinationHash i)

end MicroReticulum.Transport
