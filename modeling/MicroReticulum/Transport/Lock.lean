import Mathlib.Logic.Relation
import MicroReticulum.Transport.Inbound

/-!
# The jobs lock

`Transport::outbound` and `Transport::inbound` take `_jobs_locked` when they start and release it with
their last statement. Every other way out keeps it taken: the two `throw`s behind the lock in
`outbound`, and the early returns of `inbound`. `jobs` does nothing while the lock is taken.

`lock_released_iff` says which calls those are. A packet too short for its header is enough, and any
neighbour can send one. A link request whose signalling bytes name a mode that is not enabled, and
exceed what a hop can carry, does the same on the next hop of its path. A packet for a link that is
not attached to one does it on the sending side.
-/

namespace MicroReticulum.Transport

open MicroReticulum Packet Link Library

/-- The lock is as it was. -/
def SameLock (s t : TransportState) : Prop := t.jobsLocked = s.jobsLocked

theorem SameLock.refl (s : TransportState) : SameLock s s := rfl

theorem SameLock.trans (s t u : TransportState) (h : SameLock s t) (h' : SameLock t u) :
    SameLock s u := Eq.trans h' h

variable {env : Environment} {s : TransportState}

/-! ## Sending -/

section Outbound

variable {p : OutgoingPacket}

/-- A transmission goes through the driver of the interface, which knows nothing of the lock. -/
theorem transmit_sameLock (i : Interface) (raw : Bytes) :
    Prog.Keeps SameLock (transmit env i raw) := by
  unfold transmit
  refine .bind SameLock.trans (.get SameLock.refl) fun _ => ?_
  exact .bind SameLock.trans (.when SameLock.refl fun _ => .modify fun _ => rfl) fun _ =>
    .pure SameLock.refl _

/-- Sending along a known path leaves the lock as it is, whatever headers it has to insert. -/
theorem outboundKnown_sameLock (q : Packet) (entry : DestinationEntry) :
    Prog.Keeps SameLock (outboundKnown env q entry) := by
  unfold outboundKnown
  split
  case h_1 => exact .pure SameLock.refl _
  case h_2 =>
    refine .bind SameLock.trans (transmit_sameLock _ _) fun _ => ?_
    exact .bind SameLock.trans (.when SameLock.refl fun _ => .modify fun _ => rfl) fun _ =>
      .pure SameLock.refl _

/-- The announce rules leave the lock as it is, also where they queue the announce. -/
theorem announceAllows_sameLock (q : Packet) (i : Interface) :
    Prog.Keeps SameLock (announceAllows env q i) := by
  unfold announceAllows
  refine .bind SameLock.trans (.get SameLock.refl) fun _ => ?_
  split
  case h_4 =>
    unfold announceCapAllows
    refine .bind SameLock.trans (.get SameLock.refl) fun _ => .ite (.pure SameLock.refl _) (.ite ?_ ?_)
    · exact .bind SameLock.trans (.modify fun _ => rfl) fun _ => .pure SameLock.refl _
    · exact .bind SameLock.trans (.modify fun _ => rfl) fun _ => .pure SameLock.refl _
  all_goals exact .pure SameLock.refl _

/-- Deciding whether a packet goes out on an interface leaves the lock as it is. -/
theorem shouldTransmit_sameLock (i : Interface) :
    Prog.Keeps SameLock (shouldTransmit env p i) := by
  unfold shouldTransmit
  refine .bind SameLock.trans (.ofExcept SameLock.refl _) fun _ => ?_
  refine .bind SameLock.trans ?_ fun _ => .pure SameLock.refl _
  unfold announceRules
  exact .ite (announceAllows_sameLock _ _) (.pure SameLock.refl _)

/-- A round of the broadcast leaves the lock as it is. -/
theorem broadcastOn_sameLock (b : BroadcastState) (i : Interface) :
    Prog.Keeps SameLock (broadcastOn env p b i) := by
  unfold broadcastOn
  refine .ite (.bind SameLock.trans (shouldTransmit_sameLock i) fun should => .ite ?_ ?_) ?_
  · refine .bind SameLock.trans (.when SameLock.refl fun _ => .modify fun _ => rfl) fun _ => ?_
    exact .bind SameLock.trans (transmit_sameLock _ _) fun _ => .pure SameLock.refl _
  · exact .pure SameLock.refl _
  · exact .pure SameLock.refl _

/-- Making a receipt leaves the lock as it is, also where the constructor throws. -/
theorem addReceipt_sameLock (sent : Bool) : Prog.Keeps SameLock (addReceipt env p sent) := by
  unfold addReceipt
  refine .ite ?_ (.pure SameLock.refl _)
  refine .bind SameLock.trans (.get SameLock.refl) fun _ =>
    .bind SameLock.trans (.ofExcept SameLock.refl _) fun _ => ?_
  exact .bind SameLock.trans (.modify fun _ => rfl) fun _ => .pure SameLock.refl _

/-- Behind the lock, sending leaves it taken. -/
theorem outboundLocked_sameLock : Prog.Keeps SameLock (outboundLocked env p) := by
  unfold outboundLocked
  refine .bind SameLock.trans ?_ fun _ => ?_
  · unfold transmitPacket
    refine .bind SameLock.trans (.get SameLock.refl) fun _ => ?_
    split
    · exact outboundKnown_sameLock _ _
    · unfold outboundBroadcast
      refine .bind SameLock.trans (.get SameLock.refl) fun _ => ?_
      exact .bind SameLock.trans (.fold SameLock.refl SameLock.trans _
        (fun i _ b => broadcastOn_sameLock b i) _) fun _ => .pure SameLock.refl _
  · exact .bind SameLock.trans (addReceipt_sameLock _) fun _ => .pure SameLock.refl _

/-- A packet for a link, without the link. -/
def Unlinked (p : OutgoingPacket) : Prop := p.destination = some .link ∧ p.destinationLink = none

/-- `outbound` throws with the lock taken: the packet is for a link it does not have, and `outbound`
looks for that link, to broadcast on some interface or for the receipt of a packet it has sent. -/
def AbandonsOutbound (env : Environment) (s : TransportState) (p : OutgoingPacket) : Prop :=
  Unlinked p ∧
    ((outboundPath s p = none ∧ ∃ i ∈ s.interfaces, i.out = true)
      ∨ ∃ entry raw, outboundPath s p = some entry ∧ knownPathRaw env p.packet entry = some raw
        ∧ accepts env s entry.receivingInterface raw = true ∧ wantsReceipt p = true)

/-- For a packet that is not meant for a link it has lost, the question whether the link allows the interface is
answered. -/
theorem linkAllows_ok (h : ¬ Unlinked p) (i : Interface) : ∃ b, linkAllows p i = .ok b := by
  unfold linkAllows
  split
  case isFalse => exact ⟨true, rfl⟩
  case isTrue hlink =>
    cases hl : p.destinationLink with
    | none => exact absurd ⟨hlink, hl⟩ h
    | some link => exact ⟨_, rfl⟩

/-- For a packet to a link destination without a link object the question throws, on every interface. -/
theorem linkAllows_error (h : Unlinked p) (i : Interface) :
    linkAllows p i = .error "Packet is not associated with a Link" := by
  unfold linkAllows
  rw [if_pos h.1, h.2]

/-- A receipt is made for every packet that is not meant for a link it has lost. -/
theorem newReceipt_ok (h : ¬ Unlinked p) (t : TransportState) : ∃ r, newReceipt env t p = .ok r := by
  unfold newReceipt
  dsimp only
  split
  case isFalse => exact ⟨_, rfl⟩
  case isTrue hlink =>
    cases hl : p.destinationLink with
    | none => exact absurd ⟨hlink, hl⟩ h
    | some link => exact ⟨_, rfl⟩

/-- The constructor of the receipt throws for a packet to a link destination without a link object. -/
theorem newReceipt_error (h : Unlinked p) (t : TransportState) :
    newReceipt env t p = .error "Packet is not associated with a Link" := by
  unfold newReceipt
  dsimp only
  rw [if_pos h.1, h.2]

/-- A computation that has a value comes back. -/
theorem succeeds_ofExcept {α : Type} {r : Except String α} (h : ∃ a, r = .ok a) :
    Prog.Succeeds (Prog.ofExcept r : Prog String TransportState α) := by
  obtain ⟨a, rfl⟩ := h
  exact fun t => ⟨a, t, rfl⟩

/-- What `transmit` answers. -/
theorem transmit_run (env : Environment) (i : Interface) (raw : Bytes) (s : TransportState) :
    ∃ t, transmit env i raw s = (.value (accepts env s i raw), t) := by
  unfold transmit
  rw [Prog.get_bind_run]
  by_cases h : i.ifacIdentity = false
  · exact ⟨_, by rw [Prog.when_of h]; rfl⟩
  · exact ⟨_, by rw [Prog.when_of_not h]; rfl⟩

/-- A transmission comes back: what the driver does is not part of the model. -/
theorem transmit_succeeds (i : Interface) (raw : Bytes) : Prog.Succeeds (transmit env i raw) :=
  fun s => ⟨_, transmit_run env i raw s⟩

/-- What sending along a known path answers. -/
theorem outboundKnown_run (env : Environment) (q : Packet) (entry : DestinationEntry) (s : TransportState) :
    ∃ sent t, outboundKnown env q entry s = (.value sent, t) ∧ (sent = true ↔
      ∃ raw, knownPathRaw env q entry = some raw
        ∧ accepts env s entry.receivingInterface raw = true) := by
  unfold outboundKnown
  cases hraw : knownPathRaw env q entry with
  | none =>
    refine ⟨false, s, rfl, ?_⟩
    constructor
    · intro h
      cases h
    · rintro ⟨raw, h, _⟩
      cases h
  | some raw =>
    obtain ⟨t, ht⟩ := transmit_run env entry.receivingInterface raw s
    dsimp only
    rw [Prog.bind_value ht]
    have hrecord : Prog.Succeeds (Prog.when (accepts env s entry.receivingInterface raw = true)
        (Prog.modify (recordNeighborPacket env.now entry.receivedFrom)) :
          Prog String TransportState Unit) := (Prog.Succeeds.modify _).when
    obtain ⟨_, u, hu⟩ := hrecord t
    refine ⟨_, u, by rw [Prog.bind_value hu]; rfl, ?_⟩
    constructor
    · intro h
      exact ⟨raw, rfl, h⟩
    · rintro ⟨raw', h, hacc⟩
      cases h
      exact hacc

/-- The announce rules come back with an answer for every packet and interface. -/
theorem announceAllows_succeeds (q : Packet) (i : Interface) :
    Prog.Succeeds (announceAllows env q i) := by
  unfold announceAllows
  refine Prog.Succeeds.get.bind fun s => ?_
  split
  case h_4 =>
    unfold announceCapAllows
    refine Prog.Succeeds.get.bind fun s => ?_
    split
    · exact .pure _
    · split
      · exact (Prog.Succeeds.modify _).bind fun _ => .pure _
      · exact (Prog.Succeeds.modify _).bind fun _ => .pure _
  all_goals exact .pure _

/-- The decision is made without an exception, unless the packet has lost its link. -/
theorem shouldTransmit_succeeds (h : ¬ Unlinked p) (i : Interface) :
    Prog.Succeeds (shouldTransmit env p i) := by
  unfold shouldTransmit
  refine (succeeds_ofExcept (linkAllows_ok h i)).bind fun _ => Prog.Succeeds.bind ?_ fun _ => .pure _
  unfold announceRules
  split
  · exact announceAllows_succeeds _ _
  · exact .pure _

/-- A round of the broadcast comes back, unless the packet has lost its link. -/
theorem broadcastOn_succeeds (h : ¬ Unlinked p) (b : BroadcastState) (i : Interface) :
    Prog.Succeeds (broadcastOn env p b i) := by
  unfold broadcastOn
  split
  · refine (shouldTransmit_succeeds h i).bind fun should => ?_
    split
    · exact (Prog.Succeeds.modify _).when.bind fun _ => (transmit_succeeds _ _).bind fun _ => .pure _
    · exact .pure _
  · exact .pure _

/-- The receipt is made without an exception, unless the packet has lost its link. -/
theorem addReceipt_succeeds (h : ¬ Unlinked p) (sent : Bool) :
    Prog.Succeeds (addReceipt env p sent) := by
  unfold addReceipt
  split
  · exact Prog.Succeeds.get.bind fun t => (succeeds_ofExcept (newReceipt_ok h t)).bind fun _ =>
      (Prog.Succeeds.modify _).bind fun _ => .pure _
  · exact .pure _

/-- A packet with its link is sent without an exception. -/
theorem outboundLocked_succeeds (h : ¬ Unlinked p) : Prog.Succeeds (outboundLocked env p) := by
  unfold outboundLocked
  refine Prog.Succeeds.bind ?_ fun sent => (addReceipt_succeeds h sent).bind fun _ => .pure _
  unfold transmitPacket
  refine Prog.Succeeds.get.bind fun s => ?_
  split
  · intro s
    obtain ⟨sent, t, hrun, _⟩ := outboundKnown_run env _ _ s
    exact ⟨sent, t, hrun⟩
  · exact Prog.Succeeds.get.bind fun s => (Prog.Succeeds.fold (broadcastOn_succeeds h) _ _).bind
      fun _ => .pure _

/-- The broadcast loop on a packet without its link: nothing happens until the first outgoing
interface, and there the loop throws. -/
theorem fold_broadcastOn_unlinked (env : Environment) (h : Unlinked p) (interfaces : List Interface)
    (b : BroadcastState) (s : TransportState) :
    ((∃ i ∈ interfaces, i.out = true) →
        ∃ e, Prog.fold interfaces b (broadcastOn env p) s = (.thrown e, s))
      ∧ ((¬ ∃ i ∈ interfaces, i.out = true) →
        Prog.fold interfaces b (broadcastOn env p) s = (.value b, s)) := by
  induction interfaces with
  | nil => simp [Prog.fold]
  | cons i interfaces ih =>
    by_cases hout : i.out = true
    · refine ⟨fun _ => ?_, fun hnone => absurd ⟨i, List.mem_cons_self, hout⟩ hnone⟩
      have hfirst : broadcastOn env p b i s = (.thrown "Packet is not associated with a Link", s) := by
        unfold broadcastOn shouldTransmit
        rw [if_pos hout, linkAllows_error h]
        exact Prog.bind_thrown (Prog.bind_thrown (Prog.ofExcept_error_run _ _))
      exact ⟨_, Prog.bind_thrown hfirst⟩
    · have hfirst : broadcastOn env p b i s = (.value b, s) := by
        unfold broadcastOn
        rw [if_neg hout]
        rfl
      have hrest : (∃ j ∈ i :: interfaces, j.out = true) ↔ ∃ j ∈ interfaces, j.out = true := by
        simp [hout]
      rw [hrest]
      show (_ → ∃ e, (broadcastOn env p b i >>= _) s = _) ∧ (_ → (broadcastOn env p b i >>= _) s = _)
      rw [Prog.bind_value hfirst]
      exact ih

/-- The receipt of a packet without its link cannot be made. -/
theorem addReceipt_unlinked (env : Environment) (h : Unlinked p) (sent : Bool) (s : TransportState) :
    (sent = true ∧ wantsReceipt p = true → ∃ e, addReceipt env p sent s = (.thrown e, s))
      ∧ (¬ (sent = true ∧ wantsReceipt p = true) → addReceipt env p sent s = (.value none, s)) := by
  unfold addReceipt
  constructor
  · intro hwants
    rw [if_pos hwants, Prog.get_bind_run, newReceipt_error h]
    exact ⟨_, Prog.bind_thrown (Prog.ofExcept_error_run _ _)⟩
  · intro hwants
    rw [if_neg hwants]
    rfl

/-- Without its link, a packet is not broadcast on any interface. -/
theorem transmitPacket_unlinked (env : Environment) (h : Unlinked p) (hpath : outboundPath s p = none) :
    ((∃ i ∈ s.interfaces, i.out = true) → ∃ e t, transmitPacket env p s = (.thrown e, t))
      ∧ ((¬ ∃ i ∈ s.interfaces, i.out = true) → transmitPacket env p s = (.value false, s)) := by
  have hloop := fold_broadcastOn_unlinked env h s.interfaces {} s
  have hrun : transmitPacket env p s
      = (Prog.fold s.interfaces {} (broadcastOn env p) >>= fun b => pure b.sent) s := by
    unfold transmitPacket
    rw [Prog.get_bind_run, hpath]
    rfl
  rw [hrun]
  constructor
  · intro hout
    obtain ⟨e, hthrow⟩ := hloop.1 hout
    exact ⟨e, s, Prog.bind_thrown hthrow⟩
  · intro hout
    rw [Prog.bind_value (hloop.2 hout)]
    rfl

/-- How sending ends: with a value or an exception, and with an exception exactly when the packet
lacks its link and that is noticed. -/
theorem outboundLocked_ends (env : Environment) (p : OutgoingPacket) (s : TransportState) :
    (AbandonsOutbound env s p → ∃ e t, outboundLocked env p s = (.thrown e, t))
      ∧ (¬ AbandonsOutbound env s p → ∃ r t, outboundLocked env p s = (.value r, t)) := by
  by_cases hlink : Unlinked p
  case neg => exact ⟨fun h => absurd h.1 hlink, fun _ => outboundLocked_succeeds hlink s⟩
  unfold outboundLocked
  cases hpath : outboundPath s p with
  | none =>
    obtain ⟨hthrows, hnothing⟩ := transmitPacket_unlinked env hlink hpath
    have habandons : AbandonsOutbound env s p ↔ ∃ i ∈ s.interfaces, i.out = true := by
      simp [AbandonsOutbound, hlink, hpath]
    rw [habandons]
    constructor
    · intro hout
      obtain ⟨e, t, hrun⟩ := hthrows hout
      exact ⟨e, t, Prog.bind_thrown hrun⟩
    · intro hout
      rw [Prog.bind_value (hnothing hout),
        Prog.bind_value ((addReceipt_unlinked env hlink false s).2 (by simp))]
      exact ⟨_, _, rfl⟩
  | some entry =>
    obtain ⟨sent, t, hrun, hsent⟩ := outboundKnown_run env p.packet entry s
    have htransmit : transmitPacket env p s = (.value sent, t) := by
      unfold transmitPacket
      rw [Prog.get_bind_run, hpath]
      exact hrun
    have habandons : AbandonsOutbound env s p ↔ sent = true ∧ wantsReceipt p = true := by
      rw [hsent]
      simp only [AbandonsOutbound, hlink, hpath, true_and, reduceCtorEq, false_and, false_or,
        Option.some.injEq]
      constructor
      · rintro ⟨_, raw, rfl, hraw, hacc, hwants⟩
        exact ⟨⟨raw, hraw, hacc⟩, hwants⟩
      · rintro ⟨⟨raw, hraw, hacc⟩, hwants⟩
        exact ⟨entry, raw, rfl, hraw, hacc, hwants⟩
    obtain ⟨hthrows, hnothing⟩ := addReceipt_unlinked env hlink sent t
    rw [habandons, Prog.bind_value htransmit]
    constructor
    · intro hwants
      obtain ⟨e, hthrow⟩ := hthrows hwants
      exact ⟨e, t, Prog.bind_thrown hthrow⟩
    · intro hwants
      rw [Prog.bind_value (hnothing hwants)]
      exact ⟨_, _, rfl⟩

end Outbound

/-! ## Transport handling -/

/-- What the early returns behind the lock depend on is as it was. -/
structure SameRoutes (s t : TransportState) : Prop where
  jobsLocked : t.jobsLocked = s.jobsLocked
  jobsRunning : t.jobsRunning = s.jobsRunning
  identity : t.identity = s.identity
  interfaces : t.interfaces = s.interfaces
  localClientInterfaces : t.localClientInterfaces = s.localClientInterfaces
  pathTable : t.pathTable = s.pathTable
  linkTable : t.linkTable = s.linkTable
  reverseTable : t.reverseTable = s.reverseTable

theorem SameRoutes.refl (s : TransportState) : SameRoutes s s := ⟨rfl, rfl, rfl, rfl, rfl, rfl, rfl, rfl⟩

theorem SameRoutes.trans (s t u : TransportState) (h : SameRoutes s t) (h' : SameRoutes t u) :
    SameRoutes s u where
  jobsLocked := h'.jobsLocked.trans h.jobsLocked
  jobsRunning := h'.jobsRunning.trans h.jobsRunning
  identity := h'.identity.trans h.identity
  interfaces := h'.interfaces.trans h.interfaces
  localClientInterfaces := h'.localClientInterfaces.trans h.localClientInterfaces
  pathTable := h'.pathTable.trans h.pathTable
  linkTable := h'.linkTable.trans h.linkTable
  reverseTable := h'.reverseTable.trans h.reverseTable

section TransportHandling

variable {t : TransportState} {a : Arrived}

/-- The path of a destination is read from tables that are the same in both states. -/
theorem getPath_congr (h : SameRoutes s t) (destinationHash : Address) :
    getPath t destinationHash = getPath s destinationHash := by
  unfold getPath StoredPath.decode findInterface
  rw [h.pathTable, h.interfaces]

/-- Where a packet comes from and goes to is read from tables that are the same in both states. -/
theorem clientFlags_congr (h : SameRoutes s t) (a : Arrived) : clientFlags t a = clientFlags s a := by
  have hclient : ∀ i, isLocalClient t i = isLocalClient s i := by
    intro i
    unfold isLocalClient
    rw [h.localClientInterfaces]
  unfold clientFlags
  simp only [hclient, getPath_congr h, h.linkTable, h.reverseTable]

/-- The next hop of a packet is read from tables that are the same in both states. -/
theorem nextHopPath_congr (h : SameRoutes s t) (a : Arrived) : nextHopPath t a = nextHopPath s a := by
  unfold nextHopPath
  rw [getPath_congr h]

/-- Remembering the hash of a packet touches none of the tables that packets are routed by. -/
theorem rememberHash_sameRoutes (p : Packet) (s : TransportState) :
    SameRoutes s (rememberHash env p s) := by
  unfold rememberHash
  split <;> exact ⟨rfl, rfl, rfl, rfl, rfl, rfl, rfl, rfl⟩

/-- A transmission touches none of the tables that packets are routed by. -/
theorem transmit_sameRoutes (i : Interface) (raw : Bytes) :
    Prog.Keeps SameRoutes (transmit env i raw) := by
  unfold transmit
  refine .bind SameRoutes.trans (.get SameRoutes.refl) fun _ => ?_
  refine .bind SameRoutes.trans (.when SameRoutes.refl fun _ => .modify fun _ => ?_) fun _ =>
    .pure SameRoutes.refl _
  exact ⟨rfl, rfl, rfl, rfl, rfl, rfl, rfl, rfl⟩

/-- Transmissions on several interfaces touch none of the tables that packets are routed by. -/
theorem transmitOn_sameRoutes (interfaces : List Interface) (raw : Bytes) :
    Prog.Keeps SameRoutes (transmitOn env interfaces raw) := by
  unfold transmitOn
  refine .forEach SameRoutes.refl SameRoutes.trans interfaces fun i _ => ?_
  exact .bind SameRoutes.trans (transmit_sameRoutes i raw) fun _ => .pure SameRoutes.refl _

/-- Passing a plain broadcast on touches none of the tables that packets are routed by. -/
theorem broadcastPlain_sameRoutes (flags : ClientFlags) (a : Arrived) :
    Prog.Keeps SameRoutes (broadcastPlain env flags a) := by
  unfold broadcastPlain
  refine .bind SameRoutes.trans (.get SameRoutes.refl) fun _ => .when SameRoutes.refl fun _ => ?_
  exact .ite (transmitOn_sameRoutes _ _) (transmitOn_sameRoutes _ _)

/-- Transmissions on several interfaces come back one after the other. -/
theorem transmitOn_succeeds (env : Environment) (interfaces : List Interface) (raw : Bytes) :
    Prog.Succeeds (transmitOn env interfaces raw) := by
  unfold transmitOn
  exact .forEach (fun i => (transmit_succeeds i raw).bind fun _ => .pure _) interfaces

/-- Passing a plain broadcast on comes back, whether the packet is one or not. -/
theorem broadcastPlain_succeeds (flags : ClientFlags) (a : Arrived) :
    Prog.Succeeds (broadcastPlain env flags a) := by
  unfold broadcastPlain
  refine Prog.Succeeds.get.bind fun s => Prog.Succeeds.when ?_
  split <;> exact transmitOn_succeeds env _ _

/-- Passing a packet of a link on comes back, whether the link is known here or not. -/
theorem linkTransport_succeeds (env : Environment) (a : Arrived) : Prog.Succeeds (linkTransport env a) := by
  unfold linkTransport
  refine Prog.Succeeds.get.bind fun s => Prog.Succeeds.when ?_
  split
  · exact .pure _
  · exact (transmitOn_succeeds env _ _).bind fun _ => (Prog.Succeeds.modify _).bind fun _ => .modify _

/-- Only a link request of signalled length is dropped. -/
theorem length_of_forwardRaw_error {entry : DestinationEntry} {e : String}
    (h : forwardRaw a entry = .error e) : a.packet.data.length = ecpubsize + linkMtuSize := by
  unfold forwardRaw nextHopForward at h
  split at h
  case isFalse => cases h
  case isTrue =>
    unfold rewriteMtu at h
    dsimp only at h
    split at h
    case isTrue => cases h
    case isFalse hne => exact length_of_mtuFromLrPacket_ne hne

/-- While no job is running there is nothing to wait for. -/
theorem waitForJobs_run (hrunning : s.jobsRunning = false) : waitForJobs s = (.value (), s) := by
  unfold waitForJobs
  rw [Prog.get_bind_run, hrunning]
  rfl

/-- While a job is running the wait does not end: nothing that runs meanwhile is part of this call. -/
theorem waitForJobs_waits (hrunning : s.jobsRunning = true) : waitForJobs s = (.waits, s) := by
  unfold waitForJobs
  rw [Prog.get_bind_run, hrunning]
  rfl

/-- While the jobs are running, `outbound` never comes back. -/
theorem outbound_waits (hrunning : s.jobsRunning = true) {d : DestinationType} (hdestination : p.destination = some d) :
    outbound env p s = (.waits, s) := by
  unfold outbound
  rw [hdestination]
  dsimp only
  rw [Prog.bind_run, waitForJobs_waits hrunning]

/-- A cache request that can be answered waits forever: the cached packet is replayed without an
interface. -/
theorem answerCacheRequest_run (hrunning : s.jobsRunning = false) (hidentity : s.identity.isSome)
    (a : Arrived) :
    (requestedPacket s a.packet = none → answerCacheRequest a s = (.value (), s))
      ∧ (requestedPacket s a.packet ≠ none → (answerCacheRequest a s).1 = .waits) := by
  unfold answerCacheRequest
  rw [Prog.get_bind_run]
  cases hcached : requestedPacket s a.packet with
  | none => exact ⟨fun _ => rfl, fun h => absurd rfl h⟩
  | some cached =>
    refine ⟨fun h => (by cases h), fun _ => ?_⟩
    obtain ⟨identity, hid⟩ := Option.isSome_iff_exists.mp hidentity
    have harrive : (arrive cached.raw none s).1 = .waits := by
      unfold arrive
      rw [Prog.bind_value (waitForJobs_run hrunning), Prog.get_bind_run, hid]
      dsimp only
      rw [Prog.modify_bind_run, cached.unpacks]
      rfl
    rcases hrun : arrive cached.raw none s with ⟨o, u⟩
    rw [hrun] at harrive
    dsimp only at harrive
    subst harrive
    have hreplay : (Prog.call (do
        let _ ← arrive cached.raw none
        pure ())) s = (.waits, u) := by
      unfold Prog.call
      rw [Prog.bind_run, hrun]
    dsimp only
    rw [Prog.bind_run, hreplay]

/-- The packet `inbound` goes on with, after the identity, the header and the interface were
checked. -/
def arrivedPacket (s : TransportState) (raw : Bytes) (interface : Option Interface) :
    Option Arrived :=
  match s.identity, unpack raw, interface with
  | some identity, some p, some i =>
    some { packet := { p with hops := arrivalHops s i p.hops }, receivingInterface := i, identity }
  | _, _, _ => none

/-- A packet that unpacks arrives with its hops counted on, where the transport has an identity. -/
theorem arrivedPacket_some {raw : Bytes} {p : Packet} {n : Address} (hidentity : s.identity = some n)
    (hraw : unpack raw = some p) (i : Interface) :
    arrivedPacket s raw (some i) = some ⟨{ p with hops := arrivalHops s i p.hops }, i, n⟩ := by
  unfold arrivedPacket
  rw [hidentity, hraw]

/-- This node is the designated next hop of a link request, its signalled MTU has to be clamped, and
the signalling bytes cannot be rebuilt. -/
def CannotClamp (env : Environment) (s : TransportState) (a : Arrived) : Prop :=
  transports env (clientFlags s a) = true
    ∧ ∃ entry e, nextHopPath s (regenerateTransportId (clientFlags s a) a) = some entry
      ∧ forwardRaw (regenerateTransportId (clientFlags s a) a) entry = .error e

/-- How transport handling ends. -/
theorem transportHandling_ends (env : Environment) (hrunning : s.jobsRunning = false) (hidentity : s.identity.isSome)
    (a : Arrived) :
    ((transportHandling env (clientFlags s a) a s).1 = .returned →
        CannotClamp env s a ∧ (transportHandling env (clientFlags s a) a s).2 = s)
      ∧ (CannotClamp env s a → (transportHandling env (clientFlags s a) a s).1 = .returned) := by
  unfold transportHandling
  by_cases htransports : transports env (clientFlags s a) = true
  case neg =>
    rw [if_neg htransports]
    exact ⟨fun h => (by cases h), fun h => absurd h.1 htransports⟩
  rw [if_pos htransports]
  set a' := regenerateTransportId (clientFlags s a) a with ha'
  obtain ⟨hpass, hwaits⟩ := answerCacheRequest_run hrunning hidentity a'
  by_cases hcached : requestedPacket s a'.packet = none
  case neg =>
    -- the packet is a cache request, so it is not a link request of signalled length
    have hlen : a'.packet.data.length = 32 := by
      unfold requestedPacket at hcached
      by_contra hne
      exact hcached (if_neg fun h => hne h.2)
    rcases hrun : answerCacheRequest a' s with ⟨o, u⟩
    have ho := hwaits hcached
    rw [hrun] at ho
    dsimp only at ho
    subst ho
    rw [Prog.bind_run, hrun]
    refine ⟨fun h => (by cases h), ?_⟩
    rintro ⟨_, entry, e, _, herror⟩
    have hlong := length_of_forwardRaw_error herror
    rw [← ha', hlen] at hlong
    exact absurd hlong (by decide)
  rw [Prog.bind_value (hpass hcached)]
  cases hpath : nextHopPath s a' with
  | none =>
    have hforward : forwardNextHop env a' s = (.value (), s) := by
      unfold forwardNextHop
      rw [Prog.get_bind_run, hpath]
      rfl
    rw [Prog.bind_value hforward]
    obtain ⟨_, u, hlink⟩ := linkTransport_succeeds env a' s
    rw [Prog.bind_value hlink]
    refine ⟨fun h => (by cases h), ?_⟩
    rintro ⟨_, entry, e, hsome, _⟩
    rw [← ha', hpath] at hsome
    cases hsome
  | some entry =>
    cases hraw : forwardRaw a' entry with
    | error e =>
      have hforward : forwardNextHop env a' s = (.returned, s) := by
        unfold forwardNextHop
        rw [Prog.get_bind_run, hpath]
        dsimp only
        rw [hraw]
        rfl
      rw [Prog.bind_run, hforward]
      exact ⟨fun _ => ⟨⟨htransports, entry, e, hpath, hraw⟩, rfl⟩, fun _ => rfl⟩
    | ok raw =>
      have hforward : ∃ u, forwardNextHop env a' s = (.value (), u) := by
        unfold forwardNextHop
        rw [Prog.get_bind_run, hpath]
        dsimp only
        rw [hraw]
        dsimp only
        rw [Prog.modify_bind_run]
        obtain ⟨_, u, hrun⟩ := transmitOn_succeeds env [entry.receivingInterface] raw
          (recordForward env a' entry s)
        exact ⟨u, hrun⟩
      obtain ⟨u, hforward⟩ := hforward
      rw [Prog.bind_value hforward]
      obtain ⟨_, v, hlink⟩ := linkTransport_succeeds env a' u
      rw [Prog.bind_value hlink]
      refine ⟨fun h => (by cases h), ?_⟩
      rintro ⟨_, entry', e, hsome, herror⟩
      rw [← ha'] at hsome herror
      rw [hpath] at hsome
      cases hsome
      rw [hraw] at herror
      cases herror

end TransportHandling

/-! ## Local handling

No statement of local handling leaves `inbound`. -/

section LocalHandling

/-- A handler of the user can throw, and does not leave `inbound` in any other way. -/
theorem callHandler_neverLeaves {α : Type} (h : Handler TransportState α) :
    Prog.NeverLeaves (callHandler h) := by
  intro s hreturned
  unfold callHandler at hreturned
  split at hreturned <;> cases hreturned

/-- `outbound` ends with a value or an exception; it has no early return that would skip the unlocking of its
caller. -/
theorem outbound_neverLeaves (p : OutgoingPacket) : Prog.NeverLeaves (outbound env p) := by
  unfold outbound
  split
  · exact .pure _
  · refine .bind ?_ fun _ => .bind (.modify _) fun _ => .bind ?_ fun _ =>
      .bind (.modify _) fun _ => .pure _
    · unfold waitForJobs
      refine .bind .get fun s => ?_
      split
      · exact .wait
      · exact .pure _
    · intro s h
      obtain ⟨hthrows, hvalues⟩ := outboundLocked_ends env p s
      by_cases habandons : AbandonsOutbound env s p
      · obtain ⟨e, t, hrun⟩ := hthrows habandons
        rw [hrun] at h
        cases h
      · obtain ⟨r, t, hrun⟩ := hvalues habandons
        rw [hrun] at h
        cases h

theorem send_neverLeaves (p : NewPacket) : Prog.NeverLeaves (send env p) := by
  unfold send
  exact .bind (.ofExcept _) fun _ => .bind (.ofExcept _) fun _ => outbound_neverLeaves _

/-- Recalling an identity comes back to its caller. -/
theorem identityRecall_neverLeaves (destinationHash : Address) :
    Prog.NeverLeaves (identityRecall env destinationHash) := by
  unfold identityRecall
  refine .bind .get fun s => ?_
  split
  · exact .pure _
  · refine .bind (.when ?_) fun _ => .pure _
    unfold remember
    exact .bind (.require _ _) fun _ => .when (.modify _)

theorem transmitOn_neverLeaves (interfaces : List Interface) (raw : Bytes) :
    Prog.NeverLeaves (transmitOn env interfaces raw) := by
  intro s h
  obtain ⟨_, t, hrun⟩ := transmitOn_succeeds env interfaces raw s
  rw [hrun] at h
  cases h

theorem answerAnnounce_neverLeaves (p : Packet) (identity : Address) (context : ContextType)
    (i : Option Interface) : Prog.NeverLeaves (answerAnnounce env p identity context i) := by
  unfold answerAnnounce
  exact .bind (send_neverLeaves _) fun _ => .pure _

theorem answerWaiting_neverLeaves (p : Packet) (i : Interface) (identity : Address) :
    Prog.NeverLeaves (answerWaiting env p i identity) := by
  unfold answerWaiting
  refine .bind .get fun s => .bind (.when ?_) fun _ => .bind .get fun s => ?_
  · exact .bind (identityRecall_neverLeaves _) fun _ =>
      .forEach (fun _ => answerAnnounce_neverLeaves _ _ _ _) _
  · split
    · exact .pure _
    · exact .bind (identityRecall_neverLeaves _) fun _ => answerAnnounce_neverLeaves _ _ _ _

theorem callAnnounceHandlers_neverLeaves (p : Packet) :
    Prog.NeverLeaves (callAnnounceHandlers env p) := by
  unfold callAnnounceHandlers
  refine .when (.forEach (fun handler => .catching ?_ fun _ => .pure _) _)
  exact .bind (identityRecall_neverLeaves _) fun _ => .bind .get fun _ => .when (callHandler_neverLeaves _)

/-- Accepting an announce comes back to its caller, though it runs handlers and sends answers. -/
theorem acceptAnnounce_neverLeaves (p : Packet) (i : Interface) (identity : Address)
    (blobs : List Bytes) : Prog.NeverLeaves (acceptAnnounce env p i identity blobs) := by
  unfold acceptAnnounce
  refine .bind ?_ fun blocked => .bind ?_ fun _ => .bind (answerWaiting_neverLeaves p i identity)
    fun _ => .bind ?_ fun _ => callAnnounceHandlers_neverLeaves p
  · unfold rateBlocked
    refine .bind .get fun s => .ite ?_ (.pure _)
    split
    · exact .bind (.modify _) fun _ => .pure _
    · exact .bind (.modify _) fun _ => .pure _
  · unfold scheduleAnnounce
    exact .bind .get fun s => .ite (.when (.modify _)) (.when (.modify _))
  · unfold storePath
    refine .catching (.bind (.ofExcept _) fun _ => .when ?_) fun _ => .pure _
    exact .bind (.modify _) fun _ => .modify _

/-- The branch for announces has no return of its own. -/
theorem handleAnnounce_neverLeaves (p : Packet) (i : Interface) (identity : Address) :
    Prog.NeverLeaves (handleAnnounce env p i identity) := by
  unfold handleAnnounce
  refine .bind .get fun s => .when (.bind (callHandler_neverLeaves _) fun valid => .when ?_)
  refine .bind (.when (.modify _)) fun _ => .bind .get fun s => .when ?_
  refine .bind ?_ fun shouldAdd => .bind ?_ fun _ => .when (acceptAnnounce_neverLeaves p i identity _)
  · unfold shouldAddPath
    refine .bind .get fun s => ?_
    split
    · exact .pure _
    · exact .bind (.when (.modify _)) fun _ => .bind .get fun _ => .pure _
  · unfold blackholeAllows
    refine .bind .get fun s => .ite (.pure _) ?_
    refine .bind (identityRecall_neverLeaves _) fun found => .bind .get fun s => ?_
    split <;> exact .pure _

/-- The branch for link proofs has no return of its own. -/
theorem handleLinkProof_neverLeaves (flags : ClientFlags) (a : Arrived) :
    Prog.NeverLeaves (handleLinkProof env flags a) := by
  unfold handleLinkProof
  refine .bind .get fun s => ?_
  split
  · refine .when (.catching ?_ fun _ => .pure _)
    unfold transportLinkProof
    refine .when (.bind (.ofExcept _) fun _ => .bind (identityRecall_neverLeaves _) fun found => ?_)
    split
    · exact .pure _
    · exact .when (.bind (.modify _) fun _ => transmitOn_neverLeaves _ _)
  · exact .forEach (fun _ => callHandler_neverLeaves _) _

/-- The branch for other proofs has no return of its own. -/
theorem handleProof_neverLeaves (flags : ClientFlags) (a : Arrived) :
    Prog.NeverLeaves (handleProof env flags a) := by
  unfold handleProof
  refine .ite (handleLinkProof_neverLeaves flags a) (.ite ?_ (.bind ?_ fun _ => ?_))
  · unfold handleResourceProof
    exact .bind .get fun s => .forEach (fun _ => callHandler_neverLeaves _) _
  · unfold transportProof
    refine .bind .get fun s => ?_
    split
    · exact .pure _
    · exact .when (.bind (transmitOn_neverLeaves _ _) fun _ => .modify _)
  · unfold concludeReceipts
    refine .bind .get fun s => .bind (.fold (fun _ _ => ?_) _ _) fun _ => .modify _
    exact .bind (callHandler_neverLeaves _) fun _ => .pure _

/-- The branch for data to a destination has no return of its own. -/
theorem handleDestinationData_neverLeaves (a : Arrived) :
    Prog.NeverLeaves (handleDestinationData env a) := by
  unfold handleDestinationData
  refine .bind .get fun s => ?_
  split
  · exact .pure _
  · refine .bind (callHandler_neverLeaves _) fun _ => ?_
    split
    · exact callHandler_neverLeaves _
    · split
      · exact .pure _
      · refine .catching (.bind (callHandler_neverLeaves _) fun _ => ?_) fun _ => .pure _
        exact .when (callHandler_neverLeaves _)
    · exact .pure _

/-- Of the branches behind the transport part of `inbound` none returns early. -/
theorem localHandling_neverLeaves (flags : ClientFlags) (a : Arrived) :
    Prog.NeverLeaves (localHandling env flags a) := by
  unfold localHandling
  split
  · exact handleAnnounce_neverLeaves _ _ _
  · unfold handleLinkRequest
    refine .bind .get fun s => .when ?_
    split
    · exact .pure _
    · exact callHandler_neverLeaves _
  · refine .ite ?_ (handleDestinationData_neverLeaves a)
    unfold handleLinkData
    refine .bind .get fun s => ?_
    split
    · exact .pure _
    · exact .ite (callHandler_neverLeaves _) (.modify _)
  · exact handleProof_neverLeaves flags a

end LocalHandling

/-! ## Receiving -/

section Inbound

/-- Whether the signalled MTU can be lowered is read from tables that are the same in both states. -/
theorem cannotClamp_congr {t : TransportState} (h : SameRoutes s t) (a : Arrived) :
    CannotClamp env t a ↔ CannotClamp env s a := by
  unfold CannotClamp
  rw [clientFlags_congr h]
  simp only [nextHopPath_congr h]

/-- How the processing of an accepted packet ends: it leaves `inbound` exactly when it cannot clamp a
link request, and has not touched the lock then. -/
theorem process_ends (env : Environment) (hrunning : s.jobsRunning = false) (hidentity : s.identity.isSome)
    (a : Arrived) :
    ((process env a s).1 = .returned →
        CannotClamp env s a ∧ (process env a s).2.jobsLocked = s.jobsLocked)
      ∧ (CannotClamp env s a → (process env a s).1 = .returned) := by
  have hremember : SameRoutes s (rememberHash env a.packet s) := rememberHash_sameRoutes a.packet s
  set s₁ := rememberHash env a.packet s
  have hsucceeds : Prog.Succeeds (broadcastPlain env (clientFlags s₁ a) a) :=
    broadcastPlain_succeeds (clientFlags s₁ a) a
  obtain ⟨_, s₂, hplain⟩ := hsucceeds s₁
  have hbroadcast : SameRoutes s₁ (broadcastPlain env (clientFlags s₁ a) a s₁).2 :=
    broadcastPlain_sameRoutes (clientFlags s₁ a) a s₁
  rw [hplain] at hbroadcast
  have hsame : SameRoutes s s₂ := .trans _ _ _ hremember hbroadcast
  have hrun : process env a s
      = (transportHandling env (clientFlags s₂ a) a >>= localHandling env (clientFlags s₂ a)) s₂ := by
    unfold process
    rw [Prog.modify_bind_run, Prog.get_bind_run, Prog.bind_value hplain,
      clientFlags_congr hbroadcast]
  have hidentity₂ : s₂.identity.isSome := by rw [hsame.identity]; exact hidentity
  have hends := transportHandling_ends env (hsame.jobsRunning.trans hrunning) hidentity₂ a
  rw [cannotClamp_congr hsame] at hends
  rw [hrun, Prog.bind_run]
  rcases htransport : transportHandling env (clientFlags s₂ a) a s₂ with ⟨a' | _ | e | _, t⟩ <;>
    rw [htransport] at hends
  case value =>
    refine ⟨fun h => absurd h (localHandling_neverLeaves _ a' t), fun h => ?_⟩
    cases hends.2 h
  case returned =>
    obtain ⟨hclamp, rfl⟩ := hends.1 rfl
    exact ⟨fun _ => ⟨hclamp, hsame.jobsLocked⟩, fun _ => rfl⟩
  case thrown =>
    refine ⟨fun h => (by cases h), fun h => ?_⟩
    cases hends.2 h
  case waits =>
    refine ⟨fun h => (by cases h), fun h => ?_⟩
    cases hends.2 h

/-- `inbound` returns early with the lock taken: the node has an identity, and the packet does not
unpack, or it is accepted and cannot be clamped for its next hop. -/
def AbandonsInbound (env : Environment) (s : TransportState) (raw : Bytes)
    (interface : Option Interface) : Prop :=
  s.identity.isSome ∧
    (unpack raw = none
      ∨ ∃ a, arrivedPacket s raw interface = some a ∧ acceptsPacket env s a.packet = true
        ∧ CannotClamp env s a)

/-- What `arrive` does on one thread while the jobs are not running. -/
theorem arrive_run (hrunning : s.jobsRunning = false) {identity : Address}
    (hidentity : s.identity = some identity) (raw : Bytes) (interface : Option Interface) :
    (unpack raw = none → arrive raw interface s = (.returned, setJobsLocked true s))
      ∧ (∀ a, arrivedPacket s raw interface = some a →
          arrive raw interface s = (.value a, setJobsLocked true s))
      ∧ (unpack raw ≠ none → arrivedPacket s raw interface = none →
          arrive raw interface s = (.waits, setJobsLocked true s)) := by
  unfold arrive arrivedPacket
  rw [Prog.bind_value (waitForJobs_run hrunning), Prog.get_bind_run, hidentity]
  dsimp only
  rw [Prog.modify_bind_run]
  cases unpack raw with
  | none => exact ⟨fun _ => rfl, fun a h => (by cases h), fun h => absurd rfl h⟩
  | some p =>
    cases interface with
    | none => exact ⟨fun h => (by cases h), fun a h => (by cases h), fun _ _ => rfl⟩
    | some i =>
      refine ⟨fun h => (by cases h), fun a h => ?_, fun _ h => (by cases h)⟩
      cases h
      rfl

/-- A call of `inbound` that returns has released the lock, unless it returned early behind it. -/
theorem inbound_unlocked_iff (hunlocked : s.jobsLocked = false) (raw : Bytes)
    (interface : Option Interface) (hback : (inbound env raw interface s).1 = .value ()) :
    (inbound env raw interface s).2.jobsLocked = false ↔ ¬ AbandonsInbound env s raw interface := by
  unfold inbound Prog.call at hback ⊢
  unfold AbandonsInbound
  cases hrunning : s.jobsRunning with
  | true =>
    have hwait : arrive raw interface s = (.waits, s) := by
      unfold arrive waitForJobs
      rw [Prog.bind_run, Prog.get_bind_run, hrunning]
      rfl
    rw [Prog.bind_run, hwait] at hback
    cases hback
  | false =>
    cases hidentity : s.identity with
    | none =>
      have hleave : arrive raw interface s = (.returned, s) := by
        unfold arrive
        rw [Prog.bind_value (waitForJobs_run hrunning), Prog.get_bind_run, hidentity]
        rfl
      rw [Prog.bind_run, hleave]
      simp [hunlocked]
    | some identity =>
      obtain ⟨hshort, harrives, hlost⟩ := arrive_run hrunning hidentity raw interface
      cases hraw : unpack raw with
      | none =>
        rw [Prog.bind_run, hshort hraw]
        simp [setJobsLocked]
      | some p =>
        cases harrived : arrivedPacket s raw interface with
        | none =>
          rw [Prog.bind_run, hlost (by simp [hraw]) harrived] at hback
          cases hback
        | some a =>
          have habandons : ((some identity).isSome = true ∧ (some p = none
              ∨ ∃ a', some a = some a' ∧ acceptsPacket env s a'.packet = true ∧ CannotClamp env s a'))
              ↔ acceptsPacket env s a.packet = true ∧ CannotClamp env s a := by
            simp
          rw [habandons]
          rw [Prog.bind_value (harrives a harrived), Prog.get_bind_run] at hback ⊢
          by_cases haccepts : acceptsPacket env (setJobsLocked true s) a.packet = true
          case neg =>
            rw [Prog.when_of_not haccepts, Prog.pure_bind_run, Prog.modify_run]
            exact ⟨fun _ h => haccepts h.1, fun _ => rfl⟩
          rw [Prog.when_of haccepts, Prog.bind_run] at hback ⊢
          have hlockedIdentity : (setJobsLocked true s).identity.isSome = true := by
            show s.identity.isSome = true
            rw [hidentity]
            rfl
          have hlockedRunning : (setJobsLocked true s).jobsRunning = false := hrunning
          obtain ⟨hreturned, hclamp⟩ := process_ends env hlockedRunning hlockedIdentity a
          rcases hprocess : process env a (setJobsLocked true s) with ⟨_ | _ | e | _, t⟩ <;>
            rw [hprocess] at hback hreturned hclamp
          case value =>
            refine ⟨fun _ h => ?_, fun _ => rfl⟩
            cases hclamp h.2
          case returned =>
            obtain ⟨hcannot, hlocked⟩ := hreturned rfl
            refine ⟨fun h => ?_, fun h => absurd ⟨haccepts, hcannot⟩ h⟩
            dsimp only at h hlocked
            rw [hlocked] at h
            cases h
          case thrown => cases hback
          case waits => cases hback

end Inbound

/-! ## Every call -/

section Calls

/-- A call that takes the lock. -/
inductive Call where
  | inbound (raw : Bytes) (interface : Option Interface)
  | outbound (p : OutgoingPacket)

namespace Call

/-- The state a call leaves. -/
def after (env : Environment) : Call → TransportState → TransportState
  | .inbound raw interface, s => (Transport.inbound env raw interface s).2
  | .outbound p, s => (Transport.outbound env p s).2

/-- `inbound` returns; `outbound` returns or throws. -/
def Back (env : Environment) (s : TransportState) : Call → Prop
  | .inbound raw interface => (Transport.inbound env raw interface s).1 = .value ()
  | .outbound p => (Transport.outbound env p s).1.Ended

/-- The call reaches an exit behind the lock that does not release it. -/
def Abandons (env : Environment) (s : TransportState) : Call → Prop
  | .inbound raw interface => AbandonsInbound env s raw interface
  | .outbound p => AbandonsOutbound env s p

end Call

/-- A call of `outbound` that comes back has released the lock, unless it threw behind it. -/
theorem outbound_unlocked_iff (hunlocked : s.jobsLocked = false) (p : OutgoingPacket)
    (hback : (outbound env p s).1.Ended) :
    (outbound env p s).2.jobsLocked = false ↔ ¬ AbandonsOutbound env s p := by
  unfold outbound at hback ⊢
  cases hdestination : p.destination with
  | none =>
    have hnot : ¬ AbandonsOutbound env s p := by
      rintro ⟨⟨hlink, _⟩, _⟩
      rw [hdestination] at hlink
      cases hlink
    exact ⟨fun _ => hnot, fun _ => hunlocked⟩
  | some d =>
    rw [hdestination] at hback
    dsimp only at hback ⊢
    cases hrunning : s.jobsRunning with
    | true =>
      rw [Prog.bind_run, waitForJobs_waits hrunning] at hback
      exact hback.elim
    | false =>
      rw [Prog.bind_value (waitForJobs_run hrunning), Prog.modify_bind_run]
      obtain ⟨hthrows, hvalues⟩ := outboundLocked_ends env p (setJobsLocked true s)
      have hlocked : SameLock (setJobsLocked true s) (outboundLocked env p (setJobsLocked true s)).2 :=
        outboundLocked_sameLock (setJobsLocked true s)
      by_cases habandons : AbandonsOutbound env s p
      · obtain ⟨e, t, hrun⟩ := hthrows habandons
        rw [hrun] at hlocked
        rw [Prog.bind_thrown hrun]
        refine ⟨fun h => ?_, fun h => absurd habandons h⟩
        rw [show t.jobsLocked = true from hlocked] at h
        cases h
      · obtain ⟨r, t, hrun⟩ := hvalues habandons
        rw [Prog.bind_value hrun]
        exact ⟨fun _ => habandons, fun _ => rfl⟩

/-- A step of a run: a call that takes the lock, comes back and reaches none of the bad exits, or
anything that leaves the flag alone. The clock, the settings and the handlers may differ from step to
step. -/
inductive CleanStep : TransportState → TransportState → Prop
  | call (env : Environment) (s : TransportState) (c : Call) (back : c.Back env s)
      (clean : ¬ c.Abandons env s) : CleanStep s (c.after env s)
  | other (s t : TransportState) (same : t.jobsLocked = s.jobsLocked) : CleanStep s t

/-- A call that comes back leaves the lock free exactly if it does not take one of the exits that leave it. -/
theorem call_unlocked_iff (hunlocked : s.jobsLocked = false) (c : Call) (hback : c.Back env s) :
    (c.after env s).jobsLocked = false ↔ ¬ c.Abandons env s := by
  cases c with
  | inbound raw interface => exact inbound_unlocked_iff hunlocked raw interface hback
  | outbound p => exact outbound_unlocked_iff hunlocked p hback

/-- The lock is released by a call that comes back exactly when the call does not reach one of the
exits behind the lock; and a run without them keeps the lock released. -/
theorem lock_released_iff (env : Environment) (s : TransportState)
    (hunlocked : s.jobsLocked = false) :
    (∀ c : Call, c.Back env s → ((c.after env s).jobsLocked = false ↔ ¬ c.Abandons env s))
      ∧ ∀ t, Relation.ReflTransGen CleanStep s t → t.jobsLocked = false := by
  refine ⟨fun c hback => call_unlocked_iff hunlocked c hback, fun t hrun => ?_⟩
  induction hrun with
  | refl => exact hunlocked
  | tail _ hstep ih =>
    cases hstep with
    | call env _ c back clean => exact (call_unlocked_iff ih c back).mpr clean
    | other _ _ same => exact same.trans ih

/-- A data packet for a destination nobody knows, received by a node with an identity. -/
theorem lock_released_iff_unknown_destination :
    (Call.after Environment.idle (.inbound (List.replicate 20 0) (some { id := 0 }))
      { identity := some (List.Vector.replicate 16 1) }).jobsLocked = false := by
  have hback : Call.Back Environment.idle { identity := some (List.Vector.replicate 16 1) }
      (.inbound (List.replicate 20 0) (some { id := 0 })) := rfl
  refine ((lock_released_iff Environment.idle _ rfl).1 _ hback).mpr ?_
  rintro ⟨_, hshort | ⟨a, _, _, _, entry, e, hpath, _⟩⟩
  · cases hshort
  · unfold nextHopPath getPath at hpath
    split at hpath <;> cases hpath

/-- One short packet is enough: a node with an identity that receives an empty packet returns with the
lock taken. -/
theorem short_packet_keeps_lock :
    ¬ ∀ (env : Environment) (s : TransportState) (raw : Bytes) (interface : Option Interface),
      s.jobsLocked = false → (inbound env raw interface s).1 = .value () →
        (inbound env raw interface s).2.jobsLocked = false := by
  intro h
  let s : TransportState := { identity := some (List.Vector.replicate 16 0) }
  have hlocked := h Environment.idle s [] (some { id := 0 }) rfl rfl
  cases hlocked

end Calls

end MicroReticulum.Transport
