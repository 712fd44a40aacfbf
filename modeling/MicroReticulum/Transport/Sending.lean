import MicroReticulum.Transport.Inbound

/-!
# What sending can change

`Sending` lists the changes that `outbound` makes to the state, and `Passing` those that `inbound` makes up to local
handling. A relation between the states before and behind a call that allows each of them is kept by the whole call.
-/

namespace MicroReticulum.Transport

open MicroReticulum Packet Link Library

variable {env : Environment} {R : TransportState → TransportState → Prop}

/-- A new receipt has no timeout handler yet. -/
theorem newReceipt_handler {s : TransportState} {p : OutgoingPacket} {r : PacketReceipt}
    (h : newReceipt env s p = .ok r) : r.timeoutHandler = .none := by
  unfold newReceipt at h
  dsimp only at h
  split at h
  · split at h
    · cases h
    · cases h
      rfl
  · cases h
    rfl

/-- The relation allows what handing a packet to interfaces changes. -/
structure Handing (R : TransportState → TransportState → Prop) : Prop where
  refl : ∀ s, R s s
  trans : ∀ s t u, R s t → R t u → R s u
  lock : ∀ locked s, R s (setJobsLocked locked s)
  hash : ∀ hash s, R s (addPacketHash hash s)
  wire : ∀ i raw s, R s { s with wire := (i, raw) :: s.wire }

/-- The relation allows what sending a packet changes. -/
structure Sending (R : TransportState → TransportState → Prop) : Prop extends Handing R where
  allowedAt : ∀ id time s, R s (setAnnounceAllowedAt id time s)
  queue : ∀ now p id s, R s (adjustAnnounceQueue id (queueAnnounce now p) s)
  count : ∀ now nextHop s, R s (recordNeighborPacket now nextHop s)
  receipt : ∀ r : PacketReceipt, r.timeoutHandler = .none → ∀ s, R s { s with receipts := s.receipts ++ [r] }

/-- The relation allows what passing a packet on changes. -/
structure Passing (R : TransportState → TransportState → Prop) : Prop extends Handing R where
  forward : ∀ env a entry s, R s (recordForward env a entry s)
  link : ∀ d f s, R s { s with linkTable := s.linkTable.adjust d f }

/-! ## Handing -/

namespace Handing

variable (h : Handing R)

include h

theorem waitForJobs : Prog.Keeps R Transport.waitForJobs := by
  apply Prog.Keeps.bind h.trans (.get h.refl)
  intro s
  split
  · exact .wait h.refl
  · exact .pure h.refl _

theorem transmit (i : Interface) (raw : Bytes) : Prog.Keeps R (transmit env i raw) := by
  apply Prog.Keeps.bind h.trans (.get h.refl)
  intro s
  apply Prog.Keeps.bind h.trans (.when h.refl fun _ => .modify (h.wire i raw))
  intro _
  exact .pure h.refl _

theorem transmitOn (interfaces : List Interface) (raw : Bytes) : Prog.Keeps R (transmitOn env interfaces raw) := by
  apply Prog.Keeps.forEach h.refl h.trans
  intro i _
  exact .bind h.trans (h.transmit i raw) fun _ => .pure h.refl _

theorem arrive (raw : Bytes) (interface : Option Interface) : Prog.Keeps R (arrive raw interface) := by
  apply Prog.Keeps.bind h.trans h.waitForJobs
  intro _
  apply Prog.Keeps.bind h.trans (.get h.refl)
  intro s
  split
  · exact .leave h.refl
  · apply Prog.Keeps.bind h.trans (.modify (h.lock true))
    intro _
    split
    · exact .leave h.refl
    · split
      · exact .wait h.refl
      · exact .pure h.refl _

theorem rememberHash (p : Packet) (s : TransportState) : R s (rememberHash env p s) := by
  unfold Transport.rememberHash
  split
  · exact h.hash _ s
  · exact h.refl s

theorem broadcastPlain (flags : ClientFlags) (a : Arrived) : Prog.Keeps R (broadcastPlain env flags a) := by
  apply Prog.Keeps.bind h.trans (.get h.refl)
  intro s
  apply Prog.Keeps.when h.refl
  intro _
  split
  · exact h.transmitOn _ _
  · exact h.transmitOn _ _

theorem answerCacheRequest (a : Arrived) : Prog.Keeps R (answerCacheRequest a) := by
  apply Prog.Keeps.bind h.trans (.get h.refl)
  intro s
  split
  · exact .pure h.refl _
  · apply Prog.Keeps.bind h.trans (.call (.bind h.trans (h.arrive _ none) fun _ => .pure h.refl _))
    intro _
    exact .leave h.refl

end Handing

/-! ## Sending -/

namespace Sending

variable (h : Sending R)

include h

theorem outboundKnown (p : Packet) (entry : DestinationEntry) : Prog.Keeps R (outboundKnown env p entry) := by
  unfold Transport.outboundKnown
  split
  · exact .pure h.refl _
  · apply Prog.Keeps.bind h.trans (h.transmit _ _)
    intro sent
    apply Prog.Keeps.bind h.trans (.when h.refl fun _ => .modify (h.count _ _))
    intro _
    exact .pure h.refl _

theorem announceCapAllows (p : Packet) (i : Interface) : Prog.Keeps R (announceCapAllows env p i) := by
  apply Prog.Keeps.bind h.trans (.get h.refl)
  intro s
  split
  · exact .pure h.refl _
  · split
    · exact .bind h.trans (.modify (h.allowedAt _ _)) fun _ => .pure h.refl _
    · exact .bind h.trans (.modify (h.queue _ _ _)) fun _ => .pure h.refl _

theorem announceRules (p : OutgoingPacket) (i : Interface) : Prog.Keeps R (announceRules env p i) := by
  unfold Transport.announceRules
  split
  case isFalse => exact .pure h.refl _
  case isTrue =>
    apply Prog.Keeps.bind h.trans (.get h.refl)
    intro s
    split
    · exact .pure h.refl _
    · exact .pure h.refl _
    · exact .pure h.refl _
    · exact h.announceCapAllows _ i

theorem broadcastOn (p : OutgoingPacket) (b : BroadcastState) (i : Interface) :
    Prog.Keeps R (broadcastOn env p b i) := by
  have hshould : Prog.Keeps R (shouldTransmit env p i) :=
    .bind h.trans (.ofExcept h.refl _) fun _ => .bind h.trans (h.announceRules p i) fun _ => .pure h.refl _
  unfold Transport.broadcastOn
  split
  case isFalse => exact .pure h.refl _
  case isTrue =>
    apply Prog.Keeps.bind h.trans hshould
    intro should
    split
    · exact .bind h.trans (.when h.refl fun _ => .modify (h.hash _)) fun _ =>
        .bind h.trans (h.transmit i _) fun _ => .pure h.refl _
    · exact .pure h.refl _

theorem transmitPacket (p : OutgoingPacket) : Prog.Keeps R (transmitPacket env p) := by
  apply Prog.Keeps.bind h.trans (.get h.refl)
  intro s
  split
  · exact h.outboundKnown _ _
  · apply Prog.Keeps.bind h.trans (.get h.refl)
    intro s
    exact .bind h.trans (.fold h.refl h.trans _ (fun i _ b => h.broadcastOn p b i) _) fun _ => .pure h.refl _

theorem addReceipt (p : OutgoingPacket) (sent : Bool) : Prog.Keeps R (addReceipt env p sent) := by
  unfold Transport.addReceipt
  split
  case isFalse => exact .pure h.refl _
  case isTrue =>
    intro s
    rw [Prog.get_bind_run]
    cases hreceipt : newReceipt env s p with
    | error e => exact h.refl s
    | ok r => exact h.receipt r (newReceipt_handler hreceipt) s

theorem outbound (p : OutgoingPacket) : Prog.Keeps R (outbound env p) := by
  unfold Transport.outbound
  split
  · exact .pure h.refl _
  · apply Prog.Keeps.bind h.trans h.waitForJobs
    intro _
    apply Prog.Keeps.bind h.trans (.modify (h.lock true))
    intro _
    apply Prog.Keeps.bind h.trans
    · exact .bind h.trans (h.transmitPacket p) fun sent => .bind h.trans (h.addReceipt p sent) fun _ => .pure h.refl _
    intro result
    exact .bind h.trans (.modify (h.lock false)) fun _ => .pure h.refl _

theorem send (p : NewPacket) : Prog.Keeps R (send env p) := by
  apply Prog.Keeps.bind h.trans (.ofExcept h.refl _)
  intro _
  apply Prog.Keeps.bind h.trans (.ofExcept h.refl _)
  intro packet
  exact h.outbound _

end Sending

/-! ## The two halves of `inbound` -/

/-- `inbound` up to local handling; `none` when the filter does not let the packet through. -/
def untilLocal (env : Environment) (raw : Bytes) (interface : Option Interface) :
    Prog String TransportState (Option (ClientFlags × Arrived)) := do
  let a ← arrive raw interface
  let s ← Prog.get
  if acceptsPacket env s a.packet = true then do
    Prog.modify (rememberHash env a.packet)
    let s ← Prog.get
    let flags := clientFlags s a
    broadcastPlain env flags a
    let a ← transportHandling env flags a
    pure (some (flags, a))
  else pure none

/-- Local handling of what came through, and the release of the lock. -/
def fromLocal (env : Environment) (arrived : Option (ClientFlags × Arrived)) : Prog String TransportState Unit := do
  match arrived with
  | none => pure ()
  | some (flags, a) => localHandling env flags a
  Prog.modify (setJobsLocked false)

/-- `inbound` is the part before local delivery followed by the part after it, inside one call. -/
theorem inbound_eq (raw : Bytes) (interface : Option Interface) (s : TransportState) :
    inbound env raw interface s = Prog.call (untilLocal env raw interface >>= fromLocal env) s := by
  have hmain : (arrive raw interface >>= fun a => Prog.get >>= fun s =>
        Prog.when (acceptsPacket env s a.packet = true) (process env a) >>= fun _ =>
          Prog.modify (setJobsLocked false)) s
      = (untilLocal env raw interface >>= fromLocal env) s := by
    unfold untilLocal
    rw [Prog.bind_assoc_run]
    apply Prog.bind_congr_run
    intro a t
    rw [Prog.get_bind_run, Prog.bind_assoc_run, Prog.get_bind_run]
    by_cases haccepts : acceptsPacket env t a.packet = true
    case neg =>
      rw [Prog.when_of_not haccepts, if_neg haccepts]
      rfl
    rw [Prog.when_of haccepts, if_pos haccepts]
    unfold process
    rw [Prog.bind_assoc_run, Prog.modify_bind_run, Prog.bind_assoc_run, Prog.get_bind_run]
    conv_rhs => rw [Prog.bind_assoc_run, Prog.modify_bind_run, Prog.bind_assoc_run, Prog.get_bind_run]
    dsimp only
    rw [Prog.bind_assoc_run]
    conv_rhs => rw [Prog.bind_assoc_run]
    apply Prog.bind_congr_run
    intro _ u
    rw [Prog.bind_assoc_run]
    conv_rhs => rw [Prog.bind_assoc_run]
    rfl
  unfold inbound Prog.call
  rw [hmain]

/-- The state `inbound` leaves is the one those two parts leave, whether or not they throw. -/
theorem inbound_state (raw : Bytes) (interface : Option Interface) (s : TransportState) :
    (inbound env raw interface s).2 = ((untilLocal env raw interface >>= fromLocal env) s).2 := by
  rw [inbound_eq]
  unfold Prog.call
  rcases (untilLocal env raw interface >>= fromLocal env) s with ⟨_ | _ | _ | _, t⟩ <;> rfl

/-- Behind local handling only the lock is released. -/
theorem Handing.fromLocal (h : Handing R) {flags : ClientFlags} {a : Arrived} {s t : TransportState}
    (hlocal : R s (localHandling env flags a t).2) : R s (fromLocal env (some (flags, a)) t).2 := by
  have hrelease : Prog.Keeps R (Prog.modify (setJobsLocked false) : Prog String TransportState Unit) :=
    .modify (h.lock false)
  exact h.trans _ _ _ hlocal (Prog.Keeps.after h.refl _ (fun _ => hrelease) t)

/-! ## Passing on -/

namespace Passing

variable (h : Passing R)

include h

theorem forwardNextHop (a : Arrived) : Prog.Keeps R (forwardNextHop env a) := by
  apply Prog.Keeps.bind h.trans (.get h.refl)
  intro s
  split
  · exact .pure h.refl _
  · split
    · exact .leave h.refl
    · exact .bind h.trans (.modify (h.forward env a _)) fun _ => h.transmitOn _ _

theorem linkTransport (a : Arrived) : Prog.Keeps R (linkTransport env a) := by
  apply Prog.Keeps.bind h.trans (.get h.refl)
  intro s
  apply Prog.Keeps.when h.refl
  intro _
  split
  · exact .pure h.refl _
  · apply Prog.Keeps.bind h.trans (h.transmitOn _ _)
    intro _
    exact .bind h.trans (.modify (h.link _ _)) fun _ => .modify (h.hash _)

theorem transportHandling (flags : ClientFlags) (a : Arrived) : Prog.Keeps R (transportHandling env flags a) := by
  unfold Transport.transportHandling
  split
  case isFalse => exact .pure h.refl _
  case isTrue =>
    apply Prog.Keeps.bind h.trans (h.answerCacheRequest _)
    intro _
    apply Prog.Keeps.bind h.trans (h.forwardNextHop _)
    intro _
    exact .bind h.trans (h.linkTransport _) fun _ => .pure h.refl _

theorem untilLocal (raw : Bytes) (interface : Option Interface) : Prog.Keeps R (untilLocal env raw interface) := by
  apply Prog.Keeps.bind h.trans (h.arrive raw interface)
  intro a
  apply Prog.Keeps.bind h.trans (.get h.refl)
  intro s
  split
  case isFalse => exact .pure h.refl _
  case isTrue =>
    apply Prog.Keeps.bind h.trans (.modify (h.rememberHash a.packet))
    intro _
    apply Prog.Keeps.bind h.trans (.get h.refl)
    intro t
    apply Prog.Keeps.bind h.trans (h.broadcastPlain _ a)
    intro _
    exact .bind h.trans (h.transportHandling _ a) fun _ => .pure h.refl _

end Passing

end MicroReticulum.Transport
