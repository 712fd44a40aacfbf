import MicroReticulum.Announce.Replay

/-!
# The name announces go out under

A node puts its own transport id into the announces it passes on: this is how the next node learns over whom the path
leads. `Relaying` lists what the programs of the announce path change besides storing a path. A relation that allows
all of it is kept by the handling of an announce, by the announce job and by path requests. `PassesOn` is the one that
matters here: the paths stay as they are, and every announce that was sent under a transport header carries the id of
the node.
-/

namespace MicroReticulum.Announce

open MicroReticulum Packet Link Library Transport

variable {env : Environment} {n : Address} {s t u : TransportState}

/-- The packet goes out under the name of the node. -/
def NewPacket.Named (n : Address) (p : NewPacket) : Prop :=
  ∃ packet context hops i, context ≠ ContextType.lrproof
    ∧ p = { spec := rebroadcastSpec n packet context hops, attachedInterface := i }

/-- The relation allows what the announce path of node `n` changes. -/
structure Relaying (env : Environment) (n : Address) (R : TransportState → TransportState → Prop) : Prop where
  refl : ∀ s, R s s
  trans : ∀ s t u, R s t → R t u → R s u
  known : ∀ table s, R s { s with knownDestinations := table }
  waiting : ∀ table s, R s { s with announceTable := table }
  held : ∀ table s, R s { s with heldAnnounces := table }
  rates : ∀ table s, R s { s with announceRateTable := table }
  pending : ∀ table s, R s { s with pendingLocalPathRequests := table }
  requests : ∀ table s, R s { s with discoveryPathRequests := table }
  mark : ∀ d s, R s (markPath .unknown d s)
  send : ∀ p : NewPacket, NewPacket.Named n p → Prog.Keeps R (send env p)

namespace Relaying

variable {R : TransportState → TransportState → Prop} (h : Relaying env n R)

include h

/-- Recalling an identity is a write to the known destinations. -/
theorem identityRecall (d : Address) : Prog.Keeps R (identityRecall env d) :=
  identityRecall_keeps h.refl h.trans (fun s table => h.known table s) d

theorem cullAnnounceTable (s : TransportState) : R s (cullAnnounceTable env s) := by
  unfold Transport.cullAnnounceTable
  split
  · exact h.waiting _ s
  · exact h.refl s

/-- Adding an entry is an insertion behind the cull. -/
theorem addAnnounceEntry (d : Address) (e : AnnounceEntry) (s : TransportState) : R s (addAnnounceEntry env d e s) :=
  h.trans _ _ _ (h.waiting _ s) (h.cullAnnounceTable _)

/-! ### An announce -/

/-- Hearing a rebroadcast changes an entry or removes it. -/
theorem hearRebroadcast (now : ℚ) (p : Packet) (s : TransportState) : R s (hearRebroadcast now p s) := by
  unfold Transport.hearRebroadcast
  split
  · exact h.refl s
  · split
    · exact h.waiting _ s
    · split
      · exact h.waiting _ s
      · exact h.refl s

/-- Judging an announce is made of writes each of which the relation allows. -/
theorem judgeAnnounce (henv : Validates env) (p : Packet) : Prog.Keeps R (judgeAnnounce env p) :=
  judgeAnnounce_keeps h.refl h.trans h.mark henv (h.hearRebroadcast _ p)
    (validateAnnounce_keeps h.refl h.trans (fun s table => h.known table s) p false) (h.identityRecall _)

/-- An answer is a packet that names this node and carries the announce. -/
theorem answerAnnounce (p : Packet) {context : ContextType} (hcontext : context ≠ ContextType.lrproof)
    (attached : Option Interface) : Prog.Keeps R (answerAnnounce env p n context attached) := by
  apply Prog.Keeps.bind h.trans (h.send _ ⟨p, context, p.hops, attached, hcontext, rfl⟩)
  intro _
  exact .pure h.refl _

/-- Answering a waiting request recalls the identity and sends such a packet. -/
theorem answerWaiting (p : Packet) (i : Interface) : Prog.Keeps R (answerWaiting env p i n) := by
  apply Prog.Keeps.bind h.trans (.get h.refl)
  intro s
  apply Prog.Keeps.bind h.trans
  · apply Prog.Keeps.when h.refl
    intro _
    apply Prog.Keeps.bind h.trans (h.identityRecall _)
    intro _
    exact .forEach h.refl h.trans _ fun l _ => h.answerAnnounce p (by decide) _
  intro _
  apply Prog.Keeps.bind h.trans (.get h.refl)
  intro t
  split
  · exact .pure h.refl _
  · apply Prog.Keeps.bind h.trans (h.identityRecall _)
    intro _
    exact h.answerAnnounce p (by decide) _

/-- Preparing an announce applies the rate limit, schedules it and answers who waits. -/
theorem prepareAnnounce (p : Packet) (i : Interface) : Prog.Keeps R (prepareAnnounce env p i n) := by
  apply Prog.Keeps.bind h.trans (rateBlocked_keeps h.refl h.trans (fun s table => h.rates table s) _ p i)
  intro blocked
  apply Prog.Keeps.bind h.trans
  · exact scheduleAnnounce_keeps h.refl h.trans h.addAnnounceEntry (fun s table => h.pending table s) p i blocked
  intro _
  exact h.answerWaiting p i

/-- A relation that allows a path to be stored is kept by all that follows from an announce. -/
theorem handleAnnounce (hput : ∀ d path s, R s (putPath d path s)) (henv : Validates env)
    (hhandlers : HandlersSpare R env) (p : Packet) (i : Interface) : Prog.Keeps R (handleAnnounce env p i n) := by
  intro s
  rw [handleAnnounce_eq]
  revert s
  apply Prog.Keeps.bind h.trans (h.judgeAnnounce henv p)
  intro decision
  cases decision with
  | none => exact .pure h.refl _
  | some blobs =>
    intro s
    dsimp only
    rw [acceptAnnounce_eq]
    revert s
    apply Prog.Keeps.bind h.trans (h.prepareAnnounce p i)
    intro _
    apply Prog.Keeps.bind h.trans (storePath_keeps h.refl h.trans hput h.mark p i blobs)
    intro _
    exact callAnnounceHandlers_keeps h.refl h.trans (h.identityRecall _) hhandlers

/-! ### The announce job -/

/-- Putting a held entry back is a write to the announce table. -/
theorem reinsertHeld (d : Address) (s : TransportState) : R s (reinsertHeld env d s) := by
  unfold Transport.reinsertHeld
  split
  · exact h.refl s
  · apply h.trans _ _ _ (h.held (s.heldAnnounces.erase d) s)
    exact h.trans _ _ _ (h.waiting _ _) (h.cullAnnounceTable _)

/-- A round of the announce job changes its entry or removes it, and prepares a packet. -/
theorem retransmitEntry (identity d : Address) (entry : AnnounceEntry) (r : Retransmissions) :
    Prog.Keeps R (retransmitEntry env identity d entry r) := by
  apply Prog.Keeps.bind h.trans (.modify fun s => h.waiting _ s)
  intro _
  apply Prog.Keeps.bind h.trans (h.identityRecall _)
  intro recalled
  split
  · exact .pure h.refl _
  · exact .bind h.trans (.modify (h.reinsertHeld d)) fun _ => .pure h.refl _

/-- A round for a destination begins with the entry being found, and ends with the held one being put back. -/
theorem retransmitAnnounce (identity : Address) (r : Retransmissions) (d : Address) :
    Prog.Keeps R (retransmitAnnounce env identity r d) := by
  unfold Transport.retransmitAnnounce
  split
  · exact .pure h.refl _
  apply Prog.Keeps.bind h.trans (.get h.refl)
  intro s
  split
  · exact .pure h.refl _
  · split
    · exact .pure h.refl _
    · split
      · exact .catching h.trans (h.retransmitEntry _ _ _ _) fun _ => .pure h.refl _
      · exact .pure h.refl _

/-- The loop over the announce table is made of such rounds. -/
theorem retransmitAnnounces (identity : Address) : Prog.Keeps R (retransmitAnnounces env identity) := by
  apply Prog.Keeps.bind h.trans (.get h.refl)
  intro s
  apply Prog.Keeps.bind h.trans
  · exact .fold h.refl h.trans _ (fun d _ r => h.retransmitAnnounce identity r d) _
  intro r
  exact .bind h.trans (.when h.refl fun _ => .modify fun s => h.waiting _ s) fun _ => .pure h.refl _

end Relaying

/-- What the loop has collected goes out under the name of the node. -/
def AllNamed (n : Address) (r : Retransmissions) : Prop := ∀ p ∈ r.outgoing, NewPacket.Named n p

/-- The packet that is made of an entry names this node. -/
theorem newPacket_named (n : Address) (e : AnnounceEntry) : NewPacket.Named n (e.newPacket n) := by
  refine ⟨e.packet, _, e.hops, e.attachedInterface, ?_, rfl⟩
  cases e.blockRebroadcasts <;> decide

theorem retransmitEntry_named (d : Address) (entry : AnnounceEntry) {r : Retransmissions} (hr : AllNamed n r) :
    Prog.Returns (AllNamed n) (retransmitEntry env n d entry r) := by
  apply Prog.Returns.bind
  intro _
  apply Prog.Returns.bind
  intro recalled
  split
  · exact .pure hr
  · apply Prog.Returns.bind
    intro _
    apply Prog.Returns.pure
    intro p hp
    rcases List.mem_append.mp hp with hold | hnew
    · exact hr p hold
    · rw [List.mem_singleton.mp hnew]
      exact newPacket_named n entry

/-- One round of the loop collects nothing else. -/
theorem retransmitAnnounce_named (d : Address) {r : Retransmissions} (hr : AllNamed n r) :
    Prog.Returns (AllNamed n) (retransmitAnnounce env n r d) := by
  unfold retransmitAnnounce
  split
  · exact .pure hr
  apply Prog.Returns.bind
  intro s
  split
  · exact .pure hr
  · split
    · exact .pure hr
    · split
      · intro s r' t hrun
        unfold Prog.catching at hrun
        rename_i entry _ _ _
        rcases hentry : retransmitEntry env n d entry r s with ⟨r'' | _ | _ | _, v⟩ <;> rw [hentry] at hrun <;>
          cases hrun
        · exact retransmitEntry_named d entry hr s _ _ hentry
        · exact hr
      · exact .pure hr

/-- What the loop prepares names this node, by induction over the table. -/
theorem retransmitLoop_named (keys : List Address) {r : Retransmissions} (hr : AllNamed n r) :
    Prog.Returns (AllNamed n) (Prog.fold keys r (retransmitAnnounce env n)) := by
  induction keys generalizing r with
  | nil => exact .pure hr
  | cons d keys ih =>
    intro s r' t hrun
    obtain ⟨r'', v, hround, hrest⟩ := Prog.exists_of_bind_value hrun
    exact ih (retransmitAnnounce_named d hr s _ _ hround) v _ _ hrest

/-- The announce job is the loop and the sending of what it prepared, which the relation allows. -/
theorem Relaying.announceJob {R : TransportState → TransportState → Prop} (h : Relaying env n R)
    (hidentity : s.identity = some n) : R s (announceJob env s).2 := by
  have hloop := h.retransmitAnnounces n s
  unfold Transport.announceJob
  rw [Prog.get_bind_run, hidentity]
  dsimp only
  rw [Prog.bind_run]
  rcases hrun : Transport.retransmitAnnounces env n s with ⟨outgoing | _ | _ | _, v⟩ <;> rw [hrun] at hloop
  case value =>
    have hnamed : ∀ p ∈ outgoing, NewPacket.Named n p := by
      unfold Transport.retransmitAnnounces at hrun
      rw [Prog.get_bind_run] at hrun
      obtain ⟨r, w, hcollected, hrest⟩ := Prog.exists_of_bind_value hrun
      obtain ⟨_, x, -, hpure⟩ := Prog.exists_of_bind_value hrest
      cases hpure
      exact retransmitLoop_named _ (fun p hp => by cases hp) s _ _ hcollected
    apply h.trans _ _ _ hloop
    refine Prog.Keeps.forEach h.refl h.trans outgoing (fun p hp => ?_) v
    exact .bind h.trans (h.send p (hnamed p hp)) fun _ => .pure h.refl _
  all_goals exact hloop

/-- What is assumed of the code that `path_request` calls. -/
structure CallsRelay (R : TransportState → TransportState → Prop) (calls : PathRequestCalls) : Prop where
  announceLocal : ∀ d s, R s (calls.announceLocal d s).2
  requestPath : ∀ d i s, R s (calls.requestPath d i s).2

/-- A path request is answered later, by the job. -/
theorem Relaying.pathRequest {R : TransportState → TransportState → Prop} (h : Relaying env n R)
    {calls : PathRequestCalls} (hcalls : CallsRelay R calls) (r : PathRequest) :
    Prog.Keeps R (pathRequest env calls r) := by
  have hrequests : ∀ is : List Interface, Prog.Keeps R (Prog.forEach is fun i =>
      callHandler (calls.requestPath r.destinationHash i)) :=
    fun is => .forEach h.refl h.trans _ fun i _ => callHandler_keeps (hcalls.requestPath _ i)
  have hnote : ∀ entry s, R s (notePendingLocal r entry s) := by
    intro entry s
    unfold notePendingLocal
    split
    · exact h.pending _ s
    · exact h.refl s
  have hhold : ∀ d s, R s (holdAnnounce d s) := by
    intro d s
    unfold holdAnnounce
    split
    · exact h.refl s
    · exact h.held _ s
  have hanswer : ∀ entry, Prog.Keeps R (answerKnownPath env r entry) := by
    intro entry
    apply Prog.Keeps.bind h.trans (.get h.refl)
    intro s
    apply Prog.Keeps.when h.refl
    intro _
    exact .bind h.trans (.modify (hhold _)) fun _ => .modify (h.addAnnounceEntry _ _)
  apply Prog.Keeps.bind h.trans (.get h.refl)
  intro s
  apply Prog.Keeps.bind h.trans (.modify (hnote _))
  intro _
  apply Prog.Keeps.bind h.trans (.get h.refl)
  intro t
  split
  · exact callHandler_keeps (hcalls.announceLocal _)
  · split
    · exact hanswer _
    · split
      · exact hrequests _
      · split
        · apply Prog.Keeps.when h.refl
          intro _
          exact .bind h.trans (.modify fun s => h.requests _ s) fun _ => hrequests _
        · exact hrequests _

/-! ## What was sent -/

/-- Bytes that are no relayed announce, or one under the name of the node. -/
def NamedBy (n : Address) (raw : Bytes) : Prop := ∀ q, unpack raw = some q → Relayed q → q.transportId = some n

/-- What was sent since goes under the name of the node. -/
def Names (n : Address) (s t : TransportState) : Prop := ∀ x ∈ t.wire, x ∈ s.wire ∨ NamedBy n x.2

theorem Names.of_same (h : t.wire = s.wire) : Names n s t := fun _ hx => .inl (h ▸ hx)

theorem Names.refl (s : TransportState) : Names n s s := .of_same rfl

theorem Names.trans (s t u : TransportState) (h : Names n s t) (h' : Names n t u) : Names n s u := by
  intro x hx
  rcases h' x hx with hold | hnamed
  · exact h x hold
  · exact .inr hnamed

/-! ### Sending an announce -/

namespace Names

variable {p : OutgoingPacket}

/-- A packet that names this node is transmitted. -/
theorem transmit (i : Interface) {raw : Bytes} (hraw : NamedBy n raw) : Prog.Keeps (Names n) (transmit env i raw) := by
  apply Prog.Keeps.bind Names.trans (.get Names.refl)
  intro s
  apply Prog.Keeps.bind Names.trans
  · apply Prog.Keeps.when Names.refl
    intro _
    apply Prog.Keeps.modify
    intro s x hx
    rcases List.mem_cons.mp hx with rfl | hold
    · exact .inr hraw
    · exact .inl hold
  intro _
  exact .pure Names.refl _

/-- The announce cap does not send anything. -/
theorem announceRules (p : OutgoingPacket) (i : Interface) : Prog.Keeps (Names n) (announceRules env p i) := by
  unfold Transport.announceRules
  split
  case isFalse => exact .pure Names.refl _
  case isTrue =>
    apply Prog.Keeps.bind Names.trans (.get Names.refl)
    intro s
    split
    · exact .pure Names.refl _
    · exact .pure Names.refl _
    · exact .pure Names.refl _
    · apply Prog.Keeps.bind Names.trans (.get Names.refl)
      intro s
      split
      · exact .pure Names.refl _
      · split
        · exact .bind Names.trans (.modify fun _ => .of_same rfl) fun _ => .pure Names.refl _
        · exact .bind Names.trans (.modify fun _ => .of_same rfl) fun _ => .pure Names.refl _

/-- A round of the broadcast transmits the packet or nothing. -/
theorem broadcastOn (hraw : NamedBy n p.packet.raw) (b : BroadcastState) (i : Interface) :
    Prog.Keeps (Names n) (broadcastOn env p b i) := by
  have hshould : Prog.Keeps (Names n) (shouldTransmit env p i) :=
    .bind Names.trans (.ofExcept Names.refl _) fun _ => .bind Names.trans (announceRules p i) fun _ =>
      .pure Names.refl _
  unfold Transport.broadcastOn
  split
  case isFalse => exact .pure Names.refl _
  case isTrue =>
    apply Prog.Keeps.bind Names.trans hshould
    intro should
    split
    · exact .bind Names.trans (.when Names.refl fun _ => .modify fun _ => .of_same rfl) fun _ =>
        .bind Names.trans (transmit i hraw) fun _ => .pure Names.refl _
    · exact .pure Names.refl _

/-- An announce is broadcast as it was packed, whatever path is known. -/
theorem transmitPacket (htype : p.packet.packetType = .announce) (hraw : NamedBy n p.packet.raw) :
    Prog.Keeps (Names n) (transmitPacket env p) := by
  apply Prog.Keeps.bind Names.trans (.get Names.refl)
  intro s
  have hnone : outboundPath s p = none := by
    unfold outboundPath
    rw [if_neg fun h => h.1 htype]
  rw [hnone]
  apply Prog.Keeps.bind Names.trans (.get Names.refl)
  intro s
  exact .bind Names.trans (.fold Names.refl Names.trans _ (fun i _ b => broadcastOn hraw b i) _) fun _ =>
    .pure Names.refl _

theorem addReceipt (p : OutgoingPacket) (sent : Bool) : Prog.Keeps (Names n) (addReceipt env p sent) := by
  unfold Transport.addReceipt
  split
  · exact .bind Names.trans (.get Names.refl) fun s => .bind Names.trans (.ofExcept Names.refl _) fun _ =>
      .bind Names.trans (.modify fun _ => .of_same rfl) fun _ => .pure Names.refl _
  · exact .pure Names.refl _

/-- An announce that names this node goes out without another header, so what is transmitted names the node. -/
theorem outbound (htype : p.packet.packetType = .announce) (hraw : NamedBy n p.packet.raw) :
    Prog.Keeps (Names n) (outbound env p) := by
  have hwait : Prog.Keeps (Names n) waitForJobs := by
    apply Prog.Keeps.bind Names.trans (.get Names.refl)
    intro s
    split
    · exact .wait Names.refl
    · exact .pure Names.refl _
  have hsent : Prog.Keeps (Names n) (outboundLocked env p) :=
    .bind Names.trans (transmitPacket htype hraw) fun sent => .bind Names.trans (addReceipt p sent) fun _ =>
      .pure Names.refl _
  unfold Transport.outbound
  split
  · exact .pure Names.refl _
  · exact .bind Names.trans hwait fun _ => .bind Names.trans (.modify fun _ => .of_same rfl) fun _ =>
      .bind Names.trans hsent fun _ => .bind Names.trans (.modify fun _ => .of_same rfl) fun _ => .pure Names.refl _

/-- A packet under the name of the node is packed with that name. -/
theorem send {p : NewPacket} (h : NewPacket.Named n p) : Prog.Keeps (Names n) (send env p) := by
  obtain ⟨packet, context, hops, i, hcontext, rfl⟩ := h
  obtain ⟨q, hpack, htype, hraw⟩ : ∃ q, pack env.encrypt (rebroadcastSpec n packet context hops) = .ok q
      ∧ q.packetType = .announce ∧ NamedBy n q.raw := by
    have hid : (rebroadcastSpec n packet context hops).transportId.isSome
        ↔ (rebroadcastSpec n packet context hops).headerType = .header2 := by
      simp [rebroadcastSpec]
    have hmtu : headerMaxsize + (rebroadcastSpec n packet context hops).data.length
        ≤ (rebroadcastSpec n packet context hops).mtu := by
      show headerMaxsize + (packet.data.left reticulumMdu).length ≤ reticulumMtu
      have hcut : (packet.data.left reticulumMdu).length ≤ reticulumMdu := by simp
      have hroom : headerMaxsize + reticulumMdu ≤ reticulumMtu := by decide
      omega
    obtain ⟨q, hpack, htype, hunpack, -⟩ := unpack_pack_announce env.encrypt rfl hcontext (.inr rfl) hid hmtu
    refine ⟨q, hpack, htype, fun q' hq' _ => ?_⟩
    cases hunpack.symm.trans hq'
    rfl
  apply Prog.Keeps.bind Names.trans (.ofExcept Names.refl _)
  intro _ s
  dsimp only
  rw [hpack]
  exact @outbound env n { packet := q, destination := some .single, attachedInterface := i } htype hraw s

end Names

/-! ## What a node does to its paths and to the wire -/

/-- The paths are as they were, and announces go out under the name of the node. -/
structure PassesOn (n : Address) (s t : TransportState) : Prop where
  paths : SamePaths s t
  names : Names n s t

theorem passesOn_of_same (hpaths : t.pathTable = s.pathTable := by rfl)
    (hdestinations : t.destinations = s.destinations := by rfl) (hinterfaces : t.interfaces = s.interfaces := by rfl)
    (hstates : t.pathStates = s.pathStates := by rfl) (hwire : t.wire = s.wire := by rfl) : PassesOn n s t :=
  ⟨.of_same hpaths hdestinations hinterfaces hstates, .of_same hwire⟩

theorem relaying_names : Relaying env n (Names n) where
  refl := Names.refl
  trans := Names.trans
  known _ _ := .of_same rfl
  waiting _ _ := .of_same rfl
  held _ _ := .of_same rfl
  rates _ _ := .of_same rfl
  pending _ _ := .of_same rfl
  requests _ _ := .of_same rfl
  mark _ _ := .of_same (by unfold markPath; split <;> rfl)
  send _ := Names.send

/-- That announces are passed on from stored ones is one of the relations that relaying keeps. -/
theorem relaying_passesOn : Relaying env n (PassesOn n) where
  refl s := ⟨.refl s, .refl s⟩
  trans s t u h h' := ⟨.trans s t u h.paths h'.paths, .trans s t u h.names h'.names⟩
  known _ _ := passesOn_of_same
  waiting _ _ := passesOn_of_same
  held _ _ := passesOn_of_same
  rates _ _ := passesOn_of_same
  pending _ _ := passesOn_of_same
  requests _ _ := passesOn_of_same
  mark d s := ⟨markPath_samePaths d s, .of_same (by unfold markPath; split <;> rfl)⟩
  send p hp s := ⟨(send_sameTables p s).samePaths, Names.send hp s⟩

end MicroReticulum.Announce
