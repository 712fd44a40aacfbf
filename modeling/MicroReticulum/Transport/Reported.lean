import MicroReticulum.Transport.Lock

/-!
# What sending reports

`outbound` answers whether a packet was sent, marks it as sent, and makes its receipt. Whether it was sent is decided
by the drivers of the interfaces it is handed to, and `outcomes` are their answers in the order of the loop. The loop
keeps the last of them only.

So a packet that one interface took and a later one refused is reported as not sent, and gets no receipt:
`outbound_exact_iff` says that the report is exact when the last answer is a yes wherever any is. Along a known path
there is at most one answer. There a packet for a link it does not carry is the other exception, since its receipt
cannot be made after it went out.

That a driver which answers yes has transmitted is not proved; its answer is all the source
has.
-/

namespace MicroReticulum.Transport

open MicroReticulum Packet Link Library

variable {env : Environment} {s : TransportState} {p : OutgoingPacket}

/-! ## The answers of the drivers -/

section Answers

variable (env : Environment) (raw : Bytes)

/-- What the interfaces were handed, after one more of them. -/
def handOver (wire : List (Interface × Bytes)) (i : Interface) : List (Interface × Bytes) :=
  if i.ifacIdentity = false then (i, raw) :: wire else wire

/-- What the driver answers, behind what the interfaces were handed before. -/
def takes (wire : List (Interface × Bytes)) (i : Interface) : Bool :=
  !i.ifacIdentity && env.sendOutgoing wire i raw

/-- The answers of the drivers to a packet that their interfaces are handed one after the other. -/
def answers : List (Interface × Bytes) → List Interface → List Bool
  | _, [] => []
  | wire, i :: rest => takes env raw wire i :: answers (handOver raw wire i) rest

/-- Some interface accepted what it was handed between these two states of the wire. -/
def AcceptedSince (before after : List (Interface × Bytes)) : Prop :=
  ∃ earlier i raw, (i, raw) :: earlier <:+ after ∧ before <:+ earlier
    ∧ env.sendOutgoing earlier i raw = true

end Answers

theorem suffix_handOver (raw : Bytes) (wire : List (Interface × Bytes)) (i : Interface) :
    wire <:+ handOver raw wire i := by
  unfold handOver
  split
  · exact List.suffix_cons _ _
  · exact List.suffix_rfl

theorem not_acceptedSince_self (wire : List (Interface × Bytes)) : ¬ AcceptedSince env wire wire := by
  rintro ⟨earlier, i, raw, hafter, hbefore, -⟩
  have hlong := hafter.length_le
  have hshort := hbefore.length_le
  rw [List.length_cons] at hlong
  omega

variable (env) in
theorem acceptedSince_handOver {before wire : List (Interface × Bytes)} (h : before <:+ wire) (raw : Bytes)
    (i : Interface) :
    AcceptedSince env before (handOver raw wire i) ↔ AcceptedSince env before wire ∨ takes env raw wire i = true := by
  unfold handOver takes
  cases hcode : i.ifacIdentity
  case true => simp
  case false =>
    rw [if_pos rfl]
    constructor
    · rintro ⟨earlier, j, sent, hafter, hbefore, hyes⟩
      rcases List.suffix_cons_iff.mp hafter with heq | hbehind
      · cases heq
        exact .inr (by simpa using hyes)
      · exact .inl ⟨earlier, j, sent, hbehind, hbefore, hyes⟩
    · rintro (⟨earlier, j, sent, hafter, hbefore, hyes⟩ | hyes)
      · exact ⟨earlier, j, sent, hafter.trans (List.suffix_cons _ _), hbefore, hyes⟩
      · exact ⟨wire, i, raw, List.suffix_rfl, h, by simpa using hyes⟩

/-- Handing a packet to interfaces one after the other, some accepts it exactly if one of the answers is a yes. -/
theorem acceptedSince_foldl {before : List (Interface × Bytes)} (raw : Bytes) (interfaces : List Interface) :
    ∀ {wire : List (Interface × Bytes)}, before <:+ wire →
      (AcceptedSince env before (interfaces.foldl (handOver raw) wire)
        ↔ AcceptedSince env before wire ∨ true ∈ answers env raw wire interfaces) := by
  induction interfaces with
  | nil =>
    intro wire _
    simp [answers]
  | cons i rest ih =>
    intro wire h
    rw [List.foldl_cons, ih (h.trans (suffix_handOver raw wire i)), acceptedSince_handOver env h]
    simp only [answers, List.mem_cons]
    rw [or_assoc, eq_comm (a := takes env raw wire i)]

/-! ## Where a packet is allowed -/

/-- The announce rules of an interface's mode, without the room in its queue that a refused announce takes. -/
def mayAnnounce (env : Environment) (s : TransportState) (p : Packet) (i : Interface) : Bool :=
  match i.mode with
  | .accessPoint => false
  | .roaming => fromInterfaceAllows s p [.none, .roaming, .boundary]
  | .boundary => fromInterfaceAllows s p [.none, .roaming]
  | _ => p.hops = 0 ∨ (s.announceQueue i.id = [] ∧ s.announceAllowedAt i.id < env.now)

/-- A packet may be broadcast on an interface. -/
def allowedOn (env : Environment) (s : TransportState) (p : OutgoingPacket) (i : Interface) : Bool :=
  (linkAllows p i).toOption.getD false && attachedAllows p i
    && (!(p.packet.packetType = .announce ∧ p.attachedInterface.isNone) || mayAnnounce env s p.packet i)

/-- The interfaces a packet without a known path is transmitted on. -/
def broadcastInterfaces (env : Environment) (s : TransportState) (p : OutgoingPacket) : List Interface :=
  s.interfaces.filter fun i => i.out && allowedOn env s p i

/-- The answers of the drivers to a packet that is sent. -/
def outcomes (env : Environment) (s : TransportState) (p : OutgoingPacket) : List Bool :=
  match outboundPath s p with
  | some entry =>
    match knownPathRaw env p.packet entry with
    | none => []
    | some raw => [takes env raw s.wire entry.receivingInterface]
  | none => answers env p.packet.raw s.wire (broadcastInterfaces env s p)

/-- What the rules read has not changed, as far as the interfaces with these identities go. -/
structure SameRules (ids : List Nat) (s t : TransportState) : Prop where
  pathTable : t.pathTable = s.pathTable
  interfaces : t.interfaces = s.interfaces
  destinations : t.destinations = s.destinations
  announceQueue : ∀ id ∈ ids, t.announceQueue id = s.announceQueue id
  announceAllowedAt : ∀ id ∈ ids, t.announceAllowedAt id = s.announceAllowedAt id
  receipts : t.receipts = s.receipts

theorem SameRules.refl (ids : List Nat) (s : TransportState) : SameRules ids s s :=
  ⟨rfl, rfl, rfl, fun _ _ => rfl, fun _ _ => rfl, rfl⟩

theorem SameRules.trans {ids : List Nat} {s t u : TransportState} (h : SameRules ids s t) (h' : SameRules ids t u) :
    SameRules ids s u where
  pathTable := h'.pathTable.trans h.pathTable
  interfaces := h'.interfaces.trans h.interfaces
  destinations := h'.destinations.trans h.destinations
  announceQueue id hid := (h'.announceQueue id hid).trans (h.announceQueue id hid)
  announceAllowedAt id hid := (h'.announceAllowedAt id hid).trans (h.announceAllowedAt id hid)
  receipts := h'.receipts.trans h.receipts

theorem SameRules.of_cons {id : Nat} {ids : List Nat} {s t : TransportState} (h : SameRules (id :: ids) s t) :
    SameRules ids s t :=
  { h with
    announceQueue := fun j hj => h.announceQueue j (List.mem_cons_of_mem _ hj)
    announceAllowedAt := fun j hj => h.announceAllowedAt j (List.mem_cons_of_mem _ hj) }

/-- The next hop of a destination is looked up in the path table and among the interfaces. -/
theorem nextHopInterface_congr {t : TransportState} (hpaths : t.pathTable = s.pathTable)
    (hinterfaces : t.interfaces = s.interfaces) (destinationHash : Address) :
    nextHopInterface t destinationHash = nextHopInterface s destinationHash := by
  have hdecode : StoredPath.decode t = StoredPath.decode s := by
    funext q
    unfold StoredPath.decode findInterface
    rw [hinterfaces]
  unfold nextHopInterface getPath
  rw [hdecode, hpaths]

theorem SameRules.allowedOn {ids : List Nat} {t : TransportState} (h : SameRules ids s t) {i : Interface}
    (hi : i.id ∈ ids) : allowedOn env t p i = allowedOn env s p i := by
  have hfrom : ∀ blocked, fromInterfaceAllows t p.packet blocked = fromInterfaceAllows s p.packet blocked := by
    intro blocked
    unfold fromInterfaceAllows
    rw [h.destinations, nextHopInterface_congr h.pathTable h.interfaces]
  have hannounce : mayAnnounce env t p.packet i = mayAnnounce env s p.packet i := by
    unfold mayAnnounce
    rw [h.announceQueue i.id hi, h.announceAllowedAt i.id hi, hfrom, hfrom]
  unfold Transport.allowedOn
  rw [hannounce]

/-! ## The broadcast loop -/

/-- The announce cap writes to the queue and the waiting time of its own interface. -/
theorem announceCapAllows_run (q : Packet) (i : Interface) (t : TransportState) :
    ∃ u, announceCapAllows env q i t
        = (.value (decide (q.hops = 0 ∨ (t.announceQueue i.id = [] ∧ t.announceAllowedAt i.id < env.now))), u)
      ∧ u.wire = t.wire ∧ ∀ ids, i.id ∉ ids → SameRules ids t u := by
  have hother : ∀ ids : List Nat, i.id ∉ ids → ∀ id ∈ ids, id ≠ i.id := by
    rintro ids hi id hid rfl
    exact hi hid
  unfold announceCapAllows
  rw [Prog.get_bind_run]
  by_cases hhops : q.hops = 0
  · rw [if_pos hhops]
    refine ⟨t, ?_, rfl, fun ids _ => SameRules.refl ids t⟩
    rw [decide_eq_true (.inl hhops)]
    rfl
  rw [if_neg hhops]
  by_cases hfree : t.announceQueue i.id = [] ∧ t.announceAllowedAt i.id < env.now
  · rw [if_pos hfree, Prog.modify_bind_run]
    refine ⟨setAnnounceAllowedAt i.id (env.now + (announceWait env i q.raw).toNat) t, ?_, rfl, fun ids hi => ?_⟩
    · rw [decide_eq_true (.inr hfree)]
      rfl
    · exact ⟨rfl, rfl, rfl, fun _ _ => rfl, fun id hid => Function.update_of_ne (hother ids hi id hid) _ _, rfl⟩
  · rw [if_neg hfree, Prog.modify_bind_run]
    refine ⟨adjustAnnounceQueue i.id (queueAnnounce env.now q) t, ?_, rfl, fun ids hi => ?_⟩
    · rw [decide_eq_false (not_or.mpr ⟨hhops, hfree⟩)]
      rfl
    · exact ⟨rfl, rfl, rfl, fun id hid => Function.update_of_ne (hother ids hi id hid) _ _, fun _ _ => rfl, rfl⟩

variable (env) in
theorem announceAllows_run (q : Packet) (i : Interface) (t : TransportState) :
    ∃ u, announceAllows env q i t = (.value (mayAnnounce env t q i), u) ∧ u.wire = t.wire
      ∧ ∀ ids, i.id ∉ ids → SameRules ids t u := by
  unfold announceAllows mayAnnounce
  rw [Prog.get_bind_run]
  cases i.mode
  case accessPoint | roaming | boundary => exact ⟨t, rfl, rfl, fun ids _ => SameRules.refl ids t⟩
  all_goals exact announceCapAllows_run q i t

variable (env) in
theorem shouldTransmit_run (h : ¬ Unlinked p) (i : Interface) (t : TransportState) :
    ∃ u, shouldTransmit env p i t = (.value (allowedOn env t p i), u) ∧ u.wire = t.wire
      ∧ ∀ ids, i.id ∉ ids → SameRules ids t u := by
  obtain ⟨onLink, hlink⟩ := linkAllows_ok h i
  unfold shouldTransmit allowedOn announceRules
  rw [hlink]
  by_cases hannounce : p.packet.packetType = .announce ∧ p.attachedInterface.isNone = true
  · obtain ⟨u, hrun, hwire, hrules⟩ := announceAllows_run env p.packet i t
    refine ⟨u, ?_, hwire, hrules⟩
    rw [if_pos hannounce, Prog.bind_value (Prog.ofExcept_ok_run onLink t), Prog.bind_value hrun,
      decide_eq_true hannounce]
    rfl
  · refine ⟨t, ?_, rfl, fun ids _ => SameRules.refl ids t⟩
    rw [if_neg hannounce, Prog.bind_value (Prog.ofExcept_ok_run onLink t), decide_eq_false hannounce]
    rfl

theorem transmit_hands (i : Interface) (raw : Bytes) (t : TransportState) :
    transmit env i raw t = (.value (takes env raw t.wire i), { t with wire := handOver raw t.wire i }) := by
  unfold transmit handOver
  rw [Prog.get_bind_run]
  by_cases h : i.ifacIdentity = false
  · rw [Prog.when_of h, if_pos h]
    rfl
  · rw [Prog.when_of_not h, if_neg h]
    rfl

variable (env) in
/-- One round of the broadcast loop. -/
theorem broadcastOn_run (h : ¬ Unlinked p) (b : BroadcastState) (i : Interface) (t : TransportState) :
    ∃ b' u, broadcastOn env p b i t = (.value b', u)
      ∧ (if i.out && allowedOn env t p i then
          b'.sent = takes env p.packet.raw t.wire i ∧ u.wire = handOver p.packet.raw t.wire i
        else b'.sent = b.sent ∧ u.wire = t.wire)
      ∧ ∀ ids, i.id ∉ ids → SameRules ids t u := by
  unfold broadcastOn
  cases hout : i.out
  case false => exact ⟨b, t, rfl, ⟨rfl, rfl⟩, fun ids _ => SameRules.refl ids t⟩
  obtain ⟨u, hrun, hwire, hrules⟩ := shouldTransmit_run env h i t
  rw [if_pos rfl, Bool.true_and, Prog.bind_value hrun]
  cases hallowed : allowedOn env t p i
  case false => exact ⟨b, u, rfl, ⟨rfl, hwire⟩, hrules⟩
  rw [if_pos rfl]
  obtain ⟨u', hstore, hwire', hrules'⟩ : ∃ u', (Prog.when (b.storedHash = false)
        (Prog.modify (addPacketHash (p.packet.getHash env.fullHash))) : Prog String TransportState Unit) u
          = (.value (), u') ∧ u'.wire = u.wire ∧ ∀ ids, SameRules ids u u' := by
    rcases Prog.when_run_cases (b.storedHash = false)
      (Prog.modify (addPacketHash (p.packet.getHash env.fullHash)) : Prog String TransportState Unit) u
      with ⟨-, hrun⟩ | ⟨-, hrun⟩
    · exact ⟨_, hrun, rfl, fun _ => ⟨rfl, rfl, rfl, fun _ _ => rfl, fun _ _ => rfl, rfl⟩⟩
    · exact ⟨_, hrun, rfl, fun ids => SameRules.refl ids u⟩
  rw [Prog.bind_value hstore, Prog.bind_value (transmit_hands i p.packet.raw u'), hwire', hwire]
  refine ⟨_, _, rfl, ?_, fun ids hi => ((hrules ids hi).trans (hrules' ids)).trans
    ⟨rfl, rfl, rfl, fun _ _ => rfl, fun _ _ => rfl, rfl⟩⟩
  rw [if_pos rfl]
  exact ⟨rfl, rfl⟩

variable (env) in
/-- The broadcast loop hands the packet to the interfaces where it is allowed, and keeps the last answer. -/
theorem fold_broadcastOn_run (h : ¬ Unlinked p) (s : TransportState) (interfaces : List Interface) :
    ∀ (b : BroadcastState) (t : TransportState), (interfaces.map Interface.id).Nodup →
      SameRules (interfaces.map Interface.id) s t →
      ∃ b' u, Prog.fold interfaces b (broadcastOn env p) t = (.value b', u)
        ∧ b'.sent = (answers env p.packet.raw t.wire
            (interfaces.filter fun i => i.out && allowedOn env s p i)).getLast?.getD b.sent
        ∧ u.wire = (interfaces.filter fun i => i.out && allowedOn env s p i).foldl (handOver p.packet.raw) t.wire
        ∧ u.receipts = s.receipts := by
  induction interfaces with
  | nil =>
    intro b t _ hsame
    exact ⟨b, t, rfl, rfl, rfl, hsame.receipts⟩
  | cons i rest ih =>
    intro b t hids hsame
    obtain ⟨hi, hrest⟩ := List.nodup_cons.mp hids
    obtain ⟨b₁, t₁, hrun, hround, hrules⟩ := broadcastOn_run env h b i t
    obtain ⟨b', u, hrun', hsent, hwire, hreceipts⟩ := ih b₁ t₁ hrest (hsame.of_cons.trans (hrules _ hi))
    refine ⟨b', u, ?_, ?_, ?_, hreceipts⟩
    · show (broadcastOn env p b i >>= fun b => Prog.fold rest b (broadcastOn env p)) t = _
      rw [Prog.bind_value hrun, hrun']
    all_goals
      rw [hsame.allowedOn List.mem_cons_self] at hround
      rw [List.filter_cons]
      split at hround
      case isTrue hallowed => simp only [hallowed, if_true, answers, List.getLast?_cons, List.foldl_cons,
        Option.getD_some, hsent, hwire, hround.1, hround.2]
      case isFalse hallowed => simp only [hallowed, if_false, hsent, hwire, hround.1, hround.2, Bool.false_eq_true]

/-! ## The report -/

/-- Every yes counts: when some driver accepts, so does the last one. -/
def LastCounts (as : List Bool) : Prop := true ∈ as → as.getLast? = some true

/-- A packet without its link is broadcast nowhere. -/
theorem answers_unlinked (h : Unlinked p) (interfaces : List Interface) :
    (interfaces.filter fun i => i.out && allowedOn env s p i) = [] := by
  refine List.filter_eq_nil_iff.mpr fun i _ => ?_
  unfold allowedOn
  rw [linkAllows_error h]
  simp [Except.toOption]

variable (env) in
/-- What `outbound` transmits, before the receipt: the last answer of the drivers, or an exception on the way to the
first interface.
-/
theorem transmitPacket_run (hids : (s.interfaces.map Interface.id).Nodup) :
    (∃ t, transmitPacket env p s = (.value ((outcomes env s p).getLast?.getD false), t)
        ∧ (AcceptedSince env s.wire t.wire ↔ true ∈ outcomes env s p) ∧ t.receipts = s.receipts)
      ∨ (∃ e, transmitPacket env p s = (.thrown e, s)) ∧ outcomes env s p = [] := by
  unfold transmitPacket outcomes
  rw [Prog.get_bind_run]
  cases hpath : outboundPath s p with
  | some entry =>
    refine .inl ?_
    dsimp only
    unfold outboundKnown
    cases hraw : knownPathRaw env p.packet entry with
    | none => exact ⟨s, rfl, by simpa using not_acceptedSince_self s.wire, rfl⟩
    | some raw =>
      dsimp only
      rw [Prog.bind_value (transmit_hands entry.receivingInterface raw s)]
      have haccepted := acceptedSince_handOver env (List.suffix_refl s.wire) raw entry.receivingInterface
      rw [or_iff_right (not_acceptedSince_self s.wire)] at haccepted
      rcases Prog.when_run_cases (takes env raw s.wire entry.receivingInterface = true)
        (Prog.modify (recordNeighborPacket env.now entry.receivedFrom) : Prog String TransportState Unit)
        { s with wire := handOver raw s.wire entry.receivingInterface } with ⟨-, hrun⟩ | ⟨-, hrun⟩
      all_goals
        rw [Prog.bind_value hrun]
        refine ⟨_, rfl, ?_, rfl⟩
        rw [List.mem_singleton, eq_comm (a := true)]
        exact haccepted
  | none =>
    dsimp only
    unfold outboundBroadcast
    rw [Prog.get_bind_run]
    by_cases hunlinked : Unlinked p
    · have hnone : broadcastInterfaces env s p = [] := answers_unlinked hunlinked s.interfaces
      rw [hnone]
      by_cases hout : ∃ i ∈ s.interfaces, i.out = true
      · obtain ⟨e, hthrown⟩ := (fold_broadcastOn_unlinked env hunlinked s.interfaces {} s).1 hout
        exact .inr ⟨⟨e, Prog.bind_thrown hthrown⟩, rfl⟩
      · refine .inl ⟨s, ?_, by simpa [answers] using not_acceptedSince_self s.wire, rfl⟩
        rw [Prog.bind_value ((fold_broadcastOn_unlinked env hunlinked s.interfaces {} s).2 hout)]
        rfl
    · obtain ⟨b, u, hrun, hsent, hwire, hreceipts⟩ :=
        fold_broadcastOn_run env hunlinked s s.interfaces {} s hids (SameRules.refl _ s)
      refine .inl ⟨u, ?_, ?_, hreceipts⟩
      · rw [Prog.bind_value hrun, Prog.pure_run, hsent]
        rfl
      · rw [hwire, acceptedSince_foldl p.packet.raw _ (List.suffix_refl s.wire),
          or_iff_right (not_acceptedSince_self s.wire)]
        rfl

theorem addReceipt_kept (sent : Bool) (h : ¬ (sent = true ∧ wantsReceipt p = true)) (t : TransportState) :
    addReceipt env p sent t = (.value none, t) := by
  unfold addReceipt
  rw [if_neg h]
  rfl

variable (env) in
theorem addReceipt_made (h : ¬ Unlinked p) (hwants : wantsReceipt p = true) (t : TransportState) :
    ∃ receipt, addReceipt env p true t
      = (.value (some receipt), { t with receipts := t.receipts ++ [receipt] }) := by
  obtain ⟨receipt, hnew⟩ : ∃ receipt, newReceipt env t p = .ok receipt := newReceipt_ok h t
  unfold addReceipt
  rw [if_pos ⟨rfl, hwants⟩, Prog.get_bind_run, hnew]
  exact ⟨receipt, rfl⟩

/-- A run of `outbound` reports what happened: it returns that the packet was sent, and makes its receipt, exactly
when some interface accepted it.
-/
structure ReportsExactly (env : Environment) (p : OutgoingPacket) (s : TransportState)
    (run : Outcome String SendResult × TransportState) : Prop where
  sent : (∃ result, run.1 = .value result ∧ result.sent = true) ↔ AcceptedSince env s.wire run.2.wire
  receipt : (∃ result receipt, run.1 = .value result ∧ result.receipt = some receipt
      ∧ run.2.receipts = s.receipts ++ [receipt]) ↔ wantsReceipt p = true ∧ AcceptedSince env s.wire run.2.wire
  kept : ¬ (wantsReceipt p = true ∧ AcceptedSince env s.wire run.2.wire) → run.2.receipts = s.receipts

/-- Nothing happened, and nothing is reported. -/
theorem reportsExactly_of_nothing {run : Outcome String SendResult × TransportState} (hwire : run.2.wire = s.wire)
    (hreceipts : run.2.receipts = s.receipts)
    (h : ∀ result, run.1 = .value result → result.sent = false ∧ result.receipt = none) :
    ReportsExactly env p s run := by
  have hnone : ¬ AcceptedSince env s.wire run.2.wire := by
    rw [hwire]
    exact not_acceptedSince_self s.wire
  refine ⟨iff_of_false ?_ hnone, iff_of_false ?_ fun hboth => hnone hboth.2, fun _ => hreceipts⟩
  · rintro ⟨result, hrun, hsent⟩
    rw [(h result hrun).1] at hsent
    cases hsent
  · rintro ⟨result, receipt, hrun, hmade, -⟩
    rw [(h result hrun).2] at hmade
    cases hmade

variable (env) in
/-- The report between taking and releasing the jobs lock. -/
theorem outboundLocked_exact_iff (hids : (s.interfaces.map Interface.id).Nodup) :
    ReportsExactly env p s (outboundLocked env p s)
      ↔ LastCounts (outcomes env s p) ∧ (true ∈ outcomes env s p → wantsReceipt p = true → ¬ Unlinked p) := by
  unfold outboundLocked
  rcases transmitPacket_run env (p := p) hids with ⟨t, hrun, hwire, hreceipts⟩ | ⟨⟨e, hrun⟩, hnone⟩
  case inr =>
    rw [Prog.bind_thrown hrun, hnone]
    refine iff_of_true (reportsExactly_of_nothing rfl rfl ?_) ?_
    · rintro result ⟨⟩
    · simp [LastCounts]
  rw [Prog.bind_value hrun]
  by_cases haccepted : true ∈ outcomes env s p
  case neg =>
    -- no driver said yes, so the last one did not either
    have hlast : (outcomes env s p).getLast?.getD false = false := by
      cases hg : (outcomes env s p).getLast? with
      | none => rfl
      | some b =>
        cases b
        · rfl
        · exact absurd (List.mem_of_getLast? hg) haccepted
    have hnot : ¬ AcceptedSince env s.wire t.wire := fun h => haccepted (hwire.mp h)
    rw [hlast, Prog.bind_value (addReceipt_kept false (by simp) t)]
    refine iff_of_true ⟨iff_of_false ?_ hnot, iff_of_false ?_ fun h => hnot h.2, fun _ => hreceipts⟩
      ⟨fun h => absurd h haccepted, fun h => absurd h haccepted⟩
    · rintro ⟨result, hresult, hsent⟩
      cases hresult
      cases hsent
    · rintro ⟨result, receipt, hresult, hmade, -⟩
      cases hresult
      cases hmade
  have hyes : AcceptedSince env s.wire t.wire := hwire.mpr haccepted
  by_cases hlast : (outcomes env s p).getLast? = some true
  case neg =>
    -- the last answer was a no, and is taken for all of them
    have hno : (outcomes env s p).getLast?.getD false = false := by
      cases hg : (outcomes env s p).getLast? with
      | none => rfl
      | some b =>
        cases b
        · rfl
        · exact absurd hg hlast
    rw [hno, Prog.bind_value (addReceipt_kept false (by simp) t)]
    refine iff_of_false (fun h => ?_) fun h => hlast (h.1 haccepted)
    obtain ⟨result, hresult, hsent⟩ := h.sent.mpr hyes
    cases hresult
    cases hsent
  rw [hlast]
  by_cases hwants : wantsReceipt p = true
  case neg =>
    rw [Prog.bind_value (addReceipt_kept _ (fun h => hwants h.2) t)]
    refine iff_of_true ⟨iff_of_true ⟨_, rfl, rfl⟩ hyes, iff_of_false ?_ fun h => hwants h.1, fun _ => hreceipts⟩
      ⟨fun _ => hlast, fun _ h => absurd h hwants⟩
    rintro ⟨result, receipt, hresult, hmade, -⟩
    cases hresult
    cases hmade
  by_cases hlink : Unlinked p
  case pos =>
    -- it went out, and its receipt cannot be made
    obtain ⟨e, hthrown⟩ := (addReceipt_unlinked env hlink true t).1 ⟨rfl, hwants⟩
    rw [Option.getD_some, Prog.bind_thrown hthrown]
    refine iff_of_false (fun h => ?_) fun h => h.2 haccepted hwants hlink
    obtain ⟨result, hresult, -⟩ := h.sent.mpr hyes
    cases hresult
  case neg =>
    obtain ⟨receipt, hmade⟩ := addReceipt_made env hlink hwants t
    rw [Option.getD_some, Prog.bind_value hmade]
    refine iff_of_true ⟨iff_of_true ⟨_, rfl, rfl⟩ hyes, iff_of_true ⟨_, receipt, rfl, rfl, ?_⟩ ⟨hwants, hyes⟩,
      fun h => absurd ⟨hwants, hyes⟩ h⟩ ⟨fun _ => hlast, fun _ _ => hlink⟩
    show t.receipts ++ [receipt] = s.receipts ++ [receipt]
    rw [hreceipts]

/-- `outbound` reports what happened exactly if every yes of a driver is backed by the last answer, and a packet that
went out and gets a receipt has the link it is for.
-/
theorem outbound_exact_iff (env : Environment) (s : TransportState) (p : OutgoingPacket)
    (hids : (s.interfaces.map Interface.id).Nodup) :
    ReportsExactly env p s (outbound env p s)
      ↔ (p.destination ≠ none → s.jobsRunning = false →
        LastCounts (outcomes env s p) ∧ (true ∈ outcomes env s p → wantsReceipt p = true → ¬ Unlinked p)) := by
  unfold outbound
  cases hdestination : p.destination with
  | none =>
    refine iff_of_true (reportsExactly_of_nothing rfl rfl ?_) fun h => absurd rfl h
    rintro result ⟨⟩
    exact ⟨rfl, rfl⟩
  | some type =>
    dsimp only
    cases hjobs : s.jobsRunning with
    | true =>
      rw [Prog.bind_run, waitForJobs_waits hjobs]
      refine iff_of_true (reportsExactly_of_nothing rfl rfl ?_) fun _ h => by cases h
      rintro result ⟨⟩
    | false =>
      rw [Prog.bind_value (waitForJobs_run hjobs), Prog.modify_bind_run]
      have hlocked := outboundLocked_exact_iff env (p := p) (s := setJobsLocked true s) hids
      have hsame : outcomes env (setJobsLocked true s) p = outcomes env s p := rfl
      rw [hsame] at hlocked
      simp only [ne_eq, reduceCtorEq, not_false_eq_true, forall_const, ← hlocked]
      rw [Prog.bind_run]
      rcases outboundLocked env p (setJobsLocked true s) with ⟨result | _ | e | _, t⟩
      -- the lock is no part of the report
      all_goals exact ⟨fun h => ⟨h.sent, h.receipt, h.kept⟩, fun h => ⟨h.sent, h.receipt, h.kept⟩⟩

namespace Sample

/-- A broadcast packet of no destination in particular. -/
def plainPacket : OutgoingPacket where
  packet :=
    { raw := [], flags := 0, hops := 0, headerType := .header1, contextFlag := .unset, transportType := .broadcast
      destinationType := .plain, packetType := .data, transportId := none
      destinationHash := List.Vector.replicate 16 0, context := ContextType.none, data := [] }
  destination := some .plain

/-- Two interfaces, of which only the first one accepts anything. -/
def firstAccepts : Environment := { Environment.idle with sendOutgoing := fun _ i _ => i.id = 0 }

def twoInterfaces : TransportState := { interfaces := [{ id := 0 }, { id := 1 }] }

/-- Three interfaces, of which the one in the middle accepts nothing. -/
def outerAccept : Environment := { Environment.idle with sendOutgoing := fun _ i _ => i.id ≠ 1 }

def threeInterfaces : TransportState := { interfaces := [{ id := 0 }, { id := 1 }, { id := 2 }] }

end Sample

/-- The second interface refuses what the first one has sent, and the packet counts as not sent. -/
theorem refusal_hides_transmission : ¬ ∀ (env : Environment) (s : TransportState) (p : OutgoingPacket),
    (s.interfaces.map Interface.id).Nodup → ReportsExactly env p s (outbound env p s) := by
  intro h
  have hexact := h Sample.firstAccepts Sample.twoInterfaces Sample.plainPacket (by decide)
  obtain ⟨result, hrun, hsent⟩ := hexact.sent.mpr ⟨[], { id := 0 }, [], by decide +kernel, List.nil_suffix, rfl⟩
  have hresult : (outbound Sample.firstAccepts Sample.plainPacket Sample.twoInterfaces).1
      = .value { sent := false, receipt := none } := rfl
  rw [hresult] at hrun
  cases hrun
  cases hsent

/-- Three interfaces, of which the one in the middle refuses: the last one has a yes, and the report is exact. -/
theorem outbound_exact_threefold :
    ReportsExactly Sample.outerAccept Sample.plainPacket Sample.threeInterfaces
      (outbound Sample.outerAccept Sample.plainPacket Sample.threeInterfaces) := by
  refine (outbound_exact_iff Sample.outerAccept Sample.threeInterfaces Sample.plainPacket (by decide)).mpr ?_
  intro _ _
  have houtcomes : outcomes Sample.outerAccept Sample.threeInterfaces Sample.plainPacket = [true, false, true] := by
    decide +kernel
  rw [houtcomes]
  exact ⟨fun _ => rfl, fun _ _ hunlinked => by cases hunlinked.1⟩

end MicroReticulum.Transport
