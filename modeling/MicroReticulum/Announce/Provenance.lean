import MicroReticulum.Announce.Validate
import MicroReticulum.Transport.Inbound
import MicroReticulum.Transport.Retransmit

/-!
# Where a relayed announce comes from

An `Arrival` is an announce as it came in from the wire, with the node's view of who sent it. `Sourced`
says of a state that every announce it keeps (in the announce table, held, or in the path store) and
every announce it has handed out under a transport header goes back to an arrival that was accepted.
Each program of the announce path keeps this, one lemma for each; `handleAnnounce` does once the arrival
it works on is counted among the accepted ones.

Programs of the application are assumed to keep it too: they put no announces into the tables and hand
out none with a transport header.

Nothing is said of the truth of an announce, only of where it came from.
-/

namespace MicroReticulum.Announce

open MicroReticulum Packet Link Library Transport

/-! ## Arrivals -/

/-- An announce as it came in. -/
structure Arrival where
  raw : Bytes
  packet : Packet
  unpacks : unpack raw = some packet
  isAnnounce : packet.packetType = .announce
  /-- it did not come from a local client or a shared instance -/
  fromPeer : Bool

/-- The hop count of an arrival, as the node counts it. -/
def Arrival.hops (a : Arrival) : UInt8 := if a.fromPeer then a.packet.hops + 1 else a.packet.hops

/-- The packet `inbound` goes on with. -/
def Arrival.arrived (a : Arrival) : Packet := { a.packet with hops := a.hops }

/-- An interface that leads to other nodes. -/
def leadsToPeers (s : TransportState) (i : Interface) : Bool :=
  if s.localClientInterfaces ≠ [] then !isLocalClientInterface i else !interfaceToSharedInstance i

/-- `inbound` counts a hop for what comes from other nodes, and none for anything else. -/
theorem arrivalHops_eq (s : TransportState) (i : Interface) (hops : UInt8) :
    arrivalHops s i hops = if leadsToPeers s i then hops + 1 else hops := by
  have hback : hops + 1 - 1 = hops := by simp
  unfold arrivalHops leadsToPeers
  cases isLocalClientInterface i <;> cases interfaceToSharedInstance i <;>
    split <;> simp [hback]

/-! ## Tables whose entries all have a property -/

/-- All entries of a table satisfy `P`. -/
def TableAll {V : Type} (P : Address → V → Prop) (t : Table V) : Prop :=
  ∀ k v, t.lookup k = some v → P k v

namespace TableAll

variable {V : Type} {P : Address → V → Prop} {t : Table V}

theorem empty : TableAll P (∅ : Table V) := by
  intro k v h
  simp at h

theorem insert (h : TableAll P t) {k : Address} {v : V} (hv : P k v) : TableAll P (t.insert k v) := by
  intro k' v' hlookup
  by_cases hk : k' = k
  · subst hk
    rw [AList.lookup_insert] at hlookup
    cases hlookup
    exact hv
  · rw [AList.lookup_insert_ne hk] at hlookup
    exact h k' v' hlookup

theorem erase (h : TableAll P t) (k : Address) : TableAll P (t.erase k) := by
  intro k' v' hlookup
  by_cases hk : k' = k
  · subst hk
    rw [AList.lookup_erase] at hlookup
    cases hlookup
  · rw [AList.lookup_erase_ne hk] at hlookup
    exact h k' v' hlookup

theorem emplace (h : TableAll P t) {k : Address} {v : V} (hv : P k v) :
    TableAll P (t.emplace k v) := by
  unfold Table.emplace
  split
  · exact h
  · exact h.insert hv

theorem adjust (h : TableAll P t) (k : Address) {f : V → V} (hf : ∀ v, P k v → P k (f v)) :
    TableAll P (t.adjust k f) := by
  unfold Table.adjust
  cases hlookup : t.lookup k with
  | none => exact h
  | some v => exact h.insert (hf v (h k v hlookup))

theorem eraseAll (h : TableAll P t) (ks : List Address) : TableAll P (t.eraseAll ks) := by
  unfold Table.eraseAll
  induction ks generalizing t with
  | nil => exact h
  | cons k ks ih => exact ih (h.erase k)

end TableAll

/-- Whatever holds of all entries of a table holds of those the cull leaves. -/
theorem cullOldest_all {P : Address → AnnounceEntry → Prop} {limit : Nat} (ks : List Address)
    {t : Table AnnounceEntry} (h : TableAll P t) : TableAll P (cullOldest limit ks t) := by
  induction ks generalizing t with
  | nil => exact h
  | cons k ks ih =>
    unfold cullOldest
    dsimp only
    split
    · exact h.erase k
    · exact ih (h.erase k)

/-! ## Sources -/

/-- A packet with what the next node reads of an announce. -/
structure RelayOf (a : Arrival) (q : Packet) : Prop where
  destinationHash : q.destinationHash = a.packet.destinationHash
  contextFlag : q.contextFlag = a.packet.contextFlag
  data : q.data = a.packet.data.left reticulumMdu
  hops : q.hops = a.hops ∨ q.hops = a.packet.hops + 1

/-- An announce with a transport header: what a node sends of the announces of others. -/
def Relayed (q : Packet) : Prop := q.packetType = .announce ∧ q.headerType = .header2

/-- The announce an entry of the announce table is about. -/
structure EntryOf (a : Arrival) (destinationHash : Address) (packet : Packet) (hops : UInt8) :
    Prop where
  key : destinationHash = a.packet.destinationHash
  destinationHash : packet.destinationHash = a.packet.destinationHash
  contextFlag : packet.contextFlag = a.packet.contextFlag
  data : packet.data = a.packet.data
  hops : hops = a.hops ∨ hops = a.packet.hops + 1

/-- Bytes that are no relayed announce, or that of an accepted arrival. -/
def WireSourced (accepted : List Arrival) (raw : Bytes) : Prop :=
  ∀ q, unpack raw = some q → Relayed q → ∃ a ∈ accepted, RelayOf a q

/-- Every announce that a state keeps or has handed out goes back to an accepted arrival. -/
structure Sourced (accepted : List Arrival) (s : TransportState) : Prop where
  announces : TableAll (fun d e => ∃ a ∈ accepted, EntryOf a d e.packet e.hops) s.announceTable
  held : TableAll (fun d e => ∃ a ∈ accepted, EntryOf a d e.packet e.hops) s.heldAnnounces
  paths : TableAll (fun d r => ∃ a ∈ accepted, d = a.packet.destinationHash ∧ r.announce = a.raw
    ∧ r.hops = a.hops) s.pathTable
  wire : ∀ x ∈ s.wire, WireSourced accepted x.2

variable {accepted : List Arrival} {env : Environment}

/-- A program that keeps a state sourced. -/
def KeepsSourced (accepted : List Arrival) {α : Type} (m : Prog String TransportState α) : Prop :=
  Prog.Keeps (fun s t => Sourced accepted s → Sourced accepted t) m

theorem sourced_refl (s : TransportState) : Sourced accepted s → Sourced accepted s := id

theorem sourced_trans (s t u : TransportState) (h : Sourced accepted s → Sourced accepted t)
    (h' : Sourced accepted t → Sourced accepted u) : Sourced accepted s → Sourced accepted u :=
  fun hs => h' (h hs)

theorem Sourced.mono {accepted' : List Arrival} {s : TransportState} (h : Sourced accepted s)
    (hsub : ∀ a ∈ accepted, a ∈ accepted') : Sourced accepted' s where
  announces k v hv := by
    obtain ⟨a, ha, hentry⟩ := h.announces k v hv
    exact ⟨a, hsub a ha, hentry⟩
  held k v hv := by
    obtain ⟨a, ha, hentry⟩ := h.held k v hv
    exact ⟨a, hsub a ha, hentry⟩
  paths k v hv := by
    obtain ⟨a, ha, hpath⟩ := h.paths k v hv
    exact ⟨a, hsub a ha, hpath⟩
  wire x hx q hq hrelayed := by
    obtain ⟨a, ha, hrelay⟩ := h.wire x hx q hq hrelayed
    exact ⟨a, hsub a ha, hrelay⟩

/-- A state with the same tables and the same sent bytes is sourced alike. -/
theorem Sourced.of_same {s t : TransportState} (h : Sourced accepted s)
    (hannounces : t.announceTable = s.announceTable) (hheld : t.heldAnnounces = s.heldAnnounces)
    (hpaths : t.pathTable = s.pathTable) (hwire : t.wire = s.wire) : Sourced accepted t where
  announces := hannounces ▸ h.announces
  held := hheld ▸ h.held
  paths := hpaths ▸ h.paths
  wire := hwire ▸ h.wire

namespace KeepsSourced

variable {α β : Type}

theorem pure (a : α) : KeepsSourced accepted (Pure.pure a : Prog String TransportState α) :=
  Prog.Keeps.pure sourced_refl a

theorem get : KeepsSourced accepted (Prog.get : Prog String TransportState TransportState) :=
  Prog.Keeps.get sourced_refl

theorem wait : KeepsSourced accepted (Prog.wait : Prog String TransportState α) :=
  Prog.Keeps.wait sourced_refl

theorem ofExcept (r : Except String α) :
    KeepsSourced accepted (Prog.ofExcept r : Prog String TransportState α) :=
  Prog.Keeps.ofExcept sourced_refl r

theorem require (c : Prop) [Decidable c] (e : String) :
    KeepsSourced accepted (Prog.require c e : Prog String TransportState Unit) :=
  Prog.Keeps.require sourced_refl c e

theorem bind {m : Prog String TransportState α} {f : α → Prog String TransportState β}
    (hm : KeepsSourced accepted m) (hf : ∀ a, KeepsSourced accepted (f a)) :
    KeepsSourced accepted (m >>= f) :=
  Prog.Keeps.bind sourced_trans hm hf

theorem when {c : Prop} [Decidable c] {m : Prog String TransportState Unit}
    (hm : KeepsSourced accepted m) : KeepsSourced accepted (Prog.when c m) :=
  Prog.Keeps.when sourced_refl fun _ => hm

theorem catching {m : Prog String TransportState α} {h : String → Prog String TransportState α}
    (hm : KeepsSourced accepted m) (hh : ∀ e, KeepsSourced accepted (h e)) :
    KeepsSourced accepted (Prog.catching m h) :=
  Prog.Keeps.catching sourced_trans hm hh

theorem fold {f : α → β → Prog String TransportState α} (bs : List β)
    (hf : ∀ b ∈ bs, ∀ a, KeepsSourced accepted (f a b)) (a : α) :
    KeepsSourced accepted (Prog.fold bs a f) :=
  Prog.Keeps.fold sourced_refl sourced_trans bs hf a

theorem forEach {f : β → Prog String TransportState Unit} (bs : List β)
    (hf : ∀ b ∈ bs, KeepsSourced accepted (f b)) : KeepsSourced accepted (Prog.forEach bs f) :=
  Prog.Keeps.forEach sourced_refl sourced_trans bs hf

theorem modify {f : TransportState → TransportState}
    (h : ∀ s, Sourced accepted s → Sourced accepted (f s)) :
    KeepsSourced accepted (Prog.modify f) :=
  Prog.Keeps.modify h

/-- A change of what is neither kept nor sent of an announce. -/
theorem modify_other {f : TransportState → TransportState}
    (hannounces : ∀ s, (f s).announceTable = s.announceTable := by intro s; rfl)
    (hheld : ∀ s, (f s).heldAnnounces = s.heldAnnounces := by intro s; rfl)
    (hpaths : ∀ s, (f s).pathTable = s.pathTable := by intro s; rfl)
    (hwire : ∀ s, (f s).wire = s.wire := by intro s; rfl) :
    KeepsSourced accepted (Prog.modify f) :=
  modify fun s h => h.of_same (hannounces s) (hheld s) (hpaths s) (hwire s)

/-- A handler of the user keeps the sources if it is promised to, also where it throws. -/
theorem callHandler {h : Handler TransportState α}
    (hh : ∀ s, Sourced accepted s → Sourced accepted (h s).2) :
    KeepsSourced accepted (Transport.callHandler h) := by
  intro s hs
  have hafter := hh s hs
  unfold Transport.callHandler
  rcases hrun : h s with ⟨_ | _, t⟩ <;> rw [hrun] at hafter <;> exact hafter

end KeepsSourced

/-! ## Sending -/

/-- A transmission puts on the air a packet that stems from an accepted announce, and touches no
table. -/
theorem transmit_sourced (i : Interface) {raw : Bytes} (hraw : WireSourced accepted raw) :
    KeepsSourced accepted (transmit env i raw) := by
  refine .bind .get fun s => .bind (.when (.modify fun s hs => ?_)) fun _ => .pure _
  refine { hs with wire := fun x hx => ?_ }
  rcases List.mem_cons.mp hx with rfl | hold
  · exact hraw
  · exact hs.wire x hold

/-- The announce rules ask the tables and change none of them. -/
theorem announceRules_sourced (p : OutgoingPacket) (i : Interface) :
    KeepsSourced accepted (announceRules env p i) := by
  unfold announceRules
  split
  case isFalse => exact .pure _
  case isTrue =>
    refine .bind .get fun s => ?_
    split
    · exact .pure _
    · exact .pure _
    · exact .pure _
    · refine .bind .get fun s => ?_
      split
      · exact .pure _
      · split
        · exact .bind .modify_other fun _ => .pure _
        · exact .bind .modify_other fun _ => .pure _

/-- Broadcasting on one more interface puts the same packet on the air once more. -/
theorem broadcastOn_sourced {p : OutgoingPacket} (hraw : WireSourced accepted p.packet.raw)
    (b : BroadcastState) (i : Interface) : KeepsSourced accepted (broadcastOn env p b i) := by
  unfold broadcastOn
  split
  case isFalse => exact .pure _
  case isTrue =>
    have hshould : KeepsSourced accepted (shouldTransmit env p i) :=
      .bind (.ofExcept _) fun _ => .bind (announceRules_sourced p i) fun _ => .pure _
    refine .bind hshould fun should => ?_
    split
    · exact .bind (.when .modify_other) fun _ =>
        .bind (transmit_sourced i hraw) fun _ => .pure _
    · exact .pure _

theorem addReceipt_sourced (p : OutgoingPacket) (sent : Bool) :
    KeepsSourced accepted (addReceipt env p sent) := by
  unfold addReceipt
  split
  · exact .bind .get fun s => .bind (.ofExcept _) fun _ => .bind .modify_other fun _ => .pure _
  · exact .pure _

/-- An announce is broadcast, whatever path is known. -/
theorem outbound_sourced {p : OutgoingPacket} (htype : p.packet.packetType = .announce)
    (hraw : WireSourced accepted p.packet.raw) : KeepsSourced accepted (outbound env p) := by
  have hpath : ∀ s, outboundPath s p = none := by
    intro s
    unfold outboundPath
    rw [if_neg (fun h => h.1 htype)]
  have htransmit : KeepsSourced accepted (transmitPacket env p) := by
    refine .bind .get fun s => ?_
    rw [hpath s]
    exact .bind .get fun s => .bind
      (.fold _ (fun i _ b => broadcastOn_sourced hraw b i) _) fun _ => .pure _
  have hwait : KeepsSourced accepted waitForJobs := by
    refine .bind .get fun s => ?_
    split
    · exact .wait
    · exact .pure _
  unfold Transport.outbound
  split
  · exact .pure _
  · exact .bind hwait fun _ => .bind .modify_other fun _ =>
      .bind (.bind htransmit fun _ => .bind (addReceipt_sourced p _) fun _ => .pure _)
        fun _ => .bind .modify_other fun _ => .pure _

/-- The packet a node makes of an announce packs, and unpacks to what it was made of. -/
theorem unpack_rebroadcast (encrypt : PacketSpec → Bytes → Except String Bytes) (identity : Address)
    (packet : Packet) {context : ContextType} (hcontext : context ≠ ContextType.lrproof)
    (hops : UInt8) :
    ∃ p q, pack encrypt (rebroadcastSpec identity packet context hops) = .ok p
      ∧ p.packetType = .announce ∧ unpack p.raw = some q ∧ Relayed q
      ∧ q.destinationHash = packet.destinationHash ∧ q.contextFlag = packet.contextFlag
      ∧ q.data = packet.data.left reticulumMdu ∧ q.hops = hops := by
  have hid : (rebroadcastSpec identity packet context hops).transportId.isSome
      ↔ (rebroadcastSpec identity packet context hops).headerType = .header2 := by
    simp [rebroadcastSpec]
  have hmtu : headerMaxsize + (rebroadcastSpec identity packet context hops).data.length
      ≤ (rebroadcastSpec identity packet context hops).mtu := by
    show headerMaxsize + (packet.data.left reticulumMdu).length ≤ reticulumMtu
    have hcut : (packet.data.left reticulumMdu).length ≤ reticulumMdu := by simp
    have hroom : headerMaxsize + reticulumMdu ≤ reticulumMtu := by decide
    omega
  obtain ⟨p, hpack, htype, hunpack, hflags⟩ :=
    unpack_pack_announce encrypt rfl hcontext (.inr rfl) hid hmtu
  refine ⟨p, _, hpack, htype, hunpack, ⟨?_, ?_⟩, rfl, ?_, rfl, rfl⟩
  all_goals
    simp only [ofLayout, hflags]
  all_goals
    rfl

/-- The packet that is built to pass an announce on carries the payload of the announce it is made from,
one hop further. -/
theorem wireSourced_of_pack {a : Arrival} (ha : a ∈ accepted) {d : Address} {packet : Packet}
    {hops : UInt8} (hentry : EntryOf a d packet hops) {identity : Address} {context : ContextType}
    (hcontext : context ≠ ContextType.lrproof)
    {encrypt : PacketSpec → Bytes → Except String Bytes} {p : Packet}
    (hpack : pack encrypt (rebroadcastSpec identity packet context hops) = .ok p) :
    p.packetType = .announce ∧ WireSourced accepted p.raw := by
  obtain ⟨p', q, hpack', htype, hunpack, -, hdestination, hflag, hdata, hhops⟩ :=
    unpack_rebroadcast encrypt identity packet hcontext hops
  cases hpack.symm.trans hpack'
  refine ⟨htype, fun q' hq' _ => ⟨a, ha, ?_⟩⟩
  cases hunpack.symm.trans hq'
  exact
    { destinationHash := hdestination.trans hentry.destinationHash
      contextFlag := hflag.trans hentry.contextFlag
      data := hdata.trans (congrArg (Bytes.left · reticulumMdu) hentry.data)
      hops := hhops ▸ hentry.hops }

/-- Passing an entry on puts on the air a packet that stems from the announce of the entry. -/
theorem send_sourced {a : Arrival} (ha : a ∈ accepted) {d : Address} {packet : Packet}
    {hops : UInt8} (hentry : EntryOf a d packet hops) (identity : Address) {context : ContextType}
    (hcontext : context ≠ ContextType.lrproof) (i : Option Interface) :
    KeepsSourced accepted (send env
      { spec := rebroadcastSpec identity packet context hops, attachedInterface := i }) := by
  refine .bind (.ofExcept _) fun _ => ?_
  intro s hs
  cases hpack : pack env.encrypt (rebroadcastSpec identity packet context hops) with
  | error e => exact hs
  | ok p =>
    obtain ⟨htype, hraw⟩ := wireSourced_of_pack ha hentry hcontext hpack
    let outgoing : OutgoingPacket :=
      { packet := p, destination := some .single, attachedInterface := i }
    exact outbound_sourced (p := outgoing) htype hraw s hs

/-! ## Accepting an announce -/

theorem remember_sourced (h : Address) (entry : IdentityEntry) :
    KeepsSourced accepted (remember env h entry) :=
  .bind (.require _ _) fun _ => .when .modify_other

/-- A recalled identity can add to the known destinations, which hold no announces. -/
theorem identityRecall_sourced (h : Address) : KeepsSourced accepted (identityRecall env h) := by
  refine .bind .get fun s => ?_
  split
  · exact .pure _
  · exact .bind (.when (remember_sourced h _)) fun _ => .pure _

/-- The validation remembers an identity and touches none of the tables that hold announces. -/
theorem validateAnnounce_sourced (p : Packet) (only : Bool) :
    KeepsSourced accepted (validateAnnounce env p only) := by
  have haccept : KeepsSourced accepted (acceptIdentity env p) := by
    refine .bind .get fun s => ?_
    split
    · exact .pure _
    · exact .bind (remember_sourced _ _) fun _ => .pure _
  unfold validateAnnounce
  split
  · split
    · exact .pure _
    · split
      · exact .catching haccept fun _ => .pure _
      · exact .pure _
  · exact .pure _

theorem rateBlocked_sourced (now : ℚ) (p : Packet) (i : Interface) :
    KeepsSourced accepted (rateBlocked now p i) := by
  refine .bind .get fun s => ?_
  split
  · split
    · exact .bind .modify_other fun _ => .pure _
    · exact .bind .modify_other fun _ => .pure _
  · exact .pure _

/-- The cull only takes entries out of the announce table. -/
theorem cullAnnounceTable_sourced {s : TransportState} (h : Sourced accepted s) :
    Sourced accepted (cullAnnounceTable env s) := by
  unfold cullAnnounceTable
  split
  · exact { h with announces := cullOldest_all _ h.announces }
  · exact h

/-- A new entry stems from the announce it is made from; making room for it takes others out. -/
theorem addAnnounceEntry_sourced {s : TransportState} (h : Sourced accepted s) {d : Address}
    {entry : AnnounceEntry} (hentry : ∃ a ∈ accepted, EntryOf a d entry.packet entry.hops) :
    Sourced accepted (addAnnounceEntry env d entry s) :=
  cullAnnounceTable_sourced { h with announces := h.announces.emplace hentry }

/-- The entry of an arrival is about that arrival. -/
theorem entryOf_arrived (a : Arrival) :
    EntryOf a a.arrived.destinationHash a.arrived a.arrived.hops where
  key := rfl
  destinationHash := rfl
  contextFlag := rfl
  data := rfl
  hops := .inl rfl

/-- The entry that is scheduled for an announce stems from that announce. -/
theorem scheduleAnnounce_sourced {a : Arrival} (ha : a ∈ accepted) (i : Interface)
    (blocked : Bool) : KeepsSourced accepted (scheduleAnnounce env a.arrived i blocked) := by
  have hentry : ∀ now, ∃ b ∈ accepted, EntryOf b a.arrived.destinationHash
      (announceEntry env a.arrived now).packet (announceEntry env a.arrived now).hops :=
    fun now => ⟨a, ha, entryOf_arrived a⟩
  refine .bind .get fun s => ?_
  dsimp only
  split
  · exact .when (.modify fun s hs => addAnnounceEntry_sourced hs (hentry _))
  · refine .when (.modify fun s hs => addAnnounceEntry_sourced ?_ (hentry true))
    exact hs.of_same rfl rfl rfl rfl

theorem answerAnnounce_sourced {a : Arrival} (ha : a ∈ accepted) (identity : Address)
    {context : ContextType} (hcontext : context ≠ ContextType.lrproof) (i : Option Interface) :
    KeepsSourced accepted (answerAnnounce env a.arrived identity context i) :=
  .bind (send_sourced ha (entryOf_arrived a) identity hcontext i) fun _ => .pure _

/-- The request that was waiting is answered with the announce that has just been accepted. -/
theorem answerWaiting_sourced {a : Arrival} (ha : a ∈ accepted) (i : Interface)
    (identity : Address) : KeepsSourced accepted (answerWaiting env a.arrived i identity) := by
  have hlocal : ∀ l : Interface, KeepsSourced accepted
      (answerAnnounce env a.arrived identity ContextType.none (some l)) :=
    fun l => answerAnnounce_sourced ha identity (by decide) (some l)
  refine .bind .get fun s => .bind (.when (.bind (identityRecall_sourced _) fun _ =>
    .forEach _ fun l _ => hlocal l)) fun _ => .bind .get fun s => ?_
  split
  · exact .pure _
  · exact .bind (identityRecall_sourced _) fun _ =>
      answerAnnounce_sourced ha identity (by decide) _

theorem markPath_sourced (state : PathState) (h : Address) :
    KeepsSourced accepted (Prog.modify (markPath state h)) := by
  refine .modify fun s hs => ?_
  unfold markPath
  split
  · exact hs.of_same rfl rfl rfl rfl
  · exact hs

/-- The path that is stored for an announce stems from that announce. -/
theorem storePath_sourced {a : Arrival} (ha : a ∈ accepted) (i : Interface) (blobs : List Bytes) :
    KeepsSourced accepted (storePath env a.arrived i blobs) := by
  have hpath : ∃ b ∈ accepted, a.arrived.destinationHash = b.packet.destinationHash
      ∧ (announcedPath env a.arrived i blobs).encode.announce = b.raw
      ∧ (announcedPath env a.arrived i blobs).encode.hops = b.hops :=
    ⟨a, ha, rfl, (unpack_sound a.unpacks).2.1, rfl⟩
  refine .catching (.bind (.ofExcept _) fun stored => .when (.bind (.modify fun s hs => ?_)
    fun _ => markPath_sourced _ _)) fun _ => .pure _
  exact { hs with paths := hs.paths.insert hpath }

/-- What is assumed of the application's announce handlers. -/
def HandlersKeep (accepted : List Arrival) (env : Environment) : Prop :=
  ∀ handler ∈ env.announceHandlers, ∀ d identity appData s, Sourced accepted s →
    Sourced accepted (handler.receivedAnnounce d identity appData s).2

/-- The announce handlers keep the sources, as they are promised to. -/
theorem callAnnounceHandlers_sourced (hhandlers : HandlersKeep accepted env) (p : Packet) :
    KeepsSourced accepted (callAnnounceHandlers env p) := by
  refine .when (.forEach _ fun handler hmem => .catching ?_ fun _ => .pure _)
  refine .bind (identityRecall_sourced _) fun identity => .bind .get fun s => .when ?_
  exact .callHandler fun s hs => hhandlers handler hmem _ _ _ s hs

/-- All that follows from accepting an arrival goes back to it. -/
theorem acceptAnnounce_sourced {a : Arrival} (ha : a ∈ accepted)
    (hhandlers : HandlersKeep accepted env) (i : Interface) (identity : Address)
    (blobs : List Bytes) : KeepsSourced accepted (acceptAnnounce env a.arrived i identity blobs) :=
  .bind (rateBlocked_sourced _ _ _) fun _ => .bind (scheduleAnnounce_sourced ha i _) fun _ =>
    .bind (answerWaiting_sourced ha i identity) fun _ => .bind (storePath_sourced ha i blobs) fun _ =>
      callAnnounceHandlers_sourced hhandlers _

/-! ## The decision -/

/-- `handleAnnounce` up to the decision, with the random blobs of the known path when the announce is
accepted. -/
def judgeAnnounce (env : Environment) (p : Packet) :
    Prog String TransportState (Option (List Bytes)) := do
  let s ← Prog.get
  if p.destinationHash ∈ s.destinations then pure none
  else do
    let valid ← callHandler (env.validateAnnounce p)
    if valid = false then pure none
    else do
      Prog.when (p.transportId.isSome ∧ env.transportEnabled = true) <|
        Prog.modify (hearRebroadcast env.now p)
      let s ← Prog.get
      if p.destinationHash ∈ s.destinations ∨ ¬ p.hops < pathfinderM + 1 then pure none
      else do
        let shouldAdd ← shouldAddPath env.now p
        let shouldAdd ← blackholeAllows env p shouldAdd
        pure (if shouldAdd then
          some (((getPath s p.destinationHash).map DestinationEntry.randomBlobs).getD []) else none)

/-- `handleAnnounce` accepts what it has decided to accept. -/
theorem handleAnnounce_eq (env : Environment) (p : Packet) (i : Interface) (identity : Address)
    (s : TransportState) :
    handleAnnounce env p i identity s = (judgeAnnounce env p >>= fun decision =>
      match decision with
      | none => pure ()
      | some blobs => acceptAnnounce env p i identity blobs) s := by
  unfold handleAnnounce judgeAnnounce
  rw [Prog.bind_assoc_run, Prog.get_bind_run, Prog.get_bind_run]
  by_cases hown : p.destinationHash ∈ s.destinations
  · rw [Prog.when_of_not (fun hnot => hnot hown), if_pos hown]
    rfl
  rw [Prog.when_of hown, if_neg hown, Prog.bind_assoc_run]
  refine Prog.bind_congr_run _ (fun valid t => ?_) s
  cases valid with
  | false => rfl
  | true =>
    rw [Prog.when_of rfl, if_neg (by decide), Prog.bind_assoc_run]
    refine Prog.bind_congr_run _ (fun _ u => ?_) t
    rw [Prog.bind_assoc_run, Prog.get_bind_run, Prog.get_bind_run]
    by_cases hrefuse : p.destinationHash ∈ u.destinations ∨ ¬ p.hops < pathfinderM + 1
    · rw [if_pos hrefuse, Prog.when_of_not (fun h => hrefuse.elim h.1 (fun hfar => hfar h.2))]
      rfl
    · rw [if_neg hrefuse, Prog.when_of ⟨fun h => hrefuse (.inl h),
        Decidable.not_not.mp fun h => hrefuse (.inr h)⟩, Prog.bind_assoc_run]
      refine Prog.bind_congr_run _ (fun shouldAdd v => ?_) u
      rw [Prog.bind_assoc_run]
      refine Prog.bind_congr_run _ (fun shouldAdd' w => ?_) v
      cases shouldAdd' <;> rfl

/-- `validate_announce` as the environment calls it. -/
def validateHandler (env : Environment) (p : Packet) : Handler TransportState Bool := fun s =>
  match validateAnnounce env p false s with
  | (.value valid, t) => (.ok valid, t)
  | (_, t) => (.error "", t)

/-- An environment whose `validate_announce` is that of this module. -/
def Validates (env : Environment) : Prop := ∀ p, env.validateAnnounce p = validateHandler env p

theorem validateHandler_sourced (henv : Validates env) (p : Packet) :
    KeepsSourced accepted (callHandler (env.validateAnnounce p)) := by
  refine .callHandler fun s hs => ?_
  have hafter : Sourced accepted (validateAnnounce env p false s).2 :=
    validateAnnounce_sourced p false s hs
  rw [henv p]
  unfold validateHandler
  rcases hrun : validateAnnounce env p false s with ⟨_ | _ | _ | _, t⟩ <;> rw [hrun] at hafter <;>
    exact hafter

theorem hearRebroadcast_sourced (now : ℚ) (p : Packet) :
    KeepsSourced accepted (Prog.modify (hearRebroadcast now p)) := by
  refine .modify fun s hs => ?_
  unfold hearRebroadcast
  split
  · exact hs
  · split
    · exact { hs with announces := hs.announces.erase _ }
    · split
      · exact { hs with announces := hs.announces.adjust _ fun e he => he }
      · exact hs

/-- Judging an announce (its signature, its age, its rate) puts none of it into a table yet. -/
theorem judgeAnnounce_sourced (henv : Validates env) (p : Packet) :
    KeepsSourced accepted (judgeAnnounce env p) := by
  have hshould : KeepsSourced accepted (shouldAddPath env.now p) := by
    refine .bind .get fun s => ?_
    split
    · exact .pure _
    · exact .bind (.when (markPath_sourced _ _)) fun _ => .bind .get fun _ => .pure _
  have hblackhole : ∀ shouldAdd, KeepsSourced accepted (blackholeAllows env p shouldAdd) := by
    intro shouldAdd
    refine .bind .get fun s => ?_
    split
    · exact .pure _
    · refine .bind (identityRecall_sourced _) fun _ => .bind .get fun _ => ?_
      split <;> exact .pure _
  refine .bind .get fun s => ?_
  split
  · exact .pure _
  · refine .bind (validateHandler_sourced henv p) fun valid => ?_
    split
    · exact .pure _
    · refine .bind (.when (hearRebroadcast_sourced _ p)) fun _ => .bind .get fun u => ?_
      split
      · exact .pure _
      · exact .bind hshould fun _ => .bind (hblackhole _) fun _ => .pure _

/-- An announce that is accepted is within the hop limit. -/
theorem judgeAnnounce_hops {p : Packet} {s : TransportState} {blobs : List Bytes}
    (h : (judgeAnnounce env p s).1 = .value (some blobs)) : p.hops < pathfinderM + 1 := by
  obtain ⟨t, hrun⟩ : ∃ t, judgeAnnounce env p s = (.value (some blobs), t) := ⟨_, Prod.ext h rfl⟩
  unfold judgeAnnounce at hrun
  rw [Prog.get_bind_run] at hrun
  split at hrun
  case isTrue => cases hrun
  case isFalse =>
    obtain ⟨valid, u, -, hrun⟩ := Prog.exists_of_bind_value hrun
    split at hrun
    case isTrue => cases hrun
    case isFalse =>
      obtain ⟨_, v, -, hrun⟩ := Prog.exists_of_bind_value hrun
      rw [Prog.get_bind_run] at hrun
      split at hrun
      case isTrue => cases hrun
      case isFalse hnear => exact Decidable.not_not.mp fun hfar => hnear (.inr hfar)

/-! ## Sending later -/

/-- A held entry that is put back stems from the announce it stemmed from when it was held. -/
theorem reinsertHeld_sourced (h : Address) :
    KeepsSourced accepted (Prog.modify (reinsertHeld env h)) := by
  refine .modify fun s hs => ?_
  unfold reinsertHeld
  split
  · exact hs
  · next held hheld =>
    exact cullAnnounceTable_sourced
      { hs with
        announces := (hs.announces.erase h).insert (hs.held h held hheld)
        held := hs.held.erase h }

/-- A packet that is sent for an accepted announce. -/
def SentFor (accepted : List Arrival) (p : NewPacket) : Prop :=
  ∃ a ∈ accepted, ∃ d packet hops identity context i, EntryOf a d packet hops
    ∧ context ≠ ContextType.lrproof
    ∧ p = { spec := rebroadcastSpec identity packet context hops, attachedInterface := i }

theorem send_sourced_of_sentFor {p : NewPacket} (h : SentFor accepted p) :
    KeepsSourced accepted (send env p) := by
  obtain ⟨a, ha, d, packet, hops, identity, context, i, hentry, hcontext, rfl⟩ := h
  exact send_sourced ha hentry identity hcontext i

/-- The packet that is sent for an entry is one for the announce the entry stems from. -/
theorem newPacket_sentFor {a : Arrival} (ha : a ∈ accepted) {d : Address} {e : AnnounceEntry}
    (hentry : EntryOf a d e.packet e.hops) (identity : Address) :
    SentFor accepted (e.newPacket identity) := by
  refine ⟨a, ha, d, e.packet, e.hops, identity, _, e.attachedInterface, hentry, ?_, rfl⟩
  cases e.blockRebroadcasts <;> decide

/-- What has been collected is sent for accepted announces. -/
def AllSentFor (accepted : List Arrival) (r : Retransmissions) : Prop :=
  ∀ p ∈ r.outgoing, SentFor accepted p

/-- A round of the announce job keeps the sources: it counts, lets the entry go or prepares a packet. -/
theorem retransmitEntry_sourced (identity h : Address) (entry : AnnounceEntry)
    (r : Retransmissions) : KeepsSourced accepted (retransmitEntry env identity h entry r) := by
  refine .bind (.modify fun s hs => { hs with announces := hs.announces.adjust _ fun e he => he })
    fun _ => .bind (identityRecall_sourced _) fun recalled => ?_
  split
  · exact .pure _
  · exact .bind (reinsertHeld_sourced h) fun _ => .pure _

/-- What a round of the announce job has prepared for sending stems from accepted announces, if what was
prepared before does. -/
theorem retransmitEntry_returns {identity h : Address} {entry : AnnounceEntry}
    {r : Retransmissions} (hentry : ∃ a ∈ accepted, EntryOf a h entry.packet entry.hops)
    (hr : AllSentFor accepted r) :
    Prog.Returns (AllSentFor accepted) (retransmitEntry env identity h entry r) := by
  refine .bind _ fun _ => .bind _ fun recalled => ?_
  split
  · exact .pure hr
  · refine .bind _ fun _ => .pure fun p hp => ?_
    rcases List.mem_append.mp hp with hold | hnew
    · exact hr p hold
    · obtain ⟨a, ha, hof⟩ := hentry
      rw [List.mem_singleton.mp hnew]
      exact newPacket_sentFor ha hof identity

theorem retransmitAnnounce_sourced (identity : Address) (r : Retransmissions) (h : Address) :
    KeepsSourced accepted (retransmitAnnounce env identity r h) := by
  unfold retransmitAnnounce
  split
  · exact .pure _
  · refine .bind .get fun s => ?_
    split
    · exact .pure _
    · split
      · exact .pure _
      · split
        · exact .catching (retransmitEntry_sourced identity h _ r) fun _ => .pure _
        · exact .pure _

/-- One round of the loop collects what is sent for an accepted announce. -/
theorem retransmitAnnounce_value {identity h : Address} {r r' : Retransmissions}
    {s t : TransportState} (hs : Sourced accepted s) (hr : AllSentFor accepted r)
    (hrun : retransmitAnnounce env identity r h s = (.value r', t)) : AllSentFor accepted r' := by
  unfold retransmitAnnounce at hrun
  split at hrun
  case isTrue => cases hrun; exact hr
  case isFalse =>
    rw [Prog.get_bind_run] at hrun
    cases hlookup : s.announceTable.lookup h with
    | none =>
      simp only [hlookup] at hrun
      cases hrun
      exact hr
    | some entry =>
      simp only [hlookup] at hrun
      split at hrun
      · cases hrun
        exact hr
      · split at hrun
        case isFalse => cases hrun; exact hr
        case isTrue =>
          unfold Prog.catching at hrun
          rcases hentry : retransmitEntry env identity h entry r s with ⟨r'' | _ | e | _, u⟩ <;>
            rw [hentry] at hrun
          case value =>
            cases hrun
            exact retransmitEntry_returns (hs.announces h entry hlookup) hr _ _ _ hentry
          case thrown =>
            cases hrun
            exact hr
          all_goals cases hrun

/-- The whole loop. -/
theorem retransmitLoop_value {identity : Address} (keys : List Address) {r r' : Retransmissions}
    {s t : TransportState} (hs : Sourced accepted s) (hr : AllSentFor accepted r)
    (hrun : Prog.fold keys r (retransmitAnnounce env identity) s = (.value r', t)) :
    AllSentFor accepted r' := by
  induction keys generalizing r s with
  | nil => cases hrun; exact hr
  | cons h keys ih =>
    obtain ⟨r'', u, hround, hrest⟩ := Prog.exists_of_bind_value hrun
    have hu : Sourced accepted (retransmitAnnounce env identity r h s).2 :=
      retransmitAnnounce_sourced identity r h s hs
    rw [hround] at hu
    exact ih hu (retransmitAnnounce_value hs hr hround) hrest

theorem retransmitAnnounces_sourced (identity : Address) :
    KeepsSourced accepted (retransmitAnnounces env identity) :=
  .bind .get fun _ => .bind
    (.fold _ (fun h _ r => retransmitAnnounce_sourced identity r h) _) fun _ =>
      .bind (.when (.modify fun _ hs => { hs with announces := hs.announces.eraseAll _ }))
        fun _ => .pure _

/-- What the job sends goes back to accepted announces. -/
theorem announceJob_sourced : KeepsSourced accepted (announceJob env) := by
  intro s hs
  unfold announceJob
  rw [Prog.get_bind_run]
  cases hidentity : s.identity with
  | none => exact hs
  | some identity =>
    have hkept : Sourced accepted (retransmitAnnounces env identity s).2 :=
      retransmitAnnounces_sourced identity s hs
    show Sourced accepted ((retransmitAnnounces env identity >>= fun outgoing =>
      Prog.forEach outgoing fun p => do
        let _ ← send env p
        pure ()) s).2
    rw [Prog.bind_run]
    rcases hrun : retransmitAnnounces env identity s with ⟨outgoing | _ | _ | _, t⟩ <;>
      rw [hrun] at hkept
    case value =>
      have hsent : ∀ p ∈ outgoing, SentFor accepted p := by
        unfold retransmitAnnounces at hrun
        rw [Prog.get_bind_run] at hrun
        obtain ⟨r, u, hloop, hrest⟩ := Prog.exists_of_bind_value hrun
        obtain ⟨_, v, -, hpure⟩ := Prog.exists_of_bind_value hrest
        cases hpure
        exact retransmitLoop_value _ hs (fun p hp => by cases hp) hloop
      have hsends : KeepsSourced accepted (Prog.forEach outgoing fun p => do
          let _ ← send env p
          pure ()) :=
        .forEach _ fun p hp => .bind (send_sourced_of_sentFor (hsent p hp)) fun _ => .pure _
      exact hsends t hkept
    all_goals exact hkept

/-! ## Path requests and the store -/

/-- What is assumed of the answers of local destinations and of requests that are passed on. -/
def CallsKeep (accepted : List Arrival) (calls : PathRequestCalls) : Prop :=
  (∀ d s, Sourced accepted s → Sourced accepted (calls.announceLocal d s).2)
    ∧ ∀ d i s, Sourced accepted s → Sourced accepted (calls.requestPath d i s).2

/-- The announce of a path record, as it is read from the store. -/
theorem entryOf_getPath {s : TransportState} (hs : Sourced accepted s) {d : Address}
    {entry : DestinationEntry} (h : getPath s d = some entry) :
    ∃ a ∈ accepted, EntryOf a entry.announcePacket.destinationHash entry.announcePacket
      entry.announcePacket.hops ∧ d = a.packet.destinationHash ∧ entry.hops = a.hops
      ∧ entry.announcePacket.raw = a.raw := by
  obtain ⟨stored, hstored, hdecode⟩ := Option.bind_eq_some_iff.mp h
  obtain ⟨a, ha, hkey, hraw, hhops⟩ := hs.paths d stored hstored
  unfold StoredPath.decode at hdecode
  rw [hraw, a.unpacks] at hdecode
  cases hinterface : findInterface s stored.receivingInterface with
  | none => rw [hinterface] at hdecode; cases hdecode
  | some i =>
    rw [hinterface] at hdecode
    cases hdecode
    exact ⟨a, ha, ⟨rfl, rfl, rfl, rfl, .inr rfl⟩, hkey, hhops, (unpack_sound a.unpacks).2.1⟩

/-- A path request can put the announce of a known path into the table, and this announce was accepted
when the path was stored. -/
theorem pathRequest_sourced {calls : PathRequestCalls} (hcalls : CallsKeep accepted calls)
    (r : PathRequest) : KeepsSourced accepted (pathRequest env calls r) := by
  intro s hs
  have hrequest : ∀ is : List Interface, KeepsSourced accepted (Prog.forEach is fun i =>
      callHandler (calls.requestPath r.destinationHash i)) :=
    fun is => .forEach _ fun i _ => .callHandler fun s hs => hcalls.2 _ i s hs
  have hnoted : Sourced accepted (notePendingLocal r (getPath s r.destinationHash) s) := by
    unfold notePendingLocal
    split
    · exact hs.of_same rfl rfl rfl rfl
    · exact hs
  have hanswer : ∀ entry, getPath s r.destinationHash = some entry →
      KeepsSourced accepted (answerKnownPath env r entry) := by
    intro entry hpath
    obtain ⟨a, ha, hof, -⟩ := entryOf_getPath hs hpath
    have hhold : KeepsSourced accepted
        (Prog.modify (holdAnnounce entry.announcePacket.destinationHash)) := by
      refine .modify fun s hs => ?_
      unfold holdAnnounce
      split
      · exact hs
      · next waiting hwaiting =>
        exact { hs with held := hs.held.emplace (hs.announces _ waiting hwaiting) }
    exact .bind .get fun s => .when (.bind hhold fun _ =>
      .modify fun s hs => addAnnounceEntry_sourced hs ⟨a, ha, hof⟩)
  unfold pathRequest
  rw [Prog.get_bind_run, Prog.modify_bind_run, Prog.get_bind_run]
  revert hnoted
  generalize notePendingLocal r (getPath s r.destinationHash) s = t
  intro hnoted
  by_cases hown : r.destinationHash ∈ t.destinations
  · rw [if_pos hown]
    exact KeepsSourced.callHandler (fun s hs => hcalls.1 _ s hs) t hnoted
  rw [if_neg hown]
  refine (?_ : KeepsSourced accepted _) t hnoted
  split
  case h_1 entry hentry =>
    split at hentry
    · exact hanswer entry hentry
    · cases hentry
  case h_2 =>
    split
    · exact hrequest _
    · split
      · exact .when (.bind .modify_other fun _ => hrequest _)
      · exact hrequest _

/-- A path record that is read and stored again keeps its announce and its hop count. -/
theorem restore_sourced {s : TransportState} (hs : Sourced accepted s) {d : Address}
    {entry : DestinationEntry} (h : getPath s d = some entry) :
    Sourced accepted (putPath d entry.encode s) := by
  obtain ⟨a, ha, -, hkey, hhops, hraw⟩ := entryOf_getPath hs h
  exact { hs with paths := hs.paths.insert ⟨a, ha, hkey, hraw, hhops⟩ }

end MicroReticulum.Announce
