import MicroReticulum.Transport.Line

/-!
# A proof across a line of nodes

A packet that crosses a line of transport nodes leaves an entry in the reverse table of each of them, under its hash:
the interface it came in on and the one it went out on. Its proof is addressed to that hash, and is passed back along
these entries.

No hop count is compared on the way, other than for the packets of a link. So the proof comes back all the way as long
as the entries stay, whatever the paths of the nodes have become in the meantime (`proofs_come_back`). A proof that
comes in on the side that the packet came from is not passed on.
-/

namespace MicroReticulum.Transport

open MicroReticulum Packet Link Library Announce

/-- A proof of a packet, neither of a link nor of a resource, but for its hop count. -/
structure ReturningProof where
  flags : UInt8
  packetHash : Address
  context : ContextType
  data : Bytes
  isHeader1 : (unpackFlags flags).headerType = .header1
  toSingle : (unpackFlags flags).destinationType = .single
  isProof : (unpackFlags flags).packetType = .proof
  ordinary : context ≠ ContextType.lrproof ∧ context ≠ ContextType.resourcePrf ∧ context ≠ ContextType.cacheRequest

/-- The bytes of the proof after some hops. -/
def ReturningProof.raw (P : ReturningProof) (hops : UInt8) : Bytes :=
  layout P.flags hops none P.packetHash P.context P.data

/-- The packet that is read from them. -/
def ReturningProof.packet (P : ReturningProof) (hops : UInt8) : Packet :=
  ofLayout P.flags hops none P.packetHash P.context P.data

theorem ReturningProof.unpack_raw (P : ReturningProof) (hops : UInt8) : unpack (P.raw hops) = some (P.packet hops) :=
  unpack_layout (by simp [Addressed, P.isHeader1])

theorem ReturningProof.hopRaw_packet (P : ReturningProof) (h hops : UInt8) :
    hopRaw { P.packet h with hops } = P.raw hops :=
  hopRaw_eq_layout hops (P.unpack_raw h)

/-- The hash of a proof is the same behind any number of hops. -/
theorem ReturningProof.getHash_packet (P : ReturningProof) (fullHash : Bytes → Hash) (h hops : UInt8) :
    ({ P.packet h with hops } : Packet).getHash fullHash = (P.packet 0).getHash fullHash := by
  have hsame : (P.packet h).getHashablePart = (P.packet 0).getHashablePart :=
    (getHashablePart_unpack (P.unpack_raw h)).trans (getHashablePart_unpack (P.unpack_raw 0)).symm
  exact congrArg fullHash hsame

variable {env : Environment} {s : TransportState} {raw raw' : Bytes} {p : Packet}

/-! ## The packet -/

/-- A packet on its way to its destination. -/
structure CrossingData (p : Packet) : Prop where
  isData : p.packetType = .data
  toSingle : p.destinationType = .single
  notCacheRequest : p.context ≠ ContextType.cacheRequest

theorem localHandling_data {a : Arrived} (hdata : CrossingData a.packet)
    (hforeign : a.packet.destinationHash ∉ s.destinations) (flags : ClientFlags) :
    localHandling env flags a s = (.value (), s) := by
  unfold localHandling
  rw [hdata.isData]
  dsimp only
  rw [if_neg (by rw [hdata.toSingle]; decide)]
  unfold handleDestinationData
  rw [Prog.get_bind_run, localDestination_foreign hforeign]
  rfl

theorem rememberHash_reverseTable (env : Environment) (p : Packet) (s : TransportState) :
    (rememberHash env p s).reverseTable = s.reverseTable := by
  unfold rememberHash
  split <;> rfl

theorem linkTransport_other {a : Arrived} (h : a.packet.destinationHash ∉ s.linkTable) :
    linkTransport env a s = (.value (), s) := by
  unfold linkTransport
  rw [Prog.get_bind_run, AList.lookup_eq_none.mpr h, Option.bind_none]
  unfold Prog.when
  split <;> rfl

theorem CrossingData.onlyPasses {a : Arrived} (hdata : CrossingData a.packet)
    (hforeign : a.packet.destinationHash ∉ s.destinations) (hlink : a.packet.destinationHash ∉ s.linkTable) :
    OnlyPasses env a s where
  notPlain := by rw [hdata.toSingle]; decide
  notCacheRequest := hdata.notCacheRequest
  rest t hdestinations htable transportId flags := by
    have hdata' : CrossingData { a.packet with transportId } := ⟨hdata.isData, hdata.toSingle, hdata.notCacheRequest⟩
    refine ⟨linkTransport_other ?_, localHandling_data hdata' (by rw [hdestinations]; exact hforeign) flags⟩
    rw [htable (by rw [hdata.isData]; decide)]
    exact hlink

/-- What is passed on of such a packet is hashed as the packet was. -/
theorem forwardRaw_data {a : Arrived} {path : DestinationEntry} (hraw : unpack raw = some p) {hops : UInt8}
    (hpacket : a.packet = { p with hops }) (htype : 0 < path.hops → p.headerType = .header2) (hdata : CrossingData p)
    (hforward : forwardRaw a path = .ok raw') :
    ∃ q, unpack raw' = some q ∧ CrossingData q ∧ q.destinationHash = p.destinationHash
      ∧ q.getHashablePart = p.getHashablePart := by
  unfold forwardRaw at hforward
  rw [hpacket] at hforward
  obtain ⟨flags, transportId, data, -, rfl, haddressed, hlow, hsame⟩ := nextHopForward_eq_layout hraw htype hforward
  have hq : unpack (layout flags hops transportId p.destinationHash p.context data)
      = some (ofLayout flags hops transportId p.destinationHash p.context data) := unpack_layout haddressed
  have hp := (unpack_sound hraw).1
  refine ⟨_, hq, ?_, rfl, ?_⟩
  · obtain ⟨hisData, hsingle, hcache⟩ := hdata
    rw [congrArg Packet.packetType hp] at hisData
    rw [congrArg Packet.destinationType hp] at hsingle
    have htypes := unpackFlags_of_low_eq hlow
    exact ⟨htypes.2.trans hisData, htypes.1.trans hsingle, hcache⟩
  · unfold forwardedData at hsame
    rw [if_neg (by rw [hdata.isData]; decide)] at hsame
    cases hsame
    rw [getHashablePart_unpack hq, getHashablePart_unpack hraw, ← hlow]
    rfl

namespace Relay

/-- What a node has noted of a packet: it came in on the near side and went out on the far side. -/
def Routed (packetHash : Address) (r : Relay) : Prop :=
  ∃ e, r.state.reverseTable.lookup packetHash = some e ∧ e.receivingInterface = r.near
    ∧ e.outboundInterface.id = r.far.id

/-- A node that has not heard of a packet yet, and has nothing else to do with its destination than to lead there. -/
structure Unaware (hash : Bytes → Hash) (packetHash d : Address) (r : Relay) : Prop where
  hash : r.env.fullHash = hash
  new : packetHash ∉ r.state.reverseTable
  foreign : d ∉ r.state.destinations
  noLink : d ∉ r.state.linkTable

/-- A node that passes a packet on has noted where it came from. -/
theorem onward_data {r r' : Relay} {hash : Bytes → Hash} (hraw : unpack raw = some p) (hdata : CrossingData p)
    (hopen : r.Unaware hash (p.getTruncatedHash hash) p.destinationHash) (hpass : r.onward raw = (r', some raw')) :
    ∃ q, r'.Routed (p.getTruncatedHash hash) ∧ unpack raw' = some q ∧ CrossingData q
      ∧ q.destinationHash = p.destinationHash ∧ q.getHashablePart = p.getHashablePart := by
  have honly : ∀ a : Arrived, (∃ hops, a.packet = { p with hops }) →
      OnlyPasses r.env a (setJobsLocked true r.state) := by
    rintro a ⟨hops, hpacket⟩
    refine CrossingData.onlyPasses ?_ ?_ ?_ <;> rw [hpacket]
    · exact ⟨hdata.isData, hdata.toSingle, hdata.notCacheRequest⟩
    · exact hopen.foreign
    · exact hopen.noLink
  obtain ⟨n, path, locked, -, hforward, hheader, hfar, -, hnear', hfar', hstate⟩ := onward_passes hraw honly hpass
  obtain ⟨q, hq, hcrosses, hsame, hpart⟩ := forwardRaw_data hraw rfl hheader hdata hforward
  refine ⟨q, ⟨reverseEntry r.env (arrivedAt n r.state r.near p) path, ?_, hnear'.symm,
    hfar.trans (congrArg _ hfar'.symm)⟩, hq, hcrosses, hsame, hpart⟩
  rw [hstate]
  show (recordForward r.env (arrivedAt n r.state r.near p) path
    (rememberHash r.env (arrivedAt n r.state r.near p).packet (setJobsLocked true r.state))).reverseTable.lookup _ = _
  have hnew : p.getTruncatedHash hash ∉ (setJobsLocked true r.state).reverseTable := hopen.new
  have htype : (arrivedAt n r.state r.near p).packet.packetType = .data := hdata.isData
  have hhash : (arrivedAt n r.state r.near p).packet.getTruncatedHash r.env.fullHash = p.getTruncatedHash hash := by
    rw [hopen.hash]
    rfl
  unfold recordForward
  rw [if_neg (by rw [htype]; decide), hhash]
  dsimp only
  rw [rememberHash_reverseTable]
  unfold Table.emplace
  rw [if_neg hnew, AList.lookup_insert]

end Relay

/-- The nodes of a line that a packet has crossed. -/
theorem carried_data {hash : Bytes → Hash} {nodes nodes' : List Relay} {out : Bytes}
    (h : Carried Relay.onward nodes raw nodes' out) (hraw : unpack raw = some p) (hdata : CrossingData p)
    (hopen : ∀ r ∈ nodes, r.Unaware hash (p.getTruncatedHash hash) p.destinationHash) :
    ∀ r ∈ nodes', r.Routed (p.getTruncatedHash hash) := by
  induction h generalizing p with
  | nil => exact fun r hr => absurd hr List.not_mem_nil
  | @cons r r' raw raw' out l l' hpass hrest ih =>
    obtain ⟨q, hrouted, hq, hcrosses, hdestination, hpart⟩ :=
      Relay.onward_data hraw hdata (hopen r List.mem_cons_self) hpass
    have hhash : q.getTruncatedHash hash = p.getTruncatedHash hash := congrArg (truncatedHash hash) hpart
    have hrest := ih hq hcrosses fun r hr => by rw [hhash, hdestination]; exact hopen r (List.mem_cons_of_mem _ hr)
    rw [hhash] at hrest
    intro r hr
    rcases List.mem_cons.mp hr with rfl | hr
    · exact hrouted
    · exact hrest r hr

/-! ## The proof -/

variable {P : ReturningProof} {h c : UInt8} {e : ReverseEntry}

/-- The node knows nothing else by the hash of the packet. -/
structure OnlyReturns (packetHash : Address) (s : TransportState) : Prop where
  noPath : getPath s packetHash = none
  noLink : packetHash ∉ s.linkTable

/-- A proof is passed back on the interface that the packet came in on, if it comes in on the one that the packet went
out on. -/
theorem process_proof (hreceipts : ReceiptsSpare env) (htransport : env.transportEnabled = true) {a : Arrived}
    (hpacket : a.packet = { P.packet h with hops := c }) (honly : OnlyReturns P.packetHash s)
    (he : s.reverseTable.lookup P.packetHash = some e) :
    (process env a s).2.wire
      = if a.receivingInterface.id = e.outboundInterface.id ∧ e.receivingInterface.ifacIdentity = false then
          (e.receivingInterface, P.raw c) :: s.wire
        else s.wire := by
  have hregular : RegularProof a.packet := by
    rw [hpacket]
    exact ⟨P.isProof, P.ordinary.1, P.ordinary.2.1⟩
  have hsingle : a.packet.destinationType = .single := by
    rw [hpacket]
    exact P.toSingle
  have hcache : a.packet.context ≠ ContextType.cacheRequest := by
    rw [hpacket]
    exact P.ordinary.2.2
  have hhash : a.packet.destinationHash = P.packetHash := by rw [hpacket]; rfl
  have hid : a.packet.transportId = none := by rw [hpacket]; rfl
  have hremember := rememberHash_reverseTable env a.packet s
  obtain ⟨hwire, htable, -, hpaths⟩ := rememberHash_same env a.packet s
  rw [process_eq (by rw [hsingle]; decide)]
  set u := rememberHash env a.packet s
  have hlocal : (clientFlags u a).forLocalClient = false := by
    unfold clientFlags
    simp [hhash, hpaths, honly.noPath]
  have hforward : forwardNextHop env a u = (.value (), u) := by
    unfold forwardNextHop
    rw [Prog.get_bind_run, show nextHopPath u a = none from if_neg (by simp [hid])]
    rfl
  have htransported : transportHandling env (clientFlags u a) a u = (.value a, u) := by
    unfold transportHandling transports
    rw [htransport, Bool.true_or, Bool.true_or, Bool.true_or, if_pos rfl,
      show regenerateTransportId (clientFlags u a) a = a from if_neg (by simp [hlocal])]
    rw [Prog.bind_value (answerCacheRequest_other hcache u), Prog.bind_value hforward,
      Prog.bind_value (linkTransport_other (by rw [hhash, htable]; exact honly.noLink))]
    rfl
  have hreturn : returnEntry env (clientFlags u a) a u
      = if a.receivingInterface.id = e.outboundInterface.id then some e else none := by
    unfold returnEntry
    rw [htransport, Bool.true_or, Bool.true_or, if_pos rfl, hhash, hremember, he, Option.filter_some]
    simp only [decide_eq_true_eq]
  have hconcludes := fun v => (concludeReceipts_sameLinks hreceipts a v).1
  rw [Prog.bind_value htransported, localHandling_of_regularProof hregular, transportProof_bind_run, hconcludes,
    hreturn]
  by_cases hside : a.receivingInterface.id = e.outboundInterface.id
  · rw [if_pos hside]
    show (transmitOn env [e.receivingInterface] (hopRaw a.packet) u).2.wire = _
    rw [transmitOn_one, hpacket, P.hopRaw_packet]
    split
    case isTrue hsends => rw [if_pos ⟨hside, hsends⟩, ← hwire]
    case isFalse hsigns => rw [if_neg fun h => hsigns h.2, hwire]
  · rw [if_neg hside, if_neg fun h => hside h.1]
    exact hwire

namespace Relay

/-- A node that can take a proof. -/
structure Returns (P : ReturningProof) (r : Relay) : Prop where
  running : r.state.jobsRunning = false
  identity : r.state.identity.isSome
  transport : r.env.transportEnabled = true
  farPeers : leadsToPeers r.state r.far = true
  sends : r.near.ifacIdentity = false
  accepts : ∀ h hops, acceptsPacket r.env r.state { P.packet h with hops } = true
  only : OnlyReturns P.packetHash r.state
  receipts : ReceiptsSpare r.env

/-- The node has its entry for a packet as it was noted; anything else may have changed. -/
structure Keeps (packetHash : Address) (r r' : Relay) : Prop where
  near : r'.near = r.near
  far : r'.far = r.far
  entry : ∀ e, r.state.reverseTable.lookup packetHash = some e → ∃ e', r'.state.reverseTable.lookup packetHash = some e'
    ∧ e'.receivingInterface = e.receivingInterface ∧ e'.outboundInterface = e.outboundInterface

theorem Routed.keeps {r r' : Relay} {packetHash : Address} (h : r.Routed packetHash) (hkeeps : Keeps packetHash r r') :
    r'.Routed packetHash := by
  obtain ⟨e, he, hnear, hfar⟩ := h
  obtain ⟨e', he', hnear', hfar'⟩ := hkeeps.entry e he
  exact ⟨e', he', by rw [hnear', hnear, hkeeps.near], by rw [hfar', hfar, hkeeps.far]⟩

/-- What is on the wire behind a proof. -/
theorem hears_proof {r : Relay} (hreturns : r.Returns P) (he : r.state.reverseTable.lookup P.packetHash = some e)
    (i : Interface) :
    (r.hears i (P.raw h)).state.wire
      = if i.id = e.outboundInterface.id ∧ e.receivingInterface.ifacIdentity = false then
          (e.receivingInterface, P.raw (arrivalHops r.state i h)) :: r.state.wire
        else r.state.wire := by
  obtain ⟨n, hidentity⟩ := Option.isSome_iff_exists.mp hreturns.identity
  have hpacket : (arrivedAt n r.state i (P.packet h)).packet
      = { P.packet h with hops := arrivalHops r.state i h } := rfl
  obtain ⟨locked, hstate⟩ := inbound_process (i := i) hreturns.running hidentity (P.unpack_raw h)
    (by rw [hpacket]; exact hreturns.accepts h _)
  have hprocess := process_proof (s := setJobsLocked true r.state) hreturns.receipts hreturns.transport hpacket
    ⟨hreturns.only.noPath, hreturns.only.noLink⟩ he
  show (inbound r.env (P.raw h) (some i) r.state).2.wire = _
  rw [hstate]
  exact hprocess

/-- A proof that comes in on the far side goes out on the near side. -/
theorem backward_proof {r : Relay} (hreturns : r.Returns P) (hrouted : r.Routed P.packetHash) (h : UInt8) :
    (r.backward (P.raw h)).2 = some (P.raw (h + 1)) := by
  obtain ⟨e, he, hnear, hfar⟩ := hrouted
  have hhops : arrivalHops r.state r.far h = h + 1 := by rw [arrivalHops_eq, hreturns.farPeers, if_pos rfl]
  have hwire := hears_proof (h := h) hreturns he r.far
  rw [hnear, hhops, if_pos ⟨hfar.symm, hreturns.sends⟩] at hwire
  show handed r.near r.state (r.hears r.far (P.raw h)).state = _
  rw [handed_cons hwire, if_pos rfl]

/-- A proof that comes in on the near side goes nowhere, unless it is the far side as well. -/
theorem onward_proof {r : Relay} (hreturns : r.Returns P) (hrouted : r.Routed P.packetHash)
    (hsides : r.near.id ≠ r.far.id) (h : UInt8) : (r.onward (P.raw h)).2 = none := by
  obtain ⟨e, he, -, hfar⟩ := hrouted
  have hwire := hears_proof (h := h) hreturns he r.near
  rw [hfar, if_neg fun hboth => hsides hboth.1] at hwire
  exact handed_self _ hwire

end Relay

/-! ## The line -/

/-- After a packet has crossed a line of nodes, and as long as they keep their entries for it, its proof comes back all
the way, whatever its hop count. Where it is heard from the wrong side it is not passed on. -/
theorem proofs_come_back (hash : Bytes → Hash) (nodes : List Relay) (raw : Bytes) (sent : Packet)
    (hraw : unpack raw = some sent) (hdata : CrossingData sent)
    (hopen : ∀ r ∈ nodes, r.Unaware hash (sent.getTruncatedHash hash) sent.destinationHash) (out : Bytes)
    (hcrossed : (carry Relay.onward nodes raw).2 = some out) (nodes' : List Relay)
    (hkept : List.Forall₂ (Relay.Keeps (sent.getTruncatedHash hash)) (carry Relay.onward nodes raw).1 nodes')
    (P : ReturningProof) (hP : P.packetHash = sent.getTruncatedHash hash) (hreturns : ∀ r ∈ nodes', r.Returns P)
    (hops : UInt8) :
    (carry Relay.backward nodes'.reverse (P.raw hops)).2 = some (P.raw (hops + UInt8.ofNat nodes.length))
      ∧ ∀ r ∈ nodes', r.near.id ≠ r.far.id → (r.onward (P.raw hops)).2 = none := by
  have hcarried := carried_of_carry hcrossed
  have hrouted : ∀ r ∈ nodes', r.Routed P.packetHash := by
    intro r hr
    obtain ⟨j, hj, rfl⟩ := List.getElem_of_mem hr
    have hj' : j < (carry Relay.onward nodes raw).1.length := by rw [hkept.length_eq]; exact hj
    rw [hP]
    exact (carried_data hcarried hraw hdata hopen _ (List.getElem_mem hj')).keeps (hkept.get hj' hj)
  have hlength : nodes.length = nodes'.reverse.length := by
    rw [List.length_reverse, ← hkept.length_eq, hcarried.length]
  refine ⟨?_, fun r hr hsides => Relay.onward_proof (hreturns r hr) (hrouted r hr) hsides hops⟩
  have hpass : ∀ r ∈ nodes'.reverse, ∀ k : ℕ, (r.backward (P.raw (hops + UInt8.ofNat k))).2
      = some (P.raw (hops + UInt8.ofNat (k + 1))) := by
    intro r hr k
    have hr' := List.mem_reverse.mp hr
    rw [Relay.backward_proof (hreturns r hr') (hrouted r hr'), hops_add_one]
  have hback := carry_of_forall (fun k => P.raw (hops + UInt8.ofNat k)) hpass
  have hstart : hops + UInt8.ofNat 0 = hops := UInt8.add_zero hops
  rw [hstart] at hback
  rw [hlength, hback]

namespace Sample

/-- The proof of `passedPacket`. -/
def passedProof : ReturningProof where
  flags := 3
  packetHash := .fill 7
  context := ContextType.none
  data := [1]
  isHeader1 := by decide
  toSingle := by decide
  isProof := by decide
  ordinary := by decide

/-- The two nodes behind the packet. -/
def passed (hops : UInt8) : List Relay := (carry Relay.onward (twoNodes hops) passedPacket).1

theorem passedPacket_unpack : unpack passedPacket = some (ofLayout 0x50 0 (some (.fill 9)) (.fill 3) 0 [7]) :=
  unpack_layout (by unfold Addressed; decide)

theorem twoNodes_unaware (hops : UInt8) :
    ∀ r ∈ twoNodes hops, r.Unaware lastByte passedProof.packetHash (.fill 3) := by
  intro r hr
  rcases List.mem_cons.mp hr with rfl | hr
  · exact ⟨rfl, List.not_mem_nil, List.not_mem_nil, List.not_mem_nil⟩
  · cases List.mem_singleton.mp hr
    exact ⟨rfl, List.not_mem_nil, List.not_mem_nil, List.not_mem_nil⟩

/-- What makes a node behind the packet take the proof. -/
def takesProof (r : Relay) : Bool :=
  !r.state.jobsRunning && r.state.identity.isSome && leadsToPeers r.state r.far && !r.near.ifacIdentity
    && (passedProof.packet 0).getHash lastByte ∉ r.state.packetHashlist
    && (getPath r.state passedProof.packetHash).isNone && passedProof.packetHash ∉ r.state.linkTable

theorem returns_of_takesProof {r : Relay} (henv : r.env = routing) (h : takesProof r = true) :
    r.Returns passedProof := by
  unfold takesProof at h
  simp only [Bool.and_eq_true, Bool.not_eq_true', decide_eq_true_eq, Option.isNone_iff_eq_none] at h
  obtain ⟨⟨⟨⟨⟨⟨hrunning, hidentity⟩, hfar⟩, hsends⟩, hfresh⟩, hpath⟩, hlink⟩ := h
  have hfresh' : (passedProof.packet 0).getHash r.env.fullHash ∉ r.state.packetHashlist := by
    rw [henv]
    exact hfresh
  exact {
    running := hrunning
    identity := hidentity
    transport := by rw [henv]; rfl
    farPeers := hfar
    sends := hsends
    accepts := fun h hops => accepts_fresh (by rw [henv]; exact fun _ => rfl) (by rw [henv]; rfl) rfl
      (passedProof.toSingle.trans_ne (by decide)) (passedProof.toSingle.trans_ne (by decide))
      (by rw [passedProof.getHash_packet]; exact hfresh')
    only := ⟨hpath, hlink⟩
    receipts := by rw [henv]; exact fun _ _ _ _ => ⟨rfl, rfl⟩ }

theorem passed_returns {hops : UInt8} (h : ∀ r ∈ passed hops, takesProof r = true) :
    ∀ r ∈ passed hops, r.Returns passedProof :=
  fun r hr => returns_of_takesProof (crossed_env _ _ (twoNodes_env hops) r hr) (h r hr)

theorem keeps_refl (packetHash : Address) (nodes : List Relay) :
    List.Forall₂ (Relay.Keeps packetHash) nodes nodes :=
  List.forall₂_same.mpr fun _ _ => ⟨rfl, rfl, fun e he => ⟨e, he, rfl, rfl⟩⟩

end Sample

/-- Behind two nodes the proof comes back, also where the path of the first one is a hop too long. -/
theorem proofs_come_back_over_two :
    (carry Relay.backward (Sample.passed 2).reverse (Sample.passedProof.raw 0)).2 = some (Sample.passedProof.raw 2)
      ∧ (carry Relay.backward (Sample.passed 3).reverse (Sample.passedProof.raw 0)).2
        = some (Sample.passedProof.raw 2)
      ∧ ∀ r ∈ Sample.passed 2, (r.onward (Sample.passedProof.raw 0)).2 = none := by
  have hcomes := fun hops hcrossed htakes => proofs_come_back Sample.lastByte (Sample.twoNodes hops)
    Sample.passedPacket _ Sample.passedPacket_unpack ⟨by decide, by decide, by decide⟩ (Sample.twoNodes_unaware hops)
    ((carry Relay.onward (Sample.twoNodes hops) Sample.passedPacket).2.getD []) hcrossed (Sample.passed hops)
    (Sample.keeps_refl _ _) Sample.passedProof rfl (Sample.passed_returns htakes) 0
  obtain ⟨hback, honward⟩ := hcomes 2 (by decide +kernel) (by decide +kernel)
  obtain ⟨hback', -⟩ := hcomes 3 (by decide +kernel) (by decide +kernel)
  have hsides : ∀ r ∈ Sample.passed 2, r.near.id ≠ r.far.id := by decide +kernel
  exact ⟨hback, hback', fun r hr => honward r hr (hsides r hr)⟩

end MicroReticulum.Transport
