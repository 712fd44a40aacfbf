import MicroReticulum.Transport.ProofLine

/-!
# Proofs that are passed back again and again

The entry of a packet that was passed on stays in the reverse table when a proof has gone back along it, and nothing is
checked of a proof but the interface it comes in on. The packet filter keeps copies of a packet out, but it lets those
of some contexts through every time. A proof in such a context is passed back as often as it comes in, and so is one
with anything else in it: `proofs_routed_again` says so of every packet that was passed on, in every run.

The counters are 32 bits wide, as in the source. Nothing is said of what the other end does with the proofs, nor of an
entry that has been culled: along that one nothing is passed back.
-/

namespace MicroReticulum.Transport

open MicroReticulum Packet Link Library Announce

variable {env : Environment} {s t : TransportState} {P : ReturningProof} {h : UInt8} {e : ReverseEntry} {i : Interface}

/-! ## A proof that is no duplicate -/

/-- The contexts of a proof on its way back whose copies the packet filter lets through. -/
def exemptContexts : List ContextType :=
  [ContextType.keepalive, ContextType.resourceReq, ContextType.resource, ContextType.channel]

theorem packetFilter_exempt {p : Packet} (htransport : p.transportId = none) (hcontext : p.context ∈ exemptContexts) :
    packetFilter env s p = true := by
  have hlisted : p.context ∈ [ContextType.keepalive, ContextType.resourceReq, ContextType.resourcePrf,
      ContextType.resource, ContextType.cacheRequest, ContextType.channel] := by
    unfold exemptContexts at hcontext
    simp only [List.mem_cons, List.not_mem_nil, or_false] at hcontext ⊢
    tauto
  unfold packetFilter
  rw [htransport]
  split
  · rfl
  · simp

theorem acceptsPacket_exempt (hfilter : ∀ p, env.filterPacket p ≠ .ok false) {p : Packet}
    (htransport : p.transportId = none) (hcontext : p.context ∈ exemptContexts) : acceptsPacket env s p = true := by
  unfold acceptsPacket
  rw [packetFilter_exempt htransport hcontext, Bool.and_true]
  have haccepted := hfilter p
  split
  case h_1 accept hrun =>
    cases accept with
    | true => rfl
    | false => exact absurd hrun haccepted
  case h_2 => rfl

/-- Transport handling comes to an end with every proof, and leaves its addressee and its interface as they are. -/
theorem transportHandling_proof {a : Arrived} (hproof : a.packet.packetType = .proof)
    (hcache : a.packet.context ≠ ContextType.cacheRequest) (flags : ClientFlags) (s : TransportState) :
    ∃ transportId t, transportHandling env flags a s
      = (.value { a with packet := { a.packet with transportId } }, t) := by
  unfold transportHandling
  split
  case isFalse => exact ⟨a.packet.transportId, s, rfl⟩
  case isTrue =>
    obtain ⟨transportId, hregenerated⟩ : ∃ transportId, regenerateTransportId flags a
        = { a with packet := { a.packet with transportId } } := by
      unfold regenerateTransportId
      split
      · exact ⟨some a.identity, rfl⟩
      · exact ⟨a.packet.transportId, rfl⟩
    rw [hregenerated]
    dsimp only
    set b : Arrived := { a with packet := { a.packet with transportId } } with hb
    have hforward : ∃ t, forwardNextHop env b s = (.value (), t) := by
      unfold forwardNextHop
      rw [Prog.get_bind_run]
      cases nextHopPath s b with
      | none => exact ⟨s, rfl⟩
      | some path =>
        have hraw : forwardRaw b path = .ok (nextHopRaw b.packet path.receivedFrom path.hops) := by
          unfold forwardRaw nextHopForward
          rw [if_neg (by rw [hb]; dsimp only; rw [hproof]; decide)]
        dsimp only
        rw [hraw]
        obtain ⟨_, t, hsent⟩ := transmitOn_succeeds env [path.receivingInterface]
          (nextHopRaw b.packet path.receivedFrom path.hops) (recordForward env b path s)
        exact ⟨t, hsent⟩
    obtain ⟨t, ht⟩ := hforward
    obtain ⟨_, u, hu⟩ := linkTransport_succeeds env b t
    refine ⟨transportId, u, ?_⟩
    rw [Prog.bind_value (answerCacheRequest_other (a := b) hcache s), Prog.bind_value ht, Prog.bind_value hu]
    rfl

/-- A proof in an exempt context is passed back along its entry, whatever came before. -/
theorem returning_exempt (hrunning : s.jobsRunning = false) (hidentity : s.identity.isSome)
    (htransport : env.transportEnabled = true) (hfilter : ∀ p, env.filterPacket p ≠ .ok false)
    (hexempt : P.context ∈ exemptContexts) (he : s.reverseTable.lookup P.packetHash = some e)
    (hi : i.id = e.outboundInterface.id) : returning env (P.raw h) (some i) s = some (P.packetHash, e) := by
  obtain ⟨n, hn⟩ := Option.isSome_iff_exists.mp hidentity
  set a : Arrived := { packet := { P.packet h with hops := arrivalHops s i h }, receivingInterface := i, identity := n }
    with ha
  set locked := setJobsLocked true s with hlocked
  have harrive : arrive (P.raw h) (some i) s = (.value a, locked) :=
    (arrive_run hrunning hn (P.raw h) (some i)).2.1 a (arrivedPacket_some hn (P.unpack_raw h) i)
  have haccepts : acceptsPacket env locked a.packet = true := acceptsPacket_exempt hfilter rfl hexempt
  obtain ⟨_, t, hbroadcast⟩ := @broadcastPlain_succeeds env
    (clientFlags (rememberHash env a.packet locked) a) a (rememberHash env a.packet locked)
  obtain ⟨transportId, u, htransported⟩ := @transportHandling_proof env a P.isProof P.ordinary.2.2
    (clientFlags (rememberHash env a.packet locked) a) t
  set b : Arrived := { a with packet := { a.packet with transportId } } with hb
  have huntil : untilLocal env (P.raw h) (some i) s
      = (.value (some (clientFlags (rememberHash env a.packet locked) a, b)), u) := by
    unfold untilLocal
    rw [Prog.bind_value harrive, Prog.get_bind_run, if_pos haccepts, Prog.modify_bind_run, Prog.get_bind_run,
      Prog.bind_value hbroadcast, Prog.bind_value htransported]
    rfl
  have hkept := @Passing.untilLocal env _ passing_uncounted (P.raw h) (some i) s
  rw [huntil] at hkept
  have hregular : RegularProof b.packet := ⟨P.isProof, P.ordinary.1, P.ordinary.2.1⟩
  have hentry : returnEntry env (clientFlags (rememberHash env a.packet locked) a) b u = some e := by
    unfold returnEntry
    rw [htransport, Bool.true_or, Bool.true_or, if_pos rfl, show b.packet.destinationHash = P.packetHash from rfl,
      hkept.entries _ e he, Option.filter_some, if_pos (decide_eq_true hi)]
  unfold returning
  rw [huntil]
  dsimp only
  rw [if_pos hregular, hentry]
  rfl

/-! ## One after the other -/

/-- Packets come in on an interface. -/
def Routing.arriveAll (env : Environment) (i : Interface) (arriving : List Bytes) (x : Routing) : Routing :=
  arriving.foldl (fun x raw => x.arrives env raw (some i)) x

/-- Whatever comes in on an interface, one proof at most has been passed back for a packet. -/
def Routing.ProvedOnce (env : Environment) (packetHash : Address) (x : Routing) : Prop :=
  ∀ i arriving, (x.arriveAll env i arriving).routed.count packetHash ≤ 1

/-- Whatever comes in on an interface, a neighbour has no more proofs than packets. -/
def Routing.Covered (env : Environment) (n : Address) (x : Routing) : Prop :=
  ∀ i arriving, proofsReceived n (x.arriveAll env i arriving).state ≤ packetsForwarded n (x.arriveAll env i arriving).state

/-- A node in transport that goes on receiving when a proof has been offered to its receipts. -/
structure PassesBack (env : Environment) : Prop where
  transport : env.transportEnabled = true
  filter : ∀ p, env.filterPacket p ≠ .ok false
  receipts : ∀ r p link s, Uncounted s (env.validateProofPacket r p link s).2

theorem mem_returned {n : Address} (a : Arrived) (entry : ReverseEntry) (h : n ∈ s.neighborStats) :
    n ∈ (returned env a entry s).neighborStats := by
  have hsent : n ∈ (transmitOn env [entry.receivingInterface] (hopRaw a.packet) s).2.neighborStats := by
    rw [(passing_uncounted.toHanding.transmitOn _ _ s).stats]
    exact h
  unfold returned recordNeighborProof Table.adjust
  dsimp only
  split
  · exact hsent
  · exact (AList.mem_insert _).mpr (.inr hsent)

/-- What is behind one proof in an exempt context. -/
theorem Routing.arrives_exempt (henv : PassesBack env) {x : Routing} (hrunning : x.state.jobsRunning = false)
    (hidentity : x.state.identity.isSome) (hexempt : P.context ∈ exemptContexts)
    (he : x.state.reverseTable.lookup P.packetHash = some e) (hi : i.id = e.outboundInterface.id) (h : UInt8) :
    ∃ y, x.arrives env (P.raw h) (some i) = y ∧ y.routed = P.packetHash :: x.routed
      ∧ y.state.jobsRunning = false ∧ y.state.identity.isSome ∧ y.state.reverseTable.lookup P.packetHash = some e
      ∧ (e.nextHop ∈ x.state.neighborStats → e.nextHop ∈ y.state.neighborStats
        ∧ proofsReceived e.nextHop y.state = proofsReceived e.nextHop x.state + 1
        ∧ packetsForwarded e.nextHop y.state = packetsForwarded e.nextHop x.state) := by
  have hreturns := returning_exempt (h := h) hrunning hidentity henv.transport henv.filter hexempt he hi
  obtain ⟨a, t, huntil, hentry, hrest⟩ := inbound_returning hreturns
  have hafter := hrest Uncounted passing_uncounted.toHanding (fun _ _ => .of_same rfl rfl rfl rfl) henv.receipts
  have hreturned : Uncounted t (transmitOn env [e.receivingInterface] (hopRaw a.packet) t).2 :=
    passing_uncounted.toHanding.transmitOn _ _ t
  refine ⟨_, rfl, arrives_of_some hreturns, ?_, ?_, hafter.entries _ e (returned_entries a e hentry), fun htracked => ?_⟩
  · exact hafter.running.trans (hreturned.running.trans (huntil.running.trans hrunning))
  · have hsame := hafter.identity.trans (hreturned.identity.trans huntil.identity)
    show (inbound env (P.raw h) (some i) x.state).2.identity.isSome
    rw [hsame]
    exact hidentity
  · have hstats : t.neighborStats = x.state.neighborStats := huntil.stats
    have hbehind := neighborStat_congr hafter.stats e.nextHop
    refine ⟨?_, ?_, ?_⟩
    · show e.nextHop ∈ (inbound env (P.raw h) (some i) x.state).2.neighborStats
      rw [hafter.stats]
      exact mem_returned a e (hstats ▸ htracked)
    · refine (congrArg NeighborStat.proofsReceived hbehind).trans ?_
      refine (returned_proofs a e t e.nextHop).trans ?_
      rw [if_pos ⟨rfl, hstats ▸ htracked⟩]
      exact congrArg (·.proofsReceived + 1) (neighborStat_congr hstats e.nextHop)
    · refine (congrArg NeighborStat.packetsForwarded hbehind).trans ?_
      refine (returned_packets a e t e.nextHop).trans ?_
      exact congrArg NeighborStat.packetsForwarded (neighborStat_congr hstats e.nextHop)

/-- What is behind any number of proofs in exempt contexts, each with any hop count. -/
theorem Routing.arriveAll_exempt (henv : PassesBack env) {packetHash : Address} (hi : i.id = e.outboundInterface.id)
    {proofs : List (ReturningProof × UInt8)}
    (hproofs : ∀ P ∈ proofs, P.1.packetHash = packetHash ∧ P.1.context ∈ exemptContexts) {x : Routing}
    (hrunning : x.state.jobsRunning = false) (hidentity : x.state.identity.isSome)
    (he : x.state.reverseTable.lookup packetHash = some e) :
    ∃ y, x.arriveAll env i (proofs.map fun P => P.1.raw P.2) = y
      ∧ y.routed = List.replicate proofs.length packetHash ++ x.routed
      ∧ (e.nextHop ∈ x.state.neighborStats →
        proofsReceived e.nextHop y.state = proofsReceived e.nextHop x.state + UInt32.ofNat proofs.length
          ∧ packetsForwarded e.nextHop y.state = packetsForwarded e.nextHop x.state) := by
  induction proofs generalizing x with
  | nil => exact ⟨x, rfl, rfl, fun _ => ⟨(UInt32.add_zero _).symm, rfl⟩⟩
  | cons P proofs ih =>
    obtain ⟨rfl, hexempt⟩ := hproofs P List.mem_cons_self
    obtain ⟨z, hz, hrouted, hrunning', hidentity', he', hcredit⟩ :=
      Routing.arrives_exempt henv hrunning hidentity hexempt he hi P.2
    obtain ⟨y, hy, hrouted', hcredit'⟩ := ih (fun Q hQ => hproofs Q (List.mem_cons_of_mem _ hQ)) hrunning' hidentity' he'
    refine ⟨y, ?_, ?_, fun htracked => ?_⟩
    · show Routing.arriveAll env i _ (x.arrives env (P.1.raw P.2) (some i)) = y
      rw [hz, hy]
    · rw [hrouted', hrouted, List.length_cons, List.replicate_succ', List.append_assoc]
      rfl
    · obtain ⟨htracked', hproofs', hpackets⟩ := hcredit htracked
      obtain ⟨hproofs'', hpackets'⟩ := hcredit' htracked'
      refine ⟨?_, hpackets'.trans hpackets⟩
      rw [hproofs'', hproofs', List.length_cons, UInt32.ofNat_add, UInt32.add_assoc, UInt32.add_comm 1]
      rfl

/-- A proof of a packet in the context of a keepalive, marked as in transport. -/
def ReturningProof.keepalive (packetHash : Address) : ReturningProof where
  flags := 0x13
  packetHash
  context := ContextType.keepalive
  data := []
  isHeader1 := by decide
  toSingle := by decide
  isProof := by decide
  ordinary := by decide

/-- Any number of copies of one proof are passed back. -/
theorem Routing.copies_routed (henv : PassesBack env) {packetHash : Address} {x : Routing}
    (hrunning : x.state.jobsRunning = false) (hidentity : x.state.identity.isSome)
    (he : x.state.reverseTable.lookup packetHash = some e) (copies : Nat) :
    ∃ arriving, (x.arriveAll env e.outboundInterface arriving).routed = List.replicate copies packetHash ++ x.routed
      ∧ (e.nextHop ∈ x.state.neighborStats →
        proofsReceived e.nextHop (x.arriveAll env e.outboundInterface arriving).state
            = proofsReceived e.nextHop x.state + UInt32.ofNat copies
          ∧ packetsForwarded e.nextHop (x.arriveAll env e.outboundInterface arriving).state
            = packetsForwarded e.nextHop x.state) := by
  have hcopies : ∀ P ∈ List.replicate copies (ReturningProof.keepalive packetHash, (0 : UInt8)),
      P.1.packetHash = packetHash ∧ P.1.context ∈ exemptContexts := by
    intro P hP
    rw [List.eq_of_mem_replicate hP]
    exact ⟨rfl, List.mem_cons_self⟩
  obtain ⟨y, rfl, hrouted, hcredit⟩ := Routing.arriveAll_exempt henv rfl hcopies hrunning hidentity he
  rw [List.length_replicate] at hrouted hcredit
  exact ⟨_, hrouted, hcredit⟩

/-- Of no packet that was passed on is one proof at most passed back. As long as its entry is there, every proof in an
exempt context that comes in where the packet went out, a copy of an earlier one or with anything else in it, is passed
back and credited. So a tracked neighbour can always get more proofs than packets, but for the one whose packets are at
the largest number a counter holds. -/
theorem proofs_routed_again (env : Environment) (henv : PassesBack env) (x : Routing) (hreached : x.Reached)
    (hrunning : x.state.jobsRunning = false) (hidentity : x.state.identity.isSome) (packetHash : Address)
    (e : ReverseEntry) (he : x.state.reverseTable.lookup packetHash = some e) :
    x.Filed ∧ ¬ x.ProvedOnce env packetHash
      ∧ (e.nextHop ∈ x.state.neighborStats → (packetsForwarded e.nextHop x.state).toNat + 1 < 2 ^ 32 →
        ¬ x.Covered env e.nextHop)
      ∧ ∀ i : Interface, i.id = e.outboundInterface.id → ∀ proofs : List (ReturningProof × UInt8),
        (∀ P ∈ proofs, P.1.packetHash = packetHash ∧ P.1.context ∈ exemptContexts) →
          (x.arriveAll env i (proofs.map fun P => P.1.raw P.2)).routed
              = List.replicate proofs.length packetHash ++ x.routed
            ∧ (e.nextHop ∈ x.state.neighborStats →
              proofsReceived e.nextHop (x.arriveAll env i (proofs.map fun P => P.1.raw P.2)).state
                = proofsReceived e.nextHop x.state + UInt32.ofNat proofs.length) := by
  refine ⟨hreached.filed, fun honce => ?_, fun htracked hroom hcovered => ?_, fun i hi proofs hproofs => ?_⟩
  · obtain ⟨arriving, hrouted, -⟩ := Routing.copies_routed henv hrunning hidentity he 2
    have hcount := honce e.outboundInterface arriving
    rw [hrouted, List.count_append, List.count_replicate_self] at hcount
    omega
  · -- as many copies as it takes to get past the packets
    obtain ⟨arriving, -, hcredit⟩ := Routing.copies_routed henv hrunning hidentity he
      ((packetsForwarded e.nextHop x.state).toNat + 1 - (proofsReceived e.nextHop x.state).toNat)
    obtain ⟨hproofs, hpackets⟩ := hcredit htracked
    have hbelow := hcovered e.outboundInterface []
    have hbound := hcovered e.outboundInterface arriving
    rw [hproofs, hpackets, UInt32.le_iff_toNat_le, UInt32.toNat_add, UInt32.toNat_ofNat'] at hbound
    have hstart : (proofsReceived e.nextHop x.state).toNat ≤ (packetsForwarded e.nextHop x.state).toNat := hbelow
    omega
  · obtain ⟨y, rfl, hrouted, hcredit⟩ := Routing.arriveAll_exempt henv hi hproofs hrunning hidentity he
    exact ⟨hrouted, fun htracked => (hcredit htracked).1⟩

namespace Sample

theorem routing_passesBack : PassesBack routing where
  transport := rfl
  filter _ h := absurd (Except.ok.inj h) (by decide)
  receipts _ _ _ s := .refl s

end Sample

/-- The node that has passed one packet on passes back any number of proofs for it. -/
theorem proofs_routed_again_middle :
    ¬ (Sample.proven []).ProvedOnce Sample.routing (.fill 7) ∧ ¬ (Sample.proven []).Covered Sample.routing (.fill 5) := by
  have hentry := Option.eq_some_of_isSome (o := (Sample.proven []).state.reverseTable.lookup (.fill 7)) (by decide +kernel)
  have hnext : (((Sample.proven []).state.reverseTable.lookup (.fill 7)).map ReverseEntry.nextHop) = some (.fill 5) := by
    decide +kernel
  rw [hentry] at hnext
  have hagain := proofs_routed_again Sample.routing Sample.routing_passesBack (Sample.proven []) (Sample.proven_reached [])
    (by decide +kernel) (by decide +kernel) (.fill 7) _ hentry
  rw [Option.some.inj hnext] at hagain
  exact ⟨hagain.2.1, hagain.2.2.1 (by decide +kernel) (by decide +kernel)⟩

end MicroReticulum.Transport
