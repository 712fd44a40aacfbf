import MicroReticulum.Announce.Blackhole
import MicroReticulum.Transport.Lock
import MicroReticulum.Transport.Receiving

/-!
# Proofs on their way back

A packet that a node passes on as the next hop leaves an entry in the reverse table, and a proof that comes back on
the interface the packet went out on is passed back along it. The neighbour on that side is credited with the proof;
`packetsForwarded` and `proofsReceived` are the two counts a node keeps of a neighbour.

The entry stays when it was used, and nothing is checked of the proof, so that every further proof that the packet
filter lets through is passed on and credited as well (`second_proof_routed`; that it is so of every packet is shown
behind the line of nodes, in `RepeatedProofs`). The packets that are counted are those the node sends itself, not those
it passes on. The counters wrap at 32 bits.
-/

namespace MicroReticulum.Transport

open MicroReticulum Packet Link Library Announce

variable {env : Environment} {s t u : TransportState}

/-! ## Counters -/

/-- Change every entry in place. -/
def Table.mapValues {V : Type} (f : V → V) (t : Table V) : Table V :=
  ⟨t.entries.map fun e => ⟨e.1, f e.2⟩, t.nodupKeys.map₂ fun _ => f⟩

/-- Looking up in a mapped table maps what is found. -/
theorem Table.lookup_mapValues {V : Type} (f : V → V) (t : Table V) (k : Address) :
    (t.mapValues f).lookup k = (t.lookup k).map f :=
  List.dlookup_map₂ (f := fun _ => f) k

/-- What is counted of a neighbour, nothing if it is not tracked. -/
def neighborStat (n : Address) (s : TransportState) : NeighborStat := (s.neighborStats.lookup n).getD {}

/-- `packets_forwarded` -/
def packetsForwarded (n : Address) (s : TransportState) : UInt32 := (neighborStat n s).packetsForwarded

/-- `proofs_received` -/
def proofsReceived (n : Address) (s : TransportState) : UInt32 := (neighborStat n s).proofsReceived

/-- The record of a neighbour is read from its table. -/
theorem neighborStat_congr (h : t.neighborStats = s.neighborStats) (n : Address) :
    neighborStat n t = neighborStat n s := by
  unfold neighborStat
  rw [h]

/-- Writing the record of one neighbour leaves the others as they are. -/
theorem neighborStat_insert (n k : Address) (stat : NeighborStat) (s : TransportState) :
    neighborStat n { s with neighborStats := s.neighborStats.insert k stat } = if n = k then stat else neighborStat n s := by
  unfold neighborStat
  split
  case isTrue h =>
    subst h
    rw [AList.lookup_insert, Option.getD_some]
  case isFalse h => rw [AList.lookup_insert_ne h]

/-- A packet that is sent is counted. -/
theorem neighborStat_recordNeighborPacket (now : ℚ) (n k : Address) (s : TransportState) :
    neighborStat n (recordNeighborPacket now k s)
      = if n = k then
          { neighborStat k s with packetsForwarded := packetsForwarded k s + 1, lastPacketAt := now }
        else neighborStat n s :=
  neighborStat_insert n k _ s

/-- A proof is counted if the neighbour is tracked. -/
theorem neighborStat_recordNeighborProof (now : ℚ) (n k : Address) (s : TransportState) :
    neighborStat n (recordNeighborProof now k s)
      = if n = k ∧ k ∈ s.neighborStats then
          { neighborStat k s with proofsReceived := proofsReceived k s + 1, lastProofAt := now }
        else neighborStat n s := by
  unfold recordNeighborProof Table.adjust
  cases hstat : s.neighborStats.lookup k with
  | none =>
    rw [if_neg fun h => AList.lookup_eq_none.mp hstat h.2]
  | some stat =>
    have hmem : k ∈ s.neighborStats := AList.lookup_isSome.mp (by rw [hstat]; rfl)
    have hsame : neighborStat k s = stat := by
      unfold neighborStat
      rw [hstat, Option.getD_some]
    dsimp only
    rw [neighborStat_insert]
    simp only [hmem, and_true, proofsReceived, hsame]

/-! ## What a call leaves alone -/

/-- Nothing is counted, the entries of the reverse table stay, and the node goes on receiving. -/
structure Uncounted (s t : TransportState) : Prop where
  entries : ∀ h e, s.reverseTable.lookup h = some e → t.reverseTable.lookup h = some e
  stats : t.neighborStats = s.neighborStats
  identity : t.identity = s.identity
  running : t.jobsRunning = s.jobsRunning

/-- Packets may be counted, but no proof is credited, and the entries of the reverse table stay. -/
structure Uncredited (s t : TransportState) : Prop where
  entries : ∀ h e, s.reverseTable.lookup h = some e → t.reverseTable.lookup h = some e
  proofs : ∀ n, proofsReceived n t = proofsReceived n s

theorem Uncounted.refl (s : TransportState) : Uncounted s s := ⟨fun _ _ h => h, rfl, rfl, rfl⟩

theorem Uncounted.trans (s t u : TransportState) (h : Uncounted s t) (h' : Uncounted t u) : Uncounted s u where
  entries k e he := h'.entries k e (h.entries k e he)
  stats := h'.stats.trans h.stats
  identity := h'.identity.trans h.identity
  running := h'.running.trans h.running

theorem Uncounted.of_same (hentries : t.reverseTable = s.reverseTable) (hstats : t.neighborStats = s.neighborStats)
    (hidentity : t.identity = s.identity) (hrunning : t.jobsRunning = s.jobsRunning) : Uncounted s t :=
  ⟨fun _ _ he => hentries ▸ he, hstats, hidentity, hrunning⟩

/-- Where nothing is counted no proof is credited. -/
theorem Uncounted.uncredited (h : Uncounted s t) : Uncredited s t where
  entries := h.entries
  proofs n := congrArg NeighborStat.proofsReceived (neighborStat_congr h.stats n)

theorem Uncredited.refl (s : TransportState) : Uncredited s s := (Uncounted.refl s).uncredited

theorem Uncredited.of_same (hentries : t.reverseTable = s.reverseTable) (hstats : t.neighborStats = s.neighborStats) :
    Uncredited s t :=
  ⟨fun _ _ he => hentries ▸ he, fun n => congrArg NeighborStat.proofsReceived (neighborStat_congr hstats n)⟩

theorem Uncredited.trans (s t u : TransportState) (h : Uncredited s t) (h' : Uncredited t u) : Uncredited s u where
  entries k e he := h'.entries k e (h.entries k e he)
  proofs n := (h'.proofs n).trans (h.proofs n)

/-- What is recorded of a forwarded packet counts no proof, and forgets no reverse entry. -/
theorem recordForward_uncounted (env : Environment) (a : Arrived) (entry : DestinationEntry) (s : TransportState) :
    Uncounted s (recordForward env a entry s) := by
  unfold recordForward
  split
  · exact .of_same rfl rfl rfl rfl
  · refine ⟨fun h e he => ?_, rfl, rfl, rfl⟩
    have hmem : h ∈ s.reverseTable := AList.lookup_isSome.mp (by rw [he]; rfl)
    unfold Table.emplace
    dsimp only
    split
    · exact he
    · rename_i hnew
      have hother : h ≠ a.packet.getTruncatedHash env.fullHash := by
        rintro rfl
        exact hnew hmem
      rw [AList.lookup_insert_ne hother]
      exact he

/-- Passing a packet on counts no proof until the branch for proofs. -/
theorem passing_uncounted : Passing Uncounted where
  refl := Uncounted.refl
  trans := Uncounted.trans
  lock _ _ := .of_same rfl rfl rfl rfl
  hash _ _ := .of_same rfl rfl rfl rfl
  wire _ _ _ := .of_same rfl rfl rfl rfl
  forward := recordForward_uncounted
  link _ _ _ := .of_same rfl rfl rfl rfl

/-- A packet from a neighbour counts as one forwarded, not as a proof. -/
theorem recordNeighborPacket_uncredited (now : ℚ) (k : Address) (s : TransportState) :
    Uncredited s (recordNeighborPacket now k s) := by
  refine ⟨fun _ _ he => he, fun n => ?_⟩
  unfold proofsReceived
  rw [neighborStat_recordNeighborPacket]
  split
  case isTrue h => rw [h]
  case isFalse => rfl

/-- The state of a path has nothing to do with the counts. -/
theorem markPath_uncounted (state : PathState) (d : Address) (s : TransportState) :
    Uncounted s (markPath state d s) := by
  unfold markPath
  split
  · exact .of_same rfl rfl rfl rfl
  · exact .refl s

/-- Of the branches of `inbound` only the one for proofs credits one. -/
theorem receiving_uncredited : Receiving Uncredited where
  refl := Uncredited.refl
  trans := Uncredited.trans
  lock _ _ := .of_same rfl rfl
  hash _ _ := .of_same rfl rfl
  wire _ _ _ := .of_same rfl rfl
  allowedAt _ _ _ := .of_same rfl rfl
  queue _ _ _ _ := .of_same rfl rfl
  count := recordNeighborPacket_uncredited
  receipt _ _ _ := .of_same rfl rfl
  forward env a entry s := (recordForward_uncounted env a entry s).uncredited
  link _ _ _ := .of_same rfl rfl
  hashes _ _ := .of_same rfl rfl
  known _ _ := .of_same rfl rfl
  mark state d s := (markPath_uncounted state d s).uncredited
  waiting _ _ := .of_same rfl rfl
  rates _ _ := .of_same rfl rfl
  pending _ _ := .of_same rfl rfl
  path _ _ _ := .of_same rfl rfl
  conclude _ _ := .of_same rfl rfl

/-! ## The proof that is passed back -/

/-- The entry along which `transportProof` passes a proof back. -/
def returnEntry (env : Environment) (flags : ClientFlags) (a : Arrived) (s : TransportState) : Option ReverseEntry :=
  (if env.transportEnabled || flags.fromLocalClient || flags.proofForLocalClient then
    s.reverseTable.lookup a.packet.destinationHash
  else none).filter fun entry => a.receivingInterface.id = entry.outboundInterface.id

/-- The state behind a proof that was passed back along an entry. -/
def returned (env : Environment) (a : Arrived) (entry : ReverseEntry) (s : TransportState) : TransportState :=
  recordNeighborProof env.now entry.nextHop (transmitOn env [entry.receivingInterface] (hopRaw a.packet) s).2

/-- The branch for proofs sends a proof back where the reverse table says, and otherwise does nothing. -/
theorem transportProof_run (flags : ClientFlags) (a : Arrived) (s : TransportState) :
    transportProof env flags a s
      = (.value (), match returnEntry env flags a s with
          | none => s
          | some entry => returned env a entry s) := by
  unfold transportProof returnEntry
  rw [Prog.get_bind_run]
  generalize (if env.transportEnabled || flags.fromLocalClient || flags.proofForLocalClient then
    s.reverseTable.lookup a.packet.destinationHash else none) = found
  cases found with
  | none => rfl
  | some entry =>
    dsimp only
    by_cases hinterface : a.receivingInterface.id = entry.outboundInterface.id
    case neg =>
      rw [Prog.when_of_not hinterface, Option.filter_some, if_neg (by simpa using hinterface)]
      rfl
    case pos =>
      rw [Prog.when_of hinterface, Option.filter_some, if_pos (by simpa using hinterface)]
      obtain ⟨_, v, hrun⟩ := transmitOn_succeeds env [entry.receivingInterface] (hopRaw a.packet) s
      rw [Prog.bind_value hrun]
      unfold returned
      dsimp only
      rw [hrun]
      rfl

/-- The proof that a call of `inbound` passes back: the packet it is for, and its entry. -/
def returning (env : Environment) (raw : Bytes) (interface : Option Interface) (s : TransportState) :
    Option (Address × ReverseEntry) :=
  match untilLocal env raw interface s with
  | (.value (some (flags, a)), t) =>
    if RegularProof a.packet then (returnEntry env flags a t).map fun entry => (a.packet.destinationHash, entry)
    else none
  | _ => none

/-- A packet that goes back gets through the part of `inbound` before the branches, and is found in the reverse table
there. -/
theorem returning_eq_some {raw : Bytes} {interface : Option Interface} {h : Address} {entry : ReverseEntry}
    (hreturns : returning env raw interface s = some (h, entry)) :
    ∃ flags a t, untilLocal env raw interface s = (.value (some (flags, a)), t) ∧ RegularProof a.packet
      ∧ a.packet.destinationHash = h ∧ returnEntry env flags a t = some entry := by
  unfold returning at hreturns
  split at hreturns
  case h_2 => cases hreturns
  case h_1 flags a t hrun =>
    split at hreturns
    case isFalse => cases hreturns
    case isTrue hproof =>
      obtain ⟨entry', hentry, hsame⟩ := Option.map_eq_some_iff.mp hreturns
      cases hsame
      exact ⟨flags, a, t, hrun, hproof, rfl, hentry⟩

/-- The entry a proof goes back by is the one of the packet it proves. -/
theorem lookup_of_returnEntry {flags : ClientFlags} {a : Arrived} {entry : ReverseEntry}
    (h : returnEntry env flags a s = some entry) : s.reverseTable.lookup a.packet.destinationHash = some entry := by
  unfold returnEntry at h
  have hfound := (Option.filter_eq_some_iff.mp h).1
  split at hfound
  · exact hfound
  · cases hfound

/-- What follows the branch for proofs starts in the state it leaves. -/
theorem transportProof_bind_run {α : Type} (flags : ClientFlags) (a : Arrived) (m : Prog String TransportState α)
    (s : TransportState) : (transportProof env flags a >>= fun _ => m) s
      = m (match returnEntry env flags a s with
          | none => s
          | some entry => returned env a entry s) :=
  Prog.bind_value (transportProof_run flags a s)

/-- A call that passes no proof back credits nobody. -/
theorem inbound_uncredited (henv : HandlersKeep Uncredited env) {raw : Bytes} {interface : Option Interface}
    (hreturns : returning env raw interface s = none) : Uncredited s (inbound env raw interface s).2 := by
  have huntil := (@Passing.untilLocal env _ passing_uncounted raw interface s).uncredited
  rw [inbound_state, Prog.bind_run]
  unfold returning at hreturns
  rcases hrun : untilLocal env raw interface s with ⟨arrived | _ | _ | _, t⟩ <;> rw [hrun] at hreturns huntil
  case value =>
    apply Uncredited.trans _ _ _ huntil
    rcases arrived with _ | ⟨flags, a⟩
    · exact .of_same rfl rfl
    · apply receiving_uncredited.toHanding.fromLocal
      by_cases hproof : RegularProof a.packet
      case neg => exact receiving_uncredited.localHandling henv flags a hproof t
      case pos =>
        dsimp only at hreturns
        rw [if_pos hproof, Option.map_eq_none_iff] at hreturns
        rw [localHandling_of_regularProof hproof, transportProof_bind_run, hreturns]
        exact receiving_uncredited.concludeReceipts henv a t
  all_goals exact huntil

/-- A call that passes a proof back credits the neighbour of its entry, and nobody else. -/
theorem inbound_returning {raw : Bytes} {interface : Option Interface} {h : Address} {entry : ReverseEntry}
    (hreturns : returning env raw interface s = some (h, entry)) :
    ∃ a t, Uncounted s t ∧ t.reverseTable.lookup h = some entry
      ∧ ∀ R, Handing R → (∀ keep s, R s { s with receipts := s.receipts.filter keep }) →
        (∀ r p link s, R s (env.validateProofPacket r p link s).2) →
          R (returned env a entry t) (inbound env raw interface s).2 := by
  obtain ⟨flags, a, t, hrun, hproof, rfl, hentry⟩ := returning_eq_some hreturns
  have huntil := @Passing.untilLocal env _ passing_uncounted raw interface s
  rw [hrun] at huntil
  refine ⟨a, t, huntil, lookup_of_returnEntry hentry, fun R hhanding hconclude hvalidate => ?_⟩
  rw [inbound_state, Prog.bind_value hrun]
  apply hhanding.fromLocal
  rw [localHandling_of_regularProof hproof, transportProof_bind_run, hentry]
  exact concludeReceipts_keeps hhanding hconclude hvalidate a _

/-- Passing a proof back removes no entry from the reverse table. So a second copy finds it again. -/
theorem returned_entries {h : Address} {e : ReverseEntry} (a : Arrived) (entry : ReverseEntry)
    (he : s.reverseTable.lookup h = some e) : (returned env a entry s).reverseTable.lookup h = some e :=
  (passing_uncounted.transmitOn _ _ s).entries h e he

/-- Passing a proof back counts no packet as forwarded. -/
theorem returned_packets (a : Arrived) (entry : ReverseEntry) (s : TransportState) (n : Address) :
    packetsForwarded n (returned env a entry s) = packetsForwarded n s := by
  have hstats := (@Handing.transmitOn env _ passing_uncounted.toHanding [entry.receivingInterface] (hopRaw a.packet) s).stats
  unfold returned packetsForwarded
  rw [neighborStat_recordNeighborProof, ← neighborStat_congr hstats n]
  split
  case isTrue h => rw [h.1]
  case isFalse => rfl

/-- Passing a proof back credits the neighbour it came from, if there is a record of it. -/
theorem returned_proofs (a : Arrived) (entry : ReverseEntry) (s : TransportState) (n : Address) :
    proofsReceived n (returned env a entry s)
      = if n = entry.nextHop ∧ n ∈ s.neighborStats then proofsReceived n s + 1 else proofsReceived n s := by
  have hstats := (@Handing.transmitOn env _ passing_uncounted.toHanding [entry.receivingInterface] (hopRaw a.packet) s).stats
  unfold returned
  unfold proofsReceived
  rw [neighborStat_recordNeighborProof, ← neighborStat_congr hstats n, hstats]
  by_cases hn : n = entry.nextHop
  · subst hn
    by_cases htracked : entry.nextHop ∈ s.neighborStats
    · rw [if_pos ⟨rfl, htracked⟩, if_pos ⟨rfl, htracked⟩]
      rfl
    · rw [if_neg fun h => htracked h.2, if_neg fun h => htracked h.2]
  · rw [if_neg fun h => hn h.1, if_neg fun h => hn h.1]

/-! ## Runs -/

/-- `Type::Transport::REVERSE_TIMEOUT` -/
def reverseTimeout : ℚ := 8 * 60

/-- The cull of the reverse table in `Transport::jobs`, with `remove_reverse_entries`. -/
def cullReverseTable (now : ℚ) (s : TransportState) : TransportState :=
  { s with reverseTable := s.reverseTable.eraseAll <|
      s.reverseTable.keysWhere fun _ entry => entry.timestamp + reverseTimeout < now }

/-- A node, with the packets for which it has passed a proof back along an entry that it still has, once for each
proof. -/
structure Routing where
  state : TransportState
  routed : List Address

/-- A packet comes in. -/
def Routing.arrives (env : Environment) (raw : Bytes) (interface : Option Interface) (x : Routing) : Routing where
  state := (inbound env raw interface x.state).2
  routed := ((returning env raw interface x.state).map Prod.fst).toList ++ x.routed

/-- Entries of the reverse table go. -/
def Routing.culls (now : ℚ) (x : Routing) : Routing where
  state := cullReverseTable now x.state
  routed := x.routed.filter (· ∈ (cullReverseTable now x.state).reverseTable)

/-- `Type::Transport::NEIGHBOR_SUSPICION_WINDOW` -/
def neighborSuspicionWindow : ℚ := 300

/-- What `_scan_neighbor_stats` does to the counters of a neighbour before it looks at them. -/
def NeighborStat.resetIdle (now : ℚ) (stat : NeighborStat) : NeighborStat :=
  if 2 * neighborSuspicionWindow < now - stat.lastPacketAt ∧ (stat.packetsForwarded ≠ 0 ∨ stat.proofsReceived ≠ 0) then
    { stat with packetsForwarded := 0, proofsReceived := 0 }
  else stat

/-- What `_neighbor_probe_delivered` does to the statistics of a neighbour. -/
def NeighborStat.probeDelivered (stat : NeighborStat) : NeighborStat :=
  { stat with probePending := false, pendingProbeHash := none, packetsForwarded := 0, proofsReceived := 0 }

/-- The start of a scan of the statistics. -/
def resetIdleNeighbors (now : ℚ) (s : TransportState) : TransportState :=
  { s with neighborStats := s.neighborStats.mapValues (NeighborStat.resetIdle now) }

/-- The end of a probe that was delivered, as far as the statistics go. -/
def resetDelivered (n : Address) (s : TransportState) : TransportState :=
  { s with neighborStats := s.neighborStats.adjust n NeighborStat.probeDelivered }

/-- A path is removed, and with it what is counted of a neighbour of that hash. -/
def forgetNeighbor (n : Address) (s : TransportState) : TransportState :=
  { s with neighborStats := s.neighborStats.erase n }

/-- The states of a node that starts without entries and counters. The settings and the handlers may differ from step to
step; what else happens passes no proof back. -/
inductive Routing.Reached : Routing → Prop
  | start (s : TransportState) (hentries : s.reverseTable = ∅) (hstats : s.neighborStats = ∅) : Reached ⟨s, []⟩
  | arrives {x : Routing} (h : x.Reached) {env : Environment} (henv : HandlersKeep Uncredited env) (raw : Bytes)
      (interface : Option Interface) : Reached (x.arrives env raw interface)
  | sends {x : Routing} (h : x.Reached) (env : Environment) (p : OutgoingPacket) :
      Reached ⟨(outbound env p x.state).2, x.routed⟩
  | culls {x : Routing} (h : x.Reached) (now : ℚ) : Reached (x.culls now)
  | idles {x : Routing} (h : x.Reached) (now : ℚ) : Reached ⟨resetIdleNeighbors now x.state, x.routed⟩
  | delivered {x : Routing} (h : x.Reached) (n : Address) : Reached ⟨resetDelivered n x.state, x.routed⟩
  | forgets {x : Routing} (h : x.Reached) (n : Address) : Reached ⟨forgetNeighbor n x.state, x.routed⟩
  | other {x : Routing} (h : x.Reached) {t : TransportState} (hsame : Uncredited x.state t) : Reached ⟨t, x.routed⟩

/-- A proof was passed back once along each entry, and no neighbour has more proofs than packets. -/
structure Routing.Sound (x : Routing) : Prop where
  once : x.routed.Nodup
  covered : ∀ n, proofsReceived n x.state ≤ packetsForwarded n x.state

/-- Every proof was passed back along an entry that is still there. -/
def Routing.Filed (x : Routing) : Prop := ∀ h ∈ x.routed, h ∈ x.state.reverseTable

namespace Routing

variable {x : Routing} {raw : Bytes} {interface : Option Interface}

/-- A packet that does not go back is not noted. -/
theorem arrives_of_none (h : returning env raw interface x.state = none) :
    (x.arrives env raw interface).routed = x.routed := by
  unfold arrives
  rw [h]
  rfl

/-- A packet that goes back is noted under the hash it proves. -/
theorem arrives_of_some {h : Address} {entry : ReverseEntry}
    (hreturns : returning env raw interface x.state = some (h, entry)) :
    (x.arrives env raw interface).routed = h :: x.routed := by
  unfold arrives
  rw [hreturns]
  rfl

/-- While no entry is removed the proofs that were passed back stay filed. -/
theorem filed_of_entries {routed : List Address}
    (h : ∀ k e, s.reverseTable.lookup k = some e → t.reverseTable.lookup k = some e) (hfiled : Filed ⟨s, routed⟩) :
    Filed ⟨t, routed⟩ := by
  intro k hk
  obtain ⟨e, he⟩ := Option.isSome_iff_exists.mp (AList.lookup_isSome.mpr (hfiled k hk))
  exact AList.lookup_isSome.mp (by rw [h k e he]; rfl)

/-- An arrival keeps the proofs that were passed back filed, and files the one that goes back now. -/
theorem filed_arrives (henv : HandlersKeep Uncredited env) (hfiled : x.Filed) :
    (x.arrives env raw interface).Filed := by
  cases hreturns : returning env raw interface x.state with
  | none =>
    unfold Filed
    rw [arrives_of_none hreturns]
    exact filed_of_entries (inbound_uncredited henv hreturns).entries hfiled
  | some found =>
    obtain ⟨h, entry⟩ := found
    obtain ⟨a, t, huntil, hentry, hrest⟩ := inbound_returning hreturns
    have hafter := hrest Uncredited receiving_uncredited.toHanding receiving_uncredited.conclude
      henv.validateProofPacket
    have hkept : ∀ k e, t.reverseTable.lookup k = some e → k ∈ (inbound env raw interface x.state).2.reverseTable :=
      fun k e he => AList.lookup_isSome.mp (by rw [hafter.entries k e (returned_entries a entry he)]; rfl)
    unfold Filed
    rw [arrives_of_some hreturns]
    intro k hk
    rcases List.mem_cons.mp hk with rfl | hk
    · exact hkept _ entry hentry
    · obtain ⟨e, he⟩ := Option.isSome_iff_exists.mp (AList.lookup_isSome.mpr (hfiled k hk))
      exact hkept k e (huntil.entries k e he)

/-- Whatever was passed back went along an entry that is still there: a cull forgets both. -/
theorem Reached.filed (h : x.Reached) : x.Filed := by
  induction h with
  | start => exact fun _ hk => absurd hk List.not_mem_nil
  | arrives h henv raw interface ih => exact filed_arrives henv ih
  | sends h env p ih => exact filed_of_entries (receiving_uncredited.toSending.outbound p _).entries ih
  | culls h now ih => exact fun k hk => of_decide_eq_true (List.mem_filter.mp hk).2
  | idles h now ih => exact ih
  | delivered h n ih =>
    refine filed_of_entries (fun k e he => ?_) ih
    exact he
  | forgets h n ih => exact ih
  | other h hsame ih => exact filed_of_entries hsame.entries ih

end Routing

namespace Sample

/-- A hash that depends on the last byte only. -/
def lastByte (data : Bytes) : Hash := List.Vector.replicate 32 (data.getLastD 0)

/-- A node in transport. -/
def routing : Environment := { Environment.idle with transportEnabled := true, fullHash := lastByte }

/-- It knows a path, over interface 2 and the neighbour 5. -/
def middle : TransportState where
  identity := some (.fill 9)
  interfaces := [{ id := 1 }, { id := 2 }]
  pathTable := (∅ : Table StoredPath).insert (.fill 3)
    { timestamp := 0, receivedFrom := .fill 5, hops := 1, expires := 100, randomBlobs := []
      receivingInterface := 2, announce := layout 0 0 none (.fill 3) 0 [0] }

/-- A packet of the node itself along the path. -/
def ownPacket : OutgoingPacket where
  packet := ofLayout 0 0 none (.fill 3) 0 [1]
  destination := some .single

/-- A packet for the same destination that the node is to pass on. -/
def passedPacket : Bytes := layout 0x50 0 (some (.fill 9)) (.fill 3) 0 [7]

/-- A proof for it, with any signature. -/
def proofOf (signature : Bytes) : Bytes := layout 3 0 none (.fill 7) 0 signature

theorem routing_keeps {R : TransportState → TransportState → Prop} (hrefl : ∀ s, R s s) : HandlersKeep R routing where
  validateAnnounce _ s := hrefl s
  announce _ hmem := by cases hmem
  destinationReceive _ _ s := hrefl s
  proofRequested _ _ hrequested := by cases hrequested
  provePacket _ s := hrefl s
  linkReceive _ _ s := hrefl s
  linkValidateProof _ _ s := hrefl s
  validateProofPacket _ _ _ s := hrefl s

/-- The node has sent its packet, passed the other one on, and passed the proofs with these signatures back. -/
def proven (signatures : List Bytes) : Routing :=
  signatures.foldl (fun x signature => x.arrives routing (proofOf signature) (some { id := 2 }))
    (Routing.arrives routing passedPacket (some { id := 1 }) ⟨(outbound routing ownPacket middle).2, []⟩)

theorem proven_reached (signatures : List Bytes) : (proven signatures).Reached := by
  have hkeeps := routing_keeps Uncredited.refl
  unfold proven
  generalize hstart : Routing.arrives routing passedPacket (some { id := 1 }) _ = x
  have hx : x.Reached := hstart ▸ .arrives (.sends (.start middle rfl rfl) routing ownPacket) hkeeps _ _
  clear hstart
  induction signatures generalizing x with
  | nil => exact hx
  | cons signature signatures ih => exact ih _ (.arrives hx hkeeps _ _)

end Sample

/-- A second proof with another signature is passed back and credited again. -/
theorem second_proof_routed : ¬ ∀ x : Routing, x.Reached → x.Sound := by
  intro h
  have hcovered := (h _ (Sample.proven_reached [[1], [2]])).covered (.fill 5)
  revert hcovered
  decide +kernel

end MicroReticulum.Transport
