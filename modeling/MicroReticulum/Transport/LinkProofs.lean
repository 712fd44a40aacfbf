import MicroReticulum.Library.Flood
import MicroReticulum.Transport.Inbound

/-!
# Link request proofs in a network

A link request proof is kept out of the duplicate filter, and a transport node with an entry for its link
passes it on each time it hears it on the entry's outbound interface: the hop count is not compared, and
the mark `_validated` is set but not asked for. So what bounds the relays is who hears whom.

`RelayNetwork` is any number of nodes with their link entries, and any pattern of who hears whom; nodes on
one shared medium hear each other. A `NetworkStep` delivers a message in flight to `inbound` of a node,
loses one, or lets a node do anything else. A run is a run of the messages alone (`steps_flood`), and a
node transmits the proof once where one walk of it leads to (`link_proof_transmitted_once`).
-/

namespace MicroReticulum.Transport

open MicroReticulum Packet Link Library

/-! ## One node -/

/-- A link request proof, as its destination packs it: all but the hop count. -/
structure LinkProof where
  flags : UInt8
  linkId : Address
  data : Bytes
  isHeader1 : (unpackFlags flags).headerType = .header1
  isProof : (unpackFlags flags).packetType = .proof
  toLink : (unpackFlags flags).destinationType = .link

namespace LinkProof

variable (P : LinkProof)

/-- The bytes of the proof after some hops. -/
def raw (hops : UInt8) : Bytes := layout P.flags hops none P.linkId ContextType.lrproof P.data

/-- The packet that is read from them. -/
def packet (hops : UInt8) : Packet := ofLayout P.flags hops none P.linkId ContextType.lrproof P.data

/-- Bytes are the proof, but for the hop count. -/
def isCopy (bytes : Bytes) : Bool := bytes = P.raw (bytes.byte 1)

variable {P}

/-- A copy of the proof is the proof with any number of hops. -/
theorem isCopy_iff {bytes : Bytes} : P.isCopy bytes ↔ ∃ hops, bytes = P.raw hops := by
  unfold isCopy
  rw [decide_eq_true_iff]
  constructor
  · exact fun h => ⟨_, h⟩
  · rintro ⟨hops, rfl⟩
    rfl

theorem isCopy_raw (hops : UInt8) : P.isCopy (P.raw hops) := isCopy_iff.mpr ⟨hops, rfl⟩

/-- A copy unpacks to the proof with its hops. -/
theorem unpack_raw (hops : UInt8) : unpack (P.raw hops) = some (P.packet hops) :=
  unpack_layout (by simp [Addressed, P.isHeader1])

/-- What is passed on is the proof with another hop count. -/
theorem hopRaw_packet (h hops : UInt8) : hopRaw { P.packet h with hops } = P.raw hops :=
  hopRaw_eq_layout hops (unpack_raw h)

/-- The copies of the proof among what a node transmitted, newest first. -/
def copies (P : LinkProof) (s : TransportState) : List (Interface × Bytes) :=
  s.wire.filter fun entry => P.isCopy entry.2

end LinkProof

/-- The two sides of a node's entry for the link, outbound and receiving, where it has an entry. No
destination has the link id for a hash. -/
def Routed (P : LinkProof) (route : Option (Nat × Nat)) (s : TransportState) : Prop :=
  (∀ entry, s.linkTable.lookup P.linkId = some entry →
    route = some (entry.outboundInterface.id, entry.receivingInterface.id))
  ∧ getPath s P.linkId = none

/-- What transmits no copy of the proof and leaves the sides of the entry alone. -/
def Quiet (P : LinkProof) (s t : TransportState) : Prop :=
  P.copies t = P.copies s ∧ ∀ route, Routed P route s → Routed P route t

/-- The handler of pending links is quiet. -/
def Spares (P : LinkProof) (env : Environment) : Prop :=
  ∀ l p s, Quiet P s (env.linkValidateProof l p s).2

/-- What one node does with the proof: it is quiet, or passes one copy on to the receiving side of its
entry. -/
def PassesOn (P : LinkProof) (entry : LinkEntry) (s t : TransportState) : Prop :=
  (∀ route, Routed P route s → Routed P route t)
  ∧ (P.copies t = P.copies s
    ∨ ∃ hops, P.copies t = (entry.receivingInterface, P.raw hops) :: P.copies s)

variable {P : LinkProof} {env : Environment}

theorem Quiet.refl (s : TransportState) : Quiet P s s := ⟨rfl, fun _ h => h⟩

theorem Quiet.trans (s t u : TransportState) (h : Quiet P s t) (h' : Quiet P t u) : Quiet P s u :=
  ⟨h'.1.trans h.1, fun route hs => h'.2 route (h.2 route hs)⟩

/-- A quiet stretch before the proof is passed on does not matter. -/
theorem Quiet.passesOn {s t u : TransportState} {entry : LinkEntry} (h : Quiet P s t)
    (h' : PassesOn P entry t u) : PassesOn P entry s u := by
  refine ⟨fun route hs => h'.1 route (h.2 route hs), ?_⟩
  rw [← h.1]
  exact h'.2

theorem PassesOn.of_quiet {s t : TransportState} {entry : LinkEntry} (h : Quiet P s t) :
    PassesOn P entry s t := ⟨h.2, .inl h.1⟩

/-- A change that keeps the wire, the link table, the paths and the interfaces is quiet. -/
theorem Quiet.of_eq {s t : TransportState} (hwire : t.wire = s.wire) (hlink : t.linkTable = s.linkTable)
    (hpath : t.pathTable = s.pathTable) (hinterfaces : t.interfaces = s.interfaces) : Quiet P s t := by
  refine ⟨by unfold LinkProof.copies; rw [hwire], fun route hs => ⟨?_, ?_⟩⟩
  · rw [hlink]
    exact hs.1
  · have hpaths := hs.2
    unfold getPath at hpaths ⊢
    unfold StoredPath.decode findInterface at hpaths ⊢
    rw [hpath, hinterfaces]
    exact hpaths

theorem remember_quiet (destinationHash : Address) (entry : IdentityEntry) :
    Prog.Keeps (Quiet P) (remember env destinationHash entry) :=
  .bind Quiet.trans (.require Quiet.refl _ _) fun _ =>
    .when Quiet.refl fun _ => .modify fun _ => .of_eq rfl rfl rfl rfl

theorem identityRecall_quiet (destinationHash : Address) :
    Prog.Keeps (Quiet P) (identityRecall env destinationHash) := by
  refine .bind Quiet.trans (.get Quiet.refl) fun s => ?_
  cases recalled s destinationHash with
  | none => exact .pure Quiet.refl none
  | some entry =>
    exact .bind Quiet.trans (.when Quiet.refl fun _ => remember_quiet destinationHash entry) fun _ =>
      .pure Quiet.refl _

/-- Marking an entry as validated leaves its sides alone. -/
theorem markValidated_quiet (d : Address) (s : TransportState) :
    Quiet P s { s with linkTable := s.linkTable.adjust d fun entry => { entry with validated := true } } := by
  refine ⟨rfl, fun route hs => ⟨fun entry hentry => ?_, hs.2⟩⟩
  have hentry' : (s.linkTable.adjust d fun entry => { entry with validated := true }).lookup P.linkId
      = some entry := hentry
  unfold Table.adjust at hentry'
  cases hd : s.linkTable.lookup d with
  | none =>
    rw [hd] at hentry'
    exact hs.1 entry hentry'
  | some old =>
    rw [hd] at hentry'
    by_cases hsame : P.linkId = d
    · subst hsame
      rw [AList.lookup_insert] at hentry'
      cases hentry'
      exact hs.1 old hd
    · rw [AList.lookup_insert_ne hsame] at hentry'
      exact hs.1 entry hentry'

/-- Transmitting one copy. -/
theorem transmitOn_passesOn (entry : LinkEntry) (hops : UInt8) :
    Prog.Keeps (PassesOn P entry) (transmitOn env [entry.receivingInterface] (P.raw hops)) := by
  intro s
  rw [transmitOn_one]
  split
  · refine ⟨fun route hs => ⟨hs.1, hs.2⟩, .inr ⟨hops, ?_⟩⟩
    exact List.filter_cons_of_pos (LinkProof.isCopy_raw hops)
  · exact .of_quiet (.refl s)

/-- The proof at a node with an entry for its link. -/
theorem transportLinkProof_passesOn (env : Environment) {a : Arrived} {entry : LinkEntry} {h : UInt8}
    (hpacket : a.packet = { P.packet h with hops := a.packet.hops }) :
    Prog.Keeps (PassesOn P entry) (transportLinkProof env a entry) := by
  have hrefl : ∀ s, PassesOn P entry s s := fun s => .of_quiet (.refl s)
  have hraw : hopRaw a.packet = P.raw a.packet.hops := by
    conv_lhs => rw [hpacket]
    exact LinkProof.hopRaw_packet h _
  -- all steps but the transmission are quiet
  have hquiet : ∀ {β γ : Type} {m : Prog String TransportState β} {f : β → Prog String TransportState γ},
      Prog.Keeps (Quiet P) m → (∀ b, Prog.Keeps (PassesOn P entry) (f b)) →
      Prog.Keeps (PassesOn P entry) (m >>= f) := by
    intro β γ m f hm hf s
    exact Prog.Ends.bind_keeps (Q := fun _ t => PassesOn P entry s t) hm
      (fun b t hst => hst.passesOn (hf b t)) fun o t _ hst => .of_quiet hst
  refine .when hrefl fun _ => hquiet (.ofExcept Quiet.refl _) fun signalling => ?_
  refine hquiet (identityRecall_quiet _) fun identity => ?_
  cases identity with
  | none => exact .pure hrefl ()
  | some identity =>
    refine .when hrefl fun _ => hquiet (.modify fun s => markValidated_quiet _ s) fun _ => ?_
    rw [hraw]
    exact transmitOn_passesOn entry _

/-- A link request proof passes by everything but its own handling. -/
theorem process_linkProof {a : Arrived} {h : UInt8} {s : TransportState}
    (hpacket : a.packet = { P.packet h with hops := a.packet.hops }) (hpath : getPath s P.linkId = none) :
    process env a s = handleLinkProof env (clientFlags s a) a s := by
  have htype : a.packet.packetType = .proof := by rw [hpacket]; exact P.isProof
  have hdest : a.packet.destinationType = .link := by rw [hpacket]; exact P.toLink
  have hcontext : a.packet.context = ContextType.lrproof := by rw [hpacket]; rfl
  have hid : a.packet.transportId = none := by rw [hpacket]; rfl
  have hhash : a.packet.destinationHash = P.linkId := by rw [hpacket]; rfl
  have hremember : rememberHash env a.packet s = s := if_neg (by simp [htype, hcontext])
  have hclient : (clientFlags s a).forLocalClient = false := by
    unfold clientFlags
    simp [hhash, hpath]
  have hbroadcast : broadcastPlain env (clientFlags s a) a s = (.value (), s) := by
    unfold broadcastPlain
    rw [Prog.get_bind_run, Prog.when_of_not (by simp [hdest])]
    rfl
  have hregenerate : regenerateTransportId (clientFlags s a) a = a := if_neg (by simp [hclient])
  have hcache : answerCacheRequest a s = (.value (), s) := by
    unfold answerCacheRequest
    rw [Prog.get_bind_run, show requestedPacket s a.packet = none from
      if_neg (by rw [hcontext]; exact fun h => absurd h.1 (by decide))]
    rfl
  have hforward : forwardNextHop env a s = (.value (), s) := by
    unfold forwardNextHop
    rw [Prog.get_bind_run, show nextHopPath s a = none from if_neg (by simp [hid])]
    rfl
  have hlink : linkTransport env a s = (.value (), s) := by
    unfold linkTransport
    rw [Prog.get_bind_run, Prog.when_of_not (by simp [hcontext])]
    rfl
  have htransport : transportHandling env (clientFlags s a) a s = (.value a, s) := by
    unfold transportHandling
    split
    · rw [hregenerate, Prog.bind_value hcache, Prog.bind_value hforward, Prog.bind_value hlink]
      rfl
    · rfl
  unfold process
  rw [Prog.modify_bind_run, hremember, Prog.get_bind_run]
  rw [Prog.bind_value hbroadcast, Prog.bind_value htransport]
  unfold localHandling handleProof
  simp only [htype, hcontext, if_true]

theorem arrive_quiet (bytes : Bytes) (interface : Option Interface) :
    Prog.Keeps (Quiet P) (arrive bytes interface) := by
  have hwait : Prog.Keeps (Quiet P) waitForJobs := by
    refine .bind Quiet.trans (.get Quiet.refl) fun s => ?_
    split
    · exact .wait Quiet.refl
    · exact .pure Quiet.refl _
  refine .bind Quiet.trans hwait fun _ => .bind Quiet.trans (.get Quiet.refl) fun s => ?_
  split
  · exact .leave Quiet.refl
  · refine .bind Quiet.trans (.modify fun _ => .of_eq rfl rfl rfl rfl) fun _ => ?_
    split
    · exact .leave Quiet.refl
    · split
      · exact .wait Quiet.refl
      · exact .pure Quiet.refl _

/-- What arrives of a copy is the proof, with some hop count. -/
theorem arrive_copy (h : UInt8) (g : Interface) :
    Prog.Returns (fun a => a.packet = { P.packet h with hops := a.packet.hops } ∧ a.receivingInterface = g)
      (arrive (P.raw h) (some g)) := by
  refine .bind _ fun _ => .bind _ fun s => ?_
  cases s.identity with
  | none =>
    intro t a u hrun
    cases hrun
  | some identity =>
    refine .bind _ fun _ => ?_
    rw [LinkProof.unpack_raw]
    exact .pure ⟨rfl, rfl⟩

/-- A node on its route: it is quiet, or what it heard on the outbound side of its entry goes to the
receiving side. -/
def Relays (P : LinkProof) (route : Option (Nat × Nat)) (g : Interface) (s t : TransportState) : Prop :=
  Routed P route t ∧ (P.copies t = P.copies s ∨ ∃ i hops, route = some (g.id, i.id)
    ∧ P.copies t = (i, P.raw hops) :: P.copies s)

theorem Relays.of_quiet {route : Option (Nat × Nat)} {g : Interface} {s t : TransportState}
    (h : Quiet P s t) (hs : Routed P route s) : Relays P route g s t := ⟨h.2 route hs, .inl h.1⟩

theorem Relays.trans_quiet {route : Option (Nat × Nat)} {g : Interface} {s t u : TransportState}
    (h : Relays P route g s t) (h' : Quiet P t u) : Relays P route g s u := by
  refine ⟨h'.2 route h.1, ?_⟩
  rw [h'.1]
  exact h.2

/-- The handling of the proof at a node on its route. -/
theorem handleLinkProof_relays (hspare : Spares P env) {route : Option (Nat × Nat)} {a : Arrived}
    {h : UInt8} {flags : ClientFlags} {s : TransportState}
    (hpacket : a.packet = { P.packet h with hops := a.packet.hops }) (hs : Routed P route s) :
    Relays P route a.receivingInterface s (handleLinkProof env flags a s).2 := by
  have hhash : a.packet.destinationHash = P.linkId := by
    rw [hpacket]
    rfl
  unfold handleLinkProof
  rw [Prog.get_bind_run]
  cases hentry : (if env.transportEnabled || flags.forLocalClientLink || flags.fromLocalClient then
    s.linkTable.lookup a.packet.destinationHash else none) with
  | some entry =>
    have hlookup : s.linkTable.lookup P.linkId = some entry := by
      rw [← hhash]
      split at hentry
      · exact hentry
      · cases hentry
    dsimp only
    by_cases hside : a.receivingInterface.id = entry.outboundInterface.id
    · rw [Prog.when_of hside, Prog.catching_pure_state]
      obtain ⟨hkeeps, hcopies⟩ := transportLinkProof_passesOn env hpacket s
      refine ⟨hkeeps route hs, ?_⟩
      rcases hcopies with hsame | ⟨hops, hone⟩
      · exact .inl hsame
      · exact .inr ⟨entry.receivingInterface, hops, by rw [hs.1 entry hlookup, hside], hone⟩
    · rw [Prog.when_of_not hside]
      exact .of_quiet (.refl s) hs
  | none =>
    refine .of_quiet ?_ hs
    refine Prog.Keeps.forEach Quiet.refl Quiet.trans _ (fun l _ t => ?_) s
    have hhandler := hspare l.linkId a.packet t
    unfold callHandler
    rcases hrun : env.linkValidateProof l.linkId a.packet t with ⟨_ | _, u⟩ <;> rw [hrun] at hhandler <;>
      exact hhandler

/-- A copy of the proof given to `inbound`. -/
theorem inbound_relays (hspare : Spares P env) {route : Option (Nat × Nat)} {s : TransportState}
    (hs : Routed P route s) (h : UInt8) (g : Interface) :
    Relays P route g s (inbound env (P.raw h) (some g) s).2 := by
  have hcall : (inbound env (P.raw h) (some g) s).2 = ((arrive (P.raw h) (some g) >>= fun a =>
      Prog.get >>= fun s => Prog.when (acceptsPacket env s a.packet = true) (process env a) >>= fun _ =>
        Prog.modify (setJobsLocked false)) s).2 := by
    unfold inbound Prog.call
    split <;> simp only [*]
  rw [hcall]
  have hquiet : Quiet P s (arrive (P.raw h) (some g) s).2 := arrive_quiet _ _ s
  have hreturns := arrive_copy (P := P) h g s
  rcases harrive : arrive (P.raw h) (some g) s with ⟨a | _ | _ | _, t⟩
  case value =>
    rw [harrive] at hquiet
    obtain ⟨hpacket, hreceiving⟩ := hreturns a t harrive
    have ht := hquiet.2 route hs
    rw [Prog.bind_value harrive, Prog.get_bind_run]
    have hprocess : Relays P route g s (Prog.when (acceptsPacket env t a.packet = true) (process env a) t).2 := by
      by_cases haccepts : acceptsPacket env t a.packet = true
      · rw [Prog.when_of haccepts, process_linkProof hpacket ht.2]
        have hrelays : Relays P route a.receivingInterface t (handleLinkProof env (clientFlags t a) a t).2 :=
          handleLinkProof_relays hspare hpacket ht
        rw [hreceiving] at hrelays
        unfold Relays at hrelays ⊢
        rw [← hquiet.1]
        exact hrelays
      · rw [Prog.when_of_not haccepts]
        exact .of_quiet hquiet hs
    -- releasing the lock changes nothing
    exact hprocess.trans_quiet (Prog.Keeps.after Quiet.refl _
      (fun _ => Prog.Keeps.modify (f := setJobsLocked false) fun _ => .of_eq rfl rfl rfl rfl) t)
  all_goals
    rw [Prog.bind_run, harrive]
    rw [harrive] at hquiet
    exact .of_quiet hquiet hs

/-! ## The network -/

variable {ι : Type}

/-- Nodes with the sides of their entries for the link, and who hears what a node transmits on an
interface. The destination of the link has sent the proof on one of its interfaces. -/
structure RelayNetwork (ι : Type) where
  listeners : ι → Nat → List (ι × Interface)
  /-- one transmission reaches an interface once -/
  listeners_nodup : ∀ j i, (listeners j i).Nodup
  route : ι → Option (Nat × Nat)
  origin : ι
  originInterface : Nat

namespace RelayNetwork

variable (N : RelayNetwork ι)

/-- The interface of a node is the outbound side of its entry. -/
def outbound (p : ι × Interface) : Bool := (N.route p.1).any fun sides => sides.1 = p.2.id

/-- Who hears the proof from whom, as the entries have it. -/
def topology : Topology (ι × Interface) where
  start := N.listeners N.origin N.originInterface
  next p :=
    match N.route p.1 with
    | none => []
    | some sides => if sides.1 = p.2.id then N.listeners p.1 sides.2 else []
  start_nodup := N.listeners_nodup _ _
  next_nodup p := by
    split
    · exact List.nodup_nil
    · split
      · exact N.listeners_nodup _ _
      · exact List.nodup_nil

/-- A walk that ends at the outbound side of a node. -/
def reaches (j : ι) [DecidableEq ι] : List (ι × Interface) → Bool
  | [] => false
  | p :: _ => p.1 = j && N.outbound p

/-- To the outbound side of every node leads at most one walk, and none to that of the destination. -/
structure OneWay [DecidableEq ι] : Prop where
  once : ∀ j w w', N.topology.Heard w → N.topology.Heard w' → N.reaches j w → N.reaches j w' → w = w'
  notBack : ∀ w, N.topology.Heard w → N.reaches N.origin w = false

end RelayNetwork

/-- A copy of the proof on its way to an interface of a node. -/
structure Message (ι : Type) where
  heardBy : ι × Interface
  /-- where it was heard before, latest first -/
  via : List (ι × Interface)
  raw : Bytes

/-- The walk of a message. -/
def Message.walk (m : Message ι) : List (ι × Interface) := m.heardBy :: m.via

structure NetworkState (ι : Type) where
  nodes : ι → TransportState
  inFlight : List (Message ι)

/-- The copies a node transmitted between two states. -/
def sentCopies (P : LinkProof) (s t : TransportState) : List (Interface × Bytes) :=
  (P.copies t).take ((P.copies t).length - (P.copies s).length)

/-- One transmission, to everyone who hears it. -/
def RelayNetwork.spread (N : RelayNetwork ι) (j : ι) (via : List (ι × Interface))
    (sent : Interface × Bytes) : List (Message ι) :=
  (N.listeners j sent.1.id).map fun p => { heardBy := p, via, raw := sent.2 }

section Network

variable [DecidableEq ι] {N : RelayNetwork ι}

/-- What can happen: a message is given to `inbound` of the node that hears it, or it is lost, or a node
does something else, without transmitting the proof and with an entry as before, if any. -/
inductive NetworkStep (P : LinkProof) (N : RelayNetwork ι) : NetworkState ι → NetworkState ι → Prop
  | deliver {nodes : ι → TransportState} {before after : List (Message ι)} {m : Message ι}
      {t : TransportState} (env : Environment) (hspare : Spares P env)
      (hinbound : t = (inbound env m.raw (some m.heardBy.2) (nodes m.heardBy.1)).2) :
      NetworkStep P N { nodes, inFlight := before ++ m :: after }
        { nodes := Function.update nodes m.heardBy.1 t
          inFlight := (sentCopies P (nodes m.heardBy.1) t).flatMap (N.spread m.heardBy.1 m.walk)
            ++ (before ++ after) }
  | lose {nodes : ι → TransportState} {before after : List (Message ι)} {m : Message ι} :
      NetworkStep P N { nodes, inFlight := before ++ m :: after } { nodes, inFlight := before ++ after }
  | other {nodes : ι → TransportState} {inFlight : List (Message ι)} (j : ι) (t : TransportState)
      (hsilent : P.copies t = P.copies (nodes j)) (hroute : Routed P (N.route j) t) :
      NetworkStep P N { nodes, inFlight } { nodes := Function.update nodes j t, inFlight }

/-- The destination has just transmitted the proof, and nobody else has. -/
structure Started (P : LinkProof) (N : RelayNetwork ι) (x : NetworkState ι) : Prop where
  routed : ∀ j, Routed P (N.route j) (x.nodes j)
  origin : (P.copies (x.nodes N.origin)).length = 1
  silent : ∀ j, j ≠ N.origin → P.copies (x.nodes j) = []
  inFlight : ∃ (i : Interface) (hops : UInt8), i.id = N.originInterface
    ∧ x.inFlight = N.spread N.origin [] (i, P.raw hops)

/-- The network carries the messages of the flood, and a node transmits as often as it passes on. -/
structure Carries (P : LinkProof) (N : RelayNetwork ι) (x : NetworkState ι)
    (f : Flood (ι × Interface)) : Prop where
  routed : ∀ j, Routed P (N.route j) (x.nodes j)
  walks : x.inFlight.map Message.walk = f.inFlight
  copy : ∀ m ∈ x.inFlight, P.isCopy m.raw
  transmitted : ∀ j, (P.copies (x.nodes j)).length
    = (if j = N.origin then 1 else 0) + (f.passed.filter (N.reaches j)).length

/-- At the start the proof is with the node that made it. -/
theorem Started.carries {x : NetworkState ι} (h : Started P N x) : Carries P N x N.topology.flood where
  routed := h.routed
  walks := by
    obtain ⟨i, hops, hi, hin⟩ := h.inFlight
    rw [hin]
    simp [RelayNetwork.spread, Topology.flood, RelayNetwork.topology, Function.comp_def, Message.walk, hi]
  copy m hm := by
    obtain ⟨i, hops, -, hin⟩ := h.inFlight
    rw [hin] at hm
    obtain ⟨p, -, rfl⟩ := List.mem_map.mp hm
    exact LinkProof.isCopy_raw hops
  transmitted j := by
    by_cases hj : j = N.origin
    · rw [if_pos hj, hj, h.origin]
      rfl
    · rw [if_neg hj, h.silent j hj]
      rfl

/-- A message lost, or delivered without effect. -/
theorem Carries.drop {nodes nodes' : ι → TransportState} {before after : List (Message ι)} {m : Message ι}
    {f : Flood (ι × Interface)} (h : Carries P N { nodes, inFlight := before ++ m :: after } f)
    (hrouted : ∀ j, Routed P (N.route j) (nodes' j))
    (hcopies : ∀ j, (P.copies (nodes' j)).length = (P.copies (nodes j)).length) :
    ∃ g, FloodStep N.topology f g
      ∧ Carries P N { nodes := nodes', inFlight := before ++ after } g := by
  obtain ⟨inFlight, passed⟩ := f
  have hwalks : inFlight = before.map Message.walk ++ m.walk :: after.map Message.walk := by
    simpa using h.walks.symm
  subst hwalks
  refine ⟨_, .lose, { routed := hrouted, walks := by simp, copy := fun m' hm' => h.copy m' ?_
                      transmitted := fun j => (hcopies j).trans (h.transmitted j) }⟩
  rcases List.mem_append.mp hm' with hm' | hm'
  · exact List.mem_append_left _ hm'
  · exact List.mem_append_right _ (List.mem_cons_of_mem _ hm')

/-- A message delivered and passed on once. -/
theorem Carries.pass {nodes : ι → TransportState} {before after : List (Message ι)} {j : ι}
    {g i : Interface} {via : List (ι × Interface)} {bytes : Bytes} {hops : UInt8} {t : TransportState}
    {f : Flood (ι × Interface)}
    (h : Carries P N { nodes, inFlight := before ++ { heardBy := (j, g), via, raw := bytes } :: after } f)
    (hroute : Routed P (N.route j) t) (hside : N.route j = some (g.id, i.id))
    (hone : P.copies t = (i, P.raw hops) :: P.copies (nodes j)) :
    ∃ f', FloodStep N.topology f f' ∧ Carries P N
      { nodes := Function.update nodes j t
        inFlight := N.spread j ((j, g) :: via) (i, P.raw hops) ++ (before ++ after) } f' := by
  obtain ⟨inFlight, passed⟩ := f
  have hwalks : inFlight = before.map Message.walk ++ ((j, g) :: via) :: after.map Message.walk := by
    simpa [Message.walk] using h.walks.symm
  subst hwalks
  have hnext : N.topology.next (j, g) = N.listeners j i.id := by
    simp [RelayNetwork.topology, hside]
  have hreaches : N.reaches j ((j, g) :: via) = true := by
    simp [RelayNetwork.reaches, RelayNetwork.outbound, hside]
  refine ⟨_, .pass, { routed := fun k => ?_, walks := ?_, copy := ?_, transmitted := fun k => ?_ }⟩
  · by_cases hk : k = j
    · subst hk
      simpa using hroute
    · simpa [Function.update_of_ne hk] using h.routed k
  · simp [RelayNetwork.spread, hnext, Message.walk, Function.comp_def]
  · intro m hm
    rcases List.mem_append.mp hm with hm | hm
    · obtain ⟨p, -, rfl⟩ := List.mem_map.mp hm
      exact LinkProof.isCopy_raw hops
    · refine h.copy m ?_
      rcases List.mem_append.mp hm with hm | hm
      · exact List.mem_append_left _ hm
      · exact List.mem_append_right _ (List.mem_cons_of_mem _ hm)
  · have hbefore := h.transmitted k
    by_cases hk : k = j
    · subst hk
      rw [List.filter_cons_of_pos hreaches]
      simp only [Function.update_self, hone, List.length_cons]
      simp only at hbefore
      omega
    · have hno : N.reaches k ((j, g) :: via) = false := by
        simp [RelayNetwork.reaches, Ne.symm hk]
      rw [List.filter_cons_of_neg (by simp [hno])]
      simpa [Function.update_of_ne hk] using hbefore

/-- Every step of the network is one of the flood, or none. -/
theorem Carries.step {x y : NetworkState ι} {f : Flood (ι × Interface)} (h : Carries P N x f)
    (hstep : NetworkStep P N x y) :
    ∃ g, Relation.ReflTransGen (FloodStep N.topology) f g ∧ Carries P N y g := by
  cases hstep with
  | lose =>
    obtain ⟨g, hg, hcarries⟩ := h.drop h.routed fun _ => rfl
    exact ⟨g, .single hg, hcarries⟩
  | @other nodes inFlight j t hsilent hroute =>
    refine ⟨f, .refl, { routed := fun k => ?_, walks := h.walks, copy := h.copy, transmitted := fun k => ?_ }⟩
    · by_cases hk : k = j
      · subst hk
        simpa using hroute
      · simpa [Function.update_of_ne hk] using h.routed k
    · rw [← h.transmitted k]
      by_cases hk : k = j
      · subst hk
        simp [hsilent]
      · simp [Function.update_of_ne hk]
  | @deliver nodes before after m t env hspare hinbound =>
    obtain ⟨⟨j, g⟩, via, raw⟩ := m
    obtain ⟨hops, rfl⟩ := LinkProof.isCopy_iff.mp (h.copy _ (List.mem_append_right _ List.mem_cons_self))
    obtain ⟨hroute, hcopies⟩ := inbound_relays hspare (h.routed j) hops g
    rw [← show t = _ from hinbound] at hroute hcopies
    have hrouted : ∀ k, Routed P (N.route k) (Function.update nodes j t k) := by
      intro k
      by_cases hk : k = j
      · subst hk
        simpa using hroute
      · simpa [Function.update_of_ne hk] using h.routed k
    rcases hcopies with hsame | ⟨i, hops', hside, hone⟩
    · -- nothing was passed on
      have hsent : sentCopies P (nodes j) t = [] := by
        unfold sentCopies
        rw [hsame, Nat.sub_self, List.take_zero]
      show ∃ g, _ ∧ Carries P N
        { nodes := Function.update nodes j t, inFlight := (sentCopies P (nodes j) t).flatMap _ ++ _ } g
      rw [hsent]
      obtain ⟨g', hg, hcarries⟩ := h.drop hrouted fun k => by
        by_cases hk : k = j
        · subst hk
          simp [hsame]
        · simp [Function.update_of_ne hk]
      exact ⟨g', .single hg, hcarries⟩
    · have hsent : sentCopies P (nodes j) t = [(i, P.raw hops')] := by
        unfold sentCopies
        rw [hone]
        simp
      obtain ⟨g', hg, hcarries⟩ := h.pass hroute hside hone
      refine ⟨g', .single hg, ?_⟩
      show Carries P N { nodes := Function.update nodes j t,
                         inFlight := (sentCopies P (nodes j) t).flatMap _ ++ _ } g'
      rw [hsent, List.flatMap_singleton]
      exact hcarries

/-- A run of the network is a run of its messages. -/
theorem steps_flood {x y : NetworkState ι} (hstart : Started P N x)
    (hrun : Relation.ReflTransGen (NetworkStep P N) x y) :
    ∃ f, Relation.ReflTransGen (FloodStep N.topology) N.topology.flood f ∧ Carries P N y f := by
  induction hrun with
  | refl => exact ⟨_, .refl, hstart.carries⟩
  | tail _ hstep ih =>
    obtain ⟨f, hflood, hcarries⟩ := ih
    obtain ⟨g, hmore, hcarries'⟩ := hcarries.step hstep
    exact ⟨g, hflood.trans hmore, hcarries'⟩

/-! ## The main result -/

/-- Where the entries lead one way, every node transmits the proof at most once, in every order of
deliveries and losses and whatever else the nodes do. -/
theorem link_proof_transmitted_once (P : LinkProof) (N : RelayNetwork ι) (hway : N.OneWay)
    {x y : NetworkState ι} (hstart : Started P N x)
    (hrun : Relation.ReflTransGen (NetworkStep P N) x y) (j : ι) :
    (P.copies (y.nodes j)).length ≤ 1 := by
  obtain ⟨f, hflood, hcarries⟩ := steps_flood hstart hrun
  have hsound := sound_of_run hflood
  rw [hcarries.transmitted j]
  by_cases hj : j = N.origin
  · subst hj
    have hnone : f.passed.filter (N.reaches N.origin) = [] := by
      refine List.filter_eq_nil_iff.mpr fun w hw => ?_
      simp [hway.notBack w (hsound.heard w (.inr hw))]
    rw [hnone, if_pos rfl]
    rfl
  · have honce := hsound.passed_once (N.reaches j) (hway.once j)
    rw [if_neg hj]
    omega

end Network

namespace Sample

/-- The one radio interface of every node. -/
def radio : Interface := { id := 1 }

/-- A link request proof of the shorter size. -/
def linkProof : LinkProof where
  flags := 0x0F
  linkId := .fill 7
  data := List.replicate 96 0
  isHeader1 := by decide
  isProof := by decide
  toLink := by decide

/-- A transport node with an entry for the link, which it heard and passed on by radio. -/
def relay : TransportState where
  identity := some (.fill 9)
  interfaces := [radio]
  linkTable := (∅ : Table LinkEntry).insert (.fill 7)
    { timestamp := 0, nextHop := .fill 3, outboundInterface := radio, remainingHops := 1
      receivingInterface := radio, hops := 1, destinationHash := .fill 5, validated := false
      proofTimeout := 60 }
  knownDestinations := (∅ : Table IdentityEntry).insert (.fill 5)
    { publicKey := List.replicate 64 0, appData := [] }

/-- A transport node that takes every signature for valid. -/
def transporting : Environment := { Environment.idle with transportEnabled := true }

theorem transporting_spares : Spares linkProof transporting := fun _ _ s => .refl s

/-- A node after it heard the proof. -/
def hears (hops : UInt8) (s : TransportState) : TransportState :=
  (inbound transporting (linkProof.raw hops) (some radio) s).2

theorem relay_routed : Routed linkProof (some (1, 1)) relay := by
  refine ⟨fun entry hentry => ?_, rfl⟩
  rw [show relay.linkTable.lookup linkProof.linkId = _ from AList.lookup_insert _] at hentry
  cases hentry
  rfl

/-- One transmission of a node that passes the proof on. -/
theorem delivers {ι : Type} [DecidableEq ι] (N : RelayNetwork ι) (nodes : ι → TransportState)
    (before after : List (Message ι)) (j : ι) (via : List (ι × Interface)) {hops hops' : UInt8}
    (hsent : sentCopies linkProof (nodes j) (hears hops (nodes j)) = [(radio, linkProof.raw hops')]) :
    NetworkStep linkProof N
      { nodes
        inFlight := before ++ { heardBy := (j, radio), via, raw := linkProof.raw hops } :: after }
      { nodes := Function.update nodes j (hears hops (nodes j))
        inFlight := N.spread j ((j, radio) :: via) (radio, linkProof.raw hops') ++ (before ++ after) } := by
  have hstep : NetworkStep linkProof N
      { nodes
        inFlight := before ++ { heardBy := (j, radio), via, raw := linkProof.raw hops } :: after }
      { nodes := Function.update nodes j (hears hops (nodes j))
        inFlight := (sentCopies linkProof (nodes j) (hears hops (nodes j))).flatMap
          (N.spread j ((j, radio) :: via)) ++ (before ++ after) } :=
    .deliver transporting transporting_spares rfl
  rw [hsent, List.flatMap_singleton] at hstep
  exact hstep

theorem relay_sends (hops : UInt8) (h : hops = 0 ∨ hops = 1) :
    sentCopies linkProof relay (hears hops relay) = [(radio, linkProof.raw (hops + 1))] := by
  rcases h with rfl | rfl <;> decide +kernel

/-- The destination, one relay and nobody else in range. -/
def oneRelay : RelayNetwork (Fin 2) where
  listeners j _ := if j = 0 then [(1, radio)] else [(0, radio)]
  listeners_nodup j _ := by split <;> exact List.nodup_singleton _
  route j := if j = 0 then none else some (1, 1)
  origin := 0
  originInterface := 1

/-- The destination and two relays on one frequency. -/
def twoRelays : RelayNetwork (Fin 3) where
  listeners j _ := ([0, 1, 2].filter (· ≠ j)).map fun k => (k, radio)
  listeners_nodup j _ := by revert j; decide +kernel
  route j := if j = 0 then none else some (1, 1)
  origin := 0
  originInterface := 1

/-- The destination, which has sent its proof. -/
def destination : TransportState where
  identity := some (.fill 4)
  interfaces := [radio]
  wire := [(radio, linkProof.raw 0)]

theorem oneRelay_oneWay : oneRelay.OneWay := by
  have honly : ∀ w, oneRelay.topology.Heard w → oneRelay.reaches 1 w → w = [(1, radio)] := by
    intro w hw hreaches
    cases hw with
    | start ha =>
      rw [List.mem_singleton.mp (show _ ∈ [((1 : Fin 2), radio)] from ha)]
    | @next a b w _ hb =>
      -- only the relay passes on, and only the destination hears it
      obtain ⟨j, g⟩ := a
      have hj : j = 1 := by
        by_contra hj
        have hzero : j = 0 := by omega
        subst hzero
        cases hb
      subst hj
      have hb' : b ∈ (if 1 = g.id then [((0 : Fin 2), radio)] else []) := hb
      split at hb'
      · rw [List.mem_singleton.mp hb'] at hreaches
        cases hreaches
      · cases hb'
  refine ⟨fun j w w' hw hw' hr hr' => ?_, fun w hw => ?_⟩
  · by_cases hj : j = 1
    · subst hj
      rw [honly w hw hr, honly w' hw' hr']
    · have hzero : j = 0 := by omega
      subst hzero
      exfalso
      cases w with
      | nil => cases hr
      | cons p w =>
        obtain ⟨hp, hout⟩ := Bool.and_eq_true_iff.mp hr
        obtain ⟨k, g⟩ := p
        cases of_decide_eq_true hp
        cases hout
  · cases w with
    | nil => rfl
    | cons p w =>
      obtain ⟨k, g⟩ := p
      by_cases hk : k = 0
      · subst hk
        rfl
      · exact Bool.and_eq_false_imp.mpr fun h => absurd (of_decide_eq_true h) hk

/-- The nodes before any delivery. -/
def nodes {n : Nat} (j : Fin (n + 1)) : TransportState := if j = 0 then destination else relay

theorem nodes_routed {n : Nat} (j : Fin (n + 1)) :
    Routed linkProof (if j = 0 then none else some (1, 1)) (nodes j) := by
  unfold nodes
  split
  · exact ⟨fun _ => nofun, rfl⟩
  · exact relay_routed

theorem nodes_silent {n : Nat} {j : Fin (n + 1)} (h : j ≠ 0) : linkProof.copies (nodes j) = [] := by
  unfold nodes
  rw [if_neg h]
  rfl

/-- The first relay again, on the answer of the second one. -/
theorem relay_sends_again :
    sentCopies linkProof (hears 0 relay) (hears 2 (hears 0 relay)) = [(radio, linkProof.raw 3)] := by
  decide +kernel

theorem destination_sent : (linkProof.copies destination).length = 1 := by decide +kernel

end Sample

/-- The relay next to the destination transmits the proof once, though both sides of its entry are one
interface. -/
theorem link_proof_transmitted_once_relay :
    (Sample.linkProof.copies (Function.update Sample.nodes (1 : Fin 2)
      (Sample.hears 0 Sample.relay) 1)).length ≤ 1 :=
  link_proof_transmitted_once Sample.linkProof Sample.oneRelay Sample.oneRelay_oneWay
    { routed := Sample.nodes_routed, origin := Sample.destination_sent
      silent := fun _ h => Sample.nodes_silent h, inFlight := ⟨Sample.radio, 0, rfl, rfl⟩ }
    (.single (Sample.delivers Sample.oneRelay Sample.nodes [] [] 1 [] (Sample.relay_sends 0 (.inl rfl)))) 1

set_option maxRecDepth 8000 in
/-- Two relays on one frequency pass the proof back and forth: the first transmits it again when it hears
the second. -/
theorem relays_answer_each_other :
    ¬ ∀ (P : LinkProof) (N : RelayNetwork (Fin 3)) (x y : NetworkState (Fin 3)), Started P N x →
      Relation.ReflTransGen (NetworkStep P N) x y → ∀ j, (P.copies (y.nodes j)).length ≤ 1 := by
  intro h
  let late : Message (Fin 3) :=
    { heardBy := (2, Sample.radio), via := [], raw := Sample.linkProof.raw 0 }
  let back (walk : List (Fin 3 × Interface)) (hops : UInt8) : Message (Fin 3) :=
    { heardBy := (0, Sample.radio), via := walk, raw := Sample.linkProof.raw hops }
  have hfirst := Sample.delivers Sample.twoRelays Sample.nodes [] [late] 1 []
    (Sample.relay_sends 0 (.inl rfl))
  have hsecond := Sample.delivers Sample.twoRelays
    (Function.update Sample.nodes 1 (Sample.hears 0 Sample.relay)) [back [(1, Sample.radio)] 1] [late] 2
    [(1, Sample.radio)] (Sample.relay_sends 1 (.inr rfl))
  have hthird := Sample.delivers Sample.twoRelays
    (Function.update (Function.update Sample.nodes 1 (Sample.hears 0 Sample.relay)) 2
      (Sample.hears 1 Sample.relay))
    [back [(2, Sample.radio), (1, Sample.radio)] 2] [back [(1, Sample.radio)] 1, late] 1
    [(2, Sample.radio), (1, Sample.radio)] Sample.relay_sends_again
  have htwice := h Sample.linkProof Sample.twoRelays _ _
    { routed := Sample.nodes_routed, origin := Sample.destination_sent
      silent := fun _ h => Sample.nodes_silent h, inFlight := ⟨Sample.radio, 0, rfl, rfl⟩ }
    (((Relation.ReflTransGen.single hfirst).tail hsecond).tail hthird) 1
  have hcount : (Sample.linkProof.copies (Sample.hears 2 (Sample.hears 0 Sample.relay))).length = 2 := by
    decide +kernel
  exact absurd (hcount.symm.trans_le htwice) (by decide)

end MicroReticulum.Transport
