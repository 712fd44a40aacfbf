import MicroReticulum.Announce.Forwarding
import MicroReticulum.Library.Frames
import MicroReticulum.Library.Line
import MicroReticulum.Transport.LinkProofs
import MicroReticulum.Transport.ReturnedProofs

/-!
# A link across a line of nodes

A link request that crosses a line of transport nodes leaves an entry at each of them: the interfaces it came in and
went out on, the hops it had made, and the hops that were left by the path of the node. Packets of the link are passed
on along these entries, if they have made as many hops.

So what the initiator sends crosses the line, as its request did. What the destination sends has made as many hops at a
node as there are nodes behind it, and is passed on where the path of the node had said so: one node whose path was
out of date takes every packet of the destination, and with them the other half of a link that came up all the same
(`link_packets_cross_iff`).

Nothing is said of two links whose ids agree.
-/

namespace MicroReticulum.Transport

open MicroReticulum Packet Link Library Announce

/-! ## One node -/

/-- A packet of a link, data or a proof, but for its hop count. -/
structure LinkPacket where
  flags : UInt8
  linkId : Address
  context : ContextType
  data : Bytes
  isHeader1 : (unpackFlags flags).headerType = .header1
  toLink : (unpackFlags flags).destinationType = .link
  carries : (unpackFlags flags).packetType = .data ∨ (unpackFlags flags).packetType = .proof
  notLinkProof : context ≠ ContextType.lrproof
  notCacheRequest : context ≠ ContextType.cacheRequest

/-- The bytes of the packet after some hops. -/
def LinkPacket.raw (P : LinkPacket) (hops : UInt8) : Bytes := layout P.flags hops none P.linkId P.context P.data

/-- The packet that is read from them. -/
def LinkPacket.packet (P : LinkPacket) (hops : UInt8) : Packet := ofLayout P.flags hops none P.linkId P.context P.data

/-- The bytes of the packet unpack to it with any number of hops in the second byte. -/
theorem LinkPacket.unpack_raw (P : LinkPacket) (hops : UInt8) : unpack (P.raw hops) = some (P.packet hops) :=
  unpack_layout (by simp [Addressed, P.isHeader1])

/-- Writing a number of hops into the second byte gives the bytes of the packet with these hops. -/
theorem LinkPacket.hopRaw_packet (P : LinkPacket) (h hops : UInt8) : hopRaw { P.packet h with hops } = P.raw hops :=
  hopRaw_eq_layout hops (P.unpack_raw h)

/-- A transport node between two others, with the interface to each of them. -/
structure Relay where
  env : Environment
  state : TransportState
  near : Interface
  far : Interface

/-- What a node has handed to an interface, if it has handed over one packet and nothing else. -/
def handed (i : Interface) (s t : TransportState) : Option Bytes :=
  match t.wire with
  | [] => none
  | (j, raw) :: wire => if wire.length = s.wire.length ∧ j.id = i.id then some raw else none

namespace Relay

/-- The node behind a packet. -/
def hears (r : Relay) (i : Interface) (raw : Bytes) : Relay :=
  { r with state := (inbound r.env raw (some i) r.state).2 }

/-- A packet comes in on the near side: what goes out on the far side. -/
def onward (r : Relay) (raw : Bytes) : Relay × Option Bytes :=
  (r.hears r.near raw, handed r.far r.state (r.hears r.near raw).state)

/-- A packet comes in on the far side: what goes out on the near side. -/
def backward (r : Relay) (raw : Bytes) : Relay × Option Bytes :=
  (r.hears r.far raw, handed r.near r.state (r.hears r.far raw).state)

end Relay

variable {env : Environment} {s t : TransportState} {i : Interface} {raw raw' : Bytes} {p : Packet} {n : Address}

/-- Where nothing was transmitted nothing was handed over. -/
theorem handed_self (i : Interface) (h : t.wire = s.wire) : handed i s t = none := by
  unfold handed
  rw [h]
  split
  · rfl
  · rename_i hwire
    rw [if_neg]
    rintro ⟨hlength, -⟩
    rw [hwire, List.length_cons] at hlength
    omega

/-- What was handed over on an interface is the last transmission, if it was on that interface. -/
theorem handed_cons {j : Interface} (h : t.wire = (j, raw) :: s.wire) :
    handed i s t = if j.id = i.id then some raw else none := by
  unfold handed
  rw [h]
  simp

/-- `inbound` of a packet the filter accepts is its processing, between taking the lock and releasing it. -/
theorem inbound_process (hrunning : s.jobsRunning = false) (hidentity : s.identity = some n)
    (hraw : unpack raw = some p) (haccepts : acceptsPacket env s (arrivedAt n s i p).packet = true) :
    ∃ locked, (inbound env raw (some i) s).2
      = setJobsLocked locked (process env (arrivedAt n s i p) (setJobsLocked true s)).2 := by
  have harrive := (arrive_run hrunning hidentity raw (some i)).2.1 (arrivedAt n s i p)
    (arrivedPacket_some hidentity hraw i)
  unfold inbound
  rw [Prog.call_state, Prog.bind_value harrive, Prog.get_bind_run,
    Prog.when_of (show acceptsPacket env (setJobsLocked true s) _ = true from haccepts), Prog.bind_run]
  rcases process env (arrivedAt n s i p) (setJobsLocked true s) with ⟨_ | _ | _ | _, t⟩
  case value => exact ⟨false, rfl⟩
  all_goals exact ⟨t.jobsLocked, rfl⟩

/-- A packet that is not processed hands nothing over. -/
theorem processed_of_wire (hwire : (inbound env raw (some i) s).2.wire ≠ s.wire) :
    ∃ n p, s.jobsRunning = false ∧ s.identity = some n ∧ unpack raw = some p
      ∧ acceptsPacket env s (arrivedAt n s i p).packet = true := by
  unfold inbound at hwire
  rw [Prog.call_state] at hwire
  cases hrunning : s.jobsRunning with
  | true =>
    have hwaits : arrive raw (some i) s = (.waits, s) := by
      unfold arrive
      rw [Prog.bind_run, waitForJobs_waits hrunning]
    rw [Prog.bind_run, hwaits] at hwire
    exact absurd rfl hwire
  | false =>
    cases hidentity : s.identity with
    | none =>
      have hleaves : arrive raw (some i) s = (.returned, s) := by
        unfold arrive
        rw [Prog.bind_value (waitForJobs_run hrunning), Prog.get_bind_run, hidentity]
        rfl
      rw [Prog.bind_run, hleaves] at hwire
      exact absurd rfl hwire
    | some n =>
      obtain ⟨hshort, harrives, -⟩ := arrive_run hrunning hidentity raw (some i)
      cases hraw : unpack raw with
      | none =>
        rw [Prog.bind_run, hshort hraw] at hwire
        exact absurd rfl hwire
      | some p =>
        refine ⟨n, p, rfl, rfl, rfl, ?_⟩
        by_contra hrefused
        have harrive := harrives (arrivedAt n s i p) (arrivedPacket_some hidentity hraw i)
        rw [Prog.bind_value harrive, Prog.get_bind_run, Prog.when_of_not
          (show ¬ acceptsPacket env (setJobsLocked true s) _ = true from hrefused)] at hwire
        exact absurd rfl hwire

/-! ## Passing on -/

/-- Forwarding to the next hop changes the state by the transmission and by what is recorded of it. -/
theorem forwardNextHop_state (a : Arrived) (s : TransportState) :
    (forwardNextHop env a s).2 = match nextHopPath s a with
      | none => s
      | some path =>
        match forwardRaw a path with
        | .error _ => s
        | .ok raw => (transmitOn env [path.receivingInterface] raw (recordForward env a path s)).2 := by
  unfold forwardNextHop
  rw [Prog.get_bind_run]
  cases nextHopPath s a with
  | none => rfl
  | some path =>
    dsimp only
    cases forwardRaw a path with
    | error => rfl
    | ok raw => rfl

/-- A packet for anything but a plain destination is not passed on by the rules for plain broadcasts. -/
theorem broadcastPlain_other {flags : ClientFlags} {a : Arrived} (h : a.packet.destinationType ≠ .plain)
    (s : TransportState) : broadcastPlain env flags a s = (.value (), s) := by
  unfold broadcastPlain
  rw [Prog.get_bind_run, Prog.when_of_not fun hplain => h hplain.2.1]
  rfl

theorem answerCacheRequest_other {a : Arrived} (h : a.packet.context ≠ ContextType.cacheRequest) (s : TransportState) :
    answerCacheRequest a s = (.value (), s) := by
  unfold answerCacheRequest
  rw [Prog.get_bind_run, show requestedPacket s a.packet = none from if_neg fun hcache => h hcache.1]
  rfl

/-- A packet that asks for no broadcast is handled in transport, then locally. -/
theorem process_eq {a : Arrived} (h : a.packet.destinationType ≠ .plain) :
    process env a s = (transportHandling env (clientFlags (rememberHash env a.packet s) a) a
      >>= localHandling env (clientFlags (rememberHash env a.packet s) a)) (rememberHash env a.packet s) := by
  unfold process
  rw [Prog.modify_bind_run, Prog.get_bind_run, Prog.bind_value (broadcastPlain_other h _)]

/-- Regenerating the transport id changes nothing else. -/
theorem regenerateTransportId_eq (flags : ClientFlags) (a : Arrived) :
    ∃ transportId, regenerateTransportId flags a = { a with packet := { a.packet with transportId } } := by
  unfold regenerateTransportId
  split
  · exact ⟨_, rfl⟩
  · exact ⟨a.packet.transportId, rfl⟩

/-- Remembering the hash of a packet transmits nothing and leaves the paths and the links as they are. -/
theorem rememberHash_same (env : Environment) (p : Packet) (s : TransportState) :
    (rememberHash env p s).wire = s.wire ∧ (rememberHash env p s).linkTable = s.linkTable
      ∧ (rememberHash env p s).destinations = s.destinations
      ∧ ∀ d, getPath (rememberHash env p s) d = getPath s d := by
  unfold rememberHash
  split <;> exact ⟨rfl, rfl, rfl, fun _ => rfl⟩

/-- What is recorded of a forwarded packet is a reverse entry or, for a link request, a link entry. -/
theorem recordForward_same (env : Environment) (a : Arrived) (path : DestinationEntry) (s : TransportState) :
    (recordForward env a path s).wire = s.wire ∧ (recordForward env a path s).destinations = s.destinations
      ∧ (a.packet.packetType ≠ .linkrequest → (recordForward env a path s).linkTable = s.linkTable) := by
  unfold recordForward
  split
  case isTrue hrequest => exact ⟨rfl, rfl, fun hother => absurd hrequest hother⟩
  case isFalse => exact ⟨rfl, rfl, fun _ => rfl⟩

/-- A designated next hop hands nothing over, or passes the packet on along its path and records it. -/
theorem forwardNextHop_cases (env : Environment) (a : Arrived) (s : TransportState) :
    (forwardNextHop env a s).2.wire = s.wire
      ∨ ∃ path raw', nextHopPath s a = some path ∧ forwardRaw a path = .ok raw'
        ∧ path.receivingInterface.ifacIdentity = false
        ∧ (forwardNextHop env a s).2
          = { recordForward env a path s with wire := (path.receivingInterface, raw') :: s.wire } := by
  rw [forwardNextHop_state]
  cases hpath : nextHopPath s a with
  | none => exact .inl rfl
  | some path =>
    dsimp only
    cases hforward : forwardRaw a path with
    | error e => exact .inl rfl
    | ok raw' =>
      have hwire := (recordForward_same env a path s).1
      dsimp only
      rw [transmitOn_one]
      split
      case isFalse => exact .inl hwire
      case isTrue hsends => exact .inr ⟨path, raw', rfl, hforward, hsends, by rw [hwire]⟩

/-- All that a node does with a packet is to pass it on as the designated next hop. -/
structure OnlyPasses (env : Environment) (a : Arrived) (s : TransportState) : Prop where
  notPlain : a.packet.destinationType ≠ .plain
  notCacheRequest : a.packet.context ≠ ContextType.cacheRequest
  rest : ∀ t, t.destinations = s.destinations → (a.packet.packetType ≠ .linkrequest → t.linkTable = s.linkTable) →
    ∀ transportId flags, linkTransport env { a with packet := { a.packet with transportId } } t = (.value (), t)
      ∧ localHandling env flags { a with packet := { a.packet with transportId } } t = (.value (), t)

/-- Forwarding to the next hop leaves the destinations alone, and the links too unless it is a link request. -/
theorem forwardNextHop_same (env : Environment) (a : Arrived) (s : TransportState) :
    (forwardNextHop env a s).2.destinations = s.destinations
      ∧ (a.packet.packetType ≠ .linkrequest → (forwardNextHop env a s).2.linkTable = s.linkTable) := by
  rw [forwardNextHop_state]
  cases nextHopPath s a with
  | none => exact ⟨rfl, fun _ => rfl⟩
  | some path =>
    dsimp only
    cases forwardRaw a path with
    | error e => exact ⟨rfl, fun _ => rfl⟩
    | ok raw' =>
      obtain ⟨-, hdestinations, htable⟩ := recordForward_same env a path s
      dsimp only
      rw [transmitOn_one]
      split <;> exact ⟨hdestinations, htable⟩

/-- Such a packet is left where it is, or goes through the forwarding, and that is all. -/
theorem process_passes (env : Environment) {a : Arrived} (honly : OnlyPasses env a s) :
    (process env a s).2 = rememberHash env a.packet s
      ∨ ∃ flags, (flags.forLocalClient = true → ∃ path, getPath s a.packet.destinationHash = some path ∧ path.hops = 0)
        ∧ (process env a s).2
          = (forwardNextHop env (regenerateTransportId flags a) (rememberHash env a.packet s)).2 := by
  obtain ⟨-, htable, hdestinations, hpaths⟩ := rememberHash_same env a.packet s
  rw [process_eq honly.notPlain]
  set u := rememberHash env a.packet s
  set flags := clientFlags u a with hflags
  by_cases htransports : transports env flags = true
  case neg =>
    left
    unfold transportHandling
    rw [if_neg htransports, Prog.pure_bind_run]
    rw [(honly.rest u hdestinations (fun _ => htable) a.packet.transportId flags).2]
  case pos =>
    refine .inr ⟨flags, fun hlocal => ?_, ?_⟩
    · rw [hflags] at hlocal
      obtain ⟨path, hpath, hhops⟩ := (Option.any_eq_true _ _).mp (Bool.and_eq_true_iff.mp hlocal).2
      exact ⟨path, (hpaths _).symm.trans hpath, of_decide_eq_true hhops⟩
    · obtain ⟨transportId, hsame⟩ := regenerateTransportId_eq flags a
      have hleaves := forwardNextHop_same env (regenerateTransportId flags a) u
      have hanswers := answerCacheRequest_other (a := regenerateTransportId flags a)
        (by rw [hsame]; exact honly.notCacheRequest) u
      unfold transportHandling
      rw [if_pos htransports, Prog.bind_run, Prog.bind_value hanswers, Prog.bind_run]
      rcases hforward : forwardNextHop env (regenerateTransportId flags a) u with ⟨_ | _ | _ | _, t⟩
      case value =>
        rw [hforward, hsame] at hleaves
        obtain ⟨hlink, hlocal⟩ := honly.rest t (hleaves.1.trans hdestinations)
          (fun hother => (hleaves.2 hother).trans htable) transportId flags
        rw [hsame]
        dsimp only
        rw [Prog.bind_value hlink]
        dsimp only [Prog.pure_run]
        rw [hlocal]
      all_goals rfl

/-- What becomes of such a packet: it is passed on along the path of the node and recorded, or nothing is handed
over. -/
theorem process_onlyPasses (env : Environment) {a : Arrived} (honly : OnlyPasses env a s) :
    (process env a s).2.wire = s.wire
      ∨ ∃ path raw', getPath s a.packet.destinationHash = some path ∧ forwardRaw a path = .ok raw'
        ∧ (0 < path.hops → a.packet.transportId.isSome) ∧ path.receivingInterface.ifacIdentity = false
        ∧ (process env a s).2 = { recordForward env a path (rememberHash env a.packet s) with
            wire := (path.receivingInterface, raw') :: s.wire } := by
  obtain ⟨hwire, -, -, hpaths⟩ := rememberHash_same env a.packet s
  rcases process_passes env honly with hkept | ⟨flags, hzero, hforwards⟩
  · rw [hkept]
    exact .inl hwire
  rw [hforwards]
  set u := rememberHash env a.packet s
  rcases forwardNextHop_cases env (regenerateTransportId flags a) u with
    hsame | ⟨path, raw', hpath, hraw, hsends, hstate⟩
  · exact .inl (hsame.trans hwire)
  -- the transport id is neither in what is forwarded nor in what is recorded
  have hregenerated : (regenerateTransportId flags a).packet.destinationHash = a.packet.destinationHash
      ∧ forwardRaw (regenerateTransportId flags a) path = forwardRaw a path
      ∧ recordForward env (regenerateTransportId flags a) path u = recordForward env a path u := by
    obtain ⟨transportId, hsame⟩ := regenerateTransportId_eq flags a
    rw [hsame]
    exact ⟨rfl, rfl, rfl⟩
  obtain ⟨hdestination, hforwarded, hrecorded⟩ := hregenerated
  unfold nextHopPath at hpath
  split at hpath
  case isFalse => cases hpath
  case isTrue hnamed =>
    rw [hdestination, hpaths] at hpath
    refine .inr ⟨path, raw', hpath, hforwarded.symm.trans hraw, fun hfar => ?_, hsends, ?_⟩
    · have hid := hnamed.2
      unfold regenerateTransportId at hid
      split at hid
      case isFalse =>
        rw [hid]
        rfl
      case isTrue hlocal =>
        -- a packet for a local client is not passed on any further
        obtain ⟨zero, hzero, hhops⟩ := hzero hlocal.2
        cases hpath.symm.trans hzero
        rw [hhops] at hfar
        exact absurd hfar (lt_irrefl 0)
    · rw [hstate, hrecorded, hwire]

namespace Relay

/-- What a node has handed on that only passes packets on: the packet as it is forwarded along its path. -/
theorem onward_passes {r r' : Relay} (hraw : unpack raw = some p)
    (honly : ∀ a : Arrived, (∃ hops, a.packet = { p with hops }) → OnlyPasses r.env a (setJobsLocked true r.state))
    (hpass : r.onward raw = (r', some raw')) :
    ∃ n path locked, getPath r.state p.destinationHash = some path
      ∧ forwardRaw (arrivedAt n r.state r.near p) path = .ok raw' ∧ (0 < path.hops → p.headerType = .header2)
      ∧ path.receivingInterface.id = r.far.id ∧ path.receivingInterface.ifacIdentity = false
      ∧ r'.near = r.near ∧ r'.far = r.far
      ∧ r'.state = setJobsLocked locked { recordForward r.env (arrivedAt n r.state r.near p) path
          (rememberHash r.env (arrivedAt n r.state r.near p).packet (setJobsLocked true r.state)) with
            wire := (path.receivingInterface, raw') :: r.state.wire } := by
  obtain ⟨rfl, hhanded⟩ := Prod.ext_iff.mp hpass
  have hhanded : handed r.far r.state (r.hears r.near raw).state = some raw' := hhanded
  have hsilent : ∀ {t : TransportState}, (r.hears r.near raw).state.wire = t.wire → t.wire ≠ r.state.wire := by
    intro t ht hsame
    have hnone : handed r.far r.state (r.hears r.near raw).state = none := handed_self _ (ht.trans hsame)
    cases hhanded.symm.trans hnone
  obtain ⟨n, q, hrunning, hidentity, hq, haccepts⟩ := processed_of_wire (hsilent rfl)
  cases hraw.symm.trans hq
  obtain ⟨locked, hstate⟩ := inbound_process hrunning hidentity hraw haccepts
  have hstate' : (r.hears r.near raw).state
      = setJobsLocked locked (process r.env (arrivedAt n r.state r.near p) (setJobsLocked true r.state)).2 := hstate
  rcases process_onlyPasses r.env (honly (arrivedAt n r.state r.near p) ⟨_, rfl⟩) with
    hsame | ⟨path, raw'', hpath, hforward, hid, hsends, hprocess⟩
  · exact absurd hsame (hsilent (by rw [hstate']; rfl))
  rw [hprocess] at hstate'
  rw [handed_cons (show (r.hears r.near raw).state.wire = (path.receivingInterface, raw'') :: r.state.wire by
    rw [hstate']; rfl)] at hhanded
  split at hhanded
  case isFalse => cases hhanded
  case isTrue hfar =>
    cases hhanded
    refine ⟨n, path, locked, hpath, hforward, fun hmore => ?_, hfar, hsends, rfl, rfl, hstate'⟩
    obtain ⟨hp, -, haddressed⟩ := unpack_sound hraw
    rw [congrArg Packet.headerType hp]
    exact haddressed.mp (hid hmore)

end Relay

/-! ## The request -/

/-- A link request on its way to its destination. -/
structure CrossingRequest (p : Packet) : Prop where
  isRequest : p.packetType = .linkrequest
  toSingle : p.destinationType = .single
  notCacheRequest : p.context ≠ ContextType.cacheRequest

/-- A destination that is not registered here is not found here. -/
theorem localDestination_foreign (h : p.destinationHash ∉ s.destinations) : localDestination s p = none := by
  unfold localDestination
  rw [AList.lookup_eq_none.mpr h]
  rfl

/-- Only the transport handling of a request for a destination of another node does anything. -/
theorem localHandling_request {a : Arrived} (htype : a.packet.packetType = .linkrequest)
    (hforeign : a.packet.destinationHash ∉ s.destinations) (flags : ClientFlags) :
    localHandling env flags a s = (.value (), s) := by
  unfold localHandling handleLinkRequest
  rw [htype]
  dsimp only
  rw [Prog.get_bind_run, Prog.when_of_not (by simp [localDestination_foreign hforeign])]
  rfl

/-- A link request for a destination elsewhere is only passed on: no branch for local delivery takes it. -/
theorem CrossingRequest.onlyPasses {a : Arrived} (hrequest : CrossingRequest a.packet)
    (hforeign : a.packet.destinationHash ∉ s.destinations) : OnlyPasses env a s where
  notPlain := by rw [hrequest.toSingle]; decide
  notCacheRequest := hrequest.notCacheRequest
  rest t hdestinations _ transportId flags := by
    have htype : ({ a with packet := { a.packet with transportId } } : Arrived).packet.packetType = .linkrequest :=
      hrequest.isRequest
    refine ⟨?_, localHandling_request htype (by rw [hdestinations]; exact hforeign) flags⟩
    unfold linkTransport
    rw [Prog.get_bind_run, Prog.when_of_not fun h => h.2.1 htype]
    rfl

/-- What the forwarding of a request does to its signalling bytes leaves the keys alone. -/
theorem forwardedData_left {phMtu : UInt16} {out : Interface} {data : Bytes}
    (h : forwardedData phMtu out p = .ok data) : data.left ecpubsize = p.data.left ecpubsize := by
  unfold forwardedData rewriteMtuData at h
  split at h
  case isFalse =>
    cases h
    rfl
  case isTrue =>
    dsimp only at h
    by_cases hsignals : mtuFromLrPacket p = 0
    · rw [if_pos hsignals] at h
      cases h
      rfl
    have hlength := length_of_mtuFromLrPacket_ne hsignals
    have hcut : p.data.length - linkMtuSize = ecpubsize := by rw [hlength, Nat.add_sub_cancel]
    have hkeys : (p.data.left ecpubsize).length = ecpubsize := by
      unfold Bytes.left
      rw [List.length_take, hlength]
      omega
    rw [if_neg hsignals, hcut] at h
    split at h
    · cases h
      exact List.take_of_length_le hkeys.le
    · split at h
      · cases hclamped : signallingBytes (clampedMtu phMtu out) (modeFromLrPacket p) with
        | error e =>
          rw [hclamped] at h
          cases h
        | ok clamped =>
          rw [hclamped] at h
          cases h
          exact List.take_left' hkeys
      · cases h
        rfl

/-- What is forwarded of a link request is a link request for the same destination, with the header the rest of the
path needs. -/
theorem forwardRaw_request {a : Arrived} {path : DestinationEntry} (hraw : unpack raw = some p) {hops : UInt8}
    (hpacket : ∃ transportId, a.packet = { p with hops, transportId })
    (htype : 0 < path.hops → p.headerType = .header2) (hforward : forwardRaw a path = .ok raw') :
    ∃ q, unpack raw' = some q ∧ (CrossingRequest p → CrossingRequest q) ∧ q.destinationHash = p.destinationHash
      ∧ linkIdPart q = linkIdPart p ∧ q.hops = hops := by
  obtain ⟨transportId, hpacket⟩ := hpacket
  have hforward' : nextHopForward { p with hops } a.receivingInterface.hwMtu path.receivingInterface path.receivedFrom
      path.hops = .ok raw' := by
    unfold forwardRaw at hforward
    rw [hpacket] at hforward
    exact hforward
  obtain ⟨flags, transportId', data, -, rfl, haddressed, hlow, hdata⟩ := nextHopForward_eq_layout hraw htype hforward'
  have hq : unpack (layout flags hops transportId' p.destinationHash p.context data)
      = some (ofLayout flags hops transportId' p.destinationHash p.context data) := unpack_layout haddressed
  have hp := (unpack_sound hraw).1
  refine ⟨_, hq, ?_, rfl, ?_, rfl⟩
  · rintro ⟨hrequest, hsingle, hcache⟩
    rw [congrArg Packet.packetType hp] at hrequest
    rw [congrArg Packet.destinationType hp] at hsingle
    have htypes := unpackFlags_of_low_eq hlow
    exact ⟨htypes.2.trans hrequest, htypes.1.trans hsingle, hcache⟩
  · rw [linkIdPart_unpack hq, linkIdPart_unpack hraw, ← forwardedData_left hdata, ← hlow]
    rfl

namespace Relay

/-- What a node has noted of a link: its request came in on the near side after so many hops, and went out on the far
side along a path. -/
structure Laid (linkId : Address) (hops : UInt8) (path : DestinationEntry) (r : Relay) : Prop where
  entry : ∃ e, r.state.linkTable.lookup linkId = some e ∧ e.receivingInterface = r.near
    ∧ e.outboundInterface = path.receivingInterface ∧ e.hops = hops ∧ e.remainingHops = path.hops
  far : path.receivingInterface.id = r.far.id
  sends : path.receivingInterface.ifacIdentity = false

/-- A node that has nothing to do with a link yet, and leads to other nodes on its near side. -/
structure Open (hash : Bytes → Hash) (linkId d : Address) (r : Relay) : Prop where
  hash : r.env.fullHash = hash
  peers : leadsToPeers r.state r.near = true
  sends : r.near.ifacIdentity = false
  new : linkId ∉ r.state.linkTable
  foreign : d ∉ r.state.destinations

/-- A node that passes a link request on has noted the link. -/
theorem onward_request {r r' : Relay} {hash : Bytes → Hash} (hraw : unpack raw = some p)
    (hrequest : CrossingRequest p) (hopen : r.Open hash (linkIdFromLrPacket hash p) p.destinationHash)
    (hpass : r.onward raw = (r', some raw')) :
    ∃ path q, getPath r.state p.destinationHash = some path
      ∧ r'.Laid (linkIdFromLrPacket hash p) (p.hops + 1) path
      ∧ unpack raw' = some q ∧ CrossingRequest q ∧ q.destinationHash = p.destinationHash
      ∧ linkIdPart q = linkIdPart p ∧ q.hops = p.hops + 1 := by
  have honly : ∀ a : Arrived, (∃ hops, a.packet = { p with hops }) →
      OnlyPasses r.env a (setJobsLocked true r.state) := by
    rintro a ⟨hops, hpacket⟩
    refine CrossingRequest.onlyPasses ?_ ?_ <;> rw [hpacket]
    · exact ⟨hrequest.isRequest, hrequest.toSingle, hrequest.notCacheRequest⟩
    · exact hopen.foreign
  obtain ⟨n, path, locked, hpath, hforward, hheader, hfar, hsends, hnear', hfar', hstate⟩ :=
    onward_passes hraw honly hpass
  have hhops : arrivalHops r.state r.near p.hops = p.hops + 1 := by rw [arrivalHops_eq, hopen.peers, if_pos rfl]
  obtain ⟨q, hq, hcrosses, hsame, hpart, hqhops⟩ := forwardRaw_request hraw ⟨p.transportId, rfl⟩ hheader hforward
  refine ⟨path, q, hpath, ⟨⟨linkEntry r.env (arrivedAt n r.state r.near p) path, ?_, hnear'.symm, rfl, hhops, rfl⟩,
    hfar.trans (congrArg _ hfar'.symm), hsends⟩, hq, hcrosses hrequest, hsame, hpart, hqhops.trans hhops⟩
  rw [hstate]
  show (recordForward r.env (arrivedAt n r.state r.near p) path
    (rememberHash r.env (arrivedAt n r.state r.near p).packet (setJobsLocked true r.state))).linkTable.lookup _ = _
  have hnew : linkIdFromLrPacket hash p ∉ (setJobsLocked true r.state).linkTable := hopen.new
  have hlinkId : linkIdFromLrPacket r.env.fullHash (arrivedAt n r.state r.near p).packet
      = linkIdFromLrPacket hash p := by
    rw [hopen.hash]
    rfl
  have htype : (arrivedAt n r.state r.near p).packet.packetType = .linkrequest := hrequest.isRequest
  unfold recordForward
  rw [if_pos htype, hlinkId]
  dsimp only
  rw [(rememberHash_same _ _ _).2.1]
  unfold Table.emplace
  rw [if_neg hnew, AList.lookup_insert]

end Relay

/-! ## The packets behind it -/

variable {P : LinkPacket} {h c : UInt8} {e : LinkEntry}

/-- What transport does with a packet of a link that it has an entry for. -/
def linkTransported (env : Environment) (a : Arrived) (e : LinkEntry) (s : TransportState) : TransportState :=
  match linkTransportInterface a e with
  | none => s
  | some i =>
    addPacketHash (a.packet.getHash env.fullHash)
      { (transmitOn env [i] (hopRaw a.packet) s).2 with
        linkTable := (transmitOn env [i] (hopRaw a.packet) s).2.linkTable.adjust a.packet.destinationHash fun entry =>
          { entry with timestamp := env.now } }

/-- A packet of a link in the table is passed on as the entry says, and the call comes back. -/
theorem linkTransport_run (env : Environment) {a : Arrived}
    (htype : a.packet.packetType = .data ∨ a.packet.packetType = .proof)
    (hcontext : a.packet.context ≠ ContextType.lrproof) (he : s.linkTable.lookup a.packet.destinationHash = some e) :
    linkTransport env a s = (.value (), linkTransported env a e s) := by
  have hnot : a.packet.packetType ≠ .announce ∧ a.packet.packetType ≠ .linkrequest
      ∧ a.packet.context ≠ ContextType.lrproof := by
    rcases htype with h | h <;> rw [h] <;> exact ⟨by decide, by decide, hcontext⟩
  unfold linkTransport linkTransported
  rw [Prog.get_bind_run, Prog.when_of hnot, he, Option.bind_some]
  cases linkTransportInterface a e with
  | none => rfl
  | some i =>
    obtain ⟨_, t, hrun⟩ := transmitOn_succeeds env [i] (hopRaw a.packet) s
    dsimp only
    rw [Prog.bind_value hrun, hrun]
    rfl

/-- The node is no end of a link, and knows nothing else by its id. -/
structure OnlyCarries (linkId : Address) (s : TransportState) : Prop where
  noPath : getPath s linkId = none
  foreign : ∀ l ∈ s.activeLinks, l.linkId ≠ linkId
  noReverse : linkId ∉ s.reverseTable

/-- The receipts of the node send nothing and leave its links alone when a proof is offered to them. -/
def ReceiptsSpare (env : Environment) : Prop :=
  ∀ r p link s, (env.validateProofPacket r p link s).2.wire = s.wire
    ∧ (env.validateProofPacket r p link s).2.linkTable = s.linkTable

/-- Nothing is sent, and the link table is as it was. -/
def SameLinks (s t : TransportState) : Prop := t.wire = s.wire ∧ t.linkTable = s.linkTable

theorem SameLinks.refl (s : TransportState) : SameLinks s s := ⟨rfl, rfl⟩

theorem SameLinks.trans (s t u : TransportState) (h : SameLinks s t) (h' : SameLinks t u) : SameLinks s u :=
  ⟨h'.1.trans h.1, h'.2.trans h.2⟩

/-- Concluding receipts leaves the link table and the destinations alone, as the receipts are promised to. -/
theorem concludeReceipts_sameLinks (hreceipts : ReceiptsSpare env) (a : Arrived) :
    Prog.Keeps SameLinks (concludeReceipts env a) := by
  refine .bind SameLinks.trans (.get SameLinks.refl) fun s => ?_
  refine .bind SameLinks.trans (.fold SameLinks.refl SameLinks.trans _ (fun r _ concluded => ?_) _) fun concluded => ?_
  · exact .bind SameLinks.trans (callHandler_keeps (hreceipts r _ _)) fun _ => .pure SameLinks.refl _
  · exact .modify fun _ => ⟨rfl, rfl⟩

/-- Local handling of a packet of a link that the node only carries sends nothing. -/
theorem localHandling_sameLinks (hreceipts : ReceiptsSpare env) {a : Arrived}
    (htype : a.packet.packetType = .data ∨ a.packet.packetType = .proof) (hlink : a.packet.destinationType = .link)
    (hcontext : a.packet.context ≠ ContextType.lrproof) (hcarries : OnlyCarries a.packet.destinationHash s)
    (flags : ClientFlags) : SameLinks s (localHandling env flags a s).2 := by
  have hfind : (s.activeLinks.find? fun l => l.linkId = a.packet.destinationHash) = none :=
    List.find?_eq_none.mpr fun l hl => by simpa using hcarries.foreign l hl
  unfold localHandling
  rcases htype with htype | htype <;> rw [htype]
  · -- data
    dsimp only
    rw [if_pos hlink]
    unfold handleLinkData
    rw [Prog.get_bind_run, hfind]
    exact .refl s
  · -- a proof
    dsimp only
    unfold handleProof
    rw [if_neg hcontext]
    split
    · unfold handleResourceProof
      rw [Prog.get_bind_run, show (s.activeLinks.filter fun l => l.linkId = a.packet.destinationHash) = [] from
        List.filter_eq_nil_iff.mpr fun l hl => by simpa using hcarries.foreign l hl]
      exact .refl s
    · have hproof : transportProof env flags a s = (.value (), s) := by
        unfold transportProof
        rw [Prog.get_bind_run, AList.lookup_eq_none.mpr hcarries.noReverse, ite_self]
        rfl
      rw [Prog.bind_value hproof]
      exact concludeReceipts_sameLinks hreceipts a s

/-- Passing a packet of a link on leaves the entry of the link in place. -/
theorem linkTransported_carries {a : Arrived} {linkId : Address} (h : OnlyCarries linkId s) :
    OnlyCarries linkId (linkTransported env a e s) := by
  unfold linkTransported
  split
  · exact h
  · rw [transmitOn_one]
    split <;> exact ⟨h.noPath, h.foreign, h.noReverse⟩

/-- A packet of a link that the node only carries: what transport makes of it is all that is sent. -/
theorem process_linkPacket (hreceipts : ReceiptsSpare env) (htransport : env.transportEnabled = true) {a : Arrived}
    (hpacket : a.packet = { P.packet h with hops := c }) (hcarries : OnlyCarries P.linkId s)
    (he : s.linkTable.lookup P.linkId = some e) :
    SameLinks (linkTransported env a e s) (process env a s).2 := by
  have htype : a.packet.packetType = .data ∨ a.packet.packetType = .proof := by
    rw [hpacket]
    exact P.carries
  have hlink : a.packet.destinationType = .link := by
    rw [hpacket]
    exact P.toLink
  have hcontext : a.packet.context = P.context := by rw [hpacket]; rfl
  have hhash : a.packet.destinationHash = P.linkId := by rw [hpacket]; rfl
  have hid : a.packet.transportId = none := by rw [hpacket]; rfl
  have hremember : rememberHash env a.packet s = s := by
    unfold rememberHash
    have hmem : a.packet.destinationHash ∈ s.linkTable := AList.lookup_isSome.mp (by rw [hhash, he]; rfl)
    exact if_neg fun hnew => hnew.1 hmem
  have hlocal : (clientFlags s a).forLocalClient = false := by
    unfold clientFlags
    simp [hhash, hcarries.noPath]
  have hforward : forwardNextHop env a s = (.value (), s) := by
    unfold forwardNextHop
    rw [Prog.get_bind_run, show nextHopPath s a = none from if_neg (by simp [hid])]
    rfl
  have hrun := linkTransport_run env htype (by rw [hcontext]; exact P.notLinkProof) (by rw [hhash]; exact he)
  have htransported : transportHandling env (clientFlags s a) a s = (.value a, linkTransported env a e s) := by
    unfold transportHandling transports
    rw [htransport, Bool.true_or, Bool.true_or, Bool.true_or, if_pos rfl,
      show regenerateTransportId (clientFlags s a) a = a from if_neg (by simp [hlocal])]
    rw [Prog.bind_value (answerCacheRequest_other (by rw [hcontext]; exact P.notCacheRequest) s),
      Prog.bind_value hforward, Prog.bind_value hrun]
    rfl
  rw [process_eq (by rw [hlink]; decide), hremember, Prog.bind_value htransported]
  refine localHandling_sameLinks hreceipts htype hlink (by rw [hcontext]; exact P.notLinkProof) ?_ _
  rw [hhash]
  exact linkTransported_carries hcarries

/-- The hash of a packet of a link is the same behind any number of hops. -/
theorem LinkPacket.getHash_packet (P : LinkPacket) (fullHash : Bytes → Hash) (h hops : UInt8) :
    ({ P.packet h with hops } : Packet).getHash fullHash = (P.packet 0).getHash fullHash := by
  have hsame : (P.packet h).getHashablePart = (P.packet 0).getHashablePart :=
    (getHashablePart_unpack (P.unpack_raw h)).trans (getHashablePart_unpack (P.unpack_raw 0)).symm
  exact congrArg fullHash hsame

/-- A packet that was not heard before passes the filter, if it names no node and is for no group. -/
theorem accepts_fresh {s : TransportState} (hfilter : ∀ p, env.filterPacket p = .ok true)
    (hshared : env.ownerConnectedToSharedInstance = false) (hid : p.transportId = none)
    (hplain : p.destinationType ≠ .plain) (hgroup : p.destinationType ≠ .group)
    (hfresh : p.getHash env.fullHash ∉ s.packetHashlist) : acceptsPacket env s p = true := by
  unfold acceptsPacket packetFilter
  rw [hfilter, hshared]
  simp [hid, hplain, hgroup, hfresh]

namespace Relay

/-- A node that can take a packet of a link. -/
structure Ready (P : LinkPacket) (r : Relay) : Prop where
  running : r.state.jobsRunning = false
  identity : r.state.identity.isSome
  transport : r.env.transportEnabled = true
  nearPeers : leadsToPeers r.state r.near = true
  farPeers : leadsToPeers r.state r.far = true
  sends : r.near.ifacIdentity = false
  accepts : ∀ h hops, acceptsPacket r.env r.state { P.packet h with hops } = true
  carries : OnlyCarries P.linkId r.state
  receipts : ReceiptsSpare r.env

/-- The node has its entry for a link as it was noted; anything else may have changed. -/
structure Still (linkId : Address) (r r' : Relay) : Prop where
  near : r'.near = r.near
  far : r'.far = r.far
  entry : ∀ e, r.state.linkTable.lookup linkId = some e → ∃ e', r'.state.linkTable.lookup linkId = some e'
    ∧ e'.receivingInterface = e.receivingInterface ∧ e'.outboundInterface = e.outboundInterface
    ∧ e'.hops = e.hops ∧ e'.remainingHops = e.remainingHops

/-- A relay through which a link is laid keeps it laid while nothing about the link changes. -/
theorem Laid.still {r r' : Relay} {linkId : Address} {hops : UInt8} {path : DestinationEntry}
    (h : r.Laid linkId hops path) (hstill : Still linkId r r') : r'.Laid linkId hops path := by
  obtain ⟨e, he, hnear, hfar, hhops, hremaining⟩ := h.entry
  obtain ⟨e', he', hnear', hfar', hhops', hremaining'⟩ := hstill.entry e he
  exact ⟨⟨e', he', by rw [hnear', hnear, hstill.near], hfar'.trans hfar, hhops'.trans hhops,
    hremaining'.trans hremaining⟩, by rw [hstill.far]; exact h.far, h.sends⟩

/-- The state behind a packet of a link. -/
theorem hears_linkPacket {r : Relay} (hready : r.Ready P) (he : r.state.linkTable.lookup P.linkId = some e)
    (i : Interface) (hpeers : leadsToPeers r.state i = true) :
    ∃ a, a.receivingInterface = i ∧ a.packet = { P.packet h with hops := h + 1 }
      ∧ SameLinks (linkTransported r.env a e (setJobsLocked true r.state)) (r.hears i (P.raw h)).state := by
  obtain ⟨n, hidentity⟩ := Option.isSome_iff_exists.mp hready.identity
  have hhops : arrivalHops r.state i h = h + 1 := by rw [arrivalHops_eq, hpeers, if_pos rfl]
  have hpacket : (arrivedAt n r.state i (P.packet h)).packet = { P.packet h with hops := h + 1 } := by
    rw [← hhops]
    rfl
  have haccepts : acceptsPacket r.env r.state (arrivedAt n r.state i (P.packet h)).packet = true := by
    rw [hpacket]
    exact hready.accepts h _
  obtain ⟨locked, hstate⟩ := inbound_process hready.running hidentity (P.unpack_raw h) haccepts
  refine ⟨_, rfl, hpacket, ?_⟩
  have hprocess := process_linkPacket (s := setJobsLocked true r.state) hready.receipts hready.transport hpacket
    ⟨hready.carries.noPath, hready.carries.foreign, hready.carries.noReverse⟩ he
  show SameLinks _ (inbound r.env (P.raw h) (some i) r.state).2
  rw [hstate]
  exact hprocess

/-- The hop counts of the packets a node passes on from its near side. With one interface on both sides it cannot tell
them apart. -/
def TakesOnward (linkId : Address) (r : Relay) (raw : Bytes) : Prop :=
  ∃ e, r.state.linkTable.lookup linkId = some e
    ∧ (raw.byte 1 + 1 = e.hops ∨ r.near.id = r.far.id ∧ raw.byte 1 + 1 = e.remainingHops)

/-- The hop counts of the packets a node passes on from its far side. -/
def TakesBackward (linkId : Address) (r : Relay) (raw : Bytes) : Prop :=
  ∃ e, r.state.linkTable.lookup linkId = some e
    ∧ (raw.byte 1 + 1 = e.remainingHops ∨ r.near.id = r.far.id ∧ raw.byte 1 + 1 = e.hops)

/-- A packet that the entry expects goes out on the other side, and any other one nowhere. -/
theorem handed_linkPacket {r : Relay} (hready : r.Ready P) (he : r.state.linkTable.lookup P.linkId = some e)
    {i j : Interface} (hpeers : leadsToPeers r.state i = true) {takes : Prop}
    (hside : ∀ a : Arrived, a.receivingInterface = i → a.packet.hops = h + 1 →
      takes ∧ (∃ out, linkTransportInterface a e = some out ∧ out.ifacIdentity = false ∧ out.id = j.id)
        ∨ ¬ takes ∧ linkTransportInterface a e = none) :
    takes ∧ handed j r.state (r.hears i (P.raw h)).state = some (P.raw (h + 1))
      ∨ ¬ takes ∧ handed j r.state (r.hears i (P.raw h)).state = none := by
  obtain ⟨a, hinterface, hpacket, hwire, -⟩ := hears_linkPacket (h := h) hready he i hpeers
  unfold linkTransported at hwire
  rcases hside a hinterface (by rw [hpacket]) with ⟨htakes, out, hout, hsends, hid⟩ | ⟨hnot, hout⟩
  · rw [hout] at hwire
    dsimp only [addPacketHash] at hwire
    rw [transmitOn_one, if_pos hsends, hpacket, P.hopRaw_packet] at hwire
    have hcons : (r.hears i (P.raw h)).state.wire = (out, P.raw (h + 1)) :: r.state.wire := hwire
    exact .inl ⟨htakes, by rw [handed_cons hcons, if_pos hid]⟩
  · rw [hout] at hwire
    exact .inr ⟨hnot, handed_self _ hwire⟩

/-- A packet of the link that is heard changes nothing about the link at this relay. -/
theorem hears_still {r : Relay} (hready : r.Ready P) (he : r.state.linkTable.lookup P.linkId = some e) {i : Interface}
    (hpeers : leadsToPeers r.state i = true) : Still P.linkId r (r.hears i (P.raw h)) := by
  obtain ⟨a, -, hpacket, -, htable⟩ := hears_linkPacket (h := h) hready he i hpeers
  have hhash : a.packet.destinationHash = P.linkId := by rw [hpacket]; rfl
  refine ⟨rfl, rfl, fun e' he' => ?_⟩
  cases he.symm.trans he'
  have hkept : ∀ out, (transmitOn r.env [out] (hopRaw a.packet) (setJobsLocked true r.state)).2.linkTable
      = r.state.linkTable := by
    intro out
    rw [transmitOn_one]
    split <;> rfl
  rw [htable]
  unfold linkTransported
  split
  · exact ⟨e, he, rfl, rfl, rfl, rfl⟩
  · dsimp only [addPacketHash]
    rw [hkept, hhash]
    unfold Table.adjust
    rw [he]
    exact ⟨_, AList.lookup_insert _, rfl, rfl, rfl, rfl⟩

/-- A packet comes back through a relay exactly with the number of hops that the path from the far side counts, or,
where both sides are one interface, with the number from the near side. -/
theorem Laid.takesBackward_iff {r : Relay} {path : DestinationEntry} (hlaid : r.Laid P.linkId c path) :
    TakesBackward P.linkId r (P.raw h) ↔ path.hops = h + 1 ∨ r.near.id = r.far.id ∧ c = h + 1 := by
  obtain ⟨e, he, -, -, hhops, hremaining⟩ := hlaid.entry
  unfold TakesBackward
  rw [he, ← hhops, ← hremaining, eq_comm (a := e.remainingHops), eq_comm (a := e.hops)]
  simp only [Option.some.injEq, exists_eq_left']
  rfl

/-- A relay passes a packet of the link on with one hop more, or does not take it and hands over nothing. -/
theorem onward_linkPacket {r : Relay} {path : DestinationEntry} (hready : r.Ready P) (hlaid : r.Laid P.linkId c path) :
    TakesOnward P.linkId r (P.raw h) ∧ (r.onward (P.raw h)).2 = some (P.raw (h + 1))
      ∨ ¬ TakesOnward P.linkId r (P.raw h) ∧ (r.onward (P.raw h)).2 = none := by
  obtain ⟨e, he, hnear, hfar, -⟩ := hlaid.entry
  have hid : e.outboundInterface.id = r.far.id := by rw [hfar, hlaid.far]
  refine handed_linkPacket hready he hready.nearPeers fun a hinterface hhops => ?_
  have htakes : TakesOnward P.linkId r (P.raw h) ↔ h + 1 = e.hops ∨ r.near.id = r.far.id ∧ h + 1 = e.remainingHops := by
    unfold TakesOnward
    rw [he]
    simp only [Option.some.injEq, exists_eq_left']
    rfl
  rw [htakes]
  unfold linkTransportInterface
  rw [hinterface, hhops, hnear, hid]
  by_cases hone : r.far.id = r.near.id
  · rw [if_pos hone]
    by_cases hexpected : h + 1 = e.remainingHops ∨ h + 1 = e.hops
    · rw [if_pos hexpected]
      exact .inl ⟨hexpected.symm.imp_right fun hr => ⟨hone.symm, hr⟩, _, rfl, by rw [hfar]; exact hlaid.sends, hid⟩
    · rw [if_neg hexpected]
      exact .inr ⟨fun hor => hexpected (hor.symm.imp_left And.right), rfl⟩
  · rw [if_neg hone, if_neg (Ne.symm hone), if_pos rfl]
    by_cases hexpected : h + 1 = e.hops
    · rw [if_pos hexpected]
      exact .inl ⟨.inl hexpected, _, rfl, by rw [hfar]; exact hlaid.sends, hid⟩
    · rw [if_neg hexpected]
      exact .inr ⟨fun hor => hor.elim hexpected fun hboth => hone hboth.1.symm, rfl⟩

theorem backward_linkPacket {r : Relay} {path : DestinationEntry} (hready : r.Ready P)
    (hlaid : r.Laid P.linkId c path) :
    TakesBackward P.linkId r (P.raw h) ∧ (r.backward (P.raw h)).2 = some (P.raw (h + 1))
      ∨ ¬ TakesBackward P.linkId r (P.raw h) ∧ (r.backward (P.raw h)).2 = none := by
  obtain ⟨e, he, hnear, hfar, -⟩ := hlaid.entry
  have hid : e.outboundInterface.id = r.far.id := by rw [hfar, hlaid.far]
  refine handed_linkPacket hready he hready.farPeers fun a hinterface hhops => ?_
  have htakes : TakesBackward P.linkId r (P.raw h)
      ↔ h + 1 = e.remainingHops ∨ r.near.id = r.far.id ∧ h + 1 = e.hops := by
    unfold TakesBackward
    rw [he]
    simp only [Option.some.injEq, exists_eq_left']
    rfl
  rw [htakes]
  unfold linkTransportInterface
  rw [hinterface, hhops, hnear, hid]
  by_cases hone : r.far.id = r.near.id
  · rw [if_pos hone]
    by_cases hexpected : h + 1 = e.remainingHops ∨ h + 1 = e.hops
    · rw [if_pos hexpected]
      exact .inl ⟨hexpected.imp_right fun hr => ⟨hone.symm, hr⟩, _, rfl, by rw [hfar]; exact hlaid.sends,
        hid.trans hone⟩
    · rw [if_neg hexpected]
      exact .inr ⟨fun hor => hexpected (hor.imp_right And.right), rfl⟩
  · rw [if_neg hone, if_pos rfl]
    by_cases hexpected : h + 1 = e.remainingHops
    · rw [if_pos hexpected]
      exact .inl ⟨.inl hexpected, _, rfl, hready.sends, rfl⟩
    · rw [if_neg hexpected]
      exact .inr ⟨fun hor => hor.elim hexpected fun hboth => hone hboth.1.symm, rfl⟩

end Relay

/-! ## The line -/

theorem hops_add_one (h : UInt8) (j : Nat) : h + UInt8.ofNat j + 1 = h + UInt8.ofNat (j + 1) := by
  rw [UInt8.ofNat_add, ← UInt8.add_assoc]
  rfl

theorem hops_succ (h : UInt8) (j : Nat) : h + 1 + UInt8.ofNat j = h + UInt8.ofNat (j + 1) := by
  rw [UInt8.ofNat_add, UInt8.add_assoc, UInt8.add_comm 1]
  rfl

/-- The nodes of a line that a link request has crossed. -/
theorem carried_request {hash : Bytes → Hash} {nodes nodes' : List Relay} {out : Bytes}
    (h : Carried Relay.onward nodes raw nodes' out) (hraw : unpack raw = some p) (hrequest : CrossingRequest p)
    (hopen : ∀ r ∈ nodes, r.Open hash (linkIdFromLrPacket hash p) p.destinationHash) (j : Nat) (hj : j < nodes.length)
    (hj' : j < nodes'.length) :
    ∃ path, getPath nodes[j].state p.destinationHash = some path
      ∧ nodes'[j].Laid (linkIdFromLrPacket hash p) (p.hops + UInt8.ofNat (j + 1)) path
      ∧ nodes'[j].near = nodes[j].near ∧ nodes'[j].far = nodes[j].far := by
  induction h generalizing p j with
  | nil => exact absurd hj (Nat.not_lt_zero j)
  | @cons r r' raw raw' out l l' hpass hrest ih =>
    obtain ⟨path, q, hpath, hlaid, hq, hcrosses, hdestination, hpart, hhops⟩ :=
      Relay.onward_request hraw hrequest (hopen r List.mem_cons_self) hpass
    cases j with
    | zero =>
      obtain ⟨rfl, -⟩ := Prod.ext_iff.mp hpass
      exact ⟨path, hpath, hlaid, rfl, rfl⟩
    | succ j =>
      have hlinkId : linkIdFromLrPacket hash q = linkIdFromLrPacket hash p := congrArg (truncatedHash hash) hpart
      have hrest := ih hq hcrosses
        (fun r hr => by rw [hlinkId, hdestination]; exact hopen r (List.mem_cons_of_mem _ hr)) j
        (Nat.lt_of_succ_lt_succ hj) (Nat.lt_of_succ_lt_succ hj')
      rw [hlinkId, hdestination, hhops, hops_succ] at hrest
      exact hrest

/-- A packet of a link behind one more hop. -/
def LinkPacket.next (P : LinkPacket) (raw : Bytes) : Bytes := P.raw (raw.byte 1 + 1)

/-- After some relays the packet has as many hops more, and is otherwise what it was. -/
theorem LinkPacket.next_iterate (P : LinkPacket) (hops : UInt8) (j : Nat) :
    P.next^[j] (P.raw hops) = P.raw (hops + UInt8.ofNat j) := by
  induction j generalizing hops with
  | zero => simp
  | succ j ih =>
    rw [Function.iterate_succ_apply, show P.next (P.raw hops) = P.raw (hops + 1) from rfl, ih, hops_succ]

/-- What a line makes of a packet of its link, in either direction. -/
theorem carry_linkPacket (pass : Relay → Bytes → Relay × Option Bytes) (takes : Relay → Bytes → Prop)
    {nodes : List Relay} (hpass : ∀ r ∈ nodes, ∀ h, takes r (P.raw h) ∧ (pass r (P.raw h)).2 = some (P.raw (h + 1))
      ∨ ¬ takes r (P.raw h) ∧ (pass r (P.raw h)).2 = none) (hops : UInt8) :
    (carry pass nodes (P.raw hops)).2 = some (P.raw (hops + UInt8.ofNat nodes.length))
      ↔ ∀ j (hj : j < nodes.length), takes nodes[j] (P.raw (hops + UInt8.ofNat j)) := by
  have halong : Along (fun r raw => takes r raw ∧ (pass r raw).2 = some (P.next raw)
      ∨ ¬ takes r raw ∧ (pass r raw).2 = none) P.next nodes (P.raw hops) := by
    refine Along.of_forall (I := fun raw => ∃ h, raw = P.raw h) ?_ ?_ ⟨hops, rfl⟩
    · rintro _ ⟨h, rfl⟩
      exact ⟨h + 1, rfl⟩
    · rintro r hr _ ⟨h, rfl⟩
      exact hpass r hr h
  rw [← LinkPacket.next_iterate, carry_eq_some_iff halong, along_iff_getElem]
  simp only [LinkPacket.next_iterate]

/-- After a link request has crossed a line of nodes, and as long as they keep their entries for the link, every packet
that the initiator sends with as many hops as the request had crosses it as well. A packet that comes from the other
end crosses it exactly if every node had a path with as many hops as the packet has made when it comes to the node, or
has one interface for both sides and the request had made as many hops. Packets leave the entries as they are. -/
theorem link_packets_cross_iff (hash : Bytes → Hash) (nodes : List Relay) (raw : Bytes) (request : Packet)
    (hraw : unpack raw = some request) (hrequest : CrossingRequest request)
    (hopen : ∀ r ∈ nodes, r.Open hash (linkIdFromLrPacket hash request) request.destinationHash) (out : Bytes)
    (hcrossed : (carry Relay.onward nodes raw).2 = some out) (nodes' : List Relay)
    (hstill : List.Forall₂ (Relay.Still (linkIdFromLrPacket hash request)) (carry Relay.onward nodes raw).1 nodes')
    (P : LinkPacket) (hP : P.linkId = linkIdFromLrPacket hash request) (hready : ∀ r ∈ nodes', r.Ready P) :
    (carry Relay.onward nodes' (P.raw request.hops)).2 = some (P.raw (request.hops + UInt8.ofNat nodes.length))
      ∧ (∀ hops, (carry Relay.backward nodes'.reverse (P.raw hops)).2 = some (P.raw (hops + UInt8.ofNat nodes.length))
        ↔ ∀ j (hj : j < nodes.length), ∃ path, getPath nodes[j].state request.destinationHash = some path
          ∧ (path.hops = hops + UInt8.ofNat (nodes.length - j)
            ∨ nodes[j].near.id = nodes[j].far.id
              ∧ request.hops + UInt8.ofNat (j + 1) = hops + UInt8.ofNat (nodes.length - j)))
      ∧ ∀ r ∈ nodes', ∀ hops, Relay.Still P.linkId r (r.onward (P.raw hops)).1
        ∧ Relay.Still P.linkId r (r.backward (P.raw hops)).1 := by
  have hcarried := carried_of_carry hcrossed
  have hlength : nodes'.length = nodes.length := hstill.length_eq.symm.trans hcarried.length
  -- what each node has noted
  have hlaid : ∀ j (hj : j < nodes.length) (hj' : j < nodes'.length), ∃ path,
      getPath nodes[j].state request.destinationHash = some path
        ∧ nodes'[j].Laid P.linkId (request.hops + UInt8.ofNat (j + 1)) path
        ∧ nodes'[j].near = nodes[j].near ∧ nodes'[j].far = nodes[j].far := by
    intro j hj hj'
    have hj'' : j < (carry Relay.onward nodes raw).1.length := by rw [hcarried.length]; exact hj
    obtain ⟨path, hpath, hlaid, hnear, hfar⟩ := carried_request hcarried hraw hrequest hopen j hj hj''
    have hsame := hstill.get hj'' hj'
    rw [hP]
    exact ⟨path, hpath, hlaid.still hsame, hsame.near.trans hnear, hsame.far.trans hfar⟩
  have hnoted : ∀ r ∈ nodes', ∃ c path, r.Laid P.linkId c path := by
    intro r hr
    obtain ⟨j, hj, rfl⟩ := List.getElem_of_mem hr
    obtain ⟨path, -, hlaid, -⟩ := hlaid j (by rw [← hlength]; exact hj) hj
    exact ⟨_, path, hlaid⟩
  refine ⟨?_, fun hops => ?_, fun r hr hops => ?_⟩
  · rw [← hlength]
    refine (carry_linkPacket Relay.onward (Relay.TakesOnward P.linkId) (fun r hr h => ?_) request.hops).mpr
      fun j hj => ?_
    · obtain ⟨c, path, hlaid⟩ := hnoted r hr
      exact Relay.onward_linkPacket (hready r hr) hlaid
    · obtain ⟨path, -, hlaid, -⟩ := hlaid j (by rw [← hlength]; exact hj) hj
      obtain ⟨e, he, -, -, hhops, -⟩ := hlaid.entry
      exact ⟨e, he, .inl (by rw [hhops, ← hops_add_one]; rfl)⟩
  · have hnodes : ∀ r ∈ nodes'.reverse, ∀ h, Relay.TakesBackward P.linkId r (P.raw h)
          ∧ (r.backward (P.raw h)).2 = some (P.raw (h + 1))
        ∨ ¬ Relay.TakesBackward P.linkId r (P.raw h) ∧ (r.backward (P.raw h)).2 = none := by
      intro r hr h
      have hr' := List.mem_reverse.mp hr
      obtain ⟨c, path, hlaid⟩ := hnoted r hr'
      exact Relay.backward_linkPacket (hready r hr') hlaid
    have hback := carry_linkPacket Relay.backward (Relay.TakesBackward P.linkId) hnodes hops
    have hout : nodes'.reverse.length = nodes.length := by rw [List.length_reverse, hlength]
    rw [show UInt8.ofNat nodes.length = UInt8.ofNat nodes'.reverse.length by rw [hout], hback]
    -- the first node behind the destination is the last one of the line
    have hturn : ∀ j (hj : j < nodes.length) (hk : nodes.length - 1 - j < nodes'.reverse.length),
        Relay.TakesBackward P.linkId nodes'.reverse[nodes.length - 1 - j]
            (P.raw (hops + UInt8.ofNat (nodes.length - 1 - j)))
          ↔ ∃ path, getPath nodes[j].state request.destinationHash = some path
            ∧ (path.hops = hops + UInt8.ofNat (nodes.length - j)
              ∨ nodes[j].near.id = nodes[j].far.id
                ∧ request.hops + UInt8.ofNat (j + 1) = hops + UInt8.ofNat (nodes.length - j)) := by
      intro j hj hk
      have hj' : j < nodes'.length := by rw [hlength]; exact hj
      obtain ⟨path, hpath, hlaid, hnear, hfar⟩ := hlaid j hj hj'
      have hnode : nodes'.reverse[nodes.length - 1 - j] = nodes'[j] := by
        rw [List.getElem_reverse]
        congr 1
        omega
      rw [hnode, hlaid.takesBackward_iff, hops_add_one, hnear, hfar, hpath,
        show nodes.length - 1 - j + 1 = nodes.length - j by omega]
      simp only [Option.some.injEq, exists_eq_left']
    constructor
    · intro htakes j hj
      have hk : nodes.length - 1 - j < nodes'.reverse.length := by rw [hout]; omega
      exact (hturn j hj hk).mp (htakes _ hk)
    · intro hpaths k hk
      have hk' : k < nodes.length := by rw [← hout]; exact hk
      have hj : nodes.length - 1 - k < nodes.length := by omega
      have hback' := hturn (nodes.length - 1 - k) hj (by rw [hout]; omega)
      simp only [show nodes.length - 1 - (nodes.length - 1 - k) = k by omega] at hback'
      exact hback'.mpr (hpaths _ hj)
  · obtain ⟨c, path, hlaid⟩ := hnoted r hr
    obtain ⟨e, he, -⟩ := hlaid.entry
    exact ⟨Relay.hears_still (hready r hr) he (hready r hr).nearPeers,
      Relay.hears_still (hready r hr) he (hready r hr).farPeers⟩

namespace Sample

/-- A node that knows a path to the destination 3 over interface 2. -/
def waypoint (identity next : UInt8) (hops : UInt8) : TransportState where
  identity := some (.fill identity)
  interfaces := [{ id := 1 }, { id := 2 }]
  pathTable := (∅ : Table StoredPath).insert (.fill 3)
    { timestamp := 0, receivedFrom := .fill next, hops, expires := 100, randomBlobs := []
      receivingInterface := 2, announce := layout 0 0 none (.fill 3) 0 [0] }

/-- Two nodes before the destination; the path of the first one has so many hops. -/
def twoNodes (hops : UInt8) : List Relay :=
  [⟨routing, waypoint 9 8 hops, { id := 1 }, { id := 2 }⟩, ⟨routing, waypoint 8 3 1, { id := 1 }, { id := 2 }⟩]

/-- A link request to the destination, which names the first node. -/
def requestBytes : Bytes := layout 0x52 0 (some (.fill 9)) (.fill 3) 0 (List.replicate 63 0 ++ [7])
def linkData : LinkPacket where
  flags := 0x0C
  linkId := .fill 7
  context := ContextType.none
  data := [1]
  isHeader1 := by decide
  toLink := by decide
  carries := by decide
  notLinkProof := by decide
  notCacheRequest := by decide
/-- The two nodes behind the request. -/
def crossed (hops : UInt8) : List Relay := (carry Relay.onward (twoNodes hops) requestBytes).1

theorem requestBytes_unpack :
    unpack requestBytes = some (ofLayout 0x52 0 (some (.fill 9)) (.fill 3) 0 (List.replicate 63 0 ++ [7])) :=
  unpack_layout (by unfold Addressed; decide)

/-- Both relays of the sample let the request for the link through. -/
theorem twoNodes_open (hops : UInt8) : ∀ r ∈ twoNodes hops, r.Open lastByte linkData.linkId (.fill 3) := by
  intro r hr
  rcases List.mem_cons.mp hr with rfl | hr
  · exact ⟨rfl, rfl, rfl, List.not_mem_nil, List.not_mem_nil⟩
  · cases List.mem_singleton.mp hr
    exact ⟨rfl, rfl, rfl, List.not_mem_nil, List.not_mem_nil⟩

/-- What makes a node behind the request take the data. -/
def takesData (r : Relay) : Bool :=
  !r.state.jobsRunning && r.state.identity.isSome && leadsToPeers r.state r.near && leadsToPeers r.state r.far
    && !r.near.ifacIdentity && (linkData.packet 0).getHash lastByte ∉ r.state.packetHashlist
    && (getPath r.state linkData.linkId).isNone && r.state.activeLinks.isEmpty
    && linkData.linkId ∉ r.state.reverseTable

theorem ready_of_takesData {r : Relay} (henv : r.env = routing) (h : takesData r = true) : r.Ready linkData := by
  unfold takesData at h
  simp only [Bool.and_eq_true, Bool.not_eq_true', decide_eq_true_eq, Option.isNone_iff_eq_none, List.isEmpty_iff] at h
  obtain ⟨⟨⟨⟨⟨⟨⟨⟨hrunning, hidentity⟩, hnear⟩, hfar⟩, hsends⟩, hfresh⟩, hpath⟩, hlinks⟩, hreverse⟩ := h
  have hfresh' : (linkData.packet 0).getHash r.env.fullHash ∉ r.state.packetHashlist := by
    rw [henv]
    exact hfresh
  exact {
    running := hrunning
    identity := hidentity
    transport := by rw [henv]; rfl
    nearPeers := hnear
    farPeers := hfar
    sends := hsends
    accepts := fun h hops => accepts_fresh (by rw [henv]; exact fun _ => rfl) (by rw [henv]; rfl) rfl
      (linkData.toLink.trans_ne (by decide)) (linkData.toLink.trans_ne (by decide))
      (by rw [linkData.getHash_packet]; exact hfresh')
    carries := ⟨hpath, by rw [hlinks]; exact fun _ hl => absurd hl List.not_mem_nil, hreverse⟩
    receipts := by rw [henv]; exact fun _ _ _ _ => ⟨rfl, rfl⟩ }

/-- Relays keep their surroundings while a packet crosses them. -/
theorem crossed_env (nodes : List Relay) (raw : Bytes) (h : ∀ r ∈ nodes, r.env = routing) :
    ∀ r ∈ (carry Relay.onward nodes raw).1, r.env = routing := by
  induction nodes generalizing raw with
  | nil => exact h
  | cons n l ih =>
    have hrest := fun raw => ih raw fun r hr => h r (List.mem_cons_of_mem _ hr)
    have hfirst : (n.onward raw).1.env = routing := h n List.mem_cons_self
    unfold carry
    rcases hpass : n.onward raw with ⟨n', _ | raw'⟩ <;> rw [hpass] at hfirst <;> intro r hr <;>
      rcases List.mem_cons.mp hr with rfl | hr
    · exact hfirst
    · exact h r (List.mem_cons_of_mem _ hr)
    · exact hfirst
    · exact hrest raw' r hr

theorem twoNodes_env (hops : UInt8) : ∀ r ∈ twoNodes hops, r.env = routing := by
  intro r hr
  rcases List.mem_cons.mp hr with rfl | hr
  · rfl
  · cases List.mem_singleton.mp hr
    rfl

/-- Relays that take the data of the link are ready for it. -/
theorem crossed_ready {hops : UInt8} (h : ∀ r ∈ crossed hops, takesData r = true) :
    ∀ r ∈ crossed hops, r.Ready linkData :=
  fun r hr => ready_of_takesData (crossed_env _ _ (twoNodes_env hops) r hr) (h r hr)

theorem still_refl (linkId : Address) (nodes : List Relay) : List.Forall₂ (Relay.Still linkId) nodes nodes :=
  List.forall₂_same.mpr fun _ _ => ⟨rfl, rfl, fun e he => ⟨e, he, rfl, rfl, rfl, rfl⟩⟩

end Sample

/-- Behind two nodes whose paths are exact, both ends hear each other. Where the path of the first node is one hop too
long, only the destination hears anything. -/
theorem link_packets_cross_two :
    (carry Relay.onward (Sample.crossed 2) (Sample.linkData.raw 0)).2 = some (Sample.linkData.raw 2)
      ∧ (carry Relay.backward (Sample.crossed 2).reverse (Sample.linkData.raw 0)).2 = some (Sample.linkData.raw 2)
      ∧ (carry Relay.onward (Sample.crossed 3) (Sample.linkData.raw 0)).2 = some (Sample.linkData.raw 2)
      ∧ (carry Relay.backward (Sample.crossed 3).reverse (Sample.linkData.raw 0)).2 ≠ some (Sample.linkData.raw 2) := by
  have hcrosses := fun hops hcrossed hready => link_packets_cross_iff Sample.lastByte (Sample.twoNodes hops)
    Sample.requestBytes _ Sample.requestBytes_unpack ⟨by decide, by decide, by decide⟩ (Sample.twoNodes_open hops)
    ((carry Relay.onward (Sample.twoNodes hops) Sample.requestBytes).2.getD []) hcrossed (Sample.crossed hops)
    (Sample.still_refl _ _) Sample.linkData rfl (Sample.crossed_ready hready)
  obtain ⟨hto, hfrom, -⟩ := hcrosses 2 (by decide +kernel) (by decide +kernel)
  obtain ⟨hto', hfrom', -⟩ := hcrosses 3 (by decide +kernel) (by decide +kernel)
  refine ⟨hto, (hfrom 0).mpr fun j hj => ?_, hto', fun h => ?_⟩
  · match j, hj with
    | 0, _ => exact ⟨_, rfl, .inl rfl⟩
    | 1, _ => exact ⟨_, rfl, .inl rfl⟩
  · obtain ⟨path, hpath, hcount⟩ := (hfrom' 0).mp h 0 (by decide)
    have hhops : path.hops = 3 := (Option.some.inj (congrArg (Option.map DestinationEntry.hops) hpath)).symm
    rw [hhops] at hcount
    revert hcount
    decide

end MicroReticulum.Transport
