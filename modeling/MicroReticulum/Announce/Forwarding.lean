import MicroReticulum.Announce.Routes

/-!
# Packets on their way to a destination

A packet for `d` that names a node as its next hop is passed on along the path of that node, and names the next one,
as long as more than one hop remains. No hop byte bounds how often this happens. What bounds it are the paths:
`Journey` follows one packet through a network whose paths change while it is on its way, and each time it is passed on
it has come closer (`journey_comes_closer`).

A packet may be lost at any node, and no delivery is promised: the bound is on how far it
comes while the paths stay honest.
-/

namespace MicroReticulum.Announce

open MicroReticulum Packet Link Library Transport

variable {env : Environment} {d n m : Address} {s t : TransportState} {p q : Packet} {raw raw' : Bytes}

/-! ## One hop -/

/-- The packet is not an announce once it was passed on, and keeps its destination. Its transport header is that of the
next hop, or was stripped, or is the one it had. -/
theorem nextHopForward_unpacks {hops : UInt8} {phMtu : UInt16} {out : Interface} {nextHop : Address}
    {remainingHops : UInt8} (h : unpack raw = some p) (htype : 0 < remainingHops → p.headerType = .header2)
    (hforward : nextHopForward { p with hops } phMtu out nextHop remainingHops = .ok raw') :
    ∃ q, unpack raw' = some q ∧ q.packetType = p.packetType ∧ q.destinationHash = p.destinationHash
      ∧ (q.transportId = some nextHop ∨ q.transportId = none ∨ q.transportId = p.transportId) := by
  obtain ⟨flags, transportId, data, hlayout, rfl, haddressed, hlow, -⟩ := nextHopForward_eq_layout h htype hforward
  obtain ⟨hp, hraw, haddressed'⟩ := unpack_sound h
  have hflags : p.packetType = (unpackFlags p.flags).packetType := congrArg Packet.packetType hp
  refine ⟨_, unpack_layout haddressed, ?_, rfl, ?_⟩
  · rw [hflags]
    exact (unpackFlags_of_low_eq hlow).2
  show transportId = some nextHop ∨ transportId = none ∨ transportId = p.transportId
  cases transportId with
  | none => exact .inr (.inl rfl)
  | some id =>
    unfold nextHopRaw at hlayout
    split at hlayout
    case isTrue hmore =>
      -- the address behind the two header bytes is that of the next hop
      left
      have hbytes := congrArg (fun bytes => (bytes.drop 2).take 16) hlayout
      have hone : (p.raw.left 1).length = 1 := by
        have hp' : p.raw = layout p.flags p.hops p.transportId p.destinationHash p.context p.data :=
          congrArg Packet.raw hp
        rw [hp']
        rfl
      obtain ⟨first, hfirst⟩ := List.length_eq_one_iff.mp hone
      have hids : nextHop.toList = id.toList := by
        dsimp only at hbytes
        rw [hfirst] at hbytes
        simpa [layout, transportBytes] using hbytes
      exact congrArg some (List.Vector.toList_injective hids).symm
    case isFalse hfew =>
      split at hlayout
      case isTrue hlast =>
        have hheader : flags = strippedFlags p.flags := (List.cons.inj hlayout).1.symm
        have htwo := haddressed.mp rfl
        rw [hheader] at htwo
        have hone : HeaderType.ofFlags (strippedFlags p.flags) = .header2 := htwo
        rw [strippedFlags_header] at hone
        cases hone
      case isFalse hnone =>
        right
        right
        have hsame := (hopRaw_eq_layout hops h).symm.trans hlayout
        exact (layout_injective haddressed' haddressed hsame).2.2.1.symm

/-- What is told of announces is as it was, and what was sent since are no announces. -/
structure PassesPackets (s t : TransportState) : Prop where
  announces : t.announceTable = s.announceTable
  held : t.heldAnnounces = s.heldAnnounces
  paths : t.pathTable = s.pathTable
  interfaces : t.interfaces = s.interfaces
  wire : ∀ x ∈ t.wire, x ∈ s.wire ∨ ∃ q, unpack x.2 = some q ∧ q.packetType ≠ .announce

namespace PassesPackets

theorem refl (s : TransportState) : PassesPackets s s := ⟨rfl, rfl, rfl, rfl, fun _ hx => .inl hx⟩

theorem trans (s t u : TransportState) (h : PassesPackets s t) (h' : PassesPackets t u) : PassesPackets s u where
  announces := h'.announces.trans h.announces
  held := h'.held.trans h.held
  paths := h'.paths.trans h.paths
  interfaces := h'.interfaces.trans h.interfaces
  wire x hx := by
    rcases h'.wire x hx with hold | hnew
    · exact h.wire x hold
    · exact .inr hnew

/-- Nothing that matters to the paths of the network has happened. -/
theorem networkStep {net : Network} (h : PassesPackets (net n).1 t) :
    NetworkStep d net (Function.update net n (t, (net n).2)) := by
  refine .other net n t ?_ ?_ ?_
  · intro accepted hsourced
    refine ⟨h.announces ▸ hsourced.announces, h.held ▸ hsourced.held, h.paths ▸ hsourced.paths, ?_⟩
    intro x hx q hq hrelayed
    rcases h.wire x hx with hold | ⟨q', hq', hnot⟩
    · exact hsourced.wire x hold q hq hrelayed
    · cases hq.symm.trans hq'
      exact absurd hrelayed.1 hnot
  · intro x hx
    rcases h.wire x hx with hold | ⟨q', hq', hnot⟩
    · exact .inl hold
    · refine .inr fun q hq hrelayed => ?_
      cases hq.symm.trans hq'
      exact absurd hrelayed.1 hnot
  · unfold wayTo
    rw [getPath_of_same h.paths h.interfaces]

end PassesPackets

/-- The packet as `inbound` goes on with it. -/
def arrivedAt (n : Address) (s : TransportState) (i : Interface) (p : Packet) : Arrived where
  packet := { p with hops := arrivalHops s i p.hops }
  receivingInterface := i
  identity := n

/-- A packet that names the node is passed on along its path, under the name of the next hop while there is one. -/
theorem forwardRaw_spec {i : Interface} (hraw : unpack raw = some p) {entry : DestinationEntry}
    (hpath : nextHopPath s (arrivedAt n s i p) = some entry)
    (hforward : forwardRaw (arrivedAt n s i p) entry = .ok raw') :
    getPath s p.destinationHash = some entry ∧ ∃ q, unpack raw' = some q ∧ q.packetType ≠ .announce
      ∧ (q.transportId = some entry.receivedFrom ∨ q.transportId = none ∨ q.transportId = some n) := by
  unfold nextHopPath at hpath
  split at hpath
  case isFalse => cases hpath
  case isTrue hnamed =>
    have hid : p.transportId = some n := hnamed.2
    have hnot : p.packetType ≠ .announce := hnamed.1
    have hheader : p.headerType = .header2 := by
      obtain ⟨hp, -, haddressed⟩ := unpack_sound hraw
      rw [show p.headerType = (unpackFlags p.flags).headerType from congrArg Packet.headerType hp]
      apply haddressed.mp
      rw [hid]
      rfl
    obtain ⟨q, hq, htype, -, hnext⟩ := nextHopForward_unpacks hraw (fun _ => hheader) hforward
    rw [hid] at hnext
    exact ⟨hpath, q, hq, htype ▸ hnot, hnext⟩

theorem recordForward_passes (env : Environment) (a : Arrived) (entry : DestinationEntry) (s : TransportState) :
    PassesPackets s (recordForward env a entry s) ∧ (recordForward env a entry s).wire = s.wire := by
  unfold recordForward
  split <;> exact ⟨⟨rfl, rfl, rfl, rfl, fun _ hx => .inl hx⟩, rfl⟩

theorem wire_ne_cons (x : Interface × Bytes) (s : TransportState) : s.wire ≠ x :: s.wire := by
  intro heq
  have hlength := congrArg List.length heq
  rw [List.length_cons] at hlength
  omega

/-- What a designated next hop makes of a packet: what it sends, it sends along its path. -/
theorem forwardNextHop_spec (env : Environment) (n : Address) (i : Interface) (s : TransportState)
    (hraw : unpack raw = some p) :
    PassesPackets s (forwardNextHop env (arrivedAt n s i p) s).2
      ∧ ∀ x, (forwardNextHop env (arrivedAt n s i p) s).2.wire = x :: s.wire →
        ∃ entry, getPath s p.destinationHash = some entry ∧ ∃ q, unpack x.2 = some q
          ∧ (q.transportId = some entry.receivedFrom ∨ q.transportId = none ∨ q.transportId = some n) := by
  unfold forwardNextHop
  rw [Prog.get_bind_run]
  cases hpath : nextHopPath s (arrivedAt n s i p) with
  | none => exact ⟨.refl s, fun x hx => absurd hx (wire_ne_cons x s)⟩
  | some entry =>
    dsimp only
    cases hforward : forwardRaw (arrivedAt n s i p) entry with
    | error e => exact ⟨.refl s, fun x hx => absurd hx (wire_ne_cons x s)⟩
    | ok raw' =>
      obtain ⟨hentry, q, hq, hnot, hnext⟩ := forwardRaw_spec hraw hpath hforward
      obtain ⟨hrecord, hwire⟩ := recordForward_passes env (arrivedAt n s i p) entry s
      dsimp only
      rw [Prog.modify_bind_run, transmitOn_one]
      split
      case isFalse => exact ⟨hrecord, fun x hx => absurd (hwire.symm.trans hx) (wire_ne_cons x s)⟩
      case isTrue =>
        refine ⟨.trans _ _ _ hrecord ⟨rfl, rfl, rfl, rfl, ?_⟩, ?_⟩
        · intro x hx
          rcases List.mem_cons.mp hx with rfl | hold
          · exact .inr ⟨q, hq, hnot⟩
          · exact .inl hold
        · intro x hx
          obtain ⟨rfl, -⟩ := List.cons.inj hx
          exact ⟨entry, hentry, q, hq, hnext⟩

/-! ## The way of a packet -/

/-- A packet for `d` is at a node, as the bytes that came in there. Between two hops the network goes on. A hop is what
a node sends as the designated next hop; another node is named in it and goes on with it. -/
inductive Journey (d : Address) (net : Network) (n : Address) (raw : Bytes) : Nat → Network → Address → Bytes → Prop
  | start : Journey d net n raw 0 net n raw
  | waits {k : Nat} {net' net'' : Network} {m : Address} {raw' : Bytes} (h : Journey d net n raw k net' m raw')
    (hstep : NetworkStep d net' net'') : Journey d net n raw k net'' m raw'
  | hops {k : Nat} {net' : Network} {m m' : Address} {raw' : Bytes} {p q : Packet}
    (h : Journey d net n raw k net' m raw')
    (hraw : unpack raw' = some p) (hdestination : p.destinationHash = d) (env : Environment) (i : Interface)
    (x : Interface × Bytes)
    (hsent : (forwardNextHop env (arrivedAt m (net' m).1 i p) (net' m).1).2.wire = x :: (net' m).1.wire)
    (hq : unpack x.2 = some q) (hnamed : q.transportId = some m') (hother : m' ≠ m) (hnode : m' ≠ d) :
    Journey d net n raw (k + 1) (Function.update net' m
      ((forwardNextHop env (arrivedAt m (net' m).1 i p) (net' m).1).2, (net' m).2)) m' x.2

/-- A journey is a trip along the routes of the network. -/
theorem Journey.trip {net net' : Network} {k : Nat} (h : Journey d net n raw k net' m raw')
    (hhealthy : ∀ m, Healthy d m (net m)) :
    (∀ m, Healthy d m (net' m)) ∧ Routing.Trip d (net.view d) n k (net'.view d) m := by
  induction h with
  | start => exact ⟨hhealthy, .start⟩
  | waits _ hstep ih =>
    obtain ⟨hhealthy', hprogress⟩ := hstep.progress ih.1
    exact ⟨hhealthy', .wait ih.2 hprogress⟩
  | @hops k net' m m' raw' p q _ hraw hdestination env i x hsent hq hnamed hother hnode ih =>
    obtain ⟨hpasses, hspec⟩ := forwardNextHop_spec env m i (net' m).1 hraw
    obtain ⟨entry, hentry, q', hq', hnext⟩ := hspec x hsent
    cases hq.symm.trans hq'
    rw [hdestination] at hentry
    have hfrom : entry.receivedFrom = m' := by
      rw [hnamed] at hnext
      rcases hnext with hnext | hnext | hnext
      · exact (Option.some.inj hnext).symm
      · cases hnext
      · exact absurd (Option.some.inj hnext) hother
    obtain ⟨hhealthy', hprogress⟩ := NetworkStep.progress hpasses.networkStep ih.1
    exact ⟨hhealthy', .wait (.hop ih.2 (nextHop_iff.mp ⟨entry, hentry, hfrom, hnode⟩)) hprogress⟩

/-! ### A packet behind two nodes -/

namespace Sample

/-- The flags of a packet for a single destination that is in transport. -/
def transportedFlags : UInt8 :=
  packFlags
    { headerType := .header2, contextFlag := .unset, transportType := .transport
      destinationType := .single, packetType := .data }

/-- A packet that names a node. -/
def packetFor (n : Address) (hops : UInt8) : Bytes :=
  layout transportedFlags hops (some n) (.fill 0) ContextType.none [1, 2, 3]

theorem unpack_packetFor (n : Address) (hops : UInt8) :
    unpack (packetFor n hops) = some (ofLayout transportedFlags hops (some n) (.fill 0) ContextType.none [1, 2, 3]) :=
  unpack_layout (by
    unfold Addressed
    rw [show (unpackFlags transportedFlags).headerType = .header2 by decide]
    simp)

set_option maxRecDepth 8000 in
theorem four_sends :
    (forwardNextHop checking (arrivedAt (.fill 4) (heardByFour (.fill 4)).1 { id := 1 }
        (ofLayout transportedFlags 0 (some (.fill 4)) (.fill 0) ContextType.none [1, 2, 3]))
      (heardByFour (.fill 4)).1).2.wire = ({ id := 1 }, packetFor (.fill 3) 1) :: (heardByFour (.fill 4)).1.wire := by
  unfold heardByFour
  rw [Function.update_self, heardByThree_four]
  rfl

end Sample

/-- However the paths change while a packet is on its way, the node it has come to knows the destination from a later
announce than the node it started at, or from the same one at so many hops fewer as the packet has made. And it comes
back to a node only if that has heard a later announce in the meantime. -/
theorem journey_comes_closer (d : Address) (net : Network) (hreached : net.Reached d) (n : Address)
    (entry : DestinationEntry) (hentry : getPath (net n).1 d = some entry) (raw : Bytes) (k : Nat) (net' : Network)
    (m : Address) (raw' : Bytes) (hjourney : Journey d net n raw k net' m raw') :
    (∃ entry', getPath (net' m).1 d = some entry'
        ∧ (announceEmitted entry.announcePacket < announceEmitted entry'.announcePacket
          ∨ announceEmitted entry.announcePacket = announceEmitted entry'.announcePacket
            ∧ entry'.hops.toNat + k ≤ entry.hops.toNat))
      ∧ (0 < k → ∀ entry', getPath (net' m).1 d = some entry' → m = n →
        announceEmitted entry.announcePacket < announceEmitted entry'.announcePacket) := by
  obtain ⟨hhealthy, hsound⟩ := hreached.sound
  obtain ⟨-, htrip⟩ := hjourney.trip hhealthy
  have hroute : (net.view d).routes n = some (routeOf entry) := congrArg (Option.map routeOf) hentry
  constructor
  · obtain ⟨r', hr', hcloser⟩ := htrip.closer hsound hroute
    obtain ⟨entry', hentry', rfl⟩ := Option.map_eq_some_iff.mp hr'
    exact ⟨entry', hentry', hcloser⟩
  · rintro hmoved entry' hentry' rfl
    exact htrip.later_of_returns hsound hmoved hroute (congrArg (Option.map routeOf) hentry')

set_option maxRecDepth 8000 in
/-- A packet that names node 4 goes on to node 3, which is closer to the destination. -/
theorem journey_comes_closer_to_three :
    ∃ net entry entry', getPath (Sample.heardByFour (.fill 4)).1 (.fill 0) = some entry
      ∧ Journey (.fill 0) Sample.heardByFour (.fill 4) (Sample.packetFor (.fill 4) 0) 1 net (.fill 3)
        (Sample.packetFor (.fill 3) 1)
      ∧ getPath (net (.fill 3)).1 (.fill 0) = some entry'
      ∧ (announceEmitted entry.announcePacket < announceEmitted entry'.announcePacket
        ∨ announceEmitted entry.announcePacket = announceEmitted entry'.announcePacket
          ∧ entry'.hops.toNat + 1 ≤ entry.hops.toNat) := by
  have hknown : (getPath (Sample.heardByFour (.fill 4)).1 (.fill 0)).isSome = true := by
    unfold Sample.heardByFour
    rw [Function.update_self, Sample.heardByThree_four]
    rfl
  obtain ⟨entry, hentry⟩ := Option.isSome_iff_exists.mp hknown
  have hstart : Journey (.fill 0) Sample.heardByFour (.fill 4) (Sample.packetFor (.fill 4) 0) 0 Sample.heardByFour
      (.fill 4) (Sample.packetFor (.fill 4) 0) := .start
  have hjourney := hstart.hops (Sample.unpack_packetFor (.fill 4) 0) rfl Sample.checking { id := 1 } _
    Sample.four_sends (Sample.unpack_packetFor (.fill 3) 1) rfl (by decide) (by decide)
  obtain ⟨entry', hentry', hcloser⟩ :=
    (journey_comes_closer (.fill 0) _ Sample.heardByFour_reached _ entry hentry _ _ _ _ _ hjourney).1
  exact ⟨_, entry, entry', hentry, hjourney, hentry', hcloser⟩

end MicroReticulum.Announce
