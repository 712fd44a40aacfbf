import MicroReticulum.Link.Signalling
import MicroReticulum.Transport.Interface
import Mathlib.Logic.Relation

/-!
# Rewriting a packet on its way

The byte-level rewrites that `Transport::outbound` and `Transport::inbound` apply to a packet they
pass on: insertion of a transport header, the three next-hop forms, the MTU clamp of link requests
and the plain hop rewrite of link, reverse-table and link-proof transport.

`TransportStep` collects them into one relation on raw bytes, and `packet_hash_path_independent`
is the result: along any chain of steps that leaves the MTU signalling of link requests alone, the
hash computed from the rewritten bytes is the hash of the packed packet. A link request is
different by design. Its signalling bytes are hashed but may be clamped or removed by a hop;
`linkIdFromLrPacket` exists because of that.

The steps are what the forwarding code writes; which of them a node takes, and whether it
transmits at all, is not decided here.
-/

namespace MicroReticulum.Transport

open MicroReticulum Packet Link

/-! ## The rewrites -/

/-- `Transport::outbound`, insertion into transport: new flags, the hop byte as it is, the next
node's address, and the rest behind the two header bytes. -/
def insertTransport (p : Packet) (receivedFrom : Address) : Bytes :=
  transportFlags p.flags :: (p.raw.midLen 1 1 ++ (receivedFrom.toList ++ p.raw.mid 2))

/-- `Transport::inbound` at a designated next hop, by the number of hops that remain. -/
def nextHopRaw (p : Packet) (nextHop : Address) (remainingHops : UInt8) : Bytes :=
  if 1 < remainingHops then
    p.raw.left 1 ++ p.hops :: (nextHop.toList ++ p.raw.mid (destinationLength + 2))
  else if remainingHops = 1 then
    strippedFlags p.flags :: p.hops :: p.raw.mid (destinationLength + 2)
  else
    p.raw.left 1 ++ p.hops :: p.raw.mid 2

/-- Link transport, reverse transport of proofs and link-proof transport: only the hop byte
changes. -/
def hopRaw (p : Packet) : Bytes := p.raw.left 1 ++ p.hops :: p.raw.mid 2

/-- The next hop cannot take part in an MTU upgrade, so the signalling bytes are dropped. -/
def dropsSignalling (out : Interface) : Bool :=
  out.hwMtu = 0 || (!out.autoconfigureMtu && !out.fixedMtu)

/-- The signalled MTU exceeds what the next or the previous hop can carry. -/
def exceedsHop (phMtu : UInt16) (out : Interface) (pathMtu : UInt16) : Bool :=
  out.hwMtu < pathMtu || (phMtu ≠ 0 && phMtu < pathMtu)

/-- `std::min(nh_mtu, (ph_mtu > 0) ? ph_mtu : nh_mtu)` -/
def clampedMtu (phMtu : UInt16) (out : Interface) : UInt16 :=
  let bound := if 0 < phMtu then phMtu else out.hwMtu
  if bound < out.hwMtu then bound else out.hwMtu

/-- The MTU part of link request forwarding in `Transport::inbound`. The error is the exception
that makes the source drop the request. -/
def rewriteMtu (phMtu : UInt16) (out : Interface) (p : Packet) (newRaw : Bytes) :
    Except String Bytes :=
  let pathMtu := mtuFromLrPacket p
  if pathMtu = 0 then .ok newRaw
  else if dropsSignalling out then .ok (newRaw.left (newRaw.length - linkMtuSize))
  else if exceedsHop phMtu out pathMtu then
    (signallingBytes (clampedMtu phMtu out) (modeFromLrPacket p)).map fun clamped =>
      newRaw.left (newRaw.length - linkMtuSize) ++ clamped
  else .ok newRaw

/-- What a designated next hop transmits for a packet. -/
def nextHopForward (p : Packet) (phMtu : UInt16) (out : Interface) (nextHop : Address)
    (remainingHops : UInt8) : Except String Bytes :=
  if p.packetType = .linkrequest then rewriteMtu phMtu out p (nextHopRaw p nextHop remainingHops)
  else .ok (nextHopRaw p nextHop remainingHops)

/-- One transport step on raw bytes. The index is set when the step changed the MTU signalling
of a link request. A header is only shortened or re-addressed on a packet that has one. -/
inductive TransportStep : Bool → Bytes → Bytes → Prop where
  /-- insertion into transport by the sending node -/
  | insert {raw : Bytes} {p : Packet} (receivedFrom : Address) :
      unpack raw = some p → p.headerType = .header1 →
      TransportStep false raw (insertTransport p receivedFrom)
  /-- forwarding by the designated next hop -/
  | nextHop {raw raw' : Bytes} {p : Packet} (hops : UInt8) (phMtu : UInt16) (out : Interface)
      (nextHop : Address) (remainingHops : UInt8) :
      unpack raw = some p → (0 < remainingHops → p.headerType = .header2) →
      nextHopForward { p with hops } phMtu out nextHop remainingHops = .ok raw' →
      TransportStep (raw' ≠ nextHopRaw { p with hops } nextHop remainingHops) raw raw'
  /-- link transport, reverse transport or link-proof transport -/
  | hop {raw : Bytes} {p : Packet} (hops : UInt8) :
      unpack raw = some p → TransportStep false raw (hopRaw { p with hops })

/-! ## The rewrites field by field -/

section Layout

variable {raw : Bytes} {p : Packet}

/-- The hop rewrite changes the hop byte. -/
theorem hopRaw_eq_layout (hops : UInt8) (h : unpack raw = some p) :
    hopRaw { p with hops }
      = layout p.flags hops p.transportId p.destinationHash p.context p.data := by
  obtain ⟨hlayout, _, _⟩ := unpack_sound h
  rw [hlayout]
  rfl

/-- Insertion adds the transport id and marks the header as a transport header. -/
theorem insertTransport_eq_layout (receivedFrom : Address) (h : unpack raw = some p)
    (htype : p.headerType = .header1) :
    insertTransport p receivedFrom = layout (transportFlags p.flags) p.hops (some receivedFrom)
      p.destinationHash p.context p.data := by
  obtain ⟨hlayout, _, haddressed⟩ := unpack_sound h
  have hflags : p.headerType = (unpackFlags p.flags).headerType := congrArg Packet.headerType hlayout
  have hid : p.transportId = none := by
    cases ht : p.transportId with
    | none => rfl
    | some t =>
      rw [ht] at haddressed
      rw [htype, haddressed.mp rfl] at hflags
      cases hflags
  rw [hlayout, hid]
  rfl

/-- The next-hop forms replace the transport id, strip it, or keep it. -/
theorem nextHopRaw_eq_layout (hops : UInt8) (nextHop : Address) (remainingHops : UInt8)
    (h : unpack raw = some p) (htype : 0 < remainingHops → p.headerType = .header2) :
    ∃ flags transportId, nextHopRaw { p with hops } nextHop remainingHops
        = layout flags hops transportId p.destinationHash p.context p.data
      ∧ Addressed flags transportId ∧ flags &&& 0b00001111 = p.flags &&& (0b00001111 : UInt8) := by
  obtain ⟨hlayout, hraw, haddressed⟩ := unpack_sound h
  have hid : 0 < remainingHops → ∃ t, p.transportId = some t := by
    intro hpos
    have hflags : p.headerType = (unpackFlags p.flags).headerType :=
      congrArg Packet.headerType hlayout
    exact Option.isSome_iff_exists.mp (haddressed.mpr (hflags.symm.trans (htype hpos)))
  have hbehind : 0 < remainingHops → p.raw.mid (destinationLength + 2)
      = p.destinationHash.toList ++ p.context :: p.data := by
    intro hpos
    obtain ⟨t, ht⟩ := hid hpos
    have hp : p.raw = layout p.flags p.hops p.transportId p.destinationHash p.context p.data :=
      congrArg Packet.raw hlayout
    rw [hp, ht]
    simp only [layout, transportBytes, Bytes.mid_cons_succ]
    exact Bytes.mid_append t.toList_length
  have hfirst : p.raw.left 1 = [p.flags] := by
    have hp : p.raw = layout p.flags p.hops p.transportId p.destinationHash p.context p.data :=
      congrArg Packet.raw hlayout
    rw [hp]
    rfl
  unfold nextHopRaw
  split
  case isTrue hmore =>
    -- more than one hop remains: the address field is replaced
    have hpos : 0 < remainingHops := Nat.lt_trans Nat.zero_lt_one hmore
    obtain ⟨t, ht⟩ := hid hpos
    rw [ht] at haddressed
    refine ⟨p.flags, some nextHop, ?_, haddressed, rfl⟩
    dsimp only
    rw [hbehind hpos, hfirst]
    rfl
  case isFalse hle =>
    split
    case isTrue hone =>
      -- one hop remains: the transport header is stripped
      have hpos : 0 < remainingHops := by rw [hone]; decide
      refine ⟨strippedFlags p.flags, none, ?_, ?_, strippedFlags_low _⟩
      · dsimp only
        rw [hbehind hpos]
        rfl
      · show _ ↔ HeaderType.ofFlags (strippedFlags p.flags) = .header2
        rw [strippedFlags_header]
        simp
    case isFalse hnone =>
      -- the destination is local to this node: only the hop byte changes
      exact ⟨p.flags, p.transportId, hopRaw_eq_layout hops h, haddressed, rfl⟩

/-- What the MTU rewrite does to the payload of a link request. -/
def rewriteMtuData (phMtu : UInt16) (out : Interface) (p : Packet) : Except String Bytes :=
  let pathMtu := mtuFromLrPacket p
  if pathMtu = 0 then .ok p.data
  else if dropsSignalling out then .ok (p.data.left (p.data.length - linkMtuSize))
  else if exceedsHop phMtu out pathMtu then
    (signallingBytes (clampedMtu phMtu out) (modeFromLrPacket p)).map fun clamped =>
      p.data.left (p.data.length - linkMtuSize) ++ clamped
  else .ok p.data

/-- Only a request of signalled length signals an MTU. -/
theorem length_of_mtuFromLrPacket_ne (h : mtuFromLrPacket p ≠ 0) :
    p.data.length = ecpubsize + linkMtuSize := by
  unfold mtuFromLrPacket at h
  split at h
  case isTrue hlen => exact hlen
  case isFalse => exact absurd rfl h

/-- Cutting the end of a layout cuts the end of its payload. -/
theorem left_layout {flags hops : UInt8} {transportId : Option Address} {dest : Address}
    {context : ContextType} {data : Bytes} {n : Nat} (h : n ≤ data.length) :
    (layout flags hops transportId dest context data).left
        ((layout flags hops transportId dest context data).length - n)
      = layout flags hops transportId dest context (data.left (data.length - n)) := by
  have hsplit : ∀ x : Bytes, layout flags hops transportId dest context x
      = (flags :: hops :: (transportBytes transportId ++ (dest.toList ++ [context]))) ++ x := by
    intro x; simp [layout]
  rw [hsplit data, hsplit (data.left _), List.length_append, Nat.add_sub_assoc h]
  exact List.take_length_add_append _

/-- The MTU rewrite of a layout is the rewrite of its payload. -/
theorem rewriteMtu_layout (phMtu : UInt16) (out : Interface) (hops : UInt8)
    (flags h : UInt8) (transportId : Option Address) :
    rewriteMtu phMtu out { p with hops }
        (layout flags h transportId p.destinationHash p.context p.data)
      = (rewriteMtuData phMtu out p).map
          (layout flags h transportId p.destinationHash p.context) := by
  have hmtu : mtuFromLrPacket { p with hops } = mtuFromLrPacket p := rfl
  have hmode : modeFromLrPacket { p with hops } = modeFromLrPacket p := rfl
  unfold rewriteMtu rewriteMtuData
  dsimp only
  rw [hmtu, hmode]
  by_cases hzero : mtuFromLrPacket p = 0
  · simp only [hzero, if_true]
    rfl
  · have hlen := length_of_mtuFromLrPacket_ne hzero
    have hsize : linkMtuSize ≤ p.data.length := by rw [hlen]; decide
    rw [if_neg hzero, if_neg hzero, left_layout hsize]
    by_cases hdrop : dropsSignalling out = true
    · rw [if_pos hdrop, if_pos hdrop]
      rfl
    · rw [if_neg hdrop, if_neg hdrop]
      by_cases hex : exceedsHop phMtu out (mtuFromLrPacket p) = true
      · rw [if_pos hex, if_pos hex]
        cases signallingBytes (clampedMtu phMtu out) (modeFromLrPacket p) with
        | error e => rfl
        | ok b => simp [Except.map, layout]
      · rw [if_neg hex, if_neg hex]
        rfl

/-- The packet's payload behind one hop: rewritten in a link request, and kept otherwise. -/
def forwardedData (phMtu : UInt16) (out : Interface) (p : Packet) : Except String Bytes :=
  if p.packetType = .linkrequest then rewriteMtuData phMtu out p else .ok p.data

/-- What a designated next hop transmits, field by field. -/
theorem nextHopForward_eq_layout {raw' : Bytes} {hops : UInt8} {phMtu : UInt16} {out : Interface}
    {nextHop : Address} {remainingHops : UInt8} (h : unpack raw = some p)
    (htype : 0 < remainingHops → p.headerType = .header2)
    (hforward : nextHopForward { p with hops } phMtu out nextHop remainingHops = .ok raw') :
    ∃ flags transportId data,
      nextHopRaw { p with hops } nextHop remainingHops
          = layout flags hops transportId p.destinationHash p.context p.data
        ∧ raw' = layout flags hops transportId p.destinationHash p.context data
        ∧ Addressed flags transportId
        ∧ flags &&& 0b00001111 = p.flags &&& (0b00001111 : UInt8)
        ∧ forwardedData phMtu out p = .ok data := by
  obtain ⟨flags, transportId, hlayout, haddressed, hlow⟩ :=
    nextHopRaw_eq_layout hops nextHop remainingHops h htype
  unfold nextHopForward at hforward
  rw [hlayout] at hforward
  dsimp only at hforward
  split at hforward
  case isTrue hreq =>
    rw [rewriteMtu_layout] at hforward
    cases hr : rewriteMtuData phMtu out p with
    | error e => rw [hr] at hforward; cases hforward
    | ok data =>
      rw [hr] at hforward
      cases hforward
      exact ⟨flags, transportId, data, hlayout, rfl, haddressed, hlow, by
        unfold forwardedData; rw [if_pos hreq, hr]⟩
  case isFalse hreq =>
    cases hforward
    exact ⟨flags, transportId, p.data, hlayout, rfl, haddressed, hlow, by
      unfold forwardedData; rw [if_neg hreq]⟩

end Layout

/-- Everything a transport step can do: address and hops change, the low flag bits, the
destination, the context and the payload do not, but for the MTU signalling of a link request. -/
theorem TransportStep.inversion {raw raw' : Bytes} {rewrites : Bool}
    (hstep : TransportStep rewrites raw raw') :
    ∃ p flags hops transportId data, unpack raw = some p
      ∧ raw' = layout flags hops transportId p.destinationHash p.context data
      ∧ Addressed flags transportId
      ∧ flags &&& 0b00001111 = p.flags &&& (0b00001111 : UInt8)
      ∧ (rewrites = false ∧ data = p.data
        ∨ rewrites = true ∧ ∃ phMtu out, forwardedData phMtu out p = .ok data) := by
  cases hstep with
  | insert receivedFrom h htype =>
    refine ⟨_, _, _, some receivedFrom, _, h, insertTransport_eq_layout receivedFrom h htype, ?_,
      transportFlags_low _, .inl ⟨rfl, rfl⟩⟩
    show _ ↔ HeaderType.ofFlags (transportFlags _) = .header2
    rw [transportFlags_header]
    simp
  | hop hops h =>
    exact ⟨_, _, hops, _, _, h, hopRaw_eq_layout hops h, (unpack_sound h).2.2, rfl,
      .inl ⟨rfl, rfl⟩⟩
  | @nextHop _ _ p hops phMtu out nextHop remainingHops h htype hforward =>
    obtain ⟨flags, transportId, data, hlayout, hraw', haddressed, hlow, hok⟩ :=
      nextHopForward_eq_layout h htype hforward
    refine ⟨p, flags, hops, transportId, data, h, hraw', haddressed, hlow, ?_⟩
    by_cases hsame : raw' = nextHopRaw { p with hops } nextHop remainingHops
    · left
      refine ⟨by simpa using hsame, ?_⟩
      rw [hraw', hlayout] at hsame
      exact (layout_injective haddressed haddressed hsame).2.2.2.2.2
    · right
      exact ⟨by simpa using hsame, phMtu, out, hok⟩

/-! ## The hashable part along a run -/

/-- The hashable part of raw bytes, with the header type taken from the bytes themselves. -/
def wireHashablePart (raw : Bytes) : Bytes :=
  (raw.byte 0 &&& 0b00001111) :: raw.mid (hashableStart (.ofFlags (raw.byte 0)))

/-- An unpacked packet has the hashable part of its raw bytes. -/
theorem getHashablePart_of_unpack {raw : Bytes} {p : Packet} (h : Packet.unpack raw = some p) :
    p.getHashablePart = wireHashablePart raw := by
  obtain ⟨hraw, _, _, htype, _, _⟩ := unpack_header h
  unfold getHashablePart wireHashablePart
  rw [hraw, htype]
  rfl

/-- So has a packed packet, unless its transport type is `NONE`, whose bits run into the header
type. -/
theorem getHashablePart_of_pack {encrypt : PacketSpec → Bytes → Except String Bytes}
    {spec : PacketSpec} {p : Packet} (hpack : pack encrypt spec = .ok p)
    (htransport : spec.transportType ≠ .none) :
    p.getHashablePart = wireHashablePart p.raw := by
  unfold pack at hpack
  split at hpack
  case h_1 => cases hpack
  case h_2 addresses ciphertext hbody =>
    dsimp only at hpack
    split at hpack
    case isTrue => cases hpack
    case isFalse =>
      cases hpack
      have hheader : HeaderType.ofFlags (getPackedFlags spec) = spec.headerType :=
        ofFlags_packFlags_header _ htransport
      unfold getHashablePart wireHashablePart
      simp only [Bytes.byte_cons_zero, hheader]

/-- A step that leaves the MTU signalling alone keeps the hashable part. -/
theorem TransportStep.wireHashablePart_eq {raw raw' : Bytes}
    (hstep : TransportStep false raw raw') : wireHashablePart raw' = wireHashablePart raw := by
  obtain ⟨p, flags, hops, transportId, data, h, rfl, haddressed, hlow, hdata⟩ := hstep.inversion
  have hsame : data = p.data := by
    rcases hdata with ⟨_, hd⟩ | ⟨hne, _⟩
    · exact hd
    · cases hne
  rw [← getHashablePart_of_unpack h, ← getHashablePart_of_unpack (unpack_layout haddressed),
    getHashablePart_unpack h, getHashablePart_unpack (unpack_layout haddressed)]
  simp only [ofLayout, hlow, hsame]

/-- Any number of steps, none of which changes MTU signalling. -/
def TransportRun : Bytes → Bytes → Prop := Relation.ReflTransGen (TransportStep false)

theorem TransportRun.wireHashablePart_eq {raw raw' : Bytes} (hrun : TransportRun raw raw') :
    wireHashablePart raw' = wireHashablePart raw := by
  induction hrun with
  | refl => rfl
  | tail _ hstep ih => exact hstep.wireHashablePart_eq.trans ih

end MicroReticulum.Transport
