import MicroReticulum.Transport.Rewrite

/-!
# Link requests from the initiator to the destination

The initiator hashes its packed request into the link id, every transport node on the way files the
request under the id it computes, and the destination computes the id once more from the packet
that is delivered to it. `RequestRun` is the way of a request: insertion into transport and any
number of next hops, with the interfaces the hops forward on. `deliverLinkRequest` is the MTU
handling in front of local delivery.

`link_id_agrees_iff` says when all of them agree: always on the way, and at the destination unless
the request still carries its signalling bytes there and the receiving interface has no hardware
MTU. In that case the payload is shortened but the raw bytes that are hashed are not. The
statement quantifies over the hash function, so "agree" means that the hashed strings are equal and
"disagree" that some hash function tells them apart.

What the destination does with an accepted request behind the id is not modelled here.
-/

namespace MicroReticulum.Link

open MicroReticulum Packet Transport

/-! ## Creating a request -/

/-- The two public keys of a request, `_pub_bytes + _sig_pub_bytes`. -/
structure RequestKeys where
  pubBytes : List.Vector UInt8 32
  sigPubBytes : List.Vector UInt8 32

namespace RequestKeys

def bytes (k : RequestKeys) : Bytes := k.pubBytes.toList ++ k.sigPubBytes.toList

@[simp] theorem bytes_length (k : RequestKeys) : k.bytes.length = ecpubsize := by
  simp only [bytes, List.length_append, k.pubBytes.toList_length, k.sigPubBytes.toList_length]
  rfl

end RequestKeys

/-- The signalling bytes the `Link` constructor puts into its request: the MTU of the next hop when
it is discovered and known, and the network MTU otherwise. -/
def requestSignalling (linkMtuDiscovery : Bool) (nhHwMtu : UInt16) (mode : LinkMode) :
    Except String Bytes :=
  if linkMtuDiscovery ∧ nhHwMtu ≠ 0 then signallingBytes nhHwMtu mode
  else signallingBytes (UInt16.ofNat reticulumMtu) mode

/-- The packet of a link request. -/
def requestSpec (destinationHash : Address) (keys : RequestKeys) (signalling : Bytes) :
    PacketSpec where
  destinationType := .single
  destinationHash := destinationHash
  packetType := .linkrequest
  data := keys.bytes ++ signalling

/-- Either no signalling bytes, as an initiator without MTU discovery sends, or those of the
constructor. -/
def RequestSignalling (signalling : Bytes) : Prop :=
  signalling = [] ∨
    ∃ linkMtuDiscovery nhHwMtu mode, requestSignalling linkMtuDiscovery nhHwMtu mode = .ok signalling

/-- The packed request, as the initiator keeps it. -/
def requestPacket (destinationHash : Address) (keys : RequestKeys) (signalling : Bytes) : Packet :=
  ofLayout 0x02 0 none destinationHash ContextType.none (keys.bytes ++ signalling)

/-! ## The way of a request -/

/-- The bytes a request can have become on its way, with the interfaces its next hops forwarded it
on. -/
inductive RequestRun (start : Bytes) : List Interface → Bytes → Prop where
  | start : RequestRun start [] start
  | insert {outs : List Interface} {raw : Bytes} {p : Packet} (receivedFrom : Address) :
      RequestRun start outs raw → unpack raw = some p → p.headerType = .header1 →
      RequestRun start outs (insertTransport p receivedFrom)
  | nextHop {outs : List Interface} {raw raw' : Bytes} {p : Packet} (hops : UInt8)
      (phMtu : UInt16) (out : Interface) (nextHop : Address) (remainingHops : UInt8) :
      RequestRun start outs raw → unpack raw = some p →
      (0 < remainingHops → p.headerType = .header2) →
      nextHopForward { p with hops } phMtu out nextHop remainingHops = .ok raw' →
      RequestRun start (outs ++ [out]) raw'

/-- Local delivery of a link request in `Transport::inbound`: the signalled MTU is removed or
clamped in the payload, for the destination to read. -/
def deliverLinkRequest (receiving : Interface) (p : Packet) : Except String Packet :=
  let pathMtu := mtuFromLrPacket p
  let nhMtu := if receiving.autoconfigureMtu || receiving.fixedMtu then receiving.hwMtu
    else UInt16.ofNat reticulumMtu
  if 0 < pathMtu then
    if receiving.hwMtu = 0 then
      if linkMtuSize ≤ p.data.length then
        .ok { p with data := p.data.left (p.data.length - linkMtuSize) }
      else .ok p
    else if nhMtu < pathMtu then
      (signallingBytes nhMtu (modeFromLrPacket p)).map fun clamped =>
        if linkMtuSize ≤ p.data.length then
          { p with data := p.data.left (p.data.length - linkMtuSize) ++ clamped }
        else p
    else .ok p
  else .ok p

/-- The id of the link that `Link::validate_request` creates, when the payload has one of the two
admissible sizes. -/
def validateRequestLinkId (fullHash : Bytes → Hash) (p : Packet) : Option Address :=
  if p.data.length = ecpubsize ∨ p.data.length = ecpubsize + linkMtuSize then
    some (linkIdFromLrPacket fullHash p)
  else none

/-! ## What a request carries on its way -/

/-- The flag byte of a link request. -/
theorem getPackedFlags_requestSpec (destinationHash : Address) (keys : RequestKeys)
    (signalling : Bytes) : getPackedFlags (requestSpec destinationHash keys signalling) = 0x02 := by
  have hcontext : (requestSpec destinationHash keys signalling).context ≠ ContextType.lrproof := by
    show ContextType.none ≠ ContextType.lrproof
    decide
  unfold getPackedFlags
  rw [if_neg hcontext]
  show packFlags ⟨.header1, .unset, .broadcast, .single, .linkrequest⟩ = 0x02
  decide

/-- The constructor's request is packed without loss. -/
theorem pack_requestSpec (encrypt : PacketSpec → Bytes → Except String Bytes)
    (destinationHash : Address) (keys : RequestKeys) {signalling : Bytes}
    (hsize : signalling.length ≤ linkMtuSize) :
    pack encrypt (requestSpec destinationHash keys signalling)
      = .ok (requestPacket destinationHash keys signalling) := by
  have hd : destinationHash.toList.length = 16 := destinationHash.toList_length
  have hs : signalling.length ≤ 3 := hsize
  have hlen : ¬ reticulumMtu < (getPackedFlags (requestSpec destinationHash keys signalling) ::
      (0 : UInt8) :: (destinationHash.toList ++ ContextType.none ::
        (keys.bytes ++ signalling))).length := by
    simp only [List.length_cons, List.length_append, hd, keys.bytes_length, reticulumMtu, ecpubsize]
    omega
  have hbody : packBody encrypt (requestSpec destinationHash keys signalling)
      = .ok (destinationHash.toList, keys.bytes ++ signalling) := rfl
  unfold pack
  rw [hbody]
  dsimp only
  split
  case isTrue hlong => exact absurd hlong hlen
  case isFalse =>
    rw [getPackedFlags_requestSpec]
    rfl

/-- The payload at a point of the way: the keys, followed by the signalling bytes of some non-zero
MTU as long as no hop has removed them. -/
def Carried (keys : RequestKeys) (kept : Prop) (data : Bytes) : Prop :=
  (kept ∧ ∃ mtu mode signalling, mtu ≠ 0 ∧ signallingBytes mtu mode = .ok signalling
      ∧ data = keys.bytes ++ signalling)
    ∨ ¬ kept ∧ data = keys.bytes

/-- The signalling bytes of a request have survived the given next hops. -/
def Kept (signalling : Bytes) (outs : List Interface) : Prop :=
  signalling ≠ [] ∧ ∀ out ∈ outs, dropsSignalling out = false

section Signalled

variable {keys : RequestKeys} {p : Packet} {mtu : UInt16} {mode : LinkMode} {signalling : Bytes}

/-- Cutting the signalling bytes leaves the keys. -/
theorem left_signalled (hs : signallingBytes mtu mode = .ok signalling) :
    (keys.bytes ++ signalling).left ((keys.bytes ++ signalling).length - linkMtuSize)
      = keys.bytes := by
  apply Bytes.left_append
  rw [List.length_append, signallingBytes_length hs]
  omega

/-- The MTU signalled to a node is the one put in. -/
theorem mtuFromLrPacket_signalled (hs : signallingBytes mtu mode = .ok signalling)
    (hdata : p.data = keys.bytes ++ signalling) : mtuFromLrPacket p = mtu := by
  have hlen := signallingBytes_length hs
  unfold mtuFromLrPacket
  rw [hdata, if_pos (by rw [List.length_append, keys.bytes_length, hlen])]
  unfold signallingBytes at hs
  split at hs
  case isFalse => cases hs
  case isTrue =>
    cases hs
    rw [show ecpubsize = ecpubsize + 0 from rfl, Nat.add_assoc, Nat.add_assoc,
      Bytes.byte_append keys.bytes_length, Bytes.byte_append keys.bytes_length,
      Bytes.byte_append keys.bytes_length]
    exact mtuOfBytes_signallingValue mtu mode

/-- The top three bits of the first signalling byte are the mode. -/
theorem mode_of_signallingValue (mtu : UInt16) (mode : LinkMode) :
    LinkMode.ofCode (((UInt8.ofNat (signallingValue mtu mode >>> 16)).toNat &&& 0xE0) >>> 5)
      = mode := by
  rw [signallingValue_high]
  cases mode <;> rfl

/-- So is the mode, which was enabled when the bytes were made. -/
theorem modeFromLrPacket_signalled (hs : signallingBytes mtu mode = .ok signalling)
    (hdata : p.data = keys.bytes ++ signalling) : modeFromLrPacket p ∈ enabledModes := by
  have hlen := signallingBytes_length hs
  have henabled : mode ∈ enabledModes := signallingBytes_ok_iff.mp ⟨_, hs⟩
  unfold modeFromLrPacket
  rw [hdata, if_pos (by rw [List.length_append, keys.bytes_length, hlen]; decide)]
  unfold signallingBytes at hs
  rw [if_pos henabled] at hs
  cases hs
  rw [show ecpubsize = ecpubsize + 0 from rfl, Bytes.byte_append keys.bytes_length]
  simp only [Bytes.byte_cons_zero, mode_of_signallingValue]
  exact henabled

/-- A payload without signalling bytes signals nothing. -/
theorem mtuFromLrPacket_plain (hdata : p.data = keys.bytes) : mtuFromLrPacket p = 0 := by
  unfold mtuFromLrPacket
  rw [hdata, keys.bytes_length]
  rfl

end Signalled

/-- A hop that does not drop the signalling bytes never clamps the MTU to zero. -/
theorem clampedMtu_ne_zero {phMtu : UInt16} {out : Interface} (h : dropsSignalling out = false) :
    clampedMtu phMtu out ≠ 0 := by
  have hhw : out.hwMtu ≠ 0 := by
    intro hzero
    simp [dropsSignalling, hzero] at h
  unfold clampedMtu
  dsimp only
  by_cases hpos : 0 < phMtu
  · have hph : phMtu ≠ 0 := fun hzero => by rw [hzero] at hpos; exact absurd hpos (by decide)
    rw [if_pos hpos]
    split <;> assumption
  · rw [if_neg hpos]
    split <;> exact hhw

/-- One hop removes the signalling bytes or leaves those of another non-zero MTU. -/
theorem rewriteMtuData_carried {keys : RequestKeys} {kept : Prop} {phMtu : UInt16}
    {out : Interface} {p : Packet} {data : Bytes} (hcarried : Carried keys kept p.data)
    (hok : rewriteMtuData phMtu out p = .ok data) :
    Carried keys (kept ∧ dropsSignalling out = false) data := by
  unfold rewriteMtuData at hok
  dsimp only at hok
  rcases hcarried with ⟨hkept, mtu, mode, signalling, hmtu, hs, hdata⟩ | ⟨hgone, hdata⟩
  · have hread : mtuFromLrPacket p ≠ 0 := by rwa [mtuFromLrPacket_signalled hs hdata]
    rw [if_neg hread, hdata, left_signalled hs] at hok
    split at hok
    case isTrue hdrop =>
      cases hok
      refine .inr ⟨fun hboth => ?_, rfl⟩
      rw [hdrop] at hboth
      exact Bool.noConfusion hboth.2
    case isFalse hdrop =>
      have hdrop' : dropsSignalling out = false := by simpa using hdrop
      split at hok
      case isTrue hex =>
        cases hb : signallingBytes (clampedMtu phMtu out) (modeFromLrPacket p) with
        | error e => rw [hb] at hok; cases hok
        | ok clamped =>
          rw [hb] at hok
          cases hok
          exact .inl ⟨⟨hkept, hdrop'⟩, _, _, clamped, clampedMtu_ne_zero hdrop', hb, rfl⟩
      case isFalse => cases hok; exact .inl ⟨⟨hkept, hdrop'⟩, mtu, mode, signalling, hmtu, hs, rfl⟩
  · rw [if_pos (mtuFromLrPacket_plain hdata)] at hok
    cases hok
    exact .inr ⟨fun hboth => hgone hboth.1, hdata⟩

/-- What every node on the way of a request reads. -/
structure OnTheWay (destinationHash : Address) (keys : RequestKeys) (kept : Prop) (p : Packet) :
    Prop where
  flags : p.flags &&& 0b00001111 = (0x02 : UInt8)
  destination : p.destinationHash = destinationHash
  context : p.context = ContextType.none
  carried : Carried keys kept p.data

/-- A packet on the way of a request is a link request. -/
theorem OnTheWay.packetType {destinationHash : Address} {keys : RequestKeys} {kept : Prop}
    {raw : Bytes} {p : Packet} (h : OnTheWay destinationHash keys kept p)
    (hunpack : unpack raw = some p) : p.packetType = .linkrequest := by
  have hlow : p.flags &&& 0b00001111 = (0x02 : UInt8) &&& 0b00001111 := h.flags
  have hread := (unpackFlags_of_low_eq hlow).2
  obtain ⟨_, hflags, _, _, _, htype⟩ := unpack_header hunpack
  rw [htype, ← hflags, hread]
  decide

/-- The request at its start. -/
theorem onTheWay_requestPacket (destinationHash : Address) (keys : RequestKeys)
    {signalling : Bytes} (hsig : RequestSignalling signalling) :
    OnTheWay destinationHash keys (Kept signalling [])
      (requestPacket destinationHash keys signalling) := by
  refine ⟨(by decide : (0x02 : UInt8) &&& 0b00001111 = 0x02), rfl, rfl, ?_⟩
  rcases hsig with rfl | ⟨discovery, nhHwMtu, mode, hs⟩
  · exact .inr ⟨fun hkept => hkept.1 rfl, List.append_nil _⟩
  · have hsome : ∃ mtu, mtu ≠ 0 ∧ signallingBytes mtu mode = .ok signalling := by
      unfold requestSignalling at hs
      split at hs
      case isTrue hd => exact ⟨nhHwMtu, hd.2, hs⟩
      case isFalse => exact ⟨_, by decide, hs⟩
    obtain ⟨mtu, hmtu, hb⟩ := hsome
    have hne : signalling ≠ [] := by
      intro hnil
      have := signallingBytes_length hb
      rw [hnil] at this
      cases this
    exact .inl ⟨⟨hne, fun _ hmem => by cases hmem⟩, mtu, mode, signalling, hmtu, hb, rfl⟩

/-- The request packet is read back as it was packed. -/
theorem unpack_requestPacket (destinationHash : Address) (keys : RequestKeys)
    (signalling : Bytes) :
    unpack (requestPacket destinationHash keys signalling).raw
      = some (requestPacket destinationHash keys signalling) := by
  have haddressed : Addressed 0x02 none := by
    show _ ↔ HeaderType.ofFlags 0x02 = .header2
    simp only [Option.isSome_none, Bool.false_eq_true, false_iff]
    decide
  exact unpack_layout haddressed

/-- One more hop keeps the signalling bytes if the way so far and the hop itself do. -/
theorem kept_snoc (signalling : Bytes) (outs : List Interface) (out : Interface) :
    Kept signalling (outs ++ [out]) ↔ Kept signalling outs ∧ dropsSignalling out = false := by
  simp only [Kept, List.forall_mem_append, List.mem_singleton, forall_eq, and_assoc]

/-- Every node on the way reads the request's destination and keys, and its signalling bytes as
long as no hop has dropped them. -/
theorem RequestRun.onTheWay {destinationHash : Address} {keys : RequestKeys} {signalling : Bytes}
    {outs : List Interface} {raw : Bytes} (hsig : RequestSignalling signalling)
    (hrun : RequestRun (requestPacket destinationHash keys signalling).raw outs raw) :
    ∃ p, unpack raw = some p ∧ OnTheWay destinationHash keys (Kept signalling outs) p := by
  induction hrun with
  | start => exact ⟨_, unpack_requestPacket _ _ _, onTheWay_requestPacket _ _ hsig⟩
  | insert receivedFrom hrun h htype ih =>
    obtain ⟨q, hq, hway⟩ := ih
    rw [h] at hq
    cases hq
    have haddressed : ∀ flags, Addressed (transportFlags flags) (some receivedFrom) := by
      intro flags
      show _ ↔ HeaderType.ofFlags (transportFlags flags) = .header2
      rw [transportFlags_header]
      simp
    refine ⟨_, (congrArg unpack (insertTransport_eq_layout receivedFrom h htype)).trans
      (unpack_layout (haddressed _)), ?_⟩
    exact ⟨(transportFlags_low _).trans hway.flags, hway.destination, hway.context, hway.carried⟩
  | nextHop hops phMtu out nextHop remainingHops hrun h htype hforward ih =>
    obtain ⟨q, hq, hway⟩ := ih
    rw [h] at hq
    cases hq
    obtain ⟨flags, transportId, data, _, rfl, haddressed, hlow, hok⟩ :=
      nextHopForward_eq_layout h htype hforward
    refine ⟨_, unpack_layout haddressed, hlow.trans hway.flags, hway.destination, hway.context, ?_⟩
    unfold forwardedData at hok
    rw [if_pos (hway.packetType h)] at hok
    have hnext := rewriteMtuData_carried hway.carried hok
    rwa [← kept_snoc] at hnext

/-! ## Agreement -/

/-- Two different strings are told apart by some hash function. -/
theorem truncatedHash_separates {a b : Bytes} (h : a ≠ b) :
    ∃ fullHash, truncatedHash fullHash a ≠ truncatedHash fullHash b := by
  let fullHash : Bytes → Hash := fun x => if x = a then tailHash [] else tailHash [1]
  have ha : fullHash a = tailHash [] := if_pos rfl
  have hb : fullHash b = tailHash [1] := if_neg (Ne.symm h)
  refine ⟨fullHash, fun heq => ?_⟩
  have hbytes := congrArg List.Vector.toList heq
  simp only [truncatedHash, Bytes.toAddress_toList, ha, hb] at hbytes
  exact absurd hbytes (by decide)

/-- The string the initiator hashes into the link id. -/
def requestIdPart (destinationHash : Address) (keys : RequestKeys) : Bytes :=
  0x02 :: (destinationHash.toList ++ ContextType.none :: keys.bytes)

/-- Every node on the way hashes the initiator's string. -/
theorem OnTheWay.linkIdPart_eq {destinationHash : Address} {keys : RequestKeys} {kept : Prop}
    {raw : Bytes} {p : Packet} (h : OnTheWay destinationHash keys kept p)
    (hunpack : unpack raw = some p) : linkIdPart p = requestIdPart destinationHash keys := by
  have hkeys : p.data.left ecpubsize = keys.bytes := by
    rcases h.carried with ⟨_, _, _, _, _, _, hdata⟩ | ⟨_, hdata⟩
    · rw [hdata]; exact Bytes.left_append keys.bytes_length.symm
    · rw [hdata]; exact List.take_of_length_le (by rw [keys.bytes_length])
  rw [linkIdPart_unpack hunpack, h.flags, h.destination, h.context, hkeys]
  rfl

/-- The string hashed into a link id depends on the payload only by its length. -/
theorem linkIdPart_congr {p q : Packet} (hpart : p.getHashablePart = q.getHashablePart)
    (hlen : p.data.length = q.data.length) : linkIdPart p = linkIdPart q := by
  unfold linkIdPart
  rw [hpart, hlen]

/-- Local delivery keeps raw bytes and payload length, except that it shortens the payload of a
signalled request when the receiving interface has no hardware MTU. -/
theorem deliverLinkRequest_ok {destinationHash : Address} {keys : RequestKeys} {kept : Prop}
    {p : Packet} (receiving : Interface) (h : OnTheWay destinationHash keys kept p) :
    ∃ data, deliverLinkRequest receiving p = .ok { p with data }
      ∧ (kept ∧ receiving.hwMtu = 0 → data = keys.bytes)
      ∧ (¬ (kept ∧ receiving.hwMtu = 0) → data.length = p.data.length) := by
  unfold deliverLinkRequest
  generalize (if receiving.autoconfigureMtu || receiving.fixedMtu then receiving.hwMtu
    else UInt16.ofNat reticulumMtu) = nhMtu
  dsimp only
  rcases h.carried with ⟨hkept, mtu, mode, signalling, hmtu, hs, hdata⟩ | ⟨hgone, hdata⟩
  · have hread := mtuFromLrPacket_signalled hs hdata
    have hpos : 0 < mtuFromLrPacket p := by
      rw [hread]
      exact UInt16.pos_iff_ne_zero.mpr hmtu
    have hsize : linkMtuSize ≤ p.data.length := by
      rw [hdata, List.length_append, signallingBytes_length hs]
      omega
    rw [if_pos hpos, if_pos hsize]
    by_cases hhw : receiving.hwMtu = 0
    · rw [if_pos hhw, hdata, left_signalled hs]
      exact ⟨_, rfl, fun _ => rfl, fun hnot => absurd ⟨hkept, hhw⟩ hnot⟩
    · rw [if_neg hhw]
      split
      case isTrue =>
        obtain ⟨clamped, hc⟩ := signallingBytes_ok_iff.mpr (modeFromLrPacket_signalled hs hdata)
        rw [hc]
        refine ⟨_, rfl, fun hboth => absurd hboth.2 hhw, fun _ => ?_⟩
        rw [hdata, left_signalled hs, List.length_append, List.length_append,
          signallingBytes_length hc, signallingBytes_length hs]
      case isFalse => exact ⟨_, rfl, fun hboth => absurd hboth.2 hhw, fun _ => rfl⟩
  · rw [mtuFromLrPacket_plain hdata]
    exact ⟨p.data, rfl, fun hboth => absurd hboth.1 hgone, fun _ => rfl⟩

/-- For every link request and every way it takes, every node on the way and the initiator file
the request under one id. At the destination the delivered request is accepted, and it gets the
same id, whatever the hash function is, exactly unless it still carried its signalling bytes and
came in on an interface without a hardware MTU. -/
theorem link_id_agrees_iff (encrypt : PacketSpec → Bytes → Except String Bytes)
    (destinationHash : Address) (keys : RequestKeys) (signalling : Bytes)
    (hsig : RequestSignalling signalling) :
    ∃ request, pack encrypt (requestSpec destinationHash keys signalling) = .ok request
      ∧ ∀ outs raw, RequestRun request.raw outs raw → ∃ p, unpack raw = some p
        ∧ (∀ fullHash, linkIdFromLrPacket fullHash p = linkIdFromLrPacket fullHash request)
        ∧ ∀ receiving, ∃ delivered, deliverLinkRequest receiving p = .ok delivered
          ∧ ((∀ fullHash, validateRequestLinkId fullHash delivered
                = some (linkIdFromLrPacket fullHash request))
              ↔ ¬ (signalling ≠ [] ∧ (∀ out ∈ outs, dropsSignalling out = false)
                  ∧ receiving.hwMtu = 0)) := by
  have hsize : signalling.length ≤ linkMtuSize := by
    rcases hsig with rfl | ⟨discovery, nhHwMtu, mode, hs⟩
    · exact Nat.zero_le _
    · unfold requestSignalling at hs
      split at hs <;> exact (signallingBytes_length hs).le
  refine ⟨_, pack_requestSpec encrypt destinationHash keys hsize, fun outs raw hrun => ?_⟩
  have hstart := onTheWay_requestPacket destinationHash keys hsig
  have hstartPart := hstart.linkIdPart_eq (unpack_requestPacket _ _ _)
  obtain ⟨p, hp, hway⟩ := hrun.onTheWay hsig
  have hpart := hway.linkIdPart_eq hp
  refine ⟨p, hp, fun fullHash => ?_, fun receiving => ?_⟩
  · unfold linkIdFromLrPacket
    rw [hpart, hstartPart]
  obtain ⟨data, hdeliver, hcut, hsame⟩ := deliverLinkRequest_ok receiving hway
  refine ⟨_, hdeliver, ?_⟩
  have hcond : (signalling ≠ [] ∧ (∀ out ∈ outs, dropsSignalling out = false)
      ∧ receiving.hwMtu = 0) ↔ Kept signalling outs ∧ receiving.hwMtu = 0 := by
    simp only [Kept, and_assoc]
  rw [hcond]
  by_cases hbad : Kept signalling outs ∧ receiving.hwMtu = 0
  · -- the payload lost its signalling bytes, the raw bytes still have them
    refine ⟨fun hall => absurd hbad ?_, fun hnot => absurd hbad hnot⟩
    have hdata := hcut hbad
    have hsigned : ∃ s, s ≠ [] ∧ p.data = keys.bytes ++ s := by
      rcases hway.carried with ⟨_, mtu, mode, s, _, hs, hd⟩ | ⟨hgone, _⟩
      · refine ⟨s, fun hnil => ?_, hd⟩
        have := signallingBytes_length hs
        rw [hnil] at this
        cases this
      · exact absurd hbad.1 hgone
    obtain ⟨s, hne, hd⟩ := hsigned
    have hpart' : linkIdPart { p with data } ≠ requestIdPart destinationHash keys := by
      have hwhole : linkIdPart { p with data } = p.getHashablePart := by
        unfold linkIdPart
        rw [if_neg (by rw [hdata, keys.bytes_length]; omega)]
        rfl
      rw [hwhole, getHashablePart_unpack hp, hway.flags, hway.destination, hway.context, hd]
      intro heq
      have hlen := congrArg List.length heq
      simp only [requestIdPart, List.length_cons, List.length_append] at hlen
      exact hne (List.length_eq_zero_iff.mp (by omega))
    obtain ⟨fullHash, hsep⟩ := truncatedHash_separates hpart'
    have hid := hall fullHash
    unfold validateRequestLinkId at hid
    rw [if_pos (.inl (by rw [hdata, keys.bytes_length]))] at hid
    unfold linkIdFromLrPacket at hid
    rw [hstartPart] at hid
    exact absurd (Option.some.inj hid) hsep
  · refine ⟨fun _ => hbad, fun _ fullHash => ?_⟩
    have hlen := hsame hbad
    have hadmissible : p.data.length = ecpubsize ∨ p.data.length = ecpubsize + linkMtuSize := by
      rcases hway.carried with ⟨_, mtu, mode, s, _, hs, hd⟩ | ⟨_, hd⟩
      · right; rw [hd, List.length_append, keys.bytes_length, signallingBytes_length hs]
      · left; rw [hd, keys.bytes_length]
    unfold validateRequestLinkId
    rw [← hlen] at hadmissible
    rw [if_pos hadmissible]
    have hunchanged : linkIdPart { p with data } = linkIdPart p := linkIdPart_congr rfl hlen
    unfold linkIdFromLrPacket
    rw [hunchanged, hpart, hstartPart]

/-- Two keys for concrete inputs. -/
def sampleKeys : RequestKeys where
  pubBytes := ⟨List.replicate 32 1, by simp⟩
  sigPubBytes := ⟨List.replicate 32 2, by simp⟩

theorem link_id_agrees_iff_direct :
    ∃ request p delivered,
      pack prefixEncrypt (requestSpec (.fill 7) sampleKeys [0x20, 0x01, 0xF4]) = .ok request
        ∧ unpack request.raw = some p ∧ deliverLinkRequest { id := 1, hwMtu := 500 } p = .ok delivered
        ∧ validateRequestLinkId tailHash delivered
            = some (linkIdFromLrPacket tailHash request) := by
  obtain ⟨request, hpack, hway⟩ := link_id_agrees_iff prefixEncrypt (.fill 7) sampleKeys
    [0x20, 0x01, 0xF4] (.inr ⟨true, 0, modeDefault, rfl⟩)
  obtain ⟨p, hp, _, hdeliver⟩ := hway [] request.raw .start
  obtain ⟨delivered, hok, hiff⟩ := hdeliver { id := 1, hwMtu := 500 }
  exact ⟨request, p, delivered, hpack, hp, hok,
    hiff.mpr (fun hbad => absurd hbad.2.2 (by decide)) tailHash⟩

/-- A request that reaches its destination directly, on an interface whose hardware MTU is not
known, is accepted under another id than the initiator's. -/
theorem link_id_differs_without_hardware_mtu :
    ∃ request delivered,
      pack prefixEncrypt (requestSpec (.fill 7) sampleKeys [0x20, 0x01, 0xF4]) = .ok request
        ∧ unpack request.raw = some request
        ∧ deliverLinkRequest { id := 1 } request = .ok delivered
        ∧ (validateRequestLinkId tailHash delivered).isSome
        ∧ validateRequestLinkId tailHash delivered
            ≠ some (linkIdFromLrPacket tailHash request) :=
  ⟨_, _, rfl, rfl, rfl, by decide, by decide⟩

end MicroReticulum.Link
