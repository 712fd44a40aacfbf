import MicroReticulum.Wire.Bytes
import MicroReticulum.Packet.Header

/-!
# Packing and unpacking

`PacketSpec` is what a `Packet` constructor and its fluent setters fix before the packet is packed;
`pack` is `Packet::pack` on it. `unpack` is `Packet::unpack` on raw bytes; it fails exactly where
the source throws for a packet shorter than its header. Both give a `Packet`, whose `raw` and
`data` are separate fields as in the source: a later assignment to `data` does not touch `raw`,
and the hash is always taken from `raw`.

Encryption is a parameter of `pack`; the cases in which the source does not call it are modelled.
A packet whose destination is missing is not a `PacketSpec`.
-/

namespace MicroReticulum

open Packet (PacketType HeaderType DestinationType TransportType ContextFlag ContextType Flags
  unpackFlags packFlags)

/-- `Type::Reticulum::HEADER_MINSIZE` -/
def headerMinsize : Nat := 2 + 1 + destinationLength

/-- `Type::Reticulum::HEADER_MAXSIZE` -/
def headerMaxsize : Nat := 2 + 1 + destinationLength * 2

/-- `Type::Reticulum::MTU` -/
def reticulumMtu : Nat := 500

/-- The fields of a packed or unpacked `Packet`. An empty `_transport_id` is `none`. -/
structure Packet where
  raw : Bytes
  flags : UInt8
  hops : UInt8
  headerType : HeaderType
  contextFlag : ContextFlag
  transportType : TransportType
  destinationType : DestinationType
  packetType : PacketType
  transportId : Option Address
  destinationHash : Address
  context : ContextType
  data : Bytes
  deriving DecidableEq

/-- What the constructors and fluent setters of `Packet` fix before packing. -/
structure PacketSpec where
  /-- type and hash of `_destination` -/
  destinationType : DestinationType
  destinationHash : Address
  /-- link id of `_destination_link`, when the packet belongs to a link -/
  destinationLink : Option Address := none
  headerType : HeaderType := .header1
  transportType : TransportType := .broadcast
  packetType : PacketType := .data
  context : ContextType := ContextType.none
  contextFlag : ContextFlag := .unset
  transportId : Option Address := none
  hops : UInt8 := 0
  data : Bytes
  /-- `_ciphertext` as an earlier `pack` left it -/
  ciphertext : Bytes := []
  mtu : Nat := reticulumMtu
  /-- the constructor from a link addresses the packet to the link itself -/
  linkAddressed : ∀ l, destinationLink = some l →
    l = destinationHash ∧ destinationType = .link := by simp

namespace Packet

/-- `Packet::get_packed_flags`: a link request proof is marked as link-addressed. -/
def getPackedFlags (p : PacketSpec) : UInt8 :=
  packFlags
    { headerType := p.headerType
      contextFlag := p.contextFlag
      transportType := p.transportType
      destinationType := if p.context = ContextType.lrproof then .link else p.destinationType
      packetType := p.packetType }

/-- The packets `pack` does not encrypt under `HEADER_1`. -/
def plaintextOnWire (p : PacketSpec) : Bool :=
  p.packetType = .announce || p.packetType = .linkrequest
    || (p.packetType = .proof && p.context = ContextType.resourcePrf)
    || (p.packetType = .proof && p.destinationType = .link)
    || p.context = ContextType.resource
    || p.context = ContextType.keepalive
    || p.context = ContextType.cacheRequest

/-- The addresses and the ciphertext of `Packet::pack`. -/
def packBody (encrypt : PacketSpec → Bytes → Except String Bytes) (p : PacketSpec) :
    Except String (Bytes × Bytes) :=
  if p.context = ContextType.lrproof then
    match p.destinationLink with
    | none => .error "Packet is not associated with a Link"
    | some link => .ok (link.toList, p.data)
  else
    match p.headerType with
    | .header1 =>
      if plaintextOnWire p then .ok (p.destinationHash.toList, p.data)
      else (encrypt p p.data).map fun c => (p.destinationHash.toList, c)
    | .header2 =>
      match p.transportId with
      | none => .error "Packet with header type 2 must have a transport ID"
      | some t =>
        -- only announces get a ciphertext here; anything else keeps the previous one
        .ok (t.toList ++ p.destinationHash.toList,
          if p.packetType = .announce then p.data else p.ciphertext)

/-- `Packet::pack` -/
def pack (encrypt : PacketSpec → Bytes → Except String Bytes) (p : PacketSpec) :
    Except String Packet :=
  match packBody encrypt p with
  | .error e => .error e
  | .ok (addresses, ciphertext) =>
    let raw := getPackedFlags p :: p.hops :: (addresses ++ p.context :: ciphertext)
    if p.mtu < raw.length then .error "Packet size exceeds MTU"
    else .ok
      { raw, flags := getPackedFlags p, hops := p.hops, headerType := p.headerType
        contextFlag := p.contextFlag, transportType := p.transportType
        destinationType := p.destinationType, packetType := p.packetType
        transportId := p.transportId, destinationHash := p.destinationHash
        context := p.context, data := p.data }

/-- A stand-in for encryption on concrete inputs: one byte in front. -/
def prefixEncrypt (_ : PacketSpec) (b : Bytes) : Except String Bytes := .ok (0xAA :: b)

/-- `Packet::unpack` -/
def unpack (raw : Bytes) : Option Packet :=
  if h : headerMinsize ≤ raw.length then
    let flags := raw.byte 0
    let f := unpackFlags flags
    match f.headerType with
    | .header1 =>
      some
        { raw, flags, hops := raw.byte 1, headerType := .header1
          contextFlag := f.contextFlag, transportType := f.transportType
          destinationType := f.destinationType, packetType := f.packetType
          transportId := none
          destinationHash := (raw.mid 2).toAddress (by
            simp only [headerMinsize, Bytes.mid_length] at h ⊢; omega)
          context := raw.byte (2 + destinationLength)
          data := raw.mid (2 + destinationLength + 1) }
    | .header2 =>
      if h2 : headerMaxsize ≤ raw.length then
        some
          { raw, flags, hops := raw.byte 1, headerType := .header2
            contextFlag := f.contextFlag, transportType := f.transportType
            destinationType := f.destinationType, packetType := f.packetType
            transportId := some ((raw.mid 2).toAddress (by
              simp only [headerMaxsize, Bytes.mid_length] at h2 ⊢; omega))
            destinationHash := (raw.mid (destinationLength + 2)).toAddress (by
              simp only [headerMaxsize, Bytes.mid_length] at h2 ⊢; omega)
            context := raw.byte (destinationLength + 2 + destinationLength)
            data := raw.mid (destinationLength + 2 + destinationLength + 1) }
      else none
  else none

/-! ## Hashes -/

/-- Where the hashed part of the raw bytes starts: behind the transport id, if there is one. -/
def hashableStart : HeaderType → Nat
  | .header2 => destinationLength + 2
  | .header1 => 2

/-- `Packet::get_hashable_part` -/
def getHashablePart (p : Packet) : Bytes :=
  (p.raw.byte 0 &&& 0b00001111) :: p.raw.mid (hashableStart p.headerType)

/-- `Packet::get_hash` -/
def getHash (fullHash : Bytes → Hash) (p : Packet) : Hash := fullHash (getHashablePart p)

/-- `Packet::getTruncatedHash` -/
def getTruncatedHash (fullHash : Bytes → Hash) (p : Packet) : Address :=
  truncatedHash fullHash (getHashablePart p)

/-! ## The layout on the wire -/

/-- The bytes of an optional transport id. -/
def transportBytes : Option Address → Bytes
  | none => []
  | some t => t.toList

/-- The raw bytes of a packet, field by field. -/
def layout (flags hops : UInt8) (transportId : Option Address) (destinationHash : Address)
    (context : ContextType) (data : Bytes) : Bytes :=
  flags :: hops :: (transportBytes transportId ++ (destinationHash.toList ++ context :: data))

/-- The packet read from a layout. -/
def ofLayout (flags hops : UInt8) (transportId : Option Address) (destinationHash : Address)
    (context : ContextType) (data : Bytes) : Packet where
  raw := layout flags hops transportId destinationHash context data
  flags := flags
  hops := hops
  headerType := (unpackFlags flags).headerType
  contextFlag := (unpackFlags flags).contextFlag
  transportType := (unpackFlags flags).transportType
  destinationType := (unpackFlags flags).destinationType
  packetType := (unpackFlags flags).packetType
  transportId := transportId
  destinationHash := destinationHash
  context := context
  data := data

/-- A transport id is there exactly under `HEADER_2`. -/
def Addressed (flags : UInt8) (transportId : Option Address) : Prop :=
  transportId.isSome ↔ (unpackFlags flags).headerType = .header2

/-- What `unpack` accepts is the layout of the packet it returns. -/
theorem unpack_sound {raw : Bytes} {p : Packet} (h : unpack raw = some p) :
    p = ofLayout p.flags p.hops p.transportId p.destinationHash p.context p.data
      ∧ p.raw = raw ∧ Addressed p.flags p.transportId := by
  unfold unpack at h
  split at h
  case isFalse => cases h
  case isTrue hmin =>
    have hmin' : 19 ≤ raw.length := hmin
    have hdl : destinationLength = 16 := rfl
    have hhead : raw = raw.byte 0 :: raw.byte 1 :: raw.mid 2 := by
      rw [← Bytes.mid_eq_byte_cons (by omega), ← Bytes.mid_eq_byte_cons (by omega),
        Bytes.mid_zero]
    dsimp only at h
    split at h
    case h_1 htype =>
      have hlayout := hhead
      rw [Bytes.mid_eq_address_append (b := raw) (n := 2)
          (by rw [Bytes.mid_length]; omega),
        Bytes.mid_eq_byte_cons (n := 2 + destinationLength) (by omega)] at hlayout
      cases h
      refine ⟨?_, rfl, ?_⟩
      · simp only [ofLayout, layout, transportBytes, List.nil_append, htype]
        rw [← hlayout]
      · simp [Addressed, htype]
    case h_2 htype =>
      split at h
      case isFalse => cases h
      case isTrue hmax =>
        have hmax' : 35 ≤ raw.length := hmax
        have hlayout := hhead
        rw [Bytes.mid_eq_address_append (b := raw) (n := 2)
            (by rw [Bytes.mid_length]; omega),
          Nat.add_comm 2,
          Bytes.mid_eq_address_append (b := raw) (n := destinationLength + 2)
            (by rw [Bytes.mid_length]; omega),
          Bytes.mid_eq_byte_cons (n := destinationLength + 2 + destinationLength)
            (by omega)] at hlayout
        cases h
        refine ⟨?_, rfl, ?_⟩
        · simp only [ofLayout, layout, transportBytes, htype]
          rw [← hlayout]
        · simp [Addressed, htype]

/-- Two layouts with the transport ids their header types ask for are equal field by field. -/
theorem layout_injective {f f' h h' : UInt8} {t t' : Option Address} {d d' : Address}
    {c c' : ContextType} {x x' : Bytes} (ht : Addressed f t) (ht' : Addressed f' t')
    (heq : layout f h t d c x = layout f' h' t' d' c' x') :
    f = f' ∧ h = h' ∧ t = t' ∧ d = d' ∧ c = c' ∧ x = x' := by
  obtain ⟨rfl, htail⟩ := List.cons.inj heq
  obtain ⟨rfl, hrest⟩ := List.cons.inj htail
  have hsome : t.isSome ↔ t'.isSome := ht.trans ht'.symm
  have hsplit : t = t' ∧ d.toList ++ c :: x = d'.toList ++ c' :: x' := by
    cases t with
    | none =>
      cases t' with
      | none => exact ⟨rfl, hrest⟩
      | some b => simp at hsome
    | some a =>
      cases t' with
      | none => simp at hsome
      | some b =>
        obtain ⟨hab, hrest⟩ := List.append_inj hrest (a.toList_length.trans b.toList_length.symm)
        exact ⟨congrArg some (List.Vector.eq _ _ hab), hrest⟩
  obtain ⟨hd, hcx⟩ := List.append_inj hsplit.2 (d.toList_length.trans d'.toList_length.symm)
  obtain ⟨rfl, rfl⟩ := List.cons.inj hcx
  exact ⟨rfl, rfl, hsplit.1, List.Vector.eq _ _ hd, rfl, rfl⟩

/-- `unpack` succeeds exactly on strings at least as long as the header they announce. -/
theorem unpack_isSome_iff {raw : Bytes} :
    (unpack raw).isSome ↔ headerMinsize ≤ raw.length
      ∧ ((unpackFlags (raw.byte 0)).headerType = .header2 → headerMaxsize ≤ raw.length) := by
  unfold unpack
  split
  case isFalse hmin => simp [hmin]
  case isTrue hmin =>
    dsimp only
    split
    case h_1 heq => simp [heq, hmin]
    case h_2 heq =>
      split
      case isFalse hmax => simp [heq, hmax]
      case isTrue hmax => simp [hmin, hmax]

/-- Every layout with a transport id where its header type asks for one is accepted and read back
field by field. -/
theorem unpack_layout {flags hops : UInt8} {transportId : Option Address}
    {destinationHash : Address} {context : ContextType} {data : Bytes}
    (h : Addressed flags transportId) :
    unpack (layout flags hops transportId destinationHash context data)
      = some (ofLayout flags hops transportId destinationHash context data) := by
  have hlong : (unpack (layout flags hops transportId destinationHash context data)).isSome := by
    have hd := destinationHash.toList_length
    rw [unpack_isSome_iff]
    refine ⟨?_, fun htype => ?_⟩
    · simp only [layout, List.length_cons, List.length_append, hd, headerMinsize]
      omega
    · obtain ⟨t, rfl⟩ := Option.isSome_iff_exists.mp (h.mpr htype)
      simp only [layout, transportBytes, List.length_cons, List.length_append, hd,
        t.toList_length, headerMaxsize]
      omega
  obtain ⟨q, hq⟩ := Option.isSome_iff_exists.mp hlong
  obtain ⟨hlayout, hraw, haddressed⟩ := unpack_sound hq
  have hlayoutRaw := hraw.symm.trans (congrArg Packet.raw hlayout)
  obtain ⟨h1, h2, h3, h4, h5, h6⟩ := layout_injective h haddressed hlayoutRaw
  rw [hq, hlayout, ← h1, ← h2, ← h3, ← h4, ← h5, ← h6]

/-- Whatever `unpack` accepts, its hashable part is the low flag bits, the destination hash, the
context and the data it read, and nothing else. -/
theorem getHashablePart_unpack {raw : Bytes} {p : Packet} (h : unpack raw = some p) :
    getHashablePart p
      = (p.flags &&& 0b00001111) :: (p.destinationHash.toList ++ p.context :: p.data) := by
  obtain ⟨hlayout, _, haddressed⟩ := unpack_sound h
  have hstart : hashableStart (unpackFlags p.flags).headerType
      = (transportBytes p.transportId).length + 2 := by
    cases ht : p.transportId with
    | none =>
      rw [ht] at haddressed
      have : (unpackFlags p.flags).headerType ≠ .header2 := by
        intro h2; simpa using haddressed.mpr h2
      cases hh : (unpackFlags p.flags).headerType with
      | header1 => rfl
      | header2 => exact absurd hh this
    | some t =>
      rw [ht] at haddressed
      rw [haddressed.mp rfl]
      simp only [transportBytes, t.toList_length, hashableStart]
  rw [hlayout]
  simp only [getHashablePart, ofLayout, layout, Bytes.byte_cons_zero, hstart,
    Bytes.mid_cons_succ]
  rw [Bytes.mid_append rfl]

/-- `unpack` keeps the raw bytes, and reads header type, hops and flags from the first two. -/
theorem unpack_header {raw : Bytes} {p : Packet} (h : unpack raw = some p) :
    p.raw = raw ∧ p.flags = raw.byte 0 ∧ p.hops = raw.byte 1
      ∧ p.headerType = (unpackFlags (raw.byte 0)).headerType
      ∧ p.destinationType = (unpackFlags (raw.byte 0)).destinationType
      ∧ p.packetType = (unpackFlags (raw.byte 0)).packetType := by
  obtain ⟨hlayout, hraw, _⟩ := unpack_sound h
  have hraw' := hraw.symm.trans (congrArg Packet.raw hlayout)
  have hflags : p.flags = raw.byte 0 := by rw [hraw']; rfl
  have hhops : p.hops = raw.byte 1 := by rw [hraw']; rfl
  refine ⟨hraw, hflags, hhops, ?_, ?_, ?_⟩ <;> rw [hlayout, ← hflags] <;> rfl

end Packet

end MicroReticulum
