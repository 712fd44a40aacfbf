import Mathlib.Logic.Basic

/-!
# The first header byte

The flag byte of a packet holds, from the top: an access-code bit, the header type, the context
flag, the transport type, two bits of destination type and two bits of packet type. `Flags` is the
byte as `Packet::unpack_flags` reads it, `packFlags` the byte as `Packet::get_packed_flags` builds
it. The access-code bit is never set and never looked at.

The context of a packet is a byte of its own and is not restricted to the named values, because
the source casts whatever byte it finds.
-/

namespace MicroReticulum.Packet

/-- `Type::Packet::types` -/
inductive PacketType where
  | data | announce | linkrequest | proof
  deriving DecidableEq, Repr

/-- `Type::Packet::header_types` -/
inductive HeaderType where
  | header1 | header2
  deriving DecidableEq, Repr

/-- `Type::Destination::types` -/
inductive DestinationType where
  | single | group | plain | link
  deriving DecidableEq, Repr

/-- `Type::Transport::types` -/
inductive TransportType where
  | broadcast | transport | relay | tunnel | none
  deriving DecidableEq, Repr

/-- `Type::Packet::context_flags` -/
inductive ContextFlag where
  | unset | set
  deriving DecidableEq, Repr

/-- `Type::Packet::context_types`: any byte, with the named ones below. -/
abbrev ContextType : Type := UInt8

namespace ContextType

def none : ContextType := 0x00
def resource : ContextType := 0x01
def resourceAdv : ContextType := 0x02
def resourceReq : ContextType := 0x03
def resourceHmu : ContextType := 0x04
def resourcePrf : ContextType := 0x05
def resourceIcl : ContextType := 0x06
def resourceRcl : ContextType := 0x07
def cacheRequest : ContextType := 0x08
def request : ContextType := 0x09
def response : ContextType := 0x0A
def pathResponse : ContextType := 0x0B
def channel : ContextType := 0x0E
def keepalive : ContextType := 0xFA
def linkidentify : ContextType := 0xFB
def linkclose : ContextType := 0xFC
def lrrtt : ContextType := 0xFE
def lrproof : ContextType := 0xFF

end ContextType

namespace PacketType

/-- The two bits on the wire. -/
def code : PacketType → UInt8
  | .data => 0 | .announce => 1 | .linkrequest => 2 | .proof => 3

/-- The packet type of the low two bits of a flag byte. -/
def ofFlags (flags : UInt8) : PacketType :=
  if flags &&& 0b00000011 = 0 then .data
  else if flags &&& 0b00000011 = 1 then .announce
  else if flags &&& 0b00000011 = 2 then .linkrequest
  else .proof

end PacketType

namespace HeaderType

def code : HeaderType → UInt8
  | .header1 => 0 | .header2 => 1

/-- The header type of bit 6 of a flag byte. -/
def ofFlags (flags : UInt8) : HeaderType :=
  if (flags &&& 0b01000000) >>> 6 = 0 then .header1 else .header2

end HeaderType

namespace DestinationType

def code : DestinationType → UInt8
  | .single => 0 | .group => 1 | .plain => 2 | .link => 3

/-- The destination type of bits 3 and 2 of a flag byte. -/
def ofFlags (flags : UInt8) : DestinationType :=
  if (flags &&& 0b00001100) >>> 2 = 0 then .single
  else if (flags &&& 0b00001100) >>> 2 = 1 then .group
  else if (flags &&& 0b00001100) >>> 2 = 2 then .plain
  else .link

end DestinationType

namespace TransportType

def code : TransportType → UInt8
  | .broadcast => 0 | .transport => 1 | .relay => 2 | .tunnel => 3 | .none => 0xFF

/-- The transport type of bit 4 of a flag byte. -/
def ofFlags (flags : UInt8) : TransportType :=
  if (flags &&& 0b00010000) >>> 4 = 0 then .broadcast else .transport

end TransportType

namespace ContextFlag

def code : ContextFlag → UInt8
  | .unset => 0 | .set => 1

/-- The context flag of bit 5 of a flag byte. -/
def ofFlags (flags : UInt8) : ContextFlag :=
  if (flags &&& 0b00100000) >>> 5 = 0 then .unset else .set

end ContextFlag

/-- The fields of the first header byte. -/
structure Flags where
  headerType : HeaderType
  contextFlag : ContextFlag
  transportType : TransportType
  destinationType : DestinationType
  packetType : PacketType
  deriving DecidableEq, Repr

/-- `Packet::unpack_flags` -/
def unpackFlags (flags : UInt8) : Flags where
  headerType := .ofFlags flags
  contextFlag := .ofFlags flags
  transportType := .ofFlags flags
  destinationType := .ofFlags flags
  packetType := .ofFlags flags

/-- The shifts and ors of `Packet::get_packed_flags`, truncated to a byte as its return is. -/
def packFlags (f : Flags) : UInt8 :=
  (f.headerType.code <<< 6) ||| (f.contextFlag.code <<< 5) ||| (f.transportType.code <<< 4)
    ||| (f.destinationType.code <<< 2) ||| f.packetType.code

/-! ## What a flag byte keeps -/

/-- A property of all bytes is checked on the 256 of them. -/
theorem forall_byte {P : UInt8 → Prop} [DecidablePred P]
    (h : ∀ n : Fin 256, P (UInt8.ofNat n.val)) (b : UInt8) : P b := by
  have hb := h ⟨b.toNat, b.toNat_lt⟩
  simpa using hb

/-- A transport type other than `NONE` leaves the header-type bit as it was put in. -/
theorem ofFlags_packFlags_header (f : Flags) (h : f.transportType ≠ .none) :
    HeaderType.ofFlags (packFlags f) = f.headerType := by
  obtain ⟨ht, cf, tt, dt, pt⟩ := f
  revert h
  cases ht <;> cases cf <;> cases tt <;> cases dt <;> cases pt <;> decide

/-- Under the two transport types that fit their bit, the flag byte is read back as it was put
together. -/
theorem unpackFlags_packFlags (f : Flags)
    (h : f.transportType = .broadcast ∨ f.transportType = .transport) :
    unpackFlags (packFlags f) = f := by
  obtain ⟨ht, cf, tt, dt, pt⟩ := f
  rcases h with h | h <;> cases h <;> cases ht <;> cases cf <;> cases dt <;> cases pt <;> decide

/-- The low four bits are the destination type and the packet type, whatever the rest is. -/
theorem packFlags_low (f : Flags) :
    packFlags f &&& (0b00001111 : UInt8) = (f.destinationType.code <<< 2) ||| f.packetType.code := by
  obtain ⟨ht, cf, tt, dt, pt⟩ := f
  cases ht <;> cases cf <;> cases tt <;> cases dt <;> cases pt <;> decide

/-- Destination type and packet type are read back from the low four bits. -/
theorem low_injective {d d' : DestinationType} {p p' : PacketType}
    (h : (d.code <<< 2) ||| p.code = (d'.code <<< 2) ||| p'.code) : d = d' ∧ p = p' := by
  revert h
  cases d <;> cases p <;> cases d' <;> cases p' <;> decide

/-- The low four bits of a byte determine what is read from them. -/
theorem unpackFlags_of_low_eq {a b : UInt8} (h : a &&& 0b00001111 = b &&& 0b00001111) :
    (unpackFlags a).destinationType = (unpackFlags b).destinationType ∧
      (unpackFlags a).packetType = (unpackFlags b).packetType := by
  have hdest : ∀ x : UInt8, DestinationType.ofFlags x
      = DestinationType.ofFlags (x &&& 0b00001111) := by
    apply forall_byte; decide +kernel
  have hpack : ∀ x : UInt8, PacketType.ofFlags x = PacketType.ofFlags (x &&& 0b00001111) := by
    apply forall_byte; decide +kernel
  refine ⟨?_, ?_⟩
  · show DestinationType.ofFlags a = DestinationType.ofFlags b
    rw [hdest a, hdest b, h]
  · show PacketType.ofFlags a = PacketType.ofFlags b
    rw [hpack a, hpack b, h]

/-- The flag byte of a packet inserted into transport:
`HEADER_2 << 6 | TRANSPORT << 4 | flags & 0x0f`. -/
def transportFlags (flags : UInt8) : UInt8 :=
  (HeaderType.code .header2 <<< 6) ||| (TransportType.code .transport <<< 4)
    ||| (flags &&& 0b00001111)

/-- The flag byte of a packet whose transport header is stripped at the last hop:
`HEADER_1 << 6 | BROADCAST << 4 | flags & 0x0f`. -/
def strippedFlags (flags : UInt8) : UInt8 :=
  (HeaderType.code .header1 <<< 6) ||| (TransportType.code .broadcast <<< 4)
    ||| (flags &&& 0b00001111)

theorem transportFlags_header : ∀ flags : UInt8,
    HeaderType.ofFlags (transportFlags flags) = .header2 := by
  apply forall_byte; decide +kernel

theorem transportFlags_low : ∀ flags : UInt8,
    transportFlags flags &&& 0b00001111 = flags &&& 0b00001111 := by
  apply forall_byte; decide +kernel

theorem strippedFlags_header : ∀ flags : UInt8,
    HeaderType.ofFlags (strippedFlags flags) = .header1 := by
  apply forall_byte; decide +kernel

theorem strippedFlags_low : ∀ flags : UInt8,
    strippedFlags flags &&& 0b00001111 = flags &&& 0b00001111 := by
  apply forall_byte; decide +kernel

end MicroReticulum.Packet
