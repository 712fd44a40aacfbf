import MicroReticulum.Packet.Format
import Mathlib.Data.Nat.Bitwise

/-!
# Signalling bytes and link ids

A link request carries two 32-byte public keys and, optionally, three signalling bytes: 21 bits of
MTU below 3 bits of link mode. A link proof carries the same three bytes behind a signature and a
key. The functions here are the static members of `Link` that build and read those bytes, and
`linkIdFromLrPacket`, which hashes a request without its signalling bytes.

Sixteen of the 21 MTU bits survive, because the source stores the value in a `uint16_t`.
-/

namespace MicroReticulum.Link

open MicroReticulum

/-- `Type::Link::link_mode` -/
inductive LinkMode where
  | aes128Cbc | aes256Cbc | aes256Gcm | otpReserved
  | pqReserved1 | pqReserved2 | pqReserved3 | pqReserved4
  deriving DecidableEq, Repr

namespace LinkMode

def code : LinkMode → Nat
  | .aes128Cbc => 0 | .aes256Cbc => 1 | .aes256Gcm => 2 | .otpReserved => 3
  | .pqReserved1 => 4 | .pqReserved2 => 5 | .pqReserved3 => 6 | .pqReserved4 => 7

/-- The cast of three bits to a mode. -/
def ofCode : Nat → LinkMode
  | 0 => .aes128Cbc | 1 => .aes256Cbc | 2 => .aes256Gcm | 3 => .otpReserved
  | 4 => .pqReserved1 | 5 => .pqReserved2 | 6 => .pqReserved3 | _ => .pqReserved4

@[simp] theorem ofCode_code (m : LinkMode) : ofCode m.code = m := by cases m <;> rfl

theorem code_lt (m : LinkMode) : m.code < 8 := by cases m <;> decide

end LinkMode

/-- `Type::Link::ECPUBSIZE` -/
def ecpubsize : Nat := 32 + 32

/-- `Type::Link::LINK_MTU_SIZE` -/
def linkMtuSize : Nat := 3

/-- `Type::Identity::SIGLENGTH / 8` -/
def siglength : Nat := 64

/-- `Link::ENABLED_MODES` -/
def enabledModes : List LinkMode := [.aes256Cbc]

/-- `Link::MODE_DEFAULT` -/
def modeDefault : LinkMode := .aes256Cbc

/-- The 24-bit value of `Link::signalling_bytes`. -/
def signallingValue (mtu : UInt16) (mode : LinkMode) : Nat :=
  (mtu.toNat &&& 0x1FFFFF) + (((mode.code <<< 5) &&& 0xE0) <<< 16)

/-- `Link::signalling_bytes`: the last three bytes of the big-endian value. -/
def signallingBytes (mtu : UInt16) (mode : LinkMode) : Except String Bytes :=
  if mode ∈ enabledModes then
    let v := signallingValue mtu mode
    .ok [UInt8.ofNat (v >>> 16), UInt8.ofNat (v >>> 8), UInt8.ofNat v]
  else .error "Requested link mode not enabled"

/-- The MTU in three signalling bytes, as the two `mtu_from_` functions compute it. -/
def mtuOfBytes (b0 b1 b2 : UInt8) : UInt16 :=
  UInt16.ofNat (((b0.toNat <<< 16) + (b1.toNat <<< 8) + b2.toNat) &&& 0x1FFFFF)

/-- `Link::mtu_from_lr_packet` -/
def mtuFromLrPacket (p : Packet) : UInt16 :=
  if p.data.length = ecpubsize + linkMtuSize then
    mtuOfBytes (p.data.byte ecpubsize) (p.data.byte (ecpubsize + 1)) (p.data.byte (ecpubsize + 2))
  else 0

/-- `Link::mtu_from_lp_packet` -/
def mtuFromLpPacket (p : Packet) : UInt16 :=
  if p.data.length = siglength + ecpubsize / 2 + linkMtuSize then
    mtuOfBytes (p.data.byte (siglength + ecpubsize / 2))
      (p.data.byte (siglength + ecpubsize / 2 + 1)) (p.data.byte (siglength + ecpubsize / 2 + 2))
  else 0

/-- `Link::mode_from_lr_packet` -/
def modeFromLrPacket (p : Packet) : LinkMode :=
  if ecpubsize < p.data.length then
    .ofCode (((p.data.byte ecpubsize).toNat &&& 0xE0) >>> 5)
  else modeDefault

/-- `Link::mode_from_lp_packet` -/
def modeFromLpPacket (p : Packet) : LinkMode :=
  if siglength + ecpubsize / 2 < p.data.length then
    .ofCode ((p.data.byte (siglength + ecpubsize / 2)).toNat >>> 5)
  else modeDefault

/-- The bytes `Link::link_id_from_lr_packet` hashes: the hashable part without as many bytes at
its end as the data field has beyond the two public keys. -/
def linkIdPart (p : Packet) : Bytes :=
  let hashable := p.getHashablePart
  if ecpubsize < p.data.length then
    hashable.left (hashable.length - (p.data.length - ecpubsize))
  else hashable

/-- `Link::link_id_from_lr_packet` -/
def linkIdFromLrPacket (fullHash : Bytes → Hash) (p : Packet) : Address :=
  truncatedHash fullHash (linkIdPart p)

/-! ## Signalling bytes -/

theorem signallingBytes_length {mtu : UInt16} {mode : LinkMode} {b : Bytes}
    (h : signallingBytes mtu mode = .ok b) : b.length = linkMtuSize := by
  unfold signallingBytes at h
  split at h
  · cases h; rfl
  · cases h

theorem signallingBytes_ok_iff {mtu : UInt16} {mode : LinkMode} :
    (∃ b, signallingBytes mtu mode = .ok b) ↔ mode ∈ enabledModes := by
  unfold signallingBytes
  split
  case isTrue h => simp [h]
  case isFalse h => simp [h]

/-- The mask `MTU_BYTEMASK` is a reduction modulo `2 ^ 21`. -/
theorem and_mtuBytemask (n : Nat) : n &&& 0x1FFFFF = n % 2097152 :=
  Nat.and_two_pow_sub_one_eq_mod n 21

/-- The value in arithmetic form: the MTU below the mode. -/
theorem signallingValue_eq (mtu : UInt16) (mode : LinkMode) :
    signallingValue mtu mode = mtu.toNat + mode.code * 2097152 := by
  have hm : mtu.toNat < 65536 := mtu.toNat_lt
  have hmask : mtu.toNat &&& 0x1FFFFF = mtu.toNat :=
    (and_mtuBytemask _).trans (Nat.mod_eq_of_lt (by omega))
  have hmode : ((mode.code <<< 5) &&& 0xE0) <<< 16 = mode.code * 2097152 := by
    cases mode <;> rfl
  exact congrArg₂ (· + ·) hmask hmode

/-- A 16-bit MTU leaves the top byte to the mode. -/
theorem signallingValue_high (mtu : UInt16) (mode : LinkMode) :
    signallingValue mtu mode >>> 16 = mode.code * 32 := by
  have hm : mtu.toNat < 65536 := mtu.toNat_lt
  rw [signallingValue_eq, Nat.shiftRight_eq_div_pow]
  omega

/-- Reading the MTU back from the bytes of `signallingBytes`. -/
theorem mtuOfBytes_signallingValue (mtu : UInt16) (mode : LinkMode) :
    mtuOfBytes (UInt8.ofNat (signallingValue mtu mode >>> 16))
      (UInt8.ofNat (signallingValue mtu mode >>> 8)) (UInt8.ofNat (signallingValue mtu mode))
      = mtu := by
  have hm : mtu.toNat < 65536 := mtu.toNat_lt
  have hc := mode.code_lt
  apply UInt16.toNat_inj.mp
  simp only [mtuOfBytes, signallingValue_eq, and_mtuBytemask, UInt16.toNat_ofNat', UInt8.toNat_ofNat',
    Nat.shiftRight_eq_div_pow, Nat.shiftLeft_eq]
  omega

/-! ## Link ids -/

/-- A link id is taken from the low flag bits, the destination hash, the context and the two
public keys of an unpacked request, and from nothing behind them. -/
theorem linkIdPart_unpack {raw : Bytes} {p : Packet} (h : Packet.unpack raw = some p) :
    linkIdPart p = (p.flags &&& 0b00001111) ::
      (p.destinationHash.toList ++ p.context :: p.data.left ecpubsize) := by
  have hhash := Packet.getHashablePart_unpack h
  simp only [linkIdPart, hhash]
  have hdest : p.destinationHash.toList.length = 16 := p.destinationHash.toList_length
  split
  case isTrue hlong =>
    have hcut : ((p.flags &&& 0b00001111) ::
        (p.destinationHash.toList ++ p.context :: p.data)).length - (p.data.length - ecpubsize)
          = 18 + ecpubsize := by
      simp only [List.length_cons, List.length_append, hdest]; omega
    rw [hcut]
    have hlen : ((p.flags &&& 0b00001111) :: (p.destinationHash.toList ++ [p.context])).length
        = 18 := by
      simp only [List.length_cons, List.length_append, hdest, List.length_nil]
    have htake : (((p.flags &&& 0b00001111) :: (p.destinationHash.toList ++ [p.context]))
        ++ p.data).take (((p.flags &&& 0b00001111)
          :: (p.destinationHash.toList ++ [p.context])).length + ecpubsize)
        = _ := List.take_length_add_append ecpubsize
    rw [hlen] at htake
    simpa [Bytes.left] using htake
  case isFalse hshort =>
    rw [show p.data.left ecpubsize = p.data from List.take_of_length_le (by omega)]

end MicroReticulum.Link
