import MicroReticulum.Library.Crc
import MicroReticulum.Wire.Bytes

/-!
# The checksum

`Crc::crc32`, the reflected CRC with the polynomial `0xedb88320`. Two messages with the same ending have
the same checksum exactly if they have it without the ending (`crcRegister_append_inj`), and in general
exactly if the checksum overlooks their difference (`crcRegister_eq_iff`).
-/

namespace MicroReticulum.Utilities

open MicroReticulum Library

/-- The inner loop of `crc32`, one round. -/
def crcBit (crc : UInt32) : UInt32 :=
  if crc &&& 1 ≠ 0 then (crc >>> 1) ^^^ 0xedb88320 else crc >>> 1

/-- The outer loop of `crc32`, one byte. -/
def crcByte (crc : UInt32) (b : UInt8) : UInt32 := crcBit^[8] (crc ^^^ b.toUInt32)

/-- `Crc::crc32` -/
def crc32 (crc : UInt32) (data : Bytes) : UInt32 :=
  data.foldl crcByte (crc ^^^ 0xffffffff) ^^^ 0xffffffff

/-! ## The register -/

/-- The polynomial. -/
def crcPoly : BitVec 32 := 0xedb88320

theorem and_one_ne_zero_iff (crc : UInt32) : crc &&& 1 ≠ 0 ↔ crc.toBitVec.getLsbD 0 = true := by
  have hand : (crc &&& 1).toBitVec
      = BitVec.setWidth 32 (BitVec.ofBool (crc.toBitVec.getLsbD 0)) := by
    rw [UInt32.toBitVec_and]
    exact BitVec.and_one_eq_setWidth_ofBool_getLsbD
  rw [Ne, ← UInt32.toBitVec_inj, hand]
  cases crc.toBitVec.getLsbD 0 <;> decide

theorem toBitVec_crcBit (crc : UInt32) : (crcBit crc).toBitVec = Crc.step crcPoly crc.toBitVec := by
  unfold crcBit Crc.step
  simp only [and_one_ne_zero_iff]
  split <;> simp [crcPoly]

theorem toBitVec_crcByte (crc : UInt32) (b : UInt8) :
    (crcByte crc b).toBitVec = Crc.byte crcPoly crc.toBitVec b.toBitVec := by
  have hbits : ∀ n (crc : UInt32),
      (crcBit^[n] crc).toBitVec = (Crc.step crcPoly)^[n] crc.toBitVec := by
    intro n
    induction n with
    | zero => exact fun _ => rfl
    | succ n ih => exact fun crc => (ih (crcBit crc)).trans (congrArg _ (toBitVec_crcBit crc))
  unfold crcByte Crc.byte
  rw [hbits]
  simp

/-- The register of `crc32` behind the data. -/
def crcRegister (data : Bytes) : BitVec 32 :=
  Crc.register crcPoly (0xffffffff : UInt32).toBitVec (data.map UInt8.toBitVec)

theorem crc32_eq (data : Bytes) :
    (crc32 0 data).toBitVec = crcRegister data ^^^ (0xffffffff : UInt32).toBitVec := by
  have hbytes : ∀ (data : Bytes) (crc : UInt32), (data.foldl crcByte crc).toBitVec
      = Crc.register crcPoly crc.toBitVec (data.map UInt8.toBitVec) := by
    intro data
    induction data with
    | nil => exact fun _ => rfl
    | cons b data ih =>
      intro crc
      exact (ih (crcByte crc b)).trans (congrArg (Crc.register crcPoly · _) (toBitVec_crcByte crc b))
  unfold crc32
  rw [UInt32.toBitVec_xor, hbytes]
  rfl

/-- Two checksums agree exactly if the registers do. -/
theorem crc32_eq_iff (m₁ m₂ : Bytes) : crc32 0 m₁ = crc32 0 m₂ ↔ crcRegister m₁ = crcRegister m₂ := by
  rw [← UInt32.toBitVec_inj, crc32_eq, crc32_eq, BitVec.xor_left_inj]

/-- What follows does not tell two registers apart, nor together. -/
theorem crcRegister_append_inj {m₁ m₂ : Bytes} (tail : Bytes) :
    crcRegister (m₁ ++ tail) = crcRegister (m₂ ++ tail) ↔ crcRegister m₁ = crcRegister m₂ := by
  unfold crcRegister
  rw [List.map_append, List.map_append, Crc.register_append, Crc.register_append]
  exact (Crc.register_injective (by decide) _).eq_iff

/-- The difference of the two, the shorter one beside the end of the longer, is a multiple of the
polynomial: it leaves nothing in the register. -/
def CrcOverlooks (m₁ m₂ : Bytes) : Prop :=
  let start := (0xffffffff : UInt32).toBitVec
  let short := if m₁.length ≤ m₂.length then m₁ else m₂
  let long := if m₁.length ≤ m₂.length then m₂ else m₁
  let apart := Crc.difference crcPoly start (short.map UInt8.toBitVec) (long.map UInt8.toBitVec)
  Crc.register crcPoly apart.1 apart.2 = 0

/-- Two registers agree exactly if the difference of the messages is overlooked. -/
theorem crcRegister_eq_iff (m₁ m₂ : Bytes) : crcRegister m₁ = crcRegister m₂ ↔ CrcOverlooks m₁ m₂ := by
  unfold CrcOverlooks crcRegister
  dsimp only
  rw [← Crc.register_eq_iff _ (by split <;> simp only [List.length_map] <;> omega)]
  split
  · exact Iff.rfl
  · exact eq_comm

instance (m₁ m₂ : Bytes) : Decidable (CrcOverlooks m₁ m₂) :=
  decidable_of_iff _ (crcRegister_eq_iff m₁ m₂)

end MicroReticulum.Utilities
