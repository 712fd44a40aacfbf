import Mathlib.Data.Vector.Basic
import Mathlib.Data.List.GetD

/-!
# Byte strings and the addresses cut from them

`Bytes` is the contents of the source's `Bytes` class; sharing and capacity are not modelled. The
slices `left`, `mid` and `midLen` clamp at the end of the string, as the source's do.

A hash has 32 bytes and an address (a truncated hash, a transport id, a link id) has 16. Both are
vectors, so every value carries its length and no later lemma has to assume it.
-/

namespace MicroReticulum

/-- The contents of a byte string. -/
abbrev Bytes : Type := List UInt8

instance : LawfulBEq Bytes := inferInstance

/-- `Type::Identity::TRUNCATED_HASHLENGTH / 8`, also `Type::Reticulum::DESTINATION_LENGTH`. -/
abbrev destinationLength : Nat := 16

/-- A full hash: `Type::Identity::HASHLENGTH / 8` bytes. -/
abbrev Hash : Type := List.Vector UInt8 32

instance : LawfulBEq Hash := instLawfulBEq

/-- A destination hash, a transport id or a link id. -/
abbrev Address : Type := List.Vector UInt8 destinationLength

instance : LawfulBEq Address := instLawfulBEq

namespace Bytes

/-- `Bytes::left(len)`: at most the first `len` bytes. -/
def left (b : Bytes) (len : Nat) : Bytes := b.take len

/-- `Bytes::mid(beginpos)`: everything from `beginpos` on. -/
def mid (b : Bytes) (beginpos : Nat) : Bytes := b.drop beginpos

/-- `Bytes::mid(beginpos, len)`: at most `len` bytes from `beginpos` on. -/
def midLen (b : Bytes) (beginpos len : Nat) : Bytes := (b.drop beginpos).take len

/-- The byte at `n`; the model reads bytes only where the length was checked. -/
def byte (b : Bytes) (n : Nat) : UInt8 := b.getD n 0

@[simp] theorem byte_cons_zero (x : UInt8) (b : Bytes) : Bytes.byte (x :: b) 0 = x := rfl
@[simp] theorem byte_cons_succ (x : UInt8) (b : Bytes) (n : Nat) :
    Bytes.byte (x :: b) (n + 1) = Bytes.byte b n := rfl

@[simp] theorem left_length (b : Bytes) (len : Nat) : (b.left len).length = min len b.length :=
  List.length_take

@[simp] theorem mid_length (b : Bytes) (beginpos : Nat) :
    (b.mid beginpos).length = b.length - beginpos := List.length_drop

/-- A byte string is its prefix followed by the rest. -/
theorem left_append_mid (b : Bytes) (n : Nat) : b.left n ++ b.mid n = b :=
  List.take_append_drop n b

/-- Cutting twice is cutting once at the sum. -/
@[simp] theorem mid_mid (b : Bytes) (m n : Nat) : (b.mid m).mid n = b.mid (m + n) := by
  simp [mid, List.drop_drop]

/-- Cutting at the end of the first part leaves the second. -/
theorem mid_append {a b : Bytes} {n : Nat} (h : a.length = n) : (a ++ b).mid n = b := by
  subst h
  exact List.drop_left

@[simp] theorem mid_cons_succ (x : UInt8) (b : Bytes) (n : Nat) :
    Bytes.mid (x :: b) (n + 1) = b.mid n := rfl

@[simp] theorem mid_zero (b : Bytes) : b.mid 0 = b := rfl

/-- A string with a byte `n` splits there. -/
theorem mid_eq_byte_cons {b : Bytes} {n : Nat} (h : n < b.length) :
    b.mid n = b.byte n :: b.mid (n + 1) := by
  unfold mid byte
  rw [List.drop_eq_getElem_cons h, List.getD_eq_getElem?_getD, List.getElem?_eq_getElem h,
    Option.getD_some]

/-- The bytes behind a first part of known length are those of the second part. -/
theorem byte_append {a b : Bytes} {n : Nat} (h : a.length = n) (i : Nat) :
    Bytes.byte (a ++ b) (n + i) = b.byte i := by
  subst h
  unfold byte
  rw [List.getD_append_right _ _ _ _ (Nat.le_add_right _ _), Nat.add_sub_cancel_left]

/-- Keep all but the last `n` bytes of a string with a suffix of length `n`. -/
theorem left_append {a b : Bytes} {n : Nat} (h : n = a.length) : (a ++ b).left n = a := by
  subst h
  exact List.take_left

/-- The first sixteen bytes of a long enough string, as an address. -/
def toAddress (b : Bytes) (h : destinationLength ≤ b.length) : Address :=
  ⟨b.left destinationLength, by simpa using h⟩

@[simp] theorem toAddress_toList (b : Bytes) (h : destinationLength ≤ b.length) :
    (b.toAddress h).toList = b.left destinationLength := rfl

/-- An address cut from a long enough string, and what follows it. -/
theorem mid_eq_address_append {b : Bytes} {n : Nat}
    (h : destinationLength ≤ (b.mid n).length) :
    b.mid n = ((b.mid n).toAddress h).toList ++ b.mid (n + destinationLength) := by
  rw [toAddress_toList, ← mid_mid, left_append_mid]

/-- An address in front of a string is the one cut from it. -/
theorem toAddress_append {a : Address} {b : Bytes}
    (h : destinationLength ≤ (a.toList ++ b).length) : Bytes.toAddress (a.toList ++ b) h = a := by
  apply List.Vector.eq
  exact left_append a.toList_length.symm

end Bytes

/-- `Identity::truncated_hash`: the first bytes of the full hash. -/
def truncatedHash (fullHash : Bytes → Hash) (b : Bytes) : Address :=
  Bytes.toAddress (fullHash b).toList (by rw [List.Vector.toList_length]; decide)

/-- A stand-in for the hash function on concrete inputs: the last 32 bytes, padded. -/
def tailHash (b : Bytes) : Hash := ⟨(b.reverse ++ List.replicate 32 0).take 32, by simp⟩

/-- An address of sixteen equal bytes, for concrete inputs. -/
def Address.fill (x : UInt8) : Address := ⟨List.replicate destinationLength x, by simp⟩

end MicroReticulum
