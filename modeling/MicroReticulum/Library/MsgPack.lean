import MicroReticulum.Library.Objects
import Mathlib.Algebra.Field.Rat
import Mathlib.Data.List.GetD
import Mathlib.Tactic.Linarith

/-!
# The widths of a value

A `MsgPack` writer has a choice: the header of an array has three forms, a binary value has three and a
number with a fraction two. A form holds counts below its bound, and a reader takes every form. Each value
is here together with the form it was written in, so that its bytes are determined and it is known to fit.

`shortest` is the form a writer should choose. `ArrayHeader.shorten_length` and `Binary.shorten_length` say
what a value has lost that was written anew: nothing exactly if it was in the shortest form before.

`unpack` reads the values of this module, one after the other.
-/

namespace MicroReticulum.Library.MsgPack

/-! ## Counts -/

/-- The lowest `width` bytes of a number, the highest of them first. -/
def bigEndian : Nat → Nat → List UInt8
  | 0, _ => []
  | width + 1, n => UInt8.ofNat (n / 256 ^ width) :: bigEndian width n

@[simp] theorem bigEndian_length (width n : Nat) : (bigEndian width n).length = width := by
  induction width with
  | zero => rfl
  | succ width ih => simp [bigEndian, ih]

/-- The number in the first `width` bytes, behind what was read of it before. -/
def readNat : Nat → Nat → List UInt8 → Option (Nat × List UInt8)
  | 0, n, bs => some (n, bs)
  | _ + 1, _, [] => none
  | width + 1, n, b :: bs => readNat width (n * 256 + b.toNat) bs

/-- A number written big-endian in a width is read back as far as it fits the width. -/
theorem readNat_bigEndian (width n k : Nat) (rest : List UInt8) :
    readNat width k (bigEndian width n ++ rest) = some (k * 256 ^ width + n % 256 ^ width, rest) := by
  induction width generalizing k with
  | zero => simp [bigEndian, readNat, Nat.mod_one]
  | succ width ih =>
    have hsplit : n % 256 ^ (width + 1) = n / 256 ^ width % 256 * 256 ^ width + n % 256 ^ width := by
      rw [Nat.pow_succ, Nat.mod_mul, Nat.mul_comm (256 ^ width), Nat.add_comm]
    have hbyte : (UInt8.ofNat (n / 256 ^ width)).toNat = n / 256 ^ width % 256 := UInt8.toNat_ofNat'
    simp only [bigEndian, List.cons_append, readNat, ih, hbyte]
    rw [hsplit, Nat.pow_succ, Nat.add_mul, Nat.mul_assoc, Nat.mul_comm 256, Nat.add_assoc]

/-- A number is read back from the bytes it fits. -/
theorem readNat_of_lt {width n : Nat} (h : n < 256 ^ width) (rest : List UInt8) :
    readNat width 0 (bigEndian width n ++ rest) = some (n, rest) := by
  rw [readNat_bigEndian, Nat.mod_eq_of_lt h, Nat.zero_mul, Nat.zero_add]

/-! ## Array headers -/

inductive ArrayForm where
  | fixarray | array16 | array32
  deriving DecidableEq, Repr

namespace ArrayForm

/-- The counts a form has room for are those below. -/
def bound : ArrayForm → Nat
  | fixarray => 16
  | array16 => 2 ^ 16
  | array32 => 2 ^ 32

def shortest (count : Nat) : ArrayForm :=
  if count < 16 then fixarray else if count < 2 ^ 16 then array16 else array32

end ArrayForm

/-- The header of an array, as it was written. -/
structure ArrayHeader where
  form : ArrayForm
  count : Nat
  fits : count < form.bound

namespace ArrayHeader

def bytes (h : ArrayHeader) : List UInt8 :=
  match h.form with
  | .fixarray => [UInt8.ofNat (0x90 + h.count)]
  | .array16 => 0xDC :: bigEndian 2 h.count
  | .array32 => 0xDD :: bigEndian 4 h.count

/-- Was it written in the shortest form? -/
def Shortest (h : ArrayHeader) : Prop := h.form = .shortest h.count

/-- An array header counts fewer than `2 ^ 32` items. -/
theorem count_lt (h : ArrayHeader) : h.count < 2 ^ 32 := by
  have hfits := h.fits
  cases hform : h.form <;> rw [hform] at hfits <;> simp only [ArrayForm.bound] at hfits <;> omega

/-- The header in its shortest form. -/
def shorten (h : ArrayHeader) : ArrayHeader where
  form := .shortest h.count
  count := h.count
  fits := by
    have hlt := h.count_lt
    unfold ArrayForm.shortest
    split
    · assumption
    · split <;> assumption

theorem shorten_shortest (h : ArrayHeader) : h.shorten.Shortest := rfl

theorem Shortest.shorten {h : ArrayHeader} (hshort : h.Shortest) : h.shorten = h := by
  obtain ⟨form, count, hfits⟩ := h
  have hform : form = .shortest count := hshort
  subst hform
  rfl

theorem bytes_ne_nil (h : ArrayHeader) : h.bytes ≠ [] := by
  unfold bytes
  cases h.form <;> simp

/-- No form is shorter, and no other one is as short. -/
theorem shorten_length (h : ArrayHeader) :
    h.shorten.bytes.length ≤ h.bytes.length ∧ (h.shorten.bytes.length = h.bytes.length ↔ h.Shortest) := by
  obtain ⟨form, count, hfits⟩ := h
  simp only [shorten, bytes, Shortest, ArrayForm.shortest]
  cases form <;> simp only [ArrayForm.bound] at hfits <;> split_ifs <;> simp

end ArrayHeader

/-! ## Binary values -/

inductive BinaryForm where
  | bin8 | bin16 | bin32
  deriving DecidableEq, Repr

namespace BinaryForm

/-- The number of bytes in which the length is written. -/
def width : BinaryForm → Nat
  | bin8 => 1
  | bin16 => 2
  | bin32 => 4

/-- The byte in front of the length. -/
def marker : BinaryForm → UInt8
  | bin8 => 0xC4
  | bin16 => 0xC5
  | bin32 => 0xC6

def shortest (length : Nat) : BinaryForm :=
  if length < 256 then bin8 else if length < 2 ^ 16 then bin16 else bin32

end BinaryForm

/-- A binary value, as it was written. -/
structure Binary where
  form : BinaryForm
  content : List UInt8
  fits : content.length < 256 ^ form.width

namespace Binary

def bytes (b : Binary) : List UInt8 :=
  b.form.marker :: bigEndian b.form.width b.content.length ++ b.content

/-- Was it written in the shortest form? -/
def Shortest (b : Binary) : Prop := b.form = .shortest b.content.length

@[simp] theorem bytes_length (b : Binary) : b.bytes.length = b.form.width + b.content.length + 1 := by
  simp [bytes]

/-- The value of a content that fits one of the forms. -/
def ofContent (content : List UInt8) (h : content.length < 2 ^ 32) : Binary where
  form := .shortest content.length
  content
  fits := by
    unfold BinaryForm.shortest
    split
    · assumption
    · split <;> assumption

/-- A byte string has fewer than `2 ^ 32` bytes. -/
theorem content_lt (b : Binary) : b.content.length < 2 ^ 32 := by
  have hfits := b.fits
  cases hform : b.form <;> rw [hform] at hfits <;> simp only [BinaryForm.width] at hfits <;> omega

/-- The value in its shortest form. -/
def shorten (b : Binary) : Binary := ofContent b.content b.content_lt

theorem shorten_shortest (b : Binary) : b.shorten.Shortest := rfl

theorem Shortest.shorten {b : Binary} (hshort : b.Shortest) : b.shorten = b := by
  obtain ⟨form, content, hfits⟩ := b
  have hform : form = .shortest content.length := hshort
  subst hform
  rfl

/-- No form is shorter, and no other one is as short. -/
theorem shorten_length (b : Binary) :
    b.shorten.bytes.length ≤ b.bytes.length ∧ (b.shorten.bytes.length = b.bytes.length ↔ b.Shortest) := by
  obtain ⟨form, content, hfits⟩ := b
  simp only [bytes_length, shorten, ofContent, Shortest, BinaryForm.shortest]
  cases form <;> simp only [BinaryForm.width] at hfits ⊢ <;> split_ifs <;> simp <;> omega

end Binary

/-! ## Numbers with a fraction -/

inductive FloatForm where
  | float32 | float64
  deriving DecidableEq, Repr

namespace FloatForm

def width : FloatForm → Nat
  | float32 => 4
  | float64 => 8

def marker : FloatForm → UInt8
  | float32 => 0xCA
  | float64 => 0xCB

def exponentBits : FloatForm → Nat
  | float32 => 8
  | float64 => 11

def fractionBits : FloatForm → Nat
  | float32 => 23
  | float64 => 52

/-- The number that the bits stand for: a sign, an exponent and a fraction. -/
def number (form : FloatForm) (bits : Nat) : Double :=
  let fraction := bits % 2 ^ form.fractionBits
  let exponent := bits / 2 ^ form.fractionBits % 2 ^ form.exponentBits
  let negative := 2 ^ (form.fractionBits + form.exponentBits) ≤ bits
  -- the place of the last bit of the fraction
  let unit (exponent : Nat) : ℚ :=
    2 ^ exponent / 2 ^ (2 ^ (form.exponentBits - 1) - 1 + form.fractionBits)
  if exponent = 2 ^ form.exponentBits - 1 then if fraction = 0 then .inf negative else .nan
  else
    let magnitude := if exponent = 0 then fraction * unit 1 else (2 ^ form.fractionBits + fraction) * unit exponent
    .fin (if negative then -magnitude else magnitude)

end FloatForm

/-- A number with a fraction, as it was written. -/
structure FloatValue where
  form : FloatForm
  bits : Nat
  fits : bits < 256 ^ form.width

namespace FloatValue

def bytes (f : FloatValue) : List UInt8 := f.form.marker :: bigEndian f.form.width f.bits

def number (f : FloatValue) : Double := f.form.number f.bits

@[simp] theorem bytes_length (f : FloatValue) : f.bytes.length = f.form.width + 1 := by simp [bytes]

/-- The lowest bits that stand for the number, of which there need not be any. -/
def ofNumber (form : FloatForm) (d : Double) : Option FloatValue :=
  if h : ∃ bits, bits < 256 ^ form.width ∧ form.number bits = d then
    some ⟨form, Nat.find h, (Nat.find_spec h).1⟩
  else none

/-- A number is written in the form that was asked for. -/
theorem form_of_ofNumber {form : FloatForm} {d : Double} {f : FloatValue} (h : ofNumber form d = some f) :
    f.form = form := by
  unfold ofNumber at h
  split at h
  · cases h
    rfl
  · cases h

/-- A number read from a float can be written in the same form and read again. -/
theorem ofNumber_number (f : FloatValue) : ∃ g : FloatValue, ofNumber f.form f.number = some g ∧ g.form = f.form
    ∧ g.number = f.number := by
  have h : ∃ bits, bits < 256 ^ f.form.width ∧ f.form.number bits = f.number := ⟨f.bits, f.fits, rfl⟩
  refine ⟨_, dif_pos h, rfl, ?_⟩
  exact (Nat.find_spec h).2

end FloatValue

/-! ## Streams -/

/-- A token in its shortest form; those without one of the forms above have none. -/
def packToken : Token → List UInt8
  | .nil => [0xC0]
  | .arr n => if h : n < 2 ^ 32 then (ArrayHeader.mk .array32 n h).shorten.bytes else []
  | .bin b => if h : b.length < 2 ^ 32 then (Binary.ofContent b h).bytes else []
  | .float d => (FloatValue.ofNumber .float64 d).elim [] FloatValue.bytes
  | _ => []

def pack (ts : List Token) : List UInt8 := ts.flatMap packToken

/-- Packing an array header writes its shortest form. -/
theorem packToken_array {h : ArrayHeader} (hshort : h.Shortest) : packToken (.arr h.count) = h.bytes := by
  calc packToken (.arr h.count)
      = (ArrayHeader.mk .array32 h.count h.count_lt).shorten.bytes := dif_pos h.count_lt
    _ = h.shorten.bytes := rfl
    _ = h.bytes := by rw [hshort.shorten]

/-- Packing a byte string writes its shortest form. -/
theorem packToken_binary {b : Binary} (hshort : b.Shortest) : packToken (.bin b.content) = b.bytes := by
  calc packToken (.bin b.content)
      = b.shorten.bytes := dif_pos b.content_lt
    _ = b.bytes := by rw [hshort.shorten]

/-- The first token and what follows it. -/
def readToken : List UInt8 → Option (Token × List UInt8)
  | [] => none
  | b :: bs =>
    if b = 0xC0 then some (.nil, bs)
    else if 0x90 ≤ b.toNat ∧ b.toNat < 0xA0 then some (.arr (b.toNat - 0x90), bs)
    else if b = 0xDC then array 2 bs
    else if b = 0xDD then array 4 bs
    else if b = 0xC4 then binary 1 bs
    else if b = 0xC5 then binary 2 bs
    else if b = 0xC6 then binary 4 bs
    else if b = 0xCA then float .float32 bs
    else if b = 0xCB then float .float64 bs
    else none
where
  array (width : Nat) (bs : List UInt8) := (readNat width 0 bs).map fun (n, bs) => (Token.arr n, bs)
  binary (width : Nat) (bs : List UInt8) :=
    (readNat width 0 bs).bind fun (n, bs) =>
      if bs.length < n then none else some (Token.bin (bs.take n), bs.drop n)
  float (form : FloatForm) (bs : List UInt8) :=
    (readNat form.width 0 bs).map fun (bits, bs) => (Token.float (form.number bits), bs)

/-- A header is read back in whatever form it was written. -/
theorem readToken_array (h : ArrayHeader) (rest : List UInt8) :
    readToken (h.bytes ++ rest) = some (.arr h.count, rest) := by
  obtain ⟨form, count, hfits⟩ := h
  cases form with
  | fixarray =>
    have hbyte : (UInt8.ofNat (0x90 + count)).toNat = 0x90 + count := by
      simp only [ArrayForm.bound] at hfits
      rw [UInt8.toNat_ofNat', Nat.mod_eq_of_lt (by omega)]
    have hnil : UInt8.ofNat (0x90 + count) ≠ 0xC0 := by
      intro heq
      have htoNat : 0x90 + count = 0xC0 := hbyte ▸ congrArg UInt8.toNat heq
      simp only [ArrayForm.bound] at hfits
      omega
    simp only [ArrayForm.bound] at hfits
    simp only [ArrayHeader.bytes, List.cons_append, List.nil_append, readToken, if_neg hnil, hbyte]
    rw [if_pos (by omega), Nat.add_sub_cancel_left]
  | array16 =>
    have hread : readNat 2 0 (bigEndian 2 count ++ rest) = some (count, rest) := readNat_of_lt hfits rest
    simp [ArrayHeader.bytes, readToken, readToken.array, hread]
  | array32 =>
    have hread : readNat 4 0 (bigEndian 4 count ++ rest) = some (count, rest) := readNat_of_lt hfits rest
    simp [ArrayHeader.bytes, readToken, readToken.array, hread]

/-- A byte string is read back in whatever form it was written. -/
theorem readToken_binary (b : Binary) (rest : List UInt8) :
    readToken (b.bytes ++ rest) = some (.bin b.content, rest) := by
  obtain ⟨form, content, hfits⟩ := b
  have hread := readNat_of_lt hfits (content ++ rest)
  cases form <;>
    simp only [BinaryForm.width] at hread <;>
    simp [Binary.bytes, BinaryForm.marker, BinaryForm.width, readToken, readToken.binary, hread]

/-- A float is read back in whatever form it was written. -/
theorem readToken_float (f : FloatValue) (rest : List UInt8) :
    readToken (f.bytes ++ rest) = some (.float f.number, rest) := by
  obtain ⟨form, bits, hfits⟩ := f
  have hread := readNat_of_lt hfits rest
  cases form <;>
    simp only [FloatForm.width] at hread <;>
    simp [FloatValue.bytes, FloatForm.marker, FloatForm.width, readToken, readToken.float, hread, FloatValue.number]

/-- The tokens of a stream, up to the first that cannot be read. -/
def unpack (bs : List UInt8) : List Token :=
  match readToken bs with
  | none => []
  | some (t, rest) => if _h : rest.length < bs.length then t :: unpack rest else []
termination_by bs.length

/-- Unpacking takes the first token off and goes on with the rest. -/
theorem unpack_append {first rest : List UInt8} {t : Token} (h : readToken (first ++ rest) = some (t, rest))
    (hfirst : first ≠ []) : unpack (first ++ rest) = t :: unpack rest := by
  have hlen : rest.length < (first ++ rest).length := by
    rw [List.length_append]
    have := List.length_pos_of_ne_nil hfirst
    omega
  rw [unpack, h]
  exact dif_pos hlen

end MicroReticulum.Library.MsgPack
