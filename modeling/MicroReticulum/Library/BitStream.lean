import Mathlib.Data.Nat.Bitwise
import Mathlib.Data.List.Induction

/-!
# Numbers as bits

The bits of a number with a fixed width, the highest first, and the number that bits stand for. A byte string is the
stream of the bits of its bytes.
-/

namespace MicroReticulum.Library.BitStream

/-- The low `n` bits of a number. -/
def ofNat : Nat → Nat → List Bool
  | 0, _ => []
  | n + 1, v => v.testBit n :: ofNat n v

/-- The number bits stand for, behind a number that was read before. -/
def valueFrom (acc : Nat) (bits : List Bool) : Nat := bits.foldl (fun acc bit => 2 * acc + bit.toNat) acc

def value (bits : List Bool) : Nat := valueFrom 0 bits

@[simp] theorem ofNat_zero (v : Nat) : ofNat 0 v = [] := rfl

/-- The first of `n + 1` bits is bit `n`. -/
theorem ofNat_succ (n v : Nat) : ofNat (n + 1) v = v.testBit n :: ofNat n v := rfl

@[simp] theorem ofNat_length (n v : Nat) : (ofNat n v).length = n := by
  induction n with
  | zero => rfl
  | succ n ih => simp [ofNat_succ, ih]

/-- Only the low bits count. -/
theorem ofNat_congr {n v w : Nat} (h : ∀ i < n, v.testBit i = w.testBit i) : ofNat n v = ofNat n w := by
  induction n with
  | zero => rfl
  | succ n ih => rw [ofNat_succ, ofNat_succ, h n (Nat.lt_succ_self n), ih fun i hi => h i (Nat.lt_succ_of_lt hi)]

theorem ofNat_mod (n v : Nat) : ofNat n (v % 2 ^ n) = ofNat n v :=
  ofNat_congr fun i hi => by simp [Nat.testBit_mod_two_pow, hi]

/-- The bits of a wide number are those of its upper part, then those of its lower part. -/
theorem ofNat_add (m n v : Nat) : ofNat (m + n) v = ofNat m (v / 2 ^ n) ++ ofNat n v := by
  induction m with
  | zero => simp
  | succ m ih =>
    rw [Nat.add_right_comm, ofNat_succ, ih, ofNat_succ, List.cons_append, Nat.testBit_div_two_pow]

/-- Bits shifted up leave zeros behind. -/
theorem ofNat_mul_pow (m n v : Nat) : ofNat (m + n) (v * 2 ^ n) = ofNat m v ++ List.replicate n false := by
  rw [ofNat_add, Nat.mul_div_cancel _ (Nat.pow_pos (by decide))]
  congr 1
  induction n generalizing v with
  | zero => rfl
  | succ n ih =>
    have hlow : (v * 2 ^ (n + 1)).testBit n = false := by
      rw [Nat.testBit_mul_two_pow]
      simp
    rw [ofNat_succ, hlow, List.replicate_succ, Nat.pow_succ, Nat.mul_comm (2 ^ n), ← Nat.mul_assoc, ih]

/-- The lowest bit is the last. -/
theorem ofNat_snoc (n v : Nat) : ofNat (n + 1) v = ofNat n (v / 2) ++ [v.testBit 0] := by
  rw [ofNat_add n 1, Nat.pow_one]
  rfl

@[simp] theorem valueFrom_nil (acc : Nat) : valueFrom acc [] = acc := rfl

/-- Reading a bit doubles what was read and adds it. -/
theorem valueFrom_cons (acc : Nat) (bit : Bool) (bits : List Bool) :
    valueFrom acc (bit :: bits) = valueFrom (2 * acc + bit.toNat) bits := rfl

theorem valueFrom_append (acc : Nat) (a b : List Bool) : valueFrom acc (a ++ b) = valueFrom (valueFrom acc a) b :=
  List.foldl_append

/-- The last bit read is the lowest one. -/
theorem value_snoc (bits : List Bool) (bit : Bool) : value (bits ++ [bit]) = 2 * value bits + bit.toNat := by
  rw [value, valueFrom_append]
  rfl

/-- A number of `n` bits is below `2 ^ n`. -/
theorem value_lt (bits : List Bool) : value bits < 2 ^ bits.length := by
  induction bits using List.reverseRecOn with
  | nil => simp [value]
  | append_singleton bits bit ih =>
    rw [value_snoc, List.length_append, List.length_singleton, Nat.pow_succ]
    have := Bool.toNat_le bit
    omega

/-- The lowest bit of a number is its remainder by two. -/
theorem testBit_zero_toNat (v : Nat) : (v.testBit 0).toNat = v % 2 := by
  rw [Nat.testBit_zero]
  rcases Nat.mod_two_eq_zero_or_one v with h | h <;> simp [h]

/-- A number that fits its width is read back from its bits. -/
theorem value_ofNat {n v : Nat} (h : v < 2 ^ n) : value (ofNat n v) = v := by
  induction n generalizing v with
  | zero =>
    simp only [Nat.pow_zero, Nat.lt_one_iff] at h
    subst h
    rfl
  | succ n ih =>
    rw [ofNat_snoc, value_snoc, ih (by rw [Nat.pow_succ] at h; omega), testBit_zero_toNat]
    omega

/-- Bits are written back from the number they are read as. -/
theorem ofNat_value (bits : List Bool) : ofNat bits.length (value bits) = bits := by
  induction bits using List.reverseRecOn with
  | nil => rfl
  | append_singleton bits bit ih =>
    have hhalf : value (bits ++ [bit]) / 2 = value bits := by
      rw [value_snoc]
      have := Bool.toNat_le bit
      omega
    have hlow : (value (bits ++ [bit])).testBit 0 = bit := by
      rw [value_snoc, Nat.testBit_zero]
      cases bit <;> simp
    rw [List.length_append, List.length_singleton, ofNat_snoc, hhalf, hlow, ih]

/-- The same of the first bits of a longer stream. -/
theorem ofNat_value_take {n : Nat} {bits : List Bool} (h : n ≤ bits.length) :
    ofNat n (value (bits.take n)) = bits.take n := by
  have hlen : (bits.take n).length = n := by rw [List.length_take]; omega
  have hvalue := ofNat_value (bits.take n)
  rwa [hlen] at hvalue

/-- The first `n` bits of a stream make a number below `2 ^ n`. -/
theorem value_take_lt (n : Nat) (bits : List Bool) : value (bits.take n) < 2 ^ n :=
  Nat.lt_of_lt_of_le (value_lt _) (Nat.pow_le_pow_right (by decide) (List.length_take_le n bits))

/-! ## Bytes -/

/-- The bits of a byte string. -/
def ofBytes (bytes : List UInt8) : List Bool := bytes.flatMap fun b => ofNat 8 b.toNat

@[simp] theorem ofBytes_nil : ofBytes [] = [] := rfl

/-- The bits of a byte come before those of the bytes after it. -/
theorem ofBytes_cons (b : UInt8) (bytes : List UInt8) : ofBytes (b :: bytes) = ofNat 8 b.toNat ++ ofBytes bytes := rfl

@[simp] theorem ofBytes_append (a b : List UInt8) : ofBytes (a ++ b) = ofBytes a ++ ofBytes b :=
  List.flatMap_append

@[simp] theorem ofBytes_length (bytes : List UInt8) : (ofBytes bytes).length = 8 * bytes.length := by
  induction bytes with
  | nil => rfl
  | cons b bytes ih => rw [ofBytes_cons, List.length_append, ih, ofNat_length, List.length_cons]; omega

theorem ofBytes_inj {a b : List UInt8} (h : ofBytes a = ofBytes b) : a = b := by
  induction a generalizing b with
  | nil =>
    cases b with
    | nil => rfl
    | cons y b => simp [ofBytes_cons, ofNat_succ] at h
  | cons x a ih =>
    cases b with
    | nil => simp [ofBytes_cons, ofNat_succ] at h
    | cons y b =>
      rw [ofBytes_cons, ofBytes_cons] at h
      obtain ⟨hbyte, hrest⟩ := List.append_inj h (by rw [ofNat_length, ofNat_length])
      have hvalue := congrArg value hbyte
      rw [value_ofNat x.toNat_lt, value_ofNat y.toNat_lt] at hvalue
      rw [UInt8.toNat_inj.mp hvalue, ih hrest]

/-- The bytes are the bits, and zeros up to the end of the last byte. -/
def Packs (bytes : List UInt8) (bits : List Bool) : Prop := ∃ n < 8, ofBytes bytes = bits ++ List.replicate n false

/-- The bits in bytes. -/
def pack (bits : List Bool) : List UInt8 :=
  if bits.length = 0 then []
  else UInt8.ofNat (value ((bits ++ List.replicate 7 false).take 8)) :: pack (bits.drop 8)
  termination_by bits.length
  decreasing_by rw [List.length_drop]; omega

theorem packs_pack (bits : List Bool) : Packs (pack bits) bits := by
  induction bits using pack.induct with
  | case1 bits hnil =>
    rw [pack, if_pos hnil, List.length_eq_zero_iff.mp hnil]
    exact ⟨0, by decide, rfl⟩
  | case2 bits hne ih =>
    obtain ⟨n, hn, hrest⟩ := ih
    have hvalue := value_take_lt 8 (bits ++ List.replicate 7 false)
    rw [pack, if_neg hne]
    rw [Packs, ofBytes_cons, UInt8.toNat_ofNat', Nat.mod_eq_of_lt hvalue,
      ofNat_value_take (by rw [List.length_append, List.length_replicate]; omega), hrest]
    by_cases hlong : 8 ≤ bits.length
    · exact ⟨n, hn, by rw [List.take_append_of_le_length hlong, ← List.append_assoc, List.take_append_drop]⟩
    · refine ⟨8 - bits.length, by omega, ?_⟩
      have hnone : bits.drop 8 = [] := List.drop_eq_nil_of_le (by omega)
      have hlen := congrArg List.length hrest
      rw [hnone, pack, if_pos List.length_nil] at hlen
      simp only [ofBytes_nil, List.length_nil, List.nil_append, List.length_replicate] at hlen
      rw [hnone, ← hlen, List.take_append, List.take_of_length_le (by omega), List.take_replicate]
      simp
      omega

/-- Bytes that hold bits have room for all of them. -/
theorem Packs.length_le {bytes : List UInt8} {bits : List Bool} (h : Packs bytes bits) :
    bits.length ≤ 8 * bytes.length := by
  obtain ⟨n, -, h⟩ := h
  have hlen := congrArg List.length h
  rw [ofBytes_length, List.length_append] at hlen
  omega

/-- There is one way to fill up the last byte. -/
theorem Packs.unique {a b : List UInt8} {bits : List Bool} (ha : Packs a bits) (hb : Packs b bits) : a = b := by
  obtain ⟨m, hm, ha⟩ := ha
  obtain ⟨n, hn, hb⟩ := hb
  have hlena := congrArg List.length ha
  have hlenb := congrArg List.length hb
  rw [ofBytes_length, List.length_append, List.length_replicate] at hlena hlenb
  obtain rfl : m = n := by omega
  exact ofBytes_inj (ha.trans hb.symm)

end MicroReticulum.Library.BitStream
