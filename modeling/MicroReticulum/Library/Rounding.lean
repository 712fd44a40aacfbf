import Mathlib.Algebra.Order.Field.Power
import Mathlib.Algebra.Order.Floor.Ring
import Mathlib.Data.Int.Log
import Mathlib.Data.Rat.Floor
import Mathlib.Tactic.FieldSimp
import Mathlib.Tactic.Linarith
import Mathlib.Tactic.Positivity

/-!
# Rounding to a binary float

The result of an operation on floats is the exact result, rounded to the nearest number with `p` significant bits, or
with fewer below the exponent `emin`; of two that are equally near, to the one with an even last place. Numbers are
rationals here. Signed zeros, infinities and what is no number are left out, and so is overflow: a result beyond the
largest float is rounded as if the exponents went on.

`roundFloat_le_int` says that rounding does not go up past a whole number of at most `p` bits, and `roundFloat_le` bounds
the error.
-/

namespace MicroReticulum.Library

/-! ## To the nearest whole number -/

/-- The nearest whole number, the even one of two. -/
def roundEven (x : ℚ) : ℤ :=
  if x - ⌊x⌋ < 1 / 2 then ⌊x⌋
  else if 1 / 2 < x - ⌊x⌋ then ⌊x⌋ + 1
  else if Even ⌊x⌋ then ⌊x⌋
  else ⌊x⌋ + 1

/-- Rounding moves a number by half at most. -/
theorem roundEven_near (x : ℚ) : (roundEven x : ℚ) ≤ x + 1 / 2 ∧ x - 1 / 2 ≤ roundEven x := by
  have hfloor := Int.floor_le x
  have hceil := Int.lt_floor_add_one x
  unfold roundEven
  split
  case isTrue hbelow => constructor <;> linarith
  case isFalse hbelow =>
    split
    case isTrue habove =>
      push_cast
      constructor <;> linarith
    case isFalse habove =>
      split
      · constructor <;> linarith
      · push_cast
        constructor <;> linarith

theorem roundEven_le_int {x : ℚ} {n : ℤ} (h : x ≤ n) : roundEven x ≤ n := by
  have hnear : (roundEven x : ℚ) < (n + 1 : ℤ) := by
    push_cast
    linarith [(roundEven_near x).1]
  exact Int.lt_add_one_iff.mp (Int.cast_lt.mp hnear)

theorem int_le_roundEven {x : ℚ} {n : ℤ} (h : n ≤ x) : n ≤ roundEven x := by
  have hnear : ((n - 1 : ℤ) : ℚ) < roundEven x := by
    push_cast
    linarith [(roundEven_near x).2]
  exact Int.sub_one_lt_iff.mp (Int.cast_lt.mp hnear)

/-! ## To the nearest float -/

variable {p : ℕ} {emin : ℤ} {q : ℚ}

/-- The unit in the last place of the floats around a number. -/
def ulp (p : ℕ) (emin : ℤ) (q : ℚ) : ℚ := 2 ^ (max (Int.log 2 q) emin + 1 - p)

/-- The nearest float. -/
def roundFloat (p : ℕ) (emin : ℤ) (q : ℚ) : ℚ := roundEven (q / ulp p emin q) * ulp p emin q

theorem ulp_pos (p : ℕ) (emin : ℤ) (q : ℚ) : 0 < ulp p emin q := by
  unfold ulp
  positivity

/-- A whole number with no more than `p` bits, and above the subnormal ones, is a multiple of the unit of what is below
it. -/
theorem int_eq_mul_ulp (hemin : emin < p) (hq : 0 < q) {n : ℤ} (hn : q < 2 ^ p) :
    ∃ k : ℤ, (n : ℚ) = k * ulp p emin q := by
  have hlog : Int.log 2 q < p := (Int.lt_zpow_iff_log_lt (b := 2) (by decide) hq).mp (by exact_mod_cast hn)
  obtain ⟨j, hj⟩ := Int.eq_ofNat_of_zero_le (a := p - (max (Int.log 2 q) emin + 1)) (by omega)
  refine ⟨n * 2 ^ j, ?_⟩
  have hone : (2 : ℚ) ^ j * ulp p emin q = 1 := by
    unfold ulp
    rw [← zpow_natCast, ← zpow_add₀ (by decide), ← hj]
    have hzero : (p : ℤ) - (max (Int.log 2 q) emin + 1) + (max (Int.log 2 q) emin + 1 - p) = 0 := by omega
    rw [hzero, zpow_zero]
  push_cast
  rw [mul_assoc, hone, mul_one]

/-- Rounding does not go up past a whole number. -/
theorem roundFloat_le_int (hemin : emin < p) (hq : 0 < q) {n : ℤ} (hn : q < 2 ^ p) (h : q ≤ n) :
    roundFloat p emin q ≤ n := by
  have hulp := ulp_pos p emin q
  obtain ⟨k, hk⟩ := int_eq_mul_ulp hemin hq (n := n) hn
  have hquotient : q / ulp p emin q ≤ k := (div_le_iff₀ hulp).mpr (hk ▸ h)
  have hrounded : (roundEven (q / ulp p emin q) : ℚ) ≤ k := Int.cast_le.mpr (roundEven_le_int hquotient)
  unfold roundFloat
  rw [hk]
  exact mul_le_mul_of_nonneg_right hrounded hulp.le

/-- The unit is a small part of the number, or of the smallest normal one. -/
theorem ulp_le (hq : 0 < q) : ulp p emin q ≤ max q (2 ^ emin) * 2 ^ (1 - p : ℤ) := by
  have hsplit : ulp p emin q = 2 ^ max (Int.log 2 q) emin * 2 ^ (1 - p : ℤ) := by
    unfold ulp
    rw [← zpow_add₀ (by decide)]
    congr 1
    omega
  rw [hsplit]
  apply mul_le_mul_of_nonneg_right _ (by positivity)
  rcases le_total (Int.log 2 q) emin with h | h
  · rw [max_eq_right h]
    exact le_max_right _ _
  · rw [max_eq_left h]
    exact le_max_of_le_left (by exact_mod_cast Int.zpow_log_le_self (b := 2) (by decide) hq)

/-- Rounding up adds half a unit at most. -/
theorem roundFloat_le (hq : 0 < q) : roundFloat p emin q ≤ q + max q (2 ^ emin) * 2 ^ (-p : ℤ) := by
  have hulp := ulp_pos p emin q
  have hnear := (roundEven_near (q / ulp p emin q)).1
  have hmoved : roundFloat p emin q ≤ q + ulp p emin q / 2 := by
    unfold roundFloat
    calc (roundEven (q / ulp p emin q) : ℚ) * ulp p emin q
        ≤ (q / ulp p emin q + 1 / 2) * ulp p emin q := mul_le_mul_of_nonneg_right hnear hulp.le
      _ = q + ulp p emin q / 2 := by field_simp
  have hhalf : (2 : ℚ) ^ (1 - p : ℤ) = 2 ^ (-p : ℤ) * 2 := by
    rw [← zpow_add_one₀ (by decide)]
    congr 1
    omega
  have hbound := @ulp_le p emin q hq
  rw [hhalf] at hbound
  linarith

/-- The nearest binary32 float. -/
def roundBinary32 (q : ℚ) : ℚ := roundFloat 24 (-126) q

example : roundBinary32 (1 / 10) = 13421773 / 134217728 := by decide +kernel

end MicroReticulum.Library
