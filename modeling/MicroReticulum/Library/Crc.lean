import Mathlib.Logic.Function.Iterate
import Mathlib.Data.List.Basic

/-!
# Cyclic redundancy checks

A reflected CRC of width `w`: a register takes the message byte by byte, and eight times shifts to the
right, adding the polynomial when a one falls out. What the checksum of the message does before and
after (its initial and its final complement) is up to the user.

With a polynomial whose top bit is set nothing is lost in a step: the top bit of the result tells which
bit fell out. So a message takes different registers to different registers.

The register is linear in the message and in what it starts from. So whether it tells two messages apart
is a question about their difference alone (`register_eq_iff`), which is how the errors a CRC overlooks
are described: the difference is a multiple of the polynomial. How likely that is, is not treated here.
-/

namespace MicroReticulum.Library.Crc

variable {w : Nat}

/-- One bit of the message. -/
def step (poly reg : BitVec w) : BitVec w :=
  if reg.getLsbD 0 then (reg >>> 1) ^^^ poly else reg >>> 1

/-- One byte of the message. -/
def byte (poly reg : BitVec w) (b : BitVec 8) : BitVec w :=
  (step poly)^[8] (reg ^^^ b.setWidth w)

/-- The register behind a message. -/
def register (poly reg : BitVec w) (message : List (BitVec 8)) : BitVec w :=
  message.foldl (byte poly) reg

@[simp] theorem register_append (poly reg : BitVec w) (m₁ m₂ : List (BitVec 8)) :
    register poly reg (m₁ ++ m₂) = register poly (register poly reg m₁) m₂ := List.foldl_append

variable {poly : BitVec w}

/-- The top bit of the result is the bit that fell out. -/
theorem msb_step (hpoly : poly.msb = true) (reg : BitVec w) :
    (step poly reg).msb = reg.getLsbD 0 := by
  unfold step
  split
  case isTrue h => simp [BitVec.msb_ushiftRight, hpoly, h]
  case isFalse h => simp [BitVec.msb_ushiftRight, h]

theorem step_injective (hpoly : poly.msb = true) : Function.Injective (step poly) := by
  intro x y h
  have hlow : x.getLsbD 0 = y.getLsbD 0 := by
    rw [← msb_step hpoly, ← msb_step hpoly, h]
  have hshift : x >>> 1 = y >>> 1 := by
    unfold step at h
    rw [hlow] at h
    split at h
    · exact (BitVec.xor_left_inj poly).mp h
    · exact h
  refine BitVec.eq_of_getLsbD_eq fun i hi => ?_
  cases i with
  | zero => exact hlow
  | succ i =>
    have hbit := congrArg (fun v => v.getLsbD i) hshift
    simpa [Nat.add_comm 1] using hbit

theorem byte_injective (hpoly : poly.msb = true) (b : BitVec 8) :
    Function.Injective fun reg => byte poly reg b := fun _ _ h =>
  (BitVec.xor_left_inj _).mp ((step_injective hpoly).iterate 8 h)

/-- A message takes different registers to different registers. -/
theorem register_injective (hpoly : poly.msb = true) (message : List (BitVec 8)) :
    Function.Injective fun reg => register poly reg message := by
  induction message with
  | nil => exact fun _ _ h => h
  | cons b message ih => exact fun x y h => byte_injective hpoly b (ih h)

/-! ## Differences -/

theorem step_xor (a b : BitVec w) : step poly (a ^^^ b) = step poly a ^^^ step poly b := by
  unfold step
  rw [BitVec.getLsbD_xor, BitVec.ushiftRight_xor_distrib]
  have hcancel : (a >>> 1 ^^^ poly) ^^^ (b >>> 1 ^^^ poly) = a >>> 1 ^^^ b >>> 1 := by
    rw [BitVec.xor_comm (b >>> 1), BitVec.xor_assoc, ← BitVec.xor_assoc poly, BitVec.xor_self,
      BitVec.zero_xor]
  cases a.getLsbD 0 <;> cases b.getLsbD 0
  · rfl
  · exact BitVec.xor_assoc ..
  · exact (BitVec.xor_assoc ..).trans ((congrArg _ (BitVec.xor_comm ..)).trans (BitVec.xor_assoc ..).symm)
  · exact hcancel.symm

theorem byte_xor (a b : BitVec w) (x y : BitVec 8) :
    byte poly (a ^^^ b) (x ^^^ y) = byte poly a x ^^^ byte poly b y := by
  have hsteps : ∀ (n : Nat) (a b : BitVec w),
      (step poly)^[n] (a ^^^ b) = (step poly)^[n] a ^^^ (step poly)^[n] b := by
    intro n
    induction n with
    | zero => exact fun _ _ => rfl
    | succ n ih =>
      intro a b
      rw [Function.iterate_succ_apply, step_xor, ih]
      rfl
  unfold byte
  rw [← hsteps, BitVec.setWidth_xor]
  congr 1
  ac_rfl

/-- The register behind the difference of two messages of one length is the difference of the registers
behind them. -/
theorem register_xor {m₁ m₂ : List (BitVec 8)} (h : m₁.length = m₂.length) (a b : BitVec w) :
    register poly (a ^^^ b) (List.zipWith (· ^^^ ·) m₁ m₂) = register poly a m₁ ^^^ register poly b m₂ := by
  induction m₁ generalizing m₂ a b with
  | nil =>
    obtain rfl := List.eq_nil_of_length_eq_zero h.symm
    rfl
  | cons x m₁ ih =>
    cases m₂ with
    | nil => cases h
    | cons y m₂ =>
      have hbyte := @byte_xor w poly a b x y
      calc register poly (a ^^^ b) (List.zipWith (· ^^^ ·) (x :: m₁) (y :: m₂))
          = register poly (byte poly (a ^^^ b) (x ^^^ y)) (List.zipWith (· ^^^ ·) m₁ m₂) := rfl
        _ = register poly (byte poly a x) m₁ ^^^ register poly (byte poly b y) m₂ := by
          rw [hbyte, ih (Nat.succ.inj h)]

/-- The difference of a message and a longer one that ends with it side by side: the surplus in front is
what the register has taken in before the two begin to run together. -/
def difference (poly reg : BitVec w) (short long : List (BitVec 8)) : BitVec w × List (BitVec 8) :=
  let surplus := long.length - short.length
  (reg ^^^ register poly reg (long.take surplus), List.zipWith (· ^^^ ·) short (long.drop surplus))

/-- A message and a longer one end in the same register exactly if their difference leaves nothing in
it. -/
theorem register_eq_iff (reg : BitVec w) {short long : List (BitVec 8)} (h : short.length ≤ long.length) :
    register poly reg short = register poly reg long
      ↔ register poly (difference poly reg short long).1 (difference poly reg short long).2 = 0 := by
  unfold difference
  dsimp only
  have hlength : short.length = (long.drop (long.length - short.length)).length := by
    rw [List.length_drop]
    omega
  rw [register_xor hlength, ← register_append, List.take_append_drop]
  exact BitVec.xor_eq_zero_iff.symm

end MicroReticulum.Library.Crc
