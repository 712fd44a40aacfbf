import Mathlib.Algebra.Order.Archimedean.Basic
import Mathlib.Tactic.Linarith

/-!
# A rate limiter that forgives

Arrivals closer than a target are violations. With more violations than the grace the source is blocked, for the
target and a penalty from the last arrival that passed; an arrival that keeps the distance takes a violation back.
While a source is blocked nothing is counted. The limits may differ from one arrival to the next.

A source that keeps the distance is never blocked (`hear_of_respectful`), and one that was blocked and keeps it from
some time on is not blocked for ever (`Arrivals.recovers`), however large the penalties are: the time a block ends is
fixed when it begins, and each arrival behind it takes a violation back.
-/

namespace MicroReticulum.Library

variable {α : Type} [Field α] [LinearOrder α]

/-- The limits for one arrival. -/
structure RateLimit (α : Type) where
  target : α
  grace : α
  penalty : α

structure Limiter (α : Type) where
  /-- the last arrival that passed -/
  last : α
  violations : α
  blockedUntil : α

namespace Limiter

/-- The violations after an arrival. -/
def counted (now : α) (limit : RateLimit α) (m : Limiter α) : α :=
  if now - m.last < limit.target then m.violations + 1 else max 0 (m.violations - 1)

/-- An arrival at a time, and whether it is blocked. -/
def hear (now : α) (limit : RateLimit α) (m : Limiter α) : Limiter α × Bool :=
  if m.blockedUntil < now then
    if limit.grace < m.counted now limit then
      ({ m with violations := m.counted now limit, blockedUntil := m.last + limit.target + limit.penalty }, true)
    else ({ m with violations := m.counted now limit, last := now }, false)
  else (m, true)

variable {now : α} {limit : RateLimit α} {m : Limiter α}

theorem counted_of_distant (h : limit.target ≤ now - m.last) : m.counted now limit = max 0 (m.violations - 1) :=
  if_neg (not_lt.mpr h)

theorem hear_of_blocked (h : now ≤ m.blockedUntil) : m.hear now limit = (m, true) := if_neg (not_lt.mpr h)

/-- Behind a block, an arrival is counted. -/
theorem hear_violations (h : m.blockedUntil < now) : (m.hear now limit).1.violations = m.counted now limit := by
  unfold hear
  rw [if_pos h]
  split <;> rfl

/-- Without violations it passes. -/
theorem hear_of_respectful (h : m.blockedUntil < now) (hdistance : limit.target ≤ now - m.last)
    (hviolations : max 0 (m.violations - 1) = 0) (hgrace : 0 ≤ limit.grace) :
    m.hear now limit = ({ m with violations := 0, last := now }, false) := by
  unfold hear
  rw [if_pos h, counted_of_distant hdistance, hviolations, if_neg (not_lt.mpr hgrace)]

theorem hear_last (now : α) (limit : RateLimit α) (m : Limiter α) :
    (m.hear now limit).1.last = m.last ∨ (m.hear now limit).1.last = now := by
  unfold hear
  split
  · split
    · exact .inl rfl
    · exact .inr rfl
  · exact .inl rfl

theorem hear_nonneg [IsStrictOrderedRing α] (h : 0 ≤ m.violations) : 0 ≤ (m.hear now limit).1.violations := by
  rcases le_or_gt now m.blockedUntil with hblocked | hover
  · rw [hear_of_blocked hblocked]
    exact h
  · rw [hear_violations hover]
    unfold counted
    split
    · linarith
    · exact le_max_left _ _

end Limiter

/-! ## Arrivals without end -/

/-- Arrivals that keep the distance, with their limits. -/
structure Arrivals (α : Type) [Field α] [LinearOrder α] where
  target : α
  time : ℕ → α
  limit : ℕ → RateLimit α
  positive : 0 < target
  targets : ∀ k, (limit k).target = target
  graces : ∀ k, 0 ≤ (limit k).grace
  distant : ∀ k, time k + target ≤ time (k + 1)

namespace Arrivals

variable (a : Arrivals α) (m : Limiter α)

/-- The limiter before an arrival. -/
def before : ℕ → Limiter α
  | 0 => m
  | k + 1 => ((before k).hear (a.time k) (a.limit k)).1

variable [IsStrictOrderedRing α]

theorem time_add (k n : ℕ) : a.time k + n * a.target ≤ a.time (k + n) := by
  induction n with
  | zero => simp
  | succ n ih =>
    have hnext := a.distant (k + n)
    have hsum : a.time k + (n + 1 : ℕ) * a.target = a.time k + n * a.target + a.target := by
      push_cast
      ring
    rw [hsum, ← Nat.add_assoc]
    linarith

theorem time_mono {j k : ℕ} (h : j ≤ k) : a.time j ≤ a.time k := by
  obtain ⟨n, rfl⟩ := Nat.exists_eq_add_of_le h
  have hlater := a.time_add j n
  have hpositive : 0 ≤ (n : α) * a.target := mul_nonneg (Nat.cast_nonneg n) a.positive.le
  linarith

/-- What passed last was not behind the arrivals so far, or was there before them. -/
theorem before_last (k : ℕ) : (a.before m (k + 1)).last ≤ max m.last (a.time k) := by
  induction k with
  | zero =>
    rcases Limiter.hear_last (a.time 0) (a.limit 0) m with hkept | hnow
    · exact hkept.le.trans (le_max_left _ _)
    · exact hnow.le.trans (le_max_right _ _)
  | succ k ih =>
    rcases Limiter.hear_last (a.time (k + 1)) (a.limit (k + 1)) (a.before m (k + 1)) with hkept | hnow
    · exact hkept.le.trans (ih.trans (max_le_max le_rfl (a.time_mono (Nat.le_succ k))))
    · exact hnow.le.trans (le_max_right _ _)

theorem before_violations (hm : 0 ≤ m.violations) (k : ℕ) : 0 ≤ (a.before m k).violations := by
  induction k with
  | zero => exact hm
  | succ k ih => exact Limiter.hear_nonneg ih

variable [Archimedean α]

/-- The arrivals leave every time behind. -/
theorem exists_time_gt (k : ℕ) (t : α) : ∃ n, t < a.time (k + n) := by
  obtain ⟨n, hn⟩ := exists_lt_nsmul a.positive (t - a.time k)
  rw [nsmul_eq_mul] at hn
  exact ⟨n, by linarith [a.time_add k n]⟩

/-- From some arrival on, each keeps the distance to what passed last. -/
theorem exists_distant : ∃ k₀, ∀ k, k₀ ≤ k → (a.limit (k + 1)).target ≤ a.time (k + 1) - (a.before m (k + 1)).last := by
  obtain ⟨k₀, hk₀⟩ := a.exists_time_gt 0 m.last
  rw [Nat.zero_add] at hk₀
  refine ⟨k₀, fun k hk => ?_⟩
  have hpassed := a.before_last m k
  rw [max_eq_right (hk₀.le.trans (a.time_mono hk))] at hpassed
  rw [a.targets]
  linarith [a.distant k]

/-- A block is over at some arrival. -/
theorem exists_passed (k : ℕ) :
    ∃ j, k ≤ j ∧ a.before m j = a.before m k ∧ (a.before m j).blockedUntil < a.time j := by
  obtain ⟨n, hn⟩ := a.exists_time_gt k (a.before m k).blockedUntil
  induction n generalizing k with
  | zero => exact ⟨k, le_rfl, rfl, hn⟩
  | succ n ih =>
    by_cases hnow : (a.before m k).blockedUntil < a.time k
    case pos => exact ⟨k, le_rfl, rfl, hnow⟩
    case neg =>
      have hsame : a.before m (k + 1) = a.before m k :=
        congrArg Prod.fst (Limiter.hear_of_blocked (not_lt.mp hnow))
      have hlater : (a.before m (k + 1)).blockedUntil < a.time (k + 1 + n) := by
        rw [hsame, Nat.add_right_comm, Nat.add_assoc]
        exact hn
      obtain ⟨j, hj, hunchanged, hover⟩ := ih (k + 1) hlater
      exact ⟨j, (Nat.le_succ k).trans hj, hunchanged.trans hsame, hover⟩

/-- At some arrival nothing is held against the source any more. -/
theorem exists_cleared (hm : 0 ≤ m.violations) :
    ∃ k, (∀ j, k ≤ j → (a.limit j).target ≤ a.time j - (a.before m j).last) ∧ (a.before m k).violations = 0
      ∧ (a.before m k).blockedUntil < a.time k := by
  obtain ⟨k₀, hdistant⟩ := a.exists_distant m
  have hfrom : ∀ j, k₀ + 1 ≤ j → (a.limit j).target ≤ a.time j - (a.before m j).last := by
    intro j hj
    obtain ⟨i, rfl⟩ := Nat.exists_eq_add_of_le hj
    have hi := hdistant (k₀ + i) (Nat.le_add_right _ _)
    rwa [Nat.add_right_comm] at hi
  -- by induction on how many violations there are at most
  have hcount : ∀ n : ℕ, ∀ k, k₀ + 1 ≤ k → (a.before m k).violations ≤ n → ∃ j, k₀ + 1 ≤ j
      ∧ (a.before m j).violations = 0 ∧ (a.before m j).blockedUntil < a.time j := by
    intro n
    induction n with
    | zero =>
      intro k hk hnone
      obtain ⟨j, hj, hsame, hover⟩ := a.exists_passed m k
      have hzero : (a.before m k).violations = 0 := by
        rw [Nat.cast_zero] at hnone
        exact le_antisymm hnone (a.before_violations m hm k)
      exact ⟨j, hk.trans hj, hsame ▸ hzero, hover⟩
    | succ n ih =>
      intro k hk hmany
      obtain ⟨j, hj, hsame, hover⟩ := a.exists_passed m k
      have hfewer : (a.before m (j + 1)).violations = max 0 ((a.before m j).violations - 1) :=
        (Limiter.hear_violations hover).trans (Limiter.counted_of_distant (hfrom j (hk.trans hj)))
      refine ih (j + 1) ((hk.trans hj).trans (Nat.le_succ j)) ?_
      rw [hfewer, hsame]
      push_cast at hmany
      exact max_le (Nat.cast_nonneg n) (by linarith)
  obtain ⟨n, hn⟩ := exists_nat_ge (a.before m (k₀ + 1)).violations
  obtain ⟨k, hk, hzero, hover⟩ := hcount n (k₀ + 1) le_rfl hn
  exact ⟨k, fun j hj => hfrom j (hk.trans hj), hzero, hover⟩

/-- From some arrival on, nothing is blocked. -/
theorem recovers (hm : 0 ≤ m.violations) :
    ∃ k, ∀ j, k ≤ j → ((a.before m j).hear (a.time j) (a.limit j)).2 = false := by
  obtain ⟨k, hdistant, hzero, hover⟩ := a.exists_cleared m hm
  have hclear : ∀ j, k ≤ j → (a.before m j).violations = 0 ∧ (a.before m j).blockedUntil < a.time j := by
    intro j hj
    induction j, hj using Nat.le_induction with
    | base => exact ⟨hzero, hover⟩
    | succ j hj ih =>
      obtain ⟨hnone, hbefore⟩ := ih
      have hpassed : a.before m (j + 1) = { a.before m j with violations := 0, last := a.time j } :=
        congrArg Prod.fst (Limiter.hear_of_respectful hbefore (hdistant j hj) (by rw [hnone]; simp) (a.graces j))
      rw [hpassed]
      exact ⟨rfl, hbefore.trans_le (a.time_mono (Nat.le_succ j))⟩
  refine ⟨k, fun j hj => ?_⟩
  obtain ⟨hnone, hbefore⟩ := hclear j hj
  rw [Limiter.hear_of_respectful hbefore (hdistant j hj) (by rw [hnone]; simp) (a.graces j)]

end Arrivals

end MicroReticulum.Library
