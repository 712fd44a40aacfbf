import MicroReticulum.Utilities.HeatshrinkEncoder

/-!
# The search for a match

`longest` tries every position within reach, the nearest first, and keeps the first of the longest matches. The plain
search does that and stops when no match can be longer. The indexed search visits only the positions that have the
first byte right; a position that has not agrees in no byte and is never kept. So both find the same
(`findLongestMatch_yields`).

That the longest match makes the shortest stream is not said, and is not so in general.
-/

namespace MicroReticulum.Heatshrink

open Library

namespace Encoder

variable {buf : Nat → UInt8} {pos «end» maxlen : Nat}

/-! ## How far two positions agree -/

/-- How many bytes agree, of at most `maxlen`. -/
def agreement (buf : Nat → UInt8) (pos «end» maxlen : Nat) : Nat := matchingLength buf pos «end» maxlen 0

/-- The loop that compares goes on from the length it has, for no more than what remains. -/
theorem matchingLength_bounds (remaining len : Nat) :
    len ≤ matchingLength buf pos «end» remaining len ∧ matchingLength buf pos «end» remaining len ≤ len + remaining := by
  induction remaining generalizing len with
  | zero => simp [matchingLength]
  | succ remaining ih =>
    rw [matchingLength]
    split
    · omega
    · have := ih (len + 1)
      omega

theorem matchingLength_agrees {remaining len k : Nat} (hk : len ≤ k) (h : k < matchingLength buf pos «end» remaining len) :
    buf (pos + k) = buf («end» + k) := by
  induction remaining generalizing len with
  | zero =>
    rw [matchingLength] at h
    omega
  | succ remaining ih =>
    rw [matchingLength] at h
    split at h
    · omega
    · rename_i hsame
      rcases Nat.eq_or_lt_of_le hk with rfl | hlt
      · exact not_not.mp hsame
      · exact ih hlt h

/-- It does not pass a byte that differs. -/
theorem matchingLength_le {remaining len k : Nat} (hk : len ≤ k)
    (h : buf (pos + k) ≠ buf («end» + k)) : matchingLength buf pos «end» remaining len ≤ k := by
  by_contra hgt
  exact h (matchingLength_agrees hk (Nat.not_le.mp hgt))

/-- Two positions agree for no more than the maximum. -/
theorem agreement_le (buf : Nat → UInt8) (pos «end» maxlen : Nat) : agreement buf pos «end» maxlen ≤ maxlen := by
  simpa [agreement] using (@matchingLength_bounds buf pos «end» maxlen 0).2

/-- Up to their agreement all bytes are equal. -/
theorem agreement_agrees {k : Nat} (h : k < agreement buf pos «end» maxlen) : buf (pos + k) = buf («end» + k) :=
  matchingLength_agrees (Nat.zero_le k) h

/-- The agreement ends before a byte that differs. -/
theorem agreement_le_of_ne {k : Nat} (h : buf (pos + k) ≠ buf («end» + k)) :
    agreement buf pos «end» maxlen ≤ k :=
  matchingLength_le (Nat.zero_le k) h

/-- The first byte need not be compared where it is known to agree. -/
theorem matchingLength_one (hmax : 0 < maxlen) (h : buf pos = buf «end») :
    matchingLength buf pos «end» (maxlen - 1) 1 = agreement buf pos «end» maxlen := by
  obtain ⟨n, rfl⟩ : ∃ n, maxlen = n + 1 := ⟨maxlen - 1, by omega⟩
  rw [agreement, matchingLength, if_neg (by simpa using h)]
  rfl

/-- The agreement depends on the bytes compared and not on where they stand. -/
theorem agreement_congr {buf' : Nat → UInt8} {shift : Nat}
    (h : ∀ i < maxlen, buf (pos + i) = buf' (shift + pos + i) ∧ buf («end» + i) = buf' (shift + «end» + i)) :
    agreement buf pos «end» maxlen = agreement buf' (shift + pos) (shift + «end») maxlen := by
  suffices hall : ∀ remaining len, len + remaining ≤ maxlen → matchingLength buf pos «end» remaining len
      = matchingLength buf' (shift + pos) (shift + «end») remaining len from hall maxlen 0 (by omega)
  intro remaining
  induction remaining with
  | zero => intro len _; rfl
  | succ remaining ih =>
    intro len hlen
    obtain ⟨hpos, hend⟩ := h len (by omega)
    rw [matchingLength, matchingLength, hpos, hend, ih (len + 1) (by omega)]

/-! ## The longest match -/

/-- The longest match among the `reach` positions before `end`, the nearest of several: its length and how far back it
is. -/
def longest (buf : Nat → UInt8) («end» maxlen : Nat) : Nat → Nat × Nat
  | 0 => (0, 0)
  | reach + 1 =>
    let best := longest buf «end» maxlen reach
    let len := agreement buf («end» - (reach + 1)) «end» maxlen
    if best.1 < len then (len, reach + 1) else best

variable {reach : Nat}

theorem longest_le (buf : Nat → UInt8) («end» maxlen reach : Nat) : (longest buf «end» maxlen reach).1 ≤ maxlen := by
  induction reach with
  | zero => exact Nat.zero_le _
  | succ reach ih =>
    rw [longest]
    split
    · exact agreement_le buf _ «end» maxlen
    · exact ih

/-- A match is found where it says. -/
theorem longest_found (h : 0 < (longest buf «end» maxlen reach).1) :
    1 ≤ (longest buf «end» maxlen reach).2 ∧ (longest buf «end» maxlen reach).2 ≤ reach
      ∧ agreement buf («end» - (longest buf «end» maxlen reach).2) «end» maxlen = (longest buf «end» maxlen reach).1 := by
  induction reach with
  | zero => exact absurd h (lt_irrefl 0)
  | succ reach ih =>
    rw [longest] at h ⊢
    by_cases hbetter : (longest buf «end» maxlen reach).1 < agreement buf («end» - (reach + 1)) «end» maxlen
    · simp only [if_pos hbetter]
      exact ⟨by omega, le_refl _, trivial⟩
    · simp only [if_neg hbetter] at h ⊢
      obtain ⟨hpos, hle, hfound⟩ := ih h
      exact ⟨hpos, by omega, hfound⟩

/-- No position within reach agrees further, and a nearer one not as far. -/
theorem longest_best {d : Nat} (hpos : 1 ≤ d) (hle : d ≤ reach) :
    agreement buf («end» - d) «end» maxlen ≤ (longest buf «end» maxlen reach).1
      ∧ (d < (longest buf «end» maxlen reach).2 →
          agreement buf («end» - d) «end» maxlen < (longest buf «end» maxlen reach).1) := by
  induction reach with
  | zero => omega
  | succ reach ih =>
    rw [longest]
    by_cases hbetter : (longest buf «end» maxlen reach).1 < agreement buf («end» - (reach + 1)) «end» maxlen
    · simp only [if_pos hbetter]
      rcases Nat.eq_or_lt_of_le hle with rfl | hlt
      · exact ⟨le_refl _, fun h => absurd h (lt_irrefl _)⟩
      · have := (ih (by omega)).1
        exact ⟨by omega, fun _ => by omega⟩
    · simp only [if_neg hbetter]
      rcases Nat.eq_or_lt_of_le hle with rfl | hlt
      · refine ⟨by omega, fun h => ?_⟩
        by_cases hzero : 0 < (longest buf «end» maxlen reach).1
        · have := (longest_found hzero).2.1
          omega
        · have hnone : ∀ n, ¬0 < (longest buf «end» maxlen n).1 → (longest buf «end» maxlen n).2 = 0 := by
            intro n
            induction n with
            | zero => exact fun _ => rfl
            | succ n ihn =>
              intro hn
              rw [longest] at hn ⊢
              split_ifs at hn ⊢ with hc
              · exact absurd (Nat.lt_of_le_of_lt (Nat.zero_le _) hc) hn
              · exact ihn hn
          have := hnone reach hzero
          omega
      · exact ih (by omega)

/-- Positions that do not agree in the first byte change nothing. -/
theorem longest_skip {far : Nat} (hfar : reach ≤ far) (hend : far ≤ «end»)
    (h : ∀ d, reach < d → d ≤ far → buf («end» - d) ≠ buf «end») :
    longest buf «end» maxlen far = longest buf «end» maxlen reach := by
  induction far, hfar using Nat.le_induction with
  | base => rfl
  | succ far hfar ih =>
    have hzero : agreement buf («end» - (far + 1)) «end» maxlen = 0 :=
      Nat.le_zero.mp (agreement_le_of_ne (h (far + 1) (by omega) (le_refl _)))
    rw [longest, hzero]
    simp only [Nat.not_lt_zero, if_false]
    exact ih (by omega) fun d hd hle => h d hd (by omega)

/-- Nothing is longer than the most there can be. -/
theorem longest_of_full {far : Nat} (hfar : reach ≤ far) (h : (longest buf «end» maxlen reach).1 = maxlen) :
    longest buf «end» maxlen far = longest buf «end» maxlen reach := by
  induction far, hfar using Nat.le_induction with
  | base => rfl
  | succ far hfar ih =>
    have hle := agreement_le buf («end» - (far + 1)) «end» maxlen
    rw [longest, ih]
    simp only [h]
    rw [if_neg (by omega)]

/-- The longest match depends on the bytes and not on where they stand. -/
theorem longest_congr {buf' : Nat → UInt8} {shift : Nat} (hreach : reach ≤ «end»)
    (h : ∀ i, i < «end» + maxlen → buf i = buf' (shift + i)) :
    longest buf «end» maxlen reach = longest buf' (shift + «end») maxlen reach := by
  induction reach with
  | zero => rfl
  | succ reach ih =>
    have hagree : agreement buf («end» - (reach + 1)) «end» maxlen
        = agreement buf' (shift + «end» - (reach + 1)) (shift + «end») maxlen := by
      rw [Nat.add_sub_assoc (by omega)]
      refine agreement_congr fun i hi => ⟨?_, ?_⟩
      · rw [h _ (by omega), Nat.add_assoc]
      · rw [h _ (by omega), Nat.add_assoc]
    rw [longest, longest, ih (by omega), hagree]

/-! ## Both searches -/

/-- What a search holds of the best match: its place for how far back it is. -/
def Holds (buf : Nat → UInt8) («end» maxlen reach : Nat) (best : Best) : Prop :=
  best.matchMaxlen = (longest buf «end» maxlen reach).1
    ∧ (0 < best.matchMaxlen → best.matchIndex = «end» - (longest buf «end» maxlen reach).2)

/-- Before the search nothing is found, and nothing is missed. -/
theorem holds_zero : Holds buf «end» maxlen 0 ⟨0, 0⟩ := ⟨rfl, fun h => absurd h (lt_irrefl 0)⟩

variable {best : Best}

/-- A best match goes on being the best while the longest stays the same. -/
theorem Holds.congr {far : Nat} (h : Holds buf «end» maxlen reach best)
    (hsame : longest buf «end» maxlen far = longest buf «end» maxlen reach) : Holds buf «end» maxlen far best := by
  rw [Holds, hsame]
  exact h

/-- A position that agrees in the first byte is tried. -/
theorem Holds.attempt (h : Holds buf «end» maxlen reach best) (hmax : 0 < maxlen)
    (hfirst : buf («end» - (reach + 1)) = buf «end») :
    Holds buf «end» maxlen (reach + 1) (best.attempt buf «end» maxlen («end» - (reach + 1))).1
      ∧ ((best.attempt buf «end» maxlen («end» - (reach + 1))).2 = true →
          (longest buf «end» maxlen (reach + 1)).1 = maxlen)
      ∧ ((best.attempt buf «end» maxlen («end» - (reach + 1))).2 = false → best.matchMaxlen < maxlen →
          (best.attempt buf «end» maxlen («end» - (reach + 1))).1.matchMaxlen < maxlen) := by
  have hlen := matchingLength_one hmax hfirst
  have hle := agreement_le buf («end» - (reach + 1)) «end» maxlen
  unfold Best.attempt Holds
  rw [longest, hlen, ← h.1]
  by_cases hbetter : best.matchMaxlen < agreement buf («end» - (reach + 1)) «end» maxlen
  · simp only [if_pos hbetter, decide_eq_true_eq, decide_eq_false_iff_not]
    exact ⟨⟨trivial, fun _ => trivial⟩, id, fun hne _ => by omega⟩
  · simp only [if_neg hbetter]
    exact ⟨⟨h.1, h.2⟩, fun hfalse => Bool.noConfusion hfalse, fun _ hlt => hlt⟩

/-- A position that does not agree up to where the best match goes is passed over. -/
theorem Holds.pass (h : Holds buf «end» maxlen reach best)
    (hdiffers : buf («end» - (reach + 1) + best.matchMaxlen) ≠ buf («end» + best.matchMaxlen)) :
    Holds buf «end» maxlen (reach + 1) best := by
  have hle : agreement buf («end» - (reach + 1)) «end» maxlen ≤ best.matchMaxlen := agreement_le_of_ne hdiffers
  refine h.congr ?_
  rw [longest, ← h.1, if_neg (by omega)]

/-- Where `b` was last before `n`, or that it was not. -/
def LastBefore (data : Nat → UInt8) (n : Nat) (b : UInt8) (v : ℤ) : Prop :=
  (v = -1 ∧ ∀ j < n, data j ≠ b) ∨ ∃ j < n, v = j ∧ data j = b ∧ ∀ k, j < k → k < n → data k ≠ b

/-- The index links every position to the last earlier one with the same byte. -/
theorem links_last (data : Nat → UInt8) (n : Nat) (index : Nat → ℤ) :
    (∀ i < n, LastBefore data i (data i) ((links data n index).1 i))
      ∧ ∀ b, LastBefore data n b ((links data n index).2 b) := by
  induction n with
  | zero => exact ⟨fun i hi => by omega, fun b => .inl ⟨rfl, fun j hj => by omega⟩⟩
  | succ n ih =>
    rw [links]
    refine ⟨fun i hi => ?_, fun b => ?_⟩
    · by_cases hin : i = n
      · subst hin
        simp only [Function.update_self]
        exact ih.2 (data i)
      · simp only [Function.update_of_ne hin]
        exact ih.1 i (by omega)
    · by_cases hb : b = data n
      · subst hb
        simp only [Function.update_self]
        exact .inr ⟨n, Nat.lt_succ_self n, rfl, rfl, fun k hk hlt => by omega⟩
      · simp only [Function.update_of_ne hb]
        rcases ih.2 b with ⟨hv, hnone⟩ | ⟨j, hj, hv, hdata, hnone⟩
        · refine .inl ⟨hv, fun j hj => ?_⟩
          rcases Nat.eq_or_lt_of_le (Nat.le_of_lt_succ hj) with rfl | hlt
          · exact fun h => hb h.symm
          · exact hnone j hlt
        · refine .inr ⟨j, by omega, hv, hdata, fun k hk hlt => ?_⟩
          rcases Nat.eq_or_lt_of_le (Nat.le_of_lt_succ hlt) with rfl | hlt
          · exact fun h => hb h.symm
          · exact hnone k hk hlt

/-- The links lead to where each byte was before. -/
def Indexed (buf : Nat → UInt8) (index : Nat → ℤ) (n : Nat) : Prop := ∀ i < n, LastBefore buf i (buf i) (index i)

variable {start : Nat} {index : Nat → ℤ}

/-- The plain search tries every position. -/
theorem plain_yields (hmax : 0 < maxlen) :
    ∃ best, Yields (fun fuel => loop (plainRound buf start «end» maxlen) fuel ((«end» : ℤ) - 1, ⟨0, 0⟩)) best
      ∧ Holds buf «end» maxlen («end» - start) best := by
  refine Yields.loop (g := fun _ => plainRound buf start «end» maxlen) (m := «end»)
    (I := fun m s => ∃ reach, m + reach = «end» ∧ s.1 = (m : ℤ) - 1 ∧ reach ≤ max («end» - start) 0
      ∧ Holds buf «end» maxlen reach s.2 ∧ s.2.matchMaxlen < maxlen) ?round
    ⟨0, rfl, rfl, by omega, holds_zero, hmax⟩
  case round =>
    rintro m ⟨pos, best⟩ ⟨reach, hm, rfl, hreach, hholds, hlt⟩
    simp only [plainRound]
    by_cases hin : (0 : ℤ) ≤ (m : ℤ) - 1 - start
    · have hpos : ((m : ℤ) - 1).toNat = «end» - (reach + 1) := by omega
      rw [if_pos hin, hpos]
      by_cases htry : buf («end» - (reach + 1) + best.matchMaxlen) = buf («end» + best.matchMaxlen)
          ∧ buf («end» - (reach + 1)) = buf «end»
      · obtain ⟨hnext, hfull, hless⟩ := hholds.attempt hmax htry.2
        rw [if_pos htry]
        cases hbeaten : (best.attempt buf «end» maxlen («end» - (reach + 1))).2 with
        | true =>
          refine ⟨.leave _, Yields.of_forall fun _ => if_pos rfl, ?_⟩
          exact hnext.congr (longest_of_full (by omega) (hfull hbeaten))
        | false =>
          refine ⟨.next _, Yields.of_forall fun _ => if_neg Bool.false_ne_true, m - 1, by omega,
            reach + 1, by omega, ?_, by omega, hnext, hless hbeaten hlt⟩
          show (m : ℤ) - 1 - 1 = ((m - 1 : Nat) : ℤ) - 1
          omega
      · rw [if_neg htry]
        refine ⟨.next _, Yields.of_forall fun _ => rfl, m - 1, by omega, reach + 1, by omega, ?_, by omega, ?_, hlt⟩
        · show (m : ℤ) - 1 - 1 = ((m - 1 : Nat) : ℤ) - 1
          omega
        by_cases hfirst : buf («end» - (reach + 1)) = buf «end»
        · exact hholds.pass fun h => htry ⟨h, hfirst⟩
        · refine hholds.congr (longest_skip (by omega) (by omega) fun d hd hle => ?_)
          obtain rfl : d = reach + 1 := by omega
          exact hfirst
    · rw [if_neg hin]
      refine ⟨_, Yields.of_forall fun _ => rfl, ?_⟩
      obtain rfl : reach = «end» - start := by omega
      exact hholds

/-- The indexed search goes from one position with the right first byte to the next. -/
theorem indexed_yields (hmax : 0 < maxlen) (hindex : Indexed buf index («end» + 1)) (hstart : start ≤ «end») :
    ∃ best, Yields (fun fuel => loop (indexedRound buf index start «end» maxlen) fuel (index «end», ⟨0, 0⟩)) best
      ∧ Holds buf «end» maxlen («end» - start) best := by
  refine Yields.loop (g := fun _ => indexedRound buf index start «end» maxlen) (m := «end»)
    (I := fun m s => ∃ reach, m + reach = «end» ∧ reach ≤ «end» - start ∧ LastBefore buf m (buf «end») s.1
      ∧ Holds buf «end» maxlen reach s.2 ∧ s.2.matchMaxlen < maxlen) ?round
    ⟨0, rfl, Nat.zero_le _, hindex «end» (Nat.lt_succ_self _), holds_zero, hmax⟩
  case round =>
    rintro m ⟨pos, best⟩ ⟨reach, hm, hreach, hlast, hholds, hlt⟩
    simp only [indexedRound]
    by_cases hin : (0 : ℤ) ≤ pos - start
    · obtain ⟨j, hj, rfl, hdata, hnone⟩ : ∃ j < m, pos = j ∧ buf j = buf «end» ∧ ∀ k, j < k → k < m → buf k ≠ buf «end» :=
        hlast.resolve_left fun h => by omega
      -- everything between the two positions is passed over
      have hskipped : Holds buf «end» maxlen («end» - (j + 1)) best := by
        refine hholds.congr (longest_skip (by omega) (by omega) fun d hd hle => ?_)
        exact hnone _ (by omega) (by omega)
      have hpos : «end» - («end» - (j + 1) + 1) = j := by omega
      have hnextLast : LastBefore buf j (buf «end») (index j) := by
        rw [← hdata]
        exact hindex j (by omega)
      rw [if_pos hin, Int.toNat_natCast]
      by_cases htry : buf (j + best.matchMaxlen) ≠ buf («end» + best.matchMaxlen)
      · rw [if_pos htry]
        refine ⟨_, Yields.of_forall fun _ => rfl, j, hj, «end» - (j + 1) + 1, by omega, by omega, hnextLast, ?_, hlt⟩
        exact hskipped.pass (by rw [hpos]; exact htry)
      · rw [if_neg htry]
        obtain ⟨hnext, hfull, hless⟩ := hskipped.attempt hmax (by rw [hpos]; exact hdata)
        rw [hpos] at hnext hfull hless
        cases hbeaten : (best.attempt buf «end» maxlen j).2 with
        | true =>
          refine ⟨.leave _, Yields.of_forall fun _ => if_pos rfl, ?_⟩
          exact hnext.congr (longest_of_full (by omega) (hfull hbeaten))
        | false =>
          exact ⟨.next _, Yields.of_forall fun _ => if_neg Bool.false_ne_true, j, hj,
            «end» - (j + 1) + 1, by omega, by omega, hnextLast, hnext, hless hbeaten hlt⟩
    · rw [if_neg hin]
      refine ⟨_, Yields.of_forall fun _ => rfl, ?_⟩
      refine hholds.congr (longest_skip hreach (Nat.sub_le _ _) fun d hd hle => ?_)
      rcases hlast with ⟨-, hnone⟩ | ⟨j, hj, rfl, -, hnone⟩
      · exact hnone _ (by omega)
      · exact hnone _ (by omega) (by omega)

/-- What is done with the best match. -/
def worthwhile (best : Nat × Nat) : Option (Nat × Nat) := if breakEven < best.1 then some (best.2, best.1) else none

/-- The search ends and holds the best match, with the index or without it. -/
theorem bestMatch_yields (useIndex : Bool) (hse : Encoder) (hmax : 0 < maxlen) (hstart : start ≤ «end»)
    (hindex : useIndex = true → Indexed hse.buffer hse.searchIndex («end» + 1)) :
    ∃ best, Yields (fun fuel => hse.bestMatch useIndex fuel start «end» maxlen) best
      ∧ Holds hse.buffer «end» maxlen («end» - start) best := by
  cases useIndex with
  | true => exact indexed_yields hmax (hindex rfl) hstart
  | false => exact plain_yields hmax

/-- Both searches find the longest match within reach, and of several the nearest. -/
theorem findLongestMatch_yields (useIndex : Bool) (hse : Encoder) (hmax : 0 < maxlen) (hstart : start ≤ «end»)
    (hindex : useIndex = true → Indexed hse.buffer hse.searchIndex («end» + 1)) :
    Yields (fun fuel => hse.findLongestMatch useIndex fuel start «end» maxlen)
      (worthwhile (longest hse.buffer «end» maxlen («end» - start))) := by
  obtain ⟨best, hyields, hlen, hplace⟩ := bestMatch_yields useIndex hse hmax hstart hindex
  refine hyields.bind (Yields.of_forall fun _ => ?_)
  simp only [worthwhile, ← hlen]
  by_cases hworth : breakEven < best.matchMaxlen
  · have hfound := @longest_found hse.buffer «end» maxlen («end» - start)
      (by omega)
    rw [if_pos hworth, if_pos hworth, hplace (by omega)]
    congr 3
    omega
  · rw [if_neg hworth, if_neg hworth]

/-- What a search must answer: the nearest of the longest matches, if any is longer than its reference. -/
def Finds (buf : Nat → UInt8) (start «end» maxlen : Nat) : Option (Nat × Nat) → Prop
  | none => ∀ pos, start ≤ pos → pos < «end» → agreement buf pos «end» maxlen ≤ breakEven
  | some (d, len) => breakEven < len ∧ 1 ≤ d ∧ d ≤ «end» - start ∧ agreement buf («end» - d) «end» maxlen = len
    ∧ ∀ pos, start ≤ pos → pos < «end» → agreement buf pos «end» maxlen ≤ len
      ∧ («end» - d < pos → agreement buf pos «end» maxlen < len)

/-- The search with the index of the buffer as it is and the search without one find the same: the nearest
of the longest matches. That the index saves time is not proved. -/
theorem search_finds_longest (hse : Encoder) (hmax : 0 < maxlen) (hstart : start ≤ «end»)
    (hend : «end» < inputBufferSize + hse.inputSize) :
    ∃ found, (∀ useIndex,
        Yields (fun fuel => (hse.doIndexing useIndex).findLongestMatch useIndex fuel start «end» maxlen) found)
      ∧ Finds hse.buffer start «end» maxlen found := by
  refine ⟨worthwhile (longest hse.buffer «end» maxlen («end» - start)), fun useIndex => ?_, ?_⟩
  · have hbuffer : (hse.doIndexing useIndex).buffer = hse.buffer := by
      unfold doIndexing
      split <;> rfl
    have hindex : useIndex = true →
        Indexed (hse.doIndexing useIndex).buffer (hse.doIndexing useIndex).searchIndex («end» + 1) := by
      rintro rfl i hi
      exact (links_last hse.buffer (inputBufferSize + hse.inputSize) hse.searchIndex).1 i (by omega)
    exact hbuffer ▸ findLongestMatch_yields useIndex _ hmax hstart hindex
  have hbest : ∀ pos, start ≤ pos → pos < «end» →
      agreement hse.buffer pos «end» maxlen ≤ (longest hse.buffer «end» maxlen («end» - start)).1
        ∧ («end» - (longest hse.buffer «end» maxlen («end» - start)).2 < pos →
          agreement hse.buffer pos «end» maxlen < (longest hse.buffer «end» maxlen («end» - start)).1) := by
    intro pos hpos hlt
    obtain ⟨hle, hnearer⟩ := @longest_best hse.buffer «end» maxlen («end» - start) («end» - pos) (by omega) (by omega)
    have hback : «end» - («end» - pos) = pos := by omega
    rw [hback] at hle hnearer
    exact ⟨hle, fun h => hnearer (by omega)⟩
  rw [worthwhile]
  split_ifs with hworth
  · obtain ⟨hd, hreach, hfound⟩ := @longest_found hse.buffer «end» maxlen («end» - start) (by omega)
    exact ⟨hworth, hd, hreach, hfound, hbest⟩
  · exact fun pos hpos hlt => (hbest pos hpos hlt).1.trans (Nat.not_lt.mp hworth)

/-- An encoder that has taken four zeros. -/
def zeros : Encoder where
  inputSize := 4
  matchScanIndex := 0
  matchLength := 0
  matchPos := 0
  outgoingBits := 0
  outgoingBitsCount := 0
  isFinishing := false
  state := .search
  currentByte := 0
  bitIndex := 0x80
  searchIndex := fun _ => 0
  buffer := fun _ => 0

theorem search_finds_longest_zeros :
    ∃ found, (∀ useIndex,
        Yields (fun fuel => (zeros.doIndexing useIndex).findLongestMatch useIndex fuel 0 512 4) found)
      ∧ Finds zeros.buffer 0 512 4 found :=
  search_finds_longest zeros (by decide) (by decide) (by decide)

end Encoder

end MicroReticulum.Heatshrink
