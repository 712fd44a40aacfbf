import MicroReticulum.Utilities.HeatshrinkSearch
import Mathlib.Tactic.Ring

/-!
# What the compressor writes

The encoder takes from each position the longest match among the 512 bytes before it, or a literal where no match is
worth it: the phrases of `greedy`, whatever pieces the input came in. `codeStream` is their bits, and what a decoder
makes of them is the text (`codeStream_tells`).

`Encodes` is what the encoder keeps: the bits written and the bits owed are those of the phrases up to the position it
has reached. Its buffer shows a part of the text, with zeros before the beginning, as the window of the decoder has.
-/

namespace MicroReticulum.Heatshrink

open Library Library.BitStream Library.Lzss

namespace Encoder

/-! ## The phrases of a text -/

/-- The text behind a buffer of zeros. -/
def padded (text : Bytes) (i : Nat) : UInt8 := if i < inputBufferSize then 0 else text.byte (i - inputBufferSize)

/-- How many bytes a phrase stands for. -/
def width : Phrase → Nat
  | .literal _ => 1
  | .backref _ length => length

/-- The phrase at a position. -/
def greedyPhrase (text : Bytes) (p : Nat) : Phrase :=
  match worthwhile (longest (padded text) (inputBufferSize + p) (min lookaheadSize (text.length - p)) inputBufferSize) with
  | some (distance, length) => .backref distance length
  | none => .literal (text.byte p)

variable {text : Bytes} {p : Nat}

/-- A match that is worthwhile is the best one there is, and of two bytes at least. -/
theorem worthwhile_eq_some {best : Nat × Nat} {d len : Nat} (h : worthwhile best = some (d, len)) :
    best = (len, d) ∧ 2 ≤ len := by
  unfold worthwhile at h
  split_ifs at h with hworth
  cases h
  exact ⟨rfl, hworth⟩

/-- The phrase at a position is the byte there, or a reference to a place within the window with the same bytes, no
longer than the lookahead and the rest of the text. -/
theorem greedyPhrase_cases (text : Bytes) (p : Nat) :
    greedyPhrase text p = .literal (text.byte p)
      ∨ ∃ d len, greedyPhrase text p = .backref d len ∧ 2 ≤ len ∧ len ≤ lookaheadSize ∧ len ≤ text.length - p
        ∧ 1 ≤ d ∧ d ≤ inputBufferSize
        ∧ ∀ k < len, padded text (inputBufferSize + p - d + k) = padded text (inputBufferSize + p + k) := by
  unfold greedyPhrase
  split
  · rename_i d len hsome
    obtain ⟨hbest, hlen⟩ := worthwhile_eq_some hsome
    have hle := longest_le (padded text) (inputBufferSize + p) (min lookaheadSize (text.length - p)) inputBufferSize
    have hfound := @longest_found (padded text) (inputBufferSize + p)
      (min lookaheadSize (text.length - p)) inputBufferSize (by rw [hbest]; omega)
    rw [hbest] at hle hfound
    have hagree : ∀ k < len, k < agreement (padded text) (inputBufferSize + p - d) (inputBufferSize + p)
        (min lookaheadSize (text.length - p)) := fun k hk => hfound.2.2.symm ▸ hk
    refine .inr ⟨d, len, rfl, hlen, ?_, ?_, hfound.1, hfound.2.1, fun k hk => agreement_agrees (hagree k hk)⟩
    · exact le_trans hle (min_le_left _ _)
    · exact le_trans hle (min_le_right _ _)
  · exact .inl rfl

/-- Every phrase stands for a byte at least, so the encoder gets on. -/
theorem width_pos (text : Bytes) (p : Nat) : 0 < width (greedyPhrase text p) := by
  rcases greedyPhrase_cases text p with h | ⟨d, len, h, hlen, -⟩
  · rw [h]
    exact Nat.one_pos
  · rw [h]
    exact Nat.lt_of_lt_of_le (by decide) hlen

/-- The phrases from a position on. -/
def greedy (text : Bytes) (p : Nat) : List Phrase :=
  if _h : p < text.length then
    have := width_pos text p
    greedyPhrase text p :: greedy text (p + width (greedyPhrase text p))
  else []
  termination_by text.length - p

/-- The phrases of a text from a position on are the phrase there and those behind it. -/
theorem greedy_cons (h : p < text.length) :
    greedy text p = greedyPhrase text p :: greedy text (p + width (greedyPhrase text p)) := by
  rw [greedy, dif_pos h]

/-- At the end of the text there are no more phrases. -/
theorem greedy_nil (h : text.length ≤ p) : greedy text p = [] := by
  rw [greedy, dif_neg (Nat.not_lt.mpr h)]

/-- The bits of phrases. -/
def codes (phrases : List Phrase) : List Bool := phrases.flatMap (Phrase.code windowBits lookaheadBits)

@[simp] theorem codes_nil : codes [] = [] := rfl

theorem codes_cons (t : Phrase) (phrases : List Phrase) :
    codes (t :: phrases) = t.code windowBits lookaheadBits ++ codes phrases :=
  rfl

/-- The code of one more phrase is written behind the others. -/
theorem codes_snoc (t : Phrase) (phrases : List Phrase) :
    codes (phrases ++ [t]) = codes phrases ++ t.code windowBits lookaheadBits := by
  simp [codes]

/-- The bits of a text. -/
def codeStream (text : Bytes) : List Bool := codes (greedy text 0)

/-- What a phrase refers to fits the widths of its two numbers. -/
theorem greedyPhrase_fits (text : Bytes) (p : Nat) : (greedyPhrase text p).Fits windowBits lookaheadBits := by
  rcases greedyPhrase_cases text p with h | ⟨d, len, h, hlen, hmax, -, hd, hreach, -⟩
  · rw [h]
    trivial
  · rw [h]
    exact ⟨hd, hreach, by omega, hmax⟩

/-- Before the beginning there are zeros, for the encoder and for the decoder. -/
theorem back_reverse_take (text : Bytes) (hp : p ≤ text.length) {d : Nat} (hd : 1 ≤ d) (hreach : d ≤ inputBufferSize) :
    back (text.take p).reverse d = padded text (inputBufferSize + p - d) := by
  have hlen : (text.take p).reverse.length = p := by rw [List.length_reverse, List.length_take]; omega
  unfold back padded
  by_cases hin : d ≤ p
  · rw [if_neg (by omega), List.getD_eq_getElem _ _ (by omega), List.getElem_reverse, List.getElem_take, Bytes.byte,
      List.getD_eq_getElem _ _ (by omega)]
    have hidx : (text.take p).length - 1 - (d - 1) = inputBufferSize + p - d - inputBufferSize := by
      rw [List.length_take]
      omega
    simp only [hidx]
  · rw [if_pos (by omega), List.getD_eq_default _ _ (by omega)]

/-- A phrase stands for the bytes of the text at its position. -/
theorem greedyPhrase_text (h : p < text.length) :
    (greedyPhrase text p).text (text.take p).reverse = (text.drop p).take (width (greedyPhrase text p)) := by
  have hbyte : ∀ k, padded text (inputBufferSize + p + k) = text.byte (p + k) := fun k => by
    rw [padded, if_neg (by omega), Nat.add_assoc, Nat.add_sub_cancel_left]
  rcases greedyPhrase_cases text p with ht | ⟨d, len, ht, -, -, hlen, hd, hreach, hsame⟩
  · rw [ht, Phrase.text, width, List.drop_eq_getElem_cons h, List.take_succ_cons, List.take_zero, Bytes.byte,
      List.getD_eq_getElem _ _ h]
  · rw [ht, Phrase.text, width, copy_eq (f := padded text) (p := inputBufferSize + p) hd (by omega)
      (fun e he hle => back_reverse_take text (by omega) he (by omega)) hsame]
    refine List.ext_getElem (by simp; omega) fun k hk _ => ?_
    rw [List.length_map, List.length_range] at hk
    rw [List.getElem_map, List.getElem_range, hbyte, List.getElem_take, List.getElem_drop, Bytes.byte,
      List.getD_eq_getElem _ _ (by omega)]

/-- The codes of the phrases tell the rest of the text to whoever knows the part before. This is the round trip of the
format, without the machines. -/
theorem greedy_tells (text : Bytes) (p : Nat) :
    Tells windowBits lookaheadBits (text.take p).reverse (codes (greedy text p)) (text.drop p) := by
  induction p using greedy.induct text with
  | case1 p h _ ih =>
    have hrest : (text.drop p).take (width (greedyPhrase text p)) ++ text.drop (p + width (greedyPhrase text p))
        = text.drop p := by
      rw [← List.drop_drop, List.take_append_drop]
    have hhistory : ((text.drop p).take (width (greedyPhrase text p))).reverse ++ (text.take p).reverse
        = (text.take (p + width (greedyPhrase text p))).reverse := by
      rw [← List.reverse_append, ← List.take_add]
    rw [greedy_cons h, codes_cons, ← hrest]
    have htoken := @Tells.phrase windowBits lookaheadBits (text.take p).reverse _ (greedyPhrase_fits text p)
    rw [greedyPhrase_text h] at htoken
    exact htoken.append (hhistory ▸ ih)
  | case2 p h =>
    rw [greedy_nil (Nat.not_lt.mp h), List.drop_eq_nil_of_le (Nat.not_lt.mp h)]
    exact Tells.nil _

/-- What a decoder makes of the bits of a text is the text. -/
theorem codeStream_tells (text : Bytes) : Tells windowBits lookaheadBits [] (codeStream text) text :=
  greedy_tells text 0

/-! ## Writing bits -/

/-- The bits that are written: those of the bytes that are out and those in the current byte. -/
def Written (hse : Encoder) (out : Bytes) (stream : List Bool) : Prop :=
  ∃ q : List Bool, q.length < 8 ∧ hse.bitIndex = 2 ^ (7 - q.length) ∧ hse.currentByte = value q * 2 ^ (8 - q.length)
    ∧ stream = ofBytes out ++ q

variable {hse : Encoder} {oi : OutputInfo} {out before : Bytes} {stream : List Bool}

/-- The fields that pushing bits changes. -/
def withBits (hse : Encoder) (currentByte bitIndex : Nat) : Encoder := { hse with currentByte, bitIndex }

/-- A bit that is pushed goes to the end of what was written; when the byte is full it goes to the output. -/
theorem pushBit_run (h : Written hse out stream) (bit : Bool) (oi : OutputInfo) :
    ∃ c b e, pushBit bit hse oi = (withBits hse c b, { oi with buf := oi.buf ++ e })
      ∧ Written (withBits hse c b) (out ++ e) (stream ++ [bit]) := by
  obtain ⟨q, hq, hindex, hcurrent, rfl⟩ := h
  have hset : (if bit then hse.currentByte ||| hse.bitIndex else hse.currentByte)
      = value (q ++ [bit]) * 2 ^ (7 - q.length) := by
    have hpow : 2 ^ (8 - q.length) = 2 * 2 ^ (7 - q.length) := by
      rw [show 8 - q.length = (7 - q.length) + 1 by omega, Nat.pow_succ, Nat.mul_comm]
    rw [value_snoc, hcurrent, hindex]
    cases bit with
    | true =>
      rw [if_pos rfl, Nat.mul_comm (value q), ← Nat.two_pow_add_eq_or_of_lt (Nat.pow_lt_pow_right (by decide) (by omega)),
        hpow, Bool.toNat_true, Nat.add_mul, Nat.one_mul]
      ring
    | false =>
      rw [if_neg Bool.false_ne_true, hpow, Bool.toNat_false]
      ring
  unfold pushBit
  rw [hset, hindex]
  by_cases hlast : q.length = 7
  · have hbyte : value (q ++ [bit]) < 2 ^ 8 := by
      have := value_lt (q ++ [bit])
      rwa [List.length_append, hlast] at this
    rw [hlast, if_pos (by decide), Nat.sub_self, Nat.pow_zero, Nat.mul_one]
    refine ⟨0, 0x80, [UInt8.ofNat (value (q ++ [bit]))], rfl, [], by decide, rfl, rfl, ?_⟩
    have hlen : (q ++ [bit]).length = 8 := by rw [List.length_append, hlast]; rfl
    have hbits := ofNat_value (q ++ [bit])
    rw [hlen] at hbits
    rw [ofBytes_append, ofBytes_cons, UInt8.toNat_ofNat', Nat.mod_eq_of_lt hbyte, hbits]
    simp
  · obtain ⟨k, hk⟩ : ∃ k, 7 - q.length = k + 1 := ⟨6 - q.length, by omega⟩
    have hmask : 2 ^ (7 - q.length) / 2 = 2 ^ (7 - (q ++ [bit]).length) := by
      rw [hk, Nat.pow_succ, Nat.mul_div_cancel _ (by decide), List.length_append, List.length_singleton]
      congr 1
      omega
    have hpos : 2 ^ (7 - q.length) / 2 ≠ 0 := by
      rw [hmask]
      exact Nat.pos_iff_ne_zero.mp (Nat.pow_pos (by decide))
    rw [if_neg hpos]
    refine ⟨_, _, [], by rw [List.append_nil]; rfl, q ++ [bit], ?_, hmask, ?_, by simp⟩
    · rw [List.length_append, List.length_singleton]
      omega
    · show value (q ++ [bit]) * 2 ^ (7 - q.length) = _
      rw [List.length_append, List.length_singleton]
      congr 2
      omega

/-- Bits that are pushed one by one go to the end of what was written, the highest first. -/
theorem pushBitsFrom_run (bits : Nat) (h : Written hse out stream) (count : Nat) (oi : OutputInfo) :
    ∃ c b e, pushBitsFrom bits count hse oi = (withBits hse c b, { oi with buf := oi.buf ++ e })
      ∧ Written (withBits hse c b) (out ++ e) (stream ++ ofNat count bits) := by
  induction count generalizing hse out stream oi with
  | zero => exact ⟨hse.currentByte, hse.bitIndex, [], by simp [pushBitsFrom, withBits], by simpa [withBits] using h⟩
  | succ count ih =>
    obtain ⟨c, b, e, hrun, hbit⟩ := pushBit_run h (bits.testBit count) oi
    obtain ⟨c', b', e', hrest, hbits⟩ := ih hbit { oi with buf := oi.buf ++ e }
    refine ⟨c', b', e ++ e', ?_, ?_⟩
    · rw [pushBitsFrom, hrun]
      simp only [hrest, List.append_assoc]
      rfl
    · rw [ofNat_succ, ← List.append_assoc, List.append_cons]
      exact hbits

/-- Up to eight bits make at most one byte. -/
theorem pushBits_run (h : Written hse out stream) (count bits : Nat) (hcount : count ≤ 8) (hbits : bits < 2 ^ 8)
    (oi : OutputInfo) :
    ∃ c b e, pushBits count bits hse oi = (withBits hse c b, { oi with buf := oi.buf ++ e }) ∧ e.length ≤ 1
      ∧ Written (withBits hse c b) (out ++ e) (stream ++ ofNat count bits) := by
  unfold pushBits
  by_cases hwhole : count = 8 ∧ hse.bitIndex = 0x80
  · obtain ⟨rfl, hmask⟩ := hwhole
    obtain ⟨q, hq, hindex, hcurrent, rfl⟩ := h
    have hempty : q = [] := by
      rw [hmask] at hindex
      have : 7 - q.length = 7 := Nat.pow_right_injective (le_refl 2) (hindex.symm.trans (by decide))
      exact List.length_eq_zero_iff.mp (by omega)
    subst hempty
    rw [if_pos ⟨rfl, hmask⟩]
    refine ⟨hse.currentByte, hse.bitIndex, [UInt8.ofNat bits], rfl, Nat.le_refl 1, [], by decide, hmask, hcurrent, ?_⟩
    rw [ofBytes_append, ofBytes_cons, UInt8.toNat_ofNat', Nat.mod_eq_of_lt hbits]
    simp
  · rw [if_neg hwhole]
    obtain ⟨c, b, e, hrun, hwritten⟩ := pushBitsFrom_run bits h count oi
    refine ⟨c, b, e, hrun, ?_, hwritten⟩
    obtain ⟨q, hq, -, -, rfl⟩ := h
    obtain ⟨q', hq', -, -, hlen⟩ := hwritten
    have hlen := congrArg List.length hlen
    simp only [List.length_append, ofBytes_length, ofNat_length] at hlen
    omega

/-- The next of the outgoing bits; none are left when nothing is pushed. -/
theorem pushOutgoingBits_run (h : Written hse out stream) (oi : OutputInfo) :
    ∃ c b e pushed, pushOutgoingBits hse oi
      = (pushed, { withBits hse c b with outgoingBitsCount := hse.outgoingBitsCount - pushed },
        { oi with buf := oi.buf ++ e })
      ∧ e.length ≤ 1 ∧ pushed ≤ hse.outgoingBitsCount ∧ (pushed = 0 → hse.outgoingBitsCount = 0)
      ∧ ∃ first, ofNat hse.outgoingBitsCount hse.outgoingBits
          = first ++ ofNat (hse.outgoingBitsCount - pushed) hse.outgoingBits
        ∧ Written (withBits hse c b) (out ++ e) (stream ++ first) := by
  unfold pushOutgoingBits
  by_cases hlong : 8 < hse.outgoingBitsCount
  · obtain ⟨c, b, e, hrun, he, hwritten⟩ := pushBits_run h 8
      ((hse.outgoingBits >>> (hse.outgoingBitsCount - 8)) % 2 ^ 8) (Nat.le_refl 8) (Nat.mod_lt _ (by decide)) oi
    simp only [if_pos hlong, hrun]
    refine ⟨c, b, e, 8, rfl, he, by omega, by omega, _, ?_, hwritten⟩
    rw [ofNat_mod, Nat.shiftRight_eq_div_pow, ← ofNat_add]
    congr 1
    omega
  · simp only [if_neg hlong]
    by_cases hpos : 0 < hse.outgoingBitsCount
    · obtain ⟨c, b, e, hrun, he, hwritten⟩ := pushBits_run h hse.outgoingBitsCount
        (hse.outgoingBits % 2 ^ 8) (by omega) (Nat.mod_lt _ (by decide)) oi
      rw [if_pos hpos, hrun]
      refine ⟨c, b, e, hse.outgoingBitsCount, rfl, he, le_refl _, id, _, ?_, hwritten⟩
      rw [Nat.sub_self, ofNat_zero, List.append_nil]
      exact ofNat_congr fun i hi => by rw [Nat.testBit_mod_two_pow, decide_eq_true (by omega), Bool.true_and]
    · obtain hzero : hse.outgoingBitsCount = 0 := by omega
      rw [if_neg hpos]
      refine ⟨hse.currentByte, hse.bitIndex, [], 0, by rw [List.append_nil]; exact Prod.ext hzero rfl, by simp, by omega,
        fun _ => hzero, [], ?_, ?_⟩
      · rw [hzero]; rfl
      · simpa [withBits] using h

/-! ## What the encoder keeps -/

/-- The position in the buffer behind the phrase that is being written. -/
def reached (hse : Encoder) : Nat :=
  match hse.state with
  | .yieldTagBit | .yieldBrIndex | .yieldBrLength => hse.matchScanIndex + hse.matchLength
  | _ => hse.matchScanIndex

/-- The bits of the current phrase that are not written yet. -/
def owed (hse : Encoder) : List Bool :=
  let literal := hse.buffer (inputBufferSize + (hse.matchScanIndex - 1))
  match hse.state with
  | .yieldTagBit =>
    if hse.matchLength = 0 then (Phrase.literal literal).code windowBits lookaheadBits
    else (Phrase.backref hse.matchPos hse.matchLength).code windowBits lookaheadBits
  | .yieldLiteral => ofNat 8 literal.toNat
  | .yieldBrIndex => ofNat hse.outgoingBitsCount hse.outgoingBits ++ ofNat lookaheadBits (hse.matchLength - 1)
  | .yieldBrLength => ofNat hse.outgoingBitsCount hse.outgoingBits
  | _ => []

/-- The buffer is full or no more will come, and the links lead where they should. -/
def Searching (useIndex : Bool) (hse : Encoder) : Prop :=
  (hse.isFinishing = true ∨ hse.inputSize = inputBufferSize)
    ∧ (useIndex = true → Indexed hse.buffer hse.searchIndex (inputBufferSize + hse.inputSize))

/-- What the fields hold in each state. -/
def Ready (useIndex : Bool) (hse : Encoder) : Prop :=
  match hse.state with
  | .notFull => hse.matchScanIndex = 0 ∧ hse.inputSize < inputBufferSize ∧ hse.isFinishing = false
  | .filled => hse.matchScanIndex = 0 ∧ (hse.isFinishing = true ∨ hse.inputSize = inputBufferSize)
  | .search => Searching useIndex hse ∧ hse.matchScanIndex ≤ hse.inputSize
  | .yieldTagBit =>
    Searching useIndex hse ∧ hse.matchScanIndex + hse.matchLength ≤ hse.inputSize
      ∧ (0 < hse.matchLength → 1 ≤ hse.matchPos)
  | .yieldLiteral => Searching useIndex hse ∧ hse.matchScanIndex ≤ hse.inputSize
  | .yieldBrIndex =>
    Searching useIndex hse ∧ hse.matchScanIndex + hse.matchLength ≤ hse.inputSize
      ∧ hse.outgoingBitsCount ≤ windowBits
  | .yieldBrLength =>
    Searching useIndex hse ∧ hse.matchScanIndex + hse.matchLength ≤ hse.inputSize
      ∧ hse.outgoingBitsCount ≤ lookaheadBits
  | .saveBacklog =>
    hse.isFinishing = false ∧ hse.inputSize = inputBufferSize ∧ 0 < hse.matchScanIndex
      ∧ hse.matchScanIndex ≤ inputBufferSize
  | .flushBits => hse.isFinishing = true ∧ hse.matchScanIndex = hse.inputSize
  | .done => False

/-- The texts that the input may become. -/
def Continues (hse : Encoder) (sunk text : Bytes) : Prop := sunk <+: text ∧ (hse.isFinishing = true → text = sunk)

/-- The bits are those of the phrases up to a position. -/
def Coded (text : Bytes) (p : Nat) (bits : List Bool) : Prop :=
  ∃ phrases, greedy text 0 = phrases ++ greedy text p ∧ codes phrases = bits

/-- At the beginning of the text nothing is coded. -/
theorem coded_zero (text : Bytes) : Coded text 0 [] := ⟨[], rfl, rfl⟩

/-- Behind the code of a phrase the text is coded up to the end of the phrase. -/
theorem Coded.snoc {bits : List Bool} (h : Coded text p bits) (hp : p < text.length) :
    Coded text (p + width (greedyPhrase text p)) (bits ++ (greedyPhrase text p).code windowBits lookaheadBits) := by
  obtain ⟨phrases, hgreedy, rfl⟩ := h
  refine ⟨phrases ++ [greedyPhrase text p], ?_, codes_snoc _ phrases⟩
  rw [hgreedy, greedy_cons hp, List.append_assoc]
  rfl

/-- Coded up to its end, the text has been given its whole code. -/
theorem Coded.whole {bits : List Bool} (h : Coded text text.length bits) : bits = codeStream text := by
  obtain ⟨phrases, hgreedy, rfl⟩ := h
  rw [codeStream, hgreedy, greedy_nil (Nat.le_refl _), List.append_nil]

/-- What was coded so far is no longer than the whole code. -/
theorem Coded.length_le {bits : List Bool} (h : Coded text p bits) : bits.length ≤ (codeStream text).length := by
  obtain ⟨phrases, hgreedy, rfl⟩ := h
  rw [codeStream, hgreedy, codes, codes, List.flatMap_append, List.length_append]
  exact Nat.le_add_right _ _

/-- What has been sunk, what is out, what part of the text the buffer shows, and the bits that are written. -/
structure Encodes (useIndex : Bool) (hse : Encoder) (sunk out : Bytes) (base : Nat) (stream : List Bool) : Prop where
  length : sunk.length = base + hse.inputSize
  fits : hse.inputSize ≤ inputBufferSize
  shows : ∀ j < inputBufferSize + hse.inputSize, hse.buffer j = padded sunk (base + j)
  written : Written hse out stream
  coded : ∀ text, Continues hse sunk text → Coded text (base + hse.reached) (stream ++ hse.owed)
  ready : Ready useIndex hse

/-- What is out is never more than the bits of the text. -/
theorem Encodes.length_le {useIndex : Bool} {sunk : Bytes} {base : Nat} (h : Encodes useIndex hse sunk out base stream)
    (htext : Continues hse sunk text) : 8 * out.length ≤ (codeStream text).length := by
  obtain ⟨q, -, -, -, hstream⟩ := h.written
  have hle := (h.coded text htext).length_le
  rw [hstream] at hle
  simp only [List.length_append, ofBytes_length] at hle
  omega

/-- What is left to do. -/
def weight (hse : Encoder) : Nat :=
  32 * (hse.inputSize - hse.reached) + match hse.state with
    | .notFull | .done => 0
    | .flushBits | .saveBacklog => 1
    | .search => 2
    | .filled | .yieldLiteral => 3
    | .yieldBrLength => 3 + hse.outgoingBitsCount
    | .yieldBrIndex => 12 + hse.outgoingBitsCount
    | .yieldTagBit => 31

variable {useIndex : Bool} {sunk : Bytes} {base : Nat}

/-- A machine that was reset has taken nothing and written nothing. -/
theorem encodes_reset (useIndex : Bool) (hse : Encoder) : Encodes useIndex hse.reset [] [] 0 [] where
  length := rfl
  fits := Nat.zero_le _
  shows j _ := by
    unfold padded
    split <;> rfl
  written := ⟨[], by decide, rfl, rfl, rfl⟩
  coded text _ := coded_zero text
  ready := ⟨rfl, Nat.pow_pos (by decide), rfl⟩

/-- The phrase at the scan position, whatever the text will be. -/
theorem Encodes.phrase (h : Encodes useIndex hse sunk out base stream) (htext : Continues hse sunk text)
    (hfull : hse.isFinishing = true ∨ hse.matchScanIndex + lookaheadSize ≤ hse.inputSize)
    (hmore : hse.matchScanIndex < hse.inputSize) :
    greedyPhrase text (base + hse.matchScanIndex)
      = match worthwhile (longest hse.buffer (inputBufferSize + hse.matchScanIndex)
          (min lookaheadSize (hse.inputSize - hse.matchScanIndex)) inputBufferSize) with
        | some (distance, length) => .backref distance length
        | none => .literal (hse.buffer (inputBufferSize + hse.matchScanIndex)) := by
  obtain ⟨⟨rest, rfl⟩, hfin⟩ := htext
  have hshows : ∀ j < inputBufferSize + hse.inputSize, hse.buffer j = padded (sunk ++ rest) (base + j) := by
    intro j hj
    have hlen := h.length
    rw [h.shows j hj, padded, padded]
    split
    · rfl
    · rw [Bytes.byte, Bytes.byte, List.getD_append _ _ _ _ (by omega)]
  have hmax : min lookaheadSize (hse.inputSize - hse.matchScanIndex)
      = min lookaheadSize ((sunk ++ rest).length - (base + hse.matchScanIndex)) := by
    rw [List.length_append, h.length]
    rcases hfull with hfinishing | hfull
    · have hnil : rest = [] := List.append_right_eq_self.mp (hfin hfinishing)
      rw [hnil, List.length_nil]
      omega
    · omega
  have hlongest : longest hse.buffer (inputBufferSize + hse.matchScanIndex)
        (min lookaheadSize (hse.inputSize - hse.matchScanIndex)) inputBufferSize
      = longest (padded (sunk ++ rest)) (inputBufferSize + (base + hse.matchScanIndex))
        (min lookaheadSize (hse.inputSize - hse.matchScanIndex)) inputBufferSize := by
    rw [@longest_congr _ _ _ _ _ base (by omega) fun i hi => hshows i (by omega)]
    congr 1
    omega
  have hliteral : hse.buffer (inputBufferSize + hse.matchScanIndex) = (sunk ++ rest).byte (base + hse.matchScanIndex) := by
    rw [hshows _ (by omega), padded, if_neg (by omega), Nat.add_left_comm, Nat.add_sub_cancel_left]
  rw [greedyPhrase, ← hmax, ← hlongest, hliteral]

/-! ## What a step does -/

/-- A step that keeps the encoder in order: it comes nearer to the end, or it waits for room. -/
structure Stepped (useIndex : Bool) (hse : Encoder) (sunk before : Bytes) (oi : OutputInfo) (r : Encoder × OutputInfo) :
    Prop where
  finishing : r.1.isFinishing = hse.isFinishing
  encodes : ∃ base stream, Encodes useIndex r.1 sunk (before ++ r.2.buf) base stream
  bufSize : r.2.bufSize = oi.bufSize
  room : r.2.buf.length ≤ oi.bufSize
  progress : weight r.1 < weight hse ∨ r = (hse, oi) ∧ oi.buf.length = oi.bufSize

/-- The output can take a byte exactly if it is shorter than the buffer of the caller. -/
theorem canTakeByte_iff (oi : OutputInfo) : canTakeByte oi = true ↔ oi.buf.length < oi.bufSize := by
  rw [canTakeByte, decide_eq_true_eq]

/-- Without room nothing happens. -/
theorem Encodes.waits (h : Encodes useIndex hse sunk (before ++ oi.buf) base stream)
    (hroom : oi.buf.length ≤ oi.bufSize) (hfull : ¬canTakeByte oi = true) :
    Stepped useIndex hse sunk before oi (entering (hse.state, hse, oi)) :=
  ⟨rfl, ⟨base, stream, h⟩, rfl, hroom, .inr ⟨rfl, by rw [canTakeByte_iff] at hfull; omega⟩⟩

/-- A byte fits into an output that can take one. -/
theorem room_for {e : Bytes} (he : e.length ≤ 1) (hfree : canTakeByte oi = true) :
    (oi.buf ++ e).length ≤ oi.bufSize := by
  rw [canTakeByte_iff] at hfree
  rw [List.length_append]
  omega

/-- Building the index is a step that writes nothing and leads to the search. -/
theorem doIndexing_stepped (h : Encodes useIndex hse sunk (before ++ oi.buf) base stream) (hstate : hse.state = .filled)
    (hroom : oi.buf.length ≤ oi.bufSize) :
    Stepped useIndex hse sunk before oi (entering (.search, hse.doIndexing useIndex, oi)) := by
  obtain ⟨hmsi, hfull⟩ : hse.matchScanIndex = 0 ∧ (hse.isFinishing = true ∨ hse.inputSize = inputBufferSize) := by
    have := h.ready
    rwa [Ready, hstate] at this
  have hcoded : ∀ text, Continues hse sunk text → Coded text (base + hse.matchScanIndex) (stream ++ []) := by
    have := h.coded
    rwa [reached, owed, hstate] at this
  have hweight : weight hse = 32 * (hse.inputSize - hse.matchScanIndex) + 3 := by rw [weight, reached, hstate]
  cases useIndex with
  | false =>
    refine ⟨rfl, ⟨base, stream, h.length, h.fits, h.shows, h.written, hcoded, ⟨hfull, fun hno => Bool.noConfusion hno⟩, ?_⟩,
      rfl, hroom, .inl ?_⟩
    · show hse.matchScanIndex ≤ hse.inputSize
      omega
    · rw [hweight]
      exact Nat.lt_succ_self _
  | true =>
    refine ⟨rfl, ⟨base, stream, h.length, h.fits, h.shows, h.written, hcoded, ⟨hfull, fun _ => ?_⟩, ?_⟩, rfl, hroom,
      .inl ?_⟩
    · exact (links_last hse.buffer (inputBufferSize + hse.inputSize) hse.searchIndex).1
    · show hse.matchScanIndex ≤ hse.inputSize
      omega
    · rw [hweight]
      exact Nat.lt_succ_self _

/-- Input may be left over when the search ends, unless the last of it has come. -/
theorem stStepSearch_exhausted (h : Encodes useIndex hse sunk (before ++ oi.buf) base stream) (hstate : hse.state = .search)
    (hroom : oi.buf.length ≤ oi.bufSize)
    (hend : (hse.matchScanIndex : ℤ) > (hse.inputSize : ℤ) - (if hse.isFinishing then 1 else lookaheadSize)) :
    Stepped useIndex hse sunk before oi
      (entering (if hse.isFinishing then .flushBits else .saveBacklog, hse, oi)) := by
  obtain ⟨⟨hfull, -⟩, hmsi⟩ : Searching useIndex hse ∧ hse.matchScanIndex ≤ hse.inputSize := by
    have := h.ready
    rwa [Ready, hstate] at this
  have hcoded : ∀ text, Continues hse sunk text → Coded text (base + hse.matchScanIndex) (stream ++ []) := by
    have := h.coded
    rwa [reached, owed, hstate] at this
  have hweight : weight hse = 32 * (hse.inputSize - hse.matchScanIndex) + 2 := by rw [weight, reached, hstate]
  have hfits := h.fits
  cases hfin : hse.isFinishing with
  | true =>
    rw [hfin, if_pos rfl] at hend
    rw [if_pos rfl]
    refine ⟨rfl, ⟨base, stream, h.length, h.fits, h.shows, h.written, hcoded, hfin, ?_⟩, rfl, hroom, .inl ?_⟩
    · show hse.matchScanIndex = hse.inputSize
      omega
    · rw [hweight]
      exact Nat.lt_succ_self _
  | false =>
    rw [hfin, if_neg Bool.false_ne_true] at hend
    rw [hfin] at hfull
    have hsize : hse.inputSize = inputBufferSize := hfull.resolve_left Bool.false_ne_true
    rw [if_neg Bool.false_ne_true]
    refine ⟨rfl, ⟨base, stream, h.length, h.fits, h.shows, h.written, hcoded, hfin, hsize, ?_, ?_⟩, rfl, hroom, .inl ?_⟩
    · show 0 < hse.matchScanIndex
      rw [hsize] at hend
      simp only [inputBufferSize, lookaheadSize, windowBits, lookaheadBits] at hend
      omega
    · show hse.matchScanIndex ≤ inputBufferSize
      omega
    · rw [hweight]
      exact Nat.lt_succ_self _

/-- A match or a literal becomes the phrase that is owed. -/
theorem noteMatch_stepped (h : Encodes useIndex hse sunk (before ++ oi.buf) base stream) (hstate : hse.state = .search)
    (hroom : oi.buf.length ≤ oi.bufSize)
    (hahead : hse.isFinishing = true ∨ hse.matchScanIndex + lookaheadSize ≤ hse.inputSize)
    (hmore : hse.matchScanIndex < hse.inputSize) {found : Option (Nat × Nat)}
    (hfound : worthwhile (longest hse.buffer (inputBufferSize + hse.matchScanIndex)
      (min lookaheadSize (hse.inputSize - hse.matchScanIndex)) inputBufferSize) = found) :
    Stepped useIndex hse sunk before oi (entering ((hse.noteMatch found).1, (hse.noteMatch found).2, oi)) := by
  obtain ⟨hsearching, -⟩ : Searching useIndex hse ∧ hse.matchScanIndex ≤ hse.inputSize := by
    have := h.ready
    rwa [Ready, hstate] at this
  have hcoded : ∀ text, Continues hse sunk text → Coded text (base + hse.matchScanIndex) (stream ++ []) := by
    have := h.coded
    rwa [reached, owed, hstate] at this
  have hweight : weight hse = 32 * (hse.inputSize - hse.matchScanIndex) + 2 := by rw [weight, reached, hstate]
  have htoken := fun text (htext : Continues hse sunk text) => h.phrase htext hahead hmore
  rw [hfound] at htoken
  have hin : ∀ text, Continues hse sunk text → base + hse.matchScanIndex < text.length := by
    rintro text ⟨⟨rest, rfl⟩, -⟩
    rw [List.length_append, h.length]
    omega
  cases found with
  | none =>
    refine ⟨rfl, ⟨base, stream, h.length, h.fits, h.shows, h.written, fun text htext => ?_, hsearching, ?_, ?_⟩, rfl, hroom,
      .inl ?_⟩
    · have hnext := (hcoded text htext).snoc (hin text htext)
      rw [htoken text htext, List.append_nil] at hnext
      exact hnext
    · show hse.matchScanIndex + 1 + 0 ≤ hse.inputSize
      omega
    · exact fun hno => absurd hno (lt_irrefl 0)
    · rw [hweight]
      show 32 * (hse.inputSize - (hse.matchScanIndex + 1 + 0)) + 31 < _
      omega
  | some m =>
    obtain ⟨d, len⟩ := m
    obtain ⟨hbest, hlen⟩ := worthwhile_eq_some hfound
    have hle := longest_le hse.buffer (inputBufferSize + hse.matchScanIndex)
      (min lookaheadSize (hse.inputSize - hse.matchScanIndex)) inputBufferSize
    have hplace := @longest_found hse.buffer (inputBufferSize + hse.matchScanIndex)
      (min lookaheadSize (hse.inputSize - hse.matchScanIndex)) inputBufferSize (by rw [hbest]; omega)
    rw [hbest] at hle hplace
    have hrest : len ≤ hse.inputSize - hse.matchScanIndex := le_trans hle (min_le_right _ _)
    refine ⟨rfl, ⟨base, stream, h.length, h.fits, h.shows, h.written, fun text htext => ?_, hsearching, ?_,
      fun _ => hplace.1⟩, rfl, hroom, .inl ?_⟩
    · have hnext := (hcoded text htext).snoc (hin text htext)
      rw [htoken text htext, List.append_nil] at hnext
      have howed : (entering ((hse.noteMatch (some (d, len))).1, (hse.noteMatch (some (d, len))).2, oi)).1.owed
          = (Phrase.backref d len).code windowBits lookaheadBits := if_neg (show ¬len = 0 by omega)
      rw [howed]
      show Coded text (base + (hse.matchScanIndex + len)) _
      rw [← Nat.add_assoc]
      exact hnext
    · show hse.matchScanIndex + len ≤ hse.inputSize
      omega
    · rw [hweight]
      show 32 * (hse.inputSize - (hse.matchScanIndex + len)) + 31 < _
      omega

/-- A step of the search comes back. It leads to the tag bit of what it found, or, when what is left is not enough to
look ahead, out of the search. -/
theorem stStepSearch_stepped (h : Encodes useIndex hse sunk (before ++ oi.buf) base stream) (hstate : hse.state = .search)
    (hroom : oi.buf.length ≤ oi.bufSize) :
    ∃ r, Yields (fun fuel => hse.stStepSearch useIndex fuel) r
      ∧ Stepped useIndex hse sunk before oi (entering (r.1, r.2, oi)) := by
  by_cases hend : (hse.matchScanIndex : ℤ) > (hse.inputSize : ℤ) - (if hse.isFinishing then 1 else lookaheadSize)
  · exact ⟨_, Yields.of_forall fun _ => by rw [stStepSearch]; exact if_pos hend,
      stStepSearch_exhausted h hstate hroom hend⟩
  have hindex : useIndex = true → Indexed hse.buffer hse.searchIndex (inputBufferSize + hse.inputSize) := by
    have := h.ready
    rw [Ready, hstate] at this
    exact this.1.2
  have hahead : hse.isFinishing = true ∨ hse.matchScanIndex + lookaheadSize ≤ hse.inputSize := by
    cases hfin : hse.isFinishing with
    | true => exact .inl rfl
    | false =>
      rw [hfin, if_neg Bool.false_ne_true] at hend
      exact .inr (by omega)
  have hpositive : 0 < lookaheadSize := Nat.pow_pos (by decide)
  have hmore : hse.matchScanIndex < hse.inputSize := by
    rcases hahead with hfin | hahead
    · rw [hfin, if_pos rfl] at hend
      omega
    · omega
  have hmax : (if hse.inputSize - hse.matchScanIndex < lookaheadSize then hse.inputSize - hse.matchScanIndex
      else lookaheadSize) = min lookaheadSize (hse.inputSize - hse.matchScanIndex) := by
    split_ifs <;> omega
  have hfind := @findLongestMatch_yields (inputBufferSize + hse.matchScanIndex)
    (min lookaheadSize (hse.inputSize - hse.matchScanIndex)) (inputBufferSize + hse.matchScanIndex - inputBufferSize)
    useIndex hse (by omega) (Nat.sub_le _ _) fun huse i hi => hindex huse i (by omega)
  rw [show inputBufferSize + hse.matchScanIndex - (inputBufferSize + hse.matchScanIndex - inputBufferSize)
    = inputBufferSize by omega] at hfind
  refine ⟨_, Yields.congr (fun fuel => ?_) (hfind.map (g := hse.noteMatch)),
    noteMatch_stepped h hstate hroom hahead hmore rfl⟩
  rw [stStepSearch, ← hmax]
  simp only [if_neg hend]

/-- The tag bit is written when there is room for the byte it may complete, and the machine waits otherwise. -/
theorem stYieldTagBit_stepped (h : Encodes useIndex hse sunk (before ++ oi.buf) base stream)
    (hstate : hse.state = .yieldTagBit) (hroom : oi.buf.length ≤ oi.bufSize) :
    Stepped useIndex hse sunk before oi (entering (hse.stYieldTagBit oi)) := by
  obtain ⟨hsearching, hin, hmatch⟩ : Searching useIndex hse ∧ hse.matchScanIndex + hse.matchLength ≤ hse.inputSize
      ∧ (0 < hse.matchLength → 1 ≤ hse.matchPos) := by
    have := h.ready
    rwa [Ready, hstate] at this
  have hweight : weight hse = 32 * (hse.inputSize - (hse.matchScanIndex + hse.matchLength)) + 31 := by
    rw [weight, reached, hstate]
  have hcoded := h.coded
  rw [reached, owed, hstate] at hcoded
  unfold stYieldTagBit
  by_cases hfree : canTakeByte oi = true
  · rw [if_pos hfree]
    by_cases hliteral : hse.matchLength = 0
    · obtain ⟨c, b, e, hrun, he, hwritten⟩ := pushBits_run h.written 1 1 (by decide) (by decide) oi
      rw [if_pos hliteral, hrun]
      rw [List.append_assoc] at hwritten
      refine ⟨rfl, ⟨base, _, h.length, h.fits, h.shows, hwritten, fun text htext => ?_, hsearching, ?_⟩, rfl,
        room_for he hfree, .inl ?_⟩
      · have hnow := hcoded text htext
        rw [if_pos hliteral, hliteral] at hnow
        rw [List.append_assoc]
        exact hnow
      · show hse.matchScanIndex ≤ hse.inputSize
        omega
      · rw [hweight, hliteral]
        show 32 * (hse.inputSize - hse.matchScanIndex) + 3 < _
        omega
    · obtain ⟨c, b, e, hrun, he, hwritten⟩ := pushBits_run h.written 1 0 (by decide) (by decide) oi
      rw [if_neg hliteral, hrun]
      rw [List.append_assoc] at hwritten
      refine ⟨rfl, ⟨base, _, h.length, h.fits, h.shows, hwritten, fun text htext => ?_, hsearching, hin, le_refl _⟩, rfl,
        room_for he hfree, .inl ?_⟩
      · have hnow := hcoded text htext
        rw [if_neg hliteral] at hnow
        rw [List.append_assoc]
        exact hnow
      · rw [hweight]
        show 32 * (hse.inputSize - (hse.matchScanIndex + hse.matchLength)) + (12 + 9) < _
        omega
  · rw [if_neg hfree, ← hstate]
    exact h.waits hroom hfree

/-- The byte of a literal is written when there is room, and the search goes on behind it. -/
theorem stYieldLiteral_stepped (h : Encodes useIndex hse sunk (before ++ oi.buf) base stream)
    (hstate : hse.state = .yieldLiteral) (hroom : oi.buf.length ≤ oi.bufSize) :
    Stepped useIndex hse sunk before oi (entering (hse.stYieldLiteral oi)) := by
  obtain ⟨hsearching, hin⟩ : Searching useIndex hse ∧ hse.matchScanIndex ≤ hse.inputSize := by
    have := h.ready
    rwa [Ready, hstate] at this
  have hweight : weight hse = 32 * (hse.inputSize - hse.matchScanIndex) + 3 := by rw [weight, reached, hstate]
  have hcoded := h.coded
  rw [reached, owed, hstate] at hcoded
  unfold stYieldLiteral
  by_cases hfree : canTakeByte oi = true
  · obtain ⟨c, b, e, hrun, he, hwritten⟩ := pushBits_run h.written 8
      (hse.buffer (inputBufferSize + (hse.matchScanIndex - 1))).toNat (by decide) (UInt8.toNat_lt _) oi
    rw [if_pos hfree]
    simp only [hrun]
    rw [List.append_assoc] at hwritten
    refine ⟨rfl, ⟨base, _, h.length, h.fits, h.shows, hwritten, fun text htext => ?_, hsearching, hin⟩, rfl,
      room_for he hfree, .inl ?_⟩
    · exact (List.append_nil _).symm ▸ hcoded text htext
    · rw [hweight]
      exact Nat.lt_succ_self _
  · rw [if_neg hfree, ← hstate]
    exact h.waits hroom hfree

/-- The distance of a reference is written, in as many calls as its bits need bytes of room. -/
theorem stYieldBrIndex_stepped (h : Encodes useIndex hse sunk (before ++ oi.buf) base stream)
    (hstate : hse.state = .yieldBrIndex) (hroom : oi.buf.length ≤ oi.bufSize) :
    Stepped useIndex hse sunk before oi (entering (hse.stYieldBrIndex oi)) := by
  obtain ⟨hsearching, hin, hcount⟩ : Searching useIndex hse ∧ hse.matchScanIndex + hse.matchLength ≤ hse.inputSize
      ∧ hse.outgoingBitsCount ≤ windowBits := by
    have := h.ready
    rwa [Ready, hstate] at this
  have hweight : weight hse
      = 32 * (hse.inputSize - (hse.matchScanIndex + hse.matchLength)) + (12 + hse.outgoingBitsCount) := by
    rw [weight, reached, hstate]
  have hcoded := h.coded
  rw [reached, owed, hstate] at hcoded
  unfold stYieldBrIndex
  by_cases hfree : canTakeByte oi = true
  · obtain ⟨c, b, e, pushed, hrun, he, hle, hnone, first, hfirst, hwritten⟩ := pushOutgoingBits_run h.written oi
    rw [if_pos hfree]
    simp only [hrun]
    rw [List.append_assoc] at hwritten
    by_cases hpushed : 0 < pushed
    · rw [if_pos hpushed]
      refine ⟨rfl, ⟨base, _, h.length, h.fits, h.shows, hwritten, fun text htext => ?_, hsearching, hin, ?_⟩, rfl,
        room_for he hfree, .inl ?_⟩
      · have hnow := hcoded text htext
        rw [hfirst, List.append_assoc] at hnow
        rw [List.append_assoc]
        exact hnow
      · exact le_trans (Nat.sub_le _ _) hcount
      · rw [hweight]
        show 32 * (hse.inputSize - (hse.matchScanIndex + hse.matchLength)) + (12 + (hse.outgoingBitsCount - pushed)) < _
        omega
    · obtain rfl : pushed = 0 := by omega
      rw [if_neg hpushed]
      refine ⟨rfl, ⟨base, _, h.length, h.fits, h.shows, hwritten, fun text htext => ?_, hsearching, hin, le_refl _⟩, rfl,
        room_for he hfree, .inl ?_⟩
      · have hnow := hcoded text htext
        rw [hfirst, hnone rfl, Nat.sub_zero, ofNat_zero, List.append_nil] at hnow
        rw [List.append_assoc]
        exact hnow
      · rw [hweight, hnone rfl]
        show 32 * (hse.inputSize - (hse.matchScanIndex + hse.matchLength)) + (3 + 4) < _
        omega
  · rw [if_neg hfree, ← hstate]
    exact h.waits hroom hfree

/-- The length of a reference is written behind the distance, and the search goes on behind the phrase. -/
theorem stYieldBrLength_stepped (h : Encodes useIndex hse sunk (before ++ oi.buf) base stream)
    (hstate : hse.state = .yieldBrLength) (hroom : oi.buf.length ≤ oi.bufSize) :
    Stepped useIndex hse sunk before oi (entering (hse.stYieldBrLength oi)) := by
  obtain ⟨hsearching, hin, hcount⟩ : Searching useIndex hse ∧ hse.matchScanIndex + hse.matchLength ≤ hse.inputSize
      ∧ hse.outgoingBitsCount ≤ lookaheadBits := by
    have := h.ready
    rwa [Ready, hstate] at this
  have hweight : weight hse
      = 32 * (hse.inputSize - (hse.matchScanIndex + hse.matchLength)) + (3 + hse.outgoingBitsCount) := by
    rw [weight, reached, hstate]
  have hcoded := h.coded
  rw [reached, owed, hstate] at hcoded
  unfold stYieldBrLength
  by_cases hfree : canTakeByte oi = true
  · obtain ⟨c, b, e, pushed, hrun, he, hle, hnone, first, hfirst, hwritten⟩ := pushOutgoingBits_run h.written oi
    rw [if_pos hfree]
    simp only [hrun]
    rw [List.append_assoc] at hwritten
    by_cases hpushed : 0 < pushed
    · rw [if_pos hpushed]
      refine ⟨rfl, ⟨base, _, h.length, h.fits, h.shows, hwritten, fun text htext => ?_, hsearching, hin, ?_⟩, rfl,
        room_for he hfree, .inl ?_⟩
      · have hnow := hcoded text htext
        rw [hfirst] at hnow
        rw [List.append_assoc]
        exact hnow
      · exact le_trans (Nat.sub_le _ _) hcount
      · rw [hweight]
        show 32 * (hse.inputSize - (hse.matchScanIndex + hse.matchLength)) + (3 + (hse.outgoingBitsCount - pushed)) < _
        omega
    · obtain rfl : pushed = 0 := by omega
      rw [if_neg hpushed]
      refine ⟨rfl, ⟨base, _, h.length, h.fits, h.shows, hwritten, fun text htext => ?_, hsearching, hin⟩, rfl,
        room_for he hfree, .inl ?_⟩
      · have hnow := hcoded text htext
        rw [hfirst, hnone rfl, Nat.sub_zero, ofNat_zero] at hnow
        rw [List.append_assoc]
        exact hnow
      · rw [hweight, hnone rfl]
        show 32 * (hse.inputSize - (hse.matchScanIndex + hse.matchLength)) + 2 < _
        omega
  · rw [if_neg hfree, ← hstate]
    exact h.waits hroom hfree

/-- Saving the window moves the text to the front of the buffer. What is written and what is left to write stay the
same. -/
theorem saveBacklog_stepped (h : Encodes useIndex hse sunk (before ++ oi.buf) base stream)
    (hstate : hse.state = .saveBacklog) (hroom : oi.buf.length ≤ oi.bufSize) :
    Stepped useIndex hse sunk before oi (entering (.notFull, hse.saveBacklog, oi)) := by
  obtain ⟨hfin, hsize, hpos, hmsi⟩ : hse.isFinishing = false ∧ hse.inputSize = inputBufferSize
      ∧ 0 < hse.matchScanIndex ∧ hse.matchScanIndex ≤ inputBufferSize := by
    have := h.ready
    rwa [Ready, hstate] at this
  have hweight : weight hse = 32 * (hse.inputSize - hse.matchScanIndex) + 1 := by rw [weight, reached, hstate]
  have hcoded := h.coded
  rw [reached, owed, hstate] at hcoded
  have hrem : inputBufferSize - (inputBufferSize - hse.matchScanIndex) = hse.matchScanIndex := by omega
  have hlen := h.length
  refine ⟨rfl, ⟨base + hse.matchScanIndex, stream, ?_, ?_, fun j hj => ?_, h.written, hcoded, rfl, ?_, hfin⟩, rfl, hroom,
    .inl ?_⟩
  · show sunk.length
      = base + hse.matchScanIndex + (hse.inputSize - (inputBufferSize - (inputBufferSize - hse.matchScanIndex)))
    omega
  · show hse.inputSize - (inputBufferSize - (inputBufferSize - hse.matchScanIndex)) ≤ inputBufferSize
    omega
  · have hj' : j < inputBufferSize + (inputBufferSize - hse.matchScanIndex) := by
      have : j < inputBufferSize + (hse.inputSize - (inputBufferSize - (inputBufferSize - hse.matchScanIndex))) := hj
      omega
    show (if j < inputBufferSize + (inputBufferSize - hse.matchScanIndex)
      then hse.buffer (inputBufferSize - (inputBufferSize - hse.matchScanIndex) + j) else hse.buffer j) = _
    rw [if_pos hj', hrem, h.shows _ (by omega), Nat.add_assoc]
  · show hse.inputSize - (inputBufferSize - (inputBufferSize - hse.matchScanIndex)) < inputBufferSize
    omega
  · rw [hweight]
    show 32 * (hse.inputSize - (inputBufferSize - (inputBufferSize - hse.matchScanIndex)) - 0) + 0 < _
    omega

/-- A step that goes on keeps the encoder in order. -/
theorem step_stepped (h : Encodes useIndex hse sunk (before ++ oi.buf) base stream) (hroom : oi.buf.length ≤ oi.bufSize)
    (hnotFull : hse.state ≠ .notFull) (hflush : hse.state ≠ .flushBits) :
    ∃ r, Yields (fun fuel => hse.step useIndex fuel oi) r ∧ Stepped useIndex hse sunk before oi r := by
  unfold step
  match hstate : hse.state with
  | .notFull => exact absurd hstate hnotFull
  | .flushBits => exact absurd hstate hflush
  | .done =>
    have hready := h.ready
    rw [Ready, hstate] at hready
    exact hready.elim
  | .filled => exact ⟨_, Yields.of_forall fun _ => rfl, doIndexing_stepped h hstate hroom⟩
  | .search =>
    obtain ⟨r, hyields, hstepped⟩ := stStepSearch_stepped h hstate hroom
    exact ⟨_, hyields.bind (Yields.of_forall fun _ => rfl), hstepped⟩
  | .yieldTagBit => exact ⟨_, Yields.of_forall fun _ => rfl, stYieldTagBit_stepped h hstate hroom⟩
  | .yieldLiteral => exact ⟨_, Yields.of_forall fun _ => rfl, stYieldLiteral_stepped h hstate hroom⟩
  | .yieldBrIndex => exact ⟨_, Yields.of_forall fun _ => rfl, stYieldBrIndex_stepped h hstate hroom⟩
  | .yieldBrLength => exact ⟨_, Yields.of_forall fun _ => rfl, stYieldBrLength_stepped h hstate hroom⟩
  | .saveBacklog => exact ⟨_, Yields.of_forall fun _ => rfl, saveBacklog_stepped h hstate hroom⟩

/-- At the end all bits are written; the last byte is filled up with zeros. -/
theorem stFlushBitBuffer_flushed (h : Encodes useIndex hse sunk (before ++ oi.buf) base stream)
    (hstate : hse.state = .flushBits) (hroom : oi.buf.length ≤ oi.bufSize) :
    let r := entering (hse.stFlushBitBuffer oi)
    r.2.buf.length ≤ oi.bufSize ∧ (r = (hse, oi) ∧ oi.buf.length = oi.bufSize
      ∨ r.1.state = .done ∧ r.1.isFinishing = hse.isFinishing ∧ weight r.1 < weight hse
        ∧ Packs (before ++ r.2.buf) (codeStream sunk)) := by
  obtain ⟨hfin, hmsi⟩ : hse.isFinishing = true ∧ hse.matchScanIndex = hse.inputSize := by
    have := h.ready
    rwa [Ready, hstate] at this
  have hcoded := h.coded sunk ⟨List.prefix_refl sunk, fun _ => rfl⟩
  rw [reached, owed, hstate] at hcoded
  simp only [hmsi, ← h.length, List.append_nil] at hcoded
  obtain ⟨q, hq, hindex, hcurrent, hstream⟩ := h.written
  rw [hcoded.whole] at hstream
  have hweight : weight hse = 32 * (hse.inputSize - hse.matchScanIndex) + 1 := by rw [weight, reached, hstate]
  unfold stFlushBitBuffer
  by_cases hwhole : hse.bitIndex = 0x80
  · have hempty : q = [] := by
      rw [hwhole] at hindex
      have : 7 - q.length = 7 := Nat.pow_right_injective (le_refl 2) (hindex.symm.trans (by decide))
      exact List.length_eq_zero_iff.mp (by omega)
    rw [if_pos hwhole]
    refine ⟨hroom, .inr ⟨rfl, rfl, ?_, 0, by decide, ?_⟩⟩
    · rw [hweight]
      exact Nat.lt_succ_self _
    · rw [hstream, hempty, List.append_nil]
      exact (List.append_nil _).symm
  · rw [if_neg hwhole]
    by_cases hfree : canTakeByte oi = true
    · have hsmall : hse.currentByte < 2 ^ 8 := by
        have hlt := value_lt q
        calc hse.currentByte = value q * 2 ^ (8 - q.length) := hcurrent
          _ < 2 ^ q.length * 2 ^ (8 - q.length) := Nat.mul_lt_mul_of_pos_right hlt (Nat.pow_pos (by decide))
          _ = 2 ^ 8 := by rw [← Nat.pow_add, Nat.add_sub_cancel' (by omega)]
      rw [if_pos hfree]
      refine ⟨room_for (Nat.le_refl 1) hfree, .inr ⟨rfl, rfl, ?_, 8 - q.length, ?_, ?_⟩⟩
      · rw [hweight]
        exact Nat.lt_succ_self _
      · have : q.length ≠ 0 := fun h0 => by
          rw [h0] at hindex
          exact hwhole hindex
        omega
      · show ofBytes (before ++ (oi.buf ++ [UInt8.ofNat hse.currentByte])) = _
        have hlast := ofNat_mul_pow q.length (8 - q.length) (value q)
        rw [ofNat_value, Nat.add_sub_cancel' (by omega), ← hcurrent] at hlast
        rw [← List.append_assoc, ofBytes_append, ofBytes_cons, UInt8.toNat_ofNat', Nat.mod_eq_of_lt hsmall, hlast, hstream]
        simp
    · rw [if_neg hfree, ← hstate]
      exact ⟨hroom, .inl ⟨rfl, by rw [canTakeByte_iff] at hfree; omega⟩⟩

/-! ## Polls and sinks -/

/-- An encoder that goes on, or one that has written everything. -/
def Reached (useIndex : Bool) (hse : Encoder) (sunk out : Bytes) : Prop :=
  (∃ base stream, Encodes useIndex hse sunk out base stream)
    ∨ hse.state = .done ∧ hse.isFinishing = true ∧ Packs out (codeStream sunk)

/-- What `poll` answers. -/
structure Polled (useIndex : Bool) (hse : Encoder) (sunk before : Bytes) (size : Nat) (r : EncoderPollRes × Encoder × Bytes) :
    Prop where
  fits : r.2.2.length ≤ size
  reached : Reached useIndex r.2.1 sunk (before ++ r.2.2)
  finishing : r.2.1.isFinishing = hse.isFinishing
  resting : r.2.1.state ≠ .saveBacklog
  no_misuse : r.1 ≠ .errorMisuse
  more : r.1 = .more → r.2.2.length = size
  empty : r.1 = .empty → r.2.1.state = .notFull ∨ r.2.1.isFinishing = true
  progress : hse.state ≠ .notFull → weight r.2.1 < weight hse

/-- What holds between the rounds of a poll. -/
structure Polling (useIndex : Bool) (hse : Encoder) (sunk before : Bytes) (size : Nat) (s : Encoder × OutputInfo) :
    Prop where
  finishing : s.1.isFinishing = hse.isFinishing
  bufSize : s.2.bufSize = size
  room : s.2.buf.length ≤ size
  encodes : ∃ base stream, Encodes useIndex s.1 sunk (before ++ s.2.buf) base stream
  progress : weight s.1 < weight hse ∨ s = (hse, ⟨size, []⟩)

/-- What a round leaves behind. -/
def AfterRound (useIndex : Bool) (hse : Encoder) (sunk before : Bytes) (size m : Nat) :
    Round (Encoder × OutputInfo) (EncoderPollRes × Encoder × Bytes) → Prop
  | .next s => ∃ n < m, weight s.1 = n ∧ Polling useIndex hse sunk before size s
  | .leave r => Polled useIndex hse sunk before size r

section Poll

variable {now : Encoder} {size : Nat}

/-- A full buffer is not the one that the poll began with. -/
theorem Polling.less_of_full (h : Polling useIndex hse sunk before size (now, oi)) (hsize : 0 < size)
    (hfull : oi.buf.length = oi.bufSize) : weight now < weight hse := by
  refine h.progress.resolve_right fun heq => ?_
  rw [(Prod.mk.inj heq).2] at hfull
  exact absurd hfull (Nat.ne_of_lt hsize)

/-- A poll of a machine that wants more input answers that it is empty. -/
theorem Polling.notFull (h : Polling useIndex hse sunk before size (now, oi)) (hstate : now.state = .notFull) :
    Polled useIndex hse sunk before size (.empty, now, oi.buf) where
  fits := h.room
  reached := .inl h.encodes
  finishing := h.finishing
  resting hsave := EncoderState.noConfusion (hstate.symm.trans hsave)
  no_misuse := EncoderPollRes.noConfusion
  more hmore := EncoderPollRes.noConfusion hmore
  empty _ := .inl hstate
  progress hne := h.progress.resolve_right fun heq => hne ((Prod.mk.inj heq).1 ▸ hstate)

/-- At the end the last bits are filled up with zeros and written. -/
theorem Polling.flushBits (h : Polling useIndex hse sunk before size (now, oi)) (hsize : 0 < size)
    (hstate : now.state = .flushBits) :
    Polled useIndex hse sunk before size
      (.empty, (entering (now.stFlushBitBuffer oi)).1, (entering (now.stFlushBitBuffer oi)).2.buf) := by
  obtain ⟨base, stream, henc⟩ := h.encodes
  obtain rfl := h.bufSize
  obtain ⟨hfits, hflushed⟩ := stFlushBitBuffer_flushed henc hstate h.room
  have hfinishing : now.isFinishing = true := by
    have := henc.ready
    rw [Ready, hstate] at this
    exact this.1
  rcases hflushed with ⟨heq, hfull⟩ | ⟨hdone, hkeeps, hless, hpacks⟩
  · refine ⟨hfits, ?_, ?_, ?_, EncoderPollRes.noConfusion, fun hmore => EncoderPollRes.noConfusion hmore, fun _ => .inr ?_,
      fun _ => ?_⟩
    · rw [heq]
      exact .inl ⟨base, stream, henc⟩
    · rw [heq]
      exact h.finishing
    · rw [heq]
      exact fun hsave => EncoderState.noConfusion (hstate.symm.trans hsave)
    · rw [heq]
      exact hfinishing
    · rw [heq]
      exact h.less_of_full hsize hfull
  · refine ⟨hfits, .inr ⟨hdone, hkeeps.trans hfinishing, hpacks⟩, hkeeps.trans h.finishing,
      fun hsave => EncoderState.noConfusion (hdone.symm.trans hsave), EncoderPollRes.noConfusion,
      fun hmore => EncoderPollRes.noConfusion hmore, fun _ => .inr (hkeeps.trans hfinishing), fun _ => ?_⟩
    rcases h.progress with hless' | heq
    · exact hless.trans hless'
    · exact (Prod.mk.inj heq).1 ▸ hless

/-- Any other round of a poll is one step of the machine, after which the poll goes on or ends with a full buffer. -/
theorem Polling.step (h : Polling useIndex hse sunk before size (now, oi)) (hsize : 0 < size)
    (hnotFull : now.state ≠ .notFull) (hflush : now.state ≠ .flushBits) :
    ∃ r, Yields (fun fuel => pollRound useIndex fuel (now, oi)) r
      ∧ AfterRound useIndex hse sunk before size (weight now) r := by
  obtain ⟨base, stream, henc⟩ := h.encodes
  obtain rfl := h.bufSize
  obtain ⟨⟨next, oi'⟩, hyields, hstepped⟩ := step_stepped henc h.room hnotFull hflush
  have hround : ∀ fuel, pollRound useIndex fuel (now, oi)
      = (now.step useIndex fuel oi >>= fun r =>
          if r.1.state = now.state ∧ r.2.buf.length = r.2.bufSize then some (.leave (.more, r.1, r.2.buf))
          else some (.next r)) := by
    intro fuel
    have hready := henc.ready
    unfold pollRound
    cases hstate : now.state <;> simp only [hstate, Ready] at hnotFull hflush hready ⊢ <;>
      first | rfl | contradiction
  have hless : weight next < weight hse := by
    rcases hstepped.progress with hless | ⟨heq, hfull⟩
    · rcases h.progress with hless' | heq
      · exact hless.trans hless'
      · exact (Prod.mk.inj heq).1 ▸ hless
    · exact (Prod.mk.inj heq).1 ▸ h.less_of_full hsize hfull
  have hroom : oi'.buf.length ≤ oi.bufSize := hstepped.room
  have hbufSize : oi'.bufSize = oi.bufSize := hstepped.bufSize
  by_cases hleave : next.state = now.state ∧ oi'.buf.length = oi'.bufSize
  · refine ⟨.leave (.more, next, oi'.buf), Yields.congr (fun fuel => (hround fuel).symm)
      (hyields.bind (Yields.of_forall fun _ => if_pos hleave)), hroom, .inl hstepped.encodes,
      hstepped.finishing.trans h.finishing, fun hsave => ?_, EncoderPollRes.noConfusion, fun _ => hleave.2.trans hbufSize,
      fun hempty => EncoderPollRes.noConfusion hempty, fun _ => hless⟩
    -- saving the backlog never stays where it is
    have hnow : now.state = .saveBacklog := hleave.1.symm.trans hsave
    have hsaved : Yields (fun fuel => now.step useIndex fuel oi) (entering (.notFull, now.saveBacklog, oi)) :=
      Yields.of_forall fun fuel => by rw [Encoder.step, hnow]
    have hstate := congrArg (fun r => r.1.state) (hyields.unique hsaved)
    exact EncoderState.noConfusion (hsave.symm.trans hstate)
  · refine ⟨.next (next, oi'), Yields.congr (fun fuel => (hround fuel).symm)
      (hyields.bind (Yields.of_forall fun _ => if_neg hleave)), weight next, ?_, rfl,
      hstepped.finishing.trans h.finishing, hbufSize, hroom, hstepped.encodes, .inl hless⟩
    refine hstepped.progress.resolve_right fun hstuck => hleave ?_
    obtain ⟨heq, hfull⟩ := hstuck
    obtain ⟨rfl, rfl⟩ := Prod.mk.inj heq
    exact ⟨rfl, hfull⟩

/-- Every poll comes back. -/
theorem poll_yields (h : Encodes useIndex hse sunk before base stream) (hsize : 0 < size) :
    ∃ r, Yields (fun fuel => poll useIndex fuel hse size) r ∧ Polled useIndex hse sunk before size r := by
  have hround : ∀ m s, weight s.1 = m ∧ Polling useIndex hse sunk before size s →
      ∃ r, Yields (fun fuel => pollRound useIndex fuel s) r ∧ AfterRound useIndex hse sunk before size m r := by
    rintro m ⟨now, oi⟩ ⟨rfl, hpolling⟩
    by_cases hnotFull : now.state = .notFull
    · exact ⟨.leave (.empty, now, oi.buf), Yields.of_forall fun _ => by rw [pollRound, hnotFull],
        hpolling.notFull hnotFull⟩
    by_cases hflush : now.state = .flushBits
    · exact ⟨.leave (.empty, (entering (now.stFlushBitBuffer oi)).1, (entering (now.stFlushBitBuffer oi)).2.buf),
        Yields.of_forall fun _ => by rw [pollRound, hflush], hpolling.flushBits hsize hflush⟩
    exact hpolling.step hsize hnotFull hflush
  have hstart : Polling useIndex hse sunk before size (hse, ⟨size, []⟩) :=
    ⟨rfl, rfl, Nat.zero_le _, ⟨base, stream, by rw [List.append_nil]; exact h⟩, .inr rfl⟩
  obtain ⟨r, hyields, hpolled⟩ := Yields.loop (g := fun fuel => pollRound useIndex fuel)
    (I := fun m s => weight s.1 = m ∧ Polling useIndex hse sunk before size s)
    (Q := Polled useIndex hse sunk before size)
    (fun m s hs => (hround m s hs).imp fun r hr => ⟨hr.1, by cases r <;> exact hr.2⟩) ⟨rfl, hstart⟩
  exact ⟨r, hyields.congr fun fuel => by rw [poll, if_neg (Nat.pos_iff_ne_zero.mp hsize)], hpolled⟩

end Poll

/-- An encoder between calls. -/
structure AtRest (useIndex : Bool) (hse : Encoder) (sunk out : Bytes) : Prop where
  reached : Reached useIndex hse sunk out
  resting : hse.state ≠ .saveBacklog

/-- An encoder that takes input takes what it has room for. -/
theorem sink_encodes (h : Encodes useIndex hse sunk out base stream) (hstate : hse.state = .notFull) (inBuf : Bytes) :
    let n := min (inputBufferSize - hse.inputSize) inBuf.length
    (hse.sink inBuf).1 = .ok ∧ (hse.sink inBuf).2.1 = n ∧ (inBuf ≠ [] → 0 < n)
      ∧ (hse.sink inBuf).2.2.isFinishing = false ∧ (hse.sink inBuf).2.2.state ≠ .saveBacklog
      ∧ Encodes useIndex (hse.sink inBuf).2.2 (sunk ++ inBuf.take n) out base stream := by
  obtain ⟨hmsi, hroom, hfin⟩ : hse.matchScanIndex = 0 ∧ hse.inputSize < inputBufferSize ∧ hse.isFinishing = false := by
    have := h.ready
    rwa [Ready, hstate] at this
  have hcoded := h.coded
  rw [reached, owed, hstate] at hcoded
  simp only at hcoded
  have hsz : (if inputBufferSize - hse.inputSize < inBuf.length then inputBufferSize - hse.inputSize else inBuf.length)
      = min (inputBufferSize - hse.inputSize) inBuf.length := by
    split_ifs <;> omega
  have hlen := h.length
  unfold sink
  simp only [hfin, Bool.false_eq_true, if_false, ne_eq, hstate, not_true_eq_false, hsz]
  refine ⟨trivial, trivial, fun hne => ?_, trivial, ?_, ?_, ?_, fun j hj => ?_, h.written, fun text htext => ?_, ?_⟩
  · have := List.length_pos_of_ne_nil hne
    omega
  · split <;> exact EncoderState.noConfusion
  · rw [List.length_append, List.length_take, hlen]
    show _ = base + (hse.inputSize + min (inputBufferSize - hse.inputSize) inBuf.length)
    omega
  · show hse.inputSize + min (inputBufferSize - hse.inputSize) inBuf.length ≤ inputBufferSize
    omega
  · have hj' : j < inputBufferSize + (hse.inputSize + min (inputBufferSize - hse.inputSize) inBuf.length) := hj
    show (if inputBufferSize + hse.inputSize ≤ j
        ∧ j < inputBufferSize + hse.inputSize + min (inputBufferSize - hse.inputSize) inBuf.length
      then inBuf.byte (j - (inputBufferSize + hse.inputSize)) else hse.buffer j) = _
    by_cases hnew : inputBufferSize + hse.inputSize ≤ j
    · rw [if_pos ⟨hnew, by omega⟩, padded, if_neg (by omega), Bytes.byte, Bytes.byte,
        List.getD_append_right _ _ _ _ (by omega), List.getD_eq_getElem _ _ (by omega),
        List.getD_eq_getElem _ _ (by rw [List.length_take]; omega), List.getElem_take]
      have hidx : j - (inputBufferSize + hse.inputSize) = base + j - inputBufferSize - sunk.length := by omega
      simp only [hidx]
    · rw [if_neg fun hc => hnew hc.1, h.shows j (by omega), padded, padded]
      split
      · rfl
      · rw [Bytes.byte, Bytes.byte, List.getD_append _ _ _ _ (by omega)]
  · have hbefore : Continues hse sunk text :=
      ⟨(List.prefix_append sunk _).trans htext.1, fun hno => Bool.noConfusion (hfin.symm.trans hno)⟩
    have hnow := hcoded text hbefore
    unfold reached owed
    split_ifs <;> exact hnow
  · unfold Ready
    by_cases hfull : min (inputBufferSize - hse.inputSize) inBuf.length = inputBufferSize - hse.inputSize
    · simp only [if_pos hfull]
      exact ⟨hmsi, .inr (by omega)⟩
    · simp only [if_neg hfull]
      exact ⟨hmsi, by omega, trivial⟩

/-- The call that says the input is over makes a machine that waits for more of it go on with what it has. -/
theorem finish_of_notFull (hstate : hse.state = .notFull) :
    hse.finish = (.more, { hse with isFinishing := true, state := .filled }) := by
  unfold finish
  rw [if_pos hstate]
  rfl

/-- A machine that is still at work only notes that the input is over. -/
theorem finish_of_ne (hnotFull : hse.state ≠ .notFull) (hdone : hse.state ≠ .done) :
    hse.finish = (.more, { hse with isFinishing := true }) := by
  unfold finish
  rw [if_neg hnotFull]
  exact Prod.ext (if_neg hdone) rfl

/-- When the input ends, no more of it is waited for. -/
theorem finish_encodes (h : Encodes useIndex hse sunk out base stream) (hrest : hse.state ≠ .saveBacklog) :
    hse.finish.1 = .more ∧ hse.finish.2.isFinishing = true ∧ hse.finish.2.state ≠ .notFull
      ∧ hse.finish.2.state ≠ .saveBacklog ∧ Encodes useIndex hse.finish.2 sunk out base stream := by
  have hready := h.ready
  by_cases hnotFull : hse.state = .notFull
  · have hcoded := h.coded
    rw [reached, owed, hnotFull] at hcoded
    rw [Ready, hnotFull] at hready
    rw [finish_of_notFull hnotFull]
    refine ⟨rfl, rfl, EncoderState.noConfusion, EncoderState.noConfusion, h.length, h.fits, h.shows, h.written,
      fun text htext => ?_, hready.1, .inl rfl⟩
    exact hcoded text ⟨htext.1, fun _ => htext.2 rfl⟩
  · have hdone : hse.state ≠ .done := fun hdone => by rwa [Ready, hdone] at hready
    rw [finish_of_ne hnotFull hdone]
    refine ⟨rfl, rfl, hnotFull, hrest, h.length, h.fits, h.shows, h.written, fun text htext => ?_, ?_⟩
    · exact h.coded text ⟨htext.1, fun _ => htext.2 rfl⟩
    · have hsearching : Searching useIndex hse → Searching useIndex { hse with isFinishing := true } :=
        fun hs => ⟨.inl rfl, hs.2⟩
      unfold Ready at hready ⊢
      cases hstate : hse.state <;> rw [hstate] at hready <;> simp only
      case notFull => exact absurd hstate hnotFull
      case filled => exact ⟨hready.1, .inl trivial⟩
      case search => exact ⟨hsearching hready.1, hready.2⟩
      case yieldTagBit => exact ⟨hsearching hready.1, hready.2⟩
      case yieldLiteral => exact ⟨hsearching hready.1, hready.2⟩
      case yieldBrIndex => exact ⟨hsearching hready.1, hready.2⟩
      case yieldBrLength => exact ⟨hsearching hready.1, hready.2⟩
      case saveBacklog => exact absurd hstate hrest
      case flushBits => exact ⟨trivial, hready.2⟩
      case done => exact hready

end Encoder

end MicroReticulum.Heatshrink
