import MicroReticulum.Wire.Bytes
import MicroReticulum.Library.Loop
import MicroReticulum.Library.Lzss
import Mathlib.Data.Int.ModEq

/-!
# The decompressor

`heatshrink_decoder.c` in the static configuration of the source: a state machine that is fed by `sink` and drained by
`poll`, either in pieces of any size. Its input buffer and the window of what it has written share one array.

What a decoder has still to say is its `outlook`: what the bits it has not read stand for, behind the part of a phrase
it has read and in front of any bits that are sunk later. One step of the machine writes the beginning of its outlook
and leaves the rest (`step_outlook`), so a poll does, and so do calls in any order.
-/

namespace MicroReticulum.Heatshrink

open Library Library.BitStream Library.Lzss

/-- `HEATSHRINK_STATIC_INPUT_BUFFER_SIZE` -/
abbrev inputBufferSize : Nat := 64

/-- `HEATSHRINK_STATIC_WINDOW_BITS` -/
abbrev windowBits : Nat := 9

/-- `HEATSHRINK_STATIC_LOOKAHEAD_BITS` -/
abbrev lookaheadBits : Nat := 4

/-- `HSD_state` -/
inductive DecoderState where
  | tagBit
  | yieldLiteral
  | backrefIndexMsb
  | backrefIndexLsb
  | backrefCountMsb
  | backrefCountLsb
  | yieldBackref
  deriving DecidableEq, Repr

/-- `heatshrink_decoder` -/
structure Decoder where
  inputSize : Nat
  inputIndex : Nat
  outputCount : Nat
  outputIndex : Nat
  /-- Sixteen bits, so it starts again from zero. -/
  headIndex : Nat
  state : DecoderState
  currentByte : UInt8
  /-- The mask of the next bit of `currentByte`, or zero. -/
  bitIndex : Nat
  /-- The input buffer, then the window. -/
  buffers : Nat → UInt8

/-- `output_info`: the bytes pushed so far into a buffer of the caller. -/
structure OutputInfo where
  bufSize : Nat
  buf : Bytes

/-- `HSD_sink_res` -/
inductive DecoderSinkRes where
  | ok
  | full
  deriving DecidableEq, Repr

/-- `HSD_poll_res` -/
inductive DecoderPollRes where
  | empty
  | more
  deriving DecidableEq, Repr

/-- `HSD_finish_res` -/
inductive DecoderFinishRes where
  | done
  | more
  deriving DecidableEq, Repr

namespace Decoder

/-- `heatshrink_decoder_reset` -/
def reset : Decoder where
  inputSize := 0
  inputIndex := 0
  outputCount := 0
  outputIndex := 0
  headIndex := 0
  state := .tagBit
  currentByte := 0
  bitIndex := 0
  buffers := fun _ => 0

/-- `heatshrink_decoder_sink`, with how many bytes it took. -/
def sink (hsd : Decoder) (inBuf : Bytes) : DecoderSinkRes × Nat × Decoder :=
  let rem := inputBufferSize - hsd.inputSize
  if rem = 0 then (.full, 0, hsd)
  else
    let size := if rem < inBuf.length then rem else inBuf.length
    (.ok, size, { hsd with
      buffers := fun i =>
        if hsd.inputSize ≤ i ∧ i < hsd.inputSize + size then inBuf.byte (i - hsd.inputSize) else hsd.buffers i
      inputSize := hsd.inputSize + size })

/-- The next byte of the input becomes the current one. -/
def pullByte (hsd : Decoder) : Decoder :=
  let exhausted := hsd.inputIndex + 1 = hsd.inputSize
  { hsd with
    currentByte := hsd.buffers hsd.inputIndex
    inputIndex := if exhausted then 0 else hsd.inputIndex + 1
    inputSize := if exhausted then 0 else hsd.inputSize
    bitIndex := 0x80 }

/-- The loop of `get_bits`. At most 15 bits are gathered, so nothing is shifted out of the accumulator. -/
def gatherBits : Nat → Nat → Decoder → Option Nat × Decoder
  | 0, accumulator, hsd => (some accumulator, hsd)
  | count + 1, accumulator, hsd =>
    if hsd.bitIndex = 0 ∧ hsd.inputSize = 0 then (none, hsd)
    else
      let hsd := if hsd.bitIndex = 0 then pullByte hsd else hsd
      let bit := hsd.currentByte.toNat &&& hsd.bitIndex != 0
      gatherBits count (2 * accumulator + bit.toNat) { hsd with bitIndex := hsd.bitIndex / 2 }

/-- `get_bits` -/
def getBits (hsd : Decoder) (count : Nat) : Option Nat × Decoder :=
  if 15 < count then (none, hsd)
  else if hsd.inputSize = 0 ∧ hsd.bitIndex < 2 ^ (count - 1) then (none, hsd)
  else gatherBits count 0 hsd

/-- `st_tag_bit` -/
def stTagBit (hsd : Decoder) : DecoderState × Decoder :=
  match hsd.getBits 1 with
  | (none, hsd) => (.tagBit, hsd)
  | (some bits, hsd) =>
    if bits ≠ 0 then (.yieldLiteral, hsd)
    else if 8 < windowBits then (.backrefIndexMsb, hsd)
    else (.backrefIndexLsb, { hsd with outputIndex := 0 })

/-- A byte into the window, at the head. -/
def pushWindow (hsd : Decoder) (c : UInt8) : Decoder :=
  { hsd with
    buffers := Function.update hsd.buffers (inputBufferSize + hsd.headIndex % 2 ^ windowBits) c
    headIndex := (hsd.headIndex + 1) % 2 ^ 16 }

/-- `st_yield_literal` -/
def stYieldLiteral (hsd : Decoder) (oi : OutputInfo) : DecoderState × Decoder × OutputInfo :=
  if oi.buf.length < oi.bufSize then
    match hsd.getBits 8 with
    | (none, hsd) => (.yieldLiteral, hsd, oi)
    | (some byte, hsd) =>
      let c := UInt8.ofNat byte
      (.tagBit, hsd.pushWindow c, { oi with buf := oi.buf ++ [c] })
  else (.yieldLiteral, hsd, oi)

/-- `st_backref_index_msb` -/
def stBackrefIndexMsb (hsd : Decoder) : DecoderState × Decoder :=
  match hsd.getBits (windowBits - 8) with
  | (none, hsd) => (.backrefIndexMsb, hsd)
  | (some bits, hsd) => (.backrefIndexLsb, { hsd with outputIndex := bits <<< 8 })

/-- `st_backref_index_lsb` -/
def stBackrefIndexLsb (hsd : Decoder) : DecoderState × Decoder :=
  match hsd.getBits (if windowBits < 8 then windowBits else 8) with
  | (none, hsd) => (.backrefIndexLsb, hsd)
  | (some bits, hsd) =>
    (if 8 < lookaheadBits then .backrefCountMsb else .backrefCountLsb,
      { hsd with outputIndex := (hsd.outputIndex ||| bits) + 1, outputCount := 0 })

/-- `st_backref_count_msb` -/
def stBackrefCountMsb (hsd : Decoder) : DecoderState × Decoder :=
  match hsd.getBits (lookaheadBits - 8) with
  | (none, hsd) => (.backrefCountMsb, hsd)
  | (some bits, hsd) => (.backrefCountLsb, { hsd with outputCount := bits <<< 8 })

/-- `st_backref_count_lsb` -/
def stBackrefCountLsb (hsd : Decoder) : DecoderState × Decoder :=
  match hsd.getBits (if lookaheadBits < 8 then lookaheadBits else 8) with
  | (none, hsd) => (.backrefCountLsb, hsd)
  | (some bits, hsd) => (.yieldBackref, { hsd with outputCount := (hsd.outputCount ||| bits) + 1 })

/-- `buf[(hsd->head_index - neg_offset) & mask]` -/
def windowAt (hsd : Decoder) (negOffset : Nat) : UInt8 :=
  hsd.buffers (inputBufferSize + ((hsd.headIndex - negOffset : ℤ) % (2 ^ windowBits : ℤ)).toNat)

/-- The loop of `st_yield_backref`. -/
def emitBackref (negOffset : Nat) : Nat → Decoder → OutputInfo → Decoder × OutputInfo
  | 0, hsd, oi => (hsd, oi)
  | count + 1, hsd, oi =>
    let c := hsd.windowAt negOffset
    emitBackref negOffset count (hsd.pushWindow c) { oi with buf := oi.buf ++ [c] }

/-- `st_yield_backref` -/
def stYieldBackref (hsd : Decoder) (oi : OutputInfo) : DecoderState × Decoder × OutputInfo :=
  let room := oi.bufSize - oi.buf.length
  if 0 < room then
    let count := if hsd.outputCount < room then hsd.outputCount else room
    let (emitted, oi) := emitBackref hsd.outputIndex count hsd oi
    let emitted := { emitted with outputCount := emitted.outputCount - count }
    (if emitted.outputCount = 0 then .tagBit else .yieldBackref, emitted, oi)
  else (.yieldBackref, hsd, oi)

/-- The state in which the machine goes on. -/
def entering (p : DecoderState × Decoder) : Decoder := { p.2 with state := p.1 }

/-- The `switch` of `heatshrink_decoder_poll`. -/
def step (hsd : Decoder) (oi : OutputInfo) : Decoder × OutputInfo :=
  let writing (p : DecoderState × Decoder × OutputInfo) : Decoder × OutputInfo := (entering (p.1, p.2.1), p.2.2)
  match hsd.state with
  | .tagBit => (entering hsd.stTagBit, oi)
  | .yieldLiteral => writing (hsd.stYieldLiteral oi)
  | .backrefIndexMsb => (entering hsd.stBackrefIndexMsb, oi)
  | .backrefIndexLsb => (entering hsd.stBackrefIndexLsb, oi)
  | .backrefCountMsb => (entering hsd.stBackrefCountMsb, oi)
  | .backrefCountLsb => (entering hsd.stBackrefCountLsb, oi)
  | .yieldBackref => writing (hsd.stYieldBackref oi)

/-- One round of `heatshrink_decoder_poll`: a state that stays is one that cannot advance. -/
def pollRound (p : Decoder × OutputInfo) :
    Option (Round (Decoder × OutputInfo) (DecoderPollRes × Decoder × Bytes)) :=
  let (hsd, oi) := p.1.step p.2
  if hsd.state = p.1.state then
    some (.leave (if oi.buf.length = oi.bufSize then .more else .empty, hsd, oi.buf))
  else some (.next (hsd, oi))

/-- `heatshrink_decoder_poll`, with what it wrote. -/
def poll (fuel : Nat) (hsd : Decoder) (outBufSize : Nat) : Option (DecoderPollRes × Decoder × Bytes) :=
  loop pollRound fuel (hsd, ⟨outBufSize, []⟩)

/-- `heatshrink_decoder_finish` -/
def finish (hsd : Decoder) : DecoderFinishRes :=
  match hsd.state with
  | .yieldBackref => .more
  | _ => if hsd.inputSize = 0 then .done else .more

variable {hsd : Decoder} {p q : List Bool} {history : List UInt8} {oi : OutputInfo}

/-! ## The bits that are not read yet -/

/-- The input that was not pulled. -/
def inputBytes (hsd : Decoder) : Bytes :=
  (List.range (hsd.inputSize - hsd.inputIndex)).map fun i => hsd.buffers (hsd.inputIndex + i)

/-- The bits that `get_bits` will find. -/
structure Pending (hsd : Decoder) (p : List Bool) : Prop where
  input_fits : hsd.inputSize ≤ inputBufferSize
  index_behind : hsd.inputIndex < hsd.inputSize ∨ hsd.inputIndex = 0 ∧ hsd.inputSize = 0
  bits : ∃ left ≤ 8, hsd.bitIndex = 2 ^ left / 2 ∧ p = ofNat left hsd.currentByte.toNat ++ ofBytes hsd.inputBytes

/-- Reading input changes nothing else. -/
structure SameOutput (hsd hsd' : Decoder) : Prop where
  outputCount : hsd'.outputCount = hsd.outputCount
  outputIndex : hsd'.outputIndex = hsd.outputIndex
  headIndex : hsd'.headIndex = hsd.headIndex
  buffers : hsd'.buffers = hsd.buffers

theorem SameOutput.refl (hsd : Decoder) : SameOutput hsd hsd := ⟨rfl, rfl, rfl, rfl⟩

theorem SameOutput.trans {a b c : Decoder} (h : SameOutput a b) (h' : SameOutput b c) : SameOutput a c :=
  ⟨h'.1.trans h.1, h'.2.trans h.2, h'.3.trans h.3, h'.4.trans h.4⟩

/-- The mask is shifted out when no bits are left in the byte. -/
theorem mask_eq_zero_iff (left : Nat) : 2 ^ left / 2 = 0 ↔ left = 0 := by
  cases left with
  | zero => simp
  | succ left =>
    have := Nat.pow_pos (n := left) (show 0 < 2 by decide)
    rw [Nat.pow_succ, Nat.mul_div_cancel _ (by decide)]
    omega

/-- The mask is too low for the bits that are wanted exactly if fewer are left in the byte. -/
theorem mask_lt_iff (left count : Nat) (hcount : 0 < count) : 2 ^ left / 2 < 2 ^ (count - 1) ↔ left < count := by
  cases left with
  | zero =>
    have := Nat.pow_pos (n := count - 1) (show 0 < 2 by decide)
    simp [hcount, this]
  | succ left =>
    rw [Nat.pow_succ, Nat.mul_div_cancel _ (by decide), Nat.pow_lt_pow_iff_right (by decide)]
    omega

theorem inputBytes_of_empty (h : hsd.inputSize = 0) : hsd.inputBytes = [] := by
  simp [inputBytes, h]

/-- What is left to read is what was sunk and not read. -/
theorem inputBytes_length (hsd : Decoder) : hsd.inputBytes.length = hsd.inputSize - hsd.inputIndex := by
  simp [inputBytes]

/-- Pulling a byte reads the first of those that are left. -/
theorem inputBytes_pull (h : hsd.inputIndex < hsd.inputSize) :
    hsd.inputBytes = hsd.buffers hsd.inputIndex :: hsd.pullByte.inputBytes := by
  have hrange : hsd.inputSize - hsd.inputIndex = hsd.inputSize - (hsd.inputIndex + 1) + 1 := by omega
  unfold inputBytes pullByte
  rw [hrange, List.range_succ_eq_map, List.map_cons, List.map_map, Nat.add_zero]
  congr 1
  by_cases hlast : hsd.inputIndex + 1 = hsd.inputSize
  · simp [hlast]
  · simp only [hlast, if_false]
    exact List.map_congr_left fun i _ => congrArg hsd.buffers (by simp; omega)

theorem pullByte_sameOutput (hsd : Decoder) : SameOutput hsd hsd.pullByte := ⟨rfl, rfl, rfl, rfl⟩

/-- A new byte brings eight bits. -/
theorem Pending.pull (h : Pending hsd p) (hbits : hsd.bitIndex = 0) (hinput : hsd.inputSize ≠ 0) :
    Pending hsd.pullByte p := by
  obtain ⟨left, -, hleft, rfl⟩ := h.bits
  have hempty : left = 0 := (mask_eq_zero_iff left).mp (hleft.symm.trans hbits)
  subst hempty
  have hbehind : hsd.inputIndex < hsd.inputSize := h.index_behind.resolve_right fun h => hinput h.2
  have hfits := h.input_fits
  refine ⟨?_, ?_, 8, Nat.le_refl 8, rfl, ?_⟩
  · simp only [pullByte]
    split <;> omega
  · simp only [pullByte]
    split
    · exact .inr ⟨rfl, rfl⟩
    · exact .inl (by omega)
  · rw [inputBytes_pull hbehind, ofBytes_cons]
    rfl

/-- The next bit. -/
theorem Pending.take (h : Pending hsd p) (hbits : hsd.bitIndex ≠ 0) :
    ∃ bit q, p = bit :: q ∧ (hsd.currentByte.toNat &&& hsd.bitIndex != 0) = bit
      ∧ Pending { hsd with bitIndex := hsd.bitIndex / 2 } q := by
  obtain ⟨left, hle, hleft, rfl⟩ := h.bits
  obtain ⟨left, rfl⟩ : ∃ n, left = n + 1 :=
    Nat.exists_eq_succ_of_ne_zero fun h0 => hbits (hleft.trans ((mask_eq_zero_iff left).mpr h0))
  rw [Nat.pow_succ, Nat.mul_div_cancel _ (by decide)] at hleft
  refine ⟨hsd.currentByte.toNat.testBit left, ofNat left hsd.currentByte.toNat ++ ofBytes hsd.inputBytes, rfl, ?_,
    h.input_fits, h.index_behind, left, by omega, by rw [hleft], rfl⟩
  rw [hleft, Nat.and_two_pow]
  cases hsd.currentByte.toNat.testBit left <;> simp

/-- Bits that are there are read in order, the highest first, and nothing else changes. -/
theorem gatherBits_run {count accumulator : Nat} (h : Pending hsd p) (hcount : count ≤ p.length) :
    ∃ hsd', gatherBits count accumulator hsd = (some (valueFrom accumulator (p.take count)), hsd')
      ∧ Pending hsd' (p.drop count) ∧ SameOutput hsd hsd' := by
  induction count generalizing hsd p accumulator with
  | zero => exact ⟨hsd, rfl, h, SameOutput.refl hsd⟩
  | succ count ih =>
    have hmore : ¬(hsd.bitIndex = 0 ∧ hsd.inputSize = 0) := by
      rintro ⟨hbits, hinput⟩
      obtain ⟨left, -, hleft, rfl⟩ := h.bits
      rw [(mask_eq_zero_iff left).mp (hleft.symm.trans hbits), inputBytes_of_empty hinput] at hcount
      simp at hcount
    have hready : ∃ ready, (if hsd.bitIndex = 0 then pullByte hsd else hsd) = ready ∧ Pending ready p
        ∧ ready.bitIndex ≠ 0 ∧ SameOutput hsd ready := by
      refine ⟨_, rfl, ?_⟩
      by_cases hbits : hsd.bitIndex = 0
      · rw [if_pos hbits]
        exact ⟨h.pull hbits fun hinput => hmore ⟨hbits, hinput⟩, by simp [pullByte], pullByte_sameOutput hsd⟩
      · rw [if_neg hbits]
        exact ⟨h, hbits, SameOutput.refl hsd⟩
    obtain ⟨ready, heq, hpending, hbits, hsame⟩ := hready
    obtain ⟨bit, q, rfl, hbit, hq⟩ := hpending.take hbits
    obtain ⟨hsd', hrun, hrest, hsame'⟩ :=
      @ih { ready with bitIndex := ready.bitIndex / 2 } q (2 * accumulator + bit.toNat) hq (by simpa using hcount)
    refine ⟨hsd', ?_, hrest, hsame.trans ⟨hsame'.1, hsame'.2, hsame'.3, hsame'.4⟩⟩
    rw [gatherBits, if_neg hmore]
    simp only [heq, hbit, hrun, List.take_succ_cons, valueFrom_cons]

/-- As many bits as were asked for, or none where there are fewer. A phrase's field has at most eight bits, so that
one more byte of input is always enough. -/
theorem getBits_run (h : Pending hsd p) (count : Nat) (hpos : 0 < count) (hcount : count ≤ 8) :
    (p.length < count ∧ hsd.inputSize = 0 ∧ hsd.getBits count = (none, hsd))
      ∨ count ≤ p.length ∧ ∃ hsd', hsd.getBits count = (some (value (p.take count)), hsd')
          ∧ Pending hsd' (p.drop count) ∧ SameOutput hsd hsd' := by
  unfold getBits
  rw [if_neg (by omega)]
  by_cases hshort : hsd.inputSize = 0 ∧ hsd.bitIndex < 2 ^ (count - 1)
  · obtain ⟨left, -, hleft, rfl⟩ := h.bits
    rw [if_pos hshort]
    refine .inl ⟨?_, hshort.1, rfl⟩
    rw [hleft, mask_lt_iff left count hpos] at hshort
    rw [inputBytes_of_empty hshort.1]
    simpa using hshort.2
  · have hlen : count ≤ p.length := by
      obtain ⟨left, -, hleft, rfl⟩ := h.bits
      rw [hleft, mask_lt_iff left count hpos] at hshort
      rw [List.length_append, ofNat_length, ofBytes_length, inputBytes_length]
      have := h.index_behind
      omega
    rw [if_neg hshort]
    exact .inr ⟨hlen, gatherBits_run h hlen⟩

/-! ## The window -/

/-- What the window has of the text written so far. -/
def Window (hsd : Decoder) (history : List UInt8) : Prop :=
  ∀ d, 1 ≤ d → d ≤ 2 ^ windowBits → hsd.windowAt d = back history d

/-- The window is part of the output side, which reading does not touch. -/
theorem Window.congr {hsd' : Decoder} (h : Window hsd history) (hsame : SameOutput hsd hsd') : Window hsd' history := by
  intro d hd hle
  rw [← h d hd hle, windowAt, windowAt, hsame.headIndex, hsame.buffers]

/-- Behind a byte that is pushed the window is one place further back. -/
theorem windowAt_pushWindow (hsd : Decoder) (c : UInt8) (d : Nat) (hd : 1 ≤ d) (hle : d ≤ 2 ^ windowBits) :
    (hsd.pushWindow c).windowAt d = if d = 1 then c else hsd.windowAt (d - 1) := by
  simp only [windowBits] at hle
  -- the head starts again from zero at a multiple of the size of the window
  have hplace : ((((hsd.headIndex + 1) % 2 ^ 16 : Nat) : ℤ) - d) % 2 ^ 9
      = ((hsd.headIndex : ℤ) - (d - 1 : Nat)) % 2 ^ 9 := by
    omega
  simp only [windowAt, pushWindow, Function.update_apply, inputBufferSize, windowBits, hplace]
  by_cases h1 : d = 1
  · subst h1
    rw [if_pos (by omega), if_pos rfl]
  · rw [if_neg (by omega), if_neg h1]

/-- The byte that is pushed is the last one of the history. -/
theorem Window.push (h : Window hsd history) (c : UInt8) : Window (hsd.pushWindow c) (c :: history) := by
  intro d hd hle
  rw [windowAt_pushWindow hsd c d hd hle]
  by_cases h1 : d = 1
  · subst h1
    rfl
  · obtain ⟨d, rfl⟩ : ∃ n, d = n + 2 := ⟨d - 2, by omega⟩
    rw [if_neg h1, show d + 2 - 1 = d + 1 by omega, h (d + 1) (by omega) (by omega)]
    rfl

/-- The window lies behind the input buffer. -/
theorem Pending.pushWindow (h : Pending hsd p) (c : UInt8) : Pending (hsd.pushWindow c) p := by
  obtain ⟨left, hle, hleft, rfl⟩ := h.bits
  have hsame : (hsd.pushWindow c).inputBytes = hsd.inputBytes := by
    refine List.map_congr_left fun i hi => ?_
    have hfits := h.input_fits
    have hbehind := h.index_behind
    simp only [List.mem_range, Decoder.pushWindow] at hi
    simp only [Decoder.pushWindow, Function.update_apply]
    rw [if_neg (by omega)]
  exact ⟨h.input_fits, h.index_behind, left, hle, hleft, by rw [hsame]; rfl⟩

/-! ## The outlook -/

/-- What the decoder is going to write of `p`, the bits that it has not read. -/
def outlook (hsd : Decoder) (history : List UInt8) (p : List Bool) : List UInt8 :=
  match hsd.state with
  | .tagBit => expand windowBits lookaheadBits history p
  | .yieldLiteral => expand windowBits lookaheadBits history (true :: p)
  | .backrefIndexMsb => expand windowBits lookaheadBits history (false :: p)
  | .backrefIndexLsb =>
    expand windowBits lookaheadBits history (false :: (ofNat (windowBits - 8) (hsd.outputIndex / 2 ^ 8) ++ p))
  | .backrefCountMsb => []
  | .backrefCountLsb =>
    expand windowBits lookaheadBits history (false :: (ofNat windowBits (hsd.outputIndex - 1) ++ p))
  | .yieldBackref =>
    let text := copy history hsd.outputIndex hsd.outputCount
    text ++ expand windowBits lookaheadBits (text.reverse ++ history) p

/-- What the fields hold in each state. -/
def Ready (hsd : Decoder) : Prop :=
  match hsd.state with
  | .backrefIndexLsb => hsd.outputIndex % 2 ^ 8 = 0 ∧ hsd.outputIndex < 2 ^ windowBits
  | .backrefCountMsb => False
  | .backrefCountLsb => 1 ≤ hsd.outputIndex ∧ hsd.outputIndex ≤ 2 ^ windowBits ∧ hsd.outputCount = 0
  | .yieldBackref => 1 ≤ hsd.outputIndex ∧ hsd.outputIndex ≤ 2 ^ windowBits ∧ 1 ≤ hsd.outputCount
  | _ => True

/-- A decoder that has written the history and has the bits `p` before it. -/
structure Decodes (hsd : Decoder) (history : List UInt8) (p : List Bool) : Prop where
  pending : Pending hsd p
  window : Window hsd history
  ready : Ready hsd

/-- A machine that was reset knows no text and has no bits. -/
theorem decodes_reset : Decodes reset [] [] := by
  refine ⟨⟨Nat.zero_le _, .inr ⟨rfl, rfl⟩, 0, Nat.zero_le _, rfl, rfl⟩, fun d _ _ => rfl, trivial⟩

/-- `hsd` has come to `hsd'`, writing `text` on the way. -/
structure Writes (hsd : Decoder) (history : List UInt8) (p : List Bool) (text : List UInt8) (hsd' : Decoder)
    (q : List Bool) : Prop where
  decodes : Decodes hsd' (text.reverse ++ history) q
  outlook : ∀ more, hsd.outlook history (p ++ more) = text ++ hsd'.outlook (text.reverse ++ history) (q ++ more)

theorem Writes.refl (h : Decodes hsd history p) : Writes hsd history p [] hsd p := ⟨h, fun _ => rfl⟩

/-- Two stretches that write, one after the other, write the two texts one behind the other. -/
theorem Writes.trans {a b c : Decoder} {p q r : List Bool} {x y : List UInt8} (h : Writes a history p x b q)
    (h' : Writes b (x.reverse ++ history) q y c r) : Writes a history p (x ++ y) c r := by
  have hrev : (x ++ y).reverse ++ history = y.reverse ++ (x.reverse ++ history) := by
    rw [List.reverse_append, List.append_assoc]
  refine ⟨hrev ▸ h'.decodes, fun more => ?_⟩
  rw [h.outlook, h'.outlook, hrev, List.append_assoc]

/-! ## What a step does -/

/-- No more can be written without more input. -/
structure Blocked (hsd : Decoder) (history : List UInt8) (p : List Bool) : Prop where
  input_used : hsd.inputSize = 0
  not_yielding : hsd.state ≠ .yieldBackref
  outlook_nil : hsd.outlook history p = []

/-- What a step uses up. -/
def weight (hsd : Decoder) (p : List Bool) : Nat := 2 * p.length + if hsd.state = .yieldBackref then 1 else 0

/-- A step that only reads. -/
def Reads (hsd : Decoder) (history : List UInt8) (p : List Bool) (hsd' : Decoder) : Prop :=
  hsd' = hsd ∧ Blocked hsd history p
    ∨ ∃ q, Writes hsd history p [] hsd' q ∧ hsd'.state ≠ hsd.state ∧ weight hsd' q < weight hsd p

/-- Reading bits makes the work that is left smaller, unless a reference is being written. -/
theorem weight_lt {hsd' : Decoder} {count : Nat} (hpos : 0 < count) (hcount : count ≤ p.length)
    (hstate : hsd.state ≠ .yieldBackref) : weight hsd' (p.drop count) < weight hsd p := by
  unfold weight
  rw [if_neg hstate, List.length_drop]
  split <;> omega

/-- A field is read when its bits are there. -/
theorem Decodes.reads_field (h : Decodes hsd history p) (count : Nat) (next : Nat → Decoder → DecoderState × Decoder)
    (hpos : 0 < count) (hcount : count ≤ 8) (hstate : hsd.state ≠ .yieldBackref)
    (hshort : p.length < count → hsd.outlook history p = [])
    (hnext : ∀ hsd', Pending hsd' (p.drop count) → SameOutput hsd hsd' → count ≤ p.length →
      let moved := entering (next (value (p.take count)) hsd')
      Writes hsd history p [] moved (p.drop count) ∧ moved.state ≠ hsd.state) :
    Reads hsd history p (entering (match hsd.getBits count with
      | (none, hsd') => (hsd.state, hsd')
      | (some bits, hsd') => next bits hsd')) := by
  rcases getBits_run h.pending count hpos hcount with ⟨hlen, hinput, hrun⟩ | ⟨hlen, hsd', hrun, hpending, hsame⟩
  · rw [hrun]
    exact .inl ⟨rfl, hinput, hstate, hshort hlen⟩
  · rw [hrun]
    obtain ⟨hwrites, hmoved⟩ := hnext hsd' hpending hsame hlen
    exact .inr ⟨p.drop count, hwrites, hmoved, weight_lt hpos hlen hstate⟩

/-- The tag bit is read when it is there, and the machine waits otherwise. -/
theorem stTagBit_reads (h : Decodes hsd history p) (hstate : hsd.state = .tagBit) :
    Reads hsd history p (entering hsd.stTagBit) := by
  have hreads := h.reads_field 1
    (fun bits hsd' => if bits ≠ 0 then (.yieldLiteral, hsd') else (.backrefIndexMsb, hsd'))
    (by decide) (by decide) (by rw [hstate]; decide) ?short ?next
  case short =>
    intro hlen
    obtain rfl : p = [] := List.length_eq_zero_iff.mp (by omega)
    rw [outlook, hstate]
    exact expand_of_none rfl
  case next =>
    intro hsd' hpending hsame hlen
    have hwindow := h.window.congr hsame
    obtain ⟨bit, q, rfl⟩ := List.exists_cons_of_length_pos hlen
    cases bit with
    | true =>
      refine ⟨⟨⟨⟨hpending.1, hpending.2, hpending.3⟩, hwindow, trivial⟩, fun more => ?_⟩, ?_⟩
      · rw [outlook, hstate]
        rfl
      · rw [hstate]
        exact DecoderState.noConfusion
    | false =>
      refine ⟨⟨⟨⟨hpending.1, hpending.2, hpending.3⟩, hwindow, trivial⟩, fun more => ?_⟩, ?_⟩
      · rw [outlook, hstate]
        rfl
      · rw [hstate]
        exact DecoderState.noConfusion
  rw [hstate] at hreads
  exact hreads

/-- The high part of a distance is read when all its bits are there. -/
theorem stBackrefIndexMsb_reads (h : Decodes hsd history p) (hstate : hsd.state = .backrefIndexMsb) :
    Reads hsd history p (entering hsd.stBackrefIndexMsb) := by
  have hreads := h.reads_field 1
    (fun bits hsd' => (.backrefIndexLsb, { hsd' with outputIndex := bits <<< 8 }))
    (by decide) (by decide) (by rw [hstate]; decide) ?short ?next
  case short =>
    intro hlen
    rw [outlook, hstate]
    exact expand_of_none (readPhrase_of_short_backref (by simp only [windowBits, lookaheadBits]; omega))
  case next =>
    intro hsd' hpending hsame hlen
    have hwindow := h.window.congr hsame
    have hlt := value_take_lt 1 p
    have hindex : value (p.take 1) <<< 8 / 2 ^ 8 = value (p.take 1) := by rw [Nat.shiftLeft_eq]; omega
    refine ⟨⟨⟨⟨hpending.1, hpending.2, hpending.3⟩, hwindow, ?_⟩, fun more => ?_⟩, ?_⟩
    · show value (p.take 1) <<< 8 % 2 ^ 8 = 0 ∧ value (p.take 1) <<< 8 < 2 ^ 9
      rw [Nat.shiftLeft_eq]
      omega
    · rw [outlook, hstate]
      show expand windowBits lookaheadBits history (false :: (p ++ more))
        = expand windowBits lookaheadBits history
            (false :: (ofNat 1 (value (p.take 1) <<< 8 / 2 ^ 8) ++ (p.drop 1 ++ more)))
      rw [hindex, ofNat_value_take hlen, ← List.append_assoc, List.take_append_drop]
    · rw [hstate]
      exact DecoderState.noConfusion
  rw [hstate] at hreads
  exact hreads

/-- The low byte of a distance goes below the high one. -/
theorem index_or {index bits : Nat} (hindex : index % 2 ^ 8 = 0) (hbits : bits < 2 ^ 8) :
    index ||| bits = index + bits := by
  obtain ⟨m, rfl⟩ : ∃ m, index = 2 ^ 8 * m := ⟨index / 2 ^ 8, by omega⟩
  exact (Nat.two_pow_add_eq_or_of_lt hbits m).symm

/-- The low part of a distance is read when all its bits are there. -/
theorem stBackrefIndexLsb_reads (h : Decodes hsd history p) (hstate : hsd.state = .backrefIndexLsb) :
    Reads hsd history p (entering hsd.stBackrefIndexLsb) := by
  obtain ⟨hindex, hsmall⟩ : hsd.outputIndex % 2 ^ 8 = 0 ∧ hsd.outputIndex < 2 ^ windowBits := by
    have := h.ready
    rwa [Ready, hstate] at this
  have hreads := h.reads_field 8
    (fun bits hsd' =>
      (.backrefCountLsb, { hsd' with outputIndex := (hsd'.outputIndex ||| bits) + 1, outputCount := 0 }))
    (by decide) (by decide) (by rw [hstate]; decide) ?short ?next
  case short =>
    intro hlen
    rw [outlook, hstate]
    exact expand_of_none (readPhrase_of_short_backref
      (by simp only [windowBits, lookaheadBits, List.length_append, ofNat_length]; omega))
  case next =>
    intro hsd' hpending hsame hlen
    have hwindow := h.window.congr hsame
    have hlt := value_take_lt 8 p
    have hor : hsd'.outputIndex ||| value (p.take 8) = hsd.outputIndex + value (p.take 8) := by
      rw [hsame.outputIndex, index_or hindex hlt]
    have hhigh : (hsd.outputIndex + value (p.take 8)) / 2 ^ 8 = hsd.outputIndex / 2 ^ 8 := by omega
    have hlow : (hsd.outputIndex + value (p.take 8)) % 2 ^ 8 = value (p.take 8) := by omega
    refine ⟨⟨⟨⟨hpending.1, hpending.2, hpending.3⟩, hwindow, ?_⟩, fun more => ?_⟩, ?_⟩
    · show 1 ≤ (hsd'.outputIndex ||| value (p.take 8)) + 1
        ∧ (hsd'.outputIndex ||| value (p.take 8)) + 1 ≤ 2 ^ 9 ∧ 0 = 0
      simp only [windowBits] at hsmall
      rw [hor]
      omega
    · rw [outlook, hstate]
      show expand windowBits lookaheadBits history (false :: (ofNat 1 (hsd.outputIndex / 2 ^ 8) ++ (p ++ more)))
        = expand windowBits lookaheadBits history
            (false :: (ofNat (1 + 8) (hsd'.outputIndex ||| value (p.take 8)) ++ (p.drop 8 ++ more)))
      rw [hor, ofNat_add, hhigh, ← ofNat_mod 8, hlow, ofNat_value_take hlen, List.append_assoc,
        ← List.append_assoc (p.take 8), List.take_append_drop]
    · rw [hstate]
      exact DecoderState.noConfusion
  rw [hstate] at hreads
  exact hreads

/-- The length of a reference is read when all its bits are there. -/
theorem stBackrefCountLsb_reads (h : Decodes hsd history p) (hstate : hsd.state = .backrefCountLsb) :
    Reads hsd history p (entering hsd.stBackrefCountLsb) := by
  obtain ⟨hpos, hsmall, hcount⟩ : 1 ≤ hsd.outputIndex ∧ hsd.outputIndex ≤ 2 ^ windowBits ∧ hsd.outputCount = 0 := by
    have := h.ready
    rwa [Ready, hstate] at this
  have hreads := h.reads_field 4
    (fun bits hsd' => (.yieldBackref, { hsd' with outputCount := (hsd'.outputCount ||| bits) + 1 }))
    (by decide) (by decide) (by rw [hstate]; decide) ?short ?next
  case short =>
    intro hlen
    rw [outlook, hstate]
    exact expand_of_none (readPhrase_of_short_backref
      (by simp only [windowBits, lookaheadBits, List.length_append, ofNat_length]; omega))
  case next =>
    intro hsd' hpending hsame hlen
    have hwindow := h.window.congr hsame
    have hlt := value_take_lt 4 p
    have hor : hsd'.outputCount ||| value (p.take 4) = value (p.take 4) := by
      rw [hsame.outputCount, hcount, Nat.zero_or]
    refine ⟨⟨⟨⟨hpending.1, hpending.2, hpending.3⟩, hwindow, ?_⟩, fun more => ?_⟩, ?_⟩
    · show 1 ≤ hsd'.outputIndex ∧ hsd'.outputIndex ≤ 2 ^ windowBits ∧ 1 ≤ (hsd'.outputCount ||| value (p.take 4)) + 1
      rw [hsame.outputIndex]
      exact ⟨hpos, hsmall, Nat.le_add_left 1 _⟩
    · have htells := @Tells.phrase windowBits lookaheadBits history
        (.backref hsd.outputIndex (value (p.take 4) + 1)) ⟨hpos, hsmall, Nat.le_add_left 1 _, hlt⟩ (p.drop 4 ++ more)
      rw [outlook, hstate]
      show expand windowBits lookaheadBits history (false :: (ofNat windowBits (hsd.outputIndex - 1) ++ (p ++ more)))
        = copy history hsd'.outputIndex ((hsd'.outputCount ||| value (p.take 4)) + 1)
          ++ expand windowBits lookaheadBits
              ((copy history hsd'.outputIndex ((hsd'.outputCount ||| value (p.take 4)) + 1)).reverse ++ history)
              (p.drop 4 ++ more)
      rw [hor, hsame.outputIndex]
      refine Eq.trans ?_ htells
      rw [Phrase.code, Nat.add_sub_cancel, ofNat_value_take hlen, List.cons_append, List.append_assoc,
        ← List.append_assoc (p.take 4), List.take_append_drop]
    · rw [hstate]
      exact DecoderState.noConfusion
  rw [hstate] at hreads
  exact hreads

/-- Writing a reference copies from the window byte by byte, also where it reaches into what it writes itself. -/
theorem emitBackref_run (hpending : Pending hsd p) (hwindow : Window hsd history) {negOffset : Nat}
    (hpos : 1 ≤ negOffset) (hle : negOffset ≤ 2 ^ windowBits) (count : Nat) (oi : OutputInfo) :
    ∃ hsd', emitBackref negOffset count hsd oi = (hsd', { oi with buf := oi.buf ++ copy history negOffset count })
      ∧ Pending hsd' p ∧ Window hsd' ((copy history negOffset count).reverse ++ history)
      ∧ hsd'.outputCount = hsd.outputCount ∧ hsd'.outputIndex = hsd.outputIndex := by
  induction count generalizing hsd history oi with
  | zero => exact ⟨hsd, by simp [emitBackref, copy], hpending, hwindow, rfl, rfl⟩
  | succ count ih =>
    have hc : hsd.windowAt negOffset = back history negOffset := hwindow negOffset hpos hle
    obtain ⟨hsd', hrun, hpending', hwindow', hcount, hindex⟩ :=
      ih (hpending.pushWindow (back history negOffset)) (hwindow.push (back history negOffset))
        { oi with buf := oi.buf ++ [back history negOffset] }
    refine ⟨hsd', ?_, hpending', ?_, hcount, hindex⟩
    · rw [emitBackref, hc, hrun, copy, List.append_assoc]
      rfl
    · rw [copy, List.reverse_cons, List.append_assoc]
      exact hwindow'

/-- A step that may write: what it wrote fits, and if it stays where it was it has filled the buffer or is blocked. -/
def Advances (hsd : Decoder) (history : List UInt8) (p : List Bool) (oi : OutputInfo) (r : Decoder × OutputInfo) :
    Prop :=
  ∃ text q, r.2 = { oi with buf := oi.buf ++ text } ∧ (oi.buf ++ text).length ≤ oi.bufSize
    ∧ Writes hsd history p text r.1 q
    ∧ (r.1.state = hsd.state → (oi.buf ++ text).length = oi.bufSize ∨ Blocked r.1 (text.reverse ++ history) q)
    ∧ (r.1.state ≠ hsd.state → weight r.1 q < weight hsd p)

/-- A step that reads advances the machine without output. -/
theorem Reads.advances {hsd' : Decoder} (h : Decodes hsd history p) (hreads : Reads hsd history p hsd')
    (hroom : oi.buf.length ≤ oi.bufSize) : Advances hsd history p oi (hsd', oi) := by
  rcases hreads with ⟨rfl, hblocked⟩ | ⟨q, hwrites, hmoved, hweight⟩
  · exact ⟨[], p, by simp, by simpa using hroom, Writes.refl h, fun _ => .inr hblocked, fun hne => absurd rfl hne⟩
  · exact ⟨[], q, by simp, by simpa using hroom, hwrites, fun heq => absurd heq hmoved, fun _ => hweight⟩

/-- A literal is written when there is room for it, and its bits are read before that. -/
theorem stYieldLiteral_advances (h : Decodes hsd history p) (hstate : hsd.state = .yieldLiteral)
    (hroom : oi.buf.length ≤ oi.bufSize) :
    Advances hsd history p oi (entering ((hsd.stYieldLiteral oi).1, (hsd.stYieldLiteral oi).2.1),
      (hsd.stYieldLiteral oi).2.2) := by
  unfold stYieldLiteral
  by_cases hfree : oi.buf.length < oi.bufSize
  · rw [if_pos hfree]
    rcases getBits_run h.pending 8 (by decide) (by decide) with
      ⟨hlen, hinput, hrun⟩ | ⟨hlen, hsd', hrun, hpending, hsame⟩
    · have hblocked : Blocked hsd history p := by
        refine ⟨hinput, by rw [hstate]; decide, ?_⟩
        rw [outlook, hstate]
        exact expand_of_none (readPhrase_of_short_literal hlen)
      rw [hrun]
      show Advances hsd history p oi (entering (.yieldLiteral, hsd), oi)
      rw [← hstate]
      exact Reads.advances h (.inl ⟨rfl, hblocked⟩) hroom
    · have hwindow := h.window.congr hsame
      have hlt := value_take_lt 8 p
      have hc : (UInt8.ofNat (value (p.take 8))).toNat = value (p.take 8) := by
        rw [UInt8.toNat_ofNat', Nat.mod_eq_of_lt hlt]
      rw [hrun]
      refine ⟨[UInt8.ofNat (value (p.take 8))], p.drop 8, rfl, ?_, ⟨⟨?_, ?_, trivial⟩, fun more => ?_⟩, ?_, fun _ => ?_⟩
      · rw [List.length_append, List.length_singleton]
        exact hfree
      · have := hpending.pushWindow (UInt8.ofNat (value (p.take 8)))
        exact ⟨this.1, this.2, this.3⟩
      · exact hwindow.push _
      · have htells := @Tells.phrase windowBits lookaheadBits history
          (.literal (UInt8.ofNat (value (p.take 8)))) trivial (p.drop 8 ++ more)
        rw [Phrase.code, hc, ofNat_value_take hlen, List.cons_append, ← List.append_assoc, List.take_append_drop] at htells
        rw [outlook, hstate]
        exact htells
      · intro hsame
        rw [hstate] at hsame
        cases hsame
      · exact weight_lt (by decide) hlen (by rw [hstate]; decide)
  · rw [if_neg hfree]
    show Advances hsd history p oi (entering (.yieldLiteral, hsd), oi)
    rw [← hstate]
    refine ⟨[], p, by simp, by simpa using hroom, Writes.refl h, fun _ => .inl ?_, fun hne => absurd rfl hne⟩
    rw [List.append_nil]
    omega

/-- A reference is written as far as there is room, and the rest of it stays to be written. -/
theorem stYieldBackref_advances (h : Decodes hsd history p) (hstate : hsd.state = .yieldBackref)
    (hroom : oi.buf.length ≤ oi.bufSize) :
    Advances hsd history p oi (entering ((hsd.stYieldBackref oi).1, (hsd.stYieldBackref oi).2.1),
      (hsd.stYieldBackref oi).2.2) := by
  obtain ⟨hpos, hsmall, hcount⟩ : 1 ≤ hsd.outputIndex ∧ hsd.outputIndex ≤ 2 ^ windowBits ∧ 1 ≤ hsd.outputCount := by
    have := h.ready
    rwa [Ready, hstate] at this
  unfold stYieldBackref
  by_cases hfree : 0 < oi.bufSize - oi.buf.length
  · simp only [if_pos hfree]
    generalize hn : (if hsd.outputCount < oi.bufSize - oi.buf.length then hsd.outputCount
      else oi.bufSize - oi.buf.length) = n
    obtain ⟨hsd', hrun, hpending, hwindow, hcount', hindex⟩ := emitBackref_run h.pending h.window hpos hsmall n oi
    have hlen := copy_length history hsd.outputIndex n
    have hfits : (oi.buf ++ copy history hsd.outputIndex n).length ≤ oi.bufSize := by
      rw [List.length_append, hlen]
      split_ifs at hn <;> omega
    have hadd : copy history hsd.outputIndex hsd.outputCount = copy history hsd.outputIndex n
        ++ copy ((copy history hsd.outputIndex n).reverse ++ history) hsd.outputIndex (hsd.outputCount - n) := by
      rw [← copy_add]
      congr 1
      split_ifs at hn <;> omega
    rw [hrun]
    simp only [hcount']
    by_cases hall : hsd.outputCount - n = 0
    · rw [if_pos hall]
      rw [hall, copy, List.append_nil] at hadd
      refine ⟨_, p, rfl, hfits, ⟨⟨⟨hpending.1, hpending.2, hpending.3⟩, hwindow, trivial⟩, fun more => ?_⟩, ?_, fun _ => ?_⟩
      · rw [outlook, hstate]
        simp only [hadd]
        rfl
      · intro hsame
        rw [hstate] at hsame
        cases hsame
      · rw [weight, weight, hstate]
        exact Nat.lt_succ_self _
    · rw [if_neg hall]
      refine ⟨_, p, rfl, hfits, ⟨⟨⟨hpending.1, hpending.2, hpending.3⟩, hwindow, ?_⟩, fun more => ?_⟩,
        fun _ => .inl ?_, fun hne => absurd hstate.symm hne⟩
      · exact ⟨hindex ▸ hpos, hindex ▸ hsmall, Nat.pos_of_ne_zero hall⟩
      · rw [outlook, hstate]
        simp only [hadd, outlook, entering, hindex, List.reverse_append, List.append_assoc]
      · rw [List.length_append, hlen]
        split_ifs at hn <;> omega
  · simp only [if_neg hfree]
    show Advances hsd history p oi (entering (.yieldBackref, hsd), oi)
    rw [← hstate]
    refine ⟨[], p, by simp, by simpa using hroom, Writes.refl h, fun _ => .inl ?_, fun hne => absurd rfl hne⟩
    rw [List.append_nil]
    omega

/-- A step writes the beginning of the outlook and leaves the rest. -/
theorem step_advances (h : Decodes hsd history p) (hroom : oi.buf.length ≤ oi.bufSize) :
    Advances hsd history p oi (hsd.step oi) := by
  unfold step
  match hstate : hsd.state with
  | .tagBit => exact (stTagBit_reads h hstate).advances h hroom
  | .yieldLiteral => exact stYieldLiteral_advances h hstate hroom
  | .backrefIndexMsb => exact (stBackrefIndexMsb_reads h hstate).advances h hroom
  | .backrefIndexLsb => exact (stBackrefIndexLsb_reads h hstate).advances h hroom
  | .backrefCountMsb =>
    have hready := h.ready
    rw [Ready, hstate] at hready
    exact hready.elim
  | .backrefCountLsb => exact (stBackrefCountLsb_reads h hstate).advances h hroom
  | .yieldBackref => exact stYieldBackref_advances h hstate hroom

/-! ## Polls and sinks -/

/-- What `poll` answers: it fills the buffer, or all that the input is enough for is written. -/
structure Polled (hsd : Decoder) (history : List UInt8) (p : List Bool) (size : Nat) (r : DecoderPollRes × Decoder × Bytes)
    (q : List Bool) : Prop where
  fits : r.2.2.length ≤ size
  writes : Writes hsd history p r.2.2 r.2.1 q
  more : r.1 = .more → r.2.2.length = size
  empty : r.1 = .empty → Blocked r.2.1 (r.2.2.reverse ++ history) q

/-- Every poll comes back. -/
theorem poll_yields (h : Decodes hsd history p) (size : Nat) :
    ∃ r, Yields (fun fuel => poll fuel hsd size) r ∧ ∃ q, Polled hsd history p size r q := by
  refine Yields.loop (g := fun _ => pollRound) (m := weight hsd p)
    (I := fun m s => s.2.bufSize = size ∧ s.2.buf.length ≤ size
      ∧ ∃ q, Writes hsd history p s.2.buf s.1 q ∧ weight s.1 q = m) ?round
    ⟨rfl, Nat.zero_le _, p, Writes.refl h, rfl⟩
  case round =>
    rintro m ⟨now, oi⟩ ⟨rfl, hroom, q, hwrites, rfl⟩
    obtain ⟨text, rest, hout, hfits, hstep, hstays, hmoves⟩ := step_advances hwrites.decodes hroom
    have hall := hwrites.trans hstep
    by_cases hsame : (now.step oi).1.state = now.state
    · refine ⟨.leave (if (oi.buf ++ text).length = oi.bufSize then .more else .empty, (now.step oi).1, oi.buf ++ text),
        Yields.of_forall fun _ => ?_, rest, hfits, hall, fun hmore => ?_, fun hempty => ?_⟩
      · simp only [pollRound, hout]
        rw [if_pos hsame]
      · by_contra hne
        simp only [if_neg hne] at hmore
        cases hmore
      · have hne : (oi.buf ++ text).length ≠ oi.bufSize := fun heq => by
          simp only [if_pos heq] at hempty
          cases hempty
        have hblocked := (hstays hsame).resolve_left hne
        rwa [← List.append_assoc, ← List.reverse_append] at hblocked
    · refine ⟨.next ((now.step oi).1, { oi with buf := oi.buf ++ text }), Yields.of_forall fun _ => ?_,
        weight (now.step oi).1 rest, hmoves hsame, rfl, hfits, rest, hall, rfl⟩
      simp only [pollRound, hout]
      rw [if_neg hsame]

/-- A machine that is blocked with less than a phrase of bits answers that it is done. -/
theorem Blocked.finish {hsd : Decoder} (h : Blocked hsd history p) : hsd.finish = .done := by
  have hstate := h.not_yielding
  unfold Decoder.finish
  split
  · rename_i heq
    exact absurd heq hstate
  · rw [if_pos h.input_used]

/-- How much a sink takes. -/
def room (hsd : Decoder) : Nat := inputBufferSize - hsd.inputSize

/-- Bytes that are sunk are read behind those that were left. -/
theorem sink_inputBytes (h : Pending hsd p) {inBuf : Bytes} {size : Nat}
    (hsize : size = min (inputBufferSize - hsd.inputSize) inBuf.length) :
    inputBytes { hsd with
      buffers := fun i =>
        if hsd.inputSize ≤ i ∧ i < hsd.inputSize + size then inBuf.byte (i - hsd.inputSize) else hsd.buffers i
      inputSize := hsd.inputSize + size } = hsd.inputBytes ++ inBuf.take size := by
  have hbehind := h.index_behind
  have hcount : hsd.inputSize + size - hsd.inputIndex = (hsd.inputSize - hsd.inputIndex) + size := by omega
  have htake : (List.range size).map inBuf.byte = inBuf.take size := by
    refine List.ext_getElem (by simp; omega) fun i hi _ => ?_
    rw [List.length_map, List.length_range] at hi
    rw [List.getElem_map, List.getElem_range, List.getElem_take, Bytes.byte, List.getD_eq_getElem _ _ (by omega)]
  simp only [inputBytes]
  rw [hcount, List.range_add, List.map_append, List.map_map, ← htake]
  congr 1
  · refine List.map_congr_left fun i hi => ?_
    rw [List.mem_range] at hi
    rw [if_neg (by omega)]
  · refine List.map_congr_left fun i hi => ?_
    rw [List.mem_range] at hi
    simp only [Function.comp_apply]
    rw [if_pos (by omega)]
    congr 1
    omega

/-- What is sunk lies behind the bits that are not read yet. -/
theorem sink_decodes (h : Decodes hsd history p) (inBuf : Bytes) :
    (hsd.sink inBuf).2.1 = min hsd.room inBuf.length
      ∧ Decodes (hsd.sink inBuf).2.2 history (p ++ ofBytes (inBuf.take (hsd.sink inBuf).2.1))
      ∧ ∀ q, (hsd.sink inBuf).2.2.outlook history q = hsd.outlook history q := by
  unfold sink room
  by_cases hfull : inputBufferSize - hsd.inputSize = 0
  · rw [if_pos hfull]
    exact ⟨by simp [hfull], by simpa using h, fun _ => rfl⟩
  · rw [if_neg hfull]
    generalize hsize : (if inputBufferSize - hsd.inputSize < inBuf.length then inputBufferSize - hsd.inputSize
      else inBuf.length) = size
    have hmin : size = min (inputBufferSize - hsd.inputSize) inBuf.length := by
      rw [← hsize]
      split_ifs <;> omega
    obtain ⟨left, hle, hleft, hp⟩ := h.pending.bits
    have hfits := h.pending.input_fits
    have hbehind := h.pending.index_behind
    refine ⟨hmin, ⟨⟨?_, ?_, left, hle, hleft, ?_⟩, ?_, h.ready⟩, fun _ => rfl⟩
    · show hsd.inputSize + size ≤ inputBufferSize
      omega
    · show hsd.inputIndex < hsd.inputSize + size ∨ hsd.inputIndex = 0 ∧ hsd.inputSize + size = 0
      omega
    · rw [hp, List.append_assoc, ← ofBytes_append]
      congr 2
      exact (sink_inputBytes h.pending hmin).symm
    · intro d hd hwide
      rw [← h.window d hd hwide, windowAt, windowAt]
      exact if_neg (by simp only [inputBufferSize] at *; omega)

end Decoder

end MicroReticulum.Heatshrink
