import MicroReticulum.Utilities.HeatshrinkDecoder

/-!
# The compressor

`heatshrink_encoder.c` in the static configuration of the source. Its buffer has two halves: the input that is being
compressed lies in the second and what was compressed before it in the first. `useIndex` stands for
`HEATSHRINK_USE_INDEX`: with it, each position of the buffer knows where its byte was before, and a search follows
these links where it would otherwise try every position.
-/

namespace MicroReticulum.Heatshrink

open Library Library.BitStream Library.Lzss

/-- `HSE_state` -/
inductive EncoderState where
  | notFull
  | filled
  | search
  | yieldTagBit
  | yieldLiteral
  | yieldBrIndex
  | yieldBrLength
  | saveBacklog
  | flushBits
  | done
  deriving DecidableEq, Repr

/-- `heatshrink_encoder` -/
structure Encoder where
  inputSize : Nat
  matchScanIndex : Nat
  matchLength : Nat
  matchPos : Nat
  outgoingBits : Nat
  outgoingBitsCount : Nat
  /-- `FLAG_IS_FINISHING`, the only flag. -/
  isFinishing : Bool
  state : EncoderState
  currentByte : Nat
  /-- The mask of the next bit of `currentByte`. -/
  bitIndex : Nat
  searchIndex : Nat → ℤ
  buffer : Nat → UInt8

/-- `HSE_sink_res` -/
inductive EncoderSinkRes where
  | ok
  | errorMisuse
  deriving DecidableEq, Repr

/-- `HSE_poll_res` -/
inductive EncoderPollRes where
  | empty
  | more
  | errorMisuse
  deriving DecidableEq, Repr

/-- `HSE_finish_res` -/
inductive EncoderFinishRes where
  | done
  | more
  deriving DecidableEq, Repr

namespace Encoder

/-- `get_input_buffer_size`, also `get_input_offset` -/
abbrev inputBufferSize : Nat := 2 ^ windowBits

/-- `get_lookahead_size` -/
abbrev lookaheadSize : Nat := 2 ^ lookaheadBits

/-- `heatshrink_encoder_reset` of whatever was in memory: `match_pos` and the index stay as they are. -/
def reset (hse : Encoder) : Encoder :=
  { hse with
    inputSize := 0
    matchScanIndex := 0
    matchLength := 0
    outgoingBits := 0
    outgoingBitsCount := 0
    isFinishing := false
    state := .notFull
    currentByte := 0
    bitIndex := 0x80
    buffer := fun _ => 0 }

/-- `heatshrink_encoder_sink`, with how many bytes it took. -/
def sink (hse : Encoder) (inBuf : Bytes) : EncoderSinkRes × Nat × Encoder :=
  if hse.isFinishing then (.errorMisuse, 0, hse)
  else if hse.state ≠ .notFull then (.errorMisuse, 0, hse)
  else
    let writeOffset := inputBufferSize + hse.inputSize
    let rem := inputBufferSize - hse.inputSize
    let cpSz := if rem < inBuf.length then rem else inBuf.length
    (.ok, cpSz, { hse with
      buffer := fun i =>
        if writeOffset ≤ i ∧ i < writeOffset + cpSz then inBuf.byte (i - writeOffset) else hse.buffer i
      inputSize := hse.inputSize + cpSz
      state := if cpSz = rem then .filled else hse.state })

/-! ## The search -/

/-- The links of `do_indexing` up to a position, and where each byte was last. -/
def links (data : Nat → UInt8) : Nat → (Nat → ℤ) → (Nat → ℤ) × (UInt8 → ℤ)
  | 0, index => (index, fun _ => -1)
  | i + 1, index =>
    let (index, last) := links data i index
    (Function.update index i (last (data i)), Function.update last (data i) i)

/-- `do_indexing` -/
def doIndexing (useIndex : Bool) (hse : Encoder) : Encoder :=
  if useIndex then
    { hse with searchIndex := (links hse.buffer (inputBufferSize + hse.inputSize) hse.searchIndex).1 }
  else hse

/-- `for (len = 1; len < maxlen; len++)`: as long as the bytes agree. -/
def matchingLength (buf : Nat → UInt8) (pos «end» : Nat) : Nat → Nat → Nat
  | 0, len => len
  | remaining + 1, len =>
    if buf (pos + len) ≠ buf («end» + len) then len else matchingLength buf pos «end» remaining (len + 1)

/-- The best match so far, of no bytes where there is none. -/
structure Best where
  matchMaxlen : Nat
  matchIndex : Nat
  deriving DecidableEq, Repr

/-- A position that is tried: the best match from now on, and whether it cannot be beaten. -/
def Best.attempt (buf : Nat → UInt8) («end» maxlen : Nat) (best : Best) (pos : Nat) : Best × Bool :=
  let len := matchingLength buf pos «end» (maxlen - 1) 1
  if best.matchMaxlen < len then (⟨len, pos⟩, len = maxlen) else (best, false)

/-- One round of `while (pos - start >= 0)`, following the links. -/
def indexedRound (buf : Nat → UInt8) (index : Nat → ℤ) (start «end» maxlen : Nat) (s : ℤ × Best) :
    Option (Round (ℤ × Best) Best) :=
  let (pos, best) := s
  if 0 ≤ pos - start then
    let i := pos.toNat
    if buf (i + best.matchMaxlen) ≠ buf («end» + best.matchMaxlen) then some (.next (index i, best))
    else
      let (best, unbeatable) := best.attempt buf «end» maxlen i
      if unbeatable then some (.leave best) else some (.next (index i, best))
  else some (.leave best)

/-- One round of `for (pos = end - 1; pos - start >= 0; pos--)`. -/
def plainRound (buf : Nat → UInt8) (start «end» maxlen : Nat) (s : ℤ × Best) : Option (Round (ℤ × Best) Best) :=
  let (pos, best) := s
  if 0 ≤ pos - start then
    let i := pos.toNat
    if buf (i + best.matchMaxlen) = buf («end» + best.matchMaxlen) ∧ buf i = buf «end» then
      let (best, unbeatable) := best.attempt buf «end» maxlen i
      if unbeatable then some (.leave best) else some (.next (pos - 1, best))
    else some (.next (pos - 1, best))
  else some (.leave best)

/-- The least length that a reference must exceed to be shorter than the literals. -/
def breakEven : Nat := (1 + windowBits + lookaheadBits) / 8

/-- The loops of `find_longest_match`. -/
def bestMatch (useIndex : Bool) (fuel : Nat) (hse : Encoder) (start «end» maxlen : Nat) : Option Best :=
  if useIndex then
    loop (indexedRound hse.buffer hse.searchIndex start «end» maxlen) fuel (hse.searchIndex «end», ⟨0, 0⟩)
  else loop (plainRound hse.buffer start «end» maxlen) fuel ((«end» : ℤ) - 1, ⟨0, 0⟩)

/-- `find_longest_match`: how far back a match is, and how long. -/
def findLongestMatch (useIndex : Bool) (fuel : Nat) (hse : Encoder) (start «end» maxlen : Nat) :
    Option (Option (Nat × Nat)) := do
  let best ← hse.bestMatch useIndex fuel start «end» maxlen
  if breakEven < best.matchMaxlen then some (some («end» - best.matchIndex, best.matchMaxlen)) else some none

/-! ## The states -/

/-- What `st_step_search` does with what it found. -/
def noteMatch (hse : Encoder) : Option (Nat × Nat) → EncoderState × Encoder
  | none => (.yieldTagBit, { hse with matchScanIndex := hse.matchScanIndex + 1, matchLength := 0 })
  | some (matchPos, matchLength) => (.yieldTagBit, { hse with matchPos, matchLength })

/-- `st_step_search` -/
def stStepSearch (useIndex : Bool) (fuel : Nat) (hse : Encoder) : Option (EncoderState × Encoder) :=
  let msi := hse.matchScanIndex
  let fin := hse.isFinishing
  if (msi : ℤ) > (hse.inputSize : ℤ) - (if fin then 1 else lookaheadSize) then
    some (if fin then .flushBits else .saveBacklog, hse)
  else
    let «end» := inputBufferSize + msi
    let start := «end» - inputBufferSize
    let maxPossible := if hse.inputSize - msi < lookaheadSize then hse.inputSize - msi else lookaheadSize
    (hse.findLongestMatch useIndex fuel start «end» maxPossible).map hse.noteMatch

/-- One bit of `push_bits`. -/
def pushBit (bit : Bool) (hse : Encoder) (oi : OutputInfo) : Encoder × OutputInfo :=
  let currentByte := if bit then hse.currentByte ||| hse.bitIndex else hse.currentByte
  if hse.bitIndex / 2 = 0 then
    ({ hse with bitIndex := 0x80, currentByte := 0 }, { oi with buf := oi.buf ++ [UInt8.ofNat currentByte] })
  else ({ hse with bitIndex := hse.bitIndex / 2, currentByte }, oi)

/-- The loop of `push_bits`. -/
def pushBitsFrom (bits : Nat) : Nat → Encoder → OutputInfo → Encoder × OutputInfo
  | 0, hse, oi => (hse, oi)
  | i + 1, hse, oi =>
    let (hse, oi) := pushBit (bits.testBit i) hse oi
    pushBitsFrom bits i hse oi

/-- `push_bits` -/
def pushBits (count bits : Nat) (hse : Encoder) (oi : OutputInfo) : Encoder × OutputInfo :=
  if count = 8 ∧ hse.bitIndex = 0x80 then (hse, { oi with buf := oi.buf ++ [UInt8.ofNat bits] })
  else pushBitsFrom bits count hse oi

/-- `push_outgoing_bits`: how many bits it pushed. -/
def pushOutgoingBits (hse : Encoder) (oi : OutputInfo) : Nat × Encoder × OutputInfo :=
  let count := if 8 < hse.outgoingBitsCount then 8 else hse.outgoingBitsCount
  -- eight bits are kept of what is shifted
  let bits :=
    (if 8 < hse.outgoingBitsCount then hse.outgoingBits >>> (hse.outgoingBitsCount - 8) else hse.outgoingBits) % 2 ^ 8
  if 0 < count then
    let (hse, oi) := pushBits count bits hse oi
    (count, { hse with outgoingBitsCount := hse.outgoingBitsCount - count }, oi)
  else (count, hse, oi)

/-- `can_take_byte` -/
def canTakeByte (oi : OutputInfo) : Bool := oi.buf.length < oi.bufSize

/-- `st_yield_tag_bit` -/
def stYieldTagBit (hse : Encoder) (oi : OutputInfo) : EncoderState × Encoder × OutputInfo :=
  if canTakeByte oi then
    if hse.matchLength = 0 then
      let (hse, oi) := pushBits 1 1 hse oi
      (.yieldLiteral, hse, oi)
    else
      let (hse, oi) := pushBits 1 0 hse oi
      (.yieldBrIndex, { hse with outgoingBits := hse.matchPos - 1, outgoingBitsCount := windowBits }, oi)
  else (.yieldTagBit, hse, oi)

/-- `st_yield_literal` with `push_literal_byte` -/
def stYieldLiteral (hse : Encoder) (oi : OutputInfo) : EncoderState × Encoder × OutputInfo :=
  if canTakeByte oi then
    let c := hse.buffer (inputBufferSize + (hse.matchScanIndex - 1))
    let (hse, oi) := pushBits 8 c.toNat hse oi
    (.search, hse, oi)
  else (.yieldLiteral, hse, oi)

/-- `st_yield_br_index` -/
def stYieldBrIndex (hse : Encoder) (oi : OutputInfo) : EncoderState × Encoder × OutputInfo :=
  if canTakeByte oi then
    let (pushed, hse, oi) := pushOutgoingBits hse oi
    if 0 < pushed then (.yieldBrIndex, hse, oi)
    else (.yieldBrLength, { hse with outgoingBits := hse.matchLength - 1, outgoingBitsCount := lookaheadBits }, oi)
  else (.yieldBrIndex, hse, oi)

/-- `st_yield_br_length` -/
def stYieldBrLength (hse : Encoder) (oi : OutputInfo) : EncoderState × Encoder × OutputInfo :=
  if canTakeByte oi then
    let (pushed, hse, oi) := pushOutgoingBits hse oi
    if 0 < pushed then (.yieldBrLength, hse, oi)
    else (.search, { hse with matchScanIndex := hse.matchScanIndex + hse.matchLength, matchLength := 0 }, oi)
  else (.yieldBrLength, hse, oi)

/-- `save_backlog`: the last bytes that are compressed come before those that are not. -/
def saveBacklog (hse : Encoder) : Encoder :=
  let rem := inputBufferSize - hse.matchScanIndex
  let shiftSz := inputBufferSize + rem
  { hse with
    buffer := fun i => if i < shiftSz then hse.buffer (inputBufferSize - rem + i) else hse.buffer i
    matchScanIndex := 0
    inputSize := hse.inputSize - (inputBufferSize - rem) }

/-- `st_flush_bit_buffer` -/
def stFlushBitBuffer (hse : Encoder) (oi : OutputInfo) : EncoderState × Encoder × OutputInfo :=
  if hse.bitIndex = 0x80 then (.done, hse, oi)
  else if canTakeByte oi then (.done, hse, { oi with buf := oi.buf ++ [UInt8.ofNat hse.currentByte] })
  else (.flushBits, hse, oi)

/-- The state in which the machine goes on. -/
def entering (p : EncoderState × Encoder × OutputInfo) : Encoder × OutputInfo := ({ p.2.1 with state := p.1 }, p.2.2)

/-- The `switch` of `heatshrink_encoder_poll` in the states in which it goes on. -/
def step (useIndex : Bool) (fuel : Nat) (hse : Encoder) (oi : OutputInfo) : Option (Encoder × OutputInfo) :=
  match hse.state with
  | .filled => some (entering (.search, hse.doIndexing useIndex, oi))
  | .search => do
    let (state, hse) ← hse.stStepSearch useIndex fuel
    some (entering (state, hse, oi))
  | .yieldTagBit => some (entering (hse.stYieldTagBit oi))
  | .yieldLiteral => some (entering (hse.stYieldLiteral oi))
  | .yieldBrIndex => some (entering (hse.stYieldBrIndex oi))
  | .yieldBrLength => some (entering (hse.stYieldBrLength oi))
  | .saveBacklog => some (entering (.notFull, hse.saveBacklog, oi))
  | .notFull | .flushBits | .done => some (hse, oi)

/-- One round of `heatshrink_encoder_poll`. -/
def pollRound (useIndex : Bool) (fuel : Nat) (p : Encoder × OutputInfo) :
    Option (Round (Encoder × OutputInfo) (EncoderPollRes × Encoder × Bytes)) :=
  match p.1.state with
  | .notFull | .done => some (.leave (.empty, p.1, p.2.buf))
  | .flushBits =>
    -- the source falls through from here, whether or not there was room for the last byte
    let (hse, oi) := entering (p.1.stFlushBitBuffer p.2)
    some (.leave (.empty, hse, oi.buf))
  | _ => do
    let (hse, oi) ← p.1.step useIndex fuel p.2
    if hse.state = p.1.state ∧ oi.buf.length = oi.bufSize then some (.leave (.more, hse, oi.buf))
    else some (.next (hse, oi))

/-- `heatshrink_encoder_poll`, with what it wrote. -/
def poll (useIndex : Bool) (fuel : Nat) (hse : Encoder) (outBufSize : Nat) :
    Option (EncoderPollRes × Encoder × Bytes) :=
  if outBufSize = 0 then some (.errorMisuse, hse, [])
  else loop (pollRound useIndex fuel) fuel (hse, ⟨outBufSize, []⟩)

/-- `heatshrink_encoder_finish` -/
def finish (hse : Encoder) : EncoderFinishRes × Encoder :=
  let hse := { hse with isFinishing := true, state := if hse.state = .notFull then .filled else hse.state }
  (if hse.state = .done then .done else .more, hse)

end Encoder

end MicroReticulum.Heatshrink
