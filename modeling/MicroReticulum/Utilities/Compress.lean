import MicroReticulum.Library.Pump
import MicroReticulum.Utilities.HeatshrinkStream

/-!
# Compression of whole payloads

`Compress::encode` and `Compress::decode` are one loop around the two machines: they differ in what they do not let
come out, `encode` what is no shorter than its input and `decode` what is longer than the caller allows.

Whatever bytes `decode` is given, it comes to an end and answers what they stand for or nothing (`decode_yields`). What
`encode` answers comes back from `decode` (`compress_round_trip`).

How well the text is compressed is not proved, apart from the search that finds a longest
match.
-/

namespace MicroReticulum.Compress

open Library Library.BitStream Library.Lzss Heatshrink

/-- `POLL_CHUNK` -/
abbrev pollChunk : Nat := 128

/-- The `heatshrink_encoder_` functions; their negative results are errors. -/
def encoder (useIndex : Bool) : Machine Encoder where
  sink hse data :=
    match hse.sink data with
    | (.ok, taken, hse) => some (taken, hse)
    | (.errorMisuse, _, _) => none
  poll fuel hse size := do
    let (res, hse, produced) ← hse.poll useIndex fuel size
    some (match res with | .empty => .empty | .more => .more | .errorMisuse => .error, hse, produced)
  finish hse := (hse.finish.1 = .more, hse.finish.2)

/-- The `heatshrink_decoder_` functions. A full input buffer is no error. -/
def decoder : Machine Decoder where
  sink hsd data := some (hsd.sink data).2
  poll fuel hsd size := do
    let (res, hsd, produced) ← hsd.poll fuel size
    some (match res with | .empty => .empty | .more => .more, hsd, produced)
  finish hsd := (hsd.finish = .more, hsd)

/-- `Compress::encode`; the encoder is on the stack, with whatever was there. -/
def encode (useIndex : Bool) (hse : Encoder) (fuel : Nat) (data : Bytes) : Option Bytes :=
  if data.isEmpty then some []
  else (encoder useIndex).pump pollChunk (fun size => size < data.length) data fuel (hse.reset)

/-- `Compress::decode` -/
def decode (fuel : Nat) (data : Bytes) (maxOut : Nat) : Option Bytes :=
  if data.isEmpty ∨ maxOut = 0 then some []
  else decoder.pump pollChunk (fun size => size ≤ maxOut) data fuel Decoder.reset

/-! ## The encoder makes the bits of the text -/

section Encode

variable {useIndex : Bool} {text z : Bytes}

/-- What is out is no longer than what the text becomes. -/
theorem out_length_le {hse : Encoder} {sunk out : Bytes} (hz : Packs z (Encoder.codeStream text))
    (h : Encoder.Reached useIndex hse sunk out) (htext : Encoder.Continues hse sunk text) : out.length ≤ z.length := by
  rcases h with ⟨base, stream, henc⟩ | ⟨-, hfin, hpacks⟩
  · have hle := henc.length_le htext
    have hlen := hz.length_le
    omega
  · rw [htext.2 hfin] at hz
    rw [hpacks.unique hz]

theorem continues_take {hse : Encoder} (hfin : hse.isFinishing = false) (k : Nat) :
    Encoder.Continues hse (text.take k) text :=
  ⟨List.take_prefix k text, fun htrue => Bool.noConfusion (hfin.symm.trans htrue)⟩

theorem finish_self {hse : Encoder} (hfin : hse.isFinishing = true) (hstate : hse.state ≠ .notFull) :
    hse.finish.2 = hse := by
  cases hse
  simp_all [Encoder.finish]

variable (useIndex) in
/-- The phases of the encoder. -/
def encoderStreams (hz : Packs z (Encoder.codeStream text)) : (encoder useIndex).Streams pollChunk text z where
  Idle k hse out := Encoder.AtRest useIndex hse (text.take k) out ∧ hse.isFinishing = false ∧ hse.state = .notFull
  Busy k hse out := Encoder.AtRest useIndex hse (text.take k) out ∧ hse.isFinishing = false
  Ending hse out := Encoder.AtRest useIndex hse text out
  weight hse := Encoder.weight hse.finish.2
  sink := by
    rintro k hse out ⟨hrest, hfin, hstate⟩ hk
    rcases hrest.reached with ⟨base, stream, henc⟩ | ⟨-, htrue, -⟩
    · obtain ⟨hok, htaken, hpos, hfin', hrest', henc'⟩ := Encoder.sink_encodes henc hstate (text.drop k)
      rw [← List.take_add] at henc'
      have hne : text.drop k ≠ [] := fun hnil => by
        have hlen := congrArg List.length hnil
        rw [List.length_drop, List.length_nil] at hlen
        omega
      refine ⟨_, (hse.sink (text.drop k)).2.2, ?_, hpos hne, ?_, ⟨.inl ⟨base, stream, henc'⟩, hrest'⟩, hfin'⟩
      · simp only [encoder]
        rw [← htaken, ← Prod.mk.eta (p := hse.sink (text.drop k)), hok]
      · have hle := Nat.min_le_right (Encoder.inputBufferSize - hse.inputSize) (text.drop k).length
        rw [List.length_drop] at hle ⊢
        omega
    · exact Bool.noConfusion (hfin.symm.trans htrue)
  poll := by
    rintro k hse out ⟨hrest, hfin⟩
    rcases hrest.reached with ⟨base, stream, henc⟩ | ⟨-, htrue, -⟩
    · obtain ⟨⟨res, hse', produced⟩, hyields, hpolled⟩ := Encoder.poll_yields henc (show 0 < pollChunk by decide)
      have hfin' : hse'.isFinishing = false := hpolled.finishing.trans hfin
      have hrest' : Encoder.AtRest useIndex hse' (text.take k) (out ++ produced) := ⟨hpolled.reached, hpolled.resting⟩
      refine ⟨_, hyields.bind (Yields.of_forall fun _ => rfl),
        out_length_le hz hpolled.reached (continues_take hfin' k), ?_⟩
      cases res with
      | empty =>
        exact .inr ⟨rfl, hrest', hfin', (hpolled.empty rfl).resolve_right fun htrue =>
          Bool.noConfusion (hfin'.symm.trans htrue)⟩
      | more => exact .inl ⟨rfl, hpolled.more rfl, hrest', hfin'⟩
      | errorMisuse => exact absurd rfl hpolled.no_misuse
    · exact Bool.noConfusion (hfin.symm.trans htrue)
  last := by
    rintro hse out ⟨hrest, -, -⟩
    rwa [List.take_length] at hrest
  finish := by
    intro hse out hrest
    rcases hrest.reached with ⟨base, stream, henc⟩ | ⟨hdone, hfin, hpacks⟩
    · obtain ⟨hmore, hfin, hnotFull, -, henc'⟩ := Encoder.finish_encodes henc hrest.resting
      obtain ⟨⟨res, hse', produced⟩, hyields, hpolled⟩ := Encoder.poll_yields henc' (show 0 < pollChunk by decide)
      have hfin' : hse'.isFinishing = true := hpolled.finishing.trans hfin
      have hrest' : Encoder.AtRest useIndex hse' text (out ++ produced) := ⟨hpolled.reached, hpolled.resting⟩
      refine .inr ⟨decide_eq_true hmore, _, hyields.bind (Yields.of_forall fun _ => rfl), ?_,
        out_length_le hz hpolled.reached ⟨List.prefix_rfl, fun _ => rfl⟩, hrest', ?_⟩
      · cases res with
        | empty => exact Drained.noConfusion
        | more => exact Drained.noConfusion
        | errorMisuse => exact absurd rfl hpolled.no_misuse
      · show Encoder.weight hse'.finish.2 < Encoder.weight hse.finish.2
        rw [finish_self hfin' (Encoder.AtRest.not_notFull (e := ⟨hse', text, out ++ produced⟩) hrest' hfin')]
        exact hpolled.progress hnotFull
    · refine .inl ⟨?_, hpacks.unique hz⟩
      simp [encoder, Encoder.finish, hdone]

/-- What the text becomes: its bits, where they are shorter than it. -/
def encoded (text : Bytes) : Bytes :=
  if (pack (Encoder.codeStream text)).length < text.length then pack (Encoder.codeStream text) else []

theorem encode_yields (useIndex : Bool) (hse : Encoder) (text : Bytes) :
    Yields (fun fuel => encode useIndex hse fuel text) (encoded text) := by
  have hz := packs_pack (Encoder.codeStream text)
  unfold encode encoded
  cases text with
  | nil => exact Yields.of_forall fun _ => rfl
  | cons b text =>
    have hpump : Yields (fun fuel => (encoder useIndex).pump pollChunk (fun size => size < (b :: text).length) (b :: text)
        fuel hse.reset) _ :=
      (encoderStreams useIndex hz).pump_yields (by decide)
        (fun m n hle hn => by simp only [decide_eq_true_eq] at hn ⊢; omega) ⟨Encoder.atRest_reset useIndex hse, rfl, rfl⟩
    simpa using hpump

end Encode

/-! ## The decoder makes what the bytes stand for -/

/-- The phases of the decoder. -/
def decoderStreams (data : Bytes) : decoder.Streams pollChunk data (expansion data) where
  Idle k hsd out := Decoder.Follows hsd (data.take k) out ∧ hsd.inputSize = 0 ∧ hsd.finish = .done
    ∧ out = expansion (data.take k)
  Busy k hsd out := Decoder.Follows hsd (data.take k) out
  Ending hsd out := hsd.finish = .done ∧ out = expansion data
  weight _ := 0
  sink := by
    rintro k hsd out ⟨hfollows, hempty, -, -⟩ hk
    have hsink := hfollows.sink (data.drop k)
    have htaken : (hsd.sink (data.drop k)).2.1 = min inputBufferSize (data.drop k).length := by
      obtain ⟨p, hdecodes, -⟩ := hfollows
      rw [(Decoder.sink_decodes hdecodes (data.drop k)).1, Decoder.room, hempty, Nat.sub_zero]
    rw [← List.take_add] at hsink
    refine ⟨_, _, rfl, ?_, ?_, hsink⟩
    · rw [htaken, List.length_drop]
      simp only [inputBufferSize]
      omega
    · rw [htaken, List.length_drop]
      omega
  poll := by
    intro k hsd out hfollows
    obtain ⟨⟨res, hsd', produced⟩, hyields, hfollows', -, hmore, hempty⟩ := hfollows.poll pollChunk
    refine ⟨_, hyields.bind (Yields.of_forall fun _ => rfl), (hfollows'.begins (List.take_prefix k data)).length_le, ?_⟩
    cases res with
    | empty =>
      obtain ⟨hall, hdone, hsize⟩ := hempty rfl
      exact .inr ⟨rfl, hfollows', hsize, hdone, hall⟩
    | more => exact .inl ⟨rfl, hmore rfl, hfollows'⟩
  last := by
    rintro hsd out ⟨-, -, hdone, hall⟩
    rw [List.take_length] at hall
    exact ⟨hdone, hall⟩
  finish := by
    rintro hsd out ⟨hdone, hall⟩
    exact .inl ⟨by simp [decoder, hdone], hall⟩

/-- Whatever the bytes are: what they stand for, if it is not too long, and nothing otherwise. -/
theorem decode_yields (data : Bytes) (maxOut : Nat) :
    Yields (fun fuel => decode fuel data maxOut)
      (if (expansion data).length ≤ maxOut then expansion data else []) := by
  unfold decode
  by_cases hnone : data.isEmpty ∨ maxOut = 0
  · simp only [if_pos hnone]
    refine Yields.of_forall fun _ => congrArg some ?_
    rcases hnone with hempty | rfl
    · rw [List.isEmpty_iff.mp hempty]
      simp
    · split_ifs with hlen
      · exact (List.length_eq_zero_iff.mp (Nat.le_zero.mp hlen)).symm
      · rfl
  · simp only [if_neg hnone]
    have hpump : Yields (fun fuel => decoder.pump pollChunk (fun size => size ≤ maxOut) data fuel Decoder.reset) _ :=
      (decoderStreams data).pump_yields (by decide)
        (fun m n hle hn => by simp only [decide_eq_true_eq] at hn ⊢; omega)
        ⟨Decoder.follows_reset, rfl, rfl, expansion_nil.symm⟩
    simpa using hpump

/-- Bytes from anywhere do no harm: what comes out is never longer than allowed, and it is nothing or all that the bytes
stand for. -/
theorem any_bytes_decoded (data : Bytes) (maxOut : Nat) :
    ∃ out, Yields (fun fuel => decode fuel data maxOut) out ∧ out.length ≤ maxOut
      ∧ (out = [] ∨ out = expansion data) ∧ ((expansion data).length ≤ maxOut → out = expansion data) := by
  refine ⟨_, decode_yields data maxOut, ?_⟩
  split_ifs with hfits
  · exact ⟨hfits, .inr rfl, fun _ => rfl⟩
  · exact ⟨Nat.zero_le _, .inl rfl, fun h => absurd h hfits⟩

/-- What a text became is shorter and stands for it. -/
theorem encoded_reads_back (data : Bytes) (hsome : encoded data ≠ []) :
    (encoded data).length < data.length
      ∧ ∀ maxOut, Yields (fun fuel => decode fuel (encoded data) maxOut) (if data.length ≤ maxOut then data else []) := by
  unfold encoded at hsome ⊢
  split_ifs at hsome ⊢ with hshort
  · refine ⟨hshort, fun maxOut => ?_⟩
    have hdecode := decode_yields (pack (Encoder.codeStream data)) maxOut
    rwa [expansion_of_packs (packs_pack _)] at hdecode
  · exact absurd rfl hsome

/-- What `encode` answers is shorter than the payload and `decode` makes the payload of it; where `encode` answers
nothing, the payload is sent as it is. -/
theorem compress_round_trip (useIndex : Bool) (hse : Encoder) (data : Bytes) :
    ∃ compressed, Yields (fun fuel => encode useIndex hse fuel data) compressed
      ∧ (compressed = [] ∨ compressed.length < data.length
        ∧ ∀ maxOut, Yields (fun fuel => decode fuel compressed maxOut) (if data.length ≤ maxOut then data else [])) := by
  refine ⟨encoded data, encode_yields useIndex hse data, ?_⟩
  by_cases hnone : encoded data = []
  · exact .inl hnone
  · exact .inr (encoded_reads_back data hnone)

end MicroReticulum.Compress
