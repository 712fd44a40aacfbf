import MicroReticulum.Utilities.HeatshrinkEncoding

/-!
# Compression in pieces

Both machines are used by calls: input is sunk in pieces of any size and output polled into buffers of any size. A
transcript is what went in and what came out.

What the compressor has written when it is done depends on the text alone, not on the calls and not on whether it
searched with the index (`compressed_in_pieces`), and done it is after finitely many polls. What the decompressor
writes depends on the bytes alone; it is all there when a poll answers that there is no more (`decompressed_in_pieces`).

A caller that ignores what a call returns, and polls into a buffer of no size for ever, is
not promised an end.
-/

namespace MicroReticulum.Heatshrink

open Library Library.BitStream Library.Lzss

/-- What bytes stand for. -/
abbrev expansion (bytes : Bytes) : Bytes := expand windowBits lookaheadBits [] (ofBytes bytes)

@[simp] theorem expansion_nil : expansion [] = [] := expand_of_none rfl

/-- What stands for a text expands to it. -/
theorem expansion_of_packs {bytes text : Bytes} (h : Packs bytes (Encoder.codeStream text)) :
    expansion bytes = text := by
  obtain ⟨n, hn, hbytes⟩ := h
  rw [expansion, hbytes]
  exact (Encoder.codeStream_tells text).padded fun _ => expand_of_none (readPhrase_zeros (by decide) hn)

/-! ## The compressor -/

/-- A call on the compressor. -/
inductive EncoderCall where
  | sink (data : Bytes)
  | poll (size : Nat)
  | finish
  deriving Repr

/-- The compressor, what it took and what it wrote. -/
structure Encoding where
  hse : Encoder
  sunk : Bytes := []
  out : Bytes := []

def EncoderCall.run (useIndex : Bool) (fuel : Nat) (e : Encoding) : EncoderCall → Option Encoding
  | .sink data =>
    let (_, taken, hse) := e.hse.sink data
    some { e with hse, sunk := e.sunk ++ data.take taken }
  | .poll size => do
    let (_, hse, written) ← e.hse.poll useIndex fuel size
    some { e with hse, out := e.out ++ written }
  | .finish => some { e with hse := e.hse.finish.2 }

/-- Calls one after the other. -/
def encoding (useIndex : Bool) (fuel : Nat) (calls : List EncoderCall) (e : Encoding) : Option Encoding :=
  calls.foldlM (EncoderCall.run useIndex fuel) e

namespace Encoder

variable {useIndex : Bool} {e : Encoding}

theorem AtRest.sink (h : AtRest useIndex e.hse e.sunk e.out) (data : Bytes) :
    AtRest useIndex (e.hse.sink data).2.2 (e.sunk ++ data.take (e.hse.sink data).2.1) e.out := by
  have hunchanged : ∀ r, (e.hse.sink data) = (r, 0, e.hse) →
      AtRest useIndex (e.hse.sink data).2.2 (e.sunk ++ data.take (e.hse.sink data).2.1) e.out := fun r hr => by
    rw [hr, List.take_zero, List.append_nil]
    exact h
  rcases h.reached with ⟨base, stream, henc⟩ | ⟨hdone, hfin, -⟩
  · by_cases hstate : e.hse.state = .notFull
    · obtain ⟨-, htaken, -, -, hrest, henc'⟩ := sink_encodes henc hstate data
      rw [htaken]
      exact ⟨.inl ⟨base, stream, henc'⟩, hrest⟩
    · refine hunchanged .errorMisuse ?_
      unfold Encoder.sink
      rw [if_pos hstate]
      exact ite_self _
  · refine hunchanged .errorMisuse ?_
    unfold Encoder.sink
    rw [if_pos hfin]

theorem AtRest.finish (h : AtRest useIndex e.hse e.sunk e.out) : AtRest useIndex e.hse.finish.2 e.sunk e.out := by
  rcases h.reached with ⟨base, stream, henc⟩ | ⟨hdone, hfin, hpacks⟩
  · obtain ⟨-, -, -, hrest, henc'⟩ := finish_encodes henc h.resting
    exact ⟨.inl ⟨base, stream, henc'⟩, hrest⟩
  · have hstate : e.hse.finish.2.state = .done := by
      show (if e.hse.state = .notFull then EncoderState.filled else e.hse.state) = .done
      rw [hdone]
      rfl
    exact ⟨.inr ⟨hstate, rfl, hpacks⟩, fun hsave => EncoderState.noConfusion (hstate.symm.trans hsave)⟩

/-- A finishing encoder waits for no input. -/
theorem AtRest.not_notFull (h : AtRest useIndex e.hse e.sunk e.out) (hfin : e.hse.isFinishing = true) :
    e.hse.state ≠ .notFull := by
  intro hstate
  rcases h.reached with ⟨base, stream, henc⟩ | ⟨hdone, -⟩
  · have hready := henc.ready
    rw [Ready, hstate] at hready
    exact Bool.noConfusion (hfin.symm.trans hready.2.2)
  · exact EncoderState.noConfusion (hstate.symm.trans hdone)

/-- A poll of a finishing encoder that is not done brings it nearer to the end. -/
theorem AtRest.poll (h : AtRest useIndex e.hse e.sunk e.out) (size : Nat) :
    ∃ r, Yields (fun fuel => e.hse.poll useIndex fuel size) r ∧ AtRest useIndex r.2.1 e.sunk (e.out ++ r.2.2)
      ∧ r.2.1.isFinishing = e.hse.isFinishing
      ∧ (0 < size → e.hse.state ≠ .notFull → e.hse.state ≠ .done → weight r.2.1 < weight e.hse)
      ∧ (e.hse.state = .done → r.2.1 = e.hse) := by
  rcases Nat.eq_zero_or_pos size with rfl | hsize
  · exact ⟨(.errorMisuse, e.hse, []), Yields.of_forall fun _ => rfl, by rw [List.append_nil]; exact h, rfl,
      fun hno => absurd hno (lt_irrefl 0), fun _ => rfl⟩
  · rcases h.reached with ⟨base, stream, henc⟩ | ⟨hdone, hfin, hpacks⟩
    · obtain ⟨r, hyields, hpolled⟩ := poll_yields henc hsize
      refine ⟨r, hyields, ⟨hpolled.reached, hpolled.resting⟩, hpolled.finishing, fun _ hne _ => hpolled.progress hne,
        fun hdone => ?_⟩
      have hready := henc.ready
      rw [Ready, hdone] at hready
      exact hready.elim
    · refine ⟨(.empty, e.hse, []), ⟨1, fun fuel hfuel => ?_⟩, by rw [List.append_nil]; exact h, rfl,
        fun _ _ hne => absurd hdone hne, fun _ => rfl⟩
      obtain ⟨fuel, rfl⟩ : ∃ k, fuel = k + 1 := ⟨fuel - 1, by omega⟩
      show Encoder.poll useIndex (fuel + 1) e.hse size = _
      rw [Encoder.poll, if_neg (Nat.pos_iff_ne_zero.mp hsize), loop, pollRound, hdone]
      rfl

theorem AtRest.call (h : AtRest useIndex e.hse e.sunk e.out) (c : EncoderCall) :
    ∃ e', Yields (fun fuel => c.run useIndex fuel e) e' ∧ AtRest useIndex e'.hse e'.sunk e'.out := by
  cases c with
  | sink data => exact ⟨_, Yields.of_forall fun _ => rfl, h.sink data⟩
  | poll size =>
    obtain ⟨r, hyields, hrest, -⟩ := h.poll size
    exact ⟨_, hyields.bind (Yields.of_forall fun _ => rfl), hrest⟩
  | finish => exact ⟨_, Yields.of_forall fun _ => rfl, h.finish⟩

/-- Every run of calls comes back. -/
theorem AtRest.encoding (calls : List EncoderCall) (h : AtRest useIndex e.hse e.sunk e.out) :
    ∃ e', Yields (fun fuel => encoding useIndex fuel calls e) e' ∧ AtRest useIndex e'.hse e'.sunk e'.out := by
  induction calls generalizing e with
  | nil => exact ⟨e, Yields.of_forall fun _ => rfl, h⟩
  | cons c calls ih =>
    obtain ⟨e₁, hone, h₁⟩ := h.call c
    obtain ⟨e₂, hrest, h₂⟩ := ih h₁
    refine ⟨e₂, Yields.congr (fun fuel => ?_) (hone.bind hrest), h₂⟩
    rw [Heatshrink.encoding, List.foldlM_cons]
    rfl

theorem atRest_reset (useIndex : Bool) (hse : Encoder) : AtRest useIndex hse.reset [] [] :=
  ⟨.inl ⟨0, [], encodes_reset useIndex hse⟩, EncoderState.noConfusion⟩

theorem AtRest.done (h : AtRest useIndex e.hse e.sunk e.out) (hdone : e.hse.finish.1 = .done) :
    e.hse.state = .done ∧ Packs e.out (codeStream e.sunk) := by
  rcases h.reached with ⟨base, stream, henc⟩ | ⟨hstate, -, hpacks⟩
  · rw [(finish_encodes henc h.resting).1] at hdone
    cases hdone
  · exact ⟨hstate, hpacks⟩

/-- A finishing encoder is done after finitely many polls, whatever their sizes. -/
theorem AtRest.ends (h : AtRest useIndex e.hse e.sunk e.out) (hfin : e.hse.isFinishing = true) (sizes : List Nat)
    (hsizes : ∀ n ∈ sizes, 0 < n) (hmany : e.hse.state ≠ .done → weight e.hse ≤ sizes.length) :
    ∃ e', Yields (fun fuel => Heatshrink.encoding useIndex fuel (sizes.map .poll) e) e'
      ∧ AtRest useIndex e'.hse e'.sunk e'.out ∧ e'.sunk = e.sunk ∧ e'.hse.state = .done := by
  induction sizes generalizing e with
  | nil =>
    refine ⟨e, Yields.of_forall fun _ => rfl, h, rfl, by_contra fun hdone => ?_⟩
    obtain ⟨r, -, -, -, hless, -⟩ := h.poll 1
    exact absurd (hless Nat.one_pos (h.not_notFull hfin) hdone) (Nat.not_lt.mpr ((hmany hdone).trans (Nat.zero_le _)))
  | cons size sizes ih =>
    obtain ⟨r, hyields, hrest, hkeeps, hless, hstays⟩ := h.poll size
    obtain ⟨e', hpolls, h', hsunk, hdone⟩ := ih (e := { e with hse := r.2.1, out := e.out ++ r.2.2 }) hrest
      (hkeeps.trans hfin) (fun n hn => hsizes n (List.mem_cons_of_mem _ hn)) fun hnot => by
        have hbusy : e.hse.state ≠ .done := fun hdone => hnot ((congrArg Encoder.state (hstays hdone)).trans hdone)
        have hlt := hless (hsizes size List.mem_cons_self) (h.not_notFull hfin) hbusy
        have hmany := hmany hbusy
        rw [List.length_cons] at hmany
        show weight r.2.1 ≤ sizes.length
        omega
    have hcall : Yields (fun fuel => EncoderCall.run useIndex fuel e (.poll size))
        { e with hse := r.2.1, out := e.out ++ r.2.2 } :=
      hyields.bind (Yields.of_forall fun _ => rfl)
    refine ⟨e', Yields.congr (fun fuel => ?_)
      (hcall.bind (g := fun fuel e => Heatshrink.encoding useIndex fuel (sizes.map .poll) e) hpolls), h', hsunk, hdone⟩
    rw [Heatshrink.encoding, List.map_cons, List.foldlM_cons]
    rfl

end Encoder

/-- The compressor from its reset on. -/
def Encoding.start (hse : Encoder) : Encoding := { hse := hse.reset }

/-- What is written is a matter of the text only: not of the sizes of the pieces and the buffers, not of the search, not
of what was in memory before. -/
theorem compressed_in_pieces (useIndex useIndex' : Bool) (hse hse' : Encoder)
    (calls calls' : List EncoderCall) :
    ∃ e e', Yields (fun fuel => encoding useIndex fuel calls (.start hse)) e
      ∧ Yields (fun fuel => encoding useIndex' fuel calls' (.start hse')) e'
      ∧ (e.hse.finish.1 = .done → e'.hse.finish.1 = .done → e.sunk = e'.sunk → e.out = e'.out) := by
  obtain ⟨e, hyields, h⟩ := (Encoder.atRest_reset useIndex hse).encoding (e := .start hse) calls
  obtain ⟨e', hyields', h'⟩ := (Encoder.atRest_reset useIndex' hse').encoding (e := .start hse') calls'
  refine ⟨e, e', hyields, hyields', fun hdone hdone' hsunk => ?_⟩
  exact (h.done hdone).2.unique (hsunk ▸ (h'.done hdone').2)

/-- When the input has ended, enough polls of any sizes bring the rest. -/
theorem compression_ends (useIndex : Bool) (hse : Encoder) (calls : List EncoderCall) :
    ∃ e, Yields (fun fuel => encoding useIndex fuel calls (.start hse)) e
      ∧ ∃ n, ∀ sizes : List Nat, (∀ m ∈ sizes, 0 < m) → n ≤ sizes.length →
        ∃ e', Yields (fun fuel => encoding useIndex fuel (.finish :: sizes.map .poll) e) e'
          ∧ e'.sunk = e.sunk ∧ e'.hse.finish.1 = .done ∧ expansion e'.out = e.sunk := by
  obtain ⟨e, hyields, h⟩ := (Encoder.atRest_reset useIndex hse).encoding (e := .start hse) calls
  refine ⟨e, hyields, Encoder.weight e.hse.finish.2, fun sizes hsizes hmany => ?_⟩
  obtain ⟨e', hpolls, h', hsunk, hdone⟩ := Encoder.AtRest.ends (e := { e with hse := e.hse.finish.2 }) h.finish rfl
    sizes hsizes fun _ => hmany
  have hfinish : e'.hse.finish.1 = .done := by
    show (if (if e'.hse.state = .notFull then EncoderState.filled else e'.hse.state) = .done then EncoderFinishRes.done
      else .more) = .done
    rw [hdone]
    rfl
  exact ⟨e', hpolls, hsunk, hfinish, hsunk ▸ expansion_of_packs (h'.done hfinish).2⟩

/-! ## The decompressor -/

/-- A call on the decompressor. -/
inductive DecoderCall where
  | sink (data : Bytes)
  | poll (size : Nat)
  deriving Repr

/-- The decompressor, what it took and what it wrote. -/
structure Decoding where
  hsd : Decoder := Decoder.reset
  sunk : Bytes := []
  out : Bytes := []

def DecoderCall.run (fuel : Nat) (d : Decoding) : DecoderCall → Option Decoding
  | .sink data =>
    let (_, taken, hsd) := d.hsd.sink data
    some { d with hsd, sunk := d.sunk ++ data.take taken }
  | .poll size => do
    let (_, hsd, written) ← d.hsd.poll fuel size
    some { d with hsd, out := d.out ++ written }

/-- Calls one after the other. -/
def decoding (fuel : Nat) (calls : List DecoderCall) (d : Decoding) : Option Decoding :=
  calls.foldlM (DecoderCall.run fuel) d

namespace Decoder

/-- The decoder has written the beginning of what it took and will write the rest of it. -/
def Follows (hsd : Decoder) (sunk out : Bytes) : Prop :=
  ∃ p, Decodes hsd out.reverse p
    ∧ ∀ more, expand windowBits lookaheadBits [] (ofBytes sunk ++ more) = out ++ hsd.outlook out.reverse (p ++ more)

variable {hsd : Decoder} {sunk out : Bytes} {d : Decoding}

theorem follows_reset : Follows reset [] [] := ⟨[], decodes_reset, fun _ => rfl⟩

/-- Also of what the input may become. -/
theorem Follows.begins (h : Follows hsd sunk out) {data : Bytes} (hdata : sunk <+: data) : out <+: expansion data := by
  obtain ⟨p, -, hexpand⟩ := h
  obtain ⟨more, rfl⟩ := hdata
  rw [expansion, ofBytes_append, hexpand]
  exact List.prefix_append _ _

theorem Follows.sink (h : Follows hsd sunk out) (data : Bytes) :
    Follows (hsd.sink data).2.2 (sunk ++ data.take (hsd.sink data).2.1) out := by
  obtain ⟨p, hdecodes, hexpand⟩ := h
  obtain ⟨-, hsunk, houtlook⟩ := sink_decodes hdecodes data
  refine ⟨_, hsunk, fun more => ?_⟩
  rw [houtlook, ofBytes_append, List.append_assoc, hexpand, List.append_assoc]

/-- A poll that answers that there is no more has left nothing to say. -/
theorem Follows.poll (h : Follows hsd sunk out) (size : Nat) :
    ∃ r, Yields (fun fuel => hsd.poll fuel size) r ∧ Follows r.2.1 sunk (out ++ r.2.2) ∧ r.2.2.length ≤ size
      ∧ (r.1 = .more → r.2.2.length = size)
      ∧ (r.1 = .empty → out ++ r.2.2 = expansion sunk ∧ r.2.1.finish = .done ∧ r.2.1.inputSize = 0) := by
  obtain ⟨p, hdecodes, hexpand⟩ := h
  obtain ⟨r, hyields, q, hpolled⟩ := poll_yields hdecodes size
  have hwrites := hpolled.writes
  have hhistory : r.2.2.reverse ++ out.reverse = (out ++ r.2.2).reverse := List.reverse_append.symm
  have hrest : ∀ more, expand windowBits lookaheadBits [] (ofBytes sunk ++ more)
      = (out ++ r.2.2) ++ r.2.1.outlook (out ++ r.2.2).reverse (q ++ more) := fun more => by
    rw [hexpand, hwrites.outlook, hhistory, List.append_assoc]
  refine ⟨r, hyields, ⟨q, hhistory ▸ hwrites.decodes, hrest⟩, hpolled.fits, hpolled.more, fun hempty => ?_⟩
  have hblocked := hpolled.empty hempty
  refine ⟨?_, hblocked.finish, hblocked.input_used⟩
  have hnow := hrest []
  rw [List.append_nil, List.append_nil, ← hhistory, hblocked.outlook_nil, List.append_nil] at hnow
  exact hnow.symm

theorem Follows.call (h : Follows d.hsd d.sunk d.out) (c : DecoderCall) :
    ∃ d', Yields (fun fuel => c.run fuel d) d' ∧ Follows d'.hsd d'.sunk d'.out := by
  cases c with
  | sink data => exact ⟨_, Yields.of_forall fun _ => rfl, h.sink data⟩
  | poll size =>
    obtain ⟨r, hyields, hfollows, -⟩ := h.poll size
    exact ⟨_, hyields.bind (Yields.of_forall fun _ => rfl), hfollows⟩

/-- Every run of calls comes back. -/
theorem Follows.decoding (calls : List DecoderCall) (h : Follows d.hsd d.sunk d.out) :
    ∃ d', Yields (fun fuel => decoding fuel calls d) d' ∧ Follows d'.hsd d'.sunk d'.out := by
  induction calls generalizing d with
  | nil => exact ⟨d, Yields.of_forall fun _ => rfl, h⟩
  | cons c calls ih =>
    obtain ⟨d₁, hone, h₁⟩ := h.call c
    obtain ⟨d₂, hrest, h₂⟩ := ih h₁
    refine ⟨d₂, Yields.congr (fun fuel => ?_) (hone.bind hrest), h₂⟩
    rw [Heatshrink.decoding, List.foldlM_cons]
    rfl

end Decoder

/-- What the decompressor wrote is always the beginning of what it took stands for; when a poll has answered that there
is no more, it is all of it. -/
theorem decompressed_in_pieces (calls : List DecoderCall) (size : Nat) :
    ∃ d r, Yields (fun fuel => decoding fuel calls {}) d ∧ d.out <+: expansion d.sunk
      ∧ Yields (fun fuel => d.hsd.poll fuel size) r
      ∧ (r.1 = .empty → d.out ++ r.2.2 = expansion d.sunk) ∧ (r.1 = .more → r.2.2.length = size) := by
  obtain ⟨d, hyields, h⟩ := Decoder.Follows.decoding (d := {}) calls Decoder.follows_reset
  obtain ⟨r, hpoll, -, -, hmore, hempty⟩ := h.poll size
  exact ⟨d, r, hyields, h.begins List.prefix_rfl, hpoll, fun hr => (hempty hr).1, hmore⟩

/-! ## There and back -/

theorem EncoderCall.run_out {useIndex : Bool} {fuel : Nat} {e e' : Encoding} {c : EncoderCall}
    (h : c.run useIndex fuel e = some e') : e.out <+: e'.out := by
  cases c with
  | sink data =>
    cases h
    exact List.prefix_rfl
  | poll size =>
    obtain ⟨⟨_, hse, written⟩, -, hrest⟩ := Option.bind_eq_some_iff.mp h
    cases hrest
    exact List.prefix_append _ _
  | finish =>
    cases h
    exact List.prefix_rfl

theorem encoding_out {useIndex : Bool} {fuel : Nat} {calls : List EncoderCall} {e e' : Encoding}
    (h : encoding useIndex fuel calls e = some e') : e.out <+: e'.out := by
  induction calls generalizing e with
  | nil =>
    cases h
    exact List.prefix_rfl
  | cons c calls ih =>
    rw [encoding, List.foldlM_cons] at h
    obtain ⟨u, hone, hrest⟩ := Option.bind_eq_some_iff.mp h
    exact (EncoderCall.run_out hone).trans (ih hrest)

/-- What the compressor has written so far is the beginning of something that expands to the text it has taken. -/
theorem Encoder.AtRest.extends {useIndex : Bool} {e : Encoding} (h : Encoder.AtRest useIndex e.hse e.sunk e.out) :
    ∃ written, e.out <+: written ∧ expansion written = e.sunk := by
  obtain ⟨e', ⟨fuel, hpolls⟩, h', hsunk, hdone⟩ := Encoder.AtRest.ends (e := { e with hse := e.hse.finish.2 }) h.finish
    rfl (List.replicate (Encoder.weight e.hse.finish.2) 1)
    (fun n hn => (List.eq_of_mem_replicate hn).symm ▸ Nat.one_pos) fun _ => List.length_replicate.ge
  have hout : e.out <+: e'.out := encoding_out (e := { e with hse := e.hse.finish.2 }) (hpolls fuel le_rfl)
  refine ⟨e'.out, hout, ?_⟩
  have hfinish : e'.hse.finish.1 = .done := by
    show (if (if e'.hse.state = .notFull then EncoderState.filled else e'.hse.state) = .done then EncoderFinishRes.done
      else .more) = .done
    rw [hdone]
    rfl
  exact hsunk ▸ expansion_of_packs (h'.done hfinish).2

/-- The text comes back, however it was cut up on the way: the compressor's calls, its search, the pieces in which its
output reaches the decompressor and the buffers it is drained into. As long as the decompressor was given nothing but
what the compressor had written, it has written the beginning of the text, whether the compressor is done or not. -/
theorem streamed_round_trip (useIndex : Bool) (hse : Encoder) (calls : List EncoderCall)
    (calls' : List DecoderCall) (size : Nat) :
    ∃ e d r, Yields (fun fuel => encoding useIndex fuel calls (.start hse)) e
      ∧ Yields (fun fuel => decoding fuel calls' {}) d ∧ Yields (fun fuel => d.hsd.poll fuel size) r
      ∧ (d.sunk <+: e.out → d.out <+: e.sunk)
      ∧ (r.1 = .more → r.2.2.length = size)
      ∧ (e.hse.finish.1 = .done → d.sunk = e.out → r.1 = .empty → d.out ++ r.2.2 = e.sunk) := by
  obtain ⟨e, hyields, h⟩ := (Encoder.atRest_reset useIndex hse).encoding (e := .start hse) calls
  obtain ⟨d, hdecoding, hfollows⟩ := Decoder.Follows.decoding (d := {}) calls' Decoder.follows_reset
  obtain ⟨r, hpoll, -, -, hmore, hempty⟩ := hfollows.poll size
  refine ⟨e, d, r, hyields, hdecoding, hpoll, fun hsunk => ?_, hmore, fun hdone hsunk hr => ?_⟩
  · obtain ⟨written, hwritten, htext⟩ := h.extends
    rw [← htext]
    exact hfollows.begins (hsunk.trans hwritten)
  · rw [(hempty hr).1, hsunk, expansion_of_packs (h.done hdone).2]

end MicroReticulum.Heatshrink
