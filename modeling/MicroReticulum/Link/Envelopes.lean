import MicroReticulum.Library.MsgPack
import MicroReticulum.Link.Receive

/-!
# Where an envelope is cut

The last element of an envelope is spliced in behind the others, and taken out again at the length that the
others have when they are packed anew. This is the length they came with only if the sender chose the
shortest forms, as this library does. `MsgPack` leaves the choice to the sender.

`responseEnvelope_cut` and `requestEnvelope_cut` say what is taken out of any envelope. The forms of a
floating point number do not matter: the one that came is the one that is packed.

The reader of the `MsgPack` library is modelled on its forms, and not on what it does with
bytes that are no value.
-/

namespace MicroReticulum.Link

open MicroReticulum Packet Library MsgPack

/-- What is relied on in `MsgPack`: the unpacker reads one object after the other, each in any of its forms,
and the packer writes the shortest. -/
structure Env.Packs (env : Env) : Prop where
  decode_array : ∀ (h : ArrayHeader) (rest : Bytes), env.decode (h.bytes ++ rest) = .arr h.count :: env.decode rest
  decode_binary : ∀ (b : Binary) (rest : Bytes), env.decode (b.bytes ++ rest) = .bin b.content :: env.decode rest
  decode_float : ∀ (f : FloatValue) (rest : Bytes),
    env.decode (f.bytes ++ rest) = .float f.number :: env.decode rest
  isFloat32 : ∀ (h : ArrayHeader) (f : FloatValue) (rest : Bytes),
    env.isFloat32 (h.bytes ++ (f.bytes ++ rest)) = (f.form = .float32)
  encode_nil : env.encode [] = []
  encode_array : ∀ (h : ArrayHeader) (ts : List Library.Token), h.Shortest →
    env.encode (.arr h.count :: ts) = h.bytes ++ env.encode ts
  encode_binary : ∀ (b : Binary) (ts : List Library.Token), b.Shortest →
    env.encode (.bin b.content :: ts) = b.bytes ++ env.encode ts
  encode_float : ∀ f : FloatValue, f.form = .float64 → ∃ g : FloatValue, g.form = .float64 ∧
    g.number = f.number ∧ ∀ ts, env.encode (.float f.number :: ts) = g.bytes ++ env.encode ts
  encodeFloat32 : ∀ d, ∃ g : FloatValue, g.form = .float32 ∧ env.encodeFloat32 d = g.bytes

variable {env : Env}

/-! ## Cutting -/

/-- What is left of a string from a place in its first part on. -/
theorem splice_append {first payload : Bytes} {cursor : Nat} (h : cursor ≤ first.length) :
    ∃ raw, splice (first ++ payload) cursor = some raw ∧ (raw = payload ↔ cursor = first.length) := by
  have hlen : ¬ (first ++ payload).length < cursor := by
    rw [List.length_append]
    omega
  refine ⟨(first ++ payload).mid cursor, if_neg hlen, ?_, ?_⟩
  · intro hraw
    have hsize := congrArg List.length hraw
    rw [Bytes.mid_length, List.length_append] at hsize
    omega
  · intro hcursor
    exact Bytes.mid_append hcursor.symm

section Packs

variable (henv : env.Packs)
include henv

theorem Env.Packs.encode_header (h : ArrayHeader) (ts : List Library.Token) :
    env.encode (.arr h.count :: ts) = h.shorten.bytes ++ env.encode ts :=
  henv.encode_array h.shorten ts h.shorten_shortest

theorem Env.Packs.encode_content (b : Binary) (ts : List Library.Token) :
    env.encode (.bin b.content :: ts) = b.shorten.bytes ++ env.encode ts :=
  henv.encode_binary b.shorten ts b.shorten_shortest

/-- A floating point number that is packed in the form it came in has the same size. -/
theorem Env.Packs.float_length (f : FloatValue) (ts : List Library.Token) :
    (if f.form = .float32 then (env.encodeFloat32 f.number).length + (env.encode ts).length
      else (env.encode (.float f.number :: ts)).length) = f.bytes.length + (env.encode ts).length := by
  rw [FloatValue.bytes_length]
  split
  · rename_i hform
    obtain ⟨g, hg, hpacked⟩ := henv.encodeFloat32 f.number
    rw [hpacked, FloatValue.bytes_length, hg, hform]
  · rename_i hform
    have hform : f.form = .float64 := by cases h : f.form <;> simp_all
    obtain ⟨g, hg, -, hpacked⟩ := henv.encode_float f hform
    rw [hpacked, List.length_append, FloatValue.bytes_length, hg, hform]

/-- Of a response in any forms the id is read, and the payload exactly if they were the shortest. -/
theorem responseEnvelope_cut (h : ArrayHeader) (hcount : 2 ≤ h.count) (b : Binary) (payload : Bytes) :
    ∃ raw, unpackResponseEnvelope env (h.bytes ++ b.bytes ++ payload) = some (b.content, raw)
      ∧ (raw = payload ↔ h.Shortest ∧ b.Shortest) := by
  obtain ⟨hhead, hheadEq⟩ := h.shorten_length
  obtain ⟨hid, hidEq⟩ := b.shorten_length
  have hdecode : env.decode (h.bytes ++ b.bytes ++ payload)
      = .arr h.count :: .bin b.content :: env.decode payload := by
    rw [List.append_assoc, henv.decode_array, henv.decode_binary]
  have hcursor : (env.encode [.arr h.count, .bin b.content]).length
      = h.shorten.bytes.length + b.shorten.bytes.length := by
    rw [henv.encode_header, henv.encode_content, henv.encode_nil, List.append_nil, List.length_append]
  have hsize : ¬ (h.bytes ++ b.bytes ++ payload).length < 2 := by
    have := List.length_pos_of_ne_nil h.bytes_ne_nil
    simp only [List.length_append, Binary.bytes_length]
    omega
  have hwhole : (h.bytes ++ b.bytes).length = h.bytes.length + b.bytes.length := List.length_append
  obtain ⟨raw, hraw, hiff⟩ : ∃ raw, splice (h.bytes ++ b.bytes ++ payload)
      (h.shorten.bytes.length + b.shorten.bytes.length) = some raw ∧ (raw = payload ↔ _) :=
    splice_append (by omega)
  refine ⟨raw, ?_, ?_⟩
  · unfold unpackResponseEnvelope
    rw [if_neg hsize, hdecode]
    simp only [hcursor, if_neg (Nat.not_lt.mpr hcount), hraw, Option.map_some]
  · rw [hiff, hwhole, ← hheadEq, ← hidEq]
    omega

/-- Of a request in any forms the time and the path are read, and the payload exactly if the header and the
path hash were in the shortest. -/
theorem requestEnvelope_cut (h : ArrayHeader) (hcount : 3 ≤ h.count) (f : FloatValue) (b : Binary)
    (payload : Bytes) :
    ∃ raw, unpackRequestEnvelope env (h.bytes ++ f.bytes ++ b.bytes ++ payload)
        = some { requestedAt := f.number, pathHash := b.content, requestData := raw }
      ∧ (raw = payload ↔ h.Shortest ∧ b.Shortest) := by
  obtain ⟨hhead, hheadEq⟩ := h.shorten_length
  obtain ⟨hid, hidEq⟩ := b.shorten_length
  have hassoc : h.bytes ++ f.bytes ++ b.bytes ++ payload = h.bytes ++ (f.bytes ++ (b.bytes ++ payload)) := by
    simp only [List.append_assoc]
  have hdecode : env.decode (h.bytes ++ f.bytes ++ b.bytes ++ payload)
      = .arr h.count :: .float f.number :: .bin b.content :: env.decode payload := by
    rw [hassoc, henv.decode_array, henv.decode_float, henv.decode_binary]
  have hform : env.isFloat32 (h.bytes ++ f.bytes ++ b.bytes ++ payload) = (f.form = .float32) := by
    rw [hassoc, henv.isFloat32]
  have hid' : (env.encode [.bin b.content]).length = b.shorten.bytes.length := by
    rw [henv.encode_content, henv.encode_nil, List.append_nil]
  have hhead' : (env.encode [.arr h.count]).length = h.shorten.bytes.length := by
    rw [henv.encode_header, henv.encode_nil, List.append_nil]
  have hcursor : (if env.isFloat32 (h.bytes ++ f.bytes ++ b.bytes ++ payload) then
      (env.encode [.arr h.count]).length + (env.encodeFloat32 f.number).length + (env.encode [.bin b.content]).length
      else (env.encode [.arr h.count, .float f.number, .bin b.content]).length)
      = h.shorten.bytes.length + f.bytes.length + b.shorten.bytes.length := by
    have hfloat := henv.float_length f [.bin b.content]
    rw [hid'] at hfloat
    have hrest : (env.encode [.arr h.count, .float f.number, .bin b.content]).length
        = h.shorten.bytes.length + (env.encode [.float f.number, .bin b.content]).length := by
      rw [henv.encode_header, List.length_append]
    rw [hrest, hid', hhead', Nat.add_assoc h.shorten.bytes.length f.bytes.length, ← hfloat]
    simp only [hform]
    split <;> omega
  have hsize : ¬ (h.bytes ++ f.bytes ++ b.bytes ++ payload).length < 2 := by
    have := List.length_pos_of_ne_nil h.bytes_ne_nil
    simp only [List.length_append, Binary.bytes_length]
    omega
  have hwhole : (h.bytes ++ f.bytes ++ b.bytes).length = h.bytes.length + f.bytes.length + b.bytes.length := by
    simp only [List.length_append]
  obtain ⟨raw, hraw, hiff⟩ : ∃ raw, splice (h.bytes ++ f.bytes ++ b.bytes ++ payload)
      (h.shorten.bytes.length + f.bytes.length + b.shorten.bytes.length) = some raw ∧ (raw = payload ↔ _) :=
    splice_append (by omega)
  refine ⟨raw, ?_, ?_⟩
  · unfold unpackRequestEnvelope
    rw [if_neg hsize, hdecode]
    simp only [hcursor, if_neg (Nat.not_lt.mpr hcount), hraw, Option.map_some]
  · rw [hiff, hwhole, ← hheadEq, ← hidEq]
    omega

/-! ## Joining -/

/-- What `pack_response_envelope` joins, in the shortest forms. -/
theorem packResponseEnvelope_bytes (b : Binary) (payload : Bytes) :
    packResponseEnvelope env b.content payload
      = (ArrayHeader.mk .fixarray 2 (by decide)).bytes ++ b.shorten.bytes ++ payload := by
  unfold packResponseEnvelope
  rw [henv.encode_array ⟨.fixarray, 2, by decide⟩ _ rfl, henv.encode_content, henv.encode_nil, List.append_nil]

theorem packRequestEnvelope_bytes (f : FloatValue) (hform : f.form = .float64) (b : Binary) (payload : Bytes) :
    ∃ g : FloatValue, g.number = f.number ∧ packRequestEnvelope env f.number b.content payload
      = (ArrayHeader.mk .fixarray 3 (by decide)).bytes ++ g.bytes ++ b.shorten.bytes ++ payload := by
  obtain ⟨g, -, hnumber, hpacked⟩ := henv.encode_float f hform
  refine ⟨g, hnumber, ?_⟩
  unfold packRequestEnvelope
  rw [henv.encode_array ⟨.fixarray, 3, by decide⟩ _ rfl, hpacked, henv.encode_content, henv.encode_nil,
    List.append_nil]
  simp only [List.append_assoc]

end Packs

/-- For every codec as described: an envelope that was packed here is split where it was joined, whatever the
time, the id or path hash, and the payload; and of one in any other valid forms the payload is what follows the
id exactly if the array header and the id are in their shortest forms.
-/
theorem envelope_split_iff (env : Env) (henv : env.Packs) :
    (∀ requestId payload, requestId.length < 2 ^ 32 →
        unpackResponseEnvelope env (packResponseEnvelope env requestId payload) = some (requestId, payload))
      ∧ (∀ (timestamp : FloatValue) pathHash payload, timestamp.form = .float64 → pathHash.length < 2 ^ 32 →
        unpackRequestEnvelope env (packRequestEnvelope env timestamp.number pathHash payload)
          = some { requestedAt := timestamp.number, pathHash, requestData := payload })
      ∧ (∀ (h : ArrayHeader) (b : Binary) (payload : Bytes), 2 ≤ h.count →
        ∃ raw, unpackResponseEnvelope env (h.bytes ++ b.bytes ++ payload) = some (b.content, raw)
          ∧ (raw = payload ↔ h.Shortest ∧ b.Shortest))
      ∧ (∀ (h : ArrayHeader) (f : FloatValue) (b : Binary) (payload : Bytes), 3 ≤ h.count →
        ∃ raw, unpackRequestEnvelope env (h.bytes ++ f.bytes ++ b.bytes ++ payload)
            = some { requestedAt := f.number, pathHash := b.content, requestData := raw }
          ∧ (raw = payload ↔ h.Shortest ∧ b.Shortest)) := by
  refine ⟨fun requestId payload hlen => ?_, fun timestamp pathHash payload hform hlen => ?_,
    fun h b payload hcount => responseEnvelope_cut henv h hcount b payload,
    fun h f b payload hcount => requestEnvelope_cut henv h hcount f b payload⟩
  · obtain ⟨raw, hunpacked, hiff⟩ := responseEnvelope_cut henv ⟨.fixarray, 2, by decide⟩ (Nat.le_refl 2)
      (Binary.ofContent requestId hlen) payload
    have hpacked : packResponseEnvelope env requestId payload = _ :=
      packResponseEnvelope_bytes henv (Binary.ofContent requestId hlen) payload
    rw [hpacked]
    exact hunpacked.trans (by rw [hiff.mpr ⟨rfl, rfl⟩]; rfl)
  · obtain ⟨g, hnumber, hpacked⟩ := packRequestEnvelope_bytes henv timestamp hform (Binary.ofContent pathHash hlen)
      payload
    obtain ⟨raw, hunpacked, hiff⟩ := requestEnvelope_cut henv ⟨.fixarray, 3, by decide⟩ (Nat.le_refl 3) g
      (Binary.ofContent pathHash hlen) payload
    have hpacked : packRequestEnvelope env timestamp.number pathHash payload = _ := hpacked
    rw [hpacked]
    exact hunpacked.trans (by rw [hiff.mpr ⟨rfl, rfl⟩, hnumber]; rfl)

namespace Sample

/-- Surroundings with a codec for every form. -/
def packingEnv : Env where
  __ := plainEnv tailHash
  encode := pack
  decode := unpack
  encodeFloat32 d := ((FloatValue.ofNumber .float32 d).getD ⟨.float32, 0, by decide⟩).bytes
  isFloat32 b := ((readToken b).elim [] Prod.snd).head? = some 0xCA

theorem packingEnv_packs : packingEnv.Packs where
  decode_array h rest := unpack_append (readToken_array h rest) h.bytes_ne_nil
  decode_binary b rest := unpack_append (readToken_binary b rest) (List.cons_ne_nil _ _)
  decode_float f rest := unpack_append (readToken_float f rest) (List.cons_ne_nil _ _)
  isFloat32 h f rest := by
    have hsecond : packingEnv.isFloat32 (h.bytes ++ (f.bytes ++ rest))
        = decide ((f.bytes ++ rest).head? = some 0xCA) := by
      have hread := readToken_array h (f.bytes ++ rest)
      simp only [packingEnv, hread, Option.elim_some]
    rw [hsecond]
    cases hform : f.form <;> simp [FloatValue.bytes, hform, FloatForm.marker]
  encode_nil := rfl
  encode_array h ts hshort := congrArg (· ++ pack ts) (packToken_array hshort)
  encode_binary b ts hshort := congrArg (· ++ pack ts) (packToken_binary hshort)
  encode_float f hform := by
    obtain ⟨g, hfound, hg, hnumber⟩ := FloatValue.ofNumber_number f
    rw [hform] at hfound hg
    refine ⟨g, hg, hnumber, fun ts => ?_⟩
    have hpacked : packToken (.float f.number) = g.bytes := by
      simp only [packToken, hfound, Option.elim_some]
    exact congrArg (· ++ pack ts) hpacked
  encodeFloat32 d := by
    refine ⟨_, ?_, rfl⟩
    cases hfound : FloatValue.ofNumber .float32 d with
    | none => rfl
    | some g => exact FloatValue.form_of_ofNumber hfound

/-- The header of an array of two in its shortest form, and in the next one. -/
def shortHeader : ArrayHeader := ⟨.fixarray, 2, by decide⟩
def wideHeader : ArrayHeader := ⟨.array16, 2, by decide⟩

/-- An id of one byte. -/
def shortId : Binary := ⟨.bin8, [7], by decide⟩

end Sample

open Sample in
/-- A response in the shortest forms. -/
theorem short_response_split :
    unpackResponseEnvelope packingEnv [0x92, 0xC4, 1, 7, 0xC0] = some ([7], [0xC0]) := by
  obtain ⟨-, -, hresponse, -⟩ := envelope_split_iff packingEnv packingEnv_packs
  obtain ⟨raw, hunpacked, hiff⟩ := hresponse shortHeader shortId [0xC0] (by decide)
  rw [hiff.mpr ⟨rfl, rfl⟩] at hunpacked
  exact hunpacked

open Sample in
/-- A response whose array header has three bytes: the end of the id comes out with the payload. -/
theorem wide_header_shifts_payload : ¬ ∀ (env : Env), env.Packs →
    ∀ (h : ArrayHeader) (b : Binary) (payload requestId raw : Bytes),
      unpackResponseEnvelope env (h.bytes ++ b.bytes ++ payload) = some (requestId, raw) → raw = payload := by
  intro hall
  obtain ⟨raw, hunpacked, hiff⟩ := responseEnvelope_cut packingEnv_packs wideHeader (by decide) shortId [0xC0]
  have hshort := (hiff.mp (hall _ packingEnv_packs wideHeader shortId [0xC0] _ _ hunpacked)).1
  cases hshort

end MicroReticulum.Link
