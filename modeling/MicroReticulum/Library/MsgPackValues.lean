import MicroReticulum.Library.Decoder
import MicroReticulum.Library.MsgPack

/-!
# Values in their shortest forms

`MsgPack` with the numbers of one byte: those below 128 are their own byte, the others have a byte in front. Every
value is written in its shortest form. `packing_lawful` says that `Packable` values come back as they were written,
and that none is read before it is there in full.
-/

namespace MicroReticulum.Library.MsgPack

/-- A value in its shortest form. -/
def packValue : Token → List UInt8
  | .int v =>
    if 0 ≤ v ∧ v < 128 then [UInt8.ofNat v.toNat]
    else if 128 ≤ v ∧ v < 256 then [0xCC, UInt8.ofNat v.toNat]
    else []
  | t => packToken t

/-- The first value and what follows it. -/
def readValue : List UInt8 → Option (Token × List UInt8)
  | [] => none
  | b :: bs =>
    if b.toNat < 128 then some (.int b.toNat, bs)
    else if b = 0xCC then
      match bs with
      | [] => none
      | v :: rest => some (.int v.toNat, rest)
    else readToken (b :: bs)

/-- The values that have a form. -/
def Packable : Token → Prop
  | .nil => True
  | .int v => 0 ≤ v ∧ v < 256
  | .float d => ∃ f : FloatValue, f.form = .float64 ∧ f.number = d
  | .bin b => b.length < 2 ^ 32
  | .arr n => n < 2 ^ 32
  | _ => False

def packing : Packing Token where
  pack := packValue
  read := readValue

/-! ## Reading further -/

theorem readNat_append {width n k : Nat} {bs rest : List UInt8} (h : readNat width n bs = some (k, rest))
    (more : List UInt8) : readNat width n (bs ++ more) = some (k, rest ++ more) := by
  induction width generalizing n bs with
  | zero =>
    cases h
    rfl
  | succ width ih =>
    cases bs with
    | nil => cases h
    | cons b bs => exact ih h

/-- Branch by branch, what one reader gives the other gives as well. -/
theorem ite_some_imp {α β : Type} {c : Prop} [Decidable c] {x y : Option α} {x' y' : Option β} {a : α} {b : β}
    (hx : x = some a → x' = some b) (hy : y = some a → y' = some b) :
    (if c then x else y) = some a → (if c then x' else y') = some b := by
  split
  · exact hx
  · exact hy

/-- What follows a value is not looked at. -/
theorem readToken_append {bs rest : List UInt8} {t : Token} (h : readToken bs = some (t, rest)) (more : List UInt8) :
    readToken (bs ++ more) = some (t, rest ++ more) := by
  cases bs with
  | nil => cases h
  | cons b bs =>
    have harray : ∀ width, readToken.array width bs = some (t, rest) →
        readToken.array width (bs ++ more) = some (t, rest ++ more) := by
      intro width h
      obtain ⟨⟨n, left⟩, hread, heq⟩ := Option.map_eq_some_iff.mp h
      cases heq
      unfold readToken.array
      rw [readNat_append hread]
      rfl
    have hfloat : ∀ form, readToken.float form bs = some (t, rest) →
        readToken.float form (bs ++ more) = some (t, rest ++ more) := by
      intro form h
      obtain ⟨⟨n, left⟩, hread, heq⟩ := Option.map_eq_some_iff.mp h
      cases heq
      unfold readToken.float
      rw [readNat_append hread]
      rfl
    have hbinary : ∀ width, readToken.binary width bs = some (t, rest) →
        readToken.binary width (bs ++ more) = some (t, rest ++ more) := by
      intro width h
      obtain ⟨⟨n, left⟩, hread, heq⟩ := Option.bind_eq_some_iff.mp h
      dsimp only at heq
      split at heq
      · cases heq
      · next hlen =>
        cases heq
        have hle : n ≤ left.length := Nat.not_lt.mp hlen
        unfold readToken.binary
        rw [readNat_append hread]
        show (if (left ++ more).length < n then none else some _) = _
        rw [if_neg (by rw [List.length_append]; omega), List.take_append_of_le_length hle,
          List.drop_append_of_le_length hle]
    have hplain : ∀ t', some (t', bs) = some (t, rest) → some (t', bs ++ more) = some (t, rest ++ more) := by
      rintro _ ⟨⟩
      rfl
    revert h
    refine ite_some_imp (hplain _) (ite_some_imp (hplain _) ?_)
    refine ite_some_imp (harray 2) (ite_some_imp (harray 4) ?_)
    refine ite_some_imp (hbinary 1) (ite_some_imp (hbinary 2) (ite_some_imp (hbinary 4) ?_))
    exact ite_some_imp (hfloat .float32) (ite_some_imp (hfloat .float64) nofun)

theorem readValue_append (bs more : List UInt8) (t : Token) (rest : List UInt8)
    (h : readValue bs = some (t, rest)) : readValue (bs ++ more) = some (t, rest ++ more) := by
  cases bs with
  | nil => cases h
  | cons b bs =>
    revert h
    refine ite_some_imp (fun h => ?_) (ite_some_imp (fun h => ?_) fun h => readToken_append h more)
    · cases h
      rfl
    · cases bs with
      | nil => cases h
      | cons v bs =>
        cases h
        rfl

/-! ## Writing and reading -/

/-- A value that does not start like a number is read by `readToken`. -/
theorem readValue_cons {b : UInt8} (hlow : 128 ≤ b.toNat) (hbyte : b ≠ 0xCC) (bs : List UInt8) :
    readValue (b :: bs) = readToken (b :: bs) := by
  show (if b.toNat < 128 then _ else if b = 0xCC then _ else _) = _
  rw [if_neg (Nat.not_lt.mpr hlow), if_neg hbyte]

theorem readValue_int {v : Int} (hv : 0 ≤ v ∧ v < 256) (rest : List UInt8) :
    readValue (packValue (.int v) ++ rest) = some (.int v, rest) := by
  have hbyte : (UInt8.ofNat v.toNat).toNat = v.toNat := by
    rw [UInt8.toNat_ofNat', Nat.mod_eq_of_lt (by omega)]
  have hback : ((UInt8.ofNat v.toNat).toNat : Int) = v := by
    rw [hbyte]
    omega
  by_cases hlow : v < 128
  · have hpack : packValue (.int v) = [UInt8.ofNat v.toNat] := if_pos ⟨hv.1, hlow⟩
    rw [hpack]
    show (if (UInt8.ofNat v.toNat).toNat < 128 then _ else _) = _
    rw [if_pos (by omega), hback]
    rfl
  · have hpack : packValue (.int v) = [0xCC, UInt8.ofNat v.toNat] :=
      (if_neg fun h => hlow h.2).trans (if_pos ⟨Int.not_lt.mp hlow, hv.2⟩)
    rw [hpack]
    show some (Token.int ((UInt8.ofNat v.toNat).toNat : Int), rest) = _
    rw [hback]

theorem readValue_array (h : ArrayHeader) (rest : List UInt8) :
    readValue (h.bytes ++ rest) = some (.arr h.count, rest) := by
  rw [← readToken_array h rest]
  obtain ⟨form, count, hfits⟩ := h
  cases form with
  | fixarray =>
    simp only [ArrayForm.bound] at hfits
    have hbyte : (UInt8.ofNat (0x90 + count)).toNat = 0x90 + count := by
      rw [UInt8.toNat_ofNat', Nat.mod_eq_of_lt (by omega)]
    refine readValue_cons (by rw [hbyte]; omega) (fun heq => ?_) _
    have hcount := congrArg UInt8.toNat heq
    rw [hbyte] at hcount
    have hmarker : (0xCC : UInt8).toNat = 204 := rfl
    omega
  | _ => exact readValue_cons (by decide) (by decide) _

theorem readValue_binary (b : Binary) (rest : List UInt8) :
    readValue (b.bytes ++ rest) = some (.bin b.content, rest) := by
  rw [← readToken_binary b rest]
  have hmarker : 128 ≤ b.form.marker.toNat ∧ b.form.marker ≠ 0xCC := by cases b.form <;> decide
  exact readValue_cons hmarker.1 hmarker.2 _

theorem readValue_float (f : FloatValue) (rest : List UInt8) :
    readValue (f.bytes ++ rest) = some (.float f.number, rest) := by
  rw [← readToken_float f rest]
  have hmarker : 128 ≤ f.form.marker.toNat ∧ f.form.marker ≠ 0xCC := by cases f.form <;> decide
  exact readValue_cons hmarker.1 hmarker.2 _

theorem readValue_packValue {t : Token} (ht : Packable t) (rest : List UInt8) :
    readValue (packValue t ++ rest) = some (t, rest) := by
  cases t with
  | nil => rfl
  | int v => exact readValue_int ht rest
  | float d =>
    obtain ⟨f, hform, rfl⟩ := ht
    obtain ⟨g, hg, -, hnumber⟩ := FloatValue.ofNumber_number f
    have hpack : packValue (.float f.number) = g.bytes := by
      show (FloatValue.ofNumber .float64 f.number).elim [] FloatValue.bytes = _
      rw [← hform, hg]
      rfl
    rw [hpack, readValue_float, hnumber]
  | bin b =>
    have hpack : packValue (.bin b) = (Binary.ofContent b ht).bytes := dif_pos ht
    rw [hpack]
    exact readValue_binary _ rest
  | arr n =>
    have hpack : packValue (.arr n) = (ArrayHeader.mk .array32 n ht).shorten.bytes := dif_pos ht
    rw [hpack]
    exact readValue_array _ rest
  | bool | str | map | ext => exact ht.elim

theorem packValue_ne_nil {t : Token} (ht : Packable t) : packValue t ≠ [] := by
  intro hnil
  have hread := readValue_packValue ht []
  rw [hnil] at hread
  cases hread

theorem packing_lawful : packing.Lawful Packable where
  reads _ ht := .of_extends (readValue_packValue ht) readValue_append
  pack_ne_nil _ ht := packValue_ne_nil ht

end MicroReticulum.Library.MsgPack
