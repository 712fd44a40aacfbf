import MicroReticulum.Provisioning.Field

/-!
# Values on the wire

`Codec::unpack_value` and `Codec::pack_value`, and the casts that turn wire integers into
identifiers. The reader of the `MsgPack` library is a cursor over the objects of a message: a type
test looks at the next object, a `deserialize` of a tested type passes it, and at the end of the
message no type test succeeds.

`unpackValue` does not always pass the value it is asked to read. `unpackValue_of_wireMatches` and
`unpackValue_of_not_wireMatches` say when it does and that otherwise it stays behind.
-/

namespace MicroReticulum.Provisioning

open MicroReticulum Library

/-! ## Wire integers -/

/-- `deserialize` into an `fint_t`. -/
def wireInt (v : Int) : Int64 := Int64.ofInt v

/-- The casts to `nid_t` and `fid_t`. -/
def narrowId (i : Int64) : UInt16 := i.toUInt64.toUInt16

/-- The cast to `opid_t`. -/
def narrowOp (i : Int64) : UInt8 := i.toUInt64.toUInt8

/-- The namespace id, field id or key the code reads from a wire integer. -/
def idOfWire (v : Int) : UInt16 := narrowId (wireInt v)

theorem toNat_idOfWire (v : Int) : ((idOfWire v).toNat : Int) = v % 65536 := by
  unfold idOfWire narrowId wireInt
  rw [UInt64.toNat_toUInt16, ← UInt64.toNat_toBitVec, Int64.toBitVec_toUInt64,
    Int64.toBitVec_ofInt, BitVec.toNat_ofInt]
  omega

theorem toNat_opOfWire (v : Int) : ((narrowOp (wireInt v)).toNat : Int) = v % 256 := by
  unfold narrowOp wireInt
  rw [UInt64.toNat_toUInt8, ← UInt64.toNat_toBitVec, Int64.toBitVec_toUInt64,
    Int64.toBitVec_ofInt, BitVec.toNat_ofInt]
  omega

/-! ## The codec -/

/-- The position of the reader: the objects it has not read. -/
abbrev Cursor : Type := List Token

/-- What is known of the integer-to-double conversion of the reader. -/
abbrev FloatOfInt : Type := Int → Double

/-- The elements of a bytes list: the reader stops, inside the list, at the first element that is
not a byte string. -/
def unpackBins : Nat → Cursor → Option (List Bytes) × Cursor
  | 0, c => (some [], c)
  | n + 1, .bin b :: rest =>
    match unpackBins n rest with
    | (some l, c) => (some (b :: l), c)
    | (none, c) => (none, c)
  | _ + 1, c => (none, c)

/-- `Codec::unpack_value`. Where it answers `false` for a scalar the reader has not moved. -/
def unpackValue (floatOfInt : FloatOfInt) : FieldType → Cursor → Option Value × Cursor
  | .bool, .bool b :: rest => (some (.bool b), rest)
  | .int, .int v :: rest => (some (.int (wireInt v)), rest)
  | .enum, .int v :: rest => (some (.enum (wireInt v)), rest)
  | .float, .float d :: rest => (some (.float d), rest)
  | .float, .int v :: rest => (some (.float (floatOfInt v)), rest)
  | .string, .str s :: rest => (some (.string s), rest)
  | .bytes, .bin b :: rest => (some (.bytes b), rest)
  | .bytesList, .arr n :: rest =>
    match unpackBins n rest with
    | (some l, c) => (some (.bytesList l), c)
    | (none, c) => (none, c)
  | .void, .nil :: rest => (some .void, rest)
  | _, c => (none, c)

/-- A string passed as a C string. -/
def cString (s : Bytes) : Bytes := s.takeWhile (· ≠ 0)

/-- `Codec::pack_value`; nothing is packed for an empty value. -/
def packValue : Value → List Token
  | .none => []
  | .bool b => [.bool b]
  | .int i => [.int i.toInt]
  | .enum i => [.int i.toInt]
  | .float d => [.float d]
  | .string s => [.str (cString s)]
  | .bytes b => [.bin b]
  | .bytesList l => .arr l.length :: l.map .bin
  | .void => [.nil]

/-- Is the value a byte string? -/
def isBin : Object → Bool
  | .bin _ => true
  | _ => false

/-- The contents of a byte string. -/
def binOf : Object → Bytes
  | .bin b => b
  | _ => []

/-! ## Reading a complete value -/

/-- The wire type of a value fits the declared type. -/
def wireMatches : FieldType → Object → Bool
  | .bool, .bool _ => true
  | .int, .int _ => true
  | .enum, .int _ => true
  | .float, .float _ => true
  | .float, .int _ => true
  | .string, .str _ => true
  | .bytes, .bin _ => true
  | .bytesList, .arr items => items.all isBin
  | .void, .nil => true
  | _, _ => false

/-- The value read where the wire type fits. -/
def valueOf (floatOfInt : FloatOfInt) : FieldType → Object → Value
  | .bool, .bool b => .bool b
  | .int, .int v => .int (wireInt v)
  | .enum, .int v => .enum (wireInt v)
  | .float, .float d => .float d
  | .float, .int v => .float (floatOfInt v)
  | .string, .str s => .string s
  | .bytes, .bin b => .bytes b
  | .bytesList, .arr items => .bytesList (items.map binOf)
  | .void, .nil => .void
  | _, _ => .none

theorem tokens_ne_nil (o : Object) : o.tokens ≠ [] := by
  cases o <;> simp [Object.tokens]

/-- A list of byte strings is read to its end. -/
theorem unpackBins_of_all {items : List Object} (h : items.all isBin = true) (rest : Cursor) :
    unpackBins items.length (Object.itemTokens items ++ rest) = (some (items.map binOf), rest) := by
  induction items with
  | nil => rfl
  | cons o os ih =>
    simp only [List.all_cons, Bool.and_eq_true] at h
    cases o with
    | bin b =>
      simp only [Object.itemTokens, Object.tokens, List.length_cons, List.cons_append,
        List.nil_append, unpackBins, ih h.2]
      rfl
    | _ => exact absurd h.1 Bool.false_ne_true

theorem unpackBins_of_not_isBin {o : Object} (h : isBin o = false) (n : Nat) (tail : Cursor) :
    unpackBins (n + 1) (o.tokens ++ tail) = (none, o.tokens ++ tail) := by
  cases o with
  | bin b => cases h
  | _ => rfl

/-- Any other list is left somewhere before its end. -/
theorem unpackBins_of_not_all {items : List Object} (h : items.all isBin = false) (rest : Cursor) :
    ∃ c, unpackBins items.length (Object.itemTokens items ++ rest) = (none, c)
      ∧ rest.length < c.length := by
  induction items with
  | nil => exact absurd h.symm Bool.false_ne_true
  | cons o os ih =>
    simp only [Object.itemTokens, List.append_assoc, List.length_cons]
    cases hbin : isBin o with
    | false =>
      have hpos := List.length_pos_iff.mpr (tokens_ne_nil o)
      refine ⟨_, unpackBins_of_not_isBin hbin _ _, ?_⟩
      simp only [List.length_append]
      omega
    | true =>
      simp only [List.all_cons, hbin, Bool.true_and] at h
      obtain ⟨c, hc, hlen⟩ := ih h
      refine ⟨c, ?_, hlen⟩
      cases o with
      | bin b => simp only [Object.tokens, List.cons_append, List.nil_append, unpackBins, hc]
      | _ => exact absurd hbin Bool.false_ne_true

/-- A value of the right wire type is read and passed. -/
theorem unpackValue_of_wireMatches (floatOfInt : FloatOfInt) {t : FieldType} {o : Object}
    (h : wireMatches t o = true) (rest : Cursor) :
    unpackValue floatOfInt t (o.tokens ++ rest) = (some (valueOf floatOfInt t o), rest) := by
  cases t <;> cases o <;> try exact absurd h Bool.false_ne_true
  case bytesList.arr items =>
    simp only [Object.tokens, List.cons_append, unpackValue, unpackBins_of_all h]
    rfl
  all_goals rfl

/-- A value of another wire type is refused and not passed. -/
theorem unpackValue_of_not_wireMatches (floatOfInt : FloatOfInt) {t : FieldType} {o : Object}
    (h : wireMatches t o = false) (rest : Cursor) :
    ∃ c, unpackValue floatOfInt t (o.tokens ++ rest) = (none, c) ∧ rest.length < c.length := by
  have hstays : unpackValue floatOfInt t (o.tokens ++ rest) = (none, o.tokens ++ rest) →
      ∃ c, unpackValue floatOfInt t (o.tokens ++ rest) = (none, c) ∧ rest.length < c.length := by
    intro hrun
    refine ⟨_, hrun, ?_⟩
    have := List.length_pos_iff.mpr (tokens_ne_nil o)
    rw [List.length_append]
    omega
  cases t <;> cases o <;> try exact absurd h.symm Bool.false_ne_true
  case bytesList.arr items =>
    obtain ⟨c, hc, hlen⟩ := unpackBins_of_not_all h rest
    refine ⟨c, ?_, hlen⟩
    simp only [Object.tokens, List.cons_append, unpackValue, hc]
  all_goals exact hstays rfl

/-- What is read has the declared type. -/
theorem type_of_unpackValue {floatOfInt : FloatOfInt} {t : FieldType} {c c' : Cursor} {v : Value}
    (h : unpackValue floatOfInt t c = (some v, c')) : v.type = t := by
  unfold unpackValue at h
  split at h
  case h_8 =>
    split at h
    · cases h; rfl
    · cases h
  case h_10 => cases h
  all_goals cases h; rfl

end MicroReticulum.Provisioning
