import MicroReticulum.Provisioning.LoadEntries
import MicroReticulum.Provisioning.Progress
import Mathlib.Data.List.TakeWhile

/-!
# Values on the wire and in a file, and back

`pack_value` hands a text over as a C string, so what follows a zero byte is not packed; every other value is read back
as it was, and nothing behind it is touched (`unpack_packValue`). `values_survive_iff` says the same of the settings
file of a namespace, where the loader has a second say: it leaves a value that the field does not validate.
-/

namespace MicroReticulum.Provisioning

open MicroReticulum Library

variable {R F : Type} {env : Env F} {d : NamespaceDecl R}

/-! ## One value -/

/-- The object a value is packed as. -/
def packed : Value → Object
  | .none => .nil
  | .bool b => .bool b
  | .int i => .int i.toInt
  | .enum i => .int i.toInt
  | .float x => .float x
  | .string s => .str (cString s)
  | .bytes b => .bin b
  | .bytesList l => .arr (l.map .bin)
  | .void => .nil

/-- The value as far as it is packed. -/
def Value.cut : Value → Value
  | .string s => .string (cString s)
  | v => v

/-- No zero byte in a text. -/
def Value.Whole (v : Value) : Prop := ∀ s, v = .string s → 0 ∉ s

/-- A text survives the C string it is copied into exactly when it holds no zero byte. -/
theorem cString_eq_iff (s : Bytes) : cString s = s ↔ 0 ∉ s := by
  unfold cString
  rw [List.takeWhile_eq_self_iff]
  constructor
  · intro h hzero
    exact absurd (h 0 hzero) (by decide)
  · intro h b hb
    exact decide_eq_true fun hzero => h (hzero ▸ hb)

/-- What a C string keeps holds no zero byte. -/
theorem zero_not_mem_cString (s : Bytes) : 0 ∉ cString s := by
  intro hzero
  have hnot := List.mem_takeWhile_imp hzero
  simp at hnot

/-- A value is unchanged by the cut exactly when it is whole. -/
theorem cut_eq_iff (v : Value) : v.cut = v ↔ v.Whole := by
  cases v with
  | string s =>
    show Value.string (cString s) = .string s ↔ ∀ t, Value.string s = .string t → 0 ∉ t
    rw [Value.string.injEq, cString_eq_iff]
    exact ⟨fun h t ht => Value.string.inj ht ▸ h, fun h => h s rfl⟩
  | _ => exact iff_of_true rfl nofun

/-- The items of a list of byte strings are those byte strings. -/
theorem itemTokens_bins (l : List Bytes) : Object.itemTokens (l.map .bin) = l.map .bin := by
  induction l with
  | nil => rfl
  | cons b l ih =>
    rw [List.map_cons, Object.itemTokens, ih]
    rfl

/-- Packing a value writes the tokens of one object. -/
theorem packValue_tokens {v : Value} (h : v ≠ .none) : packValue v = (packed v).tokens := by
  cases v with
  | none => exact absurd rfl h
  | bytesList l =>
    show Token.arr l.length :: l.map .bin = .arr (l.map Object.bin).length :: Object.itemTokens (l.map .bin)
    rw [itemTokens_bins, List.length_map]
  | _ => rfl

/-- The object a value is packed into is one the reader of its type accepts. -/
theorem wireMatches_packed {v : Value} (h : v ≠ .none) : wireMatches v.type (packed v) = true := by
  cases v with
  | none => exact absurd rfl h
  | bytesList l =>
    apply List.all_eq_true.mpr
    intro o ho
    obtain ⟨b, -, rfl⟩ := List.mem_map.mp ho
    rfl
  | _ => rfl

/-- A 64-bit integer comes back from the wire as itself. -/
theorem wireInt_toInt (i : Int64) : wireInt i.toInt = i := Int64.ofInt_toInt i

/-- Reading a packed value gives the value as far as a C string keeps it. -/
theorem valueOf_packed (floatOfInt : FloatOfInt) (v : Value) (h : v ≠ .none) :
    valueOf floatOfInt v.type (packed v) = v.cut := by
  cases v with
  | none => exact absurd rfl h
  | int i => exact congrArg Value.int (wireInt_toInt i)
  | enum i => exact congrArg Value.enum (wireInt_toInt i)
  | bytesList l =>
    show Value.bytesList ((l.map Object.bin).map binOf) = .bytesList l
    rw [List.map_map]
    exact congrArg Value.bytesList (List.map_id l)
  | _ => rfl

/-- A value is read back as far as it was packed, and the reader is left behind it. -/
theorem unpack_packValue (floatOfInt : FloatOfInt) {v : Value} (h : v ≠ .none) (rest : Cursor) :
    unpackValue floatOfInt v.type (packValue v ++ rest) = (some v.cut, rest) := by
  rw [packValue_tokens h, unpackValue_of_wireMatches floatOfInt (wireMatches_packed h), valueOf_packed floatOfInt v h]

/-- A value survives being written and read exactly when it is a value and is whole. -/
theorem survives_iff (floatOfInt : FloatOfInt) (v : Value) :
    (∀ rest, unpackValue floatOfInt v.type (packValue v ++ rest) = (some v, rest)) ↔ v ≠ .none ∧ v.Whole := by
  by_cases h : v = .none
  case pos =>
    subst h
    refine iff_of_false (fun hall => ?_) fun hboth => hboth.1 rfl
    cases congrArg Prod.fst (hall [])
  case neg =>
    rw [and_iff_right h, ← cut_eq_iff]
    constructor
    · intro hall
      have heq := (unpack_packValue floatOfInt h []).symm.trans (hall [])
      exact Option.some.inj (congrArg Prod.fst heq)
    · intro hcut rest
      rw [unpack_packValue floatOfInt h, hcut]

/-! ## The file of a namespace -/

/-- The entries of the file. -/
def savedEntries (d : NamespaceDecl R) (s : NamespaceState) (r : R) : List (Object × Object) :=
  (persisted d s r).map fun f => (.int f.id.toNat, packed (d.persistValue s r f))

/-- A persisted field is one of the namespace, and has a value to persist. -/
theorem mem_persisted {s : NamespaceState} {r : R} {f : Field R} (h : f ∈ persisted d s r) :
    f ∈ d.fields ∧ d.persistValue s r f ≠ .none := by
  obtain ⟨hmem, hflags⟩ := List.mem_filter.mp h
  refine ⟨hmem, fun hnone => ?_⟩
  rw [hnone] at hflags
  simp [Value.isNone, Value.type] at hflags

/-- The file of a namespace is one map of its saved entries. -/
theorem packNamespaceWorking_tokens (d : NamespaceDecl R) (s : NamespaceState) (r : R) :
    packNamespaceWorking d s r = (Object.map (savedEntries d s r)).tokens := by
  have hentries : ∀ l : List (Field R), (∀ f ∈ l, f ∈ persisted d s r) →
      (l.flatMap fun f => Token.int f.id.toNat :: packValue (d.persistValue s r f))
        = Object.entryTokens (l.map fun f => (.int f.id.toNat, packed (d.persistValue s r f))) := by
    intro l
    induction l with
    | nil => exact fun _ => rfl
    | cons f l ih =>
      intro hl
      have hsome := (mem_persisted (hl f List.mem_cons_self)).2
      rw [List.flatMap_cons, ih fun g hg => hl g (List.mem_cons_of_mem _ hg), packValue_tokens hsome, List.map_cons,
        Object.entryTokens]
      rfl
  show Token.map _ :: _ = Token.map (savedEntries d s r).length :: Object.entryTokens (savedEntries d s r)
  rw [hentries _ fun f hf => hf, savedEntries, List.length_map]

/-- The id of a field comes back from the wire as itself. -/
theorem idOfWire_toNat (id : FieldId) : idOfWire (id.toNat : Int) = id := by
  have hwire := toNat_idOfWire (id.toNat : Int)
  have := id.toNat_lt
  apply UInt16.toNat_inj.mp
  omega

/-- Pairs that do not name a field leave its value alone. -/
theorem lookup_foldl_putPair {s : NamespaceState} {pairs : List (FieldId × Value)} {id : FieldId}
    (h : ∀ v, (id, v) ∉ pairs) : (pairs.foldl putPair s).working.lookup id = s.working.lookup id := by
  induction pairs generalizing s with
  | nil => rfl
  | cons e pairs ih =>
    rw [List.foldl_cons, ih fun v hmem => h v (List.mem_cons_of_mem _ hmem), putPair,
      NamespaceState.lookup_putWorking, if_neg]
    rintro rfl
    exact h e.2 List.mem_cons_self

/-- What is set once is there. -/
theorem lookup_foldl_of_mem {s : NamespaceState} {pairs : List (FieldId × Value)} (hnodup : (pairs.map Prod.fst).Nodup)
    {id : FieldId} {v : Value} (h : (id, v) ∈ pairs) : (pairs.foldl putPair s).working.lookup id = some v := by
  induction pairs generalizing s with
  | nil => cases h
  | cons e pairs ih =>
    rw [List.map_cons, List.nodup_cons] at hnodup
    rcases List.mem_cons.mp h with rfl | hlater
    · have hother (w : Value) : (id, w) ∉ pairs := fun hmem => hnodup.1 (List.mem_map.mpr ⟨(id, w), hmem, rfl⟩)
      rw [List.foldl_cons, lookup_foldl_putPair hother, putPair, NamespaceState.lookup_putWorking, if_pos rfl]
    · exact ih hnodup.2 hlater

/-- What is there was set, or was there before. -/
theorem mem_of_lookup_foldl {s : NamespaceState} {pairs : List (FieldId × Value)} {id : FieldId} {v : Value}
    (h : (pairs.foldl putPair s).working.lookup id = some v) : (id, v) ∈ pairs ∨ s.working.lookup id = some v := by
  induction pairs generalizing s with
  | nil => exact .inr h
  | cons e pairs ih =>
    rcases ih h with hmem | hset
    · exact .inl (List.mem_cons_of_mem _ hmem)
    · rw [putPair, NamespaceState.lookup_putWorking] at hset
      split at hset
      case isTrue hid =>
        obtain rfl := Option.some.inj hset
        exact .inl (hid ▸ List.mem_cons_self)
      case isFalse => exact .inr hset

/-- The texts ahead have no zero byte. -/
def Clean (c : Cursor) : Prop := ∀ s, Token.str s ∈ c → 0 ∉ s

/-- What is left of clean bytes is clean. -/
theorem Clean.suffix {c c' : Cursor} (h : Clean c) (hsuffix : c' <:+ c) : Clean c' :=
  fun s hs => h s (hsuffix.subset hs)

/-- A packed value is clean: none of its texts holds a zero byte. -/
theorem clean_packValue (v : Value) : Clean (packValue v) := by
  intro s hs
  cases v with
  | string t =>
    obtain rfl := Token.str.inj (List.mem_singleton.mp hs)
    exact zero_not_mem_cString t
  | bytesList l =>
    rcases List.mem_cons.mp hs with heq | hmem
    · cases heq
    · obtain ⟨b, -, heq⟩ := List.mem_map.mp hmem
      cases heq
  | none => cases hs
  | _ => cases List.mem_singleton.mp hs

/-- A text is read where it stands. -/
theorem whole_of_unpackValue {floatOfInt : FloatOfInt} {t : FieldType} {c c' : Cursor} {v : Value} (hc : Clean c)
    (h : unpackValue floatOfInt t c = (some v, c')) : v.Whole := by
  rintro s rfl
  have htype : t = .string := (type_of_unpackValue h).symm
  subst htype
  cases c with
  | nil => cases h
  | cons token rest =>
    cases token with
    | str u =>
      obtain rfl := Value.string.inj (Option.some.inj (congrArg Prod.fst h))
      exact hc u List.mem_cons_self
    | _ => cases h

/-- Reading one entry leaves a suffix of what was there. -/
theorem entryValue_suffix (env : Env F) (d : NamespaceDecl R) (c : Cursor) : (entryValue env d c).2 <:+ c := by
  have h : (workingEntry env d c {}).2 <:+ c := (workingEntry_moves d c {}).suffix
  rwa [workingEntry_eq] at h

/-- From clean bytes one entry gives whole values only. -/
theorem whole_of_entryValue {c : Cursor} (hc : Clean c) {e : Field R × Value} (h : e ∈ (entryValue env d c).1) :
    e.2.Whole := by
  unfold entryValue at h
  split at h
  case h_2 => cases h
  case h_1 k rest =>
    split at h
    · cases h
    · split at h
      · cases h
      · rename_i hread
        obtain rfl := List.mem_singleton.mp h
        exact whole_of_unpackValue (hc.suffix (List.suffix_cons _ _)) hread

/-- From clean bytes any number of entries give whole values only. -/
theorem whole_of_gather {n : Nat} {c : Cursor} (hc : Clean c) {e : Field R × Value}
    (h : e ∈ (gather (entryValue env d) n c).1) : e.2.Whole := by
  induction n generalizing c with
  | zero => cases h
  | succ n ih =>
    rcases List.mem_append.mp h with hhere | hlater
    · exact whole_of_entryValue hc hhere
    · exact ih (hc.suffix (entryValue_suffix env d c)) hlater

/-- What is set from a saved file is valid and whole. -/
theorem fileSets_saved {s : NamespaceState} {r : R} {f : Field R} (hf : f ∈ d.fields) {v : Value}
    (h : (f.id, v) ∈ fileSets env d (packNamespaceWorking d s r)) : f.validate v = true ∧ v.Whole := by
  obtain ⟨e, he, heq⟩ := List.mem_map.mp h
  obtain ⟨hvalue, hvalid⟩ := List.mem_filter.mp he
  obtain ⟨hid, rfl⟩ := Prod.mk.inj heq
  have hfind := fileValues_mem env d _ e hvalue
  rw [hid, NamespaceDecl.findField_of_mem hf] at hfind
  obtain rfl := Option.some.inj hfind
  refine ⟨hvalid, ?_⟩
  have hclean :
      Clean ((persisted d s r).flatMap fun f => Token.int f.id.toNat :: packValue (d.persistValue s r f)) := by
    intro t ht
    obtain ⟨g, -, hg⟩ := List.mem_flatMap.mp ht
    rcases List.mem_cons.mp hg with heq | hmem
    · cases heq
    · exact clean_packValue _ t hmem
  exact whole_of_gather hclean hvalue

/-- Every persisted field is restored, whatever the namespace had before the load. -/
def Restores (env : Env F) (d : NamespaceDecl R) (s : NamespaceState) (r : R) : Prop :=
  ∀ before, ∀ f ∈ persisted d s r,
    (unpackNamespaceWorking env d (packNamespaceWorking d s r) before).2.workingValue f.id = d.persistValue s r f

/-- Where the file restores a namespace, every persisted value is valid and whole. -/
theorem valid_of_restores {s : NamespaceState} {r : R} (h : Restores env d s r) {f : Field R}
    (hf : f ∈ persisted d s r) : f.validate (d.persistValue s r f) = true ∧ (d.persistValue s r f).Whole := by
  obtain ⟨hmem, hsome⟩ := mem_persisted hf
  have hrestored := h {} f hf
  rw [unpackNamespaceWorking_sets] at hrestored
  unfold NamespaceState.workingValue at hrestored
  cases hlookup : ((fileSets env d (packNamespaceWorking d s r)).foldl putPair {}).working.lookup f.id with
  | none =>
    rw [hlookup] at hrestored
    exact absurd hrestored.symm hsome
  | some v =>
    rw [hlookup] at hrestored
    obtain rfl : v = d.persistValue s r f := hrestored
    exact fileSets_saved hmem ((mem_of_lookup_foldl hlookup).resolve_right nofun)

/-- Where every persisted value is valid and whole, the file restores the namespace. -/
theorem restores_of_valid {s : NamespaceState} {r : R}
    (h : ∀ f ∈ persisted d s r, f.validate (d.persistValue s r f) = true ∧ (d.persistValue s r f).Whole) :
    Restores env d s r := by
  have hfind {f : Field R} (hf : f ∈ persisted d s r) : d.findField (idOfWire f.id.toNat) = some f := by
    rw [idOfWire_toNat]
    exact NamespaceDecl.findField_of_mem (mem_persisted hf).1
  have hmatch {f : Field R} (hf : f ∈ persisted d s r) : wireMatches f.type (packed (d.persistValue s r f)) = true :=
    Field.type_of_validate (h f hf).1 ▸ wireMatches_packed (mem_persisted hf).2
  have hvalue {f : Field R} (hf : f ∈ persisted d s r) :
      valueOf env.floatOfInt f.type (packed (d.persistValue s r f)) = d.persistValue s r f := by
    rw [← Field.type_of_validate (h f hf).1, valueOf_packed _ _ (mem_persisted hf).2]
    exact (cut_eq_iff _).mpr (h f hf).2
  have hgood : OnlyGood env d (savedEntries d s r) [] := by
    refine (only_good_iff env d _ []).mpr ⟨(workingLoop env d).allButLast_of_all ?_, ?_⟩
    · intro e he
      obtain ⟨f, hf, rfl⟩ := List.mem_map.mp he
      exact (fieldPassed_found _ (hfind hf)).mpr (hmatch hf)
    · intro e he
      obtain ⟨f, hf, rfl⟩ := List.mem_map.mp he
      rintro ⟨k, g, hk, hg, hother, -⟩
      obtain rfl := Object.int.inj hk
      obtain rfl := Option.some.inj ((hfind hf).symm.trans hg)
      exact hother rfl
  have hsets : (savedEntries d s r).flatMap (setsOf env d)
      = (persisted d s r).map fun f => (f.id, d.persistValue s r f) := by
    unfold savedEntries
    rw [List.flatMap_map]
    have hone : ∀ f ∈ persisted d s r, setsOf env d (.int f.id.toNat, packed (d.persistValue s r f))
        = [(f.id, d.persistValue s r f)] := by
      intro f hf
      unfold setsOf
      dsimp only
      rw [find_exact_iff.mpr ⟨hfind hf, rfl⟩]
      show acceptedFor env f _ = _
      rw [acceptedFor, hvalue hf, if_pos ⟨hmatch hf, (h f hf).1⟩]
    rw [List.flatMap_congr hone]
    exact List.flatMap_pure_eq_map _ _
  intro before f hf
  have hresult := congrArg Prod.snd (hgood.result before)
  rw [List.append_nil, ← packNamespaceWorking_tokens, hsets] at hresult
  rw [hresult]
  unfold NamespaceState.workingValue
  rw [lookup_foldl_of_mem (v := d.persistValue s r f)]
  · rfl
  · rw [List.map_map]
    exact (d.distinct.sublist (List.filter_sublist.map Field.id))
  · exact List.mem_map.mpr ⟨f, hf, rfl⟩

/-- A value survives the wire exactly if it is one and has no zero byte in a text; the values of a namespace survive its
file exactly if that holds of each and each is valid for its field. -/
theorem values_survive_iff (env : Env F) (v : Value) (d : NamespaceDecl R) (s : NamespaceState) (r : R) :
    ((∀ rest, unpackValue env.floatOfInt v.type (packValue v ++ rest) = (some v, rest)) ↔ v ≠ .none ∧ v.Whole)
      ∧ (Restores env d s r
        ↔ ∀ f ∈ persisted d s r, f.validate (d.persistValue s r f) = true ∧ (d.persistValue s r f).Whole) :=
  ⟨survives_iff env.floatOfInt v, fun h _ hf => valid_of_restores h hf, restores_of_valid⟩

/-- A text with a zero byte in the middle loses its second half, on the wire and in the file. -/
theorem text_ends_at_zero :
    ¬ ((∀ v : Value, v ≠ .none → ∀ rest,
          unpackValue bareEnv.floatOfInt v.type (packValue v ++ rest) = (some v, rest))
        ∧ ∀ s : NamespaceState, Restores bareEnv radioDecl s ()) := by
  rintro ⟨hwire, -⟩
  exact absurd (congrArg Prod.fst (hwire (.string [65, 0, 66]) (by decide) [])) (by decide)

end MicroReticulum.Provisioning
