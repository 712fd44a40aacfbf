import MicroReticulum.Library.Objects
import Mathlib.Data.List.Forall2
import Mathlib.Data.List.Nodup

/-!
# Streams that encode one value

A packer that writes a map makes a count first and the entries after it, and nothing but its author
keeps the two in step. `Complete` says that a stream is the encoding of one value, `Packed` that in
this value no map has a key twice. There is at most one such value (`tokens_inj`), so a stream that is
complete and not packed has a repeated key somewhere.

`complete_map`, `complete_arr` and `packed_map_iff`, `packed_arr_iff` are the rules for packers.
-/

namespace MicroReticulum.Library

namespace Object

mutual

/-- No map in the value has a key twice. -/
def DistinctKeys : Object → Prop
  | .arr items => DistinctItems items
  | .map entries => (entries.map Prod.fst).Nodup ∧ DistinctEntries entries
  | _ => True

def DistinctItems : List Object → Prop
  | [] => True
  | o :: os => DistinctKeys o ∧ DistinctItems os

def DistinctEntries : List (Object × Object) → Prop
  | [] => True
  | (k, v) :: es => DistinctKeys k ∧ DistinctKeys v ∧ DistinctEntries es

end

/-- Items have distinct keys exactly when each of them has. -/
theorem distinctItems_iff (items : List Object) :
    DistinctItems items ↔ ∀ o ∈ items, o.DistinctKeys := by
  induction items with
  | nil => simp [DistinctItems]
  | cons o os ih => simp [DistinctItems, ih]

/-- Entries have distinct keys inside exactly when each key and value has. -/
theorem distinctEntries_iff (entries : List (Object × Object)) :
    DistinctEntries entries ↔ ∀ e ∈ entries, e.1.DistinctKeys ∧ e.2.DistinctKeys := by
  induction entries with
  | nil => simp [DistinctEntries]
  | cons e es ih => simp [DistinctEntries, ih, and_assoc]

/-- The tokens of items are those of each, in order. -/
theorem itemTokens_eq (items : List Object) : itemTokens items = items.flatMap tokens := by
  induction items with
  | nil => rfl
  | cons o os ih => rw [itemTokens, ih, List.flatMap_cons]

/-- The tokens of entries are those of each key and value, in order. -/
theorem entryTokens_eq (entries : List (Object × Object)) :
    entryTokens entries = entries.flatMap fun e => e.1.tokens ++ e.2.tokens := by
  induction entries with
  | nil => rfl
  | cons e es ih => rw [entryTokens, ih, List.flatMap_cons, List.append_assoc]

/-! ## Reading a value back -/

mutual

/-- A stream starts with at most one value. -/
theorem tokens_append_inj : ∀ (o o' : Object) (rest rest' : List Token),
    o.tokens ++ rest = o'.tokens ++ rest' → o = o' ∧ rest = rest'
  | .arr items, o', rest, rest', h => by
    cases o' <;> simp only [tokens, List.cons_append, List.nil_append, List.cons.injEq,
      reduceCtorEq, false_and, Token.arr.injEq] at h
    case arr items' =>
      obtain ⟨rfl, hrest⟩ := itemTokens_append_inj items items' rest rest' h.1 h.2
      exact ⟨rfl, hrest⟩
  | .map entries, o', rest, rest', h => by
    cases o' <;> simp only [tokens, List.cons_append, List.nil_append, List.cons.injEq,
      reduceCtorEq, false_and, Token.map.injEq] at h
    case map entries' =>
      obtain ⟨rfl, hrest⟩ := entryTokens_append_inj entries entries' rest rest' h.1 h.2
      exact ⟨rfl, hrest⟩
  | .nil, o', _, _, h => by cases o' <;> simp_all [tokens]
  | .bool _, o', _, _, h => by cases o' <;> simp_all [tokens]
  | .int _, o', _, _, h => by cases o' <;> simp_all [tokens]
  | .float _, o', _, _, h => by cases o' <;> simp_all [tokens]
  | .str _, o', _, _, h => by cases o' <;> simp_all [tokens]
  | .bin _, o', _, _, h => by cases o' <;> simp_all [tokens]
  | .ext, o', _, _, h => by cases o' <;> simp_all [tokens]

/-- As many items followed by anything are read off their tokens in one way only. -/
theorem itemTokens_append_inj : ∀ (items items' : List Object) (rest rest' : List Token),
    items.length = items'.length → itemTokens items ++ rest = itemTokens items' ++ rest' →
    items = items' ∧ rest = rest'
  | [], [], _, _, _, h => ⟨rfl, h⟩
  | o :: os, o' :: os', rest, rest', hlen, h => by
    simp only [itemTokens, List.append_assoc] at h
    obtain ⟨rfl, htail⟩ := tokens_append_inj o o' _ _ h
    obtain ⟨rfl, hrest⟩ := itemTokens_append_inj os os' rest rest' (Nat.succ.inj hlen) htail
    exact ⟨rfl, hrest⟩
  | [], _ :: _, _, _, hlen, _ => by cases hlen
  | _ :: _, [], _, _, hlen, _ => by cases hlen

/-- As many entries followed by anything are read off their tokens in one way only. -/
theorem entryTokens_append_inj : ∀ (entries entries' : List (Object × Object))
    (rest rest' : List Token), entries.length = entries'.length →
    entryTokens entries ++ rest = entryTokens entries' ++ rest' → entries = entries' ∧ rest = rest'
  | [], [], _, _, _, h => ⟨rfl, h⟩
  | (k, v) :: es, (k', v') :: es', rest, rest', hlen, h => by
    simp only [entryTokens, List.append_assoc] at h
    obtain ⟨rfl, hvalue⟩ := tokens_append_inj k k' _ _ h
    obtain ⟨rfl, htail⟩ := tokens_append_inj v v' _ _ hvalue
    obtain ⟨rfl, hrest⟩ := entryTokens_append_inj es es' rest rest' (Nat.succ.inj hlen) htail
    exact ⟨rfl, hrest⟩
  | [], _ :: _, _, _, hlen, _ => by cases hlen
  | _ :: _, [], _, _, hlen, _ => by cases hlen

end

/-- A value is known by its encoding. -/
theorem tokens_inj {o o' : Object} (h : o.tokens = o'.tokens) : o = o' :=
  (tokens_append_inj o o' [] [] (by rw [h])).1

end Object

/-! ## Packers -/

/-- The stream is the encoding of one value. -/
def Complete (ts : List Token) : Prop := ∃ o : Object, o.tokens = ts

/-- The stream is the encoding of one value in which no map has a key twice. -/
def Packed (ts : List Token) : Prop := ∃ o : Object, o.tokens = ts ∧ o.DistinctKeys

theorem Packed.complete {ts : List Token} (h : Packed ts) : Complete ts :=
  let ⟨o, ho, _⟩ := h
  ⟨o, ho⟩

/-- The tokens of an object are packed exactly when no map in it repeats a key. -/
theorem packed_tokens_iff (o : Object) : Packed o.tokens ↔ o.DistinctKeys :=
  ⟨fun ⟨_, ho', hkeys⟩ => Object.tokens_inj ho' ▸ hkeys, fun h => ⟨o, rfl, h⟩⟩

theorem packed_nil : Packed [.nil] := ⟨.nil, rfl, trivial⟩
theorem packed_bool (b : Bool) : Packed [.bool b] := ⟨.bool b, rfl, trivial⟩
theorem packed_int (v : Int) : Packed [.int v] := ⟨.int v, rfl, trivial⟩
theorem packed_float (d : Double) : Packed [.float d] := ⟨.float d, rfl, trivial⟩
theorem packed_str (s : List UInt8) : Packed [.str s] := ⟨.str s, rfl, trivial⟩
theorem packed_bin (b : List UInt8) : Packed [.bin b] := ⟨.bin b, rfl, trivial⟩

section Containers

variable {α : Type} {es : List α} {value : α → List Token} (key : α → Int)

instance : Nonempty Object := ⟨.nil⟩

/-- The array of the values. -/
theorem exists_arr (hvalues : ∀ e ∈ es, Complete (value e)) :
    ∃ obj : α → Object, (∀ e ∈ es, (obj e).tokens = value e)
      ∧ (Object.arr (es.map obj)).tokens = .arr es.length :: es.flatMap value := by
  choose! obj hobj using hvalues
  refine ⟨obj, hobj, ?_⟩
  rw [Object.tokens, Object.itemTokens_eq, List.length_map, List.flatMap_map]
  exact congrArg _ (List.flatMap_congr hobj)

/-- The map of the values under their keys. -/
theorem exists_map (hvalues : ∀ e ∈ es, Complete (value e)) :
    ∃ obj : α → Object, (∀ e ∈ es, (obj e).tokens = value e)
      ∧ (Object.map (es.map fun e => (.int (key e), obj e))).tokens
        = .map es.length :: es.flatMap fun e => .int (key e) :: value e := by
  choose! obj hobj using hvalues
  refine ⟨obj, hobj, ?_⟩
  rw [Object.tokens, Object.entryTokens_eq, List.length_map, List.flatMap_map]
  refine congrArg _ (List.flatMap_congr fun e he => ?_)
  rw [hobj e he]
  rfl

/-- An array is packed exactly when its items are. -/
theorem packed_arr_iff (hvalues : ∀ e ∈ es, Complete (value e)) :
    Packed (.arr es.length :: es.flatMap value) ↔ ∀ e ∈ es, Packed (value e) := by
  obtain ⟨obj, hobj, htokens⟩ := exists_arr hvalues
  rw [← htokens, packed_tokens_iff, Object.DistinctKeys, Object.distinctItems_iff,
    List.forall_mem_map]
  exact forall₂_congr fun e he => by rw [← hobj e he, packed_tokens_iff]

/-- A header for as many entries as are packed behind it. -/
theorem complete_map (hvalues : ∀ e ∈ es, Complete (value e)) :
    Complete (.map es.length :: es.flatMap fun e => .int (key e) :: value e) :=
  let ⟨_, _, htokens⟩ := exists_map key hvalues
  ⟨_, htokens⟩

/-- A map by integer keys is packed exactly when no key repeats and its values are packed. -/
theorem packed_map_iff (hvalues : ∀ e ∈ es, Complete (value e)) :
    Packed (.map es.length :: es.flatMap fun e => .int (key e) :: value e)
      ↔ (es.map key).Nodup ∧ ∀ e ∈ es, Packed (value e) := by
  obtain ⟨obj, hobj, htokens⟩ := exists_map key hvalues
  rw [← htokens, packed_tokens_iff, Object.DistinctKeys, Object.distinctEntries_iff,
    List.forall_mem_map, List.map_map]
  refine and_congr ?_ (forall₂_congr fun e he => ?_)
  · rw [← List.nodup_map_iff (f := Object.int) fun _ _ h => Object.int.inj h, List.map_map]
    rfl
  · rw [← hobj e he, packed_tokens_iff]
    exact and_iff_right trivial

end Containers

/-- A loop that passes over some elements packs the others. -/
theorem flatMap_eq_filter {α β : Type} {l : List α} {f : α → List β} (c : α → Bool)
    (h : ∀ a ∈ l, c a = false → f a = []) : l.flatMap f = (l.filter c).flatMap f := by
  induction l with
  | nil => rfl
  | cons a l ih =>
    have hrest := ih fun b hb => h b (List.mem_cons_of_mem a hb)
    cases hc : c a with
    | true => rw [List.filter_cons_of_pos hc, List.flatMap_cons, List.flatMap_cons, hrest]
    | false =>
      rw [List.filter_cons_of_neg (by simp [hc]), List.flatMap_cons, h a List.mem_cons_self hc,
        List.nil_append, hrest]

end MicroReticulum.Library
