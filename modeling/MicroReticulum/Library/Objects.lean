import Mathlib.Data.Rat.Defs
import Mathlib.Data.List.Basic

/-!
# Self-describing object streams

A stream format in the manner of MsgPack: every object starts with a header that tells its type, an
array or a map header announces how many objects follow, and a reader looks at one header at a time.
`Token` is a header with the scalar it carries, `Object` a complete value, and `Object.tokens` its
encoding. A stream need not be the encoding of anything, and a reader must not assume it is.

`skip` passes over a number of values. It goes past a complete value exactly when no extension
value occurs in it, since a reader that does not know a type cannot know its extent.
-/

namespace MicroReticulum.Library

/-- A floating point number, as far as comparisons see it. -/
inductive Double where
  | nan
  | inf (negative : Bool)
  | fin (q : ℚ)
  deriving DecidableEq

namespace Double

/-- `<`, false as soon as one side is not a number. -/
def lt : Double → Double → Bool
  | .inf true, .fin _ => true
  | .inf true, .inf false => true
  | .fin _, .inf false => true
  | .fin a, .fin b => a < b
  | _, _ => false

/-- `==`, false as soon as one side is not a number. -/
def eq : Double → Double → Bool
  | .inf a, .inf b => a = b
  | .fin a, .fin b => a = b
  | _, _ => false

/-- `<=`, false as soon as one side is not a number. -/
def le (a b : Double) : Bool := a.lt b || a.eq b

@[simp] theorem lt_nan (a : Double) : a.lt .nan = false := by
  cases a with
  | inf negative => cases negative <;> rfl
  | _ => rfl

@[simp] theorem nan_lt (a : Double) : Double.lt .nan a = false := by
  cases a <;> rfl

/-- Of two numbers one is below the other or they are equal. -/
theorem not_lt_iff_le {a b : Double} (ha : a ≠ .nan) (hb : b ≠ .nan) :
    (!b.lt a) = true ↔ a.le b = true := by
  unfold le
  rcases a with _ | na | qa <;> rcases b with _ | nb | qb
  case fin.fin =>
    simp only [lt, eq, Bool.not_eq_true', decide_eq_false_iff_not, Rat.not_lt, Bool.or_eq_true,
      decide_eq_true_eq]
    exact Rat.le_iff_lt_or_eq
  case inf.inf => cases na <;> cases nb <;> simp [lt, eq]
  case inf.fin => cases na <;> simp [lt, eq]
  case fin.inf => cases nb <;> simp [lt, eq]
  all_goals contradiction

theorem ne_nan_of_le {a b : Double} (h : a.le b = true) : a ≠ .nan ∧ b ≠ .nan := by
  unfold le at h
  constructor <;> rintro rfl
  · cases b <;> simp [lt, eq] at h
  · cases a <;> simp [lt, eq] at h

end Double

/-- A header and the scalar it carries. -/
inductive Token where
  | nil
  | bool (b : Bool)
  /-- signed and unsigned integers of any width -/
  | int (v : Int)
  | float (d : Double)
  | str (s : List UInt8)
  | bin (b : List UInt8)
  | arr (n : Nat)
  | map (n : Nat)
  /-- extension values, timestamps among them -/
  | ext
  deriving DecidableEq

/-- A complete value. -/
inductive Object where
  | nil
  | bool (b : Bool)
  | int (v : Int)
  | float (d : Double)
  | str (s : List UInt8)
  | bin (b : List UInt8)
  | arr (items : List Object)
  | map (entries : List (Object × Object))
  | ext

namespace Object

mutual

/-- The encoding of a value. -/
def tokens : Object → List Token
  | .nil => [.nil]
  | .bool b => [.bool b]
  | .int v => [.int v]
  | .float d => [.float d]
  | .str s => [.str s]
  | .bin b => [.bin b]
  | .arr items => .arr items.length :: itemTokens items
  | .map entries => .map entries.length :: entryTokens entries
  | .ext => [.ext]

/-- The encodings of an array's items. -/
def itemTokens : List Object → List Token
  | [] => []
  | o :: os => tokens o ++ itemTokens os

/-- The encodings of a map's keys and values. -/
def entryTokens : List (Object × Object) → List Token
  | [] => []
  | (k, v) :: es => tokens k ++ (tokens v ++ entryTokens es)

end

mutual

/-- No extension value occurs in the value. -/
def plain : Object → Bool
  | .arr items => plainItems items
  | .map entries => plainEntries entries
  | .ext => false
  | _ => true

def plainItems : List Object → Bool
  | [] => true
  | o :: os => plain o && plainItems os

def plainEntries : List (Object × Object) → Bool
  | [] => true
  | (k, v) :: es => plain k && (plain v && plainEntries es)

end

end Object

/-- Pass over `n` values. The values inside an array or a map are counted in when its header is
passed; at the end of the stream and at an unknown type nothing moves. -/
def skip : List Token → Nat → List Token
  | [], _ => []
  | t :: rest, 0 => t :: rest
  | t :: rest, n + 1 =>
    match t with
    | .arr m => skip rest (m + n)
    | .map m => skip rest (m + m + n)
    | .ext => .ext :: rest
    | _ => skip rest n

@[simp] theorem skip_zero (c : List Token) : skip c 0 = c := by cases c <;> rfl

@[simp] theorem skip_nil (n : Nat) : skip [] n = [] := by cases n <;> rfl

/-- Skipping stops at an extension value. -/
@[simp] theorem skip_ext (rest : List Token) (n : Nat) :
    skip (.ext :: rest) n = .ext :: rest := by cases n <;> rfl

mutual

/-- Skipping a value without extension values goes exactly past it. -/
theorem skip_tokens : ∀ (o : Object), o.plain = true → ∀ rest n,
    skip (o.tokens ++ rest) (n + 1) = skip rest n
  | .nil, _, _, _ => rfl
  | .bool _, _, _, _ => rfl
  | .int _, _, _, _ => rfl
  | .float _, _, _, _ => rfl
  | .str _, _, _, _ => rfl
  | .bin _, _, _, _ => rfl
  | .arr items, h, rest, n => by
    simp only [Object.plain] at h
    simp only [Object.tokens, List.cons_append, skip]
    exact skip_itemTokens items h rest n
  | .map entries, h, rest, n => by
    simp only [Object.plain] at h
    simp only [Object.tokens, List.cons_append, skip]
    exact skip_entryTokens entries h rest n
  | .ext, h, _, _ => by simp [Object.plain] at h

theorem skip_itemTokens : ∀ (items : List Object), Object.plainItems items = true → ∀ rest n,
    skip (Object.itemTokens items ++ rest) (items.length + n) = skip rest n
  | [], _, _, n => by simp [Object.itemTokens]
  | o :: os, h, rest, n => by
    simp only [Object.plainItems, Bool.and_eq_true] at h
    have hitem := skip_tokens o h.1 (Object.itemTokens os ++ rest) (os.length + n)
    simp only [Object.itemTokens, List.append_assoc, List.length_cons]
    rw [Nat.add_right_comm, hitem]
    exact skip_itemTokens os h.2 rest n

theorem skip_entryTokens : ∀ (entries : List (Object × Object)),
    Object.plainEntries entries = true → ∀ rest n,
    skip (Object.entryTokens entries ++ rest) (entries.length + entries.length + n) = skip rest n
  | [], _, _, n => by simp [Object.entryTokens]
  | (k, v) :: es, h, rest, n => by
    simp only [Object.plainEntries, Bool.and_eq_true] at h
    have hkey := skip_tokens k h.1 (v.tokens ++ (Object.entryTokens es ++ rest))
      (es.length + es.length + n + 1)
    have hvalue := skip_tokens v h.2.1 (Object.entryTokens es ++ rest)
      (es.length + es.length + n)
    simp only [Object.entryTokens, List.append_assoc, List.length_cons]
    rw [show es.length + 1 + (es.length + 1) + n = es.length + es.length + n + 1 + 1 by omega,
      hkey, hvalue]
    exact skip_entryTokens es h.2.2 rest n

end

mutual

/-- Skipping a value with an extension value stops inside it. -/
theorem skip_tokens_stuck : ∀ (o : Object), o.plain = false → ∀ rest n,
    ∃ inside, skip (o.tokens ++ rest) (n + 1) = .ext :: (inside ++ rest)
  | .nil, h, _, _ => by simp [Object.plain] at h
  | .bool _, h, _, _ => by simp [Object.plain] at h
  | .int _, h, _, _ => by simp [Object.plain] at h
  | .float _, h, _, _ => by simp [Object.plain] at h
  | .str _, h, _, _ => by simp [Object.plain] at h
  | .bin _, h, _, _ => by simp [Object.plain] at h
  | .arr items, h, rest, n => by
    simp only [Object.plain] at h
    simp only [Object.tokens, List.cons_append, skip]
    exact skip_itemTokens_stuck items h rest n
  | .map entries, h, rest, n => by
    simp only [Object.plain] at h
    simp only [Object.tokens, List.cons_append, skip]
    exact skip_entryTokens_stuck entries h rest n
  | .ext, _, _, n => ⟨[], by simp [Object.tokens]⟩

theorem skip_itemTokens_stuck : ∀ (items : List Object), Object.plainItems items = false → ∀ rest n,
    ∃ inside, skip (Object.itemTokens items ++ rest) (items.length + n) = .ext :: (inside ++ rest)
  | [], h, _, _ => by simp [Object.plainItems] at h
  | o :: os, h, rest, n => by
    simp only [Object.itemTokens, List.append_assoc, List.length_cons]
    rw [Nat.add_right_comm]
    cases hplain : o.plain with
    | true =>
      rw [skip_tokens o hplain]
      simp only [Object.plainItems, hplain, Bool.true_and] at h
      exact skip_itemTokens_stuck os h rest n
    | false =>
      obtain ⟨inside, hstuck⟩ :=
        skip_tokens_stuck o hplain (Object.itemTokens os ++ rest) (os.length + n)
      exact ⟨inside ++ Object.itemTokens os, by rw [hstuck, List.append_assoc]⟩

theorem skip_entryTokens_stuck : ∀ (entries : List (Object × Object)),
    Object.plainEntries entries = false → ∀ rest n,
    ∃ inside, skip (Object.entryTokens entries ++ rest) (entries.length + entries.length + n)
      = .ext :: (inside ++ rest)
  | [], h, _, _ => by simp [Object.plainEntries] at h
  | (k, v) :: es, h, rest, n => by
    simp only [Object.entryTokens, List.append_assoc, List.length_cons]
    rw [show es.length + 1 + (es.length + 1) + n = es.length + es.length + n + 1 + 1 by omega]
    cases hkey : k.plain with
    | false =>
      obtain ⟨inside, hstuck⟩ := skip_tokens_stuck k hkey
        (v.tokens ++ (Object.entryTokens es ++ rest))
        (es.length + es.length + n + 1)
      exact ⟨inside ++ (v.tokens ++ Object.entryTokens es), by
        rw [hstuck]; simp only [List.append_assoc]⟩
    | true =>
      rw [skip_tokens k hkey]
      cases hvalue : v.plain with
      | true =>
        rw [skip_tokens v hvalue]
        simp only [Object.plainEntries, hkey, hvalue, Bool.true_and] at h
        exact skip_entryTokens_stuck es h rest n
      | false =>
        obtain ⟨inside, hstuck⟩ := skip_tokens_stuck v hvalue
          (Object.entryTokens es ++ rest) (es.length + es.length + n)
        exact ⟨inside ++ Object.entryTokens es, by rw [hstuck, List.append_assoc]⟩

end

end MicroReticulum.Library
