import MicroReticulum.Library.Objects
import MicroReticulum.Library.Reader
import Mathlib.Data.PNat.Basic

/-!
# What a reader has not read

A reader of an object stream goes on only where there is something it knows: at the end of the stream and at an
extension value it stays. A `Call` is one call of such a reader, or one iteration of a loop over it.
`Call.Moves` is what every call of a reader without errors does, and for such a call
`Call.Moves.progresses_iff` tells when it has fewer bytes before it than behind.

`Fed` is the opposite of being stuck: a number of complete values lies ahead. The loops keep it as long as each
iteration passes no more values than the loop has counted.
-/

namespace MicroReticulum.Library

/-- The bytes of a stream, when a token has some. -/
def unread (width : Token → ℕ+) (c : List Token) : Nat := (c.map fun t => (width t : Nat)).sum

/-- There is nothing ahead that a reader knows. -/
def Stuck : List Token → Prop
  | [] => True
  | .ext :: _ => True
  | _ => False

instance : DecidablePred Stuck
  | [] => .isTrue trivial
  | t :: _ => match t with
    | .ext => .isTrue trivial
    | .nil | .bool _ | .int _ | .float _ | .str _ | .bin _ | .arr _ | .map _ => .isFalse id

/-- A cursor that stands at an ordinary token is not stuck. -/
theorem not_stuck_cons {t : Token} {rest : List Token} (h : t ≠ .ext) : ¬ Stuck (t :: rest) := by
  cases t <;> first | exact id | exact absurd rfl h

/-- One call of a reader: where it begins and where it ends. -/
structure Call where
  start : List Token
  stop : List Token

namespace Call

/-- The call leaves fewer bytes unread. -/
def Progresses (width : Token → ℕ+) (call : Call) : Prop := unread width call.stop < unread width call.start

/-- The call goes forward, and stays only where it is stuck. -/
structure Moves (call : Call) : Prop where
  suffix : call.stop <:+ call.start
  stays_iff : call.stop = call.start ↔ Stuck call.start

/-- A call that moves makes progress exactly where it does not begin stuck. -/
theorem Moves.progresses_iff {call : Call} (h : call.Moves) (width : Token → ℕ+) :
    call.Progresses width ↔ ¬ Stuck call.start := by
  rw [← h.stays_iff]
  obtain ⟨start, stop⟩ := call
  obtain ⟨passed, hstart⟩ := h.suffix
  obtain rfl : passed ++ stop = start := hstart
  show unread width stop < unread width (passed ++ stop) ↔ ¬ stop = passed ++ stop
  cases passed with
  | nil => simp
  | cons t ts =>
    have hpos := (width t).pos
    have hne : stop ≠ t :: ts ++ stop := fun heq => by
      have hlength := congrArg List.length heq
      rw [List.length_append, List.length_cons] at hlength
      omega
    simp only [unread, List.cons_append, List.map_cons, List.map_append, List.sum_cons, List.sum_append]
    exact iff_of_true (by omega) hne

/-- A call that passes a token. -/
theorem moves_of_suffix {t : Token} {rest stop : List Token} (ht : t ≠ .ext) (h : stop <:+ rest) :
    Moves ⟨t :: rest, stop⟩ := by
  refine ⟨h.trans (List.suffix_cons t rest), iff_of_false (fun heq => ?_) (not_stuck_cons ht)⟩
  have heq : stop = t :: rest := heq
  have hlength := h.length_le
  rw [heq, List.length_cons] at hlength
  omega

end Call

/-! ## Skipping -/

/-- How many values follow a header as its own. -/
def arity : Token → Nat
  | .arr n => n
  | .map n => n + n
  | _ => 0

/-- Skipping a token leaves as many more to skip as it opens. -/
theorem skip_cons {t : Token} (h : t ≠ .ext) (rest : List Token) (n : Nat) :
    skip (t :: rest) (n + 1) = skip rest (arity t + n) := by
  cases t <;> first | exact absurd rfl h | rfl | exact congrArg (skip rest) (Nat.zero_add n).symm

theorem skip_suffix (c : List Token) (n : Nat) : skip c n <:+ c := by
  induction c generalizing n with
  | nil => exact skip_nil n ▸ List.suffix_refl _
  | cons t rest ih =>
    cases n with
    | zero => exact (skip_zero (t :: rest)).symm ▸ List.suffix_refl _
    | succ n =>
      by_cases ht : t = .ext
      case pos =>
        subst ht
        exact (skip_ext rest (n + 1)).symm ▸ List.suffix_refl _
      case neg =>
        rw [skip_cons ht]
        exact (ih _).trans (List.suffix_cons t rest)

/-- To skip some values is a call that moves. -/
theorem skip_moves (c : List Token) (n : Nat) : Call.Moves ⟨c, skip c (n + 1)⟩ := by
  cases c with
  | nil => exact ⟨List.suffix_refl _, iff_of_true rfl trivial⟩
  | cons t rest =>
    by_cases ht : t = .ext
    case pos =>
      subst ht
      rw [skip_ext]
      exact ⟨List.suffix_refl _, iff_of_true rfl trivial⟩
    case neg =>
      rw [skip_cons ht]
      exact Call.moves_of_suffix ht (skip_suffix rest _)

/-- The calls of a recursive `skip`, in order, for a number of values. -/
def skipCalls : List Token → Nat → List Call
  | [], n => List.replicate n ⟨[], []⟩
  | _ :: _, 0 => []
  | t :: rest, n + 1 =>
    ⟨t :: rest, skip (t :: rest) 1⟩ :: match t with
      | .ext => List.replicate n ⟨.ext :: rest, .ext :: rest⟩
      | t => skipCalls rest (arity t + n)

/-- The calls a skip makes: one for the token, then those for what is behind it. -/
theorem skipCalls_cons {t : Token} (h : t ≠ .ext) (rest : List Token) (n : Nat) :
    skipCalls (t :: rest) (n + 1) = ⟨t :: rest, skip (t :: rest) 1⟩ :: skipCalls rest (arity t + n) := by
  cases t <;> first | exact absurd rfl h | rfl

theorem skipCalls_moves (c : List Token) (n : Nat) : ∀ call ∈ skipCalls c n, call.Moves := by
  induction c generalizing n with
  | nil =>
    intro call hcall
    rw [List.eq_of_mem_replicate hcall]
    exact ⟨List.suffix_refl _, iff_of_true rfl trivial⟩
  | cons t rest ih =>
    cases n with
    | zero => exact fun call hcall => absurd hcall List.not_mem_nil
    | succ n =>
      intro call hcall
      by_cases ht : t = .ext
      case pos =>
        subst ht
        rcases List.mem_cons.mp hcall with rfl | hlater
        · exact skip_moves _ 0
        · rw [List.eq_of_mem_replicate hlater]
          exact ⟨List.suffix_refl _, iff_of_true rfl trivial⟩
      case neg =>
        rw [skipCalls_cons ht] at hcall
        rcases List.mem_cons.mp hcall with rfl | hlater
        · exact skip_moves _ 0
        · exact ih _ call hlater

/-! ## Values ahead -/

namespace Object

/-- The tokens of items one after the other. -/
theorem itemTokens_append (items others : List Object) :
    itemTokens (items ++ others) = itemTokens items ++ itemTokens others := by
  induction items with
  | nil => rfl
  | cons o os ih => rw [List.cons_append, itemTokens, ih, itemTokens, List.append_assoc]

/-- Items are plain together exactly when they are plain apart. -/
theorem plainItems_append (items others : List Object) :
    plainItems (items ++ others) = (plainItems items && plainItems others) := by
  induction items with
  | nil => rfl
  | cons o os ih => rw [List.cons_append, plainItems, ih, plainItems, Bool.and_assoc]

/-- The keys and values of a map, one after the other. -/
def flat (entries : List (Object × Object)) : List Object := entries.flatMap fun e => [e.1, e.2]

/-- A map is written as the items of its keys and values in turn. -/
theorem itemTokens_flat (entries : List (Object × Object)) : itemTokens (flat entries) = entryTokens entries := by
  induction entries with
  | nil => rfl
  | cons e es ih =>
    show itemTokens (e.1 :: e.2 :: flat es) = entryTokens (e :: es)
    rw [itemTokens, itemTokens, ih, entryTokens]

theorem plainItems_flat (entries : List (Object × Object)) : plainItems (flat entries) = plainEntries entries := by
  induction entries with
  | nil => rfl
  | cons e es ih =>
    show plainItems (e.1 :: e.2 :: flat es) = plainEntries (e :: es)
    rw [plainItems, plainItems, ih, plainEntries]

theorem flat_length (entries : List (Object × Object)) : (flat entries).length = entries.length + entries.length := by
  induction entries with
  | nil => rfl
  | cons e es ih =>
    show (flat es).length + 1 + 1 = es.length + 1 + (es.length + 1)
    omega

/-- A value is a header and the values that are its own. -/
theorem tokens_eq_cons (o : Object) (h : o.plain = true) :
    ∃ t own, o.tokens = t :: itemTokens own ∧ plainItems own = true ∧ own.length = arity t ∧ t ≠ .ext := by
  cases o with
  | arr items => exact ⟨.arr items.length, items, rfl, h, rfl, nofun⟩
  | map entries =>
    refine ⟨.map entries.length, flat entries, ?_, ?_, flat_length entries, nofun⟩
    · rw [itemTokens_flat, tokens]
    · rw [plainItems_flat]
      exact h
  | ext => cases h
  | nil => exact ⟨.nil, [], rfl, rfl, rfl, nofun⟩
  | bool b => exact ⟨.bool b, [], rfl, rfl, rfl, nofun⟩
  | int v => exact ⟨.int v, [], rfl, rfl, rfl, nofun⟩
  | float d => exact ⟨.float d, [], rfl, rfl, rfl, nofun⟩
  | str s => exact ⟨.str s, [], rfl, rfl, rfl, nofun⟩
  | bin b => exact ⟨.bin b, [], rfl, rfl, rfl, nofun⟩

end Object

/-- So many complete values lie ahead, without an extension value in them. -/
def Fed (count : Nat) (c : List Token) : Prop :=
  ∃ items after, c = Object.itemTokens items ++ after ∧ Object.plainItems items = true ∧ count ≤ items.length

theorem Fed.mono {m n : Nat} {c : List Token} (h : Fed n c) (hle : m ≤ n) : Fed m c := by
  obtain ⟨items, after, hc, hplain, hcount⟩ := h
  exact ⟨items, after, hc, hplain, hle.trans hcount⟩

/-- The first of the values gives way to those that are its own. -/
theorem Fed.cons {n : Nat} {c : List Token} (h : Fed (n + 1) c) :
    ∃ t rest, c = t :: rest ∧ t ≠ .ext ∧ Fed (arity t + n) rest := by
  obtain ⟨items, after, rfl, hplain, hcount⟩ := h
  cases items with
  | nil => cases hcount
  | cons o os =>
    rw [Object.plainItems, Bool.and_eq_true] at hplain
    obtain ⟨t, own, htokens, hown, hlength, ht⟩ := Object.tokens_eq_cons o hplain.1
    refine ⟨t, Object.itemTokens own ++ (Object.itemTokens os ++ after), ?_, ht, own ++ os, after, ?_, ?_, ?_⟩
    · rw [Object.itemTokens, htokens, List.append_assoc, List.cons_append]
    · rw [Object.itemTokens_append, List.append_assoc]
    · rw [Object.plainItems_append, hown, hplain.2]
      rfl
    · rw [List.length_append, hlength]
      rw [List.length_cons] at hcount
      omega

/-- Bytes that feed one more read do not stick. -/
theorem Fed.not_stuck {n : Nat} {c : List Token} (h : Fed (n + 1) c) : ¬ Stuck c := by
  obtain ⟨t, rest, rfl, ht, -⟩ := h.cons
  exact not_stuck_cons ht

/-- Behind a header that is read. -/
theorem Fed.tail {n : Nat} {t : Token} {rest : List Token} (h : Fed (n + 1) (t :: rest)) : Fed (arity t + n) rest := by
  obtain ⟨t', rest', heq, -, hrest⟩ := h.cons
  obtain ⟨rfl, rfl⟩ := List.cons.inj heq
  exact hrest

/-- Behind a token the remaining reads are fed. -/
theorem Fed.behind {n : Nat} {t : Token} {rest : List Token} (h : Fed (n + 1) (t :: rest)) : Fed n rest :=
  h.tail.mono (Nat.le_add_left n _)

/-- A skip uses up the reads it makes and no more. -/
theorem Fed.skip {m n : Nat} {c : List Token} (h : Fed (m + n) c) : Fed m (skip c n) := by
  induction c generalizing m n with
  | nil =>
    rw [skip_nil]
    exact h.mono (Nat.le_add_right m n)
  | cons t rest ih =>
    cases n with
    | zero =>
      rw [skip_zero]
      exact h
    | succ n =>
      obtain ⟨t', rest', heq, ht, hrest⟩ := Fed.cons (n := m + n) h
      obtain ⟨rfl, rfl⟩ := List.cons.inj heq
      rw [skip_cons ht]
      exact ih (hrest.mono (by omega))

/-- No call of a skip over fed bytes sticks. -/
theorem Fed.skipCalls {n : Nat} {c : List Token} (h : Fed n c) : ∀ call ∈ skipCalls c n, ¬ Stuck call.start := by
  induction c generalizing n with
  | nil =>
    intro call hcall
    rw [List.eq_of_mem_replicate hcall]
    cases n with
    | zero => cases hcall
    | succ n => exact h.not_stuck
  | cons t rest ih =>
    cases n with
    | zero => exact fun call hcall => absurd hcall List.not_mem_nil
    | succ n =>
      obtain ⟨t', rest', heq, ht, hrest⟩ := h.cons
      obtain ⟨rfl, rfl⟩ := List.cons.inj heq
      rw [skipCalls_cons ht]
      exact List.forall_mem_cons.mpr ⟨not_stuck_cons ht, ih hrest⟩

/-! ## Counted loops -/

variable {A : Type}

/-- The calls of a counted loop; each iteration tells its own. -/
def traced (calls : List Token → A → List Call) (body : List Token → A → A × List Token) :
    Nat → List Token → A → List Call
  | 0, _, _ => []
  | n + 1, c, a => calls c a ++ traced calls body n (body c a).2 (body c a).1

/-- What holds of the calls of each round holds of the calls of the loop. -/
theorem forall_traced {calls : List Token → A → List Call} {body : List Token → A → A × List Token} {P : Call → Prop}
    (h : ∀ c a, ∀ call ∈ calls c a, P call) (n : Nat) (c : List Token) (a : A) :
    ∀ call ∈ traced calls body n c a, P call := by
  induction n generalizing c a with
  | zero => exact fun call hcall => absurd hcall List.not_mem_nil
  | succ n ih => exact List.forall_mem_append.mpr ⟨h c a, ih _ _⟩

/-- A loop whose rounds leave a suffix leaves a suffix. -/
theorem times_suffix {body : List Token → A → A × List Token} (h : ∀ c a, (body c a).2 <:+ c) (n : Nat) (c : List Token)
    (a : A) : (times body n c a).2 <:+ c := by
  induction n generalizing c a with
  | zero => exact List.suffix_refl c
  | succ n ih => exact (ih _ _).trans (h c a)

/-- A loop that passes at most `k` values in each iteration has enough of them. -/
theorem Fed.times {calls : List Token → A → List Call} {body : List Token → A → A × List Token} {k : Nat}
    (hbody : ∀ m c a, Fed (m + k) c → Fed m (body c a).2 ∧ ∀ call ∈ calls c a, ¬ Stuck call.start) {n m : Nat}
    {c : List Token} {a : A} (h : Fed (n * k + m) c) :
    Fed m (times body n c a).2 ∧ ∀ call ∈ traced calls body n c a, ¬ Stuck call.start := by
  induction n generalizing c a with
  | zero => exact ⟨h.mono (by omega), fun call hcall => absurd hcall List.not_mem_nil⟩
  | succ n ih =>
    obtain ⟨hnext, hcalls⟩ := hbody (n * k + m) c a (h.mono (by rw [Nat.succ_mul]; omega))
    obtain ⟨hend, hlater⟩ := ih hnext (a := (body c a).1)
    exact ⟨hend, List.forall_mem_append.mpr ⟨hcalls, hlater⟩⟩

end MicroReticulum.Library
