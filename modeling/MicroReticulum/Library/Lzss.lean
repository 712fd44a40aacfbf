import MicroReticulum.Library.BitStream

/-!
# Back references in a stream of bits

The LZSS format with a window of `2 ^ w` bytes and references of at most `2 ^ l` bytes: a one and a byte, or a zero,
a distance and a length. A decoder keeps what it has written, the latest byte first; before its beginning there are
zeros. `expand` is what a stream stands for; what follows the last whole phrase is not read.

`Tells` is what an encoder owes: its bits stand for the text, whatever bits follow. Tokens after each other tell
their texts after each other, and a back reference tells what it was copied from (`Tells.backref`).
-/

namespace MicroReticulum.Library.Lzss

open BitStream

inductive Phrase where
  | literal (byte : UInt8)
  | backref (distance length : Nat)
  deriving DecidableEq, Repr

variable (w l : Nat)

/-- The bits of a phrase. -/
def Phrase.code : Phrase → List Bool
  | .literal byte => true :: ofNat 8 byte.toNat
  | .backref distance length => false :: (ofNat w (distance - 1) ++ ofNat l (length - 1))

/-- The first phrase of a stream. -/
def readPhrase : List Bool → Option (Phrase × List Bool)
  | [] => none
  | true :: rest =>
    if 8 ≤ rest.length then some (.literal (UInt8.ofNat (value (rest.take 8))), rest.drop 8) else none
  | false :: rest =>
    if w + l ≤ rest.length then
      some (.backref (value (rest.take w) + 1) (value ((rest.drop w).take l) + 1), rest.drop (w + l))
    else none

/-- What is `distance` bytes back. -/
def back (history : List UInt8) (distance : Nat) : UInt8 := history.getD (distance - 1) 0

/-- What is written before may be copied again. -/
def copy (history : List UInt8) (distance : Nat) : Nat → List UInt8
  | 0 => []
  | n + 1 => back history distance :: copy (back history distance :: history) distance n

def Phrase.text (history : List UInt8) : Phrase → List UInt8
  | .literal byte => [byte]
  | .backref distance length => copy history distance length

variable {w l} {history : List UInt8} {stream rest more : List Bool} {t : Phrase}

theorem readPhrase_shorter (h : readPhrase w l stream = some (t, rest)) : rest.length < stream.length := by
  unfold readPhrase at h
  split at h
  · cases h
  · split_ifs at h with hlen
    cases h
    rw [List.length_drop, List.length_cons]
    omega
  · split_ifs at h with hlen
    cases h
    rw [List.length_drop, List.length_cons]
    omega

variable (w l) in
/-- The bytes that a stream stands for. -/
def expand (history : List UInt8) (stream : List Bool) : List UInt8 :=
  match h : readPhrase w l stream with
  | none => []
  | some (t, rest) =>
    have := readPhrase_shorter h
    t.text history ++ expand ((t.text history).reverse ++ history) rest
  termination_by stream.length

theorem expand_of_none (h : readPhrase w l stream = none) : expand w l history stream = [] := by
  rw [expand]
  split
  · rfl
  · rename_i h'
    rw [h] at h'
    cases h'

theorem expand_of_some (h : readPhrase w l stream = some (t, rest)) :
    expand w l history stream = t.text history ++ expand w l ((t.text history).reverse ++ history) rest := by
  rw [expand]
  split
  · rename_i h'
    rw [h] at h'
    cases h'
  · rename_i h'
    rw [h] at h'
    cases h'
    rfl

theorem readPhrase_of_short_literal (h : rest.length < 8) : readPhrase w l (true :: rest) = none :=
  if_neg (Nat.not_le.mpr h)

theorem readPhrase_of_short_backref (h : rest.length < w + l) : readPhrase w l (false :: rest) = none :=
  if_neg (Nat.not_le.mpr h)

/-- Zeros that fill up a byte are no phrase. -/
theorem readPhrase_zeros (hw : 7 ≤ w + l) {n : Nat} (hn : n < 8) : readPhrase w l (List.replicate n false) = none := by
  cases n with
  | zero => rfl
  | succ n =>
    rw [List.replicate_succ]
    exact readPhrase_of_short_backref (by rw [List.length_replicate]; omega)

/-! ## What an encoder owes -/

/-- The distance and the length have room in their fields. -/
def Phrase.Fits (w l : Nat) : Phrase → Prop
  | .literal _ => True
  | .backref distance length => 1 ≤ distance ∧ distance ≤ 2 ^ w ∧ 1 ≤ length ∧ length ≤ 2 ^ l

theorem readPhrase_code (h : t.Fits w l) (more : List Bool) : readPhrase w l (t.code w l ++ more) = some (t, more) := by
  cases t with
  | literal byte =>
    have hlen : (ofNat 8 byte.toNat).length = 8 := ofNat_length 8 _
    rw [Phrase.code, List.cons_append, readPhrase, if_pos (by rw [List.length_append, hlen]; omega),
      List.take_left' hlen, List.drop_left' hlen, value_ofNat byte.toNat_lt]
    simp
  | backref distance length =>
    obtain ⟨hd, hdw, hn, hnl⟩ := h
    have hdist : (ofNat w (distance - 1)).length = w := ofNat_length w _
    have hlen : (ofNat l (length - 1)).length = l := ofNat_length l _
    rw [Phrase.code, List.cons_append, readPhrase, if_pos (by simp only [List.length_append, hdist, hlen]; omega),
      List.append_assoc, List.take_left' hdist, List.drop_left' hdist, List.take_left' hlen,
      ← List.append_assoc, List.drop_left' (by rw [List.length_append, hdist, hlen]),
      value_ofNat (by omega), value_ofNat (by omega), Nat.sub_add_cancel hd, Nat.sub_add_cancel hn]

variable (w l) in
/-- The bits stand for the text, behind this history and whatever follows. -/
def Tells (history : List UInt8) (bits : List Bool) (text : List UInt8) : Prop :=
  ∀ more, expand w l history (bits ++ more) = text ++ expand w l (text.reverse ++ history) more

namespace Tells

variable {a b : List Bool} {x y : List UInt8}

theorem nil (history : List UInt8) : Tells w l history [] [] := fun _ => rfl

theorem append (ha : Tells w l history a x) (hb : Tells w l (x.reverse ++ history) b y) :
    Tells w l history (a ++ b) (x ++ y) := by
  intro more
  rw [List.append_assoc, ha, hb, List.reverse_append, List.append_assoc, List.append_assoc]

theorem phrase (h : t.Fits w l) : Tells w l history (t.code w l) (t.text history) :=
  fun more => expand_of_some (readPhrase_code h more)

/-- Bits that do not make a phrase add nothing. -/
theorem padded (h : Tells w l history a x) (hmore : ∀ history, expand w l history more = []) :
    expand w l history (a ++ more) = x := by
  rw [h, hmore, List.append_nil]

end Tells

/-! ## What a back reference copies -/

theorem copy_length (history : List UInt8) (distance n : Nat) : (copy history distance n).length = n := by
  induction n generalizing history with
  | zero => rfl
  | succ n ih => rw [copy, List.length_cons, ih]

/-- A reference may be copied in two parts. -/
theorem copy_add (history : List UInt8) (distance m n : Nat) :
    copy history distance (m + n)
      = copy history distance m ++ copy ((copy history distance m).reverse ++ history) distance n := by
  induction m generalizing history with
  | zero => rw [Nat.zero_add]; rfl
  | succ m ih =>
    rw [Nat.add_right_comm, copy, ih, copy, List.cons_append, List.reverse_cons, List.append_assoc]
    rfl

/-- A reference to where the same bytes are tells them. The bytes are those of a text `f` that has the history before
its place `p`, so the reference may reach into what it tells itself. -/
theorem copy_eq {f : Nat → UInt8} {p distance n : Nat} (hpos : 1 ≤ distance) (hp : distance ≤ p)
    (hback : ∀ d, 1 ≤ d → d ≤ distance → back history d = f (p - d))
    (hsame : ∀ k < n, f (p - distance + k) = f (p + k)) :
    copy history distance n = (List.range n).map fun k => f (p + k) := by
  induction n generalizing history p with
  | zero => rfl
  | succ n ih =>
    have hfirst : back history distance = f p := by
      rw [hback distance hpos (Nat.le_refl _)]
      exact hsame 0 (Nat.succ_pos n)
    have hback' : ∀ d, 1 ≤ d → d ≤ distance → back (back history distance :: history) d = f (p + 1 - d) := by
      intro d hd hle
      rcases Nat.lt_or_ge 1 d with h1 | h1
      · obtain ⟨e, rfl⟩ : ∃ e, d = e + 2 := ⟨d - 2, by omega⟩
        have h := hback (e + 1) (by omega) (by omega)
        rw [show p + 1 - (e + 2) = p - (e + 1) by omega, ← h]
        rfl
      · have hd1 : d = 1 := by omega
        subst hd1
        exact hfirst
    have hrest := @ih (back history distance :: history) (p + 1) (by omega) hback' fun k hk => by
      rw [show p + 1 - distance + k = p - distance + (k + 1) by omega, hsame (k + 1) (by omega)]
      congr 1
      omega
    rw [copy, hrest, hfirst, List.range_succ_eq_map, List.map_cons, List.map_map]
    congr 1
    refine List.map_congr_left fun k _ => ?_
    show f (p + 1 + k) = f (p + (k + 1))
    congr 1
    omega

end MicroReticulum.Library.Lzss
