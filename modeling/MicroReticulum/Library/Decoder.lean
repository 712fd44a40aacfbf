import Mathlib.Data.List.Basic

/-!
# Reading what was written

A `Decoder` takes a value off the front of a list, or fails. `Reads` is what it owes to a writer: it takes exactly
what was written, whatever follows, and fails where the end of it is missing. Decoders in sequence read what was
written in sequence.

A `Packing` writes values as bytes and reads one back. `unpack` reads as many as there are in full, so that of a
stream that is cut short fewer values come back than were written.
-/

namespace MicroReticulum.Library

/-- A value and what follows it, or nothing. -/
abbrev Decoder (T α : Type) : Type := StateT (List T) Option α

namespace Decoder

variable {T α β : Type}

theorem bind_apply (r : Decoder T α) (f : α → Decoder T β) (c : List T) :
    (r >>= f) c = (r c).bind fun p => f p.1 p.2 := rfl

/-- `ts` is read as `a`, and nothing is read of it that is cut short. -/
structure Reads (r : Decoder T α) (ts : List T) (a : α) : Prop where
  whole : ∀ rest, r (ts ++ rest) = some (a, rest)
  cut : ∀ c, c <+: ts → c ≠ ts → r c = none

/-- A list that breaks off ends in its first part or in its second. -/
theorem cut_append {ts us c : List T} (h : c <+: ts ++ us) (hne : c ≠ ts ++ us) :
    c <+: ts ∧ c ≠ ts ∨ ∃ d, c = ts ++ d ∧ d <+: us ∧ d ≠ us := by
  obtain ⟨rest, hrest⟩ := h
  rcases List.append_eq_append_iff.mp hrest with ⟨more, hts, -⟩ | ⟨d, hc, hus⟩
  · by_cases heq : c = ts
    · subst heq
      refine .inr ⟨[], (List.append_nil c).symm, List.nil_prefix, fun hnil => hne ?_⟩
      rw [← hnil, List.append_nil]
    · exact .inl ⟨⟨more, hts.symm⟩, heq⟩
  · refine .inr ⟨d, hc, ⟨rest, hus.symm⟩, fun heq => hne ?_⟩
    rw [hc, heq]

namespace Reads

variable {r : Decoder T α} {ts us : List T} {a : α}

theorem pure (a : α) : Reads (Pure.pure a : Decoder T α) [] a where
  whole _ := rfl
  cut _ h hne := absurd (List.prefix_nil.mp h) hne

theorem bind {f : α → Decoder T β} {b : β} (hr : Reads r ts a) (hf : Reads (f a) us b) :
    Reads (r >>= f) (ts ++ us) b where
  whole rest := by
    rw [bind_apply, List.append_assoc, hr.whole]
    exact hf.whole rest
  cut c h hne := by
    rw [bind_apply]
    rcases cut_append h hne with ⟨hc, hne⟩ | ⟨d, rfl, hd, hne⟩
    · rw [hr.cut c hc hne]
      rfl
    · rw [hr.whole]
      exact hf.cut d hd hne

theorem map (f : α → β) (hr : Reads r ts a) : Reads (do let a ← r; Pure.pure (f a)) ts (f a) :=
  List.append_nil ts ▸ hr.bind (Reads.pure (f a))

/-- One element, and nothing at the end of the list. -/
theorem one {t : T} (h : ∀ rest, r (t :: rest) = some (a, rest)) (hnil : r [] = none) : Reads r [t] a where
  whole := h
  cut c hc hne := by
    rcases List.prefix_cons_iff.mp hc with rfl | ⟨d, rfl, hd⟩
    · exact hnil
    · rw [List.prefix_nil.mp hd] at hne
      exact absurd rfl hne

/-- A decoder that does not look beyond what it takes reads nothing that is cut short. -/
theorem of_extends (hwhole : ∀ rest, r (ts ++ rest) = some (a, rest))
    (hextends : ∀ c more b rest, r c = some (b, rest) → r (c ++ more) = some (b, rest ++ more)) : Reads r ts a where
  whole := hwhole
  cut c hc hne := by
    obtain ⟨more, rfl⟩ := hc
    cases hread : r c with
    | none => rfl
    | some p =>
      obtain ⟨b, rest⟩ := p
      have hall : r (c ++ more) = some (a, []) := (congrArg r (List.append_nil _)).symm.trans (hwhole [])
      have hsame : some (b, rest ++ more) = some (a, []) := (hextends c more b rest hread).symm.trans hall
      obtain ⟨-, hmore⟩ := List.append_eq_nil_iff.mp (Prod.mk.inj (Option.some.inj hsame)).2
      rw [hmore, List.append_nil] at hne
      exact absurd rfl hne

end Reads

/-- The same decoder a number of times. -/
def times (r : Decoder T α) : Nat → Decoder T (List α)
  | 0 => pure []
  | n + 1 => do
    let a ← r
    let as ← times r n
    pure (a :: as)

theorem Reads.times {r : Decoder T α} {write : α → List T} {as : List α} (h : ∀ a ∈ as, Reads r (write a) a) :
    Reads (r.times as.length) (as.flatMap write) as := by
  induction as with
  | nil => exact Reads.pure []
  | cons a as ih =>
    exact (h a List.mem_cons_self).bind ((ih fun b hb => h b (List.mem_cons_of_mem a hb)).map fun as => a :: as)

end Decoder

/-! ## Streams of values -/

/-- A writer of values, and the reader of one. -/
structure Packing (T : Type) where
  pack : T → List UInt8
  read : Decoder UInt8 T

namespace Packing

variable {T : Type} (P : Packing T)

/-- One value after the other. -/
def packAll (ts : List T) : List UInt8 := ts.flatMap P.pack

/-- The values of a stream, up to the first that is not there in full. -/
def unpack (bs : List UInt8) : List T :=
  match P.read bs with
  | none => []
  | some (t, rest) => if _h : rest.length < bs.length then t :: unpack rest else []
termination_by bs.length

/-- Values that fit are read back, and are not read where their end is missing. -/
structure Lawful (fits : T → Prop) : Prop where
  reads : ∀ t, fits t → Decoder.Reads P.read (P.pack t) t
  pack_ne_nil : ∀ t, fits t → P.pack t ≠ []

variable {P} {fits : T → Prop} (h : P.Lawful fits)

include h in
theorem Lawful.unpack_cons {t : T} (ht : fits t) (rest : List UInt8) :
    P.unpack (P.pack t ++ rest) = t :: P.unpack rest := by
  have hlen : rest.length < (P.pack t ++ rest).length := by
    have hpos := List.length_pos_of_ne_nil (h.pack_ne_nil t ht)
    rw [List.length_append]
    omega
  rw [unpack, (h.reads t ht).whole]
  exact dif_pos hlen

theorem unpack_nil : P.unpack [] = [] := by
  unfold unpack
  split
  · rfl
  · exact dif_neg (Nat.not_lt_zero _)

include h in
theorem Lawful.unpack_packAll {ts : List T} (hts : ∀ t ∈ ts, fits t) : P.unpack (P.packAll ts) = ts := by
  induction ts with
  | nil => exact unpack_nil
  | cons t ts ih =>
    show P.unpack (P.pack t ++ P.packAll ts) = _
    rw [h.unpack_cons (hts t List.mem_cons_self), ih fun u hu => hts u (List.mem_cons_of_mem t hu)]

include h in
/-- Of a stream that is cut short some values come back, and not all. -/
theorem Lawful.unpack_cut {ts : List T} (hts : ∀ t ∈ ts, fits t) {bs : List UInt8} (hbs : bs <+: P.packAll ts)
    (hne : bs ≠ P.packAll ts) : P.unpack bs <+: ts ∧ P.unpack bs ≠ ts := by
  induction ts generalizing bs with
  | nil => exact absurd (List.prefix_nil.mp hbs) hne
  | cons t ts ih =>
    have ht := hts t List.mem_cons_self
    have hall : P.packAll (t :: ts) = P.pack t ++ P.packAll ts := rfl
    rw [hall] at hbs hne
    rcases Decoder.cut_append hbs hne with ⟨hcut, hne⟩ | ⟨d, rfl, hd, hne⟩
    · have hnone : P.unpack bs = [] := by
        rw [unpack, (h.reads t ht).cut bs hcut hne]
      rw [hnone]
      exact ⟨List.nil_prefix, (List.cons_ne_nil t ts).symm⟩
    · obtain ⟨hpre, hfewer⟩ := ih (fun u hu => hts u (List.mem_cons_of_mem t hu)) hd hne
      rw [h.unpack_cons ht]
      exact ⟨List.cons_prefix_cons.mpr ⟨rfl, hpre⟩, fun heq => hfewer (List.cons.inj heq).2⟩

end Packing

end MicroReticulum.Library
