import MicroReticulum.Library.Loop
import Mathlib.Data.List.Basic

/-!
# Streaming machines

A machine that is fed bytes in pieces and drained in pieces, as compressors are. `pump` is the loop that callers write
around it: it feeds a text to the end, drains the machine after each piece and once more behind the last, and gives up
when the output no longer fits.

`Streams` is what has to hold of a machine for it to make a certain output of a text; the phases of the loop are
predicates of it, so that the loop itself is reasoned about once (`pump_yields`).
-/

namespace MicroReticulum.Library

/-- What a poll answers. -/
inductive Drained where
  | error
  | empty
  | more
  deriving DecidableEq, Repr

/-- A machine with states `σ`. Sinking says how many bytes were taken, unless it fails; polling, with fuel, writes at
most so many bytes; finishing says whether there is more to poll. -/
structure Machine (σ : Type) where
  sink : σ → List UInt8 → Option (Nat × σ)
  poll : Nat → σ → Nat → Option (Drained × σ × List UInt8)
  finish : σ → Bool × σ

namespace Machine

variable {σ : Type} (m : Machine σ) (chunk : Nat) (fits : Nat → Bool)

/-- A poll, its output behind what there is. -/
def drain (fuel : Nat) (s : σ) (out : List UInt8) : Option (Option (Drained × σ × List UInt8)) := do
  let (res, s, produced) ← m.poll fuel s chunk
  if res = .error then some none
  else if 0 < produced.length ∧ fits (out.length + produced.length) = false then some none
  else some (some (res, s, out ++ produced))

def drainRound (fuel : Nat) (p : σ × List UInt8) : Option (Round (σ × List UInt8) (Option (σ × List UInt8))) := do
  match ← m.drain chunk fits fuel p.1 p.2 with
  | none => some (.leave none)
  | some (.more, s, out) => some (.next (s, out))
  | some (_, s, out) => some (.leave (some (s, out)))

def feedRound (text : List UInt8) (fuel : Nat) (p : Nat × σ × List UInt8) :
    Option (Round (Nat × σ × List UInt8) (Option (σ × List UInt8))) :=
  if p.1 < text.length then
    match m.sink p.2.1 (text.drop p.1) with
    | none => some (.leave none)
    | some (taken, s) => do
      match ← loop (m.drainRound chunk fits fuel) fuel (s, p.2.2) with
      | none => some (.leave none)
      | some (s, out) => some (.next (p.1 + taken, s, out))
  else some (.leave (some p.2))

def finishRound (fuel : Nat) (p : σ × List UInt8) : Option (Round (σ × List UInt8) (List UInt8)) :=
  let (more, s) := m.finish p.1
  if more then do
    match ← m.drain chunk fits fuel s p.2 with
    | none => some (.leave [])
    | some (_, s, out) => some (.next (s, out))
  else some (.leave p.2)

/-- Nothing comes out where the loop gives up. -/
def pump (text : List UInt8) (fuel : Nat) (s : σ) : Option (List UInt8) := do
  match ← loop (m.feedRound chunk fits text fuel) fuel (0, s, []) with
  | none => some []
  | some p => loop (m.finishRound chunk fits fuel) fuel p

/-- The machine makes `z` of the text: what it is like when it waits for input behind a position, when it has some and
when there is no more of it. -/
structure Streams (text z : List UInt8) where
  Idle : Nat → σ → List UInt8 → Prop
  Busy : Nat → σ → List UInt8 → Prop
  Ending : σ → List UInt8 → Prop
  weight : σ → Nat
  sink : ∀ {k s out}, Idle k s out → k < text.length → ∃ n s', m.sink s (text.drop k) = some (n, s') ∧ 0 < n
    ∧ k + n ≤ text.length ∧ Busy (k + n) s' out
  poll : ∀ {k s out}, Busy k s out → ∃ r, Yields (fun fuel => m.poll fuel s chunk) r
    ∧ (out ++ r.2.2).length ≤ z.length
    ∧ (r.1 = .more ∧ r.2.2.length = chunk ∧ Busy k r.2.1 (out ++ r.2.2) ∨ r.1 = .empty ∧ Idle k r.2.1 (out ++ r.2.2))
  last : ∀ {s out}, Idle text.length s out → Ending s out
  finish : ∀ {s out}, Ending s out → (m.finish s).1 = false ∧ out = z ∨ (m.finish s).1 = true
    ∧ ∃ r, Yields (fun fuel => m.poll fuel (m.finish s).2 chunk) r ∧ r.1 ≠ .error
      ∧ (out ++ r.2.2).length ≤ z.length ∧ Ending r.2.1 (out ++ r.2.2) ∧ weight r.2.1 < weight s

variable {m chunk fits} {text z out : List UInt8} {s : σ}

/-- What has come out so far was found to fit. -/
def Within (fits : Nat → Bool) (out : List UInt8) : Prop := out = [] ∨ fits out.length = true

theorem Within.append {produced : List UInt8} (h : Within fits out)
    (hfits : ¬(0 < produced.length ∧ fits (out.length + produced.length) = false)) : Within fits (out ++ produced) := by
  rcases Nat.eq_zero_or_pos produced.length with hzero | hpos
  · rw [List.length_eq_zero_iff.mp hzero, List.append_nil]
    exact h
  · refine .inr ?_
    rw [List.length_append]
    exact (Bool.not_eq_false _).mp fun hfalse => hfits ⟨hpos, hfalse⟩

/-- A poll whose output no longer fits is one of a machine whose whole output does not. -/
theorem drain_yields {r : Drained × σ × List UInt8} (hdown : ∀ a b, a ≤ b → fits b = true → fits a = true)
    (hyields : Yields (fun fuel => m.poll fuel s chunk) r) (herror : r.1 ≠ .error) (hout : Within fits out)
    (hle : (out ++ r.2.2).length ≤ z.length) :
    (Yields (fun fuel => m.drain chunk fits fuel s out) none ∧ fits z.length = false)
      ∨ (Yields (fun fuel => m.drain chunk fits fuel s out) (some (r.1, r.2.1, out ++ r.2.2))
        ∧ Within fits (out ++ r.2.2)) := by
  obtain ⟨res, s', produced⟩ := r
  by_cases hover : 0 < produced.length ∧ fits (out.length + produced.length) = false
  · refine .inl ⟨hyields.bind (Yields.of_forall fun _ => ?_), ?_⟩
    · simp only [if_neg herror, if_pos hover]
    · refine Bool.eq_false_iff.mpr fun htrue => ?_
      rw [List.length_append] at hle
      exact Bool.noConfusion (hover.2.symm.trans (hdown _ _ hle htrue))
  · refine .inr ⟨hyields.bind (Yields.of_forall fun _ => ?_), hout.append hover⟩
    simp only [if_neg herror, if_neg hover]

/-- After a piece, the machine is drained until it waits. -/
theorem Streams.drained (h : Streams m chunk text z) (hchunk : 0 < chunk)
    (hdown : ∀ a b, a ≤ b → fits b = true → fits a = true) {k : Nat} (hbusy : h.Busy k s out) (hout : Within fits out) :
    ∃ r, Yields (fun fuel => loop (m.drainRound chunk fits fuel) fuel (s, out)) r
      ∧ ((r = none ∧ fits z.length = false) ∨ ∃ s' out', r = some (s', out') ∧ h.Idle k s' out' ∧ Within fits out') := by
  refine Yields.loop (m := z.length + 1 - out.length)
    (I := fun left p => h.Busy k p.1 p.2 ∧ Within fits p.2 ∧ left = z.length + 1 - p.2.length) ?_ ⟨hbusy, hout, rfl⟩
  rintro left ⟨s, out⟩ ⟨hbusy, hout, rfl⟩
  obtain ⟨⟨res, s', produced⟩, hyields, hle, hres⟩ := h.poll hbusy
  have herror : res ≠ .error := by
    rcases hres with ⟨hmore, -⟩ | ⟨hempty, -⟩
    · exact fun herr => Drained.noConfusion (hmore.symm.trans herr)
    · exact fun herr => Drained.noConfusion (hempty.symm.trans herr)
  rcases drain_yields hdown hyields herror hout hle with ⟨hdrain, hover⟩ | ⟨hdrain, hwithin⟩
  · exact ⟨.leave none, hdrain.bind (Yields.of_forall fun _ => rfl), .inl ⟨rfl, hover⟩⟩
  · rcases hres with ⟨rfl, hlen, hbusy'⟩ | ⟨rfl, hidle⟩
    · refine ⟨.next (s', out ++ produced), hdrain.bind (Yields.of_forall fun _ => rfl), _, ?_, hbusy', hwithin, rfl⟩
      replace hle : (out ++ produced).length ≤ z.length := hle
      replace hlen : produced.length = chunk := hlen
      show z.length + 1 - (out ++ produced).length < z.length + 1 - out.length
      rw [List.length_append] at hle ⊢
      omega
    · exact ⟨.leave (some (s', out ++ produced)), hdrain.bind (Yields.of_forall fun _ => rfl),
        .inr ⟨s', _, rfl, hidle, hwithin⟩⟩

/-- The whole text goes in, or the output does not fit. -/
theorem Streams.fed (h : Streams m chunk text z) (hchunk : 0 < chunk)
    (hdown : ∀ a b, a ≤ b → fits b = true → fits a = true) (hidle : h.Idle 0 s []) :
    ∃ r, Yields (fun fuel => loop (m.feedRound chunk fits text fuel) fuel (0, s, [])) r
      ∧ ((r = none ∧ fits z.length = false)
        ∨ ∃ s' out', r = some (s', out') ∧ h.Idle text.length s' out' ∧ Within fits out') := by
  refine Yields.loop (m := text.length)
    (I := fun left p => h.Idle p.1 p.2.1 p.2.2 ∧ Within fits p.2.2 ∧ p.1 ≤ text.length ∧ left = text.length - p.1) ?_
    ⟨hidle, .inl rfl, Nat.zero_le _, rfl⟩
  rintro left ⟨k, s, out⟩ ⟨hidle, hout, hk, rfl⟩
  by_cases hmore : k < text.length
  · obtain ⟨n, s', hsink, hpos, hn, hbusy⟩ := h.sink hidle hmore
    obtain ⟨r, hyields, hr⟩ := h.drained hchunk hdown hbusy hout
    have hround : ∀ fuel, m.feedRound chunk fits text fuel (k, s, out)
        = (loop (m.drainRound chunk fits fuel) fuel (s', out) >>= fun r =>
            match r with
            | none => some (.leave none)
            | some (s, out) => some (.next (k + n, s, out))) := fun fuel => by
      rw [feedRound, if_pos hmore, hsink]
    rcases hr with ⟨rfl, hover⟩ | ⟨s'', out', rfl, hidle', hout'⟩
    · exact ⟨.leave none, Yields.congr (fun fuel => (hround fuel).symm) (hyields.bind (Yields.of_forall fun _ => rfl)),
        .inl ⟨rfl, hover⟩⟩
    · refine ⟨.next (k + n, s'', out'),
        Yields.congr (fun fuel => (hround fuel).symm) (hyields.bind (Yields.of_forall fun _ => rfl)), _, ?_, hidle', hout',
        hn, rfl⟩
      show text.length - (k + n) < text.length - k
      omega
  · obtain rfl : k = text.length := Nat.le_antisymm hk (Nat.not_lt.mp hmore)
    exact ⟨.leave (some (s, out)), Yields.of_forall fun _ => if_neg hmore, .inr ⟨s, out, rfl, hidle, hout⟩⟩

/-- Behind the text, what is left comes out. -/
theorem Streams.finished (h : Streams m chunk text z) (hdown : ∀ a b, a ≤ b → fits b = true → fits a = true)
    (hending : h.Ending s out) (hout : Within fits out) :
    ∃ r, Yields (fun fuel => loop (m.finishRound chunk fits fuel) fuel (s, out)) r
      ∧ r = if fits z.length = true then z else [] := by
  refine Yields.loop (m := h.weight s)
    (I := fun left p => h.Ending p.1 p.2 ∧ Within fits p.2 ∧ left = h.weight p.1) ?_ ⟨hending, hout, rfl⟩
  rintro left ⟨s, out⟩ ⟨hending, hout, rfl⟩
  rcases h.finish hending with ⟨hdone, rfl⟩ | ⟨hmore, ⟨res, s', produced⟩, hyields, herror, hle, hending', hless⟩
  · refine ⟨.leave out, Yields.of_forall fun _ => ?_, ?_⟩
    · simp only [finishRound, hdone, Bool.false_eq_true, if_false]
    · rcases hout with rfl | hfits
      · exact (ite_self _).symm
      · exact (if_pos hfits).symm
  · have hround : ∀ fuel, m.finishRound chunk fits fuel (s, out)
        = (m.drain chunk fits fuel (m.finish s).2 out >>= fun r =>
            match r with
            | none => some (.leave [])
            | some (_, s, out) => some (.next (s, out))) := fun fuel => by
      simp only [finishRound, hmore, if_true]
    rcases drain_yields hdown hyields herror hout hle with ⟨hdrain, hover⟩ | ⟨hdrain, hwithin⟩
    · refine ⟨.leave [], Yields.congr (fun fuel => (hround fuel).symm) (hdrain.bind (Yields.of_forall fun _ => rfl)), ?_⟩
      exact (if_neg (Bool.eq_false_iff.mp hover)).symm
    · exact ⟨.next (s', out ++ produced),
        Yields.congr (fun fuel => (hround fuel).symm) (hdrain.bind (Yields.of_forall fun _ => rfl)), _, hless, hending',
        hwithin, rfl⟩

/-- The output of the machine, if it fits, and nothing otherwise. -/
theorem Streams.pump_yields (h : Streams m chunk text z) (hchunk : 0 < chunk)
    (hdown : ∀ a b, a ≤ b → fits b = true → fits a = true) (hidle : h.Idle 0 s []) :
    Yields (fun fuel => m.pump chunk fits text fuel s) (if fits z.length = true then z else []) := by
  obtain ⟨r, hyields, hr⟩ := h.fed hchunk hdown hidle
  rcases hr with ⟨rfl, hover⟩ | ⟨s', out', rfl, hidle', hout'⟩
  · rw [if_neg (Bool.eq_false_iff.mp hover)]
    exact hyields.bind (Yields.of_forall fun _ => rfl)
  · obtain ⟨z', hfinish, rfl⟩ := h.finished hdown (h.last hidle') hout'
    exact hyields.bind (g := fun fuel r => match r with
      | none => some []
      | some p => loop (m.finishRound chunk fits fuel) fuel p) hfinish

end Machine

end MicroReticulum.Library
