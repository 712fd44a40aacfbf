import Mathlib.Data.Nat.Init

/-!
# Loops that end

A loop of a program is a step from state to state that at some point leaves with a result. Its rounds are counted by
fuel, so that a loop that goes on for ever has no result. `Yields` is what is said of such a computation: from some
fuel on it has this result. A loop whose rounds keep an invariant and lower a measure yields one (`Yields.loop`).
-/

namespace MicroReticulum.Library

/-- What a round of a loop does: it goes on with a state, or it leaves with a result. -/
inductive Round (σ α : Type) where
  | next (s : σ)
  | leave (a : α)
  deriving Repr

variable {σ α β : Type}

/-- At most so many rounds. -/
def loop (step : σ → Option (Round σ α)) : Nat → σ → Option α
  | 0, _ => none
  | rounds + 1, s => do
    match ← step s with
    | .next s' => loop step rounds s'
    | .leave a => some a

/-- With enough fuel the result is `a`. -/
def Yields (f : Nat → Option α) (a : α) : Prop := ∃ enough, ∀ fuel, enough ≤ fuel → f fuel = some a

namespace Yields

variable {f : Nat → Option α} {a : α}

theorem of_forall (h : ∀ fuel, f fuel = some a) : Yields f a := ⟨0, fun fuel _ => h fuel⟩

theorem unique {b : α} (ha : Yields f a) (hb : Yields f b) : a = b := by
  obtain ⟨m, hm⟩ := ha
  obtain ⟨n, hn⟩ := hb
  have h := (hm (max m n) (Nat.le_max_left m n)).symm.trans (hn (max m n) (Nat.le_max_right m n))
  exact Option.some.inj h

theorem congr {g : Nat → Option α} (h : ∀ fuel, f fuel = g fuel) (hf : Yields f a) : Yields g a := by
  obtain ⟨m, hm⟩ := hf
  exact ⟨m, fun fuel hfuel => (h fuel).symm.trans (hm fuel hfuel)⟩

theorem bind {g : Nat → α → Option β} {b : β} (hf : Yields f a) (hg : Yields (fun fuel => g fuel a) b) :
    Yields (fun fuel => f fuel >>= g fuel) b := by
  obtain ⟨m, hm⟩ := hf
  obtain ⟨n, hn⟩ := hg
  refine ⟨max m n, fun fuel hfuel => ?_⟩
  show f fuel >>= g fuel = some b
  rw [hm fuel (Nat.le_trans (Nat.le_max_left m n) hfuel)]
  exact hn fuel (Nat.le_trans (Nat.le_max_right m n) hfuel)

theorem map {g : α → β} (hf : Yields f a) : Yields (fun fuel => (f fuel).map g) (g a) := by
  obtain ⟨m, hm⟩ := hf
  exact ⟨m, fun fuel hfuel => congrArg (Option.map g) (hm fuel hfuel)⟩

/-- The invariant carries the measure. The rounds may use the fuel too, for loops of their own. -/
theorem loop {g : Nat → σ → Option (Round σ α)} {I : Nat → σ → Prop} {Q : α → Prop}
    (hround : ∀ m s, I m s → ∃ r, Yields (fun fuel => g fuel s) r ∧
      match r with
      | .next s' => ∃ n < m, I n s'
      | .leave a => Q a) {m : Nat} {s : σ} (hs : I m s) :
    ∃ a, Yields (fun fuel => Library.loop (g fuel) fuel s) a ∧ Q a := by
  suffices h : ∃ a, Q a ∧ ∃ enough, ∀ fuel rounds, enough ≤ fuel → enough ≤ rounds →
      Library.loop (g fuel) rounds s = some a by
    obtain ⟨a, hq, enough, ha⟩ := h
    exact ⟨a, ⟨enough, fun fuel hfuel => ha fuel fuel hfuel hfuel⟩, hq⟩
  induction m using Nat.strongRecOn generalizing s with
  | ind m ih =>
    obtain ⟨r, ⟨enough, hr⟩, hpost⟩ := hround m s hs
    replace hr : ∀ fuel, enough ≤ fuel → g fuel s = some r := hr
    cases r with
    | next s' =>
      obtain ⟨n, hlt, hs'⟩ := hpost
      obtain ⟨a, hq, enough', ha⟩ := ih n hlt hs'
      refine ⟨a, hq, max enough enough' + 1, fun fuel rounds hfuel hrounds => ?_⟩
      obtain ⟨rounds, rfl⟩ : ∃ k, rounds = k + 1 := ⟨rounds - 1, by omega⟩
      rw [Library.loop, hr fuel (by omega)]
      exact ha fuel rounds (by omega) (by omega)
    | leave a =>
      refine ⟨a, hpost, enough + 1, fun fuel rounds hfuel hrounds => ?_⟩
      obtain ⟨rounds, rfl⟩ : ∃ k, rounds = k + 1 := ⟨rounds - 1, by omega⟩
      rw [Library.loop, hr fuel (by omega)]
      rfl

end Yields

end MicroReticulum.Library
