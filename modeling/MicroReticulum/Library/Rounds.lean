import MicroReticulum.Library.Prog

/-!
# Loops that get somewhere

What holds at the start of each round of a loop (`I`) is enough to go on, and one round, or what some round has
reached, is not lost again (`Q`). Then every round is run, and what any of them reaches is there at the end.
-/

namespace MicroReticulum.Library.Prog

variable {ε σ α β : Type} {I Q : σ → Prop} {bs : List β}

theorem mapEach_reaches {m : β → Prog ε σ α}
    (hround : ∀ b ∈ bs, ∀ s, I s → ∃ a t, m b s = (.value a, t) ∧ I t ∧ (Q s → Q t)) {s : σ} (hs : I s) :
    ∃ as t, mapEach bs m s = (.value as, t) ∧ I t ∧ (Q s → Q t)
      ∧ ∀ b ∈ bs, (∀ s, I s → Q (m b s).2) → Q t := by
  induction bs generalizing s with
  | nil => exact ⟨[], s, rfl, hs, id, fun b hb => by cases hb⟩
  | cons b bs ih =>
    obtain ⟨a, t, hone, ht, hkept⟩ := hround b List.mem_cons_self s hs
    obtain ⟨as, u, hrest, hu, hkept', hreached⟩ := ih (fun b' hb' => hround b' (List.mem_cons_of_mem b hb')) ht
    refine ⟨a :: as, u, ?_, hu, fun hq => hkept' (hkept hq), fun b' hb' hgoal => ?_⟩
    · rw [mapEach_cons_run, hone]
      simp only [hrest]
      rfl
    · rcases List.mem_cons.mp hb' with rfl | hb'
      · have hq := hgoal s hs
        rw [hone] at hq
        exact hkept' hq
      · exact hreached b' hb' hgoal

/-- A loop that collects nothing is one that collects empty results. -/
theorem forEach_eq_mapEach (m : β → Prog ε σ Unit) (s : σ) :
    forEach bs m s = (mapEach bs m >>= fun _ => Pure.pure ()) s := by
  induction bs generalizing s with
  | nil => rfl
  | cons b bs ih =>
    show (m b >>= fun _ => forEach bs m) s
      = ((m b >>= fun a => mapEach bs m >>= fun as => Pure.pure (a :: as)) >>= fun _ => Pure.pure ()) s
    rw [bind_assoc_run]
    refine bind_congr_run (m b) (fun a t => ?_) s
    rw [ih, bind_assoc_run]
    rfl

theorem forEach_reaches {m : β → Prog ε σ Unit}
    (hround : ∀ b ∈ bs, ∀ s, I s → ∃ t, m b s = (.value (), t) ∧ I t ∧ (Q s → Q t)) {s : σ} (hs : I s) :
    ∃ t, forEach bs m s = (.value (), t) ∧ I t ∧ (Q s → Q t) ∧ ∀ b ∈ bs, (∀ s, I s → Q (m b s).2) → Q t := by
  have hround' : ∀ b ∈ bs, ∀ s, I s → ∃ a t, m b s = (.value a, t) ∧ I t ∧ (Q s → Q t) := fun b hb s hs =>
    ⟨(), hround b hb s hs⟩
  obtain ⟨as, t, hrun, ht, hkept, hreached⟩ := mapEach_reaches hround' hs
  exact ⟨t, by rw [forEach_eq_mapEach, bind_value hrun]; rfl, ht, hkept, hreached⟩

end MicroReticulum.Library.Prog
