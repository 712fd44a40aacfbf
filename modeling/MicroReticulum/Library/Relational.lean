import MicroReticulum.Library.Prog

/-!
# Two runs side by side

`RelatedAt RS RA m₁ s₁ m₂ s₂` says that `m₁` from `s₁` and `m₂` from `s₂` end the same way: both with
values related by `RA`, both early, both with the same exception, or both waiting; and that the states
they leave are related by `RS`. `Related` is the same for all related starting states.

There is one rule for each program constructor. A program that only reads the state is compared through
`RelatedAt.get_bind`, which hands both states to the continuations.
-/

namespace MicroReticulum.Library

/-- Two outcomes of the same kind, with related values. -/
def Outcome.Rel {ε α β : Type} (RA : α → β → Prop) : Outcome ε α → Outcome ε β → Prop
  | .value a, .value b => RA a b
  | .returned, .returned => True
  | .thrown e, .thrown e' => e = e'
  | .waits, .waits => True
  | _, _ => False

theorem Outcome.rel_refl {ε α : Type} (o : Outcome ε α) : Outcome.Rel Eq o o := by
  cases o
  case value => exact rfl
  case thrown => exact rfl
  all_goals trivial

/-- Outcomes related by equality are equal. -/
theorem Outcome.eq_of_rel {ε α : Type} {o₁ o₂ : Outcome ε α} (h : Outcome.Rel Eq o₁ o₂) :
    o₁ = o₂ := by
  cases o₁ <;> cases o₂ <;> first | exact h.elim | exact congrArg _ h | rfl

namespace Prog

variable {ε σ τ α β : Type}

/-- The two runs end the same way, in related states. -/
def RelatedAt (RS : σ → σ → Prop) (RA : α → α → Prop) (m₁ : Prog ε σ α) (s₁ : σ)
    (m₂ : Prog ε σ α) (s₂ : σ) : Prop :=
  Outcome.Rel RA (m₁ s₁).1 (m₂ s₂).1 ∧ RS (m₁ s₁).2 (m₂ s₂).2

/-- Runs from related states end the same way, in related states. -/
def Related (RS : σ → σ → Prop) (RA : α → α → Prop) (m₁ m₂ : Prog ε σ α) : Prop :=
  ∀ s₁ s₂, RS s₁ s₂ → RelatedAt RS RA m₁ s₁ m₂ s₂

variable {RS : σ → σ → Prop} {RA : α → α → Prop} {RB : β → β → Prop}

theorem RelatedAt.pure {a₁ a₂ : α} {s₁ s₂ : σ} (ha : RA a₁ a₂) (hs : RS s₁ s₂) :
    RelatedAt RS RA (Pure.pure a₁ : Prog ε σ α) s₁ (Pure.pure a₂) s₂ := ⟨ha, hs⟩

/-- The sequencing rule. -/
theorem RelatedAt.bind {m₁ m₂ : Prog ε σ α} {f₁ f₂ : α → Prog ε σ β} {s₁ s₂ : σ}
    (hm : RelatedAt RS RA m₁ s₁ m₂ s₂)
    (hf : ∀ a₁ a₂ t₁ t₂, RA a₁ a₂ → RS t₁ t₂ → RelatedAt RS RB (f₁ a₁) t₁ (f₂ a₂) t₂) :
    RelatedAt RS RB (m₁ >>= f₁) s₁ (m₂ >>= f₂) s₂ := by
  obtain ⟨hout, hstate⟩ := hm
  unfold RelatedAt
  rw [bind_run, bind_run]
  rcases h₁ : m₁ s₁ with ⟨a₁ | _ | e₁ | _, t₁⟩ <;> rcases h₂ : m₂ s₂ with ⟨a₂ | _ | e₂ | _, t₂⟩ <;>
    rw [h₁, h₂] at hout hstate <;> try exact hout.elim
  case value.value => exact hf a₁ a₂ t₁ t₂ hout hstate
  all_goals exact ⟨hout, hstate⟩

theorem Related.bind {m₁ m₂ : Prog ε σ α} {f₁ f₂ : α → Prog ε σ β} (hm : Related RS RA m₁ m₂)
    (hf : ∀ a₁ a₂, RA a₁ a₂ → Related RS RB (f₁ a₁) (f₂ a₂)) :
    Related RS RB (m₁ >>= f₁) (m₂ >>= f₂) := fun s₁ s₂ hs =>
  RelatedAt.bind (hm s₁ s₂ hs) fun a₁ a₂ t₁ t₂ ha ht => hf a₁ a₂ ha t₁ t₂ ht

/-- A program that starts by reading the state. -/
theorem RelatedAt.get_bind {f₁ f₂ : σ → Prog ε σ β} {s₁ s₂ : σ}
    (h : RelatedAt RS RB (f₁ s₁) s₁ (f₂ s₂) s₂) :
    RelatedAt RS RB (Prog.get >>= f₁) s₁ (Prog.get >>= f₂) s₂ := h

theorem Related.modify {f₁ f₂ : σ → σ} (h : ∀ s₁ s₂, RS s₁ s₂ → RS (f₁ s₁) (f₂ s₂)) :
    Related RS Eq (Prog.modify f₁ : Prog ε σ Unit) (Prog.modify f₂) := fun s₁ s₂ hs =>
  ⟨rfl, h s₁ s₂ hs⟩

theorem Related.pure {a₁ a₂ : α} (h : RA a₁ a₂) :
    Related RS RA (Pure.pure a₁ : Prog ε σ α) (Pure.pure a₂) := fun _ _ hs => ⟨h, hs⟩

theorem Related.when {c₁ c₂ : Prop} [Decidable c₁] [Decidable c₂] (hc : c₁ ↔ c₂)
    {m₁ m₂ : Prog ε σ Unit} (hm : c₁ → Related RS Eq m₁ m₂) :
    Related RS Eq (Prog.when c₁ m₁) (Prog.when c₂ m₂) := by
  by_cases h : c₁
  · rw [when_of h, when_of (hc.mp h)]
    exact hm h
  · rw [when_of_not h, when_of_not fun h₂ => h (hc.mpr h₂)]
    exact Related.pure rfl

/-- Handlers of the same exception. -/
theorem Related.catching {m₁ m₂ : Prog ε σ α} {h₁ h₂ : ε → Prog ε σ α} (hm : Related RS RA m₁ m₂)
    (hh : ∀ e, Related RS RA (h₁ e) (h₂ e)) :
    Related RS RA (Prog.catching m₁ h₁) (Prog.catching m₂ h₂) := by
  intro s₁ s₂ hs
  obtain ⟨hout, hstate⟩ := hm s₁ s₂ hs
  unfold RelatedAt Prog.catching
  rcases hr₁ : m₁ s₁ with ⟨a₁ | _ | e₁ | _, t₁⟩ <;> rcases hr₂ : m₂ s₂ with ⟨a₂ | _ | e₂ | _, t₂⟩ <;>
    rw [hr₁, hr₂] at hout hstate <;> try exact hout.elim
  case thrown.thrown =>
    cases hout
    exact hh e₁ t₁ t₂ hstate
  all_goals exact ⟨hout, hstate⟩

/-- The loop rule with an accumulator. -/
theorem Related.fold {f₁ f₂ : α → β → Prog ε σ α} (bs : List β)
    (hf : ∀ b ∈ bs, ∀ a₁ a₂, RA a₁ a₂ → Related RS RA (f₁ a₁ b) (f₂ a₂ b)) {a₁ a₂ : α}
    (ha : RA a₁ a₂) : Related RS RA (Prog.fold bs a₁ f₁) (Prog.fold bs a₂ f₂) := by
  induction bs generalizing a₁ a₂ with
  | nil => exact Related.pure ha
  | cons b bs ih =>
    exact (hf b List.mem_cons_self a₁ a₂ ha).bind fun c₁ c₂ hc =>
      ih (fun x hx => hf x (List.mem_cons_of_mem b hx)) hc

theorem Related.forEach {f₁ f₂ : β → Prog ε σ Unit} (bs : List β)
    (hf : ∀ b ∈ bs, Related RS Eq (f₁ b) (f₂ b)) :
    Related RS Eq (Prog.forEach bs f₁) (Prog.forEach bs f₂) := by
  induction bs with
  | nil => exact Related.pure rfl
  | cons b bs ih =>
    exact (hf b List.mem_cons_self).bind fun _ _ _ =>
      ih fun x hx => hf x (List.mem_cons_of_mem b hx)

theorem Related.mapEach {f₁ f₂ : β → Prog ε σ α} (bs : List β)
    (hf : ∀ b ∈ bs, Related RS Eq (f₁ b) (f₂ b)) :
    Related RS Eq (Prog.mapEach bs f₁) (Prog.mapEach bs f₂) := by
  induction bs with
  | nil => exact Related.pure rfl
  | cons b bs ih =>
    refine (hf b List.mem_cons_self).bind fun a₁ a₂ ha => ?_
    refine (ih fun x hx => hf x (List.mem_cons_of_mem b hx)).bind fun as₁ as₂ has => ?_
    exact Related.pure (by rw [ha, has])

/-- Programs on a part of the state: the parts are related, and putting related parts back keeps the
wholes related. -/
theorem Related.zoom {part : σ → τ} {put : τ → σ → σ} {RT : τ → τ → Prop}
    {m₁ m₂ : Prog ε τ α} (hm : Related RT RA m₁ m₂)
    (hpart : ∀ s₁ s₂, RS s₁ s₂ → RT (part s₁) (part s₂))
    (hput : ∀ s₁ s₂, RS s₁ s₂ → ∀ t₁ t₂, RT t₁ t₂ → RS (put t₁ s₁) (put t₂ s₂)) :
    Related RS RA (Prog.zoom part put m₁) (Prog.zoom part put m₂) := by
  intro s₁ s₂ hs
  obtain ⟨hout, hstate⟩ := hm _ _ (hpart s₁ s₂ hs)
  exact ⟨hout, hput s₁ s₂ hs _ _ hstate⟩

end Prog

end MicroReticulum.Library
