import Mathlib.Data.List.Count

/-!
# A slot whose copies are served a bounded number of times

In a slot one copy of an item waits to be served, and another copy may be kept aside. A copy may be served `left`
more times. Who asks for the item while a copy waits has that copy kept aside; the copy comes back, with as much
left as it had, when the waiting one is served the next time.

Every ask therefore costs at most one more service (`Slot.Run.served_le`), whatever is lost on the way. A copy that
waits may be lost, and one that was kept aside then stays behind. Nothing is said of when that happens: a run that
loses what waits and is never asked again keeps the copy aside for ever.
-/

namespace MicroReticulum.Library

/-- A copy of an item, and how often it may still be served. -/
structure Copy (κ : Type) where
  item : κ
  left : Nat

structure Slot (κ : Type) where
  waiting : Option (Copy κ)
  aside : Option (Copy κ)

/-- What happens to a slot. -/
inductive SlotEvent (κ : Type) where
  | enters (x : κ)
  | asks
  | serves (x : κ)
  /-- a service is spent on nothing -/
  | wastes
  /-- the waiting copy is dropped, and a copy that was kept aside stays behind -/
  | loses
  deriving DecidableEq

namespace Slot

variable {κ : Type}

/-- A step of a slot, for copies that are served `limit` times at most. -/
inductive Step (limit : Nat) : Slot κ → SlotEvent κ → Slot κ → Prop
  | enters (c : Copy κ) (h : Option (Copy κ)) (hleft : c.left ≤ limit) :
    Step limit ⟨none, h⟩ (.enters c.item) ⟨some c, h⟩
  | answers (c : Copy κ) (h : Option (Copy κ)) (hleft : c.left ≤ 1) : Step limit ⟨none, h⟩ .asks ⟨some c, h⟩
  | keeps (c : Copy κ) : Step limit ⟨some c, none⟩ .asks ⟨some c, some c⟩
  | kept (c h : Copy κ) : Step limit ⟨some c, some h⟩ .asks ⟨some c, some h⟩
  | serves (x : κ) (n : Nat) : Step limit ⟨some ⟨x, n + 1⟩, none⟩ (.serves x) ⟨some ⟨x, n⟩, none⟩
  | restores (x : κ) (n : Nat) (h : Copy κ) : Step limit ⟨some ⟨x, n + 1⟩, some h⟩ (.serves x) ⟨some h, none⟩
  | wastes (x : κ) (n : Nat) (h : Option (Copy κ)) : Step limit ⟨some ⟨x, n + 1⟩, h⟩ .wastes ⟨some ⟨x, n⟩, h⟩
  | loses (c : Copy κ) (h : Option (Copy κ)) : Step limit ⟨some c, h⟩ .loses ⟨none, h⟩

/-- The events of a run, in order. -/
inductive Run (limit : Nat) : Slot κ → List (SlotEvent κ) → Slot κ → Prop
  | refl (s : Slot κ) : Run limit s [] s
  | step {s t u : Slot κ} {e : SlotEvent κ} {es : List (SlotEvent κ)} (h : Step limit s e t) (hrun : Run limit t es u) :
    Run limit s (e :: es) u

variable {limit : Nat} {s t u : Slot κ} {es es' : List (SlotEvent κ)}

theorem Run.single {e : SlotEvent κ} (h : Step limit s e t) : Run limit s [e] t := .step h (.refl t)

theorem Run.append (h : Run limit s es t) (h' : Run limit t es' u) : Run limit s (es ++ es') u := by
  induction h with
  | refl => exact h'
  | step hstep _ ih => exact .step hstep (ih h')

/-! ## The bound -/

variable [DecidableEq κ]

/-- How often a copy may still be served, if it is one of `x`. -/
def leftOf (x : κ) (c : Option (Copy κ)) : Nat :=
  match c with
  | none => 0
  | some c => if c.item = x then c.left else 0

/-- How often `x` may still be served from the slot. A copy that waits before one that is kept aside is served once
at most; the one that is kept aside stands for at least the ask that put it there. -/
def due (x : κ) (s : Slot κ) : Nat :=
  match s.aside with
  | none => leftOf x s.waiting
  | some h => min 1 (leftOf x s.waiting) + if h.item = x then max 1 h.left else 0

theorem Step.served_le {e : SlotEvent κ} (h : Step limit s e t) (x : κ) :
    [e].count (.serves x) + t.due x ≤ s.due x + limit * [e].count (.enters x) + [e].count .asks := by
  cases h with
  | enters c h hleft =>
    by_cases hx : c.item = x
    · cases h <;> simp [due, leftOf, hx] <;> omega
    · cases h <;> simp [due, leftOf, hx]
  | answers c h hleft => cases h <;> simp [due, leftOf] <;> split <;> omega
  | keeps c =>
    simp only [due, leftOf]
    split
    · simp
      omega
    · simp
  | kept c h => simp [due]
  | serves y n =>
    by_cases hx : y = x
    · simp [due, leftOf, hx]
      omega
    · simp [due, leftOf, hx]
  | restores y n h =>
    by_cases hx : y = x
    · simp [due, leftOf, hx]
      split <;> omega
    · simp [due, leftOf, hx]
      split <;> omega
  | wastes y n h => cases h <;> simp [due, leftOf] <;> split <;> omega
  | loses c h => cases h <;> simp [due, leftOf]

/-- An item is served `limit` times for each time it enters, and once for each ask. -/
theorem Run.served_le (h : Run limit s es t) (x : κ) :
    es.count (.serves x) + t.due x ≤ s.due x + limit * es.count (.enters x) + es.count .asks := by
  induction h with
  | refl => simp
  | @step s t u e es hstep _ ih =>
    have hfirst := hstep.served_le x
    have hserves : (e :: es).count (.serves x) = [e].count (.serves x) + es.count (.serves x) := by
      rw [← List.count_append, List.singleton_append]
    have henters : (e :: es).count (.enters x) = [e].count (.enters x) + es.count (.enters x) := by
      rw [← List.count_append, List.singleton_append]
    have hasks : (e :: es).count .asks = [e].count .asks + es.count .asks := by
      rw [← List.count_append, List.singleton_append]
    rw [hserves, henters, hasks, Nat.mul_add]
    omega

/-- Nothing of `x` is left: no copy is kept aside, and one that waits is not served any more. -/
theorem due_eq_zero (x : κ) (h : s.due x = 0) :
    (∀ c, s.aside = some c → c.item ≠ x) ∧ leftOf x s.waiting = 0 := by
  unfold due at h
  cases haside : s.aside with
  | none =>
    rw [haside] at h
    exact ⟨fun c hc => (by cases hc), h⟩
  | some c =>
    rw [haside] at h
    dsimp only at h
    constructor
    · rintro c' hc' rfl
      cases hc'
      rw [if_pos rfl] at h
      omega
    · omega

/-! ## Where copies come from -/

/-- A copy of `x` waits or is kept aside. -/
def Holds (x : κ) (s : Slot κ) : Prop := (∃ c, s.waiting = some c ∧ c.item = x) ∨ ∃ c, s.aside = some c ∧ c.item = x

omit [DecidableEq κ] in
/-- Services and losses bring no copy into the slot. -/
theorem Run.holds (h : Run limit s es t) {x : κ} (henters : ∀ y, .enters y ∉ es) (hasks : .asks ∉ es)
    (ht : t.Holds x) : s.Holds x := by
  induction h with
  | refl => exact ht
  | step hstep _ ih =>
    have hrest := ih (fun y hy => henters y (List.mem_cons_of_mem _ hy)) (fun hy => hasks (List.mem_cons_of_mem _ hy)) ht
    unfold Holds at hrest ⊢
    cases hstep with
    | enters c => exact absurd List.mem_cons_self (henters c.item)
    | answers => exact absurd List.mem_cons_self hasks
    | keeps => exact absurd List.mem_cons_self hasks
    | kept => exact absurd List.mem_cons_self hasks
    | _ => simp_all

omit [DecidableEq κ] in
/-- Where nothing waits, nothing happens until a copy comes in. -/
theorem Run.of_empty {h : Option (Copy κ)} (hrun : Run limit ⟨none, h⟩ es t) (henters : ∀ y, .enters y ∉ es)
    (hasks : .asks ∉ es) : es = [] := by
  cases hrun with
  | refl => rfl
  | step hstep _ =>
    cases hstep with
    | enters c => exact absurd List.mem_cons_self (henters c.item)
    | answers => exact absurd List.mem_cons_self hasks

end Slot

end MicroReticulum.Library
