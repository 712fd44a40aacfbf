import Mathlib.Data.List.Basic

/-!
# Counted loops over a stream

A reader runs its body a number of times that it took from a header in the stream. The body starts
at a position `c` of the stream, changes an accumulator `a`, and leaves the reader at another
position. Nothing makes sure that the body moves past exactly one item.

`Loop` describes such a body together with the items that were written: which items it passes
(`good`), which items it reads correctly even if it does not pass them (`late`), and which positions
it reads keys from (`log`). `Loop.reads_eq` and `Loop.reads_diverge` decide when all keys are read
where they were written: every item but the last has to be passed. A loop whose body is itself a
counted loop is described the same way, so the three lemmas compose.
-/

namespace MicroReticulum.Library

variable {C A : Type}

/-- `for (i = 0; i < n; ++i) body` -/
def times (body : C → A → A × C) : Nat → C → A → A × C
  | 0, c, a => (a, c)
  | n + 1, c, a => times body n (body c a).2 (body c a).1

/-- The positions logged by the iterations of a loop. -/
def reads (log : C → A → List C) (body : C → A → A × C) : Nat → C → A → List C
  | 0, _, _ => []
  | n + 1, c, a => log c a ++ reads log body n (body c a).2 (body c a).1

/-- What every iteration keeps, the loop keeps. -/
theorem times_keeps {body : C → A → A × C} {P : A → Prop} (h : ∀ c a, P a → P (body c a).1) :
    ∀ n c a, P a → P (times body n c a).1
  | 0, _, _, ha => ha
  | n + 1, c, a, ha => times_keeps h n (body c a).2 (body c a).1 (h c a ha)

/-- The steps a counted loop decodes, and where it ends. -/
def gather {L : Type} (step : C → List L × C) : Nat → C → List L × C
  | 0, c => ([], c)
  | n + 1, c => ((step c).1 ++ (gather step n (step c).2).1, (gather step n (step c).2).2)

/-- Every step decoded comes from some position. -/
theorem exists_of_mem_gather {L : Type} {step : C → List L × C} {x : L} :
    ∀ n c, x ∈ (gather step n c).1 → ∃ c', x ∈ (step c').1
  | n + 1, c, h => by
    rcases List.mem_append.mp h with h | h
    · exact ⟨c, h⟩
    · exact exists_of_mem_gather n (step c).2 h

/-- A loop whose body decodes steps and applies them applies all the steps it decodes. -/
theorem times_eq_gather {L : Type} {body : C → A → A × C} {step : C → List L × C}
    {apply : A → L → A} {P : A → Prop} (hP : ∀ a l, P a → P (apply a l))
    (hbody : ∀ c a, P a → body c a = ((step c).1.foldl apply a, (step c).2)) :
    ∀ n c a, P a → times body n c a = ((gather step n c).1.foldl apply a, (gather step n c).2)
  | 0, _, _, _ => rfl
  | n + 1, c, a, ha => by
    have hfold : ∀ (ls : List L) (a : A), P a → P (ls.foldl apply a) := by
      intro ls
      induction ls with
      | nil => exact fun _ h => h
      | cons l ls ih => exact fun a h => ih (apply a l) (hP a l h)
    simp only [times, gather, hbody c a ha, List.foldl_append]
    exact times_eq_gather hP hbody n _ _ (hfold _ a ha)

/-- Every element but the last is good, and the last one is late. -/
def AllButLast {ι : Type} (good late : ι → Prop) : List ι → Prop
  | [] => True
  | [x] => late x
  | x :: y :: ys => good x ∧ AllButLast good late (y :: ys)

instance decidableAllButLast {ι : Type} (good late : ι → Prop) [DecidablePred good]
    [DecidablePred late] : DecidablePred (AllButLast good late)
  | [] => .isTrue trivial
  | [x] => inferInstanceAs (Decidable (late x))
  | x :: y :: ys =>
    @instDecidableAnd (good x) (AllButLast good late (y :: ys)) _
      (decidableAllButLast good late (y :: ys))

/-- The body of a counted loop and the items it is meant to read. -/
structure Loop (C A ι : Type) where
  body : C → A → A × C
  /-- the positions of the keys one iteration reads, its own first -/
  log : C → A → List C
  /-- an item in front of what follows it -/
  write : ι → C → C
  /-- the positions of an item's keys -/
  positions : ι → C → List C
  good : ι → Prop
  late : ι → Prop
  /-- what an item does to the accumulator -/
  effect : ι → A → A
  invariant : A → Prop
  late_of_good : ∀ x, good x → late x
  invariant_effect : ∀ x a, invariant a → invariant (effect x a)
  log_head : ∀ c a, ∃ l, log c a = c :: l
  positions_head : ∀ x rest, ∃ l, positions x rest = write x rest :: l
  log_of_late : ∀ x rest a, invariant a → late x → log (write x rest) a = positions x rest
  log_of_not_late : ∀ x rest a, invariant a → ¬ late x →
    ∀ l l', log (write x rest) a ++ l ≠ positions x rest ++ l'
  body_of_late : ∀ x rest a, invariant a → late x → (body (write x rest) a).1 = effect x a
  passed_iff : ∀ x rest a, invariant a → late x → ((body (write x rest) a).2 = rest ↔ good x)

namespace Loop

variable {ι : Type} (loop : Loop C A ι)

/-- A list of items in front of what follows them. -/
def writeAll : List ι → C → C
  | [], rest => rest
  | x :: xs, rest => loop.write x (writeAll xs rest)

/-- The positions of the keys of a list of items. -/
def positionsAll : List ι → C → List C
  | [], _ => []
  | x :: xs, rest => loop.positions x (loop.writeAll xs rest) ++ positionsAll xs rest

/-- The first key of a non-empty list of items. -/
theorem positionsAll_head (x : ι) (xs : List ι) (rest : C) :
    ∃ l, loop.positionsAll (x :: xs) rest = loop.writeAll (x :: xs) rest :: l := by
  obtain ⟨l, hl⟩ := loop.positions_head x (loop.writeAll xs rest)
  exact ⟨l ++ loop.positionsAll xs rest, by
    simp only [positionsAll, hl, List.cons_append]
    rfl⟩

/-- The first position an iteration reads from. -/
theorem reads_head (n : Nat) (c : C) (a : A) :
    ∃ l, reads loop.log loop.body (n + 1) c a = c :: l := by
  obtain ⟨l, hl⟩ := loop.log_head c a
  exact ⟨l ++ reads loop.log loop.body n (loop.body c a).2 (loop.body c a).1, by
    simp only [reads, hl, List.cons_append]⟩

/-- If every item but the last is passed, every key is read where it was written. -/
theorem reads_eq {xs : List ι} (h : AllButLast loop.good loop.late xs) (rest : C) {a : A}
    (ha : loop.invariant a) :
    reads loop.log loop.body xs.length (loop.writeAll xs rest) a = loop.positionsAll xs rest := by
  induction xs generalizing a with
  | nil => rfl
  | cons x xs ih =>
    cases xs with
    | nil =>
      show loop.log _ a ++ [] = loop.positions x rest ++ []
      rw [List.append_nil, List.append_nil]
      exact loop.log_of_late x rest a ha h
    | cons y ys =>
      have hlate := loop.late_of_good x h.1
      have hpassed := (loop.passed_iff x (loop.writeAll (y :: ys) rest) a ha hlate).mpr h.1
      have hbody := loop.body_of_late x (loop.writeAll (y :: ys) rest) a ha hlate
      have hrest := ih h.2 (loop.invariant_effect x a ha)
      show loop.log (loop.write x (loop.writeAll (y :: ys) rest)) a
          ++ reads loop.log loop.body (y :: ys).length
            (loop.body (loop.write x (loop.writeAll (y :: ys) rest)) a).2
            (loop.body (loop.write x (loop.writeAll (y :: ys) rest)) a).1
        = loop.positions x (loop.writeAll (y :: ys) rest) ++ loop.positionsAll (y :: ys) rest
      rw [loop.log_of_late x _ a ha hlate, hpassed, hbody, hrest]

/-- Otherwise some key is read from another place, whatever is read or written afterwards. -/
theorem reads_diverge {xs : List ι} (h : ¬ AllButLast loop.good loop.late xs) (rest : C) {a : A}
    (ha : loop.invariant a) (l l' : List C) :
    reads loop.log loop.body xs.length (loop.writeAll xs rest) a ++ l
      ≠ loop.positionsAll xs rest ++ l' := by
  induction xs generalizing a with
  | nil => exact absurd trivial h
  | cons x xs ih =>
    cases xs with
    | nil =>
      show loop.log _ a ++ [] ++ l ≠ loop.positions x rest ++ [] ++ l'
      rw [List.append_nil, List.append_nil]
      exact loop.log_of_not_late x rest a ha h l l'
    | cons y ys =>
      show loop.log (loop.write x (loop.writeAll (y :: ys) rest)) a
          ++ reads loop.log loop.body (y :: ys).length
            (loop.body (loop.write x (loop.writeAll (y :: ys) rest)) a).2
            (loop.body (loop.write x (loop.writeAll (y :: ys) rest)) a).1 ++ l
        ≠ loop.positions x (loop.writeAll (y :: ys) rest) ++ loop.positionsAll (y :: ys) rest ++ l'
      rw [List.append_assoc, List.append_assoc]
      by_cases hlate : loop.late x
      case neg => exact loop.log_of_not_late x _ a ha hlate _ _
      rw [loop.log_of_late x _ a ha hlate, loop.body_of_late x _ a ha hlate]
      intro heq
      have htail := List.append_cancel_left heq
      have hpassed := loop.passed_iff x (loop.writeAll (y :: ys) rest) a ha hlate
      by_cases hgood : loop.good x
      · have hbad : ¬ AllButLast loop.good loop.late (y :: ys) := fun hall => h ⟨hgood, hall⟩
        rw [hpassed.mpr hgood] at htail
        exact ih hbad (loop.invariant_effect x a ha) htail
      · -- the next key is read from where the reader stayed behind
        obtain ⟨l₁, hl₁⟩ := loop.reads_head ys.length
          (loop.body (loop.write x (loop.writeAll (y :: ys) rest)) a).2 (loop.effect x a)
        obtain ⟨l₂, hl₂⟩ := loop.positionsAll_head y ys rest
        rw [List.length_cons, hl₁, hl₂] at htail
        exact hgood (hpassed.mp (List.cons.inj htail).1)

/-- The loop does what its items do, and passes all of them exactly if each one is passed. -/
theorem times_eq {xs : List ι} (h : AllButLast loop.good loop.late xs) (rest : C) {a : A}
    (ha : loop.invariant a) :
    (times loop.body xs.length (loop.writeAll xs rest) a).1
        = xs.foldl (fun a x => loop.effect x a) a
      ∧ ((times loop.body xs.length (loop.writeAll xs rest) a).2 = rest
        ↔ ∀ x ∈ xs, loop.good x) := by
  induction xs generalizing a with
  | nil => exact ⟨rfl, by simp [times, writeAll]⟩
  | cons x xs ih =>
    cases xs with
    | nil =>
      refine ⟨loop.body_of_late x rest a ha h, ?_⟩
      rw [List.forall_mem_singleton]
      exact loop.passed_iff x rest a ha h
    | cons y ys =>
      have hlate := loop.late_of_good x h.1
      have hpassed := (loop.passed_iff x (loop.writeAll (y :: ys) rest) a ha hlate).mpr h.1
      have hbody := loop.body_of_late x (loop.writeAll (y :: ys) rest) a ha hlate
      have hrest := ih h.2 (loop.invariant_effect x a ha)
      have hstep : times loop.body (x :: y :: ys).length (loop.writeAll (x :: y :: ys) rest) a
          = times loop.body (y :: ys).length (loop.writeAll (y :: ys) rest) (loop.effect x a) := by
        show times loop.body (y :: ys).length
          (loop.body (loop.write x (loop.writeAll (y :: ys) rest)) a).2
          (loop.body (loop.write x (loop.writeAll (y :: ys) rest)) a).1 = _
        rw [hpassed, hbody]
      rw [hstep, List.foldl_cons, List.forall_mem_cons]
      exact ⟨hrest.1, hrest.2.trans ⟨fun hall => ⟨h.1, hall⟩, fun hall => hall.2⟩⟩

/-- Passing every item is more than passing all but the last. -/
theorem allButLast_of_all {xs : List ι} (h : ∀ x ∈ xs, loop.good x) :
    AllButLast loop.good loop.late xs := by
  induction xs with
  | nil => exact trivial
  | cons x xs ih =>
    cases xs with
    | nil => exact loop.late_of_good x (h x List.mem_cons_self)
    | cons y ys =>
      exact ⟨h x List.mem_cons_self, ih fun z hz => h z (List.mem_cons_of_mem _ hz)⟩

end Loop

end MicroReticulum.Library
