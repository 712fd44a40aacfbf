import Mathlib.Data.List.Nodup
import Mathlib.Logic.Relation

/-!
# Messages that are passed on

A message is started at some positions, and whoever hears it at a position may pass it on to others. The
walk of a message is the positions it was heard at, latest first. `Topology` says where a message starts
and who hears what is passed on at a position; in a `FloodStep` one message in flight is lost, or passed on
once.

Every message has a walk of its own, so what is passed on is counted by the walks: where only one walk
leads to, nothing is passed on twice (`passed_once`). Nothing is assumed about the order of the steps.
-/

namespace MicroReticulum.Library

/-- Where a message starts, and who hears what is passed on at a position. -/
structure Topology (α : Type) where
  start : List α
  next : α → List α
  start_nodup : start.Nodup
  next_nodup : ∀ a, (next a).Nodup

/-- The walks along which a message can be heard, latest position first. -/
inductive Topology.Heard {α : Type} (T : Topology α) : List α → Prop
  | start {a : α} : a ∈ T.start → T.Heard [a]
  | next {a b : α} {w : List α} : T.Heard (a :: w) → b ∈ T.next a → T.Heard (b :: a :: w)

/-- The walks of the messages in flight, and those after which a message was passed on. -/
structure Flood (α : Type) where
  inFlight : List (List α)
  passed : List (List α)

variable {α : Type} {T : Topology α} {f g : Flood α}

/-- The message at the positions it starts at. -/
def Topology.flood (T : Topology α) : Flood α where
  inFlight := T.start.map fun a => [a]
  passed := []

/-- A message in flight is lost, or it is heard and passed on. -/
inductive FloodStep (T : Topology α) : Flood α → Flood α → Prop
  | lose {before after passed : List (List α)} {w : List α} :
      FloodStep T { inFlight := before ++ w :: after, passed } { inFlight := before ++ after, passed }
  | pass {before after passed : List (List α)} {a : α} {w : List α} :
      FloodStep T { inFlight := before ++ (a :: w) :: after, passed }
        { inFlight := (T.next a).map (fun b => b :: a :: w) ++ (before ++ after)
          passed := (a :: w) :: passed }

/-- What holds of the messages at any time. -/
structure Flood.Sound (T : Topology α) (f : Flood α) : Prop where
  inFlight_nodup : f.inFlight.Nodup
  passed_nodup : f.passed.Nodup
  /-- a message in flight was not passed on yet -/
  fresh : ∀ w ∈ f.inFlight, w ∉ f.passed
  /-- it is there because it was passed on where it was heard before -/
  parent : ∀ b a w, b :: a :: w ∈ f.inFlight ∨ b :: a :: w ∈ f.passed → a :: w ∈ f.passed
  heard : ∀ w, w ∈ f.inFlight ∨ w ∈ f.passed → T.Heard w

theorem Topology.flood_sound (T : Topology α) : T.flood.Sound T where
  inFlight_nodup := T.start_nodup.map fun _ _ h => (List.cons.inj h).1
  passed_nodup := List.nodup_nil
  fresh _ _ := List.not_mem_nil
  parent b a w := by
    rintro (h | h)
    · obtain ⟨c, -, hc⟩ := List.mem_map.mp h
      cases hc
    · cases h
  heard w := by
    rintro (h | h)
    · obtain ⟨a, ha, rfl⟩ := List.mem_map.mp h
      exact .start ha
    · cases h

/-- One message less in flight. -/
theorem Flood.Sound.lose {before after passed : List (List α)} {w : List α}
    (h : Flood.Sound T { inFlight := before ++ w :: after, passed }) :
    Flood.Sound T { inFlight := before ++ after, passed } := by
  have hsub : (before ++ after).Sublist (before ++ w :: after) :=
    (List.sublist_cons_self w after).append_left before
  exact
    { inFlight_nodup := hsub.nodup h.inFlight_nodup
      passed_nodup := h.passed_nodup
      fresh := fun v hv => h.fresh v (hsub.subset hv)
      parent := fun b a v hv => h.parent b a v (hv.imp_left fun hv => hsub.subset hv)
      heard := fun v hv => h.heard v (hv.imp_left fun hv => hsub.subset hv) }

/-- What is passed on has walks of its own: the walk it extends was not passed on before. -/
theorem Flood.Sound.pass {before after passed : List (List α)} {a : α} {w : List α}
    (h : Flood.Sound T { inFlight := before ++ (a :: w) :: after, passed }) :
    Flood.Sound T { inFlight := (T.next a).map (fun b => b :: a :: w) ++ (before ++ after)
                    passed := (a :: w) :: passed } := by
  have hself : a :: w ∈ before ++ (a :: w) :: after := by simp
  have hfresh : a :: w ∉ passed := h.fresh _ hself
  have hlost := h.lose
  have hout : a :: w ∉ before ++ after := (List.nodup_middle.mp h.inFlight_nodup).notMem
  have hnew : ∀ v ∈ (T.next a).map (fun b => b :: a :: w), v ∉ before ++ after ∧ v ∉ passed := by
    intro v hv
    obtain ⟨b, -, rfl⟩ := List.mem_map.mp hv
    exact ⟨fun hin => hfresh (hlost.parent b a w (.inl hin)), fun hp => hfresh (hlost.parent b a w (.inr hp))⟩
  refine
    { inFlight_nodup := ?_, passed_nodup := List.nodup_cons.mpr ⟨hfresh, h.passed_nodup⟩
      fresh := ?_, parent := ?_, heard := ?_ }
  · refine List.Nodup.append ((T.next_nodup a).map fun _ _ hb => (List.cons.inj hb).1)
      hlost.inFlight_nodup fun v hv hv' => (hnew v hv).1 hv'
  · intro v hv hp
    rcases List.mem_append.mp hv with hv | hv
    · rcases List.mem_cons.mp hp with rfl | hp
      · obtain ⟨b, -, hb⟩ := List.mem_map.mp hv
        have hlength := congrArg List.length (List.cons.inj hb).2
        simp at hlength
      · exact (hnew v hv).2 hp
    · rcases List.mem_cons.mp hp with rfl | hp
      · exact hout hv
      · exact hlost.fresh v hv hp
  · rintro b c v (hv | hv)
    · rcases List.mem_append.mp hv with hv | hv
      · obtain ⟨d, -, hd⟩ := List.mem_map.mp hv
        cases hd
        exact List.mem_cons_self
      · exact List.mem_cons_of_mem _ (hlost.parent b c v (.inl hv))
    · rcases List.mem_cons.mp hv with hv | hv
      · exact List.mem_cons_of_mem _ (h.parent b c v (.inl (hv ▸ hself)))
      · exact List.mem_cons_of_mem _ (hlost.parent b c v (.inr hv))
  · rintro v (hv | hv)
    · rcases List.mem_append.mp hv with hv | hv
      · obtain ⟨b, hb, rfl⟩ := List.mem_map.mp hv
        exact .next (h.heard _ (.inl hself)) hb
      · exact hlost.heard v (.inl hv)
    · rcases List.mem_cons.mp hv with rfl | hv
      · exact h.heard _ (.inl hself)
      · exact hlost.heard v (.inr hv)

theorem FloodStep.sound (hstep : FloodStep T f g) (h : f.Sound T) : g.Sound T := by
  cases hstep with
  | lose => exact h.lose
  | pass => exact h.pass

theorem sound_of_run (hrun : Relation.ReflTransGen (FloodStep T) T.flood f) : f.Sound T := by
  induction hrun with
  | refl => exact T.flood_sound
  | tail _ hstep ih => exact hstep.sound ih

/-- Of walks of which there is only one, none is passed on twice. -/
theorem Flood.Sound.passed_once (h : f.Sound T) (P : List α → Bool)
    (honly : ∀ w w', T.Heard w → T.Heard w' → P w → P w' → w = w') :
    (f.passed.filter P).length ≤ 1 := by
  have hnodup := h.passed_nodup.filter P
  have hall : ∀ w ∈ f.passed.filter P, ∀ w' ∈ f.passed.filter P, w = w' := by
    intro w hw w' hw'
    obtain ⟨hw, hP⟩ := List.mem_filter.mp hw
    obtain ⟨hw', hP'⟩ := List.mem_filter.mp hw'
    exact honly w w' (h.heard w (.inr hw)) (h.heard w' (.inr hw')) hP hP'
  rcases hpassed : f.passed.filter P with _ | ⟨w, _ | ⟨w', rest⟩⟩
  · simp
  · simp
  · rw [hpassed] at hnodup hall
    have hsame := hall w (by simp) w' (by simp)
    exact absurd (List.nodup_cons.mp hnodup).1 (by rw [hsame]; simp)

end MicroReticulum.Library
