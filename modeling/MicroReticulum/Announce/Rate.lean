import Mathlib.Data.List.Chain
import Mathlib.Data.List.Induction
import MicroReticulum.Library.RateLimit
import MicroReticulum.Announce.Newest

/-!
# The rate limit for announces

An interface with a rate target above zero limits how often one destination may announce itself. `RateRun` follows
the record of a destination through whatever a node does, with the announces that were counted; the record is that
of a limiter that forgives, and carries what holds of such a limiter over to the node.

The times are exact rational numbers here; the source has them as `double`.
-/

namespace MicroReticulum.Announce

open MicroReticulum Packet Link Library Transport

variable {env : Environment} {d : Address} {s t u : TransportState} {p : Packet} {i : Interface}

/-! ## The record -/

/-- An announce that is counted: the time, which `OS::time` never puts below zero, and the interface it came in on. -/
structure RateArrival where
  time : ℚ
  clock : 0 ≤ time
  interface : Interface

/-- The limits an interface sets. -/
def rateLimit (i : Interface) : RateLimit ℚ where
  target := i.announceRateTarget
  grace := i.announceRateGrace
  penalty := i.announceRatePenalty

/-- The limiter that a record stands for. -/
def limiterOf (e : RateEntry) : Limiter ℚ where
  last := e.last
  violations := e.rateViolations
  blockedUntil := e.blockedUntil

/-- What an announce makes of the record, and whether it is blocked. The first one opens the record. -/
def rateStep (a : RateArrival) : Option RateEntry → RateEntry × Bool
  | none => ({ last := a.time, timestamps := [a.time] }, false)
  | some e => e.announced a.time a.interface

/-- The record after some announces. -/
def recorded (entry : Option RateEntry) (l : List RateArrival) : Option RateEntry :=
  l.foldl (fun entry a => some (rateStep a entry).1) entry

/-- What is recorded of arrivals goes on from what was recorded before. -/
theorem recorded_append (entry : Option RateEntry) (l : List RateArrival) (a : RateArrival) :
    recorded entry (l ++ [a]) = some (rateStep a (recorded entry l)).1 := by
  unfold recorded
  rw [List.foldl_append]
  rfl

/-- A further announce is heard by the limiter. -/
theorem announced_limiter (now : ℚ) (i : Interface) (e : RateEntry) :
    (limiterOf (e.announced now i).1, (e.announced now i).2) = (limiterOf e).hear now (rateLimit i) := by
  obtain ⟨violations, hviolations⟩ : ∃ violations, violations =
    if now - e.last < i.announceRateTarget then e.rateViolations + 1 else max 0 (e.rateViolations - 1) := ⟨_, rfl⟩
  have hcounted : (limiterOf e).counted now (rateLimit i) = violations := hviolations.symm
  have hheard : (limiterOf e).hear now (rateLimit i) = if e.blockedUntil < now then
      if (rateLimit i).grace < (limiterOf e).counted now (rateLimit i) then
        (⟨e.last, (limiterOf e).counted now (rateLimit i), e.last + i.announceRateTarget + i.announceRatePenalty⟩, true)
      else (⟨now, (limiterOf e).counted now (rateLimit i), e.blockedUntil⟩, false)
    else (limiterOf e, true) := rfl
  rw [hheard, hcounted]
  unfold RateEntry.announced
  dsimp only
  rw [← hviolations]
  by_cases hover : e.blockedUntil < now
  case neg =>
    rw [if_neg hover, if_neg hover]
    rfl
  case pos =>
    rw [if_pos hover, if_pos hover]
    by_cases hmany : (i.announceRateGrace : ℚ) < violations
    · rw [if_pos hmany]
      exact (if_pos hmany).symm
    · rw [if_neg hmany]
      exact (if_neg hmany).symm

/-- The last `n` elements are at most `n`. -/
theorem lastOf_length {α : Type} (n : ℕ) (l : List α) : (lastOf n l).length ≤ n := by
  unfold lastOf
  rw [List.length_drop]
  omega

/-- An arrival keeps the list of times within its limit. -/
theorem rateStep_timestamps (a : RateArrival) (entry : Option RateEntry) :
    (rateStep a entry).1.timestamps.length ≤ maxRateTimestamps := by
  cases entry with
  | none => exact (by decide : 1 ≤ maxRateTimestamps)
  | some e =>
    have htimes : (e.announced a.time a.interface).1.timestamps = lastOf maxRateTimestamps (e.timestamps ++ [a.time]) := by
      unfold RateEntry.announced
      dsimp only
      split
      · split <;> split <;> rfl
      · rfl
    show (e.announced a.time a.interface).1.timestamps.length ≤ _
    rw [htimes]
    exact lastOf_length _ _

/-- So the list of times is within its limit after every run. -/
theorem recorded_timestamps {l : List RateArrival} {e : RateEntry} (h : recorded none l = some e) :
    e.timestamps.length ≤ maxRateTimestamps := by
  induction l using List.reverseRecOn with
  | nil => cases h
  | append_singleton l a ih =>
    rw [recorded_append] at h
    cases h
    exact rateStep_timestamps _ _

/-- The count of violations is never below zero. -/
theorem recorded_violations {l : List RateArrival} {e : RateEntry} (h : recorded none l = some e) :
    0 ≤ (limiterOf e).violations := by
  induction l using List.reverseRecOn generalizing e with
  | nil => cases h
  | append_singleton l a ih =>
    rw [recorded_append] at h
    cases h
    cases hbefore : recorded none l with
    | none => exact le_refl 0
    | some e =>
      have hheard : limiterOf (rateStep a (some e)).1 = ((limiterOf e).hear a.time (rateLimit a.interface)).1 :=
        congrArg Prod.fst (announced_limiter a.time a.interface e)
      rw [hheard]
      exact Limiter.hear_nonneg (ih hbefore)

/-! ## Keeping the distance -/

/-- The announces come in on interfaces with one rate target, and no two of them are closer. -/
structure KeepsTarget (target : ℚ) (l : List RateArrival) : Prop where
  targets : ∀ a ∈ l, a.interface.announceRateTarget = target
  distant : l.IsChain fun a b => a.time + target ≤ b.time

/-- An announce that keeps the distance is not blocked, and nothing is held against the source. -/
theorem rateStep_of_distant {target : ℚ} (htarget : 0 < target) {a b : RateArrival} {entry : Option RateEntry}
    (hentry : entry.map limiterOf = some ⟨b.time, 0, 0⟩) (hinterface : a.interface.announceRateTarget = target)
    (hdistant : b.time + target ≤ a.time) :
    limiterOf (rateStep a entry).1 = ⟨a.time, 0, 0⟩ ∧ (rateStep a entry).2 = false := by
  obtain ⟨e, rfl, he⟩ := Option.map_eq_some_iff.mp hentry
  have hover : (limiterOf e).blockedUntil < a.time := by
    rw [he]
    linarith [b.clock]
  have hfar : (rateLimit a.interface).target ≤ a.time - (limiterOf e).last := by
    rw [he, show (rateLimit a.interface).target = target from hinterface]
    linarith
  have hclear : max 0 ((limiterOf e).violations - 1) = 0 := by
    rw [he]
    exact max_eq_left (by norm_num)
  have hheard : (limiterOf (rateStep a (some e)).1, (rateStep a (some e)).2)
      = ({ limiterOf e with violations := 0, last := a.time }, false) :=
    (announced_limiter a.time a.interface e).trans
      (Limiter.hear_of_respectful hover hfar hclear (Nat.cast_nonneg a.interface.announceRateGrace))
  rw [he] at hheard
  exact Prod.mk.inj hheard

/-- Arrivals that keep the target leave no violation and no block, and the last time heard. -/
theorem recorded_of_keepsTarget {target : ℚ} (htarget : 0 < target) {l : List RateArrival}
    (h : KeepsTarget target l) :
    (recorded none l).map limiterOf = l.getLast?.map fun a => ⟨a.time, 0, 0⟩ := by
  induction l using List.reverseRecOn with
  | nil => rfl
  | append_singleton l a ih =>
    obtain ⟨hbefore, -, hlast⟩ := List.isChain_append.mp h.distant
    have hsame := ih ⟨fun b hb => h.targets b (List.mem_append_left _ hb), hbefore⟩
    rw [recorded_append, List.getLast?_concat]
    cases hend : l.getLast? with
    | none =>
      rw [List.getLast?_eq_none_iff.mp hend]
      rfl
    | some b =>
      rw [hend] at hsame
      exact congrArg some (rateStep_of_distant htarget hsame (h.targets a (List.mem_append_right _ List.mem_cons_self))
        (hlast b hend a rfl)).1

/-- The next announce of a source that keeps the distance is not blocked. -/
theorem passes_of_keepsTarget {target : ℚ} (htarget : 0 < target) {l : List RateArrival} {a : RateArrival}
    (h : KeepsTarget target (l ++ [a])) : (rateStep a (recorded none l)).2 = false := by
  obtain ⟨hbefore, -, hlast⟩ := List.isChain_append.mp h.distant
  have hsame := recorded_of_keepsTarget htarget
    ⟨fun b hb => h.targets b (List.mem_append_left _ hb), hbefore⟩
  cases hend : l.getLast? with
  | none =>
    rw [List.getLast?_eq_none_iff.mp hend]
    rfl
  | some b =>
    rw [hend] at hsame
    exact (rateStep_of_distant htarget hsame (h.targets a (List.mem_append_right _ List.mem_cons_self))
      (hlast b hend a rfl)).2

/-- Announces without end that keep the distance. -/
structure RateArrivals (target : ℚ) where
  arrive : ℕ → RateArrival
  targets : ∀ k, (arrive k).interface.announceRateTarget = target
  distant : ∀ k, (arrive k).time + target ≤ (arrive (k + 1)).time

namespace RateArrivals

variable {target : ℚ} (a : RateArrivals target)

/-- The first `k` of them. -/
def first (k : ℕ) : List RateArrival := (List.range k).map a.arrive

/-- The arrivals at the limiter. -/
def arrivals (htarget : 0 < target) : Arrivals ℚ where
  target := target
  time k := (a.arrive k).time
  limit k := rateLimit (a.arrive k).interface
  positive := htarget
  targets := a.targets
  graces k := Nat.cast_nonneg (a.arrive k).interface.announceRateGrace
  distant := a.distant

/-- The first arrivals of a burst count as the abstract limiter counts them. -/
theorem recorded_first (htarget : 0 < target) (e : RateEntry) (k : ℕ) :
    ∃ e', recorded (some e) (a.first k) = some e' ∧ limiterOf e' = (a.arrivals htarget).before (limiterOf e) k := by
  induction k with
  | zero => exact ⟨e, rfl, rfl⟩
  | succ k ih =>
    obtain ⟨e', hrecorded, hlimiter⟩ := ih
    have hnext : a.first (k + 1) = a.first k ++ [a.arrive k] := by
      unfold first
      rw [List.range_succ, List.map_append]
      rfl
    refine ⟨_, hnext ▸ recorded_append _ _ _, ?_⟩
    rw [hrecorded]
    have hheard : limiterOf (rateStep (a.arrive k) (some e')).1
        = ((limiterOf e').hear (a.arrive k).time (rateLimit (a.arrive k).interface)).1 :=
      congrArg Prod.fst (announced_limiter (a.arrive k).time (a.arrive k).interface e')
    rw [hheard, hlimiter]
    rfl

/-- From some announce on, none is blocked. -/
theorem recovers (htarget : 0 < target) {e : RateEntry} (he : 0 ≤ (limiterOf e).violations) :
    ∃ k, ∀ j, k ≤ j → (rateStep (a.arrive j) (recorded (some e) (a.first j))).2 = false := by
  obtain ⟨k, hk⟩ := (a.arrivals htarget).recovers (limiterOf e) he
  refine ⟨k, fun j hj => ?_⟩
  obtain ⟨e', hrecorded, hlimiter⟩ := a.recorded_first htarget e j
  have hheard : (rateStep (a.arrive j) (some e')).2
      = ((limiterOf e').hear (a.arrive j).time (rateLimit (a.arrive j).interface)).2 :=
    congrArg Prod.snd (announced_limiter (a.arrive j).time (a.arrive j).interface e')
  rw [hrecorded, hheard, hlimiter]
  exact hk j hj

end RateArrivals

/-! ## The node -/

/-- The rate table is as it was. -/
def SameRates (s t : TransportState) : Prop := t.announceRateTable = s.announceRateTable

theorem SameRates.refl (s : TransportState) : SameRates s s := rfl

theorem SameRates.trans (s t u : TransportState) (h : SameRates s t) (h' : SameRates t u) : SameRates s u :=
  Eq.trans h' h

/-- The rate limit looks at the announce. -/
def Limited (p : Packet) (i : Interface) : Prop :=
  p.context ≠ ContextType.pathResponse ∧ 0 < i.announceRateTarget

/-- Whether the rate limit blocks the announce, behind the decision to accept it. -/
def rateVerdict (env : Environment) (p : Packet) (i : Interface) (s : TransportState) : Outcome String Bool :=
  (rateBlocked env.now p i (judgeAnnounce env p s).2).1

theorem identityRecall_rates (d : Address) : Prog.Keeps SameRates (identityRecall env d) :=
  identityRecall_keeps SameRates.refl SameRates.trans (fun _ _ => rfl) d

theorem markPath_rates (state : PathState) (d : Address) (s : TransportState) : SameRates s (markPath state d s) := by
  unfold markPath
  split
  · rfl
  · rfl

theorem hearRebroadcast_rates (now : ℚ) (p : Packet) (s : TransportState) : SameRates s (hearRebroadcast now p s) := by
  unfold hearRebroadcast
  split
  · rfl
  · split
    · rfl
    · split
      · rfl
      · rfl

theorem addAnnounceEntry_rates (d : Address) (e : AnnounceEntry) (s : TransportState) :
    SameRates s (addAnnounceEntry env d e s) := by
  unfold addAnnounceEntry cullAnnounceTable
  split
  · rfl
  · rfl

theorem judgeAnnounce_rates (henv : Validates env) (p : Packet) : Prog.Keeps SameRates (judgeAnnounce env p) :=
  judgeAnnounce_keeps SameRates.refl SameRates.trans (markPath_rates .unknown) henv (hearRebroadcast_rates _ p)
    (validateAnnounce_keeps SameRates.refl SameRates.trans (fun _ _ => rfl) p false) (identityRecall_rates _)

/-- What follows from accepting an announce behind the rate limit. -/
theorem afterLimit_rates (hhandlers : HandlersSpare SameRates env) (p : Packet) (i : Interface) (identity : Address)
    (blobs : List Bytes) (blocked : Bool) :
    Prog.Keeps SameRates (scheduleAnnounce env p i blocked >>= fun _ => answerWaiting env p i identity >>= fun _ =>
      storePath env p i blobs >>= fun _ => callAnnounceHandlers env p) := by
  apply Prog.Keeps.bind SameRates.trans
  · exact scheduleAnnounce_keeps SameRates.refl SameRates.trans addAnnounceEntry_rates (fun _ _ => rfl) p i blocked
  intro _
  apply Prog.Keeps.bind SameRates.trans
  · exact answerWaiting_keeps SameRates.refl SameRates.trans (fun _ _ h => h.announceRateTable)
      (identityRecall_rates _) i identity
  intro _
  apply Prog.Keeps.bind SameRates.trans
  · exact storePath_keeps SameRates.refl SameRates.trans (fun _ _ _ => rfl) (markPath_rates .unknown) p i blobs
  intro _
  exact callAnnounceHandlers_keeps SameRates.refl SameRates.trans (identityRecall_rates _) hhandlers

/-- The announce in the record of its destination. -/
def recordAnnounce (a : RateArrival) (d : Address) (s : TransportState) : TransportState :=
  { s with announceRateTable := s.announceRateTable.insert d (rateStep a (s.announceRateTable.lookup d)).1 }

/-- An announce that is limited is recorded and judged by the limiter. -/
theorem rateBlocked_limited {now : ℚ} (clock : 0 ≤ now) (h : Limited p i) (s : TransportState) :
    rateBlocked now p i s = (.value (rateStep ⟨now, clock, i⟩ (s.announceRateTable.lookup p.destinationHash)).2,
      recordAnnounce ⟨now, clock, i⟩ p.destinationHash s) := by
  unfold Limited at h
  unfold rateBlocked recordAnnounce
  rw [Prog.get_bind_run, if_pos h]
  cases s.announceRateTable.lookup p.destinationHash with
  | none => rfl
  | some e => rfl

/-- One that is not limited is neither recorded nor blocked. -/
theorem rateBlocked_unlimited (now : ℚ) (h : ¬ Limited p i) (s : TransportState) :
    rateBlocked now p i s = (.value false, s) := by
  unfold Limited at h
  unfold rateBlocked
  rw [Prog.get_bind_run, if_neg h]
  rfl

/-- An accepted announce that is looked at is recorded. -/
theorem handleAnnounce_records (henv : Validates env) (hhandlers : HandlersSpare SameRates env) (clock : 0 ≤ env.now)
    (haccepted : Accepted env p s) (hlimited : Limited p i) (identity : Address) :
    SameRates (recordAnnounce ⟨env.now, clock, i⟩ p.destinationHash s) (handleAnnounce env p i identity s).2 := by
  obtain ⟨blobs, hvalue⟩ := haccepted
  have hjudged : SameRates s (judgeAnnounce env p s).2 := judgeAnnounce_rates henv p s
  have hrecorded : SameRates (recordAnnounce ⟨env.now, clock, i⟩ p.destinationHash s)
      (recordAnnounce ⟨env.now, clock, i⟩ p.destinationHash (judgeAnnounce env p s).2) := by
    unfold SameRates recordAnnounce at *
    rw [hjudged]
  rw [handleAnnounce_eq, Prog.bind_value (Prod.ext hvalue rfl)]
  dsimp only
  unfold acceptAnnounce
  rw [Prog.bind_value (rateBlocked_limited clock hlimited _)]
  exact SameRates.trans _ _ _ hrecorded (afterLimit_rates hhandlers p i identity blobs _ _)

/-- Any other is not. -/
theorem handleAnnounce_unrecorded (henv : Validates env) (hhandlers : HandlersSpare SameRates env)
    (h : ¬ (Accepted env p s ∧ Limited p i)) (identity : Address) :
    SameRates s (handleAnnounce env p i identity s).2 := by
  have hjudged : SameRates s (judgeAnnounce env p s).2 := judgeAnnounce_rates henv p s
  rw [handleAnnounce_eq, Prog.bind_run]
  rcases hrun : judgeAnnounce env p s with ⟨decision | _ | _ | _, t⟩ <;> rw [hrun] at hjudged
  case value =>
    cases decision with
    | none => exact hjudged
    | some blobs =>
      have hunlimited : ¬ Limited p i := fun hlimited => h ⟨⟨blobs, by rw [hrun]⟩, hlimited⟩
      dsimp only
      unfold acceptAnnounce
      rw [Prog.bind_value (rateBlocked_unlimited _ hunlimited t)]
      exact SameRates.trans _ _ _ hjudged (afterLimit_rates hhandlers p i identity blobs false t)
  all_goals exact hjudged

/-! ## Blocking -/

/-- The verdict is that of the record. -/
theorem rateVerdict_eq (henv : Validates env) (clock : 0 ≤ env.now) (hlimited : Limited p i) (s : TransportState) :
    rateVerdict env p i s
      = .value (rateStep ⟨env.now, clock, i⟩ (s.announceRateTable.lookup p.destinationHash)).2 := by
  have hjudged : (judgeAnnounce env p s).2.announceRateTable = s.announceRateTable := judgeAnnounce_rates henv p s
  unfold rateVerdict
  rw [rateBlocked_limited clock hlimited, hjudged]

/-- What a block lets through: the announce is heard, and that is all. -/
theorem scheduleAnnounce_blocked (hlimited : Limited p i) : scheduleAnnounce env p i true s = (.value (), s) := by
  unfold scheduleAnnounce
  rw [Prog.get_bind_run]
  split
  · rfl
  · rw [Prog.when_of_not fun h => hlimited.1 h.2.1]
    rfl

/-- A blocked announce does not enter the announce table. -/
theorem blocked_stays_out (henv : Validates env) (hhandlers : HandlersSpare SameWaiting env) (clock : 0 ≤ env.now)
    (hlimited : Limited p i)
    (hblocked : (rateStep ⟨env.now, clock, i⟩ (s.announceRateTable.lookup p.destinationHash)).2 = true)
    (identity : Address) : SameWaiting (echoed env p s) (handleAnnounce env p i identity s).2 := by
  have hjudged := judgeAnnounce_waiting henv p s
  have hrates : SameRates s (judgeAnnounce env p s).2 := judgeAnnounce_rates henv p s
  rw [handleAnnounce_eq, Prog.bind_run]
  rcases hrun : judgeAnnounce env p s with ⟨decision | _ | _ | _, t⟩ <;> rw [hrun] at hjudged hrates
  case value =>
    cases decision with
    | none => exact hjudged
    | some blobs =>
      have hlookup : (rateStep ⟨env.now, clock, i⟩ (t.announceRateTable.lookup p.destinationHash)).2 = true := by
        rw [show t.announceRateTable = s.announceRateTable from hrates]
        exact hblocked
      dsimp only
      unfold acceptAnnounce
      rw [Prog.bind_value (rateBlocked_limited clock hlimited t), hlookup,
        Prog.bind_value (scheduleAnnounce_blocked hlimited)]
      have hrecorded : SameWaiting t (recordAnnounce ⟨env.now, clock, i⟩ p.destinationHash t) := ⟨rfl, rfl⟩
      apply SameWaiting.trans _ _ _ (.trans _ _ _ hjudged hrecorded)
      exact Prog.Keeps.bind SameWaiting.trans (answerWaiting_waiting p i identity)
        (fun _ => storeAndCall_waiting hhandlers p i blobs) _
  all_goals exact hjudged

/-- Up to the end of a block, every announce is blocked. -/
theorem rateStep_of_blocked {a : RateArrival} {e : RateEntry} (h : a.time ≤ e.blockedUntil) :
    (rateStep a (some e)).2 = true := by
  have hheard : (rateStep a (some e)).2 = ((limiterOf e).hear a.time (rateLimit a.interface)).2 :=
    congrArg Prod.snd (announced_limiter a.time a.interface e)
  rw [hheard, Limiter.hear_of_blocked h]

/-! ## Runs -/

/-- What a node does, with the announces of `d` that are recorded. Whatever is not an announce leaves the record of
`d` as it is. The settings and the handlers may differ from step to step. -/
inductive RateRun (d : Address) (s : TransportState) : List RateArrival → TransportState → Prop
  | start : RateRun d s [] s
  | recorded {l : List RateArrival} {t : TransportState} (h : RateRun d s l t) {env : Environment} {p : Packet}
      {i : Interface} (henv : Validates env) (hhandlers : HandlersSpare SameRates env) (clock : 0 ≤ env.now)
      (hd : p.destinationHash = d) (haccepted : Accepted env p t) (hlimited : Limited p i) (identity : Address) :
      RateRun d s (l ++ [⟨env.now, clock, i⟩]) (handleAnnounce env p i identity t).2
  | announce {l : List RateArrival} {t : TransportState} (h : RateRun d s l t) {env : Environment} {p : Packet}
      {i : Interface} (henv : Validates env) (hhandlers : HandlersSpare SameRates env) (clock : 0 ≤ env.now)
      (hother : ¬ (p.destinationHash = d ∧ Accepted env p t ∧ Limited p i)) (identity : Address) :
      RateRun d s l (handleAnnounce env p i identity t).2
  | other {l : List RateArrival} {t u : TransportState} (h : RateRun d s l t)
      (hsame : u.announceRateTable.lookup d = t.announceRateTable.lookup d) : RateRun d s l u

/-- After a run the entry of a destination is what its arrivals have recorded. -/
theorem RateRun.lookup {l : List RateArrival} (h : RateRun d s l t) :
    t.announceRateTable.lookup d = Announce.recorded (s.announceRateTable.lookup d) l := by
  induction h with
  | start => rfl
  | @recorded l t h env p i henv hhandlers clock hd haccepted hlimited identity ih =>
    have htable := handleAnnounce_records henv hhandlers clock haccepted hlimited identity
    unfold SameRates recordAnnounce at htable
    rw [htable, hd, AList.lookup_insert, recorded_append, ih]
  | @announce l t h env p i henv hhandlers clock hother identity ih =>
    by_cases hrecords : Accepted env p t ∧ Limited p i
    case pos =>
      have htable := handleAnnounce_records henv hhandlers clock hrecords.1 hrecords.2 identity
      have hd : d ≠ p.destinationHash := fun hd => hother ⟨hd.symm, hrecords⟩
      unfold SameRates recordAnnounce at htable
      rw [htable, AList.lookup_insert_ne hd, ih]
    case neg =>
      have htable : SameRates t _ := handleAnnounce_unrecorded henv hhandlers hrecords identity
      rw [show (handleAnnounce env p i identity t).2.announceRateTable = _ from htable, ih]
  | other h hsame ih => rw [hsame, ih]

/-- The rate limit blocks, and lets go. For every run in which announces of a destination are recorded: at most
`MAX_RATE_TIMESTAMPS` timestamps are recorded; up to the end of a block none of its announces enters the announce
table; if the announces have kept the distance, the next that does is not blocked; and whatever was recorded,
of announces without end that keep the distance all are let through from some on. -/
theorem rate_limit_blocks_and_recovers {target : ℚ} (htarget : 0 < target) (hs : d ∉ s.announceRateTable)
    {l : List RateArrival} (hrun : RateRun d s l t) :
    (∀ e, t.announceRateTable.lookup d = some e → e.timestamps.length ≤ maxRateTimestamps)
      ∧ (∀ env p i identity e, Validates env → HandlersSpare SameWaiting env → 0 ≤ env.now → p.destinationHash = d →
        p.context ≠ ContextType.pathResponse → i.announceRateTarget = target →
        t.announceRateTable.lookup d = some e → env.now ≤ e.blockedUntil →
        rateVerdict env p i t = .value true ∧ SameWaiting (echoed env p t) (handleAnnounce env p i identity t).2)
      ∧ (∀ env p i, Validates env → (clock : 0 ≤ env.now) → p.destinationHash = d →
        p.context ≠ ContextType.pathResponse → KeepsTarget target (l ++ [⟨env.now, clock, i⟩]) →
        rateVerdict env p i t = .value false)
      ∧ ∀ a : RateArrivals target, l ≠ [] → ∃ k, ∀ j, k ≤ j → ∀ u env p, RateRun d t (a.first j) u → Validates env →
        env.now = (a.arrive j).time → p.destinationHash = d → p.context ≠ ContextType.pathResponse →
        rateVerdict env p (a.arrive j).interface u = .value false := by
  have hlookup := hrun.lookup
  rw [AList.lookup_eq_none.mpr hs] at hlookup
  refine ⟨fun e he => ?_, ?_, ?_, fun a hl => ?_⟩
  · exact recorded_timestamps (hlookup.symm.trans he)
  · rintro env p i identity e henv hhandlers clock rfl hcontext rfl he hblocked
    have hstep : (rateStep ⟨env.now, clock, i⟩ (t.announceRateTable.lookup p.destinationHash)).2 = true := by
      rw [he]
      exact rateStep_of_blocked hblocked
    refine ⟨?_, blocked_stays_out henv hhandlers clock ⟨hcontext, htarget⟩ hstep identity⟩
    rw [rateVerdict_eq henv clock ⟨hcontext, htarget⟩, hstep]
  · rintro env p i henv clock rfl hcontext hkeeps
    have hinterface : i.announceRateTarget = target :=
      hkeeps.targets ⟨env.now, clock, i⟩ (List.mem_append_right _ List.mem_cons_self)
    rw [rateVerdict_eq henv clock ⟨hcontext, hinterface ▸ htarget⟩, hlookup, passes_of_keepsTarget htarget hkeeps]
  · obtain ⟨e, he⟩ : ∃ e, Announce.recorded none l = some e := by
      obtain ⟨l', a, rfl⟩ := (List.eq_nil_or_concat' l).resolve_left hl
      exact ⟨_, recorded_append _ _ _⟩
    obtain ⟨k, hk⟩ := a.recovers htarget (recorded_violations he)
    refine ⟨k, fun j hj u env p hcontinued henv hnow hd hcontext => ?_⟩
    have hthen := hcontinued.lookup
    rw [hlookup, he, ← hd] at hthen
    have clock : 0 ≤ env.now := hnow ▸ (a.arrive j).clock
    have harrival : (⟨env.now, clock, (a.arrive j).interface⟩ : RateArrival) = a.arrive j := by
      cases ha : a.arrive j with
      | mk time _ _ =>
        rw [ha] at hnow
        cases hnow
        rfl
    have hpositive : 0 < (a.arrive j).interface.announceRateTarget := by
      rw [a.targets j]
      exact htarget
    rw [rateVerdict_eq henv clock ⟨hcontext, hpositive⟩, hthen, harrival, hk j hj]

namespace Sample

/-- An announce in a hundred seconds, and no grace. -/
def limited : Interface := { id := 1, announceRateTarget := 100, announceRatePenalty := 50 }

end Sample

set_option maxRecDepth 8000 in
/-- An announce, and another after a hundred seconds, which is not blocked. -/
theorem distant_announce_passes :
    rateVerdict Sample.relayingLater Sample.neighbours Sample.limited
      (handleAnnounce Sample.relaying Sample.neighbours Sample.limited (.fill 3) Sample.listening).2 = .value false := by
  have haccepted : Accepted Sample.relaying Sample.neighbours Sample.listening := by
    refine ⟨[], ?_⟩
    decide +kernel
  have hlimited : Limited Sample.neighbours Sample.limited := ⟨by decide, by decide +kernel⟩
  have hclock : 0 ≤ Sample.relaying.now := by decide +kernel
  have hfirst : RateRun Sample.neighbours.destinationHash Sample.listening [⟨Sample.relaying.now, hclock, Sample.limited⟩]
      (handleAnnounce Sample.relaying Sample.neighbours Sample.limited (.fill 3) Sample.listening).2 :=
    .recorded .start (fun _ => rfl) (fun handler hmem => by cases hmem) hclock rfl haccepted hlimited _
  have hempty : Sample.neighbours.destinationHash ∉ Sample.listening.announceRateTable := by decide +kernel
  have hkeeps : KeepsTarget 100 ([⟨Sample.relaying.now, hclock, Sample.limited⟩]
      ++ [⟨Sample.relayingLater.now, by decide +kernel, Sample.limited⟩]) := by
    constructor
    · intro a ha
      simp only [List.mem_append, List.mem_singleton] at ha
      rcases ha with rfl | rfl
      · rfl
      · rfl
    · have hdistant : Sample.relaying.now + 100 ≤ Sample.relayingLater.now := by decide +kernel
      exact .cons_cons hdistant (.singleton _)
  exact (rate_limit_blocks_and_recovers (by norm_num) hempty hfirst).2.2.1 _ _ _ (fun _ => rfl) _ rfl (by decide) hkeeps

end MicroReticulum.Announce
