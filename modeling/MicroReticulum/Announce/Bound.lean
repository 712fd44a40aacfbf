import MicroReticulum.Announce.SlotJob

/-!
# How often an announce is retransmitted

A run of a node, watched for one announce: how often it was accepted, how many path requests for its destination
were answered, and how often it was sent from the announce table. It is sent `PATHFINDER_R + 1` times for each time
it is accepted, and once more for each answer (`retransmissions_bounded`).

A copy that a path request has put aside is meant to come back when the entry that waits is sent. The job that would
put it back is not defined (`JobDefined`), and where the entry goes away without being sent the copy stays behind
(`held_announce_left`): no defined step ever takes a held copy away. So the announces that are gone when they have
been sent are those of which no copy was ever held, and the condition is that nobody is answered while an entry of
the destination waits.

Nothing is shown of a run behind a job that is not defined, and nothing of what a driver does with what is sent.
-/

namespace MicroReticulum.Announce

open MicroReticulum Packet Link Library Transport

variable {d : Address} {x : Bytes}

/-! ## Runs -/

/-- What happened to an announce. -/
structure Tally where
  accepted : Nat := 0
  answered : Nat := 0
  sent : Nat := 0

/-- A node that is watched for an announce. -/
abbrev Watched : Type := TransportState × Tally

def Accepted (env : Environment) (p : Packet) (s : TransportState) : Prop :=
  ∃ blobs, (judgeAnnounce env p s).1 = .value (some blobs)

open Classical in
/-- An announce comes in. -/
noncomputable def Tally.hears (n : Tally) (d : Address) (x : Bytes) (env : Environment) (p : Packet)
    (s : TransportState) : Tally :=
  if Accepted env p s ∧ p.destinationHash = d ∧ relayedData p = x then { n with accepted := n.accepted + 1 } else n

/-- A path request comes in. -/
def Tally.asked (n : Tally) (d : Address) (env : Environment) (r : PathRequest) (s : TransportState) : Tally :=
  if (answeredWith env r s).map (fun entry => entry.announcePacket.destinationHash) = some d
  then { n with answered := n.answered + 1 } else n

inductive WatchedEvent where
  | hears (env : Environment) (p : Packet)
  | job (env : Environment)
  | asked (env : Environment) (r : PathRequest)
  | other

/-- A step of a node that is watched for the announce `x` of `d`. The clock, the settings and the stores may differ
from step to step. -/
inductive WatchedStep (d : Address) (x : Bytes) : Watched → WatchedEvent → Watched → Prop
  | hears (env : Environment) (henv : Validates env) (hhandlers : HandlersSpare SameWaiting env) (p : Packet)
    (i : Interface) (identity : Address) (s : TransportState) (n : Tally) :
    WatchedStep d x (s, n) (.hears env p) ((handleAnnounce env p i identity s).2, n.hears d x env p s)
  | job (env : Environment) (s : TransportState) (n : Tally) :
    WatchedStep d x (s, n) (.job env)
      ((announceJob env s).2, { n with sent := n.sent + sentOf d x (jobOutgoing env s) })
  | asked (env : Environment) (calls : PathRequestCalls) (hcalls : CallsSpare calls) (r : PathRequest)
    (s : TransportState) (n : Tally) :
    WatchedStep d x (s, n) (.asked env r) ((pathRequest env calls r s).2, n.asked d env r s)
  /-- anything that does not touch the two tables -/
  | other (s t : TransportState) (n : Tally) (hsame : SameWaiting s t) : WatchedStep d x (s, n) .other (t, n)

/-- A node that has not heard anything. -/
def Watched.Fresh (w : Watched) : Prop :=
  w.1.announceTable = ∅ ∧ w.1.heldAnnounces = ∅ ∧ w.2 = {}

def Watched.Reached (d : Address) (x : Bytes) (w : Watched) : Prop :=
  ∃ fresh : Watched, fresh.Fresh ∧ Relation.ReflTransGen (fun w w' => ∃ e, WatchedStep d x w e w') fresh w

/-- The step is one of the code: a job that puts a held announce back is none. -/
def WatchedEvent.Defined (s : TransportState) : WatchedEvent → Prop
  | .job env => JobDefined env s
  | _ => True

/-- A step that the code defines. -/
def DefinedStep (d : Address) (x : Bytes) (w w' : Watched) : Prop :=
  ∃ e : WatchedEvent, WatchedStep d x w e w' ∧ e.Defined w.1

/-- A run of which the code defines every step. -/
def Watched.ReachedDefined (d : Address) (x : Bytes) (w : Watched) : Prop :=
  ∃ fresh : Watched, fresh.Fresh ∧ Relation.ReflTransGen (DefinedStep d x) fresh w

/-- A path request is answered only while no entry of the destination waits to be sent. -/
def WatchedEvent.Meets (s : TransportState) : WatchedEvent → Prop
  | .asked env r => ∀ entry, answeredWith env r s = some entry →
      entry.announcePacket.destinationHash ∉ s.announceTable
  | _ => True

/-! ## Steps -/

/-- What a step does to the slot of `d`, in terms of the tally. -/
structure StepRun (d : Address) (x : Bytes) (w : Watched) (e : WatchedEvent) (w' : Watched)
    (es : List (SlotEvent Bytes)) : Prop where
  filed : Filed w'.1
  run : Slot.Run retransmissions (announceSlot d w.1) es (announceSlot d w'.1)
  accepted : w.2.accepted + es.count (.enters x) ≤ w'.2.accepted
  answered : w.2.answered + es.count .asks ≤ w'.2.answered
  sent : w'.2.sent = w.2.sent + es.count (.serves x)

/-- Hearing an echo is a run of losses of the slot. -/
theorem echoed_run (env : Environment) (p : Packet) {s : TransportState} (hs : Filed s) (d : Address) :
    Filed (echoed env p s)
      ∧ ∃ es, Slot.Run retransmissions (announceSlot d s) es (announceSlot d (echoed env p s)) ∧ Losses es := by
  unfold echoed
  split
  · exact hearRebroadcast_run env.now p s hs d
  · exact ⟨hs, [], .refl _, .nil⟩

theorem echoed_held (env : Environment) (p : Packet) (s : TransportState) :
    (echoed env p s).heldAnnounces = s.heldAnnounces := by
  unfold echoed hearRebroadcast
  split
  · split
    · rfl
    · split
      · rfl
      · split <;> rfl
  · rfl

/-- An announce that comes in is a run of the slot, served by what is recorded of it. -/
theorem hears_run {env : Environment} (henv : Validates env) (hhandlers : HandlersSpare SameWaiting env) (p : Packet)
    (i : Interface) (identity : Address) {s : TransportState} (n : Tally) (hs : Filed s) :
    ∃ es, StepRun d x (s, n) (.hears env p) ((handleAnnounce env p i identity s).2, n.hears d x env p s) es := by
  obtain ⟨hfiled, es, hrun, hlosses⟩ := echoed_run env p hs d
  have hmore : n.accepted ≤ (n.hears d x env p s).accepted ∧ (n.hears d x env p s).answered = n.answered
      ∧ (n.hears d x env p s).sent = n.sent := by
    unfold Tally.hears
    split
    · exact ⟨Nat.le_succ _, rfl, rfl⟩
    · exact ⟨Nat.le_refl _, rfl, rfl⟩
  rcases handleAnnounce_waiting henv hhandlers p i identity s with hsame | ⟨haccepted, first, hsame⟩
  · refine ⟨es, hsame.filed hfiled, by rw [hsame.slot]; exact hrun, ?_, ?_, ?_⟩
    · rw [hlosses.count fun hb => by cases hb]
      exact hmore.1
    · rw [hlosses.count fun hb => by cases hb]
      exact hmore.2.1.ge
    · rw [hlosses.count fun hb => by cases hb]
      exact hmore.2.2
  · obtain ⟨hfiled', es₁, hrun₁, es', hes, hlosses'⟩ :=
      addAnnounceEntry_run env (echoed env p s) hfiled (announceEntry env p first) d
    have hrun' := hrun.append hrun₁
    refine ⟨es ++ es₁, hsame.filed hfiled', by rw [hsame.slot]; exact hrun', ?_, ?_, ?_⟩
    · rw [List.count_append, hlosses.count (fun hb => by cases hb), Nat.zero_add]
      rcases hes with rfl | ⟨rfl, hd⟩
      · rw [hlosses'.count fun hb => by cases hb]
        exact hmore.1
      · rw [List.count_cons, hlosses'.count (fun hb => by cases hb), Nat.zero_add]
        by_cases hx : relayedData p = x
        · have hcounts : (n.hears d x env p s).accepted = n.accepted + 1 := by
            unfold Tally.hears
            rw [if_pos ⟨haccepted, hd, hx⟩]
          rw [hcounts]
          split <;> simp
        · have hne : SlotEvent.enters (relayedData (announceEntry env p first).packet) ≠ SlotEvent.enters x :=
            fun heq => hx (SlotEvent.enters.inj heq)
          rw [if_neg (by simpa using hne)]
          exact hmore.1
    · rw [List.count_append, hlosses.count (fun hb => by cases hb), Nat.zero_add]
      have hnone : es₁.count .asks = 0 := by
        rcases hes with rfl | ⟨rfl, -⟩
        · exact hlosses'.count fun hb => by cases hb
        · rw [List.count_cons, hlosses'.count fun hb => by cases hb]
          rfl
      rw [hnone]
      exact hmore.2.1.ge
    · rw [List.count_append, hlosses.count (fun hb => by cases hb), Nat.zero_add]
      have hnone : es₁.count (.serves x) = 0 := by
        rcases hes with rfl | ⟨rfl, -⟩
        · exact hlosses'.count fun hb => by cases hb
        · rw [List.count_cons, hlosses'.count fun hb => by cases hb]
          rfl
      rw [hnone]
      exact hmore.2.2

/-- A path request that comes in is a run of the slot, served by what is recorded of it. -/
theorem asked_run {env : Environment} {calls : PathRequestCalls} (hcalls : CallsSpare calls) (r : PathRequest)
    {s : TransportState} (n : Tally) (hs : Filed s) :
    ∃ es, StepRun d x (s, n) (.asked env r) ((pathRequest env calls r s).2, n.asked d env r s) es := by
  have hwaiting := @pathRequest_waiting env calls hcalls r s
  have hmore : (n.asked d env r s).accepted = n.accepted ∧ n.answered ≤ (n.asked d env r s).answered
      ∧ (n.asked d env r s).sent = n.sent := by
    unfold Tally.asked
    split
    · exact ⟨rfl, Nat.le_succ _, rfl⟩
    · exact ⟨rfl, Nat.le_refl _, rfl⟩
  cases hanswer : answeredWith env r s with
  | none =>
    rw [hanswer] at hwaiting
    exact ⟨[], hwaiting.filed hs, by rw [hwaiting.slot]; exact .refl _, hmore.1.ge, hmore.2.1, hmore.2.2⟩
  | some entry =>
    rw [hanswer] at hwaiting
    dsimp only at hwaiting
    obtain ⟨hfiled, es, hrun, es', hes, hlosses⟩ := answered_run env s hs r entry d
    have hnone : es.count (.enters x) = 0 ∧ es.count (.serves x) = 0 := by
      have henters := hlosses.count (e := .enters x) fun hb => by cases hb
      have hserves := hlosses.count (e := .serves x) fun hb => by cases hb
      rcases hes with rfl | ⟨rfl, -⟩
      · exact ⟨henters, hserves⟩
      · rw [List.count_cons, List.count_cons, henters, hserves]
        exact ⟨rfl, rfl⟩
    refine ⟨es, hwaiting.filed hfiled, by rw [hwaiting.slot]; exact hrun, ?_, ?_, ?_⟩
    · rw [hnone.1]
      exact hmore.1.ge
    · have hasks := hlosses.count (e := .asks) fun hb => by cases hb
      rcases hes with rfl | ⟨rfl, hd⟩
      · rw [hasks]
        exact hmore.2.1
      · have hcounts : (n.asked d env r s).answered = n.answered + 1 := by
          unfold Tally.asked
          rw [hanswer, Option.map_some, hd, if_pos rfl]
        rw [List.count_cons, hasks, hcounts]
        simp
    · rw [hnone.2]
      exact hmore.2.2

/-- Every step of the watched state is a run of the slot. -/
theorem WatchedStep.run {w w' : Watched} {e : WatchedEvent} (h : WatchedStep d x w e w') (hs : Filed w.1) :
    ∃ es, StepRun d x w e w' es := by
  cases h with
  | hears env henv hhandlers p i identity s n => exact hears_run henv hhandlers p i identity n hs
  | job env s n =>
    obtain ⟨hfiled, es, hrun, hserved⟩ := @announceJob_run env s hs d
    refine ⟨es, hfiled, hrun, ?_, ?_, ?_⟩
    · rw [hserved.enters]
      exact Nat.le_refl _
    · rw [hserved.asks]
      exact Nat.le_refl _
    · rw [hserved.serves]
  | asked env calls hcalls r s n => exact asked_run hcalls r n hs
  | other s t n hsame =>
    exact ⟨[], hsame.filed hs, by rw [hsame.slot]; exact .refl _, Nat.le_refl _, Nat.le_refl _, rfl⟩

/-! ## Held announces -/

theorem handleAnnounce_held {env : Environment} (henv : Validates env) (hhandlers : HandlersSpare SameWaiting env)
    (p : Packet) (i : Interface) (identity : Address) (s : TransportState) :
    (handleAnnounce env p i identity s).2.heldAnnounces = s.heldAnnounces := by
  rcases handleAnnounce_waiting henv hhandlers p i identity s with hsame | ⟨-, first, hsame⟩
  · rw [hsame.heldAnnounces, echoed_held]
  · have hadded : (addAnnounceEntry env p.destinationHash (announceEntry env p first) (echoed env p s)).heldAnnounces
        = (echoed env p s).heldAnnounces := (cullAnnounceTable_fewer env _).heldAnnounces
    rw [hsame.heldAnnounces, hadded, echoed_held]

theorem pathRequest_held {env : Environment} {calls : PathRequestCalls} (hcalls : CallsSpare calls) (r : PathRequest)
    (s : TransportState) :
    (pathRequest env calls r s).2.heldAnnounces = match answeredWith env r s with
      | some entry => (holdAnnounce entry.announcePacket.destinationHash s).heldAnnounces
      | none => s.heldAnnounces := by
  have hwaiting := @pathRequest_waiting env calls hcalls r s
  cases hanswer : answeredWith env r s with
  | none =>
    rw [hanswer] at hwaiting
    exact hwaiting.heldAnnounces
  | some entry =>
    rw [hanswer] at hwaiting
    exact hwaiting.heldAnnounces.trans (cullAnnounceTable_fewer env _).heldAnnounces

theorem mem_holdAnnounce {k : Address} {s : TransportState} (k' : Address) (hk : k ∈ s.heldAnnounces) :
    k ∈ (holdAnnounce k' s).heldAnnounces := by
  unfold holdAnnounce Table.emplace
  split
  · exact hk
  · dsimp only
    split
    · exact hk
    · exact AList.mem_insert _ |>.mpr (.inr hk)

/-- Where nothing was held, something is held afterwards exactly if an entry of the destination waits. -/
theorem holdAnnounce_none_iff {k : Address} {s : TransportState} (hnone : s.heldAnnounces = ∅) :
    (holdAnnounce k s).heldAnnounces = ∅ ↔ k ∉ s.announceTable := by
  unfold holdAnnounce
  cases hwaits : s.announceTable.lookup k with
  | none => exact ⟨fun _ => AList.lookup_eq_none.mp hwaits, fun _ => hnone⟩
  | some e =>
    have hmem : k ∈ s.announceTable := AList.lookup_isSome.mp (by rw [hwaits]; rfl)
    refine ⟨fun hempty => ?_, fun hnot => absurd hmem hnot⟩
    have hheld : k ∈ s.heldAnnounces.emplace k e := by
      unfold Table.emplace
      split
      · assumption
      · exact AList.mem_insert _ |>.mpr (.inl rfl)
    dsimp only at hempty
    rw [hempty] at hheld
    exact absurd hheld (AList.notMem_empty k)

theorem WatchedStep.held_stays {w w' : Watched} {e : WatchedEvent} (h : WatchedStep d x w e w')
    (hdefined : e.Defined w.1) {k : Address} (hk : k ∈ w.1.heldAnnounces) : k ∈ w'.1.heldAnnounces := by
  cases h with
  | hears env henv hhandlers p i identity s n =>
    dsimp only at hk ⊢
    rw [handleAnnounce_held henv hhandlers]
    exact hk
  | job env s n =>
    dsimp only at hk ⊢
    rw [announceJob_held hdefined]
    exact hk
  | asked env calls hcalls r s n =>
    dsimp only at hk ⊢
    rw [pathRequest_held hcalls]
    split
    · exact mem_holdAnnounce _ hk
    · exact hk
  | other s t n hsame =>
    dsimp only at hk ⊢
    rw [hsame.heldAnnounces]
    exact hk

/-- Over the steps that are defined a held announce stays held, until the job puts it back. -/
theorem held_stays_run {w w' : Watched} {k : Address} (hrun : Relation.ReflTransGen (DefinedStep d x) w w')
    (hk : k ∈ w.1.heldAnnounces) : k ∈ w'.1.heldAnnounces := by
  induction hrun with
  | refl => exact hk
  | tail _ hstep ih =>
    obtain ⟨e, hstep, hdefined⟩ := hstep
    exact hstep.held_stays hdefined ih

/-- With nothing held, an announce comes to be held exactly where somebody is answered while it waits. -/
theorem WatchedStep.held_iff {w w' : Watched} {e : WatchedEvent} (h : WatchedStep d x w e w')
    (hnone : w.1.heldAnnounces = ∅) : w'.1.heldAnnounces = ∅ ↔ e.Meets w.1 := by
  cases h with
  | hears env henv hhandlers p i identity s n =>
    exact ⟨fun _ => trivial, fun _ => (handleAnnounce_held henv hhandlers p i identity s).trans hnone⟩
  | job env s n =>
    exact ⟨fun _ => trivial, fun _ => (announceJob_held (jobDefined_of_none_held hnone env)).trans hnone⟩
  | asked env calls hcalls r s n =>
    dsimp only at hnone ⊢
    rw [pathRequest_held hcalls]
    show _ ↔ ∀ entry, answeredWith env r s = some entry → entry.announcePacket.destinationHash ∉ s.announceTable
    generalize answeredWith env r s = answer
    cases answer with
    | none => exact ⟨fun _ entry hentry => (by cases hentry), fun _ => hnone⟩
    | some entry =>
      dsimp only
      rw [holdAnnounce_none_iff hnone]
      exact ⟨fun hfree entry' hentry => Option.some.inj hentry ▸ hfree, fun hmeets => hmeets entry rfl⟩
  | other s t n hsame => exact ⟨fun _ => trivial, fun _ => hsame.heldAnnounces.trans hnone⟩

/-! ## The bound -/

/-- What holds in every run: what has been sent, with what is still due, stays within the bound. -/
structure Watched.Sound (d : Address) (x : Bytes) (w : Watched) : Prop where
  filed : Filed w.1
  bounded : w.2.sent + (announceSlot d w.1).due x ≤ retransmissions * w.2.accepted + w.2.answered

/-- A fresh state has nothing waiting and nothing held for any destination. -/
theorem Watched.Fresh.slot {w : Watched} (h : w.Fresh) (d : Address) : announceSlot d w.1 = ⟨none, none⟩ := by
  obtain ⟨hwaiting, hheld, -⟩ := h
  unfold announceSlot
  rw [hwaiting, hheld]
  rfl

theorem Watched.Fresh.sound {w : Watched} (h : w.Fresh) : w.Sound d x := by
  have hslot := h.slot d
  obtain ⟨hwaiting, hheld, htally⟩ := h
  refine ⟨⟨?_, ?_⟩, ?_⟩
  · rw [hwaiting]
    exact TableAll.empty
  · rw [hheld]
    exact TableAll.empty
  · rw [htally, hslot]
    exact Nat.le_refl 0

/-- Every step keeps the account of copies against acceptances and path requests. -/
theorem WatchedStep.sound {w w' : Watched} {e : WatchedEvent} (h : WatchedStep d x w e w') (hw : w.Sound d x) :
    w'.Sound d x := by
  obtain ⟨es, hstep⟩ := h.run hw.filed
  refine ⟨hstep.filed, ?_⟩
  have hbound := hw.bounded
  have hserved := hstep.run.served_le x
  have haccepted := hstep.accepted
  have hanswered := hstep.answered
  have hsent := hstep.sent
  have hlimit : retransmissions = 2 := rfl
  rw [hlimit] at hbound hserved ⊢
  omega

/-- So the account is kept in every state reached. -/
theorem Watched.Reached.sound {w : Watched} (h : w.Reached d x) : w.Sound d x := by
  obtain ⟨fresh, hfresh, hrun⟩ := h
  induction hrun with
  | refl => exact hfresh.sound
  | tail _ hstep ih =>
    obtain ⟨e, hstep⟩ := hstep
    exact hstep.sound ih

/-- The node has a copy of the announce, in the announce table or put aside. -/
def Kept (d : Address) (x : Bytes) (s : TransportState) : Prop :=
  (∃ e, s.announceTable.lookup d = some e ∧ relayedData e.packet = x)
    ∨ ∃ e, s.heldAnnounces.lookup d = some e ∧ relayedData e.packet = x

/-- An announce is kept in the tables exactly when its slot holds it. -/
theorem kept_iff_holds (s : TransportState) : Kept d x s ↔ (announceSlot d s).Holds x := by
  unfold Kept Slot.Holds announceSlot
  simp [entryCopy]

/-- Behind the last retransmission the next job that comes to the end of the table leaves no copy. -/
theorem Watched.Sound.gone {w : Watched} (h : w.Sound d x)
    (hlast : w.2.sent = retransmissions * w.2.accepted + w.2.answered) {env : Environment}
    (hends : JobEnds env w.1) : ¬ Kept d x (announceJob env w.1).2 := by
  have hdue : (announceSlot d w.1).due x = 0 := by
    have hbound := h.bounded
    omega
  obtain ⟨haside, hleft⟩ := Slot.due_eq_zero x hdue
  obtain ⟨-, es, hrun, hserved⟩ := @announceJob_run env w.1 h.filed d
  have hnew : ∀ y, .enters y ∉ es := fun y => List.count_eq_zero.mp (hserved.enters y)
  have hasks : .asks ∉ es := List.count_eq_zero.mp hserved.asks
  have hdue' : (announceSlot d (announceJob env w.1).2).due x = 0 := by
    have hserves := hrun.served_le x
    rw [hserved.enters, hserved.asks, hdue] at hserves
    omega
  rw [kept_iff_holds]
  intro hholds
  -- a copy that is still there was there before, and then it was finished
  rcases hrun.holds hnew hasks hholds with ⟨c, hc, hx⟩ | ⟨c, hc, hx⟩
  case inr => exact haside c hc hx
  case inl =>
    have hfinished : ∀ e, w.1.announceTable.lookup d = some e → e.finished = true := by
      intro e he
      have hcopy : c = entryCopy e := by
        unfold announceSlot at hc
        rw [he] at hc
        exact (Option.some.inj hc).symm
      rw [finished_iff, ← hcopy]
      unfold Slot.leftOf at hleft
      rw [hc] at hleft
      simpa [hx] using hleft
    have herased := announceJob_erases hends hfinished
    rcases hholds with ⟨c', hc', -⟩ | ⟨c', hc', hx'⟩
    · unfold announceSlot at hc'
      rw [AList.lookup_eq_none.mpr herased] at hc'
      cases hc'
    · exact (Slot.due_eq_zero x hdue').1 c' hc' hx'

/-! ## The result -/

/-- A run in which nobody is answered while an entry of the destination waits. -/
def Watched.ReachedWell (d : Address) (x : Bytes) (w : Watched) : Prop :=
  ∃ fresh : Watched, fresh.Fresh
    ∧ Relation.ReflTransGen (fun w w' => ∃ e : WatchedEvent, WatchedStep d x w e w' ∧ e.Meets w.1) fresh w

/-- A state reached over defined steps is reached. -/
theorem Watched.ReachedDefined.reached {w : Watched} (h : w.ReachedDefined d x) : w.Reached d x := by
  obtain ⟨fresh, hfresh, hrun⟩ := h
  exact ⟨fresh, hfresh, hrun.lift id fun _ _ ⟨e, hstep, _⟩ => ⟨e, hstep⟩⟩

/-- Then nothing is ever held, and every job is defined. -/
theorem Watched.ReachedWell.reached {w : Watched} (h : w.ReachedWell d x) :
    w.ReachedDefined d x ∧ w.1.heldAnnounces = ∅ := by
  obtain ⟨fresh, hfresh, hrun⟩ := h
  induction hrun with
  | refl => exact ⟨⟨fresh, hfresh, .refl⟩, hfresh.2.1⟩
  | @tail v w _ hstep ih =>
    obtain ⟨⟨start, hstart, hrun'⟩, hnone⟩ := ih
    obtain ⟨e, hstep, hmeets⟩ := hstep
    have hdefined : e.Defined v.1 := by
      cases e with
      | job env => exact jobDefined_of_none_held hnone env
      | _ => trivial
    exact ⟨⟨start, hstart, hrun'.tail ⟨e, hstep, hdefined⟩⟩, (hstep.held_iff hnone).mpr hmeets⟩

/-- A table without a key is the empty one. -/
theorem table_eq_empty {V : Type} {table : Table V} (h : ∀ k, k ∉ table) : table = ∅ := by
  apply AList.ext
  rw [AList.empty_entries]
  exact List.eq_nil_iff_forall_not_mem.mpr fun e he => h e.1 (AList.mem_keys.mpr (List.mem_map_of_mem he))

/-- A run behind which nothing is held is one in which nothing ever was. -/
theorem Watched.ReachedDefined.well {w : Watched} (h : w.ReachedDefined d x) (hnone : w.1.heldAnnounces = ∅) :
    w.ReachedWell d x := by
  obtain ⟨fresh, hfresh, hrun⟩ := h
  induction hrun with
  | refl => exact ⟨fresh, hfresh, .refl⟩
  | @tail v w _ hstep ih =>
    obtain ⟨e, hstep, hdefined⟩ := hstep
    have hbefore : v.1.heldAnnounces = ∅ := by
      refine table_eq_empty fun k hk => ?_
      have hafter := hstep.held_stays hdefined hk
      rw [hnone] at hafter
      exact AList.notMem_empty k hafter
    obtain ⟨start, hstart, hrun'⟩ := ih hbefore
    exact ⟨start, hstart, hrun'.tail ⟨e, hstep, (hstep.held_iff hbefore).mp hnone⟩⟩

/-- In every run an announce is sent from the announce table `PATHFINDER_R + 1` times at most for each time it is
accepted, and once more for each path request that is answered; once it was sent that often, the next job that comes
to the end of the table leaves no copy of it. A run is one in which nobody is answered while an entry of the
destination waits exactly if no announce is held behind it, and then every job is defined. An announce that is held
once is held for ever. -/
theorem retransmissions_bounded (d : Address) (x : Bytes) (w : Watched) :
    (w.ReachedDefined d x →
        w.2.sent ≤ (pathfinderR.toNat + 1) * w.2.accepted + w.2.answered
          ∧ (w.2.sent = (pathfinderR.toNat + 1) * w.2.accepted + w.2.answered →
            ∀ env, JobDefined env w.1 → JobEnds env w.1 → ¬ Kept d x (announceJob env w.1).2))
      ∧ (w.ReachedWell d x ↔ w.ReachedDefined d x ∧ w.1.heldAnnounces = ∅)
      ∧ (w.1.heldAnnounces = ∅ → ∀ env, JobDefined env w.1)
      ∧ ∀ w' k, k ∈ w.1.heldAnnounces → Relation.ReflTransGen (DefinedStep d x) w w' → k ∈ w'.1.heldAnnounces := by
  refine ⟨fun hreached => ?_, ⟨fun h => h.reached, fun h => h.1.well h.2⟩, fun hnone env =>
    jobDefined_of_none_held hnone env, fun w' k hheld hrun => ?_⟩
  · have hsound := hreached.reached.sound
    have hbound : w.2.sent ≤ retransmissions * w.2.accepted + w.2.answered :=
      (Nat.le_add_right _ _).trans hsound.bounded
    exact ⟨hbound, fun hlast env _ hends => hsound.gone hlast hends⟩
  · exact held_stays_run hrun hheld

namespace Sample

/-- A transport node to which every signature is valid and every hash zero. -/
def relaying : Environment := { trusting with transportEnabled := true }

/-- When every entry is due. -/
def relayingLater : Environment := { relaying with now := 100 }

/-- An announce from next door. -/
def neighbours : Packet := (telling 1 []).arrived

/-- The announce, passed on by another node. -/
def passedOn : Packet := { neighbours with transportId := some (.fill 9), hops := 2 }

/-- Somebody asks for the path. -/
def asks : PathRequest where
  destinationHash := .fill 0
  isFromLocalClient := false
  attachedInterface := { id := 1 }
  requestorTransportId := none

def noCalls : PathRequestCalls where
  announceLocal _ s := (.ok (), s)
  requestPath _ _ s := (.ok (), s)

/-- The announce was accepted. -/
noncomputable def accepting : Watched :=
  ((handleAnnounce relaying neighbours { id := 1 } (.fill 3) listening).2,
    ({} : Tally).hears (.fill 0) (relayedData neighbours) relaying neighbours listening)

/-- It was sent once. -/
noncomputable def sentOnce : Watched :=
  ((announceJob relayingLater accepting.1).2,
    { accepting.2 with
      sent := accepting.2.sent + sentOf (.fill 0) (relayedData neighbours) (jobOutgoing relayingLater accepting.1) })

/-- The path was asked for. -/
noncomputable def holding : Watched :=
  ((pathRequest relaying noCalls asks accepting.1).2, accepting.2.asked (.fill 0) relaying asks accepting.1)

/-- The announce was heard from another node. -/
noncomputable def hearsEcho (w : Watched) : Watched :=
  ((handleAnnounce relaying passedOn { id := 1 } (.fill 3) w.1).2,
    w.2.hears (.fill 0) (relayedData neighbours) relaying passedOn w.1)

theorem accepting_step : WatchedStep (.fill 0) (relayedData neighbours) (listening, {})
    (.hears relaying neighbours) accepting :=
  .hears relaying (fun _ => rfl) (fun handler hmem => by cases hmem) neighbours _ _ _ _

set_option maxRecDepth 8000 in
theorem holding_step : WatchedStep (.fill 0) (relayedData neighbours) accepting (.asked relaying asks) holding :=
  .asked relaying noCalls ⟨fun _ _ => .refl _, fun _ _ _ => .refl _⟩ asks _ _

theorem hearsEcho_step (w : Watched) : WatchedStep (.fill 0) (relayedData neighbours) w
    (.hears relaying passedOn) (hearsEcho w) :=
  .hears relaying (fun _ => rfl) (fun handler hmem => by cases hmem) passedOn _ _ _ _

end Sample

set_option maxRecDepth 8000 in
/-- One announce, sent once. -/
theorem retransmissions_bounded_once :
    Sample.sentOnce.2.sent ≤ 2 * Sample.sentOnce.2.accepted + Sample.sentOnce.2.answered
      ∧ Sample.sentOnce.1.announceTable.lookup (.fill 0) ≠ none ∧ Sample.sentOnce.1.heldAnnounces = ∅ := by
  have hfresh : Watched.Fresh (Sample.listening, {}) := ⟨rfl, rfl, rfl⟩
  have hwell : Sample.sentOnce.ReachedWell (.fill 0) (relayedData Sample.neighbours) :=
    ⟨_, hfresh, .tail (.single ⟨_, Sample.accepting_step, trivial⟩) ⟨_, .job Sample.relayingLater _ _, trivial⟩⟩
  obtain ⟨hbound, hiff, -, -⟩ :=
    retransmissions_bounded (.fill 0) (relayedData Sample.neighbours) Sample.sentOnce
  obtain ⟨hdefined, hnone⟩ := hiff.mp hwell
  exact ⟨(hbound hdefined).1, by decide +kernel, hnone⟩

set_option maxRecDepth 8000 in
/-- A path request has put a copy aside, and then the rebroadcasts of two other nodes were heard: the copy is still
held, and it stays so whatever the node does. -/
theorem held_announce_left :
    ¬ ∀ (d : Address) (x : Bytes) (w : Watched), w.ReachedDefined d x → d ∉ w.1.announceTable →
      ∃ w', Relation.ReflTransGen (DefinedStep d x) w w' ∧ d ∉ w'.1.heldAnnounces := by
  intro h
  have hreached : (Sample.hearsEcho (Sample.hearsEcho Sample.holding)).ReachedDefined (.fill 0)
      (relayedData Sample.neighbours) := by
    refine ⟨(Sample.listening, {}), ⟨rfl, rfl, rfl⟩, ?_⟩
    exact .tail (.tail (.tail (.single ⟨_, Sample.accepting_step, trivial⟩) ⟨_, Sample.holding_step, trivial⟩)
      ⟨_, Sample.hearsEcho_step _, trivial⟩) ⟨_, Sample.hearsEcho_step _, trivial⟩
  obtain ⟨w', hrun, hgone⟩ := h _ _ _ hreached (by decide +kernel)
  exact hgone (held_stays_run hrun (by decide +kernel))

end MicroReticulum.Announce
