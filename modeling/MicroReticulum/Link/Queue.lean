import MicroReticulum.Link.Inputs

/-!
# Resources that wait for the link

A link transfers one outgoing resource at a time. A resource that is started meanwhile is `QUEUED`, and the
comment in `advertise_job` leaves it to the next watchdog tick to try again. But a tick walks the resources in
the sets of the link, and a queued one is in none of them; so nobody knows it any more, and by `Writes.unknown`
nothing happens to it, whatever comes in (`run_queued`).

`Tracked` is the other half, an invariant of all writes: a resource that was started is in the outgoing set,
or has ended, or is queued, and it is queued only where the link was not ready for it. `started_resources_kept`
puts the two together.

A transfer that is waited for may itself never end; nothing is said of the time it takes.
-/

namespace MicroReticulum.Link

open MicroReticulum Packet Library Resource Cryptography

variable {env : Env} {scope : Scope} {s t : Endpoint} {r : Nat}

/-! ## What is claimed of a started resource -/

/-- `start` has come to its end: the resource was advertised, or queued. -/
def Started (r : Nat) (e : Endpoint) : Prop := ∃ ready, .advertising r ready ∈ e.events

/-- The transfer has ended. `REJECTED` has the value of `NONE`, so a rejected resource is told by its event. -/
def Concluded (r : Nat) (e : Endpoint) : Prop :=
  (e.resources r).status.concluded = true ∨ (e.resources r).status = .none ∧ .rejected r ∈ e.events

/-- Something may still happen to the resource, without the application naming it. -/
def Movable (env : Env) (r : Nat) (e : Endpoint) : Prop :=
  ∃ inputs : List Input, (∀ input ∈ inputs, ¬ input.Names r)
    ∧ ((run env e inputs).resources r).status ≠ (e.resources r).status

/-- The resource is not forgotten. -/
def Remembered (env : Env) (r : Nat) (e : Endpoint) : Prop :=
  r ∈ e.outgoingResources ∨ Concluded r e ∨ Movable env r e

/-! ## Where started resources are -/

/-- What the status of an initiator says about where it is. -/
structure Tracked (e : Endpoint) : Prop where
  started : ∀ r, Started r e → r < e.created ∧ (e.resources r).initiator = true
    ∧ ((e.resources r).status = .none → .rejected r ∈ e.events)
  queued : ∀ r, (e.resources r).status = .queued → .advertising r false ∈ e.events
  active : ∀ r, (e.resources r).initiator = true → Active (e.resources r).status → r ∈ e.outgoingResources
  sided : ∀ r, (e.resources r).initiator = true →
    (e.resources r).status ≠ .assembling ∧ (e.resources r).status ≠ .corrupt

/-- What an invariant of this kind looks at may grow. -/
theorem Tracked.grow (h : Tracked s) (hresources : t.resources = s.resources) (hcreated : t.created = s.created)
    (hout : ∀ q, (s.resources q).initiator = true → Active (s.resources q).status → q ∈ s.outgoingResources →
      q ∈ t.outgoingResources)
    (hevents : ∀ event ∈ s.events, event ∈ t.events) (hstarted : ∀ q, Started q t → Started q s) :
    Tracked t where
  started q hq := by
    obtain ⟨hlt, hinitiator, hrejected⟩ := h.started q (hstarted q hq)
    rw [hresources, hcreated]
    exact ⟨hlt, hinitiator, fun hnone => hevents _ (hrejected hnone)⟩
  queued q hq := by
    rw [hresources] at hq
    exact hevents _ (h.queued q hq)
  active q hinitiator hactive := by
    rw [hresources] at hinitiator hactive
    exact hout q hinitiator hactive (h.active q hinitiator hactive)
  sided q hinitiator := by
    rw [hresources] at hinitiator ⊢
    exact h.sided q hinitiator

/-- What one resource has to meet. -/
structure TrackedAt (r : Nat) (d : ResourceData) (e : Endpoint) : Prop where
  started : Started r e → r < e.created ∧ d.initiator = true ∧ (d.status = .none → .rejected r ∈ e.events)
  queued : d.status = .queued → .advertising r false ∈ e.events
  active : d.initiator = true → Active d.status → r ∈ e.outgoingResources
  sided : d.initiator = true → d.status ≠ .assembling ∧ d.status ≠ .corrupt

/-- Another resource is put in the place of one. -/
theorem Tracked.put (h : Tracked s) {d : ResourceData}
    (hresources : t.resources = Function.update s.resources r d) (hcreated : s.created ≤ t.created)
    (hout : ∀ q ∈ s.outgoingResources, q ∈ t.outgoingResources)
    (hevents : ∀ event ∈ s.events, event ∈ t.events) (hstarted : ∀ q, q ≠ r → Started q t → Started q s)
    (hd : TrackedAt r d t) : Tracked t := by
  have hself : t.resources r = d := by rw [hresources, Function.update_self]
  have hother : ∀ q, q ≠ r → t.resources q = s.resources q := fun q hq => by
    rw [hresources, Function.update_of_ne hq]
  constructor
  case started =>
    intro q hq
    by_cases hqr : q = r
    · subst hqr
      exact hself ▸ hd.started hq
    · obtain ⟨hlt, hinitiator, hrejected⟩ := h.started q (hstarted q hqr hq)
      rw [hother q hqr]
      exact ⟨Nat.lt_of_lt_of_le hlt hcreated, hinitiator, fun hnone => hevents _ (hrejected hnone)⟩
  case queued =>
    intro q hq
    by_cases hqr : q = r
    · subst hqr
      exact hd.queued (hself ▸ hq)
    · exact hevents _ (h.queued q (hother q hqr ▸ hq))
  case active =>
    intro q hinitiator hactive
    by_cases hqr : q = r
    · subst hqr
      exact hd.active (hself ▸ hinitiator) (hself ▸ hactive)
    · exact hout q (h.active q (hother q hqr ▸ hinitiator) (hother q hqr ▸ hactive))
  case sided =>
    intro q hinitiator
    by_cases hqr : q = r
    · subst hqr
      exact hself ▸ hd.sided (hself ▸ hinitiator)
    · rw [hother q hqr] at hinitiator ⊢
      exact h.sided q hinitiator

/-- Books are kept of any resource. -/
theorem Tracked.keep (h : Tracked s) {f : ResourceData → ResourceData}
    (hinitiator : (f (s.resources r)).initiator = (s.resources r).initiator)
    (hstatus : (f (s.resources r)).status = (s.resources r).status) : Tracked (s.withResource r f) := by
  refine h.put rfl (Nat.le_refl _) (fun _ => id) (fun _ => id) (fun _ _ => id) ⟨fun hstarted => ?_, fun hq => ?_,
    fun hi ha => ?_, fun hi => ?_⟩
  · rw [hinitiator, hstatus]
    exact h.started r hstarted
  · exact h.queued r (hstatus ▸ hq)
  · exact h.active r (hinitiator ▸ hi) (hstatus ▸ ha)
  · rw [hstatus]
    exact h.sided r (hinitiator ▸ hi)

/-- A resource that is not an initiator's was not started. -/
theorem Tracked.unstarted (h : Tracked s) (hr : (s.resources r).initiator = false) : ¬ Started r s := by
  intro hstarted
  rw [(h.started r hstarted).2.1] at hr
  cases hr

/-- Other events start nothing. -/
theorem started_of_note {event : Event} (hevents : t.events = s.events ++ [event])
    (hevent : ∀ ready, event ≠ .advertising r ready) (h : Started r t) : Started r s := by
  obtain ⟨ready, hmem⟩ := h
  obtain hmem | hmem := List.mem_append.mp (hevents ▸ hmem)
  · exact ⟨ready, hmem⟩
  · exact absurd (List.mem_singleton.mp hmem).symm (hevent ready)

theorem started_of_advertising {q : Nat} {ready : Bool} (hevents : t.events = s.events ++ [.advertising r ready])
    (hq : q ≠ r) : Started q t → Started q s :=
  started_of_note hevents fun _ he => hq (Event.advertising.inj he).1.symm

theorem Gentle.tracked (hw : Gentle env scope s t) (h : Tracked s) : Tracked t := by
  have hnote : ∀ {t : Endpoint} {event : Event}, (∀ r ready, event ≠ .advertising r ready) →
      t.resources = s.resources → t.created = s.created → t.outgoingResources = s.outgoingResources →
      t.events = s.events ++ [event] → Tracked t := fun hevent hres hcreated hout hevents =>
    h.grow hres hcreated (fun _ _ _ hq => hout ▸ hq) (fun _ hmem => hevents ▸ List.mem_append_left _ hmem)
      fun r => started_of_note hevents (hevent r)
  cases hw
  case note event hplain =>
    refine hnote (fun r ready he => ?_) rfl rfl rfl rfl
    rw [he] at hplain
    exact hplain
  case sent => exact hnote (fun _ _ => Event.noConfusion) rfl rfl rfl rfl
  case prove => exact hnote (fun _ _ => Event.noConfusion) rfl rfl rfl rfl
  case generate => exact hnote (fun _ _ => Event.noConfusion) rfl rfl rfl rfl
  case identify => exact hnote (fun _ _ => Event.noConfusion) rfl rfl rfl rfl
  case create d _ hstatus hinitiator _ =>
    refine h.put rfl (Nat.le_succ _) (fun _ => id) (fun _ => id) (fun _ _ => id) ⟨fun hstarted => ?_,
      fun hq => ?_, fun hi => ?_, fun hi => ?_⟩
    · exact absurd (h.started _ hstarted).1 (Nat.lt_irrefl _)
    · rw [hstatus] at hq
      cases hq
    all_goals
      rw [hinitiator] at hi
      cases hi
  case keep r f _ hf =>
    exact h.keep hf.initiator hf.status
  case begin r randomHash _ _ hstatus hinitiator =>
    have hfresh := h.unstarted hinitiator
    refine h.put rfl (Nat.le_refl _) (fun _ => id) (fun _ => List.mem_append_left _)
      (fun _ _ => started_of_note rfl fun _ => Event.noConfusion) ⟨fun hstarted => ?_, fun hq => ?_,
        fun _ ha => ?_, fun _ => ?_⟩
    · exact absurd (started_of_note (s := s) rfl (fun _ => Event.noConfusion) hstarted) hfresh
    · rw [show ((s.resources r).begin env.fullHash randomHash).status = (s.resources r).status from rfl,
        hstatus] at hq
      cases hq
    · rw [show ((s.resources r).begin env.fullHash randomHash).status = (s.resources r).status from rfl,
        hstatus] at ha
      exact absurd ha (by decide)
    · rw [show ((s.resources r).begin env.fullHash randomHash).status = (s.resources r).status from rfl,
        hstatus]
      decide
  case advertise r f _ hlt hinitiator _ hf =>
    refine h.put rfl (Nat.le_refl _) (fun _ => List.mem_append_left _) (fun _ => List.mem_append_left _)
      (fun _ hne => started_of_advertising rfl hne) ?_
    have hstatus : (f (s.resources r)).status = .advertised := hf.status
    refine ⟨fun _ => ⟨hlt, hf.initiator.trans hinitiator, fun hnone => ?_⟩, fun hq => ?_,
      fun _ _ => List.mem_append_right _ (List.mem_singleton.mpr rfl), fun _ => ?_⟩
    · rw [hstatus] at hnone
      cases hnone
    · rw [hstatus] at hq
      cases hq
    · rw [hstatus]
      decide
  case queue r _ hlt hinitiator _ =>
    refine h.put rfl (Nat.le_refl _) (fun _ => id) (fun _ => List.mem_append_left _)
      (fun _ hne => started_of_advertising rfl hne) ⟨fun _ => ⟨hlt, hinitiator, ResourceStatus.noConfusion⟩,
        fun _ => List.mem_append_right _ (List.mem_singleton.mpr rfl), fun _ ha => ?_, fun _ => ?_⟩
    · exact absurd ha (show ¬ Active .queued by decide)
    · exact ⟨ResourceStatus.noConfusion, ResourceStatus.noConfusion⟩
  case accept r adv plaintext requestId totalParts callback _ _ _ hinitiator _ =>
    refine h.put rfl (Nat.le_refl _) (fun _ => id) (fun _ => id) (fun _ _ => id) ⟨fun hstarted => ?_,
      ResourceStatus.noConfusion, Bool.noConfusion, Bool.noConfusion⟩
    exact absurd hstarted (h.unstarted hinitiator)
  case register => exact h.grow rfl rfl (fun _ _ _ => id) (fun _ => id) fun _ => id
  case transfer r f _ hout hactive hf =>
    have hstatus : (f (s.resources r)).status = .transferring := hf.status
    refine h.put rfl (Nat.le_refl _) (fun _ => id) (fun _ => id) (fun _ _ => id) ⟨fun hstarted => ?_,
      fun hq => ?_, fun hi _ => hout (hf.initiator ▸ hi), fun _ => ?_⟩
    · obtain ⟨hlt, hinitiator, -⟩ := h.started r hstarted
      refine ⟨hlt, hf.initiator.trans hinitiator, fun hnone => ?_⟩
      rw [hstatus] at hnone
      cases hnone
    · rw [hstatus] at hq
      cases hq
    · rw [hstatus]
      decide
  case await r f _ hinitiator hold hf =>
    have hstatus : (f (s.resources r)).status = .awaitingProof := hf.status
    refine h.put rfl (Nat.le_refl _) (fun _ => id) (fun _ => id) (fun _ _ => id) ⟨fun hstarted => ?_,
      fun hq => ?_, fun _ _ => h.active r hinitiator (by rw [hold]; decide), fun _ => ?_⟩
    · refine ⟨(h.started r hstarted).1, hf.initiator.trans hinitiator, fun hnone => ?_⟩
      rw [hstatus] at hnone
      cases hnone
    · rw [hstatus] at hq
      cases hq
    · rw [hstatus]
      decide
  case leaveOutgoing r hended =>
    refine h.grow rfl rfl (fun q hinitiator hactive hq => ?_) (fun _ => id) fun _ => id
    refine List.mem_filter.mpr ⟨hq, decide_eq_true fun hqr => ?_⟩
    subst hqr
    obtain hother | hdone := hended
    · rw [hinitiator] at hother
      cases hother
    · exact hdone hactive
  all_goals exact h.grow rfl rfl (fun _ _ _ => id) (fun _ => id) fun _ => id

/-- The status a transfer has at its end, or before it. -/
def Ending (status : ResourceStatus) : Prop := ¬ Active status ∧ status ≠ .none ∧ status ≠ .queued

instance : DecidablePred Ending := fun status => by unfold Ending; infer_instance

theorem Tracked.ended (h : Tracked s) {d : ResourceData} {status : ResourceStatus}
    (hresources : t.resources = Function.update s.resources r d)
    (hrest : t.created = s.created ∧ t.outgoingResources = s.outgoingResources ∧ t.events = s.events)
    (hinitiator : d.initiator = (s.resources r).initiator) (hstatus : d.status = status) (hending : Ending status)
    (hside : (s.resources r).initiator = true → status ≠ .assembling ∧ status ≠ .corrupt) : Tracked t := by
  obtain ⟨hcreated, hout, hevents⟩ := hrest
  have hsame : ∀ q, Started q t → Started q s := fun q ⟨ready, hmem⟩ => ⟨ready, hevents ▸ hmem⟩
  subst hstatus
  refine h.put hresources (Nat.le_of_eq hcreated.symm) (fun _ hq => hout ▸ hq) (fun _ he => hevents ▸ he)
    (fun q _ => hsame q) ⟨fun hstarted => ?_, fun hq => absurd hq hending.2.2, fun _ ha => absurd ha hending.1,
      fun hi => hside (hinitiator ▸ hi)⟩
  obtain ⟨hlt, hi, -⟩ := h.started r (hsame r hstarted)
  exact ⟨hcreated ▸ hlt, hinitiator.trans hi, fun hn => absurd hn hending.2.1⟩

theorem Write.tracked (hw : Write env scope s t) (h : Tracked s) : Tracked t := by
  cases hw
  case gentle hg => exact hg.tracked h
  case assemble r _ hinitiator _ =>
    refine h.ended rfl ⟨rfl, rfl, rfl⟩ rfl rfl (show Ending .assembling by decide) fun hi => ?_
    rw [hi] at hinitiator
    cases hinitiator
  case corrupt r _ hinitiator _ =>
    refine h.ended rfl ⟨rfl, rfl, rfl⟩ rfl rfl (show Ending .corrupt by decide) fun hi => ?_
    rw [hi] at hinitiator
    cases hinitiator
  case complete =>
    exact h.ended rfl ⟨rfl, rfl, rfl⟩ rfl rfl (show Ending .complete by decide)
      fun _ => ⟨ResourceStatus.noConfusion, ResourceStatus.noConfusion⟩
  case validated =>
    exact h.ended rfl ⟨rfl, rfl, rfl⟩ rfl rfl (show Ending .complete by decide)
      fun _ => ⟨ResourceStatus.noConfusion, ResourceStatus.noConfusion⟩
  case fail =>
    exact h.ended rfl ⟨rfl, rfl, rfl⟩ rfl rfl (show Ending .failed by decide)
      fun _ => ⟨ResourceStatus.noConfusion, ResourceStatus.noConfusion⟩
  case reject r _ _ hinitiator =>
    refine h.put rfl (Nat.le_refl _) (fun _ => id) (fun _ => List.mem_append_left _)
      (fun _ _ => started_of_note rfl fun _ => Event.noConfusion) ⟨fun hstarted => ?_, ResourceStatus.noConfusion,
        fun _ ha => absurd ha (show ¬ Active .none by decide),
        fun _ => ⟨ResourceStatus.noConfusion, ResourceStatus.noConfusion⟩⟩
    exact ⟨(h.started r (started_of_note (s := s) rfl (fun _ => Event.noConfusion) hstarted)).1, hinitiator,
      fun _ => List.mem_append_right _ (List.mem_singleton.mpr rfl)⟩

theorem Endpoint.Fresh.tracked (h : s.Fresh) : Tracked s where
  started r hstarted := by
    obtain ⟨ready, hmem⟩ := hstarted
    rw [h.events] at hmem
    cases hmem
  queued r hq := by
    rw [h.resources] at hq
    cases hq
  active r hi _ := by
    rw [h.resources] at hi
    cases hi
  sided r hi := by
    rw [h.resources] at hi
    cases hi

theorem run_tracked (env : Env) (hfresh : s.Fresh) (inputs : List Input) : Tracked (run env s inputs) :=
  run_invariant (fun _ _ _ _ _ hw => hw.tracked) hfresh.clean hfresh.tracked

/-- A started resource that is not queued is in the outgoing set, or has ended. -/
theorem Tracked.remembered (h : Tracked s) (hstarted : Started r s) (hqueued : (s.resources r).status ≠ .queued) :
    r ∈ s.outgoingResources ∨ Concluded r s := by
  obtain ⟨-, hinitiator, hrejected⟩ := h.started r hstarted
  obtain ⟨hassembling, hcorrupt⟩ := h.sided r hinitiator
  cases hstatus : (s.resources r).status with
  | none => exact .inr (.inr ⟨hstatus, hrejected hstatus⟩)
  | queued => exact absurd hstatus hqueued
  | advertised => exact .inl (h.active r hinitiator (.inl hstatus))
  | transferring => exact .inl (h.active r hinitiator (.inr (.inl hstatus)))
  | awaitingProof => exact .inl (h.active r hinitiator (.inr (.inr hstatus)))
  | assembling => exact absurd hstatus hassembling
  | complete => exact .inr (.inl (by rw [hstatus]; rfl))
  | failed => exact .inr (.inl (by rw [hstatus]; rfl))
  | corrupt => exact absurd hstatus hcorrupt

/-! ## Queued resources -/

/-- Whatever comes in, a resource in no set stays as it is until the application names it. -/
theorem run_unknown (hc : s.Clean) (hlt : r < s.created) (hactive : ¬ Active (s.resources r).status)
    {inputs : List Input} (hnames : ∀ input ∈ inputs, ¬ input.Names r) :
    (run env s inputs).resources r = s.resources r := by
  unfold run
  induction inputs generalizing s with
  | nil => rfl
  | cons input inputs ih =>
    obtain ⟨hwrites, hend⟩ := handle_writes env input hc
    have hknows : ¬ (input.within s).knows r := by
      rintro ((hin | hout | hnew) | hnamed)
      · exact (hc.not_mem hactive).1 hin
      · exact (hc.not_mem hactive).2 hout
      · exact Nat.not_le_of_lt hlt hnew
      · exact hnames input List.mem_cons_self hnamed
    have hsame := hwrites.unknown hknows
    exact (ih hend (Nat.lt_of_lt_of_le hlt hwrites.created_le) (hsame ▸ hactive)
      fun i hi => hnames i (List.mem_cons_of_mem input hi)).trans hsame

/-- A queued resource is forgotten. -/
theorem queued_forgotten (hc : s.Clean) (h : Tracked s) (hqueued : (s.resources r).status = .queued) :
    ¬ Remembered env r s := by
  have hactive : ¬ Active (s.resources r).status := by
    rw [hqueued]
    decide
  rintro (hout | (hconcluded | ⟨hnone, -⟩) | ⟨inputs, hnames, hmoved⟩)
  · exact (hc.not_mem hactive).2 hout
  · rw [hqueued] at hconcluded
    cases hconcluded
  · rw [hqueued] at hnone
    cases hnone
  · refine hmoved (congrArg _ (run_unknown hc ?_ hactive hnames))
    exact (h.started r ⟨false, h.queued r hqueued⟩).1

/-! ## Runs -/

/-- In a run that starts every resource while no other one is in the outgoing set, no started resource is ever
forgotten. One that is started while another is in the set is queued; a queued resource is forgotten, in every
run. -/
theorem started_resources_kept (hfresh : s.Fresh) (inputs : List Input) :
    ((∀ r ready, .advertising r ready ∈ (run env s inputs).events → ready = true) →
      ∀ k r, Started r (run env s (inputs.take k)) → Remembered env r (run env s (inputs.take k)))
    ∧ ∀ k r, ((run env s (inputs.take k)).resources r).status = .queued →
      ¬ Remembered env r (run env s (inputs.take k)) := by
  refine ⟨fun hready k r hstarted => ?_, fun k r hqueued => ?_⟩
  · have hkept := (run_tracked env hfresh (inputs.take k)).remembered hstarted fun hqueued => by
      have hnoted := (run_tracked env hfresh (inputs.take k)).queued r hqueued
      have hlater := run_events_subset env (run_clean env hfresh.clean (inputs.take k)) (inputs.drop k)
        _ hnoted
      rw [show run env (run env s (inputs.take k)) (inputs.drop k) = run env s inputs from by
        unfold run
        rw [← List.foldl_append, List.take_append_drop]] at hlater
      cases hready r false hlater
    exact hkept.elim .inl fun hconcluded => .inr (.inl hconcluded)
  · exact queued_forgotten (run_clean env hfresh.clean _) (run_tracked env hfresh _) hqueued

namespace Sample

/-- The end of an active link that transfers resources. -/
def initiator : Endpoint where
  link := link true

theorem initiator_fresh : initiator.Fresh := ⟨rfl, rfl, rfl, fun _ => rfl, rfl, rfl, rfl⟩

/-- Every digest is the same. -/
def quietEnv : Env := plainEnv fun _ => List.Vector.replicate 32 3

/-- The application starts a resource with one byte. -/
def starts (x : UInt8) : Input := .transfer [x] [] false false

end Sample

set_option maxRecDepth 20000 in
/-- A resource that is started alone is in the outgoing set afterwards. -/
theorem started_resources_kept_alone :
    Started 0 (run Sample.quietEnv Sample.initiator [Sample.starts 1])
      ∧ Remembered Sample.quietEnv 0 (run Sample.quietEnv Sample.initiator [Sample.starts 1]) := by
  obtain ⟨p, hp⟩ : ∃ p, (run Sample.quietEnv Sample.initiator [Sample.starts 1]).events
      = [.started 0 [1], .sent p, .advertising 0 true] := ⟨_, rfl⟩
  have hstarted : Started 0 (run Sample.quietEnv Sample.initiator [Sample.starts 1]) :=
    ⟨true, by simp [hp]⟩
  refine ⟨hstarted, (started_resources_kept Sample.initiator_fresh [Sample.starts 1]).1 (fun r ready h => ?_) 1 0
    hstarted⟩
  rw [hp] at h
  simp only [List.mem_cons, reduceCtorEq, Event.advertising.injEq, List.not_mem_nil, or_false, false_or] at h
  exact h.2

/-- Of two resources that are started one after the other, the second is forgotten. -/
theorem second_resource_forgotten :
    ¬ ∀ (env : Env) (s : Endpoint), s.Fresh → ∀ (inputs : List Input) (r : Nat),
      Started r (run env s inputs) → Remembered env r (run env s inputs) := by
  intro h
  have hqueued : ((run Sample.quietEnv Sample.initiator [Sample.starts 1, Sample.starts 2]).resources 1).status
      = .queued := by decide +kernel
  have htracked : Tracked (run Sample.quietEnv Sample.initiator [Sample.starts 1, Sample.starts 2]) :=
    run_tracked _ Sample.initiator_fresh _
  exact queued_forgotten (run_clean _ Sample.initiator_fresh.clean _) htracked hqueued
    (h _ _ Sample.initiator_fresh _ 1 ⟨false, htracked.queued 1 hqueued⟩)

end MicroReticulum.Link
