import MicroReticulum.Link.Inputs
import Mathlib.Logic.Relation

/-!
# The life of a link

`Life` is what the life cycle of a link is about: its status, the reason it was torn down for, and how often
each thing happened to it. It moves in the steps of `LifeStep`, and what every sequence of them keeps is proved of
it alone (`Life.Sound`, `LifeMove.eq_of_closed`).

The rest of the module is the refinement: whatever an endpoint does, its life moves in these steps
(`Lives`). Each function of the preceding modules has one lemma here, and callers cite it.
-/

namespace MicroReticulum.Link

open MicroReticulum Packet Library Resource
open Relation (ReflTransGen)

/-! ## The abstract life cycle -/

/-- The status, the reason, and how often the established callback ran for the first time and again, the link
was torn down and torn down again, a proof failed, and the closed callback ran. -/
structure Life where
  status : Status
  reason : TeardownReason
  established : Nat
  again : Nat
  tornDown : Nat
  tornAgain : Nat
  failed : Nat
  closed : Nat

/-- The order the statuses come in. A stale link may become active again. -/
def Status.rank : Status → Nat
  | .pending => 0
  | .handshake => 1
  | .active => 2
  | .stale => 2
  | .closed => 3

/-- What can happen to a link. -/
inductive LifeStep : Life → Life → Prop
  | handshake (l : Life) : l.status = .pending → LifeStep l { l with status := .handshake }
  | resume (l : Life) : l.status = .stale → LifeStep l { l with status := .active }
  | establish (l : Life) : l.status = .pending ∨ l.status = .handshake →
      LifeStep l { l with status := .active, established := l.established + 1 }
  | establishAgain (l : Life) : l.status = .active → LifeStep l { l with again := l.again + 1 }
  | tearDown (l : Life) (reason : TeardownReason) : l.status ≠ .closed →
      LifeStep l { l with status := .closed, reason, tornDown := l.tornDown + 1, closed := l.closed + 1 }
  | tearDownAgain (l : Life) (reason : TeardownReason) : l.status = .closed →
      LifeStep l { l with reason, tornAgain := l.tornAgain + 1, closed := l.closed + 1 }

/-- An exception closes the link while a proof is validated. -/
def Life.fail (l : Life) : Life := { l with status := .closed, failed := l.failed + 1 }

/-- What one input does to a link: any number of steps, behind which it may fail. -/
inductive LifeMove : Life → Life → Prop
  | steps {l l' : Life} : ReflTransGen LifeStep l l' → LifeMove l l'
  | fails {l l' : Life} : ReflTransGen LifeStep l l' → l'.status ≠ .closed → LifeMove l l'.fail

/-- What the counts have to do with the status. -/
structure Life.Sound (l : Life) : Prop where
  closed : l.closed = l.tornDown + l.tornAgain
  ended : l.tornDown + l.failed = if l.status = .closed then 1 else 0
  tornAgain : 0 < l.tornAgain → l.status = .closed
  established : l.established = 1 ∨ l.established = 0 ∧ l.again = 0 ∧ l.status.rank ≠ Status.active.rank
  early : l.status.rank < Status.active.rank → l.established = 0

/-- One step of a life leaves the record of it sound, whichever of the steps it is. -/
theorem LifeStep.sound {l l' : Life} (h : LifeStep l l') (hl : l.Sound) : l'.Sound := by
  obtain ⟨hclosed, hended, htorn, hestablished, hearly⟩ := hl
  cases h
  case establish hstatus =>
    have hopen : l.status ≠ .closed := by obtain h | h := hstatus <;> rw [h] <;> decide
    have hnone : l.established = 0 := hearly (by obtain h | h := hstatus <;> rw [h] <;> decide)
    constructor <;> simp_all
  all_goals constructor <;> simp_all [Status.rank] <;> omega

/-- The status of a link moves through its ranks in one direction: no single step takes it back. -/
theorem LifeStep.rank_le {l l' : Life} (h : LifeStep l l') : l.status.rank ≤ l'.status.rank := by
  cases h
  case handshake hstatus => simp [hstatus, Status.rank]
  case resume hstatus => simp [hstatus, Status.rank]
  case establish hstatus => obtain h | h := hstatus <;> simp [h, Status.rank]
  case establishAgain => exact Nat.le_refl _
  case tearDownAgain => exact Nat.le_refl _
  all_goals cases l.status <;> simp [Status.rank]

/-- A closed link stays as it is, or it is torn down again. -/
theorem LifeStep.of_closed {l l' : Life} (h : LifeStep l l') (hclosed : l.status = .closed) :
    l'.status = .closed ∧ l'.tornAgain = l.tornAgain + 1 := by
  cases h
  case tearDownAgain => exact ⟨hclosed, rfl⟩
  case establish hstatus => obtain h | h := hstatus <;> cases h.symm.trans hclosed
  case tearDown hopen => exact absurd hclosed hopen
  all_goals
    rename_i hstatus
    cases hstatus.symm.trans hclosed

/-- What has happened has happened. -/
theorem LifeStep.counts_le {l l' : Life} (h : LifeStep l l') :
    l.again ≤ l'.again ∧ l.tornAgain ≤ l'.tornAgain ∧ l'.failed = l.failed := by
  cases h <;> simp

section Moves

variable {l l' : Life}

/-- Soundness is kept over any number of steps, by induction on the steps. -/
theorem Life.Sound.steps (hl : l.Sound) (h : ReflTransGen LifeStep l l') : l'.Sound := by
  induction h with
  | refl => exact hl
  | tail _ hstep ih => exact hstep.sound ih

/-- A whole stretch of a life never leads back to a status of a lower rank. -/
theorem rank_le_of_steps (h : ReflTransGen LifeStep l l') : l.status.rank ≤ l'.status.rank := by
  induction h with
  | refl => exact Nat.le_refl _
  | tail _ hstep ih => exact Nat.le_trans ih hstep.rank_le

/-- Over a stretch of steps the counts of repeated establishments and teardowns only grow, and nothing is counted as
failed. -/
theorem counts_le_of_steps (h : ReflTransGen LifeStep l l') :
    l.again ≤ l'.again ∧ l.tornAgain ≤ l'.tornAgain ∧ l'.failed = l.failed := by
  induction h with
  | refl => simp
  | tail _ hstep ih =>
    obtain ⟨hagain, htorn, hfailed⟩ := hstep.counts_le
    omega

/-- A closed link stays as it is, or it is torn down again. -/
theorem steps_of_closed (h : ReflTransGen LifeStep l l') (hclosed : l.status = .closed) :
    l' = l ∨ l'.status = .closed ∧ l.tornAgain < l'.tornAgain := by
  induction h with
  | refl => exact .inl rfl
  | tail _ hstep ih =>
    obtain rfl | ⟨hclosed', hlt⟩ := ih
    · obtain ⟨hend, hcount⟩ := hstep.of_closed hclosed
      exact .inr ⟨hend, by omega⟩
    · obtain ⟨hend, hcount⟩ := hstep.of_closed hclosed'
      exact .inr ⟨hend, by omega⟩

/-- A move is a stretch of steps or a failed setup, and leaves the record sound either way. -/
theorem LifeMove.sound (h : LifeMove l l') (hl : l.Sound) : l'.Sound := by
  cases h
  case steps hsteps => exact hl.steps hsteps
  case fails l' hsteps hopen =>
    obtain ⟨hclosed, hended, htorn, hestablished, hearly⟩ := hl.steps hsteps
    constructor <;> simp_all [Life.fail, Status.rank]
    omega

/-- No move of the link leads back to a status of a lower rank. -/
theorem LifeMove.rank_le (h : LifeMove l l') : l.status.rank ≤ l'.status.rank := by
  cases h
  case steps hsteps => exact rank_le_of_steps hsteps
  case fails => cases l.status <;> simp [Life.fail, Status.rank]

/-- Every count of a life only grows from move to move, the failures among them. -/
theorem LifeMove.counts_le (h : LifeMove l l') :
    l.again ≤ l'.again ∧ l.tornAgain ≤ l'.tornAgain ∧ l.failed ≤ l'.failed := by
  cases h
  case steps hsteps =>
    obtain ⟨hagain, htorn, hfailed⟩ := counts_le_of_steps hsteps
    omega
  case fails l' hsteps _ =>
    obtain ⟨hagain, htorn, hfailed⟩ := counts_le_of_steps hsteps
    simp [Life.fail]
    omega

/-- A closed link that is not torn down again stays as it is. -/
theorem LifeMove.eq_of_closed (h : LifeMove l l') (hclosed : l.status = .closed)
    (hagain : l'.tornAgain = l.tornAgain) : l' = l := by
  cases h
  case steps hsteps =>
    obtain h | ⟨-, h⟩ := steps_of_closed hsteps hclosed
    · exact h
    · omega
  case fails l' hsteps hopen =>
    obtain rfl | ⟨hclosed', -⟩ := steps_of_closed hsteps hclosed
    · exact absurd hclosed hopen
    · exact absurd hclosed' hopen

/-- A link that fails has been closed, and the closed callback did not run. -/
theorem LifeMove.failed (h : LifeMove l l') (hl : l.Sound) (hfailed : l.failed < l'.failed) :
    l'.status = .closed ∧ l'.closed = 0 := by
  cases h
  case steps hsteps =>
    obtain ⟨-, -, hsame⟩ := counts_le_of_steps hsteps
    omega
  case fails l' hsteps hopen =>
    obtain ⟨hclosed, hended, htorn, -, -⟩ := hl.steps hsteps
    rw [if_neg hopen] at hended
    have hnone : l'.tornAgain = 0 := Nat.eq_zero_of_not_pos fun h => hopen (htorn h)
    refine ⟨rfl, ?_⟩
    show l'.closed = 0
    omega

end Moves

/-! ## The life of an endpoint -/

/-- Is the event one of the life of the link? -/
def Event.isOfLife : Event → Bool
  | .established _ => true
  | .tornDown _ => true
  | .proofFailed => true
  | .closed => true
  | _ => false

/-- The established callback ran, on a link that was not active before. -/
def Event.isFirst : Event → Bool
  | .established before => before ≠ .active
  | _ => false

/-- It ran on a link that was active before. -/
def Event.isAgain : Event → Bool
  | .established before => before = .active
  | _ => false

/-- An open link was torn down. -/
def Event.isTornDown : Event → Bool
  | .tornDown before => before ≠ .closed
  | _ => false

/-- A closed link was torn down. -/
def Event.isTornAgain : Event → Bool
  | .tornDown before => before = .closed
  | _ => false

/-- A proof failed. -/
def Event.isProofFailed : Event → Bool
  | .proofFailed => true
  | _ => false

/-- The closed callback ran. -/
def Event.isClosed : Event → Bool
  | .closed => true
  | _ => false

/-- The life of the link of an endpoint. -/
def Endpoint.life (e : Endpoint) : Life where
  status := e.link.status
  reason := e.teardownReason
  established := e.events.countP Event.isFirst
  again := e.events.countP Event.isAgain
  tornDown := e.events.countP Event.isTornDown
  tornAgain := e.events.countP Event.isTornAgain
  failed := e.events.countP Event.isProofFailed
  closed := e.events.countP Event.isClosed

/-- An event that says nothing about the life of the link leaves the record of it as it was. -/
theorem life_note {event : Event} (h : event.isOfLife = false) (e : Endpoint) : (e.note event).life = e.life := by
  cases event <;> simp_all [Endpoint.life, Endpoint.note, Event.isOfLife, Event.isFirst, Event.isAgain,
    Event.isTornDown, Event.isTornAgain, Event.isProofFailed, Event.isClosed]

/-- The life of the link does not move. -/
def Calm (s t : Endpoint) : Prop := t.life = s.life

/-- The life of the link moves in its steps. -/
def Lives (s t : Endpoint) : Prop := ReflTransGen LifeStep s.life t.life

theorem Calm.refl (s : Endpoint) : Calm s s := rfl

theorem Calm.trans (s t u : Endpoint) (h : Calm s t) (h' : Calm t u) : Calm s u := Eq.trans h' h

/-- Noting an event of another kind is calm. -/
theorem Calm.note {event : Event} (h : event.isOfLife = false) (s : Endpoint) : Calm s (s.note event) :=
  life_note h s

/-- What leaves the record alone is a stretch of a life with no steps in it. -/
theorem Calm.lives {s t : Endpoint} (h : Calm s t) : Lives s t := by
  unfold Lives
  rw [h]

namespace Lives

variable {α β : Type} {m : Prog String Endpoint α} {f : Endpoint → Endpoint}

theorem refl (s : Endpoint) : Lives s s := ReflTransGen.refl

theorem trans (s t u : Endpoint) (h : Lives s t) (h' : Lives t u) : Lives s u := ReflTransGen.trans h h'

/-- A program that leaves the record alone leads through no steps of a life. -/
theorem calm (hm : Prog.Keeps Calm m) : Prog.Keeps Lives m := fun s => (hm s).lives

theorem pure (a : α) : Prog.Keeps Lives (Pure.pure a : Prog String Endpoint α) := .pure refl a

/-- A write that leaves the record alone is a stretch of a life, in the form in which the handlers below use it. -/
theorem modify (hf : ∀ s, Calm s (f s)) : Prog.Keeps Lives (Prog.modify f : Prog String Endpoint Unit) :=
  .modify fun s => (hf s).lives

theorem bind {g : α → Prog String Endpoint β} (hm : Prog.Keeps Lives m) (hg : ∀ a, Prog.Keeps Lives (g a)) :
    Prog.Keeps Lives (m >>= g) := .bind trans hm hg

theorem get_bind {g : Endpoint → Prog String Endpoint β} (hg : ∀ e, Prog.Keeps Lives (g e)) :
    Prog.Keeps Lives (Prog.get >>= g) := bind (.get refl) hg

theorem modify_bind {g : Unit → Prog String Endpoint β} (hf : ∀ s, Calm s (f s)) (hg : Prog.Keeps Lives (g ())) :
    Prog.Keeps Lives (Prog.modify f >>= g) := bind (modify hf) fun _ => hg

theorem ofExcept_bind {r : Except String α} {g : α → Prog String Endpoint β} (hg : ∀ a, Prog.Keeps Lives (g a)) :
    Prog.Keeps Lives (Prog.ofExcept r >>= g) := bind (.ofExcept refl r) hg

theorem when {c : Prop} [Decidable c] {m : Prog String Endpoint Unit} (hm : c → Prog.Keeps Lives m) :
    Prog.Keeps Lives (Prog.when c m) := .when refl hm

theorem leave : Prog.Keeps Lives (Prog.leave : Prog String Endpoint α) := .leave refl

/-- A stretch of a life remains one when it is broken off by an exception and the handler goes on with another. -/
theorem catching {h : String → Prog String Endpoint α} (hm : Prog.Keeps Lives m)
    (hh : ∀ e, Prog.Keeps Lives (h e)) : Prog.Keeps Lives (Prog.catching m h) := .catching trans hm hh

/-- From a given state it is enough that the branch that is taken leads through a stretch of a life. -/
theorem ite_at {c : Prop} [Decidable c] {m m' : Prog String Endpoint α} {s : Endpoint} (h : c → Lives s (m s).2)
    (h' : ¬ c → Lives s (m' s).2) : Lives s ((if c then m else m') s).2 := by
  split
  case isTrue hc => exact h hc
  case isFalse hc => exact h' hc

/-- A loop whose every round is a stretch of a life is one as a whole. -/
theorem forEach {g : β → Prog String Endpoint Unit} (hg : ∀ b, Prog.Keeps Lives (g b)) (bs : List β) :
    Prog.Keeps Lives (Prog.forEach bs g) := .forEach refl trans bs fun b _ => hg b

end Lives

/-! ## Functions that leave the life of the link alone -/

variable (env : Env)

/-- Handing a packet to the transport writes no event of the life, whether it goes out or throws. -/
theorem outbound_calm (p : Packet) : Prog.Keeps Calm (outbound env p) := by
  refine .bind Calm.trans (.get Calm.refl) fun e => .bind Calm.trans (.modify fun _ => rfl) fun _ => ?_
  exact .bind Calm.trans (.when Calm.refl fun _ => .modify fun s => .note rfl s) fun _ => .pure Calm.refl _

/-- Sending is calm: the packet is built and handed over, and nothing else of the link changes. -/
theorem send_calm (packetType : PacketType) (context : ContextType) (data : Bytes) :
    Prog.Keeps Calm (send env packetType context data) := by
  intro s
  obtain ⟨e, token, -, hrun⟩ | ⟨p, token, -, -, -, hrun⟩ := send_cases env packetType context data s
  · rw [hrun]
    exact .refl s
  · rw [hrun]
    cases env.transmits (s.draws + 1) with
    | false => simp [Calm, Endpoint.life]
    | true =>
      have hsent : (Event.sent p).isOfLife = false := rfl
      exact life_note hsent { s with link := { s.link with token }, draws := s.draws + 2 }

theorem trySend_calm (packetType : PacketType) (context : ContextType) (data : Bytes) :
    Prog.Keeps Calm (trySend env packetType context data) :=
  .catching Calm.trans (.bind Calm.trans (send_calm env _ _ _) fun _ => .pure Calm.refl _) fun _ => .pure Calm.refl _

theorem decrypt_calm (ciphertext : Bytes) : Prog.Keeps Calm (decrypt env ciphertext) := by
  refine .bind Calm.trans (.get Calm.refl) fun e => ?_
  split
  · exact .pure Calm.refl _
  · exact .bind Calm.trans (.modify fun _ => rfl) fun _ => .pure Calm.refl _

theorem encrypt_calm (plaintext : Bytes) : Prog.Keeps Calm (encrypt env plaintext) :=
  .bind Calm.trans (.get Calm.refl) fun _ => .bind Calm.trans (.ofExcept Calm.refl _) fun _ =>
    .bind Calm.trans (.modify fun _ => rfl) fun _ => .pure Calm.refl _

/-- Taking a resource off the lists and noting its end says nothing about the life of the link. -/
theorem concluded_calm {r : Nat} {status : ResourceStatus} (s : Endpoint) :
    Calm s ((unregister r s).note (.concluded r status)) := .note rfl (unregister r s)

/-- Cancelling a transfer sends at most one packet and takes the resource off the lists. -/
theorem cancelTransfer_calm (r : Nat) : Prog.Keeps Calm (cancelTransfer env r) := by
  refine .bind Calm.trans (.get Calm.refl) fun e => .when Calm.refl fun _ => ?_
  have hcallback : Prog.Keeps Calm (Prog.when (e.resources r).concludedCallback
      (Prog.modify fun e => (unregister r e).note (.concluded r .failed)) : Prog String Endpoint Unit) :=
    .when Calm.refl fun _ => .modify fun s => concluded_calm s
  refine .bind Calm.trans (.modify fun _ => rfl) fun _ => .ite ?_ ?_
  · exact .bind Calm.trans (.when Calm.refl fun _ => trySend_calm env _ _ _) fun _ =>
      .bind Calm.trans (.modify fun _ => rfl) fun _ => hcallback
  · exact .bind Calm.trans (.modify fun _ => rfl) fun _ => hcallback

/-! ## Tearing down -/

/-- `linkClosed` runs the closed callback, and that is all it does to the life of the link. -/
theorem linkClosed_run (s : Endpoint) : ∃ t, Calm s t ∧ linkClosed env s = (.value (), t.note .closed) := by
  unfold linkClosed
  rw [Prog.get_bind_run]
  have hcancel : ∀ r, (cancelTransfer env r).Succeeds := by
    intro r s
    obtain hrun | ⟨-, t, -, hrun | hrun⟩ := cancelTransfer_cases env r s <;> exact ⟨_, _, hrun⟩
  have hloop : ∀ rs : List Nat, Prog.Keeps Calm (Prog.forEach rs (cancelTransfer env)) := fun rs =>
    .forEach Calm.refl Calm.trans rs fun r _ => cancelTransfer_calm env r
  obtain ⟨_, t, hin⟩ := Prog.Succeeds.forEach hcancel s.incomingResources s
  obtain ⟨_, u, hout⟩ := Prog.Succeeds.forEach hcancel s.outgoingResources t
  rw [Prog.bind_value hin, Prog.bind_value hout]
  have hcalm : Calm s u := .trans s t u ((hloop _).of_value hin) ((hloop _).of_value hout)
  exact ⟨u.withLink fun l => { l with prv := [], pubBytes := [], sharedKey := [], derivedKey := [] }, hcalm, rfl⟩

/-- What `teardown` and `teardownPacket` do once they have decided. -/
def tornDown (reason : TeardownReason) (s : Endpoint) : Endpoint :=
  { s.note (.tornDown s.link.status) with
    link := { s.link with status := .closed }
    teardownReason := reason }

/-- Closing a link that is being torn down is one step: it is torn down for the reason that was set, the first time or
again. -/
theorem tornDown_lives (reason : TeardownReason) (s : Endpoint) :
    Lives s (linkClosed env (tornDown reason s)).2 := by
  obtain ⟨t, hcalm, hrun⟩ := linkClosed_run env (tornDown reason s)
  rw [hrun]
  refine .single ?_
  have hlife : (t.note .closed).life = { t.life with closed := t.life.closed + 1 } := by
    simp [Endpoint.life, Endpoint.note, Event.isFirst, Event.isAgain, Event.isTornDown, Event.isTornAgain,
      Event.isProofFailed, Event.isClosed]
  rw [show (t.note .closed).life = _ from hlife, show t.life = (tornDown reason s).life from hcalm]
  by_cases hclosed : s.link.status = .closed
  · have hstep := LifeStep.tearDownAgain s.life reason hclosed
    simpa [Endpoint.life, tornDown, Endpoint.note, Event.isFirst, Event.isAgain, Event.isTornDown,
      Event.isTornAgain, Event.isProofFailed, Event.isClosed, hclosed] using hstep
  · have hstep := LifeStep.tearDown s.life reason hclosed
    simpa [Endpoint.life, tornDown, Endpoint.note, Event.isFirst, Event.isAgain, Event.isTornDown,
      Event.isTornAgain, Event.isProofFailed, Event.isClosed, hclosed] using hstep

/-- `teardown` is a stretch of the life: nothing for a link that is closed or was never asked for, and otherwise the
closing. -/
theorem teardown_lives : Prog.Keeps Lives (teardown env) := by
  intro s
  have hclose : ∀ t, Calm s t → Lives s ((do
      Prog.modify (.note (.tornDown s.link.status))
      Prog.modify fun e =>
        { e with
          link := { e.link with status := .closed }
          teardownReason := if e.link.initiator then .initiatorClosed else .destinationClosed }
      linkClosed env : Prog String Endpoint Unit) t).2 := by
    intro t hcalm
    rw [show s.link.status = t.link.status from (congrArg Life.status hcalm).symm]
    exact .trans _ _ _ hcalm.lives (tornDown_lives env _ t)
  unfold teardown
  rw [Prog.get_bind_run]
  obtain ⟨-, hrun⟩ | ⟨-, hrun⟩ := Prog.when_run_cases (s.link.status ≠ .pending ∧ s.link.status ≠ .closed)
    (do let _ ← send env .data ContextType.linkclose s.link.linkId.toList) s
  · have hcalm : Calm s (send env .data ContextType.linkclose s.link.linkId.toList s).2 := send_calm env _ _ _ s
    obtain ⟨e, token, -, hsend⟩ | ⟨p, token, -, -, -, hsend⟩ := send_cases env .data ContextType.linkclose
      s.link.linkId.toList s
    · rw [Prog.bind_thrown (hrun.trans (Prog.bind_thrown hsend))]
      exact .refl s
    · rw [Prog.bind_value (hrun.trans (Prog.bind_value hsend))]
      rw [hsend] at hcalm
      exact hclose _ hcalm
  · rw [Prog.bind_value hrun]
    exact hclose s (.refl s)

/-! ## Resources -/

theorem newResource_lives (data : Bytes) : Prog.Keeps Lives (newResource data) :=
  Lives.get_bind fun _ => Lives.modify_bind (fun _ => rfl) (Lives.pure _)

theorem cancelTransfer_lives (r : Nat) : Prog.Keeps Lives (cancelTransfer env r) :=
  Lives.calm (cancelTransfer_calm env r)

/-- Cancelling a resource is calm, as the transfer it belongs to knows nothing of the status of the link. -/
theorem cancel_lives (r : Nat) : Prog.Keeps Lives (cancel env r) := by
  refine Lives.get_bind fun e => .ite ?_ (cancelTransfer_lives env r)
  refine Lives.modify_bind (fun _ => rfl) (Lives.bind ?_ fun _ => teardown_lives env)
  exact Lives.get_bind fun _ => Lives.calm (trySend_calm env _ _ _)

/-- Giving up a resource after its retries can end in the cancelling of the transfer, and no more. -/
theorem giveUp_lives (r : Nat) : Prog.Keeps Lives (giveUp env r) :=
  Lives.bind (cancel_lives env r) fun _ => Lives.leave

theorem rejected_lives (r : Nat) : Prog.Keeps Lives (rejected r) :=
  Lives.get_bind fun _ => Lives.when fun _ => Lives.modify_bind (fun s => .note rfl (s.withResource r _))
    (Lives.modify_bind (fun _ => rfl) (Lives.when fun _ => Lives.modify fun s => concluded_calm s))

theorem send_lives (packetType : PacketType) (context : ContextType) (data : Bytes) :
    Prog.Keeps Lives (send env packetType context data) := Lives.calm (send_calm env _ _ _)

/-- A `send` behind which a resource is cancelled if it throws. -/
theorem sendOr_lives (packetType : PacketType) (context : ContextType) (data : Bytes)
    {m : String → Prog String Endpoint Unit} (hm : ∀ e, Prog.Keeps Lives (m e)) :
    Prog.Keeps Lives (Prog.catching (do let _ ← send env packetType context data) m) :=
  Lives.catching (Lives.bind (send_lives env _ _ _) fun _ => Lives.pure _) hm

/-- The advertisement of a resource leaves the life of its link alone, also when the link is not ready for it yet. -/
theorem advertiseJob_lives (r : Nat) : Prog.Keeps Lives (advertiseJob env r) := by
  refine Lives.get_bind fun e => Lives.modify_bind (fun _ => rfl) (.ite ?_ ?_)
  · refine Lives.catching (Lives.bind (send_lives env _ _ _) fun _ => Lives.modify fun s => ?_)
      fun _ => cancel_lives env r
    exact .note rfl ((s.withResource r _).registerOutgoingResource r)
  · exact Lives.modify fun s => .note rfl (s.withResource r _)

theorem start_lives (r : Nat) : Prog.Keeps Lives (start env r) := by
  refine Lives.get_bind fun e => Lives.when fun _ => Lives.modify_bind (fun _ => rfl)
    (Lives.modify_bind (fun s => .note rfl (s.withResource r _)) ?_)
  refine Lives.bind (Lives.calm (encrypt_calm env _)) fun _ => Lives.modify_bind (fun _ => rfl)
    (Lives.get_bind fun _ => Lives.ofExcept_bind fun _ => ?_)
  exact Lives.modify_bind (fun _ => rfl) (advertiseJob_lives env r)

theorem sendPart_lives (r i : Nat) : Prog.Keeps Lives (sendPart env r i) := by
  refine Lives.get_bind fun e => ?_
  split
  · exact Lives.pure _
  · refine .ite ?_ (Lives.bind (.require Lives.refl _ _) fun _ => ?_) <;>
      exact Lives.bind (Lives.calm (outbound_calm env _)) fun _ => Lives.modify fun _ => rfl

theorem sendHashmapUpdate_lives (r : Nat) (lastMapHash : Bytes) :
    Prog.Keeps Lives (sendHashmapUpdate env r lastMapHash) :=
  Lives.get_bind fun _ => Lives.modify_bind (fun _ => rfl) (Lives.bind
    (Lives.when fun _ => giveUp_lives env r) fun _ => sendOr_lives env _ _ _ fun _ => giveUp_lives env r)

/-- Serving a request for parts sends the parts that are asked for and hashmap updates, nothing of the life. -/
theorem Resource.request_lives (r : Nat) (requestData : Bytes) :
    Prog.Keeps Lives (Resource.request env r requestData) := by
  refine .call (Lives.get_bind fun e => Lives.bind (Lives.when fun _ => Lives.leave) fun _ => ?_)
  refine Lives.modify_bind (fun _ => rfl) (Lives.bind (Lives.when fun _ => Lives.leave) fun _ => ?_)
  refine Lives.bind (Lives.forEach (fun i => Lives.when fun _ => Lives.catching (sendPart_lives env r i)
    fun _ => giveUp_lives env r) _) fun _ => ?_
  exact Lives.bind (Lives.when fun _ => sendHashmapUpdate_lives env r _) fun _ => Lives.modify fun _ => rfl

theorem requestNext_lives (r : Nat) : Prog.Keeps Lives (requestNext env r) :=
  Lives.get_bind fun _ => Lives.when fun _ => Lives.modify_bind (fun _ => rfl)
    (sendOr_lives env _ _ _ fun _ => cancel_lives env r)

theorem hashmapUpdate_lives (r : Nat) (segment : UInt16) (hashmap : Bytes) :
    Prog.Keeps Lives (hashmapUpdate env r segment hashmap) :=
  Lives.get_bind fun _ => Lives.when fun _ => Lives.modify_bind (fun _ => rfl) (requestNext_lives env r)

/-- A hashmap update is read into the resource, and its failure cancels the transfer at most. -/
theorem hashmapUpdatePacket_lives (r : Nat) (plaintext : Bytes) :
    Prog.Keeps Lives (hashmapUpdatePacket env r plaintext) := by
  refine Lives.get_bind fun e => Lives.when fun _ => Lives.modify_bind (fun _ => rfl) (Lives.when fun _ => ?_)
  split
  · exact Lives.when fun _ => hashmapUpdate_lives env r _ _
  · exact Lives.pure _

theorem accept_lives (plaintext requestId : Bytes) (callback : Bool) :
    Prog.Keeps Lives (accept env plaintext requestId callback) := by
  refine .ite (Lives.pure _) (Lives.bind (newResource_lives []) fun r => Lives.get_bind fun e => ?_)
  refine Lives.ofExcept_bind fun _ => Lives.modify_bind (fun _ => rfl) (.ite (Lives.pure _) ?_)
  exact Lives.modify_bind (fun _ => rfl) (Lives.bind (hashmapUpdate_lives env r _ _) fun _ => Lives.pure _)

theorem prove_lives (r : Nat) : Prog.Keeps Lives (prove env r) :=
  Lives.get_bind fun _ => Lives.when fun _ => sendOr_lives env _ _ _ fun _ => cancel_lives env r

/-- Assembling a resource ends in a proof, in a cancelling or in neither; none of them is an event of the life. -/
theorem assembleBody_lives (r : Nat) : Prog.Keeps Lives (assembleBody env r) := by
  refine Lives.modify_bind (fun _ => rfl) (Lives.get_bind fun e => .ite
    (Lives.bind (Lives.calm (decrypt_calm env _)) fun plaintext => ?_) (Lives.bind (Lives.pure _) fun plaintext => ?_))
  all_goals
    refine Lives.bind (Lives.when fun _ => Lives.modify_bind (fun _ => rfl) (giveUp_lives env r)) fun _ => ?_
    exact .ite (Lives.modify fun _ => rfl) (Lives.modify_bind (fun _ => rfl) (prove_lives env r))

theorem concludedCallback_lives (r : Nat) : Prog.Keeps Lives (concludedCallback r) :=
  Lives.get_bind fun _ => Lives.when fun _ => Lives.modify fun s => .note rfl s

/-! ## Requests and responses -/

/-- A response goes out as a packet or as a resource, and both leave the life alone. -/
theorem respond_lives (requestId response : Bytes) : Prog.Keeps Lives (respond env requestId response) := by
  refine .ite (Lives.bind (send_lives env _ _ _) fun _ => Lives.pure _) (Lives.bind (newResource_lives _) fun r => ?_)
  exact Lives.modify_bind (fun _ => rfl) (start_lives env r)

/-- A request that is permitted is answered, and one that is not is dropped; the link stays what it was. -/
theorem handleRequest_lives (requestId : Bytes) (request : ResourceRequest) :
    Prog.Keeps Lives (handleRequest env requestId request) := by
  refine Lives.get_bind fun e => Lives.when fun _ => ?_
  split
  · exact Lives.pure _
  · exact Lives.when fun _ => Lives.modify_bind (fun s => .note rfl s) (Lives.ofExcept_bind fun _ =>
      Lives.when fun _ => respond_lives env requestId _)

theorem responseReceived_lives (receipt : Nat) (response : Bytes) :
    Prog.Keeps Lives (responseReceived receipt response) :=
  Lives.get_bind fun _ => Lives.when fun _ => Lives.modify_bind (fun _ => rfl) (Lives.modify fun s => .note rfl s)

theorem requestTimedOut_lives (receipt : Nat) : Prog.Keeps Lives (requestTimedOut receipt) :=
  Lives.modify_bind (fun _ => rfl) (Lives.modify_bind (fun _ => rfl) (Lives.modify fun s => .note rfl s))

/-- A response concludes the pending request it belongs to and says nothing about the link. -/
theorem handleResponse_lives (requestId responseData : Bytes) (responseSize responseTransferSize : Nat) :
    Prog.Keeps Lives (handleResponse requestId responseData responseSize responseTransferSize) := by
  refine Lives.get_bind fun e => Lives.when fun _ => ?_
  split
  · exact Lives.pure _
  · exact Lives.modify_bind (fun _ => rfl) (Lives.bind (responseReceived_lives _ _) fun _ =>
      Lives.modify fun _ => rfl)

theorem request_lives (path data : Bytes) : Prog.Keeps Lives (request env path data) := by
  refine Lives.get_bind fun e => .ite (Lives.bind (send_lives env _ _ _) fun p => ?_)
    (Lives.bind (newResource_lives _) fun r => ?_)
  · exact Lives.modify_bind (fun _ => rfl) (Lives.pure _)
  · exact Lives.modify_bind (fun _ => rfl) (Lives.bind (start_lives env r) fun _ =>
      Lives.modify_bind (fun _ => rfl) (Lives.pure _))

/-- The end of a resource is passed on to the request or the response it carried. -/
theorem resourceConcluded_lives (r : Nat) : Prog.Keeps Lives (resourceConcluded env r) := by
  refine Lives.get_bind fun e => Lives.modify_bind (fun _ => rfl) (Lives.when fun _ => .ite ?_ ?_)
  · refine Lives.get_bind fun e' => .ite ?_ (Lives.forEach (fun q => requestTimedOut_lives q) _)
    split
    · exact Lives.pure _
    · exact handleResponse_lives _ _ _ _
  · refine Lives.get_bind fun e' => Lives.when fun _ => ?_
    split
    · exact Lives.pure _
    · exact handleRequest_lives env _ _

theorem assemble_lives (r : Nat) : Prog.Keeps Lives (assemble env r) :=
  .call (Lives.get_bind fun _ => Lives.when fun _ => Lives.bind
    (Lives.catching (assembleBody_lives env r) fun _ => Lives.modify fun _ => rfl) fun _ =>
      Lives.bind (resourceConcluded_lives env r) fun _ => concludedCallback_lives r)

/-- A part is filed, and the next ones are asked for or the whole is assembled. -/
theorem receivePart_lives (r : Nat) (packet : Packet) (rates : Rates) :
    Prog.Keeps Lives (receivePart env r packet rates) := by
  refine .call (Lives.get_bind fun e => Lives.bind (Lives.when fun _ => Lives.leave) fun _ => ?_)
  refine Lives.modify_bind (fun _ => rfl) (Lives.bind
    (Lives.when fun _ => Lives.modify_bind (fun _ => rfl) Lives.leave) fun _ => ?_)
  refine Lives.modify_bind (fun _ => rfl) (Lives.get_bind fun e' => .ite ?_ ?_)
  · exact Lives.modify_bind (fun _ => rfl) (Lives.bind (assemble_lives env r) fun _ => Lives.modify fun _ => rfl)
  · exact Lives.bind (Lives.when fun _ => Lives.modify_bind (fun _ => rfl) (requestNext_lives env r)) fun _ =>
      Lives.modify fun _ => rfl

theorem validateProof_lives (r : Nat) (proofData : Bytes) :
    Prog.Keeps Lives (Resource.validateProof env r proofData) :=
  Lives.get_bind fun _ => Lives.when fun _ => Lives.modify_bind (fun _ => rfl)
    (Lives.bind (resourceConcluded_lives env r) fun _ => concludedCallback_lives r)

theorem watchdogJob_lives (r : Nat) (late : Bool) : Prog.Keeps Lives (watchdogJob env r late) := by
  refine Lives.get_bind fun e => Lives.when fun _ => ?_
  split
  · refine .ite (cancel_lives env r) (Lives.catching (Lives.modify_bind (fun _ => rfl) ?_) fun _ =>
      cancel_lives env r)
    exact Lives.bind (send_lives env _ _ _) fun _ => Lives.pure _
  · exact cancel_lives env r
  · exact .ite (cancel_lives env r) (Lives.modify fun _ => rfl)
  · exact .ite (Lives.modify_bind (fun _ => rfl) (requestNext_lives env r)) (cancel_lives env r)
  · exact Lives.pure _

/-! ## Inputs -/

theorem withPlaintext_lives (packet : Packet) {f : Bytes → Prog String Endpoint Unit}
    (hf : ∀ plaintext, Prog.Keeps Lives (f plaintext)) : Prog.Keeps Lives (withPlaintext env packet f) :=
  Lives.bind (Lives.calm (decrypt_calm env _)) fun plaintext => Lives.when fun _ => hf plaintext

theorem forIncoming_lives (plaintext : Bytes) {f : Nat → Prog String Endpoint Unit}
    (hf : ∀ r, Prog.Keeps Lives (f r)) : Prog.Keeps Lives (forIncoming plaintext f) :=
  Lives.get_bind fun _ => Lives.when fun _ => Lives.forEach hf _

/-- An advertisement is accepted, ignored or refused; each leaves the life of the link alone. -/
theorem receiveAdvertisement_lives (plaintext : Bytes) :
    Prog.Keeps Lives (receiveAdvertisement env plaintext) := by
  have haccept : ∀ requestId callback, Prog.Keeps Lives
      (do let _ ← accept env plaintext requestId callback : Prog String Endpoint Unit) := fun requestId callback =>
    Lives.bind (accept_lives env plaintext requestId callback) fun _ => Lives.pure _
  refine Lives.get_bind fun e => .ite (haccept _ _) (.ite ?_ ?_)
  · refine Lives.get_bind fun _ => Lives.forEach (fun q => Lives.bind (accept_lives env _ _ _) fun _ => ?_) _
    exact Lives.when fun _ => Lives.modify fun _ => rfl
  · split
    · exact Lives.pure _
    · exact Lives.when fun _ => Lives.catching (haccept _ _) fun _ => Lives.pure _
    · exact haccept _ _

theorem receiveIdentify_lives (packet : Packet) (plaintext : Bytes) :
    Prog.Keeps Lives (receiveIdentify env packet plaintext) :=
  Lives.get_bind fun _ => Lives.when fun _ => Lives.when fun _ => Lives.modify fun s =>
    .note rfl (s.withLink fun l => { l with remoteIdentity := some (plaintext.left ecpubsize) })

theorem receiveRequest_lives (packet : Packet) : Prog.Keeps Lives (receiveRequest env packet) := by
  refine Lives.catching (Lives.bind (Lives.calm (decrypt_calm env _)) fun p => Lives.when fun _ => ?_)
    fun _ => Lives.pure _
  split
  · exact Lives.pure _
  · exact handleRequest_lives env _ _

theorem receiveResponse_lives (packet : Packet) : Prog.Keeps Lives (receiveResponse env packet) :=
  Lives.catching (Lives.bind (Lives.calm (decrypt_calm env _)) fun _ => Lives.when fun _ =>
    handleResponse_lives _ _ _ _) fun _ => Lives.pure _

theorem receiveResourceRequest_lives (packet : Packet) (plaintext : Bytes) :
    Prog.Keeps Lives (receiveResourceRequest env packet plaintext) := by
  refine Lives.get_bind fun e => Lives.when fun _ => ?_
  split
  · exact Lives.pure _
  · exact Lives.when fun _ => Lives.modify_bind (fun _ => rfl) (Resource.request_lives env _ _)

theorem teardownPacket_lives (packet : Packet) : Prog.Keeps Lives (teardownPacket env packet) := by
  refine Lives.bind (Lives.calm (decrypt_calm env _)) fun plaintext s => ?_
  rw [Prog.get_bind_run]
  unfold Prog.when
  split
  · exact tornDown_lives env _ s
  · exact .refl s

/-- A round trip time establishes an open link, for the first time or again. -/
theorem establish_lives {s : Endpoint} (hopen : s.link.status ≠ .closed) (hstale : s.link.status ≠ .stale) :
    Lives s ((s.withLink fun l => { l with status := .active }).note (.established s.link.status)) := by
  refine .single ?_
  by_cases hactive : s.link.status = .active
  · have hstep := LifeStep.establishAgain s.life hactive
    simpa [Endpoint.life, Endpoint.withLink, Endpoint.note, Event.isFirst, Event.isAgain, Event.isTornDown,
      Event.isTornAgain, Event.isProofFailed, Event.isClosed, hactive] using hstep
  · have hearly : s.link.status = .pending ∨ s.link.status = .handshake := by
      cases h : s.link.status <;> simp_all
    have hstep := LifeStep.establish s.life hearly
    simpa [Endpoint.life, Endpoint.withLink, Endpoint.note, Event.isFirst, Event.isAgain, Event.isTornDown,
      Event.isTornAgain, Event.isProofFailed, Event.isClosed, hactive] using hstep

/-- The packet with the round trip time makes the link active. The status before is one that is neither closed nor
stale, since `receive` asks for that. -/
theorem rttPacket_lives (packet : Packet) {s : Endpoint} (hopen : s.link.status ≠ .closed)
    (hstale : s.link.status ≠ .stale) : Lives s (rttPacket env packet s).2 := by
  obtain ⟨plaintext, t, -, hrun⟩ := decrypt_run env packet.data s
  have hcalm : Calm s t := (decrypt_calm env packet.data).of_value hrun
  have hstatus : t.link.status = s.link.status := congrArg Life.status hcalm
  unfold rttPacket
  rw [Prog.bind_value hrun]
  unfold Prog.when
  split
  · exact .trans _ _ _ hcalm.lives (establish_lives (hstatus ▸ hopen) (hstatus ▸ hstale))
  · exact hcalm.lives

/-- A data packet runs the handler of its context; of these only the round trip time and the teardown have to do with
the life. -/
theorem receiveData_lives (packet : Packet) (rates : Nat → Rates) {s : Endpoint}
    (hopen : s.link.status ≠ .closed) (hstale : s.link.status ≠ .stale) :
    Lives s (receiveData env packet rates s).2 := by
  have hplain : ∀ {f : Bytes → Prog String Endpoint Unit}, (∀ plaintext, Prog.Keeps Lives (f plaintext)) →
      Lives s (withPlaintext env packet f s).2 := fun hf => withPlaintext_lives env packet hf s
  refine Lives.ite_at (fun _ => ?_) fun _ => Lives.ite_at (fun _ => ?_) fun _ => Lives.ite_at (fun _ => ?_)
    fun _ => Lives.ite_at (fun _ => ?_) fun _ => Lives.ite_at (fun _ => ?_) fun _ => Lives.ite_at (fun _ => ?_)
    fun _ => Lives.ite_at (fun _ => ?_) fun _ => Lives.ite_at (fun _ => ?_) fun _ => Lives.ite_at (fun _ => ?_)
    fun _ => Lives.ite_at (fun _ => ?_) fun _ => Lives.ite_at (fun _ => ?_) fun _ => Lives.ite_at (fun _ => ?_)
    fun _ => .refl s
  · apply hplain
    intro plaintext
    have hpacket : (Event.packet plaintext).isOfLife = false := rfl
    exact Lives.modify fun s => .note hpacket s
  · exact hplain fun plaintext => receiveIdentify_lives env packet plaintext
  · exact receiveRequest_lives env packet s
  · exact receiveResponse_lives env packet s
  · rw [Prog.get_bind_run]
    unfold Prog.when
    split
    · exact rttPacket_lives env packet hopen hstale
    · exact .refl s
  · exact teardownPacket_lives env packet s
  · exact hplain fun plaintext => receiveAdvertisement_lives env plaintext
  · exact hplain fun plaintext => receiveResourceRequest_lives env packet plaintext
  · exact hplain fun plaintext => forIncoming_lives plaintext fun r => hashmapUpdatePacket_lives env r plaintext
  · exact hplain fun plaintext => forIncoming_lives plaintext fun r => cancel_lives env r
  · refine Lives.get_bind (fun e => Lives.when fun _ => ?_) s
    exact Lives.bind (send_lives env _ _ _) fun _ => Lives.pure _
  · exact Lives.get_bind (fun e => Lives.forEach (fun r => receivePart_lives env r packet (rates r)) _) s

theorem receiveProof_lives (packet : Packet) : Prog.Keeps Lives (receiveProof env packet) :=
  Lives.get_bind fun _ => Lives.when fun _ => Lives.forEach (fun r => validateProof_lives env r _) _

/-- Receiving a packet is a stretch of the life: the link wakes up, and the handler of the packet runs. -/
theorem receive_lives (packet : Packet) (receivingInterface : Option Transport.Interface) (rates : Nat → Rates) :
    Prog.Keeps Lives (receive env packet receivingInterface rates) := by
  intro s
  unfold receive
  rw [Prog.get_bind_run]
  unfold Prog.when
  split
  case isFalse => exact .refl s
  case isTrue hreceives =>
    rw [Prog.modify_bind_run]
    generalize ht : s.withLink (fun l => { l with status := if l.status = .stale then .active else l.status }) = t
    have hresume : Lives s t ∧ t.link.status ≠ .closed ∧ t.link.status ≠ .stale := by
      subst ht
      by_cases hstale : s.link.status = .stale
      · refine ⟨.single ?_, by simp [Endpoint.withLink, hstale], by simp [Endpoint.withLink, hstale]⟩
        have hstep := LifeStep.resume s.life hstale
        simpa [Endpoint.life, Endpoint.withLink, hstale] using hstep
      · have hsame : s.withLink (fun l =>
            { l with status := if l.status = .stale then .active else l.status }) = s := by
          simp [Endpoint.withLink, hstale]
        rw [hsame]
        exact ⟨.refl s, hreceives.1, hstale⟩
    refine .trans _ _ _ hresume.1 ?_
    cases packet.packetType with
    | data => exact receiveData_lives env packet rates hresume.2.1 hresume.2.2
    | proof => exact receiveProof_lives env packet t
    | announce => exact .refl t
    | linkrequest => exact .refl t

theorem tickResources_lives (late : Nat → Bool) : Prog.Keeps Lives (tickResources env late) :=
  Lives.get_bind fun _ => Lives.when fun _ => Lives.bind (Lives.forEach (fun r => watchdogJob_lives env r _) _)
    fun _ => Lives.forEach (fun r => watchdogJob_lives env r _) _

/-- Whatever an endpoint handles, the life of its link moves in its steps. -/
theorem handle_lives (input : Input) : Prog.Keeps Lives (handle env input) := by
  cases input with
  | packet packet receivingInterface rates => exact receive_lives env packet receivingInterface rates
  | tick late => exact tickResources_lives env late
  | request path data => exact Lives.bind (request_lives env path data) fun _ => Lives.pure _
  | transfer data requestId isResponse callback =>
    exact Lives.bind (newResource_lives data) fun r => Lives.modify_bind (fun _ => rfl) (start_lives env r)
  | cancel r => exact Lives.get_bind fun _ => Lives.when fun _ => cancel_lives env r
  | rejected r => exact Lives.get_bind fun _ => Lives.when fun _ => rejected_lives r
  | teardown => exact teardown_lives env
  | configure => exact Lives.modify fun _ => rfl

end MicroReticulum.Link
