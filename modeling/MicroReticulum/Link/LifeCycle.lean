import MicroReticulum.Link.Life
import MicroReticulum.Link.Proof
import Mathlib.Data.List.Induction

/-!
# One way through the life cycle

`validateLinkProof` is `Link::validate_proof` on an endpoint: what `validateProof` does to the link, with the
established callback and the exception handler noted among the events (`validateLinkProof_link`). With it and
`handle` a run takes link proofs, packets, local calls and ticks in any order.

`oneWay_iff_orderly` says which runs keep to the life cycle. `teardown` and `rttPacket` do not look at the status
they find, and the handler of `validate_proof` closes the link without its closed callback, so a run is one way
exactly if none of the three happens to it.

The clock of a run is free, so the order of events is proved and no time between them.
-/

namespace MicroReticulum.Link

open MicroReticulum Packet Library Resource
open Relation (ReflTransGen)

/-! ## Link proofs on an endpoint -/

variable (env : Env) (c : Primitives) (established : LinkState → Except String Unit)

/-- Run a program of the link. -/
def onLink {α : Type} (m : Prog String LinkState α) : Prog String Endpoint α :=
  Prog.zoom Endpoint.link (fun l e => e.withLink fun _ => l) m

/-- `validate_proof` behind the signature check. The established callback is the last thing it calls. -/
def establishLink (a : Arrival) (confirmedMtu : UInt16) : Prog String Endpoint Unit := do
  let before ← Prog.get
  onLink (establish c (fun _ => .ok ()) a confirmedMtu)
  Prog.modify (.note (.established before.link.status))
  let e ← Prog.get
  Prog.ofExcept (established e.link)

/-- `validate_proof` from the peer's keys on. -/
def checkLinkProof (a : Arrival) (payload : ProofPayload) : Prog String Endpoint Unit := do
  let e ← Prog.get
  let peerSigPub := e.link.destinationPublicKey.midLen (ecpubsize / 2) (ecpubsize / 2)
  Prog.modify (.withLink (loadPeer (payload.data.midLen siglength (ecpubsize / 2)) peerSigPub))
  onLink (handshake c)
  Prog.modify (.withLink (addCost a.packet))
  let e ← Prog.get
  Prog.when (c.verify peerSigPub (payload.data.left siglength)
      (e.link.linkId.toList ++ e.link.peerPubBytes ++ e.link.peerSigPubBytes ++ payload.signalling))
    (establishLink c established a payload.confirmedMtu)

/-- The body of the `try` block of `Link::validate_proof`. -/
def validateLinkProofBody (a : Arrival) : Prog String Endpoint Unit := do
  let e ← Prog.get
  Prog.when (e.link.status = .pending) do
    Prog.require (modeFromLpPacket a.packet = e.link.mode)
      s!"Invalid link mode {(modeFromLpPacket a.packet).code} in link request proof"
    let payload ← Prog.ofExcept (proofPayload a.packet)
    Prog.when (e.link.initiator ∧ payload.data.length = proofSize) (checkLinkProof c established a payload)

/-- `Link::validate_proof` on an endpoint. -/
def validateLinkProof (a : Arrival) (e : Endpoint) : Endpoint :=
  (Prog.catching (validateLinkProofBody c established a) (fun _ => do
    Prog.modify (.note .proofFailed)
    Prog.modify (.withLink (.setStatus .closed))) e).2

/-- What can happen to an endpoint. -/
inductive LifeInput where
  | handles (input : Input)
  | proof (arrival : Arrival)

/-- The endpoint after one of them. -/
def lifeStep (e : Endpoint) : LifeInput → Endpoint
  | .handles input => step env e input
  | .proof arrival => validateLinkProof c established arrival e

/-- The endpoint after a sequence of them. -/
def lifeRun (e : Endpoint) (inputs : List LifeInput) : Endpoint := inputs.foldl (lifeStep env c established) e

/-! ## The link of the endpoint -/

section Mirrors

variable {α β : Type} {c : Primitives} {established : LinkState → Except String Unit}

/-- The program on the endpoint does to its link what the program on the link does. -/
def Mirrors (m : Prog String Endpoint α) (m' : Prog String LinkState α) : Prop :=
  ∀ e, ((m e).1, (m e).2.link) = m' e.link

/-- A program on the link alone mirrors itself when it is run on the whole endpoint. -/
theorem Mirrors.onLink (m : Prog String LinkState α) : Mirrors (Link.onLink m) m := fun _ => rfl

theorem Mirrors.bind {m : Prog String Endpoint α} {m' : Prog String LinkState α}
    {f : α → Prog String Endpoint β} {f' : α → Prog String LinkState β} (hm : Mirrors m m')
    (hf : ∀ a, Mirrors (f a) (f' a)) : Mirrors (m >>= f) (m' >>= f') := by
  intro e
  rw [Prog.bind_run, Prog.bind_run, ← hm e]
  rcases m e with ⟨a | _ | _ | _, t⟩
  case value => exact hf a t
  all_goals rfl

theorem Mirrors.get_bind {f : Endpoint → Prog String Endpoint β} {f' : LinkState → Prog String LinkState β}
    (hf : ∀ e, Mirrors (f e) (f' e.link)) : Mirrors (Prog.get >>= f) (Prog.get >>= f') :=
  fun e => hf e e

theorem Mirrors.modify {f : Endpoint → Endpoint} {f' : LinkState → LinkState} (hf : ∀ e, (f e).link = f' e.link) :
    Mirrors (Prog.modify f) (Prog.modify f') :=
  fun e => congrArg (Prod.mk (Outcome.value ())) (hf e)

theorem Mirrors.ofExcept (r : Except String α) : Mirrors (Prog.ofExcept r) (Prog.ofExcept r) := by
  intro e
  cases r <;> rfl

theorem Mirrors.require (p : Prop) [Decidable p] (message : String) :
    Mirrors (Prog.require p message) (Prog.require p message) := by
  intro e
  by_cases h : p
  · rw [Prog.require_run_of h, Prog.require_run_of h]
  · rw [Prog.require_run_of_not h, Prog.require_run_of_not h]

theorem Mirrors.when {p : Prop} [Decidable p] {m : Prog String Endpoint Unit} {m' : Prog String LinkState Unit}
    (hm : Mirrors m m') : Mirrors (Prog.when p m) (Prog.when p m') := by
  intro e
  by_cases h : p
  · rw [Prog.when_of h, Prog.when_of h]
    exact hm e
  · rw [Prog.when_of_not h, Prog.when_of_not h]
    rfl

theorem Mirrors.catching {m : Prog String Endpoint α} {m' : Prog String LinkState α}
    {handler : String → Prog String Endpoint α} {handler' : String → Prog String LinkState α} (hm : Mirrors m m')
    (hh : ∀ message, Mirrors (handler message) (handler' message)) :
    Mirrors (Prog.catching m handler) (Prog.catching m' handler') := by
  intro e
  unfold Prog.catching
  rw [← hm e]
  rcases m e with ⟨_ | _ | message | _, t⟩
  case thrown => exact hh message t
  all_goals rfl

/-- The callback is called behind everything else. -/
theorem establish_split (a : Arrival) (confirmedMtu : UInt16) (l : LinkState) :
    establish c established a confirmedMtu l = (establish c (fun _ => .ok ()) a confirmedMtu >>= fun _ =>
      Prog.get >>= fun l => Prog.ofExcept (established l)) l := by
  refine Prog.bind_split_run _ (fun before t => ?_) l
  refine Prog.bind_split_run _ (fun _ t => ?_) t
  refine Prog.bind_split_run _ (fun _ t => ?_) t
  refine Prog.bind_split_run _ (fun _ t => ?_) t
  refine Prog.bind_split_run _ (fun _ t => ?_) t
  refine Prog.bind_split_run _ (fun _ t => ?_) t
  rfl

/-- On the link the establishment does what it does in the model of the link alone. -/
theorem establishLink_mirrors (a : Arrival) (confirmedMtu : UInt16) :
    Mirrors (establishLink c established a confirmedMtu) (establish c established a confirmedMtu) := by
  intro e
  rw [establish_split]
  have hmirrors : Mirrors (establishLink c established a confirmedMtu)
      (Prog.get >>= fun _ => establish c (fun _ => .ok ()) a confirmedMtu >>= fun _ => Prog.modify id >>= fun _ =>
        Prog.get >>= fun l => Prog.ofExcept (established l)) :=
    .get_bind fun _ => .bind (.onLink _) fun _ => .bind (.modify fun _ => rfl) fun _ => .get_bind fun _ =>
      .ofExcept _
  exact hmirrors e

/-- On the link the check of a proof does what it does in the model of the link alone. -/
theorem checkLinkProof_mirrors (a : Arrival) (payload : ProofPayload) :
    Mirrors (checkLinkProof c established a payload) (checkProof c established a payload) :=
  .get_bind fun _ => .bind (.modify fun _ => rfl) fun _ => .bind (.onLink _) fun _ => .bind (.modify fun _ => rfl)
    fun _ => .get_bind fun _ => .when (establishLink_mirrors a _)

/-- On the link the validation of a proof does what it does in the model of the link alone. -/
theorem validateLinkProofBody_mirrors (a : Arrival) :
    Mirrors (validateLinkProofBody c established a) (validateProofBody c established a) :=
  .get_bind fun _ => .when (.bind (.require _ _) fun _ => .bind (.ofExcept _) fun payload =>
    .when (checkLinkProof_mirrors a payload))

/-- The endpoint's link goes through `validateProof`. -/
theorem validateLinkProof_link (a : Arrival) (e : Endpoint) :
    (validateLinkProof c established a e).link = validateProof c established a e.link := by
  have hbody : Mirrors (validateLinkProofBody c established a) (validateProofBody c established a) :=
    validateLinkProofBody_mirrors a
  have hhandler : ∀ _ : String, Mirrors (do
      Prog.modify (.note .proofFailed)
      Prog.modify (.withLink (.setStatus .closed))) (Prog.modify (.setStatus .closed)) := by
    intro _ e
    rfl
  exact congrArg Prod.snd (hbody.catching hhandler e)

end Mirrors

/-! ## The life under a link proof -/

section LinkProof

variable {c : Primitives} {established : LinkState → Except String Unit}

/-- The establishment comes back or throws; it does not wait. -/
theorem establish_answers (a : Arrival) (confirmedMtu : UInt16) :
    Prog.Answers (establish c established a confirmedMtu) := by
  have hactivate : Prog.Answers activateLink :=
    .bind .get fun _ => .when (.bind (.require _ _) fun _ => .modify _)
  have hrtt : Prog.Answers (sendRtt c a) := .bind .get fun _ => .bind (.modify _) fun _ => .bind (.ofExcept _)
    fun _ => .bind (.require _ _) fun _ => .modify _
  exact .bind .get fun _ => .bind (.require _ _) fun _ => .bind (.modify _) fun _ => .bind hactivate fun _ =>
    .bind (.modify _) fun _ => .bind hrtt fun _ => .bind .get fun _ => .ofExcept _

/-- The validation of a proof comes back or throws; it does not wait. -/
theorem validateProofBody_answers (a : Arrival) : Prog.Answers (validateProofBody c established a) :=
  .bind .get fun _ => .when (.bind (.require _ _) fun _ => .bind (.ofExcept _) fun _ => .when (.bind .get fun _ =>
    .bind (.modify _) fun _ => .bind (handshake_answers c) fun _ => .bind (.modify _) fun _ => .bind .get fun _ =>
      .when (establish_answers a _)))

/-- A link that was established is active. -/
theorem establish_active {a : Arrival} {confirmedMtu : UInt16} {l l' : LinkState}
    (h : establish c established a confirmedMtu l = (.value (), l')) : l'.status = .active := by
  have hrefl : ∀ s : LinkState, s.status = .active → s.status = .active := fun _ => id
  have htrans : ∀ s t u : LinkState, (s.status = .active → t.status = .active) →
      (t.status = .active → u.status = .active) → s.status = .active → u.status = .active :=
    fun _ _ _ h h' hs => h' (h hs)
  have hkeeps : Prog.Keeps (fun s t : LinkState => s.status = .active → t.status = .active) (do
      activateLink
      Prog.modify updateEstablishmentRate
      sendRtt c a
      let l ← Prog.get
      Prog.ofExcept (established l) : Prog String LinkState Unit) := by
    refine .bind htrans ?_ fun _ => .bind htrans (.modify fun l hl => ?_) fun _ => .bind htrans ?_ fun _ =>
      .bind htrans (.get hrefl) fun _ => .ofExcept hrefl _
    · exact .bind htrans (.get hrefl) fun _ => .when hrefl fun _ => .bind htrans (.require hrefl _ _) fun _ =>
        .modify fun _ _ => rfl
    · unfold updateEstablishmentRate
      split <;> exact hl
    · exact .bind htrans (.get hrefl) fun _ => .bind htrans (.modify fun _ => id) fun _ =>
        .bind htrans (.ofExcept hrefl _) fun _ => .bind htrans (.require hrefl _ _) fun _ => .modify fun _ => id
  unfold establish at h
  rw [Prog.get_bind_run] at h
  obtain ⟨-, t, hrequired, hrest⟩ := Prog.exists_of_bind_value h
  rw [Prog.modify_bind_run] at hrest
  exact hkeeps.of_value hrest rfl

/-- What the `try` block of `validate_proof` does to a life: it moves in its steps, and where an exception comes
out of it, the link that is closed for it had not been closed. -/
def TriesProof (before : Life) (o : Outcome String Unit) (t : Endpoint) : Prop :=
  match o with
  | .thrown _ => ∃ l, ReflTransGen LifeStep before l ∧ l.status ≠ .closed ∧ t.life.fail = l.fail
  | _ => ReflTransGen LifeStep before t.life

/-- A try that starts after some steps of the life is a try that starts before them. -/
theorem TriesProof.after {before mid : Life} (h : ReflTransGen LifeStep before mid) {o : Outcome String Unit}
    {t : Endpoint} (ht : TriesProof mid o t) : TriesProof before o t := by
  cases o with
  | thrown message =>
    obtain ⟨l, hsteps, hopen, hfail⟩ := ht
    exact ⟨l, h.trans hsteps, hopen, hfail⟩
  | value a => exact h.trans ht
  | returned => exact h.trans ht
  | waits => exact h.trans ht

/-- A link in the handshake is established, or fails in the attempt; there is nothing in between. -/
theorem establishLink_tries {s : Endpoint} (hstatus : s.link.status = .handshake) (a : Arrival)
    (confirmedMtu : UInt16) : (establishLink c established a confirmedMtu).Ends s (TriesProof s.life) := by
  unfold Prog.Ends establishLink
  rw [Prog.get_bind_run, hstatus]
  rcases hrun : establish c (fun _ => .ok ()) a confirmedMtu s.link with ⟨_ | _ | message | _, l⟩
  case value =>
    have honLink : onLink (establish c (fun _ => .ok ()) a confirmedMtu) s = (.value (), s.withLink fun _ => l) := by
      unfold onLink Prog.zoom
      rw [hrun]
    have hactive : l.status = .active := establish_active hrun
    rw [Prog.bind_value honLink, Prog.modify_bind_run, Prog.get_bind_run]
    generalize ht : (s.withLink fun _ => l).note (.established .handshake) = t
    have hstep : LifeStep s.life t.life := by
      have hstep := LifeStep.establish s.life (.inr hstatus)
      subst ht
      simpa [Endpoint.life, Endpoint.withLink, Endpoint.note, Event.isFirst, Event.isAgain, Event.isTornDown,
        Event.isTornAgain, Event.isProofFailed, Event.isClosed, hactive] using hstep
    cases established t.link with
    | ok u => exact .single hstep
    | error message =>
      refine ⟨t.life, .single hstep, ?_, rfl⟩
      subst ht
      show l.status ≠ .closed
      rw [hactive]
      exact Status.noConfusion
  case thrown =>
    have honLink : onLink (establish c (fun _ => .ok ()) a confirmedMtu) s
        = (.thrown message, s.withLink fun _ => l) := by
      unfold onLink Prog.zoom
      rw [hrun]
    rw [Prog.bind_thrown honLink]
    exact ⟨s.life, .refl, by rw [show s.life.status = _ from hstatus]; exact Status.noConfusion, rfl⟩
  all_goals
    have hanswers : Prog.Answers (establish c (fun _ => .ok ()) a confirmedMtu) := establish_answers a confirmedMtu
    simpa [hrun] using hanswers s.link

/-- A pending link checks the proof and is established, or stays what it is, or fails. -/
theorem checkLinkProof_tries {s : Endpoint} (hstatus : s.link.status = .pending) (a : Arrival)
    (payload : ProofPayload) : (checkLinkProof c established a payload).Ends s (TriesProof s.life) := by
  unfold Prog.Ends checkLinkProof
  rw [Prog.get_bind_run, Prog.modify_bind_run]
  generalize ht : s.withLink (loadPeer _ _) = t
  have hpending : t.link.status = .pending := by
    subst ht
    exact hstatus
  have hcalm : t.life = s.life := by
    subst ht
    rfl
  have hhandshake : (handshake c t.link).2.status = .handshake := handshake_status hpending
  rcases hrun : handshake c t.link with ⟨_ | _ | message | _, l⟩ <;> rw [hrun] at hhandshake
  case value =>
    have honLink : onLink (handshake c) t = (.value (), t.withLink fun _ => l) := by
      unfold onLink Prog.zoom
      rw [hrun]
    rw [Prog.bind_value honLink, Prog.modify_bind_run, Prog.get_bind_run]
    generalize hu : (t.withLink fun _ => l).withLink (addCost a.packet) = u
    have hstatus' : u.link.status = .handshake := by
      subst hu
      exact hhandshake
    have hstep : LifeStep s.life u.life := by
      have hstep := LifeStep.handshake s.life hstatus
      have hlife : u.life = { t.life with status := .handshake } := by
        subst hu
        exact congrArg (fun status => ({ t.life with status } : Life)) hhandshake
      rw [hlife, hcalm]
      exact hstep
    refine TriesProof.after (.single hstep) ?_
    unfold Prog.when
    split
    · exact establishLink_tries hstatus' a _
    · exact .refl
  case thrown =>
    have honLink : onLink (handshake c) t = (.thrown message, t.withLink fun _ => l) := by
      unfold onLink Prog.zoom
      rw [hrun]
    rw [Prog.bind_thrown honLink]
    refine ⟨s.life, .refl, ?_, ?_⟩
    · rw [show s.life.status = _ from hstatus]
      exact Status.noConfusion
    · rw [← hcalm]
      rfl
  all_goals simpa [hrun] using handshake_answers c t.link

/-- The validation of a proof is one try, in whatever state it finds the link. -/
theorem validateLinkProofBody_tries (a : Arrival) (s : Endpoint) :
    (validateLinkProofBody c established a).Ends s (TriesProof s.life) := by
  unfold Prog.Ends validateLinkProofBody
  rw [Prog.get_bind_run]
  by_cases hstatus : s.link.status = .pending
  case neg =>
    rw [Prog.when_of_not hstatus]
    exact .refl
  case pos =>
    have hthrown : ∀ message, TriesProof s.life (.thrown message) s := fun _ =>
      ⟨s.life, .refl, by rw [show s.life.status = _ from hstatus]; exact Status.noConfusion, rfl⟩
    rw [Prog.when_of hstatus]
    by_cases hmode : modeFromLpPacket a.packet = s.link.mode
    case neg =>
      rw [Prog.bind_thrown (Prog.require_run_of_not hmode _ s)]
      exact hthrown _
    case pos =>
      rw [Prog.bind_value (Prog.require_run_of hmode _ s)]
      cases hpayload : proofPayload a.packet with
      | error message => exact hthrown message
      | ok payload =>
        rw [Prog.bind_value (Prog.ofExcept_ok_run payload s)]
        unfold Prog.when
        split
        · exact checkLinkProof_tries hstatus a payload
        · exact .refl

/-- A link proof moves the life of its link, or makes it fail. -/
theorem validateLinkProof_moves (a : Arrival) (e : Endpoint) :
    LifeMove e.life (validateLinkProof c established a e).life := by
  have htries : (validateLinkProofBody c established a).Ends e (TriesProof e.life) := validateLinkProofBody_tries a e
  unfold Prog.Ends at htries
  unfold validateLinkProof Prog.catching
  rcases hrun : validateLinkProofBody c established a e with ⟨_ | _ | message | _, t⟩ <;> rw [hrun] at htries
  case thrown =>
    obtain ⟨l, hsteps, hopen, hfail⟩ := htries
    have hlife : ((t.note .proofFailed).withLink (.setStatus .closed)).life = l.fail := by
      rw [← hfail]
      simp [Endpoint.life, Endpoint.withLink, Endpoint.note, LinkState.setStatus, Life.fail, Event.isFirst,
        Event.isAgain, Event.isTornDown, Event.isTornAgain, Event.isProofFailed, Event.isClosed]
    show LifeMove e.life ((t.note .proofFailed).withLink (.setStatus .closed)).life
    rw [hlife]
    exact .fails hsteps hopen
  all_goals exact .steps htries

end LinkProof

/-! ## Runs -/

variable {env c established}

/-- Every input moves the life of the link on: a stretch of steps, or a failed setup. -/
theorem lifeStep_moves (e : Endpoint) (input : LifeInput) :
    LifeMove e.life (lifeStep env c established e input).life := by
  cases input with
  | handles input => exact .steps (handle_lives env input e)
  | proof arrival => exact validateLinkProof_moves arrival e

/-- A run over one more input is the run and the step of that input. -/
theorem lifeRun_concat (e : Endpoint) (inputs : List LifeInput) (input : LifeInput) :
    lifeRun env c established e (inputs ++ [input])
      = lifeStep env c established (lifeRun env c established e inputs) input := by
  unfold lifeRun
  rw [List.foldl_append]
  rfl

/-- A link proof changes the link of its endpoint and notes events, and that is all. -/
structure OnlyLink (s t : Endpoint) : Prop where
  same : ∃ link events, t = { s with link, events }

theorem OnlyLink.refl (s : Endpoint) : OnlyLink s s := ⟨s.link, s.events, rfl⟩

theorem OnlyLink.trans (s t u : Endpoint) (h : OnlyLink s t) (h' : OnlyLink t u) : OnlyLink s u := by
  obtain ⟨link, events, rfl⟩ := h.same
  obtain ⟨link', events', rfl⟩ := h'.same
  exact ⟨link', events', rfl⟩

/-- A program on the link alone leaves everything else of the endpoint as it was. -/
theorem onLink_only {α : Type} (m : Prog String LinkState α) : Prog.Keeps OnlyLink (onLink m) :=
  fun s => ⟨(m s.link).2, s.events, rfl⟩

/-- The validation of a proof changes the link and notes events, and nothing else. -/
theorem validateLinkProof_only (a : Arrival) (e : Endpoint) : OnlyLink e (validateLinkProof c established a e) := by
  have hestablish : ∀ mtu, Prog.Keeps OnlyLink (establishLink c established a mtu) := fun mtu =>
    .bind OnlyLink.trans (.get OnlyLink.refl) fun _ => .bind OnlyLink.trans (onLink_only _) fun _ =>
      .bind OnlyLink.trans (.modify fun s => ⟨s.link, _, rfl⟩) fun _ =>
        .bind OnlyLink.trans (.get OnlyLink.refl) fun _ => .ofExcept OnlyLink.refl _
  have hcheck : ∀ payload, Prog.Keeps OnlyLink (checkLinkProof c established a payload) := fun payload =>
    .bind OnlyLink.trans (.get OnlyLink.refl) fun _ =>
      .bind OnlyLink.trans (.modify fun s => ⟨_, s.events, rfl⟩) fun _ =>
        .bind OnlyLink.trans (onLink_only _) fun _ =>
          .bind OnlyLink.trans (.modify fun s => ⟨_, s.events, rfl⟩) fun _ =>
            .bind OnlyLink.trans (.get OnlyLink.refl) fun _ => .when OnlyLink.refl fun _ => hestablish _
  have hbody : Prog.Keeps OnlyLink (validateLinkProofBody c established a) :=
    .bind OnlyLink.trans (.get OnlyLink.refl) fun _ => .when OnlyLink.refl fun _ =>
      .bind OnlyLink.trans (.require OnlyLink.refl _ _) fun _ =>
        .bind OnlyLink.trans (.ofExcept OnlyLink.refl _) fun _ => .when OnlyLink.refl fun _ => hcheck _
  have hall : Prog.Keeps OnlyLink (Prog.catching (validateLinkProofBody c established a) fun _ => do
      Prog.modify (.note .proofFailed)
      Prog.modify (.withLink (.setStatus .closed))) :=
    .catching OnlyLink.trans hbody fun _ => .bind OnlyLink.trans (.modify fun s => ⟨s.link, _, rfl⟩) fun _ =>
      .modify fun s => ⟨_, s.events, rfl⟩
  exact hall e

theorem OnlyLink.clean {s t : Endpoint} (h : OnlyLink s t) (hs : s.Clean) : t.Clean := by
  obtain ⟨link, events, rfl⟩ := h.same
  exact ⟨hs.nodup, hs.incoming, hs.outgoing, hs.parts⟩

/-- What the writes of every input and every link proof keep, a run keeps. -/
theorem lifeRun_invariant {P : Endpoint → Prop} {e : Endpoint}
    (hwrite : ∀ scope t u, Write env scope t u → P t → P u)
    (hproof : ∀ a t, P t → P (validateLinkProof c established a t)) (hclean : e.Clean) (he : P e)
    (inputs : List LifeInput) :
    P (lifeRun env c established e inputs) ∧ (lifeRun env c established e inputs).Clean := by
  induction inputs using List.reverseRecOn with
  | nil => exact ⟨he, hclean⟩
  | append_singleton inputs input ih =>
    obtain ⟨hP, hc⟩ := ih
    rw [lifeRun_concat]
    cases input with
    | handles input =>
      obtain ⟨hwrites, hend⟩ := handle_writes env input hc
      exact ⟨Writes.invariant (hwrite _) hwrites hP, hend⟩
    | proof a => exact ⟨hproof a _ hP, (validateLinkProof_only a _).clean hc⟩

theorem lifeRun_clean {e : Endpoint} (hclean : e.Clean) (inputs : List LifeInput) :
    (lifeRun env c established e inputs).Clean :=
  (lifeRun_invariant (P := fun _ => True) (fun _ _ _ _ _ => trivial) (fun _ _ _ => trivial) hclean trivial inputs).2

/-- From an earlier point of a run to a later one the life of the link moves on. -/
theorem lifeRun_moves (e : Endpoint) {earlier later : List LifeInput} (h : earlier <+: later) :
    ReflTransGen LifeMove (lifeRun env c established e earlier).life (lifeRun env c established e later).life := by
  obtain ⟨rest, rfl⟩ := h
  induction rest using List.reverseRecOn with
  | nil =>
    rw [List.append_nil]
  | append_singleton rest input ih =>
    rw [← List.append_assoc, lifeRun_concat]
    exact ih.tail (lifeStep_moves _ input)

section Moves

variable {l l' : Life}

/-- Soundness is kept over any number of moves, by induction on the moves. -/
theorem Life.Sound.moves (hl : l.Sound) (h : ReflTransGen LifeMove l l') : l'.Sound := by
  induction h with
  | refl => exact hl
  | tail _ hmove ih => exact hmove.sound ih

/-- No run leads back to a status of a lower rank. -/
theorem rank_le_of_moves (h : ReflTransGen LifeMove l l') : l.status.rank ≤ l'.status.rank := by
  induction h with
  | refl => exact Nat.le_refl _
  | tail _ hmove ih => exact Nat.le_trans ih hmove.rank_le

/-- Over a run every count of a life only grows. -/
theorem counts_le_of_moves (h : ReflTransGen LifeMove l l') :
    l.again ≤ l'.again ∧ l.tornAgain ≤ l'.tornAgain ∧ l.failed ≤ l'.failed := by
  induction h with
  | refl => simp
  | tail _ hmove ih =>
    obtain ⟨hagain, htorn, hfailed⟩ := hmove.counts_le
    omega

/-- A closed link that is not torn down again stays as it is. -/
theorem eq_of_moves (h : ReflTransGen LifeMove l l') (hclosed : l.status = .closed)
    (hagain : l'.tornAgain = l.tornAgain) : l' = l := by
  induction h with
  | refl => rfl
  | @tail mid last hmoves hmove ih =>
    obtain ⟨-, hle, -⟩ := counts_le_of_moves hmoves
    obtain ⟨-, hle', -⟩ := hmove.counts_le
    obtain rfl := ih (by omega)
    exact hmove.eq_of_closed hclosed hagain

end Moves

/-! ## One way -/

/-- The established callback ran. -/
def Event.isEstablished : Event → Bool
  | .established _ => true
  | _ => false

variable (env c established) in
/-- Along a run the status only moves forward, the established callback runs at most once, the closed callback has
run once where the link is closed and not at all before, and a closed link keeps its teardown reason. -/
structure OneWay (e : Endpoint) (inputs : List LifeInput) : Prop where
  forward : ∀ earlier later, earlier <+: later → later <+: inputs →
    (lifeRun env c established e earlier).link.status.rank ≤ (lifeRun env c established e later).link.status.rank
  establishedOnce : ∀ reached, reached <+: inputs →
    (lifeRun env c established e reached).events.countP Event.isEstablished ≤ 1
  closedOnce : ∀ reached, reached <+: inputs → (lifeRun env c established e reached).events.countP Event.isClosed
    = if (lifeRun env c established e reached).link.status = .closed then 1 else 0
  reason : ∀ earlier later, earlier <+: later → later <+: inputs →
    (lifeRun env c established e earlier).link.status = .closed →
      (lifeRun env c established e later).teardownReason = (lifeRun env c established e earlier).teardownReason

/-- What holds of a whole run holds of the beginning of it. -/
theorem OneWay.earlier {e : Endpoint} {reached inputs : List LifeInput}
    (h : OneWay env c established e inputs) (hreached : reached <+: inputs) : OneWay env c established e reached where
  forward earlier later hle hlater := h.forward earlier later hle (hlater.trans hreached)
  establishedOnce mid hmid := h.establishedOnce mid (hmid.trans hreached)
  closedOnce mid hmid := h.closedOnce mid (hmid.trans hreached)
  reason earlier later hle hlater := h.reason earlier later hle (hlater.trans hreached)

/-- A closed link is not torn down, an active link is not established, and no exception comes out of the `try`
block of `validate_proof`. -/
def Event.Orderly : Event → Prop
  | .established before => before ≠ .active
  | .tornDown before => before ≠ .closed
  | .proofFailed => False
  | _ => True

/-- The events of a link are in order exactly if nothing was counted as happening again or as failed. -/
theorem orderly_iff (e : Endpoint) :
    (∀ event ∈ e.events, event.Orderly) ↔ e.life.again = 0 ∧ e.life.tornAgain = 0 ∧ e.life.failed = 0 := by
  have hcount : ∀ p : Event → Bool, e.events.countP p = 0 ↔ ∀ event ∈ e.events, p event = false := by
    intro p
    simp [List.countP_eq_zero]
  have hevent : ∀ event : Event, event.Orderly
      ↔ event.isAgain = false ∧ event.isTornAgain = false ∧ event.isProofFailed = false := by
    intro event
    cases event <;> simp [Event.Orderly, Event.isAgain, Event.isTornAgain, Event.isProofFailed]
  show _ ↔ e.events.countP _ = 0 ∧ e.events.countP _ = 0 ∧ e.events.countP _ = 0
  rw [hcount, hcount, hcount, ← forall₂_and, ← forall₂_and]
  exact forall₂_congr fun event _ => hevent event

/-- The events of establishment are the first one and the repeated ones. -/
theorem count_established (e : Endpoint) :
    e.events.countP Event.isEstablished = e.life.established + e.life.again := by
  show _ = e.events.countP _ + e.events.countP _
  induction e.events with
  | nil => rfl
  | cons event events ih =>
    rw [List.countP_cons, List.countP_cons, List.countP_cons, ih]
    cases event <;> simp [Event.isEstablished, Event.isFirst, Event.isAgain]
    split <;> omega

/-- On a run that is one way no proof fails. -/
theorem OneWay.failed {e : Endpoint} (hsound : e.life.Sound) (hfailed : e.life.failed = 0)
    {inputs : List LifeInput} (h : OneWay env c established e inputs) :
    (lifeRun env c established e inputs).life.failed = 0 := by
  induction inputs using List.reverseRecOn with
  | nil => exact hfailed
  | append_singleton inputs input ih =>
    have hbefore := ih (h.earlier (List.prefix_append _ _))
    have hmove : LifeMove (lifeRun env c established e inputs).life
        (lifeRun env c established e (inputs ++ [input])).life := by
      rw [lifeRun_concat]
      exact lifeStep_moves _ input
    by_contra hne
    have hsound' : (lifeRun env c established e inputs).life.Sound :=
      hsound.moves (lifeRun_moves e (List.nil_prefix (l := inputs)))
    obtain ⟨hclosed, hcount⟩ := hmove.failed hsound' (by omega)
    have honce := h.closedOnce _ (List.prefix_refl _)
    rw [if_pos (show (lifeRun env c established e (inputs ++ [input])).link.status = .closed from hclosed)] at honce
    exact absurd (honce.symm.trans hcount) (by decide)

/-- For every new link and every sequence of link proofs, packets, ticks and calls of the application: the run is
one way through the life cycle exactly if it never tears a closed link down, never takes a round trip time on an
active link, and no exception comes out of a link proof. -/
theorem oneWay_iff_orderly (env : Env) (c : Primitives) (established : LinkState → Except String Unit) (e : Endpoint)
    (hstatus : e.link.status = .pending ∨ e.link.status = .handshake) (hevents : e.events = [])
    (inputs : List LifeInput) :
    OneWay env c established e inputs
      ↔ ∀ event ∈ (lifeRun env c established e inputs).events, event.Orderly := by
  have hsound : e.life.Sound := by
    have hopen : e.link.status ≠ .closed ∧ e.link.status.rank ≠ Status.active.rank := by
      obtain h | h := hstatus <;> rw [h] <;> decide
    constructor <;> simp [Endpoint.life, hevents, hopen]
  have hruns : ∀ reached, (lifeRun env c established e reached).life.Sound := fun reached =>
    hsound.moves (lifeRun_moves e (List.nil_prefix (l := reached)))
  rw [orderly_iff]
  constructor
  · intro h
    obtain ⟨hclosed, hended, htorn, hestablished, -⟩ := hruns inputs
    have hnone := h.failed hsound (by simp [Endpoint.life, hevents])
    have honce := h.establishedOnce inputs (List.prefix_refl _)
    have hend := h.closedOnce inputs (List.prefix_refl _)
    rw [count_established] at honce
    change (lifeRun env c established e inputs).life.closed = if (lifeRun env c established e inputs).life.status = _
      then 1 else 0 at hend
    refine ⟨by omega, by omega, hnone⟩
  · rintro ⟨hagain, htorn, hfailed⟩
    have hquiet : ∀ reached, reached <+: inputs → (lifeRun env c established e reached).life.again = 0
        ∧ (lifeRun env c established e reached).life.tornAgain = 0
        ∧ (lifeRun env c established e reached).life.failed = 0 := by
      intro reached hreached
      have hmoves : ReflTransGen LifeMove (lifeRun env c established e reached).life
          (lifeRun env c established e inputs).life := lifeRun_moves e hreached
      have hle := counts_le_of_moves hmoves
      omega
    refine ⟨fun earlier later hle _ => rank_le_of_moves (lifeRun_moves e hle), fun reached hreached => ?_,
      fun reached hreached => ?_, fun earlier later hle hlater hclosed => ?_⟩
    · obtain ⟨hnone, -, -⟩ := hquiet reached hreached
      have hestablished := (hruns reached).established
      rw [count_established]
      omega
    · obtain ⟨-, hnever, hnone⟩ := hquiet reached hreached
      have hclosed := (hruns reached).closed
      have hended := (hruns reached).ended
      show (lifeRun env c established e reached).life.closed = if (lifeRun env c established e reached).life.status = _
        then 1 else 0
      omega
    · obtain ⟨-, hnever, -⟩ := hquiet later hlater
      obtain ⟨-, hnever', -⟩ := hquiet earlier (hle.trans hlater)
      exact congrArg Life.reason (eq_of_moves (lifeRun_moves e hle) hclosed (hnever.trans hnever'.symm))

/-- The endpoint of a link whose request has just been sent. -/
def Sample.newlyRequested : Endpoint where
  link := sampleInitiator

/-- A link that is torn down once ends its life as it should. -/
theorem oneWay_torn_down : OneWay (Sample.plainEnv tailHash) samplePrimitives (fun _ => .ok ()) Sample.newlyRequested
    [.handles .teardown] := by
  refine (oneWay_iff_orderly _ _ _ _ (.inl rfl) rfl _).mpr fun event hevent => ?_
  have hevents : (lifeRun (Sample.plainEnv tailHash) samplePrimitives (fun _ => .ok ()) Sample.newlyRequested
      [.handles .teardown]).events = [.tornDown .pending, .closed] := rfl
  rw [hevents] at hevent
  obtain rfl | rfl : event = .tornDown .pending ∨ event = .closed := by simpa using hevent
  · exact Status.noConfusion
  · exact trivial

/-- A link proof of another mode closes the link, and the closed callback does not run. -/
theorem not_oneWay_other_mode : ¬ OneWay (Sample.plainEnv tailHash) samplePrimitives (fun _ => .ok ())
    Sample.newlyRequested [.proof (sampleArrival (List.replicate 99 0))] := by
  intro h
  exact absurd (h.closedOnce _ (List.prefix_refl _)) (by decide)

end MicroReticulum.Link
