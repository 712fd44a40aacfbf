import MicroReticulum.Library.Stays
import MicroReticulum.Link.Writes

/-!
# The writes of every function

`Moves` says of a run of a program that it makes no other writes than those of `Write`, within its scope, and
that the sets of the link are in step with the resources again at its end. There is one lemma for each function
of the preceding modules, and `handle_moves` for an input.

What only draws, sends and notes is `Quiet`, and needs no scope. Cancelling, assembling and validating a
resource leave the link unclean between their writes, so they have a proof of their own.
-/

namespace MicroReticulum.Link

open MicroReticulum Packet Library Resource Cryptography
open MicroReticulum.Transport (reticulumMdu)
open Relation (ReflTransGen)
open MicroReticulum.Library.Prog (Stays)

variable {env : Env} {scope : Scope} {α β : Type} {s t u : Endpoint}

/-! ## Quiet programs -/

/-- Nothing but a token, draws and notes is new. -/
structure Quiet (env : Env) (s t : Endpoint) : Prop where
  writes : ∀ scope, ReflTransGen (Gentle env scope) s t
  same : ∃ token draws new,
    t = { s with link := { s.link with token }, draws, events := s.events ++ new }

theorem Quiet.refl (s : Endpoint) : Quiet env s s :=
  ⟨fun _ => .refl, s.link.token, s.draws, [], by rw [List.append_nil]⟩

theorem Quiet.trans (h : Quiet env s t) (h' : Quiet env t u) : Quiet env s u := by
  refine ⟨fun scope => (h.writes scope).trans (h'.writes scope), ?_⟩
  obtain ⟨_, _, new, rfl⟩ := h.same
  obtain ⟨token, draws, new', rfl⟩ := h'.same
  exact ⟨token, draws, new ++ new', by simp only [List.append_assoc]⟩

theorem Quiet.draw (s : Endpoint) : Quiet env s { s with draws := s.draws + 1 } :=
  ⟨fun _ => .single (.draw s), s.link.token, s.draws + 1, [], by rw [List.append_nil]⟩

theorem Quiet.token (s : Endpoint) {token : Option Token} (htoken : s.link.LeavesToken token) :
    Quiet env s (s.withLink fun l => { l with token }) :=
  ⟨fun _ => .single (.token s token htoken), token, s.draws, [], by
    simp only [Endpoint.withLink, List.append_nil]⟩

/-- A packet that proves nothing can be sent quietly. -/
theorem Quiet.sent (s : Endpoint) {p : Packet} (hp : NoProof p) : Quiet env s (s.note (.sent p)) :=
  ⟨fun _ => .single (.sent s hp), s.link.token, s.draws, [.sent p], rfl⟩

theorem Gentle.writes (h : ReflTransGen (Gentle env scope) s t) : Writes env scope s t :=
  ReflTransGen.mono (fun _ _ => Write.gentle) _ _ h

theorem Quiet.scoped (h : Quiet env s t) : Writes env scope s t := Gentle.writes (h.writes scope)

theorem Quiet.clean (h : Quiet env s t) (hc : s.Clean) : t.Clean := by
  obtain ⟨_, _, _, rfl⟩ := h.same
  exact ⟨hc.nodup, hc.incoming, hc.outgoing, hc.parts⟩

/-! ## Sending -/

/-- What `send` does: it throws and leaves a token behind at most, or it makes a packet and offers it to the interfaces. -/
theorem send_cases (env : Env) (packetType : PacketType) (context : ContextType) (data : Bytes) (s : Endpoint) :
    (∃ e token, s.link.LeavesToken token
      ∧ send env packetType context data s = (.thrown e, s.withLink fun l => { l with token }))
    ∨ ∃ p token, packFor env s packetType context data = .ok p ∧ s.link.status ≠ .closed
      ∧ s.link.LeavesToken token
      ∧ send env packetType context data s = (.value p,
        { s with
          link := { s.link with token }
          draws := s.draws + 2
          events := s.events ++ if env.transmits (s.draws + 1) then [.sent p] else [] }) := by
  unfold send
  rw [Prog.get_bind_run]
  by_cases hclosed : s.link.status ≠ .closed
  case neg =>
    exact .inl ⟨_, s.link.token, .inl rfl, Prog.bind_thrown (Prog.require_run_of_not hclosed _ _)⟩
  rw [Prog.bind_value (Prog.require_run_of hclosed _ _), Prog.modify_bind_run]
  obtain ⟨token, htoken, hkept⟩ : ∃ token, s.link.LeavesToken token
      ∧ (s.withLink fun l => if plaintextOnWire (linkSpec l packetType context data) then l else l.keepToken)
        = s.withLink fun l => { l with token } := by
    unfold Endpoint.withLink
    dsimp only
    split
    · exact ⟨s.link.token, .inl rfl, rfl⟩
    · exact ⟨s.link.getToken.toOption, .inr rfl, rfl⟩
  rw [hkept]
  cases hp : packFor env s packetType context data with
  | error e => exact .inl ⟨e, token, htoken, rfl⟩
  | ok p =>
    rw [Prog.bind_value (Prog.ofExcept_ok_run _ _), Prog.modify_bind_run]
    refine .inr ⟨p, token, rfl, hclosed, htoken, ?_⟩
    unfold outbound
    by_cases htaken : env.transmits (s.draws + 1) = true <;>
      simp [Prog.bind_run, Prog.when, Endpoint.note, Endpoint.withLink, htaken]

/-- What is read of a packet that `send` makes. -/
theorem packFor_reads {packetType : PacketType} {context : ContextType} {data : Bytes} {p : Packet}
    (h : packFor env s packetType context data = .ok p) :
    ∃ q, unpack p.raw = some q ∧ q.packetType = packetType ∧ q.context = context
      ∧ (plaintextOnWire (linkSpec s.link packetType context (data.left reticulumMdu)) = true →
        q.data = data.left reticulumMdu) := by
  obtain ⟨c, q, hcarries, hunpack, htype, hcontext, hdata⟩ := unpack_pack h rfl rfl
  exact ⟨q, hunpack, htype, hcontext, fun hplain => hdata.trans (hcarries.1 (.inr hplain))⟩

/-- What is packed proves nothing, unless type and context say it does. -/
theorem packFor_noProof {packetType : PacketType} {context : ContextType} {data : Bytes} {p : Packet}
    (h : packFor env s packetType context data = .ok p)
    (hno : packetType ≠ .proof ∨ context ≠ ContextType.resourcePrf) : NoProof p := by
  obtain ⟨q, hunpack, htype, hcontext, -⟩ := packFor_reads h
  rintro q' hq' ⟨hproof, hprf⟩
  cases hunpack.symm.trans hq'
  obtain hno | hno := hno
  · exact hno (htype.symm.trans hproof)
  · exact hno (hcontext.symm.trans hprf)

/-- The writes of a packet that was made. -/
theorem Quiet.send (s : Endpoint) {token : Option Token} (htoken : s.link.LeavesToken token) {p : Packet}
    (hp : NoProof p) (taken : Bool) :
    Quiet env s
      { s with
        link := { s.link with token }
        draws := s.draws + 2
        events := s.events ++ if taken then [.sent p] else [] } := by
  have hkept : Quiet env s (s.withLink fun l => { l with token }) := .token s htoken
  have htwo := (hkept.trans (.draw _)).trans (.draw _)
  cases taken with
  | false => simpa [Endpoint.withLink] using htwo
  | true => exact htwo.trans (.sent _ hp)

theorem send_quiet {packetType : PacketType} {context : ContextType} {data : Bytes}
    (hno : packetType ≠ .proof ∨ context ≠ ContextType.resourcePrf) :
    Prog.Keeps (Quiet env) (send env packetType context data) := by
  intro s
  obtain ⟨e, token, htoken, hrun⟩ | ⟨p, token, hp, -, htoken, hrun⟩ := send_cases env packetType context data s
  · rw [hrun]
    exact .token s htoken
  · rw [hrun]
    exact Quiet.send s htoken (packFor_noProof hp hno) _

/-- A packet that was encrypted was encrypted under the token of its link. -/
theorem send_asks {context : ContextType} {data : Bytes} {p : Packet}
    (hplain : ∀ l, plaintextOnWire (linkSpec l .data context data) = false)
    (h : send env .data context data s = (.value p, t)) : t.link.Asked := by
  unfold send at h
  rw [Prog.get_bind_run] at h
  obtain ⟨-, h⟩ := Prog.of_require_value h
  rw [Prog.modify_bind_run] at h
  obtain ⟨p', -, h⟩ := Prog.of_ofExcept_value h
  rw [Prog.modify_bind_run] at h
  obtain ⟨taken, u, hout, h⟩ := Prog.exists_of_bind_value h
  cases h
  have hsame : ∀ e, (outbound env p e).2.link = e.link := by
    intro e
    unfold outbound
    rw [Prog.get_bind_run, Prog.modify_bind_run]
    by_cases htaken : env.transmits e.draws = true
    · rw [Prog.when_of htaken]
      rfl
    · rw [Prog.when_of_not htaken]
      rfl
  have hkept : t.link = s.link.keepToken := by
    refine (congrArg (fun run => run.2.link) hout).symm.trans ((hsame _).trans ?_)
    simp only [Endpoint.withLink, hplain, Bool.false_eq_true, if_false]
  rw [hkept]
  exact s.link.keepToken_asked

/-- A `trySend` comes back, whatever happened. -/
theorem trySend_run (env : Env) (context : ContextType) (data : Bytes) (s : Endpoint) :
    ∃ t, Quiet env s t ∧ trySend env .data context data s = (.value (), t) := by
  unfold trySend Prog.catching
  have hquiet : Quiet env s (send env .data context data s).2 := send_quiet (.inl PacketType.noConfusion) s
  obtain ⟨e, token, htoken, hrun⟩ | ⟨p, token, -, -, -, hrun⟩ := send_cases env .data context data s
  · rw [Prog.bind_thrown hrun]
    exact ⟨_, .token s htoken, rfl⟩
  · rw [hrun] at hquiet
    rw [Prog.bind_value hrun]
    exact ⟨_, hquiet, rfl⟩

/-- A data packet is sent quietly, also where the sending throws and the exception is dropped. -/
theorem trySend_quiet (context : ContextType) (data : Bytes) :
    Prog.Keeps (Quiet env) (trySend env .data context data) := by
  intro s
  obtain ⟨t, hquiet, hrun⟩ := trySend_run env context data s
  rw [hrun]
  exact hquiet

theorem outbound_quiet {p : Packet} (hp : NoProof p) : Prog.Keeps (Quiet env) (outbound env p) :=
  .bind (fun _ _ _ => .trans) (.get .refl) fun _ =>
    .bind (fun _ _ _ => .trans) (.modify .draw) fun _ =>
      .bind (fun _ _ _ => .trans) (.when .refl fun _ => .modify fun s => .sent s hp) fun _ => .pure .refl _

/-- A token that can be fetched is the one the link is left with. -/
theorem leavesToken_of_ok {l : LinkState} {token : Token} (h : l.getToken = .ok token) :
    l.LeavesToken (some token) := .inr (by rw [h]; rfl)

theorem encrypt_quiet (plaintext : Bytes) : Prog.Keeps (Quiet env) (encrypt env plaintext) := by
  intro s
  unfold encrypt
  rw [Prog.get_bind_run]
  cases hkey : s.link.getToken with
  | error e =>
    rw [Prog.bind_thrown (Prog.ofExcept_error_run e s)]
    exact .refl s
  | ok token =>
    rw [Prog.bind_value (Prog.ofExcept_ok_run token s)]
    exact (Quiet.token s (leavesToken_of_ok hkey)).trans (.draw _)

theorem decrypt_quiet (ciphertext : Bytes) : Prog.Keeps (Quiet env) (decrypt env ciphertext) := by
  intro s
  unfold decrypt
  rw [Prog.get_bind_run]
  cases hkey : s.link.getToken with
  | error e => exact .refl s
  | ok token => exact .token s (leavesToken_of_ok hkey)

/-- Behind a decryption the link has been asked for its token, whether it could make one or not. -/
theorem decrypt_asks (env : Env) (ciphertext : Bytes) (s : Endpoint) : (decrypt env ciphertext s).2.link.Asked := by
  unfold decrypt
  rw [Prog.get_bind_run]
  cases hkey : s.link.getToken with
  | error e =>
    have hnone : s.link.token = none := by
      unfold LinkState.getToken at hkey
      split at hkey
      · cases hkey
      · assumption
    show s.link.token = s.link.getToken.toOption
    rw [hnone, hkey]
    rfl
  | ok token => rfl

/-! ## Moves -/

/-- The writes of the program are those of `Write`, and the link is clean again where it ends. -/
def Moves (env : Env) (scope : Scope) (m : Prog String Endpoint α) (s : Endpoint)
    (Q : α → Endpoint → Prop) : Prop :=
  Stays (Write env scope) (fun e => scope.Bounds e ∧ e.Clean) m s Q

/-- A gentle step keeps the bounds of the scope and the books, so that the next one can follow. -/
theorem gentle_ok (h : scope.Bounds s → s.Clean → Gentle env scope s t) :
    scope.Bounds s ∧ s.Clean → ReflTransGen (Write env scope) s t ∧ scope.Bounds t ∧ t.Clean :=
  fun ⟨hb, hc⟩ => ⟨.single (.gentle (h hb hc)), (h hb hc).bounds hb, (h hb hc).clean hc⟩

/-- A program that is quiet everywhere makes its moves in every scope. -/
theorem Moves.quiet {m : Prog String Endpoint α} (hm : Prog.Keeps (Quiet env) m) (s : Endpoint) :
    Moves env scope m s fun _ t => Quiet env s t :=
  fun ⟨hb, hc⟩ => ⟨(hm s).scoped, ⟨(hm s).scoped.bounds hb, (hm s).clean hc⟩, fun _ _ => hm s⟩

/-- A quiet run, with what is known of its values. -/
theorem Moves.quiet_of {m : Prog String Endpoint α} {Q : α → Endpoint → Prop} (hm : Prog.Keeps (Quiet env) m)
    (hq : ∀ a, (m s).1 = .value a → Q a (m s).2) : Moves env scope m s Q :=
  fun ⟨hb, hc⟩ => ⟨(hm s).scoped, ⟨(hm s).scoped.bounds hb, (hm s).clean hc⟩, hq⟩

/-- A run whose writes and whose end are known. -/
theorem Moves.of_run {m : Prog String Endpoint α} {Q : α → Endpoint → Prop}
    (h : scope.Bounds s → s.Clean → Writes env scope s (m s).2 ∧ (m s).2.Clean
      ∧ ∀ a, (m s).1 = .value a → Q a (m s).2) : Moves env scope m s Q := by
  intro ⟨hb, hc⟩
  obtain ⟨hw, hend, hq⟩ := h hb hc
  exact ⟨hw, ⟨hw.bounds hb, hend⟩, hq⟩

/-- A loop over a body that may run in any state. -/
theorem Moves.each {f : β → Prog String Endpoint Unit} {bs : List β}
    (hf : ∀ b ∈ bs, ∀ t, Moves env scope (f b) t fun _ _ => True) (s : Endpoint) :
    Moves env scope (Prog.forEach bs f) s fun _ _ => True :=
  Stays.weaken (Stays.forEach (fun rest _ => ∀ b ∈ rest, b ∈ bs)
    (fun b _ t hrest => (hf b (hrest b List.mem_cons_self) t).mono fun _ _ _ _ b' hb' =>
      hrest b' (List.mem_cons_of_mem b hb'))
    bs fun _ hb => hb)

/-! ## Unclean states -/

/-- The link is clean but for one resource. -/
structure Endpoint.CleanBut (r : Nat) (e : Endpoint) : Prop where
  nodup : e.incomingResources.Nodup ∧ e.outgoingResources.Nodup
  incoming : ∀ q ∈ e.incomingResources, q ≠ r →
    q < e.created ∧ (e.resources q).initiator = false ∧ (e.resources q).status = .transferring
  outgoing : ∀ q ∈ e.outgoingResources, q ≠ r →
    q < e.created ∧ (e.resources q).initiator = true ∧ Active (e.resources q).status
  parts : ∀ q, DataParts (e.resources q)

section CleanBut

variable {r : Nat}

/-- With the books in order they are in order but for any one resource. -/
theorem Endpoint.Clean.but (hc : s.Clean) (r : Nat) : s.CleanBut r :=
  ⟨hc.nodup, fun q hq _ => hc.incoming q hq, fun q hq _ => hc.outgoing q hq, hc.parts⟩

theorem Endpoint.CleanBut.clean (hc : s.CleanBut r) (hin : r ∉ s.incomingResources)
    (hout : r ∉ s.outgoingResources) : s.Clean :=
  ⟨hc.nodup, fun q hq => hc.incoming q hq fun h => hin (h ▸ hq),
    fun q hq => hc.outgoing q hq fun h => hout (h ▸ hq), hc.parts⟩

/-- A change of the one resource that keeps its parts does not matter to the others. -/
theorem Endpoint.CleanBut.withResource (hc : s.CleanBut r) {f : ResourceData → ResourceData}
    (hparts : (f (s.resources r)).parts = (s.resources r).parts) : (s.withResource r f).CleanBut r where
  nodup := hc.nodup
  incoming q hq hne := by
    rw [Endpoint.withResource_of_ne hne]
    exact hc.incoming q hq hne
  outgoing q hq hne := by
    rw [Endpoint.withResource_of_ne hne]
    exact hc.outgoing q hq hne
  parts q := by
    by_cases hne : q = r
    · subst hne
      unfold DataParts
      rw [Endpoint.withResource_self, hparts]
      exact hc.parts q
    · rw [Endpoint.withResource_of_ne hne]
      exact hc.parts q

/-- A quiet stretch leaves the books in order but for the one resource. -/
theorem Quiet.cleanBut (h : Quiet env s t) (hc : s.CleanBut r) : t.CleanBut r := by
  obtain ⟨_, _, _, rfl⟩ := h.same
  exact ⟨hc.nodup, hc.incoming, hc.outgoing, hc.parts⟩

/-- Taking the one resource off the incoming list does not matter to the others. -/
theorem Endpoint.CleanBut.cancelIncoming (hc : s.CleanBut r) : (s.cancelIncomingResource r).CleanBut r :=
  ⟨⟨hc.nodup.1.filter _, hc.nodup.2⟩, fun q hq => hc.incoming q (List.mem_of_mem_filter hq), hc.outgoing, hc.parts⟩

/-- Taking the one resource off the outgoing list does not matter to the others. -/
theorem Endpoint.CleanBut.cancelOutgoing (hc : s.CleanBut r) : (s.cancelOutgoingResource r).CleanBut r :=
  ⟨⟨hc.nodup.1, hc.nodup.2.filter _⟩, hc.incoming, fun q hq => hc.outgoing q (List.mem_of_mem_filter hq), hc.parts⟩

theorem not_mem_cancelled {rs : List Nat} : r ∉ rs.filter (· ≠ r) := by simp

/-- Out of the sets, a resource leaves the link clean. -/
theorem Endpoint.CleanBut.unregister (hc : s.CleanBut r) : (unregister r s).Clean :=
  hc.cancelIncoming.cancelOutgoing.clean not_mem_cancelled not_mem_cancelled

/-- A resource that is done with is taken off its lists, as a write. -/
theorem unregister_writes (h : (s.resources r).initiator = false ∨ ¬ Active (s.resources r).status) :
    Writes env scope s (unregister r s) :=
  Gentle.writes ((ReflTransGen.single (.leaveIncoming s r)).tail (.leaveOutgoing _ r h))

end CleanBut

/-! ## Cancelling -/

/-- The resource is taken out of the set of its side. -/
def leaveSet (r : Nat) (e : Endpoint) : Endpoint :=
  if (e.resources r).initiator then e.cancelOutgoingResource r else e.cancelIncomingResource r

/-- What `cancelTransfer` does: nothing to a concluded resource, and any other one fails and leaves its set,
with its callback or without. -/
theorem cancelTransfer_cases (env : Env) (r : Nat) (s : Endpoint) :
    cancelTransfer env r s = (.value (), s)
    ∨ (s.resources r).status.concluded = false
      ∧ ∃ t, Quiet env (s.withResource r fun d => { d with status := .failed }) t
        ∧ (cancelTransfer env r s = (.value (), leaveSet r t)
          ∨ cancelTransfer env r s = (.value (), (unregister r (leaveSet r t)).note (.concluded r .failed))) := by
  unfold cancelTransfer
  rw [Prog.get_bind_run]
  by_cases hconcluded : (s.resources r).status.concluded = false
  case neg =>
    rw [Prog.when_of_not hconcluded]
    exact .inl rfl
  rw [Prog.when_of hconcluded]
  refine .inr ⟨hconcluded, ?_⟩
  rw [show ∀ f, (setStatus r .failed >>= f) s = f () (s.withResource r fun d => { d with status := .failed })
    from fun _ => rfl]
  cases hinitiator : (s.resources r).initiator with
  | true =>
    have hsend : ∃ t, Quiet env (s.withResource r fun d => { d with status := .failed }) t
        ∧ Prog.when (s.link.status = .active)
            (trySend env .data ContextType.resourceIcl (s.resources r).hash)
            (s.withResource r fun d => { d with status := .failed }) = (.value (), t) := by
      unfold Prog.when
      split
      · exact trySend_run ..
      · exact ⟨_, .refl _, rfl⟩
    obtain ⟨t, hquiet, hrun⟩ := hsend
    have hset : leaveSet r t = t.cancelOutgoingResource r := by
      obtain ⟨_, _, _, rfl⟩ := hquiet.same
      simp [leaveSet, hinitiator]
    refine ⟨t, hquiet, ?_⟩
    rw [if_pos rfl, Prog.bind_value hrun, Prog.modify_bind_run, hset]
    exact (Prog.when_run_cases ..).symm.imp And.right And.right
  | false =>
    refine ⟨_, .refl _, ?_⟩
    have hset : leaveSet r (s.withResource r fun d => { d with status := .failed })
        = (s.withResource r fun d => { d with status := .failed }).cancelIncomingResource r := by
      simp [leaveSet, hinitiator]
    rw [if_neg Bool.false_ne_true, Prog.modify_bind_run, hset]
    exact (Prog.when_run_cases ..).symm.imp And.right And.right

/-- A resource that is done with is taken off the list of its direction, as a write. -/
theorem leaveSet_writes {r : Nat} (h : ¬ Active (s.resources r).status) : Writes env scope s (leaveSet r s) := by
  unfold leaveSet
  split
  · exact .single (.gentle (.leaveOutgoing s r (.inr h)))
  · exact .single (.gentle (.leaveIncoming s r))

/-- A resource that ends leaves the link clean once it is out of the set of its side. -/
theorem Endpoint.Clean.leaveSet {r : Nat} (hc : s.Clean) {f : ResourceData → ResourceData}
    (hinitiator : (f (s.resources r)).initiator = (s.resources r).initiator)
    (hparts : (f (s.resources r)).parts = (s.resources r).parts)
    (h : Quiet env (s.withResource r f) t) : (leaveSet r t).Clean := by
  have hbut := h.cleanBut ((hc.but r).withResource hparts)
  obtain ⟨_, _, _, rfl⟩ := h.same
  unfold Link.leaveSet
  simp only [Endpoint.withResource_self, hinitiator]
  split
  case isTrue hside =>
    refine hbut.cancelOutgoing.clean (fun hin => ?_) not_mem_cancelled
    rw [(hc.incoming r hin).2.1] at hside
    cases hside
  case isFalse hside =>
    exact hbut.cancelIncoming.clean not_mem_cancelled fun hout => hside (hc.outgoing r hout).2.1

/-- The concluded callback of a resource that has ended. -/
theorem conclude {r : Nat} {status : ResourceStatus} (hw : Writes env scope s t) (hc : t.Clean)
    (hactive : ¬ Active (t.resources r).status) :
    Writes env scope s ((unregister r t).note (.concluded r status))
      ∧ ((unregister r t).note (.concluded r status)).Clean := by
  have hnote : Gentle env scope (unregister r t) ((unregister r t).note (.concluded r status)) :=
    .note _ trivial
  exact ⟨(hw.trans (unregister_writes (.inr hactive))).tail (.gentle hnote), hnote.clean (hc.but r).unregister⟩

/-- Cancelling a transfer tells the other side, takes the resource off its list and notes its end. -/
theorem cancelTransfer_moves {r : Nat} (hr : scope.knows r) (s : Endpoint) :
    Moves env scope (cancelTransfer env r) s fun _ _ => True := by
  refine .of_run fun _ hc => ?_
  obtain hrun | ⟨hconcluded, t, hquiet, hrun⟩ := cancelTransfer_cases env r s
  · rw [hrun]
    exact ⟨.refl, hc, fun _ _ => trivial⟩
  have hfailed : (t.resources r).status = .failed := by
    obtain ⟨_, _, _, rfl⟩ := hquiet.same
    simp
  have hactive : ¬ Active (t.resources r).status := by
    rw [hfailed]
    decide
  have hend : (leaveSet r t).Clean :=
    hc.leaveSet (f := fun d => { d with status := .failed }) rfl rfl hquiet
  have hwrites : Writes env scope s (leaveSet r t) :=
    ((ReflTransGen.single (.fail s r hr hconcluded)).trans hquiet.scoped).trans (leaveSet_writes hactive)
  have hstill : (leaveSet r t).resources = t.resources := by
    unfold leaveSet
    split <;> rfl
  obtain hrun | hrun := hrun <;> rw [hrun]
  · exact ⟨hwrites, hend, fun _ _ => trivial⟩
  · obtain ⟨hwrites', hend'⟩ := @conclude _ _ _ _ r .failed hwrites hend (by rwa [hstill])
    exact ⟨hwrites', hend', fun _ _ => trivial⟩

/-- Closing a link cancels what is on its lists and clears its keys. -/
theorem linkClosed_moves (hclosed : s.link.status = .closed) :
    Moves env scope (linkClosed env) s fun _ _ => True := by
  refine Stays.assuming fun ⟨hb, _⟩ => Stays.get_bind ?_
  refine Stays.bind (Moves.each (fun r hr => cancelTransfer_moves (hb.incoming r hr)) s) fun _ t ht _ => ?_
  refine Stays.bind (Moves.each (fun r hr => cancelTransfer_moves (hb.outgoing r hr)) t) fun _ u hu _ => ?_
  have hstill : u.link.status = .closed := Writes.closed (ht.trans hu) hclosed
  exact Stays.modify_bind (gentle_ok fun _ _ => .purge u hstill) (Stays.modify (gentle_ok fun _ _ => .note _ trivial) trivial)

/-- A teardown sends its packet and closes the link. -/
theorem teardown_moves (s : Endpoint) : Moves env scope (teardown env) s fun _ _ => True := by
  refine Stays.get_bind (Stays.bind
    (R := fun _ t => t.link.status = .pending ∨ t.link.status = .closed ∨ t.link.Asked) ?_ fun _ t _ hasked => ?_)
  · refine Stays.when (fun _ => ?_) fun hearly => ?_
    · have hsend : Moves env scope (send env .data ContextType.linkclose s.link.linkId.toList) s
          fun _ t => t.link.Asked :=
        Moves.quiet_of (send_quiet (.inl PacketType.noConfusion)) fun p hp =>
          send_asks (fun _ => rfl) (Prod.ext hp rfl)
      exact Stays.bind hsend fun _ _ _ hasked => Stays.pure (.inr (.inr hasked))
    · by_cases hpending : s.link.status = .pending
      · exact .inl hpending
      · exact .inr (.inl (by_contra fun hclosed => hearly ⟨hpending, hclosed⟩))
  · exact Stays.modify_bind (gentle_ok fun _ _ => .note t trivial)
      (Stays.modify_bind (gentle_ok fun _ _ => .close (t.note _) _ hasked) (linkClosed_moves rfl))

theorem reject_moves (r : Nat) (s : Endpoint) : Moves env scope (reject env r) s fun _ _ => True :=
  Stays.get_bind (Stays.weaken (Moves.quiet (trySend_quiet _ _) s))

/-- Cancelling a resource marks it as failed and ends its transfer. -/
theorem cancel_moves {r : Nat} (hr : scope.knows r) (s : Endpoint) :
    Moves env scope (cancel env r) s fun _ _ => True := by
  refine Stays.get_bind (Stays.ite (fun _ => ?_) fun _ => cancelTransfer_moves hr s)
  refine Stays.modify_bind (gentle_ok fun _ _ => .leaveIncoming s r) ?_
  exact Stays.bind (reject_moves r _) fun _ t _ _ => teardown_moves t

/-- Behind `giveUp` nothing goes on. -/
theorem giveUp_moves {r : Nat} (hr : scope.knows r) (s : Endpoint) {Q : Unit → Endpoint → Prop} :
    Moves env scope (giveUp env r) s Q :=
  Stays.bind (cancel_moves hr s) fun _ _ _ _ => Stays.leave

theorem rejected_moves {r : Nat} (hr : scope.knows r) (s : Endpoint) :
    Moves env scope (rejected r) s fun _ _ => True := by
  refine Moves.of_run fun _ hc => ?_
  unfold rejected
  rw [Prog.get_bind_run]
  obtain ⟨⟨hconcluded, hinitiator⟩, hrun⟩ | ⟨-, hrun⟩ := Prog.when_run_cases
    ((s.resources r).status.concluded = false ∧ (s.resources r).initiator = true) _ s
  case inr => exact hrun ▸ ⟨.refl, hc, fun _ _ => trivial⟩
  obtain ⟨t, ht⟩ : ∃ t, t = (s.withResource r fun d => { d with status := .rejected }).note (.rejected r) :=
    ⟨_, rfl⟩
  have hset : leaveSet r t = t.cancelOutgoingResource r := by simp [ht, leaveSet, hinitiator, Endpoint.note]
  have hactive : ¬ Active (t.resources r).status := by
    rw [ht, Endpoint.note, Endpoint.withResource_self]
    exact show ¬ Active .none by decide
  have hend : (t.cancelOutgoingResource r).Clean := by
    have hclean := @Endpoint.Clean.leaveSet env s _ r hc (fun d => { d with status := .rejected }) rfl rfl (.refl _)
    have hside : leaveSet r (s.withResource r fun d => { d with status := .rejected })
        = (s.withResource r fun d => { d with status := .rejected }).cancelOutgoingResource r := by
      simp [leaveSet, hinitiator]
    rw [hside] at hclean
    rw [ht]
    exact ⟨hclean.nodup, hclean.incoming, hclean.outgoing, hclean.parts⟩
  have hwrites : Writes env scope s (t.cancelOutgoingResource r) :=
    hset ▸ (ReflTransGen.single (ht ▸ .reject s r hr hconcluded hinitiator)).trans (leaveSet_writes hactive)
  rw [hrun, Prog.modify_bind_run, ← ht, Prog.modify_bind_run]
  obtain ⟨-, hrun⟩ | ⟨-, hrun⟩ := Prog.when_run_cases (s.resources r).concludedCallback
    (Prog.modify fun e => (unregister r e).note (.concluded r .rejected)) (t.cancelOutgoingResource r)
  · rw [hrun]
    obtain ⟨hwrites', hend'⟩ := @conclude _ _ _ _ r .rejected hwrites hend hactive
    exact ⟨hwrites', hend', fun _ _ => trivial⟩
  · rw [hrun]
    exact ⟨hwrites, hend, fun _ _ => trivial⟩

/-! ## The initiator -/

section Initiator

variable {r : Nat}

theorem packPart_noProof {encrypt : PacketSpec → Bytes → Except String Bytes} {l : LinkState} {data : Bytes}
    {p : Packet} (h : packPart encrypt l data = .ok p) : NoProof p := by
  obtain ⟨c, q, -, hunpack, htype, -, -⟩ := unpack_pack h rfl rfl
  rintro q' hq' ⟨hproof, -⟩
  cases hunpack.symm.trans hq'
  cases htype.symm.trans hproof

theorem slice_noProof {encrypt : PacketSpec → Bytes → Except String Bytes} {fullHash : Bytes → Hash}
    {l : LinkState} {sdu : UInt16} {randomHash stream : Bytes} {sliced : Sliced}
    (h : slice encrypt fullHash l sdu randomHash stream = .ok sliced) : ∀ p ∈ sliced.parts, NoProof p := by
  intro p hp
  obtain ⟨-, hpacked, -⟩ := slice_ok h
  obtain ⟨i, hi, rfl⟩ := List.mem_iff_getElem.mp hp
  exact packPart_noProof ((List.forall₂_iff_get.mp hpacked).2 i
    (by rw [(List.forall₂_iff_get.mp hpacked).1]; exact hi) hi)

theorem advertiseJob_moves (hr : scope.touches r) (hlt : r < s.created)
    (hinitiator : (s.resources r).initiator = true) (hstatus : (s.resources r).status = .none) :
    Moves env scope (advertiseJob env r) s fun _ _ => True := by
  refine Stays.get_bind (Stays.modify_bind (gentle_ok fun _ _ => .keep s r _ hr
    ⟨rfl, rfl, rfl, rfl, rfl, rfl, fun h => ?_, id⟩) ?_)
  · rw [hinitiator] at h
    cases h
  refine Stays.ite (fun hready => ?_) fun hready => ?_
  · refine Stays.catching (Stays.bind (Moves.quiet (send_quiet (.inl PacketType.noConfusion)) _)
      fun p t _ hquiet => Stays.modify (gentle_ok fun _ _ => ?_) trivial) fun _ t _ =>
        cancel_moves (scope.knows_of_touches r hr) t
    obtain ⟨_, _, _, rfl⟩ := hquiet.same
    rw [hready]
    refine .advertise _ r _ hr hlt ?_ ?_ ⟨rfl, rfl, rfl, rfl, rfl, rfl, fun _ => rfl, id⟩ <;> simpa
  · refine Stays.modify (gentle_ok fun _ _ => ?_) trivial
    rw [Bool.eq_false_iff.mpr hready]
    refine .queue _ r hr hlt ?_ ?_ <;> simpa

/-- A resource that was made and not started. -/
structure Made (scope : Scope) (r : Nat) (e : Endpoint) : Prop where
  touched : scope.touches r
  made : r < e.created
  initiator : (e.resources r).initiator = false
  status : (e.resources r).status = .none

theorem newResource_moves (data : Bytes) (s : Endpoint) :
    Moves env scope (newResource data) s fun r t => Made scope r t := by
  refine Stays.assuming fun ⟨hb, _⟩ => Stays.get_bind ?_
  have hr := hb.coming s.created (Nat.le_refl _)
  refine Stays.modify_bind (gentle_ok fun _ _ => .create s _ hr rfl rfl rfl) (Stays.pure ?_)
  exact ⟨hr, Nat.lt_succ_self _, by simp, by simp⟩

theorem Made.keep (h : Made scope r s) {f : ResourceData → ResourceData}
    (hf : Bookkeeping (s.resources r) (f (s.resources r))) : Made scope r (s.withResource r f) where
  touched := h.touched
  made := h.made
  initiator := by rw [Endpoint.withResource_self, hf.initiator, h.initiator]
  status := by rw [Endpoint.withResource_self, hf.status, h.status]

theorem start_moves (h : Made scope r s) : Moves env scope (start env r) s fun _ _ => True := by
  refine Stays.get_bind (Stays.when (fun _ => ?_) fun _ => trivial)
  refine Stays.modify_bind (gentle_ok fun _ _ => .draw s) ?_
  refine Stays.modify_bind (gentle_ok fun _ _ => .begin _ r _ h.touched h.made h.status h.initiator) ?_
  refine Stays.bind (Moves.quiet (encrypt_quiet _) _) fun encrypted t _ hquiet => ?_
  obtain ⟨_, _, _, rfl⟩ := hquiet.same
  refine Stays.modify_bind (gentle_ok fun _ _ => .keep _ r _ h.touched
    ⟨rfl, rfl, rfl, rfl, rfl, rfl, fun _ => rfl, id⟩) (Stays.get_bind ?_)
  refine Stays.bind (Stays.ofExcept (Q := fun sliced t => (∀ p ∈ sliced.parts, NoProof p) ∧ t = _)
    fun sliced hsliced => ⟨slice_noProof hsliced, rfl⟩) ?_
  rintro sliced _ - ⟨hparts, rfl⟩
  refine Stays.modify_bind (gentle_ok fun _ _ => .keep _ r _ h.touched
    ⟨rfl, rfl, rfl, rfl, rfl, rfl, fun _ => rfl, fun _ => ?_⟩) ?_
  · intro part hpart
    obtain ⟨p, hp, rfl⟩ := List.mem_map.mp hpart
    exact hparts p hp
  · refine advertiseJob_moves h.touched h.made ?_ ?_
    · simp [Endpoint.note, ResourceData.begin]
    · simp [Endpoint.note, ResourceData.begin, h.status]

/-- The resource sends its parts. -/
def Sending (r : Nat) (e : Endpoint) : Prop :=
  (e.resources r).initiator = true ∧ (e.resources r).status = .transferring

theorem Quiet.sending (h : Quiet env s t) (hs : Sending r s) : Sending r t := by
  obtain ⟨_, _, _, rfl⟩ := h.same
  exact hs

theorem Sending.keep {f : ResourceData → ResourceData} (hs : Sending r s)
    (hf : Bookkeeping (s.resources r) (f (s.resources r))) : Sending r (s.withResource r f) := by
  unfold Sending
  rw [Endpoint.withResource_self, hf.initiator, hf.status]
  exact hs

theorem sendPart_moves (hr : scope.touches r) (i : Nat) (hs : Sending r s) :
    Moves env scope (sendPart env r i) s fun _ t => Sending r t := by
  refine Stays.assuming fun ⟨_, hc⟩ => Stays.get_bind ?_
  cases hpart : (s.resources r).parts[i]? with
  | none => exact Stays.pure hs
  | some part =>
    have hno : NoProof part.packet := hc.parts r part (List.mem_of_getElem? hpart)
    -- what is noted of the part leaves its packet as it was
    have hkept : ∀ (d : ResourceData) (taken : Bool), DataParts d →
        DataParts { d with parts := d.parts.set i { part with sent := taken } } := by
      intro d taken hd p hp
      obtain hp | rfl := List.mem_or_eq_of_mem_set hp
      · exact hd p hp
      · exact hno
    refine Stays.ite (fun _ => ?_) fun _ => ?_
    · refine Stays.bind (Moves.quiet (outbound_quiet hno) s) fun taken t _ hquiet => ?_
      have hbook := fun d => (⟨rfl, rfl, rfl, rfl, rfl, rfl, fun _ => rfl, hkept d taken⟩ :
        Bookkeeping d { d with parts := d.parts.set i { part with sent := taken } })
      exact Stays.modify (gentle_ok fun _ _ => .keep t r _ hr (hbook _)) ((hquiet.sending hs).keep (hbook _))
    · refine Stays.bind (Stays.require (Q := fun _ t => t = s) fun _ => rfl) ?_
      rintro _ _ - rfl
      refine Stays.bind (Moves.quiet (outbound_quiet hno) _) fun taken t _ hquiet => ?_
      have hbook := fun d => (⟨rfl, rfl, rfl, rfl, rfl, rfl, fun _ => rfl, hkept d taken⟩ :
        Bookkeeping d
          { d with parts := d.parts.set i { part with sent := taken }, sentParts := d.sentParts + 1 })
      exact Stays.modify (gentle_ok fun _ _ => .keep t r _ hr (hbook _)) ((hquiet.sending hs).keep (hbook _))

theorem sendHashmapUpdate_moves (hr : scope.touches r) (lastMapHash : Bytes) (hs : Sending r s) :
    Moves env scope (sendHashmapUpdate env r lastMapHash) s fun _ t => Sending r t := by
  have hknows := scope.knows_of_touches r hr
  refine Stays.get_bind (Stays.modify_bind (gentle_ok fun _ _ => .keep s r _ hr
    ⟨rfl, rfl, rfl, rfl, rfl, rfl, fun _ => rfl, id⟩) ?_)
  refine Stays.bind (R := fun _ t => Sending r t) (Stays.when (fun _ => giveUp_moves hknows _) fun _ => ?_)
    fun _ t _ ht => ?_
  · exact hs.keep ⟨rfl, rfl, rfl, rfl, rfl, rfl, fun _ => rfl, id⟩
  · refine Stays.catching (Stays.bind (Moves.quiet (send_quiet (.inl PacketType.noConfusion)) _)
      fun _ u _ hquiet => Stays.pure (hquiet.sending ht)) fun _ u _ => giveUp_moves hknows u

/-- `Resource::request`, of a resource in the outgoing set. -/
theorem Resource.request_moves (hr : scope.touches r) (hmem : r ∈ s.outgoingResources) (requestData : Bytes) :
    Moves env scope (Resource.request env r requestData) s fun _ _ => True := by
  have hknows := scope.knows_of_touches r hr
  refine Stays.assuming fun ⟨_, hc⟩ => Stays.call (Q := fun _ _ => True) (Stays.get_bind ?_)
  refine Stays.bind (Stays.when (Q := fun _ t => t = s) (fun _ => Stays.leave) fun _ => rfl) ?_
  rintro _ s - rfl
  refine Stays.modify_bind (gentle_ok fun _ _ => .transfer _ r _ hr (fun _ => hmem) (hc.outgoing r hmem).2.2
    ⟨rfl, rfl, rfl, rfl, rfl, rfl, fun _ => rfl, id⟩) ?_
  have hsending : Sending r (s.withResource r fun d =>
      { d with status := .transferring, retriesLeft := maxRetries }) := by
    unfold Sending
    rw [Endpoint.withResource_self]
    exact ⟨(hc.outgoing r hmem).2.1, rfl⟩
  refine Stays.bind (R := fun _ t => Sending r t) (Stays.when (fun _ => Stays.leave) fun _ => hsending)
    fun _ t _ ht => ?_
  refine Stays.bind (R := fun _ t => Sending r t) ?_ fun _ u _ hu => ?_
  · refine Stays.forEach (fun _ t => Sending r t) (fun i _ t ht => ?_) _ ht
    exact Stays.when (fun _ => Stays.catching (sendPart_moves hr i ht) fun _ u _ => giveUp_moves hknows u)
      fun _ => ht
  refine Stays.bind (R := fun _ t => Sending r t)
    (Stays.when (fun _ => sendHashmapUpdate_moves hr _ hu) fun _ => hu) fun _ v _ hv => ?_
  refine Stays.modify (gentle_ok fun _ _ => ?_) trivial
  by_cases hall : (v.resources r).sentParts.toNat = (v.resources r).parts.length
  · refine .await v r _ hr hv.1 hv.2 ?_
    rw [if_pos hall]
    exact ⟨rfl, rfl, rfl, rfl, rfl, rfl, fun _ => rfl, id⟩
  · refine .keep v r _ hr ?_
    rw [if_neg hall]
    exact ⟨rfl, rfl, rfl, rfl, rfl, rfl, fun _ => rfl, id⟩

end Initiator

end MicroReticulum.Link
