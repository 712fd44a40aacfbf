import MicroReticulum.Link.Moves

/-!
# The writes of an input

The second half of the functions: requests and responses, the receiver of a transfer, and the dispatch of what
comes in. `handle_moves` is the statement for an input, `run_writes` the one for a sequence of inputs.

A loop over the resources of a link runs over the sets as they were when it began. What the body does to one
resource may fail others, but does not touch them otherwise, so a condition that a failed resource still meets
holds of those that are left (`Moves.eachResource`).
-/

namespace MicroReticulum.Link

open MicroReticulum Packet Library Resource Cryptography
open MicroReticulum.Transport (reticulumMdu)
open Relation (ReflTransGen)
open MicroReticulum.Library.Prog (Stays)

variable {env : Env} {scope : Scope} {α β : Type} {s t u : Endpoint} {r : Nat}

/-! ## Loops over resources -/

/-- A program that stays within a narrower scope stays within a wider one. -/
theorem Moves.widen {scope' : Scope} {m : Prog String Endpoint α} {Q : α → Endpoint → Prop}
    (hknows : ∀ r, scope'.knows r → scope.knows r) (htouches : ∀ r, scope'.touches r → scope.touches r)
    (hpacket : scope'.packet = scope.packet) (hb : scope'.Bounds s) (h : Moves env scope' m s Q) :
    Moves env scope m s Q := by
  have hmono : ∀ t u, Write env scope' t u → Write env scope t u := fun _ _ =>
    Write.mono hknows htouches hpacket
  exact Stays.widen h hmono (fun hs => ⟨hb, hs.2⟩) fun t ht hs hend =>
    ⟨Writes.bounds (ReflTransGen.mono hmono _ _ ht) hs.1, hend.2⟩

/-- A condition on a resource that holds on when the resource is failed or rejected. -/
structure Lasting (P : ResourceData → Prop) : Prop where
  failed : ∀ d, P d → P { d with status := .failed }
  rejected : ∀ d, d.initiator = true → P d → P { d with status := .rejected }

/-- What lasts in a resource once it holds still holds after writes of a scope that does not touch the resource. -/
theorem Lasting.untouched {P : ResourceData → Prop} (hP : Lasting P) {q : Nat}
    (h : Writes env scope s t) (hq : ¬ scope.touches q) (hs : P (s.resources q)) : P (t.resources q) := by
  induction h with
  | refl => exact hs
  | tail _ hw ih =>
    obtain hsame | ⟨-, hfail | ⟨hinitiator, hreject⟩⟩ := hw.untouched hq
    · exact hsame ▸ ih
    · exact hfail ▸ hP.failed _ ih
    · exact hreject ▸ hP.rejected _ hinitiator ih

/-- The loop over the resources of a link. -/
theorem Moves.eachResource {P : ResourceData → Prop} (hP : Lasting P)
    {f : Nat → Prog String Endpoint Unit} {rs : List Nat} (hnodup : rs.Nodup)
    (hrs : ∀ q ∈ rs, scope.touches q ∧ q < s.created ∧ P (s.resources q))
    (hf : ∀ q t, P (t.resources q) → Moves env (Scope.one t q scope.packet) (f q) t fun _ _ => True) :
    Moves env scope (Prog.forEach rs f) s fun _ _ => True := by
  refine Stays.weaken (Stays.forEach
    (fun rest t => rest.Nodup ∧ ∀ q ∈ rest, scope.touches q ∧ q < t.created ∧ P (t.resources q))
    (fun q rest t ht => Stays.assuming fun ⟨hb, _⟩ => ?_) rs ⟨hnodup, hrs⟩)
  obtain ⟨hnodup, hrest⟩ := ht
  obtain ⟨htouch, -, hPq⟩ := hrest q List.mem_cons_self
  have hone : Moves env (Scope.one t q scope.packet) (f q) t fun _ u =>
      rest.Nodup ∧ ∀ q' ∈ rest, scope.touches q' ∧ q' < u.created ∧ P (u.resources q') := by
    refine Stays.mono (hf q t hPq) fun _ u hu _ => ⟨(List.nodup_cons.mp hnodup).2, fun q' hq' => ?_⟩
    obtain ⟨htouch', hlt, hP'⟩ := hrest q' (List.mem_cons_of_mem q hq')
    refine ⟨htouch', Nat.lt_of_lt_of_le hlt (Writes.created_le hu), hP.untouched hu ?_ hP'⟩
    rintro (rfl | hle)
    · exact (List.nodup_cons.mp hnodup).1 hq'
    · exact Nat.not_le_of_lt hlt hle
  refine @Moves.widen env scope _ t (Scope.one t q scope.packet) (f q) _ (fun x hx => ?_)
    (fun x hx => ?_) rfl (Scope.one_bounds ..) hone
  · obtain (hin | hout | hnew) | rfl := hx
    · exact hb.incoming x hin
    · exact hb.outgoing x hout
    · exact scope.knows_of_touches x (hb.coming x hnew)
    · exact scope.knows_of_touches x htouch
  · obtain rfl | hnew := hx
    · exact htouch
    · exact hb.coming x hnew

/-! ## Requests and responses -/

/-- A receipt for a request is one write, and leaves the books in order. -/
theorem addReceipt_ok {receipt : RequestReceipt} (hsent : receipt.status = .sent) (s : Endpoint) :
    scope.Bounds s ∧ s.Clean → ReflTransGen (Write env scope) s (s.addReceipt receipt)
      ∧ scope.Bounds (s.addReceipt receipt) ∧ (s.addReceipt receipt).Clean :=
  gentle_ok fun _ _ => .ask s receipt hsent

/-- A request is a sequence of writes: a packet goes out, or a resource is made and started, and the receipt is
kept. -/
theorem request_moves (path data : Bytes) (s : Endpoint) :
    Moves env scope (request env path data) s fun _ _ => True := by
  refine Stays.get_bind (Stays.ite (fun _ => ?_) fun _ => ?_)
  · refine Stays.bind (Moves.quiet (send_quiet (.inl PacketType.noConfusion)) s) fun _ t _ _ => ?_
    exact Stays.modify_bind (addReceipt_ok rfl t) (Stays.pure trivial)
  · refine Stays.bind (newResource_moves _ s) fun r t _ hmade => ?_
    have hbook : Bookkeeping (t.resources r)
        { t.resources r with
          requestId := (truncatedHash env.fullHash (packRequestEnvelope env (env.now s.draws)
            (truncatedHash env.fullHash path).toList data)).toList } :=
      ⟨rfl, rfl, rfl, rfl, rfl, rfl, fun _ => rfl, id⟩
    refine Stays.modify_bind (gentle_ok fun _ _ => .keep t r _ hmade.touched hbook) ?_
    refine Stays.bind (start_moves (hmade.keep hbook)) fun _ u _ _ => ?_
    exact Stays.modify_bind (addReceipt_ok rfl u) (Stays.pure trivial)

/-- A response is a sequence of writes, be it a packet or a resource. -/
theorem respond_moves (requestId response : Bytes) (s : Endpoint) :
    Moves env scope (respond env requestId response) s fun _ _ => True := by
  refine Stays.ite (fun _ => ?_) fun _ => ?_
  · exact Stays.bind (Moves.quiet (send_quiet (.inl PacketType.noConfusion)) s) fun _ _ _ _ => Stays.pure trivial
  · refine Stays.bind (newResource_moves _ s) fun r t _ hmade => ?_
    have hbook : Bookkeeping (t.resources r) { t.resources r with requestId, isResponse := true } :=
      ⟨rfl, rfl, rfl, rfl, rfl, rfl, fun _ => rfl, id⟩
    exact Stays.modify_bind (gentle_ok fun _ _ => .keep t r _ hmade.touched hbook)
      (start_moves (hmade.keep hbook))

/-- The one place where a response generator is called. -/
theorem handleRequest_moves (requestId : Bytes) (request : ResourceRequest) (s : Endpoint) :
    Moves env scope (handleRequest env requestId request) s fun _ _ => True := by
  refine Stays.get_bind (Stays.when (fun hactive => ?_) fun _ => trivial)
  cases s.requestHandlers.lookup request.pathHash with
  | none => exact Stays.pure trivial
  | some handler =>
    refine Stays.when (fun hallowed => ?_) fun _ => trivial
    refine Stays.modify_bind (gentle_ok fun _ _ => .generate s _ hactive hallowed) ?_
    refine Stays.bind (Stays.ofExcept (Q := fun _ _ => True) fun _ _ => trivial) fun response t _ _ => ?_
    exact Stays.when (fun _ => respond_moves requestId response t) fun _ => trivial

/-- A receipt that has not failed is ready behind it. -/
theorem responseReceived_moves (receipt : Nat) (response : Bytes) (s : Endpoint) :
    Moves env scope (responseReceived receipt response) s fun _ t =>
      (t.receipts receipt).status = .ready ∨ (t.receipts receipt).status = .failed := by
  refine Stays.get_bind (Stays.when (fun _ => ?_) fun hfailed => .inr (Decidable.of_not_not hfailed))
  refine Stays.modify_bind (gentle_ok fun _ _ => .answer s receipt _ (.inr rfl))
    (Stays.modify (gentle_ok fun _ _ => .note _ trivial) (.inl ?_))
  simp only [Endpoint.note, Endpoint.withReceipt, Function.update_self]

/-- A response concludes the receipt it belongs to and makes no other write. -/
theorem handleResponse_moves (requestId responseData : Bytes) (responseSize responseTransferSize : Nat)
    (s : Endpoint) :
    Moves env scope (handleResponse requestId responseData responseSize responseTransferSize) s
      fun _ _ => True := by
  refine Stays.get_bind (Stays.when (fun _ => ?_) fun _ => trivial)
  cases s.pendingRequests.find? fun q => decide ((s.receipts q).requestId = requestId) with
  | none => exact Stays.pure trivial
  | some receipt =>
    refine Stays.modify_bind (gentle_ok fun _ _ => .answer s receipt _ (.inl rfl)) ?_
    refine Stays.bind (responseReceived_moves receipt responseData _) fun _ t _ hsettled => ?_
    exact Stays.modify (gentle_ok fun _ _ => .settle t receipt hsettled) trivial

/-- A request that came as a resource is answered like one that came as a packet. -/
theorem requestResourceConcluded_moves (r : Nat) (s : Endpoint) :
    Moves env scope (requestResourceConcluded env r) s fun _ _ => True := by
  refine Stays.get_bind (Stays.when (fun _ => ?_) fun _ => trivial)
  cases unpackRequestEnvelope env (s.resources r).data with
  | none => exact Stays.pure trivial
  | some request => exact handleRequest_moves _ request s

/-- Behind the gate of `resource_concluded`, only a complete response is concluded. -/
theorem responseResourceConcluded_moves (hcomplete : (s.resources r).status = .complete) :
    Moves env scope (responseResourceConcluded env r) s fun _ _ => True := by
  refine Stays.get_bind (Stays.ite (fun _ => ?_) fun h => absurd hcomplete h)
  cases unpackResponseEnvelope env (s.resources r).data with
  | none => exact Stays.pure trivial
  | some response => exact handleResponse_moves _ _ _ _ s

/-- A resource that has ended, or that the link received, is taken out of the sets, which leaves the link
clean. -/
theorem resourceConcluded_moves (hbut : s.CleanBut r)
    (hended : (s.resources r).initiator = false ∨ ¬ Active (s.resources r).status) (hb : scope.Bounds s) :
    Writes env scope s (resourceConcluded env r s).2 ∧ (resourceConcluded env r s).2.Clean := by
  have hwrites : Writes env scope s (unregister r s) := unregister_writes hended
  have hrest : Moves env scope
      (Prog.when (r ∈ s.incomingResources ∧ (s.resources r).status = .complete ∧ (s.resources r).requestId ≠ [])
        (if (s.resources r).isResponse then responseResourceConcluded env r else requestResourceConcluded env r))
      (unregister r s) fun _ _ => True :=
    Stays.when (fun h => Stays.ite (fun _ => responseResourceConcluded_moves h.2.1)
      fun _ => requestResourceConcluded_moves r _) fun _ => trivial
  obtain ⟨hmore, hend, -⟩ := hrest ⟨hwrites.bounds hb, hbut.unregister⟩
  exact ⟨hwrites.trans hmore, hend.2⟩

/-- The callback of a resource is noted, and no resource changes. -/
theorem concludedCallback_moves (r : Nat) (s : Endpoint) :
    Moves env scope (concludedCallback r) s fun _ _ => True :=
  Stays.get_bind (Stays.when (fun _ => Stays.modify (gentle_ok fun _ _ => .note s trivial) trivial)
    fun _ => trivial)

/-- How a transfer ends on its side. -/
theorem conclusion_moves (env : Env) (hbut : s.CleanBut r)
    (hended : (s.resources r).initiator = false ∨ ¬ Active (s.resources r).status) (hb : scope.Bounds s) :
    Writes env scope s ((resourceConcluded env r >>= fun _ => concludedCallback r) s).2
      ∧ ((resourceConcluded env r >>= fun _ => concludedCallback r) s).2.Clean := by
  obtain ⟨hwrites, hclean⟩ := resourceConcluded_moves hbut hended hb
  rw [Prog.bind_run]
  rcases hrun : resourceConcluded env r s with ⟨_ | _ | _ | _, t⟩ <;> rw [hrun] at hwrites hclean
  case value =>
    have hmoves : Moves env scope (concludedCallback r) t fun _ _ => True := concludedCallback_moves r t
    obtain ⟨hmore, hend, -⟩ := hmoves ⟨hwrites.bounds hb, hclean⟩
    exact ⟨hwrites.trans hmore, hend.2⟩
  all_goals exact ⟨hwrites, hclean⟩

/-! ## Assembling -/

/-- Decryption ends with a value from every state; the token it fetches is a quiet write. -/
theorem decrypt_run (env : Env) (ciphertext : Bytes) (s : Endpoint) :
    ∃ plaintext t, Quiet env s t ∧ decrypt env ciphertext s = (.value plaintext, t) := by
  have hquiet : Quiet env s (decrypt env ciphertext s).2 := decrypt_quiet ciphertext s
  unfold decrypt at hquiet ⊢
  rw [Prog.get_bind_run] at hquiet ⊢
  cases hkey : s.link.getToken with
  | error _ => exact ⟨_, s, .refl s, rfl⟩
  | ok token =>
    rw [hkey] at hquiet
    exact ⟨_, _, hquiet, rfl⟩

/-- A concluded resource is not cancelled. -/
theorem cancel_complete (h : (s.resources r).status = .complete) : cancel env r s = (.value (), s) := by
  unfold cancel cancelTransfer
  rw [Prog.get_bind_run, if_neg (by rw [h]; decide), Prog.get_bind_run, Prog.when_of_not (by rw [h]; decide)]
  rfl

/-- The proof of a complete resource is sent, or it is not. -/
theorem prove_run (env : Env) (hr : scope.touches r) (hinitiator : (s.resources r).initiator = false)
    (hstatus : (s.resources r).status = .complete) (hlength : (s.resources r).hash.length = hashBytes) :
    ∃ t, prove env r s = (.value (), t) ∧ Writes env scope s t ∧ ∃ token draws new,
      t = { s with link := { s.link with token }, draws, events := s.events ++ new } := by
  unfold prove
  rw [Prog.get_bind_run, Prog.when_of (by rw [hstatus]; decide)]
  obtain ⟨d, hd⟩ : ∃ d, s.resources r = d := ⟨_, rfl⟩
  rw [hd] at hinitiator hstatus hlength ⊢
  unfold Prog.catching
  obtain ⟨e, token, htoken, hrun⟩ | ⟨p, token, hp, -, htoken, hrun⟩ := send_cases env .proof ContextType.resourcePrf
    (d.hash ++ (env.fullHash (d.data ++ d.hash)).toList) s
  · have hkept : Quiet env s (s.withLink fun l => { l with token }) := .token s htoken
    rw [Prog.bind_thrown hrun]
    exact ⟨_, cancel_complete (by rwa [Endpoint.withLink, hd]), hkept.scoped, hkept.same⟩
  rw [Prog.bind_value hrun]
  refine ⟨_, rfl, ?_, token, _, _, rfl⟩
  have hbare : Writes env scope s { s with link := { s.link with token }, draws := s.draws + 2 } :=
    Quiet.scoped (((Quiet.token s htoken).trans (.draw _)).trans (.draw _))
  cases env.transmits (s.draws + 1) with
  | false => simpa using hbare
  | true =>
    refine hbare.tail (.gentle (.prove _ r hr (by rwa [hd]) (by rwa [hd]) fun q hq => ?_))
    obtain ⟨q', hunpack, -, -, hdata⟩ := packFor_reads hp
    cases hunpack.symm.trans hq
    rw [hdata rfl, hd]
    refine List.take_of_length_le ?_
    rw [List.length_append, hlength, (env.fullHash _).toList_length]
    decide

/-- Closing the link comes back, with the resources on its lists cancelled one by one. -/
theorem linkClosed_value (env : Env) : (linkClosed env).Succeeds := by
  have hcancel : ∀ r, (cancelTransfer env r).Succeeds := by
    intro r s
    obtain hrun | ⟨-, t, -, hrun | hrun⟩ := cancelTransfer_cases env r s <;> exact ⟨_, _, hrun⟩
  exact .bind .get fun _ => .bind (.forEach hcancel _) fun _ => .bind (.forEach hcancel _) fun _ =>
    .bind (.modify _) fun _ => .modify _

/-- `teardown` throws before it writes more than a token. -/
theorem teardown_cases (env : Env) (s : Endpoint) :
    (∃ e t, Quiet env s t ∧ teardown env s = (.thrown e, t)) ∨ ∃ t, teardown env s = (.value (), t) := by
  unfold teardown
  rw [Prog.get_bind_run]
  have hgo : ∀ t, ∃ u, ((do
      Prog.modify (.note (.tornDown s.link.status))
      Prog.modify fun e =>
        { e with
          link := { e.link with status := .closed }
          teardownReason := if e.link.initiator then .initiatorClosed else .destinationClosed }
      linkClosed env : Prog String Endpoint Unit)) t = (.value (), u) := by
    intro t
    obtain ⟨_, u, hrun⟩ := linkClosed_value env
      { t.note (.tornDown s.link.status) with
        link := { t.link with status := .closed }
        teardownReason := if t.link.initiator then .initiatorClosed else .destinationClosed }
    exact ⟨u, hrun⟩
  obtain ⟨-, hrun⟩ | ⟨-, hrun⟩ := Prog.when_run_cases (s.link.status ≠ .pending ∧ s.link.status ≠ .closed)
    (do let _ ← send env .data ContextType.linkclose s.link.linkId.toList) s
  · obtain ⟨e, token, htoken, hsend⟩ | ⟨p, token, -, -, htoken, hsend⟩ := send_cases env .data ContextType.linkclose
      s.link.linkId.toList s
    · rw [Prog.bind_thrown (hrun.trans (Prog.bind_thrown hsend))]
      exact .inl ⟨e, _, .token s htoken, rfl⟩
    · rw [Prog.bind_value (hrun.trans (Prog.bind_value hsend))]
      exact .inr (hgo _)
  · rw [Prog.bind_value hrun]
    exact .inr (hgo _)

/-- A corrupt resource that is given up takes the link down with it, or the packet that closes the link cannot
be sent. -/
theorem giveUp_corrupt (env : Env) (hc : s.CleanBut r) (hb : scope.Bounds s)
    (hinitiator : (s.resources r).initiator = false) (hstatus : (s.resources r).status = .corrupt)
    (hout : r ∉ s.outgoingResources) :
    ∃ o t, giveUp env r s = (o, t) ∧ Writes env scope s t ∧ t.Clean
      ∧ (o = .returned ∨ (∃ e, o = .thrown e) ∧ (t.resources r).initiator = false
        ∧ (t.resources r).status = .corrupt) := by
  have hleave : Writes env scope s (s.cancelIncomingResource r) := .single (.gentle (.leaveIncoming s r))
  have hclean : (s.cancelIncomingResource r).Clean := hc.cancelIncoming.clean not_mem_cancelled hout
  obtain ⟨u, hquiet, hreject⟩ := trySend_run env ContextType.resourceRcl
    (Advertisement.unpack (env.decode (s.resources r).advertisement)).h (s.cancelIncomingResource r)
  have hrun : giveUp env r s = ((teardown env >>= fun _ => Prog.leave) : Prog String Endpoint Unit) u := by
    unfold giveUp cancel
    rw [Prog.bind_assoc_run, Prog.get_bind_run, if_pos hstatus, Prog.bind_assoc_run, Prog.modify_bind_run,
      Prog.bind_assoc_run]
    exact Prog.bind_value hreject
  have hbefore : Writes env scope s u := hleave.trans hquiet.scoped
  have hclean' := hquiet.clean hclean
  obtain ⟨e, t, hleft, hdown⟩ | ⟨t, hdown⟩ := teardown_cases env u
  · refine ⟨_, t, hrun.trans (Prog.bind_thrown hdown), hbefore.trans hleft.scoped, hleft.clean hclean',
      .inr ⟨⟨e, rfl⟩, ?_⟩⟩
    obtain ⟨_, _, _, rfl⟩ := (hquiet.trans hleft).same
    exact ⟨hinitiator, hstatus⟩
  · have hmoves : Moves env scope (teardown env) u fun _ _ => True := teardown_moves u
    obtain ⟨hmore, hend, -⟩ := hmoves ⟨hbefore.bounds hb, hclean'⟩
    rw [hdown] at hmore hend
    exact ⟨_, t, hrun.trans (Prog.bind_value hdown), hbefore.trans hmore, hend.2, .inl rfl⟩

/-- How the `try` block of `assemble` ends: the resource is corrupt or complete and still registered, or it
took the link down. -/
theorem assembleBody_cases (env : Env) (hr : scope.touches r) (hb : scope.Bounds s) (hc : s.Clean)
    (hinitiator : (s.resources r).initiator = false) (hstatus : (s.resources r).status = .transferring) :
    ∃ o t, assembleBody env r s = (o, t) ∧ Writes env scope s t
      ∧ (o = .returned ∧ t.Clean
        ∨ t.CleanBut r ∧ (t.resources r).initiator = false
          ∧ (o = .value () ∨ (∃ e, o = .thrown e) ∧ (t.resources r).status = .corrupt)) := by
  have hout : r ∉ s.outgoingResources := fun hmem => by
    rw [(hc.outgoing r hmem).2.1] at hinitiator
    cases hinitiator
  obtain ⟨s₁, hs₁⟩ : ∃ s₁, s₁ = s.withResource r fun d => { d with status := .assembling } := ⟨_, rfl⟩
  have hwrites₁ : Writes env scope s s₁ := .single (hs₁ ▸ .assemble s r hr hinitiator hstatus)
  have hbut₁ : s₁.CleanBut r := hs₁ ▸ (hc.but r).withResource rfl
  have hinitiator₁ : (s₁.resources r).initiator = false := by rw [hs₁, Endpoint.withResource_self, hinitiator]
  have hstatus₁ : (s₁.resources r).status = .assembling := by rw [hs₁, Endpoint.withResource_self]
  have hplain : ∃ plaintext s₂, Quiet env s₁ s₂ ∧ ∀ f : Bytes → Prog String Endpoint Unit,
      (if (s₁.resources r).encrypted then decrypt env (received (s₁.resources r)) >>= f
        else pure (received (s₁.resources r)) >>= f) s₁ = f plaintext s₂ := by
    by_cases hencrypted : (s₁.resources r).encrypted = true
    · obtain ⟨plaintext, t, hquiet, hrun⟩ := decrypt_run env (received (s₁.resources r)) s₁
      exact ⟨plaintext, t, hquiet, fun f => by rw [if_pos hencrypted, Prog.bind_value hrun]⟩
    · exact ⟨_, s₁, .refl s₁, fun f => by rw [if_neg hencrypted, Prog.pure_bind_run]⟩
  obtain ⟨plaintext, s₂, hquiet, hdecrypt⟩ := hplain
  have hwrites₂ := hwrites₁.trans hquiet.scoped
  have hbut₂ := hquiet.cleanBut hbut₁
  have hsame : s₂.resources = s₁.resources ∧ s₂.outgoingResources = s₁.outgoingResources := by
    obtain ⟨_, _, _, rfl⟩ := hquiet.same
    exact ⟨rfl, rfl⟩
  have hcorrupt : Write env scope s₂ (s₂.withResource r fun d => { d with status := .corrupt }) :=
    .corrupt s₂ r hr (by rw [hsame.1, hinitiator₁]) (.inl (by rw [hsame.1, hstatus₁]))
  have hbut₃ : (s₂.withResource r fun d => { d with status := .corrupt }).CleanBut r := hbut₂.withResource rfl
  have hinitiator₃ : ((s₂.withResource r fun d => { d with status := .corrupt }).resources r).initiator = false := by
    rw [Endpoint.withResource_self, hsame.1, hinitiator₁]
  have hrun : assembleBody env r s = (Prog.when (s₁.resources r).compressed (do
        setStatus r .corrupt
        giveUp env r) >>= fun _ =>
      if (env.fullHash (plaintext.mid randomHashSize ++ (s₁.resources r).randomHash)).toList
          ≠ (s₁.resources r).hash then setStatus r .corrupt
      else do
        Prog.modify (.withResource r fun d =>
          { d with data := plaintext.mid randomHashSize, status := .complete })
        prove env r) s₂ := by
    have hstart : setStatus r .assembling s = ((.value (), s₁) : Outcome String Unit × Endpoint) := by
      rw [hs₁]
      rfl
    unfold assembleBody
    rw [Prog.bind_value hstart, Prog.get_bind_run]
    exact hdecrypt _
  rw [hrun]
  by_cases hcompressed : (s₁.resources r).compressed = true
  · rw [Prog.when_of hcompressed]
    obtain ⟨o, t, hgive, hmore, hend, hhow⟩ := giveUp_corrupt env hbut₃
      (Writes.bounds (hwrites₂.tail hcorrupt) hb) hinitiator₃ (by rw [Endpoint.withResource_self])
      (by rw [show (s₂.withResource r _).outgoingResources = s₁.outgoingResources from hsame.2, hs₁]; exact hout)
    have hstop : ∀ f : Unit → Prog String Endpoint Unit,
        ((setStatus r .corrupt >>= fun _ => giveUp env r) >>= f) s₂ = (o, t) := by
      intro f
      have hbind : (setStatus r .corrupt >>= fun _ => giveUp env r) s₂ = (o, t) := hgive
      rw [Prog.bind_run, hbind]
      obtain rfl | ⟨⟨e, rfl⟩, -⟩ := hhow <;> rfl
    refine ⟨o, t, hstop _, (hwrites₂.tail hcorrupt).trans hmore, ?_⟩
    obtain hret | ⟨hthrown, hi, hst⟩ := hhow
    · exact .inl ⟨hret, hend⟩
    · exact .inr ⟨hend.but r, hi, .inr ⟨hthrown, hst⟩⟩
  rw [Prog.when_of_not hcompressed, Prog.pure_bind_run]
  split
  case isTrue => exact ⟨_, _, rfl, hwrites₂.tail hcorrupt, .inr ⟨hbut₃, hinitiator₃, .inl rfl⟩⟩
  case isFalse hhash =>
    rw [not_not] at hhash
    rw [Prog.modify_bind_run]
    obtain ⟨s₃, hs₃⟩ : ∃ s₃, s₃ = s₂.withResource r fun d =>
      { d with data := plaintext.mid randomHashSize, status := .complete } := ⟨_, rfl⟩
    have hcomplete : Write env scope s₂ s₃ := hs₃ ▸ .complete s₂ r _ hr (by rw [hsame.1, hinitiator₁])
      (by rw [hsame.1, hstatus₁]) (by rw [hsame.1]; exact hhash)
    have hlength : (s₃.resources r).hash.length = hashBytes := by
      rw [hs₃, Endpoint.withResource_self]
      dsimp only
      rw [hsame.1, ← hhash, (env.fullHash _).toList_length]
      rfl
    obtain ⟨t, hprove, hmore, token, draws, new, hsame'⟩ := prove_run env hr
      (by rw [hs₃, Endpoint.withResource_self, hsame.1, hinitiator₁])
      (by rw [hs₃, Endpoint.withResource_self]) hlength
    refine ⟨_, t, hs₃ ▸ hprove, (hwrites₂.tail hcomplete).trans hmore, .inr ?_⟩
    have hbut : s₃.CleanBut r := hs₃ ▸ hbut₂.withResource rfl
    subst hsame'
    refine ⟨⟨hbut.nodup, hbut.incoming, hbut.outgoing, hbut.parts⟩, ?_, .inl rfl⟩
    rw [hs₃, Endpoint.withResource_self, hsame.1, hinitiator₁]

/-- A resource of the receiver that takes parts, or has failed meanwhile. -/
def Receiving (d : ResourceData) : Prop := d.initiator = false ∧ (d.status = .transferring ∨ d.status = .failed)

/-- That a resource is one of the receiver's lasts: no write makes it one of the initiator's. -/
theorem receiving_lasting : Lasting Receiving where
  failed _ h := ⟨h.1, .inr rfl⟩
  rejected _ h h' := by
    rw [h'.1] at h
    cases h

/-- Assembling a resource of the receiver is a sequence of writes: it is filed as complete and proved, or as
corrupt. -/
theorem assemble_moves (hr : scope.touches r) (h : Receiving (s.resources r)) :
    Moves env scope (assemble env r) s fun _ _ => True := by
  refine Stays.call (Q := fun _ _ => True) (Stays.get_bind (Stays.when (fun hfailed => ?_) fun _ => trivial))
  have hstatus := h.2.resolve_right hfailed
  refine Moves.of_run fun hb hc => ?_
  obtain ⟨o, t, hbody, hwrites, hhow⟩ := assembleBody_cases env hr hb hc h.1 hstatus
  have hfinish : ∀ u, Writes env scope s u → u.CleanBut r → (u.resources r).initiator = false →
      Prog.catching (assembleBody env r) (fun _ => setStatus r .corrupt) s = (.value (), u) →
      Writes env scope s ((Prog.catching (assembleBody env r) (fun _ => setStatus r .corrupt) >>= fun _ =>
          resourceConcluded env r >>= fun _ => concludedCallback r) s).2
        ∧ ((Prog.catching (assembleBody env r) (fun _ => setStatus r .corrupt) >>= fun _ =>
          resourceConcluded env r >>= fun _ => concludedCallback r) s).2.Clean := by
    intro u hu hbut hinitiator hrun
    rw [Prog.bind_value hrun]
    obtain ⟨hmore, hend⟩ := conclusion_moves env hbut (.inl hinitiator) (hu.bounds hb)
    exact ⟨hu.trans hmore, hend⟩
  have hcatch : ∀ (f : Unit → Prog String Endpoint Unit), o = .returned →
      (Prog.catching (assembleBody env r) (fun _ => setStatus r .corrupt) >>= f) s = (.returned, t) := by
    intro f ho
    have hrun : Prog.catching (assembleBody env r) (fun _ => setStatus r .corrupt) s = (.returned, t) := by
      unfold Prog.catching
      rw [hbody, ho]
    rw [Prog.bind_run, hrun]
  obtain ⟨hreturned, hend⟩ | ⟨hbut, hinitiator, rfl | ⟨⟨e, rfl⟩, hcorrupt⟩⟩ := hhow
  · rw [hcatch _ hreturned]
    exact ⟨hwrites, hend, fun _ _ => trivial⟩
  · obtain ⟨hall, hend⟩ := hfinish t hwrites hbut hinitiator (by unfold Prog.catching; rw [hbody])
    exact ⟨hall, hend, fun _ _ => trivial⟩
  · obtain ⟨hall, hend⟩ := hfinish (t.withResource r fun d => { d with status := .corrupt })
      (hwrites.tail (.corrupt t r hr hinitiator (.inr hcorrupt))) (hbut.withResource rfl)
      (by rw [Endpoint.withResource_self, hinitiator]) (by unfold Prog.catching; rw [hbody]; rfl)
    exact ⟨hall, hend, fun _ _ => trivial⟩

/-- A proof that fits ends the transfer of the initiator. -/
theorem validateProof_moves {p : Packet} (hr : scope.touches r) (hp : scope.packet = some p)
    (hproof : IsResourceProof p) (hinitiator : (s.resources r).initiator = true)
    (hhash : p.data.left hashBytes = (s.resources r).hash) :
    Moves env scope (Resource.validateProof env r p.data) s fun _ _ => True := by
  refine Stays.get_bind (Stays.when (fun hfits => ?_) fun _ => trivial)
  refine Moves.of_run fun hb hc => ?_
  have hvalidated : Write env scope s (s.withResource r fun d => { d with status := .complete }) :=
    .validated s r hr hp hinitiator hproof hfits.2.1 hhash hfits.2.2
  obtain ⟨hmore, hend⟩ := conclusion_moves env
    (show (s.withResource r fun d => { d with status := .complete }).CleanBut r from (hc.but r).withResource rfl)
    (.inr (by rw [Endpoint.withResource_self]; exact show ¬ Active .complete by decide))
    (Writes.bounds (.single hvalidated) hb)
  exact ⟨(ReflTransGen.single hvalidated).trans hmore, hend, fun _ _ => trivial⟩

/-! ## Receiving parts -/

/-- Asking for the next parts is a packet and the bookkeeping of the window. -/
theorem requestNext_moves (hr : scope.touches r) (s : Endpoint) :
    Moves env scope (requestNext env r) s fun _ _ => True := by
  refine Stays.get_bind (Stays.when (fun _ => ?_) fun _ => trivial)
  refine Stays.modify_bind (gentle_ok fun _ _ => .keep s r _ hr
    ⟨rfl, rfl, rfl, rfl, rfl, rfl, fun _ => rfl, id⟩) ?_
  refine Stays.catching (Stays.bind (Moves.quiet (send_quiet (.inl PacketType.noConfusion)) _)
    fun _ _ _ _ => Stays.pure trivial) fun _ t _ => cancel_moves (scope.knows_of_touches r hr) t

/-- A loop that keeps the books keeps them. -/
theorem Bookkeeping.foldl {f : ResourceData → Nat → ResourceData} (hf : ∀ d i, Bookkeeping d (f d i))
    (is : List Nat) (d : ResourceData) : Bookkeeping d (is.foldl f d) := by
  induction is generalizing d with
  | nil => exact ⟨rfl, rfl, rfl, rfl, rfl, rfl, fun _ => rfl, id⟩
  | cons i is ih => exact (hf d i).trans (ih (f d i))

/-- Filing an entry of the hashmap is bookkeeping. -/
theorem updateEntry_bookkeeping (hashmap : Bytes) (base : Nat) (d : ResourceData) (i : Nat) :
    Bookkeeping d (updateEntry hashmap base d i) :=
  ⟨rfl, rfl, rfl, rfl, rfl, rfl, fun _ => rfl, id⟩

/-- Filing a segment of the hashmap is bookkeeping. -/
theorem updateEntries_bookkeeping (segment : UInt16) (hashmap : Bytes) (d : ResourceData) :
    Bookkeeping d (updateEntries segment hashmap d) :=
  .foldl (updateEntry_bookkeeping hashmap _) _ d

theorem fastRound_bookkeeping (d : ResourceData) : Bookkeeping d (fastRound d) := by
  unfold fastRound
  split <;> exact ⟨rfl, rfl, rfl, rfl, rfl, rfl, fun _ => rfl, id⟩

theorem verySlowRound_bookkeeping (d : ResourceData) : Bookkeeping d (verySlowRound d) := by
  unfold verySlowRound
  split <;> exact ⟨rfl, rfl, rfl, rfl, rfl, rfl, fun _ => rfl, id⟩

/-- Growing the window is bookkeeping: neither the parts nor the status change. -/
theorem growWindow_bookkeeping (d : ResourceData) : Bookkeeping d (growWindow d) := by
  unfold growWindow
  split <;> exact ⟨rfl, rfl, rfl, rfl, rfl, rfl, fun _ => rfl, id⟩

theorem shrinkWindow_bookkeeping (d : ResourceData) : Bookkeeping d (shrinkWindow d) := by
  unfold shrinkWindow
  split
  · dsimp only
    split <;> exact ⟨rfl, rfl, rfl, rfl, rfl, rfl, fun _ => rfl, id⟩
  · exact ⟨rfl, rfl, rfl, rfl, rfl, rfl, fun _ => rfl, id⟩

/-- What happens behind a round of parts is bookkeeping of the rates and the window. -/
theorem afterRequest_bookkeeping (rates : Rates) (d : ResourceData) : Bookkeeping d (afterRequest rates d) := by
  have hfast : Bookkeeping d
      (if rates.measured && rates.fast then fastRound (growWindow d) else growWindow d) := by
    split
    · exact (growWindow_bookkeeping d).trans (fastRound_bookkeeping _)
    · exact growWindow_bookkeeping d
  unfold afterRequest
  dsimp only
  split
  · exact hfast.trans (verySlowRound_bookkeeping _)
  · exact hfast

/-- Filing a part at its place is bookkeeping: what it is for the delivery is told by the parts, which only fill
up. -/
theorem fileAt_bookkeeping (partData partHash : Bytes) (d : ResourceData) (i : Nat) :
    Bookkeeping d (fileAt partData partHash d i) := by
  unfold fileAt
  split <;> exact ⟨rfl, rfl, rfl, rfl, rfl, rfl, fun _ => rfl, id⟩

/-- A part that arrives makes the resource one in transfer, and the rest is bookkeeping. -/
theorem filePart_bookkeeping (env : Env) (partData : Bytes) (d : ResourceData) :
    Bookkeeping { d with status := .transferring } (filePart env partData d) :=
  .foldl (fileAt_bookkeeping partData _) _ _

/-- A segment of the hashmap is filed, and parts are asked for again. -/
theorem hashmapUpdate_moves (hr : scope.touches r) (segment : UInt16) (hashmap : Bytes)
    (h : Receiving (s.resources r)) : Moves env scope (hashmapUpdate env r segment hashmap) s fun _ _ => True := by
  refine Stays.get_bind (Stays.when (fun hfailed => ?_) fun _ => trivial)
  refine Stays.modify_bind (gentle_ok fun _ _ => .transfer s r _ hr (fun hi => ?_) ?_ ?_) (requestNext_moves hr _)
  · rw [h.1] at hi
    cases hi
  · exact .inr (.inl (h.2.resolve_right hfailed))
  · exact (updateEntries_bookkeeping segment hashmap _).trans ⟨rfl, rfl, rfl, rfl, rfl, rfl, fun _ => rfl, id⟩

/-- A hashmap update packet that reads is an update, and one that does not cancels the transfer. -/
theorem hashmapUpdatePacket_moves (hr : scope.touches r) (plaintext : Bytes) (h : Receiving (s.resources r)) :
    Moves env scope (hashmapUpdatePacket env r plaintext) s fun _ _ => True := by
  refine Stays.get_bind (Stays.when (fun _ => ?_) fun _ => trivial)
  refine Stays.modify_bind (gentle_ok fun _ _ => .keep s r _ hr
    ⟨rfl, rfl, rfl, rfl, rfl, rfl, fun _ => rfl, id⟩) (Stays.when (fun _ => ?_) fun _ => trivial)
  split
  · refine Stays.when (fun _ => hashmapUpdate_moves hr _ _ ?_) fun _ => trivial
    rw [Endpoint.withResource_self]
    exact h
  · exact Stays.pure trivial

/-- A part is filed; the last one leads on to assembling, and the last of a round to the next request. -/
theorem receivePart_moves (hr : scope.touches r) (packet : Packet) (rates : Rates)
    (h : Receiving (s.resources r)) : Moves env scope (receivePart env r packet rates) s fun _ _ => True := by
  have hfree : ∀ t, Moves env scope (Prog.modify (.withResource r fun d => { d with receiveLock := false })) t
      fun _ _ => True := fun t =>
    Stays.modify (gentle_ok fun _ _ => .keep t r _ hr ⟨rfl, rfl, rfl, rfl, rfl, rfl, fun _ => rfl, id⟩) trivial
  refine Stays.call (Q := fun _ _ => True) (Stays.get_bind ?_)
  refine Stays.bind (R := fun _ t => t = s) (Stays.when (fun _ => Stays.leave) fun _ => rfl) ?_
  rintro _ s - rfl
  have hset : Bookkeeping (s.resources r)
      { s.resources r with receiveLock := true, retriesLeft := maxRetries } :=
    ⟨rfl, rfl, rfl, rfl, rfl, rfl, fun _ => rfl, id⟩
  have hlock : Bookkeeping (s.resources r)
      (if rates.fastFirst then fastRound { s.resources r with receiveLock := true, retriesLeft := maxRetries }
        else { s.resources r with receiveLock := true, retriesLeft := maxRetries }) := by
    split
    · exact hset.trans (fastRound_bookkeeping _)
    · exact hset
  refine Stays.modify_bind (gentle_ok fun _ _ => .keep s r _ hr hlock) ?_
  refine Stays.bind (R := fun _ t => Receiving (t.resources r) ∧ (t.resources r).status = .transferring) ?_ ?_
  · refine Stays.when (fun _ => Stays.bind (hfree _) fun _ _ _ _ => Stays.leave) fun hfailed => ?_
    rw [Endpoint.withResource_self]
    unfold Receiving
    rw [hlock.initiator, hlock.status]
    exact ⟨h, h.2.resolve_right hfailed⟩
  rintro _ t - ⟨ht, hstatus⟩
  have hfile := filePart_bookkeeping env packet.data (t.resources r)
  refine Stays.modify_bind (gentle_ok fun _ _ => .transfer t r _ hr (fun hi => ?_) (.inr (.inl hstatus)) hfile) ?_
  · rw [ht.1] at hi
    cases hi
  refine Stays.get_bind ?_
  have hreceiving : Receiving ((t.withResource r (filePart env packet.data)).resources r) := by
    rw [Endpoint.withResource_self]
    exact ⟨hfile.initiator.trans ht.1, .inl hfile.status⟩
  refine Stays.ite (fun _ => ?_) fun _ => ?_
  · refine Stays.modify_bind (gentle_ok fun _ _ => .keep _ r _ hr
      ⟨rfl, rfl, rfl, rfl, rfl, rfl, fun _ => rfl, id⟩) ?_
    refine Stays.bind (assemble_moves hr ?_) fun _ u _ _ => hfree u
    rw [Endpoint.withResource_self]
    exact hreceiving
  · refine Stays.bind (R := fun _ _ => True) (Stays.when (fun _ => ?_) fun _ => trivial) fun _ u _ _ => hfree u
    exact Stays.modify_bind (gentle_ok fun _ _ => .keep _ r _ hr (afterRequest_bookkeeping rates _))
      (requestNext_moves hr _)

/-- A tick keeps the books, asks for parts, or cancels. -/
theorem watchdogJob_moves (hr : scope.touches r) (late : Bool)
    (h : (s.resources r).status = .advertised → (s.resources r).initiator = true) :
    Moves env scope (watchdogJob env r late) s fun _ _ => True := by
  have hcancel : ∀ t, Moves env scope (cancel env r) t fun _ _ => True :=
    cancel_moves (scope.knows_of_touches r hr)
  refine Stays.get_bind (Stays.when (fun _ => ?_) fun _ => trivial)
  split
  case h_1 hstatus =>
    refine Stays.ite (fun _ => hcancel s) fun _ => Stays.catching ?_ fun _ t _ => hcancel t
    refine Stays.modify_bind (gentle_ok fun _ _ => .keep s r _ hr
      ⟨rfl, rfl, rfl, rfl, rfl, rfl, fun hi => ?_, id⟩) ?_
    · rw [h hstatus] at hi
      cases hi
    · exact Stays.bind (Moves.quiet (send_quiet (.inl PacketType.noConfusion)) _)
        fun _ _ _ _ => Stays.pure trivial
  case h_2 => exact hcancel s
  case h_3 =>
    refine Stays.ite (fun _ => hcancel s) fun _ => Stays.modify (gentle_ok fun _ _ => .keep s r _ hr
      ⟨rfl, rfl, rfl, rfl, rfl, rfl, fun _ => rfl, id⟩) trivial
  case h_4 =>
    refine Stays.ite (fun _ => ?_) fun _ => hcancel s
    exact Stays.modify_bind (gentle_ok fun _ _ => .keep s r _ hr
      ((shrinkWindow_bookkeeping _).trans ⟨rfl, rfl, rfl, rfl, rfl, rfl, fun _ => rfl, id⟩)) (requestNext_moves hr _)
  case h_5 => exact Stays.pure trivial

/-! ## Accepting -/

/-- An advertisement that is accepted makes a resource of the receiver's and asks for its first parts. -/
theorem accept_moves (plaintext requestId : Bytes) (callback : Bool) (s : Endpoint) :
    Moves env scope (accept env plaintext requestId callback) s fun _ _ => True := by
  refine Stays.ite (fun _ => Stays.pure trivial) fun _ => ?_
  refine Stays.bind (newResource_moves [] s) fun r t _ hmade => Stays.get_bind ?_
  refine Stays.bind (R := fun _ u => u = t) (Stays.ofExcept fun _ _ => rfl) ?_
  rintro totalParts t - rfl
  refine Stays.assuming fun ⟨_, hc⟩ => Stays.modify_bind (gentle_ok fun _ _ => .accept t r _ plaintext requestId
    totalParts callback hmade.touched hmade.made hmade.status hmade.initiator rfl) ?_
  refine Stays.ite (fun _ => Stays.pure trivial) fun _ => ?_
  have hmem : r ∉ t.incomingResources := (hc.not_mem (by rw [hmade.status]; decide)).1
  have hstatus : ((t.withResource r (.ofAdvertisement (Advertisement.unpack (env.decode plaintext)) plaintext
      requestId totalParts callback)).resources r).status = .transferring := by
    rw [Endpoint.withResource_self]
    rfl
  have hinitiator : ((t.withResource r (.ofAdvertisement (Advertisement.unpack (env.decode plaintext)) plaintext
      requestId totalParts callback)).resources r).initiator = false := by
    rw [Endpoint.withResource_self]
    rfl
  refine Stays.modify_bind (gentle_ok fun _ _ => .register _ r hmade.touched hmade.made hmem hinitiator hstatus) ?_
  exact Stays.bind (hashmapUpdate_moves hmade.touched 0 _ ⟨hinitiator, .inl hstatus⟩)
    fun _ _ _ _ => Stays.pure trivial

/-! ## Dispatch -/

/-- The scope reaches every resource the endpoint knows. -/
def Reaches (scope : Scope) (e : Endpoint) : Prop := ∀ q, e.Known q → scope.touches q

/-- A quiet write keeps what the scope reaches. -/
theorem Quiet.reaches (h : Quiet env s t) (hs : Reaches scope s) : Reaches scope t := by
  obtain ⟨_, _, _, rfl⟩ := h.same
  exact hs

/-- A loop over incoming resources. -/
theorem eachIncoming {f : Nat → Prog String Endpoint Unit} (hs : Reaches scope s) (c : Nat → Bool)
    (hf : ∀ q t, Receiving (t.resources q) →
      Moves env (Scope.one t q scope.packet) (f q) t fun _ _ => True) :
    Moves env scope (Prog.forEach (s.incomingResources.filter c) f) s fun _ _ => True := by
  refine Stays.assuming fun ⟨_, hc⟩ => Moves.eachResource receiving_lasting (hc.nodup.1.filter _)
    (fun q hq => ?_) hf
  have hmem := List.mem_of_mem_filter hq
  exact ⟨hs q (.inl hmem), (hc.incoming q hmem).1, (hc.incoming q hmem).2.1, .inl (hc.incoming q hmem).2.2⟩

theorem one_touches (t : Endpoint) (q : Nat) (packet : Option Packet) : (Scope.one t q packet).touches q := .inl rfl

/-- An advertisement is accepted, with or without a request behind it, or ignored. -/
theorem receiveAdvertisement_moves (plaintext : Bytes) (s : Endpoint) :
    Moves env scope (receiveAdvertisement env plaintext) s fun _ _ => True := by
  have haccept : ∀ requestId callback t, Moves env scope
      (do let _ ← accept env plaintext requestId callback) t fun _ _ => True := fun requestId callback t =>
    Stays.bind (accept_moves plaintext requestId callback t) fun _ _ _ _ => Stays.pure trivial
  refine Stays.get_bind (Stays.ite (fun _ => haccept _ _ s) fun _ => Stays.ite (fun _ => ?_) fun _ => ?_)
  · refine Stays.get_bind (Moves.each (fun q _ t => ?_) s)
    refine Stays.bind (accept_moves plaintext _ false t) fun accepted u _ _ => ?_
    exact Stays.when (fun _ => Stays.modify (gentle_ok fun _ _ => .answer u _ _ (.inl rfl)) trivial) fun _ => trivial
  · split
    · exact Stays.pure trivial
    · exact Stays.when (fun _ => Stays.catching (haccept _ _ s) fun _ t _ => Stays.pure trivial) fun _ => trivial
    · exact haccept _ _ s

/-- What decrypts, decrypts under the token of the link. -/
theorem decrypt_moves (ciphertext : Bytes) (s : Endpoint) :
    Moves env scope (decrypt env ciphertext) s fun plaintext t => Quiet env s t
      ∧ (plaintext ≠ [] → ∃ token, t.link.getToken = .ok token
        ∧ tokenDecrypt env.ciphers token ciphertext = .ok plaintext) := by
  have hquiet : Quiet env s (decrypt env ciphertext s).2 := decrypt_quiet ciphertext s
  refine fun ⟨hb, hc⟩ => ⟨hquiet.scoped, ⟨hquiet.scoped.bounds hb, hquiet.clean hc⟩, fun plaintext hvalue =>
    ⟨hquiet, fun hne => ?_⟩⟩
  unfold decrypt at hvalue ⊢
  rw [Prog.get_bind_run] at hvalue ⊢
  cases hkey : s.link.getToken with
  | error e =>
    rw [hkey] at hvalue
    cases hvalue
    exact absurd rfl hne
  | ok token =>
    rw [hkey] at hvalue
    refine ⟨token, rfl, ?_⟩
    have hplain : (tokenDecrypt env.ciphers token ciphertext).toOption.getD [] = plaintext := by
      cases hvalue
      rfl
    cases hdecrypt : tokenDecrypt env.ciphers token ciphertext with
    | error e =>
      rw [hdecrypt] at hplain
      exact absurd hplain.symm hne
    | ok m =>
      rw [hdecrypt] at hplain
      exact congrArg _ hplain

/-- What is done with a packet that decrypts is done behind the quiet write of the token; a packet that does not
decrypt does nothing more. -/
theorem withPlaintext_moves {packet : Packet} {f : Bytes → Prog String Endpoint Unit}
    (hf : ∀ plaintext t, Quiet env s t → (∃ token, t.link.getToken = .ok token
      ∧ tokenDecrypt env.ciphers token packet.data = .ok plaintext) →
      Moves env scope (f plaintext) t fun _ _ => True) :
    Moves env scope (withPlaintext env packet f) s fun _ _ => True :=
  Stays.bind (decrypt_moves packet.data s) fun plaintext t _ ht =>
    Stays.when (fun hne => hf plaintext t ht.1 (ht.2 hne)) fun _ => trivial

/-- The one place where the remote peer is identified. -/
theorem receiveIdentify_moves {packet : Packet} {plaintext : Bytes} (hp : scope.packet = some packet)
    (htype : packet.packetType = .data) (hcontext : packet.context = ContextType.linkidentify)
    (hplain : ∃ token, s.link.getToken = .ok token
      ∧ tokenDecrypt env.ciphers token packet.data = .ok plaintext) :
    Moves env scope (receiveIdentify env packet plaintext) s fun _ _ => True := by
  refine Stays.get_bind (Stays.when (fun hfits => Stays.when (fun hverify => ?_) fun _ => trivial) fun _ => trivial)
  obtain ⟨token, hkey, hdecrypt⟩ := hplain
  have hlength := hfits.2
  have hsplit : plaintext = plaintext.left ecpubsize ++ plaintext.midLen ecpubsize siglength := by
    have hrest : plaintext.midLen ecpubsize siglength = plaintext.drop ecpubsize :=
      List.take_of_length_le (by rw [List.length_drop]; omega)
    rw [hrest]
    exact (List.take_append_drop ecpubsize plaintext).symm
  refine Stays.modify (gentle_ok fun _ _ => .identify s hp hfits.1 ⟨htype, hcontext, token,
    plaintext.midLen ecpubsize siglength, hkey, hsplit ▸ hdecrypt, ?_, ?_, hverify⟩) trivial
  · simp only [Bytes.left, List.length_take]
    omega
  · simp only [Bytes.midLen, List.length_take, List.length_drop]
    omega

/-- A request packet is answered or dropped, and each is a sequence of writes. -/
theorem receiveRequest_moves (packet : Packet) (s : Endpoint) :
    Moves env scope (receiveRequest env packet) s fun _ _ => True := by
  refine Stays.catching (Stays.bind (Moves.quiet (decrypt_quiet _) s) fun packedRequest t _ _ =>
    Stays.when (fun _ => ?_) fun _ => trivial) fun _ _ _ => Stays.pure trivial
  cases unpackRequestEnvelope env packedRequest with
  | none => exact Stays.pure trivial
  | some request => exact handleRequest_moves _ request t

/-- A response packet concludes a receipt, or is dropped. -/
theorem receiveResponse_moves (packet : Packet) (s : Endpoint) :
    Moves env scope (receiveResponse env packet) s fun _ _ => True :=
  Stays.catching (Stays.bind (Moves.quiet (decrypt_quiet _) s) fun _ t _ _ =>
    Stays.when (fun _ => handleResponse_moves _ _ _ _ t) fun _ => trivial) fun _ _ _ => Stays.pure trivial

/-- The round trip time makes the link of the responder active; that is a write which no resource knows of. -/
theorem rttPacket_moves (packet : Packet) (hopen : s.link.status ≠ .closed) (hrole : s.link.initiator = false) :
    Moves env scope (rttPacket env packet) s fun _ _ => True := by
  refine Stays.bind (Moves.quiet (decrypt_quiet _) s) fun _ t _ hquiet => Stays.when (fun _ => ?_) fun _ => trivial
  have hopen' : t.link.status ≠ .closed ∧ t.link.initiator = false := by
    obtain ⟨_, _, _, rfl⟩ := hquiet.same
    exact ⟨hopen, hrole⟩
  exact Stays.get_bind (Stays.modify_bind (gentle_ok fun _ _ => .activate t hopen'.1 (.inl hopen'.2))
    (Stays.modify (gentle_ok fun _ _ => .note _ trivial) trivial))

/-- A packet that names the link closes it, and with it the transfers on its lists. -/
theorem teardownPacket_moves (packet : Packet) (s : Endpoint) :
    Moves env scope (teardownPacket env packet) s fun _ _ => True :=
  Stays.bind (Moves.quiet_of (decrypt_quiet packet.data) fun _ _ => decrypt_asks env packet.data s)
    fun _ t _ hasked => Stays.get_bind (Stays.when
      (fun _ => Stays.modify_bind (gentle_ok fun _ _ => .note t trivial)
        (Stays.modify_bind (gentle_ok fun _ _ => .close (t.note _) _ (.inr (.inr hasked))) (linkClosed_moves rfl)))
      fun _ => trivial)

/-- A request for parts reaches a resource on the list of the outgoing ones. -/
theorem receiveResourceRequest_moves (packet : Packet) (plaintext : Bytes) (hs : Reaches scope s) :
    Moves env scope (receiveResourceRequest env packet plaintext) s fun _ _ => True := by
  refine Stays.get_bind (Stays.when (fun _ => ?_) fun _ => trivial)
  cases hfind : s.outgoingResources.find? fun r => decide ((s.resources r).hash = requestedHash plaintext) with
  | none => exact Stays.pure trivial
  | some r =>
    have hmem := List.mem_of_find?_eq_some hfind
    have hr := hs r (.inr (.inl hmem))
    refine Stays.when (fun _ => ?_) fun _ => trivial
    exact Stays.modify_bind (gentle_ok fun _ _ => .keep s r _ hr
      ⟨rfl, rfl, rfl, rfl, rfl, rfl, fun _ => rfl, id⟩) (Resource.request_moves (s := s.withResource r _) hr hmem plaintext)

/-- What is done for an incoming resource is done within the scope of that one resource. -/
theorem forIncoming_moves {plaintext : Bytes} {f : Nat → Prog String Endpoint Unit} (hs : Reaches scope s)
    (hf : ∀ q t, Receiving (t.resources q) →
      Moves env (Scope.one t q scope.packet) (f q) t fun _ _ => True) :
    Moves env scope (forIncoming plaintext f) s fun _ _ => True :=
  Stays.get_bind (Stays.when (fun _ => eachIncoming hs _ hf) fun _ => trivial)

/-- A data packet is a sequence of writes within its scope, whatever its context is. -/
theorem receiveData_moves {packet : Packet} (rates : Nat → Rates) (hs : Reaches scope s)
    (hp : scope.packet = some packet) (htype : packet.packetType = .data) (hopen : s.link.status ≠ .closed) :
    Moves env scope (receiveData env packet rates) s fun _ _ => True := by
  refine Stays.ite (fun _ => ?_) fun _ => Stays.ite (fun hcontext => ?_) fun _ =>
    Stays.ite (fun _ => receiveRequest_moves packet s) fun _ =>
    Stays.ite (fun _ => receiveResponse_moves packet s) fun _ => Stays.ite (fun _ => ?_) fun _ =>
    Stays.ite (fun _ => teardownPacket_moves packet s) fun _ => Stays.ite (fun _ => ?_) fun _ =>
    Stays.ite (fun _ => ?_) fun _ => Stays.ite (fun _ => ?_) fun _ => Stays.ite (fun _ => ?_) fun _ =>
    Stays.ite (fun _ => ?_) fun _ => Stays.ite (fun _ => ?_) fun _ => Stays.pure trivial
  case refine_1 => exact withPlaintext_moves fun _ t _ _ => Stays.modify (gentle_ok fun _ _ => .note t trivial) trivial
  case refine_2 => exact withPlaintext_moves fun _ _ _ hplain => receiveIdentify_moves hp htype hcontext hplain
  case refine_3 => exact Stays.get_bind (Stays.when (fun hrole => rttPacket_moves packet hopen hrole) fun _ => trivial)
  case refine_4 => exact withPlaintext_moves fun plaintext t _ _ => receiveAdvertisement_moves plaintext t
  case refine_5 =>
    exact withPlaintext_moves fun plaintext _ hquiet _ =>
      receiveResourceRequest_moves packet plaintext (hquiet.reaches hs)
  case refine_6 =>
    exact withPlaintext_moves fun plaintext _ hquiet _ => forIncoming_moves (hquiet.reaches hs) fun q t hq =>
      hashmapUpdatePacket_moves (one_touches ..) plaintext hq
  case refine_7 =>
    exact withPlaintext_moves fun _ _ hquiet _ => forIncoming_moves (hquiet.reaches hs) fun q t _ =>
      cancel_moves ((Scope.one t q scope.packet).knows_of_touches q (one_touches ..)) t
  case refine_8 =>
    refine Stays.get_bind (Stays.when (fun _ => ?_) fun _ => trivial)
    exact Stays.bind (Moves.quiet (send_quiet (.inl PacketType.noConfusion)) s) fun _ _ _ _ => Stays.pure trivial
  case refine_9 =>
    refine Stays.get_bind ?_
    have hall : s.incomingResources = s.incomingResources.filter fun _ => true := (List.filter_true _).symm
    rw [hall]
    exact eachIncoming hs _ fun q t hq => receivePart_moves (one_touches ..) packet (rates q) hq

/-- A proof packet is for a resource of the initiator that waits for it, or for none. -/
theorem receiveProof_moves {packet : Packet} (hs : Reaches scope s) (hp : scope.packet = some packet)
    (htype : packet.packetType = .proof) : Moves env scope (receiveProof env packet) s fun _ _ => True := by
  refine Stays.get_bind (Stays.when (fun hcontext => ?_) fun _ => trivial)
  have hlasting : Lasting fun d => d.initiator = true ∧ packet.data.left hashBytes = d.hash :=
    ⟨fun _ h => h, fun _ _ h => h⟩
  refine Stays.assuming fun ⟨_, hc⟩ => Moves.eachResource hlasting (hc.nodup.2.filter _) (fun q hq => ?_)
    fun q t hq => validateProof_moves (one_touches ..) hp ⟨htype, hcontext⟩ hq.1 hq.2
  obtain ⟨hmem, hhash⟩ := List.mem_filter.mp hq
  exact ⟨hs q (.inr (.inl hmem)), (hc.outgoing q hmem).1, (hc.outgoing q hmem).2.1, (of_decide_eq_true hhash).symm⟩

/-- A packet is a sequence of writes within its scope, whatever its type is, and whatever state the link is in. -/
theorem receive_moves {packet : Packet} (receivingInterface : Option Transport.Interface) (rates : Nat → Rates)
    (hs : Reaches scope s) (hp : scope.packet = some packet) :
    Moves env scope (receive env packet receivingInterface rates) s fun _ _ => True := by
  refine Stays.get_bind (Stays.when (fun hopen => ?_) fun _ => trivial)
  refine Stays.bind (R := fun _ t => Reaches scope t ∧ t.link.status ≠ .closed) ?_ ?_
  · refine Stays.modify (fun h => ?_) ⟨hs, ?_⟩
    · by_cases hstale : s.link.status = .stale
      · have hactivate : Gentle env scope s (s.withLink fun l => { l with status := .active }) :=
          .activate s hopen.1 (.inr hstale)
        have hgentle := gentle_ok (fun _ _ => hactivate) h
        simpa only [Endpoint.withLink, hstale, if_true] using hgentle
      · simpa only [Endpoint.withLink, hstale, if_false] using ⟨.refl, h⟩
    · show (if s.link.status = .stale then Status.active else s.link.status) ≠ .closed
      split
      · exact Status.noConfusion
      · exact hopen.1
  rintro _ t - ⟨ht, hopen'⟩
  split
  case h_1 htype => exact receiveData_moves rates ht hp htype hopen'
  case h_2 htype => exact receiveProof_moves ht hp htype
  case h_3 => exact Stays.pure trivial

/-- The watchdogs run one after the other, each within the scope of its resource. -/
theorem tickResources_moves (late : Nat → Bool) (hs : Reaches scope s) :
    Moves env scope (tickResources env late) s fun _ _ => True := by
  have hlasting : Lasting fun d => d.status = .advertised → d.initiator = true :=
    ⟨fun _ _ h => ResourceStatus.noConfusion h, fun _ _ _ h => ResourceStatus.noConfusion h⟩
  refine Stays.assuming fun ⟨_, hc⟩ => Stays.get_bind (Stays.when (fun _ => ?_) fun _ => trivial)
  have hdisjoint : (s.incomingResources ++ s.outgoingResources).Nodup :=
    hc.nodup.1.append hc.nodup.2 fun q hin hout => by
      have hside := (hc.incoming q hin).2.1
      rw [(hc.outgoing q hout).2.1] at hside
      cases hside
  have hall : Moves env scope (Prog.forEach (s.incomingResources ++ s.outgoingResources)
      fun r => watchdogJob env r (late r)) s fun _ _ => True := by
    refine Moves.eachResource hlasting hdisjoint (fun q hq => ?_) fun q t hq =>
      watchdogJob_moves (one_touches ..) (late q) hq
    obtain hin | hout := List.mem_append.mp hq
    · refine ⟨hs q (.inl hin), (hc.incoming q hin).1, fun hstatus => ?_⟩
      rw [(hc.incoming q hin).2.2] at hstatus
      cases hstatus
    · exact ⟨hs q (.inr (.inl hout)), (hc.outgoing q hout).1, fun _ => (hc.outgoing q hout).2.1⟩
  intro h
  obtain ⟨hwrites, hend, -⟩ := hall h
  rw [Prog.forEach_append_run] at hwrites hend
  exact ⟨hwrites, hend, fun _ _ => trivial⟩

/-! ## Runs -/

/-- The resources that an input names. -/
def Input.Names (input : Input) (r : Nat) : Prop := input = .cancel r ∨ input = .rejected r

/-- The packet of an input. -/
def Input.packet? : Input → Option Packet
  | .packet p _ _ => some p
  | _ => none

/-- The scope of an input. -/
def Input.within (input : Input) (e : Endpoint) : Scope := .of e input.Names input.packet?

/-- Every input is a sequence of writes within the scope of the input. From this the results about runs are read
off. -/
theorem handle_moves (env : Env) (input : Input) (s : Endpoint) :
    Moves env (input.within s) (handle env input) s fun _ _ => True := by
  have hs : Reaches (input.within s) s := fun _ hq => hq
  cases input with
  | packet packet receivingInterface rates => exact receive_moves receivingInterface rates hs rfl
  | tick late => exact tickResources_moves late hs
  | request path data => exact Stays.bind (request_moves path data s) fun _ _ _ _ => Stays.pure trivial
  | transfer data requestId isResponse callback =>
    refine Stays.bind (newResource_moves data s) fun r t _ hmade => ?_
    have hbook : Bookkeeping (t.resources r)
        { t.resources r with requestId, isResponse, concludedCallback := callback } :=
      ⟨rfl, rfl, rfl, rfl, rfl, rfl, fun _ => rfl, id⟩
    exact Stays.modify_bind (gentle_ok fun _ _ => .keep t r _ hmade.touched hbook) (start_moves (hmade.keep hbook))
  | cancel r =>
    have hknows : ((Input.cancel r).within s).knows r := .inr (.inl rfl)
    exact Stays.get_bind (Stays.when (fun _ => cancel_moves hknows s) fun _ => trivial)
  | rejected r =>
    have hknows : ((Input.rejected r).within s).knows r := .inr (.inr rfl)
    exact Stays.get_bind (Stays.when (fun _ => rejected_moves hknows s) fun _ => trivial)
  | teardown => exact teardown_moves s
  | configure requestHandlers resourceStrategy callback callback' =>
    exact Stays.modify (gentle_ok fun _ _ => .configure s ..) trivial

/-- What an input writes to a clean endpoint, which it leaves clean. -/
theorem handle_writes (env : Env) (input : Input) (hc : s.Clean) :
    Writes env (input.within s) s (step env s input) ∧ (step env s input).Clean := by
  obtain ⟨hwrites, hend, -⟩ := handle_moves env input s ⟨Scope.of_bounds .., hc⟩
  exact ⟨hwrites, hend.2⟩

theorem Endpoint.Fresh.clean (h : s.Fresh) : s.Clean where
  nodup := by
    rw [h.incoming, h.outgoing]
    exact ⟨List.nodup_nil, List.nodup_nil⟩
  incoming r hr := by
    rw [h.incoming] at hr
    cases hr
  outgoing r hr := by
    rw [h.outgoing] at hr
    cases hr
  parts r p hp := by
    rw [h.resources] at hp
    cases hp

theorem run_clean (env : Env) (hc : s.Clean) (inputs : List Input) : (run env s inputs).Clean := by
  unfold run
  induction inputs generalizing s with
  | nil => exact hc
  | cons input inputs ih => exact ih (handle_writes env input hc).2

/-- What every write keeps, all of them keep. -/
theorem Writes.invariant {P : Endpoint → Prop} (hP : ∀ t u, Write env scope t u → P t → P u)
    (h : Writes env scope s t) (hs : P s) : P t := by
  induction h with
  | refl => exact hs
  | tail _ hw ih => exact hP _ _ hw ih

/-- What the writes of every input keep, a run keeps. -/
theorem run_invariant {P : Endpoint → Prop} {inputs : List Input}
    (hP : ∀ input ∈ inputs, ∀ e t u, Write env (input.within e) t u → P t → P u) (hc : s.Clean) (hs : P s) :
    P (run env s inputs) := by
  unfold run
  induction inputs generalizing s with
  | nil => exact hs
  | cons input inputs ih =>
    obtain ⟨hwrites, hend⟩ := handle_writes env input hc
    exact ih (fun i hi => hP i (List.mem_cons_of_mem input hi)) hend
      (Writes.invariant (hP input List.mem_cons_self s) hwrites hs)

theorem Write.events_subset (hw : Write env scope s t) : ∀ event ∈ s.events, event ∈ t.events := by
  cases hw
  case gentle hg =>
    cases hg
    case note => exact fun _ => List.mem_append_left _
    case sent => exact fun _ => List.mem_append_left _
    case prove => exact fun _ => List.mem_append_left _
    case generate => exact fun _ => List.mem_append_left _
    case identify => exact fun _ => List.mem_append_left _
    case begin => exact fun _ => List.mem_append_left _
    case advertise => exact fun _ => List.mem_append_left _
    case queue => exact fun _ => List.mem_append_left _
    all_goals exact fun _ => id
  case reject => exact fun _ => List.mem_append_left _
  all_goals exact fun _ => id

/-- What was noted stays noted. -/
theorem run_events_subset (env : Env) (hc : s.Clean) (inputs : List Input) :
    ∀ event ∈ s.events, event ∈ (run env s inputs).events :=
  run_invariant (P := fun e => ∀ event ∈ s.events, event ∈ e.events)
    (fun _ _ _ _ _ hw h event hmem => hw.events_subset event (h event hmem)) hc fun _ => id

end MicroReticulum.Link
