import MicroReticulum.Link.Inputs

/-!
# The exchange of a resource

Two endpoints exchange packets over a network that loses, repeats and reorders them: a packet that came from
the other end is one of those it has ever sent (`Exchange`). Either end may do anything else at any time.

What a transfer delivers rests on two digests. The receiver completes a resource whose data has the hash it was
advertised under, and the initiator one whose expected proof came in. `Backed` says so of one end, and is an
invariant of all writes; `transfer_delivers` puts the two ends together. The parts, the windows and the hashmap
have no part in it: a transfer in which they go wrong does not complete.

No transfer is promised to end: packets may be lost for ever. What is proved is of those
that end well.
-/

namespace MicroReticulum.Link

open MicroReticulum Packet Library Resource Cryptography
open Relation (ReflTransGen)

variable {env : Env} {scope : Scope} {seen : Packet → Prop} {s t : Endpoint} {r : Nat} {d d' : ResourceData}

/-! ## What one end can show for its resources -/

/-- The advertisement a resource was accepted from. -/
def advertisementOf (env : Env) (d : ResourceData) : Advertisement :=
  Advertisement.unpack (env.decode d.advertisement)

/-- A receiver that is complete. -/
def Done (d : ResourceData) : Prop := d.initiator = false ∧ d.status = .complete

/-- The packet, if it is a proof for a resource, proves one that the endpoint has received. -/
def Proves (env : Env) (e : Endpoint) (p : Packet) : Prop :=
  ∀ q, unpack p.raw = some q → IsResourceProof q → ∃ r, Done (e.resources r)
    ∧ q.data = (e.resources r).hash ++ (env.fullHash ((e.resources r).data ++ (e.resources r).hash)).toList

/-- What stands behind the state of one resource. -/
structure BackedAt (env : Env) (seen : Packet → Prop) (e : Endpoint) (r : Nat) (d : ResourceData) : Prop where
  started : ∀ payload, .started r payload ∈ e.events → r < e.created ∧ d.initiator = true
    ∧ d.hash = (env.fullHash (payload ++ d.randomHash)).toList
    ∧ d.expectedProof = (env.fullHash (payload ++ d.hash)).toList
  validated : d.initiator = true → d.status = .complete → ∃ p, seen p ∧ IsResourceProof p
    ∧ p.data.length = hashBytes * 2 ∧ p.data.left hashBytes = d.hash ∧ p.data.mid hashBytes = d.expectedProof
  accepted : d.initiator = false → d.status ≠ .none → d.status ≠ .failed → r < e.created
    ∧ d.hash = (advertisementOf env d).h ∧ d.randomHash = (advertisementOf env d).r
  checked : Done d → (env.fullHash (d.data ++ d.randomHash)).toList = d.hash

/-- What stands behind the states of the resources, and behind the proofs that were sent. -/
structure Backed (env : Env) (seen : Packet → Prop) (e : Endpoint) : Prop where
  resources : ∀ r, BackedAt env seen e r (e.resources r)
  proofs : ∀ p, .sent p ∈ e.events → Proves env e p

/-- No other resource was started meanwhile. -/
theorem BackedAt.grow (h : BackedAt env seen s r d) (hcreated : s.created ≤ t.created)
    (hstarted : ∀ payload, .started r payload ∈ t.events → .started r payload ∈ s.events) :
    BackedAt env seen t r d where
  started payload hmem := by
    obtain ⟨hlt, hrest⟩ := h.started payload (hstarted payload hmem)
    exact ⟨Nat.lt_of_lt_of_le hlt hcreated, hrest⟩
  validated := h.validated
  accepted hi hnone hfailed := by
    obtain ⟨hlt, hrest⟩ := h.accepted hi hnone hfailed
    exact ⟨Nat.lt_of_lt_of_le hlt hcreated, hrest⟩
  checked := h.checked

/-- Books are kept of the resource. -/
theorem BackedAt.keep (h : BackedAt env seen s r d) (hd : Bookkeeping d d') : BackedAt env seen s r d' where
  started payload hmem := by
    rw [hd.initiator, hd.hash, hd.randomHash, hd.expectedProof]
    exact h.started payload hmem
  validated hi hc := by
    rw [hd.hash, hd.expectedProof]
    exact h.validated (hd.initiator ▸ hi) (hd.status ▸ hc)
  accepted hi hnone hfailed := by
    have hreceiver := hd.initiator ▸ hi
    unfold advertisementOf
    rw [hd.hash, hd.randomHash, hd.advertisement hreceiver]
    exact h.accepted hreceiver (hd.status ▸ hnone) (hd.status ▸ hfailed)
  checked hdone := by
    rw [hd.data, hd.randomHash, hd.hash]
    exact h.checked ⟨hd.initiator ▸ hdone.1, hd.status ▸ hdone.2⟩

/-- The resource goes on, or ends without being complete. -/
theorem BackedAt.turn (h : BackedAt env seen s r d) {status : ResourceStatus} (hstatus : status ≠ .complete)
    (hfrom : d.initiator = false → status ≠ .none → status ≠ .failed → d.status ≠ .none ∧ d.status ≠ .failed) :
    BackedAt env seen s r { d with status } where
  started := h.started
  validated _ hc := absurd hc hstatus
  accepted hi hnone hfailed := by
    obtain ⟨hnone', hfailed'⟩ := hfrom hi hnone hfailed
    exact h.accepted hi hnone' hfailed'
  checked hdone := absurd hdone.2 hstatus

/-- Complete resources stay what they are. -/
def Stays (d d' : ResourceData) : Prop := Done d → Done d' ∧ d'.hash = d.hash ∧ d'.data = d.data

/-- A resource that is not complete has nothing to keep. -/
theorem Stays.of_status (hd : d.status ≠ .complete) : Stays d d' := fun hdone => absurd hdone.2 hd

/-- Bookkeeping beside a complete resource keeps it complete. -/
theorem Stays.keep (hd : Bookkeeping d d') : Stays d d' := fun hdone =>
  ⟨⟨hd.initiator.trans hdone.1, hd.status.trans hdone.2⟩, hd.hash, hd.data⟩

/-- A packet that proves a complete resource goes on proving it while that stays complete. -/
theorem Proves.mono {p : Packet} (h : Proves env s p) (hs : ∀ r, Stays (s.resources r) (t.resources r)) :
    Proves env t p := by
  intro q hq hproof
  obtain ⟨r, hdone, hdata⟩ := h q hq hproof
  obtain ⟨hdone', hhash, hsame⟩ := hs r hdone
  exact ⟨r, hdone', by rw [hdata, hhash, hsame]⟩

/-- Nothing happens to the resources. -/
theorem Backed.grow (h : Backed env seen s) (hresources : t.resources = s.resources)
    (hcreated : s.created = t.created)
    (hstarted : ∀ r payload, .started r payload ∈ t.events → .started r payload ∈ s.events)
    (hsent : ∀ p, .sent p ∈ t.events → .sent p ∈ s.events ∨ Proves env s p) : Backed env seen t where
  resources r := by
    rw [hresources]
    exact (h.resources r).grow (Nat.le_of_eq hcreated) (hstarted r)
  proofs p hp := by
    have hproves : Proves env s p := (hsent p hp).elim (h.proofs p) id
    exact hproves.mono fun r hdone => by
      rw [hresources]
      exact ⟨hdone, rfl, rfl⟩

/-- Another resource is put in the place of one. -/
theorem Backed.put (h : Backed env seen s) (hresources : t.resources = Function.update s.resources r d)
    (hcreated : s.created ≤ t.created)
    (hstarted : ∀ q payload, q ≠ r → .started q payload ∈ t.events → .started q payload ∈ s.events)
    (hsent : ∀ p, .sent p ∈ t.events → .sent p ∈ s.events) (hstays : Stays (s.resources r) d)
    (hd : BackedAt env seen t r d) : Backed env seen t where
  resources q := by
    by_cases hq : q = r
    · subst hq
      rw [hresources, Function.update_self]
      exact hd
    · rw [hresources, Function.update_of_ne hq]
      exact (h.resources q).grow hcreated fun payload => hstarted q payload hq
  proofs p hp := by
    refine (h.proofs p (hsent p hp)).mono fun q => ?_
    by_cases hq : q = r
    · subst hq
      rw [hresources, Function.update_self]
      exact hstays
    · rw [hresources, Function.update_of_ne hq]
      exact fun hdone => ⟨hdone, rfl, rfl⟩

/-- An event that starts nothing and sends nothing. -/
theorem Backed.note (h : Backed env seen s) {event : Event} (hresources : t.resources = s.resources)
    (hcreated : s.created = t.created) (hevents : t.events = s.events ++ [event])
    (hstarted : ∀ r payload, event ≠ .started r payload)
    (hsent : ∀ p, event = .sent p → Proves env s p) : Backed env seen t := by
  refine h.grow hresources hcreated (fun r payload hmem => ?_) fun p hmem => ?_
  · obtain hmem | hmem := List.mem_append.mp (hevents ▸ hmem)
    · exact hmem
    · exact absurd (List.mem_singleton.mp hmem).symm (hstarted r payload)
  · obtain hmem | hmem := List.mem_append.mp (hevents ▸ hmem)
    · exact .inl hmem
    · exact .inr (hsent p (List.mem_singleton.mp hmem).symm)

/-- What was noted of one event more. -/
theorem mem_of_note {event event' : Event} (hne : event ≠ event') (h : event ∈ s.events ++ [event']) :
    event ∈ s.events := by
  obtain h | h := List.mem_append.mp h
  · exact h
  · exact absurd (List.mem_singleton.mp h) hne

/-- A gentle write keeps every proof backed by a complete resource. -/
theorem Gentle.backed (hw : Gentle env scope s t) (h : Backed env seen s) : Backed env seen t := by
  have hsame : ∀ {t : Endpoint}, t.resources = s.resources → s.created = t.created → t.events = s.events →
      Backed env seen t := fun hresources hcreated hevents =>
    h.grow hresources hcreated (fun _ _ hmem => hevents ▸ hmem) fun _ hmem => .inl (hevents ▸ hmem)
  cases hw
  case note event hplain =>
    refine h.note rfl rfl rfl (fun r payload he => ?_) fun p he => ?_ <;>
      · rw [he] at hplain
        exact hplain.elim
  case sent p hno =>
    refine h.note rfl rfl rfl (fun _ _ => Event.noConfusion) fun p' he q hq hproof => ?_
    exact absurd hproof (hno q ((Event.sent.inj he).symm ▸ hq))
  case prove p r _ hinitiator hstatus hreads =>
    refine h.note rfl rfl rfl (fun _ _ => Event.noConfusion) fun p' he q hq _ => ?_
    exact ⟨r, ⟨hinitiator, hstatus⟩, hreads q ((Event.sent.inj he).symm ▸ hq)⟩
  case generate => exact h.note rfl rfl rfl (fun _ _ => Event.noConfusion) fun _ => Event.noConfusion
  case identify => exact h.note rfl rfl rfl (fun _ _ => Event.noConfusion) fun _ => Event.noConfusion
  case create d _ hstatus hinitiator _ =>
    refine h.put rfl (Nat.le_succ _) (fun _ _ _ => id) (fun _ => id) (fun hdone => ?_) ?_
    · obtain ⟨hlt, -⟩ := (h.resources s.created).accepted hdone.1 (by rw [hdone.2]; decide)
        (by rw [hdone.2]; decide)
      exact absurd hlt (Nat.lt_irrefl _)
    · refine ⟨fun payload hmem => ?_, fun hi => ?_, fun _ hnone => absurd hstatus hnone, fun hdone => ?_⟩
      · exact absurd ((h.resources s.created).started payload hmem).1 (Nat.lt_irrefl _)
      · rw [hinitiator] at hi
        cases hi
      · cases hstatus.symm.trans hdone.2
  case keep r f _ hf =>
    exact h.put rfl (Nat.le_refl _) (fun _ _ _ => id) (fun _ => id) (.keep hf)
      (((h.resources r).keep hf).grow (Nat.le_refl _) fun _ => id)
  case begin r randomHash _ hlt hstatus hinitiator =>
    refine h.put rfl (Nat.le_refl _) (fun q payload hq hmem => mem_of_note ?_ hmem)
      (fun p hmem => mem_of_note Event.noConfusion hmem) (.of_status (by rw [hstatus]; decide)) ?_
    · exact fun he => hq (Event.started.inj he).1
    refine ⟨fun payload hmem => ?_, fun _ hc => ?_, Bool.noConfusion, fun hdone => Bool.noConfusion hdone.1⟩
    · obtain hmem | hmem := List.mem_append.mp hmem
      · have hstarted := ((h.resources r).started payload hmem).2.1
        rw [hinitiator] at hstarted
        cases hstarted
      · obtain ⟨-, rfl⟩ := Event.started.inj (List.mem_singleton.mp hmem)
        exact ⟨hlt, rfl, rfl, rfl⟩
    · cases hstatus.symm.trans hc
  case advertise r f _ _ hinitiator hstatus hf =>
    refine h.put rfl (Nat.le_refl _) (fun q payload _ hmem => mem_of_note Event.noConfusion hmem)
      (fun p hmem => mem_of_note Event.noConfusion hmem) (.of_status (by rw [hstatus]; decide)) ?_
    refine BackedAt.grow (s := s) (((h.resources r).turn ResourceStatus.noConfusion fun hi => ?_).keep hf)
      (Nat.le_refl _) fun payload hmem => mem_of_note Event.noConfusion hmem
    rw [hinitiator] at hi
    cases hi
  case queue r _ _ hinitiator hstatus =>
    refine h.put rfl (Nat.le_refl _) (fun q payload _ hmem => mem_of_note Event.noConfusion hmem)
      (fun p hmem => mem_of_note Event.noConfusion hmem) (.of_status (by rw [hstatus]; decide)) ?_
    have hqueued : BackedAt env seen s r { s.resources r with status := .queued } :=
      (h.resources r).turn ResourceStatus.noConfusion fun hi => by
        rw [hinitiator] at hi
        cases hi
    exact hqueued.grow (Nat.le_refl _) fun payload hmem => mem_of_note Event.noConfusion hmem
  case accept r adv plaintext requestId totalParts callback _ hlt hstatus hinitiator hadv =>
    refine h.put rfl (Nat.le_refl _) (fun _ _ _ => id) (fun _ => id) (.of_status (by rw [hstatus]; decide)) ?_
    refine ⟨fun payload hmem => ?_, Bool.noConfusion, fun _ _ _ => ?_,
      fun hdone => ResourceStatus.noConfusion hdone.2⟩
    · have hstarted := ((h.resources r).started payload hmem).2.1
      rw [hinitiator] at hstarted
      cases hstarted
    · subst hadv
      exact ⟨hlt, rfl, rfl⟩
  case transfer r f _ _ hactive hf =>
    have hfrom : (s.resources r).status ≠ .none ∧ (s.resources r).status ≠ .failed
        ∧ (s.resources r).status ≠ .complete := by
      obtain hold | hold | hold := hactive <;> rw [hold] <;> decide
    refine h.put rfl (Nat.le_refl _) (fun _ _ _ => id) (fun _ => id) (.of_status hfrom.2.2) ?_
    exact (((h.resources r).turn ResourceStatus.noConfusion fun _ _ _ => ⟨hfrom.1, hfrom.2.1⟩).keep hf).grow
      (Nat.le_refl _) fun _ => id
  case await r f _ hinitiator hold hf =>
    refine h.put rfl (Nat.le_refl _) (fun _ _ _ => id) (fun _ => id) (.of_status (by rw [hold]; decide)) ?_
    refine (((h.resources r).turn ResourceStatus.noConfusion fun hi => ?_).keep hf).grow (Nat.le_refl _) fun _ => id
    rw [hinitiator] at hi
    cases hi
  all_goals exact hsame rfl rfl rfl

/-- So does a write for a packet that was seen. -/
theorem Write.backed (hw : Write env scope s t) (hseen : ∀ p, scope.packet = some p → seen p)
    (h : Backed env seen s) : Backed env seen t := by
  -- the ways of a resource that does not become complete
  have hturn : ∀ {r : Nat} {status : ResourceStatus}, status ≠ .complete → (s.resources r).status ≠ .complete →
      ((s.resources r).initiator = false → status ≠ .none → status ≠ .failed →
        (s.resources r).status ≠ .none ∧ (s.resources r).status ≠ .failed) →
      Backed env seen (s.withResource r fun d => { d with status }) := fun hstatus hold hfrom =>
    h.put rfl (Nat.le_refl _) (fun _ _ _ => id) (fun _ => id) (.of_status hold)
      (((h.resources _).turn hstatus hfrom).grow (Nat.le_refl _) fun _ => id)
  cases hw
  case gentle hg => exact hg.backed h
  case assemble r _ _ hold =>
    exact hturn ResourceStatus.noConfusion (by rw [hold]; decide) fun _ _ _ => by rw [hold]; decide
  case corrupt r _ _ hold =>
    refine hturn ResourceStatus.noConfusion ?_ fun _ _ _ => ?_ <;>
      obtain hold | hold := hold <;> rw [hold] <;> decide
  case complete r data _ hinitiator hold hhash =>
    refine h.put rfl (Nat.le_refl _) (fun _ _ _ => id) (fun _ => id) (.of_status (by rw [hold]; decide)) ?_
    refine ⟨(h.resources r).started, fun hi => ?_, fun hi _ _ => ?_, fun _ => hhash⟩
    · rw [hinitiator] at hi
      cases hi
    · exact (h.resources r).accepted hi (by rw [hold]; decide) (by rw [hold]; decide)
  case validated r p _ hp hinitiator hproof hlength hhash hexpected =>
    refine h.put rfl (Nat.le_refl _) (fun _ _ _ => id) (fun _ => id) (fun hdone => ?_) ?_
    · cases hinitiator.symm.trans hdone.1
    refine ⟨(h.resources r).started, fun _ _ => ⟨p, hseen p hp, hproof, hlength, hhash, hexpected⟩, fun hi => ?_,
      fun hdone => ?_⟩
    · rw [hinitiator] at hi
      cases hi
    · cases hinitiator.symm.trans hdone.1
  case fail r _ hopen =>
    refine hturn ResourceStatus.noConfusion (fun hold => ?_) fun _ _ hfailed => absurd rfl hfailed
    rw [hold] at hopen
    cases hopen
  case reject r _ hopen _ =>
    have hrejected : Backed env seen (s.withResource r fun d => { d with status := .rejected }) :=
      hturn ResourceStatus.noConfusion (fun hold => by
        rw [hold] at hopen
        cases hopen) fun _ hnone => absurd rfl hnone
    exact hrejected.note rfl rfl rfl (fun _ _ => Event.noConfusion) fun _ => Event.noConfusion

theorem Endpoint.Fresh.backed (h : s.Fresh) : Backed env seen s where
  resources r := by
    rw [h.resources]
    refine ⟨fun payload hmem => ?_, Bool.noConfusion, fun _ hnone => absurd rfl hnone,
      fun hdone => ResourceStatus.noConfusion hdone.2⟩
    rw [h.events] at hmem
    cases hmem
  proofs p hp := by
    rw [h.events] at hp
    cases hp

theorem Backed.mono {seen' : Packet → Prop} (hseen : ∀ p, seen p → seen' p) (h : Backed env seen s) :
    Backed env seen' s where
  resources r :=
    { started := (h.resources r).started
      validated := fun hi hc => by
        obtain ⟨p, hp, hrest⟩ := (h.resources r).validated hi hc
        exact ⟨p, hseen p hp, hrest⟩
      accepted := (h.resources r).accepted
      checked := (h.resources r).checked }
  proofs := h.proofs

/-! ## Two ends -/

/-- What may come in at the other end: what is read of a packet that was sent. Its header may have changed on
the way. -/
def InTransit (e : Endpoint) (p : Packet) : Prop :=
  ∃ sent q, .sent sent ∈ e.events ∧ unpack sent.raw = some q
    ∧ p.packetType = q.packetType ∧ p.context = q.context ∧ p.data = q.data

/-- A step of two ends: one of them handles an input, and if this is a packet it is in transit from the
other. -/
inductive Exchange (env env' : Env) : Endpoint × Endpoint → Endpoint × Endpoint → Prop
  | here {s t : Endpoint} {input : Input} : (∀ p, input.packet? = some p → InTransit t p) →
      Exchange env env' (s, t) (step env s input, t)
  | there {s t : Endpoint} {input : Input} : (∀ p, input.packet? = some p → InTransit s p) →
      Exchange env env' (s, t) (s, step env' t input)

/-- What two ends that exchange packets keep. -/
structure Consistent (env env' : Env) (ends : Endpoint × Endpoint) : Prop where
  clean : ends.1.Clean ∧ ends.2.Clean
  here : Backed env (InTransit ends.2) ends.1
  there : Backed env' (InTransit ends.1) ends.2

/-- What an input does to the one end. -/
theorem Backed.step {input : Input} (hc : s.Clean) (hin : ∀ p, input.packet? = some p → seen p)
    (h : Backed env seen s) : Backed env seen (step env s input) :=
  Writes.invariant (fun _ _ hw => hw.backed hin) (handle_writes env input hc).1 h

/-- What is in transit stays in transit. -/
theorem InTransit.step {input : Input} (hc : s.Clean) {p : Packet} (h : InTransit s p) :
    InTransit (Link.step env s input) p := by
  obtain ⟨sent, q, hsent, hrest⟩ := h
  exact ⟨sent, q, run_events_subset env hc [input] _ hsent, hrest⟩

/-- Each step of the exchange keeps the two ends consistent. -/
theorem Consistent.step {env env' : Env} {ends ends' : Endpoint × Endpoint} (h : Consistent env env' ends)
    (hstep : Exchange env env' ends ends') : Consistent env env' ends' := by
  cases hstep
  case here s t input hin =>
    exact ⟨⟨(handle_writes env input h.clean.1).2, h.clean.2⟩, h.here.step h.clean.1 hin,
      h.there.mono fun _ hp => hp.step h.clean.1⟩
  case there s t input hin =>
    exact ⟨⟨h.clean.1, (handle_writes env' input h.clean.2).2⟩, h.here.mono fun _ hp => hp.step h.clean.2,
      h.there.step h.clean.2 hin⟩

theorem Consistent.run {env env' : Env} {ends ends' : Endpoint × Endpoint} (h : Consistent env env' ends)
    (hrun : ReflTransGen (Exchange env env') ends ends') : Consistent env env' ends' := by
  induction hrun with
  | refl => exact h
  | tail _ hstep ih => exact ih.step hstep

/-! ## Delivery -/

/-- The receiver was accepted from an advertisement of the initiator: one that names its hash and its random
hash. -/
def AcceptedFrom (env : Env) (d initiator : ResourceData) : Prop :=
  d.initiator = false ∧ (advertisementOf env d).h = initiator.hash
    ∧ (advertisementOf env d).r = initiator.randomHash

/-- No other message has the digest of this one. -/
def Unmatched (fullHash : Bytes → Hash) (message : Bytes) : Prop :=
  ∀ other, fullHash other = fullHash message → other = message

/-- Where no other message has the hash, one with an equal hash is the message. -/
theorem Unmatched.of_toList {fullHash : Bytes → Hash} {message other : Bytes} (h : Unmatched fullHash message)
    (heq : (fullHash other).toList = (fullHash message).toList) : other = message :=
  h other (List.Vector.toList_injective heq)

/-- The proof that a receiver sends, cut as the initiator cuts it. -/
theorem proof_cut {hash expected proved : Bytes} {digest : Hash} (hdata : proved = hash ++ digest.toList)
    (hlength : proved.length = hashBytes * 2) (hleft : proved.left hashBytes = expected) :
    hash = expected ∧ proved.mid hashBytes = digest.toList := by
  have hdigest : digest.toList.length = hashBytes := digest.toList_length
  have hhash : hash.length = hashBytes := by
    rw [hdata, List.length_append, hdigest] at hlength
    omega
  rw [hdata, Bytes.left_append hhash.symm] at hleft
  exact ⟨hleft, by rw [hdata, Bytes.mid_append hhash]⟩

/-- A receiver that was accepted from an advertisement of a resource and is complete has its payload, and the
resource is complete only if such a receiver is, whatever the network does with the packets, and whatever else
the two ends do. -/
theorem transfer_delivers {env env' : Env} {fresh ends : Endpoint × Endpoint} {payload : Bytes}
    (hfresh : fresh.1.Fresh ∧ fresh.2.Fresh) (hrun : ReflTransGen (Exchange env env') fresh ends)
    (hsame : env'.fullHash = env.fullHash) (hstarted : .started r payload ∈ ends.1.events)
    (hunmatched : Unmatched env.fullHash (payload ++ (ends.1.resources r).randomHash)
      ∧ Unmatched env.fullHash (payload ++ (ends.1.resources r).hash)) :
    (∀ q, AcceptedFrom env' (ends.2.resources q) (ends.1.resources r) →
      (ends.2.resources q).status = .complete → (ends.2.resources q).data = payload)
    ∧ ((ends.1.resources r).status = .complete → ∃ q, AcceptedFrom env' (ends.2.resources q) (ends.1.resources r)
      ∧ (ends.2.resources q).status = .complete ∧ (ends.2.resources q).data = payload) := by
  have hends : Consistent env env' ends :=
    Consistent.run ⟨⟨hfresh.1.clean, hfresh.2.clean⟩, hfresh.1.backed, hfresh.2.backed⟩ hrun
  obtain ⟨-, hinitiator, hhash, hexpected⟩ := (hends.here.resources r).started payload hstarted
  have hchecked : ∀ q, Done (ends.2.resources q) → (ends.2.resources q).hash = (ends.1.resources r).hash →
      (ends.2.resources q).data ++ (ends.2.resources q).randomHash
        = payload ++ (ends.1.resources r).randomHash := by
    intro q hdone hq
    refine hunmatched.1.of_toList ?_
    rw [← hhash, ← hq, ← (hends.there.resources q).checked hdone, hsame]
  have hadvertised : ∀ q, Done (ends.2.resources q) →
      (ends.2.resources q).hash = (advertisementOf env' (ends.2.resources q)).h
        ∧ (ends.2.resources q).randomHash = (advertisementOf env' (ends.2.resources q)).r := fun q hdone =>
    ((hends.there.resources q).accepted hdone.1 (by rw [hdone.2]; decide) (by rw [hdone.2]; decide)).2
  refine ⟨fun q ⟨hreceiver, hh, hr⟩ hcomplete => ?_, fun hcomplete => ?_⟩
  · obtain ⟨hhash', hrandom'⟩ := hadvertised q ⟨hreceiver, hcomplete⟩
    have hdata := hchecked q ⟨hreceiver, hcomplete⟩ (hhash'.trans hh)
    rw [hrandom'.trans hr] at hdata
    exact List.append_cancel_right hdata
  · obtain ⟨p, ⟨sent, q', hsent, hread, htype, hcontext, hpdata⟩, hproof, hlength, hleft, hmid⟩ :=
      (hends.here.resources r).validated hinitiator hcomplete
    obtain ⟨q, hdone, hqdata⟩ := hends.there.proofs sent hsent q' hread
      ⟨htype ▸ hproof.1, hcontext ▸ hproof.2⟩
    obtain ⟨hqhash, hdigest⟩ := proof_cut (hpdata.trans hqdata) hlength hleft
    have hboth : (ends.2.resources q).data ++ (ends.2.resources q).hash
        = payload ++ (ends.1.resources r).hash := by
      refine hunmatched.2.of_toList ?_
      rw [← hexpected, ← hmid, hdigest, hsame]
    rw [hqhash] at hboth
    have hdata := List.append_cancel_right hboth
    have hrandom := hchecked q hdone hqhash
    rw [hdata] at hrandom
    obtain ⟨hhash', hrandom'⟩ := hadvertised q hdone
    refine ⟨q, ⟨hdone.1, hhash'.symm.trans hqhash, hrandom'.symm.trans ?_⟩, hdone.2, hdata⟩
    exact List.append_cancel_left hrandom

namespace Sample

/-- The end that starts a resource. -/
def giver : Endpoint where
  link := link true

/-- The end that accepts every resource. -/
def taker : Endpoint where
  link := link false
  resourceStrategy := .acceptAll

theorem giver_fresh : giver.Fresh := ⟨rfl, rfl, rfl, fun _ => rfl, rfl, rfl, rfl⟩

theorem taker_fresh : taker.Fresh := ⟨rfl, rfl, rfl, fun _ => rfl, rfl, rfl, rfl⟩

/-- Two messages have digests of their own. -/
def digest (b : Bytes) : Hash :=
  if b = [1, 5, 5, 5, 5] then .replicate 32 1
  else if b = 1 :: List.replicate 32 1 then .replicate 32 2
  else .replicate 32 3

def exchangeEnv : Env := plainEnv digest

/-- What is read of the last packet that was sent. -/
def latest (e : Endpoint) : Option Packet :=
  (e.events.filterMap fun event => match event with
    | .sent p => unpack p.raw
    | _ => none).getLast?

/-- The last packet of the one end comes in at the other. -/
def passes (s t : Endpoint) : Endpoint :=
  match latest s with
  | some p => step exchangeEnv t (comesIn p)
  | none => t

/-- The last packet an end has sent is in transit. -/
theorem latest_inTransit {s : Endpoint} {p : Packet} (h : latest s = some p) : InTransit s p := by
  obtain ⟨event, hmem, hread⟩ := List.mem_filterMap.mp (List.mem_of_getLast? h)
  split at hread
  · exact ⟨_, p, hmem, hread, rfl, rfl, rfl⟩
  · cases hread

/-- Handing a packet from the first end to the second is a step of the exchange, or none. -/
theorem passes_there (s t : Endpoint) :
    ReflTransGen (Exchange exchangeEnv exchangeEnv) (s, t) (s, passes s t) := by
  unfold passes
  split
  case h_1 p hp => exact .single (.there fun q hq => by cases hq; exact latest_inTransit hp)
  case h_2 => exact .refl

theorem passes_here (s t : Endpoint) :
    ReflTransGen (Exchange exchangeEnv exchangeEnv) (s, t) (passes t s, t) := by
  unfold passes
  split
  case h_1 p hp => exact .single (.here fun q hq => by cases hq; exact latest_inTransit hp)
  case h_2 => exact .refl

/-- The resource is advertised, asked for and sent. -/
def advertised : Endpoint := step exchangeEnv giver (.transfer [1] [] false false)

def requested : Endpoint := passes advertised taker

def answered : Endpoint := passes requested advertised

/-- It is received and proved. -/
def received : Endpoint := passes answered requested

def proved : Endpoint := passes received answered

/-- The run of the witness: a resource is offered, taken and proved. -/
theorem exchanged : ReflTransGen (Exchange exchangeEnv exchangeEnv) (giver, taker) (proved, received) := by
  have hstart : Exchange exchangeEnv exchangeEnv (giver, taker) (advertised, taker) := .here fun _ => nofun
  exact ((((ReflTransGen.single hstart).trans (passes_there advertised taker)).trans (passes_here advertised requested)).trans
    (passes_there answered requested)).trans (passes_here answered received)

/-- The resource that was started first, and its payload. -/
def first (e : Endpoint) : Option (Nat × Bytes) :=
  match e.events with
  | .started r payload :: _ => some (r, payload)
  | _ => none

/-- The first resource among the events was started. -/
theorem mem_of_first {e : Endpoint} {payload : Bytes} (h : first e = some (r, payload)) :
    .started r payload ∈ e.events := by
  unfold first at h
  split at h
  case h_1 heq =>
    cases h
    rw [heq]
    exact List.mem_cons_self
  case h_2 => cases h

/-- The small hash of the run tells the two messages it hashes from all others. -/
theorem digest_unmatched :
    Unmatched digest [1, 5, 5, 5, 5] ∧ Unmatched digest (1 :: List.replicate 32 1) := by
  refine ⟨fun other h => ?_, fun other h => ?_⟩ <;> by_contra hother
  · rw [digest, if_neg hother] at h
    split at h <;> exact absurd (congrArg List.Vector.head h) (by decide)
  · by_cases hfirst : other = [1, 5, 5, 5, 5]
    · rw [hfirst] at h
      exact absurd (congrArg List.Vector.head h) (by decide)
    · rw [digest, if_neg hfirst, if_neg hother] at h
      exact absurd (congrArg List.Vector.head h) (by decide)

end Sample

/-- One byte is sent, received and proved: the receiver has it. -/
theorem transfer_delivers_one_byte :
    ∃ q, AcceptedFrom Sample.exchangeEnv (Sample.received.resources q) (Sample.proved.resources 0)
      ∧ (Sample.received.resources q).status = .complete ∧ (Sample.received.resources q).data = [1] := by
  -- the two ends are variables here, so that nobody computes them
  have hdelivers : ∀ s t : Endpoint,
      ReflTransGen (Exchange Sample.exchangeEnv Sample.exchangeEnv) (Sample.giver, Sample.taker) (s, t) →
      .started 0 [1] ∈ s.events → (s.resources 0).randomHash = [5, 5, 5, 5] →
      (s.resources 0).hash = List.replicate 32 1 → (s.resources 0).status = .complete →
      ∃ q, AcceptedFrom Sample.exchangeEnv (t.resources q) (s.resources 0)
        ∧ (t.resources q).status = .complete ∧ (t.resources q).data = [1] := by
    intro s t hrun hstarted hrandom hhash hcomplete
    refine (transfer_delivers ⟨Sample.giver_fresh, Sample.taker_fresh⟩ hrun rfl hstarted ?_).2 hcomplete
    rw [hrandom, hhash]
    exact Sample.digest_unmatched
  have hfirst : Sample.first Sample.proved = some (0, [1]) := by decide +kernel
  exact hdelivers Sample.proved Sample.received Sample.exchanged (Sample.mem_of_first hfirst)
    (by decide +kernel) (by decide +kernel) (by decide +kernel)

end MicroReticulum.Link
