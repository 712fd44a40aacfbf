import MicroReticulum.Link.Receive
import Mathlib.Logic.Relation

/-!
# What a step of an endpoint writes

`Write` is one assignment of the code, with what the code knows where it makes it. The functions of the
preceding modules only write in these ways (`handle_writes`), so an invariant of an endpoint is an invariant of
every `Write`, and no later proof goes through the functions again.

A step writes within a `Scope`: it changes the resources it touches, fails and takes out of the sets of the
link those it knows, and reads one packet or none. What it knows are the resources that were registered when
it began, and the ones it makes.
-/

namespace MicroReticulum.Link

open MicroReticulum Packet Library Resource Cryptography
open Relation (ReflTransGen)

/-! ## Writes -/

/-- What a step may write to, and the packet it reads. -/
structure Scope where
  knows : Nat → Prop
  touches : Nat → Prop
  packet : Option Packet
  knows_of_touches : ∀ r, touches r → knows r

/-- A proof for a resource. -/
def IsResourceProof (p : Packet) : Prop := p.packetType = .proof ∧ p.context = ContextType.resourcePrf

/-- Nobody reads such a proof from the packet. -/
def NoProof (p : Packet) : Prop := ∀ q, unpack p.raw = some q → ¬ IsResourceProof q

/-- The parts of the initiator are no proofs. -/
def DataParts (d : ResourceData) : Prop := ∀ p ∈ d.parts, NoProof p.packet

/-- The resource differs in its bookkeeping at most. -/
structure Bookkeeping (d d' : ResourceData) : Prop where
  status : d'.status = d.status
  initiator : d'.initiator = d.initiator
  hash : d'.hash = d.hash
  randomHash : d'.randomHash = d.randomHash
  expectedProof : d'.expectedProof = d.expectedProof
  data : d'.data = d.data
  advertisement : d.initiator = false → d'.advertisement = d.advertisement
  parts : DataParts d → DataParts d'

theorem Bookkeeping.trans {d d' d'' : ResourceData} (h : Bookkeeping d d') (h' : Bookkeeping d' d'') :
    Bookkeeping d d'' where
  status := h'.status.trans h.status
  initiator := h'.initiator.trans h.initiator
  hash := h'.hash.trans h.hash
  randomHash := h'.randomHash.trans h.randomHash
  expectedProof := h'.expectedProof.trans h.expectedProof
  data := h'.data.trans h.data
  advertisement := fun hd => (h'.advertisement (h.initiator.trans hd)).trans (h.advertisement hd)
  parts := fun hd => h'.parts (h.parts hd)

/-- A transfer that is advertised, or under way. -/
def Active (s : ResourceStatus) : Prop := s = .advertised ∨ s = .transferring ∨ s = .awaitingProof

instance : DecidablePred Active := fun s => by unfold Active; infer_instance

/-- The packet identifies the holder of a public key: it decrypts to the key and a signature of the link id and
the key. -/
def Identifies (env : Env) (l : LinkState) (p : Packet) (publicKey : Bytes) : Prop :=
  p.packetType = .data ∧ p.context = ContextType.linkidentify
    ∧ ∃ token signature, l.getToken = .ok token
      ∧ tokenDecrypt env.ciphers token p.data = .ok (publicKey ++ signature)
      ∧ publicKey.length = ecpubsize ∧ signature.length = siglength
      ∧ env.verify (publicKey.mid 32) signature (l.linkId.toList ++ publicKey) = true

/-- An event that no rule of its own stands for. -/
def Event.Plain : Event → Prop
  | .sent _ => False
  | .generated .. => False
  | .identified .. => False
  | .started .. => False
  | .advertising .. => False
  | .rejected _ => False
  | .failed _ => False
  | _ => True

/-- The token that an operation leaves behind: the one it has found, or the one it has asked for. -/
def LinkState.LeavesToken (l : LinkState) (token : Option Token) : Prop :=
  token = l.token ∨ token = l.getToken.toOption

/-- An assignment that leaves the sets of the link and the states of the resources in them in step. -/
inductive Gentle (env : Env) (scope : Scope) : Endpoint → Endpoint → Prop
  | draw (e : Endpoint) : Gentle env scope e { e with draws := e.draws + 1 }
  | token (e : Endpoint) (t : Option Link.Token) : e.link.LeavesToken t →
      Gentle env scope e (e.withLink fun l => { l with token := t })
  | note (e : Endpoint) {event : Event} : event.Plain → Gentle env scope e (e.note event)
  | sent (e : Endpoint) {p : Packet} : NoProof p → Gentle env scope e (e.note (.sent p))
  | prove (e : Endpoint) {p : Packet} (r : Nat) : scope.touches r → (e.resources r).initiator = false →
      (e.resources r).status = .complete →
      (∀ q, unpack p.raw = some q →
        q.data = (e.resources r).hash ++ (env.fullHash ((e.resources r).data ++ (e.resources r).hash)).toList) →
      Gentle env scope e (e.note (.sent p))
  | generate (e : Endpoint) {handler : RequestHandler} (call : GeneratorCall) : e.link.status = .active →
      isAllowed env handler e.link.remoteIdentity = true →
      Gentle env scope e (e.note (.generated handler call e.link.status))
  | identify (e : Endpoint) {p : Packet} {publicKey : Bytes} : scope.packet = some p →
      e.link.initiator = false → Identifies env e.link p publicKey →
      Gentle env scope e
        ((e.withLink fun l => { l with remoteIdentity := some publicKey }).note (.identified p publicKey))
  | activate (e : Endpoint) : e.link.status ≠ .closed → e.link.initiator = false ∨ e.link.status = .stale →
      Gentle env scope e (e.withLink fun l => { l with status := .active })
  | close (e : Endpoint) (reason : TeardownReason) :
      e.link.status = .pending ∨ e.link.status = .closed ∨ e.link.Asked →
      Gentle env scope e { e with link := { e.link with status := .closed }, teardownReason := reason }
  | purge (e : Endpoint) : e.link.status = .closed →
      Gentle env scope e
        (e.withLink fun l => { l with prv := [], pubBytes := [], sharedKey := [], derivedKey := [] })
  | ask (e : Endpoint) (receipt : RequestReceipt) : receipt.status = .sent →
      Gentle env scope e (e.addReceipt receipt)
  | answer (e : Endpoint) (q : Nat) (f : RequestReceipt → RequestReceipt) :
      (f (e.receipts q)).status = (e.receipts q).status ∨ (f (e.receipts q)).status = .ready →
      Gentle env scope e (e.withReceipt q f)
  | settle (e : Endpoint) (q : Nat) : (e.receipts q).status = .ready ∨ (e.receipts q).status = .failed →
      Gentle env scope e { e with pendingRequests := e.pendingRequests.filter (· ≠ q) }
  | configure (e : Endpoint) (requestHandlers : List (Bytes × RequestHandler))
      (resourceStrategy : ResourceStrategy) (resourceCallback resourceConcludedCallback : Bool) :
      Gentle env scope e
        { e with requestHandlers, resourceStrategy, resourceCallback, resourceConcludedCallback }
  | create (e : Endpoint) (d : ResourceData) : scope.touches e.created → d.status = .none →
      d.initiator = false → d.parts = [] →
      Gentle env scope e
        { e with resources := Function.update e.resources e.created d, created := e.created + 1 }
  | keep (e : Endpoint) (r : Nat) (f : ResourceData → ResourceData) : scope.touches r →
      Bookkeeping (e.resources r) (f (e.resources r)) → Gentle env scope e (e.withResource r f)
  | begin (e : Endpoint) (r : Nat) (randomHash : Bytes) : scope.touches r → r < e.created →
      (e.resources r).status = .none → (e.resources r).initiator = false →
      Gentle env scope e
        ((e.withResource r (.begin env.fullHash randomHash)).note (.started r (e.resources r).data))
  | advertise (e : Endpoint) (r : Nat) (f : ResourceData → ResourceData) : scope.touches r →
      r < e.created → (e.resources r).initiator = true → (e.resources r).status = .none →
      Bookkeeping { e.resources r with status := .advertised } (f (e.resources r)) →
      Gentle env scope e (((e.withResource r f).registerOutgoingResource r).note (.advertising r true))
  | queue (e : Endpoint) (r : Nat) : scope.touches r → r < e.created → (e.resources r).initiator = true →
      (e.resources r).status = .none →
      Gentle env scope e ((e.withResource r fun d => { d with status := .queued }).note (.advertising r false))
  | accept (e : Endpoint) (r : Nat) (adv : Advertisement) (plaintext requestId : Bytes) (totalParts : UInt32)
      (concludedCallback : Bool) : scope.touches r → r < e.created → (e.resources r).status = .none →
      (e.resources r).initiator = false → adv = Advertisement.unpack (env.decode plaintext) →
      Gentle env scope e
        (e.withResource r (.ofAdvertisement adv plaintext requestId totalParts concludedCallback))
  | register (e : Endpoint) (r : Nat) : scope.touches r → r < e.created → r ∉ e.incomingResources →
      (e.resources r).initiator = false → (e.resources r).status = .transferring →
      Gentle env scope e (e.registerIncomingResource r)
  | transfer (e : Endpoint) (r : Nat) (f : ResourceData → ResourceData) : scope.touches r →
      ((e.resources r).initiator = true → r ∈ e.outgoingResources) →
      Active (e.resources r).status →
      Bookkeeping { e.resources r with status := .transferring } (f (e.resources r)) →
      Gentle env scope e (e.withResource r f)
  | await (e : Endpoint) (r : Nat) (f : ResourceData → ResourceData) : scope.touches r →
      (e.resources r).initiator = true → (e.resources r).status = .transferring →
      Bookkeeping { e.resources r with status := .awaitingProof } (f (e.resources r)) →
      Gentle env scope e (e.withResource r f)
  | leaveOutgoing (e : Endpoint) (r : Nat) :
      (e.resources r).initiator = false ∨ ¬ Active (e.resources r).status →
      Gentle env scope e (e.cancelOutgoingResource r)
  | leaveIncoming (e : Endpoint) (r : Nat) : Gentle env scope e (e.cancelIncomingResource r)

/-- One assignment of the code. Those that end a transfer are followed by others that take it out of the sets
of the link. -/
inductive Write (env : Env) (scope : Scope) : Endpoint → Endpoint → Prop
  | gentle {e t : Endpoint} : Gentle env scope e t → Write env scope e t
  | assemble (e : Endpoint) (r : Nat) : scope.touches r → (e.resources r).initiator = false →
      (e.resources r).status = .transferring →
      Write env scope e (e.withResource r fun d => { d with status := .assembling })
  | corrupt (e : Endpoint) (r : Nat) : scope.touches r → (e.resources r).initiator = false →
      (e.resources r).status = .assembling ∨ (e.resources r).status = .corrupt →
      Write env scope e (e.withResource r fun d => { d with status := .corrupt })
  | complete (e : Endpoint) (r : Nat) (data : Bytes) : scope.touches r →
      (e.resources r).initiator = false → (e.resources r).status = .assembling →
      (env.fullHash (data ++ (e.resources r).randomHash)).toList = (e.resources r).hash →
      Write env scope e (e.withResource r fun d => { d with data, status := .complete })
  | validated (e : Endpoint) (r : Nat) {p : Packet} : scope.touches r → scope.packet = some p →
      (e.resources r).initiator = true → IsResourceProof p → p.data.length = hashBytes * 2 →
      p.data.left hashBytes = (e.resources r).hash →
      p.data.mid hashBytes = (e.resources r).expectedProof →
      Write env scope e (e.withResource r fun d => { d with status := .complete })
  | fail (e : Endpoint) (r : Nat) : scope.knows r → (e.resources r).status.concluded = false →
      Write env scope e (e.withResource r fun d => { d with status := .failed })
  | reject (e : Endpoint) (r : Nat) : scope.knows r → (e.resources r).status.concluded = false →
      (e.resources r).initiator = true →
      Write env scope e ((e.withResource r fun d => { d with status := .rejected }).note (.rejected r))

/-- Any number of writes. -/
def Writes (env : Env) (scope : Scope) (e t : Endpoint) : Prop := ReflTransGen (Write env scope) e t

/-! ## What a scope bounds -/

/-- The resources in the sets of the link are known, and those to come are at hand. -/
structure Scope.Bounds (scope : Scope) (e : Endpoint) : Prop where
  incoming : ∀ r ∈ e.incomingResources, scope.knows r
  outgoing : ∀ r ∈ e.outgoingResources, scope.knows r
  coming : ∀ r, e.created ≤ r → scope.touches r

/-- The sets of the link hold the resources under way, on their side, and nothing else. -/
structure Endpoint.Clean (e : Endpoint) : Prop where
  nodup : e.incomingResources.Nodup ∧ e.outgoingResources.Nodup
  incoming : ∀ r ∈ e.incomingResources,
    r < e.created ∧ (e.resources r).initiator = false ∧ (e.resources r).status = .transferring
  outgoing : ∀ r ∈ e.outgoingResources,
    r < e.created ∧ (e.resources r).initiator = true ∧ Active (e.resources r).status
  parts : ∀ r, DataParts (e.resources r)

section Bounds

variable {env : Env} {scope : Scope} {e t : Endpoint}

theorem Gentle.bounds (h : Gentle env scope e t) (hb : scope.Bounds e) : scope.Bounds t := by
  cases h
  case create => exact ⟨hb.incoming, hb.outgoing, fun r hr => hb.coming r (Nat.le_of_succ_le hr)⟩
  case advertise r _ htouch _ _ _ _ =>
    refine ⟨hb.incoming, fun q hq => ?_, hb.coming⟩
    obtain hq | hq := List.mem_append.mp hq
    · exact hb.outgoing q hq
    · rw [List.mem_singleton.mp hq]
      exact scope.knows_of_touches r htouch
  case register r htouch _ _ _ _ =>
    refine ⟨fun q hq => ?_, hb.outgoing, hb.coming⟩
    obtain hq | hq := List.mem_append.mp hq
    · exact hb.incoming q hq
    · rw [List.mem_singleton.mp hq]
      exact scope.knows_of_touches r htouch
  case leaveOutgoing => exact ⟨hb.incoming, fun q hq => hb.outgoing q (List.mem_of_mem_filter hq), hb.coming⟩
  case leaveIncoming => exact ⟨fun q hq => hb.incoming q (List.mem_of_mem_filter hq), hb.outgoing, hb.coming⟩
  all_goals exact ⟨hb.incoming, hb.outgoing, hb.coming⟩

theorem Writes.bounds (h : Writes env scope e t) (hb : scope.Bounds e) : scope.Bounds t := by
  induction h with
  | refl => exact hb
  | tail _ hw ih =>
    cases hw
    case gentle hg => exact hg.bounds ih
    all_goals exact ⟨ih.incoming, ih.outgoing, ih.coming⟩

/-- A resource that is changed keeps the link clean if it stays what the sets say it is. -/
theorem Endpoint.Clean.withResource (hc : e.Clean) {r : Nat} {f : ResourceData → ResourceData}
    (hin : r ∈ e.incomingResources →
      (f (e.resources r)).initiator = false ∧ (f (e.resources r)).status = .transferring)
    (hout : r ∈ e.outgoingResources →
      (f (e.resources r)).initiator = true ∧ Active (f (e.resources r)).status)
    (hparts : DataParts (f (e.resources r))) : (e.withResource r f).Clean where
  nodup := hc.nodup
  incoming q hq := by
    refine ⟨(hc.incoming q hq).1, ?_⟩
    by_cases hqr : q = r
    · subst hqr
      simpa only [Endpoint.withResource_self] using hin hq
    · simpa only [Endpoint.withResource_of_ne hqr] using (hc.incoming q hq).2
  outgoing q hq := by
    refine ⟨(hc.outgoing q hq).1, ?_⟩
    by_cases hqr : q = r
    · subst hqr
      simpa only [Endpoint.withResource_self] using hout hq
    · simpa only [Endpoint.withResource_of_ne hqr] using (hc.outgoing q hq).2
  parts q := by
    by_cases hqr : q = r
    · subst hqr
      simpa only [Endpoint.withResource_self] using hparts
    · simpa only [Endpoint.withResource_of_ne hqr] using hc.parts q

/-- A resource without a state yet is in no set. -/
theorem Endpoint.Clean.not_mem (hc : e.Clean) {r : Nat} (hr : ¬ Active (e.resources r).status) :
    r ∉ e.incomingResources ∧ r ∉ e.outgoingResources :=
  ⟨fun hin => hr (.inr (.inl (hc.incoming r hin).2.2)), fun hout => hr (hc.outgoing r hout).2.2⟩

theorem nodup_register {rs : List Nat} {r : Nat} (h : rs.Nodup) (hr : r ∉ rs) : (rs ++ [r]).Nodup :=
  List.concat_eq_append ▸ h.concat hr

theorem Gentle.clean (h : Gentle env scope e t) (hc : e.Clean) : t.Clean := by
  have hnone : ∀ {r}, (e.resources r).status = .none →
      r ∉ e.incomingResources ∧ r ∉ e.outgoingResources := fun hr =>
    hc.not_mem (by rw [hr]; decide)
  cases h
  case create d _ hstatus hinitiator hparts =>
    have hold : ∀ q, q < e.created → Function.update e.resources e.created d q = e.resources q :=
      fun q hq => Function.update_of_ne (Nat.ne_of_lt hq) ..
    refine ⟨hc.nodup, fun q hq => ?_, fun q hq => ?_, fun q => ?_⟩
    · obtain ⟨hlt, hq⟩ := hc.incoming q hq
      refine ⟨Nat.lt_succ_of_lt hlt, ?_⟩
      dsimp only
      rwa [hold q hlt]
    · obtain ⟨hlt, hq⟩ := hc.outgoing q hq
      refine ⟨Nat.lt_succ_of_lt hlt, ?_⟩
      dsimp only
      rwa [hold q hlt]
    · by_cases hq : q = e.created
      · subst hq
        simp only [Function.update_self, DataParts, hparts, List.not_mem_nil, false_implies, implies_true]
      · simpa only [Function.update_of_ne hq] using hc.parts q
  case keep r f _ hf =>
    refine hc.withResource (fun hin => ?_) (fun hout => ?_) (hf.parts (hc.parts r))
    · rw [hf.initiator, hf.status]
      exact (hc.incoming r hin).2
    · rw [hf.initiator, hf.status]
      exact (hc.outgoing r hout).2
  case begin r randomHash _ _ hstatus hinitiator =>
    have hset := hnone hstatus
    have hclean := hc.withResource (f := .begin env.fullHash randomHash)
      (fun hin => absurd hin hset.1) (fun hout => absurd hout hset.2) (hc.parts r)
    exact ⟨hclean.nodup, hclean.incoming, hclean.outgoing, hclean.parts⟩
  case advertise r f _ hlt hinitiator hstatus hf =>
    have hset := hnone hstatus
    have hclean := hc.withResource (r := r) (f := f) (fun hin => absurd hin hset.1)
      (fun hout => absurd hout hset.2) (hf.parts (hc.parts r))
    refine ⟨⟨hclean.nodup.1, nodup_register hc.nodup.2 hset.2⟩, hclean.incoming, fun q hq => ?_, hclean.parts⟩
    obtain hq | hq := List.mem_append.mp hq
    · exact hclean.outgoing q hq
    · rw [List.mem_singleton.mp hq]
      refine ⟨hlt, ?_⟩
      simp only [Endpoint.note, Endpoint.registerOutgoingResource, Endpoint.withResource, Function.update_self,
        hf.initiator, hf.status]
      exact ⟨hinitiator, .inl rfl⟩
  case queue r _ _ _ hstatus =>
    have hset := hnone hstatus
    have hclean := hc.withResource (r := r) (f := fun d => { d with status := .queued })
      (fun hin => absurd hin hset.1) (fun hout => absurd hout hset.2) (hc.parts r)
    exact ⟨hclean.nodup, hclean.incoming, hclean.outgoing, hclean.parts⟩
  case accept r adv plaintext requestId totalParts callback _ _ hstatus _ _ =>
    have hset := hnone hstatus
    exact hc.withResource (fun hin => absurd hin hset.1) (fun hout => absurd hout hset.2) (hc.parts r)
  case register r _ hlt hmem hinitiator hstatus =>
    refine ⟨⟨nodup_register hc.nodup.1 hmem, hc.nodup.2⟩, fun q hq => ?_, hc.outgoing, hc.parts⟩
    obtain hq | hq := List.mem_append.mp hq
    · exact hc.incoming q hq
    · rw [List.mem_singleton.mp hq]
      exact ⟨hlt, hinitiator, hstatus⟩
  case transfer r f _ _ _ hf =>
    refine hc.withResource (fun hin => ?_) (fun hout => ?_) (hf.parts (hc.parts r))
    · rw [hf.initiator, hf.status]
      exact ⟨(hc.incoming r hin).2.1, rfl⟩
    · rw [hf.initiator, hf.status]
      exact ⟨(hc.outgoing r hout).2.1, .inr (.inl rfl)⟩
  case await r f _ hinitiator _ hf =>
    refine hc.withResource (fun hin => ?_) (fun hout => ?_) (hf.parts (hc.parts r))
    · rw [(hc.incoming r hin).2.1] at hinitiator
      cases hinitiator
    · rw [hf.initiator, hf.status]
      exact ⟨(hc.outgoing r hout).2.1, .inr (.inr rfl)⟩
  case leaveOutgoing =>
    exact ⟨⟨hc.nodup.1, hc.nodup.2.filter _⟩, hc.incoming,
      fun q hq => hc.outgoing q (List.mem_of_mem_filter hq), hc.parts⟩
  case leaveIncoming =>
    exact ⟨⟨hc.nodup.1.filter _, hc.nodup.2⟩, fun q hq => hc.incoming q (List.mem_of_mem_filter hq),
      hc.outgoing, hc.parts⟩
  all_goals exact ⟨hc.nodup, hc.incoming, hc.outgoing, hc.parts⟩

end Bounds

/-! ## Scopes -/

/-- The resources an endpoint knows: those in the sets of the link, and those it has not made yet. -/
def Endpoint.Known (e : Endpoint) (r : Nat) : Prop :=
  r ∈ e.incomingResources ∨ r ∈ e.outgoingResources ∨ e.created ≤ r

/-- The scope of an input, which may name resources the endpoint does not know any more. -/
def Scope.of (e : Endpoint) (named : Nat → Prop) (packet : Option Packet) : Scope where
  knows r := e.Known r ∨ named r
  touches := e.Known
  packet
  knows_of_touches _ := .inl

/-- The scope of an operation on one resource. -/
def Scope.one (e : Endpoint) (r : Nat) (packet : Option Packet) : Scope where
  knows q := e.Known q ∨ q = r
  touches q := q = r ∨ e.created ≤ q
  packet
  knows_of_touches _ h := h.elim .inr fun h => .inl (.inr (.inr h))

theorem Scope.of_bounds (e : Endpoint) (named : Nat → Prop) (packet : Option Packet) :
    (Scope.of e named packet).Bounds e :=
  ⟨fun _ hr => .inl (.inl hr), fun _ hr => .inl (.inr (.inl hr)), fun _ hr => .inr (.inr hr)⟩

theorem Scope.one_bounds (e : Endpoint) (r : Nat) (packet : Option Packet) :
    (Scope.one e r packet).Bounds e :=
  ⟨fun _ hr => .inl (.inl hr), fun _ hr => .inl (.inr (.inl hr)), fun _ hr => .inr hr⟩

section Scopes

variable {env : Env} {scope scope' : Scope} {e t : Endpoint}

theorem Gentle.mono (htouches : ∀ r, scope'.touches r → scope.touches r)
    (hpacket : scope'.packet = scope.packet) (h : Gentle env scope' e t) : Gentle env scope e t := by
  cases h
  case draw => exact .draw e
  case token t ht => exact .token e t ht
  case note hplain => exact .note e hplain
  case sent hno => exact .sent e hno
  case prove r htouch hinitiator hstatus hreads => exact .prove e r (htouches r htouch) hinitiator hstatus hreads
  case generate call hactive hallowed => exact .generate e call hactive hallowed
  case identify hp hinitiator hidentifies => exact .identify e (hpacket ▸ hp) hinitiator hidentifies
  case activate hopen hrole => exact .activate e hopen hrole
  case close reason hasked => exact .close e reason hasked
  case purge hclosed => exact .purge e hclosed
  case ask receipt hsent => exact .ask e receipt hsent
  case answer q f hstatus => exact .answer e q f hstatus
  case settle q hsettled => exact .settle e q hsettled
  case configure => exact .configure e ..
  case create d htouch hstatus hinitiator hparts => exact .create e d (htouches _ htouch) hstatus hinitiator hparts
  case keep r f htouch hf => exact .keep e r f (htouches r htouch) hf
  case begin r randomHash htouch hlt hstatus hinitiator =>
    exact .begin e r randomHash (htouches r htouch) hlt hstatus hinitiator
  case advertise r f htouch hlt hinitiator hstatus hf =>
    exact .advertise e r f (htouches r htouch) hlt hinitiator hstatus hf
  case queue r htouch hlt hinitiator hstatus => exact .queue e r (htouches r htouch) hlt hinitiator hstatus
  case accept r adv plaintext requestId totalParts callback htouch hlt hstatus hinitiator hadv =>
    exact .accept e r adv plaintext requestId totalParts callback (htouches r htouch) hlt hstatus hinitiator hadv
  case register r htouch hlt hmem hinitiator hstatus =>
    exact .register e r (htouches r htouch) hlt hmem hinitiator hstatus
  case transfer r f htouch hout hactive hf => exact .transfer e r f (htouches r htouch) hout hactive hf
  case await r f htouch hinitiator hstatus hf => exact .await e r f (htouches r htouch) hinitiator hstatus hf
  case leaveOutgoing r hended => exact .leaveOutgoing e r hended
  case leaveIncoming r => exact .leaveIncoming e r

/-- A wider scope allows what a narrower one does. -/
theorem Write.mono (hknows : ∀ r, scope'.knows r → scope.knows r)
    (htouches : ∀ r, scope'.touches r → scope.touches r) (hpacket : scope'.packet = scope.packet)
    (h : Write env scope' e t) : Write env scope e t := by
  cases h
  case gentle hg => exact .gentle (hg.mono htouches hpacket)
  case validated r p htouch hp hinitiator hproof hlength hhash hexpected =>
    exact .validated e r (htouches r htouch) (hpacket ▸ hp) hinitiator hproof hlength hhash hexpected
  case fail r hr hconcluded => exact .fail e r (hknows r hr) hconcluded
  case reject r hr hconcluded hinitiator => exact .reject e r (hknows r hr) hconcluded hinitiator
  case assemble r htouch hinitiator hstatus => exact .assemble e r (htouches r htouch) hinitiator hstatus
  case corrupt r htouch hinitiator hstatus => exact .corrupt e r (htouches r htouch) hinitiator hstatus
  case complete r data htouch hinitiator hstatus hhash =>
    exact .complete e r data (htouches r htouch) hinitiator hstatus hhash

theorem Write.created_le (h : Write env scope e t) : e.created ≤ t.created := by
  cases h
  case gentle hg =>
    cases hg
    case create => exact Nat.le_succ _
    all_goals exact Nat.le_refl _
  all_goals exact Nat.le_refl _

theorem Writes.created_le (h : Writes env scope e t) : e.created ≤ t.created := by
  induction h with
  | refl => exact Nat.le_refl _
  | tail _ hw ih => exact Nat.le_trans ih hw.created_le

theorem Gentle.closed (h : Gentle env scope e t) (hclosed : e.link.status = .closed) : t.link.status = .closed := by
  cases h
  case activate hopen _ => exact absurd hclosed hopen
  case close => rfl
  all_goals exact hclosed

/-- A closed link stays closed. -/
theorem Write.closed (h : Write env scope e t) (hclosed : e.link.status = .closed) : t.link.status = .closed := by
  cases h
  case gentle hg => exact hg.closed hclosed
  all_goals exact hclosed

theorem Writes.closed (h : Writes env scope e t) (hclosed : e.link.status = .closed) : t.link.status = .closed := by
  induction h with
  | refl => exact hclosed
  | tail _ hw ih => exact hw.closed ih

/-- What is not touched can only be failed or rejected, and only where it is known. -/
theorem Write.untouched {q : Nat} (h : Write env scope e t) (hq : ¬ scope.touches q) :
    t.resources q = e.resources q ∨ scope.knows q
      ∧ (t.resources q = { e.resources q with status := .failed }
        ∨ (e.resources q).initiator = true ∧ t.resources q = { e.resources q with status := .rejected }) := by
  have hother : ∀ {r}, scope.touches r → q ≠ r := fun hr hqr => hq (hqr ▸ hr)
  cases h
  case gentle hg =>
    refine .inl ?_
    cases hg
    case create d htouch _ _ _ => exact Function.update_of_ne (hother htouch) ..
    case keep htouch _ => exact Endpoint.withResource_of_ne (hother htouch) ..
    case begin htouch _ _ _ => exact Endpoint.withResource_of_ne (hother htouch) ..
    case advertise htouch _ _ _ _ => exact Endpoint.withResource_of_ne (hother htouch) ..
    case queue htouch _ _ _ =>
      rw [Endpoint.note_resources]
      exact Endpoint.withResource_of_ne (hother htouch) ..
    case accept htouch _ _ _ _ => exact Endpoint.withResource_of_ne (hother htouch) ..
    case transfer htouch _ _ _ => exact Endpoint.withResource_of_ne (hother htouch) ..
    case await htouch _ _ _ => exact Endpoint.withResource_of_ne (hother htouch) ..
    all_goals rfl
  case fail r hr _ =>
    by_cases hqr : q = r
    · subst hqr
      exact .inr ⟨hr, .inl (Endpoint.withResource_self ..)⟩
    · exact .inl (Endpoint.withResource_of_ne hqr ..)
  case reject r hr _ hinitiator =>
    rw [Endpoint.note_resources]
    by_cases hqr : q = r
    · subst hqr
      exact .inr ⟨hr, .inr ⟨hinitiator, Endpoint.withResource_self ..⟩⟩
    · exact .inl (Endpoint.withResource_of_ne hqr ..)
  case assemble htouch _ _ => exact .inl (Endpoint.withResource_of_ne (hother htouch) ..)
  case corrupt htouch _ _ => exact .inl (Endpoint.withResource_of_ne (hother htouch) ..)
  case complete htouch _ _ _ => exact .inl (Endpoint.withResource_of_ne (hother htouch) ..)
  case validated htouch _ _ _ _ _ _ => exact .inl (Endpoint.withResource_of_ne (hother htouch) ..)

/-- What nobody knows stays as it is. -/
theorem Writes.unknown {q : Nat} (h : Writes env scope e t) (hq : ¬ scope.knows q) :
    t.resources q = e.resources q := by
  induction h with
  | refl => rfl
  | tail _ hw ih =>
    obtain hsame | ⟨hknown, -⟩ := hw.untouched fun htouch => hq (scope.knows_of_touches q htouch)
    · exact hsame.trans ih
    · exact absurd hknown hq

end Scopes

end MicroReticulum.Link
