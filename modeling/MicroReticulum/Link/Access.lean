import MicroReticulum.Link.Inputs

/-!
# Who may call a request handler

A response generator is called in one place, and the remote identity of a link is set in one place. What the
two have to do with each other is an invariant of all writes (`Guarded`): a generator that was called was
permitted by what had been noted before, and whoever is noted as identified signed the id of the link in a
packet that came in on it.

`generators_run_for_permitted` states this for every run. Signatures are assumed unforgeable there, which is a
premise about `verify` and the relation `Signed`, of a key and a message its holder signed.
-/

namespace MicroReticulum.Link

open MicroReticulum Packet Library Resource Cryptography

variable {env : Env} {scope : Scope} {s t : Endpoint}

/-- The call of a generator is permitted by what was noted before it: the link is active, and its handler is
for everybody, or for a listed identity that was identified. -/
structure Permitted (env : Env) (handler : RequestHandler) (status : Status) (before : List Event) : Prop where
  active : status = .active
  policy : handler.allow = .allowAll ∨ handler.allow = .allowList ∧ ∃ p publicKey,
    .identified p publicKey ∈ before ∧ truncatedHash env.fullHash publicKey ∈ handler.allowedList

/-- What holds of the notes of an endpoint that has seen certain packets. -/
structure Guarded (env : Env) (linkId : Address) (seen : Packet → Prop) (e : Endpoint) : Prop where
  link : e.link.linkId = linkId
  remote : ∀ publicKey, e.link.remoteIdentity = some publicKey → ∃ p, .identified p publicKey ∈ e.events
  identified : ∀ p publicKey, .identified p publicKey ∈ e.events →
    seen p ∧ ∃ l : LinkState, l.linkId = linkId ∧ Identifies env l p publicKey
  generated : ∀ before after handler call status,
    e.events = before ++ .generated handler call status :: after → Permitted env handler status before

/-- Where an element stands in a list with one more at its end. -/
theorem split_concat {α : Type} {xs before after : List α} {x y : α}
    (h : xs ++ [y] = before ++ x :: after) :
    x = y ∧ xs = before ∨ ∃ after', xs = before ++ x :: after' := by
  obtain rfl | ⟨after', z, rfl⟩ := List.eq_nil_or_concat' after
  · obtain ⟨hxs, hxy⟩ := List.append_inj' h rfl
    exact .inl ⟨(List.cons.inj hxy).1.symm, hxs⟩
  · rw [← List.cons_append, ← List.append_assoc] at h
    exact .inr ⟨after', (List.append_inj' h rfl).1⟩

section Guarded

variable {linkId : Address} {seen : Packet → Prop}

/-- An event that is neither a call nor an identification. -/
theorem Guarded.more (h : Guarded env linkId seen s) {event : Event}
    (hcall : ∀ handler call status, event ≠ .generated handler call status)
    (hidentified : ∀ p publicKey, event ≠ .identified p publicKey) (hlink : t.link = s.link)
    (hevents : t.events = s.events ++ [event]) : Guarded env linkId seen t where
  link := hlink ▸ h.link
  remote publicKey hremote := by
    obtain ⟨p, hp⟩ := h.remote publicKey (hlink ▸ hremote)
    exact ⟨p, hevents ▸ List.mem_append_left _ hp⟩
  identified p publicKey hp := by
    obtain hp | hp := List.mem_append.mp (hevents ▸ hp)
    · exact h.identified p publicKey hp
    · exact absurd (List.mem_singleton.mp hp).symm (hidentified p publicKey)
  generated before after handler call status hsplit := by
    obtain ⟨hnew, -⟩ | ⟨after', hold⟩ := split_concat (hevents ▸ hsplit)
    · exact absurd hnew.symm (hcall handler call status)
    · exact h.generated before after' handler call status hold

/-- What `isAllowed` lets through is permitted. -/
theorem Guarded.permitted (h : Guarded env linkId seen s) {handler : RequestHandler}
    (hactive : s.link.status = .active) (hallowed : isAllowed env handler s.link.remoteIdentity = true) :
    Permitted env handler s.link.status s.events := by
  refine ⟨hactive, ?_⟩
  unfold isAllowed at hallowed
  split at hallowed
  case h_1 => cases hallowed
  case h_2 hlist =>
    split at hallowed
    case h_1 publicKey hremote =>
      obtain ⟨p, hp⟩ := h.remote publicKey hremote
      exact .inr ⟨hlist, p, publicKey, hp, of_decide_eq_true hallowed⟩
    case h_2 => cases hallowed
  case h_3 hall => exact .inl hall

theorem Gentle.guarded (hw : Gentle env scope s t) (hseen : ∀ p, scope.packet = some p → seen p)
    (h : Guarded env linkId seen s) : Guarded env linkId seen t := by
  cases hw
  case note event hplain =>
    refine h.more (fun handler call status he => ?_) (fun p publicKey he => ?_) rfl rfl <;>
      · rw [he] at hplain
        exact hplain
  case sent => exact h.more (fun _ _ _ => Event.noConfusion) (fun _ _ => Event.noConfusion) rfl rfl
  case prove => exact h.more (fun _ _ _ => Event.noConfusion) (fun _ _ => Event.noConfusion) rfl rfl
  case begin => exact h.more (fun _ _ _ => Event.noConfusion) (fun _ _ => Event.noConfusion) rfl rfl
  case advertise => exact h.more (fun _ _ _ => Event.noConfusion) (fun _ _ => Event.noConfusion) rfl rfl
  case queue => exact h.more (fun _ _ _ => Event.noConfusion) (fun _ _ => Event.noConfusion) rfl rfl
  case generate handler call hactive hallowed =>
    refine ⟨h.link, fun publicKey hremote => ?_, fun p publicKey hp => ?_,
      fun before after handler' call' status' hsplit => ?_⟩
    · obtain ⟨p, hp⟩ := h.remote publicKey hremote
      exact ⟨p, List.mem_append_left _ hp⟩
    · obtain hp | hp := List.mem_append.mp hp
      · exact h.identified p publicKey hp
      · cases List.mem_singleton.mp hp
    · obtain ⟨hnew, hbefore⟩ | ⟨after', hold⟩ := split_concat hsplit
      · cases hnew
        exact hbefore ▸ h.permitted hactive hallowed
      · exact h.generated before after' handler' call' status' hold
  case identify p publicKey hp _ hidentifies =>
    refine ⟨h.link, fun publicKey' hremote => ?_, fun p' publicKey' hp' => ?_,
      fun before after handler call status hsplit => ?_⟩
    · cases hremote
      exact ⟨p, List.mem_append_right _ (List.mem_singleton.mpr rfl)⟩
    · obtain hp' | hp' := List.mem_append.mp hp'
      · exact h.identified p' publicKey' hp'
      · cases List.mem_singleton.mp hp'
        exact ⟨hseen p hp, s.link, h.link, hidentifies⟩
    · obtain ⟨hnew, -⟩ | ⟨after', hold⟩ := split_concat hsplit
      · cases hnew
      · exact h.generated before after' handler call status hold
  all_goals exact ⟨h.link, h.remote, h.identified, h.generated⟩

theorem Write.guarded (hw : Write env scope s t) (hseen : ∀ p, scope.packet = some p → seen p)
    (h : Guarded env linkId seen s) : Guarded env linkId seen t := by
  cases hw
  case gentle hg => exact hg.guarded hseen h
  case reject => exact h.more (fun _ _ _ => Event.noConfusion) (fun _ _ => Event.noConfusion) rfl rfl
  all_goals exact ⟨h.link, h.remote, h.identified, h.generated⟩

theorem Endpoint.Fresh.guarded (h : s.Fresh) : Guarded env s.link.linkId seen s where
  link := rfl
  remote publicKey hremote := by
    rw [h.remoteIdentity] at hremote
    cases hremote
  identified p publicKey hp := by
    rw [h.events] at hp
    cases hp
  generated before after handler call status hsplit := by
    rw [h.events] at hsplit
    simp at hsplit

end Guarded

/-- A response generator is called only while the link is active, and only by a handler for everybody or by one
that lists an identity which has signed the id of this link with its key, in a packet the link accepted
before. -/
theorem generators_run_for_permitted (hfresh : s.Fresh) {Signed : Bytes → Bytes → Prop}
    (unforgeable : ∀ key signature message, env.verify key signature message = true → Signed key message)
    {inputs : List Input} {before after : List Event} {handler : RequestHandler} {call : GeneratorCall}
    {status : Status}
    (hcalled : (run env s inputs).events = before ++ .generated handler call status :: after) :
    status = .active ∧ (handler.allow = .allowAll ∨ handler.allow = .allowList ∧ ∃ p publicKey,
      .identified p publicKey ∈ before
      ∧ truncatedHash env.fullHash publicKey ∈ handler.allowedList
      ∧ (∃ receivingInterface rates, .packet p receivingInterface rates ∈ inputs)
      ∧ (∃ l : LinkState, l.linkId = s.link.linkId ∧ Identifies env l p publicKey)
      ∧ Signed (publicKey.mid 32) (s.link.linkId.toList ++ publicKey)) := by
  have hguarded : Guarded env s.link.linkId
      (fun p => ∃ receivingInterface rates, Input.packet p receivingInterface rates ∈ inputs)
      (run env s inputs) := by
    refine run_invariant (fun input hinput e t u hw h => hw.guarded (fun p hp => ?_) h) hfresh.clean
      hfresh.guarded
    cases input with
    | packet q receivingInterface rates =>
      cases hp
      exact ⟨receivingInterface, rates, hinput⟩
    | _ => cases hp
  obtain ⟨hactive, hall | ⟨hlist, p, publicKey, hp, hlisted⟩⟩ := hguarded.generated _ _ _ _ _ hcalled
  · exact ⟨hactive, .inl hall⟩
  refine ⟨hactive, .inr ⟨hlist, p, publicKey, hp, hlisted, ?_⟩⟩
  obtain ⟨hin, l, hlink, hidentifies⟩ :=
    hguarded.identified p publicKey (hcalled ▸ List.mem_append_left _ hp)
  refine ⟨hin, ⟨l, hlink, hidentifies⟩, ?_⟩
  obtain ⟨-, -, token, signature, -, -, -, -, hverify⟩ := hidentifies
  exact hlink ▸ unforgeable _ _ _ hverify

namespace Sample

/-- The public key of the peer. -/
def publicKey : Bytes := List.replicate ecpubsize 1

/-- A handler for one listed peer, which answers with nothing. -/
def handler : RequestHandler where
  path := []
  responseGenerator _ := .ok []
  allow := .allowList
  allowedList := [.fill 3]

/-- The end of a link with that handler. -/
def responder : Endpoint where
  link := link false
  requestHandlers := [([9], handler)]

theorem responder_fresh : responder.Fresh := ⟨rfl, rfl, rfl, fun _ => rfl, rfl, rfl, rfl⟩

/-- Every digest is the same. -/
def threes : Env := plainEnv fun _ => List.Vector.replicate 32 3

def identify : Packet :=
  arrived ContextType.linkidentify (wire (publicKey ++ List.replicate siglength 7))

def asked : Packet :=
  arrived ContextType.request (wire (packRequestEnvelope threes (.fin 0) [9] [0xC0]))

/-- What the handler is called with. -/
def call : GeneratorCall where
  path := []
  data := [0xC0]
  requestId := (Address.fill 3).toList
  linkId := .fill 0
  remoteIdentity := some publicKey
  requestedAt := .fin 0

end Sample

set_option maxRecDepth 20000 in
/-- A peer identifies itself and makes a request: its handler is called, and it is a listed one. -/
theorem generators_run_for_permitted_listed :
    Sample.handler.allow = .allowList ∧ ∃ p publicKey,
      .identified p publicKey ∈ [Event.identified Sample.identify Sample.publicKey]
      ∧ truncatedHash Sample.threes.fullHash publicKey ∈ Sample.handler.allowedList := by
  have hcalled : (run Sample.threes Sample.responder
      [Sample.comesIn Sample.identify, Sample.comesIn Sample.asked]).events
        = [.identified Sample.identify Sample.publicKey] ++ .generated Sample.handler Sample.call .active :: [] := by
    rfl
  have unforgeable : ∀ key signature message, Sample.threes.verify key signature message = true →
      (fun _ _ => True : Bytes → Bytes → Prop) key message := fun _ _ _ _ => trivial
  obtain ⟨-, hall | ⟨hlist, p, publicKey, hp, hlisted, -⟩⟩ :=
    generators_run_for_permitted Sample.responder_fresh unforgeable hcalled
  · cases hall
  · exact ⟨hlist, p, publicKey, hp, hlisted⟩

end MicroReticulum.Link
