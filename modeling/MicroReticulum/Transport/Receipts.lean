import MicroReticulum.Library.Logged
import MicroReticulum.Link.Proof
import MicroReticulum.Packet.RoundTrip
import MicroReticulum.Transport.Inbound

/-!
# Packet receipts

A `PacketReceipt` is a shared object: `Transport` keeps the outstanding ones in a list, and whoever sent the packet
may hold on to his for as long as he likes. `Receipts` are the objects and that list. What a receipt does is noted:
the signature checks it attempts, and the callbacks it calls. What a callback does in turn to receipts comes behind
the statement that calls it, where the source has nothing left to write.

`deliverProof` is what `Transport::inbound` does with a proof that is not for a link request or a resource. It
offers the proof to the receipts it may belong to. An explicit proof names the hash of its packet, and the check of
its signature asks the identity of the destination without looking whether there is one; an implicit proof looks
first. `deliverProof_secure_iff` says which proofs run into that. A proof that comes over an active link never gets
that far: its signature is not checked at all (`linkProof_never_accepted`).
-/

namespace MicroReticulum.Transport

open MicroReticulum Packet Link Library

/-- `Type::PacketReceipt::EXPL_LENGTH` -/
def explLength : Nat := 32 + siglength

/-- `Type::PacketReceipt::IMPL_LENGTH` -/
def implLength : Nat := siglength

/-- The `_destination` of a receipt. That of a packet over a link is made without an identity, and an identity need
not hold a public key. -/
structure ReceiptDestination where
  type : DestinationType
  hash : Address
  identity : Option (Option Bytes)
  deriving DecidableEq

/-- The public key to check proofs with. -/
def ReceiptDestination.publicKey (d : ReceiptDestination) : Option Bytes := d.identity.join

structure Receipt extends PacketReceipt where
  destination : ReceiptDestination
  proved : Bool := false
  /-- `_delivery_fn` is set -/
  deliveryHandler : Bool := false
  /-- `_delivery` is set -/
  deliveryCallback : Bool := false
  deriving DecidableEq

/-- What a receipt is seen to do. -/
inductive ReceiptEvent where
  /-- a signature check by an identity -/
  | checks (identity : Option (Option Bytes))
  | delivered
  | timedOut
  deriving DecidableEq

/-- What ends a call that was not to end. -/
inductive Fault where
  /-- an `assert` on an object that is not there -/
  | assertion
  | runtimeError (message : String)
  deriving DecidableEq

/-! ## One receipt -/

section

variable (verify : Bytes → Bytes → Bytes → Bool) (now : ℚ)

/-- `Identity::validate` -/
def identityValidate (identity : Option (Option Bytes)) (signature message : Bytes) :
    Prog Fault (Logged Receipt ReceiptEvent) Bool := do
  Logged.note (.checks identity)
  match identity with
  | none => Prog.throw .assertion
  | some none =>
    Prog.throw (.runtimeError "Signature validation failed because identity does not hold a public key")
  | some (some key) => pure (verify key signature message)

/-- A receipt whose packet was proven. -/
def Receipt.delivered (r : Receipt) : Receipt := { r with status := .delivered, proved := true, concludedAt := now }

/-- A receipt is delivered, and says so to the handler or the callback. -/
def concludeDelivered : Prog Fault (Logged Receipt ReceiptEvent) Unit := do
  Logged.lift (Prog.modify (Receipt.delivered now))
  let s ← Prog.get
  Prog.when (s.state.deliveryHandler || s.state.deliveryCallback) (Logged.note .delivered)

/-- The check of a signature that `PacketReceipt::validate_proof` makes for either form of proof. -/
def validateSignature (signature : Bytes) : Prog Fault (Logged Receipt ReceiptEvent) Bool := do
  let s ← Prog.get
  let valid ← identityValidate verify s.state.destination.identity signature s.state.hash.toList
  if valid then do
    concludeDelivered now
    pure true
  else pure false

/-- `PacketReceipt::validate_proof` -/
def validateProof (proof : Bytes) : Prog Fault (Logged Receipt ReceiptEvent) Bool := do
  let s ← Prog.get
  if proof.length = explLength then
    let proofHash := proof.left 32
    let signature := proof.midLen 32 siglength
    if proofHash = s.state.hash.toList then validateSignature verify now signature else pure false
  else if proof.length = implLength then
    if s.state.destination.identity = none then pure false
    else validateSignature verify now (proof.left siglength)
  else pure false

/-- The call of `Link::validate` is commented out, and `false` stands in its place. -/
def linkValidates (_link : LinkState) (_signature _message : Bytes) : Bool := false

/-- `PacketReceipt::validate_link_proof`; any length will do. -/
def validateLinkProof (proof : Bytes) (link : LinkState) : Prog Fault (Logged Receipt ReceiptEvent) Bool := do
  let s ← Prog.get
  let proofHash := proof.left 32
  let signature := proof.midLen 32 siglength
  if proofHash = s.state.hash.toList then
    if linkValidates link signature s.state.hash.toList then do
      concludeDelivered now
      pure true
    else pure false
  else pure false

/-- `PacketReceipt::validate_proof_packet`, with the link the proof was assigned to -/
def validateProofPacket (p : Packet) (link : Option LinkState) : Prog Fault (Logged Receipt ReceiptEvent) Bool :=
  match link with
  | some link => validateLinkProof now p.data link
  | none => validateProof verify now p.data

/-- `PacketReceipt::set_timeout` -/
def setTimeout (timeout : Int16) : Prog Fault (Logged Receipt ReceiptEvent) Unit :=
  Logged.lift (Prog.modify fun r => { r with timeout := timeout.toInt })

/-- `PacketReceipt::is_timed_out` -/
def Receipt.isTimedOut (r : Receipt) : Bool := r.sentAt + r.timeout < now

/-- A receipt whose time is over. -/
def Receipt.expired (r : Receipt) : Receipt :=
  { r with status := if r.timeout = -1 then .culled else .failed, concludedAt := now }

/-- `PacketReceipt::check_timeout` -/
def checkTimeout : Prog Fault (Logged Receipt ReceiptEvent) Unit := do
  let s ← Prog.get
  Prog.when (s.state.status = .sent ∧ s.state.isTimedOut now = true) do
    Logged.lift (Prog.modify (Receipt.expired now))
    Prog.when (s.state.timeoutHandler ≠ .none) (Logged.note .timedOut)

end

/-! ## All receipts -/

/-- The objects, and `Transport::_receipts`. -/
structure Receipts where
  objects : Nat → Receipt
  outstanding : List Nat

/-- What one receipt has become, and what it was seen to do. -/
def putReceipt (r : Nat) (t : Logged Receipt ReceiptEvent) (s : Logged Receipts (Nat × ReceiptEvent)) :
    Logged Receipts (Nat × ReceiptEvent) where
  state := { s.state with objects := Function.update s.state.objects r t.state }
  log := s.log ++ t.log.map (Prod.mk r)

/-- Run what one receipt does. -/
def onReceipt {α : Type} (r : Nat) (m : Prog Fault (Logged Receipt ReceiptEvent) α) :
    Prog Fault (Logged Receipts (Nat × ReceiptEvent)) α :=
  Prog.zoom (fun s => { state := s.state.objects r }) (putReceipt r) m

section

variable (verify : Bytes → Bytes → Bytes → Bool) (now : ℚ)

/-- The active link a proof is assigned to. -/
def attachedLink (activeLinks : List LinkState) (p : Packet) : Option LinkState :=
  if p.destinationType = .link then activeLinks.find? fun l => l.linkId = p.destinationHash else none

/-- One round of the loop over the outstanding receipts. An explicit proof is offered to those of its packet. -/
def offerProof (p : Packet) (link : Option LinkState) (concluded : List Nat) (r : Nat) :
    Prog Fault (Logged Receipts (Nat × ReceiptEvent)) (List Nat) := do
  let s ← Prog.get
  if (proofHash p).all fun hash => (s.state.objects r).hash.toList = hash then do
    let validated ← onReceipt r (validateProofPacket verify now p link)
    pure (if validated then concluded ++ [r] else concluded)
  else pure concluded

/-- What `Transport::inbound` does with a proof for receipts. -/
def deliverProof (activeLinks : List LinkState) (p : Packet) :
    Prog Fault (Logged Receipts (Nat × ReceiptEvent)) Unit := do
  let s ← Prog.get
  let concluded ← Prog.fold s.state.outstanding [] (offerProof verify now p (attachedLink activeLinks p))
  Logged.lift <| Prog.modify fun s => { s with outstanding := s.outstanding.filter (· ∉ concluded) }

/-- The receipts that are taken from the front while there are too many. -/
def cullReceipts : Prog Fault (Logged Receipts (Nat × ReceiptEvent)) Unit := do
  let s ← Prog.get
  let culled := s.state.outstanding.take (s.state.outstanding.length - maxReceipts)
  Prog.forEach culled fun r => do
    Logged.lift <| Prog.modify fun s => { s with outstanding := s.outstanding.tail }
    onReceipt r (setTimeout (-1))
    onReceipt r (checkTimeout now)

/-- The part of `Transport::jobs` that goes through the receipts. -/
def receiptsJob : Prog Fault (Logged Receipts (Nat × ReceiptEvent)) Unit := do
  cullReceipts now
  let s ← Prog.get
  let concluded ← Prog.fold s.state.outstanding [] fun concluded r => do
    onReceipt r (checkTimeout now)
    let s ← Prog.get
    pure (if (s.state.objects r).status ≠ .sent then concluded ++ [r] else concluded)
  Logged.lift <| Prog.modify fun s => { s with outstanding := s.outstanding.filter (· ∉ concluded) }

end

/-! ## What a proof does to one receipt -/

section

variable {verify : Bytes → Bytes → Bytes → Bool} {now : ℚ} {r : Receipt} {proof : Bytes}

/-- The signature in a proof. -/
def proofSignature (proof : Bytes) : Bytes :=
  if proof.length = explLength then proof.midLen 32 siglength else proof.left siglength

/-- The signature is checked for this receipt. -/
def Receipt.Tries (r : Receipt) (proof : Bytes) : Prop :=
  proof.length = explLength ∧ proof.left 32 = r.hash.toList
    ∨ proof.length = implLength ∧ r.destination.identity ≠ none

instance (r : Receipt) (proof : Bytes) : Decidable (r.Tries proof) :=
  inferInstanceAs (Decidable (_ ∨ _))

/-- The proof is a signature of the packet of the receipt by the key of its destination. -/
def Receipt.ProvenBy (verify : Bytes → Bytes → Bytes → Bool) (r : Receipt) (proof : Bytes) : Prop :=
  r.Tries proof ∧ ∃ key, r.destination.publicKey = some key ∧ verify key (proofSignature proof) r.hash.toList = true

/-- The calls of a receipt that is delivered. -/
def Receipt.deliveryCalls (r : Receipt) : List ReceiptEvent :=
  if r.deliveryHandler || r.deliveryCallback then [.delivered] else []

/-- How a proof ends for a receipt. -/
inductive Judged (verify : Bytes → Bytes → Bytes → Bool) (now : ℚ) (r : Receipt) (proof : Bytes) :
    Outcome Fault Bool → Logged Receipt ReceiptEvent → Prop
  | skips (h : ¬ r.Tries proof) : Judged verify now r proof (.value false) ⟨r, []⟩
  | keyless (h : r.Tries proof) (hkey : r.destination.publicKey = none) (fault : Fault) :
    Judged verify now r proof (.thrown fault) ⟨r, [.checks r.destination.identity]⟩
  | refuted (key : Bytes) (hkey : r.destination.publicKey = some key)
    (hinvalid : verify key (proofSignature proof) r.hash.toList = false) :
    Judged verify now r proof (.value false) ⟨r, [.checks (some (some key))]⟩
  | proven (key : Bytes) (h : r.ProvenBy verify proof) :
    Judged verify now r proof (.value true) ⟨r.delivered now, .checks (some (some key)) :: r.deliveryCalls⟩

theorem concludeDelivered_run (s : Logged Receipt ReceiptEvent) :
    concludeDelivered now s = (.value (), ⟨s.state.delivered now, s.log ++ s.state.deliveryCalls⟩) := by
  have hrun : concludeDelivered now s
      = Prog.when (s.state.deliveryHandler || s.state.deliveryCallback) (Logged.note .delivered)
        ⟨s.state.delivered now, s.log⟩ := rfl
  rw [hrun]
  unfold Prog.when Receipt.deliveryCalls
  split
  · rfl
  · rw [List.append_nil]
    rfl

theorem validateSignature_judged (h : r.Tries proof) :
    Judged verify now r proof (validateSignature verify now (proofSignature proof) ⟨r, []⟩).1
      (validateSignature verify now (proofSignature proof) ⟨r, []⟩).2 := by
  cases hidentity : r.destination.identity with
  | none =>
    have hkey : r.destination.publicKey = none := by simp [ReceiptDestination.publicKey, hidentity]
    have hrun : validateSignature verify now (proofSignature proof) ⟨r, []⟩
        = (.thrown .assertion, ⟨r, [.checks r.destination.identity]⟩) := by
      simp [validateSignature, identityValidate, Logged.note, Prog.bind_run, hidentity]
    rw [hrun]
    exact .keyless h hkey _
  | some held =>
    cases held with
    | none =>
      have hkey : r.destination.publicKey = none := by simp [ReceiptDestination.publicKey, hidentity]
      have hrun : validateSignature verify now (proofSignature proof) ⟨r, []⟩
          = (.thrown (.runtimeError "Signature validation failed because identity does not hold a public key"),
            ⟨r, [.checks r.destination.identity]⟩) := by
        simp [validateSignature, identityValidate, Logged.note, Prog.bind_run, hidentity]
      rw [hrun]
      exact .keyless h hkey _
    | some key =>
      have hkey : r.destination.publicKey = some key := by simp [ReceiptDestination.publicKey, hidentity]
      cases hvalid : verify key (proofSignature proof) r.hash.toList with
      | false =>
        have hrun : validateSignature verify now (proofSignature proof) ⟨r, []⟩
            = (.value false, ⟨r, [.checks (some (some key))]⟩) := by
          simp [validateSignature, identityValidate, Logged.note, Prog.bind_run, hidentity, hvalid]
        rw [hrun]
        exact .refuted key hkey hvalid
      | true =>
        have hrun : validateSignature verify now (proofSignature proof) ⟨r, []⟩
            = (.value true, ⟨r.delivered now, .checks (some (some key)) :: r.deliveryCalls⟩) := by
          simp [validateSignature, identityValidate, concludeDelivered_run, Logged.note, Prog.bind_run, hidentity, hvalid]
        rw [hrun]
        exact .proven key ⟨h, key, hkey, hvalid⟩

theorem validateProof_judged (verify : Bytes → Bytes → Bytes → Bool) (now : ℚ) (r : Receipt) (proof : Bytes) :
    Judged verify now r proof (validateProof verify now proof ⟨r, []⟩).1
      (validateProof verify now proof ⟨r, []⟩).2 := by
  by_cases htries : r.Tries proof
  · have hrun : validateProof verify now proof ⟨r, []⟩ = validateSignature verify now (proofSignature proof) ⟨r, []⟩ := by
      unfold validateProof proofSignature
      rw [Prog.get_bind_run]
      rcases htries with ⟨hlength, hhash⟩ | ⟨hlength, hidentity⟩
      · simp [hlength, hhash]
      · have hne : proof.length ≠ explLength := by
          rw [hlength]
          decide
        rw [if_neg hne, if_neg hne, if_pos hlength]
        simp [hidentity]
    rw [hrun]
    exact validateSignature_judged htries
  · have hrun : validateProof verify now proof ⟨r, []⟩ = (.value false, ⟨r, []⟩) := by
      unfold Receipt.Tries at htries
      push Not at htries
      unfold validateProof
      rw [Prog.get_bind_run]
      split
      · next hlength => simp [htries.1 hlength]
      · split
        · next hlength => simp [htries.2 hlength]
        · rfl
    rw [hrun]
    exact .skips htries

/-- Over a link nothing is ever proven. -/
theorem validateLinkProof_run (now : ℚ) (proof : Bytes) (link : LinkState) (s : Logged Receipt ReceiptEvent) :
    validateLinkProof now proof link s = (.value false, s) := by
  unfold validateLinkProof linkValidates
  rw [Prog.get_bind_run]
  simp

end

/-! ## What it does to all of them -/

variable {verify : Bytes → Bytes → Bytes → Bool} {now : ℚ} {p : Packet} {s t u : Logged Receipts (Nat × ReceiptEvent)}
  {r : Nat}

theorem putReceipt_same (r : Nat) (log : List ReceiptEvent) (s : Logged Receipts (Nat × ReceiptEvent)) :
    putReceipt r ⟨s.state.objects r, log⟩ s = { s with log := s.log ++ log.map (Prod.mk r) } := by
  unfold putReceipt
  rw [Function.update_eq_self]

theorem onReceipt_run {α : Type} (r : Nat) (m : Prog Fault (Logged Receipt ReceiptEvent) α)
    (s : Logged Receipts (Nat × ReceiptEvent)) :
    onReceipt r m s = ((m ⟨s.state.objects r, []⟩).1, putReceipt r (m ⟨s.state.objects r, []⟩).2 s) := rfl

/-- A receipt the proof is not offered to would not have tried it. -/
theorem offerProof_judged (p : Packet) (concluded : List Nat) (r : Nat) (s : Logged Receipts (Nat × ReceiptEvent)) :
    ∃ o t, Judged verify now (s.state.objects r) p.data o t
      ∧ offerProof verify now p none concluded r s
        = (o.map fun validated => if validated then concluded ++ [r] else concluded, putReceipt r t s) := by
  unfold offerProof
  rw [Prog.get_bind_run]
  split
  case isTrue =>
    have hjudged := validateProof_judged verify now (s.state.objects r) p.data
    rcases hrun : validateProof verify now p.data ⟨s.state.objects r, []⟩ with ⟨o, t⟩
    rw [hrun] at hjudged
    refine ⟨o, t, hjudged, ?_⟩
    have hplaced : onReceipt r (validateProofPacket verify now p none) s = _ :=
      onReceipt_run r (validateProof verify now p.data) s
    rw [hrun] at hplaced
    rw [Prog.bind_run, hplaced]
    cases o <;> rfl
  case isFalse hother =>
    have hskips : ¬ (s.state.objects r).Tries p.data := by
      rintro (⟨hlength, hhash⟩ | ⟨hlength, -⟩)
      · unfold explLength at hlength
        simp [proofHash, hlength, hhash] at hother
      · have hne : p.data.length ≠ 32 + siglength := by
          rw [hlength]
          decide
        simp [proofHash, hne] at hother
    refine ⟨_, _, .skips hskips, ?_⟩
    rw [putReceipt_same, List.map_nil, List.append_nil]
    rfl

/-- A proof that is assigned to a link changes nothing. -/
theorem offerProof_linked (p : Packet) (link : LinkState) (concluded : List Nat) (r : Nat)
    (s : Logged Receipts (Nat × ReceiptEvent)) :
    offerProof verify now p (some link) concluded r s = (.value concluded, s) := by
  unfold offerProof
  rw [Prog.get_bind_run]
  split
  · have hplaced : onReceipt r (validateProofPacket verify now p (some link)) s = _ :=
      onReceipt_run r (validateLinkProof now p.data link) s
    rw [validateLinkProof_run, putReceipt_same, List.map_nil, List.append_nil] at hplaced
    rw [Prog.bind_run, hplaced]
    rfl
  · rfl

/-- What the loop may have done so far: receipts were delivered that the proof proves, and no check was made without
an identity. -/
structure Offered (verify : Bytes → Bytes → Bytes → Bool) (p : Packet) (s t : Logged Receipts (Nat × ReceiptEvent)) :
    Prop where
  outstanding : t.state.outstanding = s.state.outstanding
  hash : ∀ r, (t.state.objects r).hash = (s.state.objects r).hash
  destination : ∀ r, (t.state.objects r).destination = (s.state.objects r).destination
  objects : ∀ r, t.state.objects r = s.state.objects r ∨ r ∈ s.state.outstanding
    ∧ (s.state.objects r).ProvenBy verify p.data ∧ (t.state.objects r).status = .delivered
  checks : ∀ r identity, (r, .checks identity) ∈ t.log → (r, .checks identity) ∈ s.log ∨ identity ≠ none

namespace Offered

theorem refl (s : Logged Receipts (Nat × ReceiptEvent)) : Offered verify p s s :=
  ⟨rfl, fun _ => rfl, fun _ => rfl, fun _ => .inl rfl, fun _ _ h => .inl h⟩

/-- What a receipt tries, and what proves it, depends on what does not change. -/
theorem provenBy_iff (h : Offered verify p s t) (r : Nat) :
    (t.state.objects r).ProvenBy verify p.data ↔ (s.state.objects r).ProvenBy verify p.data := by
  unfold Receipt.ProvenBy Receipt.Tries
  rw [h.hash, h.destination]

theorem trans (h : Offered verify p s t) (h' : Offered verify p t u) : Offered verify p s u where
  outstanding := h'.outstanding.trans h.outstanding
  hash r := (h'.hash r).trans (h.hash r)
  destination r := (h'.destination r).trans (h.destination r)
  objects r := by
    rcases h'.objects r with hsame | ⟨hin, hproven, hdelivered⟩
    · rw [hsame]
      exact h.objects r
    · rw [h.outstanding] at hin
      exact .inr ⟨hin, (h.provenBy_iff r).mp hproven, hdelivered⟩
  checks r identity hmem := (h'.checks r identity hmem).elim (h.checks r identity) .inr

/-- A receipt that is unchanged, and made its checks with a key. -/
theorem log (s : Logged Receipts (Nat × ReceiptEvent)) (log : List ReceiptEvent)
    (hlog : ∀ identity, .checks identity ∈ log → identity ≠ none) (r : Nat) :
    Offered verify p s (putReceipt r ⟨s.state.objects r, log⟩ s) := by
  rw [putReceipt_same]
  refine ⟨rfl, fun _ => rfl, fun _ => rfl, fun _ => .inl rfl, fun q identity hmem => ?_⟩
  rcases List.mem_append.mp hmem with hmem | hmem
  · exact .inl hmem
  · obtain ⟨e, he, heq⟩ := List.mem_map.mp hmem
    cases heq
    exact .inr (hlog identity he)

/-- A receipt that was judged, unless it has no key. -/
theorem of_judged {o : Outcome Fault Bool} {t : Logged Receipt ReceiptEvent} (hr : r ∈ s.state.outstanding)
    (h : Judged verify now (s.state.objects r) p.data o t) (hvalue : ∀ fault, o ≠ .thrown fault) :
    Offered verify p s (putReceipt r t s) := by
  cases h with
  | skips => exact .log s [] (fun _ h => by cases h) r
  | keyless _ _ fault => exact absurd rfl (hvalue fault)
  | refuted key hkey =>
    refine .log s _ (fun identity hmem => ?_) r
    cases List.mem_singleton.mp hmem
    exact Option.some_ne_none _
  | proven key hproven =>
    refine ⟨rfl, fun q => ?_, fun q => ?_, fun q => ?_, fun q identity hmem => ?_⟩
    · by_cases hq : q = r
      · subst hq
        simp [putReceipt, Receipt.delivered]
      · simp [putReceipt, Function.update_of_ne hq]
    · by_cases hq : q = r
      · subst hq
        simp [putReceipt, Receipt.delivered]
      · simp [putReceipt, Function.update_of_ne hq]
    · by_cases hq : q = r
      · subst hq
        exact .inr ⟨hr, hproven, by simp [putReceipt, Receipt.delivered]⟩
      · exact .inl (Function.update_of_ne hq _ _)
    · rcases List.mem_append.mp hmem with hmem | hmem
      · exact .inl hmem
      · obtain ⟨e, he, heq⟩ := List.mem_map.mp hmem
        cases heq
        rcases List.mem_cons.mp he with he | he
        · cases he
          exact .inr (Option.some_ne_none _)
        · unfold Receipt.deliveryCalls at he
          split at he
          · cases List.mem_singleton.mp he
          · cases he

end Offered

/-- The proof is tried on a receipt without a public key. -/
def Receipt.Keyless (r : Receipt) (proof : Bytes) : Prop := r.Tries proof ∧ r.destination.publicKey = none

instance (r : Receipt) (proof : Bytes) : Decidable (r.Keyless proof) := inferInstanceAs (Decidable (_ ∧ _))

theorem Offered.keyless_iff (h : Offered verify p s t) (r : Nat) :
    (t.state.objects r).Keyless p.data ↔ (s.state.objects r).Keyless p.data := by
  unfold Receipt.Keyless Receipt.Tries
  rw [h.hash, h.destination]

/-- The first of some receipts on which the loop ends. -/
def firstKeyless (proof : Bytes) (s : Receipts) (rs : List Nat) : Option Nat :=
  rs.find? fun r => (s.objects r).Keyless proof

theorem offer_loop (rs concluded : List Nat) (s : Logged Receipts (Nat × ReceiptEvent))
    (hrs : ∀ r ∈ rs, r ∈ s.state.outstanding) :
    (∃ concluded' t, Prog.fold rs concluded (offerProof verify now p none) s = (.value concluded', t)
        ∧ Offered verify p s t ∧ firstKeyless p.data s.state rs = none
        ∧ ∀ r ∈ concluded', r ∈ concluded ∨ (s.state.objects r).ProvenBy verify p.data)
      ∨ ∃ fault r t, firstKeyless p.data s.state rs = some r ∧ Offered verify p s t
        ∧ Prog.fold rs concluded (offerProof verify now p none) s
          = (.thrown fault,
            { t with log := t.log ++ [(r, .checks (s.state.objects r).destination.identity)] }) := by
  induction rs generalizing concluded s with
  | nil => exact .inl ⟨concluded, s, rfl, .refl s, rfl, fun _ h => .inl h⟩
  | cons r rs ih =>
    have hr := hrs r List.mem_cons_self
    obtain ⟨o, t, hjudged, hrun⟩ := @offerProof_judged verify now p concluded r s
    have hfold : Prog.fold (r :: rs) concluded (offerProof verify now p none) s
        = (offerProof verify now p none concluded r >>= fun concluded =>
            Prog.fold rs concluded (offerProof verify now p none)) s := rfl
    by_cases hkeyless : (s.state.objects r).Keyless p.data
    · -- the loop ends here
      have hfirst : firstKeyless p.data s.state (r :: rs) = some r := by
        simp [firstKeyless, hkeyless]
      cases hjudged with
      | skips h => exact absurd hkeyless.1 h
      | refuted key hkey => rw [hkeyless.2] at hkey; cases hkey
      | proven key h => obtain ⟨-, key, hkey, -⟩ := h; rw [hkeyless.2] at hkey; cases hkey
      | keyless _ _ fault =>
        refine .inr ⟨fault, r, s, hfirst, .refl s, ?_⟩
        rw [hfold, Prog.bind_run, hrun, putReceipt_same]
        rfl
    · have hfirst : ∀ q : Receipts, q.objects r = s.state.objects r →
          firstKeyless p.data q (r :: rs) = firstKeyless p.data q rs := by
        intro q hq
        simp [firstKeyless, hq, hkeyless]
      have hvalue : ∀ fault, o ≠ .thrown fault := by
        rintro fault rfl
        cases hjudged with
        | keyless h hkey => exact hkeyless ⟨h, hkey⟩
      have hstep := Offered.of_judged hr hjudged hvalue
      have hrest : ∀ q ∈ rs, q ∈ (putReceipt r t s).state.outstanding := fun q hq => hrs q (List.mem_cons_of_mem _ hq)
      have hsame : firstKeyless p.data (putReceipt r t s).state rs = firstKeyless p.data s.state rs := by
        unfold firstKeyless
        simp only [hstep.keyless_iff]
      obtain ⟨validated, rfl, hvalidated⟩ : ∃ validated, o = .value validated
          ∧ (validated = true → (s.state.objects r).ProvenBy verify p.data) := by
        cases hjudged with
        | skips => exact ⟨false, rfl, fun h => by cases h⟩
        | keyless _ _ fault => exact absurd rfl (hvalue fault)
        | refuted => exact ⟨false, rfl, fun h => by cases h⟩
        | proven _ h => exact ⟨true, rfl, fun _ => h⟩
      rw [hfold, Prog.bind_run, hrun, hfirst _ rfl]
      rcases ih (if validated then concluded ++ [r] else concluded) (putReceipt r t s) hrest with
        ⟨concluded', u, hu, hoffered, hnone, hmem⟩ | ⟨fault, q, u, hfirst', hoffered, hu⟩
      · refine .inl ⟨concluded', u, hu, hstep.trans hoffered, by rw [← hsame]; exact hnone, fun q hq => ?_⟩
        rcases hmem q hq with hq | hq
        · cases validated with
          | false => exact .inl hq
          | true =>
            rcases List.mem_append.mp hq with hq | hq
            · exact .inl hq
            · rw [List.mem_singleton.mp hq]
              exact .inr (hvalidated rfl)
        · exact .inr ((hstep.provenBy_iff q).mp hq)
      · refine .inr ⟨fault, q, u, by rw [← hsame]; exact hfirst', hstep.trans hoffered, ?_⟩
        rw [hstep.destination] at hu
        exact hu

/-! ## Proofs are checked by the right key -/

/-- What a proof may do to receipts. -/
structure Secure (verify : Bytes → Bytes → Bytes → Bool) (p : Packet) (s : Receipts)
    (t : Logged Receipts (Nat × ReceiptEvent)) : Prop where
  /-- what has changed was delivered, and proven by the key of its destination -/
  changed : ∀ r, t.state.objects r ≠ s.objects r →
    r ∈ s.outstanding ∧ (s.objects r).ProvenBy verify p.data ∧ (t.state.objects r).status = .delivered
  /-- what has left the list was proven -/
  left : ∀ r ∈ s.outstanding, r ∉ t.state.outstanding → (s.objects r).ProvenBy verify p.data
  /-- no check was made without an identity -/
  identified : ∀ r, (r, .checks none) ∉ t.log

/-- The proof is not assigned to a link, and the first outstanding receipt without a public key on which it is tried
belongs to a destination without an identity. -/
def Unidentified (activeLinks : List LinkState) (p : Packet) (s : Receipts) : Prop :=
  attachedLink activeLinks p = none
    ∧ ∃ r, firstKeyless p.data s s.outstanding = some r ∧ (s.objects r).destination.identity = none

theorem deliverProof_linked {activeLinks : List LinkState} {link : LinkState}
    (h : attachedLink activeLinks p = some link) (s : Receipts) :
    deliverProof verify now activeLinks p ⟨s, []⟩ = (.value (), ⟨s, []⟩) := by
  have hloop : ∀ rs concluded, Prog.fold rs concluded (offerProof verify now p (some link)) (⟨s, []⟩ : Logged Receipts _)
      = (.value concluded, ⟨s, []⟩) := by
    intro rs
    induction rs with
    | nil => exact fun _ => rfl
    | cons r rs ih =>
      intro concluded
      change (offerProof verify now p (some link) concluded r >>= _) _ = _
      rw [Prog.bind_run, offerProof_linked]
      exact ih concluded
  unfold deliverProof
  rw [Prog.get_bind_run, h, Prog.bind_run, hloop]
  simp [Logged.lift, Prog.zoom]

/-- A proof delivers the receipts it proves by the key of their destination, and asks nobody without an identity,
unless it is an explicit one for a receipt whose destination has none. -/
theorem deliverProof_secure_iff (verify : Bytes → Bytes → Bytes → Bool) (now : ℚ) (activeLinks : List LinkState)
    (p : Packet) (s : Receipts) :
    Secure verify p s (deliverProof verify now activeLinks p ⟨s, []⟩).2 ↔ ¬ Unidentified activeLinks p s := by
  cases hlink : attachedLink activeLinks p with
  | some link =>
    rw [deliverProof_linked hlink]
    refine iff_of_true ⟨fun r h => absurd rfl h, fun r h h' => absurd h h', fun r h => by cases h⟩ ?_
    rintro ⟨hnone, -⟩
    rw [hlink] at hnone
    cases hnone
  | none =>
    unfold deliverProof
    rw [Prog.get_bind_run, hlink, Prog.bind_run]
    rcases @offer_loop verify now p s.outstanding [] ⟨s, []⟩ (fun _ h => h) with
      ⟨concluded, t, hrun, hoffered, hnone, hproven⟩ | ⟨fault, r, t, hfirst, hoffered, hrun⟩
    · rw [hrun]
      refine iff_of_true ⟨fun r h => ?_, fun r h h' => ?_, fun r h => ?_⟩ ?_
      · exact (hoffered.objects r).resolve_left h
      · have hconcluded : r ∈ concluded := by
          by_contra hr
          refine h' (List.mem_filter.mpr ⟨?_, by simpa using hr⟩)
          rw [hoffered.outstanding]
          exact h
        exact (hproven r hconcluded).resolve_left List.not_mem_nil
      · rcases hoffered.checks r none h with h | h
        · cases h
        · exact h rfl
      · rintro ⟨-, r, hfirst, -⟩
        change firstKeyless p.data s s.outstanding = none at hnone
        rw [hnone] at hfirst
        cases hfirst
    · rw [hrun]
      change firstKeyless p.data s s.outstanding = some r at hfirst
      by_cases hidentity : (s.objects r).destination.identity = none
      · refine iff_of_false (fun h => ?_) (fun h => h ⟨hlink, r, hfirst, hidentity⟩)
        refine h.identified r (List.mem_append_right _ (List.mem_singleton.mpr ?_))
        rw [hidentity]
      · refine iff_of_true ⟨fun q h => (hoffered.objects q).resolve_left h, fun q h h' => ?_, fun q h => ?_⟩ ?_
        · exact absurd (hoffered.outstanding ▸ h) h'
        · rcases List.mem_append.mp h with h | h
          · rcases hoffered.checks q none h with h | h
            · cases h
            · exact h rfl
          · have hevent : ReceiptEvent.checks none = .checks (s.objects r).destination.identity :=
              congrArg Prod.snd (List.mem_singleton.mp h)
            exact hidentity (ReceiptEvent.checks.inj hevent).symm
        · rintro ⟨-, q, hfirst', hnone⟩
          rw [hfirst] at hfirst'
          cases hfirst'
          exact hidentity hnone

/-! ## Proofs over a link -/

/-- `Link::prove_packet`: the proof of a packet by its hash. -/
def provePacketSpec (c : Primitives) (link : LinkState) (packetHash : Hash) : PacketSpec :=
  linkSpec link .proof .none (packetHash.toList ++ c.sign link.sigPrv packetHash.toList)

/-- Two ends of an active link, one of which has sent a packet and waits for its receipt, and the other has proven it.
-/
structure Proving (c : Primitives) where
  prover : LinkState
  sender : LinkState
  sameLink : sender.linkId = prover.linkId
  active : sender.status = .active ∧ prover.status = .active
  /-- the keys of the handshake -/
  proverKey : prover.sigPubBytes = c.ed25519Public prover.sigPrv
  senderKey : sender.peerSigPubBytes = prover.sigPubBytes
  packetHash : Hash
  /-- the proof as it is sent, and as the sender of the packet reads it -/
  encrypt : PacketSpec → Bytes → Except String Bytes
  sent : Packet
  packed : pack encrypt (construct (provePacketSpec c prover packetHash)) = .ok sent
  arrived : Packet
  unpacked : unpack sent.raw = some arrived
  activeLinks : List LinkState
  listed : sender ∈ activeLinks
  receipts : Receipts
  receipt : Nat
  outstanding : receipt ∈ receipts.outstanding
  unproven : (receipts.objects receipt).status = .sent
  ofPacket : (receipts.objects receipt).hash = packetHash

/-- The receipt is delivered, its callback is called once if there is one, and it is not outstanding any more. -/
def Proving.Accepted {c : Primitives} (scene : Proving c) (t : Logged Receipts (Nat × ReceiptEvent)) : Prop :=
  (t.state.objects scene.receipt).status = .delivered
    ∧ t.log.filter (· = (scene.receipt, .delivered))
      = (scene.receipts.objects scene.receipt).deliveryCalls.map (Prod.mk scene.receipt)
    ∧ scene.receipt ∉ t.state.outstanding

/-- The proof finds the link of the sender. -/
theorem Proving.attached {c : Primitives} (scene : Proving c) (hops : UInt8) :
    ∃ link, attachedLink scene.activeLinks { scene.arrived with hops } = some link := by
  obtain ⟨data, -, hunpack⟩ := unpack_laidout scene.packed (.inl rfl) fun _ h => TransportType.noConfusion h
  have harrived := Option.some.inj (scene.unpacked.symm.trans hunpack)
  have htype : scene.arrived.destinationType = .link := by
    rw [harrived]
    exact (getPackedFlags_fields scene.packed).1
  have hhash : scene.arrived.destinationHash = scene.sender.linkId := by
    rw [harrived]
    exact scene.sameLink.symm
  have hfound : (scene.activeLinks.find? fun l => l.linkId = scene.arrived.destinationHash).isSome := by
    rw [List.find?_isSome]
    exact ⟨scene.sender, scene.listed, by simp [hhash]⟩
  obtain ⟨link, hlink⟩ := Option.isSome_iff_exists.mp hfound
  exact ⟨link, (if_pos htype).trans hlink⟩

/-- A proof that `Link::prove_packet` has made is never accepted by the other end of the link. -/
theorem linkProof_never_accepted (c : Primitives) (scene : Proving c) (hops : UInt8) (now : ℚ) :
    ¬ scene.Accepted
      (deliverProof c.verify now scene.activeLinks { scene.arrived with hops } ⟨scene.receipts, []⟩).2 := by
  obtain ⟨link, hlink⟩ := scene.attached hops
  rw [deliverProof_linked hlink]
  rintro ⟨hdelivered, -, -⟩
  rw [scene.unproven] at hdelivered
  cases hdelivered

namespace Sample

/-- The initiator of a link, when it is established. -/
def establishedInitiator : LinkState :=
  { sampleInitiator with status := .active, peerSigPubBytes := fit 32 [4] }

def establishedResponder : LinkState := { sampleResponder with status := .active }

/-- What the initiator has of the packet it sent. -/
def linkReceipt : Receipt where
  hash := .replicate 32 5
  truncatedHash := .fill 5
  sentAt := 0
  timeout := 10
  destination := { type := .link, hash := .fill 7, identity := none }
  deliveryCallback := true

/-- The responder proves the packet. -/
def packetProof : Packet :=
  ofLayout 0x0F 0 none (.fill 7) ContextType.none
    (provePacketSpec samplePrimitives establishedResponder (.replicate 32 5)).data

def linkReceipts : Receipts where
  objects _ := linkReceipt
  outstanding := [0]

def proving : Proving samplePrimitives where
  prover := establishedResponder
  sender := establishedInitiator
  sameLink := rfl
  active := ⟨rfl, rfl⟩
  proverKey := rfl
  senderKey := rfl
  packetHash := .replicate 32 5
  encrypt := prefixEncrypt
  sent := { packetProof with data := (provePacketSpec samplePrimitives establishedResponder (.replicate 32 5)).data }
  packed := by decide +kernel
  arrived := packetProof
  unpacked := by decide +kernel
  activeLinks := [establishedInitiator]
  listed := by simp
  receipts := linkReceipts
  receipt := 0
  outstanding := by decide
  unproven := rfl
  ofPacket := rfl

end Sample

/-- The proof of a packet of the initiator, by the keys of the handshake. -/
theorem linkProof_not_accepted : ¬ ∀ (c : Primitives) (scene : Proving c) (now : ℚ),
    scene.Accepted (deliverProof c.verify now scene.activeLinks scene.arrived ⟨scene.receipts, []⟩).2 := by
  intro h
  have hdelivered := (h _ Sample.proving 0).1
  revert hdelivered
  decide +kernel

/-- The same proof, addressed to no link. -/
theorem linkReceipt_checked_without_identity :
    ¬ ∀ (verify : Bytes → Bytes → Bytes → Bool) (now : ℚ) (activeLinks : List LinkState) (p : Packet) (s : Receipts),
      Secure verify p s (deliverProof verify now activeLinks p ⟨s, []⟩).2 := by
  intro h
  have hsecure := h (fun _ _ _ => true) 0 [] { Sample.packetProof with destinationType := .single } Sample.linkReceipts
  exact hsecure.identified 0 (by decide +kernel)

end MicroReticulum.Transport
