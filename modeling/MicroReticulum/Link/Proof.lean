import MicroReticulum.Link.State

/-!
# Link request proofs on the initiator's side

`validateProof` is `Link::validate_proof`: parsing, peer loading, key agreement, signature check,
activation and the exception handler around all of them. The peer's keys are loaded and the
handshake is made before the signature is looked at, so a proof of the right size and mode changes
the link whoever sent it, and every exception closes the link.

`proof_atomic_iff` is about a pending initiator and any list of proofs it must reject: the link is
undisturbed, and still opened by the responder's proof with the responder's keys, exactly if every
one of them was turned away by its size alone. The application's established callback is a
parameter; the answer of `Transport::outbound` to the round-trip packet is not looked at by the
source and is left out.
-/

namespace MicroReticulum.Link

open MicroReticulum Packet Library

/-- A link request proof handed to `validate_proof`, with the interface it came in on and the
clock. -/
structure Arrival where
  packet : Packet
  receivingInterface : Transport.Interface
  now : ℚ

/-- `Type::Identity::SIGLENGTH / 8 + ECPUBSIZE / 2` -/
def proofSize : Nat := siglength + ecpubsize / 2

/-- The payload of a proof without its signalling bytes, the MTU they confirm, and the bytes as
the initiator builds them itself. -/
structure ProofPayload where
  data : Bytes
  confirmedMtu : UInt16
  signalling : Bytes

/-- The size check that splits the signalling bytes off a proof. -/
def proofPayload (p : Packet) : Except String ProofPayload :=
  if p.data.length = proofSize + linkMtuSize then
    (signallingBytes (mtuFromLpPacket p) (modeFromLpPacket p)).map fun signalling =>
      { data := p.data.left proofSize, confirmedMtu := mtuFromLpPacket p, signalling }
  else .ok { data := p.data, confirmedMtu := 0, signalling := [] }

/-- `_establishment_cost += packet.raw().size()` -/
def addCost (p : Packet) (l : LinkState) : LinkState :=
  { l with establishmentCost := l.establishmentCost + UInt16.ofNat p.raw.length }

/-- The assignments behind a valid signature, up to `_last_proof`. -/
def activated (a : Arrival) (confirmedMtu : UInt16) (l : LinkState) : LinkState :=
  { updateMdu
      { l with
        rtt := a.now - l.requestTime
        attachedInterface := some a.receivingInterface
        remoteIdentity := some l.destinationPublicKey
        mtu := if confirmedMtu ≠ 0 then confirmedMtu else UInt16.ofNat reticulumMtu } with
    status := .active
    activatedAt := a.now
    lastProof := a.now }

/-- `Transport::activate_link` -/
def activateLink : Prog String LinkState Unit := do
  let l ← Prog.get
  Prog.when (l.table = some .pendingLinks) do
    Prog.require (l.status = .active) "Invalid link state for link activation"
    Prog.modify fun l => { l with table := some .activeLinks, status := .active }

/-- The establishment rate is kept when nothing was measured. -/
def updateEstablishmentRate (l : LinkState) : LinkState :=
  if 0 < l.rtt ∧ 0 < l.establishmentCost then
    { l with establishmentRate := l.establishmentCost.toNat / l.rtt }
  else l

/-- Packing and sending the round-trip packet. The source also unpacks and decrypts it once, which
leaves a token behind. -/
def sendRtt (c : Primitives) (a : Arrival) : Prog String LinkState Unit := do
  let l ← Prog.get
  let rttData := c.packRtt l.rtt
  -- the token is there before the packet turns out to be too long
  Prog.modify .keepToken
  let _ ← Prog.ofExcept
    (pack (fun _ => linkEncrypt c l) (linkSpec l .data ContextType.lrrtt rttData))
  Prog.require (l.status ≠ .closed) "Attempt to transmit over a closed link"
  Prog.modify fun l =>
    { l with lastOutbound := a.now, tx := l.tx + 1
             txbytes := l.txbytes + UInt16.ofNat rttData.length }

/-- `validate_proof` behind the signature check. -/
def establish (c : Primitives) (established : LinkState → Except String Unit) (a : Arrival)
    (confirmedMtu : UInt16) : Prog String LinkState Unit := do
  let l ← Prog.get
  Prog.require (l.status = .handshake) "Invalid link state for proof validation: "
  Prog.modify (activated a confirmedMtu)
  activateLink
  Prog.modify updateEstablishmentRate
  sendRtt c a
  let l ← Prog.get
  Prog.ofExcept (established l)

/-- `validate_proof` from the peer's keys on. -/
def checkProof (c : Primitives) (established : LinkState → Except String Unit) (a : Arrival)
    (payload : ProofPayload) : Prog String LinkState Unit := do
  let l ← Prog.get
  let peerSigPub := l.destinationPublicKey.midLen (ecpubsize / 2) (ecpubsize / 2)
  Prog.modify (loadPeer (payload.data.midLen siglength (ecpubsize / 2)) peerSigPub)
  handshake c
  Prog.modify (addCost a.packet)
  let l ← Prog.get
  Prog.when (c.verify peerSigPub (payload.data.left siglength)
      (l.linkId.toList ++ l.peerPubBytes ++ l.peerSigPubBytes ++ payload.signalling))
    (establish c established a payload.confirmedMtu)

/-- The body of the `try` block of `Link::validate_proof`. -/
def validateProofBody (c : Primitives) (established : LinkState → Except String Unit)
    (a : Arrival) : Prog String LinkState Unit := do
  let l ← Prog.get
  Prog.when (l.status = .pending) do
    Prog.require (modeFromLpPacket a.packet = l.mode)
      s!"Invalid link mode {(modeFromLpPacket a.packet).code} in link request proof"
    let payload ← Prog.ofExcept (proofPayload a.packet)
    Prog.when (l.initiator ∧ payload.data.length = proofSize) (checkProof c established a payload)

/-- `Link::validate_proof` -/
def validateProof (c : Primitives) (established : LinkState → Except String Unit) (a : Arrival)
    (l : LinkState) : LinkState :=
  (Prog.catching (validateProofBody c established a)
    (fun _ => Prog.modify (.setStatus .closed)) l).2

/-- The link after a list of proofs, in the order of their arrival. -/
def validateProofs (c : Primitives) (established : LinkState → Except String Unit)
    (arrivals : List Arrival) (l : LinkState) : LinkState :=
  arrivals.foldl (fun l a => validateProof c established a l) l

/-! ## What a proof must be -/

/-- What makes a packet a proof of a link: the link's mode, one of the two sizes, a peer key the key
agreement accepts, and the destination's signature over the link id, both keys and the signalling
bytes. Any other packet must be rejected. -/
def Valid (c : Primitives) (l : LinkState) (p : Packet) : Prop :=
  let peerPub := p.data.midLen siglength (ecpubsize / 2)
  let peerSigPub := l.destinationPublicKey.midLen (ecpubsize / 2) (ecpubsize / 2)
  modeFromLpPacket p = l.mode ∧ ∃ payload, proofPayload p = .ok payload
    ∧ payload.data.length = proofSize
    ∧ (∃ sharedKey, c.exchange l.prv peerPub = .ok sharedKey)
    ∧ c.verify peerSigPub (p.data.left siglength)
        (l.linkId.toList ++ peerPub ++ peerSigPub ++ payload.signalling) = true

/-- Turned away by its size alone. -/
def TurnedAway (l : LinkState) (p : Packet) : Prop :=
  modeFromLpPacket p = l.mode ∧ p.data.length ≠ proofSize
    ∧ p.data.length ≠ proofSize + linkMtuSize

/-- The responder's link for the initiator's request, as its handshake left it. -/
structure Answers (c : Primitives) (initiator responder : LinkState) : Prop where
  linkId : responder.linkId = initiator.linkId
  mode : responder.mode = initiator.mode
  initiatorKey : initiator.pubBytes = c.x25519Public initiator.prv
  responderKey : responder.pubBytes = c.x25519Public responder.prv
  peerKey : responder.peerPubBytes = initiator.pubBytes
  ownerKey : responder.sigPubBytes = c.ed25519Public responder.sigPrv
  destinationKey : initiator.destinationPublicKey.midLen (ecpubsize / 2) (ecpubsize / 2)
    = responder.sigPubBytes
  handshake : ∃ before, before.status = .pending
    ∧ Link.handshake c before = (.value (), responder)

/-- Status, keys, MTU and mode are as they were. -/
structure SameEstablishment (l l' : LinkState) : Prop where
  status : l'.status = l.status
  mode : l'.mode = l.mode
  mtu : l'.mtu = l.mtu
  mdu : l'.mdu = l.mdu
  peerPubBytes : l'.peerPubBytes = l.peerPubBytes
  peerSigPubBytes : l'.peerSigPubBytes = l.peerSigPubBytes
  sharedKey : l'.sharedKey = l.sharedKey
  derivedKey : l'.derivedKey = l.derivedKey

/-! ## Proofs that are rejected -/

section Rejected

variable {c : Primitives} {established : LinkState → Except String Unit} {a : Arrival}
  {l : LinkState}

/-- The handler closes the link, and nothing else. -/
theorem validateProof_of_thrown {e : String} {l' : LinkState}
    (h : validateProofBody c established a l = (.thrown e, l')) :
    validateProof c established a l = l'.setStatus .closed := by
  unfold validateProof Prog.catching
  rw [h]
  rfl

/-- Without an exception the body is all there is. -/
theorem validateProof_of_value {l' : LinkState}
    (h : validateProofBody c established a l = (.value (), l')) :
    validateProof c established a l = l' := by
  unfold validateProof Prog.catching
  rw [h]

/-- A link that is not pending ignores proofs. -/
theorem validateProof_of_not_pending (hstatus : l.status ≠ .pending) :
    validateProof c established a l = l := by
  apply validateProof_of_value
  unfold validateProofBody
  rw [Prog.get_bind_run, Prog.when_of_not hstatus]
  rfl

/-- The size check on a packet that is turned away. -/
theorem proofPayload_of_turnedAway {p : Packet} (h : TurnedAway l p) :
    proofPayload p = .ok { data := p.data, confirmedMtu := 0, signalling := [] } := if_neg h.2.2

/-- A packet that is turned away changes nothing. -/
theorem validateProof_of_turnedAway (h : TurnedAway l a.packet) :
    validateProof c established a l = l := by
  apply validateProof_of_value
  unfold validateProofBody
  rw [Prog.get_bind_run]
  by_cases hstatus : l.status = .pending
  · rw [Prog.when_of hstatus, Prog.bind_value (Prog.require_run_of h.1 _ _),
      proofPayload_of_turnedAway h, Prog.bind_value (Prog.ofExcept_ok_run _ _),
      Prog.when_of_not (fun hsize => h.2.1 hsize.2)]
    rfl
  · rw [Prog.when_of_not hstatus]
    rfl

/-- The code behind the handshake never makes a link pending again. -/
def StaysOut (l l' : LinkState) : Prop := l.status ≠ .pending → l'.status ≠ .pending

theorem StaysOut.refl (l : LinkState) : StaysOut l l := id

theorem StaysOut.trans (l₁ l₂ l₃ : LinkState) (h : StaysOut l₁ l₂) (h' : StaysOut l₂ l₃) :
    StaysOut l₁ l₃ := h' ∘ h

theorem activateLink_staysOut : Prog.Keeps StaysOut activateLink := by
  unfold activateLink
  refine .bind StaysOut.trans (.get StaysOut.refl) fun _ => .when StaysOut.refl fun _ => ?_
  exact .bind StaysOut.trans (.require StaysOut.refl _ _) fun _ =>
    .modify fun _ _ => Status.noConfusion

theorem sendRtt_staysOut : Prog.Keeps StaysOut (sendRtt c a) := by
  unfold sendRtt
  refine .bind StaysOut.trans (.get StaysOut.refl) fun _ =>
    .bind StaysOut.trans (.modify fun _ h => h) fun _ =>
    .bind StaysOut.trans (.ofExcept StaysOut.refl _) fun _ => ?_
  exact .bind StaysOut.trans (.require StaysOut.refl _ _) fun _ => .modify fun _ h => h

theorem updateEstablishmentRate_staysOut (l : LinkState) :
    StaysOut l (updateEstablishmentRate l) := by
  intro h
  unfold updateEstablishmentRate
  split <;> exact h

theorem establish_staysOut (confirmedMtu : UInt16) :
    Prog.Keeps StaysOut (establish c established a confirmedMtu) := by
  unfold establish
  refine .bind StaysOut.trans (.get StaysOut.refl) fun _ =>
    .bind StaysOut.trans (.require StaysOut.refl _ _) fun _ =>
    .bind StaysOut.trans (.modify fun _ _ => Status.noConfusion) fun _ => ?_
  refine .bind StaysOut.trans activateLink_staysOut fun _ =>
    .bind StaysOut.trans (.modify updateEstablishmentRate_staysOut) fun _ =>
    .bind StaysOut.trans sendRtt_staysOut fun _ => ?_
  exact .bind StaysOut.trans (.get StaysOut.refl) fun _ => .ofExcept StaysOut.refl _

/-- Once the peer's keys are loaded, a pending link does not stay pending. -/
theorem checkProof_leaves_pending (hstatus : l.status = .pending) (payload : ProofPayload) :
    (checkProof c established a payload l).2.status ≠ .pending := by
  unfold checkProof
  rw [Prog.get_bind_run, Prog.modify_bind_run]
  refine Prog.Keeps.after StaysOut.refl (handshake c) (fun _ => ?_) _ (handshake_leaves_pending hstatus)
  refine .bind StaysOut.trans (.modify fun _ h => h) fun _ =>
    .bind StaysOut.trans (.get StaysOut.refl) fun _ => ?_
  exact .when StaysOut.refl fun _ => establish_staysOut _

/-- A pending initiator does not stay pending when a proof has the wrong mode, or when it has one of
the two sizes. -/
theorem validateProof_leaves_pending (hinitiator : l.initiator = true)
    (hstatus : l.status = .pending) (h : ¬ TurnedAway l a.packet) :
    (validateProof c established a l).status ≠ .pending := by
  have hclosed : ∀ {e l'}, validateProofBody c established a l = (.thrown e, l') →
      (validateProof c established a l).status ≠ .pending := by
    intro e l' hbody
    rw [validateProof_of_thrown hbody]
    exact Status.noConfusion
  have hbody : validateProofBody c established a l = _ := rfl
  conv at hbody => rhs; unfold validateProofBody
  rw [Prog.get_bind_run, Prog.when_of hstatus] at hbody
  by_cases hmode : modeFromLpPacket a.packet = l.mode
  case neg =>
    rw [Prog.bind_thrown (Prog.require_run_of_not hmode _ _)] at hbody
    exact hclosed hbody
  rw [Prog.bind_value (Prog.require_run_of hmode _ _)] at hbody
  cases hpayload : proofPayload a.packet with
  | error e =>
    rw [hpayload, Prog.bind_thrown (Prog.ofExcept_error_run _ _)] at hbody
    exact hclosed hbody
  | ok payload =>
    have hsize : payload.data.length = proofSize := by
      unfold proofPayload at hpayload
      split at hpayload
      case isTrue hlong =>
        cases hs : signallingBytes (mtuFromLpPacket a.packet) (modeFromLpPacket a.packet) with
        | error e => rw [hs] at hpayload; cases hpayload
        | ok signalling =>
          rw [hs] at hpayload
          cases hpayload
          rw [Bytes.left_length, hlong]
          exact Nat.min_eq_left (Nat.le_add_right _ _)
      case isFalse hlong =>
        cases hpayload
        by_contra hshort
        exact h ⟨hmode, hshort, hlong⟩
    rw [hpayload, Prog.bind_value (Prog.ofExcept_ok_run _ _),
      Prog.when_of ⟨hinitiator, hsize⟩] at hbody
    have hleft : (checkProof c established a payload l).2.status ≠ .pending :=
      checkProof_leaves_pending hstatus payload
    rcases hcheck : checkProof c established a payload l with ⟨_ | _ | e | _, l'⟩
    case thrown => exact hclosed (hbody.trans hcheck)
    all_goals
      rw [hcheck] at hleft
      unfold validateProof Prog.catching
      rw [hbody, hcheck]
      exact hleft

/-- A run of proofs that are turned away. -/
theorem validateProofs_of_turnedAway {arrivals : List Arrival}
    (h : ∀ a ∈ arrivals, TurnedAway l a.packet) :
    validateProofs c established arrivals l = l := by
  induction arrivals with
  | nil => rfl
  | cons a arrivals ih =>
    have hfirst : validateProof c established a l = l :=
      validateProof_of_turnedAway (h a List.mem_cons_self)
    show validateProofs c established arrivals (validateProof c established a l) = l
    rw [hfirst]
    exact ih fun a' hmem => h a' (List.mem_cons_of_mem _ hmem)

/-- A run of proofs on a link that is not pending. -/
theorem validateProofs_of_not_pending (arrivals : List Arrival) (hstatus : l.status ≠ .pending) :
    validateProofs c established arrivals l = l := by
  induction arrivals with
  | nil => rfl
  | cons a arrivals ih =>
    show validateProofs c established arrivals (validateProof c established a l) = l
    rw [validateProof_of_not_pending hstatus]
    exact ih

/-- A pending initiator is still pending after a run of proofs only if all of them were turned
away. -/
theorem turnedAway_of_pending {arrivals : List Arrival} (hinitiator : l.initiator = true)
    (hstatus : l.status = .pending)
    (h : (validateProofs c established arrivals l).status = .pending) :
    ∀ a ∈ arrivals, TurnedAway l a.packet := by
  induction arrivals with
  | nil => intro a hmem; cases hmem
  | cons a arrivals ih =>
    by_cases hfirst : TurnedAway l a.packet
    · have hrest : validateProofs c established (a :: arrivals) l
          = validateProofs c established arrivals l := by
        show validateProofs c established arrivals (validateProof c established a l) = _
        rw [validateProof_of_turnedAway hfirst]
      rw [hrest] at h
      intro a' hmem
      cases hmem with
      | head => exact hfirst
      | tail _ hmem => exact ih h a' hmem
    · have hleft : (validateProof c established a l).status ≠ .pending :=
        validateProof_leaves_pending hinitiator hstatus hfirst
      have hend : validateProofs c established (a :: arrivals) l
          = validateProof c established a l := validateProofs_of_not_pending arrivals hleft
      rw [hend] at h
      exact absurd h hleft

end Rejected

/-! ## The responder's proof -/

section Responder

variable {c : Primitives} {l r : LinkState} {p : Packet}

/-- What `Link::prove` sends, and that its packet fits the link's MTU. -/
theorem proofPacket_inversion (h : proofPacket c r = .ok p) :
    ∃ signalling, signallingBytes r.mtu r.mode = .ok signalling
      ∧ p.data = c.sign r.sigPrv (proofSignedData r signalling) ++ r.pubBytes ++ signalling
      ∧ headerMinsize + p.data.length ≤ r.mtu.toNat := by
  unfold proofPacket at h
  cases hs : signallingBytes r.mtu r.mode with
  | error e => rw [hs] at h; cases h
  | ok signalling =>
    rw [hs] at h
    refine ⟨signalling, rfl, ?_⟩
    have hbody : ∀ data, packBody (fun _ => linkEncrypt c r)
        (linkSpec r .proof ContextType.lrproof data) = .ok (r.linkId.toList, data) := fun _ => rfl
    simp only [pack, hbody] at h
    split at h
    case isTrue => cases h
    case isFalse hfits =>
      cases h
      refine ⟨rfl, ?_⟩
      have hmtu : ∀ type context data, (linkSpec r type context data).mtu = r.mtu.toNat :=
        fun _ _ _ => rfl
      rw [hmtu, List.length_cons, List.length_cons, List.length_append, List.length_cons,
        r.linkId.toList_length] at hfits
      have hdl : destinationLength = 16 := rfl
      show 19 + _ ≤ _
      simp only [linkSpec]
      omega

variable {signalling : Bytes} {signature pub : Bytes}

/-- The mode read from a proof is the one it was built with. -/
theorem modeFromLpPacket_signalled {mtu : UInt16} {mode : LinkMode}
    (hs : signallingBytes mtu mode = .ok signalling) (hfront : (signature ++ pub).length = proofSize)
    (hdata : p.data = signature ++ pub ++ signalling) : modeFromLpPacket p = mode := by
  have hlen := signallingBytes_length hs
  have henabled : mode ∈ enabledModes := signallingBytes_ok_iff.mp ⟨_, hs⟩
  have hbyte := Bytes.byte_append (b := signalling) hfront 0
  unfold modeFromLpPacket
  rw [hdata, if_pos (by rw [List.length_append, hfront, hlen]; decide)]
  unfold signallingBytes at hs
  rw [if_pos henabled] at hs
  cases hs
  show LinkMode.ofCode ((Bytes.byte (signature ++ pub ++ _) (proofSize + 0)).toNat >>> 5) = mode
  rw [hbyte, Bytes.byte_cons_zero, signallingValue_high]
  cases mode <;> rfl

/-- So is the MTU. -/
theorem mtuFromLpPacket_signalled {mtu : UInt16} {mode : LinkMode}
    (hs : signallingBytes mtu mode = .ok signalling) (hfront : (signature ++ pub).length = proofSize)
    (hdata : p.data = signature ++ pub ++ signalling) : mtuFromLpPacket p = mtu := by
  have hlen := signallingBytes_length hs
  have henabled : mode ∈ enabledModes := signallingBytes_ok_iff.mp ⟨_, hs⟩
  have hbyte := Bytes.byte_append (b := signalling) hfront
  unfold mtuFromLpPacket
  rw [hdata, if_pos (by rw [List.length_append, hfront, hlen]; rfl)]
  unfold signallingBytes at hs
  rw [if_pos henabled] at hs
  cases hs
  show mtuOfBytes (Bytes.byte (signature ++ pub ++ _) (proofSize + 0))
    (Bytes.byte (signature ++ pub ++ _) (proofSize + 1))
    (Bytes.byte (signature ++ pub ++ _) (proofSize + 2)) = mtu
  rw [hbyte, hbyte, hbyte]
  exact mtuOfBytes_signallingValue mtu mode

/-- The size check splits a proof where the responder joined it. -/
theorem proofPayload_signalled {mtu : UInt16} {mode : LinkMode}
    (hs : signallingBytes mtu mode = .ok signalling) (hfront : (signature ++ pub).length = proofSize)
    (hdata : p.data = signature ++ pub ++ signalling) :
    proofPayload p = .ok { data := signature ++ pub, confirmedMtu := mtu, signalling } := by
  unfold proofPayload
  rw [modeFromLpPacket_signalled hs hfront hdata, mtuFromLpPacket_signalled hs hfront hdata, hs,
    hdata, if_pos (by rw [List.length_append, hfront, signallingBytes_length hs]),
    Bytes.left_append hfront.symm]
  rfl

/-- Both ends derive one key. -/
theorem handshake_agrees {l' : LinkState} (h : Answers c l r) (hstatus : l'.status = .pending)
    (hprv : l'.prv = l.prv) (hmode : l'.mode = l.mode) (hid : l'.linkId = l.linkId)
    (hpeer : l'.peerPubBytes = r.pubBytes) :
    handshake c l'
        = (.value (), { l' with
            status := .handshake, sharedKey := r.sharedKey, derivedKey := r.derivedKey })
      ∧ (r.derivedKey.length = 32 ∨ r.derivedKey.length = 64) := by
  obtain ⟨before, hbefore, hrun⟩ := h.handshake
  obtain ⟨sharedKey, derivedKey, n, hshared, hlength, hderived, hr⟩ :=
    handshake_inversion hbefore hrun
  have hprvR : r.prv = before.prv := by rw [hr]
  have hpeerR : r.peerPubBytes = before.peerPubBytes := by rw [hr]
  have hmodeR : r.mode = before.mode := by rw [hr]
  have hidR : r.linkId = before.linkId := by rw [hr]
  have hsharedR : r.sharedKey = sharedKey := by rw [hr]
  have hderivedR : r.derivedKey = derivedKey := by rw [hr]
  rw [← hprvR, ← hpeerR, h.peerKey, h.initiatorKey, c.agreement, ← h.responderKey, ← hpeer,
    ← hprv] at hshared
  rw [← hmodeR, h.mode, ← hmode] at hlength
  rw [← hidR, h.linkId, ← hid] at hderived
  rw [hsharedR, hderivedR]
  refine ⟨handshake_run hstatus hshared hlength hderived, ?_⟩
  rw [c.hkdf_length _ _ _ _ _ hderived]
  unfold derivedKeyLength at hlength
  split at hlength
  · cases hlength; exact .inl rfl
  · cases hlength; exact .inr rfl
  · cases hlength

/-- Activation only moves the link between the tables of `Transport`. -/
theorem activateLink_run (hstatus : l.status = .active) :
    ∃ table, activateLink l = (.value (), { l with table }) := by
  unfold activateLink
  rw [Prog.get_bind_run]
  by_cases htable : l.table = some .pendingLinks
  · refine ⟨some .activeLinks, ?_⟩
    rw [Prog.when_of htable, Prog.bind_value (Prog.require_run_of hstatus _ _), ← hstatus]
    rfl
  · refine ⟨l.table, ?_⟩
    rw [Prog.when_of_not htable]
    rfl

theorem updateEstablishmentRate_eq (l : LinkState) :
    ∃ establishmentRate, updateEstablishmentRate l = { l with establishmentRate } := by
  unfold updateEstablishmentRate
  split
  · exact ⟨_, rfl⟩
  · exact ⟨l.establishmentRate, rfl⟩

/-- A round-trip packet is shorter than the proof that asks for it. -/
theorem pack_rtt {token : Token} (htoken : l.getToken = .ok token)
    (hmtu : headerMinsize + 64 ≤ l.mtu.toNat) (rtt : ℚ) :
    ∃ packet, pack (fun _ => linkEncrypt c l)
      (linkSpec l .data ContextType.lrrtt (c.packRtt rtt)) = .ok packet := by
  have hbody : packBody (fun _ => linkEncrypt c l)
      (linkSpec l .data ContextType.lrrtt (c.packRtt rtt))
        = (linkEncrypt c l (c.packRtt rtt)).map fun b => (l.linkId.toList, b) := rfl
  have hencrypt : linkEncrypt c l (c.packRtt rtt) = .ok (c.tokenEncrypt token (c.packRtt rtt)) := by
    unfold linkEncrypt
    rw [htoken]
    rfl
  have hlen := c.tokenEncrypt_length token (c.packRtt rtt)
  have hrtt := c.packRtt_length rtt
  rw [hencrypt] at hbody
  unfold pack
  rw [hbody]
  have hfits : ¬ (linkSpec l .data ContextType.lrrtt (c.packRtt rtt)).mtu
      < (getPackedFlags (linkSpec l .data ContextType.lrrtt (c.packRtt rtt)) :: 0 ::
        (l.linkId.toList ++ ContextType.lrrtt :: c.tokenEncrypt token (c.packRtt rtt))).length := by
    have hdl : destinationLength = 16 := rfl
    have hmin : headerMinsize = 19 := rfl
    show ¬ l.mtu.toNat < _
    rw [List.length_cons, List.length_cons, List.length_append, List.length_cons,
      l.linkId.toList_length, hlen]
    omega
  exact ⟨_, if_neg hfits⟩

/-- With a token and room for the packet, sending the round trip time keeps everything else. -/
theorem sendRtt_run {a : Arrival} {token : Token} (htoken : l.getToken = .ok token)
    (hstatus : l.status = .active) (hmtu : headerMinsize + 64 ≤ l.mtu.toNat) :
    ∃ tx txbytes, sendRtt c a l
      = (.value (), { l with token := some token, lastOutbound := a.now, tx, txbytes }) := by
  obtain ⟨packet, hpack⟩ := pack_rtt (c := c) htoken hmtu l.rtt
  have hopen : l.status ≠ .closed := by
    rw [hstatus]
    exact Status.noConfusion
  refine ⟨l.tx + 1, l.txbytes + UInt16.ofNat (c.packRtt l.rtt).length, ?_⟩
  have hkept : l.keepToken = { l with token := some token } := by
    unfold LinkState.keepToken
    rw [htoken]
    rfl
  unfold sendRtt
  rw [Prog.get_bind_run, Prog.modify_bind_run, hkept]
  simp only [hpack]
  rw [Prog.bind_value (Prog.ofExcept_ok_run _ _), Prog.bind_value (Prog.require_run_of hopen _ _)]
  rfl

/-- A link whose handshake is done becomes active under the confirmed MTU, with its keys as they
are. -/
theorem establish_run {established : LinkState → Except String Unit} {a : Arrival}
    {confirmedMtu : UInt16} (hcallback : ∀ l', established l' = .ok ())
    (hstatus : l.status = .handshake)
    (hkey : l.derivedKey.length = 32 ∨ l.derivedKey.length = 64)
    (hmtu : headerMinsize + 64 ≤ confirmedMtu.toNat) :
    ∃ l', establish c established a confirmedMtu l = (.value (), l') ∧ l'.status = .active
      ∧ l'.mtu = confirmedMtu ∧ l'.sharedKey = l.sharedKey ∧ l'.derivedKey = l.derivedKey
      ∧ l'.peerPubBytes = l.peerPubBytes := by
  have hne : confirmedMtu ≠ 0 := by
    intro hzero
    rw [hzero] at hmtu
    exact absurd hmtu (by decide)
  obtain ⟨token, htoken⟩ : ∃ token, l.getToken = .ok token := LinkState.getToken_of_sized hkey
  have hactive : (activated a confirmedMtu l).status = .active := rfl
  have hconfirmed : (activated a confirmedMtu l).mtu = confirmedMtu := if_pos hne
  obtain ⟨table, hactivate⟩ := activateLink_run hactive
  obtain ⟨rate, hrate⟩ := updateEstablishmentRate_eq { activated a confirmedMtu l with table }
  obtain ⟨tx, txbytes, hsend⟩ := sendRtt_run (c := c) (a := a)
    (l := { activated a confirmedMtu l with table, establishmentRate := rate }) htoken hactive
    (hconfirmed.symm ▸ hmtu)
  unfold establish
  rw [Prog.get_bind_run, Prog.bind_value (Prog.require_run_of hstatus _ _), Prog.modify_bind_run,
    Prog.bind_value hactivate, Prog.modify_bind_run, hrate, Prog.bind_value hsend,
    Prog.get_bind_run, hcallback]
  exact ⟨_, rfl, rfl, hconfirmed, rfl, rfl, rfl⟩

/-- The responder's proof opens a pending initiator with the keys the responder derived. -/
theorem validateProof_of_answer {established : LinkState → Except String Unit} {a : Arrival}
    (hcallback : ∀ l', established l' = .ok ()) (hinitiator : l.initiator = true)
    (hstatus : l.status = .pending) (hanswers : Answers c l r) (hproof : proofPacket c r = .ok p)
    (harrival : a.packet.data = p.data) :
    (validateProof c established a l).status = .active
      ∧ (validateProof c established a l).mtu = r.mtu
      ∧ (validateProof c established a l).sharedKey = r.sharedKey
      ∧ (validateProof c established a l).derivedKey = r.derivedKey
      ∧ (validateProof c established a l).peerPubBytes = r.pubBytes := by
  obtain ⟨signalling, hs, hdata, hfits⟩ := proofPacket_inversion hproof
  have hsig := c.sign_length r.sigPrv (proofSignedData r signalling)
  have hpub : r.pubBytes.length = ecpubsize / 2 := by
    rw [hanswers.responderKey, c.x25519Public_length]
    rfl
  have hfront : (c.sign r.sigPrv (proofSignedData r signalling) ++ r.pubBytes).length
      = proofSize := by
    rw [List.length_append, hsig, hpub]
    rfl
  have hmtu : headerMinsize + 64 ≤ r.mtu.toNat := by
    rw [hdata, List.length_append, hfront] at hfits
    exact le_trans (Nat.add_le_add_left (by decide) _) (le_trans
      (Nat.add_le_add_left (Nat.le_add_right _ _) _) hfits)
  have hdata' := harrival.trans hdata
  have hmode := (modeFromLpPacket_signalled hs hfront hdata').trans hanswers.mode
  have hpeer : Bytes.midLen (c.sign r.sigPrv (proofSignedData r signalling) ++ r.pubBytes)
      siglength (ecpubsize / 2) = r.pubBytes := by
    have hmid : Bytes.mid (c.sign r.sigPrv (proofSignedData r signalling) ++ r.pubBytes) siglength
        = r.pubBytes := Bytes.mid_append hsig
    show List.take _ (Bytes.mid _ _) = _
    rw [hmid]
    exact List.take_of_length_le hpub.le
  have hloaded : (loadPeer r.pubBytes r.sigPubBytes l).status = .pending := hstatus
  obtain ⟨hhandshake, hkey⟩ := handshake_agrees hanswers hloaded rfl rfl rfl rfl
  -- the responder signed the bytes the initiator puts together
  have hverify : c.verify r.sigPubBytes
      (Bytes.left (c.sign r.sigPrv (proofSignedData r signalling) ++ r.pubBytes) siglength)
      (l.linkId.toList ++ r.pubBytes ++ r.sigPubBytes ++ signalling) = true := by
    rw [Bytes.left_append hsig.symm, ← hanswers.linkId, hanswers.ownerKey]
    unfold proofSignedData
    rw [hanswers.ownerKey]
    exact c.verify_sign _ _
  obtain ⟨l', hestablish, h1, h2, h3, h4, h5⟩ := establish_run (c := c) (a := a)
    (l := addCost a.packet { loadPeer r.pubBytes r.sigPubBytes l with
      status := .handshake, sharedKey := r.sharedKey, derivedKey := r.derivedKey })
    hcallback rfl hkey hmtu
  have hbody : validateProofBody c established a l = (.value (), l') := by
    unfold validateProofBody
    rw [Prog.get_bind_run, Prog.when_of hstatus, Prog.bind_value (Prog.require_run_of hmode _ _),
      proofPayload_signalled hs hfront hdata', Prog.bind_value (Prog.ofExcept_ok_run _ _),
      Prog.when_of ⟨hinitiator, hfront⟩]
    unfold checkProof
    rw [Prog.get_bind_run, Prog.modify_bind_run, hpeer, hanswers.destinationKey,
      Prog.bind_value hhandshake, Prog.modify_bind_run, Prog.get_bind_run]
    exact (congrFun (Prog.when_of hverify _) _).trans hestablish
  rw [validateProof_of_value hbody]
  exact ⟨h1, h2, h3, h4, h5⟩

end Responder

/-! ## Atomicity -/

/-- For every pending initiator and every list of proofs: status, keys, MTU and mode are as they
were and the responder's proof still opens the link with the responder's keys, exactly if every
proof of the list had the link's mode and neither of the two sizes. -/
theorem proof_atomic_iff (c : Primitives) (established : LinkState → Except String Unit)
    (hcallback : ∀ l', established l' = .ok ()) (l : LinkState) (hinitiator : l.initiator = true)
    (hstatus : l.status = .pending) (arrivals : List Arrival) :
    (SameEstablishment l (validateProofs c established arrivals l)
        ∧ ∀ r p a, Answers c l r → proofPacket c r = .ok p → a.packet.data = p.data →
          let l' := validateProofs c established (arrivals ++ [a]) l
          l'.status = .active ∧ l'.mtu = r.mtu ∧ l'.sharedKey = r.sharedKey
            ∧ l'.derivedKey = r.derivedKey ∧ l'.peerPubBytes = r.pubBytes)
      ↔ ∀ a ∈ arrivals, TurnedAway l a.packet := by
  constructor
  · rintro ⟨hsame, -⟩
    exact turnedAway_of_pending hinitiator hstatus (hsame.status.trans hstatus)
  · intro haway
    have hrun : validateProofs c established arrivals l = l := validateProofs_of_turnedAway haway
    refine ⟨?_, fun r p a hanswers hproof harrival => ?_⟩
    · rw [hrun]
      exact ⟨rfl, rfl, rfl, rfl, rfl, rfl, rfl, rfl⟩
    · have hlast : validateProofs c established (arrivals ++ [a]) l
          = validateProof c established a l := by
        unfold validateProofs at hrun ⊢
        rw [List.foldl_append, hrun]
        rfl
      rw [hlast]
      exact validateProof_of_answer hcallback hinitiator hstatus hanswers hproof harrival

/-! ## Concrete links -/

/-- Exactly `n` bytes: the string cut or filled up with zeros. -/
def fit (n : Nat) (b : Bytes) : Bytes := (b ++ List.replicate n 0).left n

theorem fit_length (n : Nat) (b : Bytes) : (fit n b).length = n := by
  unfold fit
  rw [Bytes.left_length, List.length_append, List.length_replicate]
  exact Nat.min_eq_left (Nat.le_add_left _ _)

/-- Stand-ins for the primitives on concrete inputs: exclusive or for the key agreement, and a
signature that shows its key and a digest. -/
def samplePrimitives : Primitives where
  x25519Public := fit 32
  exchange a b :=
    if b.length = 32 then .ok (List.zipWith (· ^^^ ·) (fit 32 a) b) else .error "Peer key is invalid"
  ed25519Public := fit 32
  sign prv m := fit 32 prv ++ (tailHash m).toList
  verify pub signature m := signature = pub ++ (tailHash m).toList
  hkdf n material salt context := .ok (fit n (material ++ salt ++ context))
  tokenEncrypt _ m := List.replicate 16 0 ++ fit ((m.length / 16 + 1) * 16) m ++ List.replicate 32 0
  packRtt _ := 0xCB :: List.replicate 8 0
  x25519Public_length := fit_length 32
  ed25519Public_length := fit_length 32
  sign_length prv m := by rw [List.length_append, fit_length, List.Vector.toList_length]; rfl
  agreement a b := by
    rw [if_pos (fit_length 32 b), if_pos (fit_length 32 a)]
    exact congrArg Except.ok (List.zipWith_comm_of_comm UInt8.xor_comm)
  verify_sign prv m := decide_eq_true rfl
  hkdf_length n material salt context key h := by
    cases h
    exact fit_length n _
  tokenEncrypt_length token m := by
    rw [List.length_append, List.length_append, fit_length, List.length_replicate,
      List.length_replicate]
  packRtt_length _ := by decide

def sampleInitiator : LinkState where
  initiator := true
  linkId := .fill 7
  destinationPublicKey := fit 32 [9] ++ fit 32 [4]
  prv := [1]
  pubBytes := fit 32 [1]
  sigPrv := [2]
  sigPubBytes := fit 32 [2]

/-- The responder's link in front of its handshake. -/
def sampleAccepted : LinkState where
  initiator := false
  linkId := .fill 7
  prv := [3]
  pubBytes := fit 32 [3]
  sigPrv := [4]
  sigPubBytes := fit 32 [4]
  peerPubBytes := fit 32 [1]
  peerSigPubBytes := fit 32 [2]

def sampleResponder : LinkState := (handshake samplePrimitives sampleAccepted).2

theorem sample_answers : Answers samplePrimitives sampleInitiator sampleResponder where
  linkId := rfl
  mode := rfl
  initiatorKey := rfl
  responderKey := rfl
  peerKey := rfl
  ownerKey := rfl
  destinationKey := rfl
  handshake := ⟨sampleAccepted, rfl, rfl⟩

/-- A proof with the given payload. -/
def sampleArrival (data : Bytes) : Arrival where
  packet := ofLayout 0x0F 0 none (.fill 7) ContextType.lrproof data
  receivingInterface := { id := 1 }
  now := 1

theorem proof_atomic_iff_short :
    ∃ p, proofPacket samplePrimitives sampleResponder = .ok p
      ∧ (validateProofs samplePrimitives (fun _ => .ok ())
          [sampleArrival [1, 2, 3], sampleArrival p.data] sampleInitiator).status = .active := by
  have haway : TurnedAway sampleInitiator (sampleArrival [1, 2, 3]).packet :=
    ⟨rfl, by decide, by decide⟩
  obtain ⟨p, hp⟩ : ∃ p, proofPacket samplePrimitives sampleResponder = .ok p := ⟨_, rfl⟩
  have hall := (proof_atomic_iff samplePrimitives (fun _ => .ok ()) (fun _ => rfl)
    sampleInitiator rfl rfl [sampleArrival [1, 2, 3]]).mpr (by
      intro a hmem
      rw [List.mem_singleton.mp hmem]
      exact haway)
  exact ⟨p, hp, (hall.2 sampleResponder p (sampleArrival p.data) sample_answers hp rfl).1⟩

/-- One forged proof of 96 zero bytes keeps the responder's proof from opening the link. -/
theorem forged_proof_blocks_link :
    ¬ Valid samplePrimitives sampleInitiator (sampleArrival (List.replicate 96 0)).packet
      ∧ ∃ p, proofPacket samplePrimitives sampleResponder = .ok p
        ∧ (validateProofs samplePrimitives (fun _ => .ok ())
            [sampleArrival p.data] sampleInitiator).status = .active
        ∧ (validateProofs samplePrimitives (fun _ => .ok ())
            [sampleArrival (List.replicate 96 0)] sampleInitiator).status = .handshake
        ∧ (validateProofs samplePrimitives (fun _ => .ok ())
            [sampleArrival (List.replicate 96 0), sampleArrival p.data] sampleInitiator).status
              = .handshake := by
  refine ⟨?_, _, rfl, by decide +kernel, by decide +kernel, by decide +kernel⟩
  rintro ⟨-, payload, hpayload, -, -, hverify⟩
  cases hpayload
  exact absurd hverify (by decide +kernel)

end MicroReticulum.Link
