import MicroReticulum.Link.SignalledBytes

/-!
# Accepting a link request

`validateRequest` is `Link::validate_request`: the responder's link, with the keys of the request, the MTU and the mode
it signals, and the handshake behind it. The link is given up when anything throws on the way to the proof, and the
proof does not fit an MTU below its own size.

The strength of the key exchange is not touched: the keys are values that the operations of
`Primitives` combine.
-/

namespace MicroReticulum.Link

open MicroReticulum Packet Library

/-- The MTU of a link that is made for a request. -/
def requestedMtu (p : Packet) : UInt16 :=
  if p.data.length = ecpubsize + linkMtuSize then
    if mtuFromLrPacket p ≠ 0 then mtuFromLrPacket p else UInt16.ofNat reticulumMtu
  else UInt16.ofNat reticulumMtu

/-- What the responder has before a request arrives: a fresh key, and the signing key of the destination. -/
structure ResponderKeys where
  prv : Bytes
  sigPrv : Bytes

variable (c : Primitives) (fullHash : Bytes → Hash) (keys : ResponderKeys)

/-- The link of a request, before the handshake. -/
def requestedLink (p : Packet) : LinkState :=
  addCost p <| updateMdu
    { initiator := false
      linkId := linkIdFromLrPacket fullHash p
      prv := keys.prv
      pubBytes := c.x25519Public keys.prv
      sigPrv := keys.sigPrv
      sigPubBytes := c.ed25519Public keys.sigPrv
      peerPubBytes := p.data.left (ecpubsize / 2)
      peerSigPubBytes := p.data.midLen (ecpubsize / 2) (ecpubsize / 2)
      mtu := requestedMtu p
      mode := modeFromLrPacket p }

/-- The link once its proof was sent. -/
def proofSent (now : ℚ) (proof : Packet) (l : LinkState) : LinkState :=
  { addCost proof l with
    lastOutbound := now
    tx := l.tx + 1
    txbytes := l.txbytes + UInt16.ofNat proof.data.length }

/-- `Link::prove` -/
def proveLink (now : ℚ) : Prog String LinkState Unit := do
  let l ← Prog.get
  let proof ← Prog.ofExcept (proofPacket c l)
  Prog.modify (proofSent now proof)

/-- `Link::validate_request` behind the check of the size. -/
def acceptRequest (a : Arrival) : Prog String LinkState Unit := do
  handshake c
  Prog.modify fun l => { l with attachedInterface := some a.receivingInterface }
  proveLink c a.now
  Prog.modify fun l => { l with requestTime := a.now }

/-- `Link::validate_request` -/
def validateRequest (a : Arrival) : Option LinkState :=
  if a.packet.data.length = ecpubsize ∨ a.packet.data.length = ecpubsize + linkMtuSize then
    match acceptRequest c a (requestedLink c fullHash keys a.packet) with
    | (.value _, l) => some l
    | _ => none
  else none

/-! ## What an accepted request leaves -/

/-- The sizes of a link and its own key are as they were. -/
structure SameOffer (l l' : LinkState) : Prop where
  mtu : l'.mtu = l.mtu
  mdu : l'.mdu = l.mdu
  pubBytes : l'.pubBytes = l.pubBytes

theorem SameOffer.refl (l : LinkState) : SameOffer l l := ⟨rfl, rfl, rfl⟩

theorem SameOffer.trans (l₁ l₂ l₃ : LinkState) (h : SameOffer l₁ l₂) (h' : SameOffer l₂ l₃) : SameOffer l₁ l₃ :=
  ⟨h'.mtu.trans h.mtu, h'.mdu.trans h.mdu, h'.pubBytes.trans h.pubBytes⟩

theorem handshake_sameOffer : Prog.Keeps SameOffer (handshake c) := by
  unfold handshake
  refine .bind SameOffer.trans (.get SameOffer.refl) fun _ => .when SameOffer.refl fun _ => ?_
  refine .bind SameOffer.trans (.modify fun _ => ⟨rfl, rfl, rfl⟩) fun _ => ?_
  refine .bind SameOffer.trans (.ofExcept SameOffer.refl _) fun _ => ?_
  refine .bind SameOffer.trans (.modify fun _ => ⟨rfl, rfl, rfl⟩) fun _ => ?_
  refine .bind SameOffer.trans (.ofExcept SameOffer.refl _) fun _ => ?_
  refine .bind SameOffer.trans (.ofExcept SameOffer.refl _) fun _ => ?_
  exact .modify fun _ => ⟨rfl, rfl, rfl⟩

variable {c fullHash keys}

/-- What has happened to a link that was accepted. -/
theorem validateRequest_run {a : Arrival} {l : LinkState} (h : validateRequest c fullHash keys a = some l) :
    ∃ l₁ proof, handshake c (requestedLink c fullHash keys a.packet) = (.value (), l₁)
      ∧ proofPacket c { l₁ with attachedInterface := some a.receivingInterface } = .ok proof
      ∧ l = { proofSent a.now proof { l₁ with attachedInterface := some a.receivingInterface } with
          requestTime := a.now } := by
  unfold validateRequest at h
  split at h
  case isFalse => cases h
  case isTrue hsize =>
    cases hrun : acceptRequest c a (requestedLink c fullHash keys a.packet) with
    | mk outcome l' =>
      rw [hrun] at h
      cases outcome
      case value =>
        cases h
        unfold acceptRequest at hrun
        obtain ⟨_, l₁, hhandshake, hrun⟩ := Prog.exists_of_bind_value hrun
        rw [Prog.modify_bind_run] at hrun
        obtain ⟨_, l₂, hprove, hrun⟩ := Prog.exists_of_bind_value hrun
        cases hrun
        unfold proveLink at hprove
        rw [Prog.get_bind_run] at hprove
        obtain ⟨proof, hproof, hprove⟩ := Prog.of_ofExcept_value hprove
        cases hprove
        exact ⟨l₁, proof, hhandshake, hproof, rfl⟩
      all_goals cases h

/-- An accepted request has a link with the MTU it signals, in which the proof fits. -/
theorem validateRequest_inversion {a : Arrival} {l : LinkState} (h : validateRequest c fullHash keys a = some l) :
    l.mtu = requestedMtu a.packet ∧ l.mdu = (updateMdu l).mdu ∧ headerMinsize + proofSize + linkMtuSize ≤ l.mtu.toNat := by
  obtain ⟨l₁, proof, hhandshake, hproof, rfl⟩ := validateRequest_run h
  have hoffer := (handshake_sameOffer c).of_value hhandshake
  obtain ⟨signalling, hs, hdata, hfits⟩ := proofPacket_inversion hproof
  have hpub : l₁.pubBytes.length = ecpubsize / 2 := by
    rw [hoffer.pubBytes]
    exact c.x25519Public_length keys.prv
  have hlength : proof.data.length = proofSize + linkMtuSize := by
    rw [hdata, List.length_append, List.length_append, c.sign_length, signallingBytes_length hs, hpub]
    rfl
  have hmtu : l₁.mtu = requestedMtu a.packet := hoffer.mtu
  refine ⟨hmtu, ?_, ?_⟩
  · show l₁.mdu = (updateMdu l₁).mdu
    have hmdu : l₁.mdu = (requestedLink c fullHash keys a.packet).mdu := hoffer.mdu
    rw [hmdu]
    unfold updateMdu
    rw [hoffer.mtu]
    rfl
  · rw [hlength, ← Nat.add_assoc] at hfits
    exact hfits

/-- It has the keys of its handshake. -/
theorem validateRequest_keyed {a : Arrival} {l : LinkState} (h : validateRequest c fullHash keys a = some l) :
    l.status = .handshake ∧ (l.derivedKey.length = 32 ∨ l.derivedKey.length = 64) := by
  obtain ⟨l₁, proof, hhandshake, -, rfl⟩ := validateRequest_run h
  exact (handshake_keyed rfl hhandshake).2

end MicroReticulum.Link
