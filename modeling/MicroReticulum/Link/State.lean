import MicroReticulum.Library.Prog
import MicroReticulum.Link.Signalling
import MicroReticulum.Transport.Interface

/-!
# The state of a link

`LinkState` holds the fields of `LinkData` that establishment reads and writes, for the initiator
and for the responder alike. `Primitives` are the cryptographic operations the link calls, with the
laws they are assumed to have: key agreement is symmetric and a signature verifies under the
signer's public key. Nothing is assumed about what an attacker cannot compute.

A private key is the string of its bytes, and the key objects `_prv`, `_peer_pub` and so on of the
source, which only wrap such strings, have no field of their own.
-/

namespace MicroReticulum.Link

open MicroReticulum Packet Library

/-- `Type::Link::status` -/
inductive Status where
  | pending | handshake | active | stale | closed
  deriving DecidableEq, Repr

/-- The table of `Transport` a link is registered in. -/
inductive LinkTable where
  | pendingLinks | activeLinks
  deriving DecidableEq, Repr

/-- A `Token` with the key sizes its constructor accepts. -/
structure Token where
  key : Bytes
  sized : key.length = 32 ∨ key.length = 64
  deriving DecidableEq

/-- The `Token` constructor. -/
def newToken (key : Bytes) : Except String Token :=
  if key = [] then .error "Token key cannot be None"
  else if h : key.length = 32 ∨ key.length = 64 then .ok { key, sized := h }
  else .error s!"Token key must be 128 or 256 bits, not {key.length * 8}"

/-- The cryptographic operations of a link and what is assumed of them. -/
structure Primitives where
  /-- X25519, from private key to public key -/
  x25519Public : Bytes → Bytes
  /-- `X25519PrivateKey::exchange`, which throws on an invalid peer key -/
  exchange : Bytes → Bytes → Except String Bytes
  /-- Ed25519, from private key to public key -/
  ed25519Public : Bytes → Bytes
  sign : Bytes → Bytes → Bytes
  /-- public key, signature, message -/
  verify : Bytes → Bytes → Bytes → Bool
  /-- `Cryptography::hkdf`: length, input material, salt, context -/
  hkdf : Nat → Bytes → Bytes → Bytes → Except String Bytes
  /-- `Token::encrypt` -/
  tokenEncrypt : Token → Bytes → Bytes
  /-- the `MsgPack` form of a round trip time -/
  packRtt : ℚ → Bytes
  x25519Public_length : ∀ prv, (x25519Public prv).length = 32
  ed25519Public_length : ∀ prv, (ed25519Public prv).length = 32
  sign_length : ∀ prv m, (sign prv m).length = siglength
  agreement : ∀ a b, exchange a (x25519Public b) = exchange b (x25519Public a)
  verify_sign : ∀ prv m, verify (ed25519Public prv) (sign prv m) m = true
  hkdf_length : ∀ n material salt context key,
    hkdf n material salt context = .ok key → key.length = n
  /-- a token is the initialisation vector, the padded plaintext and an HMAC -/
  tokenEncrypt_length : ∀ token m,
    (tokenEncrypt token m).length = 16 + (m.length / 16 + 1) * 16 + 32
  packRtt_length : ∀ rtt, (packRtt rtt).length ≤ 9

/-- The fields of `LinkData`. -/
structure LinkState where
  initiator : Bool
  status : Status := .pending
  mode : LinkMode := modeDefault
  mtu : UInt16 := UInt16.ofNat reticulumMtu
  mdu : UInt16 := 0
  rtt : ℚ := 0
  requestTime : ℚ := 0
  activatedAt : ℚ := 0
  lastProof : ℚ := 0
  lastOutbound : ℚ := 0
  tx : UInt16 := 0
  txbytes : UInt16 := 0
  establishmentCost : UInt16 := 0
  establishmentRate : ℚ := 0
  linkId : Address
  /-- `_destination.identity().get_public_key()`, on the initiator -/
  destinationPublicKey : Bytes := []
  prv : Bytes
  pubBytes : Bytes
  sigPrv : Bytes
  sigPubBytes : Bytes
  peerPubBytes : Bytes := []
  peerSigPubBytes : Bytes := []
  sharedKey : Bytes := []
  derivedKey : Bytes := []
  token : Option Token := none
  attachedInterface : Option Transport.Interface := none
  /-- public key of `__remote_identity` -/
  remoteIdentity : Option Bytes := none
  table : Option LinkTable := some .pendingLinks
  deriving DecidableEq

/-- `Link::load_peer` -/
def loadPeer (peerPubBytes peerSigPubBytes : Bytes) (l : LinkState) : LinkState :=
  { l with peerPubBytes, peerSigPubBytes }

/-- The key length of a link mode in `Link::handshake`. The source's error also names the link. -/
def derivedKeyLength (mode : LinkMode) : Except String Nat :=
  match mode with
  | .aes128Cbc => .ok 32
  | .aes256Cbc => .ok 64
  | _ => .error s!"Invalid link mode {mode.code}"

/-- The assignment of `_shared_key`. -/
def LinkState.setSharedKey (sharedKey : Bytes) (l : LinkState) : LinkState := { l with sharedKey }

/-- The assignment of `_derived_key`. -/
def LinkState.setDerivedKey (derivedKey : Bytes) (l : LinkState) : LinkState :=
  { l with derivedKey }

/-- The assignment of `_status`. -/
def LinkState.setStatus (status : Status) (l : LinkState) : LinkState := { l with status }

/-- `Link::handshake`: in any other state than `PENDING` it only logs an error. -/
def handshake (c : Primitives) : Prog String LinkState Unit := do
  let l ← Prog.get
  Prog.when (l.status = .pending) do
    Prog.modify (.setStatus .handshake)
    let sharedKey ← Prog.ofExcept (c.exchange l.prv l.peerPubBytes)
    Prog.modify (.setSharedKey sharedKey)
    let length ← Prog.ofExcept (derivedKeyLength l.mode)
    let derivedKey ← Prog.ofExcept (c.hkdf length sharedKey l.linkId.toList [])
    Prog.modify (.setDerivedKey derivedKey)

/-- `Link::update_mdu` -/
def updateMdu (l : LinkState) : LinkState :=
  { l with mdu := UInt16.ofInt ((((l.mtu.toNat : Int) - 1 - headerMinsize - 48).tdiv 16) * 16 - 1) }

/-- The packet of the `Packet(*this, data)` constructor with a type and a context. -/
def linkSpec (l : LinkState) (packetType : PacketType) (context : ContextType) (data : Bytes) :
    PacketSpec where
  destinationType := .link
  destinationHash := l.linkId
  destinationLink := some l.linkId
  packetType := packetType
  context := context
  data := data
  mtu := l.mtu.toNat

/-- The token of a link, made from the derived key when there is none yet. -/
def LinkState.getToken (l : LinkState) : Except String Token :=
  match l.token with
  | some token => .ok token
  | none => newToken l.derivedKey

/-- Of a derived key of one of the two sizes a token can be made. -/
theorem LinkState.getToken_of_sized {l : LinkState} (h : l.derivedKey.length = 32 ∨ l.derivedKey.length = 64) :
    ∃ token, l.getToken = .ok token := by
  unfold LinkState.getToken newToken
  cases l.token with
  | some token => exact ⟨token, rfl⟩
  | none =>
    have hne : l.derivedKey ≠ [] := by
      intro hnil
      rw [hnil] at h
      revert h
      decide
    exact ⟨{ key := l.derivedKey, sized := h }, by rw [if_neg hne, dif_pos h]⟩

/-- A link once its token was asked for. -/
def LinkState.keepToken (l : LinkState) : LinkState := { l with token := l.getToken.toOption }

/-- The token of the link was asked for, and is there if it can be. -/
def LinkState.Asked (l : LinkState) : Prop := l.token = l.getToken.toOption

theorem LinkState.keepToken_asked (l : LinkState) : l.keepToken.Asked := by
  unfold LinkState.Asked LinkState.keepToken LinkState.getToken
  rcases htoken : l.token with _ | token
  · cases hnew : newToken l.derivedKey with
    | error e => simp only [Except.toOption]
    | ok token => rfl
  · rfl

/-- `Link::encrypt` -/
def linkEncrypt (c : Primitives) (l : LinkState) (plaintext : Bytes) : Except String Bytes :=
  l.getToken.map fun token => c.tokenEncrypt token plaintext

/-- What the responder signs in `Link::prove`. -/
def proofSignedData (l : LinkState) (signalling : Bytes) : Bytes :=
  l.linkId.toList ++ l.pubBytes ++ l.sigPubBytes ++ signalling

/-- The link request proof that `Link::prove` packs. The owner's identity signs with the key the
link was given as its own. -/
def proofPacket (c : Primitives) (l : LinkState) : Except String Packet :=
  match signallingBytes l.mtu l.mode with
  | .error e => .error e
  | .ok signalling =>
    pack (fun _ => linkEncrypt c l) (linkSpec l .proof ContextType.lrproof
      (c.sign l.sigPrv (proofSignedData l signalling) ++ l.pubBytes ++ signalling))

/-! ## What the handshake does -/

/-- From `PENDING` the handshake derives the keys of its link. -/
theorem handshake_run {c : Primitives} {l : LinkState} {sharedKey derivedKey : Bytes} {n : Nat}
    (hstatus : l.status = .pending) (hshared : c.exchange l.prv l.peerPubBytes = .ok sharedKey)
    (hlength : derivedKeyLength l.mode = .ok n)
    (hderived : c.hkdf n sharedKey l.linkId.toList [] = .ok derivedKey) :
    handshake c l = (.value (), { l with status := .handshake, sharedKey, derivedKey }) := by
  unfold handshake
  rw [Prog.get_bind_run, Prog.when_of hstatus, hshared, hlength]
  simp only [Prog.modify_bind_run, Prog.bind_value (Prog.ofExcept_ok_run _ _), hderived]
  rfl

/-- A handshake that returns has derived its keys. -/
theorem handshake_inversion {c : Primitives} {l l' : LinkState}
    (hstatus : l.status = .pending) (hrun : handshake c l = (.value (), l')) :
    ∃ sharedKey derivedKey n, c.exchange l.prv l.peerPubBytes = .ok sharedKey
      ∧ derivedKeyLength l.mode = .ok n ∧ c.hkdf n sharedKey l.linkId.toList [] = .ok derivedKey
      ∧ l' = { l with status := .handshake, sharedKey, derivedKey } := by
  unfold handshake at hrun
  rw [Prog.get_bind_run, Prog.when_of hstatus, Prog.modify_bind_run] at hrun
  cases hshared : c.exchange l.prv l.peerPubBytes with
  | error e =>
    rw [hshared, Prog.bind_thrown (Prog.ofExcept_error_run _ _)] at hrun
    cases hrun
  | ok sharedKey =>
    rw [hshared, Prog.bind_value (Prog.ofExcept_ok_run _ _), Prog.modify_bind_run] at hrun
    cases hlength : derivedKeyLength l.mode with
    | error e =>
      rw [hlength, Prog.bind_thrown (Prog.ofExcept_error_run _ _)] at hrun
      cases hrun
    | ok n =>
      rw [hlength, Prog.bind_value (Prog.ofExcept_ok_run _ _)] at hrun
      cases hderived : c.hkdf n sharedKey l.linkId.toList [] with
      | error e =>
        rw [hderived, Prog.bind_thrown (Prog.ofExcept_error_run _ _)] at hrun
        cases hrun
      | ok derivedKey =>
        rw [hderived, Prog.bind_value (Prog.ofExcept_ok_run _ _)] at hrun
        cases hrun
        exact ⟨sharedKey, derivedKey, n, rfl, rfl, hderived, rfl⟩

theorem derivedKeyLength_cases {mode : LinkMode} {n : Nat} (h : derivedKeyLength mode = .ok n) : n = 32 ∨ n = 64 := by
  unfold derivedKeyLength at h
  split at h
  · cases h
    exact .inl rfl
  · cases h
    exact .inr rfl
  · cases h

/-- A handshake that returns leaves a key of one of the two sizes. -/
theorem handshake_keyed {c : Primitives} {l l' : LinkState} (hstatus : l.status = .pending)
    (h : handshake c l = (.value (), l')) :
    l'.initiator = l.initiator ∧ l'.status = .handshake ∧ (l'.derivedKey.length = 32 ∨ l'.derivedKey.length = 64) := by
  obtain ⟨sharedKey, derivedKey, n, -, hlength, hderived, rfl⟩ := handshake_inversion hstatus h
  refine ⟨rfl, rfl, ?_⟩
  have hn := c.hkdf_length _ _ _ _ _ hderived
  show derivedKey.length = 32 ∨ derivedKey.length = 64
  rw [hn]
  exact derivedKeyLength_cases hlength

/-- However the handshake of a pending link ended, it has taken place. -/
theorem handshake_status {c : Primitives} {l : LinkState} (hstatus : l.status = .pending) :
    (handshake c l).2.status = .handshake := by
  have hkeeps : Prog.Keeps (fun s t : LinkState => s.status = t.status)
      (do
        let sharedKey ← Prog.ofExcept (c.exchange l.prv l.peerPubBytes)
        Prog.modify (.setSharedKey sharedKey)
        let length ← Prog.ofExcept (derivedKeyLength l.mode)
        let derivedKey ← Prog.ofExcept (c.hkdf length sharedKey l.linkId.toList [])
        Prog.modify (.setDerivedKey derivedKey) : Prog String LinkState Unit) := by
    have hrefl : ∀ s : LinkState, s.status = s.status := fun _ => rfl
    have htrans : ∀ s t u : LinkState, s.status = t.status → t.status = u.status →
        s.status = u.status := fun _ _ _ => Eq.trans
    refine .bind htrans (.ofExcept hrefl _) fun _ => .bind htrans (.modify fun _ => rfl) fun _ => ?_
    exact .bind htrans (.ofExcept hrefl _) fun _ => .bind htrans (.ofExcept hrefl _) fun _ =>
      .modify fun _ => rfl
  unfold handshake
  rw [Prog.get_bind_run, Prog.when_of hstatus, Prog.modify_bind_run, ← hkeeps]
  rfl

/-- A pending link is not pending any more after its handshake, however that ended. -/
theorem handshake_leaves_pending {c : Primitives} {l : LinkState} (hstatus : l.status = .pending) :
    (handshake c l).2.status ≠ .pending := by
  rw [handshake_status hstatus]
  exact Status.noConfusion

theorem handshake_answers (c : Primitives) : Prog.Answers (handshake c) :=
  .bind .get fun _ => .when (.bind (.modify _) fun _ => .bind (.ofExcept _) fun _ => .bind (.modify _) fun _ =>
    .bind (.ofExcept _) fun _ => .bind (.ofExcept _) fun _ => .modify _)

end MicroReticulum.Link
