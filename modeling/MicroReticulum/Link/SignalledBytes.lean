import MicroReticulum.Link.Proof
import MicroReticulum.Transport.Inbound

/-!
# Signalling bytes on the wire and rebuilt

Whoever checks a link proof does not take the three signalling bytes from the packet but builds them again, from the
MTU and the mode it has read. That gives the bytes on the wire as long as reading loses nothing. The field for the MTU
has 21 bits and the functions that read it return a `uint16_t`, so it loses the five bits above the sixteenth.

`signalling_faithful` says what holds for each MTU on the wire: below 65536 the bytes are rebuilt as they were, and a
proof that is signed over them is accepted at both places that check it; from there on nothing of this is left.

Proofs that were made by another implementation are read by the same functions, but nothing
is said of how such an implementation builds its bytes.
-/

namespace MicroReticulum.Link

open MicroReticulum Packet Library
open MicroReticulum.Transport (Environment TransportState Arrived LinkEntry IdentityEntry identityRecall transmitOn
  transportLinkProof linkProofSigned linkProofSignalling hopRaw)

/-! ## Three bytes -/

/-- The MTU in three signalling bytes, all 21 bits of it. -/
def wireMtu (b0 b1 b2 : UInt8) : Nat := (b0.toNat % 32) * 65536 + b1.toNat * 256 + b2.toNat

/-- The MTU that the bytes at the end of a string signal. -/
def wireMtuOf (signalling : Bytes) : Nat := wireMtu (signalling.byte 0) (signalling.byte 1) (signalling.byte 2)

/-- Reading keeps sixteen bits. -/
theorem mtuOfBytes_toNat (b0 b1 b2 : UInt8) : (mtuOfBytes b0 b1 b2).toNat = wireMtu b0 b1 b2 % 65536 := by
  have h0 : b0.toNat < 256 := b0.toNat_lt
  have h1 : b1.toNat < 256 := b1.toNat_lt
  have h2 : b2.toNat < 256 := b2.toNat_lt
  unfold mtuOfBytes wireMtu
  rw [UInt16.toNat_ofNat', and_mtuBytemask, Nat.shiftLeft_eq, Nat.shiftLeft_eq]
  omega

/-- The three bits above the MTU. -/
theorem mode_bits (b0 : UInt8) : (b0.toNat &&& 0xE0) >>> 5 = b0.toNat / 32 ∧ b0.toNat >>> 5 = b0.toNat / 32 := by
  have hlt : b0.toNat < 256 := b0.toNat_lt
  constructor
  · have hall : ∀ n < 256, (n &&& 0xE0) >>> 5 = n / 32 := by decide +kernel
    exact hall _ hlt
  · exact Nat.shiftRight_eq_div_pow _ 5

/-- Rebuilding gives back the bytes exactly if reading lost nothing. -/
theorem signallingBytes_rebuilt_iff (b0 b1 b2 : UInt8) (henabled : LinkMode.ofCode (b0.toNat / 32) ∈ enabledModes) :
    signallingBytes (mtuOfBytes b0 b1 b2) (LinkMode.ofCode (b0.toNat / 32)) = .ok [b0, b1, b2]
      ↔ wireMtu b0 b1 b2 < 65536 := by
  have h0 : b0.toNat < 256 := b0.toNat_lt
  have h1 : b1.toNat < 256 := b1.toNat_lt
  have h2 : b2.toNat < 256 := b2.toNat_lt
  have hcode : (LinkMode.ofCode (b0.toNat / 32)).code = b0.toNat / 32 := by
    have hall : ∀ n < 8, (LinkMode.ofCode n).code = n := by decide
    exact hall _ (by omega)
  unfold signallingBytes
  rw [if_pos henabled]
  simp only [signallingValue_eq, mtuOfBytes_toNat, hcode, Except.ok.injEq, List.cons.injEq, and_true,
    ← UInt8.toNat_inj, UInt8.toNat_ofNat', Nat.shiftRight_eq_div_pow]
  unfold wireMtu
  constructor
  · rintro ⟨hfirst, -, -⟩
    omega
  · intro hlt
    refine ⟨?_, ?_, ?_⟩ <;> omega

/-! ## The packets that carry them -/

/-- A link request that signals an MTU, with a mode this node takes. -/
structure SignalledRequest (p : Packet) : Prop where
  length : p.data.length = ecpubsize + linkMtuSize
  enabled : modeFromLrPacket p ∈ enabledModes

/-- A link proof that signals an MTU. -/
structure SignalledProof (p : Packet) : Prop where
  length : p.data.length = proofSize + linkMtuSize
  enabled : modeFromLpPacket p ∈ enabledModes

/-- The signalling bytes of a request, as they are on the wire. -/
def requestWire (p : Packet) : Bytes := p.data.mid ecpubsize

/-- The signalling bytes of a proof. -/
def proofWire (p : Packet) : Bytes := p.data.mid proofSize

/-- Three bytes at the end of a string are its last three. -/
theorem mid_three {b : Bytes} {n : Nat} (h : b.length = n + 3) :
    b.mid n = [b.byte n, b.byte (n + 1), b.byte (n + 2)] := by
  rw [Bytes.mid_eq_byte_cons (by omega), Bytes.mid_eq_byte_cons (by omega), Bytes.mid_eq_byte_cons (by omega)]
  have hnil : b.mid (n + 1 + 1 + 1) = [] := List.drop_eq_nil_of_le (by omega)
  rw [hnil]

theorem requestWire_eq {p : Packet} (h : p.data.length = ecpubsize + linkMtuSize) :
    requestWire p = [p.data.byte ecpubsize, p.data.byte (ecpubsize + 1), p.data.byte (ecpubsize + 2)] := mid_three h

theorem proofWire_eq {p : Packet} (h : p.data.length = proofSize + linkMtuSize) :
    proofWire p = [p.data.byte proofSize, p.data.byte (proofSize + 1), p.data.byte (proofSize + 2)] := mid_three h

theorem modeFromLrPacket_eq {p : Packet} (h : p.data.length = ecpubsize + linkMtuSize) :
    modeFromLrPacket p = LinkMode.ofCode ((p.data.byte ecpubsize).toNat / 32) := by
  unfold modeFromLrPacket
  rw [if_pos (by rw [h]; decide), (mode_bits _).1]

theorem modeFromLpPacket_eq {p : Packet} (h : p.data.length = proofSize + linkMtuSize) :
    modeFromLpPacket p = LinkMode.ofCode ((p.data.byte proofSize).toNat / 32) := by
  unfold modeFromLpPacket
  rw [if_pos (by rw [h]; decide)]
  exact congrArg LinkMode.ofCode (mode_bits _).2

/-- A request rebuilds its signalling bytes exactly below 65536. -/
theorem request_rebuilt_iff {p : Packet} (h : SignalledRequest p) :
    signallingBytes (mtuFromLrPacket p) (modeFromLrPacket p) = .ok (requestWire p)
      ↔ wireMtuOf (requestWire p) < 65536 := by
  have henabled := h.enabled
  have hmtu : mtuFromLrPacket p = mtuOfBytes (p.data.byte ecpubsize) (p.data.byte (ecpubsize + 1))
      (p.data.byte (ecpubsize + 2)) := if_pos h.length
  rw [modeFromLrPacket_eq h.length] at henabled ⊢
  rw [hmtu, requestWire_eq h.length]
  exact signallingBytes_rebuilt_iff _ _ _ henabled

/-- So does a proof. -/
theorem proof_rebuilt_iff {p : Packet} (h : SignalledProof p) :
    signallingBytes (mtuFromLpPacket p) (modeFromLpPacket p) = .ok (proofWire p)
      ↔ wireMtuOf (proofWire p) < 65536 := by
  have henabled := h.enabled
  have hmtu : mtuFromLpPacket p = mtuOfBytes (p.data.byte proofSize) (p.data.byte (proofSize + 1))
      (p.data.byte (proofSize + 2)) := if_pos h.length
  rw [modeFromLpPacket_eq h.length] at henabled ⊢
  rw [hmtu, proofWire_eq h.length]
  exact signallingBytes_rebuilt_iff _ _ _ henabled

/-! ## What is signed over the wire -/

/-- What a transport node does with a proof it has validated. -/
def passLinkProof (environment : Environment) (a : Arrived) (entry : LinkEntry) :
    Prog String TransportState Unit := do
  Prog.modify fun s =>
    { s with linkTable := s.linkTable.adjust a.packet.destinationHash fun entry => { entry with validated := true } }
  transmitOn environment [entry.receivingInterface] (hopRaw a.packet)

/-- A proof is taken for what it is: its signalling bytes are rebuilt as they are on the wire, and with a signature over
these the initiator goes on to establish the link and a transport node passes the proof on.
-/
structure ProofFaithful (p : Packet) : Prop where
  rebuilt : signallingBytes (mtuFromLpPacket p) (modeFromLpPacket p) = .ok (proofWire p)
  validated : ∀ (c : Primitives) (established : LinkState → Except String Unit) (a : Arrival) (l l' : LinkState),
    a.packet = p → l.initiator = true → l.status = .pending → modeFromLpPacket p = l.mode →
    handshake c (loadPeer (p.data.midLen siglength (ecpubsize / 2))
      (l.destinationPublicKey.midLen (ecpubsize / 2) (ecpubsize / 2)) l) = (.value (), l') →
    c.verify (l.destinationPublicKey.midLen (ecpubsize / 2) (ecpubsize / 2)) (p.data.left siglength)
      (l'.linkId.toList ++ l'.peerPubBytes ++ l'.peerSigPubBytes ++ proofWire p) = true →
    validateProofBody c established a l = establish c established a (mtuFromLpPacket p) (addCost p l')
  passedOn : ∀ (environment : Environment) (a : Arrived) (entry : LinkEntry) (s t : TransportState)
    (identity : IdentityEntry), a.packet = p →
    identityRecall environment entry.destinationHash s = (.value (some identity), t) →
    environment.verify (identity.publicKey.midLen (ecpubsize / 2) (ecpubsize / 2)) (p.data.left siglength)
      (linkProofSigned p (identity.publicKey.midLen (ecpubsize / 2) (ecpubsize / 2)) (proofWire p)) = true →
    transportLinkProof environment a entry s = passLinkProof environment a entry t

/-- Behind the check of the signature, `validate_proof` establishes the link. -/
theorem validateProofBody_run {c : Primitives} {established : LinkState → Except String Unit} {a : Arrival}
    {l l' : LinkState} {signalling : Bytes} (hlength : a.packet.data.length = proofSize + linkMtuSize)
    (hsignalling : signallingBytes (mtuFromLpPacket a.packet) (modeFromLpPacket a.packet) = .ok signalling)
    (hinitiator : l.initiator = true) (hstatus : l.status = .pending) (hmode : modeFromLpPacket a.packet = l.mode)
    (hhandshake : handshake c (loadPeer (a.packet.data.midLen siglength (ecpubsize / 2))
      (l.destinationPublicKey.midLen (ecpubsize / 2) (ecpubsize / 2)) l) = (.value (), l'))
    (hverify : c.verify (l.destinationPublicKey.midLen (ecpubsize / 2) (ecpubsize / 2)) (a.packet.data.left siglength)
      (l'.linkId.toList ++ l'.peerPubBytes ++ l'.peerSigPubBytes ++ signalling) = true) :
    validateProofBody c established a l
      = establish c established a (mtuFromLpPacket a.packet) (addCost a.packet l') := by
  have hpayload : proofPayload a.packet = .ok
      { data := a.packet.data.left proofSize, confirmedMtu := mtuFromLpPacket a.packet, signalling } := by
    unfold proofPayload
    rw [if_pos hlength, hsignalling]
    rfl
  have hsize : (a.packet.data.left proofSize).length = proofSize := by
    rw [Bytes.left_length, hlength]
    exact Nat.min_eq_left (Nat.le_add_right _ _)
  have hpub : (a.packet.data.left proofSize).midLen siglength (ecpubsize / 2)
      = a.packet.data.midLen siglength (ecpubsize / 2) := by
    unfold Bytes.midLen Bytes.left
    rw [List.drop_take, List.take_take]
    rfl
  have hsig : (a.packet.data.left proofSize).left siglength = a.packet.data.left siglength := by
    unfold Bytes.left
    rw [List.take_take]
    rfl
  unfold validateProofBody
  rw [Prog.get_bind_run, Prog.when_of hstatus, Prog.bind_value (Prog.require_run_of hmode _ _), hpayload,
    Prog.bind_value (Prog.ofExcept_ok_run _ _), Prog.when_of ⟨hinitiator, hsize⟩]
  unfold checkProof
  rw [Prog.get_bind_run, Prog.modify_bind_run, hpub, Prog.bind_value hhandshake, Prog.modify_bind_run,
    Prog.get_bind_run, hsig]
  exact congrFun (Prog.when_of hverify _) _

/-- Behind the check of the signature, a transport node passes the proof on. -/
theorem transportLinkProof_run {environment : Environment} {a : Arrived} {entry : LinkEntry} {s t : TransportState}
    {identity : IdentityEntry} {signalling : Bytes} (hlength : a.packet.data.length = proofSize + linkMtuSize)
    (hsignalling : signallingBytes (mtuFromLpPacket a.packet) (modeFromLpPacket a.packet) = .ok signalling)
    (hrecall : identityRecall environment entry.destinationHash s = (.value (some identity), t))
    (hverify : environment.verify (identity.publicKey.midLen (ecpubsize / 2) (ecpubsize / 2))
      (a.packet.data.left siglength)
      (linkProofSigned a.packet (identity.publicKey.midLen (ecpubsize / 2) (ecpubsize / 2)) signalling) = true) :
    transportLinkProof environment a entry s = passLinkProof environment a entry t := by
  have hbytes : linkProofSignalling a.packet = .ok signalling := (if_pos hlength).trans hsignalling
  unfold transportLinkProof
  dsimp only
  rw [Prog.when_of (.inr hlength), hbytes, Prog.bind_value (Prog.ofExcept_ok_run _ _), Prog.bind_value hrecall]
  exact congrFun (Prog.when_of hverify _) _

/-- A proof is taken for what it is exactly when it signals an MTU below 65536. -/
theorem proofFaithful_iff {p : Packet} (h : SignalledProof p) : ProofFaithful p ↔ wireMtuOf (proofWire p) < 65536 := by
  constructor
  · intro hfaithful
    exact (proof_rebuilt_iff h).mp hfaithful.rebuilt
  · intro hlt
    have hrebuilt := (proof_rebuilt_iff h).mpr hlt
    refine ⟨hrebuilt, ?_, ?_⟩
    · rintro c established a l l' rfl hinitiator hstatus hmode hhandshake hverify
      exact validateProofBody_run h.length hrebuilt hinitiator hstatus hmode hhandshake hverify
    · rintro environment a entry s t identity rfl hrecall hverify
      exact transportLinkProof_run h.length hrebuilt hrecall hverify

/-! ## Reading what was built -/

/-- The readers give back the MTU and the mode that `signalling_bytes` was called with, from a request and from a
proof.
-/
structure Inverted (mtu : Nat) (mode : LinkMode) (signalling : Bytes) : Prop where
  request : ∀ p : Packet, p.data.length = ecpubsize + linkMtuSize → requestWire p = signalling →
    (mtuFromLrPacket p).toNat = mtu ∧ modeFromLrPacket p = mode
  proof : ∀ p : Packet, p.data.length = proofSize + linkMtuSize → proofWire p = signalling →
    (mtuFromLpPacket p).toNat = mtu ∧ modeFromLpPacket p = mode

/-- What the bytes of `signalling_bytes` are read as. -/
theorem ofBytes_of_signallingBytes {mtu : UInt16} {mode : LinkMode} {b0 b1 b2 : UInt8}
    (h : signallingBytes mtu mode = .ok [b0, b1, b2]) :
    mtuOfBytes b0 b1 b2 = mtu ∧ LinkMode.ofCode (b0.toNat / 32) = mode := by
  unfold signallingBytes at h
  split at h
  case isFalse => cases h
  case isTrue =>
    obtain ⟨hb0, htail⟩ := List.cons.inj (Except.ok.inj h)
    obtain ⟨hb1, htail⟩ := List.cons.inj htail
    obtain ⟨hb2, -⟩ := List.cons.inj htail
    rw [← hb0, ← hb1, ← hb2]
    refine ⟨mtuOfBytes_signallingValue mtu mode, ?_⟩
    have hcode := mode.code_lt
    rw [signallingValue_high, UInt8.toNat_ofNat']
    have hsame : mode.code * 32 % 2 ^ 8 / 32 = mode.code := by omega
    rw [hsame, LinkMode.ofCode_code]

/-- A packet with this payload. -/
def carrying (data : Bytes) : Packet :=
  ofLayout 0 0 none (.fill 0) ContextType.none data

/-- `signalling_bytes` takes a `uint16_t`: what does not fit is cut before it is written. -/
theorem inverted_iff {mtu : Nat} {mode : LinkMode} {signalling : Bytes}
    (h : signallingBytes (UInt16.ofNat mtu) mode = .ok signalling) : Inverted mtu mode signalling ↔ mtu < 65536 := by
  have hlength := signallingBytes_length h
  obtain ⟨b0, b1, b2, rfl⟩ : ∃ b0 b1 b2, signalling = [b0, b1, b2] := List.length_eq_three.mp hlength
  obtain ⟨hmtu, hmode⟩ := ofBytes_of_signallingBytes h
  have hnarrow : (UInt16.ofNat mtu).toNat = mtu % 65536 := UInt16.toNat_ofNat'
  constructor
  · intro hinverted
    have hsize : (carrying (List.replicate 64 0 ++ [b0, b1, b2])).data.length = ecpubsize + linkMtuSize := by
      simp [carrying, ofLayout, ecpubsize, linkMtuSize]
    have hrequest := (hinverted.request (carrying (List.replicate 64 0 ++ [b0, b1, b2])) hsize rfl).1
    have hread : mtuFromLrPacket (carrying (List.replicate 64 0 ++ [b0, b1, b2])) = mtuOfBytes b0 b1 b2 := rfl
    rw [hread, hmtu, hnarrow] at hrequest
    omega
  · intro hlt
    have heq : (UInt16.ofNat mtu).toNat = mtu := hnarrow.trans (Nat.mod_eq_of_lt hlt)
    constructor
    · intro p hp hwire
      rw [requestWire_eq hp] at hwire
      cases hwire
      have hread : mtuFromLrPacket p = _ := if_pos hp
      rw [hread, hmtu, modeFromLrPacket_eq hp]
      exact ⟨heq, hmode⟩
    · intro p hp hwire
      rw [proofWire_eq hp] at hwire
      cases hwire
      have hread : mtuFromLpPacket p = _ := if_pos hp
      rw [hread, modeFromLpPacket_eq hp]
      exact ⟨(congrArg UInt16.toNat hmtu).trans heq, hmode⟩

/-- Below 65536, and only there, the signalling bytes of requests and proofs are rebuilt as they were, proofs signed
over them are taken, and the readers invert `signalling_bytes`.
-/
theorem signalling_faithful (p : Packet) (mtu : Nat) (mode : LinkMode) (signalling : Bytes) :
    (SignalledRequest p → (signallingBytes (mtuFromLrPacket p) (modeFromLrPacket p) = .ok (requestWire p)
        ↔ wireMtuOf (requestWire p) < 65536))
      ∧ (SignalledProof p → (ProofFaithful p ↔ wireMtuOf (proofWire p) < 65536))
      ∧ (signallingBytes (UInt16.ofNat mtu) mode = .ok signalling → (Inverted mtu mode signalling ↔ mtu < 65536)) :=
  ⟨request_rebuilt_iff, proofFaithful_iff, inverted_iff⟩

namespace Sample

/-- A request that signals an MTU of 65536. -/
def wideRequest : Packet := carrying (List.replicate 64 0 ++ [0x21, 0, 0])

/-- A proof that signals the default MTU. -/
def ordinaryProof : Packet := carrying (List.replicate 96 0 ++ [0x20, 0x01, 0xF4])

theorem wideRequest_signalled : SignalledRequest wideRequest := ⟨rfl, by decide +kernel⟩

theorem ordinaryProof_signalled : SignalledProof ordinaryProof := ⟨rfl, by decide +kernel⟩

end Sample

/-- The bytes of an MTU of 65536 are rebuilt as those of zero. -/
theorem wide_mtu_rebuilt_as_zero : ¬ ∀ p, SignalledRequest p →
    signallingBytes (mtuFromLrPacket p) (modeFromLrPacket p) = .ok (requestWire p) := by
  intro h
  have hrebuilt := h Sample.wideRequest Sample.wideRequest_signalled
  have hzero : signallingBytes (mtuFromLrPacket Sample.wideRequest) (modeFromLrPacket Sample.wideRequest)
      = .ok [0x20, 0, 0] := by decide +kernel
  rw [hzero] at hrebuilt
  revert hrebuilt
  decide +kernel

/-- A proof with the default MTU is taken for what it is, and an MTU of 65536 is not read back. -/
theorem ordinary_proof_faithful :
    ProofFaithful Sample.ordinaryProof ∧ ¬ Inverted 65536 .aes256Cbc [0x20, 0, 0] :=
  ⟨((signalling_faithful _ 0 .aes256Cbc []).2.1 Sample.ordinaryProof_signalled).mpr (by decide +kernel),
    fun h => absurd (((signalling_faithful Sample.ordinaryProof 65536 _ _).2.2 (by decide +kernel)).mp h) (by decide)⟩

end MicroReticulum.Link
