import MicroReticulum.Link.LifeCycle
import MicroReticulum.Link.ValidateRequest

/-!
# The sizes of an established link

`UsableSizes` is what a link should offer once it is established: a payload of up to its MDU is encrypted and packed
whole, and a resource has parts of at least one byte. `active_sizes_iff` says for which MTUs this is so, in every state
of every run. Below 84 there is no room for a block of ciphertext and the MDU wraps around; of these MTUs an active link can
have 83, which the packet with the round trip time just fits. Above 547 the MDU is more than what the constructor of a packet
leaves of its payload.

That a payload of the usable size also crosses the interfaces on the way is not said here;
`Transport.Clamping` has what is lowered there.
-/

namespace MicroReticulum.Link

open MicroReticulum Packet Library Cryptography Resource
open MicroReticulum.Transport (reticulumMdu)

/-! ## Data packets under the key of a link -/

/-- The contexts whose payload `pack` encrypts in a data packet for a link. -/
structure Encrypted (context : ContextType) : Prop where
  lrproof : context ≠ ContextType.lrproof
  resource : context ≠ ContextType.resource
  keepalive : context ≠ ContextType.keepalive
  cacheRequest : context ≠ ContextType.cacheRequest

theorem encrypted_none : Encrypted ContextType.none := ⟨by decide, by decide, by decide, by decide⟩

/-- The size of a packet with a plaintext of `n` bytes: its header, the initialisation vector, the padded blocks and
the authentication code.
-/
def wireSize (n : Nat) : Nat := headerMinsize + (16 + (n + (16 - n % 16)) + 32)

section Packing

variable {env : Env} {e : Endpoint} {token : Token} {context : ContextType}

/-- What `pack` makes of a payload under the key of the link. -/
theorem packFor_encrypted (henv : env.ciphers.Lawful) (hiv : ∀ n, (env.iv n).length = 16)
    (hkey : e.link.getToken = .ok token) (hcontext : Encrypted context) (data : Bytes) :
    (wireSize (data.left reticulumMdu).length ≤ e.link.mtu.toNat
      ∧ ∃ p, packFor env e .data context data = .ok p ∧ p.data = data.left reticulumMdu
        ∧ p.raw.length = wireSize (data.left reticulumMdu).length)
    ∨ (e.link.mtu.toNat < wireSize (data.left reticulumMdu).length
      ∧ packFor env e .data context data = .error "Packet size exceeds MTU") := by
  have hplain : plaintextOnWire (linkSpec e.link .data context (data.left reticulumMdu)) = false := by
    simp [plaintextOnWire, linkSpec, hcontext.resource, hcontext.keepalive, hcontext.cacheRequest]
  have hbody : packBody (fun _ plaintext => e.link.getToken.map fun token =>
        tokenEncrypt env.ciphers token (env.iv e.draws) plaintext)
      (linkSpec e.link .data context (data.left reticulumMdu))
      = .ok (e.link.linkId.toList, tokenEncrypt env.ciphers token (env.iv e.draws) (data.left reticulumMdu)) := by
    have hproof : (linkSpec e.link .data context (data.left reticulumMdu)).context ≠ ContextType.lrproof :=
      hcontext.lrproof
    unfold packBody
    rw [if_neg hproof, hplain, hkey]
    rfl
  have htoken := tokenEncrypt_length henv token (hiv e.draws) (data.left reticulumMdu)
  have hraw : (getPackedFlags (linkSpec e.link .data context (data.left reticulumMdu)) :: (0 : UInt8) ::
      (e.link.linkId.toList ++ context ::
        tokenEncrypt env.ciphers token (env.iv e.draws) (data.left reticulumMdu))).length
      = wireSize (data.left reticulumMdu).length := by
    rw [List.length_cons, List.length_cons, List.length_append, List.length_cons, e.link.linkId.toList_length, htoken]
    unfold wireSize headerMinsize padLength blocksize
    omega
  unfold packFor pack
  rw [hbody]
  by_cases hfits : wireSize (data.left reticulumMdu).length ≤ e.link.mtu.toNat
  · refine .inl ⟨hfits, _, if_neg ?_, rfl, hraw⟩
    rw [← hraw] at hfits
    exact Nat.not_lt.mpr hfits
  · refine .inr ⟨Nat.not_le.mp hfits, if_pos ?_⟩
    rw [← hraw] at hfits
    exact Nat.not_le.mp hfits

/-- A packet holds what the constructor has left of its payload. -/
theorem packFor_data {data : Bytes} {p : Packet} (h : packFor env e .data context data = .ok p) :
    p.data = data.left reticulumMdu := by
  unfold packFor pack at h
  split at h
  case h_1 => cases h
  case h_2 =>
    dsimp only at h
    split at h
    case isTrue => cases h
    case isFalse =>
      cases h
      rfl

/-- A payload is packed whole exactly if the constructor does not cut it and the packet fits the MTU. -/
theorem packFor_whole_iff (henv : env.ciphers.Lawful) (hiv : ∀ n, (env.iv n).length = 16)
    (hkey : e.link.getToken = .ok token) (hcontext : Encrypted context) (data : Bytes) :
    (∃ p, packFor env e .data context data = .ok p ∧ p.data = data ∧ p.raw.length ≤ e.link.mtu.toNat)
      ↔ data.length ≤ reticulumMdu ∧ wireSize data.length ≤ e.link.mtu.toNat := by
  have hcut : data.left reticulumMdu = data ↔ data.length ≤ reticulumMdu := List.take_eq_self_iff data
  constructor
  · rintro ⟨p, hp, hdata, -⟩
    rcases packFor_encrypted henv hiv hkey hcontext data with ⟨hfits, p', hp', hdata', -⟩ | ⟨-, herror⟩
    · cases hp'.symm.trans hp
      have hwhole : data.left reticulumMdu = data := hdata'.symm.trans hdata
      rw [hwhole] at hfits
      exact ⟨hcut.mp hwhole, hfits⟩
    · cases herror.symm.trans hp
  · rintro ⟨hshort, hfits⟩
    have hwhole := hcut.mpr hshort
    rcases packFor_encrypted henv hiv hkey hcontext data with ⟨-, p, hp, hdata, hraw⟩ | ⟨hlarge, -⟩
    · rw [hwhole] at hdata hraw
      exact ⟨p, hp, hdata, hraw.trans_le hfits⟩
    · rw [hwhole] at hlarge
      exact absurd hfits (Nat.not_le.mpr hlarge)

end Packing

/-! ## Usable sizes -/

/-- What is to hold of the sizes of an established link. -/
structure UsableSizes (env : Env) (e : Endpoint) : Prop where
  positive : 0 < e.link.mdu.toNat
  smaller : e.link.mdu.toNat < e.link.mtu.toNat
  packs : ∀ context plaintext, Encrypted context → plaintext.length ≤ e.link.mdu.toNat →
    ∃ p, packFor env e .data context plaintext = .ok p ∧ p.data = plaintext ∧ p.raw.length ≤ e.link.mtu.toNat
  part : 1 ≤ (resourceSdu e.link).toNat
  /-- `_mdu` as `update_mdu` stores it first -/
  first : headerMaxsize + ifacMinSize ≤ e.link.mtu.toNat
  /-- nothing has wrapped around in `_mdu` and `_sdu` -/
  mdu : (e.link.mdu.toNat : Int) = ((e.link.mtu.toNat : Int) - ifacMinSize - headerMinsize - 48).tdiv 16 * 16 - 1
  sdu : ((resourceSdu e.link).toNat : Int) = (e.link.mtu.toNat : Int) - headerMaxsize - ifacMinSize

/-- An established link has the MDU of its MTU, a key, and room for the packet with the round trip time. -/
structure Established (l : LinkState) : Prop where
  mdu : l.mdu = (updateMdu l).mdu
  keyed : l.derivedKey.length = 32 ∨ l.derivedKey.length = 64
  proven : headerMinsize + 64 ≤ l.mtu.toNat

section Sizes

variable {l : LinkState}

theorem Established.getToken (h : Established l) : ∃ token, l.getToken = .ok token :=
  LinkState.getToken_of_sized h.keyed

/-- The MDU as a number, where there is room for a block. -/
theorem updateMdu_toNat (h : 84 ≤ l.mtu.toNat) : (updateMdu l).mdu.toNat = (l.mtu.toNat - 68) / 16 * 16 - 1 := by
  have hlt := l.mtu.toNat_lt
  have hint : (((l.mtu.toNat : Int) - 1 - headerMinsize - 48).tdiv 16) * 16 - 1
      = (((l.mtu.toNat - 68) / 16 * 16 - 1 : Nat) : Int) := by
    unfold headerMinsize destinationLength
    rw [Int.tdiv_eq_ediv_of_nonneg (by omega)]
    omega
  show (UInt16.ofInt _).toNat = _
  rw [hint]
  simp [UInt16.ofInt, UInt16.toNat_ofNat']
  omega

/-- The sizes of an established link are usable exactly for these MTUs. -/
theorem usableSizes_iff {env : Env} {e : Endpoint} (henv : env.ciphers.Lawful) (hiv : ∀ n, (env.iv n).length = 16)
    (hactive : e.link.status = .active) (h : Established e.link) :
    UsableSizes env e ↔ 84 ≤ e.link.mtu.toNat ∧ e.link.mtu.toNat ≤ 547 := by
  have hproven : 83 ≤ e.link.mtu.toNat := h.proven
  obtain ⟨token, hkey⟩ := h.getToken
  have hsdu := resourceSdu_active hactive (by omega)
  constructor
  · intro husable
    have hlarge : 84 ≤ e.link.mtu.toNat := by
      by_contra hsmall
      have hmtu : e.link.mtu.toNat = 83 := by omega
      have hmdu := husable.mdu
      rw [hmtu] at hmdu
      unfold ifacMinSize headerMinsize destinationLength at hmdu
      have hdiv : (((83 : Nat) : Int) - (1 : Nat) - (2 + 1 + 16 : Nat) - 48).tdiv 16 = 0 := by decide
      rw [hdiv] at hmdu
      omega
    refine ⟨hlarge, ?_⟩
    by_contra hwide
    have hmdu := updateMdu_toNat hlarge
    rw [← h.mdu] at hmdu
    obtain ⟨hcut, -⟩ := (packFor_whole_iff henv hiv hkey encrypted_none (List.replicate e.link.mdu.toNat 0)).mp
      (husable.packs _ _ encrypted_none (by rw [List.length_replicate]))
    rw [List.length_replicate, hmdu] at hcut
    have hlimit : reticulumMdu = 464 := rfl
    omega
  · rintro ⟨hlarge, hsmall⟩
    have hmdu := updateMdu_toNat hlarge
    rw [← h.mdu] at hmdu
    refine ⟨by omega, by omega, fun context plaintext hcontext hlength => ?_, by omega, ?_, ?_, ?_⟩
    · refine (packFor_whole_iff henv hiv hkey hcontext plaintext).mpr ⟨?_, ?_⟩
      · have hlimit : reticulumMdu = 464 := rfl
        omega
      · unfold wireSize headerMinsize destinationLength
        omega
    · unfold headerMaxsize ifacMinSize destinationLength
      omega
    · unfold ifacMinSize headerMinsize destinationLength
      rw [Int.tdiv_eq_ediv_of_nonneg (by omega)]
      omega
    · rw [hsdu]
      unfold headerMaxsize ifacMinSize destinationLength
      omega

end Sizes

/-! ## Links that become active -/

section Establishing

variable {c : Primitives} {established : LinkState → Except String Unit} {a : Arrival} {l l' : LinkState}

/-- The packet with the round trip time fits the MTU of the link it was packed for. -/
theorem pack_rtt_fits {packet : Packet} (rtt : ℚ)
    (h : pack (fun _ => linkEncrypt c l) (linkSpec l .data ContextType.lrrtt (c.packRtt rtt)) = .ok packet) :
    headerMinsize + 64 ≤ l.mtu.toNat := by
  have hbody : packBody (fun _ => linkEncrypt c l) (linkSpec l .data ContextType.lrrtt (c.packRtt rtt))
      = (linkEncrypt c l (c.packRtt rtt)).map fun b => (l.linkId.toList, b) := rfl
  unfold pack at h
  rw [hbody] at h
  unfold linkEncrypt at h
  cases hkey : l.getToken with
  | error e =>
    rw [hkey] at h
    cases h
  | ok token =>
    rw [hkey] at h
    by_contra hsmall
    have hlarge : l.mtu.toNat < (getPackedFlags (linkSpec l .data ContextType.lrrtt (c.packRtt rtt)) :: (0 : UInt8) ::
        (l.linkId.toList ++ ContextType.lrrtt :: c.tokenEncrypt token (c.packRtt rtt))).length := by
      rw [List.length_cons, List.length_cons, List.length_append, List.length_cons, l.linkId.toList_length,
        c.tokenEncrypt_length]
      have hmin : headerMinsize = 19 := rfl
      have haddress : destinationLength = 16 := rfl
      omega
    have herror : (Except.error "Packet size exceeds MTU" : Except String Packet) = .ok packet :=
      (if_pos hlarge).symm.trans h
    cases herror

theorem sendRtt_inversion (h : sendRtt c a l = (.value (), l')) :
    headerMinsize + 64 ≤ l.mtu.toNat ∧ l'.mtu = l.mtu ∧ l'.mdu = l.mdu ∧ l'.derivedKey = l.derivedKey := by
  unfold sendRtt at h
  rw [Prog.get_bind_run, Prog.modify_bind_run] at h
  obtain ⟨packet, hpack, h⟩ := Prog.of_ofExcept_value h
  obtain ⟨-, h⟩ := Prog.of_require_value h
  cases h
  exact ⟨pack_rtt_fits l.rtt hpack, rfl, rfl, rfl⟩

/-- A proof that opens the link leaves it established, under the key of its handshake. -/
theorem establish_inversion {confirmedMtu : UInt16}
    (h : establish c established a confirmedMtu l = (.value (), l'))
    (hkey : l.derivedKey.length = 32 ∨ l.derivedKey.length = 64) : Established l' := by
  unfold establish at h
  rw [Prog.get_bind_run] at h
  obtain ⟨-, h⟩ := Prog.of_require_value h
  rw [Prog.modify_bind_run] at h
  obtain ⟨table, htable⟩ := activateLink_run (l := activated a confirmedMtu l) rfl
  rw [Prog.bind_value htable, Prog.modify_bind_run] at h
  obtain ⟨rate, hrate⟩ := updateEstablishmentRate_eq { activated a confirmedMtu l with table }
  rw [hrate] at h
  obtain ⟨_, l₁, hsent, h⟩ := Prog.exists_of_bind_value h
  obtain ⟨hproven, hmtu, hmdu, hderived⟩ := sendRtt_inversion hsent
  rw [Prog.get_bind_run] at h
  have hlast : l' = l₁ := by
    cases hcallback : established l₁ with
    | error e =>
      rw [hcallback] at h
      cases h
    | ok u =>
      rw [hcallback] at h
      cases h
      rfl
  subst hlast
  refine ⟨?_, hderived ▸ hkey, hmtu ▸ hproven⟩
  rw [hmdu]
  unfold updateMdu
  rw [hmtu]
  rfl

/-- A link is established, closed, or on the way there as the initiator's. -/
def Underway (l : LinkState) : Prop :=
  Established l ∨ l.status = .closed ∨ (l.initiator = true ∧ (l.status = .pending ∨ l.status = .handshake))

theorem checkProof_underway {payload : ProofPayload} (hinitiator : l.initiator = true) (hstatus : l.status = .pending)
    (h : checkProof c established a payload l = (.value (), l')) : Underway l' := by
  unfold checkProof at h
  rw [Prog.get_bind_run, Prog.modify_bind_run] at h
  obtain ⟨_, l₁, hhandshake, h⟩ := Prog.exists_of_bind_value h
  obtain ⟨hrole, hhandshook, hkey⟩ := handshake_keyed (by exact hstatus) hhandshake
  rw [Prog.modify_bind_run, Prog.get_bind_run] at h
  unfold Prog.when at h
  split at h
  · exact .inl (establish_inversion h hkey)
  · cases h
    exact .inr (.inr ⟨hrole.trans hinitiator, .inr hhandshook⟩)

/-- A link proof leaves a link on its way. -/
theorem validateProof_underway (h : Underway l) : Underway (validateProof c established a l) := by
  by_cases hstatus : l.status = .pending
  case neg => rwa [validateProof_of_not_pending hstatus]
  rcases hrun : validateProofBody c established a l with ⟨_ | _ | message | _, l'⟩
  case thrown =>
    rw [validateProof_of_thrown hrun]
    exact .inr (.inl rfl)
  case value =>
    rw [validateProof_of_value hrun]
    unfold validateProofBody at hrun
    rw [Prog.get_bind_run, Prog.when_of hstatus] at hrun
    obtain ⟨-, hrun⟩ := Prog.of_require_value hrun
    obtain ⟨payload, -, hrun⟩ := Prog.of_ofExcept_value hrun
    unfold Prog.when at hrun
    split at hrun
    case isTrue hsize => exact checkProof_underway hsize.1 hstatus hrun
    case isFalse =>
      cases hrun
      exact h
  all_goals
    have hanswers : (∃ u, (validateProofBody c established a l).1 = .value u)
        ∨ ∃ message, (validateProofBody c established a l).1 = .thrown message := validateProofBody_answers a l
    rw [hrun] at hanswers
    simp at hanswers

end Establishing

/-! ## Runs -/

section Runs

variable {env : Env} {scope : Scope} {s t : Endpoint}

/-- No write takes a link from its way. -/
theorem Gentle.underway (hg : Gentle env scope s t) (h : Underway s.link) : Underway t.link := by
  cases hg
  case token token _ => exact h.imp_left fun he => ⟨he.mdu, he.keyed, he.proven⟩
  case identify => exact h.imp_left fun he => ⟨he.mdu, he.keyed, he.proven⟩
  case activate hopen hrole =>
    rcases h with he | hclosed | ⟨hinitiator, hearly⟩
    · exact .inl ⟨he.mdu, he.keyed, he.proven⟩
    · exact absurd hclosed hopen
    · -- the initiator's link is neither the responder's nor stale
      rcases hrole with hresponder | hstale
      · rw [hinitiator] at hresponder
        cases hresponder
      · rw [hstale] at hearly
        rcases hearly with h | h <;> cases h
  case close => exact .inr (.inl rfl)
  case purge hclosed => exact .inr (.inl hclosed)
  all_goals exact h

theorem Write.underway (hw : Write env scope s t) (h : Underway s.link) : Underway t.link := by
  cases hw
  case gentle hg => exact hg.underway h
  all_goals exact h

end Runs

/-- An endpoint with a link that has just been requested or accepted. -/
structure NewLink (c : Primitives) (fullHash : Bytes → Hash) (e : Endpoint) : Prop extends e.Fresh where
  origin : (e.link.initiator = true ∧ e.link.status = .pending)
    ∨ ∃ keys a, validateRequest c fullHash keys a = some e.link

theorem NewLink.underway {c : Primitives} {fullHash : Bytes → Hash} {e : Endpoint} (h : NewLink c fullHash e) :
    Underway e.link := by
  rcases h.origin with ⟨hinitiator, hstatus⟩ | ⟨keys, a, haccepted⟩
  · exact .inr (.inr ⟨hinitiator, .inl hstatus⟩)
  · obtain ⟨-, hmdu, hproof⟩ := validateRequest_inversion haccepted
    refine .inl ⟨hmdu, (validateRequest_keyed haccepted).2, ?_⟩
    unfold proofSize siglength ecpubsize linkMtuSize at hproof
    omega

/-- An active link is established, whatever has happened to it. -/
theorem NewLink.established {env : Env} {c : Primitives} {established : LinkState → Except String Unit}
    {fullHash : Bytes → Hash} {e : Endpoint} (hnew : NewLink c fullHash e) (inputs : List LifeInput)
    (hactive : (lifeRun env c established e inputs).link.status = .active) :
    (lifeRun env c established e inputs).Clean ∧ Established (lifeRun env c established e inputs).link := by
  have hproof : ∀ a (t : Endpoint), Underway t.link → Underway (validateLinkProof c established a t).link := by
    intro a t h
    rw [validateLinkProof_link]
    exact validateProof_underway h
  have hrun : Underway (lifeRun env c established e inputs).link ∧ (lifeRun env c established e inputs).Clean :=
    lifeRun_invariant (P := fun e => Underway e.link) (fun _ _ _ hw h => hw.underway h) hproof hnew.clean hnew.underway
      inputs
  obtain ⟨hunderway, hclean⟩ := hrun
  refine ⟨hclean, ?_⟩
  rcases hunderway with h | hclosed | ⟨-, hearly⟩
  · exact h
  · cases hactive.symm.trans hclosed
  · rw [hactive] at hearly
    rcases hearly with h | h <;> cases h

/-- For every link, however it was made, and every run: where the link is active, its MTU is 83 at least, and its sizes
are usable exactly for an MTU from 84 to 547.
-/
theorem active_sizes_iff (env : Env) (c : Primitives) (established : LinkState → Except String Unit)
    (fullHash : Bytes → Hash) (henv : env.ciphers.Lawful) (hiv : ∀ n, (env.iv n).length = 16) (e : Endpoint)
    (hnew : NewLink c fullHash e) (inputs : List LifeInput) (s : Endpoint) (hs : s = lifeRun env c established e inputs)
    (hactive : s.link.status = .active) :
    83 ≤ s.link.mtu.toNat ∧ (UsableSizes env s ↔ 84 ≤ s.link.mtu.toNat ∧ s.link.mtu.toNat ≤ 547) := by
  subst hs
  obtain ⟨-, h⟩ := hnew.established inputs hactive
  exact ⟨h.proven, usableSizes_iff henv hiv hactive h⟩

namespace Sample

theorem plainEnv_lawful (fullHash : Bytes → Hash) : (plainEnv fullHash).ciphers.Lawful :=
  Transport.Sample.plainCiphers_lawful

/-- The responder's proof for an MTU. -/
def confirmation (mtu : UInt16) : Bytes :=
  (proofPacket samplePrimitives { sampleResponder with mtu }).toOption.elim [] Packet.data

/-- The endpoint of a link that was requested and confirmed. -/
def confirmed (mtu : UInt16) : Endpoint :=
  lifeRun (plainEnv tailHash) samplePrimitives (fun _ => .ok ()) newlyRequested
    [.proof (sampleArrival (confirmation mtu))]

theorem newlyRequested_new (c : Primitives) (fullHash : Bytes → Hash) : NewLink c fullHash newlyRequested where
  created := rfl
  incoming := rfl
  outgoing := rfl
  resources _ := rfl
  pending := rfl
  remoteIdentity := rfl
  events := rfl
  origin := .inl ⟨rfl, rfl⟩

end Sample

/-- A link with the default MTU has usable sizes. -/
theorem default_mtu_usable : UsableSizes (Sample.plainEnv tailHash) (Sample.confirmed 500) := by
  have hmtu : (Sample.confirmed 500).link.mtu.toNat = 500 := by decide +kernel
  have hactive : (Sample.confirmed 500).link.status = .active := by decide +kernel
  have hsizes := active_sizes_iff (Sample.plainEnv tailHash) samplePrimitives (fun _ => .ok ()) tailHash
    (Sample.plainEnv_lawful _) (fun _ => rfl) Sample.newlyRequested (Sample.newlyRequested_new _ _)
    [.proof (sampleArrival (Sample.confirmation 500))] (Sample.confirmed 500) rfl hactive
  refine hsizes.2.mpr ?_
  rw [hmtu]
  decide

/-- With an MTU of 548 a payload of the size of the MDU is cut. -/
theorem large_mdu_cut : ¬ ∀ (env : Env) (c : Primitives) (established : LinkState → Except String Unit)
    (fullHash : Bytes → Hash), env.ciphers.Lawful → (∀ n, (env.iv n).length = 16) → ∀ e, NewLink c fullHash e →
    ∀ inputs, (lifeRun env c established e inputs).link.status = .active →
      UsableSizes env (lifeRun env c established e inputs) := by
  intro h
  have hactive : (Sample.confirmed 548).link.status = .active := by decide +kernel
  have hmdu : (Sample.confirmed 548).link.mdu.toNat = 479 := by decide +kernel
  unfold Sample.confirmed at hactive hmdu
  have husable := h (Sample.plainEnv tailHash) samplePrimitives (fun _ => .ok ()) tailHash
    (Sample.plainEnv_lawful _) (fun _ => rfl) Sample.newlyRequested (Sample.newlyRequested_new _ _)
    [.proof (sampleArrival (Sample.confirmation 548))] hactive
  obtain ⟨p, hp, hdata, -⟩ := husable.packs ContextType.none (List.replicate 479 0) encrypted_none
    (by rw [hmdu, List.length_replicate])
  have hcut := congrArg List.length ((packFor_data hp).symm.trans hdata)
  rw [Bytes.left_length, List.length_replicate] at hcut
  exact absurd hcut (by decide)

end MicroReticulum.Link
