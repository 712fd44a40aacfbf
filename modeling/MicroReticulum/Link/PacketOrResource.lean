import MicroReticulum.Link.SendRequest
import MicroReticulum.Link.Sizes

/-!
# Packet or resource

A request or a response goes into a packet if its envelope is no longer than `Link::MDU`, and becomes a resource
otherwise. That number belongs to the default MTU, whatever the MTU of the link is. `packet_or_resource_iff` says for
which envelopes the decision is right all the same: a short one has to fit the packet, and a longer one must not.

Whether the resource arrives is the matter of `Link.Exchange`.
-/

namespace MicroReticulum.Link

open MicroReticulum Packet Library Resource
open MicroReticulum.Transport (reticulumMdu)
open MicroReticulum.Library.Prog (Stays)

/-! ## The two forms -/

/-- No resource is made. -/
def ByPacket {α : Type} (m : Prog String Endpoint α) (e : Endpoint) : Prop := (m e).2.created = e.created

/-- The form that is chosen for an envelope fits the link: it is packed whole in a packet, if that is chosen, and a packet
is chosen if the envelope fits the MDU.
-/
structure FormFits {α : Type} (env : Env) (e : Endpoint) (m : Prog String Endpoint α) (context : ContextType)
    (envelope : Bytes) : Prop where
  packs : ByPacket m e → ∃ p, packFor env e .data context envelope = .ok p ∧ p.data = envelope
    ∧ p.raw.length ≤ e.link.mtu.toNat
  chosen : envelope.length ≤ e.link.mdu.toNat → ByPacket m e

/-- An envelope of `n` bytes that goes into a packet fits the MTU, and one that becomes a resource would not. With the
smallest MTU of an active link the MDU has wrapped around, and everything would fit it.
-/
def Decided (n mtu : Nat) : Prop :=
  if n ≤ linkMdu then wireSize n ≤ mtu else mtu ≤ wireSize n ∧ (mtu = 83 → 65535 < n)

section Forms

variable {env : Env} {e : Endpoint} {α : Type}

/-- A resource is made once and for all. -/
theorem created_lt_of_newResource (env : Env) {m : Nat → Prog String Endpoint α} (hclean : e.Clean)
    (hm : ∀ scope r t, Made scope r t → Moves env scope (m r) t fun _ _ => True) (data : Bytes) :
    e.created < ((newResource data >>= m) e).2.created := by
  have hmade : Moves env (Scope.of e (fun _ => False) none) (newResource data) e
      fun r t => Made (Scope.of e (fun _ => False) none) r t := newResource_moves data e
  obtain ⟨-, hend, hvalue⟩ := hmade ⟨Scope.of_bounds .., hclean⟩
  obtain ⟨t, hrun, hcreated⟩ : ∃ t, newResource data e = (.value e.created, t) ∧ t.created = e.created + 1 :=
    ⟨_, rfl, rfl⟩
  rw [hrun] at hend hvalue
  obtain ⟨hwrites, -, -⟩ := hm _ _ t (hvalue _ rfl) hend
  rw [Prog.bind_value hrun]
  have hle : t.created ≤ (m e.created t).2.created := Writes.created_le hwrites
  omega

theorem send_created (context : ContextType) (data : Bytes) :
    (send env .data context data e).2.created = e.created := by
  have hquiet : Quiet env e (send env .data context data e).2 := send_quiet (.inl PacketType.noConfusion) e
  obtain ⟨_, _, _, hsame⟩ := hquiet.same
  rw [hsame]

theorem byPacket_of_send {context : ContextType} {data : Bytes} {f : Packet → Prog String Endpoint α}
    (hf : ∀ p t, (f p t).2.created = t.created) : ByPacket (send env .data context data >>= f) e := by
  have hsent : (send env .data context data e).2.created = e.created := send_created context data
  unfold ByPacket
  rw [Prog.bind_run]
  rcases hrun : send env .data context data e with ⟨p | _ | _ | _, t⟩ <;> rw [hrun] at hsent
  case value => exact (hf p t).trans hsent
  all_goals exact hsent

theorem byPacket_ite_iff {c : Prop} [Decidable c] {m m' : Prog String Endpoint α} (h : ByPacket m e)
    (h' : ¬ ByPacket m' e) : ByPacket (if c then m else m') e ↔ c := by
  split
  case isTrue hc => exact iff_of_true h hc
  case isFalse hc => exact iff_of_false h' hc

/-- A request goes into a packet exactly up to `Link::MDU`. -/
theorem request_byPacket_iff (hclean : e.Clean) (path data : Bytes) :
    ByPacket (request env path data) e ↔ (packedRequest env e path data).length ≤ linkMdu := by
  refine byPacket_ite_iff (byPacket_of_send fun _ _ => rfl) fun hcreated => ?_
  refine (created_lt_of_newResource env hclean (fun scope r t hmade => ?_) _).ne hcreated.symm
  have hbook : Bookkeeping (t.resources r) { t.resources r with
      requestId := (truncatedHash env.fullHash (packedRequest env e path data)).toList } :=
    ⟨rfl, rfl, rfl, rfl, rfl, rfl, fun _ => rfl, id⟩
  refine Stays.modify_bind (gentle_ok fun _ _ => .keep t r _ hmade.touched hbook) ?_
  refine Stays.bind (start_moves (hmade.keep hbook)) fun _ u _ _ => ?_
  exact Stays.modify_bind (addReceipt_ok rfl u) (Stays.pure trivial)

/-- So does a response. -/
theorem respond_byPacket_iff (hclean : e.Clean) (requestId response : Bytes) :
    ByPacket (respond env requestId response) e ↔ (packResponseEnvelope env requestId response).length ≤ linkMdu := by
  refine byPacket_ite_iff (byPacket_of_send fun _ _ => rfl) fun hcreated => ?_
  refine (created_lt_of_newResource env hclean (fun scope r t hmade => ?_) _).ne hcreated.symm
  have hbook : Bookkeeping (t.resources r) { t.resources r with requestId, isResponse := true } :=
    ⟨rfl, rfl, rfl, rfl, rfl, rfl, fun _ => rfl, id⟩
  exact Stays.modify_bind (gentle_ok fun _ _ => .keep t r _ hmade.touched hbook) (start_moves (hmade.keep hbook))

end Forms

/-! ## The decision -/

section Decision

variable {env : Env} {e : Endpoint} {α : Type}

/-- The MDU of the smallest MTU has wrapped around. -/
theorem updateMdu_wraps {l : LinkState} (h : l.mtu.toNat = 83) : (updateMdu l).mdu.toNat = 65535 := by
  show (UInt16.ofInt _).toNat = _
  rw [h]
  decide

/-- Beyond the MDU is what does not fit the MTU. -/
theorem mdu_lt_iff {l : LinkState} (h : Established l) {n : Nat} :
    l.mdu.toNat < n ↔ l.mtu.toNat ≤ wireSize n ∧ (l.mtu.toNat = 83 → 65535 < n) := by
  have hproven : 83 ≤ l.mtu.toNat := h.proven
  have hmin : headerMinsize = 19 := rfl
  rw [h.mdu]
  unfold wireSize
  by_cases hlarge : 84 ≤ l.mtu.toNat
  · rw [updateMdu_toNat hlarge]
    omega
  · have hsmall : l.mtu.toNat = 83 := by omega
    rw [updateMdu_wraps hsmall]
    omega

/-- A program that chooses by the length alone fits the link exactly where the decision is right. -/
theorem formFits_iff {m : Prog String Endpoint α} {context : ContextType} {envelope : Bytes}
    (henv : env.ciphers.Lawful) (hiv : ∀ n, (env.iv n).length = 16) (hcontext : Encrypted context)
    (h : Established e.link) (hform : ByPacket m e ↔ envelope.length ≤ linkMdu) :
    FormFits env e m context envelope ↔ Decided envelope.length e.link.mtu.toNat := by
  obtain ⟨token, hkey⟩ := h.getToken
  have hwhole := packFor_whole_iff henv hiv hkey hcontext envelope
  have hlimit : linkMdu ≤ reticulumMdu := by decide
  unfold Decided
  split
  case isTrue hsmall =>
    constructor
    · intro hfits
      exact (hwhole.mp (hfits.packs (hform.mpr hsmall))).2
    · intro hmtu
      exact ⟨fun _ => hwhole.mpr ⟨hsmall.trans hlimit, hmtu⟩, fun _ => hform.mpr hsmall⟩
  case isFalse hlarge =>
    rw [← mdu_lt_iff h]
    constructor
    · intro hfits
      by_contra hle
      exact hlarge (hform.mp (hfits.chosen (Nat.not_lt.mp hle)))
    · intro hbeyond
      exact ⟨fun hpacket => absurd (hform.mp hpacket) hlarge, fun hle => absurd hle (Nat.not_le.mpr hbeyond)⟩

/-- Everything is decided right exactly around the default MTU. -/
theorem decided_iff {mtu : Nat} : (∀ n, Decided n mtu) ↔ 499 ≤ mtu ∧ mtu ≤ 515 := by
  have hmdu : linkMdu = 431 := rfl
  have hmin : headerMinsize = 19 := rfl
  unfold Decided wireSize
  constructor
  · intro h
    have hlast := h 431
    have hnext := h 432
    rw [if_pos (by omega)] at hlast
    rw [if_neg (by omega)] at hnext
    omega
  · rintro ⟨hlarge, hsmall⟩ n
    split <;> omega

end Decision

/-- For every link, every run and every request or response on the link where it is active: the form that is chosen fits
the link exactly if it is decided right, which it always is for an MTU from 499 to 515 and for no other.
-/
theorem packet_or_resource_iff (env : Env) (c : Primitives) (established : LinkState → Except String Unit)
    (fullHash : Bytes → Hash) (henv : env.ciphers.Lawful) (hiv : ∀ n, (env.iv n).length = 16) (e : Endpoint)
    (hnew : NewLink c fullHash e) (inputs : List LifeInput) (s : Endpoint) (hs : s = lifeRun env c established e inputs)
    (hactive : s.link.status = .active) :
    (∀ path data, FormFits env s (request env path data) ContextType.request (packedRequest env s path data)
        ↔ Decided (packedRequest env s path data).length s.link.mtu.toNat)
      ∧ (∀ requestId response,
        FormFits env s (respond env requestId response) ContextType.response (packResponseEnvelope env requestId response)
          ↔ Decided (packResponseEnvelope env requestId response).length s.link.mtu.toNat)
      ∧ ((∀ n, Decided n s.link.mtu.toNat) ↔ 499 ≤ s.link.mtu.toNat ∧ s.link.mtu.toNat ≤ 515) := by
  subst hs
  obtain ⟨hclean, h⟩ := hnew.established inputs hactive
  refine ⟨fun path data => ?_, fun requestId response => ?_, decided_iff⟩
  · exact formFits_iff henv hiv ⟨by decide, by decide, by decide, by decide⟩ h (request_byPacket_iff hclean path data)
  · exact formFits_iff henv hiv ⟨by decide, by decide, by decide, by decide⟩ h
      (respond_byPacket_iff hclean requestId response)

/-- With the default MTU an empty request goes into a packet that fits. -/
theorem default_mtu_decides : FormFits (Sample.plainEnv tailHash) (Sample.confirmed 500)
    (request (Sample.plainEnv tailHash) [] []) ContextType.request
    (packedRequest (Sample.plainEnv tailHash) (Sample.confirmed 500) [] []) := by
  have hmtu : (Sample.confirmed 500).link.mtu.toNat = 500 := by decide +kernel
  have hactive : (Sample.confirmed 500).link.status = .active := by decide +kernel
  obtain ⟨hrequest, -, hall⟩ := packet_or_resource_iff (Sample.plainEnv tailHash) samplePrimitives (fun _ => .ok ())
    tailHash (Sample.plainEnv_lawful _) (fun _ => rfl) Sample.newlyRequested (Sample.newlyRequested_new _ _)
    [.proof (sampleArrival (Sample.confirmation 500))] (Sample.confirmed 500) rfl hactive
  rw [hmtu] at hall
  exact (hrequest [] []).mpr (hmtu ▸ hall.mpr (by decide) _)

/-- With an MTU of 600 a request of 450 bytes fits the MDU, and becomes a resource. -/
theorem large_mtu_undecided : ¬ ∀ (env : Env) (c : Primitives) (established : LinkState → Except String Unit)
    (fullHash : Bytes → Hash), env.ciphers.Lawful → (∀ n, (env.iv n).length = 16) → ∀ e, NewLink c fullHash e →
    ∀ inputs s, s = lifeRun env c established e inputs → s.link.status = .active →
      ∀ path data, FormFits env s (request env path data) ContextType.request (packedRequest env s path data) := by
  intro h
  have hactive : (Sample.confirmed 600).link.status = .active := by decide +kernel
  have hnew := Sample.newlyRequested_new samplePrimitives tailHash
  have hfits := h (Sample.plainEnv tailHash) samplePrimitives (fun _ => .ok ()) tailHash (Sample.plainEnv_lawful _)
    (fun _ => rfl) Sample.newlyRequested hnew [.proof (sampleArrival (Sample.confirmation 600))] (Sample.confirmed 600)
    rfl hactive [] (List.replicate 450 0)
  have hclean : (Sample.confirmed 600).Clean := (validateLinkProof_only _ _).clean hnew.clean
  have hsize : (packedRequest (Sample.plainEnv tailHash) (Sample.confirmed 600) [] (List.replicate 450 0)).length = 478 := by
    decide +kernel
  have hmdu : (Sample.confirmed 600).link.mdu.toNat = 527 := by decide +kernel
  have hpacket := (request_byPacket_iff hclean _ _).mp (hfits.chosen (by rw [hsize, hmdu]; decide))
  rw [hsize] at hpacket
  exact absurd hpacket (by decide)

end MicroReticulum.Link
