import MicroReticulum.Link.Sizes

/-!
# The session key of a closed link

`link_closed` clears the derived key, and so it does not clear the token that was made of it: `encrypt` and
`decrypt` make the token once and keep it. A link that is closed has made it, since the packet that closes a
link is encrypted or decrypted, and so is the packet with the round trip time, before anything behind it can
fail. So what a closed link still encrypts and decrypts depends on whether it ever had a key
(`closed_key_iff`).

That `send` and `receive` do nothing on a closed link does not depend on it.

Whether the bytes that are left in memory can be got at is not said: the module is about
what the functions still do.
-/

namespace MicroReticulum.Link

open MicroReticulum Packet Library

/-! ## Links without a usable key -/

/-- Nothing is encrypted or decrypted any more, and neither the key nor a token of it is left. -/
structure NoUsableKey (env : Env) (e : Endpoint) : Prop where
  encrypts : ∀ plaintext, ∃ error, (encrypt env plaintext e).1 = .thrown error
  decrypts : ∀ ciphertext, (decrypt env ciphertext e).1 = .value []
  token : e.link.token = none
  derivedKey : e.link.derivedKey = []

/-- Nothing is sent and nothing that comes in is looked at. -/
structure Silent (env : Env) (e : Endpoint) : Prop where
  sends : ∀ packetType context data, ∃ error, send env packetType context data e = (.thrown error, e)
  receives : ∀ packet receivingInterface rates, receive env packet receivingInterface rates e = (.value (), e)

/-- The link has no key and has made no token. -/
structure Keyless (l : LinkState) : Prop where
  token : l.token = none
  derivedKey : l.derivedKey = []

/-- The link has made a token, or it is open and can make one. -/
def Keyed (l : LinkState) : Prop :=
  l.token ≠ none
    ∨ ((l.derivedKey.length = 32 ∨ l.derivedKey.length = 64) ∧ l.status ≠ .pending ∧ l.status ≠ .closed)

section States

variable {env : Env} {e : Endpoint} {l : LinkState}

theorem Keyless.getToken (h : Keyless l) : ∃ error, l.getToken = .error error := by
  refine ⟨"Token key cannot be None", ?_⟩
  unfold LinkState.getToken newToken
  rw [h.token, h.derivedKey]
  rfl

theorem Keyless.noUsableKey (h : Keyless e.link) : NoUsableKey env e := by
  obtain ⟨error, hkey⟩ := h.getToken
  refine ⟨fun plaintext => ⟨error, ?_⟩, fun ciphertext => ?_, h.token, h.derivedKey⟩
  · unfold encrypt
    rw [Prog.get_bind_run, hkey]
    rfl
  · unfold decrypt
    rw [Prog.get_bind_run, hkey]
    rfl

theorem Keyed.token_of_closed (h : Keyed l) (hclosed : l.status = .closed) : l.token ≠ none :=
  h.resolve_right fun hopen => hopen.2.2 hclosed

/-- A closed link that was keyed encrypts whatever it is given. -/
theorem Keyed.encrypts (h : Keyed e.link) (hclosed : e.link.status = .closed) (plaintext : Bytes) :
    ∃ ciphertext, (encrypt env plaintext e).1 = .value ciphertext := by
  obtain ⟨token, htoken⟩ := Option.ne_none_iff_exists'.mp (h.token_of_closed hclosed)
  have hkey : e.link.getToken = .ok token := by
    unfold LinkState.getToken
    rw [htoken]
  unfold encrypt
  rw [Prog.get_bind_run, hkey]
  exact ⟨_, rfl⟩

theorem silent_of_closed (hclosed : e.link.status = .closed) : Silent env e := by
  refine ⟨fun packetType context data => ?_, fun packet receivingInterface rates => ?_⟩
  · unfold send
    rw [Prog.get_bind_run, Prog.bind_thrown (Prog.require_run_of_not (fun h => h hclosed) _ _)]
    exact ⟨_, rfl⟩
  · unfold receive
    rw [Prog.get_bind_run, Prog.when_of_not fun h => h.1 hclosed]
    rfl

end States

/-! ## Writes and link proofs -/

section Writes

variable {env : Env} {scope : Scope} {s t : Endpoint}

theorem Gentle.keyless (h : Gentle env scope s t) (hs : Keyless s.link) : Keyless t.link := by
  cases h
  case token token htoken =>
    refine ⟨?_, hs.derivedKey⟩
    obtain rfl | rfl := htoken
    · exact hs.token
    · obtain ⟨error, hkey⟩ := hs.getToken
      show s.link.getToken.toOption = none
      rw [hkey]
      rfl
  case purge => exact ⟨hs.token, rfl⟩
  all_goals exact ⟨hs.token, hs.derivedKey⟩

/-- No write gives a link a key. -/
theorem Write.keyless (h : Write env scope s t) (hs : Keyless s.link) : Keyless t.link := by
  cases h
  case gentle hg => exact hg.keyless hs
  all_goals exact hs

theorem Gentle.keyed (h : Gentle env scope s t) (hs : Keyed s.link) : Keyed t.link := by
  cases h
  case token token htoken =>
    obtain hmade | hopen := hs
    · left
      obtain rfl | rfl := htoken
      · exact hmade
      · obtain ⟨token, hsome⟩ := Option.ne_none_iff_exists'.mp hmade
        have hkey : s.link.getToken = .ok token := by
          unfold LinkState.getToken
          rw [hsome]
        show s.link.getToken.toOption ≠ none
        rw [hkey]
        exact Option.some_ne_none token
    · exact .inr hopen
  case activate => exact hs.imp_right fun hopen => ⟨hopen.1, Status.noConfusion, Status.noConfusion⟩
  case close hasked =>
    left
    obtain hmade | ⟨hsized, hpending, hclosed⟩ := hs
    · exact hmade
    · have hasked' := (hasked.resolve_left hpending).resolve_left hclosed
      obtain ⟨token, hkey⟩ := LinkState.getToken_of_sized hsized
      show s.link.token ≠ none
      rw [hasked', hkey]
      exact Option.some_ne_none token
  case purge hclosed => exact .inl (hs.token_of_closed hclosed)
  all_goals exact hs

/-- No write takes the token from a link, and a link that is closed has one. -/
theorem Write.keyed (h : Write env scope s t) (hs : Keyed s.link) : Keyed t.link := by
  cases h
  case gentle hg => exact hg.keyed hs
  all_goals exact hs

end Writes

section Proofs

variable {c : Primitives} {established : LinkState → Except String Unit} {l l' : LinkState} {a : Arrival}

/-- A handshake that fails derives no key. -/
theorem handshake_thrown {message : String} (h : handshake c l = (.thrown message, l')) :
    l'.token = l.token ∧ l'.derivedKey = l.derivedKey := by
  unfold handshake at h
  rw [Prog.get_bind_run] at h
  by_cases hstatus : l.status = .pending
  case neg =>
    rw [Prog.when_of_not hstatus] at h
    cases h
  rw [Prog.when_of hstatus, Prog.modify_bind_run] at h
  cases hshared : c.exchange l.prv l.peerPubBytes with
  | error e =>
    rw [hshared, Prog.bind_thrown (Prog.ofExcept_error_run _ _)] at h
    cases h
    exact ⟨rfl, rfl⟩
  | ok sharedKey =>
    rw [hshared, Prog.bind_value (Prog.ofExcept_ok_run _ _), Prog.modify_bind_run] at h
    cases hlength : derivedKeyLength l.mode with
    | error e =>
      rw [hlength, Prog.bind_thrown (Prog.ofExcept_error_run _ _)] at h
      cases h
      exact ⟨rfl, rfl⟩
    | ok n =>
      rw [hlength, Prog.bind_value (Prog.ofExcept_ok_run _ _)] at h
      cases hderived : c.hkdf n sharedKey l.linkId.toList [] with
      | error e =>
        rw [hderived, Prog.bind_thrown (Prog.ofExcept_error_run _ _)] at h
        cases h
        exact ⟨rfl, rfl⟩
      | ok derivedKey =>
        rw [hderived, Prog.bind_value (Prog.ofExcept_ok_run _ _)] at h
        cases h

/-- A token is not lost, and the key is the same. -/
structure KeepsKey (s t : LinkState) : Prop where
  token : s.token ≠ none → t.token ≠ none
  derivedKey : t.derivedKey = s.derivedKey

theorem KeepsKey.refl (s : LinkState) : KeepsKey s s := ⟨id, rfl⟩

theorem KeepsKey.trans (s t u : LinkState) (h : KeepsKey s t) (h' : KeepsKey t u) : KeepsKey s u :=
  ⟨fun hs => h'.token (h.token hs), h'.derivedKey.trans h.derivedKey⟩

theorem keepToken_keepsKey (s : LinkState) : KeepsKey s s.keepToken := by
  refine ⟨fun hs => ?_, rfl⟩
  obtain ⟨token, hsome⟩ := Option.ne_none_iff_exists'.mp hs
  have hkey : s.getToken = .ok token := by
    unfold LinkState.getToken
    rw [hsome]
  show s.getToken.toOption ≠ none
  rw [hkey]
  exact Option.some_ne_none token

/-- What `sendRtt` does behind its token. -/
def packRtt (c : Primitives) (a : Arrival) (l : LinkState) : Prog String LinkState Unit := do
  let _ ← Prog.ofExcept
    (pack (fun _ => linkEncrypt c l) (linkSpec l .data ContextType.lrrtt (c.packRtt l.rtt)))
  Prog.require (l.status ≠ .closed) "Attempt to transmit over a closed link"
  Prog.modify fun t =>
    { t with lastOutbound := a.now, tx := t.tx + 1
             txbytes := t.txbytes + UInt16.ofNat (c.packRtt l.rtt).length }

theorem packRtt_keepsKey (s : LinkState) : Prog.Keeps KeepsKey (packRtt c a s) :=
  .bind KeepsKey.trans (.ofExcept KeepsKey.refl _) fun _ => .bind KeepsKey.trans (.require KeepsKey.refl _ _)
    fun _ => .modify fun _ => ⟨id, rfl⟩

/-- The packet with the round trip time leaves a token behind, also when it cannot be made. -/
theorem sendRtt_token (hsized : l.derivedKey.length = 32 ∨ l.derivedKey.length = 64) :
    (sendRtt c a l).2.token ≠ none ∧ (sendRtt c a l).2.derivedKey = l.derivedKey := by
  have hrest : KeepsKey l.keepToken (packRtt c a l l.keepToken).2 := packRtt_keepsKey l l.keepToken
  obtain ⟨token, hkey⟩ := LinkState.getToken_of_sized hsized
  have hkept : l.keepToken.token ≠ none := by
    show l.getToken.toOption ≠ none
    rw [hkey]
    exact Option.some_ne_none token
  exact ⟨hrest.token hkept, hrest.derivedKey⟩

/-- Behind a valid signature a token is made, whatever happens then. -/
theorem establish_token {confirmedMtu : UInt16} (hstatus : l.status = .handshake)
    (hsized : l.derivedKey.length = 32 ∨ l.derivedKey.length = 64) :
    (establish c established a confirmedMtu l).2.token ≠ none
      ∧ (establish c established a confirmedMtu l).2.derivedKey = l.derivedKey := by
  obtain ⟨table, htable⟩ := activateLink_run (l := activated a confirmedMtu l) rfl
  obtain ⟨rate, hrate⟩ := updateEstablishmentRate_eq { activated a confirmedMtu l with table }
  unfold establish
  rw [Prog.get_bind_run, Prog.bind_value (Prog.require_run_of hstatus _ _), Prog.modify_bind_run,
    Prog.bind_value htable, Prog.modify_bind_run, hrate]
  generalize hu : ({ activated a confirmedMtu l with table, establishmentRate := rate } : LinkState) = u
  have hsame : u.derivedKey = l.derivedKey := by
    subst hu
    rfl
  obtain ⟨htoken, hderived⟩ := sendRtt_token (c := c) (a := a) (l := u) (by rw [hsame]; exact hsized)
  rw [hsame] at hderived
  rw [Prog.bind_run]
  rcases hrun : sendRtt c a u with ⟨_ | _ | _ | _, t⟩ <;> rw [hrun] at htoken hderived
  case value =>
    have hcallback : KeepsKey t ((Prog.get >>= fun l => Prog.ofExcept (established l)) t).2 :=
      Prog.Keeps.bind KeepsKey.trans (.get KeepsKey.refl) (fun _ => .ofExcept KeepsKey.refl _) t
    exact ⟨hcallback.token htoken, hcallback.derivedKey.trans hderived⟩
  all_goals exact ⟨htoken, hderived⟩

/-- What is behind the handshake: no key as before and an exception, or a key and a link that is open or has
made its token. -/
theorem checkProof_keys {payload : ProofPayload} {o : Outcome String Unit} (hstatus : l.status = .pending)
    (hl : Keyless l) (h : checkProof c established a payload l = (o, l')) :
    (Keyless l' ∧ ∃ message, o = .thrown message)
      ∨ ((l'.derivedKey.length = 32 ∨ l'.derivedKey.length = 64)
        ∧ (l'.token ≠ none ∨ (l'.status = .handshake ∧ o = .value ()))) := by
  unfold checkProof at h
  rw [Prog.get_bind_run, Prog.modify_bind_run, Prog.bind_run] at h
  obtain ⟨peer, hpeer⟩ : ∃ peer, loadPeer (payload.data.midLen siglength (ecpubsize / 2))
    (l.destinationPublicKey.midLen (ecpubsize / 2) (ecpubsize / 2)) l = peer := ⟨_, rfl⟩
  have hsame : peer.status = l.status ∧ peer.token = l.token ∧ peer.derivedKey = l.derivedKey := by
    subst hpeer
    exact ⟨rfl, rfl, rfl⟩
  rw [hpeer] at h
  rcases hrun : handshake c peer with ⟨_ | _ | message | _, l₁⟩ <;> rw [hrun] at h
  case thrown =>
    obtain ⟨htoken, hderived⟩ := handshake_thrown hrun
    cases h
    exact .inl ⟨⟨htoken.trans (hsame.2.1.trans hl.token), hderived.trans (hsame.2.2.trans hl.derivedKey)⟩,
      message, rfl⟩
  case value =>
    obtain ⟨-, hhandshook, hsized⟩ := handshake_keyed (hsame.1.trans hstatus) hrun
    refine .inr ?_
    dsimp only at h
    rw [Prog.modify_bind_run, Prog.get_bind_run] at h
    obtain ⟨-, hwhen⟩ | ⟨-, hwhen⟩ := Prog.when_run_cases
      (c.verify (l.destinationPublicKey.midLen (ecpubsize / 2) (ecpubsize / 2)) (payload.data.left siglength)
        ((addCost a.packet l₁).linkId.toList ++ (addCost a.packet l₁).peerPubBytes
          ++ (addCost a.packet l₁).peerSigPubBytes ++ payload.signalling))
      (establish c established a payload.confirmedMtu) (addCost a.packet l₁)
    · have hestablish : (establish c established a payload.confirmedMtu (addCost a.packet l₁)).2.token ≠ none
          ∧ (establish c established a payload.confirmedMtu (addCost a.packet l₁)).2.derivedKey = l₁.derivedKey :=
        establish_token hhandshook hsized
      rw [← hwhen, h] at hestablish
      obtain ⟨htoken, hderived⟩ := hestablish
      exact ⟨by rw [hderived]; exact hsized, .inl htoken⟩
    · rw [hwhen] at h
      cases h
      exact ⟨hsized, .inr ⟨hhandshook, rfl⟩⟩
  all_goals
    have hanswers : (∃ u, (handshake c peer).1 = .value u) ∨ ∃ message, (handshake c peer).1 = .thrown message :=
      handshake_answers c peer
    rw [hrun] at hanswers
    simp at hanswers

/-- A link proof leaves a link without a key, or with one. -/
theorem validateProof_keyless (hl : Keyless l) :
    Keyless (validateProof c established a l)
      ∨ (validateProof c established a l).derivedKey ≠ [] ∧ Keyed (validateProof c established a l) := by
  by_cases hstatus : l.status = .pending
  case neg =>
    rw [validateProof_of_not_pending hstatus]
    exact .inl hl
  have hclosed : ∀ message t, validateProofBody c established a l = (.thrown message, t) → Keyless t →
      Keyless (validateProof c established a l) := by
    intro message t hrun ht
    rw [validateProof_of_thrown hrun]
    exact ⟨ht.token, ht.derivedKey⟩
  by_cases hmode : modeFromLpPacket a.packet = l.mode
  case neg =>
    refine .inl (hclosed s!"Invalid link mode {(modeFromLpPacket a.packet).code} in link request proof" l ?_ hl)
    unfold validateProofBody
    rw [Prog.get_bind_run, Prog.when_of hstatus]
    exact Prog.bind_thrown (Prog.require_run_of_not hmode _ _)
  cases hpayload : proofPayload a.packet with
  | error message =>
    refine .inl (hclosed message l ?_ hl)
    unfold validateProofBody
    rw [Prog.get_bind_run, Prog.when_of hstatus, Prog.bind_value (Prog.require_run_of hmode _ _), hpayload]
    exact Prog.bind_thrown (Prog.ofExcept_error_run _ _)
  | ok payload =>
    have hbody : validateProofBody c established a l
        = Prog.when (l.initiator ∧ payload.data.length = proofSize) (checkProof c established a payload) l := by
      unfold validateProofBody
      rw [Prog.get_bind_run, Prog.when_of hstatus, Prog.bind_value (Prog.require_run_of hmode _ _), hpayload]
      rfl
    obtain ⟨-, hwhen⟩ | ⟨-, hwhen⟩ := Prog.when_run_cases (l.initiator ∧ payload.data.length = proofSize)
      (checkProof c established a payload) l
    case inr =>
      rw [validateProof_of_value (hbody.trans hwhen)]
      exact .inl hl
    rcases hrun : checkProof c established a payload l with ⟨o, t⟩
    rw [hrun] at hwhen
    obtain ⟨hkeyless, message, rfl⟩ | ⟨hsized, hhow⟩ := checkProof_keys hstatus hl hrun
    · exact .inl (hclosed message t (hbody.trans hwhen) hkeyless)
    have hne : t.derivedKey ≠ [] := by
      intro hnil
      rw [hnil] at hsized
      revert hsized
      decide
    obtain hmade | ⟨hhandshook, rfl⟩ := hhow
    · have hsame : (validateProof c established a l).token = t.token
          ∧ (validateProof c established a l).derivedKey = t.derivedKey := by
        unfold validateProof Prog.catching
        rw [hbody, hwhen]
        cases o <;> exact ⟨rfl, rfl⟩
      exact .inr ⟨by rw [hsame.2]; exact hne, .inl (by rw [hsame.1]; exact hmade)⟩
    · rw [validateProof_of_value (hbody.trans hwhen)]
      exact .inr ⟨hne, .inr ⟨hsized, by rw [hhandshook]; exact Status.noConfusion,
        by rw [hhandshook]; exact Status.noConfusion⟩⟩

/-- A token is not lost. -/
def KeepsToken (s t : LinkState) : Prop := s.token ≠ none → t.token ≠ none

/-- A link proof takes no token from a link. -/
theorem validateProof_keyed (hl : Keyed l) : Keyed (validateProof c established a l) := by
  by_cases hstatus : l.status = .pending
  case neg =>
    rw [validateProof_of_not_pending hstatus]
    exact hl
  have hmade : l.token ≠ none := hl.resolve_right fun hopen => hopen.2.1 hstatus
  left
  have hrefl : ∀ s, KeepsToken s s := fun _ => id
  have htrans : ∀ s t u, KeepsToken s t → KeepsToken t u → KeepsToken s u := fun _ _ _ h h' hs => h' (h hs)
  have hhandshake : Prog.Keeps KeepsToken (handshake c) :=
    .bind htrans (.get hrefl) fun _ => .when hrefl fun _ => .bind htrans (.modify fun _ => id) fun _ =>
      .bind htrans (.ofExcept hrefl _) fun _ => .bind htrans (.modify fun _ => id) fun _ =>
        .bind htrans (.ofExcept hrefl _) fun _ => .bind htrans (.ofExcept hrefl _) fun _ => .modify fun _ => id
  have hactivate : Prog.Keeps KeepsToken activateLink :=
    .bind htrans (.get hrefl) fun _ => .when hrefl fun _ => .bind htrans (.require hrefl _ _) fun _ =>
      .modify fun _ => id
  have hrate : ∀ s : LinkState, KeepsToken s (updateEstablishmentRate s) := by
    intro s hs
    obtain ⟨rate, hrate⟩ := updateEstablishmentRate_eq s
    rw [hrate]
    exact hs
  have hrtt : Prog.Keeps KeepsToken (sendRtt c a) :=
    .bind htrans (.get hrefl) fun s => .bind htrans (.modify fun t => (keepToken_keepsKey t).token) fun _ =>
      fun t => (packRtt_keepsKey s t).token
  have hestablish : ∀ mtu, Prog.Keeps KeepsToken (establish c established a mtu) := fun _ =>
    .bind htrans (.get hrefl) fun _ => .bind htrans (.require hrefl _ _) fun _ =>
      .bind htrans (.modify fun _ => id) fun _ => .bind htrans hactivate fun _ => .bind htrans (.modify hrate)
        fun _ => .bind htrans hrtt fun _ => .bind htrans (.get hrefl) fun _ => .ofExcept hrefl _
  have hbody : Prog.Keeps KeepsToken
      (Prog.catching (validateProofBody c established a) fun _ => Prog.modify (.setStatus .closed)) :=
    .catching htrans (.bind htrans (.get hrefl) fun _ => .when hrefl fun _ => .bind htrans (.require hrefl _ _)
      fun _ => .bind htrans (.ofExcept hrefl _) fun _ => .when hrefl fun _ => .bind htrans (.get hrefl) fun _ =>
        .bind htrans (.modify fun _ => id) fun _ => .bind htrans hhandshake fun _ =>
          .bind htrans (.modify fun _ => id) fun _ => .bind htrans (.get hrefl) fun _ =>
            .when hrefl fun _ => hestablish _) fun _ => .modify fun _ => id
  exact hbody l hmade

end Proofs

/-! ## Runs -/

/-- No state of the run had a derived key. -/
def NeverKeyed (env : Env) (c : Primitives) (established : LinkState → Except String Unit) (e : Endpoint)
    (inputs : List LifeInput) : Prop :=
  ∀ earlier, earlier <+: inputs → (lifeRun env c established e earlier).link.derivedKey = []

section Runs

variable {env : Env} {c : Primitives} {established : LinkState → Except String Unit} {fullHash : Bytes → Hash}
  {e : Endpoint}

/-- A run does not take the key from a link. -/
theorem lifeRun_keyed (hclean : e.Clean) (he : Keyed e.link) (inputs : List LifeInput) :
    Keyed (lifeRun env c established e inputs).link := by
  have hproof : ∀ a (t : Endpoint), Keyed t.link → Keyed (validateLinkProof c established a t).link := by
    intro a t ht
    rw [validateLinkProof_link]
    exact validateProof_keyed ht
  have hrun : Keyed (lifeRun env c established e inputs).link ∧ (lifeRun env c established e inputs).Clean :=
    lifeRun_invariant (P := fun e => Keyed e.link) (fun _ _ _ hw h => hw.keyed h) hproof hclean he inputs
  exact hrun.1

/-- In every state a link has no key, or it is keyed. -/
theorem lifeRun_keyless_or_keyed (hclean : e.Clean) (he : Keyless e.link ∨ Keyed e.link) (inputs : List LifeInput) :
    Keyless (lifeRun env c established e inputs).link ∨ Keyed (lifeRun env c established e inputs).link := by
  have hwrite : ∀ scope (t u : Endpoint), Write env scope t u → Keyless t.link ∨ Keyed t.link →
      Keyless u.link ∨ Keyed u.link :=
    fun _ _ _ hw => Or.imp hw.keyless hw.keyed
  have hproof : ∀ a (t : Endpoint), Keyless t.link ∨ Keyed t.link →
      Keyless (validateLinkProof c established a t).link ∨ Keyed (validateLinkProof c established a t).link := by
    intro a t ht
    rw [validateLinkProof_link]
    obtain hless | hkeyed := ht
    · exact (validateProof_keyless hless).imp_right And.right
    · exact .inr (validateProof_keyed hkeyed)
  have hrun : (Keyless (lifeRun env c established e inputs).link ∨ Keyed (lifeRun env c established e inputs).link)
      ∧ (lifeRun env c established e inputs).Clean :=
    lifeRun_invariant (P := fun e => Keyless e.link ∨ Keyed e.link) hwrite hproof hclean he inputs
  exact hrun.1

/-- A link that never had a key has none. -/
theorem NeverKeyed.keyless (hclean : e.Clean) (he : Keyless e.link) {inputs : List LifeInput}
    (hnever : NeverKeyed env c established e inputs) : Keyless (lifeRun env c established e inputs).link := by
  induction inputs using List.reverseRecOn with
  | nil => exact he
  | append_singleton inputs input ih =>
    have hless := ih fun earlier hearlier => hnever earlier (hearlier.trans (List.prefix_append _ _))
    have hlast := hnever _ (List.prefix_refl _)
    rw [lifeRun_concat] at hlast ⊢
    cases input with
    | handles input =>
      obtain ⟨hwrites, -⟩ := handle_writes env input (lifeRun_clean hclean inputs)
      exact Writes.invariant (P := fun e => Keyless e.link) (fun _ _ hw h => hw.keyless h) hwrites hless
    | proof a =>
      have hlink : (lifeStep env c established (lifeRun env c established e inputs) (.proof a)).link
          = validateProof c established a (lifeRun env c established e inputs).link := validateLinkProof_link ..
      rw [hlink] at hlast ⊢
      obtain hstill | ⟨hkey, -⟩ := validateProof_keyless hless
      · exact hstill
      · exact absurd hlast hkey

/-- A link that had a key is keyed. -/
theorem keyed_of_not_neverKeyed (hclean : e.Clean) (he : Keyless e.link ∨ Keyed e.link) {inputs : List LifeInput}
    (hkeyed : ¬ NeverKeyed env c established e inputs) : Keyed (lifeRun env c established e inputs).link := by
  unfold NeverKeyed at hkeyed
  push Not at hkeyed
  obtain ⟨earlier, ⟨later, rfl⟩, hkey⟩ := hkeyed
  have hthen : Keyed (lifeRun env c established e earlier).link :=
    (lifeRun_keyless_or_keyed hclean he earlier).resolve_left fun hless => hkey hless.derivedKey
  have happend : lifeRun env c established e (earlier ++ later)
      = lifeRun env c established (lifeRun env c established e earlier) later := List.foldl_append ..
  rw [happend]
  exact lifeRun_keyed (lifeRun_clean hclean earlier) hthen later

end Runs

/-- For every link and every run in which it was closed: nothing is sent or taken in any more. It has no usable
key exactly if no key was derived in the run, and otherwise it encrypts whatever it is given.
-/
theorem closed_key_iff (env : Env) (c : Primitives) (established : LinkState → Except String Unit)
    (fullHash : Bytes → Hash) (e : Endpoint) (hnew : NewLink c fullHash e)
    (hkey : e.link.initiator = true → Keyless e.link) (inputs : List LifeInput) (s : Endpoint)
    (hs : s = lifeRun env c established e inputs) (hclosed : s.link.status = .closed) :
    Silent env s ∧ (NoUsableKey env s ↔ NeverKeyed env c established e inputs)
      ∧ (¬ NeverKeyed env c established e inputs →
        ∀ plaintext, ∃ ciphertext, (encrypt env plaintext s).1 = .value ciphertext) := by
  subst hs
  have hclean : e.Clean := hnew.clean
  -- a link that was requested has no key yet, one that was accepted has
  have hstart : Keyless e.link ∨ e.link.derivedKey ≠ [] ∧ Keyed e.link := by
    rcases hnew.origin with ⟨hinitiator, -⟩ | ⟨keys, a, haccepted⟩
    · exact .inl (hkey hinitiator)
    · obtain ⟨hhandshook, hsized⟩ := validateRequest_keyed haccepted
      refine .inr ⟨fun hnil => ?_, .inr ⟨hsized, ?_, ?_⟩⟩
      · rw [hnil] at hsized
        revert hsized
        decide
      · rw [hhandshook]
        exact Status.noConfusion
      · rw [hhandshook]
        exact Status.noConfusion
  have hfrom : ¬ NeverKeyed env c established e inputs → Keyed (lifeRun env c established e inputs).link :=
    keyed_of_not_neverKeyed hclean (hstart.imp_right And.right)
  refine ⟨silent_of_closed hclosed, ⟨fun hunusable => ?_, fun hnever => ?_⟩, fun hkeyed => ?_⟩
  · by_contra hkeyed
    exact (hfrom hkeyed).token_of_closed hclosed hunusable.token
  · obtain hless | ⟨hkeyed, -⟩ := hstart
    · exact (hnever.keyless hclean hless).noUsableKey
    · exact absurd (hnever [] (List.nil_prefix)) hkeyed
  · exact (hfrom hkeyed).encrypts hclosed

namespace Sample

theorem newlyRequested_keyless : Keyless newlyRequested.link := ⟨rfl, rfl⟩

/-- A link that was confirmed and torn down. -/
def tornDown : Endpoint :=
  lifeRun (plainEnv tailHash) samplePrimitives (fun _ => .ok ()) newlyRequested
    [.proof (sampleArrival (confirmation 500)), .handles .teardown]

end Sample

/-- A link that is torn down before it is confirmed has no usable key. -/
theorem unconfirmed_link_keyless : NoUsableKey (Sample.plainEnv tailHash)
    (lifeRun (Sample.plainEnv tailHash) samplePrimitives (fun _ => .ok ()) Sample.newlyRequested [.handles .teardown]) := by
  obtain ⟨-, hiff, -⟩ := closed_key_iff (Sample.plainEnv tailHash) samplePrimitives (fun _ => .ok ()) tailHash
    Sample.newlyRequested (Sample.newlyRequested_new _ _) (fun _ => Sample.newlyRequested_keyless) [.handles .teardown] _
    rfl rfl
  refine hiff.mpr fun earlier hearlier => ?_
  obtain rfl | ⟨rest, rfl, hrest⟩ := List.prefix_cons_iff.mp hearlier
  · rfl
  · rw [List.prefix_nil.mp hrest]
    rfl

/-- A link that was confirmed and torn down still encrypts. -/
theorem torn_down_link_keeps_token : ¬ ∀ (env : Env) (c : Primitives) (established : LinkState → Except String Unit)
    (fullHash : Bytes → Hash) (e : Endpoint), NewLink c fullHash e → (e.link.initiator = true → Keyless e.link) →
    ∀ inputs s, s = lifeRun env c established e inputs → s.link.status = .closed → NoUsableKey env s := by
  intro h
  have hnone := (h (Sample.plainEnv tailHash) samplePrimitives (fun _ => .ok ()) tailHash Sample.newlyRequested
    (Sample.newlyRequested_new _ _) (fun _ => Sample.newlyRequested_keyless) _ Sample.tornDown rfl
    (by decide +kernel)).token
  have hkept : Sample.tornDown.link.token ≠ none := by decide +kernel
  exact hkept hnone

end MicroReticulum.Link
