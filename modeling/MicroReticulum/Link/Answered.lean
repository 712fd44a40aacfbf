import MicroReticulum.Link.Envelopes
import MicroReticulum.Link.FailedTransfers
import MicroReticulum.Link.PacketOrResource

/-!
# Requests and their answers

A request and its response travel each in a packet or as a resource, by the length of their envelopes. Whichever
way a request comes, the responder's generator is called with its payload and its id (`takeRequest_run`). A response
that comes as a resource is cut out of its envelope as it was packed. One that comes in a packet is read as a byte
string that `MsgPack` has packed: the receipt gets the content of it, and nothing of a value of another type.

`answered_iff` puts the two ends together. How a resource is transferred is not part of it: it begins with the payload
of the resource that has come.
-/

namespace MicroReticulum.Link

open MicroReticulum Packet Library Resource Cryptography
open MicroReticulum.Library.MsgPack (ArrayHeader Binary FloatValue)
open MicroReticulum.Transport (reticulumMdu)

/-! ## Two ends -/

/-- What the ends of a link have in common, and what is relied on in their libraries. -/
structure Peers (env env' : Env) : Prop where
  fullHash : env'.fullHash = env.fullHash
  ciphers : env'.ciphers = env.ciphers
  lawful : env.ciphers.Lawful
  iv : ∀ n, (env.iv n).length = 16
  iv' : ∀ n, (env'.iv n).length = 16
  packs : env.Packs
  packs' : env'.Packs
  /-- the clock gives a double -/
  now : ∀ n, ∃ f : FloatValue, f.form = .float64 ∧ f.number = env.now n

/-- The packet as it arrives, whatever has become of its hops and its transport header. -/
structure Copy (sent arrived : Packet) : Prop where
  hashable : getHashablePart arrived = getHashablePart sent
  data : ∃ q, unpack sent.raw = some q ∧ arrived.data = q.data

/-- What an envelope travels in. -/
inductive Carrier where
  | packet (arrived : Packet)
  | resource (r : Nat)

/-- What an end has sent has come to the other one: a copy of the packet if the envelope went into one, and a resource
that is complete otherwise.
-/
inductive Brings (env : Env) (e f : Endpoint) (context : ContextType) (envelope : Bytes) : Carrier → Prop
  | packet {sent arrived : Packet} : envelope.length ≤ linkMdu →
      packFor env e .data context envelope = .ok sent → Copy sent arrived →
      Brings env e f context envelope (.packet arrived)
  | resource {r : Nat} : linkMdu < envelope.length → r ∈ f.incomingResources →
      (f.resources r).status = .complete → (f.resources r).data = envelope → (f.resources r).requestId ≠ [] →
      ((f.resources r).isResponse = true ↔ context = ContextType.response) →
      Brings env e f context envelope (.resource r)

/-- The responder takes a request. -/
def takeRequest (env : Env) : Carrier → Prog String Endpoint Unit
  | .packet p => receiveRequest env p
  | .resource r => resourceConcluded env r

/-- The initiator takes a response. -/
def takeResponse (env : Env) : Carrier → Prog String Endpoint Unit
  | .packet p => receiveResponse env p
  | .resource r => resourceConcluded env r

/-- The link has got its token. -/
def withToken (token : Token) (f : Endpoint) : Endpoint := f.withLink fun l => { l with token := some token }

/-- What a response generator makes: one value of `MsgPack`, a byte string or a value of another type. -/
inductive Payload (env : Env) : Bytes → Prop
  | bin (b : Binary) : Payload env b.bytes
  | other {message : Bytes} : message ≠ [] → (∀ content rest, env.decode message ≠ .bin content :: rest) →
      Payload env message

/-- How a request calls a generator. -/
def callOf (f : Endpoint) (handler : RequestHandler) (requestId data : Bytes) (requestedAt : Double) :
    GeneratorCall where
  path := handler.path
  data
  requestId
  linkId := f.link.linkId
  remoteIdentity := f.link.remoteIdentity
  requestedAt

/-- The responder when its generator was called: the packet was decrypted, or the resource is no longer registered. -/
def generatorCalled (token : Token) (handler : RequestHandler) (call : GeneratorCall) (f : Endpoint) :
    Carrier → Endpoint
  | .packet _ => (withToken token f).note (.generated handler call f.link.status)
  | .resource r => (unregister r f).note (.generated handler call f.link.status)

/-- The responder has a generator that answers the request. -/
structure Serves (env : Env) (f : Endpoint) (path : Bytes) (handler : RequestHandler) (call : GeneratorCall)
    (response : Bytes) : Prop where
  active : f.link.status = .active
  found : f.requestHandlers.lookup (truncatedHash env.fullHash path).toList = some handler
  allowed : isAllowed env handler f.link.remoteIdentity = true
  answers : handler.responseGenerator call = .ok response

/-- A receipt of an active link waits for the response to the request with this id. -/
structure Awaits (g : Endpoint) (requestId : Bytes) (q : Nat) : Prop where
  active : g.link.status = .active
  first : (g.pendingRequests.find? fun q => (g.receipts q).requestId = requestId) = some q
  unfailed : (g.receipts q).status ≠ .failed

/-- The receipt has got exactly this response, and nothing else has changed among the requests. -/
structure AnsweredWith (g t : Endpoint) (q : Nat) (response : Bytes) : Prop where
  ready : (t.receipts q).status = .ready
  response : (t.receipts q).response = response
  id : (t.receipts q).requestId = (g.receipts q).requestId
  others : ∀ k ≠ q, t.receipts k = g.receipts k
  pending : t.pendingRequests = g.pendingRequests.filter (· ≠ q)

section Packets

variable {env env' : Env} {e f : Endpoint} {token : Token} {context : ContextType} {data : Bytes} {sent arrived : Packet}

theorem Peers.symm_lawful (hpeers : Peers env env') : env'.ciphers.Lawful := by
  rw [hpeers.ciphers]
  exact hpeers.lawful

/-- A packet that is read as it was sent is a copy. -/
theorem copy_of_unpack (hsent : packFor env e .data context data = .ok sent) (h : unpack sent.raw = some arrived) :
    Copy sent arrived := by
  have hheader : sent.headerType = .header1
      ∧ sent.raw.byte 0 = getPackedFlags (linkSpec e.link .data context (data.left reticulumMdu)) := by
    unfold packFor pack at hsent
    split at hsent
    case h_1 => cases hsent
    case h_2 =>
      dsimp only at hsent
      split at hsent
      case isTrue => cases hsent
      case isFalse =>
        cases hsent
        exact ⟨rfl, rfl⟩
  obtain ⟨hraw, -, -, htype, -, -⟩ := unpack_header h
  have hsame : arrived.headerType = sent.headerType := by
    rw [htype, hheader.2, hheader.1]
    exact getPackedFlags_header fun _ => TransportType.noConfusion
  refine ⟨?_, arrived, h, rfl⟩
  unfold getHashablePart
  rw [hraw, hsame]

/-- The other end decrypts what was sent. -/
theorem decrypt_copy (hlawful : env.ciphers.Lawful) (hiv : ∀ n, (env.iv n).length = 16)
    (hciphers : env'.ciphers = env.ciphers) (he : e.link.getToken = .ok token) (hf : f.link.getToken = .ok token)
    (hcontext : Encrypted context) (hshort : data.length ≤ reticulumMdu)
    (hsent : packFor env e .data context data = .ok sent) (hcopy : Copy sent arrived) :
    decrypt env' arrived.data f = (.value data, withToken token f) := by
  obtain ⟨c, q, hcarries, hunpack, -, -, hc⟩ := unpack_pack hsent rfl rfl
  obtain ⟨q', hunpack', hdata⟩ := hcopy.data
  cases hunpack.symm.trans hunpack'
  have hplain : ¬ Unencrypted (linkSpec e.link .data context (data.left reticulumMdu)) := by
    rintro (hproof | hwire)
    · exact hcontext.lrproof hproof
    · simp [plaintextOnWire, linkSpec, hcontext.resource, hcontext.keepalive, hcontext.cacheRequest] at hwire
  have hwhole : data.left reticulumMdu = data := List.take_of_length_le hshort
  have hencrypted := hcarries.2 hplain
  rw [he, hwhole] at hencrypted
  obtain rfl : tokenEncrypt env.ciphers token (env.iv e.draws) data = c := Except.ok.inj hencrypted
  have hopens : tokenDecrypt env.ciphers token (tokenEncrypt env.ciphers token (env.iv e.draws) data) = .ok data :=
    tokenDecrypt_tokenEncrypt hlawful token (hiv _) data
  unfold decrypt
  rw [Prog.get_bind_run, hf, hdata, hc, hciphers]
  dsimp only
  rw [hopens]
  rfl

/-- What fits a packet comes through. -/
theorem exists_brings (hlawful : env.ciphers.Lawful) (hiv : ∀ n, (env.iv n).length = 16)
    (he : e.link.getToken = .ok token) (hcontext : Encrypted context) (hsmall : data.length ≤ linkMdu)
    (hfits : wireSize data.length ≤ e.link.mtu.toNat) : ∃ arrived, Brings env e f context data (.packet arrived) := by
  have hlimit : linkMdu ≤ reticulumMdu := by decide
  obtain ⟨p, hp, -, -⟩ := (packFor_whole_iff hlawful hiv he hcontext data).mpr ⟨hsmall.trans hlimit, hfits⟩
  obtain ⟨c, q, -, hunpack, -⟩ := unpack_pack hp rfl rfl
  exact ⟨q, .packet hsmall hp (copy_of_unpack hp hunpack)⟩

end Packets

/-! ## The request -/

section Request

variable {env env' : Env} {e e₁ f : Endpoint} {number : Nat} {path data response : Bytes} {handler : RequestHandler}

/-- A packet that was sent was packed. -/
theorem packFor_of_send {context : ContextType} {p : Packet} {t : Endpoint}
    (h : send env .data context data e = (.value p, t)) : packFor env e .data context data = .ok p := by
  obtain ⟨message, token, -, hrun⟩ | ⟨p', token, hpacked, -, -, hrun⟩ := send_cases env .data context data e
  · rw [hrun] at h
    cases h
  · rw [hrun] at h
    cases h
    exact hpacked

/-- No request was made. -/
def SameRequested (s t : Endpoint) : Prop := t.requested = s.requested

theorem SameRequested.refl (s : Endpoint) : SameRequested s s := rfl

theorem SameRequested.trans (s t u : Endpoint) (h : SameRequested s t) (h' : SameRequested t u) : SameRequested s u :=
  Eq.trans h' h

theorem Quiet.sameRequested {s t : Endpoint} (h : Quiet env s t) : SameRequested s t := by
  obtain ⟨_, _, _, rfl⟩ := h.same
  rfl

open SameRequested (refl trans)

private theorem modify_requested {f : Endpoint → Endpoint} (hf : ∀ s, (f s).requested = s.requested) :
    Prog.Keeps SameRequested (Prog.modify f : Prog String Endpoint Unit) := .modify hf

private theorem send_requested (context : ContextType) (data : Bytes) :
    Prog.Keeps SameRequested (send env .data context data) :=
  fun s => (send_quiet (.inl PacketType.noConfusion) s).sameRequested

private theorem trySend_requested (context : ContextType) (data : Bytes) :
    Prog.Keeps SameRequested (trySend env .data context data) := fun s => (trySend_quiet _ _ s).sameRequested

theorem cancelTransfer_requested (r : Nat) : Prog.Keeps SameRequested (cancelTransfer env r) := by
  refine .bind trans (.get refl) fun e => .when refl fun _ => .bind trans (modify_requested fun _ => rfl) fun _ => ?_
  have hend : Prog.Keeps SameRequested (Prog.when ((e.resources r).concludedCallback = true)
      (Prog.modify fun e => (unregister r e).note (.concluded r .failed)) : Prog String Endpoint Unit) :=
    .when refl fun _ => modify_requested fun _ => rfl
  dsimp only
  split
  · exact .bind trans (.when refl fun _ => trySend_requested _ _) fun _ =>
      .bind trans (modify_requested fun _ => rfl) fun _ => hend
  · exact .bind trans (modify_requested fun _ => rfl) fun _ => hend

theorem teardown_requested : Prog.Keeps SameRequested (teardown env) := by
  refine .bind trans (.get refl) fun e => .bind trans (.when refl fun _ => ?_) fun _ =>
    .bind trans (modify_requested fun _ => rfl) fun _ => .bind trans (modify_requested fun _ => rfl) fun _ => ?_
  · exact .bind trans (send_requested _ _) fun _ => .pure refl _
  · exact .bind trans (.get refl) fun _ =>
      .bind trans (.forEach refl trans _ fun _ _ => cancelTransfer_requested _) fun _ =>
        .bind trans (.forEach refl trans _ fun _ _ => cancelTransfer_requested _) fun _ =>
          .bind trans (modify_requested fun _ => rfl) fun _ => modify_requested fun _ => rfl

theorem cancel_requested (r : Nat) : Prog.Keeps SameRequested (cancel env r) := by
  refine .bind trans (.get refl) fun e => .ite ?_ (cancelTransfer_requested r)
  exact .bind trans (modify_requested fun _ => rfl) fun _ =>
    .bind trans (.bind trans (.get refl) fun _ => trySend_requested _ _) fun _ => teardown_requested

/-- The job of an advertisement calls no generator. -/
theorem advertiseJob_requested (r : Nat) : Prog.Keeps SameRequested (advertiseJob env r) := by
  refine .bind trans (.get refl) fun e => .bind trans (modify_requested fun _ => rfl) fun _ => ?_
  split
  · exact .catching trans (.bind trans (send_requested _ _) fun _ => modify_requested fun _ => rfl)
      fun _ => cancel_requested r
  · exact modify_requested fun _ => rfl

theorem start_requested (r : Nat) : Prog.Keeps SameRequested (start env r) := by
  refine .bind trans (.get refl) fun e => .when refl fun _ => ?_
  refine .bind trans (modify_requested fun _ => rfl) fun _ => .bind trans (modify_requested fun _ => rfl) fun _ => ?_
  refine .bind trans (fun s => (encrypt_quiet _ s).sameRequested) fun _ => ?_
  refine .bind trans (modify_requested fun _ => rfl) fun _ => .bind trans (.get refl) fun _ => ?_
  exact .bind trans (.ofExcept refl _) fun _ => .bind trans (modify_requested fun _ => rfl) fun _ =>
    advertiseJob_requested r

/-- The id of a request: the hash of the packet its envelope went into, or that of the envelope. -/
structure RequestId (env : Env) (e : Endpoint) (envelope requestId : Bytes) : Prop where
  isHash : ∃ hash : Address, requestId = hash.toList
  ofPacket : envelope.length ≤ linkMdu → ∀ p, packFor env e .data ContextType.request envelope = .ok p →
    requestId = (getTruncatedHash env.fullHash p).toList
  ofResource : linkMdu < envelope.length → requestId = (truncatedHash env.fullHash envelope).toList

/-- What comes behind the resource of a request. -/
theorem request_by_resource (hlarge : linkMdu < (packedRequest env e path data).length)
    (h : request env path data e = (.value number, e₁)) : (e₁.receipts number).requestId
      = (truncatedHash env.fullHash (packedRequest env e path data)).toList := by
  have hrun : request env path data e = ((newResource (packedRequest env e path data)) >>= fun r => do
      Prog.modify (.withResource r fun d =>
        { d with requestId := (truncatedHash env.fullHash (packedRequest env e path data)).toList })
      start env r
      Prog.modify (.addReceipt
        { requestId := (truncatedHash env.fullHash (packedRequest env e path data)).toList
          requestSize := (packedRequest env e path data).length, hasPacketReceipt := false })
      pure e.requested : Prog String Endpoint Nat) e := by
    unfold request
    rw [Prog.get_bind_run]
    exact congrFun (if_neg (Nat.not_le.mpr hlarge)) e
  rw [hrun] at h
  obtain ⟨r, t, hnew, h⟩ := Prog.exists_of_bind_value h
  cases hnew
  rw [Prog.modify_bind_run] at h
  obtain ⟨_, u, hstart, h⟩ := Prog.exists_of_bind_value h
  have hcounted : SameRequested _ u := (start_requested _).of_value hstart
  have hsame : u.requested = e.requested := hcounted
  rw [Prog.modify_bind_run] at h
  cases h
  rw [← hsame, addReceipt_self]

/-- The receipt of a request has the id that its packet or its resource stands for. -/
theorem request_id (h : request env path data e = (.value number, e₁)) :
    RequestId env e (packedRequest env e path data) (e₁.receipts number).requestId := by
  obtain hlarge | hsmall := Nat.lt_or_ge linkMdu (packedRequest env e path data).length
  · have hid := request_by_resource hlarge h
    exact ⟨⟨_, hid⟩, fun hsmall => absurd hsmall (Nat.not_le.mpr hlarge), fun _ => hid⟩
  · rw [request_small env hsmall] at h
    obtain ⟨p, t, hsend, h⟩ := Prog.exists_of_bind_value h
    have hpacked := packFor_of_send hsend
    have hsent : SameRequested e t := (send_requested _ _).of_value hsend
    have hsame : t.requested = e.requested := hsent
    cases h
    rw [← hsame, addReceipt_self]
    refine ⟨⟨_, rfl⟩, fun _ p' hp' => ?_, fun hlarge => absurd hsmall (Nat.not_le.mpr hlarge)⟩
    cases hpacked.symm.trans hp'
    rfl

/-- A hash is a byte string for `MsgPack`. -/
def hashValue (hash : Address) : Binary :=
  Binary.ofContent hash.toList (by rw [hash.toList_length]; decide)

theorem hashValue_length (hash : Address) : (hashValue hash).bytes.length = 18 := by
  have hid : (hashValue hash).content.length = 16 := hash.toList_length
  have hform : (hashValue hash).form = .bin8 := by
    show MsgPack.BinaryForm.shortest hash.toList.length = _
    rw [hash.toList_length]
    decide
  rw [Binary.bytes_length, hid, hform]
  rfl

/-- An envelope that can be packed is sent. -/
theorem exists_request {p : Packet} (hopen : e.link.status ≠ .closed)
    (hsmall : (packedRequest env e path data).length ≤ linkMdu)
    (hpacked : packFor env e .data ContextType.request (packedRequest env e path data) = .ok p) :
    ∃ e₁, request env path data e = (.value e.requested, e₁) := by
  have hsent : (send env .data ContextType.request (packedRequest env e path data) e).1 = .value p := by
    unfold send outbound
    rw [Prog.get_bind_run, Prog.bind_value (Prog.require_run_of hopen _ _), Prog.modify_bind_run, hpacked,
      Prog.bind_value (Prog.ofExcept_ok_run _ _), Prog.modify_bind_run]
    by_cases htaken : env.transmits (e.draws + 1) = true <;>
      simp [Prog.bind_run, Prog.when, Endpoint.withLink, htaken]
  exact ⟨_, request_by_packet env hsmall (Prod.ext hsent rfl)⟩

/-- The envelope is longer than its payload by 28 bytes. -/
theorem packedRequest_length (hpeers : Peers env env') : (packedRequest env e path data).length = 28 + data.length := by
  obtain ⟨timestamp, hform, hnow⟩ := hpeers.now e.draws
  obtain ⟨g, hg, -, hpacked⟩ := hpeers.packs.encode_float timestamp hform
  have harray : env.encode [.arr 3, .float timestamp.number, .bin (truncatedHash env.fullHash path).toList] = _ :=
    hpeers.packs.encode_array ⟨.fixarray, 3, by decide⟩ _ rfl
  have hbinary : env.encode [.bin (truncatedHash env.fullHash path).toList] = _ :=
    hpeers.packs.encode_binary (hashValue (truncatedHash env.fullHash path)) [] rfl
  unfold packedRequest packRequestEnvelope
  rw [← hnow, harray, hpacked, hbinary, hpeers.packs.encode_nil]
  simp only [List.length_append, FloatValue.bytes_length, hg, hashValue_length, List.length_nil]
  rfl

/-- The responder reads the request as it was packed. -/
theorem packedRequest_read (hpeers : Peers env env') : unpackRequestEnvelope env' (packedRequest env e path data)
    = some
        { requestedAt := env.now e.draws, pathHash := (truncatedHash env.fullHash path).toList
          requestData := data } := by
  obtain ⟨timestamp, hform, hnow⟩ := hpeers.now e.draws
  obtain ⟨g, hnumber, hpacked⟩ := packRequestEnvelope_bytes hpeers.packs timestamp hform
    (hashValue (truncatedHash env.fullHash path)) data
  obtain ⟨raw, hunpacked, hcut⟩ := requestEnvelope_cut hpeers.packs' ⟨.fixarray, 3, by decide⟩ (Nat.le_refl 3) g
    (hashValue (truncatedHash env.fullHash path)) data
  have hpacked : packRequestEnvelope env timestamp.number (truncatedHash env.fullHash path).toList data = _ := hpacked
  unfold packedRequest
  rw [← hnow, hpacked, ← hnumber]
  exact hunpacked.trans (by rw [hcut.mpr ⟨rfl, rfl⟩]; rfl)

/-- A request that the responder serves. -/
theorem handleRequest_run {requestId : Bytes} {request : ResourceRequest}
    (hpath : request.pathHash = (truncatedHash env.fullHash path).toList)
    (hserves : Serves env f path handler (callOf f handler requestId request.requestData request.requestedAt) response)
    (hresponse : response ≠ []) : handleRequest env requestId request f = respond env requestId response
      (f.note
        (.generated handler (callOf f handler requestId request.requestData request.requestedAt) f.link.status)) := by
  unfold handleRequest
  rw [Prog.get_bind_run, Prog.when_of hserves.active, hpath, hserves.found]
  dsimp only
  rw [Prog.when_of hserves.allowed, Prog.modify_bind_run]
  have hanswers : handler.responseGenerator
      { path := handler.path, data := request.requestData, requestId, linkId := f.link.linkId
        remoteIdentity := f.link.remoteIdentity, requestedAt := request.requestedAt } = .ok response := hserves.answers
  rw [hanswers, Prog.bind_value (Prog.ofExcept_ok_run _ _), Prog.when_of hresponse]
  rfl

/-- A complete resource of a request or a response is handed on. -/
theorem resourceConcluded_run {r : Nat} (hmem : r ∈ f.incomingResources) (hcomplete : (f.resources r).status = .complete)
    (hid : (f.resources r).requestId ≠ []) : resourceConcluded env r f
      = (if (f.resources r).isResponse then responseResourceConcluded env r else requestResourceConcluded env r)
        (unregister r f) := by
  unfold resourceConcluded
  rw [Prog.get_bind_run, Prog.modify_bind_run, Prog.when_of ⟨hmem, hcomplete, hid⟩]

/-- Behind the call of the generator the token is the same. -/
theorem generatorCalled_token {token : Token} (hf : f.link.getToken = .ok token) (handler : RequestHandler)
    (call : GeneratorCall) (c : Carrier) : (generatorCalled token handler call f c).link.getToken = .ok token := by
  cases c with
  | packet => rfl
  | resource => exact hf

/-- The request has come to a responder that serves it: its generator is called with the payload and the id of the
request, and its response is sent.
-/
theorem takeRequest_run {token : Token} {c : Carrier} {requestId : Bytes} (hpeers : Peers env env')
    (he : e.link.getToken = .ok token) (hf : f.link.getToken = .ok token)
    (hid : RequestId env e (packedRequest env e path data) requestId)
    (hbrings : Brings env e f ContextType.request (packedRequest env e path data) c)
    (hserves : Serves env' f path handler (callOf f handler requestId data (env.now e.draws)) response)
    (hresponse : response ≠ []) : (takeRequest env' c f).2 = (respond env' requestId response
      (generatorCalled token handler (callOf f handler requestId data (env.now e.draws)) f c)).2 := by
  have hread : unpackRequestEnvelope env' (packedRequest env e path data) = _ := packedRequest_read hpeers
  have hpath : (truncatedHash env.fullHash path).toList = (truncatedHash env'.fullHash path).toList := by
    rw [hpeers.fullHash]
  cases hbrings with
  | @packet sent arrived hsmall hsent hcopy =>
    have hwhole : linkMdu ≤ reticulumMdu := by decide
    have hdecrypt := decrypt_copy hpeers.lawful hpeers.iv hpeers.ciphers he hf
      ⟨by decide, by decide, by decide, by decide⟩ (hsmall.trans hwhole) hsent hcopy
    have hnonempty : packedRequest env e path data ≠ [] := by
      intro hnil
      rw [hnil] at hread
      cases hread
    have hid' : (getTruncatedHash env'.fullHash arrived).toList = requestId := by
      unfold getTruncatedHash
      rw [hcopy.hashable, hpeers.fullHash]
      exact (hid.ofPacket hsmall sent hsent).symm
    show (receiveRequest env' arrived f).2 = _
    unfold receiveRequest
    rw [Prog.catching_pure_state _ (fun _ => ()), Prog.bind_value hdecrypt, Prog.when_of hnonempty, hread, hid']
    dsimp only
    have hserves' : Serves env' (withToken token f) path handler
        (callOf (withToken token f) handler requestId data (env.now e.draws)) response :=
      ⟨hserves.active, hserves.found, hserves.allowed, hserves.answers⟩
    exact congrArg Prod.snd (handleRequest_run hpath hserves' hresponse)
  | @resource r hlarge hmem hcomplete hdata hid' hrequest =>
    have hanswer : (f.resources r).isResponse = false := by
      rw [Bool.eq_false_iff]
      intro hresponse
      exact absurd (hrequest.mp hresponse) (by decide)
    have hserves' : Serves env' (unregister r f) path handler
        (callOf (unregister r f) handler requestId data (env.now e.draws)) response :=
      ⟨hserves.active, hserves.found, hserves.allowed, hserves.answers⟩
    show (resourceConcluded env' r f).2 = _
    have hconcluded : resourceConcluded env' r f = requestResourceConcluded env' r (unregister r f) :=
      (resourceConcluded_run hmem hcomplete hid').trans (by rw [hanswer]; rfl)
    have hkept : (unregister r f).resources r = f.resources r := rfl
    have hhash : (truncatedHash env'.fullHash (packedRequest env e path data)).toList = requestId := by
      rw [hpeers.fullHash]
      exact (hid.ofResource hlarge).symm
    rw [hconcluded]
    unfold requestResourceConcluded
    rw [Prog.get_bind_run, hkept, Prog.when_of hcomplete, hdata, hread, hhash]
    exact congrArg Prod.snd (handleRequest_run hpath hserves' hresponse)

end Request

/-! ## The response -/

section Response

variable {env env' : Env} {f g : Endpoint} {q : Nat} {response : Bytes}

/-- The response is noted in a receipt that has not failed. -/
theorem responseReceived_run (h : (g.receipts q).status ≠ .failed) (response : Bytes) :
    responseReceived q response g
      = (.value (), (g.withReceipt q fun receipt => { receipt with response, status := .ready }).note (.answered q)) := by
  unfold responseReceived
  rw [Prog.get_bind_run, Prog.when_of h]
  rfl

/-- A response that is waited for goes to the receipt as it is handed over. -/
theorem handleResponse_answers {requestId responseData : Bytes} (h : Awaits g requestId q) (size transferSize : Nat) :
    AnsweredWith g (handleResponse requestId responseData size transferSize g).2 q responseData := by
  let sized : RequestReceipt → RequestReceipt := fun receipt =>
    { receipt with responseSize := size, responseTransferSize := receipt.responseTransferSize + transferSize }
  let ready : RequestReceipt → RequestReceipt := fun receipt =>
    { receipt with response := responseData, status := .ready }
  have hunfailed : ((g.withReceipt q sized).receipts q).status ≠ .failed := by
    rw [withReceipt_self]
    exact h.unfailed
  have hrun : (handleResponse requestId responseData size transferSize g).2
      = { ((g.withReceipt q sized).withReceipt q ready).note (.answered q) with
          pendingRequests := g.pendingRequests.filter (· ≠ q) } := by
    unfold handleResponse
    rw [Prog.get_bind_run, Prog.when_of h.active, h.first]
    dsimp only
    rw [Prog.modify_bind_run, Prog.bind_value (responseReceived_run hunfailed responseData)]
    rfl
  have hself : ((g.withReceipt q sized).withReceipt q ready).receipts q = ready (sized (g.receipts q)) := by
    rw [withReceipt_self, withReceipt_self]
  have hothers : ∀ k ≠ q, ((g.withReceipt q sized).withReceipt q ready).receipts k = g.receipts k := by
    intro k hk
    rw [withReceipt_of_ne hk, withReceipt_of_ne hk]
  have hid : (ready (sized (g.receipts q))).requestId = (g.receipts q).requestId := rfl
  rw [hrun]
  exact ⟨congrArg RequestReceipt.status hself, congrArg RequestReceipt.response hself,
    (congrArg RequestReceipt.requestId hself).trans hid, hothers, rfl⟩

/-- What the receipt gets of a response. -/
def receivedOf (env : Env) (response : Bytes) : Carrier → Bytes
  | .packet _ => (Advertisement.readBin (env.decode response)).1
  | .resource _ => response

/-- The response envelope, in the shortest forms. -/
theorem packedResponse_bytes (henv : env.Packs) (requestId : Address) (response : Bytes) :
    packResponseEnvelope env requestId.toList response
      = (ArrayHeader.mk .fixarray 2 (by decide)).bytes ++ (hashValue requestId).bytes ++ response :=
  packResponseEnvelope_bytes henv (hashValue requestId) response

/-- The envelope is longer than its payload by 19 bytes. -/
theorem packedResponse_length (henv : env.Packs) (requestId : Address) (response : Bytes) :
    (packResponseEnvelope env requestId.toList response).length = 19 + response.length := by
  rw [packedResponse_bytes henv, List.length_append, List.length_append, hashValue_length]
  rfl

/-- The initiator reads the response by the kind of carrier it has come in. -/
theorem takeResponse_answers {token : Token} {c : Carrier} {requestId : Address} (hpeers : Peers env env')
    (hf : f.link.getToken = .ok token) (hg : g.link.getToken = .ok token) (h : Awaits g requestId.toList q)
    (hbrings : Brings env' f g ContextType.response (packResponseEnvelope env' requestId.toList response) c) :
    AnsweredWith g (takeResponse env c g).2 q (receivedOf env response c) := by
  have hbytes := packedResponse_bytes hpeers.packs' requestId response
  cases hbrings with
  | @packet sent arrived hsmall hsent hcopy =>
    have hwhole : linkMdu ≤ reticulumMdu := by decide
    have hdecrypt := decrypt_copy hpeers.symm_lawful hpeers.iv' hpeers.ciphers.symm hf hg
      ⟨by decide, by decide, by decide, by decide⟩ (hsmall.trans hwhole) hsent hcopy
    have hnonempty : packResponseEnvelope env' requestId.toList response ≠ [] := by
      apply List.ne_nil_of_length_pos
      rw [packedResponse_length hpeers.packs']
      omega
    have hdecode : env.decode (packResponseEnvelope env' requestId.toList response)
        = .arr 2 :: .bin requestId.toList :: env.decode response := by
      rw [hbytes, List.append_assoc, hpeers.packs.decode_array, hpeers.packs.decode_binary]
      rfl
    have hread : fromArray (env.decode (packResponseEnvelope env' requestId.toList response))
        = (requestId.toList, (Advertisement.readBin (env.decode response)).1) := by
      rw [hdecode]
      rfl
    have hrun : ∃ size, (takeResponse env (.packet arrived) g).2 = (handleResponse requestId.toList
        (Advertisement.readBin (env.decode response)).1 size size (withToken token g)).2 := by
      refine ⟨(env.encode [.bin (Advertisement.readBin (env.decode response)).1]).length - 2, ?_⟩
      show (receiveResponse env arrived g).2 = _
      unfold receiveResponse
      rw [Prog.catching_pure_state _ (fun _ => ()), Prog.bind_value hdecrypt, Prog.when_of hnonempty, hread]
    obtain ⟨size, hrun⟩ := hrun
    have hawaits : Awaits (withToken token g) requestId.toList q := ⟨h.active, h.first, h.unfailed⟩
    obtain ⟨hready, hresponse, hid, hothers, hpending⟩ := handleResponse_answers hawaits size size
    rw [hrun]
    exact ⟨hready, hresponse, hid, hothers, hpending⟩
  | @resource r hlarge hmem hcomplete hdata hid hrequest =>
    obtain ⟨raw, hunpacked, hcut⟩ := responseEnvelope_cut hpeers.packs ⟨.fixarray, 2, by decide⟩ (Nat.le_refl 2)
      (hashValue requestId) response
    obtain rfl : raw = response := hcut.mpr ⟨rfl, rfl⟩
    have hread : unpackResponseEnvelope env (g.resources r).data = some (requestId.toList, raw) := by
      rw [hdata, hbytes]
      exact hunpacked
    have hrun : takeResponse env (.resource r) g = handleResponse requestId.toList raw
        (g.resources r).totalSize (g.resources r).size (unregister r g) := by
      have hkept : (unregister r g).resources r = g.resources r := rfl
      refine (resourceConcluded_run hmem hcomplete hid).trans ?_
      rw [if_pos (hrequest.mpr rfl)]
      unfold responseResourceConcluded
      rw [Prog.get_bind_run, hkept, if_pos hcomplete, hread]
    have hawaits : Awaits (unregister r g) requestId.toList q := ⟨h.active, h.first, h.unfailed⟩
    obtain ⟨hready, hresponse, hid', hothers, hpending⟩ :=
      handleResponse_answers hawaits (g.resources r).totalSize (g.resources r).size
    rw [hrun]
    exact ⟨hready, hresponse, hid', hothers, hpending⟩

/-- A response that is packed is not empty. -/
theorem Payload.ne_nil (h : Payload env response) : response ≠ [] := by
  cases h with
  | bin b => exact List.cons_ne_nil _ _
  | other hne hnone => exact hne

/-- A payload is no byte string of itself. -/
theorem Payload.readBin_ne (henv : env.Packs) (h : Payload env response) :
    (Advertisement.readBin (env.decode response)).1 ≠ response := by
  cases h with
  | bin b =>
    have hdecode := henv.decode_binary b []
    rw [List.append_nil] at hdecode
    rw [hdecode]
    intro hsame
    have hlength := congrArg List.length hsame
    rw [Binary.bytes_length] at hlength
    have hcontent : (Advertisement.readBin (.bin b.content :: env.decode [])).1 = b.content := rfl
    rw [hcontent] at hlength
    omega
  | other hne hnone =>
    have hnil : (Advertisement.readBin (env.decode response)).1 = [] := by
      unfold Advertisement.readBin
      split
      · rename_i content rest hdecode
        exact absurd hdecode (hnone content rest)
      · rfl
    rw [hnil]
    exact Ne.symm hne

end Response

/-- For every request that comes to a responder with a generator for it, in a packet or as a resource: the generator is
called with the payload of the request and the id of its receipt, and what it makes is sent. When the response comes to
the initiator while a receipt waits for it, the receipt gets exactly what the generator has made, and no other one
changes, if and only if the response is longer than 412 bytes and so comes as a resource.
-/
theorem answered_iff (env env' : Env) (hpeers : Peers env env') (e f : Endpoint) (token : Token)
    (he : e.link.getToken = .ok token) (hf : f.link.getToken = .ok token) (path data : Bytes) (number : Nat)
    (e₁ : Endpoint) (hrequest : request env path data e = (.value number, e₁)) (requestId : Bytes)
    (hid : requestId = (e₁.receipts number).requestId) (c : Carrier)
    (hbrings : Brings env e f ContextType.request (packedRequest env e path data) c) (handler : RequestHandler)
    (response : Bytes)
    (hserves : Serves env' f path handler (callOf f handler requestId data (env.now e.draws)) response)
    (hpayload : Payload env response) (f' : Endpoint)
    (hcalled : f' = generatorCalled token handler (callOf f handler requestId data (env.now e.draws)) f c) :
    (takeRequest env' c f).2 = (respond env' requestId response f').2
      ∧ ∀ (g : Endpoint) (q : Nat) (c' : Carrier), g.link.getToken = .ok token → Awaits g requestId q →
        Brings env' f' g ContextType.response (packResponseEnvelope env' requestId response) c' →
        (AnsweredWith g (takeResponse env c' g).2 q response ↔ 412 < response.length) := by
  subst hid hcalled
  have hid := request_id hrequest
  obtain ⟨hash, hhash⟩ := hid.isHash
  refine ⟨takeRequest_run hpeers he hf hid hbrings hserves hpayload.ne_nil, fun g q c' hg hawaits hbrought => ?_⟩
  rw [hhash] at hawaits hbrought
  have hanswered := takeResponse_answers hpeers (generatorCalled_token hf _ _ c) hg hawaits hbrought
  have hlength := packedResponse_length hpeers.packs' hash response
  have hmdu : linkMdu = 431 := rfl
  cases hbrought with
  | packet hsmall =>
    refine iff_of_false (fun hexact => ?_) (by omega)
    exact hpayload.readBin_ne hpeers.packs (hanswered.response.symm.trans hexact.response)
  | resource hlarge => exact iff_of_true hanswered (by omega)

namespace Sample

/-- A handler that answers every request alike. -/
def answering (response : Bytes) : RequestHandler where
  path := [1]
  responseGenerator _ := .ok response
  allow := .allowAll
  allowedList := []

/-- A responder with this handler. -/
def serving (response : Bytes) : Endpoint where
  link := link false
  requestHandlers := [((truncatedHash tailHash [1]).toList, answering response)]

/-- An initiator. -/
def asking : Endpoint where
  link := link true

/-- The initiator that waits for the response to one request, of which a resource has come. -/
def awaiting (requestId response : Bytes) : Endpoint where
  link := link true
  resources _ :=
    { status := .complete, isResponse := true, requestId, data := packResponseEnvelope packingEnv requestId response }
  created := 1
  incomingResources := [0]
  receipts _ := { requestId, requestSize := 28, hasPacketReceipt := true }
  requested := 1
  pendingRequests := [0]

theorem awaiting_awaits (requestId response : Bytes) : Awaits (awaiting requestId response) requestId 0 where
  active := rfl
  first := by simp [awaiting]
  unfailed := ReceiptStatus.noConfusion

theorem packingEnv_peers : Peers packingEnv packingEnv where
  fullHash := rfl
  ciphers := rfl
  lawful := plainEnv_lawful tailHash
  iv _ := rfl
  iv' _ := rfl
  packs := packingEnv_packs
  packs' := packingEnv_packs
  now n := ⟨⟨.float64, 0, by decide⟩, rfl, (by decide +kernel : _ = Library.Double.fin 0)⟩

theorem serving_serves (response requestId : Bytes) (at_ : Double) :
    Serves packingEnv (serving response) [1] (answering response)
    (callOf (serving response) (answering response) requestId [] at_) response :=
  ⟨rfl, rfl, rfl, rfl⟩

theorem exists_token : ∃ token, (link true).getToken = .ok token :=
  (link true).getToken_of_sized (.inr List.length_replicate)

theorem asked_length : (packedRequest packingEnv asking [1] []).length = 28 :=
  packedRequest_length packingEnv_peers

/-- The request of the sample comes through. -/
theorem exists_asked (response : Bytes) : ∃ number e₁ arrived, request packingEnv [1] [] asking = (.value number, e₁)
    ∧ Brings packingEnv asking (serving response) ContextType.request (packedRequest packingEnv asking [1] [])
      (.packet arrived) := by
  obtain ⟨token, htoken⟩ := exists_token
  obtain ⟨arrived, hbrings⟩ := @exists_brings packingEnv asking (serving response) token ContextType.request
    (packedRequest packingEnv asking [1] []) packingEnv_peers.lawful packingEnv_peers.iv htoken
    ⟨by decide, by decide, by decide, by decide⟩ (by rw [asked_length]; decide) (by rw [asked_length]; decide)
  cases hbrings with
  | packet hsmall hsent hcopy =>
    obtain ⟨e₁, hrequest⟩ := exists_request (e := asking) (by decide) hsmall hsent
    exact ⟨_, e₁, arrived, hrequest, .packet hsmall hsent hcopy⟩

/-- A byte string of 410 bytes, packed. -/
def longAnswer : Binary := ⟨.bin16, List.replicate 410 7, by rw [List.length_replicate]; decide⟩

theorem longAnswer_length : longAnswer.bytes.length = 413 := by
  have hwidth : longAnswer.form.width = 2 := rfl
  have hcontent : longAnswer.content.length = 410 := List.length_replicate
  rw [Binary.bytes_length, hwidth, hcontent]

end Sample

open Sample in
/-- A byte string of 410 bytes comes as a resource, and the receipt gets it as it was packed. -/
theorem long_response_exact : ∃ hash : Address, AnsweredWith (awaiting hash.toList longAnswer.bytes)
    (takeResponse packingEnv (.resource 0) (awaiting hash.toList longAnswer.bytes)).2 0 longAnswer.bytes := by
  obtain ⟨token, htoken⟩ := exists_token
  obtain ⟨response, hresponse⟩ : ∃ response, response = longAnswer.bytes := ⟨_, rfl⟩
  have hpayload : Payload packingEnv response := hresponse ▸ .bin longAnswer
  have hsize : response.length = 413 := hresponse ▸ longAnswer_length
  rw [← hresponse]
  obtain ⟨number, e₁, arrived, hrequest, hbrings⟩ := exists_asked response
  obtain ⟨hash, hid⟩ := (request_id hrequest).isHash
  obtain ⟨-, hanswered⟩ := answered_iff packingEnv packingEnv packingEnv_peers asking (serving response) token htoken
    htoken [1] [] number e₁ hrequest hash.toList hid.symm (.packet arrived) hbrings (answering response) response
    (serving_serves _ _ _) hpayload _ rfl
  have hlarge : linkMdu < (packResponseEnvelope packingEnv hash.toList response).length := by
    rw [packedResponse_length packingEnv_packs, hsize]
    decide
  have hne : hash.toList ≠ [] := by
    apply List.ne_nil_of_length_pos
    rw [hash.toList_length]
    decide
  refine ⟨hash, (hanswered _ 0 (.resource 0) htoken (awaiting_awaits _ _) ?_).mpr (by omega)⟩
  exact .resource hlarge List.mem_cons_self rfl rfl hne (iff_of_true rfl rfl)

open Sample in
/-- A nil that comes in a packet: the receipt gets nothing of it. -/
theorem nil_response_empty : ¬ ∀ (env env' : Env), Peers env env' → ∀ (e f : Endpoint) (token : Token),
    e.link.getToken = .ok token → f.link.getToken = .ok token → ∀ (path data : Bytes) (number : Nat) (e₁ : Endpoint),
    request env path data e = (.value number, e₁) → ∀ (requestId : Bytes), requestId = (e₁.receipts number).requestId →
    ∀ (c : Carrier), Brings env e f ContextType.request (packedRequest env e path data) c →
    ∀ (handler : RequestHandler) (response : Bytes),
      Serves env' f path handler (callOf f handler requestId data (env.now e.draws)) response → Payload env response →
    ∀ (f' : Endpoint),
      f' = generatorCalled token handler (callOf f handler requestId data (env.now e.draws)) f c →
    ∀ (g : Endpoint) (q : Nat) (c' : Carrier), g.link.getToken = .ok token → Awaits g requestId q →
      Brings env' f' g ContextType.response (packResponseEnvelope env' requestId response) c' →
      AnsweredWith g (takeResponse env c' g).2 q response := by
  intro h
  obtain ⟨token, htoken⟩ := exists_token
  obtain ⟨number, e₁, arrived, hrequest, hbrings⟩ := exists_asked [0xC0]
  obtain ⟨hash, hid⟩ := (request_id hrequest).isHash
  have hnil : Payload packingEnv [0xC0] := .other (List.cons_ne_nil _ _) fun content rest hdecode => by
    have hfirst : packingEnv.decode [0xC0] = [.nil] := by decide +kernel
    rw [hfirst] at hdecode
    cases hdecode
  have hlength := packedResponse_length packingEnv_packs hash [0xC0]
  obtain ⟨arrived', hbrings'⟩ := @exists_brings packingEnv
    (generatorCalled token (answering [0xC0]) (callOf (serving [0xC0]) (answering [0xC0]) hash.toList [] (packingEnv.now 0))
      (serving [0xC0]) (.packet arrived)) (awaiting hash.toList [0xC0]) token ContextType.response
    (packResponseEnvelope packingEnv hash.toList [0xC0]) packingEnv_peers.lawful packingEnv_peers.iv rfl
    ⟨by decide, by decide, by decide, by decide⟩ (by rw [hlength]; decide) (by
      rw [hlength]
      show wireSize 20 ≤ (link false).mtu.toNat
      decide)
  have hexact := h packingEnv packingEnv packingEnv_peers asking (serving [0xC0]) token htoken htoken [1] [] number e₁
    hrequest hash.toList hid.symm (.packet arrived) hbrings (answering [0xC0]) [0xC0] (serving_serves _ _ _) hnil _ rfl
    (awaiting hash.toList [0xC0]) 0 (.packet arrived') htoken (awaiting_awaits _ _) hbrings'
  have hanswered := takeResponse_answers packingEnv_peers rfl htoken (awaiting_awaits _ _) hbrings'
  exact hnil.readBin_ne packingEnv_packs (hanswered.response.symm.trans hexact.response)

end MicroReticulum.Link
