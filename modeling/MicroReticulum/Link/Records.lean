import MicroReticulum.Library.Frames
import MicroReticulum.Link.Inputs
import MicroReticulum.Resource.Incidents

/-!
# The records of an endpoint

`Spares` says of a program that it changes no record but aside, and that the records it makes are born in one of
the ways of `Born`. That is so of everything an endpoint does which is not about one resource under way. There is
one lemma for each function of the preceding modules; `requestNext` and `hashmapUpdate` spare the records but for
what `nextRequest` and `updatedHashmap` do to one.
-/

namespace MicroReticulum.Link

open MicroReticulum Packet Library Resource

variable {env : Env} {α : Type} {s t u : Endpoint} {r : Nat}

/-! ## Frames -/

/-- The records there are change aside at most, and new ones are born. -/
structure Spares (env : Env) (s t : Endpoint) : Prop where
  created : s.created ≤ t.created
  old : ∀ r < s.created, Aside (s.resources r) (t.resources r)
  new : ∀ r, s.created ≤ r → r < t.created → Born env (t.resources r)

/-- So it is but for one record, which changes as `R` says. -/
structure SparesBut (env : Env) (r : Nat) (R : ResourceData → ResourceData → Prop) (s t : Endpoint) : Prop where
  created : s.created ≤ t.created
  others : ∀ q < s.created, q ≠ r → Aside (s.resources q) (t.resources q)
  mine : r < s.created → R (s.resources r) (t.resources r)
  new : ∀ q, s.created ≤ q → q < t.created → q ≠ r → Born env (t.resources q)

/-- Stretches that spare the records of the resources form a frame, so the rules for loops and exceptions apply to
them. -/
theorem sparing (env : Env) : Prog.Frame (Spares env) where
  refl s := ⟨Nat.le_refl _, fun r _ => .refl _, fun r h h' => absurd h' (Nat.not_lt.mpr h)⟩
  trans s t u h h' := by
    refine ⟨Nat.le_trans h.created h'.created, fun r hr => ?_, fun r hr hlt => ?_⟩
    · exact (h.old r hr).trans (h'.old r (Nat.lt_of_lt_of_le hr h.created))
    · by_cases hmade : r < t.created
      · exact (h.new r hr hmade).aside (h'.old r hmade)
      · exact h'.new r (Nat.not_lt.mp hmade) hlt

/-- The same where one resource may change within a relation that is reflexive and transitive. -/
theorem sparingBut (env : Env) (r : Nat) {R : ResourceData → ResourceData → Prop} (hrefl : ∀ d, R d d)
    (htrans : ∀ d d' d'', R d d' → R d' d'' → R d d'') : Prog.Frame (SparesBut env r R) where
  refl s := ⟨Nat.le_refl _, fun q _ _ => .refl _, fun _ => hrefl _, fun q h h' => absurd h' (Nat.not_lt.mpr h)⟩
  trans s t u h h' := by
    refine ⟨Nat.le_trans h.created h'.created, fun q hq hne => ?_, fun hr => ?_, fun q hq hlt hne => ?_⟩
    · exact (h.others q hq hne).trans (h'.others q (Nat.lt_of_lt_of_le hq h.created) hne)
    · exact htrans _ _ _ (h.mine hr) (h'.mine (Nat.lt_of_lt_of_le hr h.created))
    · by_cases hmade : q < t.created
      · exact (h.new q hq hmade hne).aside (h'.others q hmade hne)
      · exact h'.new q (Nat.not_lt.mp hmade) hlt hne

namespace Spares

theorem refl (s : Endpoint) : Spares env s s := (sparing env).refl s

theorem trans (h : Spares env s t) (h' : Spares env t u) : Spares env s u := (sparing env).trans s t u h h'

/-- With the same resources and as many of them, nothing was done to a record. -/
theorem of_same (hresources : t.resources = s.resources) (hcreated : t.created = s.created) : Spares env s t := by
  refine ⟨hcreated.ge, fun r _ => ?_, fun r h h' => absurd h' (Nat.not_lt.mpr (hcreated ▸ h))⟩
  rw [hresources]
  exact .refl _

/-- A change of a resource beside its record spares the records. -/
theorem withResource {f : ResourceData → ResourceData} (hf : Aside (s.resources r) (f (s.resources r))) :
    Spares env s (s.withResource r f) := by
  refine ⟨Nat.le_refl _, fun q _ => ?_, fun q h h' => absurd h' (Nat.not_lt.mpr h)⟩
  by_cases hq : q = r
  · subst hq
    rwa [Endpoint.withResource_self]
  · rw [Endpoint.withResource_of_ne hq]
    exact .refl _

/-- What spares all records spares all but one, whatever may be done to that one. -/
theorem but {R : ResourceData → ResourceData → Prop} (h : Spares env s t) (hR : ∀ d d', Aside d d' → R d d') :
    SparesBut env r R s t :=
  ⟨h.created, fun q hq _ => h.old q hq, fun hr => hR _ _ (h.old r hr), fun q hq hlt _ => h.new q hq hlt⟩

theorem of_quiet (h : Quiet env s t) : Spares env s t := by
  obtain ⟨_, _, _, rfl⟩ := h.same
  exact .of_same rfl rfl

end Spares

/-- What may be done to the one resource can be replaced by something weaker. -/
theorem SparesBut.imp {R R' : ResourceData → ResourceData → Prop} (h : SparesBut env r R s t)
    (himp : R (s.resources r) (t.resources r) → R' (s.resources r) (t.resources r)) : SparesBut env r R' s t :=
  ⟨h.created, h.others, fun hr => himp (h.mine hr), h.new⟩

/-- A change of the one resource within the relation spares the others. -/
theorem SparesBut.withResource {R : ResourceData → ResourceData → Prop} {f : ResourceData → ResourceData}
    (hf : R (s.resources r) (f (s.resources r))) : SparesBut env r R s (s.withResource r f) := by
  refine ⟨Nat.le_refl _, fun q _ hq => ?_, fun _ => ?_, fun q h h' => absurd h' (Nat.not_lt.mpr h)⟩
  · rw [Endpoint.withResource_of_ne hq]
    exact .refl _
  · rwa [Endpoint.withResource_self]

/-! ## What spares the records -/

section Spared

variable (env)

/-- Setting a status other than awaiting the proof spares the records: the one status they tell is that one. -/
theorem setStatus_spares (r : Nat) {status : ResourceStatus} (h : status ≠ .awaitingProof) :
    Prog.Keeps (Spares env) (setStatus r status) :=
  .modify fun _ => .withResource (.status _ h)

theorem send_spares (packetType : PacketType) (context : ContextType) (data : Bytes) :
    Prog.Keeps (Spares env) (send env packetType context data) := by
  intro s
  obtain ⟨e, token, -, hrun⟩ | ⟨p, token, -, -, -, hrun⟩ := send_cases env packetType context data s
  all_goals
    rw [hrun]
    exact .of_same rfl rfl

theorem sendThen_spares (packetType : PacketType) (context : ContextType) (data : Bytes) :
    Prog.Keeps (Spares env) (do let _ ← send env packetType context data : Prog String Endpoint Unit) :=
  (sparing env).bind (send_spares env _ _ _) fun _ => (sparing env).pure _

theorem trySend_spares (context : ContextType) (data : Bytes) :
    Prog.Keeps (Spares env) (trySend env .data context data) := fun s => .of_quiet (trySend_quiet _ _ s)

theorem encrypt_spares (plaintext : Bytes) : Prog.Keeps (Spares env) (encrypt env plaintext) :=
  fun s => .of_quiet (encrypt_quiet _ s)

theorem decrypt_spares (ciphertext : Bytes) : Prog.Keeps (Spares env) (decrypt env ciphertext) :=
  fun s => .of_quiet (decrypt_quiet _ s)

theorem cancelTransfer_spares (r : Nat) : Prog.Keeps (Spares env) (cancelTransfer env r) := by
  refine (sparing env).get_bind fun e => (sparing env).when ((sparing env).bind
    (setStatus_spares env r ResourceStatus.noConfusion) fun _ => .ite ?_ ?_)
  · refine (sparing env).bind ((sparing env).when (trySend_spares env _ _)) fun _ => ?_
    exact (sparing env).modify_bind (fun _ => .of_same rfl rfl) ((sparing env).when (.modify fun _ =>
      .of_same rfl rfl))
  · exact (sparing env).modify_bind (fun _ => .of_same rfl rfl) ((sparing env).when (.modify fun _ =>
      .of_same rfl rfl))

theorem linkClosed_spares : Prog.Keeps (Spares env) (linkClosed env) := by
  refine (sparing env).get_bind fun e => (sparing env).bind
    ((sparing env).forEach (fun r => cancelTransfer_spares env r) _) fun _ => (sparing env).bind
      ((sparing env).forEach (fun r => cancelTransfer_spares env r) _) fun _ => ?_
  exact (sparing env).modify_bind (fun _ => .of_same rfl rfl) (.modify fun _ => .of_same rfl rfl)

theorem teardown_spares : Prog.Keeps (Spares env) (teardown env) := by
  refine (sparing env).get_bind fun e => (sparing env).bind ((sparing env).when (sendThen_spares env _ _ _))
    fun _ => ?_
  exact (sparing env).modify_bind (fun _ => .of_same rfl rfl) ((sparing env).modify_bind
    (fun _ => .of_same rfl rfl) (linkClosed_spares env))

theorem cancel_spares (r : Nat) : Prog.Keeps (Spares env) (cancel env r) := by
  refine (sparing env).get_bind fun e => .ite ?_ (cancelTransfer_spares env r)
  refine (sparing env).modify_bind (fun _ => .of_same rfl rfl) ((sparing env).bind ?_ fun _ =>
    teardown_spares env)
  exact (sparing env).get_bind fun e => trySend_spares env _ _

theorem giveUp_spares (r : Nat) : Prog.Keeps (Spares env) (giveUp env r) :=
  (sparing env).bind (cancel_spares env r) fun _ => (sparing env).leave

theorem rejected_spares (r : Nat) : Prog.Keeps (Spares env) (rejected r) := by
  refine (sparing env).get_bind fun e => (sparing env).when ((sparing env).modify_bind (fun s => ?_) ?_)
  · have hrejected : Spares env s (s.withResource r fun d => { d with status := .rejected }) :=
      .withResource (.status _ ResourceStatus.noConfusion)
    exact hrejected.trans (.of_same rfl rfl)
  · exact (sparing env).modify_bind (fun _ => .of_same rfl rfl) ((sparing env).when (.modify fun _ =>
      .of_same rfl rfl))

theorem advertiseJob_spares (r : Nat) : Prog.Keeps (Spares env) (advertiseJob env r) := by
  refine (sparing env).get_bind fun e => (sparing env).modify_bind
    (fun _ => .withResource ⟨_, _, _, _, _, _, id, rfl⟩) (.ite ?_ (.modify fun s => ?_))
  · refine (sparing env).catching ((sparing env).bind (send_spares env _ _ _) fun _ => .modify fun s => ?_)
      fun _ => cancel_spares env r
    have hadvertised : Spares env s
        (s.withResource r fun d => { d with status := .advertised, retriesLeft := maxAdvRetries }) :=
      .withResource ⟨_, _, _, _, _, _, ResourceStatus.noConfusion, rfl⟩
    exact hadvertised.trans (.of_same rfl rfl)
  · have hqueued : Spares env s (s.withResource r fun d => { d with status := .queued }) :=
      .withResource (.status _ ResourceStatus.noConfusion)
    exact hqueued.trans (.of_same rfl rfl)

/-! ## Resources that are made -/

/-- What was not sent or received yet stays so. -/
def StaysUnsent (d d' : ResourceData) : Prop := Unsent d → Unsent d'

/-- So does what was begun. -/
def StaysBegun (d d' : ResourceData) : Prop := Unsent d ∧ d.initiator = true → Unsent d' ∧ d'.initiator = true

/-- A resource that is being started stays one of which no part was sent. -/
theorem starting (r : Nat) : Prog.Frame (SparesBut env r StaysUnsent) :=
  sparingBut env r (fun _ => id) fun _ _ _ h h' hd => h' (h hd)

/-- A resource that is being accepted stays one that has only begun. -/
theorem beginning (r : Nat) : Prog.Frame (SparesBut env r StaysBegun) :=
  sparingBut env r (fun _ => id) fun _ _ _ h h' hd => h' (h hd)

/-- A change beside the record leaves a resource that has begun as it is. -/
theorem stays_begun_of_aside (d d' : ResourceData) (h : Aside d d') : StaysBegun d d' :=
  fun hd => ⟨hd.1.aside h, h.initiator.trans hd.2⟩

/-- A change beside the record leaves a resource unsent. -/
theorem stays_unsent_of_aside (d d' : ResourceData) (h : Aside d d') : StaysUnsent d d' := fun hd => hd.aside h

/-- The encryption, the slicing and the advertisement of a resource that was begun. -/
theorem sliced_starts (r : Nat) (plaintext randomHash : Bytes) (sdu : UInt16) :
    Prog.Keeps (SparesBut env r StaysBegun) (do
      let encrypted ← encrypt env plaintext
      Prog.modify (.withResource r fun d => { d with encrypted := true, size := encrypted.length })
      let e ← Prog.get
      let sliced ← Prog.ofExcept (slice (fun _ b => .ok b) env.fullHash e.link sdu randomHash encrypted)
      Prog.modify (.withResource r fun d =>
        { d with
          totalParts := sliced.totalParts
          sentParts := 0
          parts := sliced.parts.map fun packet => { packet }
          hashmap := sliced.hashmap })
      advertiseJob env r) := by
  refine (beginning env r).bind (fun s => (encrypt_spares env _ s).but stays_begun_of_aside) fun encrypted => ?_
  refine (beginning env r).modify_bind (fun s => .withResource fun hd => ⟨⟨hd.1.receiver, hd.1.window,
    hd.1.countable, hd.1.unsent, hd.1.sentParts, hd.1.status, hd.1.receiverMin, hd.1.initiator⟩, hd.2⟩) ?_
  refine (beginning env r).get_bind fun e' s => ?_
  cases hsliced : slice (fun _ b => .ok b) env.fullHash e'.link sdu randomHash encrypted with
  | error message => exact (beginning env r).refl s
  | ok sliced =>
    rw [Prog.bind_value (Prog.ofExcept_ok_run sliced s)]
    refine (beginning env r).modify_bind (fun s => ?_) ?_ s
    case refine_2 => exact fun s => (advertiseJob_spares env r s).but stays_begun_of_aside
    have hcountable : (sliced.parts.map fun packet => ({ packet } : Part)).length < 2 ^ 32 := by
      rw [List.length_map, ← (slice_ok hsliced).2.1.length_eq, List.length_range]
      exact sliced.totalParts.toNat_lt
    have hunsent : ∀ part ∈ sliced.parts.map fun packet => ({ packet } : Part), part.sent = false := by
      intro part hpart
      obtain ⟨p, -, rfl⟩ := List.mem_map.mp hpart
      rfl
    exact .withResource fun hd => ⟨⟨hd.1.receiver, hd.1.window, hcountable, hunsent, rfl, hd.1.status,
      hd.1.receiverMin, fun h => absurd (h.symm.trans hd.2) Bool.false_ne_true⟩, hd.2⟩

/-- What `start` makes of a resource of which nothing was sent stays so. -/
theorem start_starts (r : Nat) (hd : Unsent (s.resources r)) :
    SparesBut env r StaysUnsent s (start env r s).2 := by
  unfold start
  rw [Prog.get_bind_run]
  unfold Prog.when
  split
  case isFalse => exact (starting env r).refl s
  rw [Prog.modify_bind_run, Prog.modify_bind_run]
  obtain ⟨u, hu⟩ : ∃ u, u = (({ s with draws := s.draws + 1 } : Endpoint).withResource r
      (.begin env.fullHash ((env.randomHash s.draws).left randomHashSize))).note (.started r (s.resources r).data) :=
    ⟨_, rfl⟩
  have hbegun : Unsent (u.resources r) ∧ (u.resources r).initiator = true := by
    subst hu
    rw [Endpoint.note_resources, Endpoint.withResource_self]
    exact ⟨⟨hd.receiver, hd.window, hd.countable, hd.unsent, hd.sentParts, hd.status, hd.receiverMin,
      fun h => nomatch h⟩, rfl⟩
  have hbefore : SparesBut env r StaysUnsent s u :=
    ⟨hu ▸ Nat.le_refl _, fun q _ hq => by
      subst hu
      rw [Endpoint.note_resources, Endpoint.withResource_of_ne hq]
      exact .refl _, fun _ _ => hbegun.1, fun q h h' => absurd h' (Nat.not_lt.mpr (hu ▸ h))⟩
  have hrest := sliced_starts env r ((env.randomHash s.draws).left randomHashSize ++ (s.resources r).data)
    ((env.randomHash s.draws).left randomHashSize) (s.resources r).sdu u
  rw [← hu]
  exact (starting env r).trans _ _ _ hbefore (hrest.imp fun h hu' => (h ⟨hu', hbegun.2⟩).1)

/-- A resource that is made and then only started, aside from what changes of others, is born. -/
theorem Spares.of_new (data : Bytes) {m : Nat → Prog String Endpoint α}
    (hm : ∀ u, s.created < u.created → Unsent (u.resources s.created) →
      SparesBut env s.created StaysUnsent u (m s.created u).2) :
    Spares env s ((newResource data >>= m) s).2 := by
  obtain ⟨u, hu⟩ : ∃ u, u = withNew data s := ⟨_, rfl⟩
  have hold : ∀ q, q ≠ s.created → u.resources q = s.resources q := fun q hq => by
    rw [hu]
    exact Function.update_of_ne hq ..
  have hmade : Unsent (u.resources s.created) := by
    rw [hu]
    simpa [withNew] using Unsent.made data (resourceSdu s.link)
  have hcreated : u.created = s.created + 1 := by rw [hu, withNew]
  have hrest := hm u (by omega) hmade
  rw [Prog.bind_value (newResource_run data s), ← hu]
  refine ⟨by have := hrest.created; omega, fun q hq => ?_, fun q hq hlt => ?_⟩
  · rw [← hold q (Nat.ne_of_lt hq)]
    exact hrest.others q (by omega) (Nat.ne_of_lt hq)
  · by_cases hqs : q = s.created
    · subst hqs
      exact .made (hrest.mine (by omega) hmade)
    · exact hrest.new q (by omega) hlt hqs

/-! ## Requests and responses -/

/-- A response can start a new resource, and spares the records of those that exist. -/
theorem respond_spares (requestId response : Bytes) : Prog.Keeps (Spares env) (respond env requestId response) := by
  refine .ite (sendThen_spares env _ _ _) fun s => Spares.of_new env _ fun u hu hunsent => ?_
  rw [Prog.modify_bind_run]
  have hmarked : SparesBut env s.created StaysUnsent u
      (u.withResource s.created fun d => { d with requestId, isResponse := true }) :=
    .withResource fun hd => ⟨hd.receiver, hd.window, hd.countable, hd.unsent, hd.sentParts, hd.status,
      hd.receiverMin, hd.initiator⟩
  exact (starting env s.created).trans _ _ _ hmarked (start_starts env s.created (hmarked.mine hu hunsent))

/-- Handling a request can start a resource with the response, and spares the records of those that exist. -/
theorem handleRequest_spares (requestId : Bytes) (request : ResourceRequest) :
    Prog.Keeps (Spares env) (handleRequest env requestId request) := by
  refine (sparing env).get_bind fun e => (sparing env).when ?_
  split
  · exact (sparing env).pure _
  · exact (sparing env).when ((sparing env).modify_bind (fun _ => .of_same rfl rfl) ((sparing env).ofExcept_bind
      fun _ => (sparing env).when (respond_spares env requestId _)))

theorem responseReceived_spares (receipt : Nat) (response : Bytes) :
    Prog.Keeps (Spares env) (responseReceived receipt response) :=
  (sparing env).get_bind fun _ => (sparing env).when ((sparing env).modify_bind (fun _ => .of_same rfl rfl)
    (.modify fun _ => .of_same rfl rfl))

theorem requestTimedOut_spares (receipt : Nat) : Prog.Keeps (Spares env) (requestTimedOut receipt) :=
  (sparing env).modify_bind (fun _ => .of_same rfl rfl) ((sparing env).modify_bind (fun _ => .of_same rfl rfl)
    (.modify fun _ => .of_same rfl rfl))

theorem handleResponse_spares (requestId responseData : Bytes) (responseSize responseTransferSize : Nat) :
    Prog.Keeps (Spares env) (handleResponse requestId responseData responseSize responseTransferSize) := by
  refine (sparing env).get_bind fun e => (sparing env).when ?_
  split
  · exact (sparing env).pure _
  · exact (sparing env).modify_bind (fun _ => .of_same rfl rfl) ((sparing env).bind
      (responseReceived_spares env _ _) fun _ => .modify fun _ => .of_same rfl rfl)

/-- A request can start a new resource, and spares the records of those that exist. -/
theorem request_spares (path data : Bytes) : Prog.Keeps (Spares env) (request env path data) := by
  refine (sparing env).get_bind fun e => .ite ((sparing env).bind (send_spares env _ _ _) fun p =>
    (sparing env).modify_bind (fun _ => .of_same rfl rfl) ((sparing env).pure _))
      fun s => Spares.of_new env _ fun u hu hunsent => ?_
  rw [Prog.modify_bind_run]
  obtain ⟨requestId, hid⟩ : ∃ requestId, requestId = (truncatedHash env.fullHash
      (packRequestEnvelope env (env.now e.draws) (truncatedHash env.fullHash path).toList data)).toList := ⟨_, rfl⟩
  have hmarked : SparesBut env s.created StaysUnsent u (u.withResource s.created fun d => { d with requestId }) :=
    .withResource fun hd => ⟨hd.receiver, hd.window, hd.countable, hd.unsent, hd.sentParts, hd.status,
      hd.receiverMin, hd.initiator⟩
  rw [← hid]
  refine (starting env s.created).trans _ _ _ hmarked ((starting env s.created).after
    (start_starts env s.created (hmarked.mine hu hunsent)) fun _ => ?_)
  exact (starting env s.created).modify_bind (fun _ => Spares.but (.of_same rfl rfl) stays_unsent_of_aside)
    ((starting env s.created).pure _)

/-- The end of a resource is passed on to a request or a response, which spare the records. -/
theorem resourceConcluded_spares (r : Nat) : Prog.Keeps (Spares env) (resourceConcluded env r) := by
  refine (sparing env).get_bind fun e => (sparing env).modify_bind (fun _ => .of_same rfl rfl)
    ((sparing env).when (.ite ?_ ?_))
  · refine (sparing env).get_bind fun e' => .ite ?_ ((sparing env).forEach (fun q => requestTimedOut_spares env q) _)
    split
    · exact (sparing env).pure _
    · exact handleResponse_spares env _ _ _ _
  · refine (sparing env).get_bind fun e' => (sparing env).when ?_
    split
    · exact (sparing env).pure _
    · exact handleRequest_spares env _ _

/-! ## The receiver -/

theorem prove_spares (r : Nat) : Prog.Keeps (Spares env) (prove env r) :=
  (sparing env).get_bind fun _ => (sparing env).when ((sparing env).catching (sendThen_spares env _ _ _)
    fun _ => cancel_spares env r)

/-- Assembling reads the parts of a resource and changes its status; the record of what arrived stays. -/
theorem assembleBody_spares (r : Nat) : Prog.Keeps (Spares env) (assembleBody env r) := by
  refine (sparing env).bind (setStatus_spares env r ResourceStatus.noConfusion) fun _ => (sparing env).get_bind
    fun e => .ite ((sparing env).bind (decrypt_spares env _) fun plaintext => ?_)
      ((sparing env).bind ((sparing env).pure _) fun plaintext => ?_)
  all_goals
    refine (sparing env).bind ((sparing env).when ((sparing env).bind
      (setStatus_spares env r ResourceStatus.noConfusion) fun _ => giveUp_spares env r)) fun _ => ?_
    exact .ite (setStatus_spares env r ResourceStatus.noConfusion) ((sparing env).modify_bind
      (fun _ => .withResource ⟨_, _, _, _, _, _, ResourceStatus.noConfusion, rfl⟩) (prove_spares env r))

theorem concludedCallback_spares (r : Nat) : Prog.Keeps (Spares env) (concludedCallback r) :=
  (sparing env).get_bind fun _ => (sparing env).when (.modify fun _ => .of_same rfl rfl)

theorem assemble_spares (r : Nat) : Prog.Keeps (Spares env) (assemble env r) :=
  .call ((sparing env).get_bind fun _ => (sparing env).when ((sparing env).bind
    ((sparing env).catching (assembleBody_spares env r) fun _ =>
      setStatus_spares env r ResourceStatus.noConfusion) fun _ => (sparing env).bind
        (resourceConcluded_spares env r) fun _ => concludedCallback_spares env r))

/-- `request_next` changes its own record as `nextRequest` does. -/
theorem requestNext_spares (r : Nat) (s : Endpoint) :
    Spares env (s.withResource r nextRequest) (requestNext env r s).2 := by
  unfold requestNext
  rw [Prog.get_bind_run]
  unfold Prog.when
  split
  case isFalse hskip =>
    have hsame : s.withResource r nextRequest = s := by
      unfold Endpoint.withResource nextRequest
      rw [if_neg hskip, Function.update_eq_self]
    rw [hsame]
    exact .refl s
  case isTrue hasks =>
    have hsame : s.withResource r nextRequest = s.withResource r fun d =>
        { d with
          outstandingParts :=
            UInt16.ofNat (requestedHashes (s.resources r) (requestRange (s.resources r))).2.1
          waitingForHmu := (requestedHashes (s.resources r) (requestRange (s.resources r))).2.2 } := by
      unfold Endpoint.withResource nextRequest
      rw [if_pos hasks]
    rw [hsame]
    generalize requestedHashes (s.resources r) (requestRange (s.resources r)) = asked
    obtain ⟨hashes, outstanding, exhausted⟩ := asked
    exact (sparing env).catching (sendThen_spares env _ _ _) (fun _ => cancel_spares env r) _

/-- Two changes of one resource are one change. -/
theorem withResource_twice (f g : ResourceData → ResourceData) (s : Endpoint) :
    (s.withResource r f).withResource r g = s.withResource r fun d => g (f d) := by
  simp [Endpoint.withResource]

/-- Of a hashmap update the record tells the new entries; everything behind them spares it. -/
theorem hashmapUpdate_spares (r : Nat) (segment : UInt16) (hashmap : Bytes) (s : Endpoint) :
    Spares env (s.withResource r (updatedHashmap segment hashmap)) (hashmapUpdate env r segment hashmap s).2 := by
  unfold hashmapUpdate
  rw [Prog.get_bind_run]
  unfold Prog.when
  split
  case isFalse hskip =>
    have hsame : s.withResource r (updatedHashmap segment hashmap) = s := by
      unfold Endpoint.withResource updatedHashmap
      rw [if_neg hskip, Function.update_eq_self]
    rw [hsame]
    exact .refl s
  case isTrue hgoes =>
    have hsame : s.withResource r (updatedHashmap segment hashmap)
        = (s.withResource r fun d =>
            { updateEntries segment hashmap { d with status := .transferring } with waitingForHmu := false }).withResource
              r nextRequest := by
      rw [withResource_twice]
      unfold Endpoint.withResource updatedHashmap
      rw [if_pos hgoes]
    rw [hsame]
    exact requestNext_spares env r _

end Spared

end MicroReticulum.Link
