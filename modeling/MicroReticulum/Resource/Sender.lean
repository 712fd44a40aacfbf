import MicroReticulum.Link.Endpoint

/-!
# The initiator of a transfer

`start` encrypts and cuts the payload and advertises the resource, `request` answers the requests of the
receiver with parts and entries of the hashmap, and `cancel` ends a transfer on either side. Closing a link
cancels what it still transfers, so `teardown` is here as well.

`cancel` tears the link down for a corrupt resource only. `link_closed` finds none among the resources it
cancels, since `assemble` takes a resource out before anything else runs, so it calls `cancelTransfer`,
which is `cancel` for the others.
-/

namespace MicroReticulum.Resource

open MicroReticulum Packet Link Library

variable (env : Env)

/-- The minimal constructor of `Resource`. -/
def newResource (data : Bytes) : Prog String Endpoint Nat := do
  let e ← Prog.get
  Prog.modify fun e =>
    { e with
      resources := Function.update e.resources e.created { data, sdu := resourceSdu e.link }
      created := e.created + 1 }
  pure e.created

/-- The endpoint with one more resource. -/
def withNew (data : Bytes) (e : Endpoint) : Endpoint :=
  { e with
    resources := Function.update e.resources e.created { data, sdu := resourceSdu e.link }
    created := e.created + 1 }

theorem newResource_run (data : Bytes) (e : Endpoint) : newResource data e = (.value e.created, withNew data e) :=
  rfl

def setStatus (r : Nat) (status : ResourceStatus) : Prog String Endpoint Unit :=
  Prog.modify (.withResource r fun d => { d with status })

/-! ## Cancelling -/

/-- `Link::resource_concluded` of a resource that is not complete. -/
def unregister (r : Nat) (e : Endpoint) : Endpoint :=
  (e.cancelIncomingResource r).cancelOutgoingResource r

/-- `Resource::cancel` of a resource that is not corrupt. -/
def cancelTransfer (r : Nat) : Prog String Endpoint Unit := do
  let e ← Prog.get
  let d := e.resources r
  Prog.when (d.status.concluded = false) do
    setStatus r .failed
    if d.initiator then do
      Prog.when (e.link.status = .active) (trySend env .data ContextType.resourceIcl d.hash)
      Prog.modify (.cancelOutgoingResource r)
    else
      Prog.modify (.cancelIncomingResource r)
    Prog.when d.concludedCallback
      (Prog.modify fun e => (unregister r e).note (.concluded r .failed))

/-- `Link::link_closed` -/
def linkClosed : Prog String Endpoint Unit := do
  let e ← Prog.get
  Prog.forEach e.incomingResources (cancelTransfer env)
  Prog.forEach e.outgoingResources (cancelTransfer env)
  Prog.modify (.withLink fun l => { l with prv := [], pubBytes := [], sharedKey := [], derivedKey := [] })
  Prog.modify (.note .closed)

/-- `Link::teardown` -/
def teardown : Prog String Endpoint Unit := do
  let e ← Prog.get
  Prog.when (e.link.status ≠ .pending ∧ e.link.status ≠ .closed) do
    let _ ← send env .data ContextType.linkclose e.link.linkId.toList
  Prog.modify (.note (.tornDown e.link.status))
  Prog.modify fun e =>
    { e with
      link := { e.link with status := .closed }
      teardownReason := if e.link.initiator then .initiatorClosed else .destinationClosed }
  linkClosed env

/-- `Resource::reject`, for the advertisement of the resource. -/
def reject (r : Nat) : Prog String Endpoint Unit := do
  let e ← Prog.get
  trySend env .data ContextType.resourceRcl
    (Advertisement.unpack (env.decode (e.resources r).advertisement)).h

/-- `Resource::cancel` -/
def cancel (r : Nat) : Prog String Endpoint Unit := do
  let e ← Prog.get
  if (e.resources r).status = .corrupt then do
    Prog.modify (.cancelIncomingResource r)
    reject env r
    teardown env
  else
    cancelTransfer env r

/-- `Resource::rejected` -/
def rejected (r : Nat) : Prog String Endpoint Unit := do
  let e ← Prog.get
  let d := e.resources r
  Prog.when (d.status.concluded = false ∧ d.initiator) do
    Prog.modify fun e => (e.withResource r fun d => { d with status := .rejected }).note (.rejected r)
    Prog.modify (.cancelOutgoingResource r)
    Prog.when d.concludedCallback
      (Prog.modify fun e => (unregister r e).note (.concluded r .rejected))

/-! ## Advertising -/

/-- `Resource::advertise_job` -/
def advertiseJob (r : Nat) : Prog String Endpoint Unit := do
  let e ← Prog.get
  let advertisement := env.encode ((Advertisement.ofResource (e.resources r)).pack 0)
  let ready := e.readyForNewResource
  Prog.modify (.withResource r fun d => { d with advertisement })
  if ready then
    Prog.catching (do
        let _ ← send env .data ContextType.resourceAdv advertisement
        Prog.modify fun e =>
          ((e.withResource r fun d =>
            { d with status := .advertised, retriesLeft := maxAdvRetries }).registerOutgoingResource r).note
              (.advertising r ready))
      fun _ => cancel env r
  else
    -- the next watchdog tick is meant to retry
    Prog.modify fun e => (e.withResource r fun d => { d with status := .queued }).note (.advertising r ready)

/-- The fields of a started resource that do not depend on the encryption. -/
def ResourceData.begin (fullHash : Bytes → Hash) (randomHash : Bytes) (d : ResourceData) : ResourceData :=
  let hash := (fullHash (d.data ++ randomHash)).toList
  { d with
    initiator := true
    data := []
    totalSize := d.data.length
    randomHash
    compressed := false
    hash
    expectedProof := (fullHash (d.data ++ hash)).toList
    originalHash := if d.originalHash = [] then hash else d.originalHash }

/-- `Resource::start` -/
def start (r : Nat) : Prog String Endpoint Unit := do
  let e ← Prog.get
  let d := e.resources r
  Prog.when (d.data ≠ []) do
    let randomHash := (env.randomHash e.draws).left randomHashSize
    Prog.modify fun e => { e with draws := e.draws + 1 }
    Prog.modify fun e => (e.withResource r (.begin env.fullHash randomHash)).note (.started r d.data)
    let encrypted ← encrypt env (randomHash ++ d.data)
    Prog.modify (.withResource r fun d => { d with encrypted := true, size := encrypted.length })
    let e ← Prog.get
    let sliced ← Prog.ofExcept
      (slice (fun _ b => .ok b) env.fullHash e.link d.sdu randomHash encrypted)
    Prog.modify (.withResource r fun d =>
      { d with
        totalParts := sliced.totalParts
        sentParts := 0
        parts := sliced.parts.map fun packet => { packet }
        hashmap := sliced.hashmap })
    advertiseJob env r

/-! ## Answering requests -/

/-- The map hashes of a request. -/
def mapHashes (b : Bytes) : List Bytes := (List.range (b.length / maphashLen)).map (mapHashAt b)

/-- `Packet::send` or `Packet::resend` of a part. -/
def sendPart (r i : Nat) : Prog String Endpoint Unit := do
  let e ← Prog.get
  match (e.resources r).parts[i]? with
  | none => pure ()
  | some part =>
    if part.sent then do
      let taken ← outbound env part.packet
      Prog.modify (.withResource r fun d => { d with parts := d.parts.set i { part with sent := taken } })
    else do
      Prog.require (e.link.status ≠ .closed) "Attempt to transmit over a closed link"
      let taken ← outbound env part.packet
      Prog.modify (.withResource r fun d =>
        { d with parts := d.parts.set i { part with sent := taken }, sentParts := d.sentParts + 1 })

/-- Cancel, and return from the enclosing function. -/
def giveUp (r : Nat) : Prog String Endpoint Unit := do
  cancel env r
  Prog.leave

/-- The parts a request is answered from. -/
def searchRange (d : ResourceData) : List Nat :=
  let searchStart := d.receiverMinConsecutiveHeight.toNat
  List.range' searchStart (min (searchStart + collisionGuardSize) d.parts.length - searchStart)

/-- `part_index`, one past the part the receiver's hashmap ends with. -/
def partIndex (d : ResourceData) (lastMapHash : Bytes) : Nat :=
  d.receiverMinConsecutiveHeight.toNat
    + min ((searchRange d).findIdx (fun i => mapHashAt d.hashmap i = lastMapHash) + 1) (searchRange d).length

/-- The hashmap entries `request` sends when the receiver asks for more. -/
def sendHashmapUpdate (r : Nat) (lastMapHash : Bytes) : Prog String Endpoint Unit := do
  let e ← Prog.get
  let d := e.resources r
  let part := partIndex d lastMapHash
  Prog.modify (.withResource r fun d =>
    { d with receiverMinConsecutiveHeight := max ((part : Int) - 1 - windowMaxGlobal) 0 })
  Prog.when (part % hashmapMaxLen ≠ 0) (giveUp env r)
  let segment := part / hashmapMaxLen
  let hashmapStart := segment * hashmapMaxLen
  let hashmapEnd := min ((segment + 1) * hashmapMaxLen) d.parts.length
  let segmentHashmap :=
    d.hashmap.midLen (hashmapStart * maphashLen) ((hashmapEnd - hashmapStart) * maphashLen)
  let hmu := d.hash ++ env.encode [.arr 2, .int (UInt32.ofNat segment).toNat, .bin segmentHashmap]
  Prog.catching (do let _ ← send env .data ContextType.resourceHmu hmu) fun _ => giveUp env r

/-- `Resource::request` -/
def request (r : Nat) (requestData : Bytes) : Prog String Endpoint Unit := Prog.call do
  let e ← Prog.get
  Prog.when ((e.resources r).status = .failed ∨ requestData = []) Prog.leave
  Prog.modify (.withResource r fun d => { d with status := .transferring, retriesLeft := maxRetries })
  let wantsMoreHashmap := requestData.byte 0 = hashmapIsExhausted
  let pad := if wantsMoreHashmap then 1 + maphashLen else 1
  Prog.when (requestData.length < pad + hashBytes) Prog.leave
  let requested := mapHashes (requestData.mid (pad + hashBytes))
  let d := e.resources r
  Prog.forEach (searchRange d) fun i =>
    Prog.when (mapHashAt d.hashmap i ∈ requested) (Prog.catching (sendPart env r i) fun _ => giveUp env r)
  Prog.when wantsMoreHashmap (sendHashmapUpdate env r (requestData.midLen 1 maphashLen))
  Prog.modify (.withResource r fun d =>
    if d.sentParts.toNat = d.parts.length then { d with status := .awaitingProof, retriesLeft := 3 } else d)

end MicroReticulum.Resource
