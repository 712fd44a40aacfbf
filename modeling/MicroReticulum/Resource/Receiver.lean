import MicroReticulum.Link.Requests

/-!
# The receiver of a transfer

`accept` makes a resource from an advertisement, `requestNext` asks for the parts of the next window whose map
hashes are known, `receivePart` files what arrives, and `assemble` decrypts and checks the whole.
`watchdogJob` is the tick that retries or gives up, on either side, and `validateProof` is how the initiator
learns that the receiver is done.

Where the source compares times and rates the outcome is an argument: `late`, and the fields of `Rates`.
-/

namespace MicroReticulum.Resource

open MicroReticulum Packet Link Library

variable (env : Env)

/-! ## Requesting parts -/

/-- The map hashes of the empty slots, their number, and whether one is not known yet, at which the loop
ends. -/
def requestedHashes (d : ResourceData) : List Nat → Bytes × Nat × Bool
  | [] => ([], 0, false)
  | i :: rest =>
    if d.slots[i]? = some none then
      if mapHashAt d.hashmap i = zeroMapHash then ([], 0, true)
      else
        let (hashes, outstanding, exhausted) := requestedHashes d rest
        (mapHashAt d.hashmap i ++ hashes, outstanding + 1, exhausted)
    else requestedHashes d rest

/-- The slots `request_next` looks at. -/
def requestRange (d : ResourceData) : List Nat :=
  let searchStart := (d.consecutiveCompletedHeight + 1).toNat
  List.range' searchStart (min d.window.toNat (d.slots.length - searchStart))

/-- The request for more of the hashmap, which names the last entry that is known. -/
def hmuPart (d : ResourceData) (exhausted : Bool) : Bytes :=
  if exhausted then
    hashmapIsExhausted ::
      (if 0 < d.hashmapHeight then mapHashAt d.hashmap (d.hashmapHeight.toNat - 1) else zeroMapHash)
  else [hashmapIsNotExhausted]

/-- `Resource::request_next` -/
def requestNext (r : Nat) : Prog String Endpoint Unit := do
  let e ← Prog.get
  let d := e.resources r
  Prog.when (d.status ≠ .failed ∧ d.waitingForHmu = false) do
    let (hashes, outstanding, exhausted) := requestedHashes d (requestRange d)
    Prog.modify (.withResource r fun d =>
      { d with outstandingParts := UInt16.ofNat outstanding, waitingForHmu := exhausted })
    Prog.catching
      (do let _ ← send env .data ContextType.resourceReq (hmuPart d exhausted ++ d.hash ++ hashes))
      fun _ => cancel env r

/-! ## The hashmap -/

/-- One entry of a hashmap update. -/
def updateEntry (hashmap : Bytes) (base : Nat) (d : ResourceData) (i : Nat) : ResourceData :=
  let slot := base + i
  { d with
    hashmapHeight :=
      if mapHashAt d.hashmap slot = zeroMapHash then d.hashmapHeight + 1 else d.hashmapHeight
    hashmap := d.hashmap.left (slot * maphashLen) ++ mapHashAt hashmap i
      ++ d.hashmap.mid ((slot + 1) * maphashLen) }

/-- The entries of a hashmap update that belong to a part. -/
def updateEntries (segment : UInt16) (hashmap : Bytes) (d : ResourceData) : ResourceData :=
  let base := segment.toNat * hashmapMaxLen
  (List.range (min (hashmap.length / maphashLen) (d.totalParts.toNat - base))).foldl
    (updateEntry hashmap base) d

/-- `Resource::hashmap_update` -/
def hashmapUpdate (r : Nat) (segment : UInt16) (hashmap : Bytes) : Prog String Endpoint Unit := do
  let e ← Prog.get
  Prog.when ((e.resources r).status ≠ .failed) do
    Prog.modify (.withResource r fun d =>
      { updateEntries segment hashmap { d with status := .transferring } with waitingForHmu := false })
    requestNext env r

/-- `Resource::hashmap_update_packet` -/
def hashmapUpdatePacket (r : Nat) (plaintext : Bytes) : Prog String Endpoint Unit := do
  let e ← Prog.get
  Prog.when ((e.resources r).status ≠ .failed) do
    Prog.modify (.withResource r fun d => { d with retriesLeft := maxRetries })
    Prog.when (hashBytes < plaintext.length) do
      match env.decode (plaintext.mid hashBytes) with
      | .arr n :: rest =>
        Prog.when (2 ≤ n) do
          let segment := Advertisement.readUint rest
          let hashmap := Advertisement.readBin segment.2
          hashmapUpdate env r (UInt32.ofNat segment.1).toUInt16 hashmap.1
      | _ => pure ()

/-! ## Accepting -/

/-- The fields `accept` sets. -/
def ResourceData.ofAdvertisement (adv : Advertisement) (plaintext requestId : Bytes) (totalParts : UInt32)
    (concludedCallback : Bool) (d : ResourceData) : ResourceData :=
  { d with
    status := .transferring
    size := adv.t
    totalSize := adv.d
    hash := adv.h
    originalHash := adv.o
    randomHash := adv.r
    encrypted := adv.e
    compressed := adv.c
    initiator := false
    concludedCallback
    totalParts
    receivedCount := 0
    outstandingParts := 0
    window := windowStart
    windowMax := windowMaxSlow
    windowMin := windowMinStart
    windowFlexibility := windowFlexibilityStart
    advertisement := plaintext
    segmentIndex := adv.i
    totalSegments := adv.l
    split := 1 < adv.l
    hasMetadata := adv.x
    consecutiveCompletedHeight := -1
    waitingForHmu := false
    requestId
    isResponse := adv.p
    slots := List.replicate totalParts.toNat none
    hashmap := List.replicate (totalParts.toNat * maphashLen) 0
    hashmapHeight := 0 }

/-- `Resource::accept`, of a decrypted advertisement. -/
def accept (plaintext requestId : Bytes) (concludedCallback : Bool) :
    Prog String Endpoint (Option Nat) := do
  let adv := Advertisement.unpack (env.decode plaintext)
  if adv.h = [] then pure none
  else do
    let r ← newResource []
    let e ← Prog.get
    let totalParts ← Prog.ofExcept
      (match partCount adv.t (e.resources r).sdu with
      | none => .error "division by zero"
      | some totalParts => .ok totalParts)
    Prog.modify (.withResource r (.ofAdvertisement adv plaintext requestId totalParts concludedCallback))
    if e.hasIncomingResource adv.h then pure none
    else do
      Prog.modify (.registerIncomingResource r)
      hashmapUpdate env r 0 adv.m
      pure (some r)

/-! ## Assembling -/

/-- `Resource::prove` -/
def prove (r : Nat) : Prog String Endpoint Unit := do
  let e ← Prog.get
  let d := e.resources r
  Prog.when (d.status ≠ .failed) do
    let proof := (env.fullHash (d.data ++ d.hash)).toList
    Prog.catching (do let _ ← send env .proof ContextType.resourcePrf (d.hash ++ proof)) fun _ => cancel env r

/-- What the filled slots carry, in their order. -/
def received (d : ResourceData) : Bytes := (d.slots.filterMap id).flatten

/-- The `try` block of `assemble`. -/
def assembleBody (r : Nat) : Prog String Endpoint Unit := do
  setStatus r .assembling
  let e ← Prog.get
  let d := e.resources r
  let plaintext ← if d.encrypted then decrypt env (received d) else pure (received d)
  Prog.when d.compressed do
    setStatus r .corrupt
    giveUp env r
  let data := plaintext.mid randomHashSize
  let calculatedHash := (env.fullHash (data ++ d.randomHash)).toList
  if calculatedHash ≠ d.hash then setStatus r .corrupt
  else do
    Prog.modify (.withResource r fun d => { d with data, status := .complete })
    prove env r

/-- The concluded callback of a resource that is not segmented. -/
def concludedCallback (r : Nat) : Prog String Endpoint Unit := do
  let e ← Prog.get
  let d := e.resources r
  Prog.when (d.segmentIndex = d.totalSegments ∧ d.concludedCallback)
    (Prog.modify (.note (.concluded r d.status)))

/-- `Resource::assemble` -/
def assemble (r : Nat) : Prog String Endpoint Unit := Prog.call do
  let e ← Prog.get
  Prog.when ((e.resources r).status ≠ .failed) do
    Prog.catching (assembleBody env r) fun _ => setStatus r .corrupt
    resourceConcluded env r
    concludedCallback r

/-! ## Receiving parts -/

/-- What the clock and the rates say while a part is received. -/
structure Rates where
  /-- the first part of a request came at more than `RATE_FAST` -/
  fastFirst : Bool
  /-- the time since the request was measured -/
  measured : Bool
  /-- the data of the request came at more than `RATE_FAST` -/
  fast : Bool
  /-- the data of the request came at less than `RATE_VERY_SLOW` -/
  verySlow : Bool

/-- A round at a fast rate. -/
def fastRound (d : ResourceData) : ResourceData :=
  if d.fastRateRounds < fastRateThreshold then
    { d with
      fastRateRounds := d.fastRateRounds + 1
      windowMax := if d.fastRateRounds + 1 = fastRateThreshold then windowMaxFast else d.windowMax }
  else d

/-- A round at a very slow rate. -/
def verySlowRound (d : ResourceData) : ResourceData :=
  if d.fastRateRounds = 0 ∧ d.verySlowRateRounds < verySlowRateThreshold then
    { d with
      verySlowRateRounds := d.verySlowRateRounds + 1
      windowMax :=
        if d.verySlowRateRounds + 1 = verySlowRateThreshold then windowMaxVerySlow else d.windowMax }
  else d

/-- A wider window for the next request. -/
def growWindow (d : ResourceData) : ResourceData :=
  if d.window < d.windowMax then
    { d with
      window := d.window + 1
      windowMin :=
        if (d.windowFlexibility.toNat : Int) - 1 < ((d.window + 1).toNat : Int) - d.windowMin.toNat then
          d.windowMin + 1
        else d.windowMin }
  else d

/-- The window after the last part of a request. -/
def afterRequest (rates : Rates) (d : ResourceData) : ResourceData :=
  let d := growWindow d
  let d := if rates.measured && rates.fast then fastRound d else d
  if rates.measured && rates.verySlow then verySlowRound d else d

/-- The height once the slots that follow it are filled. -/
def consecutiveFrom (slots : List (Option Bytes)) (height : Int) : Int :=
  height + ((slots.drop (height + 1).toNat).takeWhile Option.isSome).length

/-- One round of the loop over the window: the part goes into an empty slot of its map hash. -/
def fileAt (partData partHash : Bytes) (d : ResourceData) (i : Nat) : ResourceData :=
  if mapHashAt d.hashmap i = partHash ∧ d.slots[i]? = some none then
    let slots := d.slots.set i (some partData)
    let height : Int :=
      if (i : Int) = d.consecutiveCompletedHeight + 1 then i else d.consecutiveCompletedHeight
    { d with
      slots
      receivedCount := d.receivedCount + 1
      outstandingParts := if 0 < d.outstandingParts then d.outstandingParts - 1 else 0
      consecutiveCompletedHeight := consecutiveFrom slots height }
  else d

/-- The slots `receive_part` looks at. -/
def receiveRange (d : ResourceData) : List Nat :=
  let cci := d.consecutiveCompletedHeight.toNat
  List.range' cci (min (cci + d.window.toNat) d.totalParts.toNat - cci)

/-- The filing of a part. -/
def filePart (env : Env) (partData : Bytes) (d : ResourceData) : ResourceData :=
  let d := { d with status := .transferring }
  (receiveRange d).foldl (fileAt partData (getMapHash env.fullHash d.randomHash partData)) d

/-- `Resource::receive_part` -/
def receivePart (r : Nat) (packet : Packet) (rates : Rates) : Prog String Endpoint Unit := Prog.call do
  let e ← Prog.get
  Prog.when (e.resources r).receiveLock Prog.leave
  Prog.modify (.withResource r fun d =>
    let d := { d with receiveLock := true, retriesLeft := maxRetries }
    if rates.fastFirst then fastRound d else d)
  Prog.when ((e.resources r).status = .failed) do
    Prog.modify (.withResource r fun d => { d with receiveLock := false })
    Prog.leave
  Prog.modify (.withResource r (filePart env packet.data))
  let e ← Prog.get
  let d := e.resources r
  if d.receivedCount = d.totalParts ∧ d.assemblyLock = false then do
    Prog.modify (.withResource r fun d => { d with assemblyLock := true })
    assemble env r
  else
    Prog.when (d.outstandingParts = 0) do
      Prog.modify (.withResource r (afterRequest rates))
      requestNext env r
  Prog.modify (.withResource r fun d => { d with receiveLock := false })

/-! ## Proofs and timeouts -/

/-- `Resource::validate_proof` -/
def validateProof (r : Nat) (proofData : Bytes) : Prog String Endpoint Unit := do
  let e ← Prog.get
  let d := e.resources r
  Prog.when (d.status ≠ .failed ∧ proofData.length = hashBytes * 2
      ∧ proofData.mid hashBytes = d.expectedProof) do
    setStatus r .complete
    resourceConcluded env r
    concludedCallback r

/-- The window after a timeout of the receiver. -/
def shrinkWindow (d : ResourceData) : ResourceData :=
  if d.windowMin < d.window then
    let window := d.window - 1
    if d.windowMin < d.windowMax then
      let windowMax := d.windowMax - 1
      { d with
        window
        windowMax :=
          if (d.windowFlexibility.toNat : Int) - 1 < (windowMax.toNat : Int) - window.toNat then windowMax - 1
          else windowMax }
    else { d with window }
  else d

/-- `Resource::__watchdog_job`, in which the resource is late or not. -/
def watchdogJob (r : Nat) (late : Bool) : Prog String Endpoint Unit := do
  let e ← Prog.get
  let d := e.resources r
  Prog.when late do
    match d.status, d.initiator with
    | .advertised, _ =>
      if d.retriesLeft = 0 then cancel env r
      else
        Prog.catching (do
            let advertisement := env.encode ((Advertisement.ofResource d).pack 0)
            Prog.modify (.withResource r fun d =>
              { d with retriesLeft := d.retriesLeft - 1, advertisement })
            let _ ← send env .data ContextType.resourceAdv advertisement)
          fun _ => cancel env r
    | .transferring, true => cancel env r
    | .awaitingProof, _ =>
      if d.retriesLeft = 0 then cancel env r
      else Prog.modify (.withResource r fun d => { d with retriesLeft := d.retriesLeft - 1 })
    | .transferring, false =>
      if 0 < d.retriesLeft then do
        Prog.modify (.withResource r fun d =>
          { shrinkWindow d with retriesLeft := d.retriesLeft - 1, waitingForHmu := false })
        requestNext env r
      else cancel env r
    -- nothing is late in any other state, and a queued resource is not looked at
    | _, _ => pure ()

end MicroReticulum.Resource
