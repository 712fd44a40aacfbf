import MicroReticulum.Resource.Sender

/-!
# Requests and responses

A request or a response travels in one packet, or as a resource when its envelope does not fit one. The
envelope is an array of `MsgPack` whose last element is spliced in as the caller packed it.

`resourceConcluded` is `Link::resource_concluded`: it hands a complete incoming resource that belongs to a
request on to the handler of requests or of responses.
-/

namespace MicroReticulum.Link

open MicroReticulum Packet Library Resource

variable (env : Env)

/-! ## Envelopes -/

/-- `pack_response_envelope` -/
def packResponseEnvelope (requestId rawPayload : Bytes) : Bytes :=
  env.encode [.arr 2, .bin requestId] ++ rawPayload

/-- `pack_request_envelope` -/
def packRequestEnvelope (timestamp : Double) (pathHash rawPayload : Bytes) : Bytes :=
  env.encode [.arr 3, .float timestamp, .bin pathHash] ++ rawPayload

/-- What follows a prefix of the given size. -/
def splice (packed : Bytes) (cursor : Nat) : Option Bytes :=
  if packed.length < cursor then none else some (packed.mid cursor)

/-- `unpack_response_envelope`: the id and the payload. -/
def unpackResponseEnvelope (packed : Bytes) : Option (Bytes × Bytes) :=
  if packed.length < 2 then none
  else
    match env.decode packed with
    | .arr n :: .bin requestId :: _ =>
      if n < 2 then none
      else (splice packed (env.encode [.arr n, .bin requestId]).length).map fun raw => (requestId, raw)
    | _ => none

/-- `unpack_request_envelope` -/
def unpackRequestEnvelope (packed : Bytes) : Option ResourceRequest :=
  if packed.length < 2 then none
  else
    match env.decode packed with
    | .arr n :: .float requestedAt :: .bin pathHash :: _ =>
      if n < 3 then none
      else
        let cursor :=
          if env.isFloat32 packed then
            (env.encode [.arr n]).length + (env.encodeFloat32 requestedAt).length
              + (env.encode [.bin pathHash]).length
          else (env.encode [.arr n, .float requestedAt, .bin pathHash]).length
        (splice packed cursor).map fun requestData => { requestedAt, pathHash, requestData }
    | _ => none

/-! ## Making a request -/

/-- `Link::request`: the number of the receipt. `send` returns the packet, of which a `PacketReceipt` is made
in any case, so the test for a missing one is never true. -/
def request (path data : Bytes) : Prog String Endpoint Nat := do
  let e ← Prog.get
  let packedRequest := packRequestEnvelope env (env.now e.draws) (truncatedHash env.fullHash path).toList data
  if packedRequest.length ≤ linkMdu then do
    let p ← send env .data ContextType.request packedRequest
    Prog.modify (.addReceipt
      { requestId := (getTruncatedHash env.fullHash p).toList, requestSize := packedRequest.length
        hasPacketReceipt := true })
    pure e.requested
  else do
    let requestId := (truncatedHash env.fullHash packedRequest).toList
    let r ← newResource packedRequest
    Prog.modify (.withResource r fun d => { d with requestId })
    start env r
    Prog.modify (.addReceipt { requestId, requestSize := packedRequest.length, hasPacketReceipt := false })
    pure e.requested

/-! ## Handling a request -/

/-- May a handler run for the remote identity of the link? -/
def isAllowed (handler : RequestHandler) (remoteIdentity : Option Bytes) : Bool :=
  match handler.allow with
  | .allowNone => false
  | .allowList =>
    match remoteIdentity with
    | some publicKey => truncatedHash env.fullHash publicKey ∈ handler.allowedList
    | none => false
  | .allowAll => true

/-- What `handle_request` does with a response: a packet, or a resource where the packet would be too
large. -/
def respond (requestId response : Bytes) : Prog String Endpoint Unit := do
  let packedResponse := packResponseEnvelope env requestId response
  if packedResponse.length ≤ linkMdu then do
    let _ ← send env .data ContextType.response packedResponse
  else do
    let r ← newResource packedResponse
    Prog.modify (.withResource r fun d => { d with requestId, isResponse := true })
    start env r

/-- `Link::handle_request` -/
def handleRequest (requestId : Bytes) (request : ResourceRequest) : Prog String Endpoint Unit := do
  let e ← Prog.get
  Prog.when (e.link.status = .active) do
    match e.requestHandlers.lookup request.pathHash with
    | none => pure ()
    | some handler =>
      Prog.when (isAllowed env handler e.link.remoteIdentity) do
        let call : GeneratorCall :=
          { path := handler.path, data := request.requestData, requestId, linkId := e.link.linkId
            remoteIdentity := e.link.remoteIdentity, requestedAt := request.requestedAt }
        Prog.modify (.note (.generated handler call e.link.status))
        let response ← Prog.ofExcept (handler.responseGenerator call)
        Prog.when (response ≠ []) (respond env requestId response)

/-! ## Handling a response -/

/-- `RequestReceipt::response_received` -/
def responseReceived (receipt : Nat) (response : Bytes) : Prog String Endpoint Unit := do
  let e ← Prog.get
  Prog.when ((e.receipts receipt).status ≠ .failed) do
    Prog.modify (.withReceipt receipt fun q => { q with response, status := .ready })
    Prog.modify (.note (.answered receipt))

/-- `RequestReceipt::request_timed_out` -/
def requestTimedOut (receipt : Nat) : Prog String Endpoint Unit := do
  Prog.modify (.withReceipt receipt fun q => { q with status := .failed })
  Prog.modify fun e => { e with pendingRequests := e.pendingRequests.filter (· ≠ receipt) }
  Prog.modify (.note (.failed receipt))

/-- `Link::handle_response` -/
def handleResponse (requestId responseData : Bytes) (responseSize responseTransferSize : Nat) :
    Prog String Endpoint Unit := do
  let e ← Prog.get
  Prog.when (e.link.status = .active) do
    match e.pendingRequests.find? fun q => (e.receipts q).requestId = requestId with
    | none => pure ()
    | some receipt =>
      Prog.modify (.withReceipt receipt fun q =>
        { q with responseSize, responseTransferSize := q.responseTransferSize + responseTransferSize })
      responseReceived receipt responseData
      Prog.modify fun e => { e with pendingRequests := e.pendingRequests.filter (· ≠ receipt) }

/-! ## Concluded resources -/

/-- `Link::request_resource_concluded` -/
def requestResourceConcluded (r : Nat) : Prog String Endpoint Unit := do
  let e ← Prog.get
  let d := e.resources r
  Prog.when (d.status = .complete) do
    match unpackRequestEnvelope env d.data with
    | none => pure ()
    | some request => handleRequest env (truncatedHash env.fullHash d.data).toList request

/-- `Link::response_resource_concluded` -/
def responseResourceConcluded (r : Nat) : Prog String Endpoint Unit := do
  let e ← Prog.get
  let d := e.resources r
  if d.status = .complete then
    match unpackResponseEnvelope env d.data with
    | none => pure ()
    | some (requestId, responseData) => handleResponse requestId responseData d.totalSize d.size
  else
    Prog.forEach (e.pendingRequests.filter fun q => (e.receipts q).requestId = d.requestId) requestTimedOut

/-- `Link::resource_concluded` -/
def resourceConcluded (r : Nat) : Prog String Endpoint Unit := do
  let e ← Prog.get
  Prog.modify (unregister r)
  let d := e.resources r
  Prog.when (r ∈ e.incomingResources ∧ d.status = .complete ∧ d.requestId ≠ []) do
    if d.isResponse then responseResourceConcluded env r
    else requestResourceConcluded env r

end MicroReticulum.Link
