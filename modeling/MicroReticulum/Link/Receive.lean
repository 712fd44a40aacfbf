import MicroReticulum.Resource.Receiver
import MicroReticulum.Transport.Delivery

/-!
# What a link receives

`receive` is `Link::receive`: the dispatch of a packet by its context. `Input` is what can happen to an
endpoint, and a `run` is any sequence of inputs: packets of any contents in any order, ticks that find any
resource late, and calls of the application.

The proof of a data packet and the traffic counters are left out, and so is the measured round trip time.
-/

namespace MicroReticulum.Link

open MicroReticulum Packet Library Resource

variable (env : Env)

/-! ## Contexts -/

/-- `RESOURCE_ADV` of a response: it is accepted once for every pending request it answers. -/
def receiveResponseAdvertisement (adv : Advertisement) (plaintext : Bytes) : Prog String Endpoint Unit := do
  let e ← Prog.get
  Prog.forEach (e.pendingRequests.filter fun q => (e.receipts q).requestId = adv.q) fun q => do
    let accepted ← accept env plaintext adv.q false
    Prog.when accepted.isSome (Prog.modify (.withReceipt q fun receipt =>
      { receipt with
        responseSize := if receipt.responseTransferSize = 0 then adv.d else receipt.responseSize
        responseTransferSize := receipt.responseTransferSize + adv.t }))

/-- `RESOURCE_ADV` -/
def receiveAdvertisement (plaintext : Bytes) : Prog String Endpoint Unit := do
  let e ← Prog.get
  let adv := Advertisement.unpack (env.decode plaintext)
  if adv.isRequest then do
    let _ ← accept env plaintext adv.q false
  else if adv.isResponse then receiveResponseAdvertisement env adv plaintext
  else
    match e.resourceStrategy with
    | .acceptNone => pure ()
    | .acceptApp =>
      Prog.when e.resourceCallback
        (Prog.catching (do let _ ← accept env plaintext [] e.resourceConcludedCallback) fun _ => pure ())
    | .acceptAll => do
      let _ ← accept env plaintext [] e.resourceConcludedCallback

/-- `LINKIDENTIFY`: the public key of the remote identity, and its signature over the link id and the key. -/
def receiveIdentify (packet : Packet) (plaintext : Bytes) : Prog String Endpoint Unit := do
  let e ← Prog.get
  Prog.when (e.link.initiator = false ∧ plaintext.length = ecpubsize + siglength) do
    let publicKey := plaintext.left ecpubsize
    let signature := plaintext.midLen ecpubsize siglength
    Prog.when (env.verify (publicKey.mid 32) signature (e.link.linkId.toList ++ publicKey)) do
      Prog.modify fun e =>
        (e.withLink fun l => { l with remoteIdentity := some publicKey }).note (.identified packet publicKey)

/-- `REQUEST` -/
def receiveRequest (packet : Packet) : Prog String Endpoint Unit :=
  Prog.catching (do
      let packedRequest ← decrypt env packet.data
      Prog.when (packedRequest ≠ []) do
        match unpackRequestEnvelope env packedRequest with
        | none => pure ()
        | some request => handleRequest env (getTruncatedHash env.fullHash packet).toList request)
    fun _ => pure ()

/-- `from_array` into two byte strings. What the source says is the two it asks for; that nothing is read of
an array of another length, and that a value that is not a byte string is read as an empty one, is what the
packing library does. -/
def fromArray : List Library.Token → Bytes × Bytes
  | .arr n :: rest =>
    if n = 2 then
      let first := Advertisement.readBin rest
      (first.1, (Advertisement.readBin first.2).1)
    else ([], [])
  | _ => ([], [])

/-- `RESPONSE`. Two bytes are taken off the size as the header of the packed data. -/
def receiveResponse (packet : Packet) : Prog String Endpoint Unit :=
  Prog.catching (do
      let packedResponse ← decrypt env packet.data
      Prog.when (packedResponse ≠ []) do
        let (requestId, responseData) := fromArray (env.decode packedResponse)
        let transferSize := (env.encode [.bin responseData]).length - 2
        handleResponse requestId responseData transferSize transferSize)
    fun _ => pure ()

/-- `Link::rtt_packet`: a round trip time makes the link active. -/
def rttPacket (packet : Packet) : Prog String Endpoint Unit := do
  let plaintext ← decrypt env packet.data
  Prog.when (plaintext ≠ []) do
    let e ← Prog.get
    Prog.modify (.withLink fun l => { l with status := .active })
    Prog.modify (.note (.established e.link.status))

/-- `Link::teardown_packet` -/
def teardownPacket (packet : Packet) : Prog String Endpoint Unit := do
  let plaintext ← decrypt env packet.data
  let e ← Prog.get
  Prog.when (plaintext = e.link.linkId.toList) do
    Prog.modify (.note (.tornDown e.link.status))
    Prog.modify fun e =>
      { e with
        link := { e.link with status := .closed }
        teardownReason := if e.link.initiator then .destinationClosed else .initiatorClosed }
    linkClosed env

/-- The hash of the resource that a `RESOURCE_REQ` asks for. -/
def requestedHash (plaintext : Bytes) : Bytes :=
  if plaintext.byte 0 = hashmapIsExhausted ∧ plaintext ≠ [] then
    if 1 + maphashLen + hashBytes ≤ plaintext.length then plaintext.midLen (1 + maphashLen) hashBytes else []
  else if 1 + hashBytes ≤ plaintext.length then plaintext.midLen 1 hashBytes
  else []

/-- `RESOURCE_REQ`. A request that was seen before is not answered again. -/
def receiveResourceRequest (packet : Packet) (plaintext : Bytes) : Prog String Endpoint Unit := do
  let e ← Prog.get
  let hash := requestedHash plaintext
  Prog.when (hash ≠ []) do
    match e.outgoingResources.find? fun r => (e.resources r).hash = hash with
    | none => pure ()
    | some r =>
      let packetHash := getHash env.fullHash packet
      Prog.when (packetHash ∉ (e.resources r).reqHashlist) do
        Prog.modify (.withResource r fun d => { d with reqHashlist := d.reqHashlist ++ [packetHash] })
        Resource.request env r plaintext

/-- Call a function of every incoming resource with the hash in front of the plaintext. -/
def forIncoming (plaintext : Bytes) (f : Nat → Prog String Endpoint Unit) : Prog String Endpoint Unit := do
  let e ← Prog.get
  Prog.when (hashBytes ≤ plaintext.length)
    (Prog.forEach (e.incomingResources.filter fun r => (e.resources r).hash = plaintext.left hashBytes) f)

/-- Decrypt, and go on unless nothing is left. -/
def withPlaintext (packet : Packet) (f : Bytes → Prog String Endpoint Unit) : Prog String Endpoint Unit := do
  let plaintext ← decrypt env packet.data
  Prog.when (plaintext ≠ []) (f plaintext)

/-- The data packets of a link, by their context. -/
def receiveData (packet : Packet) (rates : Nat → Rates) : Prog String Endpoint Unit :=
  if packet.context = ContextType.none then
    withPlaintext env packet fun plaintext => Prog.modify (.note (.packet plaintext))
  else if packet.context = ContextType.linkidentify then withPlaintext env packet (receiveIdentify env packet)
  else if packet.context = ContextType.request then receiveRequest env packet
  else if packet.context = ContextType.response then receiveResponse env packet
  else if packet.context = ContextType.lrrtt then do
    let e ← Prog.get
    Prog.when (e.link.initiator = false) (rttPacket env packet)
  else if packet.context = ContextType.linkclose then teardownPacket env packet
  else if packet.context = ContextType.resourceAdv then withPlaintext env packet (receiveAdvertisement env)
  else if packet.context = ContextType.resourceReq then
    withPlaintext env packet (receiveResourceRequest env packet)
  else if packet.context = ContextType.resourceHmu then
    withPlaintext env packet fun plaintext =>
      forIncoming plaintext fun r => hashmapUpdatePacket env r plaintext
  else if packet.context = ContextType.resourceIcl then
    withPlaintext env packet fun plaintext => forIncoming plaintext (cancel env)
  else if packet.context = ContextType.keepalive then do
    let e ← Prog.get
    Prog.when (e.link.initiator = false ∧ packet.data = [0xFF]) do
      let _ ← send env .data ContextType.keepalive [0xFE]
  else if packet.context = ContextType.resource then do
    let e ← Prog.get
    Prog.forEach e.incomingResources fun r => receivePart env r packet (rates r)
  else pure ()

/-- The proof packets of a link: a `RESOURCE_PRF` starts with the hash of its resource. -/
def receiveProof (packet : Packet) : Prog String Endpoint Unit := do
  let e ← Prog.get
  Prog.when (packet.context = ContextType.resourcePrf)
    (Prog.forEach (e.outgoingResources.filter fun r => (e.resources r).hash = packet.data.left hashBytes)
      fun r => Resource.validateProof env r packet.data)

/-- `Link::receive`, of a packet that came in on the given interface. -/
def receive (packet : Packet) (receivingInterface : Option Transport.Interface) (rates : Nat → Rates) :
    Prog String Endpoint Unit := do
  let e ← Prog.get
  Prog.when (e.link.status ≠ .closed
      ∧ ¬ (e.link.initiator ∧ packet.context = ContextType.keepalive ∧ packet.data = [0xFF])
      ∧ Transport.sameInterface receivingInterface e.link.attachedInterface) do
    Prog.modify (.withLink fun l => { l with status := if l.status = .stale then .active else l.status })
    match packet.packetType with
    | .data => receiveData env packet rates
    | .proof => receiveProof env packet
    | _ => pure ()

/-- `Link::tick_resources` -/
def tickResources (late : Nat → Bool) : Prog String Endpoint Unit := do
  let e ← Prog.get
  Prog.when (e.link.status ≠ .closed) do
    Prog.forEach e.incomingResources fun r => watchdogJob env r (late r)
    Prog.forEach e.outgoingResources fun r => watchdogJob env r (late r)

/-! ## Runs -/

/-- What can happen to an endpoint. -/
inductive Input where
  | packet (packet : Packet) (receivingInterface : Option Transport.Interface) (rates : Nat → Rates)
  | tick (late : Nat → Bool)
  | request (path data : Bytes)
  /-- the application makes a resource and starts it -/
  | transfer (data requestId : Bytes) (isResponse concludedCallback : Bool)
  /-- the application cancels a resource -/
  | cancel (resource : Nat)
  /-- the application calls `rejected` -/
  | rejected (resource : Nat)
  | teardown
  /-- the application sets handlers, strategy and callbacks -/
  | configure (requestHandlers : List (Bytes × RequestHandler)) (resourceStrategy : ResourceStrategy)
      (resourceCallback resourceConcludedCallback : Bool)

/-- The application makes a resource and starts it. -/
def transfer (data requestId : Bytes) (isResponse concludedCallback : Bool) :
    Prog String Endpoint Unit := do
  let r ← newResource data
  Prog.modify (.withResource r fun d => { d with requestId, isResponse, concludedCallback })
  start env r

/-- The program behind an input. -/
def handle : Input → Prog String Endpoint Unit
  | .packet packet receivingInterface rates => receive env packet receivingInterface rates
  | .tick late => tickResources env late
  | .request path data => do
    let _ ← request env path data
  | .transfer data requestId isResponse concludedCallback =>
    transfer env data requestId isResponse concludedCallback
  | .cancel r => do
    let e ← Prog.get
    Prog.when (r < e.created) (Resource.cancel env r)
  | .rejected r => do
    let e ← Prog.get
    Prog.when (r < e.created) (Resource.rejected r)
  | .teardown => teardown env
  | .configure requestHandlers resourceStrategy resourceCallback resourceConcludedCallback =>
    Prog.modify fun e =>
      { e with requestHandlers, resourceStrategy, resourceCallback, resourceConcludedCallback }

/-- The endpoint after an input. An exception ends up in the main loop. -/
def step (e : Endpoint) (input : Input) : Endpoint := (handle env input e).2

/-- The endpoint after a sequence of inputs. -/
def run (e : Endpoint) (inputs : List Input) : Endpoint := inputs.foldl (step env) e

/-- An endpoint on which nothing has happened yet. -/
structure Endpoint.Fresh (e : Endpoint) : Prop where
  created : e.created = 0
  incoming : e.incomingResources = []
  outgoing : e.outgoingResources = []
  resources : ∀ r, e.resources r = {}
  pending : e.pendingRequests = []
  remoteIdentity : e.link.remoteIdentity = none
  events : e.events = []

namespace Sample

/-- Objects in the short forms of `MsgPack`, where every floating point number is zero. -/
def encodeToken : Library.Token → Bytes
  | .nil => [0xC0]
  | .bool b => [if b then 0xC3 else 0xC2]
  | .int v => [UInt8.ofNat v.toNat]
  | .float _ => 0xCB :: List.replicate 8 0
  | .str s => (0xA0 ||| UInt8.ofNat s.length) :: s
  | .bin b => 0xC4 :: UInt8.ofNat b.length :: b
  | .arr n => [0x90 ||| UInt8.ofNat n]
  | .map n => [0x80 ||| UInt8.ofNat n]
  | .ext => [0xC1]

/-- Their reader. -/
def decodeTokens : Nat → Bytes → List Library.Token
  | 0, _ => []
  | _, [] => []
  | k + 1, b :: rest =>
    if b < 0x80 then .int b.toNat :: decodeTokens k rest
    else if b < 0x90 then .map (b &&& 0x0F).toNat :: decodeTokens k rest
    else if b < 0xA0 then .arr (b &&& 0x0F).toNat :: decodeTokens k rest
    else if b < 0xC0 then
      let n := (b &&& 0x1F).toNat
      .str (rest.take n) :: decodeTokens k (rest.drop n)
    else if b = 0xC0 then .nil :: decodeTokens k rest
    else if b = 0xC2 then .bool false :: decodeTokens k rest
    else if b = 0xC3 then .bool true :: decodeTokens k rest
    else if b = 0xC4 then
      let n := (Bytes.byte rest 0).toNat
      .bin ((rest.drop 1).take n) :: decodeTokens k (rest.drop (1 + n))
    else if b = 0xCB then .float (.fin 0) :: decodeTokens k (rest.drop 8)
    else .ext :: decodeTokens k rest

/-- Surroundings in which nothing is encrypted and every packet is sent. -/
def plainEnv (fullHash : Bytes → Hash) : Env where
  ciphers := Transport.Sample.plainCiphers
  fullHash
  verify _ signature _ := signature = List.replicate siglength 7
  encode ts := ts.flatMap encodeToken
  decode b := decodeTokens b.length b
  encodeFloat32 _ := 0xCA :: List.replicate 4 0
  isFloat32 b := b.byte 1 = 0xCA
  iv _ := List.replicate 16 0
  randomHash _ := [5, 5, 5, 5]
  now _ := .fin 0
  transmits _ := true

/-- An active link. -/
def link (initiator : Bool) : LinkState where
  initiator
  status := .active
  linkId := .fill 0
  prv := []
  pubBytes := []
  sigPrv := []
  sigPubBytes := []
  derivedKey := List.replicate 64 0

/-- A plaintext as it travels. -/
def wire (plaintext : Bytes) : Bytes :=
  List.replicate 16 0 ++ Cryptography.pad plaintext ++ List.replicate 32 0

/-- A data packet for the link, as it arrives. -/
def arrived (context : ContextType) (data : Bytes) : Packet :=
  ofLayout 0b00001100 0 none (.fill 0) context data

def rates : Rates where
  fastFirst := false
  measured := false
  fast := false
  verySlow := false

/-- The packet comes in. -/
def comesIn (p : Packet) : Input := .packet p none fun _ => rates

end Sample

end MicroReticulum.Link
