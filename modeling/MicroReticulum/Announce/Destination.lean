import MicroReticulum.Announce.Validate
import MicroReticulum.Transport.Outbound

/-!
# Destinations that announce themselves

`Destination.create` is the naming constructor of `Destination` and `announce` the function that builds
the announce packet of a destination. The hash of a destination is computed in the constructor, from a
name that gets the hash of an identity the constructor has just created as a further aspect; the name
hash that is announced leaves this aspect out.

Keys are bytes, with the operations on them a parameter; an identity that holds a signing key announces
the public key that belongs to it. Whether the packet is then sent or returned to the caller is left
out, and so is the registration with the transport layer.
-/

namespace MicroReticulum.Announce

open MicroReticulum Packet Link Library Transport

/-! ## Identities -/

/-- `X25519PrivateKey::public_key`, `Ed25519::derivePublicKey` and `Ed25519::sign` with a private key. -/
structure KeyLibrary where
  exchangePublic : Bytes → List.Vector UInt8 32
  derivePublicKey : Bytes → List.Vector UInt8 32
  sign : Bytes → Bytes → List.Vector UInt8 64

variable {keys : KeyLibrary}

/-- The keys of an `Identity`: both public keys, and the private signing key where there is one. -/
structure Identity (keys : KeyLibrary) where
  pubBytes : Bytes
  sigPubBytes : Bytes
  sigPrv : Option Bytes
  derived : ∀ prv, sigPrv = some prv → pubBytes.length = ecpubsize / 2
    ∧ sigPubBytes = (keys.derivePublicKey prv).toList

namespace Identity

/-- `Identity::createKeys`, from its two random private keys, and `load_private_key` -/
def createKeys (keys : KeyLibrary) (prv sigPrv : Bytes) : Identity keys where
  pubBytes := (keys.exchangePublic prv).toList
  sigPubBytes := (keys.derivePublicKey sigPrv).toList
  sigPrv := some sigPrv
  derived := by
    rintro _ ⟨⟩
    exact ⟨List.Vector.toList_length _, rfl⟩

/-- `Identity::load_public_key` -/
def loadPublicKey (keys : KeyLibrary) (pubBytes : Bytes) : Identity keys where
  pubBytes := pubBytes.left (ecpubsize / 2)
  sigPubBytes := pubBytes.mid (ecpubsize / 2)
  sigPrv := none
  derived := by
    rintro _ ⟨⟩

/-- `Identity::get_public_key` -/
def getPublicKey (i : Identity keys) : Bytes := i.pubBytes ++ i.sigPubBytes

/-- `_hash` -/
def hash (fullHash : Bytes → Hash) (i : Identity keys) : Address :=
  truncatedHash fullHash i.getPublicKey

/-- `Identity::sign` -/
def sign (i : Identity keys) (message : Bytes) : Except String Bytes :=
  match i.sigPrv with
  | none => .error "Signing failed because identity does not hold a private key"
  | some prv => .ok (keys.sign prv message).toList

theorem getPublicKey_length {i : Identity keys} (h : i.sigPrv.isSome) :
    i.getPublicKey.length = ecpubsize := by
  obtain ⟨prv, hprv⟩ := Option.isSome_iff_exists.mp h
  obtain ⟨hpub, hsig⟩ := i.derived prv hprv
  unfold getPublicKey
  simp only [List.length_append, hpub, hsig, List.Vector.toList_length, ecpubsize]

end Identity

/-! ## Names -/

/-- A hexadecimal digit, in ASCII. -/
def hexDigit (n : UInt8) : UInt8 := if n < 10 then 48 + n else 87 + n

/-- `Bytes::toHex` -/
def toHex (b : Bytes) : Bytes := b.flatMap fun x : UInt8 => [hexDigit (x >>> 4), hexDigit (x &&& 0x0F)]

/-- `.` in ASCII -/
def dot : UInt8 := 46

/-- `Identity::hexhash` -/
def Identity.hexhash (fullHash : Bytes → Hash) (i : Identity keys) : Bytes :=
  toHex (i.hash fullHash).toList

/-- `Destination::expand_name`, with the hash of the identity in hexadecimal. -/
def expandName (hexhash : Option Bytes) (appName : Bytes) (aspects : Option Bytes) :
    Except String Bytes :=
  if dot ∈ appName then .error "Dots can't be used in app names"
  else .ok (appName ++ (aspects.map (dot :: ·)).getD [] ++ (hexhash.map (dot :: ·)).getD [])

/-- `Destination::name_hash` -/
def nameHash (fullHash : Bytes → Hash) (appName aspects : Bytes) :
    Except String (List.Vector UInt8 nameHashLength) :=
  (expandName none appName (some aspects)).map fun name =>
    ⟨Bytes.left (fullHash name).toList nameHashLength, by simp [nameHashLength]⟩

/-- `Destination::hash` -/
def destinationHash (fullHash : Bytes → Hash) (identity : Option (Identity keys))
    (appName aspects : Bytes) : Except String Address :=
  (nameHash fullHash appName aspects).map fun name =>
    truncatedHash fullHash (name.toList ++ (identity.map fun i => (i.hash fullHash).toList).getD [])

/-! ## The naming constructor -/

/-- `Type::Destination::directions` -/
inductive Direction where
  | incoming | outgoing
  deriving DecidableEq, Repr

/-- An entry of `_path_responses`. -/
structure PathResponse where
  tag : Bytes
  time : ℚ
  data : Bytes

/-- The fields of a `Destination` that have to do with its name and its announces. -/
structure Destination (keys : KeyLibrary) where
  type : DestinationType
  direction : Direction
  identity : Option (Identity keys)
  name : Bytes
  hash : Address
  nameHash : List.Vector UInt8 nameHashLength
  defaultAppData : Bytes := []
  pathResponses : List PathResponse := []

/-- The constructor `Destination(identity, direction, type, app_name, aspects)`; `fresh` is the identity
it creates when it is given none. -/
def Destination.create (fullHash : Bytes → Hash) (fresh : Identity keys)
    (identity : Option (Identity keys)) (direction : Direction) (type : DestinationType)
    (appName aspects : Bytes) : Except String (Destination keys) :=
  if dot ∈ appName then .error "Dots can't be used in app names"
  else
    let creates := identity.isNone && direction = .incoming && type ≠ .plain
    let identity := if creates then some fresh else identity
    let fullaspects := if creates then aspects ++ dot :: fresh.hexhash fullHash else aspects
    if identity.isSome && type = .plain then
      .error "Selected destination type PLAIN cannot hold an identity"
    else do
      let name ← expandName (identity.map (Identity.hexhash fullHash)) appName (some fullaspects)
      let hash ← destinationHash fullHash identity appName fullaspects
      let nameHash ← Announce.nameHash fullHash appName aspects
      pure { type, direction, identity, name, hash, nameHash }

/-! ## `announce` -/

/-- The arguments of a call of `announce`, the clock and the five random bytes it draws. -/
structure AnnounceCall where
  appData : Bytes
  pathResponse : Bool := false
  attachedInterface : Option Interface := none
  tag : Bytes := []
  now : ℚ
  random : List.Vector UInt8 5

/-- `Type::Destination::PR_TAG_WINDOW` -/
def prTagWindow : ℚ := 30

/-- The time in seconds as five bytes, the highest first. -/
def timeBytes (now : ℚ) : Bytes :=
  let seconds := ⌊now⌋.toNat
  [.ofNat (seconds >>> 32), .ofNat (seconds >>> 24), .ofNat (seconds >>> 16), .ofNat (seconds >>> 8),
    .ofNat seconds]

/-- `random_hash` -/
def AnnounceCall.randomHash (c : AnnounceCall) : Bytes := c.random.toList ++ timeBytes c.now

namespace Destination

variable (d : Destination keys) (c : AnnounceCall)

/-- The removal of old path responses. -/
def dropExpired (now : ℚ) : Destination keys :=
  { d with pathResponses := d.pathResponses.filter fun r => now ≤ r.time + prTagWindow }

/-- The path response that is sent once more, for a tag that was answered before. -/
def cachedResponse : Option Bytes :=
  if c.pathResponse ∧ c.tag ≠ [] then
    (d.pathResponses.find? fun r => r.tag = c.tag).map PathResponse.data
  else none

/-- `new_app_data` -/
def newAppData : Bytes := if c.appData = [] then d.defaultAppData else c.appData

/-- `announce_data`, signed with the keys of the identity. -/
def announceData (i : Identity keys) (randomHash appData : Bytes) : Except String Bytes :=
  (i.sign (d.hash.toList ++ i.getPublicKey ++ d.nameHash.toList ++ randomHash ++ appData)).map
    fun signature => i.getPublicKey ++ d.nameHash.toList ++ randomHash ++ signature ++ appData

/-- `std::map::insert` on `_path_responses`. -/
def insertResponse (r : PathResponse) : Destination keys :=
  if d.pathResponses.any fun r' => r'.tag = r.tag then d
  else { d with pathResponses := r :: d.pathResponses }

/-- The announce packet; its constructor cuts the data at the MDU. -/
def announcePacket (data : Bytes) : NewPacket where
  spec :=
    { destinationType := d.type
      destinationHash := d.hash
      packetType := .announce
      context := if c.pathResponse then ContextType.pathResponse else ContextType.none
      data := data.left reticulumMdu }
  attachedInterface := c.attachedInterface

/-- The part of `announce` within its `try`. An empty identity is asserted against. -/
def announceTry : Prog String (Destination keys) (Option NewPacket) := do
  Prog.modify (dropExpired · c.now)
  let d ← Prog.get
  match d.cachedResponse c with
  | some data => pure (some (d.announcePacket c data))
  | none =>
    match d.identity with
    | none => Prog.wait
    | some i => do
      let data ← Prog.ofExcept (d.announceData i c.randomHash (d.newAppData c))
      Prog.modify (insertResponse · { tag := c.tag, time := c.now, data })
      pure (some (d.announcePacket c data))

/-- `Destination::announce`; it returns the packet, which is `NONE` when something was thrown. -/
def announce : Prog String (Destination keys) (Option NewPacket) := do
  let d ← Prog.get
  Prog.require (d.type = .single) "Only SINGLE destination types can be announced"
  Prog.require (d.direction = .incoming) "Only IN destination types can be announced"
  Prog.catching (announceTry c) fun _ => pure none

/-- The application data the announce of a call carries: that of the response it repeats, or its own. -/
def announcedAppData : Bytes :=
  match (d.dropExpired c.now).cachedResponse c with
  | some data => data.mid (announceHeadLength + siglength)
  | none => d.newAppData c

end Destination

/-! ## Runs of a destination -/

/-- What happens to a destination after it was made: it is announced, or its default application data is
set. -/
inductive DestinationStep : Destination keys → Destination keys → Prop
  | announce (d : Destination keys) (c : AnnounceCall) : DestinationStep d (Destination.announce c d).2
  | defaultAppData (d : Destination keys) (appData : Bytes) :
    DestinationStep d { d with defaultAppData := appData }

/-- An announce of a destination that has the name and the keys of `d`. -/
def Destination.IsAnnounce (d : Destination keys) (i : Identity keys) (data : Bytes) : Prop :=
  ∃ randomHash appData, randomHash.length = randomHashLength
    ∧ d.announceData i randomHash appData = .ok data

/-- What stays the same: name and keys, and that every path response is an announce. -/
structure Destination.Announces (d₀ d : Destination keys) (i : Identity keys) : Prop where
  type : d.type = .single
  direction : d.direction = .incoming
  identity : d.identity = some i
  hash : d.hash = d₀.hash
  nameHash : d.nameHash = d₀.nameHash
  responses : ∀ r ∈ d.pathResponses, d₀.IsAnnounce i r.data

namespace Destination.Announces

variable {d₀ d : Destination keys} {i : Identity keys}

theorem timeBytes_length (now : ℚ) : (timeBytes now).length = 5 := rfl

theorem randomHash_length (c : AnnounceCall) : c.randomHash.length = randomHashLength := by
  simp [AnnounceCall.randomHash, timeBytes_length, randomHashLength]

theorem dropExpired (h : d₀.Announces d i) (now : ℚ) : d₀.Announces (d.dropExpired now) i :=
  { h with responses := fun r hr => h.responses r (List.mem_of_mem_filter hr) }

theorem announceData_eq (h : d₀.Announces d i) (randomHash appData : Bytes) :
    d.announceData i randomHash appData = d₀.announceData i randomHash appData := by
  unfold Destination.announceData
  rw [h.hash, h.nameHash]

theorem insertResponse (h : d₀.Announces d i) {r : PathResponse} (hr : d₀.IsAnnounce i r.data) :
    d₀.Announces (d.insertResponse r) i := by
  unfold Destination.insertResponse
  split
  · exact h
  · refine { h with responses := fun r' hr' => ?_ }
    rcases List.mem_cons.mp hr' with rfl | hold
    · exact hr
    · exact h.responses r' hold

/-- A path response that is repeated is an announce. -/
theorem cachedResponse (h : d₀.Announces d i) {c : AnnounceCall} {data : Bytes}
    (hdata : d.cachedResponse c = some data) : d₀.IsAnnounce i data := by
  unfold Destination.cachedResponse at hdata
  split at hdata
  case isFalse => cases hdata
  case isTrue =>
    obtain ⟨r, hr, rfl⟩ := Option.map_eq_some_iff.mp hdata
    exact h.responses r (List.mem_of_find?_eq_some hr)

/-- The application data is what stands behind the signature. -/
theorem announceData_appData (hsigns : i.sigPrv.isSome) {randomHash appData data : Bytes}
    (hrandom : randomHash.length = randomHashLength)
    (hdata : d₀.announceData i randomHash appData = .ok data) :
    data.mid (announceHeadLength + siglength) = appData := by
  obtain ⟨prv, hprv⟩ := Option.isSome_iff_exists.mp hsigns
  simp only [Destination.announceData, Identity.sign, hprv, Except.map, Except.ok.injEq] at hdata
  subst hdata
  apply Bytes.mid_append
  simp only [List.length_append, Identity.getPublicKey_length hsigns, hrandom,
    List.Vector.toList_length]
  rfl

/-- A call on a destination whose identity can sign sends an announce of it, with the application data
of the call. -/
theorem announce_run (h : d₀.Announces d i) (hsigns : i.sigPrv.isSome) (c : AnnounceCall) :
    ∃ data d', Destination.announce c d = (.value (some (d.announcePacket c data)), d')
      ∧ d₀.Announces d' i
      ∧ ∃ randomHash, randomHash.length = randomHashLength
        ∧ d₀.announceData i randomHash (d.announcedAppData c) = .ok data := by
  have hfresh := h.dropExpired c.now
  have htry : ∀ r, Destination.announceTry c d = r → (∀ e, r.1 ≠ .thrown e) →
      Destination.announce c d = r := by
    rintro ⟨o, d'⟩ hr hne
    unfold Destination.announce
    rw [Prog.get_bind_run, Prog.bind_value (Prog.require_run_of h.type _ _),
      Prog.bind_value (Prog.require_run_of h.direction _ _)]
    unfold Prog.catching
    rw [hr]
    cases o with
    | thrown e => exact absurd rfl (hne e)
    | _ => rfl
  cases hcached : (d.dropExpired c.now).cachedResponse c with
  | some data =>
    obtain ⟨randomHash, appData, hrandom, hdata⟩ := hfresh.cachedResponse hcached
    refine ⟨data, d.dropExpired c.now, htry _ ?_ (fun e => by simp), hfresh, randomHash, hrandom, ?_⟩
    · unfold Destination.announceTry
      simp only [Prog.modify_bind_run, Prog.get_bind_run, hcached]
      rfl
    · unfold Destination.announcedAppData
      rw [hcached]
      dsimp only
      rw [announceData_appData hsigns hrandom hdata, hdata]
  | none =>
    obtain ⟨prv, hprv⟩ := Option.isSome_iff_exists.mp hsigns
    have hdata : ∃ data, d₀.announceData i c.randomHash (d.newAppData c) = .ok data := by
      simp [Destination.announceData, Identity.sign, hprv, Except.map]
    obtain ⟨data, hdata⟩ := hdata
    have hresponse : d₀.IsAnnounce i data := ⟨_, _, randomHash_length c, hdata⟩
    refine ⟨data, _, htry _ ?_ (fun e => by simp), hfresh.insertResponse
      (r := { tag := c.tag, time := c.now, data }) hresponse, c.randomHash, randomHash_length c, ?_⟩
    · unfold Destination.announceTry
      simp only [Prog.modify_bind_run, Prog.get_bind_run, hcached, hfresh.identity]
      rw [hfresh.announceData_eq, show (d.dropExpired c.now).newAppData c = d.newAppData c from rfl,
        hdata]
      rfl
    · unfold Destination.announcedAppData
      rw [hcached]
      exact hdata

theorem run (h : d₀.Announces d₀ i) (hsigns : i.sigPrv.isSome)
    (hrun : Relation.ReflTransGen DestinationStep d₀ d) : d₀.Announces d i := by
  induction hrun with
  | refl => exact h
  | tail _ hstep ih =>
    cases hstep with
    | announce c =>
      obtain ⟨_, d', hannounce, hd', _⟩ := ih.announce_run hsigns c
      rw [hannounce]
      exact hd'
    | defaultAppData appData => exact { ih with }

end Destination.Announces

/-! ## What the naming constructor makes -/

variable {fullHash : Bytes → Hash} {fresh : Identity keys} {identity : Option (Identity keys)}
  {appName aspects : Bytes}

theorem nameHash_ok (fullHash : Bytes → Hash) (hdot : dot ∉ appName) (aspects : Bytes) :
    ∃ n, nameHash fullHash appName aspects = .ok n := by
  unfold nameHash expandName
  rw [if_neg hdot]
  exact ⟨_, rfl⟩

theorem destinationHash_ok {i : Identity keys} {n : List.Vector UInt8 nameHashLength}
    (h : nameHash fullHash appName aspects = .ok n) :
    destinationHash fullHash (some i) appName aspects
      = .ok (expectedHash fullHash n.toList i.getPublicKey) := by
  simp [destinationHash, h, Except.map, expectedHash, Identity.hash]

/-- The destination hash is the same with and without the created identity among the aspects. -/
def Destination.NameCollides (fullHash : Bytes → Hash) (fresh : Identity keys)
    (appName aspects : Bytes) : Prop :=
  destinationHash fullHash (some fresh) appName (aspects ++ dot :: fresh.hexhash fullHash)
    = destinationHash fullHash (some fresh) appName aspects

/-- A destination that takes announces has the identity it was given or the one that was created, and
its hash is the one its announces stand for exactly when the name hash leaves nothing out. -/
theorem Destination.create_incoming {d : Destination keys}
    (h : Destination.create fullHash fresh identity .incoming .single appName aspects = .ok d) :
    d.Announces d (identity.getD fresh)
      ∧ (d.hash = expectedHash fullHash d.nameHash.toList (identity.getD fresh).getPublicKey
        ↔ identity.isSome ∨ Destination.NameCollides fullHash fresh appName aspects) := by
  unfold Destination.create at h
  split at h
  case isTrue => cases h
  case isFalse hdot =>
    obtain ⟨n, hn⟩ := nameHash_ok fullHash hdot aspects
    cases identity with
    | some i =>
      simp [expandName, hdot, destinationHash_ok hn, hn, bind, Except.bind, pure, Except.pure] at h
      subst h
      exact ⟨⟨rfl, rfl, rfl, rfl, rfl, fun r hr => by cases hr⟩, by simp⟩
    | none =>
      obtain ⟨n', hn'⟩ := nameHash_ok fullHash hdot
        (aspects ++ dot :: fresh.hexhash fullHash)
      simp [expandName, hdot, destinationHash_ok hn', hn, bind, Except.bind, pure, Except.pure] at h
      subst h
      refine ⟨⟨rfl, rfl, rfl, rfl, rfl, fun r hr => by cases hr⟩, ?_⟩
      simp [Destination.NameCollides, destinationHash_ok hn', destinationHash_ok hn]

/-! ## Believed by a peer -/

/-- A packet, packed and unpacked at a node in a state `s`, is a valid announce, and what the node then
recalls for the destination is the key of the identity and the application data. -/
def Believed (env : Environment) (encrypt : PacketSpec → Bytes → Except String Bytes)
    (s : TransportState) (d : Destination keys) (i : Identity keys) (packet : NewPacket)
    (appData : Bytes) : Prop :=
  ∃ p q t t', pack encrypt packet.spec = .ok p ∧ unpack p.raw = some q
    ∧ validateAnnounce env q false s = (.value true, t)
    ∧ identityRecall env d.hash t = (.value (some { publicKey := i.getPublicKey, appData }), t')

theorem identityRecall_putIdentity (env : Environment) (h : Address) (entry : IdentityEntry)
    (s : TransportState) :
    identityRecall env h (putIdentity h entry s) = (.value (some entry), putIdentity h entry s) := by
  have hfound : (putIdentity h entry s).knownDestinations.lookup h = some entry := by
    simp [putIdentity]
  have hknown : h ∈ (putIdentity h entry s).knownDestinations := by simp [putIdentity]
  unfold identityRecall
  simp only [Prog.get_bind_run, recalled, hfound]
  rw [Prog.when_of_not (fun hnot => hnot.1 hknown)]
  rfl

/-- The announce of a destination arrives as it was built. -/
theorem announcePacket_arrives {d₀ d : Destination keys} {i : Identity keys}
    (encrypt : PacketSpec → Bytes → Except String Bytes) (h : d₀.Announces d i) (c : AnnounceCall)
    {data : Bytes} (hfits : data.length ≤ reticulumMdu) :
    ∃ p q, pack encrypt (d.announcePacket c data).spec = .ok p ∧ unpack p.raw = some q
      ∧ q.packetType = .announce ∧ q.contextFlag = .unset ∧ q.destinationHash = d₀.hash
      ∧ q.data = data := by
  have hdata : (d.announcePacket c data).spec.data = data := List.take_of_length_le hfits
  have htype : (d.announcePacket c data).spec.packetType = .announce := rfl
  have hcontext : (d.announcePacket c data).spec.context ≠ ContextType.lrproof := by
    show (if c.pathResponse then ContextType.pathResponse else ContextType.none) ≠ _
    cases c.pathResponse <;> decide
  have hid : (d.announcePacket c data).spec.transportId.isSome
      ↔ (d.announcePacket c data).spec.headerType = .header2 := by
    simp [Destination.announcePacket]
  have hmtu : headerMaxsize + (d.announcePacket c data).spec.data.length
      ≤ (d.announcePacket c data).spec.mtu := by
    rw [hdata]
    show headerMaxsize + data.length ≤ reticulumMtu
    unfold reticulumMdu at hfits
    have hroom : headerMaxsize ≤ reticulumMtu := by decide
    omega
  obtain ⟨p, hpack, -, hunpack, hflags⟩ :=
    unpack_pack_announce encrypt htype hcontext (.inl rfl) hid hmtu
  refine ⟨p, _, hpack, hunpack, ?_, ?_, h.hash, hdata⟩
  · simp only [ofLayout, hflags]
  · simp only [ofLayout, hflags]
    rfl

/-- Data that was signed for a destination, as its receiver reads it. -/
theorem announceFields_announceData {d : Destination keys} {i : Identity keys}
    (hholds : i.sigPrv.isSome) {randomHash appData data : Bytes}
    (hrandom : randomHash.length = randomHashLength)
    (hdata : d.announceData i randomHash appData = .ok data) :
    ∃ signature, announceFields .unset data
        = { publicKey := i.getPublicKey, nameHash := d.nameHash.toList, randomHash, ratchet := []
            signature, appData }
      ∧ i.sign (d.hash.toList ++ i.getPublicKey ++ d.nameHash.toList ++ randomHash ++ appData)
        = .ok signature
      ∧ data.length = announceHeadLength + siglength + appData.length := by
  obtain ⟨prv, hprv⟩ := Option.isSome_iff_exists.mp hholds
  simp only [Destination.announceData, Identity.sign, hprv, Except.map, Except.ok.injEq] at hdata
  subst hdata
  refine ⟨_, announceFields_append (Identity.getPublicKey_length hholds) ?_ hrandom ?_, ?_, ?_⟩
  · exact List.Vector.toList_length _
  · exact List.Vector.toList_length _
  · simp [Identity.sign, hprv]
  · simp only [List.length_append, Identity.getPublicKey_length hholds, hrandom,
      List.Vector.toList_length, announceHeadLength, siglength]

/-- A signature of the identity is verified with its public key. -/
theorem verify_sign {env : Environment} {i : Identity keys} {message signature : Bytes}
    (hsigns : ∀ prv message, env.verify (keys.derivePublicKey prv).toList
      (keys.sign prv message).toList message = true)
    (h : i.sign message = .ok signature) :
    env.verify (i.getPublicKey.mid (ecpubsize / 2)) signature message = true := by
  unfold Identity.sign at h
  cases hprv : i.sigPrv with
  | none => simp [hprv] at h
  | some prv =>
    obtain ⟨hpub, hsig⟩ := i.derived prv hprv
    simp only [hprv, Except.ok.injEq] at h
    unfold Identity.getPublicKey
    rw [Bytes.mid_append hpub, hsig, ← h]
    exact hsigns prv message

/-- The announce of a call is believed by a node that does not know the destination exactly when the
hash of the destination is the one that its name hash and its key stand for. -/
theorem believed_iff (env : Environment) (encrypt : PacketSpec → Bytes → Except String Bytes)
    (hsigns : ∀ prv message, env.verify (keys.derivePublicKey prv).toList
      (keys.sign prv message).toList message = true)
    {d₀ d : Destination keys} {i : Identity keys} (h : d₀.Announces d i)
    (hholds : i.sigPrv.isSome) (hstores : env.storeIdentity d₀.hash = true) (c : AnnounceCall)
    (hfits : announceHeadLength + siglength + (d.announcedAppData c).length ≤ reticulumMdu)
    {s : TransportState} (hunknown : knownDestination s d₀.hash = none) :
    ∃ packet d', d.announce c = (.value (some packet), d')
      ∧ (Believed env encrypt s d₀ i packet (d.announcedAppData c)
        ↔ d₀.hash = expectedHash env.fullHash d₀.nameHash.toList i.getPublicKey) := by
  obtain ⟨data, d', hannounce, -, randomHash, hrandom, hdata⟩ := h.announce_run hholds c
  refine ⟨_, d', hannounce, ?_⟩
  obtain ⟨signature, hfields, hsigned, hlength⟩ :=
    announceFields_announceData hholds hrandom hdata
  obtain ⟨p, q, hpack, hunpack, htype, hflag, hhash, hq⟩ :=
    announcePacket_arrives encrypt h c (hlength ▸ hfits)
  have hvalid : signatureValid env q = true := by
    unfold signatureValid
    rw [hflag, hq, hfields, hhash]
    simp only [AnnounceFields.signedData, List.append_nil]
    exact verify_sign hsigns hsigned
  have hmatches : hashMatches env q = true
      ↔ d₀.hash = expectedHash env.fullHash d₀.nameHash.toList i.getPublicKey := by
    unfold hashMatches
    rw [hflag, hq, hfields, hhash]
    simp
  rw [← hmatches]
  constructor
  · rintro ⟨p', q', t, t', hpack', hunpack', haccepts, -⟩
    cases hpack.symm.trans hpack'
    cases hunpack.symm.trans hunpack'
    exact (validateAnnounce_accepts (congrArg Prod.fst haccepts)).2.2.1
  · intro hmatch
    have hknown : knownDestination s q.destinationHash = none := by rw [hhash, hunknown]
    have hkeyed : ecpubsize ≤ q.data.length := by
      rw [hq, hlength]
      unfold announceHeadLength
      omega
    have hpublic : data.left ecpubsize = i.getPublicKey := congrArg AnnounceFields.publicKey hfields
    have happData : (announceFields .unset data).rememberedAppData data = d.announcedAppData c := by
      unfold AnnounceFields.rememberedAppData
      rw [hfields]
      split
      case isTrue hshort => exact (List.eq_nil_of_length_eq_zero (by omega)).symm
      case isFalse => rfl
    have hvalidated := validateAnnounce_of_unknown htype hvalid hmatch hkeyed hknown
    rw [hhash, hstores, if_pos rfl, hflag, hq, happData, hpublic] at hvalidated
    exact ⟨p, q, _, _, hpack, hunpack, hvalidated, identityRecall_putIdentity _ _ _ _⟩

/-- Every announce of a destination is believed by a node that does not know it exactly when the
destination was given its identity, or else its hash does not depend on the aspect that the constructor
added. -/
theorem announce_believed_iff (keys : KeyLibrary) (env : Environment)
    (encrypt : PacketSpec → Bytes → Except String Bytes)
    (hsigns : ∀ prv message, env.verify (keys.derivePublicKey prv).toList
      (keys.sign prv message).toList message = true)
    (fresh : Identity keys) (identity : Option (Identity keys)) (appName aspects : Bytes)
    (d₀ : Destination keys)
    (hcreate : Destination.create env.fullHash fresh identity .incoming .single appName aspects
      = .ok d₀)
    (hholds : (identity.getD fresh).sigPrv.isSome) (hstores : env.storeIdentity d₀.hash = true)
    (d : Destination keys) (hrun : Relation.ReflTransGen DestinationStep d₀ d) (c : AnnounceCall)
    (hfits : announceHeadLength + siglength + (d.announcedAppData c).length ≤ reticulumMdu)
    (s : TransportState) (hunknown : knownDestination s d₀.hash = none) :
    ∃ packet d', d.announce c = (.value (some packet), d')
      ∧ (Believed env encrypt s d₀ (identity.getD fresh) packet (d.announcedAppData c)
        ↔ identity.isSome ∨ Destination.NameCollides env.fullHash fresh appName aspects) := by
  obtain ⟨hstart, hnamed⟩ := Destination.create_incoming hcreate
  obtain ⟨packet, d', hannounce, hbelieved⟩ :=
    believed_iff env encrypt hsigns (hstart.run hholds hrun) hholds hstores c hfits hunknown
  exact ⟨packet, d', hannounce, hbelieved.trans hnamed⟩

namespace Sample

/-- Keys whose signatures are sixty-four equal bytes. -/
def signet : KeyLibrary where
  exchangePublic _ := .replicate 32 1
  derivePublicKey _ := .replicate 32 2
  sign _ _ := .replicate 64 9

/-- A hash that keeps the front. -/
def headHash (b : Bytes) : Hash := ⟨(b ++ List.replicate 32 0).take 32, by simp⟩

/-- A node that takes the signatures of these keys. -/
def peer : Environment :=
  { Environment.idle with
    fullHash := headHash
    verify := fun _ signature _ => signature = List.replicate 64 9 }

def owner : Identity signet := .createKeys signet [1] [2]

/-- The app name `app` and the aspect `a`. -/
def app : Bytes := [97, 112, 112]

def aspect : Bytes := [97]

def call : AnnounceCall where
  appData := [5]
  now := 0
  random := .replicate 5 0

end Sample

/-- A destination with a supplied identity. -/
theorem announce_believed_iff_supplied :
    ∃ d₀ packet d', Destination.create Sample.headHash Sample.owner (some Sample.owner) .incoming
        .single Sample.app Sample.aspect = .ok d₀
      ∧ Destination.announce Sample.call d₀ = (.value (some packet), d')
      ∧ Believed Sample.peer Sample.peer.encrypt {} d₀ Sample.owner packet [5] := by
  obtain ⟨packet, d', hannounce, hbelieved⟩ := announce_believed_iff Sample.signet Sample.peer
    Sample.peer.encrypt (fun _ _ => rfl) Sample.owner (some Sample.owner) Sample.app
    Sample.aspect _ rfl rfl rfl _ .refl Sample.call (by decide) {} rfl
  exact ⟨_, packet, d', rfl, hannounce, hbelieved.mpr (.inl rfl)⟩

/-- A destination that creates its identity announces a name hash its own hash was not made from. -/
theorem created_identity_not_believed :
    ¬ ∀ (keys : KeyLibrary) (env : Environment)
      (encrypt : PacketSpec → Bytes → Except String Bytes),
      (∀ prv message, env.verify (keys.derivePublicKey prv).toList
        (keys.sign prv message).toList message = true) →
      ∀ (fresh : Identity keys) (identity : Option (Identity keys)) (appName aspects : Bytes)
        (d₀ : Destination keys),
        Destination.create env.fullHash fresh identity .incoming .single appName aspects
          = .ok d₀ →
        (identity.getD fresh).sigPrv.isSome → env.storeIdentity d₀.hash = true →
        ∀ (d : Destination keys), Relation.ReflTransGen DestinationStep d₀ d → ∀ (c : AnnounceCall),
          announceHeadLength + siglength + (d.announcedAppData c).length ≤ reticulumMdu →
          ∀ s : TransportState, knownDestination s d₀.hash = none →
            ∃ packet d', d.announce c = (.value (some packet), d')
              ∧ Believed env encrypt s d₀ (identity.getD fresh) packet (d.announcedAppData c) := by
  intro h
  have hcreate : Destination.create Sample.headHash Sample.owner none .incoming .single Sample.app
      Sample.aspect = .ok _ := rfl
  obtain ⟨packet, d', hannounce, hbelieved⟩ := believed_iff Sample.peer Sample.peer.encrypt
    (fun _ _ => rfl) (Destination.create_incoming hcreate).1 rfl rfl Sample.call (by decide)
    (s := {}) rfl
  obtain ⟨packet', d'', hannounce', hbelieved'⟩ := h Sample.signet Sample.peer
    Sample.peer.encrypt (fun _ _ => rfl) Sample.owner none Sample.app Sample.aspect _ hcreate rfl rfl
    _ .refl Sample.call (by decide) {} rfl
  cases hannounce.symm.trans hannounce'
  exact absurd (hbelieved.mp hbelieved') (by decide +kernel)

end MicroReticulum.Announce
