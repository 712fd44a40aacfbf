import MicroReticulum.Transport.State

/-!
# Reading and checking an announce

`announceFields` cuts the payload of an announce the way `Identity::validate_announce` does, in one of
two layouts that the context flag chooses between, and `validateAnnounce` is the function itself. The
payload is a public key, a name hash, a random hash, a ratchet if the flag is set, a signature and
application data. The slices clamp, so a payload that is too short gives short fields.

The signature covers the fields in another order, one behind the other and without their lengths: what
it binds is the public key, the name hash, the random hash and the ratchet together with the application
data, not the border between the last two.

The log line with the signal quality is left out.
-/

namespace MicroReticulum.Announce

open MicroReticulum Packet Link Library Transport

/-! ## Layout -/

/-- `Type::Identity::NAME_HASH_LENGTH / 8` -/
def nameHashLength : Nat := 10

/-- `Type::Identity::RANDOM_HASH_LENGTH / 8` -/
def randomHashLength : Nat := 10

/-- `Type::Identity::RATCHETSIZE / 8` -/
def ratchetLength : Nat := 32

/-- Where the random hash of an announce ends: behind the public key and the name hash. -/
def announceHeadLength : Nat := ecpubsize + nameHashLength + randomHashLength

/-- The slices of an announce. -/
@[ext]
structure AnnounceFields where
  publicKey : Bytes
  nameHash : Bytes
  randomHash : Bytes
  ratchet : Bytes
  signature : Bytes
  appData : Bytes
  deriving DecidableEq

/-- The slices `validate_announce` takes of the payload of a packet. -/
def announceFields (contextFlag : ContextFlag) (data : Bytes) : AnnounceFields :=
  match contextFlag with
  | .set =>
    { publicKey := data.left ecpubsize
      nameHash := data.midLen ecpubsize nameHashLength
      randomHash := data.midLen (ecpubsize + nameHashLength) randomHashLength
      ratchet := data.midLen announceHeadLength ratchetLength
      signature := data.midLen (announceHeadLength + ratchetLength) siglength
      appData :=
        if announceHeadLength + ratchetLength + siglength < data.length then
          data.mid (announceHeadLength + ratchetLength + siglength)
        else [] }
  | .unset =>
    { publicKey := data.left ecpubsize
      nameHash := data.midLen ecpubsize nameHashLength
      randomHash := data.midLen (ecpubsize + nameHashLength) randomHashLength
      ratchet := []
      signature := data.midLen announceHeadLength siglength
      appData :=
        if announceHeadLength + siglength < data.length then data.mid (announceHeadLength + siglength)
        else [] }

/-- `signed_data` -/
def AnnounceFields.signedData (destinationHash : Address) (a : AnnounceFields) : Bytes :=
  destinationHash.toList ++ a.publicKey ++ a.nameHash ++ a.randomHash ++ a.ratchet ++ a.appData

/-- The application data that is remembered: none from an announce that has room for none without a
ratchet. -/
def AnnounceFields.rememberedAppData (data : Bytes) (a : AnnounceFields) : Bytes :=
  if data.length ≤ announceHeadLength + siglength then [] else a.appData

/-- `expected_hash`, from the name hash and the hash of the announced identity. -/
def expectedHash (fullHash : Bytes → Hash) (nameHash publicKey : Bytes) : Address :=
  truncatedHash fullHash (nameHash ++ (truncatedHash fullHash publicKey).toList)

/-- The fields of a payload without a ratchet that was put together in order. -/
theorem announceFields_append {publicKey nameHash randomHash signature appData : Bytes}
    (hkey : publicKey.length = ecpubsize) (hname : nameHash.length = nameHashLength)
    (hrandom : randomHash.length = randomHashLength) (hsignature : signature.length = siglength) :
    announceFields .unset (publicKey ++ nameHash ++ randomHash ++ signature ++ appData)
      = { publicKey, nameHash, randomHash, ratchet := [], signature, appData } := by
  have happData : (announceFields .unset
      (publicKey ++ nameHash ++ randomHash ++ signature ++ appData)).appData = appData := by
    unfold announceFields
    dsimp only
    rw [Bytes.mid_append (by
      simp only [List.length_append, hkey, hname, hrandom, hsignature, announceHeadLength])]
    cases appData with
    | nil => simp
    | cons x rest =>
      rw [if_pos]
      simp only [List.length_append, List.length_cons, hkey, hname, hrandom, hsignature,
        announceHeadLength]
      omega
  rw [AnnounceFields.ext_iff]
  refine ⟨?_, ?_, ?_, rfl, ?_, happData⟩
  all_goals
    simp only [announceFields, Bytes.left, Bytes.midLen, announceHeadLength, List.append_assoc,
      ← hkey, ← hname, ← hrandom, ← hsignature, ← List.drop_drop]
    simp

/-! ## `validate_announce` -/

/-- A known destination, by the test of the entry for a public key. -/
def knownDestination (s : TransportState) (destinationHash : Address) : Option IdentityEntry :=
  (s.knownDestinations.lookup destinationHash).filter fun entry => entry.publicKey ≠ []

/-- `announced_identity.validate` -/
def signatureValid (env : Environment) (p : Packet) : Bool :=
  let a := announceFields p.contextFlag p.data
  env.verify (a.publicKey.mid (ecpubsize / 2)) a.signature (a.signedData p.destinationHash)

/-- The destination hash is that of the announced name and key. -/
def hashMatches (env : Environment) (p : Packet) : Bool :=
  let a := announceFields p.contextFlag p.data
  p.destinationHash = expectedHash env.fullHash a.nameHash a.publicKey

/-- The end of `validate_announce`: a known destination keeps its key, any other is remembered. -/
def acceptIdentity (env : Environment) (p : Packet) : Prog String TransportState Bool := do
  let a := announceFields p.contextFlag p.data
  let s ← Prog.get
  match knownDestination s p.destinationHash with
  | some entry => pure (a.publicKey = entry.publicKey)
  | none => do
    remember env p.destinationHash
      { publicKey := a.publicKey, appData := a.rememberedAppData p.data }
    pure true

/-- `Identity::validate_announce` -/
def validateAnnounce (env : Environment) (p : Packet) (onlyValidateSignature : Bool) :
    Prog String TransportState Bool :=
  if p.packetType = .announce ∧ signatureValid env p = true then
    if onlyValidateSignature then pure true
    else if hashMatches env p then Prog.catching (acceptIdentity env p) fun _ => pure false
    else pure false
  else pure false

/-- What `validate_announce` says yes to, in the form in which `inbound` calls it. -/
theorem validateAnnounce_accepts {env : Environment} {p : Packet} {s : TransportState}
    (h : (validateAnnounce env p false s).1 = .value true) :
    p.packetType = .announce ∧ signatureValid env p = true ∧ hashMatches env p = true
      ∧ ∀ entry, knownDestination s p.destinationHash = some entry →
        entry.publicKey = (announceFields p.contextFlag p.data).publicKey := by
  unfold validateAnnounce at h
  split at h
  case isFalse => cases h
  case isTrue hsigned =>
    simp only [Bool.false_eq_true, if_false] at h
    split at h
    case isFalse => cases h
    case isTrue hhash =>
      refine ⟨hsigned.1, hsigned.2, hhash, fun entry hentry => ?_⟩
      unfold Prog.catching acceptIdentity at h
      simp only [Prog.get_bind_run, hentry] at h
      have hkey : decide ((announceFields p.contextFlag p.data).publicKey = entry.publicKey) = true :=
        Outcome.value.inj h
      exact (of_decide_eq_true hkey).symm

/-- `_known_destinations.put`, where the store takes the entry. -/
def putIdentity (destinationHash : Address) (entry : IdentityEntry) (s : TransportState) :
    TransportState :=
  { s with knownDestinations := s.knownDestinations.insert destinationHash entry }

/-- A key of the right size is remembered where the store takes it. -/
theorem remember_run {env : Environment} {destinationHash : Address} {entry : IdentityEntry}
    (hkey : entry.publicKey.length = ecpubsize) (s : TransportState) :
    remember env destinationHash entry s = (.value (),
      if env.storeIdentity destinationHash then putIdentity destinationHash entry s else s) := by
  unfold remember
  rw [Prog.bind_value (Prog.require_run_of hkey _ s)]
  cases hstore : env.storeIdentity destinationHash <;> simp [Prog.when, putIdentity]

/-- A node that does not know the destination accepts what is signed and hashed right, and remembers
the key and the application data. -/
theorem validateAnnounce_of_unknown {env : Environment} {p : Packet} {s : TransportState}
    (htype : p.packetType = .announce) (hsigned : signatureValid env p = true)
    (hhash : hashMatches env p = true) (hkey : ecpubsize ≤ p.data.length)
    (hunknown : knownDestination s p.destinationHash = none) :
    validateAnnounce env p false s = (.value true,
      if env.storeIdentity p.destinationHash then putIdentity p.destinationHash
        { publicKey := p.data.left ecpubsize
          appData := (announceFields p.contextFlag p.data).rememberedAppData p.data } s
      else s) := by
  have hpublic : (announceFields p.contextFlag p.data).publicKey = p.data.left ecpubsize := by
    cases p.contextFlag <;> rfl
  have hlength : (p.data.left ecpubsize).length = ecpubsize := by simp [hkey]
  unfold validateAnnounce
  rw [if_pos ⟨htype, hsigned⟩]
  simp only [Bool.false_eq_true, if_false, hhash, if_true]
  unfold Prog.catching acceptIdentity
  simp only [Prog.get_bind_run, hunknown, hpublic]
  rw [Prog.bind_value (remember_run hlength s)]
  rfl

/-! ## An announce on the wire -/

/-- An announce that fits is packed, and unpacks to its header and its payload. -/
theorem unpack_pack_announce (encrypt : PacketSpec → Bytes → Except String Bytes)
    {spec : PacketSpec} (htype : spec.packetType = .announce)
    (hcontext : spec.context ≠ ContextType.lrproof)
    (htransport : spec.transportType = .broadcast ∨ spec.transportType = .transport)
    (hid : spec.transportId.isSome ↔ spec.headerType = .header2)
    (hfits : headerMaxsize + spec.data.length ≤ spec.mtu) :
    ∃ p, pack encrypt spec = .ok p ∧ p.packetType = .announce
      ∧ unpack p.raw = some (ofLayout (getPackedFlags spec) spec.hops spec.transportId
        spec.destinationHash spec.context spec.data)
      ∧ unpackFlags (getPackedFlags spec)
        = { headerType := spec.headerType, contextFlag := spec.contextFlag
            transportType := spec.transportType, destinationType := spec.destinationType
            packetType := .announce } := by
  have hbody : packBody encrypt spec
      = .ok (transportBytes spec.transportId ++ spec.destinationHash.toList, spec.data) := by
    unfold packBody
    rw [if_neg hcontext]
    cases hheader : spec.headerType with
    | header1 =>
      have hnone : spec.transportId = none := by
        rw [hheader] at hid
        exact Option.not_isSome_iff_eq_none.mp fun hsome => by cases hid.mp hsome
      simp [plaintextOnWire, htype, hnone, transportBytes]
    | header2 =>
      obtain ⟨t, ht⟩ := Option.isSome_iff_exists.mp (hid.mpr hheader)
      simp [ht, htype, transportBytes]
  have hread : unpackFlags (getPackedFlags spec)
      = { headerType := spec.headerType, contextFlag := spec.contextFlag
          transportType := spec.transportType, destinationType := spec.destinationType
          packetType := .announce } := by
    unfold getPackedFlags
    rw [if_neg hcontext, unpackFlags_packFlags _ htransport, htype]
  have haddressed : Addressed (getPackedFlags spec) spec.transportId := by
    unfold Addressed
    rw [hread]
    exact hid
  have hlength : ¬ spec.mtu < (getPackedFlags spec :: spec.hops
      :: (transportBytes spec.transportId ++ spec.destinationHash.toList
        ++ spec.context :: spec.data)).length := by
    have hbytes : (transportBytes spec.transportId).length ≤ destinationLength := by
      cases spec.transportId <;> simp [transportBytes, destinationLength]
    simp only [List.length_cons, List.length_append, List.Vector.toList_length]
    unfold headerMaxsize at hfits
    omega
  unfold pack
  rw [hbody]
  dsimp only
  rw [if_neg hlength]
  refine ⟨_, rfl, htype, ?_, hread⟩
  dsimp only
  rw [List.append_assoc]
  exact unpack_layout haddressed

/-! ## What the signature binds -/

/-- The fields of the front are the beginning of the payload, cut in three. -/
theorem announceHead (f : ContextFlag) (data : Bytes) :
    (announceFields f data).publicKey ++ (announceFields f data).nameHash
      ++ (announceFields f data).randomHash = data.left announceHeadLength := by
  have hcut : ∀ n m : Nat, data.left n ++ data.midLen n m = data.left (n + m) := by
    intro n m
    unfold Bytes.left Bytes.midLen
    rw [List.take_add]
  cases f <;> simp [announceFields, hcut, announceHeadLength]

/-- A payload that reaches behind the random hash has it, and the name hash, in full length. -/
theorem announceHead_lengths {f : ContextFlag} {data : Bytes}
    (h : announceHeadLength ≤ data.length) :
    (announceFields f data).publicKey.length = ecpubsize
      ∧ (announceFields f data).nameHash.length = nameHashLength
      ∧ (announceFields f data).randomHash.length = randomHashLength := by
  unfold announceHeadLength at h
  cases f <;>
    simp [announceFields, Bytes.left, Bytes.midLen, List.length_take, List.length_drop] <;> omega

/-- Nothing follows the front of a payload that ends in it. -/
theorem announceTail_of_short {f : ContextFlag} {data : Bytes}
    (h : data.length ≤ announceHeadLength) :
    (announceFields f data).ratchet = [] ∧ (announceFields f data).appData = [] := by
  cases f
  all_goals
    simp [announceFields, Bytes.midLen, Bytes.mid]
    omega

/-- A ratchet that is cut short has nothing behind it. -/
theorem appData_of_short_ratchet {data : Bytes}
    (h : (announceFields .set data).ratchet.length < ratchetLength) :
    (announceFields .set data).appData = [] := by
  simp only [announceFields, Bytes.midLen, List.length_take, List.length_drop] at h ⊢
  rw [if_neg (by omega)]

/-- An announce as its signer put it together. -/
structure SignedAnnounce where
  nameHash : List.Vector UInt8 nameHashLength
  randomHash : List.Vector UInt8 randomHashLength
  ratchet : Option (List.Vector UInt8 ratchetLength)
  appData : Bytes

namespace SignedAnnounce

def ratchetBytes (a : SignedAnnounce) : Bytes := (a.ratchet.map List.Vector.toList).getD []

/-- What is signed for the destination of an identity. -/
def signedData (destinationHash : Address) (publicKey : Bytes) (a : SignedAnnounce) : Bytes :=
  destinationHash.toList ++ publicKey ++ a.nameHash.toList ++ a.randomHash.toList ++ a.ratchetBytes
    ++ a.appData

end SignedAnnounce

/-- The fields of a payload say what an announce says, up to the border between ratchet and application
data, which is kept where the flag agrees with the announce. -/
structure AnnounceFields.SaysTheSame (f : ContextFlag) (fields : AnnounceFields)
    (a : SignedAnnounce) : Prop where
  nameHash : fields.nameHash = a.nameHash.toList
  randomHash : fields.randomHash = a.randomHash.toList
  tail : fields.ratchet ++ fields.appData = a.ratchetBytes ++ a.appData
  border : (f = .set ↔ a.ratchet.isSome) →
    fields.ratchet = a.ratchetBytes ∧ fields.appData = a.appData

/-- One signed string is cut in one way, up to the border between ratchet and application data. -/
theorem saysTheSame_of_signedData {destinationHash : Address} {publicKey : Bytes} {f : ContextFlag}
    {data : Bytes} {a : SignedAnnounce} (hkey : (announceFields f data).publicKey = publicKey)
    (h : (announceFields f data).signedData destinationHash
      = a.signedData destinationHash publicKey) :
    (announceFields f data).SaysTheSame f a := by
  unfold AnnounceFields.signedData SignedAnnounce.signedData at h
  rw [hkey] at h
  simp only [List.append_assoc] at h
  replace h := List.append_cancel_left (List.append_cancel_left h)
  have hsignedLength := congrArg List.length h
  simp only [List.length_append, List.Vector.toList_length] at hsignedLength
  -- a payload that ends before the random hash does is too short to be the signed string
  have hlong : announceHeadLength ≤ data.length := by
    by_contra hshort
    obtain ⟨hratchet, happ⟩ := announceTail_of_short (f := f) (Nat.le_of_not_le hshort)
    have hhead := congrArg List.length (announceHead f data)
    simp only [List.length_append, Bytes.left_length] at hhead
    have hpublic : (announceFields f data).publicKey.length = min ecpubsize data.length := by
      cases f <;> simp [announceFields]
    rw [hratchet, happ] at hsignedLength
    simp only [List.length_nil, announceHeadLength, nameHashLength, randomHashLength] at *
    omega
  obtain ⟨-, hname, hrandom⟩ := announceHead_lengths (f := f) hlong
  obtain ⟨hname, h⟩ := List.append_inj h (hname.trans a.nameHash.toList_length.symm)
  obtain ⟨hrandom, htail⟩ := List.append_inj h (hrandom.trans a.randomHash.toList_length.symm)
  refine ⟨hname, hrandom, htail, fun hflag => ?_⟩
  cases f with
  | unset =>
    have hnone : a.ratchet = none := by
      cases hratchet : a.ratchet with
      | none => rfl
      | some r => simp [hratchet] at hflag
    have hratchet : a.ratchetBytes = [] := by simp [SignedAnnounce.ratchetBytes, hnone]
    rw [hratchet] at htail ⊢
    exact ⟨rfl, htail⟩
  | set =>
    obtain ⟨r, hr⟩ := Option.isSome_iff_exists.mp (hflag.mp rfl)
    have hratchet : a.ratchetBytes = r.toList := by simp [SignedAnnounce.ratchetBytes, hr]
    have hfull : (announceFields .set data).ratchet.length = ratchetLength := by
      have hle : (announceFields .set data).ratchet.length ≤ ratchetLength := by
        simp [announceFields, Bytes.midLen, List.length_take]
      by_contra hne
      rw [appData_of_short_ratchet (by omega), hratchet] at htail
      have hlength := congrArg List.length htail
      simp only [List.length_append, List.length_nil, List.Vector.toList_length] at hlength
      omega
    rw [hratchet] at htail ⊢
    exact List.append_inj htail (hfull.trans r.toList_length.symm)

/-- Whatever is accepted for a destination says what one of its signed announces says, up to the border
between ratchet and application data; the context flag, which decides where that border is looked for,
is not signed. -/
theorem announce_reads_signed (env : Environment) (destinationHash : Address) (publicKey : Bytes)
    (signed : Set SignedAnnounce)
    (hunforgeable : ∀ signature message, env.verify (publicKey.mid (ecpubsize / 2)) signature message = true →
      destinationHash.toList ++ publicKey <+: message →
      ∃ a ∈ signed, message = a.signedData destinationHash publicKey)
    (hhash : ∀ nameHash key, expectedHash env.fullHash nameHash key = destinationHash →
      key = publicKey)
    (p : Packet) (s : TransportState) (hdestination : p.destinationHash = destinationHash)
    (haccepts : (validateAnnounce env p false s).1 = .value true) :
    (announceFields p.contextFlag p.data).publicKey = publicKey
      ∧ ∃ a ∈ signed, (announceFields p.contextFlag p.data).SaysTheSame p.contextFlag a := by
  obtain ⟨-, hsigned, hmatches, -⟩ := validateAnnounce_accepts haccepts
  have hexpected : p.destinationHash = expectedHash env.fullHash
      (announceFields p.contextFlag p.data).nameHash (announceFields p.contextFlag p.data).publicKey :=
    of_decide_eq_true hmatches
  have hkey := hhash _ _ (hexpected.symm.trans hdestination)
  unfold signatureValid at hsigned
  simp only [hkey, hdestination] at hsigned
  obtain ⟨a, ha, hmessage⟩ := hunforgeable _ _ hsigned (by
    unfold AnnounceFields.signedData
    rw [hkey]
    simp only [List.append_assoc, List.prefix_append_right_inj]
    exact List.prefix_append _ _)
  exact ⟨hkey, a, ha, saysTheSame_of_signedData hkey hmessage⟩

/-! ## One announce, read in both layouts -/

namespace Sample

def publicKey : Bytes := List.replicate 64 7

/-- The only announce: no ratchet, and as much application data as a ratchet and a byte. -/
def announce : SignedAnnounce where
  nameHash := .replicate 10 3
  randomHash := .replicate 10 4
  ratchet := none
  appData := List.replicate 32 5 ++ [6]

/-- A hash that tells the key and the name of the destination from everything else. -/
def hash (b : Bytes) : Hash :=
  if b = publicKey then .replicate 32 1
  else if b = announce.nameHash.toList ++ (Address.fill 1).toList then .replicate 32 2
  else .replicate 32 0

/-- A receiver to whose mind only the announce is signed. -/
def receiver : Environment :=
  { Environment.idle with
    fullHash := hash
    verify := fun _ _ message => message = announce.signedData (.fill 2) publicKey }

def signature : Bytes := List.replicate 64 9

/-- An announce packet of the destination with a payload. -/
def packet (contextFlag : ContextFlag) (data : Bytes) : Packet :=
  Packet.ofLayout
    (packFlags
      { headerType := .header1, contextFlag, transportType := .broadcast, destinationType := .single
        packetType := .announce })
    0 none (.fill 2) ContextType.none data

def honest : Packet :=
  packet .unset (publicKey ++ announce.nameHash.toList ++ announce.randomHash.toList ++ signature
    ++ announce.appData)

/-- The announce with the flag flipped, and 32 bytes of application data moved before the signature. -/
def flipped : Packet :=
  packet .set (publicKey ++ announce.nameHash.toList ++ announce.randomHash.toList
    ++ announce.appData.left 32 ++ signature ++ announce.appData.mid 32)

theorem unforgeable (signature message : Bytes)
    (h : receiver.verify (publicKey.mid (ecpubsize / 2)) signature message = true) :
    ∃ a ∈ ({announce} : Set SignedAnnounce), message = a.signedData (.fill 2) publicKey :=
  ⟨announce, rfl, of_decide_eq_true h⟩

theorem truncatedHash_hash {b : Bytes} :
    (truncatedHash hash b = .fill 1 → b = publicKey)
      ∧ (truncatedHash hash b = .fill 2 →
        b = announce.nameHash.toList ++ (Address.fill 1).toList) := by
  have hbytes : ∀ a, truncatedHash hash b = a → Bytes.left (hash b).toList 16 = a.toList := by
    rintro a rfl
    rfl
  by_cases hkey : b = publicKey
  · rw [show hash b = .replicate 32 1 from if_pos hkey] at hbytes
    exact ⟨fun _ => hkey, fun h => absurd (hbytes _ h) (by decide)⟩
  · by_cases hname : b = announce.nameHash.toList ++ (Address.fill 1).toList
    · rw [show hash b = .replicate 32 2 from (if_neg hkey).trans (if_pos hname)] at hbytes
      exact ⟨fun h => absurd (hbytes _ h) (by decide), fun _ => hname⟩
    · rw [show hash b = .replicate 32 0 from (if_neg hkey).trans (if_neg hname)] at hbytes
      exact ⟨fun h => absurd (hbytes _ h) (by decide), fun h => absurd (hbytes _ h) (by decide)⟩

theorem hash_binds (nameHash key : Bytes) (h : expectedHash receiver.fullHash nameHash key = .fill 2) :
    key = publicKey := by
  have hname : nameHash ++ (truncatedHash hash key).toList
      = announce.nameHash.toList ++ (Address.fill 1).toList := truncatedHash_hash.2 h
  obtain ⟨-, hkey⟩ := List.append_inj' hname (by simp only [List.Vector.toList_length])
  exact truncatedHash_hash.1 (List.Vector.eq _ _ hkey)

theorem honest_accepted : (validateAnnounce receiver honest false {}).1 = .value true := by
  rw [validateAnnounce_of_unknown rfl (by decide +kernel) (by decide +kernel) (by decide +kernel)
    rfl]

theorem flipped_accepted : (validateAnnounce receiver flipped false {}).1 = .value true := by
  rw [validateAnnounce_of_unknown rfl (by decide +kernel) (by decide +kernel) (by decide +kernel)
    rfl]

end Sample

/-- The announce itself. -/
theorem announce_reads_signed_honest :
    AnnounceFields.SaysTheSame .unset (announceFields .unset Sample.honest.data) Sample.announce := by
  obtain ⟨-, a, ha, hsame⟩ := announce_reads_signed Sample.receiver (.fill 2) Sample.publicKey
    {Sample.announce} (fun signature message h _ => Sample.unforgeable signature message h)
    Sample.hash_binds Sample.honest {} rfl Sample.honest_accepted
  cases ha
  exact hsame

/-- A flipped context flag turns the first 32 bytes of the application data into a ratchet. -/
theorem flipped_flag_accepted :
    ¬ ∀ (env : Environment) (destinationHash : Address) (publicKey : Bytes)
      (signed : Set SignedAnnounce),
      (∀ signature message, env.verify (publicKey.mid (ecpubsize / 2)) signature message = true →
        ∃ a ∈ signed, message = a.signedData destinationHash publicKey) →
      (∀ nameHash key, expectedHash env.fullHash nameHash key = destinationHash →
        key = publicKey) →
      ∀ (p : Packet) (s : TransportState), p.destinationHash = destinationHash →
        (validateAnnounce env p false s).1 = .value true →
        ∃ a ∈ signed, (announceFields p.contextFlag p.data).nameHash = a.nameHash.toList
          ∧ (announceFields p.contextFlag p.data).randomHash = a.randomHash.toList
          ∧ (announceFields p.contextFlag p.data).ratchet = a.ratchetBytes
          ∧ (announceFields p.contextFlag p.data).appData = a.appData := by
  intro h
  obtain ⟨a, ha, -, -, hratchet, -⟩ := h Sample.receiver (.fill 2) Sample.publicKey {Sample.announce}
    Sample.unforgeable Sample.hash_binds Sample.flipped {} rfl Sample.flipped_accepted
  cases ha
  exact absurd hratchet (by decide)

end MicroReticulum.Announce
