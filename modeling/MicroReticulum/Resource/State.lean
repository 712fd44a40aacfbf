import MicroReticulum.Resource.Parts

/-!
# The state of a resource

`ResourceData` holds the fields of a `Resource` that its transfer reads and writes, for the initiator and for
the receiver alike. `_parts` is two fields here: the packed packets of the initiator, and the slots of the
receiver, which hold what a part carried.

Times, rates and round trips are not kept. Where the source compares them, the operations of the following
modules take the outcome as an argument, so that what is proved holds for every clock and every rate.

`Advertisement` is the record the two ends exchange first, as the objects `MsgPack` writes and reads.
-/

namespace MicroReticulum.Resource

open MicroReticulum

/-! ## Constants -/

def windowStart : UInt16 := 4
def windowMinStart : UInt16 := 2
def windowMaxSlow : UInt16 := 10
def windowMaxVerySlow : UInt16 := 4
def windowMaxFast : UInt16 := 75

/-- `Type::Resource::WINDOW_MAX` -/
def windowMaxGlobal : Nat := windowMaxFast.toNat

def fastRateThreshold : UInt8 := 10 - 4 - 2
def verySlowRateThreshold : UInt8 := 2
def windowFlexibilityStart : UInt16 := 4
def randomHashSize : Nat := 4
def maxRetries : UInt8 := 8
def maxAdvRetries : UInt8 := 4
def hashmapIsNotExhausted : UInt8 := 0x00
def hashmapIsExhausted : UInt8 := 0xFF

/-- `Type::Link::MDU` -/
def linkMdu : Nat := (reticulumMtu - ifacMinSize - headerMinsize - 48) / 16 * 16 - 1

/-- `ResourceAdvertisement::HASHMAP_MAX_LEN` -/
def hashmapMaxLen : Nat := (linkMdu - 134) / maphashLen

/-- `ResourceAdvertisement::COLLISION_GUARD_SIZE` -/
def collisionGuardSize : Nat := 2 * windowMaxGlobal + hashmapMaxLen

/-- `Type::Identity::HASHLENGTH / 8` -/
def hashBytes : Nat := 32

/-- `Type::Resource::status` -/
inductive ResourceStatus where
  | none | queued | advertised | transferring | awaitingProof | assembling | complete | failed | corrupt
  deriving DecidableEq, Repr

namespace ResourceStatus

def code : ResourceStatus → Nat
  | none => 0x00
  | queued => 0x01
  | advertised => 0x02
  | transferring => 0x03
  | awaitingProof => 0x04
  | assembling => 0x05
  | complete => 0x06
  | failed => 0x07
  | corrupt => 0x08

/-- `REJECTED` has the value of `NONE`. -/
def rejected : ResourceStatus := none

/-- The comparison `_status >= COMPLETE` -/
def concluded (s : ResourceStatus) : Bool := complete.code ≤ s.code

end ResourceStatus

/-- A packed part of the initiator, and `Packet::sent`. -/
structure Part where
  packet : Packet
  sent : Bool := false
  deriving DecidableEq

/-- The fields of `ResourceData`. -/
structure ResourceData where
  initiator : Bool := false
  status : ResourceStatus := .none
  encrypted : Bool := false
  compressed : Bool := false
  split : Bool := false
  isResponse : Bool := false
  hasMetadata : Bool := false
  hash : Bytes := []
  expectedProof : Bytes := []
  originalHash : Bytes := []
  randomHash : Bytes := []
  requestId : Bytes := []
  size : Nat := 0
  totalSize : Nat := 0
  data : Bytes := []
  sdu : UInt16 := defaultSdu
  /-- `_parts` of the initiator -/
  parts : List Part := []
  /-- `_parts` of the receiver, by what they carry -/
  slots : List (Option Bytes) := []
  hashmap : Bytes := []
  hashmapHeight : UInt32 := 0
  totalParts : UInt32 := 0
  sentParts : UInt32 := 0
  receivedCount : UInt32 := 0
  outstandingParts : UInt16 := 0
  consecutiveCompletedHeight : Int := -1
  receiverMinConsecutiveHeight : Int := 0
  segmentIndex : UInt16 := 1
  totalSegments : UInt16 := 1
  window : UInt16 := windowStart
  windowMax : UInt16 := windowMaxSlow
  windowMin : UInt16 := windowMinStart
  windowFlexibility : UInt16 := windowFlexibilityStart
  fastRateRounds : UInt8 := 0
  verySlowRateRounds : UInt8 := 0
  retriesLeft : UInt8 := maxRetries
  receiveLock : Bool := false
  assemblyLock : Bool := false
  waitingForHmu : Bool := false
  /-- the payload of `_advertisement_packet` -/
  advertisement : Bytes := []
  reqHashlist : List Hash := []
  /-- a concluded callback is set -/
  concludedCallback : Bool := false
  deriving DecidableEq

/-- The entry of a hashmap for a part. -/
def mapHashAt (hashmap : Bytes) (i : Nat) : Bytes := hashmap.midLen (i * maphashLen) maphashLen

/-- The entry of a part whose map hash is not known yet. -/
def zeroMapHash : Bytes := List.replicate maphashLen 0

/-! ## Advertisements -/

/-- `ResourceAdvertisement` -/
structure Advertisement where
  t : Nat := 0
  d : Nat := 0
  n : UInt32 := 0
  h : Bytes := []
  r : Bytes := []
  o : Bytes := []
  i : UInt16 := 1
  l : UInt16 := 1
  q : Bytes := []
  f : UInt8 := 0
  m : Bytes := []
  e : Bool := false
  c : Bool := false
  s : Bool := false
  u : Bool := false
  p : Bool := false
  x : Bool := false
  deriving DecidableEq

namespace Advertisement

/-- A flag of `_f`. -/
def flag (b : Bool) (position : UInt8) : UInt8 := (if b then 1 else 0) <<< position

/-- Is the flag set? -/
def hasFlag (f : UInt8) (position : UInt8) : Bool := (f >>> position) &&& 0x01 ≠ 0

/-- The constructor from a resource. -/
def ofResource (r : ResourceData) : Advertisement :=
  let u := r.requestId ≠ [] ∧ ¬ r.isResponse
  let p := r.requestId ≠ [] ∧ r.isResponse
  { t := r.size
    d := r.totalSize
    n := UInt32.ofNat r.parts.length
    h := r.hash
    r := r.randomHash
    o := r.originalHash
    i := r.segmentIndex
    l := r.totalSegments
    q := r.requestId
    f := flag r.hasMetadata 5 ||| flag p 4 ||| flag u 3 ||| flag r.split 2 ||| flag r.compressed 1
      ||| flag r.encrypted 0
    m := r.hashmap
    e := r.encrypted
    c := r.compressed
    s := r.split
    u
    p
    x := r.hasMetadata }

/-- The entries of the hashmap that go into a segment. -/
def segmentEntries (a : Advertisement) (segment : UInt16) : Bytes :=
  let hashmapStart := segment.toNat * hashmapMaxLen
  let hashmapEnd := min ((segment.toNat + 1) * hashmapMaxLen) a.n.toNat
  if hashmapEnd * maphashLen ≤ a.m.length ∧ hashmapStart < hashmapEnd then
    a.m.midLen (hashmapStart * maphashLen) ((hashmapEnd - hashmapStart) * maphashLen)
  else []

/-- The byte of a letter. -/
def letter (c : Char) : UInt8 := UInt8.ofNat c.toNat

/-- A key of one letter. -/
def key (c : Char) : Library.Token := .str [letter c]

/-- `ResourceAdvertisement::pack` -/
def pack (a : Advertisement) (segment : UInt16) : List Library.Token :=
  [.map 11, key 't', .int a.t, key 'd', .int a.d, key 'n', .int a.n.toNat, key 'h', .bin a.h,
    key 'r', .bin a.r, key 'o', .bin a.o, key 'i', .int a.i.toNat, key 'l', .int a.l.toNat,
    key 'q', if a.q ≠ [] then .bin a.q else .nil, key 'f', .int a.f.toNat,
    key 'm', .bin (a.segmentEntries segment)]

/-- `deserialize` into an unsigned integer. The source asks for the number without looking at the type. That a
value of another type leaves zero and is not passed is what the packing library does with it; on what
`pack` writes it does not come up. -/
def readUint : List Library.Token → Nat × List Library.Token
  | .int v :: rest => ((Int64.ofInt v).toUInt64.toNat, rest)
  | c => (0, c)

/-- `deserialize` into a byte string, and of another type the same: the library leaves nothing and does not
move. -/
def readBin : List Library.Token → Bytes × List Library.Token
  | .bin b :: rest => (b, rest)
  | c => ([], c)

/-- One entry of the map, or nothing where the loop is left. -/
def unpackEntry (a : Advertisement) :
    List Library.Token → Option (Advertisement × List Library.Token)
  | .str [k] :: rest =>
    let number := readUint rest
    let bytes := readBin rest
    if k = letter 't' then some ({ a with t := number.1 }, number.2)
    else if k = letter 'd' then some ({ a with d := number.1 }, number.2)
    else if k = letter 'n' then some ({ a with n := UInt32.ofNat number.1 }, number.2)
    else if k = letter 'h' then some ({ a with h := bytes.1 }, bytes.2)
    else if k = letter 'r' then some ({ a with r := bytes.1 }, bytes.2)
    else if k = letter 'o' then some ({ a with o := bytes.1 }, bytes.2)
    else if k = letter 'm' then some ({ a with m := bytes.1 }, bytes.2)
    else if k = letter 'i' then some ({ a with i := UInt16.ofNat number.1 }, number.2)
    else if k = letter 'l' then some ({ a with l := UInt16.ofNat number.1 }, number.2)
    else if k = letter 'q' then
      match rest with
      | .nil :: rest' => some (a, rest')
      | .bin b :: rest' => some ({ a with q := b }, rest')
      | _ => none
    else if k = letter 'f' then some ({ a with f := UInt8.ofNat number.1 }, number.2)
    else none
  | _ => none

/-- The booleans of the flag byte. -/
def deriveFlags (a : Advertisement) : Advertisement :=
  { a with
    e := hasFlag a.f 0
    c := hasFlag a.f 1
    s := hasFlag a.f 2
    u := hasFlag a.f 3
    p := hasFlag a.f 4
    x := hasFlag a.f 5 }

/-- The loop over the entries. A record that is given up keeps what was read, but has no flags. -/
def unpackEntries : Nat → Advertisement → List Library.Token → Advertisement
  | 0, a, _ => a.deriveFlags
  | k + 1, a, c =>
    match a.unpackEntry c with
    | none => a
    | some (a', c') => unpackEntries k a' c'

/-- `ResourceAdvertisement::unpack` -/
def unpack : List Library.Token → Advertisement
  | .map entries :: rest => unpackEntries entries {} rest
  | _ => {}

/-- `ResourceAdvertisement::is_request` -/
def isRequest (a : Advertisement) : Bool := a.q ≠ [] && a.u

/-- `ResourceAdvertisement::is_response` -/
def isResponse (a : Advertisement) : Bool := a.q ≠ [] && a.p

end Advertisement

end MicroReticulum.Resource
