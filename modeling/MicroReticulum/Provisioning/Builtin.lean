import Mathlib.Data.Finset.Sort
import MicroReticulum.Provisioning.Namespace

/-!
# The built-in settings

`register_builtin_namespaces` declares two namespaces with fields that can be set, General Config and Transport
Config. Their setters and getters work on static variables of `Reticulum`, `Transport` and `Identity`: the `Runtime`
here, which leaves room for what the application has. The default of a field is what its variable has when the field is
registered.

The built-in namespaces besides these only measure: all of their fields are read-only. Of these, `info` and `addresses`
are here, which read the identity. The two commands delete files; what they change lies outside the variables.
-/

namespace MicroReticulum.Provisioning.Builtin

open MicroReticulum Library

variable {R X : Type}

/-! ## The builder -/

def text (s : String) : Bytes := s.toUTF8.toList

/-- `field_bool` -/
def fieldBool (name : Bytes) (id : FieldId) (flags : UInt8) (defaultValue : Bool)
    (setter : Value → Prog String R Bool) (getter : R → Bool) : Field R where
  id
  name
  type := .bool
  flags
  defaultValue := .bool defaultValue
  setter := some setter
  getter := some fun r => .bool (getter r)

/-- `field_int` with a range -/
def fieldInt (name : Bytes) (id : FieldId) (flags : UInt8) (defaultValue imin imax : Int64)
    (setter : Value → Prog String R Bool) (getter : R → Int64) : Field R where
  id
  name
  type := .int
  flags
  constraint := { hasRange := true, imin, imax }
  defaultValue := .int defaultValue
  setter := some setter
  getter := some fun r => .int (getter r)

/-- `field_bytes` -/
def fieldBytes (name : Bytes) (id : FieldId) (flags : UInt8) (defaultValue : Bytes) (maxLen : Nat)
    (setter : Value → Prog String R Bool) (getter : R → Bytes) : Field R where
  id
  name
  type := .bytes
  flags
  constraint := { maxLen }
  defaultValue := .bytes defaultValue
  setter := some setter
  getter := some fun r => .bytes (getter r)

/-- `field_bytes_list` -/
def fieldBytesList (name : Bytes) (id : FieldId) (flags : UInt8) (defaultValue : List Bytes)
    (elementSize maxCount : Nat) (setter : Value → Prog String R Bool) (getter : R → List Bytes) : Field R where
  id
  name
  type := .bytesList
  flags
  constraint := { elementSize, maxCount }
  defaultValue := .bytesList defaultValue
  setter := some setter
  getter := some fun r => .bytesList (getter r)

/-- `command_void` -/
def commandVoid (name : Bytes) (id : FieldId) (setter : Prog String R Bool) : Field R where
  id
  name
  type := .void
  flags := ffWriteOnly
  defaultValue := .void
  setter := some fun _ => setter

/-- `metric_bytes`: a field that is only read -/
def metricBytes (name : Bytes) (id : FieldId) (getter : R → Bytes) : Field R where
  id
  name
  type := .bytes
  flags := ffReadOnly
  constraint := { maxLen := 0 }
  defaultValue := .bytes []
  getter := some fun r => .bytes (getter r)

/-! ## The runtime -/

/-- The private keys of an identity, as they were loaded. -/
structure PrivateKeys where
  prvBytes : Bytes
  sigPrvBytes : Bytes
  deriving DecidableEq

/-- `load_private_key`, the bytes it keeps. The keys derived from them are the cryptographic library's. It is
meant for no bytes or for the 64 of a key: from one to 63 bytes pass the constraint of the setting as well,
and the wrappers then read past the encryption key, or draw a signing key of their own where nothing is
left of it. What such a key signs with is not modelled. -/
def loadPrivateKey (prvBytes : Bytes) : PrivateKeys where
  prvBytes := prvBytes.left 32
  sigPrvBytes := prvBytes.mid 32

/-- `get_private_key` -/
def PrivateKeys.getPrivateKey (k : PrivateKeys) : Bytes := k.prvBytes ++ k.sigPrvBytes

/-- The variables behind the settings, with the record limits that some setters pass on to the stores. -/
structure Runtime (X : Type) where
  transportEnabled : Bool
  linkMtuDiscovery : Bool
  remoteManagementEnabled : Bool
  allowProbes : Bool
  persistInterval : UInt16
  cleanInterval : UInt16
  identity : Option PrivateKeys
  remoteManagementAllowed : Finset Bytes
  pathTableMaxsize : UInt16
  pathStoreMaxRecs : UInt16
  announceTableMaxsize : UInt16
  hashlistMaxsize : UInt16
  packetHashStoreMaxRecs : UInt16
  maxPrTags : UInt16
  discoveryPrTagsMaxSize : UInt16
  knownDestinationsMaxsize : UInt16
  knownStoreMaxRecs : UInt16
  /-- the stores, the files and the application -/
  rest : X

/-- The elements of a `std::set`, in its order. -/
def inOrder (s : Finset Bytes) : List Bytes := s.sort (· ≤ ·)

theorem toFinset_inOrder (s : Finset Bytes) : (inOrder s).toFinset = s := Finset.sort_toFinset _ _

theorem inOrder_toFinset {l : List Bytes} (hnodup : l.Nodup) (hsorted : l.Pairwise (· ≤ ·)) :
    inOrder l.toFinset = l := (List.toFinset_sort (· ≤ ·) hnodup).mpr hsorted

namespace Runtime

/-- `Transport::get_identity_prv`, behind the guard against an identity that is not set. -/
def identityPrv (r : Runtime X) : Bytes :=
  match r.identity with
  | none => []
  | some keys => keys.getPrivateKey

/-- `remote_management_allowed`, as its getter lists it. -/
def allowedList (r : Runtime X) : List Bytes := inOrder r.remoteManagementAllowed

theorem toFinset_allowedList (r : Runtime X) : r.allowedList.toFinset = r.remoteManagementAllowed :=
  toFinset_inOrder _

end Runtime

/-- A setter that writes and says that it did. -/
def store (g : Runtime X → Runtime X) : Prog String (Runtime X) Bool := do
  Prog.modify g
  pure true

/-- `(uint16_t)v.as_int()` -/
def asUInt16 (v : Value) : UInt16 := UInt16.ofInt v.asInt.toInt

/-- `(int64_t)x` -/
def widen (x : UInt16) : Int64 := Int64.ofNat x.toNat

theorem toInt_widen (x : UInt16) : (widen x).toInt = x.toNat :=
  Int64.toInt_ofNat_of_lt (by have := x.toNat_lt; omega)

theorem toNat_asUInt16 (v : Value) : ((asUInt16 v).toNat : Int) = v.asInt.toInt % 65536 := by
  show (((v.asInt.toInt % 2 ^ 16).toNat % 65536 : Nat) : Int) = _
  omega

/-- An integer survives the sixteen bits if it fits. -/
theorem widen_asUInt16_iff (v : Value) : widen (asUInt16 v) = v.asInt ↔ 0 ≤ v.asInt ∧ v.asInt ≤ 65535 := by
  have hzero : (0 : Int64).toInt = 0 := rfl
  have htop : (65535 : Int64).toInt = 65535 := rfl
  rw [← Int64.toInt_inj, toInt_widen, toNat_asUInt16, Int64.le_iff_toInt_le, Int64.le_iff_toInt_le, hzero, htop]
  omega

/-! ## General Config -/

section GeneralConfig

variable (r₀ : Runtime X)

def transportEnabled : Field (Runtime X) :=
  fieldBool (text "Transport Enabled") 1 ffRebootRequired r₀.transportEnabled
    (fun v => store fun r => { r with transportEnabled := v.asBool }) fun r => r.transportEnabled

def linkMtuDiscovery : Field (Runtime X) :=
  fieldBool (text "Link MTU Discovery Enabled") 2 ffRebootRequired r₀.linkMtuDiscovery
    (fun v => store fun r => { r with linkMtuDiscovery := v.asBool }) fun r => r.linkMtuDiscovery

def remoteManagementEnabled : Field (Runtime X) :=
  fieldBool (text "Remote Management Enabled") 3 ffRebootRequired r₀.remoteManagementEnabled
    (fun v => store fun r => { r with remoteManagementEnabled := v.asBool }) fun r => r.remoteManagementEnabled

def probeDestinationEnabled : Field (Runtime X) :=
  fieldBool (text "Probe Destination Enabled") 4 ffRebootRequired r₀.allowProbes
    (fun v => store fun r => { r with allowProbes := v.asBool }) fun r => r.allowProbes

def persistInterval : Field (Runtime X) :=
  fieldInt (text "Persist Interval") 6 ffLiveApply (widen r₀.persistInterval) 30 86400
    (fun v => store fun r => { r with persistInterval := asUInt16 v }) fun r => widen r.persistInterval

def cleanInterval : Field (Runtime X) :=
  fieldInt (text "Clean Interval") 7 ffLiveApply (widen r₀.cleanInterval) 60 86400
    (fun v => store fun r => { r with cleanInterval := asUInt16 v }) fun r => widen r.cleanInterval

/-- Empty input stands for no change. -/
def transportIdentity : Field (Runtime X) :=
  fieldBytes (text "Transport Identity") 9 (ffRebootRequired ||| ffSecret) [] 64
    (fun v => store fun r =>
      if v.asBytes.length = 0 then r else { r with identity := some (loadPrivateKey v.asBytes) })
    Runtime.identityPrv

def remoteManagementAllowed : Field (Runtime X) :=
  fieldBytesList (text "Remote Management Allowed") 8 ffRebootRequired [] 16 32
    (fun v => store fun r => { r with remoteManagementAllowed := v.asBytesList.toFinset }) Runtime.allowedList

def clearProvisioning (clearStorage : X → Bool × X) : Field (Runtime X) :=
  commandVoid (text "Clear Provisioning") 100 do
    let r ← Prog.get
    Prog.modify fun r => { r with rest := (clearStorage r.rest).2 }
    pure (clearStorage r.rest).1

/-- Namespace 1; `clearStorage` is `Provisioner::clear_storage`, and `begin` fills in the hash of the schema. -/
def generalConfig (clearStorage : X → Bool × X) (schemaHash : UInt32) : NamespaceDecl (Runtime X) where
  id := 1
  name := text "uReticulum General Config"
  fields := [transportEnabled r₀, linkMtuDiscovery r₀, remoteManagementEnabled r₀, probeDestinationEnabled r₀,
    persistInterval r₀, cleanInterval r₀, transportIdentity, remoteManagementAllowed, clearProvisioning clearStorage]
  schemaHash
  distinct := by
    show [(1 : FieldId), 2, 3, 4, 6, 7, 9, 8, 100].Nodup
    decide

end GeneralConfig

/-! ## Transport Config -/

section TransportConfig

variable (r₀ : Runtime X)

def pathTableMaxsize : Field (Runtime X) :=
  fieldInt (text "Path Table Max Size") 1 ffLiveApply (widen r₀.pathTableMaxsize) 1 65535
    (fun v => store fun r => { r with pathTableMaxsize := asUInt16 v, pathStoreMaxRecs := asUInt16 v })
    fun r => widen r.pathTableMaxsize

def announceTableMaxsize : Field (Runtime X) :=
  fieldInt (text "Announce Table Max Size") 2 ffLiveApply (widen r₀.announceTableMaxsize) 1 65535
    (fun v => store fun r => { r with announceTableMaxsize := asUInt16 v }) fun r => widen r.announceTableMaxsize

def hashlistMaxsize : Field (Runtime X) :=
  fieldInt (text "Hashlist Max Size") 3 ffLiveApply (widen r₀.hashlistMaxsize) 1 65535
    (fun v => store fun r => { r with hashlistMaxsize := asUInt16 v, packetHashStoreMaxRecs := asUInt16 v })
    fun r => widen r.hashlistMaxsize

def maxPrTags : Field (Runtime X) :=
  fieldInt (text "Max PR Tags") 4 ffLiveApply (widen r₀.maxPrTags) 1 65535
    (fun v => store fun r => { r with maxPrTags := asUInt16 v, discoveryPrTagsMaxSize := asUInt16 v })
    fun r => widen r.maxPrTags

def knownDestinationsMaxsize : Field (Runtime X) :=
  fieldInt (text "Known Destinations Max Size") 6 ffLiveApply (widen r₀.knownDestinationsMaxsize) 1 65535
    (fun v => store fun r => { r with knownDestinationsMaxsize := asUInt16 v, knownStoreMaxRecs := asUInt16 v })
    fun r => widen r.knownDestinationsMaxsize

def clearTransportStorage (clearStorage : X → X) : Field (Runtime X) :=
  commandVoid (text "Clear Storage") 100 (store fun r => { r with rest := clearStorage r.rest })

/-- Namespace 2; `clearStorage` is `Transport::clear_storage`. -/
def transportConfig (clearStorage : X → X) (schemaHash : UInt32) : NamespaceDecl (Runtime X) where
  id := 2
  name := text "uReticulum Transport Config"
  fields := [pathTableMaxsize r₀, announceTableMaxsize r₀, hashlistMaxsize r₀, maxPrTags r₀,
    knownDestinationsMaxsize r₀, clearTransportStorage clearStorage]
  schemaHash
  distinct := by
    show [(1 : FieldId), 2, 3, 4, 6, 100].Nodup
    decide

end TransportConfig

/-! ## Info -/

/-- Namespace 60, which has no fields of its own. -/
def info (schemaHash : UInt32) : NamespaceDecl (Runtime X) where
  id := 60
  name := text "uReticulum Info"
  fields := []
  schemaHash
  distinct := List.nodup_nil

/-- Namespace 61, in `Info`. `identityHash` is the hash of an identity with the given private keys, `probe` and
`management` are the hashes of the two destinations, empty where they are not set. -/
def addresses (identityHash : PrivateKeys → Bytes) (probe management : X → Bytes) (schemaHash : UInt32) :
    NamespaceDecl (Runtime X) where
  id := 61
  name := text "Addresses"
  parentId := 60
  fields :=
    [metricBytes (text "Transport Identity") 1 fun r => (r.identity.map identityHash).getD [],
      metricBytes (text "Probe Destination") 2 fun r => probe r.rest,
      metricBytes (text "Mgmt Destination") 3 fun r => management r.rest]
  schemaHash
  distinct := by
    show [(1 : FieldId), 2, 3].Nodup
    decide

end MicroReticulum.Provisioning.Builtin
