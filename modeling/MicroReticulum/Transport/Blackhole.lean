import MicroReticulum.Transport.State

/-!
# Blackholed identities

The blackhole list of `Transport`: adding to it, lifting from it, loading it from its file, expiring its entries,
and the purge of the path table that follows an addition. `start` is the part of `Transport::start` that touches
the list, the path table and the known destinations, in the order of the source: the list is loaded and the paths
are purged before either store has restored what it persisted. `persistBlackhole` is what the file holds after each
change of the list.

The file is a sequence of `MsgPack` objects. A record that does not have the expected form leaves the loader at
once, with the records before it loaded and no purge.
-/

namespace MicroReticulum.Transport

open MicroReticulum Library

/-- `_blackholed_identities` -/
abbrev Blackholes : Type := AList fun _ : Bytes => BlackholeEntry

namespace Blackholes

/-- `std::map::emplace`: an entry that is there stays. -/
def emplace (t : Blackholes) (identityHash : Bytes) (entry : BlackholeEntry) : Blackholes :=
  if identityHash ∈ t then t else t.insert identityHash entry

end Blackholes

/-- An entry with a time has expired. -/
def BlackholeEntry.expired (now : ℚ) (entry : BlackholeEntry) : Bool :=
  Double.lt (.fin 0) entry.expires && entry.expires.lt (.fin now)

/-! ## The purge -/

/-- The paths whose destination belongs to a blackholed identity. An exception ends the enumeration, and what was
found before it is kept. -/
def blackholedPaths (env : Environment) : List Address → Prog String TransportState (List Address)
  | [] => pure []
  | d :: ds => do
    let associated ← Prog.catching (do
      let identity ← identityRecall env d
      pure (some identity)) fun _ => pure none
    match associated with
    | none => pure []
    | some identity => do
      let s ← Prog.get
      let rest ← blackholedPaths env ds
      pure (if identity.any fun entry => isBlackholed s (identityHash env entry) then d :: rest else rest)

/-- `Transport::remove_blackholed_paths` -/
def removeBlackholedPaths (env : Environment) : Prog String TransportState Unit := do
  let s ← Prog.get
  Prog.when (s.blackholedIdentities.entries ≠ []) do
    let dropDestinations ← blackholedPaths env s.pathTable.keys
    Prog.modify fun s => { s with pathTable := s.pathTable.eraseAll dropDestinations }

/-! ## The list -/

/-- `Transport::blackhole_identity`, which says whether an entry was added. -/
def blackholeIdentity (env : Environment) (identityHash : Bytes) (expires : Double) (reason : Bytes) :
    Prog String TransportState Bool := do
  let s ← Prog.get
  if identityHash ∈ s.blackholedIdentities then pure false
  else do
    let source := (s.identity.map List.Vector.toList).getD []
    Prog.modify fun s =>
      { s with blackholedIdentities := s.blackholedIdentities.insert identityHash { source, expires, reason } }
    removeBlackholedPaths env
    pure true

/-- `Transport::unblackhole_identity`, which says whether an entry was removed. -/
def unblackholeIdentity (identityHash : Bytes) : Prog String TransportState Bool := do
  let s ← Prog.get
  if identityHash ∈ s.blackholedIdentities then do
    Prog.modify fun s => { s with blackholedIdentities := s.blackholedIdentities.erase identityHash }
    pure true
  else pure false

/-- The expiry sweep of `jobs`. -/
def expireBlackholes (now : ℚ) (s : TransportState) : TransportState :=
  let stale := (s.blackholedIdentities.entries.filter fun e => e.2.expired now).map fun e => e.1
  { s with blackholedIdentities := stale.foldl (fun t k => t.erase k) s.blackholedIdentities }

/-! ## The file -/

/-- One record of the file, an identity hash and `[source, until, reason]`; nothing where the loader returns. -/
def readBlackhole (floatOfInt : Int → Double) :
    List Token → Option ((Bytes × BlackholeEntry) × List Token)
  | .bin identityHash :: .arr n :: .bin source :: .float expires :: .str reason :: rest =>
    if n < 3 then none else some ((identityHash, { source, expires, reason }), rest)
  | .bin identityHash :: .arr n :: .bin source :: .int expires :: .str reason :: rest =>
    if n < 3 then none else some ((identityHash, { source, expires := floatOfInt expires, reason }), rest)
  | _ => none

/-- The loop over the records, and whether it came to its end. -/
def loadBlackholes (now : ℚ) (floatOfInt : Int → Double) : Nat → List Token → Blackholes → Blackholes × Bool
  | 0, _, t => (t, true)
  | n + 1, c, t =>
    match readBlackhole floatOfInt c with
    | none => (t, false)
    | some ((identityHash, entry), c') =>
      loadBlackholes now floatOfInt n c' (if entry.expired now then t else t.emplace identityHash entry)

/-- What loading a file makes of the list, and whether the purge follows. No file and an empty file are `[]`. -/
def loadFile (now : ℚ) (floatOfInt : Int → Double) (file : List Token) (t : Blackholes) : Blackholes × Bool :=
  match file with
  | .map n :: rest => loadBlackholes now floatOfInt n rest t
  | _ => (t, false)

/-- `Transport::reload_blackhole` -/
def reloadBlackhole (env : Environment) (floatOfInt : Int → Double) (file : List Token) :
    Prog String TransportState Unit := do
  let s ← Prog.get
  let loaded := loadFile env.now floatOfInt file s.blackholedIdentities
  Prog.modify fun s => { s with blackholedIdentities := loaded.1 }
  Prog.when (loaded.2 = true) (removeBlackholedPaths env)

/-- The entries a node makes itself have its own identity as their source. -/
def ownSource (s : TransportState) : Bytes := (s.identity.map List.Vector.toList).getD []

/-- `Transport::persist_blackhole`: the records of the node's own entries, behind their number, which is counted in a
loop of its own. -/
def persistBlackhole (s : TransportState) : List Token :=
  .map (s.blackholedIdentities.entries.countP fun e => e.2.source = ownSource s)
    :: s.blackholedIdentities.entries.flatMap fun e =>
      if e.2.source ≠ ownSource s then []
      else [.bin e.1, .arr 3, .bin e.2.source, .float e.2.expires, .str e.2.reason]

/-! ## Starting -/

/-- What is in storage when `Transport` starts. -/
structure Storage where
  /-- a file system is registered -/
  filesystem : Bool
  /-- `blackhole_local` -/
  blackholeLocal : List Token
  pathStore : Table StoredPath
  knownStore : Table IdentityEntry
  /-- hardly any space is left when the path store has been initialised, so that it is cleared -/
  pathStoreFull : Bool
  knownStoreFull : Bool

/-- The path store behind its initialisation. -/
def Storage.restoredPaths (storage : Storage) : Table StoredPath :=
  if storage.pathStoreFull then ∅ else storage.pathStore

/-- The store of known destinations behind its initialisation. -/
def Storage.restoredKnown (storage : Storage) : Table IdentityEntry :=
  if storage.knownStoreFull then ∅ else storage.knownStore

/-- `Transport::start` -/
def start (env : Environment) (floatOfInt : Int → Double) (storage : Storage) : Prog String TransportState Unit := do
  reloadBlackhole env floatOfInt storage.blackholeLocal
  Prog.when (env.transportEnabled = true ∧ storage.filesystem = true) do
    Prog.modify fun s => { s with pathTable := storage.restoredPaths }
    Prog.modify fun s => { s with knownDestinations := storage.restoredKnown }

end MicroReticulum.Transport
