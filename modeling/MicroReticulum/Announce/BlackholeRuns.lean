import MicroReticulum.Announce.Blackhole

/-!
# Runs with a blackhole list

A run starts with `Transport::start` and goes on with operations in any order. Every operation says under which
condition it keeps the path table clear of blackholed identities.

A run stands between two starts; the loss of power in the middle of an operation is not one
of its steps.
-/

namespace MicroReticulum.Announce

open MicroReticulum Packet Link Library Transport

variable {env : Environment} {fullHash : Bytes → Hash} {s t : TransportState}

/-! ## Conditions -/

/-- The identity that a path leads to: the one that is known of its destination, or else that of its announce. -/
def leadsTo (known : Option IdentityEntry) (path : StoredPath) : Option IdentityEntry :=
  known.or (path.announcePacket.map fun p =>
    { publicKey := p.data.left ecpubsize, appData := p.data.mid (ecpubsize + 84) })

/-- None of the paths leads to an identity of the list. -/
def Avoids (fullHash : Bytes → Hash) (paths : Table StoredPath) (known : Table IdentityEntry) (list : Blackholes) :
    Prop :=
  ∀ d path, paths.lookup d = some path → ∀ entry, leadsTo (known.lookup d) path = some entry →
    blackholeKey fullHash entry ∉ list

/-- Where every path has its announce, what is recalled of a destination with a path is what the path leads to. -/
theorem recalled_of_path {d : Address} {path : StoredPath} (hpath : s.pathTable.lookup d = some path)
    (hwhole : path.announcePacket.isSome) : recalled s d = leadsTo (s.knownDestinations.lookup d) path := by
  unfold recalled leadsTo findAnnouncePacket
  cases hknown : s.knownDestinations.lookup d with
  | some entry => rfl
  | none =>
    obtain ⟨p, hp⟩ := Option.isSome_iff_exists.mp hwhole
    simp [hpath, hp]

theorem purged_iff_avoids (hs : Stored s) :
    Purged fullHash s ↔ Avoids fullHash s.pathTable s.knownDestinations s.blackholedIdentities := by
  have hwhole : ∀ d path, s.pathTable.lookup d = some path → path.announcePacket.isSome := by
    intro d path hpath
    obtain ⟨p, hp, -⟩ := hs.paths d path hpath
    rw [hp]
    rfl
  constructor
  · intro hpurged d path hpath entry hentry
    apply hpurged d (AList.lookup_isSome.mp (by rw [hpath]; rfl)) entry
    rw [recalled_of_path hpath (hwhole d path hpath)]
    exact hentry
  · intro havoids d hd entry hentry
    obtain ⟨path, hpath⟩ := Option.isSome_iff_exists.mp (AList.lookup_isSome.mpr hd)
    rw [recalled_of_path hpath (hwhole d path hpath)] at hentry
    exact havoids d path hpath entry hentry

/-! ## Operations -/

/-- What is done to the blackhole list, the paths and the known destinations. -/
inductive Operation where
  | blackhole (identityHash : Bytes) (expires : Double) (reason : Bytes)
  | unblackhole (identityHash : Bytes)
  /-- with the file, and the conversion of the integers in it -/
  | reload (floatOfInt : Int → Double) (file : List Library.Token)
  | expire
  /-- an announce comes in, also as a path response -/
  | announce (raw : Bytes) (p : Packet) (unpacks : unpack raw = some p) (isAnnounce : p.packetType = .announce)
    (interface : Option Interface)
  | recalls (d : Address)
  | remember (d : Address) (entry : IdentityEntry)
  /-- the store of known destinations drops an entry -/
  | forget (d : Address)
  /-- paths are removed, or the path store drops them -/
  | dropPaths (ds : List Address)

/-- The state behind an operation. -/
def Operation.run (env : Environment) (s : TransportState) : Operation → TransportState
  | .blackhole identityHash expires reason => (blackholeIdentity env identityHash expires reason s).2
  | .unblackhole identityHash => (unblackholeIdentity identityHash s).2
  | .reload floatOfInt file => (reloadBlackhole env floatOfInt file s).2
  | .expire => expireBlackholes env.now s
  | .announce raw _ _ _ interface => (inbound env raw interface s).2
  | .recalls d => (identityRecall env d s).2
  | .remember d entry => (Transport.remember env d entry s).2
  | .forget d => { s with knownDestinations := s.knownDestinations.erase d }
  | .dropPaths ds => { s with pathTable := s.pathTable.eraseAll ds }

/-- When an operation leaves no path to a blackholed identity. -/
def Operation.Meets (env : Environment) (s : TransportState) : Operation → Prop
  | .reload floatOfInt file =>
    -- the loader comes to the end of the file, or what it has loaded concerns no path
    let loaded := loadFile env.now floatOfInt file s.blackholedIdentities
    loaded.2 = true ∨ Avoids env.fullHash s.pathTable s.knownDestinations loaded.1
  | .announce _ p _ _ _ => AnnounceFits env p s
  | .remember d entry => d ∈ s.pathTable → blackholeKey env.fullHash entry ∉ s.blackholedIdentities
  | .forget d =>
    -- what was known of the destination hid the announce of its path
    ∀ path, s.pathTable.lookup d = some path → ∀ entry, leadsTo none path = some entry →
      blackholeKey env.fullHash entry ∉ s.blackholedIdentities
  | _ => True

/-- A list with fewer entries. -/
theorem Purged.of_fewer (hs : Purged fullHash s) (hpaths : t.pathTable = s.pathTable)
    (hrecalled : ∀ d, recalled t d = recalled s d)
    (hfewer : ∀ k, k ∈ t.blackholedIdentities → k ∈ s.blackholedIdentities) : Purged fullHash t := by
  intro d hd entry hentry hmem
  rw [hpaths] at hd
  rw [hrecalled] at hentry
  exact hs d hd entry hentry (hfewer _ hmem)

theorem blackholeIdentity_purged (hpurged : Purged env.fullHash s) (hstored : Stored s) (identityHash : Bytes)
    (expires : Double) (reason : Bytes) :
    Purged env.fullHash (blackholeIdentity env identityHash expires reason s).2
      ∧ Stored (blackholeIdentity env identityHash expires reason s).2 := by
  unfold blackholeIdentity
  rw [Prog.get_bind_run]
  split
  case isTrue => exact ⟨hpurged, hstored⟩
  case isFalse =>
    dsimp only
    rw [Prog.modify_bind_run]
    have hstored' : ∀ list, Stored { s with blackholedIdentities := list } := fun _ => ⟨hstored.keys, hstored.paths⟩
    obtain ⟨t, hrun, hpurged', hstored'', -⟩ := @removeBlackholedPaths_purged env _ (hstored' _)
    rw [Prog.bind_value hrun]
    exact ⟨hpurged', hstored''⟩

theorem unblackholeIdentity_purged (hpurged : Purged fullHash s) (hstored : Stored s) (identityHash : Bytes) :
    Purged fullHash (unblackholeIdentity identityHash s).2 ∧ Stored (unblackholeIdentity identityHash s).2 := by
  unfold unblackholeIdentity
  rw [Prog.get_bind_run]
  split
  case isFalse => exact ⟨hpurged, hstored⟩
  case isTrue =>
    rw [Prog.modify_bind_run]
    refine ⟨hpurged.of_fewer rfl (fun _ => rfl) fun k hk => ?_, ⟨hstored.keys, hstored.paths⟩⟩
    exact (AList.mem_erase.mp hk).2

theorem mem_of_mem_foldl_erase {ks : List Bytes} {list : Blackholes} {k : Bytes}
    (h : k ∈ ks.foldl (fun t k => t.erase k) list) : k ∈ list := by
  induction ks generalizing list with
  | nil => exact h
  | cons k' ks ih => exact (AList.mem_erase.mp (ih h)).2

theorem expireBlackholes_purged (hpurged : Purged fullHash s) (hstored : Stored s) (now : ℚ) :
    Purged fullHash (expireBlackholes now s) ∧ Stored (expireBlackholes now s) :=
  ⟨hpurged.of_fewer rfl (fun _ => rfl) fun _ hk => mem_of_mem_foldl_erase hk, ⟨hstored.keys, hstored.paths⟩⟩

/-- Loading a file changes the list. The purge follows if the loader comes to the end of the file. -/
theorem reloadBlackhole_run (hstored : Stored s) (floatOfInt : Int → Double) (file : List Library.Token) :
    ∃ t, reloadBlackhole env floatOfInt file s = (.value (), t) ∧ Stored t
      ∧ t.blackholedIdentities = (loadFile env.now floatOfInt file s.blackholedIdentities).1
      ∧ ((Operation.reload floatOfInt file).Meets env s → Purged env.fullHash t) := by
  have hstored' : ∀ list, Stored { s with blackholedIdentities := list } := fun _ => ⟨hstored.keys, hstored.paths⟩
  unfold reloadBlackhole
  rw [Prog.get_bind_run, Prog.modify_bind_run]
  obtain ⟨-, hrun⟩ | ⟨hleft, hrun⟩ := Prog.when_run_cases
    ((loadFile env.now floatOfInt file s.blackholedIdentities).2 = true) (removeBlackholedPaths env)
    { s with blackholedIdentities := (loadFile env.now floatOfInt file s.blackholedIdentities).1 }
  · obtain ⟨t, hpurge, hpurged, ht, hlist⟩ := @removeBlackholedPaths_purged env _ (hstored' _)
    exact ⟨t, hrun.trans hpurge, ht, hlist, fun _ => hpurged⟩
  · refine ⟨_, hrun, hstored' _, rfl, fun hmeets => (purged_iff_avoids (hstored' _)).mpr ?_⟩
    exact Or.resolve_left hmeets hleft

theorem remember_purged (hpurged : Purged env.fullHash s) (hstored : Stored s) {d : Address} {entry : IdentityEntry}
    (h : d ∈ s.pathTable → blackholeKey env.fullHash entry ∉ s.blackholedIdentities) :
    Purged env.fullHash (remember env d entry s).2 ∧ Stored (remember env d entry s).2 := by
  by_cases hkey : entry.publicKey.length = ecpubsize
  case neg =>
    unfold remember
    rw [Prog.bind_thrown (Prog.require_run_of_not hkey _ s)]
    exact ⟨hpurged, hstored⟩
  case pos =>
    rw [remember_run hkey s]
    dsimp only
    split
    · exact ⟨putIdentity_purged hpurged h, keysWhole_insert hstored.keys hkey rfl, hstored.paths⟩
    · exact ⟨hpurged, hstored⟩

theorem forget_purged (hpurged : Purged fullHash s) (hstored : Stored s) {d : Address}
    (h : ∀ path, s.pathTable.lookup d = some path → ∀ entry, leadsTo none path = some entry →
      blackholeKey fullHash entry ∉ s.blackholedIdentities) :
    Purged fullHash { s with knownDestinations := s.knownDestinations.erase d }
      ∧ Stored { s with knownDestinations := s.knownDestinations.erase d } := by
  have hstored' : Stored { s with knownDestinations := s.knownDestinations.erase d } :=
    ⟨TableAll.erase hstored.keys d, hstored.paths⟩
  refine ⟨(purged_iff_avoids hstored').mpr fun d' path hpath entry hentry => ?_, hstored'⟩
  by_cases hd : d' = d
  · subst hd
    rw [AList.lookup_erase] at hentry
    exact h path hpath entry hentry
  · rw [AList.lookup_erase_ne hd] at hentry
    exact (purged_iff_avoids hstored).mp hpurged d' path hpath entry hentry

theorem dropPaths_purged (hpurged : Purged fullHash s) (hstored : Stored s) (ds : List Address) :
    Purged fullHash { s with pathTable := s.pathTable.eraseAll ds }
      ∧ Stored { s with pathTable := s.pathTable.eraseAll ds } := by
  have hstored' : Stored { s with pathTable := s.pathTable.eraseAll ds } :=
    ⟨hstored.keys, TableAll.eraseAll hstored.paths ds⟩
  refine ⟨(purged_iff_avoids hstored').mpr fun d path hpath entry hentry => ?_, hstored'⟩
  have hkept : d ∉ ds := ((mem_eraseAll ds s.pathTable d).mp (AList.lookup_isSome.mp (by rw [hpath]; rfl))).2
  rw [lookup_eraseAll hkept] at hpath
  exact (purged_iff_avoids hstored).mp hpurged d path hpath entry hentry

/-- An operation that meets its condition. -/
theorem Operation.run_purged (henv : Validates env) (hhandlers : HandlersSpare SameIdentities env)
    (hpurged : Purged env.fullHash s) (hstored : Stored s) (op : Operation) (hmeets : op.Meets env s) :
    Purged env.fullHash (op.run env s) ∧ Stored (op.run env s) := by
  cases op with
  | blackhole identityHash expires reason => exact blackholeIdentity_purged hpurged hstored identityHash expires reason
  | unblackhole identityHash => exact unblackholeIdentity_purged hpurged hstored identityHash
  | reload floatOfInt file =>
    obtain ⟨t, hrun, ht, -, hpurges⟩ := @reloadBlackhole_run env s hstored floatOfInt file
    show Purged env.fullHash (reloadBlackhole env floatOfInt file s).2
      ∧ Stored (reloadBlackhole env floatOfInt file s).2
    rw [hrun]
    exact ⟨hpurges hmeets, ht⟩
  | expire => exact expireBlackholes_purged hpurged hstored env.now
  | announce raw p unpacks isAnnounce interface =>
    exact inbound_announce_purged henv hhandlers unpacks isAnnounce interface hpurged hstored hmeets
  | recalls d => exact ⟨(identityRecall_same d s).purged hpurged, (identityRecall_same d s).stored hstored⟩
  | remember d entry => exact remember_purged hpurged hstored hmeets
  | forget d => exact forget_purged hpurged hstored hmeets
  | dropPaths ds => exact dropPaths_purged hpurged hstored ds

/-! ## Starting -/

/-- The stores on disk were written by this program. -/
structure WholeStorage (storage : Storage) : Prop where
  keys : TableAll (fun _ entry => entry.publicKey.length = ecpubsize) storage.knownStore
  paths : PathsWhole storage.pathStore

/-- `Transport::start` is called on a node, and what was left on disk was written by this program. -/
structure Launch (fullHash : Bytes → Hash) where
  env : Environment
  sameHash : env.fullHash = fullHash
  floatOfInt : Int → Double
  storage : Storage
  whole : WholeStorage storage
  before : TransportState
  /-- no path store has been initialised, and nothing is blackholed -/
  noPaths : before.pathTable = ∅
  noBlackholes : before.blackholedIdentities = ∅
  keysWhole : KeysWhole before

/-- The state in which `Transport::start` returns. -/
def Launch.state (launch : Launch fullHash) : TransportState :=
  (start launch.env launch.floatOfInt launch.storage launch.before).2

/-- None of the paths that are restored leads to an identity in the blackhole file. -/
def Launch.Meets (launch : Launch fullHash) : Prop :=
  launch.env.transportEnabled = true → launch.storage.filesystem = true →
    Avoids fullHash launch.storage.restoredPaths launch.storage.restoredKnown
      (loadFile launch.env.now launch.floatOfInt launch.storage.blackholeLocal ∅).1

theorem avoids_empty (known : Table IdentityEntry) (list : Blackholes) : Avoids fullHash ∅ known list := by
  intro d path hpath
  cases hpath

/-- Behind the start the stores are whole, and the paths that were restored are the only ones. -/
theorem Launch.state_purged (launch : Launch fullHash) (hmeets : launch.Meets) :
    Purged fullHash launch.state ∧ Stored launch.state := by
  obtain ⟨env, rfl, floatOfInt, storage, whole, before, noPaths, noBlackholes, keysWhole⟩ := launch
  have hbefore : Stored before := by
    refine ⟨keysWhole, ?_⟩
    unfold PathsWhole
    rw [noPaths]
    exact TableAll.empty
  obtain ⟨t, hrun, ht, hlist, hpurges⟩ :=
    @reloadBlackhole_run env before hbefore floatOfInt storage.blackholeLocal
  rw [noBlackholes] at hlist
  have hpurged : Purged env.fullHash t := by
    apply hpurges
    right
    rw [noPaths]
    exact avoids_empty _ _
  unfold Launch.state start
  dsimp only
  rw [Prog.bind_value hrun]
  by_cases hrestores : env.transportEnabled = true ∧ storage.filesystem = true
  case neg =>
    rw [Prog.when_of_not hrestores]
    exact ⟨hpurged, ht⟩
  case pos =>
    rw [Prog.when_of hrestores, Prog.modify_bind_run]
    have hwhole : Stored { t with pathTable := storage.restoredPaths, knownDestinations := storage.restoredKnown } := by
      constructor
      · unfold KeysWhole Storage.restoredKnown
        dsimp only
        split
        · exact TableAll.empty
        · exact whole.keys
      · unfold PathsWhole Storage.restoredPaths
        dsimp only
        split
        · exact TableAll.empty
        · exact whole.paths
    refine ⟨(purged_iff_avoids hwhole).mpr ?_, hwhole⟩
    dsimp only
    rw [hlist]
    exact hmeets hrestores.1 hrestores.2

/-! ## Runs -/

/-- What happens to a node: an operation, or something that touches neither the paths nor the known destinations
nor the list. -/
inductive Event where
  | operation (env : Environment) (op : Operation)
  | other

/-- One step of a running node. -/
inductive BlackholeStep (fullHash : Bytes → Hash) : TransportState → Event → TransportState → Prop
  | operation (env : Environment) (sameHash : env.fullHash = fullHash) (henv : Validates env)
    (hhandlers : HandlersSpare SameIdentities env) (op : Operation) (s : TransportState) :
    BlackholeStep fullHash s (.operation env op) (op.run env s)
  | other (s t : TransportState) (hpaths : t.pathTable = s.pathTable)
    (hknown : t.knownDestinations = s.knownDestinations)
    (hlist : t.blackholedIdentities = s.blackholedIdentities) : BlackholeStep fullHash s .other t

/-- The condition of a step. -/
def Event.Meets (s : TransportState) : Event → Prop
  | .operation env op => op.Meets env s
  | .other => True

theorem BlackholeStep.purged {e : Event} (hstep : BlackholeStep fullHash s e t) (hpurged : Purged fullHash s)
    (hstored : Stored s) (hmeets : e.Meets s) : Purged fullHash t ∧ Stored t := by
  cases hstep with
  | operation env sameHash henv hhandlers op s =>
    subst sameHash
    exact op.run_purged henv hhandlers hpurged hstored hmeets
  | other s t hpaths hknown hlist =>
    have hstored' : Stored t := by
      refine ⟨?_, ?_⟩
      · unfold KeysWhole
        rw [hknown]
        exact hstored.keys
      · rw [hpaths]
        exact hstored.paths
    refine ⟨(purged_iff_avoids hstored').mpr ?_, hstored'⟩
    rw [hpaths, hknown, hlist]
    exact (purged_iff_avoids hstored).mp hpurged

/-- After a start and in every run whose steps meet their conditions, no path leads to a blackholed identity. -/
theorem purged_of_run (launch : Launch fullHash) (hlaunch : launch.Meets) (s : TransportState)
    (hrun : Relation.ReflTransGen (fun s t => ∃ e : Event, BlackholeStep fullHash s e t ∧ e.Meets s) launch.state s) :
    Purged fullHash s := by
  suffices hall : Purged fullHash s ∧ Stored s from hall.1
  induction hrun with
  | refl => exact launch.state_purged hlaunch
  | tail _ hstep ih =>
    obtain ⟨e, hstep, hmeets⟩ := hstep
    exact hstep.purged ih.1 ih.2 hmeets

namespace Sample

/-- A transport node to which every signature is valid and every hash zero. -/
def routing : Environment := { trusting with transportEnabled := true }

/-- The identity of the announces. -/
def somebody : IdentityEntry where
  publicKey := List.replicate 64 7
  appData := []

/-- A path as it was left on disk. -/
def leftPath : StoredPath where
  timestamp := 0
  receivedFrom := .fill 0
  hops := 1
  expires := 1
  randomBlobs := []
  receivingInterface := 1
  announce := (telling 1 []).raw

/-- A path and the identity it leads to, and a blackhole file. -/
def left (file : List Library.Token) : Storage where
  filesystem := true
  blackholeLocal := file
  pathStore := (∅ : Table StoredPath).insert (.fill 0) leftPath
  knownStore := (∅ : Table IdentityEntry).insert (.fill 0) somebody
  pathStoreFull := false
  knownStoreFull := false

set_option maxRecDepth 8000 in
theorem left_whole (file : List Library.Token) : WholeStorage (left file) where
  keys := TableAll.insert TableAll.empty (by decide)
  paths := by
    have hpath : ∃ p, leftPath.announcePacket = some p ∧ ecpubsize ≤ p.data.length := by
      refine ⟨{ (telling 1 []).packet with hops := (telling 1 []).packet.hops + 1 }, ?_, by decide⟩
      unfold StoredPath.announcePacket leftPath
      rw [(telling 1 []).unpacks]
      rfl
    exact TableAll.insert TableAll.empty hpath

/-- The node starts with the stores and the file. -/
def launched (file : List Library.Token) : Launch routing.fullHash where
  env := routing
  sameHash := rfl
  floatOfInt n := .fin n
  storage := left file
  whole := left_whole file
  before := listening
  noPaths := rfl
  noBlackholes := rfl
  keysWhole := TableAll.empty

/-- The file lists the identity, for ever. -/
def listed : List Library.Token :=
  [.map 1, .bin (blackholeKey routing.fullHash somebody), .arr 3, .bin [], .float (.fin 0), .str []]

end Sample

set_option maxRecDepth 8000 in
/-- The identity of a path that was restored is blackholed. -/
theorem purged_of_run_blackhole :
    Purged Sample.routing.fullHash ((Operation.blackhole (blackholeKey Sample.routing.fullHash Sample.somebody)
      (.fin 0) []).run Sample.routing (Sample.launched []).state) := by
  refine purged_of_run (Sample.launched []) (fun _ _ d path _ entry _ hmem => ?_) _
    (.single ⟨.operation Sample.routing (.blackhole _ (.fin 0) []),
      .operation Sample.routing rfl (fun _ => rfl) (fun handler hmem => by cases hmem) _ _, trivial⟩)
  cases hmem

set_option maxRecDepth 8000 in
/-- What the path store restores is not purged. -/
theorem restored_path_not_purged :
    ¬ ∀ (fullHash : Bytes → Hash) (launch : Launch fullHash) (s : TransportState),
      Relation.ReflTransGen (fun s t => ∃ e, BlackholeStep fullHash s e t) launch.state s → Purged fullHash s := by
  intro h
  have hpath : Address.fill 0 ∈ (Sample.launched Sample.listed).state.pathTable := by decide +kernel
  have hknown : (recalled (Sample.launched Sample.listed).state (.fill 0)).map IdentityEntry.publicKey
      = some Sample.somebody.publicKey := by decide +kernel
  obtain ⟨entry, hentry, hkey⟩ := Option.map_eq_some_iff.mp hknown
  have hlisted : blackholeKey Sample.routing.fullHash Sample.somebody
      ∈ (Sample.launched Sample.listed).state.blackholedIdentities := by decide +kernel
  refine h Sample.routing.fullHash (Sample.launched Sample.listed) _ .refl (.fill 0) hpath entry hentry ?_
  unfold blackholeKey at hlisted ⊢
  rw [hkey]
  exact hlisted

end MicroReticulum.Announce
