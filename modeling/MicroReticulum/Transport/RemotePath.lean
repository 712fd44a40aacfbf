import MicroReticulum.Resource.State

/-!
# Remote path queries

A manager asks for the path table or for the announce rates, of one destination or of all, and for paths
within a number of hops. `remotePathHandler` packs a header with the number of the entries, which it counts in
a pass of its own, and then the entries.

`interfaceName` is the virtual `toString` of an interface, and `blockUnresponsive` the setting that withholds
the paths marked unresponsive.

Who may ask is decided by the request handler of the link, and proved in `Link.Access`.
-/

namespace MicroReticulum.Transport

open MicroReticulum Packet Link Library
open MicroReticulum.Resource (Advertisement)

/-! ## Requests -/

/-- `RemotePathRequest` -/
structure RemotePathRequest where
  command : Bytes
  destHash : Bytes := []
  /-- `max_hops`, where `max_hops_present` is set -/
  maxHops : Option UInt32 := none
  deriving DecidableEq

/-- The bytes of a text. -/
def bytesOf (s : String) : Bytes := s.toList.map Advertisement.letter

/-- Element 1, and what stands behind it. -/
def parseDestHash (n : Nat) (ts : List Library.Token) : Option (Bytes × List Library.Token) :=
  if 2 ≤ n then
    match ts with
    | .nil :: rest => some ([], rest)
    | .bin b :: rest => some (b, rest)
    | _ => none
  else some ([], ts)

/-- Element 2 -/
def parseMaxHops (n : Nat) (ts : List Library.Token) : Option (Option UInt32) :=
  if 3 ≤ n then
    match ts with
    | .nil :: _ => some none
    | .int v :: _ => some (some (UInt32.ofNat (Advertisement.readUint [.int v]).1))
    | _ => none
  else some none

/-- `remote_path_parse_request` -/
def remotePathParseRequest : List Library.Token → Option RemotePathRequest
  | .arr n :: rest =>
    if n < 1 then none
    else
      match rest with
      | .str command :: rest =>
        (parseDestHash n rest).bind fun (destHash, rest) =>
          (parseMaxHops n rest).map fun maxHops => { command, destHash, maxHops }
      | _ => none
  | _ => none

/-! ## Entries -/

/-- A key of an entry. -/
def word (s : String) : Library.Token := .str (bytesOf s)

/-- A time, as a `float64`. -/
def time (q : ℚ) : Library.Token := .float (.fin q)

variable (interfaceName : Option Interface → Bytes)

/-- `remote_path_pack_path_entry`, of an entry with this interface -/
def remotePathPackPathEntry (destHash : Bytes) (entry : StoredPath) (receivingInterface : Option Interface) :
    List Library.Token :=
  [.map 6, word "hash", .bin destHash, word "timestamp", time entry.timestamp,
    word "via", .bin entry.receivedFrom.toList, word "hops", .int entry.hops.toNat,
    word "expires", time entry.expires, word "interface", .str (interfaceName receivingInterface)]

/-- `remote_path_pack_rate_entry` -/
def remotePathPackRateEntry (destHash : Bytes) (entry : RateEntry) : List Library.Token :=
  [.map 5, word "hash", .bin destHash, word "last", time entry.last,
    word "rate_violations", .int (UInt32.ofNat entry.rateViolations.floor.toNat).toNat,
    word "blocked_until", time entry.blockedUntil,
    word "timestamps", .arr entry.timestamps.length] ++ entry.timestamps.map time

/-! ## The handler -/

/-- The most entries of a listing. -/
def listingMax : Nat := 100

/-- The counting pass over the paths, which leaves the loop at the hundredth. -/
def countPaths {α : Type} (skips : α → Bool) : List α → Nat → Nat
  | [], count => count
  | a :: rest, count =>
    if skips a then countPaths skips rest count
    else if listingMax ≤ count + 1 then count + 1
    else countPaths skips rest (count + 1)

/-- The emitting pass. -/
def emitPaths {α : Type} (skips : α → Bool) (emit : α → List Library.Token) : List α → Nat → List Library.Token
  | [], _ => []
  | a :: rest, count =>
    if skips a then emitPaths skips emit rest count
    else if listingMax ≤ count + 1 then emit a
    else emit a ++ emitPaths skips emit rest (count + 1)

/-- An address of the given bytes. -/
def addressOf (b : Bytes) : Option Address := if h : b.length = 16 then some ⟨b, h⟩ else none

variable (blockUnresponsive : Bool) (s : TransportState)

/-- `path_is_unresponsive`, where such paths are withheld -/
def withheld (destination : Address) : Bool := blockUnresponsive && pathIsUnresponsive s destination

/-- A path that the listing passes over. -/
def skipsPath (req : RemotePathRequest) (e : Sigma fun _ : Address => StoredPath) : Bool :=
  (req.destHash ≠ [] && e.1.toList ≠ req.destHash)
    || (req.maxHops.any fun maxHops => maxHops.toNat < e.2.hops.toNat)
    || withheld blockUnresponsive s e.1

/-- A rate entry that is passed over. -/
def skipsRate (req : RemotePathRequest) (e : Sigma fun _ : Address => RateEntry) : Bool :=
  req.destHash ≠ [] && e.1.toList ≠ req.destHash

/-- The answer about a single destination. -/
def singlePath (req : RemotePathRequest) : List Library.Token :=
  match (addressOf req.destHash).bind fun destination =>
      (s.pathTable.lookup destination).bind fun entry => (entry.decode s).map fun e => (destination, entry, e) with
  | some (destination, entry, e) =>
    if withheld blockUnresponsive s destination then [.arr 0]
    else .arr 1 :: remotePathPackPathEntry interfaceName req.destHash entry (some e.receivingInterface)
  | none => [.arr 0]

/-- An enumerated entry, packed with the interface it is bound to. -/
def emitPath (e : Sigma fun _ : Address => StoredPath) : List Library.Token :=
  remotePathPackPathEntry interfaceName e.1.toList e.2 (findInterface s e.2.receivingInterface)

def emitRate (e : Sigma fun _ : Address => RateEntry) : List Library.Token :=
  remotePathPackRateEntry e.1.toList e.2

/-- `remote_path_handler`: what it packs, or nothing. -/
def remotePathHandler (data : List Library.Token) : Option (List Library.Token) :=
  match remotePathParseRequest data with
  | none => none
  | some req =>
    if req.command = bytesOf "table" then
      if req.destHash ≠ [] then some (singlePath interfaceName blockUnresponsive s req)
      else
        let skips := skipsPath blockUnresponsive s req
        some (.arr (countPaths skips s.pathTable.entries 0)
          :: emitPaths skips (emitPath interfaceName s) s.pathTable.entries 0)
    else if req.command = bytesOf "rates" then
      let entries := s.announceRateTable.entries
      some (.arr (entries.filter fun e => !skipsRate req e).length
        :: (entries.filter fun e => !skipsRate req e).flatMap emitRate)
    else none

/-! ## What was asked -/

/-- The entry is about the destination that was asked for, if one was. -/
def Asked (req : RemotePathRequest) (destination : Address) : Prop :=
  req.destHash ≠ [] → destination.toList = req.destHash

/-- The path is within the hops that were asked for, if a limit was. -/
def InReach (req : RemotePathRequest) (hops : UInt8) : Prop := ∀ maxHops ∈ req.maxHops, hops.toNat ≤ maxHops.toNat

instance (req : RemotePathRequest) (destination : Address) : Decidable (Asked req destination) :=
  inferInstanceAs (Decidable (_ → _))

instance (req : RemotePathRequest) (hops : UInt8) : Decidable (InReach req hops) :=
  Option.decidableForallMem req.maxHops

/-- The paths that satisfy every filter, at most so many in a listing. -/
def askedPaths (req : RemotePathRequest) : List (Sigma fun _ : Address => StoredPath) :=
  let paths := s.pathTable.entries.filter fun e =>
    Asked req e.1 ∧ InReach req e.2.hops ∧ withheld blockUnresponsive s e.1 = false
  if req.destHash = [] then paths.take listingMax else paths

/-- The rates of the destination, or all of them. -/
def askedRates (req : RemotePathRequest) : List (Sigma fun _ : Address => RateEntry) :=
  s.announceRateTable.entries.filter fun e => Asked req e.1

/-- An array of entries behind its header. -/
def packed {α : Type} (emit : α → List Library.Token) (entries : List α) : List Library.Token :=
  .arr entries.length :: entries.flatMap emit

/-- What a request is to be answered with. -/
def askedAnswer (req : RemotePathRequest) : Option (List Library.Token) :=
  if req.command = bytesOf "table" then
    some (packed (emitPath interfaceName s) (askedPaths blockUnresponsive s req))
  else if req.command = bytesOf "rates" then some (packed emitRate (askedRates s req))
  else none

/-- The request names a destination whose path is beyond the limit it sets. -/
def BeyondLimit (req : RemotePathRequest) : Prop :=
  req.command = bytesOf "table" ∧ ∃ destination entry maxHops, destination.toList = req.destHash
    ∧ s.pathTable.lookup destination = some entry ∧ withheld blockUnresponsive s destination = false
    ∧ req.maxHops = some maxHops ∧ maxHops.toNat < entry.hops.toNat

/-! ## Passes -/

section Passes

variable {α : Type} (skips : α → Bool) (emit : α → List Library.Token)

theorem countPaths_eq (entries : List α) (count : Nat) (h : count < listingMax) :
    countPaths skips entries count = count + ((entries.filter fun a => !skips a).take (listingMax - count)).length := by
  fun_induction countPaths skips entries count with
  | case1 count => simp
  | case2 a rest count hskip ih => rw [ih h, List.filter_cons_of_neg (by simp [hskip])]
  | case3 a rest count hskip hlast =>
    rw [List.filter_cons_of_pos (by simp [hskip]), show listingMax - count = 1 by omega]
    simp
  | case4 a rest count hskip hlast ih =>
    rw [ih (by omega), List.filter_cons_of_pos (by simp [hskip]),
      show listingMax - count = (listingMax - (count + 1)) + 1 by omega, List.take_succ_cons, List.length_cons]
    omega

theorem emitPaths_eq (entries : List α) (count : Nat) (h : count < listingMax) :
    emitPaths skips emit entries count
      = ((entries.filter fun a => !skips a).take (listingMax - count)).flatMap emit := by
  fun_induction emitPaths skips emit entries count with
  | case1 count => simp
  | case2 a rest count hskip ih => rw [ih h, List.filter_cons_of_neg (by simp [hskip])]
  | case3 a rest count hskip hlast =>
    rw [List.filter_cons_of_pos (by simp [hskip]), show listingMax - count = 1 by omega]
    simp
  | case4 a rest count hskip hlast ih =>
    rw [ih (by omega), List.filter_cons_of_pos (by simp [hskip]),
      show listingMax - count = (listingMax - (count + 1)) + 1 by omega, List.take_succ_cons, List.flatMap_cons]

/-- Both passes run over the same entries. -/
theorem passes_eq (entries : List α) :
    .arr (countPaths skips entries 0) :: emitPaths skips emit entries 0
      = packed emit ((entries.filter fun a => !skips a).take listingMax) := by
  rw [countPaths_eq skips entries 0 (by decide), emitPaths_eq skips emit entries 0 (by decide), Nat.zero_add]
  rfl

end Passes

/-- The entries of one key are the one that is looked up. -/
theorem filter_key {V : Type} (t : Table V) (k : Address) :
    t.entries.filter (fun e => e.1 = k) = ((t.lookup k).map fun v => (⟨k, v⟩ : Sigma fun _ : Address => V)).toList := by
  obtain ⟨entries, hnodup⟩ := t
  show entries.filter _ = ((entries.dlookup k).map _).toList
  induction entries with
  | nil => rfl
  | cons e rest ih =>
    obtain ⟨hfirst, hrest⟩ := List.nodupKeys_cons.mp hnodup
    obtain ⟨k', v⟩ := e
    by_cases hk : k' = k
    · subst hk
      have hnone : rest.dlookup k' = none := List.dlookup_eq_none.mpr hfirst
      have hother := ih hrest
      rw [hnone] at hother
      rw [List.filter_cons_of_pos (by simp), hother, List.dlookup_cons_eq]
      rfl
    · rw [List.filter_cons_of_neg (by simpa using hk), ih hrest, List.dlookup_cons_ne _ _ (Ne.symm hk)]

/-! ## Answers -/

section Answers

variable {interfaceName : Option Interface → Bytes} {blockUnresponsive : Bool} {s : TransportState}
  {req : RemotePathRequest}

theorem addressOf_toList (k : Address) : addressOf k.toList = some k := dif_pos k.toList_length

theorem toList_of_addressOf {b : Bytes} {k : Address} (h : addressOf b = some k) : k.toList = b := by
  unfold addressOf at h
  split at h
  · cases h
    rfl
  · cases h

/-- Without a destination every entry is asked for. -/
theorem skipsPath_listing (hdest : req.destHash = []) (e : Sigma fun _ : Address => StoredPath) :
    (!skipsPath blockUnresponsive s req e)
      = decide (Asked req e.1 ∧ InReach req e.2.hops ∧ withheld blockUnresponsive s e.1 = false) := by
  have hasked : Asked req e.1 := fun hne => absurd hdest hne
  rw [Bool.eq_iff_iff]
  cases hmax : req.maxHops <;>
    simp [skipsPath, InReach, hdest, hasked, hmax]

/-- Of one destination at most its path is asked for. -/
theorem askedPaths_single {k : Address} (hdest : k.toList = req.destHash) :
    askedPaths blockUnresponsive s req
      = (((s.pathTable.lookup k).map fun v => (⟨k, v⟩ : Sigma fun _ : Address => StoredPath)).toList).filter
          fun e => InReach req e.2.hops ∧ withheld blockUnresponsive s e.1 = false := by
  have hne : req.destHash ≠ [] := by
    rw [← hdest]
    exact List.ne_nil_of_length_eq_add_one k.toList_length
  have hasked : ∀ d : Address, Asked req d ↔ d = k := fun d =>
    ⟨fun h => List.Vector.toList_injective ((h hne).trans hdest.symm), fun h _ => h ▸ hdest⟩
  unfold askedPaths
  rw [if_neg hne, ← filter_key, List.filter_filter]
  refine List.filter_congr fun e _ => ?_
  simp only [hasked, Bool.decide_and, Bool.and_comm]

theorem askedPaths_of_no_address (hdest : req.destHash ≠ []) (hnone : addressOf req.destHash = none) :
    askedPaths blockUnresponsive s req = [] := by
  unfold askedPaths
  rw [if_neg hdest, List.filter_eq_nil_iff]
  intro e _ hasked
  have hkey := (of_decide_eq_true hasked).1 hdest
  rw [← hkey, addressOf_toList] at hnone
  cases hnone

/-- A single destination is answered as asked exactly if its path is within the limit. -/
theorem singlePath_eq_iff (hlive : ∀ e ∈ s.pathTable.entries, (e.2.decode s).isSome) (hdest : req.destHash ≠ [])
    (hcommand : req.command = bytesOf "table") :
    singlePath interfaceName blockUnresponsive s req
        = packed (emitPath interfaceName s) (askedPaths blockUnresponsive s req)
      ↔ ¬ BeyondLimit blockUnresponsive s req := by
  unfold singlePath
  cases hk : addressOf req.destHash with
  | none =>
    rw [askedPaths_of_no_address hdest hk]
    refine iff_of_true rfl ?_
    rintro ⟨-, destination, entry, maxHops, hkey, -⟩
    rw [← hkey, addressOf_toList] at hk
    cases hk
  | some k =>
    have hkey := toList_of_addressOf hk
    have honly : ∀ d : Address, d.toList = req.destHash → d = k := fun d hd =>
      List.Vector.toList_injective (hd.trans hkey.symm)
    rw [askedPaths_single hkey, Option.bind_some]
    cases hentry : s.pathTable.lookup k with
    | none =>
      refine iff_of_true rfl ?_
      rintro ⟨-, destination, entry, maxHops, hd, hlookup, -⟩
      rw [honly destination hd, hentry] at hlookup
      cases hlookup
    | some entry =>
      have hmem : (⟨k, entry⟩ : Sigma fun _ : Address => StoredPath) ∈ s.pathTable.entries :=
        AList.mem_lookup_iff.mp hentry
      obtain ⟨e, he⟩ := Option.isSome_iff_exists.mp (hlive _ hmem)
      have hinterface : findInterface s entry.receivingInterface = some e.receivingInterface := by
        unfold StoredPath.decode at he
        split at he
        · cases he
          assumption
        · cases he
      simp only [Option.bind_some, he, Option.map_some, Option.toList_some]
      by_cases hwithheld : withheld blockUnresponsive s k = true
      · have hnone : ([⟨k, entry⟩] : List (Sigma fun _ : Address => StoredPath)).filter
            (fun e => InReach req e.2.hops ∧ withheld blockUnresponsive s e.1 = false) = [] := by
          simp [hwithheld]
        rw [if_pos hwithheld, hnone]
        refine iff_of_true rfl ?_
        rintro ⟨-, destination, entry', maxHops, hd, -, hshown, -⟩
        rw [honly destination hd, hwithheld] at hshown
        cases hshown
      · rw [if_neg hwithheld]
        by_cases hwithin : InReach req entry.hops
        · have hone : ([⟨k, entry⟩] : List (Sigma fun _ : Address => StoredPath)).filter
              (fun e => InReach req e.2.hops ∧ withheld blockUnresponsive s e.1 = false) = [⟨k, entry⟩] := by
            simp [hwithheld, hwithin]
          rw [hone]
          refine iff_of_true ?_ ?_
          · simp [packed, emitPath, hinterface, hkey]
          · rintro ⟨-, destination, entry', maxHops, hd, hlookup, -, hmax, hbeyond⟩
            rw [honly destination hd, hentry] at hlookup
            cases hlookup
            exact absurd (hwithin maxHops hmax) (Nat.not_le_of_lt hbeyond)
        · have hnone : ([⟨k, entry⟩] : List (Sigma fun _ : Address => StoredPath)).filter
              (fun e => InReach req e.2.hops ∧ withheld blockUnresponsive s e.1 = false) = [] := by
            simp [hwithin]
          rw [hnone]
          refine iff_of_false (fun h => ?_) fun h => h ⟨hcommand, k, entry, ?_⟩
          · cases h
          · unfold InReach at hwithin
            push Not at hwithin
            obtain ⟨maxHops, hmax, hbeyond⟩ := hwithin
            exact ⟨maxHops, hkey, hentry, Bool.eq_false_iff.mpr hwithheld, hmax, hbeyond⟩

end Answers

/-- The answer is what was asked exactly if the request does not name a destination whose path is beyond the
limit it sets. -/
theorem remote_path_answers_iff (interfaceName : Option Interface → Bytes) (blockUnresponsive : Bool)
    (s : TransportState) (hlive : ∀ e ∈ s.pathTable.entries, (e.2.decode s).isSome)
    (data : List Library.Token) :
    remotePathHandler interfaceName blockUnresponsive s data
        = (remotePathParseRequest data).bind (askedAnswer interfaceName blockUnresponsive s)
      ↔ ∀ req, remotePathParseRequest data = some req → ¬ BeyondLimit blockUnresponsive s req := by
  unfold remotePathHandler
  cases remotePathParseRequest data with
  | none => exact iff_of_true rfl nofun
  | some req =>
    rw [Option.bind_some]
    have hreq : (∀ req', some req = some req' → ¬ BeyondLimit blockUnresponsive s req')
        ↔ ¬ BeyondLimit blockUnresponsive s req :=
      ⟨fun h => h req rfl, fun h req' heq => Option.some.inj heq ▸ h⟩
    rw [hreq]
    unfold askedAnswer
    dsimp only
    by_cases htable : req.command = bytesOf "table"
    · rw [if_pos htable, if_pos htable]
      by_cases hdest : req.destHash = []
      · rw [if_neg (not_not_intro hdest), passes_eq]
        refine iff_of_true ?_ ?_
        · unfold askedPaths
          rw [if_pos hdest, List.filter_congr fun e _ => skipsPath_listing hdest e]
        · rintro ⟨-, destination, entry, maxHops, hkey, -⟩
          rw [hdest] at hkey
          exact absurd (congrArg List.length hkey) (by rw [destination.toList_length]; decide)
      · rw [if_pos hdest, Option.some_inj]
        exact singlePath_eq_iff hlive hdest htable
    · rw [if_neg htable, if_neg htable]
      refine iff_of_true ?_ fun h => htable h.1
      by_cases hrates : req.command = bytesOf "rates"
      · rw [if_pos hrates, if_pos hrates]
        have hsame : ∀ e : Sigma fun _ : Address => RateEntry, (!skipsRate req e) = decide (Asked req e.1) := by
          intro e
          by_cases hdest : req.destHash = [] <;> simp [skipsRate, Asked, hdest]
        simp only [hsame]
        rfl
      · rw [if_neg hrates, if_neg hrates]

namespace Sample

/-- A path of five hops. -/
def distant : StoredPath where
  timestamp := 0
  receivedFrom := List.Vector.replicate 16 2
  hops := 5
  expires := 0
  randomBlobs := []
  receivingInterface := 0
  announce := 1 :: 5 :: (List.replicate 16 1 ++ [0, 7])

/-- A node that knows this path only. -/
def manager : TransportState where
  interfaces := [{ id := 0 }]
  pathTable := (∅ : Table StoredPath).insert (List.Vector.replicate 16 1) distant

theorem manager_live : ∀ e ∈ manager.pathTable.entries, (e.2.decode manager).isSome := by decide +kernel

/-- The path of a destination, within a number of hops. -/
def pathWithin (maxHops : Int) : List Library.Token :=
  [.arr 3, word "table", .bin (List.replicate 16 1), .int maxHops]

end Sample

theorem remote_path_answers_iff_distant :
    remotePathHandler (fun _ => []) true Sample.manager (Sample.pathWithin 5)
      = (remotePathParseRequest (Sample.pathWithin 5)).bind (askedAnswer (fun _ => []) true Sample.manager) := by
  refine (remote_path_answers_iff (fun _ => []) true Sample.manager Sample.manager_live _).mpr ?_
  rintro req hreq ⟨-, destination, entry, maxHops, hkey, hlookup, -, hmax, hbeyond⟩
  have hparsed : remotePathParseRequest (Sample.pathWithin 5)
      = some { command := bytesOf "table", destHash := List.replicate 16 1, maxHops := some 5 } := by decide +kernel
  rw [hparsed] at hreq
  cases hreq
  cases hmax
  have hdestination : destination = List.Vector.replicate 16 1 := List.Vector.toList_injective hkey
  have hdistant : Sample.manager.pathTable.lookup (List.Vector.replicate 16 1) = some Sample.distant := rfl
  rw [hdestination, hdistant] at hlookup
  cases hlookup
  exact absurd hbeyond (by decide)

/-- A path of five hops answers a request for the path within one. -/
theorem distant_path_answered :
    ¬ ∀ (interfaceName : Option Interface → Bytes) (blockUnresponsive : Bool) (s : TransportState),
      (∀ e ∈ s.pathTable.entries, (e.2.decode s).isSome) → ∀ data : List Library.Token,
      remotePathHandler interfaceName blockUnresponsive s data
        = (remotePathParseRequest data).bind (askedAnswer interfaceName blockUnresponsive s) := by
  intro h
  have hsame := h (fun _ => []) true Sample.manager Sample.manager_live (Sample.pathWithin 1)
  have hcode : (remotePathHandler (fun _ => []) true Sample.manager (Sample.pathWithin 1)).bind List.head?
      = some (.arr 1) := by decide +kernel
  have hasked : ((remotePathParseRequest (Sample.pathWithin 1)).bind
      (askedAnswer (fun _ => []) true Sample.manager)).bind List.head? = some (.arr 0) := by decide +kernel
  rw [hsame, hasked] at hcode
  cases hcode

end MicroReticulum.Transport
