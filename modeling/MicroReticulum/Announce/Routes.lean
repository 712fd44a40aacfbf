import MicroReticulum.Announce.Relaying
import MicroReticulum.Library.Routing

/-!
# Paths through a network

A network is a node for every transport id. `NetworkStep` is what happens in it, in any order: announces are heard,
late or more than once or never; announce jobs run; paths are asked for. With respect to one destination `d` every node
has a route (`Network.view`), and each step of the network is one of `Library.Routing` (`NetworkStep.progress`). What
this rests on is the comparison of announces: a path that neither has expired nor is marked unresponsive gives way to
an announce only if that was emitted later (`later_of_stores`).

Of `d` it is assumed that nobody but its nodes passes its announces on, that the stores take its paths, and that these
are not lost. Nothing is assumed about other destinations.

No delivery is promised of the announces: the network may lose each of them, and a
destination that is not heard of has no paths.
-/

namespace MicroReticulum.Announce

open MicroReticulum Packet Link Library Transport

variable {env : Environment} {d n m : Address} {s t : TransportState} {p : Packet} {a : Arrival} {i : Interface}

/-! ## Emissions -/

/-- The time an announce was made is read off its random blob. -/
theorem announceEmitted_eq (p : Packet) : announceEmitted p = emissionOf (randomBlob p) := by
  unfold announceEmitted
  split
  case isTrue hnone => rw [hnone]; rfl
  case isFalse => rfl

/-- An emission has five bytes. -/
theorem emissionOf_lt (blob : Bytes) : emissionOf blob < 256 ^ 5 := by
  have hdigit : ∀ i, (blob.byte (5 + i)).toNat < 256 := fun i => UInt8.toNat_lt _
  have h0 := hdigit 0
  have h1 := hdigit 1
  have h2 := hdigit 2
  have h3 := hdigit 3
  have h4 := hdigit 4
  simp only [emissionOf, List.range, List.range.loop, List.foldl]
  omega

/-- What is cut off behind the MDU is not read. -/
theorem announceEmitted_left {q : Packet} (hdata : q.data = p.data.left reticulumMdu) :
    announceEmitted q = announceEmitted p := by
  have hblob : randomBlob q = randomBlob p := by
    have hinside : ecpubsize + 10 + 10 ≤ reticulumMdu := by decide
    unfold randomBlob
    rw [hdata]
    unfold Bytes.midLen Bytes.left
    rw [List.drop_take, List.take_take]
    congr 1
  rw [announceEmitted_eq, announceEmitted_eq, hblob]

/-- No blob of a list is later than the latest of the list. -/
theorem le_timebaseFromRandomBlobs {blob : Bytes} {blobs : List Bytes} (hmem : blob ∈ blobs) :
    timebaseFromRandomBlob blob ≤ timebaseFromRandomBlobs blobs := by
  have hfold : ∀ (blobs : List Bytes) (base : Nat),
      base ≤ blobs.foldl (fun timebase blob => max timebase (timebaseFromRandomBlob blob)) base
        ∧ ∀ blob ∈ blobs, timebaseFromRandomBlob blob
          ≤ blobs.foldl (fun timebase blob => max timebase (timebaseFromRandomBlob blob)) base := by
    intro blobs
    induction blobs with
    | nil => exact fun base => ⟨Nat.le_refl _, fun blob hblob => by cases hblob⟩
    | cons first rest ih =>
      intro base
      obtain ⟨hbase, hrest⟩ := ih (max base (timebaseFromRandomBlob first))
      refine ⟨(le_max_left _ _).trans hbase, fun blob hblob => ?_⟩
      rcases List.mem_cons.mp hblob with rfl | hmem
      · exact (le_max_right _ _).trans hbase
      · exact hrest blob hmem
  exact (hfold blobs 0).2 blob hmem

/-- The search for the latest emission looks at every blob, unless it finds one that is not older. -/
theorem emissionOf_lt_of_pathAnnounceEmitted {emitted latest : Nat} {blobs : List Bytes}
    (h : pathAnnounceEmitted emitted latest blobs < emitted) {blob : Bytes} (hmem : blob ∈ blobs) :
    emissionOf blob < emitted := by
  induction blobs generalizing latest with
  | nil => cases hmem
  | cons first rest ih =>
    unfold pathAnnounceEmitted at h
    dsimp only at h
    split at h
    case isTrue hfound => omega
    case isFalse hgoes =>
      rcases List.mem_cons.mp hmem with rfl | hrest
      · omega
      · exact ih h hrest

/-- A path that has not expired is replaced by the announces that were emitted later, and by no other. -/
theorem later_of_replaces {now : ℚ} {entry : DestinationEntry}
    (hrecorded : randomBlob entry.announcePacket ∈ entry.randomBlobs)
    (hlength : (randomBlob entry.announcePacket).length = 10) (hlasting : now < entry.expires)
    (h : compareAnnounce now s p entry = .replaces) :
    announceEmitted entry.announcePacket < announceEmitted p ∧ randomBlob p ∉ entry.randomBlobs := by
  unfold compareAnnounce at h
  dsimp only at h
  split at h
  case isTrue =>
    split at h
    case isTrue hlater =>
      have hbase := le_timebaseFromRandomBlobs hrecorded
      unfold timebaseFromRandomBlob at hbase
      rw [if_neg (by omega), ← announceEmitted_eq] at hbase
      exact ⟨by omega, hlater.1⟩
    case isFalse => cases h
  case isFalse =>
    rw [if_neg (not_le.mpr hlasting)] at h
    split at h
    case isTrue hlater =>
      split at h
      case isTrue hfresh =>
        rw [announceEmitted_eq entry.announcePacket]
        exact ⟨emissionOf_lt_of_pathAnnounceEmitted hlater hrecorded, hfresh⟩
      case isFalse => cases h
    case isFalse =>
      split at h
      · cases h
      · cases h

/-! ## Accepted announces -/

/-- The signature of a valid announce was not empty, so it reaches behind the random blob. -/
theorem length_randomBlob_of_judged (henv : Validates env)
    (hverify : ∀ key signature message, env.verify key signature message = true → signature.length = siglength)
    {blobs : List Bytes} (h : judgeAnnounce env p s = (.value (some blobs), t)) : (randomBlob p).length = 10 := by
  obtain ⟨u, v, w, add, hvalid, -⟩ := judgeAnnounce_steps h
  have hsigned : signatureValid env p = true := by
    have haccepts : (validateAnnounce env p false s).1 = .value true := by
      rw [henv p] at hvalid
      unfold callHandler validateHandler at hvalid
      rcases hrun : validateAnnounce env p false s with ⟨valid | _ | _ | _, x⟩ <;> rw [hrun] at hvalid <;>
        cases hvalid
      rfl
    exact (validateAnnounce_accepts haccepts).2.1
  have hlength := hverify _ _ _ hsigned
  have hsize : siglength = 64 := rfl
  have hhead : announceHeadLength = 84 := rfl
  have hkey : ecpubsize = 64 := rfl
  have hratchet : ratchetLength = 32 := rfl
  have hlong : 84 ≤ p.data.length := by
    cases hflag : p.contextFlag <;> rw [hflag] at hlength <;>
      simp only [announceFields, Bytes.midLen, List.length_take, List.length_drop] at hlength <;> omega
  unfold randomBlob Bytes.midLen
  rw [List.length_take, List.length_drop]
  omega

/-- A path that is known and not marked unresponsive gives way only to an announce that replaces it. -/
theorem replaces_of_judged (henv : Validates env) {blobs : List Bytes}
    (h : judgeAnnounce env p s = (.value (some blobs), t)) {entry : DestinationEntry}
    (hpath : getPath s p.destinationHash = some entry) (hresponsive : pathIsUnresponsive s p.destinationHash = false) :
    ∃ v, compareAnnounce env.now v p entry = .replaces := by
  obtain ⟨u, v, w, add, hvalid, hhear, hadd, hallowed, -⟩ := judgeAnnounce_steps h
  have hsame : SamePaths s v := by
    have hvalidate : Prog.Keeps SamePaths (callHandler (env.validateAnnounce p)) :=
      validateHandler_keeps henv (validateAnnounce_samePaths p false)
    have hhearing : Prog.Keeps SamePaths (Prog.when (p.transportId.isSome ∧ env.transportEnabled = true)
        (Prog.modify (hearRebroadcast env.now p)) : Prog String TransportState Unit) :=
      .when SamePaths.refl fun _ => .modify (hearRebroadcast_samePaths _ p)
    exact .trans _ _ _ (hvalidate.of_value hvalid) (hhearing.of_value hhear)
  have hpath' : getPath v p.destinationHash = some entry := (hsame.getPath_eq _).trans hpath
  have hresponsive' : pathIsUnresponsive v p.destinationHash = false := by
    apply Bool.eq_false_iff.mpr
    intro hmarked
    exact absurd (hsame.marks _ hmarked) (Bool.eq_false_iff.mp hresponsive)
  have hadds : add = true := by
    cases add with
    | true => rfl
    | false =>
      unfold blackholeAllows at hallowed
      rw [Prog.get_bind_run, if_pos (.inl rfl)] at hallowed
      cases hallowed
  refine ⟨v, ?_⟩
  rw [hadds] at hadd
  unfold shouldAddPath at hadd
  rw [Prog.get_bind_run, hpath'] at hadd
  dsimp only at hadd
  cases hcompare : compareAnnounce env.now v p entry with
  | replaces => rfl
  | retries =>
    unfold compareAnnounce at hcompare
    simp only [hresponsive', Bool.false_eq_true, and_false, if_false] at hcompare
    split at hcompare
    · split at hcompare <;> cases hcompare
    · split at hcompare
      · split at hcompare <;> cases hcompare
      · split at hcompare
        · split at hcompare <;> cases hcompare
        · cases hcompare
  | ignored =>
    rw [hcompare, Prog.when_of_not (by decide), Prog.pure_bind_run, Prog.get_bind_run, hresponsive'] at hadd
    cases hadd

/-- The last of some random blobs is among those that are persisted. -/
theorem mem_encode_randomBlobs {blobs : List Bytes} (hfresh : randomBlob p ∉ blobs) :
    randomBlob p ∈ (announcedPath env p i blobs).encode.randomBlobs := by
  rw [encode_randomBlobs]
  unfold addRandomBlob
  rw [if_neg hfresh]
  obtain ⟨kept, hkept⟩ : ∃ kept, lastOf maxRandomBlobs (blobs ++ [randomBlob p]) = kept ++ [randomBlob p] := by
    refine ⟨blobs.drop ((blobs ++ [randomBlob p]).length - maxRandomBlobs), ?_⟩
    have hmax : maxRandomBlobs = 32 := rfl
    unfold lastOf
    rw [List.drop_append_of_le_length]
    rw [List.length_append, List.length_singleton]
    omega
  rw [hkept]
  exact mem_lastOf_concat (by decide) _ _

/-- Behind the store the paths are those with the new record. -/
theorem getPath_of_pathStored {blobs : List Bytes} (h : SamePaths (pathStored env p i blobs s) t) (d : Address) :
    getPath t d = getPath (putPath p.destinationHash (announcedPath env p i blobs).encode s) d := by
  apply getPath_of_same
  · exact h.pathTable.trans (pathStored_pathTable _ _ _ _ _)
  · exact h.interfaces.trans (pathStored_interfaces _ _ _ _ _)

/-- The path of a stored announce, as it is read. -/
theorem getPath_of_stores (henv : Validates env) (hhandlers : HandlersSpare SamePaths env)
    (hregistered : (findInterface s i.id).isSome) (hstores : StoresPath env a.arrived i n s) :
    ∃ entry, getPath (handleAnnounce env a.arrived i n s).2 a.packet.destinationHash = some entry
      ∧ entry.receivedFrom = receivedFrom a.packet ∧ entry.hops = a.hops
      ∧ entry.randomBlobs
        = (announcedPath env a.arrived i (recordedBlobs s a.packet.destinationHash)).encode.randomBlobs
      ∧ randomBlob entry.announcePacket = randomBlob a.packet := by
  obtain ⟨u, hsu, hstored⟩ := handleAnnounce_stores henv hhandlers hstores
  obtain ⟨i', hfound⟩ := Option.isSome_iff_exists.mp hregistered
  have hfound' : findInterface u i.id = some i' := by
    unfold findInterface at hfound ⊢
    rw [hsu.interfaces]
    exact hfound
  have hraw : unpack a.arrived.raw = some a.packet := by
    rw [show a.arrived.raw = a.raw from (unpack_sound a.unpacks).2.1]
    exact a.unpacks
  have hread := @getPath_putPath env _ _ _ _ _ hfound' hraw (recordedBlobs s a.packet.destinationHash)
  exact ⟨_, (getPath_of_pathStored hstored _).trans hread, rfl, rfl, rfl, rfl⟩

/-- Other paths are as they were. -/
theorem getPath_of_other (henv : Validates env) (hhandlers : HandlersSpare SamePaths env)
    (hother : p.destinationHash ≠ d) : getPath (handleAnnounce env p i n s).2 d = getPath s d := by
  by_cases hstores : StoresPath env p i n s
  case neg => exact (handleAnnounce_stores_not henv hhandlers hstores).getPath_eq d
  case pos =>
    obtain ⟨u, hsu, hstored⟩ := handleAnnounce_stores henv hhandlers hstores
    rw [getPath_of_pathStored hstored, getPath_putPath_ne (Ne.symm hother), hsu.getPath_eq]

/-! ## The network -/

/-- The nodes, by their transport ids. -/
abbrev Network : Type := Address → Node

/-- The node runs this program. Its handlers leave the paths alone, and send nothing under the name of another node;
Ed25519 accepts no signature of another length than its own. -/
structure Runs (n : Address) (env : Environment) : Prop where
  validates : Validates env
  signatures : ∀ key signature message, env.verify key signature message = true → signature.length = siglength
  sources : ∀ accepted, HandlersKeep accepted env
  passes : HandlersSpare (PassesOn n) env

/-- The announces of others reach a node as one of the nodes has sent them. -/
def OnAir (net : Network) (a : Arrival) : Prop := Relayed a.packet → ∃ m, ∃ x ∈ (net m).1.wire, x.2 = a.raw

/-- An announce of `d` comes from the air, and the path it stands for is stored. The path that is known has not expired
and is not marked unresponsive. -/
structure Regular (net : Network) (n : Address) (env : Environment) (a : Arrival) (i : Interface) : Prop where
  heard : OnAir net a
  peers : leadsToPeers (net n).1 i = true
  registered : (findInterface (net n).1 i.id).isSome
  stores : StoresPath env a.arrived i n (net n).1
  lasting : ∀ entry, getPath (net n).1 a.packet.destinationHash = some entry → env.now < entry.expires
  responsive : pathIsUnresponsive (net n).1 a.packet.destinationHash = false

/-- What is told of the path to `d`. -/
def wayTo (d : Address) (s : TransportState) : Option (Address × UInt8 × List Bytes × Packet) :=
  (getPath s d).map fun entry => (entry.receivedFrom, entry.hops, entry.randomBlobs, entry.announcePacket)

/-- A step of the network. The clocks, the settings and the stores may differ from step to step. -/
inductive NetworkStep (d : Address) : Network → Network → Prop
  /-- an announce comes in and is accepted -/
  | accepts (net : Network) (n : Address) (env : Environment) (hruns : Runs n env) (a : Arrival) (i : Interface)
    (hpeer : a.fromPeer = leadsToPeers (net n).1 i) (blobs : List Bytes)
    (haccepted : (judgeAnnounce env a.arrived (net n).1).1 = .value (some blobs))
    (hregular : a.packet.destinationHash = d → Regular net n env a i) :
    NetworkStep d net (Function.update net n ((handleAnnounce env a.arrived i n (net n).1).2, a :: (net n).2))
  /-- an announce comes in and is not accepted -/
  | refuses (net : Network) (n : Address) (env : Environment) (hruns : Runs n env) (a : Arrival) (i : Interface)
    (hpeer : a.fromPeer = leadsToPeers (net n).1 i)
    (hrefused : ∀ blobs, (judgeAnnounce env a.arrived (net n).1).1 ≠ .value (some blobs)) :
    NetworkStep d net (Function.update net n ((handleAnnounce env a.arrived i n (net n).1).2, (net n).2))
  | job (net : Network) (n : Address) (env : Environment) (hidentity : (net n).1.identity = some n) :
    NetworkStep d net (Function.update net n ((announceJob env (net n).1).2, (net n).2))
  | request (net : Network) (n : Address) (env : Environment) (calls : PathRequestCalls)
    (hcalls : ∀ accepted, CallsKeep accepted calls) (hpasses : CallsRelay (PassesOn n) calls) (r : PathRequest) :
    NetworkStep d net (Function.update net n ((pathRequest env calls r (net n).1).2, (net n).2))
  /-- anything else that leaves the path to `d` alone and hands out no announce under another name -/
  | other (net : Network) (n : Address) (t : TransportState)
    (hkeeps : ∀ accepted, Sourced accepted (net n).1 → Sourced accepted t) (hnames : Names n (net n).1 t)
    (hway : wayTo d t = wayTo d (net n).1) : NetworkStep d net (Function.update net n (t, (net n).2))

/-- A network in any run from a fresh start. -/
def Network.Reached (d : Address) (net : Network) : Prop :=
  ∃ fresh : Network, (∀ n, (fresh n).Fresh) ∧ Relation.ReflTransGen (NetworkStep d) fresh net

/-! ## The routes of a network -/

/-- The route a path stands for. -/
def routeOf (entry : DestinationEntry) : Routing.Route Address where
  next := entry.receivedFrom
  emitted := announceEmitted entry.announcePacket
  hops := entry.hops.toNat

/-- The routes to `d`, and what the nodes have said of its announces. -/
def Network.view (d : Address) (net : Network) : Routing.Net Address where
  routes n := (getPath (net n).1 d).map routeOf
  said n emitted hops := ∃ x ∈ (net n).1.wire, ∃ q, unpack x.2 = some q ∧ Relayed q ∧ q.destinationHash = d
    ∧ announceEmitted q = emitted ∧ q.hops.toNat = hops

/-- The routes of a node in the view are the paths its table gives. -/
theorem Network.view_routes (d : Address) (net : Network) (n : Address) :
    (net.view d).routes n = (getPath (net n).1 d).map routeOf :=
  rfl

/-- What holds of node `n` at any time: its path to `d` is no worse than any announce of `d` it has accepted, and has
recorded the announce it was learned from. -/
structure Healthy (d n : Address) (node : Node) : Prop where
  sound : node.Sound
  named : ∀ x ∈ node.1.wire, NamedBy n x.2
  peers : ∀ a ∈ node.2, a.packet.destinationHash = d → a.fromPeer = true
  covers : ∀ a ∈ node.2, a.packet.destinationHash = d → ∃ entry, getPath node.1 d = some entry
    ∧ (routeOf entry).Covers (announceEmitted a.packet) a.hops.toNat
  recorded : ∀ entry, getPath node.1 d = some entry →
    randomBlob entry.announcePacket ∈ entry.randomBlobs ∧ (randomBlob entry.announcePacket).length = 10

theorem Node.Fresh.healthy {node : Node} (h : node.Fresh) : Healthy d n node := by
  have hsound := h.sound
  obtain ⟨-, -, hpaths, hwire, haccepted⟩ := h
  have hnone : getPath node.1 d = none := by
    unfold getPath
    rw [hpaths]
    rfl
  exact
    { sound := hsound
      named := by rw [hwire]; intro x hx; cases hx
      peers := by rw [haccepted]; intro a ha; cases ha
      covers := by rw [haccepted]; intro a ha; cases ha
      recorded := by rw [hnone]; intro entry hentry; cases hentry }

/-- What a healthy node has said of the announces of `d` it knows at least as well. -/
theorem Healthy.backed {node : Node} (h : Healthy d n node) {x : Interface × Bytes} (hx : x ∈ node.1.wire)
    {q : Packet} (hq : unpack x.2 = some q) (hrelayed : Relayed q) (hdestination : q.destinationHash = d) :
    q.transportId = some n ∧ q.hops.toNat ≤ pathfinderM.toNat ∧ ∃ entry, getPath node.1 d = some entry
      ∧ (routeOf entry).Covers (announceEmitted q) q.hops.toNat := by
  obtain ⟨b, hb, hrelay⟩ := h.sound.sourced.wire x hx q hq hrelayed
  have hdest : b.packet.destinationHash = d := hrelay.destinationHash.symm.trans hdestination
  have hpeer := h.peers b hb hdest
  have hhops : q.hops = b.hops := by rw [hrelay.hops_eq hpeer, hops_of_fromPeer hpeer]
  obtain ⟨entry, hentry, hcovers⟩ := h.covers b hb hdest
  refine ⟨h.named x hx q hq hrelayed, ?_, entry, hentry, ?_⟩
  · have hlimit := UInt8.lt_iff_toNat_lt.mp (h.sound.limit b hb)
    have hbound : (pathfinderM + 1).toNat = 129 := rfl
    have hpath : pathfinderM.toNat = 128 := rfl
    rw [hhops]
    omega
  · rw [hhops, announceEmitted_left hrelay.data]
    exact hcovers

/-- What a step of one node does to its route. -/
structure Moves (d : Address) (net : Network) (n : Address) (node : Node) : Prop where
  healthy : Healthy d n node
  keeps : ∀ entry, getPath (net n).1 d = some entry →
    ∃ entry', getPath node.1 d = some entry' ∧ (routeOf entry').Renews (routeOf entry)
  learns : ∀ entry', getPath node.1 d = some entry' →
    (∃ entry, getPath (net n).1 d = some entry ∧ routeOf entry = routeOf entry') ∨ entry'.receivedFrom = d
      ∨ ∃ hops, hops < entry'.hops.toNat
        ∧ (net.view d).said entry'.receivedFrom (announceEmitted entry'.announcePacket) hops

/-- The routes of a network go on as `Library.Routing` has it. -/
theorem Moves.progress {net : Network} {node : Node} (h : Moves d net n node) (hhealthy : ∀ m, Healthy d m (net m)) :
    (∀ m, Healthy d m (Function.update net n node m))
      ∧ Routing.Progress d (net.view d) (Network.view d (Function.update net n node)) := by
  have hhealthy' : ∀ m, Healthy d m (Function.update net n node m) := by
    intro m
    by_cases hm : m = n
    · subst hm
      rw [Function.update_self]
      exact h.healthy
    · rw [Function.update_of_ne hm]
      exact hhealthy m
  refine ⟨hhealthy', ?_, ?_, ?_⟩
  · intro m r hr
    obtain ⟨entry, hentry, rfl⟩ := Option.map_eq_some_iff.mp hr
    rw [Network.view_routes]
    by_cases hm : m = n
    · subst hm
      rw [Function.update_self]
      obtain ⟨entry', hentry', hrenews⟩ := h.keeps entry hentry
      exact ⟨routeOf entry', by rw [hentry']; rfl, hrenews⟩
    · rw [Function.update_of_ne hm]
      exact ⟨routeOf entry, hr, .inl rfl⟩
  · intro m r' hr'
    rw [Network.view_routes] at hr'
    by_cases hm : m = n
    · subst hm
      rw [Function.update_self] at hr'
      obtain ⟨entry', hentry', rfl⟩ := Option.map_eq_some_iff.mp hr'
      rcases h.learns entry' hentry' with ⟨entry, hentry, hsame⟩ | hrest
      · refine .inl ?_
        rw [Network.view_routes, hentry]
        exact congrArg some hsame
      · exact .inr hrest
    · rw [Function.update_of_ne hm] at hr'
      exact .inl hr'
  · rintro m emitted hops ⟨x, hx, q, hq, hrelayed, hdestination, rfl, rfl⟩
    obtain ⟨-, -, entry, hentry, hcovers⟩ := (hhealthy' m).backed hx hq hrelayed hdestination
    exact ⟨routeOf entry, congrArg (Option.map routeOf) hentry, hcovers⟩

/-! ## The steps -/

/-- The packets on the wire stay named by the node that put them there. -/
theorem Names.named (h : Names n s t) (hnamed : ∀ x ∈ s.wire, NamedBy n x.2) : ∀ x ∈ t.wire, NamedBy n x.2 := by
  intro x hx
  rcases h x hx with hold | hnew
  · exact hnamed x hold
  · exact hnew

/-- With the same path table the way to a destination is the same. -/
theorem SamePaths.wayTo (h : SamePaths s t) (d : Address) : wayTo d t = wayTo d s := by
  unfold Announce.wayTo
  rw [h.getPath_eq d]

/-- The path that a path of the same way was before. -/
theorem exists_of_wayTo (hway : wayTo d t = wayTo d s) {entry : DestinationEntry} (hentry : getPath t d = some entry) :
    ∃ entry', getPath s d = some entry' ∧ routeOf entry' = routeOf entry
      ∧ entry'.randomBlobs = entry.randomBlobs ∧ entry'.announcePacket = entry.announcePacket := by
  unfold wayTo at hway
  rw [hentry, Option.map_some] at hway
  obtain ⟨entry', hentry', hsame⟩ := Option.map_eq_some_iff.mp hway.symm
  simp only [Prod.mk.injEq] at hsame
  obtain ⟨hfrom, hhops, hblobs, hpacket⟩ := hsame
  refine ⟨entry', hentry', ?_, hblobs, hpacket⟩
  unfold routeOf
  rw [hfrom, hhops, hpacket]

/-- A step that accepts no announce of `d` and leaves its path alone. -/
theorem Moves.of_wayTo {net : Network} {accepted : List Arrival} (h : Healthy d n (net n))
    (hsound : Node.Sound (t, accepted)) (hnames : Names n (net n).1 t)
    (haccepted : ∀ a ∈ accepted, a.packet.destinationHash = d → a ∈ (net n).2)
    (hway : wayTo d t = wayTo d (net n).1) : Moves d net n (t, accepted) where
  healthy :=
    { sound := hsound
      named := hnames.named h.named
      peers := fun a ha hdest => h.peers a (haccepted a ha hdest) hdest
      covers := fun a ha hdest => by
        obtain ⟨entry, hentry, hcovers⟩ := h.covers a (haccepted a ha hdest) hdest
        obtain ⟨entry', hentry', hroute, -, -⟩ := exists_of_wayTo hway.symm hentry
        exact ⟨entry', hentry', hroute ▸ hcovers⟩
      recorded := fun entry hentry => by
        obtain ⟨entry', hentry', -, hblobs, hpacket⟩ := exists_of_wayTo hway hentry
        rw [← hblobs, ← hpacket]
        exact h.recorded entry' hentry' }
  keeps entry hentry := by
    obtain ⟨entry', hentry', hroute, -, -⟩ := exists_of_wayTo hway.symm hentry
    exact ⟨entry', hentry', .inl hroute⟩
  learns entry' hentry' := by
    obtain ⟨entry, hentry, hroute, -, -⟩ := exists_of_wayTo hway hentry'
    exact .inl ⟨entry, hentry, hroute⟩

/-- The callbacks a network runs with leave the path table. -/
theorem Runs.samePaths (h : Runs n env) : HandlersSpare SamePaths env :=
  fun handler hmem d identity appData s => (h.passes handler hmem d identity appData s).paths

/-- They name what they send after their own node. -/
theorem Runs.names (h : Runs n env) : HandlersSpare (Names n) env :=
  fun handler hmem d identity appData s => (h.passes handler hmem d identity appData s).names

theorem handleAnnounce_names (hruns : Runs n env) (p : Packet) (i : Interface) (s : TransportState) :
    Names n s (handleAnnounce env p i n s).2 :=
  relaying_names.handleAnnounce (fun _ _ _ => .of_same rfl) hruns.validates hruns.names p i s

/-- A path that is known gives way only to an announce that was emitted later; and the blob of an announce that is
stored is recorded. -/
theorem later_of_stores (hruns : Runs n env) (hstores : StoresPath env p i n s)
    (hlasting : ∀ entry, getPath s p.destinationHash = some entry → env.now < entry.expires)
    (hresponsive : pathIsUnresponsive s p.destinationHash = false)
    (hrecorded : ∀ entry, getPath s p.destinationHash = some entry →
      randomBlob entry.announcePacket ∈ entry.randomBlobs ∧ (randomBlob entry.announcePacket).length = 10) :
    (randomBlob p).length = 10
      ∧ (∀ entry, getPath s p.destinationHash = some entry →
        announceEmitted entry.announcePacket < announceEmitted p)
      ∧ randomBlob p ∈ (announcedPath env p i (recordedBlobs s p.destinationHash)).encode.randomBlobs := by
  obtain ⟨blobs, t, u, hjudge, -, -⟩ := hstores
  refine ⟨length_randomBlob_of_judged hruns.validates hruns.signatures hjudge, ?_, ?_⟩
  · intro entry hentry
    obtain ⟨v, hreplaces⟩ := replaces_of_judged hruns.validates hjudge hentry hresponsive
    obtain ⟨hblob, hlength⟩ := hrecorded entry hentry
    exact (later_of_replaces hblob hlength (hlasting entry hentry) hreplaces).1
  · apply mem_encode_randomBlobs
    unfold recordedBlobs
    cases hentry : getPath s p.destinationHash with
    | none => exact List.not_mem_nil
    | some entry =>
      obtain ⟨v, hreplaces⟩ := replaces_of_judged hruns.validates hjudge hentry hresponsive
      obtain ⟨hblob, hlength⟩ := hrecorded entry hentry
      exact (later_of_replaces hblob hlength (hlasting entry hentry) hreplaces).2

/-- An announce that a node hears under a transport header has been said by the node it names. -/
theorem said_of_onAir {net : Network} (hhealthy : ∀ m, Healthy d m (net m)) (hair : OnAir net a)
    (hpeer : a.fromPeer = true) (hdestination : a.packet.destinationHash = d) :
    receivedFrom a.packet = d
      ∨ ∃ hops, hops < a.hops.toNat ∧ (net.view d).said (receivedFrom a.packet) (announceEmitted a.packet) hops := by
  have haddressed := (unpack_sound a.unpacks).2.2
  have hheader : a.packet.headerType = (unpackFlags a.packet.flags).headerType :=
    congrArg Packet.headerType (unpack_sound a.unpacks).1
  cases hid : a.packet.transportId with
  | none =>
    left
    unfold receivedFrom
    rw [hid]
    exact hdestination
  | some id =>
    right
    have hrelayed : Relayed a.packet := by
      refine ⟨a.isAnnounce, hheader.trans (haddressed.mp ?_)⟩
      rw [hid]
      rfl
    obtain ⟨m, x, hx, hraw⟩ := hair hrelayed
    have hunpack : unpack x.2 = some a.packet := by rw [hraw]; exact a.unpacks
    obtain ⟨hname, hlimit, -⟩ := (hhealthy m).backed hx hunpack hrelayed hdestination
    have hfrom : receivedFrom a.packet = m := by
      unfold receivedFrom
      rw [hname]
      rfl
    have hlast : a.packet.hops ≠ 255 := by
      intro heq
      rw [heq] at hlimit
      exact absurd hlimit (by decide)
    refine ⟨a.packet.hops.toNat, ?_, ?_⟩
    · rw [hops_of_fromPeer hpeer, (toNat_succ_iff _).mpr hlast]
      exact Nat.lt_succ_self _
    · rw [hfrom]
      exact ⟨x, hx, a.packet, hunpack, hrelayed, hdestination, rfl, rfl⟩

/-- A node that accepts an announce of `d` has a route of that announce, and had one of an earlier one or none. -/
theorem Moves.of_regular {net : Network} (hhealthy : ∀ m, Healthy d m (net m)) (hruns : Runs n env)
    (hpeer : a.fromPeer = leadsToPeers (net n).1 i) (hdestination : a.packet.destinationHash = d)
    (hregular : Regular net n env a i)
    (hsound : Node.Sound ((handleAnnounce env a.arrived i n (net n).1).2, a :: (net n).2)) :
    Moves d net n ((handleAnnounce env a.arrived i n (net n).1).2, a :: (net n).2) := by
  have hfromPeer : a.fromPeer = true := hpeer.trans hregular.peers
  obtain ⟨hlength, hlater, hblob⟩ := later_of_stores hruns hregular.stores hregular.lasting hregular.responsive
    (fun entry hentry => (hhealthy n).recorded entry (hdestination ▸ hentry))
  obtain ⟨entry, hentry, hfrom, hhops, hblobs, hrandom⟩ :=
    getPath_of_stores hruns.validates hruns.samePaths hregular.registered hregular.stores
  rw [hdestination] at hentry
  have hemitted : announceEmitted entry.announcePacket = announceEmitted a.packet := by
    rw [announceEmitted_eq, hrandom, announceEmitted_eq]
  have hroute : routeOf entry
      = { next := receivedFrom a.packet, emitted := announceEmitted a.packet, hops := a.hops.toNat } := by
    unfold routeOf
    rw [hfrom, hhops, hemitted]
  have hrenews : ∀ before, getPath (net n).1 d = some before → (routeOf entry).Renews (routeOf before) := by
    intro before hbefore
    have hsooner := hlater before (hdestination.symm ▸ hbefore)
    refine .inr ?_
    rw [hroute]
    exact hsooner
  refine ⟨⟨hsound, ?_, ?_, ?_, ?_⟩, fun before hbefore => ⟨entry, hentry, hrenews before hbefore⟩, ?_⟩
  · exact (handleAnnounce_names hruns _ i _).named (hhealthy n).named
  · intro b hb hdest
    rcases List.mem_cons.mp hb with rfl | hold
    · exact hfromPeer
    · exact (hhealthy n).peers b hold hdest
  · intro b hb hdest
    refine ⟨entry, hentry, ?_⟩
    rcases List.mem_cons.mp hb with rfl | hold
    · rw [hroute]
      exact .inr ⟨rfl, Nat.le_refl _⟩
    · obtain ⟨before, hbefore, hcovers⟩ := (hhealthy n).covers b hold hdest
      exact (hrenews before hbefore).covers hcovers
  · intro entry' hentry'
    cases hentry.symm.trans hentry'
    rw [hblobs, hrandom]
    exact ⟨hblob, hlength⟩
  · intro entry' hentry'
    cases hentry.symm.trans hentry'
    refine .inr ?_
    rw [hfrom, hhops, hemitted]
    exact said_of_onAir hhealthy hregular.heard hfromPeer hdestination

/-- What one step does: a single node moves. -/
theorem NetworkStep.moves {net net' : Network} (hstep : NetworkStep d net net')
    (hhealthy : ∀ m, Healthy d m (net m)) : ∃ n node, net' = Function.update net n node ∧ Moves d net n node := by
  cases hstep with
  | accepts n env hruns a i hpeer blobs haccepted hregular =>
    have hsound : Node.Sound ((handleAnnounce env a.arrived i n (net n).1).2, a :: (net n).2) :=
      (RelayStep.accepts env hruns.validates hruns.sources _ _ a i n hpeer blobs haccepted).sound (hhealthy n).sound
    refine ⟨n, _, rfl, ?_⟩
    by_cases hdestination : a.packet.destinationHash = d
    · exact .of_regular hhealthy hruns hpeer hdestination (hregular hdestination) hsound
    · refine .of_wayTo (hhealthy n) hsound (handleAnnounce_names hruns _ i _) ?_ ?_
      · intro b hb hdest
        rcases List.mem_cons.mp hb with rfl | hold
        · exact absurd hdest hdestination
        · exact hold
      · unfold wayTo
        rw [getPath_of_other hruns.validates hruns.samePaths (p := a.arrived) hdestination]
  | refuses n env hruns a i hpeer hrefused =>
    have hsound : Node.Sound ((handleAnnounce env a.arrived i n (net n).1).2, (net n).2) :=
      (RelayStep.refuses env hruns.validates _ _ a i n hpeer hrefused).sound (hhealthy n).sound
    have hsame : SamePaths (net n).1 (handleAnnounce env a.arrived i n (net n).1).2 := by
      apply handleAnnounce_stores_not hruns.validates hruns.samePaths
      rintro ⟨blobs, t, u, hjudge, -, -⟩
      exact hrefused blobs (congrArg Prod.fst hjudge)
    exact ⟨n, _, rfl, .of_wayTo (hhealthy n) hsound (handleAnnounce_names hruns _ i _) (fun _ hb _ => hb)
      (hsame.wayTo d)⟩
  | job n env hidentity =>
    have hsound : Node.Sound ((announceJob env (net n).1).2, (net n).2) :=
      (RelayStep.job env _ _).sound (hhealthy n).sound
    have hpasses : PassesOn n (net n).1 (announceJob env (net n).1).2 := relaying_passesOn.announceJob hidentity
    exact ⟨n, _, rfl, .of_wayTo (hhealthy n) hsound hpasses.names (fun _ hb _ => hb) (hpasses.paths.wayTo d)⟩
  | request n env calls hcalls hpasses r =>
    have hsound : Node.Sound ((pathRequest env calls r (net n).1).2, (net n).2) :=
      (RelayStep.request env calls hcalls r _ _).sound (hhealthy n).sound
    have hrelays : PassesOn n (net n).1 (pathRequest env calls r (net n).1).2 :=
      relaying_passesOn.pathRequest hpasses r _
    exact ⟨n, _, rfl, .of_wayTo (hhealthy n) hsound hrelays.names (fun _ hb _ => hb) (hrelays.paths.wayTo d)⟩
  | other n t hkeeps hnames hway =>
    have hsound : Node.Sound (t, (net n).2) := (RelayStep.other _ t _ hkeeps).sound (hhealthy n).sound
    exact ⟨n, _, rfl, .of_wayTo (hhealthy n) hsound hnames (fun _ hb _ => hb) hway⟩

/-- Each step of the network is one of the routes. -/
theorem NetworkStep.progress {net net' : Network} (hstep : NetworkStep d net net')
    (hhealthy : ∀ m, Healthy d m (net m)) :
    (∀ m, Healthy d m (net' m)) ∧ Routing.Progress d (net.view d) (net'.view d) := by
  obtain ⟨n, node, rfl, hmoves⟩ := hstep.moves hhealthy
  exact hmoves.progress hhealthy

/-- In every network reached all nodes are healthy and the view is sound. -/
theorem Network.Reached.sound {net : Network} (h : net.Reached d) :
    (∀ m, Healthy d m (net m)) ∧ (net.view d).Sound d := by
  obtain ⟨fresh, hfresh, hrun⟩ := h
  induction hrun with
  | refl =>
    refine ⟨fun m => (hfresh m).healthy, .of_unknown ?_ ?_⟩
    · intro m
      obtain ⟨-, -, hpaths, -, -⟩ := hfresh m
      rw [Network.view_routes]
      unfold getPath
      rw [hpaths]
      rfl
    · rintro m emitted hops ⟨x, hx, -⟩
      obtain ⟨-, -, -, hwire, -⟩ := hfresh m
      rw [hwire] at hx
      cases hx
  | tail _ hstep ih =>
    obtain ⟨hhealthy, hprogress⟩ := hstep.progress ih.1
    exact ⟨hhealthy, ih.2.progress hprogress⟩

/-! ## Paths lead to their destination -/

/-- The path of `n` to `d` leads over `m`, which is another node and not the destination itself. -/
def NextHop (d : Address) (net : Network) (n m : Address) : Prop :=
  ∃ entry, getPath (net n).1 d = some entry ∧ entry.receivedFrom = m ∧ m ≠ d

/-- The next hop of the network is that of its view. -/
theorem nextHop_iff {net : Network} : NextHop d net n m ↔ (net.view d).NextHop d n m := by
  unfold NextHop Routing.Net.NextHop
  rw [Network.view_routes]
  constructor
  · rintro ⟨entry, hentry, hfrom, hother⟩
    exact ⟨routeOf entry, by rw [hentry]; rfl, hfrom, hother⟩
  · rintro ⟨r, hr, hfrom, hother⟩
    obtain ⟨entry, hentry, rfl⟩ := Option.map_eq_some_iff.mp hr
    exact ⟨entry, hentry, hfrom, hother⟩

/-! ### Two nodes behind each other -/

namespace Sample

/-- A node to which every signature of the right length is valid and every hash zero. -/
def checking : Environment :=
  let env := { Environment.idle with verify := fun _ signature _ => signature.length = siglength }
  { env with validateAnnounce := validateHandler env }

/-- The callbacks of the example are those of a node. -/
theorem checking_runs (n : Address) : Runs n checking where
  validates _ := rfl
  signatures key signature message h := of_decide_eq_true h
  sources _ handler hmem := by cases hmem
  passes handler hmem := by cases hmem

/-- Somebody asks the node 3 for the path. -/
def asked : Network := fun n => (if n = .fill 3 then waiting else listening, [])

/-- Node 3 has heard the destination. -/
def heardByThree : Network :=
  Function.update asked (.fill 3)
    ((handleAnnounce checking (arrival 0 payload).arrived { id := 1 } (.fill 3) (asked (.fill 3)).1).2,
      [arrival 0 payload])

set_option maxRecDepth 8000 in
/-- The third node of the example hears the answer. -/
theorem asked_heard : NetworkStep (.fill 0) asked heardByThree := by
  refine .accepts asked (.fill 3) checking (checking_runs _) (arrival 0 payload) { id := 1 } rfl [] (by rfl) fun _ => ?_
  refine ⟨?_, by decide, by decide, ⟨[], _, _, rfl, rfl, rfl⟩, ?_, by decide⟩
  · intro h
    exact absurd h.2 (by decide)
  · intro entry hentry
    cases hentry

/-- The answer of a node, as another one hears it. -/
def answerBy (n : Address) (hops : UInt8) : Arrival where
  raw := layout relayedFlags hops (some n) (.fill 0) ContextType.pathResponse payload
  packet := ofLayout relayedFlags hops (some n) (.fill 0) ContextType.pathResponse payload
  unpacks := unpack_layout (by
    unfold Addressed
    rw [show (unpackFlags relayedFlags).headerType = .header2 by decide]
    simp)
  isAnnounce := by
    show (unpackFlags relayedFlags).packetType = .announce
    decide
  fromPeer := true

/-- And node 4 has heard node 3. -/
def heardByFour : Network :=
  Function.update heardByThree (.fill 4)
    ((handleAnnounce checking (answerBy (.fill 3) 1).arrived { id := 1 } (.fill 4) (heardByThree (.fill 4)).1).2,
      [answerBy (.fill 3) 1])

theorem heardByThree_four : heardByThree (.fill 4) = (listening, []) := by
  unfold heardByThree
  rw [Function.update_of_ne (by decide)]
  rfl

set_option maxRecDepth 8000 in
/-- The third has the answer on the wire. -/
theorem heardByThree_wire : (heardByThree (.fill 3)).1.wire = [({ id := 1 }, (answerBy (.fill 3) 1).raw)] := by
  unfold heardByThree
  rw [Function.update_self]
  rfl

set_option maxRecDepth 8000 in
theorem three_heard : NetworkStep (.fill 0) heardByThree heardByFour := by
  have hstep := NetworkStep.accepts (d := .fill 0) heardByThree (.fill 4) checking (checking_runs _)
    (answerBy (.fill 3) 1) { id := 1 } (by rw [heardByThree_four]; rfl) [] (by rw [heardByThree_four]; rfl) fun _ => by
      refine ⟨fun _ => ⟨.fill 3, ({ id := 1 }, (answerBy (.fill 3) 1).raw), ?_, rfl⟩, ?_, ?_, ?_, ?_, ?_⟩
      · rw [heardByThree_wire]
        exact List.mem_singleton_self _
      · rw [heardByThree_four]
        decide
      · rw [heardByThree_four]
        decide
      · rw [heardByThree_four]
        exact ⟨[], _, _, rfl, rfl, rfl⟩
      · rw [heardByThree_four]
        intro entry hentry
        cases hentry
      · rw [heardByThree_four]
        decide
  rwa [heardByThree_four] at hstep

/-- So the network where both have heard it is reached. -/
theorem heardByFour_reached : heardByFour.Reached (.fill 0) := by
  refine ⟨asked, fun n => ?_, .tail (.single asked_heard) three_heard⟩
  unfold asked
  split <;> exact ⟨rfl, rfl, rfl, rfl, rfl⟩

end Sample

/-- In every run of a network, with announces heard in any order, late, more than once or never, the next hop of every
path to `d` is the destination or a node with a path of its own, of a later announce or of the same one at fewer hops.
So the paths do not lead in a circle, and whoever follows them comes to a node that has heard the destination
itself. -/
theorem paths_lead_home (d : Address) (net : Network) (hreached : net.Reached d) :
    (∀ n entry, getPath (net n).1 d = some entry → entry.receivedFrom ≠ d →
        ∃ entry', getPath (net entry.receivedFrom).1 d = some entry' ∧ (routeOf entry').Better (routeOf entry))
      ∧ (∀ n, ¬ Relation.TransGen (NextHop d net) n n)
      ∧ ∀ n entry, getPath (net n).1 d = some entry → ∃ m entry', Relation.ReflTransGen (NextHop d net) n m
        ∧ getPath (net m).1 d = some entry' ∧ entry'.receivedFrom = d := by
  have hdescends := hreached.sound.2.descends
  have hnext : NextHop d net = (net.view d).NextHop d := by
    funext n m
    exact propext nextHop_iff
  refine ⟨?_, ?_, ?_⟩
  · intro n entry hentry hother
    obtain ⟨r', hr', hbetter⟩ := hdescends n (routeOf entry) (congrArg (Option.map routeOf) hentry) hother
    obtain ⟨entry', hentry', rfl⟩ := Option.map_eq_some_iff.mp hr'
    exact ⟨entry', hentry', hbetter⟩
  · rw [hnext]
    exact hdescends.acyclic
  · intro n entry hentry
    have hbound : ∀ m r, (net.view d).routes m = some r → r.emitted ≤ 256 ^ 5 := by
      intro m r hr
      obtain ⟨entry, -, rfl⟩ := Option.map_eq_some_iff.mp hr
      unfold routeOf
      rw [announceEmitted_eq]
      exact (emissionOf_lt _).le
    obtain ⟨m, r', htrail, hr', hhome⟩ := hdescends.reaches_home hbound (congrArg (Option.map routeOf) hentry)
    obtain ⟨entry', hentry', rfl⟩ := Option.map_eq_some_iff.mp hr'
    rw [hnext]
    exact ⟨m, entry', htrail, hentry', hhome⟩


set_option maxRecDepth 8000 in
/-- The path of node 4 leads over node 3, which has heard the destination itself. -/
theorem paths_lead_home_over_three : ∃ entry entry', getPath (Sample.heardByFour (.fill 4)).1 (.fill 0) = some entry
    ∧ entry.receivedFrom = .fill 3 ∧ getPath (Sample.heardByFour (.fill 3)).1 (.fill 0) = some entry'
    ∧ (routeOf entry').Better (routeOf entry) := by
  have hfrom : (getPath (Sample.heardByFour (.fill 4)).1 (.fill 0)).map DestinationEntry.receivedFrom
      = some (.fill 3) := by
    unfold Sample.heardByFour
    rw [Function.update_self, Sample.heardByThree_four]
    rfl
  obtain ⟨entry, hentry, hthree⟩ := Option.map_eq_some_iff.mp hfrom
  obtain ⟨entry', hentry', hbetter⟩ := (paths_lead_home (.fill 0) _ Sample.heardByFour_reached).1 _ _ hentry
    (by rw [hthree]; decide)
  rw [hthree] at hentry'
  exact ⟨entry, entry', hentry, hthree, hentry', hbetter⟩

namespace Sample

/-- Node 4 has heard node 3 while somebody asked it for the path. -/
def fourAsked : TransportState :=
  (handleAnnounce checking (answerBy (.fill 3) 1).arrived { id := 1 } (.fill 4) waiting).2

/-- Node 3 has marked its path unresponsive, and hears what node 4 answers. -/
def threeMarked : TransportState :=
  (handleAnnounce checking (answerBy (.fill 4) 2).arrived { id := 1 } (.fill 3)
    (markPath .unresponsive (.fill 0) (heardByThree (.fill 3)).1)).2

/-- The two nodes. -/
def circled : Network := fun n => if n = .fill 3 then (threeMarked, []) else (fourAsked, [])

end Sample

set_option maxRecDepth 8000 in
/-- A mark opens the path for the word of the node behind it, and then the two paths lead to each other. -/
theorem marked_paths_circle :
    ({ id := 1 }, (Sample.answerBy (.fill 4) 2).raw) ∈ (Sample.circled (.fill 4)).1.wire
      ∧ Relation.TransGen (NextHop (.fill 0) Sample.circled) (.fill 3) (.fill 3) := by
  have hthree : (getPath Sample.threeMarked (.fill 0)).map DestinationEntry.receivedFrom = some (.fill 4) := by
    unfold Sample.threeMarked Sample.heardByThree
    rw [Function.update_self]
    decide +kernel
  have hfour : (getPath Sample.fourAsked (.fill 0)).map DestinationEntry.receivedFrom = some (.fill 3) := by rfl
  obtain ⟨entry, hentry, hnext⟩ := Option.map_eq_some_iff.mp hthree
  obtain ⟨entry', hentry', hnext'⟩ := Option.map_eq_some_iff.mp hfour
  have hforth : NextHop (.fill 0) Sample.circled (.fill 3) (.fill 4) := ⟨entry, hentry, hnext, by decide⟩
  have hback : NextHop (.fill 0) Sample.circled (.fill 4) (.fill 3) := ⟨entry', hentry', hnext', by decide⟩
  refine ⟨?_, .head hforth (.single hback)⟩
  have hwire : Sample.fourAsked.wire = [({ id := 1 }, (Sample.answerBy (.fill 4) 2).raw)] := by rfl
  show _ ∈ Sample.fourAsked.wire
  rw [hwire]
  exact List.mem_singleton_self _

end MicroReticulum.Announce
