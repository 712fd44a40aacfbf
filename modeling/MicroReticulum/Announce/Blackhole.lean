import MicroReticulum.Announce.Recall
import MicroReticulum.Transport.Blackhole

/-!
# Blackholed identities have no paths

`Purged` says that no path in the path table leads to a destination of a blackholed identity, as
`Identity::recall` tells the identity of a destination. An addition to the blackhole list purges the path table,
and an announce of a blackholed identity is turned away.

An announce lets a path in nevertheless where the blackhole check does not know the identity, since the store of
known destinations has not taken it, and where it makes a destination known that already has a path of another
identity (`AnnounceFits`).

Whether an announce is what its sender signed is left to the validation, which is a
parameter here.
-/

namespace MicroReticulum.Announce

open MicroReticulum Packet Link Library Transport

variable {env : Environment} {fullHash : Bytes → Hash}

/-! ## The invariant -/

/-- `Identity::hash` as a key of the blackhole list. -/
def blackholeKey (fullHash : Bytes → Hash) (entry : IdentityEntry) : Bytes :=
  (truncatedHash fullHash entry.publicKey).toList

/-- No path leads to a destination of a blackholed identity. -/
def Purged (fullHash : Bytes → Hash) (s : TransportState) : Prop :=
  ∀ d ∈ s.pathTable, ∀ entry, recalled s d = some entry → blackholeKey fullHash entry ∉ s.blackholedIdentities

/-- Every path has an announce that carries a public key. -/
def PathsWhole (paths : Table StoredPath) : Prop :=
  TableAll (fun _ path => ∃ p, path.announcePacket = some p ∧ ecpubsize ≤ p.data.length) paths

/-- What the stores hold was put there by this program. -/
structure Stored (s : TransportState) : Prop where
  keys : KeysWhole s
  paths : PathsWhole s.pathTable

/-- The paths, the blackhole list and what is recalled of every destination are as they were. -/
structure SameIdentities (s t : TransportState) : Prop where
  pathTable : t.pathTable = s.pathTable
  blackholed : t.blackholedIdentities = s.blackholedIdentities
  recalled : ∀ d, recalled t d = recalled s d
  known : ∀ d, d ∈ s.knownDestinations → d ∈ t.knownDestinations
  keys : KeysWhole s → KeysWhole t

namespace SameIdentities

theorem refl (s : TransportState) : SameIdentities s s := ⟨rfl, rfl, fun _ => rfl, fun _ => id, id⟩

theorem trans (s t u : TransportState) (h : SameIdentities s t) (h' : SameIdentities t u) : SameIdentities s u where
  pathTable := h'.pathTable.trans h.pathTable
  blackholed := h'.blackholed.trans h.blackholed
  recalled d := (h'.recalled d).trans (h.recalled d)
  known d hd := h'.known d (h.known d hd)
  keys hs := h'.keys (h.keys hs)

theorem of_same {s t : TransportState} (hpaths : t.pathTable = s.pathTable)
    (hblackholed : t.blackholedIdentities = s.blackholedIdentities)
    (hknown : t.knownDestinations = s.knownDestinations) (hdestinations : t.destinations = s.destinations) :
    SameIdentities s t where
  pathTable := hpaths
  blackholed := hblackholed
  recalled d := (recalled_congr (by rw [hknown]) (by rw [hpaths]) hdestinations).1
  known d hd := by rw [hknown]; exact hd
  keys hs := by unfold KeysWhole; rw [hknown]; exact hs

theorem of_tables (s t : TransportState) (h : SameTables s t) : SameIdentities s t :=
  of_same h.pathTable h.blackholedIdentities h.knownDestinations h.destinations

/-- Where no path leads to a black hole, none does afterwards. -/
theorem purged {s t : TransportState} (h : SameIdentities s t) (hs : Purged fullHash s) : Purged fullHash t := by
  intro d hd entry hentry
  rw [h.blackholed]
  rw [h.pathTable] at hd
  rw [h.recalled] at hentry
  exact hs d hd entry hentry

theorem stored {s t : TransportState} (h : SameIdentities s t) (hs : Stored s) : Stored t where
  keys := h.keys hs.keys
  paths := by rw [h.pathTable]; exact hs.paths

end SameIdentities

/-! ## Recalling -/

/-- An entry that is remembered says what was recalled without it. -/
theorem putIdentity_same {s : TransportState} {d : Address} {entry : IdentityEntry}
    (hrecalled : recalled s d = some entry) (hkey : entry.publicKey.length = ecpubsize) :
    SameIdentities s (putIdentity d entry s) where
  pathTable := rfl
  blackholed := rfl
  recalled d' := by
    by_cases hd : d' = d
    · subst hd
      rw [hrecalled]
      unfold recalled putIdentity
      simp
    · exact (recalled_congr (s := s) (t := putIdentity d entry s) (AList.lookup_insert_ne hd) rfl rfl).1
  known d' hd := by
    unfold putIdentity
    simp [hd]
  keys hs := keysWhole_insert hs hkey rfl

theorem identityRecall_same (d : Address) : Prog.Keeps SameIdentities (identityRecall env d) := by
  intro s
  unfold identityRecall
  rw [Prog.get_bind_run]
  cases hrecalled : recalled s d with
  | none => exact .refl s
  | some entry =>
    dsimp only
    obtain ⟨-, hrun⟩ | ⟨-, hrun⟩ := Prog.when_run_cases
      (d ∉ s.knownDestinations ∧ (findAnnouncePacket s d).isSome) (remember env d entry) s
    · by_cases hkey : entry.publicKey.length = ecpubsize
      case pos =>
        rw [Prog.bind_value (hrun.trans (remember_run hkey s))]
        show SameIdentities s (if env.storeIdentity d then putIdentity d entry s else s)
        split
        · exact putIdentity_same hrecalled hkey
        · exact .refl s
      case neg =>
        have hthrown : ∃ e, remember env d entry s = (.thrown e, s) :=
          ⟨_, Prog.bind_thrown (Prog.require_run_of_not hkey _ s)⟩
        obtain ⟨e, hthrown⟩ := hthrown
        rw [Prog.bind_thrown (hrun.trans hthrown)]
        exact .refl s
    · rw [Prog.bind_value hrun]
      exact .refl s

/-- A destination that has a path is recalled without an exception. -/
theorem identityRecall_value {s : TransportState} (hs : Stored s) {d : Address} (hd : d ∈ s.pathTable) :
    ∃ t, identityRecall env d s = (.value (recalled s d), t) ∧ SameIdentities s t := by
  have hsame := @identityRecall_same env d s
  unfold identityRecall at hsame ⊢
  rw [Prog.get_bind_run] at hsame ⊢
  cases hrecalled : recalled s d with
  | none => exact ⟨s, rfl, .refl s⟩
  | some entry =>
    rw [hrecalled] at hsame
    dsimp only at hsame ⊢
    obtain ⟨hunknown, hrun⟩ | ⟨-, hrun⟩ := Prog.when_run_cases
      (d ∉ s.knownDestinations ∧ (findAnnouncePacket s d).isSome) (remember env d entry) s
    case inr =>
      rw [Prog.bind_value hrun]
      exact ⟨s, rfl, .refl s⟩
    case inl =>
      obtain ⟨path, hpath⟩ := Option.isSome_iff_exists.mp (AList.lookup_isSome.mpr hd)
      obtain ⟨p, hpacket, hlength⟩ := hs.paths d path hpath
      have hkey : entry.publicKey.length = ecpubsize := by
        have hnone : s.knownDestinations.lookup d = none := AList.lookup_eq_none.mpr hunknown.1
        unfold recalled findAnnouncePacket at hrecalled
        rw [hnone, hpath, Option.bind_some, hpacket] at hrecalled
        cases hrecalled
        simp [hlength]
      rw [Prog.bind_value (hrun.trans (remember_run hkey s))] at hsame ⊢
      exact ⟨_, rfl, hsame⟩

/-! ## The purge -/

/-- A key is left by an erasure exactly when it was there and is not among those erased. -/
theorem mem_eraseAll {V : Type} (ks : List Address) (t : Table V) (d : Address) :
    d ∈ t.eraseAll ks ↔ d ∈ t ∧ d ∉ ks := by
  unfold Table.eraseAll
  induction ks generalizing t with
  | nil => simp
  | cons k ks ih =>
    rw [List.foldl_cons, ih, AList.mem_erase]
    simp only [List.mem_cons, not_or]
    tauto

/-- An erasure leaves the entries of other keys. -/
theorem lookup_eraseAll {V : Type} {ks : List Address} {d : Address} (h : d ∉ ks) (t : Table V) :
    (t.eraseAll ks).lookup d = t.lookup d := by
  unfold Table.eraseAll
  induction ks generalizing t with
  | nil => rfl
  | cons k ks ih =>
    rw [List.mem_cons, not_or] at h
    rw [List.foldl_cons, ih h.2, AList.lookup_erase_ne h.1]

theorem not_mem_of_no_entries {t : Blackholes} (h : t.entries = []) (k : Bytes) : k ∉ t := by
  have hkeys : t.keys = [] := by
    unfold AList.keys
    rw [h]
    rfl
  rw [AList.mem_keys, hkeys]
  exact List.not_mem_nil

/-- The enumeration finds the paths whose destination is recalled as a blackholed identity, and only them. -/
theorem blackholedPaths_run {ds : List Address} {s : TransportState} (hs : Stored s)
    (hds : ∀ d ∈ ds, d ∈ s.pathTable) :
    ∃ drops t, blackholedPaths env ds s = (.value drops, t) ∧ SameIdentities s t
      ∧ ∀ d, d ∈ drops ↔ d ∈ ds ∧ ∃ entry, recalled s d = some entry
        ∧ blackholeKey env.fullHash entry ∈ s.blackholedIdentities := by
  induction ds generalizing s with
  | nil => exact ⟨[], s, rfl, .refl s, by simp⟩
  | cons d ds ih =>
    obtain ⟨t, hrecall, hst⟩ := @identityRecall_value env s hs d (hds d List.mem_cons_self)
    have hcaught : Prog.catching (do
        let identity ← identityRecall env d
        pure (some identity)) (fun _ => pure none) s = (.value (some (recalled s d)), t) := by
      unfold Prog.catching
      rw [Prog.bind_value hrecall]
      rfl
    have hrest : ∀ d' ∈ ds, d' ∈ t.pathTable := by
      intro d' hd'
      rw [hst.pathTable]
      exact hds d' (List.mem_cons_of_mem d hd')
    obtain ⟨drops, u, hrun, htu, hdrops⟩ := ih (hst.stored hs) hrest
    unfold blackholedPaths
    rw [Prog.bind_value hcaught]
    dsimp only
    rw [Prog.get_bind_run, Prog.bind_value hrun]
    refine ⟨_, u, rfl, .trans _ _ _ hst htu, fun d' => ?_⟩
    have hfound : ((recalled s d).any fun entry => isBlackholed t (identityHash env entry)) = true
        ↔ ∃ entry, recalled s d = some entry ∧ blackholeKey env.fullHash entry ∈ s.blackholedIdentities := by
      rw [← hst.blackholed, Option.any_eq_true]
      unfold isBlackholed
      simp only [decide_eq_true_eq]
      rfl
    rw [hst.blackholed] at hdrops
    have hothers : d' ∈ drops ↔ d' ∈ ds ∧ ∃ entry, recalled s d' = some entry
        ∧ blackholeKey env.fullHash entry ∈ s.blackholedIdentities := by
      rw [hdrops d', hst.recalled]
    by_cases hblackholed : ((recalled s d).any fun entry => isBlackholed t (identityHash env entry)) = true
    · rw [if_pos hblackholed, List.mem_cons, List.mem_cons, hothers]
      have hself := hfound.mp hblackholed
      constructor
      · rintro (rfl | ⟨hmem, hentry⟩)
        · exact ⟨.inl rfl, hself⟩
        · exact ⟨.inr hmem, hentry⟩
      · rintro ⟨rfl | hmem, hentry⟩
        · exact .inl rfl
        · exact .inr ⟨hmem, hentry⟩
    · rw [if_neg hblackholed, List.mem_cons, hothers]
      have hself : ¬ _ := fun h => hblackholed (hfound.mpr h)
      constructor
      · rintro ⟨hmem, hentry⟩
        exact ⟨.inr hmem, hentry⟩
      · rintro ⟨rfl | hmem, hentry⟩
        · exact absurd hentry hself
        · exact ⟨hmem, hentry⟩

/-- Behind the purge no path leads to a blackholed identity, and the list and the stores are as they were. -/
theorem removeBlackholedPaths_purged {s : TransportState} (hs : Stored s) :
    ∃ t, removeBlackholedPaths env s = (.value (), t) ∧ Purged env.fullHash t ∧ Stored t
      ∧ t.blackholedIdentities = s.blackholedIdentities := by
  unfold removeBlackholedPaths
  rw [Prog.get_bind_run]
  by_cases hempty : s.blackholedIdentities.entries = []
  case pos =>
    rw [Prog.when_of_not (not_not.mpr hempty)]
    refine ⟨s, rfl, fun d hd entry hentry hmem => ?_, hs, rfl⟩
    exact not_mem_of_no_entries hempty _ hmem
  case neg =>
    obtain ⟨drops, t, hrun, hst, hdrops⟩ := @blackholedPaths_run env s.pathTable.keys s hs
      fun d hd => AList.mem_keys.mpr hd
    rw [Prog.when_of hempty, Prog.bind_value hrun]
    have hlookup : ∀ d, d ∉ drops → (t.pathTable.eraseAll drops).lookup d = s.pathTable.lookup d := by
      intro d hd
      rw [lookup_eraseAll hd, hst.pathTable]
    refine ⟨_, rfl, fun d hd entry hentry hmem => ?_, ⟨(hst.stored hs).keys, ?_⟩, hst.blackholed⟩
    · obtain ⟨hpath, hkept⟩ := (mem_eraseAll drops t.pathTable d).mp hd
      have hsame : recalled { t with pathTable := t.pathTable.eraseAll drops } d = recalled s d := by
        rw [← hst.recalled d]
        exact (recalled_congr (s := t) (t := { t with pathTable := t.pathTable.eraseAll drops }) rfl
          (lookup_eraseAll hkept _) rfl).1
      rw [hsame] at hentry
      rw [hst.pathTable] at hpath
      have hblackholed : blackholeKey env.fullHash entry ∈ s.blackholedIdentities := by
        rw [← hst.blackholed]
        exact hmem
      exact hkept ((hdrops d).mpr ⟨AList.mem_keys.mpr hpath, entry, hentry, hblackholed⟩)
    · intro d path hpath
      by_cases hd : d ∈ drops
      · have hgone : d ∉ t.pathTable.eraseAll drops := fun h => ((mem_eraseAll drops _ d).mp h).2 hd
        rw [AList.lookup_eq_none.mpr hgone] at hpath
        cases hpath
      · exact hs.paths d path ((hlookup d hd).symm.trans hpath)

/-! ## Announces -/

/-- What holds behind the validation of an announce: it carries a whole key, and where its destination is still
unknown the key is not that of a blackholed identity. -/
structure Fits (fullHash : Bytes → Hash) (p : Packet) (s : TransportState) : Prop where
  purged : Purged fullHash s
  stored : Stored s
  whole : ecpubsize ≤ p.data.length
  named : p.destinationHash ∉ s.knownDestinations → blackholeKey fullHash (announced p) ∉ s.blackholedIdentities

/-- An announce that fits what is known goes on fitting. -/
theorem SameIdentities.fits {p : Packet} {s t : TransportState} (h : SameIdentities s t) (hs : Fits fullHash p s) :
    Fits fullHash p t where
  purged := h.purged hs.purged
  stored := h.stored hs.stored
  whole := hs.whole
  named hd := by
    rw [h.blackholed]
    exact hs.named fun hs => hd (h.known _ hs)

/-- When an announce lets no path to a blackholed identity in: its destination is known, or it is not an announce
of a blackholed identity, or the destination has no path and becomes known. -/
def AnnounceFits (env : Environment) (p : Packet) (s : TransportState) : Prop :=
  p.destinationHash ∈ s.knownDestinations
    ∨ blackholeKey env.fullHash (announced p) ∉ s.blackholedIdentities
    ∨ (p.destinationHash ∉ s.pathTable ∧ env.storeIdentity p.destinationHash = true)

/-- An entry that is remembered for an unknown destination keeps the purge, if it is not that of a blackholed
identity or if the destination has no path. -/
theorem putIdentity_purged {s : TransportState} (hs : Purged fullHash s) {d : Address} {entry : IdentityEntry}
    (h : d ∈ s.pathTable → blackholeKey fullHash entry ∉ s.blackholedIdentities) :
    Purged fullHash (putIdentity d entry s) := by
  intro d' hd' found hfound
  by_cases hd : d' = d
  · subst hd
    have hself : recalled (putIdentity d' entry s) d' = some entry := by
      unfold recalled putIdentity
      simp
    cases hself.symm.trans hfound
    exact h hd'
  · have hsame := (recalled_congr (s := s) (t := putIdentity d entry s) (AList.lookup_insert_ne hd) rfl rfl).1
    rw [hsame] at hfound
    exact hs d' hd' found hfound

/-- An announce with a whole public key is at least as long as the key. -/
theorem announced_whole {p : Packet} (h : (announced p).publicKey.length = ecpubsize) : ecpubsize ≤ p.data.length := by
  rw [announced_publicKey] at h
  simp only [Bytes.left, List.length_take] at h
  omega

/-- The validation remembers the destination, and says yes only where the announce fits. -/
theorem acceptIdentity_fits {p : Packet} {s : TransportState} (hpurged : Purged env.fullHash s) (hstored : Stored s)
    (hfits : AnnounceFits env p s) :
    Prog.Ends (acceptIdentity env p) s fun o t =>
      Purged env.fullHash t ∧ Stored t ∧ (o = .value true → Fits env.fullHash p t) := by
  have hknown := knownDestination_eq hstored.keys p.destinationHash
  unfold acceptIdentity Prog.Ends
  rw [Prog.get_bind_run]
  cases hlookup : s.knownDestinations.lookup p.destinationHash with
  | some entry =>
    rw [hlookup] at hknown
    simp only [hknown]
    have hmem : p.destinationHash ∈ s.knownDestinations := AList.lookup_isSome.mp (by rw [hlookup]; rfl)
    refine ⟨hpurged, hstored, fun hyes => ?_⟩
    have hkey : decide ((announceFields p.contextFlag p.data).publicKey = entry.publicKey) = true :=
      Outcome.value.inj hyes
    have hlength : (announced p).publicKey.length = ecpubsize := by
      show (announceFields p.contextFlag p.data).publicKey.length = ecpubsize
      rw [of_decide_eq_true hkey]
      exact hstored.keys p.destinationHash entry hlookup
    exact ⟨hpurged, hstored, announced_whole hlength, fun hunknown => absurd hmem hunknown⟩
  | none =>
    rw [hlookup] at hknown
    have hunknown : p.destinationHash ∉ s.knownDestinations := AList.lookup_eq_none.mp hlookup
    have hsays : ({ publicKey := (announceFields p.contextFlag p.data).publicKey
                    appData := (announceFields p.contextFlag p.data).rememberedAppData p.data } : IdentityEntry)
        = announced p := by
      rw [rememberedAppData_eq]
      rfl
    simp only [hknown, hsays]
    by_cases hlength : (announced p).publicKey.length = ecpubsize
    case neg =>
      have hthrown : ∃ e, remember env p.destinationHash (announced p) s = (.thrown e, s) :=
        ⟨_, Prog.bind_thrown (Prog.require_run_of_not hlength _ s)⟩
      obtain ⟨e, hthrown⟩ := hthrown
      rw [Prog.bind_thrown hthrown]
      exact ⟨hpurged, hstored, fun hyes => by cases hyes⟩
    case pos =>
      rw [Prog.bind_value (remember_run hlength s)]
      cases hstore : env.storeIdentity p.destinationHash with
      | false =>
        refine ⟨hpurged, hstored, fun _ => ⟨hpurged, hstored, announced_whole hlength, fun _ => ?_⟩⟩
        rcases hfits with hmem | hkey | ⟨-, htaken⟩
        · exact absurd hmem hunknown
        · exact hkey
        · rw [hstore] at htaken
          cases htaken
      | true =>
        have hpurged' : Purged env.fullHash (putIdentity p.destinationHash (announced p) s) := by
          apply putIdentity_purged hpurged
          intro hpath
          rcases hfits with hmem | hkey | ⟨hnone, -⟩
          · exact absurd hmem hunknown
          · exact hkey
          · exact absurd hpath hnone
        have hstored' : Stored (putIdentity p.destinationHash (announced p) s) :=
          ⟨keysWhole_insert hstored.keys hlength rfl, hstored.paths⟩
        refine ⟨hpurged', hstored', fun _ => ⟨hpurged', hstored', announced_whole hlength, fun hgone => ?_⟩⟩
        exact absurd (by unfold putIdentity; simp) hgone

/-- Validating an announce that fits leaves the store purged and the announce fitting. -/
theorem validate_fits (henv : Validates env) {p : Packet} {s : TransportState} (hpurged : Purged env.fullHash s)
    (hstored : Stored s) (hfits : AnnounceFits env p s) :
    Prog.Ends (callHandler (env.validateAnnounce p)) s fun o t =>
      Purged env.fullHash t ∧ Stored t ∧ (o = .value true → Fits env.fullHash p t) := by
  have hvalidate : Prog.Ends (validateAnnounce env p false) s fun o t =>
      Purged env.fullHash t ∧ Stored t ∧ (o = .value true → Fits env.fullHash p t) := by
    have hno : Prog.Ends (pure false : Prog String TransportState Bool) s fun o t =>
        Purged env.fullHash t ∧ Stored t ∧ (o = .value true → Fits env.fullHash p t) :=
      ⟨hpurged, hstored, fun hyes => by cases hyes⟩
    unfold validateAnnounce
    split
    case isFalse => exact hno
    case isTrue =>
      rw [if_neg (by decide)]
      split
      case isFalse => exact hno
      case isTrue =>
        apply Prog.Ends.catching
        apply (acceptIdentity_fits hpurged hstored hfits).mono
        intro o t hends
        cases o with
        | thrown e => exact ⟨hends.1, hends.2.1, fun hyes => by cases hyes⟩
        | _ => exact hends
  unfold Prog.Ends callHandler at *
  rw [henv p]
  unfold validateHandler
  rcases hrun : validateAnnounce env p false s with ⟨valid | _ | _ | _, t⟩ <;> rw [hrun] at hvalidate
  case value => exact hvalidate
  all_goals exact ⟨hvalidate.1, hvalidate.2.1, fun hyes => by cases hyes⟩

/-! Between the validation and the store, and behind it, nothing that matters here changes. -/

theorem hearRebroadcast_identities (now : ℚ) (p : Packet) (s : TransportState) :
    SameIdentities s (hearRebroadcast now p s) := by
  unfold hearRebroadcast
  split
  · exact .refl s
  · split
    · exact .of_same rfl rfl rfl rfl
    · split
      · exact .of_same rfl rfl rfl rfl
      · exact .refl s

theorem markPath_identities (state : PathState) (d : Address) (s : TransportState) :
    SameIdentities s (markPath state d s) := by
  unfold markPath
  split
  · exact .of_same rfl rfl rfl rfl
  · exact .refl s

theorem addAnnounceEntry_identities (d : Address) (entry : AnnounceEntry) (s : TransportState) :
    SameIdentities s (addAnnounceEntry env d entry s) := by
  unfold addAnnounceEntry cullAnnounceTable
  split <;> exact .of_same rfl rfl rfl rfl

theorem prepareAnnounce_identities (p : Packet) (i : Interface) (identity : Address) :
    Prog.Keeps SameIdentities (prepareAnnounce env p i identity) := by
  have hschedule : ∀ blocked, Prog.Keeps SameIdentities (scheduleAnnounce env p i blocked) := by
    intro blocked
    apply Prog.Keeps.bind SameIdentities.trans (.get SameIdentities.refl)
    intro s
    dsimp only
    split
    · exact .when SameIdentities.refl fun _ => .modify (addAnnounceEntry_identities _ _)
    · apply Prog.Keeps.when SameIdentities.refl
      intro _
      apply Prog.Keeps.modify
      intro s
      exact .trans _ { s with
        pendingLocalPathRequests := s.pendingLocalPathRequests.erase p.destinationHash } _
        (.of_same rfl rfl rfl rfl) (addAnnounceEntry_identities _ _ _)
  have hrate : Prog.Keeps SameIdentities (rateBlocked env.now p i) :=
    rateBlocked_keeps SameIdentities.refl SameIdentities.trans (fun _ _ => .of_same rfl rfl rfl rfl) env.now p i
  exact .bind SameIdentities.trans hrate fun _ =>
    .bind SameIdentities.trans (hschedule _) fun _ => answerWaiting_keeps SameIdentities.refl SameIdentities.trans
      SameIdentities.of_tables (identityRecall_same _) i identity

/-- The blackhole check lets an announce pass only if what is recalled of its destination is not blackholed. -/
theorem blackholeAllows_fits {p : Packet} {add : Bool} {s : TransportState} (hfits : Fits env.fullHash p s) :
    Prog.Ends (blackholeAllows env p add) s fun o t => Fits env.fullHash p t ∧ (o = .value true →
      ∀ entry, recalled t p.destinationHash = some entry →
        blackholeKey env.fullHash entry ∉ t.blackholedIdentities) := by
  unfold blackholeAllows Prog.Ends
  rw [Prog.get_bind_run]
  split
  case isTrue hempty =>
    refine ⟨hfits, fun hyes entry _ => ?_⟩
    have hadd : add = true := Outcome.value.inj hyes
    exact not_mem_of_no_entries (hempty.resolve_left (by rw [hadd]; decide)) _
  case isFalse =>
    have hsame := @identityRecall_same env p.destinationHash s
    rcases hrecall : identityRecall env p.destinationHash s with ⟨identity | _ | _ | _, t⟩ <;>
      rw [hrecall] at hsame
    case value =>
      rw [Prog.bind_value hrecall, Prog.get_bind_run]
      have hidentity : identity = recalled s p.destinationHash := by
        unfold identityRecall at hrecall
        rw [Prog.get_bind_run] at hrecall
        cases hrecalled : recalled s p.destinationHash with
        | none =>
          simp only [hrecalled] at hrecall
          cases hrecall
          rfl
        | some entry =>
          simp only [hrecalled] at hrecall
          obtain ⟨_, u, -, hpure⟩ := Prog.exists_of_bind_value hrecall
          cases hpure
          rfl
      rw [hidentity, ← hsame.recalled]
      cases hrecalled : recalled t p.destinationHash with
      | none =>
        refine ⟨hsame.fits hfits, fun _ entry hentry => ?_⟩
        cases hrecalled.symm.trans hentry
      | some entry =>
        refine ⟨hsame.fits hfits, fun hyes entry' hentry' => ?_⟩
        cases hrecalled.symm.trans hentry'
        have hallowed : (!isBlackholed t (identityHash env entry)) = true := Outcome.value.inj hyes
        rw [Bool.not_eq_true'] at hallowed
        exact of_decide_eq_false hallowed
    all_goals
      rw [Prog.bind_run, hrecall]
      exact ⟨hsame.fits hfits, fun hyes => by cases hyes⟩

/-- The path of an announce that has passed does not lead to a blackholed identity. -/
theorem pathStored_purged {p q : Packet} {i : Interface} {blobs : List Bytes} {s : TransportState}
    (hfits : Fits fullHash p s) (hraw : unpack p.raw = some q) (hdata : q.data = p.data)
    (hallowed : ∀ entry, recalled s p.destinationHash = some entry →
      blackholeKey fullHash entry ∉ s.blackholedIdentities) :
    Purged fullHash (pathStored env p i blobs s) ∧ Stored (pathStored env p i blobs s) := by
  have hmarked := markPath_identities .unknown p.destinationHash
    (putPath p.destinationHash (announcedPath env p i blobs).encode s)
  have hpacket : (announcedPath env p i blobs).encode.announcePacket = some { q with hops := q.hops + 1 } := by
    unfold StoredPath.announcePacket
    rw [show (announcedPath env p i blobs).encode.announce = p.raw from rfl, hraw]
    rfl
  refine ⟨hmarked.purged fun d hd entry hentry => ?_, hmarked.stored ⟨hfits.stored.keys, ?_⟩⟩
  · by_cases hself : d = p.destinationHash
    case neg =>
      have hsame := (recalled_congr (s := s)
        (t := putPath p.destinationHash (announcedPath env p i blobs).encode s) rfl
        (AList.lookup_insert_ne hself) rfl).1
      rw [hsame] at hentry
      have hmem : d ∈ s.pathTable := by
        have hinsert : d ∈ s.pathTable.insert p.destinationHash (announcedPath env p i blobs).encode := hd
        rw [AList.mem_insert] at hinsert
        exact hinsert.resolve_left hself
      exact hfits.purged d hmem entry hentry
    case pos =>
      subst hself
      cases hknown : s.knownDestinations.lookup p.destinationHash with
      | some known =>
        have hbefore : recalled s p.destinationHash = some known := by
          unfold recalled
          rw [hknown]
        have hafter : recalled (putPath p.destinationHash (announcedPath env p i blobs).encode s)
            p.destinationHash = some known := by
          unfold recalled
          rw [show (putPath p.destinationHash (announcedPath env p i blobs).encode s).knownDestinations
            = s.knownDestinations from rfl, hknown]
        cases hafter.symm.trans hentry
        exact hallowed _ hbefore
      | none =>
        have hafter : recalled (putPath p.destinationHash (announcedPath env p i blobs).encode s)
            p.destinationHash
            = some { publicKey := q.data.left ecpubsize, appData := q.data.mid (ecpubsize + 84) } := by
          unfold recalled findAnnouncePacket putPath
          dsimp only
          rw [hknown, AList.lookup_insert, Option.bind_some, hpacket]
        cases hafter.symm.trans hentry
        have hnamed := hfits.named (AList.lookup_eq_none.mp hknown)
        unfold blackholeKey at hnamed ⊢
        rw [announced_publicKey] at hnamed
        rw [hdata]
        exact hnamed
  · apply TableAll.insert hfits.stored.paths
    exact ⟨_, hpacket, by rw [hdata]; exact hfits.whole⟩

/-- Accepting an announce that has passed the blackhole check. -/
theorem acceptAnnounce_purged (hhandlers : HandlersSpare SameIdentities env) {p q : Packet} {i : Interface}
    {identity : Address} {blobs : List Bytes} {s : TransportState} (hfits : Fits env.fullHash p s)
    (hraw : unpack p.raw = some q) (hdata : q.data = p.data)
    (hallowed : ∀ entry, recalled s p.destinationHash = some entry →
      blackholeKey env.fullHash entry ∉ s.blackholedIdentities) :
    Prog.Ends (acceptAnnounce env p i identity blobs) s fun _ t => Purged env.fullHash t ∧ Stored t := by
  unfold Prog.Ends
  rw [acceptAnnounce_eq]
  show Prog.Ends (_ >>= _) s fun _ t => Purged env.fullHash t ∧ Stored t
  apply Prog.Ends.bind_keeps (R := SameIdentities) (prepareAnnounce_identities p i identity)
  case hstop =>
    intro o t _ hst
    exact ⟨hst.purged hfits.purged, hst.stored hfits.stored⟩
  case hf =>
    intro _ t hst
    unfold Prog.Ends
    rw [Prog.bind_value (storePath_run env p i blobs t)]
    have hcalls := callAnnounceHandlers_keeps (p := p) SameIdentities.refl SameIdentities.trans
      (identityRecall_same p.destinationHash) hhandlers
    split
    case isTrue =>
      have hallowed' : ∀ entry, recalled t p.destinationHash = some entry →
          blackholeKey env.fullHash entry ∉ t.blackholedIdentities := by
        intro entry hentry
        rw [hst.recalled] at hentry
        rw [hst.blackholed]
        exact hallowed entry hentry
      obtain ⟨hpurged, hstored⟩ : Purged env.fullHash (pathStored env p i blobs t)
          ∧ Stored (pathStored env p i blobs t) := pathStored_purged (hst.fits hfits) hraw hdata hallowed'
      exact ⟨(hcalls _).purged hpurged, (hcalls _).stored hstored⟩
    case isFalse =>
      exact ⟨(hcalls t).purged (hst.purged hfits.purged), (hcalls t).stored (hst.stored hfits.stored)⟩

/-- An announce that fits leaves no path to a blackholed identity. -/
theorem handleAnnounce_purged (henv : Validates env) (hhandlers : HandlersSpare SameIdentities env) {p q : Packet}
    {i : Interface} {identity : Address} {s : TransportState} (hpurged : Purged env.fullHash s) (hstored : Stored s)
    (hfits : AnnounceFits env p s) (hraw : unpack p.raw = some q) (hdata : q.data = p.data) :
    Prog.Ends (handleAnnounce env p i identity) s fun _ t => Purged env.fullHash t ∧ Stored t := by
  have hstop : ∀ t, Fits env.fullHash p t → Purged env.fullHash t ∧ Stored t := fun t h => ⟨h.purged, h.stored⟩
  have hhear : Prog.Keeps SameIdentities (Prog.when (p.transportId.isSome ∧ env.transportEnabled = true)
      (Prog.modify (hearRebroadcast env.now p)) : Prog String TransportState Unit) :=
    .when SameIdentities.refl fun _ => .modify (hearRebroadcast_identities _ p)
  unfold handleAnnounce Prog.Ends
  rw [Prog.get_bind_run]
  obtain ⟨-, hown⟩ | ⟨-, hown⟩ := Prog.when_run_cases (p.destinationHash ∉ s.destinations) _ s
  case inr =>
    rw [hown]
    exact ⟨hpurged, hstored⟩
  rw [hown]
  show Prog.Ends (_ >>= _) s fun _ t => Purged env.fullHash t ∧ Stored t
  apply Prog.Ends.bind
  apply (validate_fits henv hpurged hstored hfits).mono
  intro o u ⟨hpurged', hstored', hyes⟩
  rcases o with valid | _ | _ | _
  case value =>
    cases valid with
    | false => exact ⟨hpurged', hstored'⟩
    | true =>
      have hfits' := hyes rfl
      apply Prog.Ends.bind_keeps (R := SameIdentities) hhear
      case hstop => exact fun _ v _ huv => hstop v (huv.fits hfits')
      intro _ v huv
      unfold Prog.Ends
      rw [Prog.get_bind_run]
      obtain ⟨-, hnear⟩ | ⟨-, hnear⟩ := Prog.when_run_cases
        (p.destinationHash ∉ v.destinations ∧ p.hops < pathfinderM + 1) _ v
      case inr =>
        rw [hnear]
        exact hstop v (huv.fits hfits')
      rw [hnear]
      show Prog.Ends (_ >>= _) v fun _ t => Purged env.fullHash t ∧ Stored t
      apply Prog.Ends.bind_keeps (R := SameIdentities)
        (shouldAddPath_keeps SameIdentities.refl SameIdentities.trans (fun d s => markPath_identities .unknown d s) _ p)
      case hstop => exact fun _ w _ hvw => hstop w (hvw.fits (huv.fits hfits'))
      intro add w hvw
      apply Prog.Ends.bind
      apply (@blackholeAllows_fits env p add w (hvw.fits (huv.fits hfits'))).mono
      intro o x ⟨hfitsx, hpasses⟩
      rcases o with allowed | _ | _ | _
      case value =>
        cases allowed with
        | false => exact hstop x hfitsx
        | true => exact acceptAnnounce_purged hhandlers hfitsx hraw hdata (hpasses rfl)
      all_goals exact hstop x hfitsx
  all_goals exact ⟨hpurged', hstored'⟩

/-- The same for the announce as it comes in. -/
theorem inbound_announce_purged (henv : Validates env) (hhandlers : HandlersSpare SameIdentities env) {raw : Bytes}
    {p : Packet} (hraw : unpack raw = some p) (htype : p.packetType = .announce) (interface : Option Interface)
    {s : TransportState} (hpurged : Purged env.fullHash s) (hstored : Stored s) (hfits : AnnounceFits env p s) :
    Purged env.fullHash (inbound env raw interface s).2 ∧ Stored (inbound env raw interface s).2 := by
  have hrelease : ∀ t, SameIdentities t (setJobsLocked false t) := fun t => .of_same rfl rfl rfl rfl
  rw [inbound_announce_state hraw htype, Prog.bind_run]
  rcases hrun : announceArrives env raw interface s with ⟨arrived | _ | _ | _, t⟩
  case value =>
    obtain ⟨htables, harrived⟩ := announceArrives_spec hraw htype interface hrun
    have hsame := SameIdentities.of_tables s t htables
    cases arrived with
    | none =>
      have hafter := hsame.trans _ _ (setJobsLocked false t) (hrelease t)
      exact ⟨hafter.purged hpurged, hafter.stored hstored⟩
    | some a =>
      have hpacket := (harrived a rfl).1
      have hraw' : unpack a.packet.raw = some p := by
        rw [hpacket, show ({ p with hops := a.packet.hops } : Packet).raw = raw from (unpack_sound hraw).2.1, hraw]
      have hdata : p.data = a.packet.data := by rw [hpacket]
      have hfits' : AnnounceFits env a.packet t := by
        unfold AnnounceFits at hfits ⊢
        rw [hpacket, htables.knownDestinations, htables.blackholedIdentities, htables.pathTable]
        exact hfits
      have hhandled : Prog.Ends (handleAnnounce env a.packet a.receivingInterface a.identity) t fun _ t =>
          Purged env.fullHash t ∧ Stored t := handleAnnounce_purged henv hhandlers
        (hsame.purged hpurged) (hsame.stored hstored) hfits' hraw' hdata
      have hafter : SameIdentities (handleAnnounce env a.packet a.receivingInterface a.identity t).2
          (announceHandled env (some a) t).2 := by
        have hkeeps : Prog.Keeps SameIdentities
            (Prog.modify (setJobsLocked false) : Prog String TransportState Unit) := .modify hrelease
        exact Prog.Keeps.after SameIdentities.refl _ (fun _ => hkeeps) t
      exact ⟨hafter.purged hhandled.1, hafter.stored hhandled.2⟩
  all_goals
    have hsame := SameIdentities.of_tables s t (announceArrives_spec hraw htype interface hrun).1
    exact ⟨hsame.purged hpurged, hsame.stored hstored⟩

end MicroReticulum.Announce
