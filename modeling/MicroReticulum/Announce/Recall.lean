import MicroReticulum.Announce.Replay

/-!
# Recalling what was announced

What a node knows of a destination it keeps twice: in the store of known destinations, where the first
announce stays until it is evicted, and in the path table, where every accepted announce replaces the one
before. `recalled` asks the store and then the path table; `recallAppData` asks the store only.

`Recalls` says that both answer with what the last accepted announce said, wherever they look. It is lost
in three places: an announce that says something else than the one in the store, an announce with a
ratchet, which is read without one from the path table, and an eviction.

That the store of known destinations has room for an announce is not proved: its eviction is
one of the happenings.
-/

namespace MicroReticulum.Announce

open MicroReticulum Packet Link Library Transport

variable {env : Environment}

/-! ## What is recalled -/

/-- `Identity::recall_app_data` -/
def recallAppData (s : TransportState) (d : Address) : Bytes :=
  ((knownDestination s d).map IdentityEntry.appData).getD []

/-- What `Identity::recall` rebuilds of the cached announce packet of a path. -/
def rebuilt (s : TransportState) (d : Address) : Option IdentityEntry :=
  (findAnnouncePacket s d).map fun p =>
    { publicKey := p.data.left ecpubsize, appData := p.data.mid (announceHeadLength + siglength) }

/-- What an announce says of its destination. -/
def announced (p : Packet) : IdentityEntry where
  publicKey := (announceFields p.contextFlag p.data).publicKey
  appData := (announceFields p.contextFlag p.data).appData

/-- The public key a listener remembers is the head of the announce's data. -/
theorem announced_publicKey (p : Packet) : (announced p).publicKey = p.data.left ecpubsize := by
  unfold announced announceFields
  cases p.contextFlag <;> rfl

/-- What is remembered of an announce is its application data. -/
theorem rememberedAppData_eq (p : Packet) :
    (announceFields p.contextFlag p.data).rememberedAppData p.data = (announced p).appData := by
  unfold AnnounceFields.rememberedAppData announced
  split
  case isFalse => rfl
  case isTrue hshort =>
    unfold announceFields
    cases p.contextFlag with
    | set =>
      dsimp only
      rw [if_neg]
      omega
    | unset =>
      dsimp only
      rw [if_neg]
      omega

/-- The cached announce is read without a ratchet. -/
theorem rebuilt_appData_iff (p : Packet) :
    p.data.mid (announceHeadLength + siglength) = (announced p).appData
      ↔ p.contextFlag = .unset ∨ p.data.length ≤ announceHeadLength + siglength := by
  unfold announced announceFields
  cases p.contextFlag with
  | unset =>
    dsimp only
    refine iff_of_true ?_ (.inl rfl)
    split
    case isTrue => rfl
    case isFalse hshort => exact List.drop_eq_nil_of_le (by omega)
  | set =>
    dsimp only
    constructor
    · intro heq
      right
      have hlength := congrArg List.length heq
      have hratchet : ratchetLength = 32 := rfl
      split at hlength
      case isTrue hlong =>
        unfold Bytes.mid at hlength
        rw [List.length_drop, List.length_drop] at hlength
        omega
      case isFalse =>
        unfold Bytes.mid at hlength
        rw [List.length_drop, List.length_nil] at hlength
        omega
    · rintro (hset | hshort)
      · cases hset
      · rw [if_neg (by omega)]
        exact List.drop_eq_nil_of_le hshort

/-! ## What an accepted announce leaves in the store -/

/-- Every known destination has a whole public key. -/
def KeysWhole (s : TransportState) : Prop :=
  TableAll (fun _ entry => entry.publicKey.length = ecpubsize) s.knownDestinations

/-- With whole keys only, what is known of a destination is its entry. -/
theorem knownDestination_eq {s : TransportState} (h : KeysWhole s) (d : Address) :
    knownDestination s d = s.knownDestinations.lookup d := by
  unfold knownDestination
  cases hlookup : s.knownDestinations.lookup d with
  | none => rfl
  | some entry =>
    have hkey : entry.publicKey ≠ [] := by
      intro hnil
      have hlength : entry.publicKey.length = ecpubsize := h d entry hlookup
      rw [hnil] at hlength
      cases hlength
    simp [Option.filter, hkey]

/-- The known destinations stay as they are if `d` is among them. -/
def KeepsKnown (d : Address) (s t : TransportState) : Prop :=
  d ∈ s.knownDestinations → t.knownDestinations = s.knownDestinations

theorem KeepsKnown.refl {d : Address} (s : TransportState) : KeepsKnown d s s := fun _ => rfl

theorem KeepsKnown.trans {d : Address} (s t u : TransportState) (h : KeepsKnown d s t)
    (h' : KeepsKnown d t u) : KeepsKnown d s u := by
  intro hd
  have hst := h hd
  exact (h' (hst ▸ hd)).trans hst

/-- Recalling an identity keeps what is known of every destination. -/
theorem identityRecall_keepsKnown (d : Address) :
    Prog.Keeps (KeepsKnown d) (identityRecall env d) := by
  intro s hd
  obtain ⟨entry, hentry⟩ := Option.isSome_iff_exists.mp (AList.lookup_isSome.mpr hd)
  have hrecalled : recalled s d = some entry := by
    unfold recalled
    rw [hentry]
  unfold identityRecall
  rw [Prog.get_bind_run]
  simp only [hrecalled]
  rw [Prog.when_of_not fun h => h.1 hd]
  rfl

/-- Changes of anything else keep the known destinations. -/
theorem modify_keepsKnown {d : Address} {f : TransportState → TransportState}
    (h : ∀ s, (f s).knownDestinations = s.knownDestinations) :
    Prog.Keeps (KeepsKnown d) (Prog.modify f : Prog String TransportState Unit) :=
  .modify fun s _ => h s

theorem hearRebroadcast_known (now : ℚ) (p : Packet) (s : TransportState) :
    (hearRebroadcast now p s).knownDestinations = s.knownDestinations := by
  unfold hearRebroadcast
  split
  · rfl
  · split
    · rfl
    · split <;> rfl

theorem markPath_known (state : PathState) (d : Address) (s : TransportState) :
    (markPath state d s).knownDestinations = s.knownDestinations := by
  unfold markPath
  split <;> rfl

theorem addAnnounceEntry_known (d : Address) (entry : AnnounceEntry) (s : TransportState) :
    (addAnnounceEntry env d entry s).knownDestinations = s.knownDestinations := by
  unfold addAnnounceEntry cullAnnounceTable
  split <;> rfl

/-- Deciding whether a path is to be added keeps what is known. -/
theorem shouldAddPath_keepsKnown (d : Address) (now : ℚ) (p : Packet) :
    Prog.Keeps (KeepsKnown d) (shouldAddPath now p) :=
  shouldAddPath_keeps KeepsKnown.refl KeepsKnown.trans (fun _ s _ => markPath_known _ _ s) now p

/-- Asking the black hole keeps what is known of the announced destination. -/
theorem blackholeAllows_keepsKnown (p : Packet) (shouldAdd : Bool) :
    Prog.Keeps (KeepsKnown p.destinationHash) (blackholeAllows env p shouldAdd) :=
  blackholeAllows_keeps KeepsKnown.refl KeepsKnown.trans (identityRecall_keepsKnown _) shouldAdd

/-- Readying an announce for its handlers keeps what is known of the announced destination. -/
theorem prepareAnnounce_keepsKnown (p : Packet) (i : Interface) (identity : Address) :
    Prog.Keeps (KeepsKnown p.destinationHash) (prepareAnnounce env p i identity) := by
  have hrate : Prog.Keeps (KeepsKnown p.destinationHash) (rateBlocked env.now p i) :=
    rateBlocked_keeps KeepsKnown.refl KeepsKnown.trans (fun _ _ _ => rfl) env.now p i
  have hschedule : ∀ blocked, Prog.Keeps (KeepsKnown p.destinationHash)
      (scheduleAnnounce env p i blocked) := by
    intro blocked
    refine .bind KeepsKnown.trans (.get KeepsKnown.refl) fun s => ?_
    dsimp only
    split
    · exact .when KeepsKnown.refl fun _ => modify_keepsKnown (addAnnounceEntry_known _ _)
    · exact .when KeepsKnown.refl fun _ => modify_keepsKnown fun s => addAnnounceEntry_known _ _ _
  exact .bind KeepsKnown.trans hrate fun _ => .bind KeepsKnown.trans (hschedule _) fun _ =>
    answerWaiting_keeps KeepsKnown.refl KeepsKnown.trans (fun _ _ h _ => h.knownDestinations)
      (identityRecall_keepsKnown _) i identity

/-- What `validate_announce` leaves in the store when it says yes. -/
theorem validate_known (henv : Validates env) {p : Packet} {s u : TransportState}
    (hkeys : KeysWhole s) (hstore : env.storeIdentity p.destinationHash = true)
    (h : callHandler (env.validateAnnounce p) s = (.value true, u)) :
    (∃ entry, s.knownDestinations.lookup p.destinationHash = some entry
        ∧ entry.publicKey = (announced p).publicKey ∧ u = s)
      ∨ (s.knownDestinations.lookup p.destinationHash = none
        ∧ (announced p).publicKey.length = ecpubsize
        ∧ u = putIdentity p.destinationHash (announced p) s) := by
  have hrun : validateAnnounce env p false s = (.value true, u) := by
    unfold callHandler at h
    rw [henv p] at h
    unfold validateHandler at h
    rcases hvalidate : validateAnnounce env p false s with ⟨valid | _ | _ | _, t⟩ <;>
      rw [hvalidate] at h <;> cases h
    rfl
  have hknown := knownDestination_eq hkeys p.destinationHash
  unfold validateAnnounce at hrun
  split at hrun
  case isFalse => cases hrun
  case isTrue =>
    rw [if_neg (by decide)] at hrun
    split at hrun
    case isFalse => cases hrun
    case isTrue =>
      unfold Prog.catching acceptIdentity at hrun
      rw [Prog.get_bind_run] at hrun
      cases hlookup : s.knownDestinations.lookup p.destinationHash with
      | some entry =>
        rw [hlookup] at hknown
        simp only [hknown] at hrun
        have hkey : decide ((announceFields p.contextFlag p.data).publicKey = entry.publicKey) = true :=
          Outcome.value.inj (congrArg Prod.fst hrun)
        have hstate : s = u := congrArg Prod.snd hrun
        exact .inl ⟨entry, rfl, (of_decide_eq_true hkey).symm, hstate.symm⟩
      | none =>
        rw [hlookup] at hknown
        have hsays : ({ publicKey := (announceFields p.contextFlag p.data).publicKey
                        appData := (announceFields p.contextFlag p.data).rememberedAppData p.data } :
            IdentityEntry) = announced p := by
          rw [rememberedAppData_eq]
          rfl
        simp only [hknown, hsays] at hrun
        by_cases hlength : (announced p).publicKey.length = ecpubsize
        case pos =>
          rw [Prog.bind_value (remember_run hlength s), hstore] at hrun
          have hstate : putIdentity p.destinationHash (announced p) s = u := congrArg Prod.snd hrun
          exact .inr ⟨rfl, hlength, hstate.symm⟩
        case neg =>
          have hthrown : ∃ e, remember env p.destinationHash (announced p) s = (.thrown e, s) :=
            ⟨_, Prog.bind_thrown (Prog.require_run_of_not hlength _ s)⟩
          obtain ⟨e, hthrown⟩ := hthrown
          rw [Prog.bind_thrown hthrown] at hrun
          cases hrun

/-- The announce handlers leave alone what is recalled. -/
def LeavesRecall (s t : TransportState) : Prop :=
  SamePaths s t ∧ t.knownDestinations = s.knownDestinations

theorem HandlersSpare.mono {R R' : TransportState → TransportState → Prop}
    (h : HandlersSpare R env) (himp : ∀ s t, R s t → R' s t) : HandlersSpare R' env :=
  fun handler hmem d identity appData s => himp _ _ (h handler hmem d identity appData s)

/-- What an accepted announce leaves in the store of known destinations: the entry that was there, with
the announced key, or its own. -/
theorem inbound_accepts_known (henv : Validates env) (hhandlers : HandlersSpare LeavesRecall env)
    {raw : Bytes} {p : Packet} (hraw : unpack raw = some p) (htype : p.packetType = .announce)
    {interface : Option Interface} {s : TransportState} (hkeys : KeysWhole s)
    (hstore : env.storeIdentity p.destinationHash = true)
    (haccepts : Accepts env raw interface s) :
    (∃ entry, s.knownDestinations.lookup p.destinationHash = some entry
        ∧ entry.publicKey = (announced p).publicKey
        ∧ (inbound env raw interface s).2.knownDestinations = s.knownDestinations)
      ∨ (s.knownDestinations.lookup p.destinationHash = none
        ∧ (announced p).publicKey.length = ecpubsize
        ∧ (inbound env raw interface s).2.knownDestinations
          = s.knownDestinations.insert p.destinationHash (announced p)) := by
  obtain ⟨a, t, harrives, blobs, t₁, u₁, hjudge, hprepare, hput⟩ := haccepts
  obtain ⟨htables, harrived⟩ := announceArrives_spec hraw htype interface harrives
  have hpacket := (harrived a rfl).1
  have hdestination : a.packet.destinationHash = p.destinationHash := by rw [hpacket]
  have hsays : announced a.packet = announced p := by rw [hpacket]; rfl
  obtain ⟨u, v, w, add, hvalid, hhear, hadd, hallowed, -⟩ := judgeAnnounce_steps hjudge
  -- behind the validation the destination is known, so nothing else is remembered
  have hrest : KeepsKnown p.destinationHash u (inbound env raw interface s).2 := by
    have hkeepsHear : Prog.Keeps (KeepsKnown p.destinationHash)
        (Prog.when (a.packet.transportId.isSome ∧ env.transportEnabled = true)
          (Prog.modify (hearRebroadcast env.now a.packet)) : Prog String TransportState Unit) :=
      .when KeepsKnown.refl fun _ => modify_keepsKnown (hearRebroadcast_known _ _)
    have huv := hkeepsHear.of_value hhear
    have hvw := (shouldAddPath_keepsKnown p.destinationHash env.now a.packet).of_value hadd
    have hwt := (blackholeAllows_keepsKnown a.packet add).of_value hallowed
    have htu := (prepareAnnounce_keepsKnown a.packet a.receivingInterface a.identity).of_value hprepare
    have hcall : Prog.Keeps (KeepsKnown a.packet.destinationHash) (callAnnounceHandlers env a.packet) :=
      callAnnounceHandlers_keeps KeepsKnown.refl KeepsKnown.trans (identityRecall_keepsKnown _)
        (hhandlers.mono fun s t h _ => h.2)
    rw [hdestination] at hwt htu hcall
    refine .trans _ _ _ huv (.trans _ _ _ hvw (.trans _ _ _ hwt (.trans _ _ _ htu ?_)))
    rw [inbound_announce_state hraw htype, Prog.bind_value harrives]
    show KeepsKnown p.destinationHash u₁
      ((handleAnnounce env a.packet a.receivingInterface a.identity >>= fun _ =>
        Prog.modify (setJobsLocked false)) t).2
    have hhandled : handleAnnounce env a.packet a.receivingInterface a.identity t
        = callAnnounceHandlers env a.packet (pathStored env a.packet a.receivingInterface blobs u₁) := by
      rw [handleAnnounce_eq, Prog.bind_value hjudge]
      dsimp only
      rw [acceptAnnounce_eq, Prog.bind_value hprepare, Prog.bind_value (storePath_run _ _ _ _ u₁),
        if_pos hput]
    have hstored : KeepsKnown p.destinationHash u₁
        (pathStored env a.packet a.receivingInterface blobs u₁) := fun _ => markPath_known _ _ _
    have hrelease : Prog.Keeps (KeepsKnown p.destinationHash)
        (Prog.modify (setJobsLocked false) : Prog String TransportState Unit) :=
      modify_keepsKnown fun _ => rfl
    refine .trans _ _ _ hstored ?_
    rw [Prog.bind_run, hhandled, ← Prog.bind_run]
    exact Prog.Keeps.bind KeepsKnown.trans hcall (fun _ => hrelease) _
  have hkeys' : KeysWhole t := by
    unfold KeysWhole
    rw [htables.knownDestinations]
    exact hkeys
  have hvalidated := validate_known henv hkeys' (by rw [hdestination]; exact hstore) hvalid
  rw [htables.knownDestinations, hdestination, hsays] at hvalidated
  rcases hvalidated with ⟨entry, hentry, hkey, rfl⟩ | ⟨hnone, hkey, rfl⟩
  · refine .inl ⟨entry, hentry, hkey, ?_⟩
    rw [hrest, htables.knownDestinations]
    rw [htables.knownDestinations]
    exact AList.lookup_isSome.mp (by rw [hentry]; rfl)
  · refine .inr ⟨hnone, hkey, ?_⟩
    rw [hrest (by simp [putIdentity])]
    show t.knownDestinations.insert p.destinationHash (announced p) = _
    rw [htables.knownDestinations]

/-! ## Runs -/

/-- A state, and the last announce that was accepted for each destination. -/
abbrev Recalling : Type := TransportState × (Address → Option Packet)

/-- What happens to what is recalled. -/
inductive Happening where
  | accepts (p : Packet)
  | evicts (d : Address)
  | recalls (d : Address)

/-- An announce is accepted on a registered interface, the store of known destinations evicts an entry,
or somebody recalls a destination. The stores take what they are given. -/
inductive RecallStep : Recalling → Happening → Recalling → Prop
  | accepts (env : Environment) (henv : Validates env) (hhandlers : HandlersSpare LeavesRecall env)
    (raw : Bytes) (p : Packet) (hraw : unpack raw = some p) (htype : p.packetType = .announce)
    (i : Interface) (s : TransportState) (last : Address → Option Packet)
    (hregistered : (findInterface s i.id).isSome)
    (hstore : env.storeIdentity p.destinationHash = true)
    (haccepts : Accepts env raw (some i) s) :
    RecallStep (s, last) (.accepts p)
      ((inbound env raw (some i) s).2, Function.update last p.destinationHash (some p))
  | evicts (d : Address) (s : TransportState) (last : Address → Option Packet) :
    RecallStep (s, last) (.evicts d)
      ({ s with knownDestinations := s.knownDestinations.erase d }, last)
  | recalls (env : Environment) (d : Address) (hstore : env.storeIdentity d = true)
    (s : TransportState) (last : Address → Option Packet) :
    RecallStep (s, last) (.recalls d) ((identityRecall env d s).2, last)

/-- A node that has accepted nothing and knows nobody. -/
def Recalling.Fresh (x : Recalling) : Prop :=
  x.1.knownDestinations = ∅ ∧ x.2 = fun _ => none

/-- A state in any run. -/
def Recalling.Reached (x : Recalling) : Prop :=
  ∃ fresh : Recalling, fresh.Fresh ∧ Relation.ReflTransGen (fun x y => ∃ h, RecallStep x h y) fresh x

/-- What is recalled of every destination is what its last accepted announce said, from the store and
from the path table. -/
def Recalling.Recalls (x : Recalling) : Prop :=
  ∀ d p, x.2 d = some p → recalled x.1 d = some (announced p)
    ∧ recallAppData x.1 d = (announced p).appData ∧ rebuilt x.1 d = some (announced p)

/-- When a step keeps what is recalled right: an announce says the same as the entry that is in the
store, and carries no ratchet; what is evicted has no application data. -/
def Happening.Meets (x : Recalling) : Happening → Prop
  | .accepts p =>
    (∀ entry, x.1.knownDestinations.lookup p.destinationHash = some entry →
        entry.appData = (announced p).appData)
      ∧ (p.contextFlag = .unset ∨ p.data.length ≤ announceHeadLength + siglength)
  | .evicts d => ∀ p, x.2 d = some p → (announced p).appData = []
  | .recalls _ => True

/-- What holds in every run: known keys are whole, and the path of a destination has its last
announce. -/
structure Recalling.Sound (x : Recalling) : Prop where
  keys : KeysWhole x.1
  paths : ∀ d p, x.2 d = some p → ∃ entry, getPath x.1 d = some entry
    ∧ entry.announcePacket.data = p.data

/-- Filing an entry whose key has full length keeps the store free of cut keys. -/
theorem keysWhole_insert {s t : TransportState} (h : KeysWhole s) {d : Address}
    {entry : IdentityEntry} (hkey : entry.publicKey.length = ecpubsize)
    (ht : t.knownDestinations = s.knownDestinations.insert d entry) : KeysWhole t := by
  unfold KeysWhole
  rw [ht]
  exact TableAll.insert h hkey

/-- What `recall` leaves in the store. -/
theorem identityRecall_known {d : Address} (hstore : env.storeIdentity d = true) (s : TransportState) :
    (identityRecall env d s).2 = s
      ∨ ∃ entry, s.knownDestinations.lookup d = none ∧ rebuilt s d = some entry
        ∧ entry.publicKey.length = ecpubsize ∧ (identityRecall env d s).2 = putIdentity d entry s := by
  unfold identityRecall
  rw [Prog.get_bind_run]
  cases hrecalled : recalled s d with
  | none => exact .inl rfl
  | some entry =>
    dsimp only
    by_cases hrebuilt : d ∉ s.knownDestinations ∧ (findAnnouncePacket s d).isSome
    case neg =>
      rw [Prog.when_of_not hrebuilt]
      exact .inl rfl
    case pos =>
      obtain ⟨hunknown, hsome⟩ := hrebuilt
      obtain ⟨q, hq⟩ := Option.isSome_iff_exists.mp hsome
      have hnone := AList.lookup_eq_none.mpr hunknown
      have hsame : rebuilt s d = some entry := by
        unfold recalled at hrecalled
        unfold rebuilt
        simp only [hnone, hq] at hrecalled
        rw [hq]
        exact hrecalled
      rw [Prog.when_of ⟨hunknown, hsome⟩]
      by_cases hlength : entry.publicKey.length = ecpubsize
      case pos =>
        rw [Prog.bind_value (remember_run hlength s), hstore]
        exact .inr ⟨entry, hnone, hsame, hlength, rfl⟩
      case neg =>
        have hthrown : ∃ e, remember env d entry s = (.thrown e, s) :=
          ⟨_, Prog.bind_thrown (Prog.require_run_of_not hlength _ s)⟩
        obtain ⟨e, hthrown⟩ := hthrown
        rw [Prog.bind_thrown hthrown]
        exact .inl rfl

/-- Each happening keeps what is remembered in step with the last announce accepted. -/
theorem RecallStep.sound {x y : Recalling} {h : Happening} (hstep : RecallStep x h y)
    (hx : x.Sound) : y.Sound := by
  cases hstep with
  | accepts env henv hhandlers raw p hraw htype i s last hregistered hstore haccepts =>
    have hspare : HandlersSpare SamePaths env := hhandlers.mono fun s t h => h.1
    obtain ⟨⟨entry, hpath, hpacket, -⟩, -, hothers⟩ :=
      inbound_accepts_path henv hspare hraw htype hregistered haccepts
    refine ⟨?_, fun d q hq => ?_⟩
    · rcases inbound_accepts_known henv hhandlers hraw htype hx.keys hstore haccepts with
        ⟨_, -, -, hsame⟩ | ⟨-, hkey, hinsert⟩
      · unfold KeysWhole
        rw [hsame]
        exact hx.keys
      · exact keysWhole_insert hx.keys hkey hinsert
    · by_cases hd : d = p.destinationHash
      · subst hd
        dsimp only at hq
        rw [Function.update_self] at hq
        cases hq
        exact ⟨entry, hpath, by rw [hpacket]⟩
      · dsimp only at hq ⊢
        rw [Function.update_of_ne hd] at hq
        rw [hothers d hd]
        exact hx.paths d q hq
  | evicts d s last => exact ⟨TableAll.erase hx.keys d, hx.paths⟩
  | recalls env d hstore s last =>
    rcases identityRecall_known hstore s with hsame | ⟨entry, -, -, hkey, hput⟩
    · rw [show ((identityRecall env d s).2, last) = (s, last) by rw [hsame]]
      exact hx
    · rw [show ((identityRecall env d s).2, last) = (putIdentity d entry s, last) by rw [hput]]
      exact ⟨keysWhole_insert hx.keys hkey rfl, hx.paths⟩

/-- So it is in step in every state reached. -/
theorem Recalling.Reached.sound {x : Recalling} (h : x.Reached) : x.Sound := by
  obtain ⟨fresh, ⟨hknown, hlast⟩, hrun⟩ := h
  induction hrun with
  | refl =>
    refine ⟨?_, fun d p hp => ?_⟩
    · unfold KeysWhole
      rw [hknown]
      exact TableAll.empty
    · rw [hlast] at hp
      cases hp
  | tail _ hstep ih =>
    obtain ⟨h, hstep⟩ := hstep
    exact hstep.sound ih

/-! ## The result -/

/-- What is recalled of a destination depends on its entry, its path and its registration. -/
theorem recalled_congr {s t : TransportState} {d : Address}
    (hknown : t.knownDestinations.lookup d = s.knownDestinations.lookup d)
    (hpath : t.pathTable.lookup d = s.pathTable.lookup d) (hdestinations : t.destinations = s.destinations) :
    recalled t d = recalled s d ∧ recallAppData t d = recallAppData s d ∧ rebuilt t d = rebuilt s d := by
  have hpacket : findAnnouncePacket t d = findAnnouncePacket s d := by
    unfold findAnnouncePacket
    rw [hpath]
  refine ⟨?_, ?_, ?_⟩
  · unfold recalled
    rw [hknown, hpacket, hdestinations]
  · unfold recallAppData knownDestination
    rw [hknown]
  · unfold rebuilt
    rw [hpacket]

/-- What is recalled of a destination whose entry and path are known. -/
theorem recalled_of_known {s : TransportState} (hkeys : KeysWhole s) {d : Address}
    {entry : IdentityEntry} (hentry : s.knownDestinations.lookup d = some entry) :
    recalled s d = some entry ∧ recallAppData s d = entry.appData := by
  constructor
  · unfold recalled
    rw [hentry]
  · unfold recallAppData
    rw [knownDestination_eq hkeys, hentry]
    rfl

/-- A destination that is known only through its path is recalled without app data. -/
theorem recalled_of_unknown {s : TransportState} {d : Address}
    (hentry : s.knownDestinations.lookup d = none) {entry : IdentityEntry}
    (hrebuilt : rebuilt s d = some entry) :
    recalled s d = some entry ∧ recallAppData s d = [] := by
  constructor
  · unfold rebuilt at hrebuilt
    cases hpacket : findAnnouncePacket s d with
    | none =>
      rw [hpacket] at hrebuilt
      cases hrebuilt
    | some p =>
      rw [hpacket] at hrebuilt
      unfold recalled
      simp only [hentry, hpacket]
      exact hrebuilt
  · unfold recallAppData knownDestination
    rw [hentry]
    rfl

/-- The announce packet of a path that reads back. -/
theorem findAnnouncePacket_of_getPath {s : TransportState} {d : Address} {entry : DestinationEntry}
    (hpath : getPath s d = some entry) : findAnnouncePacket s d = some entry.announcePacket := by
  unfold getPath at hpath
  unfold findAnnouncePacket
  obtain ⟨path, hlookup, hdecode⟩ := Option.bind_eq_some_iff.mp hpath
  rw [hlookup, Option.bind_some]
  unfold StoredPath.decode at hdecode
  split at hdecode
  case h_1 hfound hunpack =>
    cases hdecode
    simp [StoredPath.announcePacket, hunpack]
  case h_2 => cases hdecode

/-- The announce of a path, read without a ratchet. -/
theorem rebuilt_of_path {s : TransportState} {d : Address} {entry : DestinationEntry} {p : Packet}
    (hpath : getPath s d = some entry) (hdata : entry.announcePacket.data = p.data) :
    rebuilt s d = some { publicKey := (announced p).publicKey
                         appData := p.data.mid (announceHeadLength + siglength) } := by
  unfold rebuilt
  rw [findAnnouncePacket_of_getPath hpath, announced_publicKey, ← hdata]
  rfl

/-- After an announce everything is recalled right exactly if its own destination is: the others are recalled
as before. -/
theorem recalls_update_iff {s t : TransportState} {last : Address → Option Packet} {p : Packet}
    (hrecalls : Recalling.Recalls (s, last))
    (hothers : ∀ d, d ≠ p.destinationHash → t.knownDestinations.lookup d = s.knownDestinations.lookup d
      ∧ t.pathTable.lookup d = s.pathTable.lookup d)
    (hdestinations : t.destinations = s.destinations) :
    Recalling.Recalls (t, Function.update last p.destinationHash (some p))
      ↔ recalled t p.destinationHash = some (announced p)
        ∧ recallAppData t p.destinationHash = (announced p).appData
        ∧ rebuilt t p.destinationHash = some (announced p) := by
  constructor
  · intro hall
    exact hall p.destinationHash p (Function.update_self _ _ _)
  · intro hp d q hq
    dsimp only at hq ⊢
    by_cases hd : d = p.destinationHash
    · subst hd
      rw [Function.update_self] at hq
      cases hq
      exact hp
    · rw [Function.update_of_ne hd] at hq
      obtain ⟨hknown, hpath⟩ := hothers d hd
      obtain ⟨h₁, h₂, h₃⟩ := recalled_congr hknown hpath hdestinations
      rw [h₁, h₂, h₃]
      exact hrecalls d q hq

/-- The announce of a path is read right without a ratchet, or with nothing behind the signature. -/
theorem rebuilt_announced_iff {s : TransportState} {d : Address} {entry : DestinationEntry} {p : Packet}
    (hpath : getPath s d = some entry) (hdata : entry.announcePacket.data = p.data) :
    rebuilt s d = some (announced p)
      ↔ p.contextFlag = .unset ∨ p.data.length ≤ announceHeadLength + siglength := by
  rw [rebuilt_of_path hpath hdata, ← rebuilt_appData_iff]
  constructor
  · intro heq
    exact congrArg IdentityEntry.appData (Option.some.inj heq)
  · intro heq
    rw [heq]

/-- A destination with an entry of its own is recalled right exactly if the entry has the application data
that was announced. -/
theorem recalled_announced_iff {s : TransportState} (hkeys : KeysWhole s) {p : Packet}
    {entry : IdentityEntry} (hentry : s.knownDestinations.lookup p.destinationHash = some entry)
    (hkey : entry.publicKey = (announced p).publicKey) :
    recalled s p.destinationHash = some (announced p)
        ∧ recallAppData s p.destinationHash = (announced p).appData
      ↔ entry.appData = (announced p).appData := by
  obtain ⟨h₁, h₂⟩ := recalled_of_known hkeys hentry
  rw [h₁, h₂]
  refine ⟨fun h => h.2, fun happ => ⟨?_, happ⟩⟩
  have heq : entry = announced p := by
    rcases entry with ⟨key, app⟩
    rw [show announced p = ⟨(announced p).publicKey, (announced p).appData⟩ from rfl, ← hkey, ← happ]
  rw [heq]

/-- An entry that is removed takes the application data with it. -/
theorem recalls_erase_iff {s : TransportState} {last : Address → Option Packet}
    (hrecalls : Recalling.Recalls (s, last)) (d : Address) :
    Recalling.Recalls ({ s with knownDestinations := s.knownDestinations.erase d }, last)
      ↔ ∀ p, last d = some p → (announced p).appData = [] := by
  have hself : ∀ p, last d = some p →
      recalled { s with knownDestinations := s.knownDestinations.erase d } d = some (announced p)
        ∧ recallAppData { s with knownDestinations := s.knownDestinations.erase d } d = [] := by
    intro p hp
    exact recalled_of_unknown (AList.lookup_erase d _) (hrecalls d p hp).2.2
  constructor
  · intro hall p hp
    rw [← (hall d p hp).2.1]
    exact (hself p hp).2
  · intro hempty d' p hp
    by_cases hd : d' = d
    · subst hd
      obtain ⟨h₁, h₂⟩ := hself p hp
      exact ⟨h₁, h₂.trans (hempty p hp).symm, (hrecalls d' p hp).2.2⟩
    · obtain ⟨h₁, h₂, h₃⟩ := recalled_congr (s := s)
        (t := { s with knownDestinations := s.knownDestinations.erase d })
        (AList.lookup_erase_ne hd) rfl rfl
      dsimp only
      rw [h₁, h₂, h₃]
      exact hrecalls d' p hp

/-- An entry that is made from the path says what the path said. -/
theorem recalls_putIdentity {s : TransportState} {last : Address → Option Packet} (hkeys : KeysWhole s)
    (hrecalls : Recalling.Recalls (s, last)) {d : Address} {entry : IdentityEntry}
    (hrebuilt : rebuilt s d = some entry) (hkey : entry.publicKey.length = ecpubsize) :
    Recalling.Recalls (putIdentity d entry s, last) := by
  intro d' p hp
  by_cases hd : d' = d
  · subst hd
    have hsays : entry = announced p := Option.some.inj (hrebuilt.symm.trans (hrecalls d' p hp).2.2)
    have hlookup : (putIdentity d' entry s).knownDestinations.lookup d' = some entry :=
      AList.lookup_insert _
    obtain ⟨h₁, h₂⟩ := recalled_of_known (keysWhole_insert hkeys hkey rfl) hlookup
    rw [← hsays]
    exact ⟨h₁, h₂, hrebuilt⟩
  · obtain ⟨h₁, h₂, h₃⟩ := recalled_congr (s := s) (t := putIdentity d entry s)
      (AList.lookup_insert_ne hd) rfl rfl
    dsimp only
    rw [h₁, h₂, h₃]
    exact hrecalls d' p hp

/-- A step from a state in which everything is recalled right keeps it so exactly if it meets the
condition. -/
theorem RecallStep.recalls_iff {x y : Recalling} {h : Happening} (hstep : RecallStep x h y)
    (hx : x.Sound) (hrecalls : x.Recalls) : y.Recalls ↔ h.Meets x := by
  have hy := hstep.sound hx
  cases hstep with
  | accepts env henv hhandlers raw p hraw htype i s last hregistered hstore haccepts =>
    have hspare : HandlersSpare SamePaths env := hhandlers.mono fun s t h => h.1
    obtain ⟨⟨path, hpath, hpacket, -⟩, -, -⟩ :=
      inbound_accepts_path henv hspare hraw htype hregistered haccepts
    obtain ⟨a, u, ⟨harrived, -⟩, hsu, hut⟩ := inbound_accepts henv hspare hraw htype haccepts
    have hothers : ∀ d, d ≠ p.destinationHash →
        (inbound env raw (some i) s).2.pathTable.lookup d = s.pathTable.lookup d := by
      intro d hd
      rw [hut.pathTable, pathStored_pathTable, harrived, AList.lookup_insert_ne hd, hsu.pathTable]
    have hdestinations : (inbound env raw (some i) s).2.destinations = s.destinations :=
      hut.destinations.trans ((markPath_samePaths _ _).destinations.trans hsu.destinations)
    have hknown := inbound_accepts_known henv hhandlers hraw htype hx.keys hstore haccepts
    have hrebuilt := rebuilt_announced_iff (p := p) hpath (by rw [hpacket])
    have hkeys := hy.keys
    dsimp only at hkeys
    generalize (inbound env raw (some i) s).2 = t at hothers hdestinations hknown hrebuilt hkeys
    have hentries : ∀ d, d ≠ p.destinationHash →
        t.knownDestinations.lookup d = s.knownDestinations.lookup d := by
      intro d hd
      rcases hknown with ⟨_, -, -, hsame⟩ | ⟨-, -, hinsert⟩
      · rw [hsame]
      · rw [hinsert, AList.lookup_insert_ne hd]
    rw [recalls_update_iff hrecalls (fun d hd => ⟨hentries d hd, hothers d hd⟩) hdestinations, hrebuilt,
      ← and_assoc]
    unfold Happening.Meets
    dsimp only
    refine and_congr_left fun _ => ?_
    rcases hknown with ⟨entry, hentry, hkey, hsame⟩ | ⟨hnone, hkey, hinsert⟩
    · rw [recalled_announced_iff hkeys (hsame ▸ hentry) hkey]
      refine ⟨fun happ entry' hentry' => ?_, fun h => h entry hentry⟩
      cases hentry.symm.trans hentry'
      exact happ
    · have hlookup : t.knownDestinations.lookup p.destinationHash = some (announced p) := by
        rw [hinsert, AList.lookup_insert]
      rw [recalled_announced_iff hkeys hlookup rfl]
      refine iff_of_true rfl fun entry' hentry' => ?_
      cases hnone.symm.trans hentry'
  | evicts d s last => exact recalls_erase_iff hrecalls d
  | recalls env d hstore s last =>
    refine iff_of_true ?_ trivial
    rcases identityRecall_known hstore s with hsame | ⟨entry, -, hrebuilt, hkey, hput⟩
    · rw [show ((identityRecall env d s).2, last) = (s, last) by rw [hsame]]
      exact hrecalls
    · rw [show ((identityRecall env d s).2, last) = (putIdentity d entry s, last) by rw [hput]]
      exact recalls_putIdentity hx.keys hrecalls hrebuilt hkey

/-- In every run whose steps all meet their condition, every destination is recalled as its last
accepted announce said, whether from the store or from the path table; and a step from such a state that
does not meet its condition ends that. -/
theorem recalled_as_announced_iff (x : Recalling) :
    ((∃ fresh : Recalling, fresh.Fresh
        ∧ Relation.ReflTransGen (fun x y => ∃ h : Happening, RecallStep x h y ∧ h.Meets x) fresh x) →
      x.Recalls)
      ∧ (x.Reached → x.Recalls → ∀ h y, RecallStep x h y → (y.Recalls ↔ h.Meets x)) := by
  constructor
  · rintro ⟨fresh, hfresh, hrun⟩
    suffices hall : x.Reached ∧ x.Recalls from hall.2
    induction hrun with
    | refl =>
      refine ⟨⟨fresh, hfresh, .refl⟩, fun d p hp => ?_⟩
      rw [hfresh.2] at hp
      cases hp
    | tail _ hstep ih =>
      obtain ⟨⟨start, hstart, hrun'⟩, hrecalls⟩ := ih
      obtain ⟨h, hstep, hmeets⟩ := hstep
      have hsound := Recalling.Reached.sound ⟨start, hstart, hrun'⟩
      exact ⟨⟨start, hstart, hrun'.tail ⟨h, hstep⟩⟩, (hstep.recalls_iff hsound hrecalls).mpr hmeets⟩
  · intro hreached hrecalls h y hstep
    exact hstep.recalls_iff hreached.sound hrecalls

namespace Sample

/-- An announce with application data. -/
def telling (blob : UInt8) (appData : Bytes) : Arrival := arrival 0 (payloadWith blob ++ appData)

/-- Nothing is known, nothing was accepted. -/
def unknowing : Recalling := (listening, fun _ => none)

theorem unknowing_fresh : unknowing.Fresh := ⟨rfl, rfl⟩

/-- The first announce was accepted. -/
def toldOnce : Recalling :=
  (hears trusting listening (telling 1 [1]),
    Function.update unknowing.2 (.fill 0) (some (telling 1 [1]).packet))

/-- The second one says something else. -/
def toldTwice : Recalling :=
  (hears trusting toldOnce.1 (telling 2 [2]),
    Function.update toldOnce.2 (.fill 0) (some (telling 2 [2]).packet))

/-- An announce that stores a path is accepted. -/
theorem accepts_of_hops {s : TransportState} {a : Arrival}
    (h : hopsStored (hears trusting s a) ≠ hopsStored s ∨
      ((hears trusting s a).pathTable.lookup (.fill 0)).map (·.announce)
        ≠ (s.pathTable.lookup (.fill 0)).map (·.announce)) :
    Accepts trusting a.raw (some { id := 1 }) s := by
  by_contra hnot
  have hsame : (hears trusting s a).pathTable = s.pathTable :=
    (inbound_accepts_not (fun _ => rfl) (fun handler hmem => by cases hmem) a.unpacks a.isAnnounce
      hnot).pathTable
  rcases h with h | h
  · exact h (hopsStored_congr hsame)
  · exact h (by rw [hsame])

set_option maxRecDepth 8000 in
theorem toldOnce_step : RecallStep unknowing (.accepts (telling 1 [1]).packet) toldOnce :=
  .accepts trusting (fun _ => rfl) (fun handler hmem => by cases hmem) (telling 1 [1]).raw
    (telling 1 [1]).packet (telling 1 [1]).unpacks (telling 1 [1]).isAnnounce { id := 1 } _ _ (by decide) rfl
    (accepts_of_hops (.inl (by decide +kernel)))

set_option maxRecDepth 8000 in
theorem toldTwice_step : RecallStep toldOnce (.accepts (telling 2 [2]).packet) toldTwice :=
  .accepts trusting (fun _ => rfl) (fun handler hmem => by cases hmem) (telling 2 [2]).raw
    (telling 2 [2]).packet (telling 2 [2]).unpacks (telling 2 [2]).isAnnounce { id := 1 } _ _ (by decide) rfl
    (accepts_of_hops (.inr (by decide +kernel)))

/-- The second is then the last one accepted. -/
theorem toldTwice_last : toldTwice.2 (.fill 0) = some (telling 2 [2]).packet := by
  unfold toldTwice
  dsimp only
  rw [Function.update_self]

end Sample

set_option maxRecDepth 8000 in
/-- One announce is recalled. -/
theorem recalled_as_announced_iff_once : Sample.toldOnce.Recalls := by
  refine (recalled_as_announced_iff Sample.toldOnce).1 ⟨Sample.unknowing, Sample.unknowing_fresh,
    .single ⟨_, Sample.toldOnce_step, ?_, .inl rfl⟩⟩
  intro entry hentry
  cases hentry

set_option maxRecDepth 8000 in
/-- Another one with other application data is not. -/
theorem second_announce_not_recalled : ¬ ∀ x : Recalling, x.Reached → x.Recalls := by
  intro h
  have hreached : Sample.toldTwice.Reached :=
    ⟨Sample.unknowing, Sample.unknowing_fresh,
      .tail (.single ⟨_, Sample.toldOnce_step⟩) ⟨_, Sample.toldTwice_step⟩⟩
  have hrecalls := (h Sample.toldTwice hreached (.fill 0) (Sample.telling 2 [2]).packet
    Sample.toldTwice_last).2.1
  exact absurd hrecalls (by decide +kernel)

end MicroReticulum.Announce
