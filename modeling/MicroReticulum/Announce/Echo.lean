import MicroReticulum.Announce.Bound

/-!
# Hearing an announce passed on

A node that has retransmitted an announce listens for its neighbours. One that was as far from the destination as
this node sends the announce with the same hop count, and is counted; one behind this node sends it with one hop
more, which should end the waiting at once. `Listening` follows an entry with the number of neighbours that were
counted for it, through announces, jobs and path requests, as long as it waits.

Nothing is said of how long the waiting takes, since the times at which the neighbours speak
are free.
-/

namespace MicroReticulum.Announce

open MicroReticulum Packet Link Library Transport
open Relation (ReflTransGen)

variable {env : Environment} {d k : Address} {s t u : TransportState} {p : Packet} {e e' : AnnounceEntry}

/-- The announce was sent with one hop more than the entry is sent with. -/
def FromBehind (p : Packet) (e : AnnounceEntry) : Prop := (p.hops.toNat : Int) - 1 = e.hops.toNat + 1

/-- The announce was sent with as many hops as the entry is sent with. -/
def FromBeside (p : Packet) (e : AnnounceEntry) : Prop := (p.hops.toNat : Int) - 1 = e.hops.toNat

/-- Nothing waits for the destination, and no job sends an announce of it. -/
def NoLongerSent (d : Address) (s : TransportState) : Prop :=
  d ∉ s.announceTable ∧ ∀ env x, sentOf d x (jobOutgoing env s) = 0

/-- A job sends what waits in the table. -/
theorem noLongerSent_of_gone (hs : Filed s) (hgone : d ∉ s.announceTable) : NoLongerSent d s := by
  refine ⟨hgone, fun env x => ?_⟩
  obtain ⟨-, es, hrun, hserved⟩ := @announceJob_run env s hs d
  rw [← hserved.serves x]
  have hempty : announceSlot d s = ⟨none, (announceSlot d s).aside⟩ := by
    unfold announceSlot
    rw [AList.lookup_eq_none.mpr hgone]
    rfl
  rw [hempty] at hrun
  have hnothing : es = [] := hrun.of_empty (fun y => List.count_eq_zero.mp (hserved.enters y))
    (List.count_eq_zero.mp hserved.asks)
  rw [hnothing]
  rfl

/-! ## What is heard -/

/-- One that is behind this node ends the waiting if it is heard before the entry was made. -/
theorem echoed_behind (hechoes : Echoes env p s) (he : s.announceTable.lookup p.destinationHash = some e)
    (hbehind : FromBehind p e) (hretries : 0 < e.retries) :
    p.destinationHash ∉ (echoed env p s).announceTable ↔ env.now < e.timestamp := by
  unfold FromBehind at hbehind
  have hbeside : ¬ (p.hops.toNat : Int) - 1 = e.hops.toNat := by omega
  have hdone : rebroadcastDone env.now p e = decide (env.now < e.timestamp) := by
    simp only [rebroadcastDone, hbehind, hretries, decide_true, Bool.true_and]
    simp
  unfold echoed hearRebroadcast
  rw [if_pos hechoes, he]
  dsimp only
  rw [hdone, if_neg hbeside]
  split
  case isTrue hbefore => exact ⟨fun _ => of_decide_eq_true hbefore, fun _ hmem => (AList.mem_erase.mp hmem).1 rfl⟩
  case isFalse hafter =>
    refine ⟨fun hgone => absurd (AList.lookup_isSome.mp (by rw [he]; rfl)) hgone, fun hbefore => ?_⟩
    exact absurd (decide_eq_true hbefore) hafter

/-- One that is beside this node ends the waiting if it is the last to be counted. -/
theorem echoed_beside (hechoes : Echoes env p s) (he : s.announceTable.lookup p.destinationHash = some e)
    (hbeside : FromBeside p e) :
    (localRebroadcastsMax ≤ e.localRebroadcasts + 1 → p.destinationHash ∉ (echoed env p s).announceTable)
      ∧ (e.localRebroadcasts + 1 < localRebroadcastsMax →
        (echoed env p s).announceTable.lookup p.destinationHash
          = some { e with localRebroadcasts := e.localRebroadcasts + 1 }) := by
  unfold FromBeside at hbeside
  have hbehind : ¬ (p.hops.toNat : Int) - 1 = e.hops.toNat + 1 := by omega
  have hdone : rebroadcastDone env.now p e = decide (localRebroadcastsMax ≤ e.localRebroadcasts + 1) := by
    unfold rebroadcastDone
    rw [decide_eq_true hbeside, decide_eq_false hbehind]
    simp
  unfold echoed hearRebroadcast
  rw [if_pos hechoes, he]
  dsimp only
  rw [hdone, if_pos hbeside]
  constructor
  · intro hlast
    rw [if_pos (decide_eq_true hlast)]
    exact fun hmem => (AList.mem_erase.mp hmem).1 rfl
  · intro hmore
    have hnot : ¬ localRebroadcastsMax ≤ e.localRebroadcasts + 1 := UInt8.not_le.mpr hmore
    rw [if_neg (by rw [decide_eq_true_eq]; exact hnot)]
    unfold Table.adjust
    rw [he]
    exact AList.lookup_insert _

/-! ## What is counted -/

/-- If something waits for `d`, it is the entry of before, with as many hops and as many neighbours counted. -/
def SameCount (d : Address) (s t : TransportState) : Prop :=
  ∀ e', t.announceTable.lookup d = some e' →
    ∃ e, s.announceTable.lookup d = some e ∧ e'.hops = e.hops ∧ e'.localRebroadcasts = e.localRebroadcasts

namespace SameCount

theorem refl (s : TransportState) : SameCount d s s := fun e' he' => ⟨e', he', rfl, rfl⟩

theorem trans (h : SameCount d s t) (h' : SameCount d t u) : SameCount d s u := by
  intro e'' he''
  obtain ⟨e', he', hhops', hcount'⟩ := h' e'' he''
  obtain ⟨e, he, hhops, hcount⟩ := h e' he'
  exact ⟨e, he, hhops'.trans hhops, hcount'.trans hcount⟩

theorem of_lookup (h : ∀ e', t.announceTable.lookup d = some e' → s.announceTable.lookup d = some e') :
    SameCount d s t :=
  fun e' he' => ⟨e', h e' he', rfl, rfl⟩

theorem of_waiting (h : SameWaiting s t) : SameCount d s t := .of_lookup fun _ he' => h.announceTable ▸ he'

end SameCount

/-- An entry that is put into the table does not displace one. -/
theorem addAnnounceEntry_sameCount (env : Environment) (k : Address) (e : AnnounceEntry) (hd : d ∈ s.announceTable) :
    SameCount d s (addAnnounceEntry env k e s) := by
  apply SameCount.of_lookup
  intro e' he'
  have hadded := (cullAnnounceTable_fewer env _).lookup d e' he'
  unfold Table.emplace at hadded
  dsimp only at hadded
  split at hadded
  case isTrue => exact hadded
  case isFalse hnew =>
    rw [AList.lookup_insert_ne fun heq : d = k => hnew (heq ▸ hd)] at hadded
    exact hadded

theorem countedSent_sameCount : SameCount d s (countedSent env k s) := by
  intro e' he'
  unfold countedSent Table.adjust at he'
  dsimp only at he'
  split at he'
  case h_1 => exact ⟨e', he', rfl, rfl⟩
  case h_2 e he =>
    by_cases hd : d = k
    · subst hd
      rw [AList.lookup_insert] at he'
      cases he'
      exact ⟨e, he, rfl, rfl⟩
    · rw [AList.lookup_insert_ne hd] at he'
      exact ⟨e', he', rfl, rfl⟩

theorem Round.sameCount {identity : Address} {r r' : Retransmissions} (hround : Round env identity k r s r' t)
    (hheld : d ∉ s.heldAnnounces) : SameCount d s t ∧ d ∉ t.heldAnnounces := by
  cases hround with
  | idle => exact ⟨.refl s, hheld⟩
  | finishes => exact ⟨.refl s, hheld⟩
  | forgets => exact ⟨countedSent_sameCount, hheld⟩
  | fails e hentry hfinished u hu hwaiting =>
    exact ⟨countedSent_sameCount.trans (.of_waiting hwaiting), hwaiting.heldAnnounces ▸ hheld⟩
  | sends e hentry hfinished u hu hwaiting =>
    have hheld' : d ∉ u.heldAnnounces := hwaiting.heldAnnounces ▸ hheld
    refine ⟨(countedSent_sameCount.trans (.of_waiting hwaiting)).trans ?_, fun hmem => hheld' (reinsertHeld_held hmem)⟩
    apply SameCount.of_lookup
    intro e' he'
    rw [reinsertHeld_eq] at he'
    split at he'
    case h_1 => exact he'
    case h_2 held hlookup =>
      have hd : d ≠ k := by
        rintro rfl
        exact hheld' (AList.lookup_isSome.mp (by rw [hlookup]; rfl))
      have hswapped := (cullAnnounceTable_fewer env _).lookup d e' he'
      unfold swapped at hswapped
      rw [AList.lookup_insert_ne hd, AList.lookup_erase_ne hd] at hswapped
      exact hswapped

theorem retransmitLoop_sameCount (env : Environment) (identity : Address) (keys : List Address) (r : Retransmissions)
    (hheld : d ∉ s.heldAnnounces) :
    ∃ r' t, Prog.fold keys r (retransmitAnnounce env identity) s = (.value r', t) ∧ SameCount d s t := by
  induction keys generalizing r s with
  | nil => exact ⟨r, s, rfl, .refl s⟩
  | cons k keys ih =>
    obtain ⟨r', t, hrun, hround⟩ := retransmitAnnounce_round env identity k r s
    obtain ⟨hsame, hheld'⟩ := hround.sameCount hheld
    obtain ⟨r'', u, hrest, hsame'⟩ := ih r' hheld'
    exact ⟨r'', u, (Prog.bind_value hrun).trans hrest, hsame.trans hsame'⟩

/-- The job counts nobody. -/
theorem announceJob_sameCount (env : Environment) (hheld : d ∉ s.heldAnnounces) :
    SameCount d s (announceJob env s).2 := by
  unfold announceJob
  rw [Prog.get_bind_run]
  cases hidentity : s.identity with
  | none => exact .refl s
  | some identity =>
    obtain ⟨r, t, hrun, hsame⟩ := retransmitLoop_sameCount env identity (announceKeys s) {} hheld
    have hloop : ∃ u, retransmitAnnounces env identity s = (.value r.outgoing, u) ∧ SameCount d t u := by
      unfold retransmitAnnounces
      rw [Prog.get_bind_run, Prog.bind_value hrun]
      obtain ⟨-, hwhen⟩ | ⟨-, hwhen⟩ := Prog.when_run_cases (r.aborted = false)
        (Prog.modify fun s => { s with announceTable := s.announceTable.eraseAll r.completed }) t
      · exact ⟨_, Prog.bind_value hwhen, .of_lookup fun _ he' => lookup_of_eraseAll he'⟩
      · exact ⟨t, Prog.bind_value hwhen, .refl t⟩
    obtain ⟨u, hloop, hsame'⟩ := hloop
    dsimp only
    rw [Prog.bind_value hloop]
    exact (hsame.trans hsame').trans (.of_waiting (sendAll_waiting r.outgoing u))

theorem pathRequest_sameCount (env : Environment) {calls : PathRequestCalls} (hcalls : CallsSpare calls) (r : PathRequest)
    (hd : d ∈ s.announceTable) : SameCount d s (pathRequest env calls r s).2 := by
  have hwaiting := @pathRequest_waiting env calls hcalls r s
  cases hanswer : answeredWith env r s with
  | none =>
    rw [hanswer] at hwaiting
    exact .of_waiting hwaiting
  | some entry =>
    rw [hanswer] at hwaiting
    have hhold : (holdAnnounce entry.announcePacket.destinationHash s).announceTable = s.announceTable := by
      unfold holdAnnounce
      split <;> rfl
    have hanswered : SameCount d s (answered env r entry s) := by
      have hadded := addAnnounceEntry_sameCount env entry.announcePacket.destinationHash (answerEntry env.now r entry)
        (hhold.symm ▸ hd : d ∈ (holdAnnounce entry.announcePacket.destinationHash s).announceTable)
      intro e' he'
      obtain ⟨e, he, hrest⟩ := hadded e' he'
      exact ⟨e, hhold ▸ he, hrest⟩
    exact hanswered.trans (.of_waiting hwaiting)

/-- What follows from an announce does not count anybody any more. -/
theorem handleAnnounce_sameCount (henv : Validates env) (hhandlers : HandlersSpare SameWaiting env) (p : Packet)
    (i : Interface) (identity : Address) (hd : d ∈ (echoed env p s).announceTable) :
    SameCount d (echoed env p s) (handleAnnounce env p i identity s).2 := by
  rcases handleAnnounce_waiting henv hhandlers p i identity s with hsame | ⟨-, first, hadds⟩
  · exact .of_waiting hsame
  · exact (addAnnounceEntry_sameCount env _ _ hd).trans (.of_waiting hadds)

/-- Nobody beside this node passes on what waits for `d`. -/
theorem echoed_sameCount (hother : ∀ e, Echoes env p s → s.announceTable.lookup d = some e → p.destinationHash = d →
    ¬ FromBeside p e) : SameCount d s (echoed env p s) := by
  unfold echoed
  split
  case isFalse => exact .refl s
  case isTrue hechoes =>
    unfold hearRebroadcast
    split
    case h_1 => exact .refl s
    case h_2 entry hentry =>
      split
      case isTrue => exact .of_lookup fun e' he' => lookup_of_erase he'
      case isFalse =>
        split
        case isFalse => exact .refl s
        case isTrue hbeside =>
          apply SameCount.of_lookup
          intro e' he'
          have hd : d ≠ p.destinationHash := by
            rintro rfl
            exact hother entry hechoes hentry rfl hbeside
          unfold Table.adjust at he'
          dsimp only at he'
          rw [hentry] at he'
          dsimp only at he'
          rwa [AList.lookup_insert_ne hd] at he'

/-! ## Runs -/

/-- An entry of `d` has waited since it came into the table, and this many neighbours beside this node have been
heard meanwhile. No copy of it that was put aside has taken its place. -/
inductive Listening (d : Address) : Nat → TransportState → Prop
  | start (s : TransportState) (e : AnnounceEntry) (he : s.announceTable.lookup d = some e)
    (hfresh : e.localRebroadcasts = 0) : Listening d 0 s
  | beside {n : Nat} {s : TransportState} (h : Listening d n s) (env : Environment) (henv : Validates env)
    (hhandlers : HandlersSpare SameWaiting env) (p : Packet) (i : Interface) (identity : Address) (e : AnnounceEntry)
    (hechoes : Echoes env p s) (hdest : p.destinationHash = d) (he : s.announceTable.lookup d = some e)
    (hbeside : FromBeside p e) (hwaits : d ∈ (echoed env p s).announceTable)
    (hstays : d ∈ (handleAnnounce env p i identity s).2.announceTable) :
    Listening d (n + 1) (handleAnnounce env p i identity s).2
  | hears {n : Nat} {s : TransportState} (h : Listening d n s) (env : Environment) (henv : Validates env)
    (hhandlers : HandlersSpare SameWaiting env) (p : Packet) (i : Interface) (identity : Address)
    (hother : ∀ e, Echoes env p s → s.announceTable.lookup d = some e → p.destinationHash = d → ¬ FromBeside p e)
    (hwaits : d ∈ (echoed env p s).announceTable)
    (hstays : d ∈ (handleAnnounce env p i identity s).2.announceTable) :
    Listening d n (handleAnnounce env p i identity s).2
  | job {n : Nat} {s : TransportState} (h : Listening d n s) (env : Environment) (hheld : d ∉ s.heldAnnounces)
    (hstays : d ∈ (announceJob env s).2.announceTable) : Listening d n (announceJob env s).2
  | asked {n : Nat} {s : TransportState} (h : Listening d n s) (env : Environment) (calls : PathRequestCalls)
    (hcalls : CallsSpare calls) (r : PathRequest) (hstays : d ∈ (pathRequest env calls r s).2.announceTable) :
    Listening d n (pathRequest env calls r s).2
  /-- anything that does not touch the two tables -/
  | other {n : Nat} {s t : TransportState} (h : Listening d n s) (hsame : SameWaiting s t) : Listening d n t

theorem SameCount.counted {n : Nat} (h : SameCount d s t) (hstays : d ∈ t.announceTable)
    (hs : ∀ e, s.announceTable.lookup d = some e → e.localRebroadcasts.toNat = n) :
    ∃ e, t.announceTable.lookup d = some e ∧ e.localRebroadcasts.toNat = n := by
  obtain ⟨e', he'⟩ := Option.isSome_iff_exists.mp (AList.lookup_isSome.mpr hstays)
  obtain ⟨e, he, -, hcount⟩ := h e' he'
  exact ⟨e', he', hcount ▸ hs e he⟩

/-- The entry has counted them all, and they were fewer than it waits for. -/
theorem Listening.counted {n : Nat} (h : Listening d n s) :
    ∃ e, s.announceTable.lookup d = some e ∧ e.localRebroadcasts.toNat = n ∧ n < localRebroadcastsMax.toNat := by
  induction h with
  | start s e he hfresh => exact ⟨e, he, by rw [hfresh]; rfl, by decide⟩
  | beside h env henv hhandlers p i identity e hechoes hdest he hbeside hwaits hstays ih =>
    obtain ⟨e₀, he₀, hcount, hfew⟩ := ih
    cases he.symm.trans he₀
    subst hdest
    obtain ⟨hlast, hmore⟩ := echoed_beside hechoes he hbeside
    have hfew' : e.localRebroadcasts + 1 < localRebroadcastsMax := by
      by_contra hnot
      exact hlast (UInt8.not_lt.mp hnot) hwaits
    have hlimit : localRebroadcastsMax.toNat = 2 := rfl
    have hnext : (e.localRebroadcasts + 1).toNat = e.localRebroadcasts.toNat + 1 := by
      rw [UInt8.toNat_add]
      have hone : (1 : UInt8).toNat = 1 := rfl
      omega
    have hheard := (handleAnnounce_sameCount henv hhandlers p i identity hwaits).counted hstays
      (n := e.localRebroadcasts.toNat + 1) fun e' he' => by
        rw [hmore hfew'] at he'
        cases he'
        exact hnext
    obtain ⟨e', he', hcount'⟩ := hheard
    refine ⟨e', he', by rw [hcount', hcount], ?_⟩
    rw [UInt8.lt_iff_toNat_lt, hnext, hcount] at hfew'
    exact hfew'
  | hears h env henv hhandlers p i identity hother hwaits hstays ih =>
    obtain ⟨e₀, he₀, hcount, hfew⟩ := ih
    have hsame := (echoed_sameCount hother).trans (handleAnnounce_sameCount henv hhandlers p i identity hwaits)
    obtain ⟨e', he', hcount'⟩ := hsame.counted hstays fun e he => by
      cases he.symm.trans he₀
      exact hcount
    exact ⟨e', he', hcount', hfew⟩
  | job h env hheld hstays ih =>
    obtain ⟨e₀, he₀, hcount, hfew⟩ := ih
    obtain ⟨e', he', hcount'⟩ := (announceJob_sameCount env hheld).counted hstays fun e he => by
      cases he.symm.trans he₀
      exact hcount
    exact ⟨e', he', hcount', hfew⟩
  | asked h env calls hcalls r hstays ih =>
    obtain ⟨e₀, he₀, hcount, hfew⟩ := ih
    have hd := AList.lookup_isSome.mp (by rw [he₀]; rfl)
    obtain ⟨e', he', hcount'⟩ := (pathRequest_sameCount env hcalls r hd).counted hstays fun e he => by
      cases he.symm.trans he₀
      exact hcount
    exact ⟨e', he', hcount', hfew⟩
  | other h hsame ih =>
    rw [hsame.announceTable]
    exact ih

/-- In every run, an announce that comes back from behind this node before the entry is sent again ends the waiting
exactly if the clock reads less than when the entry was made. Of those that come from beside this node, the one
that makes `LOCAL_REBROADCASTS_MAX` ends the waiting and no other. -/
theorem relayed_announce_recognised_iff (d : Address) :
    (∀ x w, Watched.Reached d x w → ∀ env p e, Echoes env p w.1 → p.destinationHash = d →
        w.1.announceTable.lookup d = some e → 0 < e.retries → FromBehind p e → env.now < e.retransmitTimeout →
          (NoLongerSent d (echoed env p w.1) ↔ env.now < e.timestamp))
      ∧ ∀ n s, Listening d n s → ∀ env p e, Echoes env p s → p.destinationHash = d →
        s.announceTable.lookup d = some e → FromBeside p e →
          (d ∉ (echoed env p s).announceTable ↔ n + 1 = localRebroadcastsMax.toNat) := by
  constructor
  · rintro x w hreached env p e hechoes rfl he hretries hbehind -
    have hfiled := (echoed_run env p hreached.sound.filed p.destinationHash).1
    rw [← echoed_behind hechoes he hbehind hretries]
    exact ⟨fun h => h.1, noLongerSent_of_gone hfiled⟩
  · rintro n s hlistening env p e hechoes rfl he hbeside
    obtain ⟨e₀, he₀, hcount, hfew⟩ := hlistening.counted
    cases he.symm.trans he₀
    obtain ⟨hlast, hmore⟩ := echoed_beside hechoes he hbeside
    have hlimit : localRebroadcastsMax.toNat = 2 := rfl
    have hnext : (e.localRebroadcasts + 1).toNat = n + 1 := by
      rw [UInt8.toNat_add]
      have hone : (1 : UInt8).toNat = 1 := rfl
      omega
    constructor
    · intro hgone
      by_contra hnot
      have hfew' : e.localRebroadcasts + 1 < localRebroadcastsMax := by
        rw [UInt8.lt_iff_toNat_lt, hnext]
        omega
      exact hgone (AList.lookup_isSome.mp (by rw [hmore hfew']; rfl))
    · intro hmax
      apply hlast
      rw [UInt8.le_iff_toNat_le, hnext, hmax]

namespace Sample

/-- A second after the announce was sent. -/
def relayingSoon : Environment := { relaying with now := 101 }

/-- The announce, passed on by a node behind this one. -/
def passedOnBehind : Packet := { neighbours with transportId := some (.fill 9), hops := 3 }

end Sample

set_option maxRecDepth 8000 in
/-- The first of two nodes beside this one leaves the entry waiting. -/
theorem first_neighbour_counted :
    Sample.accepting.1.announceTable.lookup (.fill 0) ≠ none
      ∧ .fill 0 ∈ (echoed Sample.relaying Sample.passedOn Sample.accepting.1).announceTable := by
  obtain ⟨e, he, hentry⟩ : ∃ e, Sample.accepting.1.announceTable.lookup (.fill 0) = some e
      ∧ (e.localRebroadcasts, e.hops) = (0, 1) := by
    have hfields : (Sample.accepting.1.announceTable.lookup (.fill 0)).map (fun e => (e.localRebroadcasts, e.hops))
        = some (0, 1) := by decide +kernel
    exact Option.map_eq_some_iff.mp hfields
  obtain ⟨hfresh, hhops⟩ := Prod.mk.inj hentry
  have hechoes : Echoes Sample.relaying Sample.passedOn Sample.accepting.1 := by
    refine ⟨?_, ?_, rfl, rfl⟩ <;> decide +kernel
  have hbeside : FromBeside Sample.passedOn e := by
    unfold FromBeside
    rw [hhops]
    decide +kernel
  have hiff := (relayed_announce_recognised_iff (.fill 0)).2 0 _ (.start _ e he hfresh) Sample.relaying
    Sample.passedOn e hechoes (by decide +kernel) he hbeside
  refine ⟨by rw [he]; exact Option.some_ne_none e, ?_⟩
  by_contra hgone
  exact absurd (hiff.mp hgone) (by decide)

set_option maxRecDepth 8000 in
/-- The announce comes back from behind this node a second after it was sent, and goes on waiting. -/
theorem passed_on_announce_stays : ¬ ∀ (d : Address) (x : Bytes) (w : Watched), w.Reached d x →
    ∀ env p e, Echoes env p w.1 → p.destinationHash = d → w.1.announceTable.lookup d = some e → 0 < e.retries →
      FromBehind p e → env.now < e.retransmitTimeout → NoLongerSent d (echoed env p w.1) := by
  intro h
  have hfresh : Watched.Fresh (Sample.listening, {}) := ⟨rfl, rfl, rfl⟩
  have hreached : Sample.sentOnce.Reached (.fill 0) (relayedData Sample.neighbours) :=
    ⟨_, hfresh, .tail (.single ⟨_, Sample.accepting_step⟩) ⟨_, .job Sample.relayingLater _ _⟩⟩
  obtain ⟨e, he, hentry⟩ : ∃ e, Sample.sentOnce.1.announceTable.lookup (.fill 0) = some e
      ∧ (e.timestamp, e.retransmitTimeout, e.retries, e.hops) = (0, 211 / 2, 1, 1) := by
    have hfields : (Sample.sentOnce.1.announceTable.lookup (.fill 0)).map
        (fun e => (e.timestamp, e.retransmitTimeout, e.retries, e.hops)) = some (0, 211 / 2, 1, 1) := by
      decide +kernel
    exact Option.map_eq_some_iff.mp hfields
  simp only [Prod.mk.injEq] at hentry
  obtain ⟨htimestamp, htimeout, hretries, hhops⟩ := hentry
  have hechoes : Echoes Sample.relayingSoon Sample.passedOnBehind Sample.sentOnce.1 := by
    refine ⟨?_, ?_, rfl, rfl⟩ <;> decide +kernel
  have hbehind : FromBehind Sample.passedOnBehind e := by
    unfold FromBehind
    rw [hhops]
    decide +kernel
  have hdest : Sample.passedOnBehind.destinationHash = .fill 0 := by decide +kernel
  have hlater : Sample.relayingSoon.now < e.retransmitTimeout := by
    rw [htimeout]
    decide +kernel
  have hended := h (.fill 0) _ _ hreached Sample.relayingSoon Sample.passedOnBehind e hechoes hdest he
    (by rw [hretries]; decide) hbehind hlater
  have hbefore := (echoed_behind hechoes (hdest ▸ he) hbehind (by rw [hretries]; decide)).mp (hdest ▸ hended.1)
  rw [htimestamp] at hbefore
  revert hbefore
  decide +kernel

end MicroReticulum.Announce
