import MicroReticulum.Announce.Cull
import MicroReticulum.Announce.Echo

/-!
# The newest word on a destination

Announces and answers to path requests are put into one table through the `insert` of `std::map`, which leaves an
entry that is already there; the cull that follows may take the new one. `addAnnounceEntry_lookup` says when the new
entry is the one that waits afterwards.

An announce that was held is meant to come back into the table when the answer has been sent. The lines that put it
back are not defined (`held_not_put_back`), so nothing is said of a table behind them.
-/

namespace MicroReticulum.Announce

open MicroReticulum Packet Link Library Transport

variable {env : Environment} {d : Address} {s t u : TransportState} {p : Packet} {e : AnnounceEntry}

/-! ## What the cull leaves -/

/-- The cull leaves an entry that is not one of the oldest, of which it removes so many. -/
def Spared (env : Environment) (d : Address) (table : Table AnnounceEntry) : Prop :=
  table.entries.length ≤ env.announceTableMaxsize
    ∨ d ∈ ((byAge table).drop (removals env.pathTableMaxsize table.entries.length)).map fun e => e.1

theorem cullAnnounceTable_lookup :
    (cullAnnounceTable env s).announceTable.lookup d = some e
      ↔ s.announceTable.lookup d = some e ∧ Spared env d s.announceTable := by
  unfold Spared
  by_cases hfits : s.announceTable.entries.length ≤ env.announceTableMaxsize
  case pos =>
    rw [cullAnnounceTable_of_fits hfits]
    exact ⟨fun h => ⟨h, .inl hfits⟩, fun h => h.1⟩
  case neg =>
    rw [cullAnnounceTable_eq (Nat.lt_of_not_le hfits), lookup_withoutOldest]
    constructor
    · intro hmem
      refine ⟨mem_byAge.mp (List.mem_of_mem_drop hmem), .inr ?_⟩
      exact List.mem_map_of_mem (f := fun e : (_ : Address) × AnnounceEntry => e.1) hmem
    · rintro ⟨hlookup, hspared⟩
      obtain ⟨⟨k, e'⟩, hmem, rfl⟩ := List.mem_map.mp (hspared.resolve_left hfits)
      have hsame := (mem_byAge.mp (List.mem_of_mem_drop hmem)).symm.trans hlookup
      cases hsame
      exact hmem

/-- No other entry waits for the destination. -/
def Free (d : Address) (e : AnnounceEntry) (s : TransportState) : Prop :=
  ∀ e', s.announceTable.lookup d = some e' → e' = e

theorem emplace_lookup {V : Type} (table : Table V) (d : Address) (v : V) :
    (table.emplace d v).lookup d = some v ↔ ∀ v', table.lookup d = some v' → v' = v := by
  unfold Table.emplace
  split
  case isTrue hmem =>
    obtain ⟨v', hv'⟩ := Option.isSome_iff_exists.mp (AList.lookup_isSome.mpr hmem)
    rw [hv']
    constructor
    · intro hsame v'' hv''
      cases hv''
      exact Option.some.inj hsame
    · intro h
      rw [h v' rfl]
  case isFalse hnew =>
    rw [AList.lookup_insert]
    refine ⟨fun _ v' hv' => ?_, fun _ => rfl⟩
    exact absurd (AList.lookup_isSome.mp (by rw [hv']; rfl)) hnew

/-- A new entry waits in the table unless another one does, or it is culled. -/
theorem addAnnounceEntry_lookup (env : Environment) (d : Address) (e : AnnounceEntry) (s : TransportState) :
    (addAnnounceEntry env d e s).announceTable.lookup d = some e
      ↔ Free d e s ∧ Spared env d (s.announceTable.emplace d e) := by
  unfold addAnnounceEntry Free
  rw [cullAnnounceTable_lookup, emplace_lookup]

/-! ## An announce -/

/-- The rate limit does not block the announce, which is passed on: by a transport node or for a local client, or as
the path response of a local client that was asked for. -/
def PassedOn (env : Environment) (p : Packet) (i : Interface) (blocked : Bool) (s : TransportState) : Prop :=
  if ((env.transportEnabled || isLocalClientInterface i) && p.context ≠ ContextType.pathResponse) = true then
    blocked = false
  else isLocalClientInterface i = true ∧ p.context = ContextType.pathResponse
    ∧ p.destinationHash ∈ s.pendingLocalPathRequests

/-- The announce is accepted for retransmission. -/
def AcceptedFor (env : Environment) (p : Packet) (i : Interface) (s : TransportState) : Prop :=
  ∃ blobs t blocked u, judgeAnnounce env p s = (.value (some blobs), t)
    ∧ rateBlocked env.now p i t = (.value blocked, u) ∧ PassedOn env p i blocked u

theorem scheduleAnnounce_of_passedOn {i : Interface} {blocked : Bool} (h : PassedOn env p i blocked s) :
    (scheduleAnnounce env p i blocked s).1 = .value ()
      ∧ SameWaiting (addAnnounceEntry env p.destinationHash (announceEntry env p (isLocalClientInterface i)) s)
        (scheduleAnnounce env p i blocked s).2 := by
  unfold PassedOn at h
  unfold scheduleAnnounce
  rw [Prog.get_bind_run]
  split
  case isTrue hpasses =>
    rw [if_pos hpasses] at h
    rw [Prog.when_of h]
    exact ⟨rfl, .refl _⟩
  case isFalse hnot =>
    rw [if_neg hnot] at h
    rw [Prog.when_of h, h.1]
    have hpending : SameWaiting s
        { s with pendingLocalPathRequests := s.pendingLocalPathRequests.erase p.destinationHash } := ⟨rfl, rfl⟩
    exact ⟨rfl, addAnnounceEntry_congr hpending _ _⟩

/-- An announce that is accepted for retransmission is put into the table that it has been heard with. -/
theorem handleAnnounce_of_accepted (henv : Validates env) (hhandlers : HandlersSpare SameWaiting env) {i : Interface}
    (identity : Address) (h : AcceptedFor env p i s) :
    SameWaiting (addAnnounceEntry env p.destinationHash (announceEntry env p (isLocalClientInterface i)) (echoed env p s))
      (handleAnnounce env p i identity s).2 := by
  obtain ⟨blobs, t, blocked, u, hjudged, hrate, hpassed⟩ := h
  have hwaiting : SameWaiting (echoed env p s) t := by
    have hkept := judgeAnnounce_waiting henv p s
    rwa [hjudged] at hkept
  have hlimited : SameWaiting t u := by
    have hkept := rateBlocked_keeps (R := SameWaiting) SameWaiting.refl SameWaiting.trans (fun _ _ => ⟨rfl, rfl⟩)
      env.now p i t
    rwa [hrate] at hkept
  obtain ⟨hvalue, hadds⟩ := scheduleAnnounce_of_passedOn hpassed
  have hrest := Prog.Keeps.bind SameWaiting.trans (@answerWaiting_waiting env p i identity)
    (fun _ => storeAndCall_waiting hhandlers p i blobs) (scheduleAnnounce env p i blocked u).2
  rw [handleAnnounce_eq, Prog.bind_value hjudged]
  dsimp only
  unfold acceptAnnounce
  rw [Prog.bind_value hrate, Prog.bind_value (Prod.ext hvalue rfl)]
  exact .trans _ _ _ (addAnnounceEntry_congr (.trans _ _ _ hwaiting hlimited) _ _) (.trans _ _ _ hadds hrest)

/-- The entry of an accepted announce waits in the table. -/
theorem announce_waits (henv : Validates env) (hhandlers : HandlersSpare SameWaiting env) {i : Interface}
    (identity : Address) (h : AcceptedFor env p i s) :
    (handleAnnounce env p i identity s).2.announceTable.lookup p.destinationHash
        = some (announceEntry env p (isLocalClientInterface i))
      ↔ Free p.destinationHash (announceEntry env p (isLocalClientInterface i)) (echoed env p s)
        ∧ Spared env p.destinationHash ((echoed env p s).announceTable.emplace p.destinationHash
          (announceEntry env p (isLocalClientInterface i))) := by
  rw [(handleAnnounce_of_accepted henv hhandlers identity h).announceTable]
  exact addAnnounceEntry_lookup env _ _ _

/-! ## An answer -/

/-- The entry of an answer waits in the table. -/
theorem answer_waits {calls : PathRequestCalls} (hcalls : CallsSpare calls) {r : PathRequest} {entry : DestinationEntry}
    (hanswer : answeredWith env r s = some entry) :
    (pathRequest env calls r s).2.announceTable.lookup entry.announcePacket.destinationHash
        = some (answerEntry env.now r entry)
      ↔ Free entry.announcePacket.destinationHash (answerEntry env.now r entry) s
        ∧ Spared env entry.announcePacket.destinationHash
          (s.announceTable.emplace entry.announcePacket.destinationHash (answerEntry env.now r entry)) := by
  have hwaiting := @pathRequest_waiting env calls hcalls r s
  rw [hanswer] at hwaiting
  have hhold : (holdAnnounce entry.announcePacket.destinationHash s).announceTable = s.announceTable := by
    unfold holdAnnounce
    split <;> rfl
  rw [hwaiting.announceTable]
  have hadded := addAnnounceEntry_lookup env entry.announcePacket.destinationHash (answerEntry env.now r entry)
    (holdAnnounce entry.announcePacket.destinationHash s)
  unfold Free at hadded
  rw [hhold] at hadded
  exact hadded

/-- The announce that waited is held. -/
theorem waiting_held {calls : PathRequestCalls} (hcalls : CallsSpare calls) {r : PathRequest} {entry : DestinationEntry}
    (hanswer : answeredWith env r s = some entry)
    (hwaits : s.announceTable.lookup entry.announcePacket.destinationHash = some e) :
    (pathRequest env calls r s).2.heldAnnounces.lookup entry.announcePacket.destinationHash = some e
      ↔ ∀ held, s.heldAnnounces.lookup entry.announcePacket.destinationHash = some held → held = e := by
  have hwaiting := @pathRequest_waiting env calls hcalls r s
  rw [hanswer] at hwaiting
  have hadded : (answered env r entry s).heldAnnounces
      = (holdAnnounce entry.announcePacket.destinationHash s).heldAnnounces :=
    (cullAnnounceTable_fewer env _).heldAnnounces
  rw [hwaiting.heldAnnounces, hadded]
  unfold holdAnnounce
  rw [hwaits]
  exact emplace_lookup _ _ _

/-! ## An announce that was held -/

/-- Where the job sends the entry in whose place an announce is held, the lines that would put it back read a key
that has been erased. -/
theorem held_not_put_back {r : Retransmissions} (hgoing : r.aborted = false) (h : Serves env d e s u)
    (hheld : d ∈ s.heldAnnounces) : reinsertThrough env d u = none ∧ ¬ RoundDefined env r d s := by
  have hundefined : ¬ RoundDefined env r d s := fun hdefined => roundDefined_iff.mp hdefined hgoing e u h hheld
  refine ⟨?_, hundefined⟩
  obtain ⟨found, hrecall⟩ := h.recalled
  have hsame := @identityRecall_waiting env e.packet.destinationHash (countedSent env d s)
  rw [hrecall] at hsame
  have hheld' : d ∈ u.heldAnnounces := by
    rw [hsame.heldAnnounces]
    exact hheld
  exact reinsertThrough_of_held hheld'

/-- The newest word on a destination is the one that waits in the table, whatever is in it: of an announce that is
accepted for retransmission and of an answer to a path request exactly if no other entry of the destination waits
and the cull spares the new one. What waited is held exactly if nothing else was held before. It is never put back
behind the answer: the round that sends the entry of a destination of which an announce is held is not defined, and
a job of which every round is defined leaves what is held as it is. -/
theorem newest_word_iff (env : Environment) (s : TransportState) :
    (∀ p i identity, Validates env → HandlersSpare SameWaiting env → AcceptedFor env p i s →
        ((handleAnnounce env p i identity s).2.announceTable.lookup p.destinationHash
            = some (announceEntry env p (isLocalClientInterface i))
          ↔ Free p.destinationHash (announceEntry env p (isLocalClientInterface i)) (echoed env p s)
            ∧ Spared env p.destinationHash ((echoed env p s).announceTable.emplace p.destinationHash
              (announceEntry env p (isLocalClientInterface i)))))
      ∧ (∀ calls r entry, CallsSpare calls → answeredWith env r s = some entry →
        ((pathRequest env calls r s).2.announceTable.lookup entry.announcePacket.destinationHash
            = some (answerEntry env.now r entry)
          ↔ Free entry.announcePacket.destinationHash (answerEntry env.now r entry) s
            ∧ Spared env entry.announcePacket.destinationHash
              (s.announceTable.emplace entry.announcePacket.destinationHash (answerEntry env.now r entry)))
        ∧ ∀ e, s.announceTable.lookup entry.announcePacket.destinationHash = some e →
          ((pathRequest env calls r s).2.heldAnnounces.lookup entry.announcePacket.destinationHash = some e
            ↔ ∀ held, s.heldAnnounces.lookup entry.announcePacket.destinationHash = some held → held = e))
      ∧ (∀ r d e u, r.aborted = false → Serves env d e s u → d ∈ s.heldAnnounces →
        reinsertThrough env d u = none ∧ ¬ RoundDefined env r d s)
      ∧ (JobDefined env s → (announceJob env s).2.heldAnnounces = s.heldAnnounces) :=
  ⟨fun _ _ identity henv hhandlers haccepted => announce_waits henv hhandlers identity haccepted,
    fun _ _ _ hcalls hanswer => ⟨answer_waits hcalls hanswer, fun _ => waiting_held hcalls hanswer⟩,
    fun _ _ _ _ hgoing hserves hheld => held_not_put_back hgoing hserves hheld, announceJob_held⟩

set_option maxRecDepth 8000 in
/-- The first announce of a destination waits in the table. -/
theorem first_announce_waits :
    (handleAnnounce Sample.relaying Sample.neighbours { id := 1 } (.fill 3) Sample.listening).2.announceTable.lookup
      Sample.neighbours.destinationHash = some (announceEntry Sample.relaying Sample.neighbours false) := by
  have haccepted : AcceptedFor Sample.relaying Sample.neighbours { id := 1 } Sample.listening := by
    have hjudged : (judgeAnnounce Sample.relaying Sample.neighbours Sample.listening).1 = .value (some []) := by
      decide +kernel
    exact ⟨[], _, false, _, Prod.ext hjudged rfl, rfl, rfl⟩
  have hnone : ¬ Echoes Sample.relaying Sample.neighbours Sample.listening := fun hechoes =>
    absurd hechoes.2.2.1 (by decide)
  have hiff := (newest_word_iff Sample.relaying Sample.listening).1 Sample.neighbours { id := 1 } (.fill 3)
    (fun _ => rfl) (fun handler hmem => by cases hmem) haccepted
  apply hiff.mpr
  unfold echoed
  rw [if_neg hnone]
  exact ⟨fun e' he' => (by cases he'), .inl (by decide +kernel)⟩

set_option maxRecDepth 8000 in
/-- A path is asked for while the announce it is known from waits to be passed on: the answer does not come into the
table. -/
theorem answer_shadowed_by_announce : ¬ ∀ (d : Address) (x : Bytes) (w : Watched), w.Reached d x →
    ∀ env calls r entry, CallsSpare calls → answeredWith env r w.1 = some entry →
      (pathRequest env calls r w.1).2.announceTable.lookup entry.announcePacket.destinationHash
        = some (answerEntry env.now r entry) := by
  intro h
  have hreached : Sample.accepting.Reached (.fill 0) (relayedData Sample.neighbours) :=
    ⟨(Sample.listening, {}), ⟨rfl, rfl, rfl⟩, .single ⟨_, Sample.accepting_step⟩⟩
  obtain ⟨entry, hanswer, hdest⟩ : ∃ entry, answeredWith Sample.relaying Sample.asks Sample.accepting.1 = some entry
      ∧ entry.announcePacket.destinationHash = .fill 0 := by
    have hknown : (answeredWith Sample.relaying Sample.asks Sample.accepting.1).map
        (fun entry => entry.announcePacket.destinationHash) = some (.fill 0) := by decide +kernel
    exact Option.map_eq_some_iff.mp hknown
  have hwaits := h _ _ _ hreached Sample.relaying Sample.noCalls Sample.asks entry
    ⟨fun _ _ => .refl _, fun _ _ _ => .refl _⟩ hanswer
  have hother : ((pathRequest Sample.relaying Sample.noCalls Sample.asks Sample.accepting.1).2.announceTable.lookup
      (.fill 0)).map AnnounceEntry.blockRebroadcasts = some false := by decide +kernel
  rw [hdest] at hwaits
  rw [hwaits] at hother
  cases hother

end MicroReticulum.Announce
