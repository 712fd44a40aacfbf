import MicroReticulum.Library.Retries
import MicroReticulum.Announce.Blackhole

/-!
# The slot of a destination

The announce table and the held announces together are one slot for each destination: a copy of an announce waits
in the announce table, and a path request may put a copy of it aside. Everything that touches the two tables is a
run of the slot. Announces enter, path requests ask, the announce job serves; a rebroadcast that is heard, the cull
of the table and the end of the job lose what waits.

The slot counts copies and not time, so nothing is said of when a copy is served.
-/

namespace MicroReticulum.Announce

open MicroReticulum Packet Link Library Transport

variable {env : Environment} {d : Address} {s t u : TransportState}

/-! ## Slots -/

/-- The payload of an announce, as the node passes it on. -/
def relayedData (p : Packet) : Bytes := p.data.left reticulumMdu

/-- How often a node retransmits an announce, `PATHFINDER_R + 1` times. -/
def retransmissions : Nat := pathfinderR.toNat + 1

/-- How often an entry will still be sent. -/
def entryCopy (e : AnnounceEntry) : Copy Bytes where
  item := relayedData e.packet
  left := retransmissions - e.retries.toNat

/-- What waits for a destination in the announce table and among the held announces. -/
def announceSlot (d : Address) (s : TransportState) : Slot Bytes where
  waiting := (s.announceTable.lookup d).map entryCopy
  aside := (s.heldAnnounces.lookup d).map entryCopy

/-- An entry is finished exactly if its copy has no sending left. -/
theorem finished_iff (e : AnnounceEntry) : e.finished = true ↔ (entryCopy e).left = 0 := by
  unfold AnnounceEntry.finished entryCopy retransmissions
  have hlimit : localRebroadcastsMax.toNat = 2 := rfl
  have hretries : pathfinderR.toNat = 1 := rfl
  simp only [Bool.or_eq_true, Bool.and_eq_true, decide_eq_true_eq, UInt8.lt_iff_toNat_lt, UInt8.le_iff_toNat_le,
    hlimit, hretries, UInt8.toNat_zero]
  omega

/-- An entry of the announce table and of the held announces is of the destination it is filed under. -/
structure Filed (s : TransportState) : Prop where
  waiting : TableAll (fun d e => e.packet.destinationHash = d) s.announceTable
  held : TableAll (fun d e => e.packet.destinationHash = d) s.heldAnnounces

/-- The two tables are as they were. -/
structure SameWaiting (s t : TransportState) : Prop where
  announceTable : t.announceTable = s.announceTable
  heldAnnounces : t.heldAnnounces = s.heldAnnounces

namespace SameWaiting

theorem refl (s : TransportState) : SameWaiting s s := ⟨rfl, rfl⟩

theorem trans (s t u : TransportState) (h : SameWaiting s t) (h' : SameWaiting t u) : SameWaiting s u :=
  ⟨h'.announceTable.trans h.announceTable, h'.heldAnnounces.trans h.heldAnnounces⟩

/-- With all tables the same the same entries wait. -/
theorem of_tables (s t : TransportState) (h : SameTables s t) : SameWaiting s t := ⟨h.announceTable, h.heldAnnounces⟩

/-- The slot of a destination is read from the two tables. -/
theorem slot (h : SameWaiting s t) (d : Address) : announceSlot d t = announceSlot d s := by
  unfold announceSlot
  rw [h.announceTable, h.heldAnnounces]

/-- That entries are filed under their own destinations is read from the two tables. -/
theorem filed (h : SameWaiting s t) (hs : Filed s) : Filed t :=
  ⟨h.announceTable ▸ hs.waiting, h.heldAnnounces ▸ hs.held⟩

end SameWaiting

/-! ## Losses -/

/-- Nothing but losses. -/
def Losses (es : List (SlotEvent Bytes)) : Prop := ∀ e ∈ es, e = .loses

theorem Losses.nil : Losses [] := by
  intro e he
  cases he

/-- Losses are none of the other events. -/
theorem Losses.count {es : List (SlotEvent Bytes)} (h : Losses es) {e : SlotEvent Bytes} (he : e ≠ .loses) :
    es.count e = 0 := by
  apply List.count_eq_zero.mpr
  intro hmem
  exact he (h e hmem)

/-- The announce table loses entries, and nothing else happens to it and to the held announces. -/
structure Fewer (s t : TransportState) : Prop where
  lookup : ∀ d e, t.announceTable.lookup d = some e → s.announceTable.lookup d = some e
  heldAnnounces : t.heldAnnounces = s.heldAnnounces

/-- Where entries only go missing, the slot of every destination has run over losses. -/
theorem Fewer.run (h : Fewer s t) (d : Address) :
    ∃ es, Slot.Run retransmissions (announceSlot d s) es (announceSlot d t) ∧ Losses es := by
  have haside : (announceSlot d t).aside = (announceSlot d s).aside := by
    unfold announceSlot
    rw [h.heldAnnounces]
  cases hafter : t.announceTable.lookup d with
  | some e =>
    have hbefore := h.lookup d e hafter
    have hsame : announceSlot d t = announceSlot d s := by
      unfold announceSlot
      rw [hafter, hbefore, h.heldAnnounces]
    exact ⟨[], hsame ▸ .refl _, .nil⟩
  | none =>
    cases hbefore : s.announceTable.lookup d with
    | none =>
      have hsame : announceSlot d t = announceSlot d s := by
        unfold announceSlot
        rw [hafter, hbefore, h.heldAnnounces]
      exact ⟨[], hsame ▸ .refl _, .nil⟩
    | some e =>
      have hs : announceSlot d s = ⟨some (entryCopy e), (announceSlot d s).aside⟩ := by
        unfold announceSlot
        rw [hbefore]
        rfl
      have ht : announceSlot d t = ⟨none, (announceSlot d s).aside⟩ := by
        rw [← haside]
        unfold announceSlot
        rw [hafter]
        rfl
      refine ⟨[.loses], ?_, fun e' he' => List.mem_singleton.mp he'⟩
      rw [hs, ht]
      exact .single (.loses _ _)

/-- The entries that are left are filed as they were. -/
theorem Fewer.filed (h : Fewer s t) (hs : Filed s) : Filed t where
  waiting d e he := hs.waiting d e (h.lookup d e he)
  held := h.heldAnnounces ▸ hs.held

/-- What is found in a table without one entry is found in the table. -/
theorem lookup_of_erase {V : Type} {table : Table V} {k d : Address} {v : V}
    (h : (table.erase k).lookup d = some v) : table.lookup d = some v := by
  by_cases hd : d = k
  · subst hd
    rw [AList.lookup_erase] at h
    cases h
  · rw [AList.lookup_erase_ne hd] at h
    exact h

/-- What is found in a table without some entries is found in the table. -/
theorem lookup_of_eraseAll {V : Type} {ks : List Address} {table : Table V} {d : Address} {v : V}
    (h : (table.eraseAll ks).lookup d = some v) : table.lookup d = some v := by
  unfold Table.eraseAll at h
  induction ks generalizing table with
  | nil => exact h
  | cons k ks ih => exact lookup_of_erase (ih h)

theorem cullOldest_lookup {limit : Nat} {ks : List Address} {table : Table AnnounceEntry} {e : AnnounceEntry}
    (h : (cullOldest limit ks table).lookup d = some e) : table.lookup d = some e := by
  induction ks generalizing table with
  | nil => exact h
  | cons k ks ih =>
    unfold cullOldest at h
    dsimp only at h
    split at h
    · exact lookup_of_erase h
    · exact lookup_of_erase (ih h)

/-- Removing an entry from the announce table only makes entries go missing. -/
theorem erase_fewer (d : Address) (s : TransportState) :
    Fewer s { s with announceTable := s.announceTable.erase d } :=
  ⟨fun _ _ he => lookup_of_erase he, rfl⟩

/-- The cull only makes entries go missing, whichever it takes. -/
theorem cullAnnounceTable_fewer (env : Environment) (s : TransportState) : Fewer s (cullAnnounceTable env s) := by
  unfold cullAnnounceTable
  split
  · exact ⟨fun d e he => cullOldest_lookup he, rfl⟩
  · exact ⟨fun _ _ he => he, rfl⟩

/-! ## An announce that comes in -/

/-- An announce is heard as the rebroadcast of one that waits. -/
def Echoes (env : Environment) (p : Packet) (s : TransportState) : Prop :=
  p.destinationHash ∉ s.destinations ∧ (callHandler (env.validateAnnounce p) s).1 = .value true
    ∧ p.transportId.isSome ∧ env.transportEnabled = true

open Classical in
/-- The state behind the rebroadcast that was heard. -/
noncomputable def echoed (env : Environment) (p : Packet) (s : TransportState) : TransportState :=
  if Echoes env p s then hearRebroadcast env.now p s else s

/-- What is heard of a rebroadcast is counted, or ends the waiting. -/
theorem hearRebroadcast_run (now : ℚ) (p : Packet) (s : TransportState) (hs : Filed s) (d : Address) :
    Filed (hearRebroadcast now p s)
      ∧ ∃ es, Slot.Run retransmissions (announceSlot d s) es (announceSlot d (hearRebroadcast now p s))
        ∧ Losses es := by
  have hsame : ∀ e, s.announceTable.lookup p.destinationHash = some e → ∀ n,
      announceSlot d { s with announceTable := s.announceTable.adjust p.destinationHash fun e =>
        { e with localRebroadcasts := e.localRebroadcasts + n } } = announceSlot d s := by
    intro e he n
    unfold announceSlot Table.adjust
    rw [he]
    dsimp only
    by_cases hd : d = p.destinationHash
    · subst hd
      rw [AList.lookup_insert, he]
      rfl
    · rw [AList.lookup_insert_ne hd]
  unfold hearRebroadcast
  split
  case h_1 => exact ⟨hs, [], .refl _, .nil⟩
  case h_2 entry hentry =>
    split
    · have hfewer := erase_fewer p.destinationHash s
      exact ⟨hfewer.filed hs, hfewer.run d⟩
    · split
      · refine ⟨⟨TableAll.adjust hs.waiting _ fun _ h => h, hs.held⟩, [], ?_, .nil⟩
        rw [hsame entry hentry 1]
        exact .refl _
      · exact ⟨hs, [], .refl _, .nil⟩

/-- The state with an entry in the announce table, where there was none. -/
def withEntry (e : AnnounceEntry) (s : TransportState) : TransportState :=
  { s with announceTable := s.announceTable.emplace e.packet.destinationHash e }

/-- An announce that is put into the table enters its slot, if nothing waits there. -/
theorem addAnnounceEntry_run (env : Environment) (s : TransportState) (hs : Filed s) (e : AnnounceEntry)
    (d : Address) :
    Filed (addAnnounceEntry env e.packet.destinationHash e s)
      ∧ ∃ es, Slot.Run retransmissions (announceSlot d s) es
          (announceSlot d (addAnnounceEntry env e.packet.destinationHash e s))
        ∧ ∃ es', (es = es' ∨ es = .enters (relayedData e.packet) :: es' ∧ e.packet.destinationHash = d)
          ∧ Losses es' := by
  have hcull : Fewer (withEntry e s) (addAnnounceEntry env e.packet.destinationHash e s) :=
    cullAnnounceTable_fewer env _
  have hfiled : Filed (withEntry e s) := ⟨TableAll.emplace hs.waiting rfl, hs.held⟩
  obtain ⟨es, hrun, hlosses⟩ := hcull.run d
  refine ⟨hcull.filed hfiled, ?_⟩
  by_cases henters : e.packet.destinationHash = d ∧ e.packet.destinationHash ∉ s.announceTable
  case neg =>
    have hsame : announceSlot d (withEntry e s) = announceSlot d s := by
      unfold announceSlot withEntry Table.emplace
      dsimp only
      split
      · rfl
      · next hfree =>
        have hd : d ≠ e.packet.destinationHash := fun hd => henters ⟨hd.symm, hfree⟩
        rw [AList.lookup_insert_ne hd]
    rw [hsame] at hrun
    exact ⟨es, hrun, es, .inl rfl, hlosses⟩
  case pos =>
    obtain ⟨rfl, hfree⟩ := henters
    have hbefore : announceSlot e.packet.destinationHash s
        = ⟨none, (announceSlot e.packet.destinationHash s).aside⟩ := by
      unfold announceSlot
      rw [AList.lookup_eq_none.mpr hfree]
      rfl
    have hafter : announceSlot e.packet.destinationHash (withEntry e s)
        = ⟨some (entryCopy e), (announceSlot e.packet.destinationHash s).aside⟩ := by
      unfold announceSlot withEntry Table.emplace
      rw [if_neg hfree, AList.lookup_insert]
      rfl
    have hstep : Slot.Step retransmissions (announceSlot e.packet.destinationHash s)
        (.enters (relayedData e.packet)) (announceSlot e.packet.destinationHash (withEntry e s)) := by
      rw [hbefore, hafter]
      exact .enters (entryCopy e) _ (Nat.sub_le _ _)
    exact ⟨_, .step hstep hrun, es, .inr ⟨rfl, rfl⟩, hlosses⟩

/-- Hearing a rebroadcast does the same to the same entries. -/
theorem hearRebroadcast_congr (h : SameWaiting s t) (now : ℚ) (p : Packet) :
    SameWaiting (hearRebroadcast now p s) (hearRebroadcast now p t) := by
  obtain ⟨hwaiting, hheld⟩ := h
  unfold hearRebroadcast
  rw [hwaiting]
  split
  · exact ⟨hwaiting, hheld⟩
  · split
    · exact ⟨rfl, hheld⟩
    · split
      · exact ⟨rfl, hheld⟩
      · exact ⟨hwaiting, hheld⟩

/-- Adding an entry does the same to the same entries, the cull included. -/
theorem addAnnounceEntry_congr (h : SameWaiting s t) (d : Address) (e : AnnounceEntry) :
    SameWaiting (addAnnounceEntry env d e s) (addAnnounceEntry env d e t) := by
  obtain ⟨hwaiting, hheld⟩ := h
  unfold addAnnounceEntry cullAnnounceTable
  dsimp only
  rw [hwaiting]
  split
  · exact ⟨rfl, hheld⟩
  · exact ⟨rfl, hheld⟩

theorem identityRecall_waiting (d : Address) : Prog.Keeps SameWaiting (identityRecall env d) :=
  identityRecall_keeps SameWaiting.refl SameWaiting.trans (fun _ _ => ⟨rfl, rfl⟩) d

theorem markPath_waiting (state : PathState) (d : Address) (s : TransportState) :
    SameWaiting s (markPath state d s) := by
  unfold markPath
  split
  · exact ⟨rfl, rfl⟩
  · exact ⟨rfl, rfl⟩

theorem storePath_waiting (env : Environment) (p : Packet) (i : Interface) (blobs : List Bytes) :
    Prog.Keeps SameWaiting (storePath env p i blobs) :=
  storePath_keeps SameWaiting.refl SameWaiting.trans (fun _ _ _ => ⟨rfl, rfl⟩) (markPath_waiting .unknown) p i blobs

/-- The decision about an announce touches the tables only by hearing a rebroadcast. -/
theorem judgeAnnounce_waiting (henv : Validates env) (p : Packet) (s : TransportState) :
    SameWaiting (echoed env p s) (judgeAnnounce env p s).2 := by
  have hvalidate : SameWaiting s (callHandler (env.validateAnnounce p) s).2 :=
    validateHandler_keeps henv
      (validateAnnounce_keeps SameWaiting.refl SameWaiting.trans (fun _ _ => ⟨rfl, rfl⟩) p false) s
  unfold judgeAnnounce
  rw [Prog.get_bind_run]
  split
  case isTrue hown =>
    unfold echoed
    rw [if_neg fun hechoes => hechoes.1 hown]
    exact .refl s
  case isFalse hown =>
    rcases hrun : callHandler (env.validateAnnounce p) s with ⟨valid | _ | _ | _, u⟩ <;> rw [hrun] at hvalidate
    case value =>
      rw [Prog.bind_value hrun]
      cases valid with
      | false =>
        unfold echoed
        rw [if_neg]
        · exact hvalidate
        · rintro ⟨-, hyes, -⟩
          rw [hrun] at hyes
          cases hyes
      | true =>
        rw [if_neg (by decide)]
        have hechoed : SameWaiting (echoed env p s)
            (Prog.when (p.transportId.isSome ∧ env.transportEnabled = true)
              (Prog.modify (hearRebroadcast env.now p)) u : Outcome String Unit × TransportState).2 := by
          unfold echoed
          obtain ⟨hhears, hwhen⟩ | ⟨hhears, hwhen⟩ := Prog.when_run_cases
            (p.transportId.isSome ∧ env.transportEnabled = true)
            (Prog.modify (hearRebroadcast env.now p) : Prog String TransportState Unit) u
          · rw [hwhen, if_pos ⟨hown, by rw [hrun], hhears⟩]
            exact hearRebroadcast_congr hvalidate env.now p
          · rw [hwhen, if_neg fun hechoes => hhears hechoes.2.2]
            exact hvalidate
        apply SameWaiting.trans _ _ _ hechoed
        apply Prog.Keeps.after SameWaiting.refl
        intro _
        apply Prog.Keeps.bind SameWaiting.trans (.get SameWaiting.refl)
        intro v
        split
        · exact .pure SameWaiting.refl _
        · exact .bind SameWaiting.trans
            (shouldAddPath_keeps SameWaiting.refl SameWaiting.trans (markPath_waiting .unknown) _ p) fun _ =>
              .bind SameWaiting.trans
                (blackholeAllows_keeps SameWaiting.refl SameWaiting.trans (identityRecall_waiting _) _) fun _ =>
                  .pure SameWaiting.refl _
    all_goals
      have hnot : ¬ Echoes env p s := by
        rintro ⟨-, hyes, -⟩
        rw [hrun] at hyes
        cases hyes
      unfold echoed
      rw [if_neg hnot, Prog.bind_run, hrun]
      exact hvalidate

/-- Answering a waiting request sends a packet and leaves the waiting entries as they are. -/
theorem answerWaiting_waiting (p : Packet) (i : Interface) (identity : Address) :
    Prog.Keeps SameWaiting (answerWaiting env p i identity) :=
  answerWaiting_keeps SameWaiting.refl SameWaiting.trans SameWaiting.of_tables (identityRecall_waiting _) i identity

/-- Behind the answers, an accepted announce does not touch the tables. -/
theorem storeAndCall_waiting (hhandlers : HandlersSpare SameWaiting env) (p : Packet) (i : Interface)
    (blobs : List Bytes) :
    Prog.Keeps SameWaiting (storePath env p i blobs >>= fun _ => callAnnounceHandlers env p) := by
  apply Prog.Keeps.bind SameWaiting.trans (storePath_waiting env p i blobs)
  intro _
  exact callAnnounceHandlers_keeps SameWaiting.refl SameWaiting.trans (identityRecall_waiting _) hhandlers

/-- What follows from accepting an announce puts it into the table, or does not touch the tables. -/
theorem prepareAnnounce_waiting (p : Packet) (i : Interface) (identity : Address) (s : TransportState) :
    SameWaiting s (prepareAnnounce env p i identity s).2
      ∨ ∃ first, SameWaiting (addAnnounceEntry env p.destinationHash (announceEntry env p first) s)
        (prepareAnnounce env p i identity s).2 := by
  have hschedule : ∀ blocked t, SameWaiting t (scheduleAnnounce env p i blocked t).2
      ∨ ∃ first, SameWaiting (addAnnounceEntry env p.destinationHash (announceEntry env p first) t)
        (scheduleAnnounce env p i blocked t).2 := by
    intro blocked t
    unfold scheduleAnnounce
    rw [Prog.get_bind_run]
    split
    · obtain ⟨-, hrun⟩ | ⟨-, hrun⟩ := Prog.when_run_cases (blocked = false) _ t
      · rw [hrun]
        exact .inr ⟨_, .refl _⟩
      · rw [hrun]
        exact .inl (.refl _)
    · obtain ⟨-, hrun⟩ | ⟨-, hrun⟩ := Prog.when_run_cases (isLocalClientInterface i = true
        ∧ p.context = ContextType.pathResponse ∧ p.destinationHash ∈ t.pendingLocalPathRequests) _ t
      · have hpending : SameWaiting t { t with
            pendingLocalPathRequests := t.pendingLocalPathRequests.erase p.destinationHash } := ⟨rfl, rfl⟩
        rw [hrun]
        exact .inr ⟨true, addAnnounceEntry_congr hpending _ _⟩
      · rw [hrun]
        exact .inl (.refl _)
  have hrate := rateBlocked_keeps (R := SameWaiting) SameWaiting.refl SameWaiting.trans (fun _ _ => ⟨rfl, rfl⟩)
    env.now p i s
  unfold prepareAnnounce
  rw [Prog.bind_run]
  rcases hblocked : rateBlocked env.now p i s with ⟨blocked | _ | _ | _, t⟩ <;> rw [hblocked] at hrate
  case value =>
    dsimp only
    have hrest := Prog.Keeps.after SameWaiting.refl (scheduleAnnounce env p i blocked)
      (fun _ => @answerWaiting_waiting env p i identity) t
    rcases hschedule blocked t with hsame | ⟨first, hadds⟩
    · exact .inl (.trans _ _ _ (.trans _ _ _ hrate hsame) hrest)
    · exact .inr ⟨first, .trans _ _ _ (.trans _ _ _ (addAnnounceEntry_congr hrate _ _) hadds) hrest⟩
  all_goals exact .inl hrate

/-- An announce that comes in is heard as a rebroadcast, and is put into the table if it is accepted. -/
theorem handleAnnounce_waiting (henv : Validates env) (hhandlers : HandlersSpare SameWaiting env) (p : Packet)
    (i : Interface) (identity : Address) (s : TransportState) :
    SameWaiting (echoed env p s) (handleAnnounce env p i identity s).2
      ∨ (∃ blobs, (judgeAnnounce env p s).1 = .value (some blobs))
        ∧ ∃ first, SameWaiting (addAnnounceEntry env p.destinationHash (announceEntry env p first) (echoed env p s))
          (handleAnnounce env p i identity s).2 := by
  have hjudged := judgeAnnounce_waiting henv p s
  rw [handleAnnounce_eq, Prog.bind_run]
  rcases hrun : judgeAnnounce env p s with ⟨decision | _ | _ | _, t⟩ <;> rw [hrun] at hjudged
  case value =>
    cases decision with
    | none => exact .inl hjudged
    | some blobs =>
      dsimp only
      rw [acceptAnnounce_eq]
      have hrest := Prog.Keeps.after SameWaiting.refl (prepareAnnounce env p i identity)
        (fun _ => storeAndCall_waiting hhandlers p i blobs) t
      rcases @prepareAnnounce_waiting env p i identity t with hsame | ⟨first, hadds⟩
      · exact .inl (.trans _ _ _ hjudged (.trans _ _ _ hsame hrest))
      · exact .inr ⟨⟨blobs, rfl⟩, first,
          .trans _ _ _ (addAnnounceEntry_congr hjudged _ _) (.trans _ _ _ hadds hrest)⟩
  all_goals exact .inl hjudged

/-! ## A path request -/

/-- The announce a path request is answered with. -/
def answeredWith (env : Environment) (r : PathRequest) (s : TransportState) : Option DestinationEntry :=
  if r.destinationHash ∈ s.destinations then none
  else
    (if env.transportEnabled || r.isFromLocalClient then getPath s r.destinationHash else none).filter fun entry =>
      !pathIsUnresponsive s r.destinationHash && !withholdsPath r entry

/-- The state behind the answer, which the job will send. -/
def answered (env : Environment) (r : PathRequest) (entry : DestinationEntry) (s : TransportState) : TransportState :=
  addAnnounceEntry env entry.announcePacket.destinationHash (answerEntry env.now r entry)
    (holdAnnounce entry.announcePacket.destinationHash s)

/-- What is assumed of the code that `path_request` calls. -/
def CallsSpare (calls : PathRequestCalls) : Prop :=
  (∀ d s, SameWaiting s (calls.announceLocal d s).2) ∧ ∀ d i s, SameWaiting s (calls.requestPath d i s).2

/-- Holding an announce back does the same to the same entries. -/
theorem holdAnnounce_congr (h : SameWaiting s t) (d : Address) : SameWaiting (holdAnnounce d s) (holdAnnounce d t) := by
  obtain ⟨hwaiting, hheld⟩ := h
  unfold holdAnnounce
  rw [hwaiting]
  split
  · exact ⟨hwaiting, hheld⟩
  · exact ⟨rfl, by dsimp only; rw [hheld]⟩

theorem notePendingLocal_waiting (r : PathRequest) (entry : Option DestinationEntry) (s : TransportState) :
    SameWaiting s (notePendingLocal r entry s) := by
  unfold notePendingLocal
  split
  · exact ⟨rfl, rfl⟩
  · exact ⟨rfl, rfl⟩

/-- Whether a known path is answered with depends on the paths, so the same entries are put in. -/
theorem answerKnownPath_waiting (h : SameWaiting s t) (r : PathRequest) (entry : DestinationEntry) :
    SameWaiting (match if (!pathIsUnresponsive t r.destinationHash && !withholdsPath r entry) = true
        then some entry else none with
      | some entry => answered env r entry s
      | none => s) (answerKnownPath env r entry t).2 := by
  unfold answerKnownPath
  rw [Prog.get_bind_run]
  obtain ⟨⟨hresponsive, htold⟩, hrun⟩ | ⟨hnot, hrun⟩ := Prog.when_run_cases
    (pathIsUnresponsive t r.destinationHash = false ∧ withholdsPath r entry = false) _ t
  · rw [hrun, hresponsive, htold]
    exact addAnnounceEntry_congr (holdAnnounce_congr h _) _ _
  · rw [hrun, if_neg]
    · exact h
    · simp only [Bool.and_eq_true, Bool.not_eq_true']
      exact hnot

/-- A path request is answered, or does not touch the tables. -/
theorem pathRequest_waiting {calls : PathRequestCalls} (hcalls : CallsSpare calls) (r : PathRequest)
    (s : TransportState) :
    SameWaiting (match answeredWith env r s with
      | some entry => answered env r entry s
      | none => s) (pathRequest env calls r s).2 := by
  obtain ⟨noted, hnoted⟩ : ∃ u, u = notePendingLocal r (getPath s r.destinationHash) s := ⟨_, rfl⟩
  have hsame : SameWaiting s noted := hnoted ▸ notePendingLocal_waiting r _ s
  have hfields : noted.destinations = s.destinations
      ∧ pathIsUnresponsive noted r.destinationHash = pathIsUnresponsive s r.destinationHash := by
    rw [hnoted]
    unfold notePendingLocal
    split
    · exact ⟨rfl, rfl⟩
    · exact ⟨rfl, rfl⟩
  have hrequests : ∀ is : List Interface, Prog.Keeps SameWaiting (Prog.forEach is fun i =>
      callHandler (calls.requestPath r.destinationHash i)) := fun is =>
    .forEach SameWaiting.refl SameWaiting.trans _ fun i _ => callHandler_keeps fun t => hcalls.2 _ i t
  unfold pathRequest answeredWith
  rw [Prog.get_bind_run, Prog.modify_bind_run, ← hnoted, Prog.get_bind_run, hfields.1]
  by_cases hlocal : r.destinationHash ∈ s.destinations
  case pos =>
    rw [if_pos hlocal, if_pos hlocal]
    exact .trans _ _ _ hsame (callHandler_keeps (fun t => hcalls.1 _ t) noted)
  case neg =>
    rw [if_neg hlocal, if_neg hlocal]
    generalize (if (env.transportEnabled || r.isFromLocalClient) = true then getPath s r.destinationHash else none)
      = known
    cases known with
    | some entry =>
      rw [Option.filter_some, ← hfields.2]
      exact answerKnownPath_waiting hsame r entry
    | none =>
      apply SameWaiting.trans _ _ _ hsame
      dsimp only
      split
      · exact hrequests _ noted
      · split
        · apply Prog.Keeps.when SameWaiting.refl
          intro _
          exact .bind SameWaiting.trans (.modify fun _ => ⟨rfl, rfl⟩) fun _ => hrequests _
        · exact hrequests _ noted

theorem holdAnnounce_filed (hs : Filed s) (d : Address) : Filed (holdAnnounce d s) := by
  unfold holdAnnounce
  cases hwaiting : s.announceTable.lookup d with
  | none => exact hs
  | some e => exact ⟨hs.waiting, TableAll.emplace hs.held (hs.waiting d e hwaiting)⟩

/-- The answer to a path request is an ask of the slot: it waits itself where nothing waits, and otherwise a copy of
what waits is put aside. -/
theorem answered_asks (s : TransportState) (e : AnnounceEntry) (hleft : (entryCopy e).left ≤ 1) :
    Slot.Step retransmissions (announceSlot e.packet.destinationHash s) .asks
      (announceSlot e.packet.destinationHash (withEntry e (holdAnnounce e.packet.destinationHash s))) := by
  unfold announceSlot withEntry holdAnnounce Table.emplace
  cases hwaiting : s.announceTable.lookup e.packet.destinationHash with
  | none =>
    rw [if_neg (AList.lookup_eq_none.mp hwaiting), AList.lookup_insert]
    exact .answers (entryCopy e) _ hleft
  | some waiting =>
    have hmem : e.packet.destinationHash ∈ s.announceTable := AList.lookup_isSome.mp (by rw [hwaiting]; rfl)
    dsimp only
    rw [if_pos hmem, hwaiting]
    cases hheld : s.heldAnnounces.lookup e.packet.destinationHash with
    | none =>
      rw [if_neg (AList.lookup_eq_none.mp hheld), AList.lookup_insert]
      exact .keeps (entryCopy waiting)
    | some held =>
      rw [if_pos (AList.lookup_isSome.mp (by rw [hheld]; rfl)), hheld]
      exact .kept (entryCopy waiting) (entryCopy held)

theorem holdAnnounce_other {d' : Address} (hd : d ≠ d') (s : TransportState) :
    announceSlot d (holdAnnounce d' s) = announceSlot d s := by
  unfold announceSlot holdAnnounce Table.emplace
  split
  · rfl
  · dsimp only
    split
    · rfl
    · rw [AList.lookup_insert_ne hd]

/-- Answering a request with a known path holds the waiting entry back and puts a new one in its place. -/
theorem answered_run (env : Environment) (s : TransportState) (hs : Filed s) (r : PathRequest)
    (entry : DestinationEntry) (d : Address) :
    Filed (answered env r entry s)
      ∧ ∃ es, Slot.Run retransmissions (announceSlot d s) es (announceSlot d (answered env r entry s))
        ∧ ∃ es', (es = es' ∨ es = .asks :: es' ∧ entry.announcePacket.destinationHash = d)
          ∧ Losses es' := by
  have hfiled := holdAnnounce_filed hs entry.announcePacket.destinationHash
  obtain ⟨hfiled', es, hrun, es', hes, hlosses⟩ :=
    addAnnounceEntry_run env _ hfiled (answerEntry env.now r entry) d
  refine ⟨hfiled', ?_⟩
  by_cases hd : d = entry.announcePacket.destinationHash
  case neg =>
    have hsame : announceSlot d (holdAnnounce (answerEntry env.now r entry).packet.destinationHash s)
        = announceSlot d s := holdAnnounce_other hd s
    refine ⟨es, ?_, es', ?_, hlosses⟩
    · rw [← hsame]
      exact hrun
    · rcases hes with heq | ⟨-, heq⟩
      · exact .inl heq
      · exact absurd heq.symm hd
  case pos =>
    subst hd
    have hleft : (entryCopy (answerEntry env.now r entry)).left ≤ 1 := by
      show retransmissions - pathfinderR.toNat ≤ 1
      decide
    have hasks := answered_asks s (answerEntry env.now r entry) hleft
    have hcull : Fewer (withEntry (answerEntry env.now r entry)
        (holdAnnounce entry.announcePacket.destinationHash s)) (answered env r entry s) :=
      cullAnnounceTable_fewer env _
    obtain ⟨es, hrun, hlosses⟩ := hcull.run entry.announcePacket.destinationHash
    exact ⟨_, .step hasks hrun, es, .inr ⟨rfl, rfl⟩, hlosses⟩

end MicroReticulum.Announce
