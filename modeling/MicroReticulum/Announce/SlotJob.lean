import MicroReticulum.Announce.Slot

/-!
# The slot of a destination under the announce job

The job goes through the keys of the announce table. A round for another destination leaves a slot alone, but for
the cull that follows when a held announce comes back; the round for the destination itself serves the copy that
waits, or finds that it is done. What is done is lost at the end of the loop.

A round in which the source reads an erased entry is not defined, and nothing is proved of
what follows it.
-/

namespace MicroReticulum.Announce

open MicroReticulum Packet Link Library Transport

variable {env : Environment} {d : Address} {s t u : TransportState}

/-! ## The announce job -/

/-- How many of the packets a job sends are retransmissions of an announce of `d`. -/
def sentOf (d : Address) (x : Bytes) (outgoing : List NewPacket) : Nat :=
  outgoing.countP fun p => p.spec.destinationHash = d ∧ p.spec.data = x

/-- What one round of the loop can do. -/
inductive Round (env : Environment) (identity k : Address) (r : Retransmissions) (s : TransportState) :
    Retransmissions → TransportState → Prop
  | idle (hidle : r.aborted = true ∨ s.announceTable.lookup k = none
      ∨ ∃ e, s.announceTable.lookup k = some e ∧ e.finished = false) : Round env identity k r s r s
  | finishes (e : AnnounceEntry) (hentry : s.announceTable.lookup k = some e) (hfinished : e.finished = true) :
    Round env identity k r s { r with completed := k :: r.completed } s
  /-- the identity of the destination is not known any more -/
  | forgets (e : AnnounceEntry) (hentry : s.announceTable.lookup k = some e) (hfinished : e.finished = false)
    (hdue : e.retransmitTimeout < env.now) (hunknown : recalled s e.packet.destinationHash = none) :
    Round env identity k r s { r with completed := k :: r.completed } (countedSent env k s)
  /-- an exception ends the loop -/
  | fails (e : AnnounceEntry) (hentry : s.announceTable.lookup k = some e) (hfinished : e.finished = false)
    (u : TransportState) (hu : SameIdentities (countedSent env k s) u) (hwaiting : SameWaiting (countedSent env k s) u) :
    Round env identity k r s { r with aborted := true } u
  | sends (e : AnnounceEntry) (hentry : s.announceTable.lookup k = some e) (hfinished : e.finished = false)
    (u : TransportState) (hu : SameIdentities (countedSent env k s) u) (hwaiting : SameWaiting (countedSent env k s) u)
    (hgoing : r.aborted = false) (hserves : Serves env k e s u) :
    Round env identity k r s { r with outgoing := r.outgoing ++ [e.newPacket identity] } (reinsertHeld env k u)

/-- Recalling an identity always answers: neither an exception nor a wait comes out of the pass because of it. -/
theorem identityRecall_answers (d : Address) : Prog.Answers (identityRecall env d) := by
  have hremember : ∀ entry, Prog.Answers (remember env d entry) := fun entry =>
    .bind (.require _ _) fun _ => .when (.modify _)
  apply Prog.Answers.bind .get
  intro s
  split
  · exact .pure _
  · exact .bind (.when (hremember _)) fun _ => .pure _

/-- Whoever is recalled as unknown was unknown, and nothing was remembered. -/
theorem identityRecall_none {a : Address} (h : identityRecall env a s = (.value none, t)) :
    recalled s a = none ∧ t = s := by
  unfold identityRecall at h
  rw [Prog.get_bind_run] at h
  cases hrecalled : recalled s a with
  | none =>
    rw [hrecalled] at h
    cases h
    exact ⟨rfl, rfl⟩
  | some found =>
    simp only [hrecalled] at h
    obtain ⟨_, v, -, hpure⟩ := Prog.exists_of_bind_value h
    cases hpure

/-- An entry whose time has come is forgotten, or sent, or its identity cannot be remembered. -/
theorem retransmitEntry_cases (env : Environment) (identity k : Address) (e : AnnounceEntry) (r : Retransmissions)
    (s : TransportState) :
    (retransmitEntry env identity k e r s = (.value { r with completed := k :: r.completed }, countedSent env k s)
        ∧ recalled s e.packet.destinationHash = none)
      ∨ (∃ u, retransmitEntry env identity k e r s
          = (.value { r with outgoing := r.outgoing ++ [e.newPacket identity] }, reinsertHeld env k u)
        ∧ SameIdentities (countedSent env k s) u ∧ SameWaiting (countedSent env k s) u
        ∧ ∃ found, identityRecall env e.packet.destinationHash (countedSent env k s) = (.value (some found), u))
      ∨ ∃ msg u, retransmitEntry env identity k e r s = (.thrown msg, u)
        ∧ SameIdentities (countedSent env k s) u ∧ SameWaiting (countedSent env k s) u := by
  have hrun : retransmitEntry env identity k e r s
      = (identityRecall env e.packet.destinationHash >>= fun recalled =>
          recalled.elim (pure { r with completed := k :: r.completed }) fun _ => do
            Prog.modify (reinsertHeld env k)
            pure { r with outgoing := r.outgoing ++ [e.newPacket identity] }) (countedSent env k s) := by
    refine congrArg (fun rest => (identityRecall env e.packet.destinationHash >>= rest) (countedSent env k s)) ?_
    funext recalled
    cases recalled <;> rfl
  have hsame := @identityRecall_same env e.packet.destinationHash (countedSent env k s)
  have hwaiting := @identityRecall_waiting env e.packet.destinationHash (countedSent env k s)
  have hanswers := @identityRecall_answers env e.packet.destinationHash (countedSent env k s)
  rw [hrun]
  rcases hrecall : identityRecall env e.packet.destinationHash (countedSent env k s) with ⟨found | _ | msg | _, u⟩ <;>
    rw [hrecall] at hsame hwaiting hanswers
  case value =>
    rw [Prog.bind_value hrecall]
    cases found with
    | none =>
      obtain ⟨hunknown, hu⟩ := identityRecall_none hrecall
      rw [hu]
      exact .inl ⟨rfl, hunknown⟩
    | some found => exact .inr (.inl ⟨u, rfl, hsame, hwaiting, found, rfl⟩)
  case thrown =>
    rw [Prog.bind_thrown hrecall]
    exact .inr (.inr ⟨msg, u, rfl, hsame, hwaiting⟩)
  all_goals
    rcases hanswers with ⟨_, hvalue⟩ | ⟨_, hthrown⟩
    · cases hvalue
    · cases hthrown

/-- One key of the pass is one of the kinds of round, whatever state it is taken in. -/
theorem retransmitAnnounce_round (env : Environment) (identity k : Address) (r : Retransmissions)
    (s : TransportState) :
    ∃ r' t, retransmitAnnounce env identity r k s = (.value r', t) ∧ Round env identity k r s r' t := by
  unfold retransmitAnnounce
  split
  case isTrue haborted => exact ⟨r, s, rfl, .idle (.inl haborted)⟩
  case isFalse hgoing =>
    rw [Prog.get_bind_run]
    cases hentry : s.announceTable.lookup k with
    | none => exact ⟨r, s, rfl, .idle (.inr (.inl hentry))⟩
    | some e =>
      dsimp only
      split
      case isTrue hfinished => exact ⟨_, s, rfl, .finishes e hentry hfinished⟩
      case isFalse hnot =>
        have hfinished : e.finished = false := Bool.eq_false_iff.mpr hnot
        split
        case isFalse => exact ⟨r, s, rfl, .idle (.inr (.inr ⟨e, hentry, hfinished⟩))⟩
        case isTrue hdue =>
          unfold Prog.catching
          rcases retransmitEntry_cases env identity k e r s with
            ⟨hrun, hunknown⟩ | ⟨u, hrun, hsame, hwaiting, hrecalled⟩ | ⟨msg, u, hrun, hsame, hwaiting⟩
          · rw [hrun]
            exact ⟨_, _, rfl, .forgets e hentry hfinished hdue hunknown⟩
          · rw [hrun]
            exact ⟨_, _, rfl, .sends e hentry hfinished u hsame hwaiting (Bool.eq_false_iff.mpr hgoing)
              ⟨hentry, hfinished, hdue, hrecalled⟩⟩
          · rw [hrun]
            exact ⟨_, u, rfl, .fails e hentry hfinished u hsame hwaiting⟩

/-! ## Rounds -/

/-- The held announce in the place of the entry that was sent. -/
def swapped (k : Address) (held : AnnounceEntry) (s : TransportState) : TransportState :=
  { s with
    heldAnnounces := s.heldAnnounces.erase k
    announceTable := (s.announceTable.erase k).insert k held }

/-- Putting a held announce back by cases: nothing to put back, a place in the table, or a table that culls it at
once. -/
theorem reinsertHeld_eq (env : Environment) (k : Address) (s : TransportState) :
    reinsertHeld env k s = match s.heldAnnounces.lookup k with
      | none => s
      | some held => cullAnnounceTable env (swapped k held s) := rfl

theorem swapped_filed {k : Address} {held : AnnounceEntry} (hs : Filed s) (hheld : s.heldAnnounces.lookup k = some held) :
    Filed (swapped k held s) :=
  ⟨TableAll.insert (TableAll.erase hs.waiting k) (hs.held k held hheld), TableAll.erase hs.held k⟩

theorem reinsertHeld_filed (hs : Filed s) (k : Address) : Filed (reinsertHeld env k s) := by
  rw [reinsertHeld_eq]
  split
  · exact hs
  · next held hheld => exact (cullAnnounceTable_fewer env _).filed (swapped_filed hs hheld)

theorem reinsertHeld_held {k : Address} (h : d ∈ (reinsertHeld env k s).heldAnnounces) : d ∈ s.heldAnnounces := by
  rw [reinsertHeld_eq] at h
  split at h
  · exact h
  · next held hheld =>
    rw [(cullAnnounceTable_fewer env _).heldAnnounces] at h
    exact (AList.mem_erase.mp h).2

/-- For another destination a held announce that comes back can only make the cull lose something. -/
theorem reinsertHeld_other {k : Address} (hd : d ≠ k) :
    ∃ es, Slot.Run retransmissions (announceSlot d s) es (announceSlot d (reinsertHeld env k s)) ∧ Losses es := by
  rw [reinsertHeld_eq]
  split
  · exact ⟨[], .refl _, .nil⟩
  · next held hheld =>
    have hsame : announceSlot d (swapped k held s) = announceSlot d s := by
      unfold announceSlot swapped
      rw [AList.lookup_insert_ne hd, AList.lookup_erase_ne hd, AList.lookup_erase_ne hd]
    rw [← hsame]
    exact (cullAnnounceTable_fewer env (swapped k held s)).run d

/-- The entry a copy was made for has counted the try. -/
theorem countedSent_lookup {e : AnnounceEntry} (hentry : s.announceTable.lookup d = some e) :
    (countedSent env d s).announceTable.lookup d = some (e.retried env.now) := by
  unfold countedSent Table.adjust
  dsimp only
  rw [hentry]
  exact AList.lookup_insert _

theorem countedSent_other {k : Address} (hd : d ≠ k) : announceSlot d (countedSent env k s) = announceSlot d s := by
  unfold announceSlot countedSent Table.adjust
  dsimp only
  split
  · rfl
  · rw [AList.lookup_insert_ne hd]

theorem countedSent_filed (hs : Filed s) (k : Address) : Filed (countedSent env k s) :=
  ⟨TableAll.adjust hs.waiting k fun _ h => h, hs.held⟩

/-- An entry that is sent has one service less. -/
theorem entryCopy_retried {e : AnnounceEntry} {n : Nat} (hn : (entryCopy e).left = n + 1) (now : ℚ) :
    entryCopy (e.retried now) = ⟨relayedData e.packet, n⟩ := by
  have hlimit : retransmissions = 2 := rfl
  have hfew : e.retries.toNat < 2 := by
    unfold entryCopy at hn
    dsimp only at hn
    omega
  have hsucc : (e.retries + 1).toNat = e.retries.toNat + 1 := by
    rw [UInt8.toNat_add]
    have hone : (1 : UInt8).toNat = 1 := rfl
    omega
  unfold entryCopy AnnounceEntry.retried at *
  dsimp only at *
  rw [hsucc]
  congr 1
  omega

/-- An entry that is not finished has at least one try left. -/
theorem left_of_unfinished {e : AnnounceEntry} (h : e.finished = false) : ∃ n, (entryCopy e).left = n + 1 := by
  have hleft : (entryCopy e).left ≠ 0 := by
    intro hzero
    rw [(finished_iff e).mpr hzero] at h
    cases h
  exact Nat.exists_eq_succ_of_ne_zero hleft

/-- The service of the copy that waits: it stays with one service less, or the copy that was kept aside takes its
place. -/
theorem reinsertHeld_self {e : AnnounceEntry} (hentry : s.announceTable.lookup d = some e) (hfinished : e.finished = false)
    (hwaiting : SameWaiting (countedSent env d s) u) :
    ∃ es, Slot.Run retransmissions (announceSlot d s) (.serves (relayedData e.packet) :: es)
        (announceSlot d (reinsertHeld env d u)) ∧ Losses es := by
  obtain ⟨n, hn⟩ := left_of_unfinished hfinished
  have hbefore : announceSlot d s
      = ⟨some ⟨relayedData e.packet, n + 1⟩, (s.heldAnnounces.lookup d).map entryCopy⟩ := by
    unfold announceSlot
    rw [hentry, ← hn]
    rfl
  have hheld : u.heldAnnounces = s.heldAnnounces := hwaiting.heldAnnounces
  rw [hbefore, reinsertHeld_eq, hheld]
  cases hlookup : s.heldAnnounces.lookup d with
  | none =>
    have hcounted := @countedSent_lookup env d s e hentry
    have hafter : announceSlot d u = ⟨some ⟨relayedData e.packet, n⟩, none⟩ := by
      rw [hwaiting.slot]
      unfold announceSlot
      rw [hcounted, show (countedSent env d s).heldAnnounces = s.heldAnnounces from rfl, hlookup, Option.map_some,
        entryCopy_retried hn]
      rfl
    dsimp only
    rw [hafter]
    exact ⟨[], .single (.serves _ n), .nil⟩
  | some held =>
    obtain ⟨es, hrun, hlosses⟩ := (cullAnnounceTable_fewer env (swapped d held u)).run d
    have hafter : announceSlot d (swapped d held u) = ⟨some (entryCopy held), none⟩ := by
      unfold announceSlot swapped
      rw [AList.lookup_insert, AList.lookup_erase]
      rfl
    rw [hafter] at hrun
    exact ⟨es, .step (.restores _ n _) hrun, hlosses⟩

/-! ## The loop -/

/-- Events of the job, with the services of `d` that stand for what it sends. -/
structure Served (d : Address) (outgoing : List NewPacket) (es : List (SlotEvent Bytes)) : Prop where
  asks : es.count .asks = 0
  enters : ∀ x, es.count (.enters x) = 0
  serves : ∀ x, es.count (.serves x) = sentOf d x outgoing

/-- Losses after what was served take nothing back. -/
theorem Served.append {outgoing : List NewPacket} {es es' : List (SlotEvent Bytes)} (h : Served d outgoing es)
    (h' : Losses es') : Served d outgoing (es ++ es') where
  asks := by rw [List.count_append, h.asks, h'.count fun hb => by cases hb]
  enters x := by rw [List.count_append, h.enters, h'.count fun hb => by cases hb]
  serves x := by rw [List.count_append, h.serves, h'.count (fun hb => by cases hb), Nat.add_zero]

/-- The loop on its way, for one destination. -/
structure Pass (d : Address) (s₀ : TransportState) (r : Retransmissions) (s : TransportState) : Prop where
  filed : Filed s
  run : ∃ es, Slot.Run retransmissions (announceSlot d s₀) es (announceSlot d s) ∧ Served d r.outgoing es

/-- A packet for another destination adds nothing to what was sent of this one. -/
theorem sentOf_append {d' : Address} {outgoing : List NewPacket} {p : NewPacket} (hp : p.spec.destinationHash = d')
    (hd : d' ≠ d) (x : Bytes) : sentOf d x (outgoing ++ [p]) = sentOf d x outgoing := by
  unfold sentOf
  rw [List.countP_append, List.countP_singleton, if_neg, Nat.add_zero]
  rw [hp]
  simp [hd]

/-- In the middle of a pass, counting a try and rewriting the parts of the state no slot looks at keep every entry
filed. -/
theorem Pass.counted {s₀ : TransportState} {r : Retransmissions} {k : Address} (h : Pass d s₀ r s)
    (hwaiting : SameWaiting (countedSent env k s) u) : Filed u :=
  hwaiting.filed (countedSent_filed h.filed k)

/-- A round for another destination. -/
theorem Round.other {identity k : Address} {r r' : Retransmissions} {s₀ : TransportState}
    (hround : Round env identity k r s r' t) (hd : d ≠ k) (h : Pass d s₀ r s) : Pass d s₀ r' t := by
  cases hround with
  | idle => exact h
  | finishes e hentry hfinished => exact ⟨h.filed, h.run⟩
  | forgets e hentry hfinished hdue hunknown =>
    refine ⟨countedSent_filed h.filed k, ?_⟩
    rw [countedSent_other hd]
    exact h.run
  | fails e hentry hfinished u hu hwaiting =>
    refine ⟨h.counted hwaiting, ?_⟩
    rw [hwaiting.slot, countedSent_other hd]
    exact h.run
  | sends e hentry hfinished u hu hwaiting =>
    have hpacket : (e.newPacket identity).spec.destinationHash = k := h.filed.waiting k e hentry
    have hsent := @sentOf_append d k r.outgoing _ hpacket hd.symm
    obtain ⟨es, hrun, hserved⟩ := h.run
    obtain ⟨es', hrun', hlosses⟩ := @reinsertHeld_other env d u k hd
    rw [hwaiting.slot, countedSent_other hd] at hrun'
    have hserved' := hserved.append hlosses
    refine ⟨reinsertHeld_filed (h.counted hwaiting) k, es ++ es', hrun.append hrun',
      { hserved' with serves := fun x => ?_ }⟩
    rw [hserved'.serves, hsent]

/-- An entry that is counted and not sent wastes a service. -/
theorem countedSent_wastes {e : AnnounceEntry} (hentry : s.announceTable.lookup d = some e)
    (hfinished : e.finished = false) :
    Slot.Step retransmissions (announceSlot d s) .wastes (announceSlot d (countedSent env d s)) := by
  obtain ⟨n, hn⟩ := left_of_unfinished hfinished
  unfold announceSlot
  rw [countedSent_lookup hentry, hentry, Option.map_some, Option.map_some, entryCopy_retried hn,
    show entryCopy e = ⟨relayedData e.packet, n + 1⟩ by rw [← hn]; rfl]
  exact .wastes _ n _

/-- A try that is spent without a packet serves the same packets. -/
theorem Served.waste {outgoing : List NewPacket} {es : List (SlotEvent Bytes)} (h : Served d outgoing es) :
    Served d outgoing (es ++ [.wastes]) where
  asks := by rw [List.count_append, h.asks]; rfl
  enters x := by rw [List.count_append, h.enters]; rfl
  serves x := by rw [List.count_append, h.serves]; rfl

theorem Round.self {identity : Address} {r r' : Retransmissions} {s₀ : TransportState}
    (hround : Round env identity d r s r' t) (h : Pass d s₀ r s) : Pass d s₀ r' t := by
  cases hround with
  | idle => exact h
  | finishes e hentry hfinished => exact ⟨h.filed, h.run⟩
  | forgets e hentry hfinished hdue hunknown =>
    obtain ⟨es, hrun, hserved⟩ := h.run
    exact ⟨countedSent_filed h.filed d, _, hrun.append (.single (countedSent_wastes hentry hfinished)), hserved.waste⟩
  | fails e hentry hfinished u hu hwaiting =>
    obtain ⟨es, hrun, hserved⟩ := h.run
    refine ⟨h.counted hwaiting, es ++ [.wastes], ?_, hserved.waste⟩
    rw [hwaiting.slot]
    exact hrun.append (.single (countedSent_wastes hentry hfinished))
  | sends e hentry hfinished u hu hwaiting =>
    obtain ⟨es, hrun, hserved⟩ := h.run
    obtain ⟨es', hrun', hlosses⟩ := reinsertHeld_self hentry hfinished hwaiting
    refine ⟨reinsertHeld_filed (h.counted hwaiting) d, _, hrun.append hrun', ?_, fun x => ?_, fun x => ?_⟩
    · rw [List.count_append, hserved.asks, List.count_cons, hlosses.count fun hb => by cases hb]
      rfl
    · rw [List.count_append, hserved.enters, List.count_cons, hlosses.count fun hb => by cases hb]
      rfl
    · rw [List.count_append, hserved.serves, List.count_cons, hlosses.count fun hb => by cases hb]
      unfold sentOf
      rw [List.countP_append, List.countP_singleton]
      have hself : (e.newPacket identity).spec.destinationHash = d := h.filed.waiting d e hentry
      have hdata : (e.newPacket identity).spec.data = relayedData e.packet := rfl
      rw [hself, hdata]
      by_cases hx : relayedData e.packet = x
      · simp [hx]
      · have hne : SlotEvent.serves (relayedData e.packet) ≠ SlotEvent.serves x := fun heq =>
          hx (SlotEvent.serves.inj heq)
        simp [hx]

/-- The whole loop. -/
theorem retransmitLoop_pass {identity : Address} {keys : List Address} {r : Retransmissions} {s₀ : TransportState}
    (h : Pass d s₀ r s) :
    ∃ r' t, Prog.fold keys r (retransmitAnnounce env identity) s = (.value r', t) ∧ Pass d s₀ r' t := by
  induction keys generalizing r s with
  | nil => exact ⟨r, s, rfl, h⟩
  | cons k keys ih =>
    obtain ⟨r', t, hrun, hround⟩ := retransmitAnnounce_round env identity k r s
    have hrest : Prog.fold (k :: keys) r (retransmitAnnounce env identity) s
        = Prog.fold keys r' (retransmitAnnounce env identity) t := Prog.bind_value hrun
    rw [hrest]
    by_cases hd : d = k
    · subst hd
      exact ih (hround.self h)
    · exact ih (hround.other hd h)

/-- The pass visits every key of the announce table, and each of them once. -/
theorem announceKeys_spec (s : TransportState) :
    (announceKeys s).Nodup ∧ ∀ k, k ∈ announceKeys s ↔ k ∈ s.announceTable := by
  have hperm : (announceKeys s).Perm s.announceTable.keys := List.mergeSort_perm _ _
  exact ⟨hperm.nodup_iff.mpr s.announceTable.keys_nodup, fun k => hperm.mem_iff.trans AList.mem_keys.symm⟩

/-- A pass begins with nothing sent and nothing finished. -/
theorem pass_start (hs : Filed s) : Pass d s {} s where
  filed := hs
  run := ⟨[], .refl _, rfl, fun _ => rfl, fun _ => rfl⟩

/-- What the job sends. -/
def jobOutgoing (env : Environment) (s : TransportState) : List NewPacket :=
  match s.identity with
  | none => []
  | some identity =>
    match (retransmitAnnounces env identity s).1 with
    | .value outgoing => outgoing
    | _ => []

/-- The loop with what follows it. -/
theorem retransmitAnnounces_run {identity : Address} (hs : Filed s) (d : Address) :
    ∃ (r : Retransmissions) (t : TransportState), retransmitAnnounces env identity s = (.value r.outgoing, t) ∧ Filed t
      ∧ ∃ es, Slot.Run retransmissions (announceSlot d s) es (announceSlot d t) ∧ Served d r.outgoing es := by
  obtain ⟨r, t, hrun, hpass⟩ : ∃ r t, Prog.fold (announceKeys s) {} (retransmitAnnounce env identity) s = (.value r, t)
      ∧ Pass d s r t := retransmitLoop_pass (pass_start hs)
  unfold retransmitAnnounces
  rw [Prog.get_bind_run, Prog.bind_value hrun]
  obtain ⟨es, hslot, hserved⟩ := hpass.run
  obtain ⟨-, hwhen⟩ | ⟨-, hwhen⟩ := Prog.when_run_cases (r.aborted = false)
    (Prog.modify fun s => { s with announceTable := s.announceTable.eraseAll r.completed }) t
  · have hfewer : Fewer t { t with announceTable := t.announceTable.eraseAll r.completed } :=
      ⟨fun _ _ he => lookup_of_eraseAll he, rfl⟩
    obtain ⟨es', hslot', hlosses⟩ := hfewer.run d
    exact ⟨r, _, Prog.bind_value hwhen, hfewer.filed hpass.filed, es ++ es', hslot.append hslot',
      hserved.append hlosses⟩
  · exact ⟨r, t, Prog.bind_value hwhen, hpass.filed, es, hslot, hserved⟩

theorem sendAll_waiting (outgoing : List NewPacket) : Prog.Keeps SameWaiting (Prog.forEach outgoing fun p => do
    let _ ← send env p
    pure ()) := by
  apply Prog.Keeps.forEach SameWaiting.refl SameWaiting.trans
  intro p _
  apply Prog.Keeps.bind SameWaiting.trans
  · intro s
    exact .of_tables s _ (send_sameTables p s)
  · intro _
    exact .pure SameWaiting.refl _

/-- The whole job, seen from one destination: a run of its slot that is served by exactly the packets the job
sends. -/
theorem announceJob_run (hs : Filed s) (d : Address) :
    Filed (announceJob env s).2
      ∧ ∃ es, Slot.Run retransmissions (announceSlot d s) es (announceSlot d (announceJob env s).2)
        ∧ Served d (jobOutgoing env s) es := by
  unfold announceJob jobOutgoing
  rw [Prog.get_bind_run]
  cases hidentity : s.identity with
  | none => exact ⟨hs, [], .refl _, rfl, fun _ => rfl, fun _ => rfl⟩
  | some identity =>
    obtain ⟨r, t, hrun, hfiled, es, hslot, hserved⟩ := @retransmitAnnounces_run env s identity hs d
    have hafter := @sendAll_waiting env r.outgoing t
    dsimp only
    rw [Prog.bind_value hrun, hrun]
    refine ⟨hafter.filed hfiled, es, ?_, hserved⟩
    rw [hafter.slot]
    exact hslot

/-! ## Announces that are done -/

/-- The loop has not come to the destination yet: what waits there is what waited. -/
def Ahead (d : Address) (s₀ s : TransportState) : Prop :=
  ∀ e, s.announceTable.lookup d = some e → s₀.announceTable.lookup d = some e

/-- A round for another destination can only take away what waits. -/
theorem Round.ahead {identity k : Address} {r r' : Retransmissions} {s₀ : TransportState}
    (hround : Round env identity k r s r' t) (hd : d ≠ k) (h : Ahead d s₀ s) : Ahead d s₀ t := by
  have hcounted : ∀ e', (countedSent env k s).announceTable.lookup d = some e' →
      s₀.announceTable.lookup d = some e' := by
    intro e' he'
    unfold countedSent Table.adjust at he'
    dsimp only at he'
    split at he'
    · exact h e' he'
    · rw [AList.lookup_insert_ne hd] at he'
      exact h e' he'
  intro e' he'
  cases hround with
  | idle => exact h e' he'
  | finishes => exact h e' he'
  | forgets => exact hcounted e' he'
  | fails e hentry hfinished u hu hwaiting =>
    rw [hwaiting.announceTable] at he'
    exact hcounted e' he'
  | sends e hentry hfinished u hu hwaiting =>
    apply hcounted
    rw [← hwaiting.announceTable]
    rw [reinsertHeld_eq] at he'
    split at he'
    · exact he'
    · next held hheld =>
      have hswapped := (cullAnnounceTable_fewer env _).lookup d e' he'
      unfold swapped at hswapped
      rw [AList.lookup_insert_ne hd, AList.lookup_erase_ne hd] at hswapped
      exact hswapped

theorem Round.completed_mono {identity k : Address} {r r' : Retransmissions} (hround : Round env identity k r s r' t)
    (h : d ∈ r.completed) : d ∈ r'.completed := by
  cases hround with
  | finishes => exact List.mem_cons_of_mem k h
  | forgets => exact List.mem_cons_of_mem k h
  | _ => exact h

/-- Once an exception has ended the pass, the keys after it change nothing of that. -/
theorem retransmitLoop_aborted {identity : Address} {keys : List Address} {r r' : Retransmissions}
    (hrun : Prog.fold keys r (retransmitAnnounce env identity) s = (.value r', t)) (h : r.aborted = true) :
    r'.aborted = true := by
  induction keys generalizing r s with
  | nil =>
    cases hrun
    exact h
  | cons k keys ih =>
    have hidle : retransmitAnnounce env identity r k s = (.value r, s) := by
      unfold retransmitAnnounce
      rw [if_pos h]
      rfl
    exact ih ((Prog.bind_value hidle).symm.trans hrun) h

/-- A finished entry is found done when the loop comes to it. -/
theorem retransmitLoop_finished {identity : Address} {keys : List Address} {r r' : Retransmissions}
    {s₀ : TransportState} (hfinished : ∀ e, s₀.announceTable.lookup d = some e → e.finished = true)
    (hahead : Ahead d s₀ s) (hmem : d ∈ keys ∨ d ∈ r.completed ∨ d ∉ s.announceTable)
    (hrun : Prog.fold keys r (retransmitAnnounce env identity) s = (.value r', t)) (haborted : r'.aborted = false) :
    d ∈ r'.completed ∨ d ∉ t.announceTable := by
  induction keys generalizing r s with
  | nil =>
    cases hrun
    exact hmem.resolve_left List.not_mem_nil
  | cons k keys ih =>
    obtain ⟨r₁, u, hfirst, hround⟩ := retransmitAnnounce_round env identity k r s
    have hrest : Prog.fold keys r₁ (retransmitAnnounce env identity) u = (.value r', t) :=
      (Prog.bind_value hfirst).symm.trans hrun
    by_cases hd : d = k
    case neg =>
      apply ih (hround.ahead hd hahead) _ hrest
      rcases hmem with hmem | hmem | hgone
      · exact .inl ((List.mem_cons.mp hmem).resolve_left hd)
      · exact .inr (.inl (hround.completed_mono hmem))
      · right
        right
        intro hback
        obtain ⟨e, he⟩ := Option.isSome_iff_exists.mp (AList.lookup_isSome.mpr hback)
        have hbefore : s.announceTable.lookup d = some e := hround.ahead hd (fun _ h => h) e he
        exact hgone (AList.lookup_isSome.mp (by rw [hbefore]; rfl))
    case pos =>
      subst hd
      -- an entry that is still to be sent is not the one that was finished
      have hnot : ∀ e, s.announceTable.lookup d = some e → e.finished = false → False := by
        intro e he hunfinished
        rw [hfinished e (hahead e he)] at hunfinished
        cases hunfinished
      cases hround with
      | idle hidle =>
        rcases hidle with hstopped | hnone | ⟨e, he, hunfinished⟩
        · rw [retransmitLoop_aborted hrest hstopped] at haborted
          cases haborted
        · exact ih hahead (.inr (.inr (AList.lookup_eq_none.mp hnone))) hrest
        · exact (hnot e he hunfinished).elim
      | finishes => exact ih hahead (.inr (.inl List.mem_cons_self)) hrest
      | forgets e he hunfinished => exact (hnot e he hunfinished).elim
      | fails e he hunfinished => exact (hnot e he hunfinished).elim
      | sends e he hunfinished => exact (hnot e he hunfinished).elim

/-- The announce job comes to the end of the table. -/
def JobEnds (env : Environment) (s : TransportState) : Prop :=
  ∃ identity r t, s.identity = some identity
    ∧ Prog.fold (announceKeys s) {} (retransmitAnnounce env identity) s = (.value r, t) ∧ r.aborted = false

/-- Then no finished entry is left. -/
theorem announceJob_erases (hends : JobEnds env s)
    (hfinished : ∀ e, s.announceTable.lookup d = some e → e.finished = true) :
    d ∉ (announceJob env s).2.announceTable := by
  obtain ⟨identity, r, t, hidentity, hrun, haborted⟩ := hends
  have hdone : d ∈ r.completed ∨ d ∉ t.announceTable := by
    apply retransmitLoop_finished hfinished (fun _ h => h) _ hrun haborted
    by_cases hmem : d ∈ s.announceTable
    · exact .inl (((announceKeys_spec s).2 d).mpr hmem)
    · exact .inr (.inr hmem)
  have hpass : retransmitAnnounces env identity s
      = (.value r.outgoing, { t with announceTable := t.announceTable.eraseAll r.completed }) := by
    unfold retransmitAnnounces
    rw [Prog.get_bind_run, Prog.bind_value hrun, haborted, Prog.when_of rfl]
    rfl
  unfold announceJob
  rw [Prog.get_bind_run, hidentity]
  dsimp only
  rw [Prog.bind_value hpass, (sendAll_waiting _ _).announceTable]
  dsimp only
  rw [mem_eraseAll]
  rintro ⟨hmem, hkept⟩
  rcases hdone with hdone | hgone
  · exact hkept hdone
  · exact hgone hmem

/-! ## Jobs that are defined -/

/-- A round is defined unless it sends the entry of a destination of which an announce is held. -/
theorem roundDefined_iff {r : Retransmissions} {k : Address} :
    RoundDefined env r k s ↔ (r.aborted = false → ∀ e u, Serves env k e s u → k ∉ s.heldAnnounces) := by
  have hheld : ∀ e u, Serves env k e s u → u.heldAnnounces = s.heldAnnounces := by
    intro e u hserves
    obtain ⟨found, hrecall⟩ := hserves.recalled
    have hsame := @identityRecall_waiting env e.packet.destinationHash (countedSent env k s)
    rw [hrecall] at hsame
    exact hsame.heldAnnounces
  unfold RoundDefined
  refine forall_congr' fun _ => forall_congr' fun e => forall_congr' fun u => forall_congr' fun hserves => ?_
  rw [← hheld e u hserves]
  constructor
  · intro hsome hmem
    rw [reinsertThrough_of_held hmem] at hsome
    cases hsome
  · intro hnone
    rw [reinsertThrough_of_not_held hnone]
    rfl

/-- A round that is defined puts nothing back. -/
theorem Round.held {identity k : Address} {r r' : Retransmissions} (hround : Round env identity k r s r' t)
    (h : RoundDefined env r k s) : t.heldAnnounces = s.heldAnnounces := by
  cases hround with
  | sends e hentry hfinished u hu hwaiting hgoing hserves =>
    have hsame : u.heldAnnounces = s.heldAnnounces := hwaiting.heldAnnounces
    have hnone : k ∉ u.heldAnnounces := hsame ▸ roundDefined_iff.mp h hgoing e u hserves
    rw [reinsertHeld_eq, AList.lookup_eq_none.mpr hnone]
    exact hwaiting.heldAnnounces
  | fails e hentry hfinished u hu hwaiting => exact hwaiting.heldAnnounces
  | _ => rfl

/-- Over a pass whose rounds are all defined the held announces are those of before. -/
theorem loop_held {identity : Address} {keys : List Address} {r : Retransmissions}
    (h : LoopDefined env identity keys r s) :
    ∃ r' t, Prog.fold keys r (retransmitAnnounce env identity) s = (.value r', t)
      ∧ t.heldAnnounces = s.heldAnnounces := by
  induction keys generalizing r s with
  | nil => exact ⟨r, s, rfl, rfl⟩
  | cons k keys ih =>
    obtain ⟨r₁, u, hfirst, hround⟩ := retransmitAnnounce_round env identity k r s
    obtain ⟨r', t, hrest, hheld⟩ := ih (h.2 r₁ u hfirst)
    exact ⟨r', t, (Prog.bind_value hfirst).trans hrest, hheld.trans (hround.held h.1)⟩

/-- A job that is defined leaves the held announces as they are: it never puts one back. -/
theorem announceJob_held (h : JobDefined env s) : (announceJob env s).2.heldAnnounces = s.heldAnnounces := by
  unfold announceJob
  rw [Prog.get_bind_run]
  cases hidentity : s.identity with
  | none => rfl
  | some identity =>
    obtain ⟨r, t, hrun, hheld⟩ := loop_held (h identity hidentity)
    have hpass : ∃ u, retransmitAnnounces env identity s = (.value r.outgoing, u)
        ∧ u.heldAnnounces = t.heldAnnounces := by
      unfold retransmitAnnounces
      rw [Prog.get_bind_run, Prog.bind_value hrun]
      obtain ⟨-, hwhen⟩ | ⟨-, hwhen⟩ := Prog.when_run_cases (r.aborted = false)
        (Prog.modify fun s => { s with announceTable := s.announceTable.eraseAll r.completed }) t
      · exact ⟨_, Prog.bind_value hwhen, rfl⟩
      · exact ⟨t, Prog.bind_value hwhen, rfl⟩
    obtain ⟨u, hpass, hu⟩ := hpass
    dsimp only
    rw [Prog.bind_value hpass, (sendAll_waiting r.outgoing u).heldAnnounces, hu, hheld]

theorem jobDefined_of_none_held (h : s.heldAnnounces = ∅) (env : Environment) : JobDefined env s := by
  have hloop : ∀ identity keys r s, s.heldAnnounces = ∅ → LoopDefined env identity keys r s := by
    intro identity keys
    induction keys with
    | nil => exact fun _ _ _ => trivial
    | cons k keys ih =>
      intro r s hnone
      have hdefined : RoundDefined env r k s := by
        refine roundDefined_iff.mpr fun _ _ _ _ => ?_
        rw [hnone]
        exact AList.notMem_empty k
      refine ⟨hdefined, fun r' t hrun => ih r' t ?_⟩
      obtain ⟨r₁, u, hfirst, hround⟩ := retransmitAnnounce_round env identity k r s
      rw [hrun] at hfirst
      cases hfirst
      rw [hround.held hdefined, hnone]
  exact fun identity _ => hloop identity _ _ _ h

end MicroReticulum.Announce
