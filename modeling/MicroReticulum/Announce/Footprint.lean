import MicroReticulum.Announce.Provenance
import MicroReticulum.Transport.Sending

/-!
# What handling an announce leaves alone

Sending touches no table. Recalling and remembering an identity touch the known destinations only, and
what follows from an announce up to the decision, and behind it up to the path store, leaves the paths as
they were. The path store takes one record, that of the announce.

Announce handlers belong to the application. Where they matter they are assumed to leave alone what the
result is about (`HandlersSpare`).

What the announce handlers of the application do is assumed, not proved: they spare the
tables named in each statement.
-/

namespace MicroReticulum.Announce

open MicroReticulum Packet Link Library Transport

variable {env : Environment}

/-! ## Frames -/

/-- The tables announces are about are as they were. -/
structure SameTables (s t : TransportState) : Prop where
  pathTable : t.pathTable = s.pathTable
  pathStates : t.pathStates = s.pathStates
  announceTable : t.announceTable = s.announceTable
  heldAnnounces : t.heldAnnounces = s.heldAnnounces
  knownDestinations : t.knownDestinations = s.knownDestinations
  destinations : t.destinations = s.destinations
  interfaces : t.interfaces = s.interfaces
  blackholedIdentities : t.blackholedIdentities = s.blackholedIdentities
  announceRateTable : t.announceRateTable = s.announceRateTable
  pendingLocalPathRequests : t.pendingLocalPathRequests = s.pendingLocalPathRequests

theorem SameTables.refl (s : TransportState) : SameTables s s :=
  ⟨rfl, rfl, rfl, rfl, rfl, rfl, rfl, rfl, rfl, rfl⟩

theorem SameTables.trans (s t u : TransportState) (h : SameTables s t) (h' : SameTables t u) :
    SameTables s u where
  pathTable := h'.pathTable.trans h.pathTable
  pathStates := h'.pathStates.trans h.pathStates
  announceTable := h'.announceTable.trans h.announceTable
  heldAnnounces := h'.heldAnnounces.trans h.heldAnnounces
  knownDestinations := h'.knownDestinations.trans h.knownDestinations
  destinations := h'.destinations.trans h.destinations
  interfaces := h'.interfaces.trans h.interfaces
  blackholedIdentities := h'.blackholedIdentities.trans h.blackholedIdentities
  announceRateTable := h'.announceRateTable.trans h.announceRateTable
  pendingLocalPathRequests := h'.pendingLocalPathRequests.trans h.pendingLocalPathRequests

/-- The path records, and what is needed to read them, are as they were, and no path is newly marked
unresponsive. -/
structure SamePaths (s t : TransportState) : Prop where
  pathTable : t.pathTable = s.pathTable
  destinations : t.destinations = s.destinations
  interfaces : t.interfaces = s.interfaces
  marks : ∀ d, pathIsUnresponsive t d = true → pathIsUnresponsive s d = true

theorem SamePaths.refl (s : TransportState) : SamePaths s s := ⟨rfl, rfl, rfl, fun _ h => h⟩

theorem SamePaths.of_same {s t : TransportState} (hpaths : t.pathTable = s.pathTable)
    (hdestinations : t.destinations = s.destinations) (hinterfaces : t.interfaces = s.interfaces)
    (hstates : t.pathStates = s.pathStates) : SamePaths s t where
  pathTable := hpaths
  destinations := hdestinations
  interfaces := hinterfaces
  marks d h := by
    unfold pathIsUnresponsive at h ⊢
    rw [← hstates]
    exact h

theorem SamePaths.trans (s t u : TransportState) (h : SamePaths s t) (h' : SamePaths t u) :
    SamePaths s u where
  pathTable := h'.pathTable.trans h.pathTable
  destinations := h'.destinations.trans h.destinations
  interfaces := h'.interfaces.trans h.interfaces
  marks d hd := h.marks d (h'.marks d hd)

/-- With all tables the same the paths are the same. -/
theorem SameTables.samePaths {s t : TransportState} (h : SameTables s t) : SamePaths s t :=
  .of_same h.pathTable h.destinations h.interfaces h.pathStates

/-- A path record is read by way of the interfaces. -/
theorem getPath_of_same {s t : TransportState} (hpaths : t.pathTable = s.pathTable)
    (hinterfaces : t.interfaces = s.interfaces) (d : Address) : getPath t d = getPath s d := by
  unfold getPath StoredPath.decode findInterface
  rw [hpaths, hinterfaces]

/-- A path is read from tables that are the same in both states. -/
theorem SamePaths.getPath_eq {s t : TransportState} (h : SamePaths s t) (d : Address) :
    getPath t d = getPath s d :=
  getPath_of_same h.pathTable h.interfaces d

/-! ## Sending -/

/-- Sending a packet leaves all tables as they are. -/
theorem sending_sameTables : Sending SameTables where
  refl := SameTables.refl
  trans := SameTables.trans
  lock _ _ := ⟨rfl, rfl, rfl, rfl, rfl, rfl, rfl, rfl, rfl, rfl⟩
  hash _ _ := ⟨rfl, rfl, rfl, rfl, rfl, rfl, rfl, rfl, rfl, rfl⟩
  wire _ _ _ := ⟨rfl, rfl, rfl, rfl, rfl, rfl, rfl, rfl, rfl, rfl⟩
  allowedAt _ _ _ := ⟨rfl, rfl, rfl, rfl, rfl, rfl, rfl, rfl, rfl, rfl⟩
  queue _ _ _ _ := ⟨rfl, rfl, rfl, rfl, rfl, rfl, rfl, rfl, rfl, rfl⟩
  count _ _ _ := ⟨rfl, rfl, rfl, rfl, rfl, rfl, rfl, rfl, rfl, rfl⟩
  receipt _ _ _ := ⟨rfl, rfl, rfl, rfl, rfl, rfl, rfl, rfl, rfl, rfl⟩

/-- `Packet::send` leaves all tables as they are: what it adds is a receipt. -/
theorem send_sameTables (p : NewPacket) : Prog.Keeps SameTables (send env p) :=
  sending_sameTables.send p

/-! ## Remembering -/

/-- A write beside the paths keeps them; the four tables it leaves alone are found by `rfl`. -/
theorem modify_samePaths {f : TransportState → TransportState}
    (h : ∀ s, SamePaths s (f s) := by intro s; exact .of_same rfl rfl rfl rfl) :
    Prog.Keeps SamePaths (Prog.modify f : Prog String TransportState Unit) :=
  .modify h

/-! A relation that does not look at the known destinations is kept by whatever changes nothing else. -/

section Known

variable {R : TransportState → TransportState → Prop} (hrefl : ∀ s, R s s)
  (htrans : ∀ s t u, R s t → R t u → R s u)
  (hknown : ∀ s known, R s { s with knownDestinations := known })

include hrefl htrans hknown

theorem remember_keeps (d : Address) (entry : IdentityEntry) :
    Prog.Keeps R (remember env d entry) :=
  .bind htrans (.require hrefl _ _) fun _ => .when hrefl fun _ => .modify fun s => hknown s _

theorem identityRecall_keeps (d : Address) : Prog.Keeps R (identityRecall env d) := by
  refine .bind htrans (.get hrefl) fun s => ?_
  split
  · exact .pure hrefl _
  · exact .bind htrans (.when hrefl fun _ => remember_keeps hrefl htrans hknown d _) fun _ =>
      .pure hrefl _

theorem validateAnnounce_keeps (p : Packet) (only : Bool) :
    Prog.Keeps R (validateAnnounce env p only) := by
  have haccept : Prog.Keeps R (acceptIdentity env p) := by
    refine .bind htrans (.get hrefl) fun s => ?_
    split
    · exact .pure hrefl _
    · exact .bind htrans (remember_keeps hrefl htrans hknown _ _) fun _ => .pure hrefl _
  unfold validateAnnounce
  split
  · split
    · exact .pure hrefl _
    · split
      · exact .catching htrans haccept fun _ => .pure hrefl _
      · exact .pure hrefl _
  · exact .pure hrefl _

end Known

theorem identityRecall_samePaths (d : Address) : Prog.Keeps SamePaths (identityRecall env d) :=
  identityRecall_keeps SamePaths.refl SamePaths.trans (fun _ _ => .of_same rfl rfl rfl rfl) d

theorem validateAnnounce_samePaths (p : Packet) (only : Bool) :
    Prog.Keeps SamePaths (validateAnnounce env p only) :=
  validateAnnounce_keeps SamePaths.refl SamePaths.trans (fun _ _ => .of_same rfl rfl rfl rfl) p only

/-! ## Handlers -/

/-- Calling a handler keeps what the handler keeps. -/
theorem callHandler_keeps {α : Type} {R : TransportState → TransportState → Prop}
    {h : Handler TransportState α} (hh : ∀ s, R s (h s).2) : Prog.Keeps R (callHandler h) := by
  intro s
  have hafter := hh s
  unfold callHandler
  rcases hrun : h s with ⟨_ | _, t⟩ <;> rw [hrun] at hafter <;> exact hafter

/-- `validate_announce` as a handler keeps what the function keeps. -/
theorem validateHandler_keeps (henv : Validates env) {R : TransportState → TransportState → Prop}
    {p : Packet} (h : Prog.Keeps R (validateAnnounce env p false)) :
    Prog.Keeps R (callHandler (env.validateAnnounce p)) := by
  refine callHandler_keeps fun s => ?_
  have hafter := h s
  rw [henv p]
  unfold validateHandler
  rcases hrun : validateAnnounce env p false s with ⟨_ | _ | _ | _, t⟩ <;> rw [hrun] at hafter <;>
    exact hafter

/-- The announce handlers keep `R`. -/
def HandlersSpare (R : TransportState → TransportState → Prop) (env : Environment) : Prop :=
  ∀ handler ∈ env.announceHandlers, ∀ d identity appData s,
    R s (handler.receivedAnnounce d identity appData s).2

/-- The announce handlers keep what they are promised to keep, and the recall before them what a recall keeps. -/
theorem callAnnounceHandlers_keeps {R : TransportState → TransportState → Prop}
    (hrefl : ∀ s, R s s) (htrans : ∀ s t u, R s t → R t u → R s u) {p : Packet}
    (hrecall : Prog.Keeps R (identityRecall env p.destinationHash)) (hhandlers : HandlersSpare R env) :
    Prog.Keeps R (callAnnounceHandlers env p) :=
  .when hrefl fun _ => .forEach hrefl htrans _ fun handler hmem =>
    .catching htrans
      (.bind htrans hrecall fun _ => .bind htrans (.get hrefl) fun _ => .when hrefl fun _ =>
        callHandler_keeps fun s => hhandlers handler hmem _ _ _ s)
      fun _ => .pure hrefl _

/-! ## The decision and what follows before the store -/

section Decision

variable {R : TransportState → TransportState → Prop} (hrefl : ∀ s, R s s)
  (htrans : ∀ s t u, R s t → R t u → R s u)

include hrefl htrans

/-- Deciding whether a path is added can mark the one there is as of unknown state. -/
theorem shouldAddPath_keeps (hmark : ∀ d s, R s (markPath .unknown d s)) (now : ℚ) (p : Packet) :
    Prog.Keeps R (shouldAddPath now p) := by
  apply Prog.Keeps.bind htrans (.get hrefl)
  intro s
  split
  · exact .pure hrefl _
  · exact .bind htrans (.when hrefl fun _ => .modify (hmark _)) fun _ =>
      .bind htrans (.get hrefl) fun _ => .pure hrefl _

theorem blackholeAllows_keeps {p : Packet} (hrecall : Prog.Keeps R (identityRecall env p.destinationHash))
    (shouldAdd : Bool) : Prog.Keeps R (blackholeAllows env p shouldAdd) := by
  apply Prog.Keeps.bind htrans (.get hrefl)
  intro s
  split
  · exact .pure hrefl _
  · apply Prog.Keeps.bind htrans hrecall
    intro _
    apply Prog.Keeps.bind htrans (.get hrefl)
    intro _
    split <;> exact .pure hrefl _

theorem rateBlocked_keeps (hrate : ∀ s table, R s { s with announceRateTable := table }) (now : ℚ) (p : Packet)
    (i : Interface) : Prog.Keeps R (rateBlocked now p i) := by
  apply Prog.Keeps.bind htrans (.get hrefl)
  intro s
  split
  · split
    · exact .bind htrans (.modify fun s => hrate s _) fun _ => .pure hrefl _
    · exact .bind htrans (.modify fun s => hrate s _) fun _ => .pure hrefl _
  · exact .pure hrefl _

/-- Judging an announce keeps what each of its parts keeps: hearing a rebroadcast, the validation, the recall, the
mark and the rate. -/
theorem judgeAnnounce_keeps (hmark : ∀ d s, R s (markPath .unknown d s)) (henv : Validates env) {p : Packet}
    (hhear : ∀ s, R s (hearRebroadcast env.now p s)) (hvalidate : Prog.Keeps R (validateAnnounce env p false))
    (hrecall : Prog.Keeps R (identityRecall env p.destinationHash)) : Prog.Keeps R (judgeAnnounce env p) := by
  apply Prog.Keeps.bind htrans (.get hrefl)
  intro s
  split
  · exact .pure hrefl _
  · apply Prog.Keeps.bind htrans (validateHandler_keeps henv hvalidate)
    intro valid
    split
    · exact .pure hrefl _
    · apply Prog.Keeps.bind htrans (.when hrefl fun _ => .modify hhear)
      intro _
      apply Prog.Keeps.bind htrans (.get hrefl)
      intro u
      split
      · exact .pure hrefl _
      · exact .bind htrans (shouldAddPath_keeps hrefl htrans hmark _ p) fun _ =>
          .bind htrans (blackholeAllows_keeps hrefl htrans hrecall _) fun _ => .pure hrefl _

/-- Scheduling an announce adds an entry to the announce table, or answers a pending request. -/
theorem scheduleAnnounce_keeps (hadd : ∀ d entry s, R s (addAnnounceEntry env d entry s))
    (hpending : ∀ s table, R s { s with pendingLocalPathRequests := table }) (p : Packet) (i : Interface)
    (blocked : Bool) : Prog.Keeps R (scheduleAnnounce env p i blocked) := by
  apply Prog.Keeps.bind htrans (.get hrefl)
  intro s
  dsimp only
  split
  · exact .when hrefl fun _ => .modify (hadd _ _)
  · exact .when hrefl fun _ => .modify fun s => htrans _ _ _ (hpending s _) (hadd _ _ _)

end Decision

/-- Hearing a rebroadcast counts in the announce table and leaves the paths as they are. -/
theorem hearRebroadcast_samePaths (now : ℚ) (p : Packet) (s : TransportState) :
    SamePaths s (hearRebroadcast now p s) := by
  unfold hearRebroadcast
  split
  · exact SamePaths.refl s
  · split
    · exact .of_same rfl rfl rfl rfl
    · split <;> exact .of_same rfl rfl rfl rfl

/-- A mark that a path does not carry is not read back. -/
theorem pathIsUnresponsive_markPath {state : PathState} {d d' : Address} {s : TransportState}
    (h : pathIsUnresponsive (markPath state d s) d' = true) (hstate : d' = d → state ≠ .unresponsive) :
    pathIsUnresponsive s d' = true := by
  unfold markPath at h
  split at h
  case isFalse => exact h
  case isTrue =>
    unfold pathIsUnresponsive at h ⊢
    dsimp only at h
    by_cases hd : d' = d
    · subst hd
      rw [AList.lookup_insert] at h
      exact absurd (Option.some.inj (of_decide_eq_true h)) (hstate rfl)
    · rw [AList.lookup_insert_ne hd] at h
      exact h

/-- Marking a path as of unknown state changes no entry. -/
theorem markPath_samePaths (d : Address) (s : TransportState) :
    SamePaths s (markPath .unknown d s) where
  pathTable := by unfold markPath; split <;> rfl
  destinations := by unfold markPath; split <;> rfl
  interfaces := by unfold markPath; split <;> rfl
  marks _ h := pathIsUnresponsive_markPath h fun _ => by decide

/-- Judging an announce leaves the paths as they are. They change when it is accepted. -/
theorem judgeAnnounce_samePaths (henv : Validates env) (p : Packet) :
    Prog.Keeps SamePaths (judgeAnnounce env p) :=
  judgeAnnounce_keeps SamePaths.refl SamePaths.trans markPath_samePaths henv (hearRebroadcast_samePaths _ p)
    (validateAnnounce_samePaths p false) (identityRecall_samePaths _)

theorem rateBlocked_samePaths (now : ℚ) (p : Packet) (i : Interface) :
    Prog.Keeps SamePaths (rateBlocked now p i) :=
  rateBlocked_keeps SamePaths.refl SamePaths.trans (fun _ _ => .of_same rfl rfl rfl rfl) now p i

/-- Adding to the announce table leaves the paths as they are, also when the table is culled. -/
theorem addAnnounceEntry_samePaths (d : Address) (entry : AnnounceEntry) (s : TransportState) :
    SamePaths s (addAnnounceEntry env d entry s) := by
  unfold addAnnounceEntry cullAnnounceTable
  split <;> exact .of_same rfl rfl rfl rfl

/-- Scheduling an announce leaves the paths as they are. -/
theorem scheduleAnnounce_samePaths (p : Packet) (i : Interface) (blocked : Bool) :
    Prog.Keeps SamePaths (scheduleAnnounce env p i blocked) :=
  scheduleAnnounce_keeps SamePaths.refl SamePaths.trans addAnnounceEntry_samePaths (fun _ _ => .of_same rfl rfl rfl rfl)
    p i blocked

/-- Local clients and whoever waits are answered, and nothing else happens. -/
theorem answerWaiting_keeps_of_answers {R : TransportState → TransportState → Prop} (hrefl : ∀ s, R s s)
    (htrans : ∀ s t u, R s t → R t u → R s u) {p : Packet} {identity : Address}
    (hanswer : ∀ context attached, Prog.Keeps R (answerAnnounce env p identity context attached))
    (hrecall : Prog.Keeps R (identityRecall env p.destinationHash)) (i : Interface) :
    Prog.Keeps R (answerWaiting env p i identity) := by
  apply Prog.Keeps.bind htrans (.get hrefl)
  intro s
  apply Prog.Keeps.bind htrans
  · exact .when hrefl fun _ => .bind htrans hrecall fun _ => .forEach hrefl htrans _ fun l _ => hanswer _ _
  intro _
  apply Prog.Keeps.bind htrans (.get hrefl)
  intro t
  split
  · exact .pure hrefl _
  · exact .bind htrans hrecall fun _ => hanswer _ _

theorem answerWaiting_keeps {R : TransportState → TransportState → Prop} (hrefl : ∀ s, R s s)
    (htrans : ∀ s t u, R s t → R t u → R s u) (htables : ∀ s t, SameTables s t → R s t)
    {p : Packet} (hrecall : Prog.Keeps R (identityRecall env p.destinationHash)) (i : Interface)
    (identity : Address) : Prog.Keeps R (answerWaiting env p i identity) := by
  apply answerWaiting_keeps_of_answers hrefl htrans _ hrecall i
  intro context attached s
  apply htables
  exact Prog.Keeps.bind SameTables.trans (send_sameTables _) (fun _ => .pure SameTables.refl _) s

/-- Answering a waiting request leaves the paths as they are. -/
theorem answerWaiting_samePaths (p : Packet) (i : Interface) (identity : Address) :
    Prog.Keeps SamePaths (answerWaiting env p i identity) :=
  answerWaiting_keeps SamePaths.refl SamePaths.trans (fun _ _ h => h.samePaths)
    (identityRecall_samePaths _) i identity

end MicroReticulum.Announce
