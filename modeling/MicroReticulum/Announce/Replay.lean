import Mathlib.Logic.Relation
import MicroReticulum.Announce.Footprint
import MicroReticulum.Announce.Relay

/-!
# Announces that were heard before

A path record keeps the random blobs of the announces that made it. `Heard` says of a state and an
announce that the blob of the announce is among them and that the path is not marked unresponsive; such
an announce is ignored (`inbound_heard`), and of an accepted one the blob is recorded
(`records_encode`). The bound on the recorded list is an invariant of every run.

A mark makes a path acceptable again once: the announce that is accepted next ends it. Further copies are
ignored as long as their blob has not been pushed out by those of newer announces.

Nothing of this is promised for a record whose interface has been taken away. It cannot be read as a path,
and a copy of the announce replaces it (`unregistered_path_replaced`). Nor is anything said of announce
handlers that write paths themselves; `HandlersSpare` leaves them out.
-/

namespace MicroReticulum.Announce

open MicroReticulum Packet Link Library Transport

variable {env : Environment}

/-! ## From `inbound` to the announce -/

/-- `inbound` up to the handling of an announce; `none` when the filter does not let it through. -/
def announceArrives (env : Environment) (raw : Bytes) (interface : Option Interface) :
    Prog String TransportState (Option Arrived) := do
  let a ← arrive raw interface
  let s ← Prog.get
  if acceptsPacket env s a.packet = true then do
    Prog.modify (rememberHash env a.packet)
    let s ← Prog.get
    let flags := clientFlags s a
    broadcastPlain env flags a
    let a ← transportHandling env flags a
    pure (some a)
  else pure none

/-- What `inbound` does with the announce. -/
def announceHandled (env : Environment) (arrived : Option Arrived) :
    Prog String TransportState Unit := do
  match arrived with
  | none => pure ()
  | some a => handleAnnounce env a.packet a.receivingInterface a.identity
  Prog.modify (setJobsLocked false)

/-- The packet an announce has become, counted in hops. -/
def ArrivedAs (p : Packet) (interface : Option Interface) (a : Arrived) : Prop :=
  a.packet = { p with hops := a.packet.hops } ∧ interface = some a.receivingInterface

/-- What arrives is the packet that was read, with its hops counted on. -/
theorem arrive_returns {raw : Bytes} {p : Packet} (hraw : unpack raw = some p)
    (interface : Option Interface) :
    Prog.Returns (ArrivedAs p interface) (arrive raw interface) := by
  refine .bind _ fun _ => .bind _ fun s => ?_
  cases hidentity : s.identity with
  | none => intro t a u h; cases h
  | some identity =>
    refine .bind _ fun _ => ?_
    rw [hraw]
    cases interface with
    | none => intro t a u h; cases h
    | some i => exact .pure ⟨rfl, rfl⟩

/-- No local client is the destination of an announce. -/
theorem regenerateTransportId_announce {a : Arrived} (htype : a.packet.packetType = .announce)
    (s : TransportState) : regenerateTransportId (clientFlags s a) a = a := by
  have hflag : (clientFlags s a).forLocalClient = false := by simp [clientFlags, htype]
  unfold regenerateTransportId
  rw [hflag, if_neg (by simp)]

/-- An announce is not transported: it passes transport handling as it is. -/
theorem transportHandling_announce {a : Arrived} (htype : a.packet.packetType = .announce)
    (s : TransportState) :
    Prog.Keeps SameTables (transportHandling env (clientFlags s a) a)
      ∧ Prog.Returns (· = a) (transportHandling env (clientFlags s a) a) := by
  have hforward : forwardNextHop env a = Prog.get >>= fun _ => pure () := by
    unfold forwardNextHop nextHopPath
    simp only [htype, ne_eq, not_true_eq_false, false_and, if_false]
  have hlink : linkTransport env a = Prog.get >>= fun _ => pure () := by
    unfold linkTransport
    simp only [htype, ne_eq, not_true_eq_false, false_and, Prog.when, if_false]
  unfold transportHandling
  rw [regenerateTransportId_announce htype]
  dsimp only
  rw [hforward, hlink]
  split
  · refine ⟨?_, .bind _ fun _ => .bind _ fun _ => .bind _ fun _ => .pure rfl⟩
    have hskip : Prog.Keeps SameTables
        (Prog.get >>= fun _ => pure () : Prog String TransportState Unit) :=
      .bind SameTables.trans (.get SameTables.refl) fun _ => .pure SameTables.refl _
    exact .bind SameTables.trans (sending_sameTables.answerCacheRequest a) fun _ =>
      .bind SameTables.trans hskip fun _ => .bind SameTables.trans hskip fun _ =>
        .pure SameTables.refl _
  · exact ⟨.pure SameTables.refl _, .pure rfl⟩

/-- Up to the handling of the announce no table changes, and the announce comes through as it is. -/
theorem announceArrives_spec {raw : Bytes} {p : Packet} (hraw : unpack raw = some p)
    (htype : p.packetType = .announce) (interface : Option Interface) {s t : TransportState}
    {o : Outcome String (Option Arrived)} (hrun : announceArrives env raw interface s = (o, t)) :
    SameTables s t ∧ ∀ a, o = .value (some a) → ArrivedAs p interface a := by
  unfold announceArrives at hrun
  have harrive := sending_sameTables.arrive raw interface s
  rcases hfirst : arrive raw interface s with ⟨a | _ | _ | _, u⟩ <;> rw [hfirst] at harrive <;>
    rw [Prog.bind_run, hfirst] at hrun
  case value =>
    have hreturns := arrive_returns hraw interface s a u hfirst
    have htype' : a.packet.packetType = .announce := by rw [hreturns.1]; exact htype
    dsimp only at hrun
    rw [Prog.get_bind_run] at hrun
    split at hrun
    case isFalse =>
      cases hrun
      exact ⟨harrive, fun a h => by cases h⟩
    case isTrue =>
      rw [Prog.modify_bind_run, Prog.get_bind_run] at hrun
      have hremember : SameTables u (rememberHash env a.packet u) := sending_sameTables.rememberHash a.packet u
      generalize rememberHash env a.packet u = v at hrun hremember
      obtain ⟨hkeeps, hvalue⟩ := @transportHandling_announce env a htype' v
      have hrest : Prog.Keeps SameTables (broadcastPlain env (clientFlags v a) a >>= fun _ =>
          transportHandling env (clientFlags v a) a >>= fun a => pure (some a)) :=
        .bind SameTables.trans (sending_sameTables.broadcastPlain _ a) fun _ =>
          .bind SameTables.trans hkeeps fun _ => .pure SameTables.refl _
      have hafter := hrest v
      have hresult : Prog.Returns (fun b => b = some a) (broadcastPlain env (clientFlags v a) a >>= fun _ =>
          transportHandling env (clientFlags v a) a >>= fun a => pure (some a)) := by
        refine .bind _ fun _ w b x h => ?_
        obtain ⟨c, y, hc, hpure⟩ := Prog.exists_of_bind_value h
        cases hpure
        rw [hvalue _ _ _ hc]
      rw [hrun] at hafter
      refine ⟨.trans _ _ _ harrive (.trans _ _ _ hremember hafter), fun b hb => ?_⟩
      subst hb
      cases hresult v _ t hrun
      exact hreturns
  all_goals
    cases hrun
    exact ⟨harrive, fun a h => by cases h⟩

/-- `inbound` for an announce. -/
theorem inbound_announce {raw : Bytes} {p : Packet} (hraw : unpack raw = some p)
    (htype : p.packetType = .announce) (interface : Option Interface) (s : TransportState) :
    inbound env raw interface s
      = Prog.call (announceArrives env raw interface >>= announceHandled env) s := by
  have hmain : (arrive raw interface >>= fun a => Prog.get >>= fun s =>
        Prog.when (acceptsPacket env s a.packet = true) (process env a) >>= fun _ =>
          Prog.modify (setJobsLocked false)) s
      = (announceArrives env raw interface >>= announceHandled env) s := by
    unfold announceArrives
    rw [Prog.bind_assoc_run]
    refine Prog.bind_congr_value fun a t harrive => ?_
    have htype' : a.packet.packetType = .announce := by
      rw [(arrive_returns hraw interface s a t harrive).1]
      exact htype
    rw [Prog.get_bind_run, Prog.bind_assoc_run, Prog.get_bind_run]
    by_cases haccepts : acceptsPacket env t a.packet = true
    case neg => rw [Prog.when_of_not haccepts, if_neg haccepts]; rfl
    rw [Prog.when_of haccepts, if_pos haccepts]
    unfold process
    rw [Prog.bind_assoc_run, Prog.modify_bind_run, Prog.bind_assoc_run, Prog.get_bind_run]
    conv_rhs => rw [Prog.bind_assoc_run, Prog.modify_bind_run, Prog.bind_assoc_run, Prog.get_bind_run]
    generalize rememberHash env a.packet t = u
    dsimp only
    rw [Prog.bind_assoc_run]
    conv_rhs => rw [Prog.bind_assoc_run]
    refine Prog.bind_congr_run _ (fun _ v => ?_) u
    rw [Prog.bind_assoc_run]
    conv_rhs => rw [Prog.bind_assoc_run]
    refine Prog.bind_congr_value fun b w hb => ?_
    cases (@transportHandling_announce env a htype' u).2 _ _ _ hb
    show (localHandling env (clientFlags u a) a >>= fun _ => Prog.modify (setJobsLocked false)) w
      = announceHandled env (some a) w
    unfold localHandling
    rw [htype']
    rfl
  exact Prog.call_congr_run hmain

/-! ## What was heard before is ignored -/

/-- The path to the destination of an announce has the random blob of the announce recorded, and is not
marked unresponsive. A record whose interface is no longer registered is not a path: an entry without an
interface is false, in `inbound` as everywhere. -/
def Heard (s : TransportState) (p : Packet) : Prop :=
  ∃ entry, getPath s p.destinationHash = some entry ∧ randomBlob p ∈ entry.randomBlobs
    ∧ pathIsUnresponsive s p.destinationHash = false

/-- What is left of a state by an announce that is ignored: the path records and their states are as
they were, and so is what waits for retransmission, except that a rebroadcast of the announce itself may
have been heard. -/
structure Untouched (d : Address) (s t : TransportState) : Prop where
  pathTable : t.pathTable = s.pathTable
  pathStates : t.pathStates = s.pathStates
  interfaces : t.interfaces = s.interfaces
  others : ∀ d', d' ≠ d → t.announceTable.lookup d' = s.announceTable.lookup d'
  own : ∀ e, t.announceTable.lookup d = some e → ∃ e', s.announceTable.lookup d = some e'
    ∧ e = { e' with localRebroadcasts := e.localRebroadcasts }

namespace Untouched

variable {d : Address} {s t u : TransportState}

theorem of_same (hpaths : t.pathTable = s.pathTable) (hstates : t.pathStates = s.pathStates)
    (hinterfaces : t.interfaces = s.interfaces) (hannounces : t.announceTable = s.announceTable) :
    Untouched d s t where
  pathTable := hpaths
  pathStates := hstates
  interfaces := hinterfaces
  others d' _ := by rw [hannounces]
  own e he := ⟨e, hannounces ▸ he, rfl⟩

theorem refl (s : TransportState) : Untouched d s s := of_same rfl rfl rfl rfl

theorem trans (s t u : TransportState) (h : Untouched d s t) (h' : Untouched d t u) :
    Untouched d s u where
  pathTable := h'.pathTable.trans h.pathTable
  pathStates := h'.pathStates.trans h.pathStates
  interfaces := h'.interfaces.trans h.interfaces
  others d' hd := (h'.others d' hd).trans (h.others d' hd)
  own e he := by
    obtain ⟨e', he', heq'⟩ := h'.own e he
    obtain ⟨e'', he'', heq''⟩ := h.own e' he'
    exact ⟨e'', he'', by rw [heq', heq'']⟩

/-- With all tables the same nothing was done to the destination. -/
theorem of_tables (h : SameTables s t) : Untouched d s t :=
  of_same h.pathTable h.pathStates h.interfaces h.announceTable

/-- A replay is still one after a stretch that does nothing to its destination. -/
theorem heard {p : Packet} (h : Untouched d s t) (hheard : Heard s p) : Heard t p := by
  obtain ⟨entry, hpath, hblob, hstate⟩ := hheard
  refine ⟨entry, ?_, hblob, ?_⟩
  · rw [getPath_of_same h.pathTable h.interfaces, hpath]
  · unfold pathIsUnresponsive at hstate ⊢
    rw [h.pathStates, hstate]

end Untouched

/-- A recorded random blob is never new, and the path does not ask for another try. -/
theorem compareAnnounce_heard {s : TransportState} {p : Packet} {entry : DestinationEntry}
    (hblob : randomBlob p ∈ entry.randomBlobs)
    (hstate : pathIsUnresponsive s p.destinationHash = false) (now : ℚ) :
    compareAnnounce now s p entry = .ignored := by
  unfold compareAnnounce
  simp only [hblob, not_true_eq_false, false_and, if_false, hstate, Bool.false_eq_true, and_false,
    ite_self]

/-- Hearing a rebroadcast counts at the entry of the destination, and this is no new path. -/
theorem hearRebroadcast_untouched (now : ℚ) (p : Packet) (s : TransportState) :
    Untouched p.destinationHash s (hearRebroadcast now p s) := by
  unfold hearRebroadcast
  cases hentry : s.announceTable.lookup p.destinationHash with
  | none => exact Untouched.refl s
  | some entry =>
    dsimp only
    split
    · refine ⟨rfl, rfl, rfl, fun d' hd => AList.lookup_erase_ne hd, fun e he => ?_⟩
      rw [AList.lookup_erase] at he
      cases he
    · split
      · have hadjust : s.announceTable.adjust p.destinationHash (fun entry =>
            { entry with localRebroadcasts := entry.localRebroadcasts + 1 })
          = s.announceTable.insert p.destinationHash
            { entry with localRebroadcasts := entry.localRebroadcasts + 1 } := by
          unfold Table.adjust
          rw [hentry]
        rw [hadjust]
        refine ⟨rfl, rfl, rfl, fun d' hd => AList.lookup_insert_ne hd, fun e he => ?_⟩
        dsimp only at he
        rw [AList.lookup_insert] at he
        cases he
        exact ⟨entry, hentry, rfl⟩
      · exact Untouched.refl s

/-- An announce that was heard before is not accepted. -/
theorem judgeAnnounce_heard (henv : Validates env) {p : Packet} {s : TransportState}
    (hheard : Heard s p) :
    (judgeAnnounce env p).Ends s fun o t =>
      Untouched p.destinationHash s t ∧ ∀ blobs, o ≠ .value (some blobs) := by
  have hvalidate : Prog.Keeps (Untouched p.destinationHash)
      (callHandler (env.validateAnnounce p)) :=
    validateHandler_keeps henv (validateAnnounce_keeps Untouched.refl Untouched.trans
      (fun _ _ => .of_same rfl rfl rfl rfl) p false)
  have hhear : Prog.Keeps (Untouched p.destinationHash)
      (Prog.when (p.transportId.isSome ∧ env.transportEnabled = true)
        (Prog.modify (hearRebroadcast env.now p)) : Prog String TransportState Unit) :=
    .when Untouched.refl fun _ => .modify (hearRebroadcast_untouched _ p)
  refine .bind_keeps (.get Untouched.refl) (fun s' t hst => ?_) fun o t ho h => ⟨h, fun _ => ho _⟩
  split
  case isTrue => exact ⟨hst, fun blobs h => by cases h⟩
  case isFalse =>
    refine .bind_keeps hvalidate (fun valid u htu => ?_) fun o u ho h =>
      ⟨.trans _ _ _ hst h, fun _ => ho _⟩
    split
    case isTrue => exact ⟨.trans _ _ _ hst htu, fun blobs h => by cases h⟩
    case isFalse =>
      refine .bind_keeps hhear (fun _ v huv => ?_) fun o v ho h =>
        ⟨.trans _ _ _ hst (.trans _ _ _ htu h), fun _ => ho _⟩
      have hsame : Untouched p.destinationHash s v := .trans _ _ _ hst (.trans _ _ _ htu huv)
      unfold Prog.Ends
      rw [Prog.get_bind_run]
      split
      case isTrue => exact ⟨hsame, fun blobs h => by cases h⟩
      case isFalse =>
        -- the path still is there, so the comparison decides
        obtain ⟨entry, hpath, hblob, hstate⟩ := hsame.heard hheard
        have hignored := compareAnnounce_heard hblob hstate env.now
        have hshould : shouldAddPath env.now p v = (.value false, v) := by
          unfold shouldAddPath
          rw [Prog.get_bind_run]
          simp only [hpath]
          rw [Prog.when_of_not (by rw [hignored]; decide), Prog.pure_bind_run,
            Prog.get_bind_run, hignored, hstate]
          rfl
        have hblackhole : blackholeAllows env p false v = (.value false, v) := by
          unfold blackholeAllows
          rw [Prog.get_bind_run, if_pos (.inl rfl)]
          rfl
        rw [Prog.bind_value hshould, Prog.bind_value hblackhole]
        exact ⟨hsame, fun blobs h => by cases h⟩

/-- An announce that was heard before is judged and dropped: the destination is left as it was, with any
handlers. -/
theorem handleAnnounce_heard (henv : Validates env) {p : Packet} {s : TransportState}
    (hheard : Heard s p) (i : Interface) (identity : Address) :
    Untouched p.destinationHash s (handleAnnounce env p i identity s).2
      ∧ ∀ handlers, handleAnnounce { env with announceHandlers := handlers } p i identity s
        = handleAnnounce env p i identity s := by
  obtain ⟨hsame, hrefused⟩ := judgeAnnounce_heard henv hheard
  have hrun : ∀ env' : Environment, judgeAnnounce env' p = judgeAnnounce env p →
      handleAnnounce env' p i identity s
        = ((judgeAnnounce env p s).1.map fun _ => (), (judgeAnnounce env p s).2) := by
    intro env' hjudge
    rw [handleAnnounce_eq, hjudge, Prog.bind_run]
    rcases hdecision : judgeAnnounce env p s with ⟨decision | _ | _ | _, t⟩
    case value =>
      cases decision with
      | none => rfl
      | some blobs => exact absurd (congrArg Prod.fst hdecision) (hrefused blobs)
    all_goals rfl
  refine ⟨?_, fun handlers => ?_⟩
  · rw [hrun env rfl]
    exact hsame
  · exact (hrun { env with announceHandlers := handlers } rfl).trans (hrun env rfl).symm

/-- `inbound` leaves everything as it was, and calls no announce handler, for an announce that was heard
before. -/
theorem inbound_heard (henv : Validates env) {raw : Bytes} {p : Packet} (hraw : unpack raw = some p)
    (htype : p.packetType = .announce) (interface : Option Interface) {s : TransportState}
    (hheard : Heard s p) :
    Untouched p.destinationHash s (inbound env raw interface s).2
      ∧ ∀ handlers, inbound { env with announceHandlers := handlers } raw interface s
        = inbound env raw interface s := by
  have hmeet : ∀ {a t}, announceArrives env raw interface s = (.value (some a), t) →
      Untouched p.destinationHash s t ∧ a.packet = { p with hops := a.packet.hops }
        ∧ Heard t a.packet := by
    intro a t hrun
    obtain ⟨htables, harrived⟩ := announceArrives_spec hraw htype interface hrun
    have huntouched : Untouched p.destinationHash s t := .of_tables htables
    have hpacket := (harrived a rfl).1
    refine ⟨huntouched, hpacket, ?_⟩
    rw [hpacket]
    exact huntouched.heard hheard
  constructor
  · rw [inbound_announce hraw htype]
    have hends : (announceArrives env raw interface >>= announceHandled env).Ends s
        fun _ t => Untouched p.destinationHash s t := by
      have hrelease : Prog.Keeps (Untouched p.destinationHash)
          (Prog.modify (setJobsLocked false) : Prog String TransportState Unit) :=
        .modify fun _ => .of_same rfl rfl rfl rfl
      unfold Prog.Ends
      rw [Prog.bind_run]
      rcases hrun : announceArrives env raw interface s with ⟨arrived | _ | _ | _, t⟩
      case value =>
        cases arrived with
        | none =>
          exact .trans _ _ _ (.of_tables (announceArrives_spec hraw htype interface hrun).1)
            (hrelease t)
        | some a =>
          obtain ⟨hsame, hpacket, hheard'⟩ := hmeet hrun
          have hhandled := (handleAnnounce_heard henv hheard' a.receivingInterface a.identity).1
          rw [show a.packet.destinationHash = p.destinationHash by rw [hpacket]] at hhandled
          refine .trans _ _ _ hsame ?_
          show Untouched p.destinationHash t
            ((handleAnnounce env a.packet a.receivingInterface a.identity >>= fun _ =>
              Prog.modify (setJobsLocked false)) t).2
          rw [Prog.bind_run]
          rcases hrun' : handleAnnounce env a.packet a.receivingInterface a.identity t
            with ⟨_ | _ | _ | _, u⟩ <;> rw [hrun'] at hhandled
          case value => exact .trans _ _ _ hhandled (hrelease u)
          all_goals exact hhandled
      all_goals exact .of_tables (announceArrives_spec hraw htype interface hrun).1
    refine (?_ : Prog.Ends _ s fun _ t => Untouched p.destinationHash s t)
    refine .call (hends.mono fun o t h => ?_)
    cases o <;> exact h
  · intro handlers
    rw [inbound_announce hraw htype, inbound_announce hraw htype]
    refine Prog.call_congr_run ?_
    show (announceArrives env raw interface >>=
        announceHandled { env with announceHandlers := handlers }) s = _
    refine Prog.bind_congr_value fun arrived t hrun => ?_
    cases arrived with
    | none => rfl
    | some a =>
      obtain ⟨-, -, hheard'⟩ := hmeet hrun
      have hhandlers := (handleAnnounce_heard henv hheard' a.receivingInterface a.identity).2 handlers
      show (handleAnnounce { env with announceHandlers := handlers } a.packet a.receivingInterface
          a.identity >>= fun _ => Prog.modify (setJobsLocked false)) t
        = (handleAnnounce env a.packet a.receivingInterface a.identity >>= fun _ =>
          Prog.modify (setJobsLocked false)) t
      rw [Prog.bind_run, Prog.bind_run, hhandlers]

/-! ## What an accepted announce records -/

/-- The random blobs recorded for the path to a destination, as they are read. -/
def recordedBlobs (s : TransportState) (d : Address) : List Bytes :=
  ((getPath s d).map DestinationEntry.randomBlobs).getD []

/-- A list of random blobs that a blob was added to: it is there, the list has not grown too long, and
what was dropped was the oldest. -/
structure Records (blob : Bytes) (before after : List Bytes) : Prop where
  recorded : blob ∈ after
  bounded : after.length ≤ maxRandomBlobs
  oldest : ∃ dropped, dropped ++ after = if blob ∈ before then before else before ++ [blob]

/-- The last elements of a list are its end. -/
theorem lastOf_suffix {α : Type} (n : Nat) (l : List α) : ∃ dropped, dropped ++ lastOf n l = l :=
  ⟨_, List.take_append_drop _ l⟩

/-- Of a list no more than so many last elements are kept. -/
theorem length_lastOf {α : Type} (n : Nat) (l : List α) : (lastOf n l).length ≤ n := by
  unfold lastOf
  rw [List.length_drop]
  omega

/-- The last element of a list is among its last ones. -/
theorem mem_lastOf_concat {α : Type} {n : Nat} (hn : 0 < n) (l : List α) (x : α) :
    x ∈ lastOf n (l ++ [x]) := by
  unfold lastOf
  have hlast : (l ++ [x]).drop l.length = [x] := by simp
  have hmem : x ∈ (l ++ [x]).drop l.length := by rw [hlast]; exact List.mem_singleton_self x
  refine (List.drop_sublist_drop_left _ ?_).subset hmem
  rw [List.length_append, List.length_singleton]
  omega

/-- The path record of an announce keeps the last random blobs. -/
theorem encode_randomBlobs (env : Environment) (p : Packet) (i : Interface) (blobs : List Bytes) :
    (announcedPath env p i blobs).encode.randomBlobs
      = lastOf persistRandomBlobs (addRandomBlob (randomBlob p) blobs) := by
  simp only [announcedPath, DestinationEntry.encode, lastOf]

/-- The blobs that are stored with a path are the old ones and the new one, while there are few enough to keep
all. -/
theorem records_encode (env : Environment) (p : Packet) (i : Interface) {blobs : List Bytes}
    (hshort : blobs.length ≤ persistRandomBlobs) :
    Records (randomBlob p) blobs (announcedPath env p i blobs).encode.randomBlobs := by
  have hpersist : persistRandomBlobs = 16 := rfl
  have hmax : maxRandomBlobs = 32 := rfl
  rw [encode_randomBlobs]
  have hbounded := length_lastOf persistRandomBlobs (addRandomBlob (randomBlob p) blobs)
  by_cases hold : randomBlob p ∈ blobs
  · have hadd : addRandomBlob (randomBlob p) blobs = blobs := if_pos hold
    rw [hadd] at hbounded ⊢
    have hall : lastOf persistRandomBlobs blobs = blobs := by
      unfold lastOf
      rw [Nat.sub_eq_zero_of_le hshort, List.drop_zero]
    exact
      { recorded := by rw [hall]; exact hold
        bounded := by omega
        oldest := by rw [if_pos hold]; exact lastOf_suffix _ _ }
  · have hadd : addRandomBlob (randomBlob p) blobs = blobs ++ [randomBlob p] := by
      unfold addRandomBlob
      rw [if_neg hold]
      unfold lastOf
      rw [Nat.sub_eq_zero_of_le, List.drop_zero]
      rw [List.length_append, List.length_singleton]
      omega
    rw [hadd] at hbounded ⊢
    exact
      { recorded := mem_lastOf_concat (by decide) _ _
        bounded := by omega
        oldest := by rw [if_neg hold]; exact lastOf_suffix _ _ }

/-- `acceptAnnounce` up to the path store. -/
def prepareAnnounce (env : Environment) (p : Packet) (i : Interface) (identity : Address) :
    Prog String TransportState Unit := do
  let blocked ← rateBlocked env.now p i
  scheduleAnnounce env p i blocked
  answerWaiting env p i identity

/-- Accepting an announce is preparing it, storing the path and calling the handlers, in this order. -/
theorem acceptAnnounce_eq (env : Environment) (p : Packet) (i : Interface) (identity : Address)
    (blobs : List Bytes) (s : TransportState) :
    acceptAnnounce env p i identity blobs s
      = (prepareAnnounce env p i identity >>= fun _ =>
          storePath env p i blobs >>= fun _ => callAnnounceHandlers env p) s := by
  unfold acceptAnnounce prepareAnnounce
  rw [Prog.bind_assoc_run]
  refine Prog.bind_congr_run _ (fun blocked t => ?_) s
  rw [Prog.bind_assoc_run]

theorem prepareAnnounce_samePaths (p : Packet) (i : Interface) (identity : Address) :
    Prog.Keeps SamePaths (prepareAnnounce env p i identity) :=
  .bind SamePaths.trans (rateBlocked_samePaths _ p i) fun _ =>
    .bind SamePaths.trans (scheduleAnnounce_samePaths p i _) fun _ => answerWaiting_samePaths p i identity

/-- The steps towards accepting an announce. -/
theorem judgeAnnounce_steps {p : Packet} {s t : TransportState} {blobs : List Bytes}
    (h : judgeAnnounce env p s = (.value (some blobs), t)) :
    ∃ u v w add, callHandler (env.validateAnnounce p) s = (.value true, u)
      ∧ Prog.when (p.transportId.isSome ∧ env.transportEnabled = true)
          (Prog.modify (hearRebroadcast env.now p)) u = ((.value () : Outcome String Unit), v)
      ∧ shouldAddPath env.now p v = (.value add, w) ∧ blackholeAllows env p add w = (.value true, t)
      ∧ blobs = recordedBlobs v p.destinationHash := by
  unfold judgeAnnounce at h
  rw [Prog.get_bind_run] at h
  split at h
  case isTrue => cases h
  case isFalse =>
    obtain ⟨valid, u, hvalid, h⟩ := Prog.exists_of_bind_value h
    cases valid with
    | false => cases h
    | true =>
      rw [if_neg (by decide)] at h
      obtain ⟨_, v, hhear, h⟩ := Prog.exists_of_bind_value h
      rw [Prog.get_bind_run] at h
      split at h
      case isTrue => cases h
      case isFalse =>
        obtain ⟨add, w, hadd, h⟩ := Prog.exists_of_bind_value h
        obtain ⟨allowed, x, hallowed, h⟩ := Prog.exists_of_bind_value h
        have hblobs : (if allowed = true then some (recordedBlobs v p.destinationHash) else none)
            = some blobs := Outcome.value.inj (congrArg Prod.fst h)
        have hstate : x = t := congrArg Prod.snd h
        cases allowed with
        | false => cases hblobs
        | true =>
          subst hstate
          exact ⟨u, v, w, add, hvalid, hhear, hadd, hallowed, (Option.some.inj hblobs).symm⟩

/-- An announce is accepted with the random blobs of the path that was known. -/
theorem judgeAnnounce_value (henv : Validates env) {p : Packet} {s t : TransportState}
    {blobs : List Bytes} (h : judgeAnnounce env p s = (.value (some blobs), t)) :
    blobs = recordedBlobs s p.destinationHash := by
  have hkeepsValid : Prog.Keeps SamePaths (callHandler (env.validateAnnounce p)) :=
    validateHandler_keeps henv (validateAnnounce_samePaths p false)
  have hkeepsHear : Prog.Keeps SamePaths
      (Prog.when (p.transportId.isSome ∧ env.transportEnabled = true)
        (Prog.modify (hearRebroadcast env.now p)) : Prog String TransportState Unit) :=
    .when SamePaths.refl fun _ => .modify (hearRebroadcast_samePaths _ p)
  obtain ⟨u, v, w, add, hvalid, hhear, -, -, hblobs⟩ := judgeAnnounce_steps h
  have hsv : SamePaths s v :=
    .trans _ _ _ (hkeepsValid.of_value hvalid) (hkeepsHear.of_value hhear)
  rw [hblobs]
  unfold recordedBlobs
  rw [hsv.getPath_eq]

/-- An announce is accepted, and the store takes its path. -/
def StoresPath (env : Environment) (p : Packet) (i : Interface) (identity : Address)
    (s : TransportState) : Prop :=
  ∃ blobs t u, judgeAnnounce env p s = (.value (some blobs), t)
    ∧ prepareAnnounce env p i identity t = (.value (), u)
    ∧ env.storePath p.destinationHash (announcedPath env p i blobs).encode = .ok true

/-- The state behind `_new_path_table.put`. -/
def pathStored (env : Environment) (p : Packet) (i : Interface) (blobs : List Bytes)
    (s : TransportState) : TransportState :=
  markPath .unknown p.destinationHash
    (putPath p.destinationHash (announcedPath env p i blobs).encode s)

/-- Storing the path is one write, made if the store takes the entry. -/
theorem storePath_run (env : Environment) (p : Packet) (i : Interface) (blobs : List Bytes)
    (s : TransportState) :
    storePath env p i blobs s = (.value (),
      if env.storePath p.destinationHash (announcedPath env p i blobs).encode = .ok true
      then pathStored env p i blobs s else s) := by
  unfold storePath
  rcases env.storePath p.destinationHash (announcedPath env p i blobs).encode with e | stored
  · rw [if_neg (by intro h; cases h)]
    rfl
  · cases stored with
    | true => rfl
    | false =>
      rw [if_neg (by intro h; cases h)]
      rfl

theorem storePath_keeps {R : TransportState → TransportState → Prop} (hrefl : ∀ s, R s s)
    (htrans : ∀ s t u, R s t → R t u → R s u) (hput : ∀ d path s, R s (putPath d path s))
    (hmark : ∀ d s, R s (markPath .unknown d s)) (p : Packet) (i : Interface) (blobs : List Bytes) :
    Prog.Keeps R (storePath env p i blobs) := by
  intro s
  rw [storePath_run]
  dsimp only
  split
  · exact htrans _ _ _ (hput _ _ s) (hmark _ _)
  · exact hrefl s

/-- A stored announce changes the path record of its destination, and no other. -/
theorem handleAnnounce_stores (henv : Validates env) (hhandlers : HandlersSpare SamePaths env)
    {p : Packet} {i : Interface} {identity : Address} {s : TransportState}
    (hstores : StoresPath env p i identity s) :
    ∃ u, SamePaths s u ∧ SamePaths (pathStored env p i (recordedBlobs s p.destinationHash) u)
      (handleAnnounce env p i identity s).2 := by
  obtain ⟨blobs, t, u, hjudge, hprepare, hstore⟩ := hstores
  have hst : SamePaths s t := (judgeAnnounce_samePaths henv p).of_value hjudge
  have htu : SamePaths t u := (prepareAnnounce_samePaths p i identity).of_value hprepare
  refine ⟨u, .trans _ _ _ hst htu, ?_⟩
  rw [handleAnnounce_eq, Prog.bind_value hjudge]
  dsimp only
  rw [acceptAnnounce_eq, Prog.bind_value hprepare, Prog.bind_value (storePath_run env p i blobs u),
    if_pos hstore, judgeAnnounce_value henv hjudge]
  exact callAnnounceHandlers_keeps SamePaths.refl SamePaths.trans (identityRecall_samePaths _)
    hhandlers _

/-- An announce that is not stored changes no path record. -/
theorem handleAnnounce_stores_not (henv : Validates env) (hhandlers : HandlersSpare SamePaths env)
    {p : Packet} {i : Interface} {identity : Address} {s : TransportState}
    (hstores : ¬ StoresPath env p i identity s) :
    SamePaths s (handleAnnounce env p i identity s).2 := by
  have hjudged := judgeAnnounce_samePaths henv p s
  rw [handleAnnounce_eq, Prog.bind_run]
  rcases hjudge : judgeAnnounce env p s with ⟨decision | _ | _ | _, t⟩ <;> rw [hjudge] at hjudged
  case value =>
    cases decision with
    | none => exact hjudged
    | some blobs =>
      refine .trans _ _ _ hjudged ?_
      dsimp only
      rw [acceptAnnounce_eq, Prog.bind_run]
      have hprepared : SamePaths t (prepareAnnounce env p i identity t).2 :=
        prepareAnnounce_samePaths p i identity t
      rcases hprepare : prepareAnnounce env p i identity t with ⟨_ | _ | _ | _, u⟩ <;>
        rw [hprepare] at hprepared
      case value =>
        refine .trans _ _ _ hprepared ?_
        dsimp only
        rw [Prog.bind_value (storePath_run env p i blobs u),
          if_neg fun hstore => hstores ⟨blobs, t, u, hjudge, hprepare, hstore⟩]
        exact callAnnounceHandlers_keeps SamePaths.refl SamePaths.trans (identityRecall_samePaths _)
          hhandlers _
      all_goals exact hprepared
  all_goals exact hjudged

/-- An announce that comes in is accepted, and the store takes its path. -/
def Accepts (env : Environment) (raw : Bytes) (interface : Option Interface) (s : TransportState) :
    Prop :=
  ∃ a t, announceArrives env raw interface s = (.value (some a), t)
    ∧ StoresPath env a.packet a.receivingInterface a.identity t

/-- What `inbound` does with an announce, but for the boundary of the function. -/
theorem inbound_announce_state {raw : Bytes} {p : Packet} (hraw : unpack raw = some p)
    (htype : p.packetType = .announce) (interface : Option Interface) (s : TransportState) :
    (inbound env raw interface s).2
      = ((announceArrives env raw interface >>= announceHandled env) s).2 := by
  rw [inbound_announce hraw htype]
  unfold Prog.call
  rcases (announceArrives env raw interface >>= announceHandled env) s with ⟨_ | _ | _ | _, t⟩ <;> rfl

/-- Behind the handling of an announce only the lock is released. -/
theorem announceHandled_samePaths (a : Arrived) (s : TransportState) :
    SamePaths (handleAnnounce env a.packet a.receivingInterface a.identity s).2
      (announceHandled env (some a) s).2 := by
  have hrelease : Prog.Keeps SamePaths
      (Prog.modify (setJobsLocked false) : Prog String TransportState Unit) := modify_samePaths
  exact Prog.Keeps.after SamePaths.refl _ (fun _ => hrelease) s

/-- An accepted announce changes the path record of its destination, and nothing else of the paths. -/
theorem inbound_accepts (henv : Validates env) (hhandlers : HandlersSpare SamePaths env) {raw : Bytes}
    {p : Packet} (hraw : unpack raw = some p) (htype : p.packetType = .announce)
    {interface : Option Interface} {s : TransportState} (haccepts : Accepts env raw interface s) :
    ∃ a u, ArrivedAs p interface a ∧ SamePaths s u
      ∧ SamePaths (pathStored env a.packet a.receivingInterface (recordedBlobs s p.destinationHash) u)
        (inbound env raw interface s).2 := by
  obtain ⟨a, t, harrives, hstores⟩ := haccepts
  obtain ⟨htables, harrived⟩ := announceArrives_spec hraw htype interface harrives
  have hpacket := (harrived a rfl).1
  have hst := htables.samePaths
  obtain ⟨u, htu, hstored⟩ := handleAnnounce_stores henv hhandlers hstores
  have hblobs : recordedBlobs t a.packet.destinationHash = recordedBlobs s p.destinationHash := by
    unfold recordedBlobs
    rw [hst.getPath_eq, show a.packet.destinationHash = p.destinationHash by rw [hpacket]]
  rw [hblobs] at hstored
  refine ⟨a, u, harrived a rfl, .trans _ _ _ hst htu, .trans _ _ _ hstored ?_⟩
  rw [inbound_announce_state hraw htype, Prog.bind_value harrives]
  exact announceHandled_samePaths a t

/-- An announce that is not accepted changes no path. -/
theorem inbound_accepts_not (henv : Validates env) (hhandlers : HandlersSpare SamePaths env)
    {raw : Bytes} {p : Packet} (hraw : unpack raw = some p) (htype : p.packetType = .announce)
    {interface : Option Interface} {s : TransportState} (haccepts : ¬ Accepts env raw interface s) :
    SamePaths s (inbound env raw interface s).2 := by
  rw [inbound_announce_state hraw htype, Prog.bind_run]
  rcases hrun : announceArrives env raw interface s with ⟨arrived | _ | _ | _, t⟩
  case value =>
    have hst := (announceArrives_spec hraw htype interface hrun).1.samePaths
    cases arrived with
    | none => exact .trans _ _ _ hst (.of_same rfl rfl rfl rfl)
    | some a =>
      have hstores : ¬ StoresPath env a.packet a.receivingInterface a.identity t :=
        fun h => haccepts ⟨a, t, hrun, h⟩
      exact .trans _ _ _ hst (.trans _ _ _ (handleAnnounce_stores_not henv hhandlers hstores)
        (announceHandled_samePaths a t))
  all_goals exact (announceArrives_spec hraw htype interface hrun).1.samePaths

/-- The path that is stored is the one of the announce, in place of what was there. -/
theorem pathStored_pathTable (env : Environment) (p : Packet) (i : Interface) (blobs : List Bytes)
    (s : TransportState) : (pathStored env p i blobs s).pathTable
      = s.pathTable.insert p.destinationHash (announcedPath env p i blobs).encode := by
  unfold pathStored markPath
  split <;> rfl

/-- Storing a path leaves the interfaces as they are. -/
theorem pathStored_interfaces (env : Environment) (p : Packet) (i : Interface) (blobs : List Bytes)
    (s : TransportState) : (pathStored env p i blobs s).interfaces = s.interfaces := by
  unfold pathStored markPath
  split <;> rfl

/-- A path that was stored reads back on a registered interface. -/
theorem getPath_putPath {p q : Packet} {i i' : Interface} {s : TransportState}
    (hinterface : findInterface s i.id = some i') (hraw : unpack p.raw = some q) (blobs : List Bytes) :
    getPath (putPath p.destinationHash (announcedPath env p i blobs).encode s) p.destinationHash
      = some
        { timestamp := env.now, receivedFrom := receivedFrom p, hops := p.hops
          expires := env.now + pathTime i
          randomBlobs := (announcedPath env p i blobs).encode.randomBlobs, receivingInterface := i'
          announcePacket := { q with hops := q.hops + 1 } } := by
  have hfound : findInterface (putPath p.destinationHash (announcedPath env p i blobs).encode s)
      (announcedPath env p i blobs).encode.receivingInterface = some i' := hinterface
  have hunpacks : unpack (announcedPath env p i blobs).encode.announce = some q := hraw
  unfold getPath
  rw [show (putPath p.destinationHash (announcedPath env p i blobs).encode s).pathTable
    = s.pathTable.insert p.destinationHash (announcedPath env p i blobs).encode from rfl,
    AList.lookup_insert, Option.bind_some]
  unfold StoredPath.decode
  simp only [hfound, hunpacks]
  rfl

/-- A record that is put changes no other path. -/
theorem getPath_putPath_ne {d d' : Address} (hd : d' ≠ d) (path : StoredPath) (s : TransportState) :
    getPath (putPath d path s) d' = getPath s d' := by
  unfold getPath
  rw [show (putPath d path s).pathTable = s.pathTable.insert d path from rfl,
    AList.lookup_insert_ne hd]
  rfl

/-- The path of an accepted announce: it has the announce packet, its random blob among those recorded
before, and no mark. All other paths are as they were. -/
theorem inbound_accepts_path (henv : Validates env) (hhandlers : HandlersSpare SamePaths env)
    {raw : Bytes} {p : Packet} (hraw : unpack raw = some p) (htype : p.packetType = .announce)
    {i : Interface} {s : TransportState} (hregistered : (findInterface s i.id).isSome)
    (haccepts : Accepts env raw (some i) s) :
    (∃ entry, getPath (inbound env raw (some i) s).2 p.destinationHash = some entry
        ∧ entry.announcePacket = { p with hops := p.hops + 1 }
        ∧ entry.randomBlobs = lastOf persistRandomBlobs
          (addRandomBlob (randomBlob p) (recordedBlobs s p.destinationHash)))
      ∧ pathIsUnresponsive (inbound env raw (some i) s).2 p.destinationHash = false
      ∧ ∀ d, d ≠ p.destinationHash →
        getPath (inbound env raw (some i) s).2 d = getPath s d := by
  obtain ⟨a, u, ⟨hpacket, hinterface⟩, hsu, hstored⟩ :=
    inbound_accepts henv hhandlers hraw htype haccepts
  cases hinterface
  have hdestination : a.packet.destinationHash = p.destinationHash := by rw [hpacket]
  have hblob : randomBlob a.packet = randomBlob p := by rw [hpacket]; rfl
  have hraw' : unpack a.packet.raw = some p := by
    rw [hpacket, show ({ p with hops := a.packet.hops } : Packet).raw = raw from
      (unpack_sound hraw).2.1, hraw]
  obtain ⟨i', hfound⟩ := Option.isSome_iff_exists.mp hregistered
  have hfound' : findInterface u a.receivingInterface.id = some i' := by
    unfold findInterface at hfound ⊢
    rw [hsu.interfaces]
    exact hfound
  have hread := @getPath_putPath env _ _ _ _ _ hfound' hraw' (recordedBlobs s p.destinationHash)
  -- behind the store the paths are those of the state in which the record was put
  have hafter : ∀ d, getPath (inbound env raw (some a.receivingInterface) s).2 d
      = getPath (putPath a.packet.destinationHash (announcedPath env a.packet a.receivingInterface
        (recordedBlobs s p.destinationHash)).encode u) d :=
    getPath_of_same (hstored.pathTable.trans (pathStored_pathTable _ _ _ _ _))
      (hstored.interfaces.trans (pathStored_interfaces _ _ _ _ _))
  refine ⟨?_, ?_, fun d hd => ?_⟩
  · have hpath := (hafter a.packet.destinationHash).trans hread
    rw [hdestination] at hpath
    refine ⟨_, hpath, rfl, ?_⟩
    dsimp only
    rw [encode_randomBlobs, hblob]
  · apply Bool.eq_false_iff.mpr
    intro hunresponsive
    have hmarked := hstored.marks _ hunresponsive
    unfold pathStored markPath at hmarked
    rw [hread, Option.isSome_some, if_pos rfl, ← hdestination] at hmarked
    unfold pathIsUnresponsive at hmarked
    dsimp only at hmarked
    rw [AList.lookup_insert] at hmarked
    cases of_decide_eq_true hmarked
  · rw [hafter, getPath_putPath_ne (by rw [hdestination]; exact hd), hsu.getPath_eq]

/-! ## Runs -/

namespace Sample

/-- A node that has not heard anything. -/
def listening : TransportState := { identity := some (.fill 3), interfaces := [{ id := 1 }] }

end Sample

/-- What happens to the path records of a node: announces come in, and anything else puts no record. -/
inductive PathStep : TransportState → TransportState → Prop
  | announce (env : Environment) (henv : Validates env) (hhandlers : HandlersSpare SamePaths env)
    (raw : Bytes) (p : Packet) (hraw : unpack raw = some p) (htype : p.packetType = .announce)
    (interface : Option Interface) (s : TransportState) : PathStep s (inbound env raw interface s).2
  | other (s t : TransportState)
    (hpaths : ∀ d r, t.pathTable.lookup d = some r → s.pathTable.lookup d = some r) : PathStep s t

/-- A state in any run from an empty path table. -/
def PathsReached (s : TransportState) : Prop :=
  ∃ fresh : TransportState, fresh.pathTable = ∅ ∧ Relation.ReflTransGen PathStep fresh s

/-- Every path record holds as many random blobs as are persisted, or fewer. -/
def BlobsBounded (s : TransportState) : Prop :=
  TableAll (fun _ r => r.randomBlobs.length ≤ persistRandomBlobs) s.pathTable

/-- No step stores a path with more blobs than are persisted. -/
theorem PathStep.bounded {s t : TransportState} (hstep : PathStep s t) (h : BlobsBounded s) :
    BlobsBounded t := by
  cases hstep with
  | announce env henv hhandlers raw p hraw htype interface =>
    by_cases haccepts : Accepts env raw interface s
    · obtain ⟨a, u, -, hsu, hstored⟩ := inbound_accepts henv hhandlers hraw htype haccepts
      unfold BlobsBounded
      rw [hstored.pathTable, pathStored_pathTable, hsu.pathTable]
      refine h.insert ?_
      rw [encode_randomBlobs]
      exact length_lastOf _ _
    · have hsame := inbound_accepts_not henv hhandlers hraw htype haccepts
      unfold BlobsBounded
      rw [hsame.pathTable]
      exact h
  | other _ _ hpaths => exact fun d r hr => h d r (hpaths d r hr)

/-- In every run no stored path has more blobs than are persisted. -/
theorem PathsReached.bounded {s : TransportState} (h : PathsReached s) : BlobsBounded s := by
  obtain ⟨fresh, hfresh, hrun⟩ := h
  induction hrun with
  | refl =>
    unfold BlobsBounded
    rw [hfresh]
    exact TableAll.empty
  | tail _ hstep ih => exact hstep.bounded ih

/-- The blobs recorded for a destination are no more than are persisted. -/
theorem BlobsBounded.recorded {s : TransportState} (h : BlobsBounded s) (d : Address) :
    (recordedBlobs s d).length ≤ persistRandomBlobs := by
  unfold recordedBlobs
  cases hpath : getPath s d with
  | none => exact Nat.zero_le _
  | some entry =>
    obtain ⟨stored, hstored, hdecode⟩ := Option.bind_eq_some_iff.mp hpath
    have hblobs : entry.randomBlobs = stored.randomBlobs := by
      unfold StoredPath.decode at hdecode
      split at hdecode
      · cases hdecode
        rfl
      · cases hdecode
    show entry.randomBlobs.length ≤ persistRandomBlobs
    rw [hblobs]
    exact h d stored hstored

/-- An announce whose random blob is recorded leaves everything as it was and is not handed to the
announce handlers; an accepted one is recorded, and of what was recorded before only the oldest is
dropped, so that no list grows beyond the limit. -/
theorem replays_leave_paths (env : Environment) (henv : Validates env)
    (hhandlers : HandlersSpare SamePaths env) (s : TransportState) (hreached : PathsReached s)
    (raw : Bytes) (p : Packet) (hraw : unpack raw = some p) (htype : p.packetType = .announce)
    (interface : Option Interface) :
    (Heard s p → Untouched p.destinationHash s (inbound env raw interface s).2
        ∧ ∀ handlers, inbound { env with announceHandlers := handlers } raw interface s
          = inbound env raw interface s)
      ∧ (Accepts env raw interface s → ∃ r,
          (inbound env raw interface s).2.pathTable = s.pathTable.insert p.destinationHash r
            ∧ Records (randomBlob p) (recordedBlobs s p.destinationHash) r.randomBlobs)
      ∧ (¬ Accepts env raw interface s → (inbound env raw interface s).2.pathTable = s.pathTable)
      ∧ ∀ d r, s.pathTable.lookup d = some r → r.randomBlobs.length ≤ maxRandomBlobs := by
  have hbounded := hreached.bounded
  refine ⟨inbound_heard henv hraw htype interface, fun haccepts => ?_, fun haccepts =>
    (inbound_accepts_not henv hhandlers hraw htype haccepts).pathTable, fun d r hr =>
      (hbounded d r hr).trans (by decide)⟩
  obtain ⟨a, u, harrived, hsu, hstored⟩ := inbound_accepts henv hhandlers hraw htype haccepts
  have hdestination : a.packet.destinationHash = p.destinationHash := by rw [harrived.1]
  have hblob : randomBlob a.packet = randomBlob p := by rw [harrived.1]; rfl
  refine ⟨_, ?_, hblob ▸ records_encode env a.packet a.receivingInterface
    (hbounded.recorded p.destinationHash)⟩
  rw [hstored.pathTable, pathStored_pathTable, hsu.pathTable, hdestination]

set_option maxRecDepth 8000 in
/-- A copy of the announce that made the path is ignored. -/
theorem replays_leave_paths_copy :
    ∃ s t, s = (inbound Sample.trusting (Sample.arrival 0 Sample.payload).raw (some { id := 1 })
          Sample.listening).2
      ∧ t = (inbound Sample.trusting (Sample.arrival 5 Sample.payload).raw (some { id := 1 }) s).2
      ∧ Untouched (.fill 0) s t := by
  have hhandlers : HandlersSpare SamePaths Sample.trusting := fun handler hmem => by cases hmem
  have hreached : PathsReached (inbound Sample.trusting (Sample.arrival 0 Sample.payload).raw
      (some { id := 1 }) Sample.listening).2 :=
    ⟨Sample.listening, rfl, .single (.announce Sample.trusting (fun _ => rfl) hhandlers _ _
      (Sample.arrival 0 Sample.payload).unpacks (Sample.arrival 0 Sample.payload).isAnnounce _ _)⟩
  refine ⟨_, _, rfl, rfl, ?_⟩
  exact ((replays_leave_paths Sample.trusting (fun _ => rfl) hhandlers _ hreached _ _
    (Sample.arrival 5 Sample.payload).unpacks (Sample.arrival 5 Sample.payload).isAnnounce _).1
    ⟨_, rfl, by decide +kernel, rfl⟩).1

namespace Sample

/-- The announce was heard, and then its interface was taken away and another one was registered. -/
def moved : TransportState :=
  { (inbound trusting (arrival 0 payload).raw (some { id := 1 }) listening).2 with interfaces := [{ id := 2 }] }

set_option maxRecDepth 8000 in
theorem moved_reached : PathsReached moved := by
  have hhandlers : HandlersSpare SamePaths trusting := fun handler hmem => by cases hmem
  have hheard : PathStep listening (inbound trusting (arrival 0 payload).raw (some { id := 1 }) listening).2 :=
    .announce trusting (fun _ => rfl) hhandlers _ _ (arrival 0 payload).unpacks (arrival 0 payload).isAnnounce _ _
  exact ⟨listening, rfl, .tail (.single hheard) (.other _ _ fun _ _ h => h)⟩

end Sample

set_option maxRecDepth 8000 in
/-- A record whose interface is gone is no path, although it is still stored with its random blobs: a copy of the
announce that made it is accepted and replaces it. -/
theorem unregistered_path_replaced :
    ¬ ∀ env, Validates env → HandlersSpare SamePaths env → ∀ s, PathsReached s →
      ∀ raw p, unpack raw = some p → p.packetType = .announce →
        ∀ r, s.pathTable.lookup p.destinationHash = some r → randomBlob p ∈ r.randomBlobs →
          pathIsUnresponsive s p.destinationHash = false →
          ∀ interface, Untouched p.destinationHash s (inbound env raw interface s).2 := by
  intro h
  have hhandlers : HandlersSpare SamePaths Sample.trusting := fun handler hmem => by cases hmem
  let echo := Sample.arrival 5 Sample.payload
  have hstored := Option.eq_some_of_isSome
    (o := Sample.moved.pathTable.lookup echo.packet.destinationHash) (by decide +kernel)
  have huntouched := h Sample.trusting (fun _ => rfl) hhandlers Sample.moved Sample.moved_reached _ _
    echo.unpacks echo.isAnnounce _ hstored (by decide +kernel) rfl (some { id := 2 })
  have hhops : ((inbound Sample.trusting echo.raw (some { id := 2 }) Sample.moved).2.pathTable.lookup
      (.fill 0)).map (·.hops) = (Sample.moved.pathTable.lookup (.fill 0)).map (·.hops) := by
    rw [huntouched.pathTable]
  exact absurd hhops (by decide +kernel)

/-! ## Paths that are marked unresponsive -/

/-- Announces and marks come in any order, but the destination `d` is not marked unresponsive. -/
inductive Interleaved (d : Address) : TransportState → TransportState → Prop
  | announce (env : Environment) (henv : Validates env) (hhandlers : HandlersSpare SamePaths env)
    (raw : Bytes) (p : Packet) (hraw : unpack raw = some p) (htype : p.packetType = .announce)
    (interface : Option Interface) (s : TransportState) :
    Interleaved d s (inbound env raw interface s).2
  | mark (state : PathState) (d' : Address) (hmark : d = d' → state ≠ .unresponsive)
    (s : TransportState) : Interleaved d s (markPath state d' s)

/-- Steps in between do not make a path unresponsive. -/
theorem Interleaved.responsive {d : Address} {s t : TransportState} (hstep : Interleaved d s t)
    (h : pathIsUnresponsive s d = false) : pathIsUnresponsive t d = false := by
  apply Bool.eq_false_iff.mpr
  intro hunresponsive
  refine absurd ?_ (Bool.eq_false_iff.mp h)
  cases hstep with
  | announce env henv hhandlers raw p hraw htype interface =>
    by_cases haccepts : Accepts env raw interface s
    · obtain ⟨a, u, -, hsu, hstored⟩ := inbound_accepts henv hhandlers hraw htype haccepts
      have hmarked : pathIsUnresponsive (putPath a.packet.destinationHash (announcedPath env a.packet
          a.receivingInterface (recordedBlobs s p.destinationHash)).encode u) d = true :=
        pathIsUnresponsive_markPath (hstored.marks d hunresponsive) fun _ => by decide
      exact hsu.marks d hmarked
    · exact (inbound_accepts_not henv hhandlers hraw htype haccepts).marks d hunresponsive
  | mark state d' hmark => exact pathIsUnresponsive_markPath hunresponsive hmark

/-- Over a run of such steps a path stays responsive, by induction on the run. -/
theorem responsive_run {d : Address} {s t : TransportState}
    (hrun : Relation.ReflTransGen (Interleaved d) s t) (h : pathIsUnresponsive s d = false) :
    pathIsUnresponsive t d = false := by
  induction hrun with
  | refl => exact h
  | tail _ hstep ih => exact hstep.responsive ih

/-- A path whose random blobs are recorded is there. -/
theorem heard_of_recorded {s : TransportState} {p : Packet}
    (hblob : randomBlob p ∈ recordedBlobs s p.destinationHash)
    (hstate : pathIsUnresponsive s p.destinationHash = false) : Heard s p := by
  unfold recordedBlobs at hblob
  cases hpath : getPath s p.destinationHash with
  | none =>
    rw [hpath] at hblob
    cases hblob
  | some entry =>
    rw [hpath] at hblob
    exact ⟨entry, hpath, hblob, hstate⟩

/-- An accepted announce ends the mark of its destination, and its random blob is recorded. -/
theorem inbound_accepts_settled (henv : Validates env) (hhandlers : HandlersSpare SamePaths env)
    {raw : Bytes} {p : Packet} (hraw : unpack raw = some p) (htype : p.packetType = .announce)
    {i : Interface} {s : TransportState} (hreached : PathsReached s)
    (hregistered : (findInterface s i.id).isSome) (haccepts : Accepts env raw (some i) s) :
    pathIsUnresponsive (inbound env raw (some i) s).2 p.destinationHash = false
      ∧ randomBlob p ∈ recordedBlobs (inbound env raw (some i) s).2 p.destinationHash := by
  obtain ⟨⟨entry, hpath, -, hblobs⟩, hstate, -⟩ :=
    inbound_accepts_path henv hhandlers hraw htype hregistered haccepts
  refine ⟨hstate, ?_⟩
  unfold recordedBlobs at hblobs ⊢
  rw [hpath, Option.map_some, Option.getD_some, hblobs]
  exact (records_encode env p i (hreached.bounded.recorded p.destinationHash)).recorded

namespace Sample

/-- A payload whose random blob ends in a byte. -/
def payloadWith (blob : UInt8) : Bytes :=
  List.replicate 74 7 ++ List.replicate 9 0 ++ [blob] ++ List.replicate 64 7

/-- The destination of the announces. -/
def marked (s : TransportState) : TransportState := markPath .unresponsive (.fill 0) s

/-- An announce comes in on the one interface. -/
def hears (env : Environment) (s : TransportState) (a : Arrival) : TransportState :=
  (inbound env a.raw (some { id := 1 }) s).2

/-- After the time paths live. -/
def late : Environment := { trusting with now := 1000000 }

/-- Sixteen further announces, each emitted after the one before. -/
def newer : List Arrival := (List.range 16).map fun k => arrival 0 (payloadWith (UInt8.ofNat (k + 2)))

/-- Hearing an announce is a step of the run, and one that can lie in between. -/
theorem hears_step {env : Environment} (henv : Validates env) (hidle : env.announceHandlers = [])
    (d : Address) (s : TransportState) (a : Arrival) :
    PathStep s (hears env s a) ∧ Interleaved d s (hears env s a) := by
  have hhandlers : HandlersSpare SamePaths env := by
    intro handler hmem
    rw [hidle] at hmem
    cases hmem
  exact ⟨.announce env henv hhandlers a.raw a.packet a.unpacks a.isAnnounce _ s,
    .announce env henv hhandlers a.raw a.packet a.unpacks a.isAnnounce _ s⟩

/-- Hearing announces one after the other is a run of such steps. -/
theorem hears_run {env : Environment} (henv : Validates env) (hidle : env.announceHandlers = [])
    (d : Address) (as : List Arrival) (s : TransportState) :
    Relation.ReflTransGen (Interleaved d) s (as.foldl (hears env) s) := by
  induction as generalizing s with
  | nil => exact .refl
  | cons a as ih => exact .head (hears_step henv hidle d s a).2 (ih _)

/-- The first announce was heard, and its path is marked. -/
def first : TransportState := marked (hears trusting listening (arrival 0 (payloadWith 1)))

/-- A copy with more hops was accepted. -/
def reopened : TransportState := hears trusting first (arrival 1 (payloadWith 1))

/-- The hop count of the path. -/
def hopsStored (s : TransportState) : Option UInt8 := (s.pathTable.lookup (.fill 0)).map (·.hops)

/-- The hops of the stored paths are read from the path table. -/
theorem hopsStored_congr {s t : TransportState} (h : t.pathTable = s.pathTable) :
    hopsStored t = hopsStored s := by
  unfold hopsStored
  rw [h]

set_option maxRecDepth 8000 in
theorem first_reached : PathsReached first := by
  have hheard := (@hears_step trusting (fun _ => rfl) rfl (.fill 0) listening
    (arrival 0 (payloadWith 1))).1
  refine ⟨listening, rfl, .tail (.single hheard) (.other _ _ fun d r hr => ?_)⟩
  unfold first marked markPath at hr
  split at hr <;> exact hr

set_option maxRecDepth 8000 in
theorem first_accepts : Accepts trusting (arrival 1 (payloadWith 1)).raw (some { id := 1 }) first := by
  by_contra hnot
  have hsame := inbound_accepts_not (fun _ => rfl) (fun handler hmem => by cases hmem)
    (arrival 1 (payloadWith 1)).unpacks (arrival 1 (payloadWith 1)).isAnnounce hnot
  have hhops : hopsStored reopened = hopsStored first := hopsStored_congr hsame.pathTable
  exact absurd hhops (by decide +kernel)

end Sample

/-- An accepted announce ends the mark of its destination. From then on, however announces and marks
follow each other, the destination is not marked unless somebody marks it, and as long as the random
blob is among those recorded for the path every further copy leaves everything as it was. -/
theorem accepted_once_per_mark (env : Environment) (henv : Validates env)
    (hhandlers : HandlersSpare SamePaths env) (s : TransportState) (hreached : PathsReached s)
    (raw : Bytes) (p : Packet) (hraw : unpack raw = some p) (htype : p.packetType = .announce)
    (i : Interface) (hregistered : (findInterface s i.id).isSome)
    (haccepts : Accepts env raw (some i) s) :
    pathIsUnresponsive (inbound env raw (some i) s).2 p.destinationHash = false
      ∧ randomBlob p ∈ recordedBlobs (inbound env raw (some i) s).2 p.destinationHash
      ∧ ∀ u, Relation.ReflTransGen (Interleaved p.destinationHash) (inbound env raw (some i) s).2 u →
        pathIsUnresponsive u p.destinationHash = false
          ∧ (randomBlob p ∈ recordedBlobs u p.destinationHash →
            ∀ env', Validates env' → ∀ raw' q, unpack raw' = some q → q.packetType = .announce →
              q.destinationHash = p.destinationHash → randomBlob q = randomBlob p → ∀ interface,
                Untouched p.destinationHash u (inbound env' raw' interface u).2
                  ∧ ∀ handlers, inbound { env' with announceHandlers := handlers } raw' interface u
                    = inbound env' raw' interface u) := by
  obtain ⟨hstate, hblob⟩ := inbound_accepts_settled henv hhandlers hraw htype hreached hregistered haccepts
  refine ⟨hstate, hblob, fun u hrun => ⟨responsive_run hrun hstate, ?_⟩⟩
  intro hrecorded env' henv' raw' q hraw' htype' hdestination hsame interface
  have hheard : Heard u q := by
    refine heard_of_recorded ?_ ?_
    · rw [hsame, hdestination]
      exact hrecorded
    · rw [hdestination]
      exact responsive_run hrun hstate
  rw [← hdestination]
  exact inbound_heard henv' hraw' htype' interface hheard

set_option maxRecDepth 8000 in
/-- A copy with more hops takes over the marked path, and ends the mark. -/
theorem accepted_once_per_mark_copy :
    pathIsUnresponsive Sample.first (.fill 0) = true
      ∧ pathIsUnresponsive Sample.reopened (.fill 0) = false := by
  refine ⟨by decide +kernel, ?_⟩
  exact (accepted_once_per_mark Sample.trusting (fun _ => rfl) (fun handler hmem => by cases hmem)
    Sample.first Sample.first_reached _ _ (Sample.arrival 1 (Sample.payloadWith 1)).unpacks
    (Sample.arrival 1 (Sample.payloadWith 1)).isAnnounce { id := 1 } (by decide)
    Sample.first_accepts).1

set_option maxRecDepth 8000 in
/-- A copy of an accepted announce is accepted, without a mark, once sixteen newer announces have pushed
its random blob out and the path has expired. -/
theorem pushed_out_copy_accepted :
    ¬ ∀ s, PathsReached s → ∀ env, Validates env → HandlersSpare SamePaths env →
      ∀ raw p, unpack raw = some p → p.packetType = .announce →
        pathIsUnresponsive s p.destinationHash = true → ∀ i, (findInterface s i.id).isSome →
          Accepts env raw (some i) s →
          ∀ u, Relation.ReflTransGen (Interleaved p.destinationHash) (inbound env raw (some i) s).2 u →
            ∀ env', Validates env' → ∀ raw' q, unpack raw' = some q → q.packetType = .announce →
              q.destinationHash = p.destinationHash → randomBlob q = randomBlob p → ∀ interface,
                Untouched p.destinationHash u (inbound env' raw' interface u).2 := by
  intro h
  have hhandlers : HandlersSpare SamePaths Sample.trusting := fun handler hmem => by cases hmem
  let echo := Sample.arrival 2 (Sample.payloadWith 1)
  have huntouched := h Sample.first Sample.first_reached Sample.trusting (fun _ => rfl) hhandlers
    _ _ (Sample.arrival 1 (Sample.payloadWith 1)).unpacks
    (Sample.arrival 1 (Sample.payloadWith 1)).isAnnounce (by decide +kernel) { id := 1 } (by decide)
    Sample.first_accepts _ (@Sample.hears_run Sample.trusting (fun _ => rfl) rfl (.fill 0) Sample.newer
      Sample.reopened) Sample.late (fun _ => rfl) echo.raw echo.packet echo.unpacks echo.isAnnounce
    rfl rfl (some { id := 1 })
  have hhops : Sample.hopsStored (Sample.hears Sample.late
        (Sample.newer.foldl (Sample.hears Sample.trusting) Sample.reopened) echo)
      = Sample.hopsStored (Sample.newer.foldl (Sample.hears Sample.trusting) Sample.reopened) :=
    Sample.hopsStored_congr huntouched.pathTable
  exact absurd hhops (by decide +kernel)

end MicroReticulum.Announce
