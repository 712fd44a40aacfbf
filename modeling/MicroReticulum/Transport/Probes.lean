import MicroReticulum.Announce.Destination
import MicroReticulum.Library.Logged
import MicroReticulum.Transport.ReturnedProofs

/-!
# Probes of neighbours

A neighbour is probed from two places of the job loop: when a link through it was never proven, and when a scan of the
statistics finds that it takes packets and returns no proofs. Only the scan looks whether a probe is pending and when
the last one was sent. `dispatchNeighborProbe` sends the probe, writes to its receipt and marks the neighbour.

No probe gets that far. Both places are reached while the jobs are running, and sending waits until they are not
(`dispatch_waits`), so that what the statistics and the receipts say of probes is what they said in the beginning,
which is nothing (`no_probe_sent`). The job loop does not go on either, as a link that was never proven shows.

So nothing is shown here of how probes would be rationed if they were sent. The guards of the scan, and the lack of them
at the other place, are in the definitions and decide nothing.
-/

namespace MicroReticulum.Transport

open MicroReticulum Packet Link Library Announce

variable {env : Environment} {n : Address} {s t u : TransportState}

/-! ## The probe -/

/-- `Type::Transport::NEIGHBOR_SUSPICION_MIN_PKTS` -/
def neighborSuspicionMinPkts : Nat := 5

/-- `Type::Transport::NEIGHBOR_PROBE_RATELIMIT` -/
def neighborProbeRatelimit : ℚ := 300

/-- `Type::Transport::NEIGHBOR_PROBE_TIMEOUT` -/
def neighborProbeTimeout : ℚ := 15

/-- `Type::Transport::NEIGHBOR_PROBE_PAYLOAD_SIZE` -/
def neighborProbePayloadSize : Nat := 16

/-- `Type::Transport::APP_NAME`, `rnstransport` in ASCII -/
def transportAppName : Bytes := [114, 110, 115, 116, 114, 97, 110, 115, 112, 111, 114, 116]

/-- `probe` in ASCII -/
def probeAspect : Bytes := [112, 114, 111, 98, 101]

/-- `Destination::hash` of the probe destination of an identity. -/
def probeDestination (env : Environment) (identity : IdentityEntry) : Except String Address :=
  (nameHash env.fullHash transportAppName probeAspect).map fun name =>
    truncatedHash env.fullHash (name.toList ++ (identityHash env identity).toList)

/-- A probe has a destination and no link, so nothing of it can be lost. -/
theorem probe_unlinked (destinationHash link : Address) (h : none = some link) :
    link = destinationHash ∧ DestinationType.single = .link := by
  cases h

/-- The packet of a probe, with random bytes for its payload. -/
def probeSpec (destinationHash : Address) (payload : List.Vector UInt8 neighborProbePayloadSize) : PacketSpec where
  destinationType := .single
  destinationHash
  data := payload.toList
  linkAddressed := probe_unlinked destinationHash

/-- A probe that was sent. -/
structure Probe where
  neighbor : Address
  time : ℚ

/-- A program that notes the probes it sends. -/
abbrev Probing (α : Type) : Type := Prog String (Logged TransportState Probe) α

/-- What follows the sending of a probe: its receipt, which `outbound` has put behind the others, gets the timeout and
the outcome handlers, and the neighbour is marked. -/
def pendProbe (now : ℚ) (neighbor : Address) (receipt : PacketReceipt) (s : TransportState) : TransportState :=
  { s with
    receipts := s.receipts.modifyLast fun r =>
      { r with timeout := neighborProbeTimeout, timeoutHandler := .neighborProbe neighbor }
    neighborStats := s.neighborStats.insert neighbor
      { neighborStat neighbor s with
        probePending := true, pendingProbeHash := some receipt.truncatedHash, lastProbeAt := now } }

/-- `Transport::_dispatch_neighbor_probe`. On an empty receipt the setters fail an assertion. -/
def dispatchNeighborProbe (env : Environment) (payload : Address → List.Vector UInt8 neighborProbePayloadSize)
    (neighbor : Address) : Probing Bool := do
  let identity ← Logged.lift (identityRecall env neighbor)
  match identity with
  | none => pure false
  | some identity => do
    let destination ← Prog.ofExcept (probeDestination env identity)
    let result ← Logged.lift (send env { spec := probeSpec destination (payload neighbor) })
    match result.receipt with
    | none => Prog.wait
    | some receipt => do
      Logged.lift (Prog.modify (pendProbe env.now neighbor receipt))
      Logged.note { neighbor, time := env.now }
      pure true

/-! ## The job loop -/

/-- The links whose proof has not come in time, in the cull of the link table: the next hop of each is probed. -/
def probeFailedLinks (env : Environment) (payload : Address → List.Vector UInt8 neighborProbePayloadSize) :
    Probing Unit := do
  let s ← Prog.get
  let failed := s.state.linkTable.entries.filter fun e => !e.2.validated && e.2.proofTimeout < env.now
  Prog.forEach failed fun e => do
    let _ ← dispatchNeighborProbe env payload e.2.nextHop
    pure ()

/-- A neighbour that the scan probes: it was used lately and often enough, has not returned a proof for five seconds,
and neither waits for a probe nor had one within the limit. -/
def NeighborStat.suspicious (now : ℚ) (stat : NeighborStat) : Bool :=
  now - stat.lastPacketAt ≤ neighborSuspicionWindow && neighborSuspicionMinPkts ≤ stat.packetsForwarded.toNat
    && stat.lastProofAt ≤ stat.lastPacketAt - 5 && !stat.probePending
    && neighborProbeRatelimit ≤ now - stat.lastProbeAt

/-- `Transport::_scan_neighbor_stats` -/
def scanNeighborStats (env : Environment) (payload : Address → List.Vector UInt8 neighborProbePayloadSize) :
    Probing Unit := do
  Logged.lift (Prog.modify (resetIdleNeighbors env.now))
  let s ← Prog.get
  Prog.forEach (s.state.neighborStats.keysWhere fun _ stat => stat.suspicious env.now) fun neighbor => do
    let _ ← dispatchNeighborProbe env payload neighbor
    pure ()

/-- `neighbor_probing_enabled()` and `probe_destination_enabled()` -/
structure ProbeSettings where
  neighborProbingEnabled : Bool
  probeDestinationEnabled : Bool

/-- The assignment of `_jobs_running`. -/
def setJobsRunning (running : Bool) (s : TransportState) : TransportState := { s with jobsRunning := running }

/-- `Transport::jobs`, as far as it probes neighbours. What either part throws is caught. -/
def probingJobs (env : Environment) (settings : ProbeSettings)
    (payload : Address → List.Vector UInt8 neighborProbePayloadSize) : Probing Unit := do
  Logged.lift (Prog.modify (setJobsRunning true))
  let s ← Prog.get
  Prog.when (s.state.jobsLocked = false) do
    Prog.catching (probeFailedLinks env payload) fun _ => pure ()
    Prog.when (env.transportEnabled && settings.neighborProbingEnabled && settings.probeDestinationEnabled) <|
      Prog.catching (scanNeighborStats env payload) fun _ => pure ()
  Logged.lift (Prog.modify (setJobsRunning false))

/-! ## The outcome of a probe -/

/-- The marks that `_validate_neighbor` and `_invalidate_neighbor` put on every path through a neighbour. -/
def markNeighborPaths (state : PathState) (neighbor : Address) (s : TransportState) : TransportState :=
  (s.pathTable.keysWhere fun _ path => path.receivedFrom = neighbor).foldl (fun s d => markPath state d s) s

/-- `Transport::_neighbor_probe_delivered` -/
def neighborProbeDelivered (neighbor : Address) (s : TransportState) : TransportState :=
  markNeighborPaths .responsive neighbor (resetDelivered neighbor s)

/-- `Transport::_neighbor_probe_timed_out` -/
def neighborProbeTimedOut (neighbor : Address) (s : TransportState) : TransportState :=
  markNeighborPaths .unresponsive neighbor
    { s with neighborStats := s.neighborStats.adjust neighbor fun stat =>
        { stat with probePending := false, pendingProbeHash := none } }

/-! ## A probe waits -/

/-- The program never ends with a value, and leaves the state as it was. -/
theorem send_waits (hrunning : s.jobsRunning = true) (p : NewPacket) :
    (send env p s).2 = s ∧ ∀ result, (send env p s).1 ≠ .value result := by
  constructor
  · have hrefl : ∀ s : TransportState, s.jobsRunning = true → s = s := fun _ _ => rfl
    have htrans : ∀ s t u : TransportState, (s.jobsRunning = true → t = s) → (t.jobsRunning = true → u = t) →
        s.jobsRunning = true → u = s := by
      intro s t u hst htu hs
      cases hst hs
      exact htu hs
    refine Prog.Keeps.bind (R := fun s t => s.jobsRunning = true → t = s) htrans (.ofExcept hrefl _) ?_ s hrunning
    intro _
    apply Prog.Keeps.bind htrans (.ofExcept hrefl _)
    intro packet t ht
    rw [outbound_waits ht rfl]
  · intro result hvalue
    obtain ⟨-, -, hpacked⟩ := Prog.of_ofExcept_value (Prod.ext hvalue rfl : send env p s = (.value result, (send env p s).2))
    obtain ⟨packet, -, hsent⟩ := Prog.of_ofExcept_value hpacked
    rw [outbound_waits hrunning rfl] at hsent
    cases hsent

/-- What a probe would change, and whether the jobs are running. -/
structure SameNeighbors (s t : TransportState) : Prop where
  jobsRunning : t.jobsRunning = s.jobsRunning
  neighborStats : t.neighborStats = s.neighborStats
  receipts : t.receipts = s.receipts

theorem SameNeighbors.refl (s : TransportState) : SameNeighbors s s := ⟨rfl, rfl, rfl⟩

theorem SameNeighbors.trans (s t u : TransportState) (h : SameNeighbors s t) (h' : SameNeighbors t u) :
    SameNeighbors s u :=
  ⟨h'.jobsRunning.trans h.jobsRunning, h'.neighborStats.trans h.neighborStats, h'.receipts.trans h.receipts⟩

variable {payload : Address → List.Vector UInt8 neighborProbePayloadSize} {x y : Logged TransportState Probe}

/-- A probe that is dispatched while the jobs are running is never sent, and leaves the statistics and the receipts as
they were. The call comes back only where the identity of the neighbour is not known. -/
theorem dispatch_waits (hrunning : x.state.jobsRunning = true) (neighbor : Address) :
    SameNeighbors x.state (dispatchNeighborProbe env payload neighbor x).2.state
      ∧ (dispatchNeighborProbe env payload neighbor x).2.log = x.log
      ∧ ∀ b, (dispatchNeighborProbe env payload neighbor x).1 = .value b →
        b = false ∧ (identityRecall env neighbor x.state).1 = .value none := by
  have hrecall := @identityRecall_keeps env _ SameNeighbors.refl SameNeighbors.trans (fun _ _ => ⟨rfl, rfl, rfl⟩)
    neighbor x.state
  unfold dispatchNeighborProbe
  rw [Prog.bind_run, Logged.lift_run]
  rcases hrun : identityRecall env neighbor x.state with ⟨identity | _ | e | _, t⟩ <;> rw [hrun] at hrecall
  case value =>
    cases identity with
    | none =>
      refine ⟨hrecall, rfl, fun b h => ?_⟩
      cases h
      exact ⟨rfl, rfl⟩
    | some identity =>
      dsimp only
      rw [Prog.bind_run]
      cases probeDestination env identity with
      | error e => exact ⟨hrecall, rfl, fun b h => by cases h⟩
      | ok destination =>
        dsimp only [Prog.ofExcept_ok_run]
        obtain ⟨hsame, hwaits⟩ := @send_waits env t (hrecall.jobsRunning.trans hrunning)
          { spec := probeSpec destination (payload neighbor) }
        rw [Prog.bind_run, Logged.lift_run]
        dsimp only
        rcases hsend : send env { spec := probeSpec destination (payload neighbor) } t with ⟨result | _ | e | _, u⟩ <;>
          rw [hsend] at hsame hwaits
        case value => exact absurd rfl (hwaits result)
        all_goals
          cases hsame
          exact ⟨hrecall, rfl, fun b h => by cases h⟩
  all_goals exact ⟨hrecall, rfl, fun b h => by cases h⟩

/-! ## The job loop sends none -/

/-- What the statistics of a neighbour say of probes. -/
def NeighborStat.probe (stat : NeighborStat) : Bool × Option Address × ℚ :=
  (stat.probePending, stat.pendingProbeHash, stat.lastProbeAt)

/-- No probe was sent, and nothing is said of probes that was not said before. -/
structure Unprobed (x y : Logged TransportState Probe) : Prop where
  receipts : y.state.receipts = x.state.receipts
  log : y.log = x.log
  stats : ∀ n, (neighborStat n y.state).probe = (neighborStat n x.state).probe

theorem Unprobed.refl (x : Logged TransportState Probe) : Unprobed x x := ⟨rfl, rfl, fun _ => rfl⟩

theorem Unprobed.trans (x y z : Logged TransportState Probe) (h : Unprobed x y) (h' : Unprobed y z) : Unprobed x z :=
  ⟨h'.receipts.trans h.receipts, h'.log.trans h.log, fun n => (h'.stats n).trans (h.stats n)⟩

/-- While the jobs are running, no probe is sent. -/
def UnprobedJobs (x y : Logged TransportState Probe) : Prop :=
  x.state.jobsRunning = true → y.state.jobsRunning = true ∧ Unprobed x y

theorem UnprobedJobs.refl (x : Logged TransportState Probe) : UnprobedJobs x x := fun hrunning => ⟨hrunning, .refl x⟩

theorem UnprobedJobs.trans (x y z : Logged TransportState Probe) (h : UnprobedJobs x y) (h' : UnprobedJobs y z) :
    UnprobedJobs x z := by
  intro hrunning
  obtain ⟨hrunning', hxy⟩ := h hrunning
  obtain ⟨hrunning'', hyz⟩ := h' hrunning'
  exact ⟨hrunning'', .trans _ _ _ hxy hyz⟩

/-- A probe that is dispatched from within the jobs waits for them, and is not sent. -/
theorem dispatch_unprobed (neighbor : Address) :
    Prog.Keeps UnprobedJobs (dispatchNeighborProbe env payload neighbor) := by
  intro x hrunning
  obtain ⟨hsame, hlog, -⟩ := @dispatch_waits env payload x hrunning neighbor
  refine ⟨hsame.jobsRunning.trans hrunning, hsame.receipts, hlog, fun n => ?_⟩
  rw [neighborStat_congr hsame.neighborStats]

/-- Resetting idle neighbours leaves the times of their probes as they are. -/
theorem resetIdleNeighbors_probe (now : ℚ) (n : Address) (s : TransportState) :
    (neighborStat n (resetIdleNeighbors now s)).probe = (neighborStat n s).probe := by
  unfold resetIdleNeighbors neighborStat
  rw [Table.lookup_mapValues]
  cases s.neighborStats.lookup n with
  | none => rfl
  | some stat =>
    simp only [Option.map_some, Option.getD_some]
    unfold NeighborStat.resetIdle
    split
    · rfl
    · rfl

/-- Of all the probes of a loop none is sent. -/
theorem dispatchAll_unprobed {α : Type} (neighbor : α → Address) (found : List α) :
    Prog.Keeps UnprobedJobs (Prog.forEach found fun e => do
      let _ ← dispatchNeighborProbe env payload (neighbor e)
      pure ()) := by
  apply Prog.Keeps.forEach UnprobedJobs.refl UnprobedJobs.trans
  intro e _
  exact .bind UnprobedJobs.trans (dispatch_unprobed (neighbor e)) fun _ => .pure UnprobedJobs.refl _

/-- The scan of the failed links sends no probe. -/
theorem probeFailedLinks_unprobed : Prog.Keeps UnprobedJobs (probeFailedLinks env payload) := by
  apply Prog.Keeps.bind UnprobedJobs.trans (.get UnprobedJobs.refl)
  intro x
  exact dispatchAll_unprobed _ _

/-- The scan of the neighbours sends no probe. -/
theorem scanNeighborStats_unprobed : Prog.Keeps UnprobedJobs (scanNeighborStats env payload) := by
  apply Prog.Keeps.bind UnprobedJobs.trans
  · exact fun x hrunning => ⟨hrunning, rfl, rfl, fun n => resetIdleNeighbors_probe env.now n x.state⟩
  intro _
  apply Prog.Keeps.bind UnprobedJobs.trans (.get UnprobedJobs.refl)
  intro x
  exact dispatchAll_unprobed _ _

/-- The part of the job loop between its two assignments. -/
theorem jobs_unprobed (settings : ProbeSettings) :
    Prog.Keeps UnprobedJobs ((Prog.get : Probing (Logged TransportState Probe)) >>= fun s =>
      Prog.when (s.state.jobsLocked = false) do
        Prog.catching (probeFailedLinks env payload) fun _ => pure ()
        Prog.when (env.transportEnabled && settings.neighborProbingEnabled && settings.probeDestinationEnabled) <|
          Prog.catching (scanNeighborStats env payload) fun _ => pure ()) := by
  apply Prog.Keeps.bind UnprobedJobs.trans (.get UnprobedJobs.refl)
  intro s
  apply Prog.Keeps.when UnprobedJobs.refl
  intro _
  apply Prog.Keeps.bind UnprobedJobs.trans
  · exact .catching UnprobedJobs.trans probeFailedLinks_unprobed fun _ => .pure UnprobedJobs.refl _
  intro _
  apply Prog.Keeps.when UnprobedJobs.refl
  intro _
  exact .catching UnprobedJobs.trans scanNeighborStats_unprobed fun _ => .pure UnprobedJobs.refl _

/-- The jobs send no probe, whatever is set: the first one that is due never comes back. -/
theorem probingJobs_unprobed (settings : ProbeSettings) : Prog.Keeps Unprobed (probingJobs env settings payload) := by
  have hflag : ∀ running, Prog.Keeps Unprobed (Logged.lift (Prog.modify (setJobsRunning running)) : Probing Unit) :=
    fun running x => ⟨rfl, rfl, fun _ => rfl⟩
  intro x
  set running : Logged TransportState Probe := { x with state := setJobsRunning true x.state } with hrunning
  obtain ⟨-, hjobs⟩ := @jobs_unprobed env payload settings running rfl
  apply Unprobed.trans _ _ _ (hflag true x)
  apply Unprobed.trans _ _ _ hjobs
  exact Prog.Keeps.after Unprobed.refl _ (fun _ => hflag false) running

/-! ## Runs -/

/-- What is said of probes was said before, or is gone. -/
structure ProbesFrom (s t : TransportState) : Prop where
  receipts : ∀ r ∈ t.receipts, ∀ n, r.timeoutHandler = .neighborProbe n →
    ∃ r' ∈ s.receipts, r'.timeoutHandler = .neighborProbe n
  stats : ∀ n, (neighborStat n t).probe = (neighborStat n s).probe ∨ (neighborStat n t).probe = ({} : NeighborStat).probe

theorem ProbesFrom.of_same (hreceipts : t.receipts = s.receipts) (hstats : t.neighborStats = s.neighborStats) :
    ProbesFrom s t :=
  ⟨fun r hr _ hhandler => ⟨r, hreceipts ▸ hr, hhandler⟩, fun n => .inl (by rw [neighborStat_congr hstats])⟩

theorem ProbesFrom.trans (s t u : TransportState) (h : ProbesFrom s t) (h' : ProbesFrom t u) : ProbesFrom s u where
  receipts r hr n hhandler := by
    obtain ⟨r', hr', hhandler'⟩ := h'.receipts r hr n hhandler
    exact h.receipts r' hr' n hhandler'
  stats n := by
    rcases h'.stats n with hsame | hgone
    · rw [hsame]
      exact h.stats n
    · exact .inr hgone

theorem recordNeighborPacket_probes (now : ℚ) (k : Address) (s : TransportState) :
    ProbesFrom s (recordNeighborPacket now k s) := by
  refine ⟨fun r hr _ hhandler => ⟨r, hr, hhandler⟩, fun n => .inl ?_⟩
  rw [neighborStat_recordNeighborPacket]
  split
  case isTrue h =>
    subst h
    rfl
  case isFalse => rfl

theorem recordNeighborProof_probes (now : ℚ) (k : Address) (s : TransportState) :
    ProbesFrom s (recordNeighborProof now k s) := by
  refine ⟨fun r hr _ hhandler => ⟨r, hr, hhandler⟩, fun n => .inl ?_⟩
  rw [neighborStat_recordNeighborProof]
  split
  case isTrue h =>
    rw [h.1]
    rfl
  case isFalse => rfl

theorem newReceipt_probes {r : PacketReceipt} (hnone : r.timeoutHandler = .none) (s : TransportState) :
    ProbesFrom s { s with receipts := s.receipts ++ [r] } := by
  refine ⟨fun r' hr' n hhandler => ?_, fun n => .inl rfl⟩
  rcases List.mem_append.mp hr' with hold | hnew
  · exact ⟨r', hold, hhandler⟩
  · cases List.mem_singleton.mp hnew
    rw [hnone] at hhandler
    cases hhandler

theorem recordForward_probes (env : Environment) (a : Arrived) (entry : DestinationEntry) (s : TransportState) :
    ProbesFrom s (recordForward env a entry s) := by
  unfold recordForward
  split
  · exact .of_same rfl rfl
  · exact .of_same rfl rfl

theorem markPath_probes (state : PathState) (d : Address) (s : TransportState) :
    ProbesFrom s (markPath state d s) := by
  unfold markPath
  split
  · exact .of_same rfl rfl
  · exact .of_same rfl rfl

theorem receiving_probes : Receiving ProbesFrom where
  refl _ := .of_same rfl rfl
  trans := ProbesFrom.trans
  lock _ _ := .of_same rfl rfl
  hash _ _ := .of_same rfl rfl
  wire _ _ _ := .of_same rfl rfl
  allowedAt _ _ _ := .of_same rfl rfl
  queue _ _ _ _ := .of_same rfl rfl
  count := recordNeighborPacket_probes
  receipt _ hnone s := newReceipt_probes hnone s
  forward := recordForward_probes
  link _ _ _ := .of_same rfl rfl
  hashes _ _ := .of_same rfl rfl
  known _ _ := .of_same rfl rfl
  mark := markPath_probes
  waiting _ _ := .of_same rfl rfl
  rates _ _ := .of_same rfl rfl
  pending _ _ := .of_same rfl rfl
  path _ _ _ := .of_same rfl rfl
  conclude _ _ := ⟨fun r hr _ hhandler => ⟨r, List.mem_of_mem_filter hr, hhandler⟩, fun _ => .inl rfl⟩

/-- The runs of a node that starts without receipts and statistics: packets come in and go out, the jobs run, the
outcome of a probe is reported, and what else happens says nothing new of probes. The settings and the handlers may
differ from step to step. -/
inductive ProbesReached : Logged TransportState Probe → Prop
  | start (s : TransportState) (hreceipts : s.receipts = []) (hstats : s.neighborStats = ∅) : ProbesReached ⟨s, []⟩
  | receives {x : Logged TransportState Probe} (h : ProbesReached x) {env : Environment}
      (henv : HandlersKeep ProbesFrom env) (raw : Bytes) (interface : Option Interface) :
      ProbesReached { x with state := (inbound env raw interface x.state).2 }
  | sends {x : Logged TransportState Probe} (h : ProbesReached x) (env : Environment) (p : OutgoingPacket) :
      ProbesReached { x with state := (outbound env p x.state).2 }
  | jobs {x : Logged TransportState Probe} (h : ProbesReached x) (env : Environment) (settings : ProbeSettings)
      (payload : Address → List.Vector UInt8 neighborProbePayloadSize) :
      ProbesReached (probingJobs env settings payload x).2
  | delivered {x : Logged TransportState Probe} (h : ProbesReached x) {r : PacketReceipt} (hr : r ∈ x.state.receipts)
      {n : Address} (hprobe : r.timeoutHandler = .neighborProbe n) :
      ProbesReached { x with state := neighborProbeDelivered n x.state }
  | timedOut {x : Logged TransportState Probe} (h : ProbesReached x) {r : PacketReceipt} (hr : r ∈ x.state.receipts)
      {n : Address} (hprobe : r.timeoutHandler = .neighborProbe n) :
      ProbesReached { x with state := neighborProbeTimedOut n x.state }
  | other {x : Logged TransportState Probe} (h : ProbesReached x) {t : TransportState}
      (hsame : ProbesFrom x.state t) : ProbesReached { x with state := t }

/-- Nothing is said of probes. -/
structure Unheard (x : Logged TransportState Probe) : Prop where
  receipts : ∀ r ∈ x.state.receipts, ∀ n, r.timeoutHandler ≠ .neighborProbe n
  log : x.log = []
  stats : ∀ n, (neighborStat n x.state).probe = ({} : NeighborStat).probe

/-- While no probe is made none is heard of. -/
theorem Unheard.probesFrom (hx : Unheard x) (h : ProbesFrom x.state t) : Unheard { x with state := t } where
  receipts r hr n hhandler := by
    obtain ⟨r', hr', hhandler'⟩ := h.receipts r hr n hhandler
    exact hx.receipts r' hr' n hhandler'
  log := hx.log
  stats n := (h.stats n).elim (fun hsame => hsame.trans (hx.stats n)) id

/-- While no probe is sent none is heard of. -/
theorem Unheard.unprobed (hx : Unheard x) (h : Unprobed x y) : Unheard y where
  receipts := h.receipts ▸ hx.receipts
  log := h.log.trans hx.log
  stats n := (h.stats n).trans (hx.stats n)

/-- In no state that is reached has a probe been heard of. -/
theorem ProbesReached.unheard (h : ProbesReached x) : Unheard x := by
  induction h with
  | start s hreceipts hstats =>
    refine ⟨fun r hr => ?_, rfl, fun n => ?_⟩
    · rw [hreceipts] at hr
      cases hr
    · unfold neighborStat
      rw [hstats]
      rfl
  | receives h henv raw interface ih =>
    exact ih.probesFrom (receiving_probes.inbound henv recordNeighborProof_probes raw interface _)
  | sends h env p ih => exact ih.probesFrom (receiving_probes.toSending.outbound p _)
  | jobs h env settings payload ih => exact ih.unprobed (probingJobs_unprobed settings _)
  | delivered h hr hprobe ih => exact absurd hprobe (ih.receipts _ hr _)
  | timedOut h hr hprobe ih => exact absurd hprobe (ih.receipts _ hr _)
  | other h hsame ih => exact ih.probesFrom hsame

/-- No probe is ever sent: in every run the log of probes is empty, no receipt waits for one and no neighbour is marked.
A probe that the job loop dispatches is given up where the neighbour's identity is not known, and otherwise the call
does not come back. -/
theorem no_probe_sent (h : ProbesReached x) :
    Unheard x
      ∧ ∀ (env : Environment) (payload : Address → List.Vector UInt8 neighborProbePayloadSize)
          (y : Logged TransportState Probe) (neighbor : Address), y.state.jobsRunning = true →
        SameNeighbors y.state (dispatchNeighborProbe env payload neighbor y).2.state
          ∧ (dispatchNeighborProbe env payload neighbor y).2.log = y.log
          ∧ ∀ b, (dispatchNeighborProbe env payload neighbor y).1 = .value b →
            b = false ∧ (identityRecall env neighbor y.state).1 = .value none :=
  ⟨h.unheard, fun _ _ _ neighbor hrunning => dispatch_waits hrunning neighbor⟩

namespace Sample

/-- A node in transport, a while after the link proof was due. -/
def probing : Environment := { Environment.idle with transportEnabled := true, now := 100 }

/-- It knows the identity of the neighbour over which the link was to go. -/
def unprovenLink : TransportState where
  knownDestinations := (∅ : Table IdentityEntry).insert (.fill 5) { publicKey := List.replicate 64 1, appData := [] }
  linkTable := (∅ : Table LinkEntry).insert (.fill 8)
    { timestamp := 0, nextHop := .fill 5, outboundInterface := { id := 2 }, remainingHops := 1
      receivingInterface := { id := 1 }, hops := 1, destinationHash := .fill 3, validated := false
      proofTimeout := 6 }

/-- The job loop on it. -/
def unprovenJobs : Outcome String Unit × Logged TransportState Probe :=
  probingJobs probing ⟨true, true⟩ (fun _ => .replicate _ 0) ⟨unprovenLink, []⟩

end Sample

/-- The job loop does not get past the probe of a link that was not proven. -/
theorem unproven_link_not_probed :
    Unheard Sample.unprovenJobs.2 ∧ Sample.unprovenJobs.1 = .waits := by
  constructor
  · exact (no_probe_sent (.jobs (.start Sample.unprovenLink rfl rfl) Sample.probing ⟨true, true⟩ _)).1
  · decide +kernel

end MicroReticulum.Transport
