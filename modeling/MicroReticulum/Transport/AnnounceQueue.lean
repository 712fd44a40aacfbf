import Mathlib.Algebra.Order.Floor.Ring
import Mathlib.Data.Nat.Cast.Order.Field
import Mathlib.Logic.Relation
import Mathlib.Tactic.FieldSimp
import Mathlib.Tactic.Linarith
import MicroReticulum.Transport.Receiving
import MicroReticulum.Transport.Reported

/-!
# Announces under a bandwidth cap

An interface passes announces on one at a time. `outbound` sends the first at once and computes for how long the
interface stays quiet; what comes before that time is put into the queue of the interface, for
`Interface::process_announce_queue` to send. The body of that function is commented out, and so is the timer that would
call it: nothing takes an announce out of a queue again, and while one is there everything behind it waits
(`drains_iff`).

The time itself is computed in 16 bits: the time of the transmission is rounded down, divided by the cap as a 32-bit
float, and rounded down again. It covers the transmission of the announce only where nothing is rounded away
(`WaitsExactly.covers`, `waitsExactly_of_covers`).

Points in time are rationals here and doubles in the source, so nothing is shown of how a sum of them is rounded. Nor is
anything promised of announces of the node itself, which are not capped, or of a packet longer than 21 bits can tell.
-/

namespace MicroReticulum.Transport

open MicroReticulum Packet Link Library

variable {env : Environment} {s t : TransportState} {p : OutgoingPacket} {i : Interface} {id : Nat}

/-! ## The queues -/

/-- `Interface::process_announce_queue`: its body is commented out. -/
def processAnnounceQueue (_interface : Interface) : Prog String TransportState Unit := pure ()

/-- `Transport::drop_announce_queues`, which the operator of a node may call -/
def dropAnnounceQueues (s : TransportState) : TransportState :=
  s.interfaces.foldl (fun s i => adjustAnnounceQueue i.id (fun _ => []) s) s

/-- No queue has become shorter. -/
def QueuesGrow (s t : TransportState) : Prop := ∀ id, (s.announceQueue id).length ≤ (t.announceQueue id).length

theorem QueuesGrow.of_same (h : t.announceQueue = s.announceQueue) : QueuesGrow s t := by
  intro id
  rw [h]

theorem QueuesGrow.trans (s t u : TransportState) (h : QueuesGrow s t) (h' : QueuesGrow t u) : QueuesGrow s u :=
  fun id => (h id).trans (h' id)

/-- Queueing an announce adds one, or replaces an older one of the same destination. -/
theorem length_queueAnnounce (now : ℚ) (p : Packet) (queue : List QueuedAnnounce) :
    queue.length ≤ (queueAnnounce now p queue).length := by
  unfold queueAnnounce
  split
  · dsimp only
    split
    · rw [List.length_append]
      exact Nat.le_add_right _ _
    · rw [List.length_modify]
  · exact Nat.le_refl _

/-- Behind the queueing of an announce the queue is not empty. -/
theorem queueAnnounce_ne_nil (now : ℚ) (p : Packet) (queue : List QueuedAnnounce) :
    queueAnnounce now p queue ≠ [] := by
  cases queue with
  | nil =>
    intro h
    cases h
  | cons queued rest =>
    have hlength := length_queueAnnounce now p (queued :: rest)
    intro h
    rw [h] at hlength
    cases hlength

/-- Receiving a packet shortens no queue, whatever branch of `inbound` it takes. -/
theorem receiving_queuesGrow : Receiving QueuesGrow where
  refl _ := .of_same rfl
  trans := QueuesGrow.trans
  lock _ _ := .of_same rfl
  hash _ _ := .of_same rfl
  wire _ _ _ := .of_same rfl
  allowedAt _ _ _ := .of_same rfl
  queue now p id s := by
    intro id'
    by_cases h : id' = id
    · subst h
      simpa [adjustAnnounceQueue] using length_queueAnnounce now p (s.announceQueue id')
    · simp [adjustAnnounceQueue, Function.update_of_ne h]
  count _ _ _ := .of_same rfl
  receipt _ _ _ := .of_same rfl
  forward _ _ _ _ := .of_same (by unfold recordForward; split <;> rfl)
  link _ _ _ := .of_same rfl
  hashes _ _ := .of_same rfl
  known _ _ := .of_same rfl
  mark _ _ _ := .of_same (by unfold markPath; split <;> rfl)
  waiting _ _ := .of_same rfl
  rates _ _ := .of_same rfl
  pending _ _ := .of_same rfl
  path _ _ _ := .of_same rfl
  conclude _ _ := .of_same rfl

/-! ## What can happen to a queue -/

section Job

variable {R : TransportState → TransportState → Prop} (h : Receiving R)
  (hheld : ∀ table s, R s { s with heldAnnounces := table })

include h hheld

theorem reinsertHeld_keeps (d : Address) (s : TransportState) : R s (reinsertHeld env d s) := by
  unfold reinsertHeld
  split
  · exact h.refl s
  · apply h.trans _ _ _ (hheld (s.heldAnnounces.erase d) s)
    exact h.trans _ _ _ (h.waiting _ _) (h.cullAnnounceTable _)

/-- A round of the announce job shortens no queue: what it sends is sent behind the loop. -/
theorem retransmitAnnounce_keeps (identity : Address) (r : Retransmissions) (d : Address) :
    Prog.Keeps R (retransmitAnnounce env identity r d) := by
  have hentry : ∀ entry, Prog.Keeps R (retransmitEntry env identity d entry r) := by
    intro entry
    apply Prog.Keeps.bind h.trans (.modify fun s => h.waiting _ s)
    intro _
    apply Prog.Keeps.bind h.trans (h.identityRecall _)
    intro recalled
    split
    · exact .pure h.refl _
    · exact .bind h.trans (.modify (reinsertHeld_keeps h hheld d)) fun _ => .pure h.refl _
  unfold retransmitAnnounce
  split
  · exact .pure h.refl _
  apply Prog.Keeps.bind h.trans (.get h.refl)
  intro s
  split
  · exact .pure h.refl _
  · split
    · exact .pure h.refl _
    · split
      · exact .catching h.trans (hentry _) fun _ => .pure h.refl _
      · exact .pure h.refl _

theorem announceJob_keeps : Prog.Keeps R (announceJob env) := by
  have hsend : ∀ p, Prog.Keeps R (send env p >>= fun _ => pure ()) :=
    fun p => .bind h.trans (h.toSending.send p) fun _ => .pure h.refl _
  apply Prog.Keeps.bind h.trans (.get h.refl)
  intro s
  split
  · exact .wait h.refl
  · apply Prog.Keeps.bind h.trans
    · apply Prog.Keeps.bind h.trans (.get h.refl)
      intro s
      apply Prog.Keeps.bind h.trans
      · exact .fold h.refl h.trans _ (fun d _ r => retransmitAnnounce_keeps h hheld _ r d) _
      intro r
      exact .bind h.trans (.when h.refl fun _ => .modify fun s => h.waiting _ s) fun _ => .pure h.refl _
    intro outgoing
    exact .forEach h.refl h.trans _ fun p _ => hsend p

end Job

/-- A step of a node, other than the dropping of the queues. What the job loop does besides the announce job, and what
an application does, reaches the queues through `outbound` only. -/
inductive QueueStep : TransportState → TransportState → Prop
  | sends (env : Environment) (p : OutgoingPacket) (s : TransportState) : QueueStep s (outbound env p s).2
  | receives {env : Environment} (henv : HandlersKeep QueuesGrow env) (raw : Bytes) (interface : Option Interface)
      (s : TransportState) : QueueStep s (inbound env raw interface s).2
  | jobs (env : Environment) (s : TransportState) : QueueStep s (announceJob env s).2
  | processes (i : Interface) (s : TransportState) : QueueStep s (processAnnounceQueue i s).2
  | other {s t : TransportState} (hsame : t.announceQueue = s.announceQueue) : QueueStep s t

/-- No step of the transport shortens a queue. Nothing in the source takes an announce out of one. -/
theorem QueueStep.grows (h : QueueStep s t) : QueuesGrow s t := by
  cases h with
  | sends env p => exact receiving_queuesGrow.toSending.outbound p s
  | receives henv raw interface =>
    exact receiving_queuesGrow.inbound henv (fun _ _ _ => .of_same rfl) raw interface s
  | jobs env => exact announceJob_keeps receiving_queuesGrow (fun _ _ => .of_same rfl) s
  | processes i => exact .of_same rfl
  | other hsame => exact .of_same hsame

/-- Every queue that holds an announce can get shorter later on. -/
def Drains (s : TransportState) : Prop :=
  ∀ id, s.announceQueue id ≠ [] →
    ∃ t, Relation.ReflTransGen QueueStep s t ∧ (t.announceQueue id).length < (s.announceQueue id).length

/-- No queue ever gets shorter, so all of them have to be empty. -/
theorem drains_iff : Drains s ↔ ∀ id, s.announceQueue id = [] := by
  constructor
  · intro h id
    by_contra hqueue
    obtain ⟨t, hlater, hshorter⟩ := h id hqueue
    have hgrows : QueuesGrow s t := by
      clear hshorter
      induction hlater with
      | refl => exact .of_same rfl
      | tail _ hstep ih => exact .trans _ _ _ ih hstep.grows
    exact absurd (hgrows id) (Nat.not_le.mpr hshorter)
  · intro h id hqueue
    exact absurd (h id) hqueue

/-! ## The waiting time -/

/-- The seconds an interface has to stay quiet behind an announce: the time of its transmission, divided by the share
of the bandwidth that announces may take. -/
def announceShare (interface : Interface) (raw : Bytes) : ℚ :=
  (raw.length * 8 : ℚ) / interface.bitrate / interface.announceCap

/-- Nothing is lost in 16 bits: the transmission takes a whole number of seconds, and its quotient with the cap is, as
a float, a whole number that is not below it. Without a bitrate or a cap there is nothing to wait for. -/
def WaitsExactly (interface : Interface) (raw : Bytes) : Prop :=
  0 < interface.bitrate → 0 < interface.announceCap →
    interface.bitrate ∣ raw.length * 8 ∧ raw.length * 8 / interface.bitrate < 65536
      ∧ ∃ n : Nat, n < 65536 ∧ ((raw.length * 8 / interface.bitrate : Nat) : ℚ) / interface.announceCap ≤ n
        ∧ roundBinary32 ((raw.length * 8 / interface.bitrate : Nat) / interface.announceCap) = n

theorem roundBinary32_zero : roundBinary32 0 = 0 := by
  unfold roundBinary32 roundFloat
  rw [zero_div, show roundEven 0 = 0 by decide +kernel, Int.cast_zero, zero_mul]

/-- A quotient that the waiting time covers is in the range of the type. -/
theorem roundBinary32_lt {q : ℚ} (hq : 0 < q) (hcovers : q ≤ (toUInt16 env (roundBinary32 q)).toNat) :
    roundBinary32 q < 65536 := by
  have hsmall : q ≤ (65535 : ℤ) := by
    have hlt := (toUInt16 env (roundBinary32 q)).toNat_lt
    have hle : ((toUInt16 env (roundBinary32 q)).toNat : ℚ) ≤ 65535 := by exact_mod_cast Nat.le_of_lt_succ hlt
    push_cast
    linarith
  have hrounded : roundBinary32 q ≤ (65535 : ℤ) :=
    roundFloat_le_int (by decide) hq (lt_of_le_of_lt hsmall (by norm_num)) hsmall
  push_cast at hrounded
  linarith

theorem roundBinary32_nonneg {q : ℚ} (hq : 0 ≤ q) : 0 ≤ roundBinary32 q := by
  unfold roundBinary32 roundFloat
  have hquotient : ((0 : ℤ) : ℚ) ≤ q / ulp 24 (-126) q := by
    rw [Int.cast_zero]
    exact div_nonneg hq (ulp_pos 24 (-126) q).le
  exact mul_nonneg (by exact_mod_cast int_le_roundEven hquotient) (ulp_pos 24 (-126) q).le

/-- A float in range is cut to the whole number below it. -/
theorem toUInt16_toNat {q : ℚ} (hq : 0 ≤ q) (hrange : q < 65536) : ((toUInt16 env q).toNat : ℤ) = ⌊q⌋ := by
  have hfloor : 0 ≤ ⌊q⌋ := Int.floor_nonneg.mpr hq
  have hbelow : ⌊q⌋ < 65536 := Int.floor_lt.mpr (by exact_mod_cast hrange)
  unfold toUInt16
  rw [if_pos hrange, UInt16.toNat_ofNat']
  omega

/-- What was cut off a time of transmission, rounding the quotient up does not make good: less than a part in `2 ^ 24`
is added, and less than one bit of a short packet was cut off if nothing was. -/
theorem transmission_exact {bits bitrate seconds n : Nat} {cap : ℚ} (hbits : bits < 2 ^ 24) (hbitrate : 0 < bitrate)
    (hcap : 0 < cap) (hseconds : seconds ≤ bits / bitrate) (hcovers : (bits : ℚ) / bitrate / cap ≤ n)
    (hrounded : (n : ℚ) ≤ roundBinary32 (seconds / cap)) : bits = seconds * bitrate := by
  have hbitrate' : (0 : ℚ) < bitrate := by exact_mod_cast hbitrate
  have hle : seconds * bitrate ≤ bits := (Nat.le_div_iff_mul_le hbitrate).mp hseconds
  rcases Nat.eq_zero_or_pos seconds with rfl | hpos
  case inl =>
    rw [Nat.cast_zero, zero_div, roundBinary32_zero] at hrounded
    have hnone : (bits : ℚ) / bitrate / cap ≤ 0 := hcovers.trans hrounded
    rw [div_le_iff₀ hcap, div_le_iff₀ hbitrate', zero_mul, zero_mul] at hnone
    have hzero : bits = 0 := by
      have hle : bits ≤ 0 := by exact_mod_cast hnone
      exact Nat.le_zero.mp hle
    rw [hzero, Nat.zero_mul]
  case inr =>
    have hseconds' : (0 : ℚ) < seconds := by exact_mod_cast hpos
    have hq : (0 : ℚ) < seconds / cap := div_pos hseconds' hcap
    have herror := hrounded.trans (roundFloat_le hq)
    have hquotient : (seconds : ℚ) / cap ≤ (bits : ℚ) / bitrate / cap := by
      apply div_le_div_of_nonneg_right _ hcap.le
      rw [le_div_iff₀ hbitrate']
      exact_mod_cast hle
    have hone : (1 : ℚ) ≤ n := by
      have hn : (0 : ℚ) < n := hq.trans_le (hquotient.trans hcovers)
      exact_mod_cast hn
    -- the quotient is far from the subnormal floats
    have hnormal : max ((seconds : ℚ) / cap) (2 ^ (-126 : ℤ)) = seconds / cap := by
      apply max_eq_left
      by_contra hsmall
      rw [max_eq_right (not_le.mp hsmall).le] at herror
      have hbelow : (seconds : ℚ) / cap + 2 ^ (-126 : ℤ) * 2 ^ (-(24 : ℕ) : ℤ) < 1 := by
        refine (add_lt_add_left (not_le.mp hsmall) _).trans ?_
        norm_num
      linarith
    rw [hnormal] at herror
    have hscaled : (bits : ℚ) / bitrate ≤ seconds + seconds * 2 ^ (-(24 : ℕ) : ℤ) := by
      have hcovered : (bits : ℚ) / bitrate / cap ≤ (seconds + seconds * 2 ^ (-(24 : ℕ) : ℤ)) / cap := by
        refine (hcovers.trans herror).trans (le_of_eq ?_)
        field_simp
      exact (div_le_div_iff_of_pos_right hcap).mp hcovered
    rw [div_le_iff₀ hbitrate'] at hscaled
    have hle' : (seconds : ℚ) * bitrate ≤ bits := by exact_mod_cast hle
    have hbits' : (bits : ℚ) < 16777216 := by exact_mod_cast hbits
    have hcut : (bits : ℚ) < seconds * bitrate + 1 := by
      have hpart : (2 : ℚ) ^ (-(24 : ℕ) : ℤ) = 1 / 16777216 := by norm_num
      rw [hpart] at hscaled
      linarith [mul_comm (seconds : ℚ) bitrate]
    have hbelow : bits < seconds * bitrate + 1 := by exact_mod_cast hcut
    omega

/-- If nothing is rounded away, the time that is computed is long enough. -/
theorem WaitsExactly.covers {i : Interface} {raw : Bytes} (h : WaitsExactly i raw) :
    announceShare i raw ≤ (announceWait env i raw).toNat := by
  unfold announceShare announceWait
  by_cases hcapped : 0 < i.bitrate ∧ 0 < i.announceCap
  case neg =>
    rw [if_neg hcapped]
    rcases not_and_or.mp hcapped with hbitrate | hcap
    · have hzero : i.bitrate = 0 := by omega
      simp [hzero]
    · exact div_nonpos_of_nonneg_of_nonpos (by positivity) (not_lt.mp hcap)
  case pos =>
    obtain ⟨hbitrate, hcap⟩ := hcapped
    obtain ⟨⟨k, hk⟩, hsmall, n, hn, hle, hrounded⟩ := h hbitrate hcap
    rw [if_pos ⟨hbitrate, hcap⟩]
    have hbitrate' : (0 : ℚ) < i.bitrate := by exact_mod_cast hbitrate
    have hseconds : (UInt16.ofNat (raw.length * 8 / i.bitrate)).toNat = raw.length * 8 / i.bitrate := by
      rw [UInt16.toNat_ofNat']
      exact Nat.mod_eq_of_lt hsmall
    dsimp only
    rw [hseconds, hrounded]
    have hwait : ((toUInt16 env n).toNat : ℤ) = n := by
      rw [toUInt16_toNat (Nat.cast_nonneg n) (by exact_mod_cast hn), Int.floor_natCast]
    have hcast : ((toUInt16 env n).toNat : ℚ) = n := by exact_mod_cast hwait
    have hwhole : (raw.length * 8 : ℚ) / i.bitrate = (raw.length * 8 / i.bitrate : ℕ) := by
      have hbits : (raw.length * 8 : ℚ) = i.bitrate * k := by exact_mod_cast hk
      rw [hbits, hk, Nat.mul_div_cancel_left k hbitrate]
      field_simp
    rw [hcast, hwhole]
    exact hle

/-- If it is long enough, nothing was rounded away. -/
theorem waitsExactly_of_covers {i : Interface} {raw : Bytes} (hsize : raw.length < 2 ^ 21)
    (hcovers : announceShare i raw ≤ (announceWait env i raw).toNat) : WaitsExactly i raw := by
  intro hbitrate hcap
  unfold announceShare announceWait at hcovers
  rw [if_pos ⟨hbitrate, hcap⟩] at hcovers
  dsimp only at hcovers
  have hcast : (raw.length * 8 : ℚ) = (raw.length * 8 : ℕ) := by
    push_cast
    rfl
  rw [hcast] at hcovers
  set bits := raw.length * 8 with hbits
  set seconds := (UInt16.ofNat (bits / i.bitrate)).toNat with hseconds
  have hle : seconds ≤ bits / i.bitrate := by
    rw [hseconds, UInt16.toNat_ofNat']
    exact Nat.mod_le _ _
  have hq : (0 : ℚ) ≤ seconds / i.announceCap := by positivity
  have hquotient : (seconds : ℚ) / i.announceCap ≤ (bits : ℚ) / i.bitrate / i.announceCap := by
    gcongr
    exact (by exact_mod_cast hle : (seconds : ℚ) ≤ (bits / i.bitrate : ℕ)).trans Nat.cast_div_le
  have hrange : roundBinary32 (seconds / i.announceCap) < 65536 := by
    rcases hq.eq_or_lt with hzero | hpos
    · rw [← hzero, roundBinary32_zero]
      decide
    · exact roundBinary32_lt hpos (hquotient.trans hcovers)
  have hfloor : ((toUInt16 env (roundBinary32 (seconds / i.announceCap))).toNat : ℤ)
      = ⌊roundBinary32 (seconds / i.announceCap)⌋ := toUInt16_toNat (roundBinary32_nonneg hq) hrange
  set n := (toUInt16 env (roundBinary32 (seconds / i.announceCap))).toNat with hn
  have hbelow : (n : ℚ) ≤ roundBinary32 (seconds / i.announceCap) := by
    have hint : (n : ℚ) = ((n : ℤ) : ℚ) := by
      push_cast
      rfl
    rw [hint, hfloor]
    exact Int.floor_le _
  have hlt : n < 65536 := UInt16.toNat_lt _
  have hexact := transmission_exact (by omega) hbitrate hcap hle hcovers hbelow
  have hwhole : bits / i.bitrate = seconds := by rw [hexact, Nat.mul_div_cancel _ hbitrate]
  rw [hwhole]
  refine ⟨⟨seconds, hexact.trans (Nat.mul_comm _ _)⟩, UInt16.toNat_lt _, n, hlt, hquotient.trans hcovers, ?_⟩
  apply le_antisymm _ hbelow
  rcases hq.eq_or_lt with hzero | hpos
  · rw [← hzero, roundBinary32_zero]
    exact Nat.cast_nonneg n
  · have hsmall : (seconds : ℚ) / i.announceCap < 2 ^ 24 :=
      ((hquotient.trans hcovers).trans_lt (by exact_mod_cast hlt : (n : ℚ) < 65536)).trans (by norm_num)
    exact_mod_cast roundFloat_le_int (n := n) (by decide) hpos hsmall (by exact_mod_cast hquotient.trans hcovers)

/-! ## Passing an announce on -/

/-- The packet is an announce of somebody else that is on its way to everywhere, and the interface sends it within its
cap. -/
structure Capped (p : OutgoingPacket) (i : Interface) : Prop where
  destination : p.destination.isSome = true
  linked : ¬ Unlinked p
  announce : p.packet.packetType = .announce
  everywhere : p.attachedInterface.isNone = true
  hops : p.packet.hops ≠ 0
  out : i.out = true
  mode : i.mode ∉ [InterfaceMode.accessPoint, .roaming, .boundary]

/-- The announce is sent, and the interface stays quiet, or it is queued. -/
def capAnnounce (env : Environment) (p : Packet) (i : Interface) (s : TransportState) : TransportState :=
  if s.announceQueue i.id = [] ∧ s.announceAllowedAt i.id < env.now then
    setAnnounceAllowedAt i.id (env.now + (announceWait env i p.raw).toNat) s
  else adjustAnnounceQueue i.id (queueAnnounce env.now p) s

/-- The queue of an interface and its waiting time have not changed. -/
structure SameCap (id : Nat) (s t : TransportState) : Prop where
  announceQueue : t.announceQueue id = s.announceQueue id
  announceAllowedAt : t.announceAllowedAt id = s.announceAllowedAt id

theorem SameCap.refl (id : Nat) (s : TransportState) : SameCap id s s := ⟨rfl, rfl⟩

theorem SameCap.trans (id : Nat) (s t u : TransportState) (h : SameCap id s t) (h' : SameCap id t u) : SameCap id s u :=
  ⟨h'.announceQueue.trans h.announceQueue, h'.announceAllowedAt.trans h.announceAllowedAt⟩

/-- Handing a packet to a driver leaves the announce cap of an interface as it is. -/
theorem handing_sameCap (id : Nat) : Handing (SameCap id) where
  refl := .refl id
  trans := .trans id
  lock _ _ := ⟨rfl, rfl⟩
  hash _ _ := ⟨rfl, rfl⟩
  wire _ _ _ := ⟨rfl, rfl⟩

theorem capAnnounce_other (p : Packet) (hid : i.id ≠ id) (s : TransportState) :
    SameCap id s (capAnnounce env p i s) := by
  unfold capAnnounce
  split
  · exact ⟨rfl, Function.update_of_ne hid.symm _ _⟩
  · exact ⟨Function.update_of_ne hid.symm _ _, rfl⟩

/-- What the cap does to an interface depends on the queue and the time of that interface only. -/
theorem capAnnounce_congr (p : Packet) (h : SameCap i.id s t) :
    SameCap i.id (capAnnounce env p i s) (capAnnounce env p i t) := by
  unfold capAnnounce
  rw [h.announceQueue, h.announceAllowedAt]
  split
  · constructor
    · exact h.announceQueue
    · simp [setAnnounceAllowedAt]
  · constructor
    · simp [adjustAnnounceQueue, h.announceQueue]
    · exact h.announceAllowedAt

/-- For an announce that is capped the rules come down to the cap of the interface. -/
theorem announceRules_capped (h : Capped p i) (s : TransportState) :
    (announceRules env p i s).2 = capAnnounce env p.packet i s := by
  have hallows : announceAllows env p.packet i s = announceCapAllows env p.packet i s := by
    have hmode := h.mode
    unfold announceAllows
    rw [Prog.get_bind_run]
    cases hi : i.mode
    case accessPoint | roaming | boundary =>
      rw [hi] at hmode
      exact absurd (by decide) hmode
    all_goals rfl
  unfold announceRules
  rw [if_pos ⟨h.announce, h.everywhere⟩, hallows]
  unfold announceCapAllows capAnnounce
  rw [Prog.get_bind_run, if_neg h.hops]
  split
  · rfl
  · rfl

/-- For an announce that is not capped the rules leave the caps of all interfaces as they are. -/
theorem announceRules_uncapped (hdestination : p.destination.isSome = true) (hlinked : ¬ Unlinked p)
    (hout : i.out = true) (h : ¬ Capped p i) (id : Nat) : Prog.Keeps (SameCap id) (announceRules env p i) := by
  have hpure : ∀ allowed, Prog.Keeps (SameCap id) (pure allowed : Prog String TransportState Bool) :=
    fun allowed => .pure (SameCap.refl id) allowed
  have hcap : i.mode ∉ [InterfaceMode.accessPoint, .roaming, .boundary] → p.packet.packetType = .announce →
      p.attachedInterface.isNone = true → Prog.Keeps (SameCap id) (announceCapAllows env p.packet i) := by
    intro hmode hannounce hfree
    apply Prog.Keeps.bind (SameCap.trans id) (.get (SameCap.refl id))
    intro s
    by_cases hhops : p.packet.hops = 0
    · rw [if_pos hhops]
      exact hpure true
    · exact absurd ⟨hdestination, hlinked, hannounce, hfree, hhops, hout, hmode⟩ h
  unfold announceRules
  split
  case isFalse => exact hpure true
  case isTrue hannounce =>
    apply Prog.Keeps.bind (SameCap.trans id) (.get (SameCap.refl id))
    intro s
    cases hmode : i.mode
    case accessPoint => exact hpure _
    case roaming => exact hpure _
    case boundary => exact hpure _
    all_goals exact hcap (by rw [hmode]; decide) hannounce.1 hannounce.2

/-- A round of the broadcast loop does to the caps what the announce rules do. -/
theorem broadcastOn_rules (hlinked : ¬ Unlinked p) (hout : i.out = true) (b : BroadcastState) (id : Nat)
    (s : TransportState) : SameCap id (announceRules env p i s).2 (broadcastOn env p b i s).2 := by
  have hhanding := handing_sameCap id
  obtain ⟨onLink, hlink⟩ := linkAllows_ok hlinked i
  have hshould : SameCap id (announceRules env p i s).2 (shouldTransmit env p i s).2 := by
    unfold shouldTransmit
    rw [hlink, Prog.bind_value (Prog.ofExcept_ok_run onLink s)]
    exact Prog.Keeps.after hhanding.refl _ (fun _ => .pure hhanding.refl _) s
  unfold broadcastOn
  rw [if_pos hout]
  apply hhanding.trans _ _ _ hshould
  apply Prog.Keeps.after hhanding.refl
  intro should
  split
  · exact .bind hhanding.trans (.when hhanding.refl fun _ => .modify (hhanding.hash _)) fun _ =>
      .bind hhanding.trans (hhanding.transmit i _) fun _ => .pure hhanding.refl _
  · exact .pure hhanding.refl _

/-- On its interface a capped announce goes through the cap, and is sent or queued. -/
theorem broadcastOn_capped (h : Capped p i) (b : BroadcastState) (id : Nat) (s : TransportState) :
    SameCap id (capAnnounce env p.packet i s) (broadcastOn env p b i s).2 := by
  rw [← announceRules_capped h s]
  exact broadcastOn_rules h.linked h.out b id s

theorem broadcastOn_other (hdestination : p.destination.isSome = true) (h : Capped p i → i.id ≠ id)
    (b : BroadcastState) : Prog.Keeps (SameCap id) (broadcastOn env p b i) := by
  intro s
  by_cases hcapped : Capped p i
  case pos => exact .trans _ _ _ _ (capAnnounce_other p.packet (h hcapped) s) (broadcastOn_capped hcapped b id s)
  case neg =>
    by_cases hout : i.out = true
    case neg =>
      unfold broadcastOn
      rw [if_neg hout]
      exact SameCap.refl id s
    case pos =>
      by_cases hlinked : Unlinked p
      case pos =>
        unfold broadcastOn shouldTransmit
        rw [if_pos hout, linkAllows_error hlinked]
        exact SameCap.refl id s
      case neg =>
        have hrules := @announceRules_uncapped env p i hdestination hlinked hout hcapped id s
        exact .trans _ _ _ _ hrules (broadcastOn_rules hlinked hout b id s)

/-- In a loop over different interfaces each of them caps the announce for itself. -/
theorem fold_broadcastOn_capped {interfaces : List Interface} (hids : (interfaces.map Interface.id).Nodup)
    (hi : i ∈ interfaces) (h : Capped p i) (b : BroadcastState) (s : TransportState) :
    SameCap i.id (capAnnounce env p.packet i s) (Prog.fold interfaces b (broadcastOn env p) s).2 := by
  induction interfaces generalizing b s with
  | nil => cases hi
  | cons j rest ih =>
    obtain ⟨hj, hrest⟩ := List.nodup_cons.mp hids
    obtain ⟨b', t, hrun, -, -⟩ := broadcastOn_run env h.linked b j s
    have hfold : Prog.fold (j :: rest) b (broadcastOn env p) s = Prog.fold rest b' (broadcastOn env p) t :=
      Prog.bind_value hrun
    rw [hfold]
    by_cases hij : i = j
    case pos =>
      subst hij
      have hfirst := @broadcastOn_capped env p i h b i.id s
      rw [hrun] at hfirst
      apply hfirst.trans
      apply Prog.Keeps.fold (SameCap.refl i.id) (SameCap.trans i.id)
      intro k hk b
      apply broadcastOn_other h.destination
      rintro - hsame
      exact hj (hsame ▸ List.mem_map_of_mem hk)
    case neg =>
      have hmem : i ∈ rest := (List.mem_cons.mp hi).resolve_left hij
      have hother : SameCap i.id s (broadcastOn env p b j s).2 := by
        apply broadcastOn_other h.destination
        rintro - hsame
        exact hj (hsame ▸ List.mem_map_of_mem hmem)
      rw [hrun] at hother
      exact (capAnnounce_congr p.packet hother).trans _ _ _ _ (ih hrest hmem b' t)

/-! ## `outbound` -/

/-- Behind its transmission part `outbound` adds a receipt and releases the lock. -/
theorem outbound_transmit {R : TransportState → TransportState → Prop} (hhanding : Handing R)
    (hadd : ∀ r s, R s { s with receipts := s.receipts ++ [r] }) (hrunning : s.jobsRunning = false)
    (hdestination : p.destination.isSome = true) :
    R (transmitPacket env p (setJobsLocked true s)).2 (outbound env p s).2 := by
  obtain ⟨d, hd⟩ := Option.isSome_iff_exists.mp hdestination
  have hreceipt : ∀ sent, Prog.Keeps R (addReceipt env p sent) := by
    intro sent
    unfold addReceipt
    split
    · apply Prog.Keeps.bind hhanding.trans (.get hhanding.refl)
      intro u
      apply Prog.Keeps.bind hhanding.trans (.ofExcept hhanding.refl _)
      intro receipt
      exact .bind hhanding.trans (.modify (hadd receipt)) fun _ => .pure hhanding.refl _
    · exact .pure hhanding.refl _
  have hlocked : ∀ t, R (transmitPacket env p t).2 (outboundLocked env p t).2 := by
    intro t
    unfold outboundLocked
    exact Prog.Keeps.after hhanding.refl _
      (fun sent => .bind hhanding.trans (hreceipt sent) fun _ => .pure hhanding.refl _) t
  unfold outbound
  rw [hd]
  dsimp only
  rw [Prog.bind_value (waitForJobs_run hrunning), Prog.modify_bind_run]
  apply hhanding.trans _ _ _ (hlocked _)
  apply Prog.Keeps.after hhanding.refl
  intro result
  exact .bind hhanding.trans (.modify (hhanding.lock false)) fun _ => .pure hhanding.refl _

/-- Over a whole call of `outbound` a capped announce goes through the cap of an interface once. -/
theorem outbound_capped (hrunning : s.jobsRunning = false) (hids : (s.interfaces.map Interface.id).Nodup)
    (hi : i ∈ s.interfaces) (h : Capped p i) : SameCap i.id (capAnnounce env p.packet i s) (outbound env p s).2 := by
  have hhanding := handing_sameCap i.id
  set locked := setJobsLocked true s with hlocked
  have hpath : outboundPath locked p = none := by
    unfold outboundPath
    rw [h.announce]
    rfl
  have htransmit : SameCap i.id (capAnnounce env p.packet i locked) (transmitPacket env p locked).2 := by
    unfold transmitPacket
    rw [Prog.get_bind_run, hpath]
    dsimp only
    unfold outboundBroadcast
    rw [Prog.get_bind_run]
    apply hhanding.trans _ _ _ (fold_broadcastOn_capped hids hi h {} locked)
    exact Prog.Keeps.after hhanding.refl _ (fun _ => .pure hhanding.refl _) locked
  have hlock : SameCap i.id s locked := ⟨rfl, rfl⟩
  apply (capAnnounce_congr p.packet hlock).trans
  apply htransmit.trans
  exact outbound_transmit hhanding (fun _ _ => ⟨rfl, rfl⟩) hrunning h.destination

/-- A packet that is not capped on an interface leaves its cap as it is, whatever else it does. -/
theorem transmitPacket_other (hdestination : p.destination.isSome = true)
    (h : ∀ i ∈ s.interfaces, Capped p i → i.id ≠ id) : SameCap id s (transmitPacket env p s).2 := by
  have hhanding := handing_sameCap id
  unfold transmitPacket
  rw [Prog.get_bind_run]
  cases outboundPath s p with
  | some entry =>
    have hknown : Prog.Keeps (SameCap id) (outboundKnown env p.packet entry) := by
      unfold outboundKnown
      split
      · exact .pure hhanding.refl _
      · apply Prog.Keeps.bind hhanding.trans (hhanding.transmit _ _)
        intro sent
        exact .bind hhanding.trans (.when hhanding.refl fun _ => .modify fun _ => ⟨rfl, rfl⟩)
          fun _ => .pure hhanding.refl _
    exact hknown s
  | none =>
    dsimp only
    unfold outboundBroadcast
    rw [Prog.get_bind_run]
    have hfold : Prog.Keeps (SameCap id) (Prog.fold s.interfaces {} (broadcastOn env p)) :=
      .fold hhanding.refl hhanding.trans _ (fun i hi b => broadcastOn_other hdestination (h i hi) b) _
    exact Prog.Keeps.bind hhanding.trans hfold (fun _ => .pure hhanding.refl _) s

/-- An interface that does not have to send the packet within its cap is left alone. -/
theorem outbound_other (h : ∀ i ∈ s.interfaces, Capped p i → i.id ≠ id) : SameCap id s (outbound env p s).2 := by
  cases hdestination : p.destination with
  | none =>
    unfold outbound
    rw [hdestination]
    exact SameCap.refl id s
  | some d =>
    cases hrunning : s.jobsRunning with
    | true =>
      rw [outbound_waits hrunning hdestination]
      exact SameCap.refl id s
    | false =>
      have hsome : p.destination.isSome = true := by
        rw [hdestination]
        rfl
      have hlock : SameCap id s (setJobsLocked true s) := ⟨rfl, rfl⟩
      have htransmit : SameCap id (setJobsLocked true s) (transmitPacket env p (setJobsLocked true s)).2 :=
        transmitPacket_other hsome h
      exact (hlock.trans _ _ _ _ htransmit).trans _ _ _ _
        (outbound_transmit (handing_sameCap id) (fun _ _ => ⟨rfl, rfl⟩) hrunning hsome)

/-- The interface was handed the packet between these two states; with an access code, nothing goes out there. -/
def TransmittedOn (raw : Bytes) (i : Interface) (s t : TransportState) : Prop :=
  ∃ earlier, s.wire <:+ earlier ∧ handOver raw earlier i <:+ t.wire

/-- Of the transmissions of a broadcast those on one interface are found in order. -/
theorem handOver_foldl (raw : Bytes) {interfaces : List Interface} (hi : i ∈ interfaces)
    (wire : List (Interface × Bytes)) :
    ∃ earlier, wire <:+ earlier ∧ handOver raw earlier i <:+ interfaces.foldl (handOver raw) wire := by
  have hgrows : ∀ (rest : List Interface) (wire : List (Interface × Bytes)), wire <:+ rest.foldl (handOver raw) wire := by
    intro rest
    induction rest with
    | nil => exact fun wire => List.suffix_rfl
    | cons j rest ih => exact fun wire => (suffix_handOver raw wire j).trans (ih _)
  induction interfaces generalizing wire with
  | nil => cases hi
  | cons j rest ih =>
    rcases List.mem_cons.mp hi with rfl | hrest
    · exact ⟨wire, List.suffix_rfl, hgrows rest _⟩
    · obtain ⟨earlier, hbefore, hafter⟩ := ih hrest (handOver raw wire j)
      exact ⟨earlier, (suffix_handOver raw wire j).trans hbefore, hafter⟩

/-- An announce is sent at once where nothing is queued and the waiting time has passed. -/
theorem outbound_transmits (hrunning : s.jobsRunning = false) (hids : (s.interfaces.map Interface.id).Nodup)
    (hi : i ∈ s.interfaces) (h : Capped p i) (hlink : linkAllows p i = .ok true)
    (hfree : s.announceQueue i.id = [] ∧ s.announceAllowedAt i.id < env.now) :
    TransmittedOn p.packet.raw i s (outbound env p s).2 := by
  set locked := setJobsLocked true s with hlocked
  have hmay : mayAnnounce env locked p.packet i = true := by
    have hmode := h.mode
    unfold mayAnnounce
    cases hm : i.mode
    case accessPoint | roaming | boundary =>
      rw [hm] at hmode
      exact absurd (by decide) hmode
    all_goals exact decide_eq_true (.inr hfree)
  have hmem : i ∈ locked.interfaces.filter fun i => i.out && allowedOn env locked p i := by
    apply List.mem_filter.mpr
    refine ⟨hi, ?_⟩
    unfold allowedOn attachedAllows
    rw [h.out, hlink, h.everywhere, hmay, Bool.or_true]
    rfl
  obtain ⟨b, u, hrun, -, hwire, -⟩ :=
    fold_broadcastOn_run env h.linked locked locked.interfaces {} locked hids (SameRules.refl _ locked)
  have htransmit : (transmitPacket env p locked).2 = u := by
    have hpath : outboundPath locked p = none := by
      unfold outboundPath
      rw [h.announce]
      rfl
    unfold transmitPacket outboundBroadcast
    rw [Prog.get_bind_run, hpath]
    dsimp only
    rw [Prog.get_bind_run, Prog.bind_value hrun]
    rfl
  have hbehind : (transmitPacket env p locked).2.wire <:+ (outbound env p s).2.wire := by
    apply outbound_transmit (R := fun s t => s.wire <:+ t.wire) _ (fun _ _ => List.suffix_rfl) hrunning h.destination
    exact ⟨fun _ => List.suffix_rfl, fun _ _ _ => List.IsSuffix.trans, fun _ _ => List.suffix_rfl,
      fun _ _ => List.suffix_rfl, fun _ _ _ => List.suffix_cons _ _⟩
  rw [htransmit, hwire] at hbehind
  obtain ⟨earlier, hbefore, hafter⟩ := handOver_foldl p.packet.raw hmem locked.wire
  exact ⟨earlier, hbefore, hafter.trans hbehind⟩

/-! ## Runs -/

/-- Each interface that has to send the packet within its cap may send it now, and computes its waiting time
exactly. -/
def FitsCaps (env : Environment) (p : OutgoingPacket) (s : TransportState) : Prop :=
  ∀ i ∈ s.interfaces, Capped p i → s.announceAllowedAt i.id < env.now ∧ WaitsExactly i p.packet.raw

/-- The runs of a node that starts with empty queues: packets are sent if they meet a condition, queues are processed
or dropped, and what else happens between two calls of `outbound` leaves them alone. -/
inductive Announcing (ok : Environment → OutgoingPacket → TransportState → Prop) : TransportState → Prop
  | start (s : TransportState) (hqueues : ∀ id, s.announceQueue id = []) (hrunning : s.jobsRunning = false)
      (hids : (s.interfaces.map Interface.id).Nodup) : Announcing ok s
  | sends {s : TransportState} (h : Announcing ok s) {env : Environment} {p : OutgoingPacket} (hok : ok env p s) :
      Announcing ok (outbound env p s).2
  | processes {s : TransportState} (h : Announcing ok s) (i : Interface) : Announcing ok (processAnnounceQueue i s).2
  | drops {s : TransportState} (h : Announcing ok s) : Announcing ok (dropAnnounceQueues s)
  | other {s t : TransportState} (h : Announcing ok s) (hqueues : t.announceQueue = s.announceQueue)
      (hrunning : t.jobsRunning = false) (hids : (t.interfaces.map Interface.id).Nodup) : Announcing ok t

/-- An announce is sent at once where nothing is queued and the waiting time has passed. -/
def SendsAtOnce (env : Environment) (p : OutgoingPacket) (s : TransportState) : Prop :=
  ∀ i ∈ s.interfaces, Capped p i → linkAllows p i = .ok true →
    s.announceQueue i.id = [] ∧ s.announceAllowedAt i.id < env.now →
      TransmittedOn p.packet.raw i s (outbound env p s).2

/-- Behind an announce that is sent, an interface waits for the time of its transmission divided by the cap. -/
def WaitsLongEnough (env : Environment) (p : OutgoingPacket) (s : TransportState) : Prop :=
  ∀ i ∈ s.interfaces, Capped p i → s.announceQueue i.id = [] ∧ s.announceAllowedAt i.id < env.now →
    env.now + announceShare i p.packet.raw ≤ (outbound env p s).2.announceAllowedAt i.id

/-- What sending does not change of a node. -/
structure SameNode (s t : TransportState) : Prop where
  interfaces : t.interfaces = s.interfaces
  jobsRunning : t.jobsRunning = s.jobsRunning

/-- Sending changes neither the interfaces nor the time of the node. -/
theorem sending_sameNode : Sending SameNode where
  refl _ := ⟨rfl, rfl⟩
  trans _ _ _ h h' := ⟨h'.interfaces.trans h.interfaces, h'.jobsRunning.trans h.jobsRunning⟩
  lock _ _ := ⟨rfl, rfl⟩
  hash _ _ := ⟨rfl, rfl⟩
  wire _ _ _ := ⟨rfl, rfl⟩
  allowedAt _ _ _ := ⟨rfl, rfl⟩
  queue _ _ _ _ := ⟨rfl, rfl⟩
  count _ _ _ := ⟨rfl, rfl⟩
  receipt _ _ _ := ⟨rfl, rfl⟩

/-- Dropping the queues changes neither the interfaces nor the time of the node. -/
theorem dropAnnounceQueues_sameNode (s : TransportState) : SameNode s (dropAnnounceQueues s) := by
  apply List.foldlRecOn (motive := SameNode s) s.interfaces _ ⟨rfl, rfl⟩
  intro t hsame i _
  exact ⟨hsame.interfaces, hsame.jobsRunning⟩

/-- Dropping queues that are empty leaves them empty. -/
theorem dropAnnounceQueues_empty (h : ∀ id, s.announceQueue id = []) (id : Nat) :
    (dropAnnounceQueues s).announceQueue id = [] := by
  unfold dropAnnounceQueues
  refine List.foldlRecOn (motive := fun t : TransportState => t.announceQueue id = []) s.interfaces _ (h id) ?_
  intro t hempty i _
  by_cases hid : id = i.id
  · subst hid
    simp [adjustAnnounceQueue]
  · simp [adjustAnnounceQueue, Function.update_of_ne hid, hempty]

/-- Between two calls of `outbound` the jobs are not running, and the interfaces are different ones. -/
theorem Announcing.idle {ok : Environment → OutgoingPacket → TransportState → Prop} (h : Announcing ok s) :
    s.jobsRunning = false ∧ (s.interfaces.map Interface.id).Nodup := by
  induction h with
  | start s _ hrunning hids => exact ⟨hrunning, hids⟩
  | @sends s h env p _ ih =>
    have hsame : SameNode s (outbound env p s).2 := sending_sameNode.outbound p s
    rw [hsame.interfaces, hsame.jobsRunning]
    exact ih
  | processes _ _ ih => exact ih
  | @drops s _ ih =>
    rw [(dropAnnounceQueues_sameNode s).interfaces, (dropAnnounceQueues_sameNode s).jobsRunning]
    exact ih
  | other _ _ hrunning hids => exact ⟨hrunning, hids⟩

/-- A packet that fits the caps is queued nowhere. -/
theorem outbound_empty (hrunning : s.jobsRunning = false) (hids : (s.interfaces.map Interface.id).Nodup)
    (hqueues : ∀ id, s.announceQueue id = []) (hfits : FitsCaps env p s) (id : Nat) :
    (outbound env p s).2.announceQueue id = [] := by
  by_cases hcapped : ∃ i ∈ s.interfaces, Capped p i ∧ i.id = id
  · obtain ⟨i, hi, hcapped, rfl⟩ := hcapped
    rw [(outbound_capped hrunning hids hi hcapped).announceQueue]
    unfold capAnnounce
    rw [if_pos ⟨hqueues i.id, (hfits i hi hcapped).1⟩]
    exact hqueues i.id
  · have hother : ∀ i ∈ s.interfaces, Capped p i → i.id ≠ id :=
      fun i hi h hid => hcapped ⟨i, hi, h, hid⟩
    rw [(outbound_other hother).announceQueue]
    exact hqueues id

/-- In a run in which every announce fits the caps no announce is ever queued. -/
theorem Announcing.empty (h : Announcing FitsCaps s) : ∀ id, s.announceQueue id = [] := by
  induction h with
  | start s hqueues => exact hqueues
  | sends h hfits ih => exact outbound_empty h.idle.1 h.idle.2 ih hfits
  | processes _ _ ih => exact ih
  | drops _ ih => exact dropAnnounceQueues_empty ih
  | other _ hqueues _ _ ih =>
    rw [hqueues]
    exact ih

/-- In every run whose packets fit the caps, all queues can drain and every announce is sent at once. The next packet
leaves the queues able to drain, and the interfaces quiet for long enough, if it fits the caps too, and only then, as
long as it is no longer than the 21 bits of a signalled MTU can tell. -/
theorem announces_capped_iff (h : Announcing FitsCaps s) :
    Drains s ∧ ∀ env p, SendsAtOnce env p s
      ∧ (FitsCaps env p s → Drains (outbound env p s).2 ∧ WaitsLongEnough env p s)
      ∧ (p.packet.raw.length < 2 ^ 21 →
        Drains (outbound env p s).2 ∧ WaitsLongEnough env p s → FitsCaps env p s) := by
  obtain ⟨hrunning, hids⟩ := h.idle
  have hqueues := h.empty
  refine ⟨drains_iff.mpr hqueues, fun env p => ⟨?_, ?_, ?_⟩⟩
  · intro i hi hcapped hlink hfree
    exact outbound_transmits hrunning hids hi hcapped hlink hfree
  · intro hfits
    refine ⟨drains_iff.mpr (outbound_empty hrunning hids hqueues hfits), ?_⟩
    intro i hi hcapped hfree
    rw [(outbound_capped hrunning hids hi hcapped).announceAllowedAt]
    unfold capAnnounce
    rw [if_pos hfree]
    simpa [setAnnounceAllowedAt] using (hfits i hi hcapped).2.covers
  · rintro hsize ⟨hdrains, hwaits⟩ i hi hcapped
    have hcap := @outbound_capped env s p i hrunning hids hi hcapped
    by_cases hfree : s.announceQueue i.id = [] ∧ s.announceAllowedAt i.id < env.now
    case neg =>
      -- the announce would be queued
      have hqueue := hcap.announceQueue
      unfold capAnnounce at hqueue
      rw [if_neg hfree, drains_iff.mp hdrains i.id] at hqueue
      refine absurd hqueue.symm ?_
      simpa [adjustAnnounceQueue] using queueAnnounce_ne_nil env.now p.packet (s.announceQueue i.id)
    case pos =>
      have hquiet := hwaits i hi hcapped hfree
      rw [hcap.announceAllowedAt] at hquiet
      unfold capAnnounce at hquiet
      rw [if_pos hfree] at hquiet
      have hcovers : announceShare i p.packet.raw ≤ (announceWait env i p.packet.raw).toNat := by
        simpa [setAnnounceAllowedAt] using hquiet
      exact ⟨hfree.2, waitsExactly_of_covers hsize hcovers⟩

namespace Sample

/-- A slow interface that gives half of its bandwidth to announces. -/
def slow : Interface := { id := 1, bitrate := 8, announceCap := 1 / 2 }

/-- A node with that interface. -/
def capped : TransportState where
  interfaces := [slow]

/-- An announce of somebody else, for one of several destinations. -/
def passedAnnounce (destination : UInt8) : OutgoingPacket where
  packet := ofLayout 1 1 none (.fill destination) 0 [7]
  destination := some .single

def clock (now : ℚ) : Environment := { Environment.idle with now }

/-- A node with a capped interface and nothing sent is where a run can start. -/
theorem capped_start {ok : Environment → OutgoingPacket → TransportState → Prop} : Announcing ok capped :=
  .start capped (fun _ => rfl) rfl (by decide)

/-- The announce of the sample fits the cap of its interface. -/
theorem passedAnnounce_fits : FitsCaps (clock 100) (passedAnnounce 3) capped := by
  intro i hi _
  cases List.mem_singleton.mp hi
  refine ⟨by decide +kernel, fun _ _ => ⟨by decide +kernel, by decide +kernel, 40, by decide, ?_, ?_⟩⟩
  · decide +kernel
  · decide +kernel

end Sample

/-- A first announce fits, and leaves the queues empty. -/
theorem first_announce_fits : Drains (outbound (Sample.clock 100) (Sample.passedAnnounce 3) Sample.capped).2 :=
  (announces_capped_iff (.sends Sample.capped_start Sample.passedAnnounce_fits)).1

/-- A second announce a moment later is queued, and stays there. -/
theorem second_announce_stays : ¬ ∀ s, Announcing (fun _ _ _ => True) s → Drains s := by
  intro h
  set first := (outbound (Sample.clock 100) (Sample.passedAnnounce 3) Sample.capped).2 with hfirst
  have hreached : Announcing (fun _ _ _ => True) (outbound (Sample.clock 101) (Sample.passedAnnounce 4) first).2 :=
    .sends (.sends Sample.capped_start trivial) trivial
  have hqueue := drains_iff.mp (h _ hreached) 1
  rw [hfirst] at hqueue
  revert hqueue
  decide +kernel

end MicroReticulum.Transport
