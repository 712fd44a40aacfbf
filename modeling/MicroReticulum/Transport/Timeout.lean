import MicroReticulum.Transport.Receipts
import Mathlib.Algebra.Order.Floor.Ring
import Mathlib.Data.Rat.Floor
import Mathlib.Tactic.Linarith
import Mathlib.Tactic.FieldSimp

/-!
# The timeout of a receipt

The timeout of a receipt is worked out in seconds with a fraction and kept in an `int16_t`. The conversion drops the
fraction, and says nothing about a value that does not fit. `TimeoutSource` are the three places where a timeout comes
from: the round trip time of a link, the hops to a destination, and `set_timeout`, which requests and probes call.

`neverEarly_iff` says for which of them a receipt stays sent until its time has passed. A link faster than a sixth
of a second always gives a timeout of zero, so that the receipt fails with the next check.
-/

namespace MicroReticulum.Transport

open MicroReticulum Packet Link Library

/-- The whole part of a number, as a conversion to an integer type takes it. -/
def truncate (x : ℚ) : Int := if 0 ≤ x then ⌊x⌋ else ⌈x⌉

/-- The conversion of a number of seconds to `int16_t`. -/
structure Narrowing where
  toInt16 : ℚ → Int16
  /-- a value that fits loses its fraction, and nothing is said of one that does not -/
  fits : ∀ x : ℚ, -32769 < x → x < 32768 → (toInt16 x).toInt = truncate x

/-- Where the timeout of a receipt comes from. -/
inductive TimeoutSource where
  /-- the constructor, for a packet over a link -/
  | link (rtt : ℚ)
  /-- the constructor, for any other packet: the bitrate of the first hop, zero when unknown, and the hops -/
  | path (bitrate : Nat) (hops : UInt8)
  /-- `set_timeout` -/
  | explicit (timeout : ℚ)

/-- `Transport::first_hop_timeout`, from the bitrate -/
def hopTimeout (bitrate : Nat) : ℚ :=
  if 0 < bitrate then reticulumMtu * (1 / (bitrate : ℚ) * 8) + defaultPerHopTimeout else defaultPerHopTimeout

namespace TimeoutSource

/-- The timeout that is assigned, in seconds. -/
def assigned : TimeoutSource → ℚ
  | .link rtt => max (rtt * 6) (5 / 1000)
  | .path bitrate hops => hopTimeout bitrate + defaultPerHopTimeout * hops.toNat
  | .explicit timeout => timeout

/-- The timeout that is stored. The two statements of the constructor for a path store twice. -/
def stored (n : Narrowing) : TimeoutSource → Int16
  | .link rtt => n.toInt16 (max (rtt * 6) (5 / 1000))
  | .path bitrate hops => Int16.ofInt ((n.toInt16 (hopTimeout bitrate)).toInt + 6 * hops.toNat)
  | .explicit timeout => n.toInt16 timeout

end TimeoutSource

/-- Where the `PacketReceipt` constructor gets the timeout from. -/
def receiptSource (s : TransportState) (p : OutgoingPacket) : TimeoutSource :=
  if p.destination = some .link then .link ((p.destinationLink.map LinkState.rtt).getD 0)
  else .path (((nextHopInterface s p.packet.destinationHash).map Interface.bitrate).getD 0)
    (hopsTo s p.packet.destinationHash)

/-- The constructor works out the timeout of its source. -/
theorem newReceipt_timeout {env : Environment} {s : TransportState} {p : OutgoingPacket} {r : PacketReceipt}
    (h : newReceipt env s p = .ok r) : r.timeout = (receiptSource s p).assigned := by
  unfold newReceipt at h
  unfold receiptSource
  dsimp only at h
  split at h
  case isFalse hdestination =>
    cases h
    rw [if_neg hdestination]
    rfl
  case isTrue hdestination =>
    rw [if_pos hdestination]
    cases hlink : p.destinationLink with
    | none =>
      rw [hlink] at h
      cases h
    | some link =>
      rw [hlink] at h
      cases h
      rfl

/-! ## Checks -/

/-- `check_timeout`, called at these times. -/
def checks (times : List ℚ) : Prog Fault (Logged Receipt ReceiptEvent) Unit :=
  Prog.forEach times fun now => checkTimeout now

/-- The status of a receipt behind these checks. -/
def statusAfter (times : List ℚ) (r : Receipt) : ReceiptStatus := (checks times ⟨r, []⟩).2.state.status

/-- A receipt with a timeout from this source does not expire before the assigned time has passed, and is culled only
when minus one was assigned.
-/
structure NeverEarly (n : Narrowing) (source : TimeoutSource) : Prop where
  notSmaller : source.assigned < (source.stored n).toInt + 1
  waits : ∀ (r : Receipt) (times : List ℚ), r.status = .sent → r.timeout = (source.stored n).toInt →
    (∀ now ∈ times, now ≤ r.sentAt + source.assigned) → statusAfter times r = .sent
  culls : ∀ (r : Receipt) (times : List ℚ), r.status = .sent → r.timeout = (source.stored n).toInt →
    statusAfter times r = .culled → source.assigned = -1

theorem checkTimeout_skips {now : ℚ} {s : Logged Receipt ReceiptEvent}
    (h : ¬ (s.state.status = .sent ∧ s.state.isTimedOut now = true)) : checkTimeout now s = (.value (), s) := by
  unfold checkTimeout
  rw [Prog.get_bind_run, Prog.when_of_not h]
  rfl

/-- A receipt whose time is over is failed, or culled. -/
theorem checkTimeout_expires {now : ℚ} {s : Logged Receipt ReceiptEvent} (hsent : s.state.status = .sent)
    (hover : s.state.isTimedOut now = true) :
    ∃ log, checkTimeout now s = (.value (), ⟨s.state.expired now, log⟩) := by
  unfold checkTimeout
  rw [Prog.get_bind_run, Prog.when_of ⟨hsent, hover⟩]
  have hlift : (Logged.lift (Prog.modify (Receipt.expired now)) : Prog Fault (Logged Receipt ReceiptEvent) Unit) s
      = (.value (), ⟨s.state.expired now, s.log⟩) := rfl
  rw [Prog.bind_value hlift]
  rcases Prog.when_run_cases (s.state.timeoutHandler ≠ .none)
    (Logged.note .timedOut : Prog Fault (Logged Receipt ReceiptEvent) Unit) ⟨s.state.expired now, s.log⟩
    with ⟨-, hrun⟩ | ⟨-, hrun⟩
  · exact ⟨_, hrun⟩
  · exact ⟨_, hrun⟩

/-- Checks that come before the time is over do nothing. -/
theorem checks_waiting (times : List ℚ) (s : Logged Receipt ReceiptEvent)
    (h : ∀ now ∈ times, now ≤ s.state.sentAt + s.state.timeout) : checks times s = (.value (), s) := by
  induction times with
  | nil => rfl
  | cons now rest ih =>
    have hfirst : ¬ (s.state.status = .sent ∧ s.state.isTimedOut now = true) := by
      rintro ⟨-, hover⟩
      have htime := h now List.mem_cons_self
      have hpassed : s.state.sentAt + s.state.timeout < now := of_decide_eq_true hover
      exact absurd hpassed (not_lt.mpr htime)
    show (checkTimeout now >>= fun _ => checks rest) s = _
    rw [Prog.bind_value (checkTimeout_skips hfirst)]
    exact ih fun t ht => h t (List.mem_cons_of_mem _ ht)

/-- A receipt is culled by checks only with a timeout of minus one. -/
theorem not_culled_by_checks (times : List ℚ) :
    ∀ s : Logged Receipt ReceiptEvent, s.state.status ≠ .culled → s.state.timeout ≠ -1 →
      (checks times s).2.state.status ≠ .culled := by
  induction times with
  | nil =>
    intro s h _
    exact h
  | cons now rest ih =>
    intro s h htimeout
    show ((checkTimeout now >>= fun _ => checks rest) s).2.state.status ≠ .culled
    by_cases hover : s.state.status = .sent ∧ s.state.isTimedOut now = true
    · obtain ⟨log, hrun⟩ := checkTimeout_expires hover.1 hover.2
      rw [Prog.bind_value hrun]
      apply ih
      · simp [Receipt.expired, htimeout]
      · exact htimeout
    · rw [Prog.bind_value (checkTimeout_skips hover)]
      exact ih s h htimeout

/-- One check behind the stored timeout ends the waiting. -/
theorem statusAfter_single {r : Receipt} {now : ℚ} (hsent : r.status = .sent) (hover : r.sentAt + r.timeout < now) :
    statusAfter [now] r = if r.timeout = -1 then .culled else .failed := by
  obtain ⟨log, hrun⟩ := checkTimeout_expires (s := ⟨r, []⟩) hsent (decide_eq_true hover)
  unfold statusAfter
  show ((checkTimeout now >>= fun _ => checks []) ⟨r, []⟩).2.state.status = _
  rw [Prog.bind_value hrun]
  rfl

/-- Receipts of this source do not expire early exactly if the timeout was stored in full, and minus one was stored
for minus one only.
-/
theorem neverEarly_iff_stored (n : Narrowing) (source : TimeoutSource) :
    NeverEarly n source ↔ source.assigned ≤ (source.stored n).toInt
      ∧ ((source.stored n).toInt = -1 → source.assigned = -1) := by
  -- a receipt that was sent at time zero
  let r : Receipt :=
    { hash := .replicate 32 0, truncatedHash := .replicate 16 0, sentAt := 0, timeout := (source.stored n).toInt
      destination := { type := .single, hash := .replicate 16 0, identity := none } }
  constructor
  · intro h
    constructor
    · by_contra hless
      have hover : r.sentAt + r.timeout < source.assigned := by
        show (0 : ℚ) + _ < _
        rw [zero_add]
        exact not_le.mp hless
      have hwaits := h.waits r [source.assigned] rfl rfl (by simp [r])
      rw [statusAfter_single rfl hover] at hwaits
      split at hwaits <;> cases hwaits
    · intro hminus
      have hover : r.sentAt + r.timeout < 0 := by
        show (0 : ℚ) + (source.stored n).toInt < 0
        rw [hminus]
        norm_num
      apply h.culls r [0] rfl rfl
      rw [statusAfter_single rfl hover, if_pos]
      show ((source.stored n).toInt : ℚ) = -1
      rw [hminus]
      norm_num
  · rintro ⟨hstored, hminus⟩
    refine ⟨by linarith, ?_, ?_⟩
    · intro r times hsent htimeout htimes
      unfold statusAfter
      rw [checks_waiting times ⟨r, []⟩ fun now hnow => ?_]
      · exact hsent
      · have htime := htimes now hnow
        show now ≤ r.sentAt + r.timeout
        rw [htimeout]
        linarith
    · intro r times hsent htimeout hculled
      by_contra hne
      apply not_culled_by_checks times ⟨r, []⟩ _ _ hculled
      · show r.status ≠ .culled
        rw [hsent]
        decide
      · show r.timeout ≠ -1
        rw [htimeout]
        intro h
        apply hne
        apply hminus
        exact_mod_cast h

/-! ## What is stored in full -/

/-- A number of whole seconds. -/
def Whole (x : ℚ) : Prop := (truncate x : ℚ) = x

/-- A value of the conversion is at least what is converted when it fits and has no fraction that counts. -/
theorem le_toInt16_iff (n : Narrowing) (x : ℚ) : x ≤ (n.toInt16 x).toInt ↔ x ≤ 32767 ∧ (0 < x → Whole x) := by
  have hmax : (n.toInt16 x).toInt ≤ 32767 := (n.toInt16 x).toInt_le
  have hmin : -32768 ≤ (n.toInt16 x).toInt := (n.toInt16 x).le_toInt
  have hmax' : ((n.toInt16 x).toInt : ℚ) ≤ 32767 := by exact_mod_cast hmax
  have hmin' : (-32768 : ℚ) ≤ (n.toInt16 x).toInt := by exact_mod_cast hmin
  by_cases hsmall : x ≤ -32769
  · refine iff_of_true (by linarith) ⟨by linarith, fun h => ?_⟩
    linarith
  by_cases hbig : 32768 ≤ x
  · exact iff_of_false (fun h => by linarith) fun h => by linarith [h.1]
  rw [n.fits x (not_le.mp hsmall) (not_le.mp hbig)]
  unfold Whole truncate
  by_cases hpos : 0 ≤ x
  · rw [if_pos hpos]
    have hfloor : (⌊x⌋ : ℚ) ≤ x := Int.floor_le x
    have hlt : x < 32768 := not_le.mp hbig
    constructor
    · intro h
      have heq : (⌊x⌋ : ℚ) = x := le_antisymm hfloor h
      refine ⟨?_, fun _ => heq⟩
      have hint : ⌊x⌋ < 32768 := by
        apply Int.floor_lt.mpr
        exact_mod_cast hlt
      have hle : ⌊x⌋ ≤ 32767 := by omega
      rw [← heq]
      exact_mod_cast hle
    · rintro ⟨-, h⟩
      rcases hpos.eq_or_lt with rfl | hgt
      · simp
      · exact (h hgt).ge
  · rw [if_neg hpos]
    refine iff_of_true (Int.le_ceil x) ⟨by linarith, fun h => absurd h.le hpos⟩

/-- The time of a first hop with a known bitrate. -/
theorem hopTimeout_of_pos {bitrate : Nat} (h : 0 < bitrate) : hopTimeout bitrate = 4000 / bitrate + 6 := by
  have hne : (bitrate : ℚ) ≠ 0 := by exact_mod_cast h.ne'
  unfold hopTimeout reticulumMtu defaultPerHopTimeout
  rw [if_pos h]
  field_simp
  norm_num

theorem hopTimeout_bounds (bitrate : Nat) : 6 ≤ hopTimeout bitrate ∧ hopTimeout bitrate ≤ 4006 := by
  by_cases h : 0 < bitrate
  · have hone : (1 : ℚ) ≤ bitrate := by exact_mod_cast h
    have hpos : (0 : ℚ) < bitrate := by linarith
    have hnonneg : (0 : ℚ) ≤ 4000 / bitrate := by positivity
    have hle : (4000 : ℚ) / bitrate ≤ 4000 := div_le_self (by norm_num) hone
    rw [hopTimeout_of_pos h]
    constructor <;> linarith
  · unfold hopTimeout defaultPerHopTimeout
    rw [if_neg h]
    norm_num

/-- A bitrate gives whole seconds exactly if it divides the bits of the largest packet. -/
theorem whole_hopTimeout_iff (bitrate : Nat) : Whole (hopTimeout bitrate) ↔ bitrate = 0 ∨ bitrate ∣ 4000 := by
  rcases Nat.eq_zero_or_pos bitrate with rfl | h
  · refine iff_of_true ?_ (.inl rfl)
    norm_num [Whole, truncate, hopTimeout, defaultPerHopTimeout]
  rw [or_iff_right h.ne']
  have hne : (bitrate : ℚ) ≠ 0 := by exact_mod_cast h.ne'
  have hge : 0 ≤ hopTimeout bitrate := by linarith [(hopTimeout_bounds bitrate).1]
  have hvalue := hopTimeout_of_pos h
  unfold Whole truncate
  rw [if_pos hge]
  constructor
  · intro hwhole
    have heq : (4000 : ℚ) = bitrate * (⌊hopTimeout bitrate⌋ - 6 : Int) := by
      push_cast
      rw [hwhole, hvalue]
      field_simp
      ring
    have hint : (4000 : Int) = bitrate * (⌊hopTimeout bitrate⌋ - 6) := by exact_mod_cast heq
    exact Int.natCast_dvd_natCast.mp ⟨_, hint⟩
  · rintro ⟨k, hk⟩
    have hquot : (4000 : ℚ) / bitrate = k := by
      rw [div_eq_iff hne]
      have hcast : (4000 : ℚ) = bitrate * k := by exact_mod_cast hk
      rw [hcast, mul_comm]
    have hsum : hopTimeout bitrate = ((k + 6 : Int) : ℚ) := by
      rw [hvalue, hquot]
      push_cast
      rfl
    rw [hsum, Int.floor_intCast]

/-- The timeout of a path is stored without its fraction. -/
theorem stored_path (n : Narrowing) (bitrate : Nat) (hops : UInt8) :
    ((TimeoutSource.path bitrate hops).stored n).toInt = truncate (hopTimeout bitrate) + 6 * hops.toNat := by
  obtain ⟨hmin, hmax⟩ := hopTimeout_bounds bitrate
  have hfits := n.fits (hopTimeout bitrate) (by linarith) (by linarith)
  have hhops : hops.toNat < 256 := hops.toNat_lt
  have htruncate : 6 ≤ truncate (hopTimeout bitrate) ∧ truncate (hopTimeout bitrate) ≤ 4006 := by
    unfold truncate
    rw [if_pos (by linarith)]
    constructor
    · apply Int.le_floor.mpr
      exact_mod_cast hmin
    · have hfloor := Int.floor_le (hopTimeout bitrate)
      have hle : (⌊hopTimeout bitrate⌋ : ℚ) ≤ 4006 := by linarith
      exact_mod_cast hle
  show (Int16.ofInt ((n.toInt16 (hopTimeout bitrate)).toInt + 6 * hops.toNat)).toInt = _
  rw [hfits, Int16.toInt_ofInt]
  apply Int.bmod_eq_of_le
  · have hsize : -((Int16.size : Int) / 2) = -32768 := rfl
    omega
  · have hsize : ((Int16.size : Int) + 1) / 2 = 32768 := rfl
    omega

/-- The timeouts that are stored in full. -/
def TimeoutSource.StoredInFull (n : Narrowing) : TimeoutSource → Prop
  | .link rtt => max (rtt * 6) (5 / 1000) ≤ 32767 ∧ Whole (max (rtt * 6) (5 / 1000))
  | .path bitrate _ => bitrate = 0 ∨ bitrate ∣ 4000
  | .explicit timeout =>
    timeout ≤ 32767 ∧ (0 < timeout → Whole timeout) ∧ ((n.toInt16 timeout).toInt = -1 → timeout = -1)

/-- A receipt stays sent until its time has passed, and is culled by minus one only, exactly if its timeout is a
number of whole seconds that fits, or negative and not cut to minus one.
-/
theorem neverEarly_iff (n : Narrowing) (source : TimeoutSource) : NeverEarly n source ↔ source.StoredInFull n := by
  rw [neverEarly_iff_stored]
  cases source with
  | link rtt =>
    have hpos : 0 < max (rtt * 6) (5 / 1000) := lt_max_of_lt_right (by norm_num)
    show max (rtt * 6) (5 / 1000) ≤ ((n.toInt16 (max (rtt * 6) (5 / 1000))).toInt : ℚ) ∧ _ ↔ _ ∧ _
    rw [le_toInt16_iff]
    constructor
    · rintro ⟨⟨hfits, hwhole⟩, -⟩
      exact ⟨hfits, hwhole hpos⟩
    · rintro ⟨hfits, hwhole⟩
      refine ⟨⟨hfits, fun _ => hwhole⟩, fun hminus => ?_⟩
      have hstored := (le_toInt16_iff n (max (rtt * 6) (5 / 1000))).mpr ⟨hfits, fun _ => hwhole⟩
      have hcast : ((n.toInt16 (max (rtt * 6) (5 / 1000))).toInt : ℚ) = -1 := by exact_mod_cast hminus
      linarith
  | path bitrate hops =>
    obtain ⟨hmin, hmax⟩ := hopTimeout_bounds bitrate
    have hnonneg : (0 : ℚ) ≤ hops.toNat := Nat.cast_nonneg _
    rw [stored_path]
    show hopTimeout bitrate + defaultPerHopTimeout * hops.toNat ≤ ((truncate (hopTimeout bitrate) + 6 * hops.toNat : Int) : ℚ)
      ∧ (truncate (hopTimeout bitrate) + 6 * (hops.toNat : Int) = -1 → _) ↔ bitrate = 0 ∨ bitrate ∣ 4000
    rw [← whole_hopTimeout_iff]
    have hfloor : truncate (hopTimeout bitrate) = ⌊hopTimeout bitrate⌋ := if_pos (by linarith)
    have hle : (truncate (hopTimeout bitrate) : ℚ) ≤ hopTimeout bitrate := by
      rw [hfloor]
      exact Int.floor_le _
    have hsix : 6 ≤ truncate (hopTimeout bitrate) := by
      rw [hfloor]
      apply Int.le_floor.mpr
      exact_mod_cast hmin
    unfold Whole defaultPerHopTimeout
    push_cast
    constructor
    · rintro ⟨h, -⟩
      linarith
    · intro h
      refine ⟨by linarith, fun hminus => ?_⟩
      omega
  | explicit timeout =>
    show timeout ≤ ((n.toInt16 timeout).toInt : ℚ) ∧ _ ↔ _
    rw [le_toInt16_iff]
    exact and_assoc

/-- Of a packet that `outbound` sends, the timeout worked out for its receipt survives in the `int16_t` exactly if it
is one that is stored in full.
-/
theorem newReceipt_kept_iff (n : Narrowing) {env : Environment} {s : TransportState} {p : OutgoingPacket}
    {r : PacketReceipt} (h : newReceipt env s p = .ok r) :
    r.timeout ≤ (((receiptSource s p).stored n).toInt : ℚ) ↔ (receiptSource s p).StoredInFull n := by
  have hpos : 0 ≤ (receiptSource s p).assigned := by
    unfold receiptSource
    split
    · exact le_max_of_le_right (by norm_num)
    · have hmin := (hopTimeout_bounds
        (((nextHopInterface s p.packet.destinationHash).map Interface.bitrate).getD 0)).1
      have hhops : (0 : ℚ) ≤ (hopsTo s p.packet.destinationHash).toNat := Nat.cast_nonneg _
      unfold TimeoutSource.assigned defaultPerHopTimeout
      push_cast
      linarith
  rw [newReceipt_timeout h, ← neverEarly_iff, neverEarly_iff_stored]
  refine (and_iff_left_of_imp fun hle hminus => ?_).symm
  rw [hminus] at hle
  push_cast at hle
  linarith

namespace Sample

/-- A conversion that keeps the low sixteen bits of what does not fit. -/
def wrapping : Narrowing where
  toInt16 x := Int16.ofInt (truncate x)
  fits x hmin hmax := by
    have hbounds : -32768 ≤ truncate x ∧ truncate x ≤ 32767 := by
      unfold truncate
      split
      case isTrue h =>
        have hlt : ⌊x⌋ < 32768 := by
          apply Int.floor_lt.mpr
          exact_mod_cast hmax
        have hnonneg : 0 ≤ ⌊x⌋ := Int.floor_nonneg.mpr h
        omega
      case isFalse h =>
        have hlt : -32769 < ⌈x⌉ := by
          apply Int.lt_ceil.mpr
          exact_mod_cast hmin
        have hneg : ⌈x⌉ ≤ 0 := Int.ceil_le.mpr (by exact_mod_cast (not_le.mp h).le)
        omega
    rw [Int16.toInt_ofInt]
    apply Int.bmod_eq_of_le
    · have hsize : -((Int16.size : Int) / 2) = -32768 := rfl
      omega
    · have hsize : ((Int16.size : Int) + 1) / 2 = 32768 := rfl
      omega

end Sample

/-- Over a link that answers in ten milliseconds the timeout is stored as zero. -/
theorem fast_link_expires : ¬ ∀ (n : Narrowing) (source : TimeoutSource), NeverEarly n source := by
  intro h
  have hnever := (neverEarly_iff_stored _ _).mp (h Sample.wrapping (.link (1 / 100)))
  have hstored : ((TimeoutSource.link (1 / 100)).stored Sample.wrapping).toInt = 0 := by decide +kernel
  rw [hstored] at hnever
  have hassigned : (TimeoutSource.link (1 / 100)).assigned = 6 / 100 := by
    norm_num [TimeoutSource.assigned]
  rw [hassigned] at hnever
  norm_num at hnever

end MicroReticulum.Transport
