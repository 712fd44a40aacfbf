import MicroReticulum.Library.MsgPack
import MicroReticulum.Wire.Bytes

/-!
# The clock of a device without a clock

`OS::ltime` counts the milliseconds since the first boot: the uptime in two statics, the low one as `millis` has it,
and an offset that `Reticulum::start` reads from a file and the jobs write back. The file system works: what was
written is what is read.

A boot that finds a time above 32 bits in the file takes it for a corrupt one and starts over
(`clock_starts_over`); a boot that does not goes on from it (`clock_goes_on`).
-/

namespace MicroReticulum.Utilities.Clock

open Library.MsgPack (bigEndian bigEndian_length readNat readNat_of_lt)

/-! ## The device -/

structure Device where
  file : Option Bytes
  /-- The milliseconds since the boot. -/
  uptime : Nat := 0
  low32 : UInt32 := 0
  high32 : UInt32 := 0
  timeOffset : UInt64 := 0

/-- The bytes of a word in memory, the lowest of them first. -/
def rawBytes (n : UInt64) : Bytes := (bigEndian 8 n.toNat).reverse

/-- The word in eight bytes of memory. -/
def ofRawBytes (bs : Bytes) : UInt64 := UInt64.ofNat (((readNat 8 0 bs.reverse).map Prod.fst).getD 0)

def Device.millis (d : Device) : UInt32 := UInt32.ofNat d.uptime

/-- `OS::ltime`: the statics handle the roll-over of `millis`. -/
def Device.ltime (d : Device) : UInt64 × Device :=
  let high32 := if d.millis < d.low32 then d.high32 + 1 else d.high32
  let low32 := d.millis
  ((high32.toUInt64 <<< 32 ||| low32.toUInt64) + d.timeOffset, { d with high32, low32 })

def Device.readTimeOffset (d : Device) : Bool × Device :=
  match d.file with
  | none => (false, d)
  | some buf =>
    if buf.length = 8 then
      let offset := ofRawBytes buf
      if 4294967295 < offset then (false, d) else (true, { d with timeOffset := offset })
    else (false, d)

/-- What is written, and the device after it. -/
def Device.writeTimeOffset (d : Device) : UInt64 × Device :=
  let (offset, d) := d.ltime
  (offset, { d with file := some (rawBytes offset) })

/-- What `Reticulum::start` does about the time. -/
def Device.start (d : Device) : UInt64 × Device :=
  let d := d.readTimeOffset.2
  -- advanced by one and written back, so that the next boot is later
  Device.writeTimeOffset { d with timeOffset := d.timeOffset + 1 }

/-- What happens to a device. -/
inductive Event where
  | pass (ms : Nat)
  | read
  | persist
  /-- The power goes, and `Reticulum::start` is reached some time after the boot. -/
  | restart (ms : Nat)
  deriving DecidableEq

/-- What an event persists, and the device after it. -/
def Device.step (d : Device) : Event → Option UInt64 × Device
  | .pass ms => (none, { d with uptime := d.uptime + ms })
  | .read => (none, d.ltime.2)
  | .persist => Prod.map some id d.writeTimeOffset
  | .restart ms => Prod.map some id (Device.start { file := d.file, uptime := ms })

def Device.run (d : Device) : List Event → Device
  | [] => d
  | event :: events => (d.step event).2.run events

/-- The times that are persisted. -/
def Device.persisted (d : Device) : List Event → List UInt64
  | [] => []
  | event :: events => (d.step event).1.toList ++ (d.step event).2.persisted events

theorem run_append (d : Device) (events later : List Event) : d.run (events ++ later) = (d.run events).run later := by
  induction events generalizing d with
  | nil => rfl
  | cons event events ih => exact ih (d.step event).2

/-! ## What is read back -/

theorem rawBytes_length (n : UInt64) : (rawBytes n).length = 8 := by
  unfold rawBytes
  rw [List.length_reverse, bigEndian_length]

theorem ofRawBytes_rawBytes (n : UInt64) : ofRawBytes (rawBytes n) = n := by
  have hread := readNat_of_lt (show n.toNat < 256 ^ 8 from n.toNat_lt) []
  rw [List.append_nil] at hread
  unfold ofRawBytes rawBytes
  rw [List.reverse_reverse, hread]
  exact UInt64.ofNat_toNat

theorem step_file (d : Device) (event : Event) :
    (d.step event).2.file = ((d.step event).1.map rawBytes).or d.file := by
  cases event <;> rfl

/-- The file has what was persisted last. -/
theorem run_file (d : Device) (events : List Event) :
    (d.run events).file = ((d.persisted events).getLast?.map rawBytes).or d.file := by
  induction events generalizing d with
  | nil => rfl
  | cons event events ih =>
    show ((d.step event).2.run events).file = _
    rw [ih, step_file, Device.persisted, List.getLast?_append]
    cases (Device.persisted (d.step event).2 events).getLast? with
    | some v => rfl
    | none => cases (d.step event).1 <;> rfl

/-! ## The counter -/

/-- The statics are not ahead of the uptime, and the clock has room for it. -/
structure Device.Behind (d : Device) : Prop where
  counted : d.high32.toNat * 2 ^ 32 + d.low32.toNat ≤ d.uptime
  room : d.uptime + 2 ^ 32 < 2 ^ 64

theorem joined_toNat (high low : UInt32) :
    (high.toUInt64 <<< 32 ||| low.toUInt64).toNat = high.toNat * 2 ^ 32 + low.toNat := by
  have hhigh := high.toNat_lt
  have hlow := low.toNat_lt
  have hshift : (high.toUInt64 <<< 32).toNat = high.toNat <<< 32 := by
    rw [UInt64.toNat_shiftLeft, Nat.shiftLeft_eq, Nat.shiftLeft_eq]
    exact Nat.mod_eq_of_lt (by simp; omega)
  rw [UInt64.toNat_or, hshift, UInt32.toNat_toUInt64, ← Nat.shiftLeft_add_eq_or_of_lt hlow, Nat.shiftLeft_eq]

/-- A count of rounds that is not ahead gains at most the one that has just ended. -/
theorem rounds_le {w high low now up : Nat} (h : high * w + low ≤ up) (hnow : now = up % w) (hw : now < w) :
    (if now < low then high + 1 else high) * w + now ≤ up := by
  have hsplit : up / w * w + now = up := by
    rw [hnow, Nat.div_add_mod']
  have hrounds : (if now < low then high + 1 else high) ≤ up / w := by
    split
    case isTrue hover =>
      by_contra hle
      have hmany := Nat.mul_le_mul_right w (Nat.lt_succ_iff.mp (Nat.lt_of_not_le hle))
      omega
    case isFalse => exact (Nat.le_div_iff_mul_le (by omega)).mpr (by omega)
  calc
    _ ≤ up / w * w + now := Nat.add_le_add_right (Nat.mul_le_mul_right w hrounds) now
    _ = up := hsplit

theorem Device.Behind.ltime {d : Device} (h : d.Behind) : d.ltime.2.Behind := by
  refine ⟨le_trans ?_ (rounds_le h.counted UInt32.toNat_ofNat' d.millis.toNat_lt), h.room⟩
  show (if d.millis < d.low32 then d.high32 + 1 else d.high32).toNat * 2 ^ 32 + d.millis.toNat
    ≤ (if d.millis.toNat < d.low32.toNat then d.high32.toNat + 1 else d.high32.toNat) * 2 ^ 32 + d.millis.toNat
  apply Nat.add_le_add_right
  apply Nat.mul_le_mul_right
  by_cases hover : d.millis < d.low32
  case pos =>
    rw [if_pos hover, if_pos (UInt32.lt_iff_toNat_lt.mp hover), UInt32.toNat_add]
    exact Nat.mod_le _ _
  case neg => rw [if_neg hover, if_neg (mt UInt32.lt_iff_toNat_lt.mpr hover)]

/-- As long as it has room, the clock is not behind its offset. -/
theorem Device.Behind.le_ltime {d : Device} (h : d.Behind) (hoffset : d.timeOffset.toNat ≤ 2 ^ 32) :
    d.timeOffset ≤ d.ltime.1 := by
  have hcounted := h.ltime.counted
  have hroom := h.ltime.room
  show d.timeOffset.toNat ≤ ((d.ltime.2.high32.toUInt64 <<< 32 ||| d.ltime.2.low32.toUInt64) + d.timeOffset).toNat
  rw [UInt64.toNat_add, joined_toNat, Nat.mod_eq_of_lt (by omega)]
  exact Nat.le_add_left _ _

/-! ## Across a restart -/

/-- The uptime does not fill the 64 bits of the clock, and a boot finds no time above 32 bits in the file. -/
def Device.Meets (d : Device) : Event → Prop
  | .pass ms => d.uptime + ms + 2 ^ 32 < 2 ^ 64
  | .restart ms => (∀ buf, d.file = some buf → ofRawBytes buf ≤ 4294967295) ∧ ms + 2 ^ 32 < 2 ^ 64
  | _ => True

/-- Every event of a run meets the condition. -/
def Device.MeetsAll (d : Device) : List Event → Prop
  | [] => True
  | event :: events => d.Meets event ∧ (d.step event).2.MeetsAll events

theorem meetsAll_append {d : Device} {events later : List Event} (h : d.MeetsAll (events ++ later)) :
    (d.run events).MeetsAll later := by
  induction events generalizing d with
  | nil => exact h
  | cons event events ih => exact ih h.2

/-- A device that was booted with this time in its file. -/
structure Device.After (d : Device) (v : UInt64) : Prop extends d.Behind where
  later : v.toNat < d.timeOffset.toNat
  small : d.timeOffset.toNat ≤ 2 ^ 32

theorem Device.After.le_ltime {d : Device} {v : UInt64} (h : d.After v) : v ≤ d.ltime.1 :=
  UInt64.le_trans (UInt64.le_of_lt h.later) (h.toBehind.le_ltime h.small)

theorem after_start {file : Option Bytes} {v : UInt64} (hfile : file = some (rawBytes v)) (hsmall : v ≤ 4294967295)
    {ms : Nat} (hms : ms + 2 ^ 32 < 2 ^ 64) : (Device.start { file, uptime := ms }).2.After v := by
  subst hfile
  have hread : (Device.readTimeOffset { file := some (rawBytes v), uptime := ms }).2
      = { file := some (rawBytes v), uptime := ms, timeOffset := v } := by
    unfold Device.readTimeOffset
    dsimp only
    rw [if_pos (rawBytes_length v), ofRawBytes_rawBytes, if_neg (UInt64.not_lt.mpr hsmall)]
  have hbooted : Device.Behind { file := some (rawBytes v), uptime := ms, timeOffset := v + 1 } := by
    refine ⟨?_, hms⟩
    show 0 * 2 ^ 32 + 0 ≤ ms
    rw [Nat.zero_mul]
    exact Nat.zero_le ms
  have hsmall : v.toNat ≤ 4294967295 := hsmall
  have hnext : (v + 1).toNat = v.toNat + 1 := by
    rw [UInt64.toNat_add]
    exact Nat.mod_eq_of_lt (by simp; omega)
  unfold Device.start
  rw [hread]
  refine ⟨⟨hbooted.ltime.counted, hms⟩, ?_, ?_⟩
  · show v.toNat < (v + 1).toNat
    omega
  · show (v + 1).toNat ≤ 2 ^ 32
    omega

/-- The event is a restart. -/
def Event.isRestart : Event → Bool
  | .restart _ => true
  | _ => false

theorem Device.After.step {d : Device} {v : UInt64} (h : d.After v) {event : Event} (hevent : event.isRestart = false)
    (hmeets : d.Meets event) : (d.step event).2.After v := by
  cases event with
  | pass ms => exact ⟨⟨h.counted.trans (Nat.le_add_right _ _), hmeets⟩, h.later, h.small⟩
  | read => exact ⟨h.toBehind.ltime, h.later, h.small⟩
  | persist => exact ⟨⟨h.toBehind.ltime.counted, h.room⟩, h.later, h.small⟩
  | restart ms => cases hevent

theorem Device.After.run {d : Device} {v : UInt64} (h : d.After v) {events : List Event}
    (hevents : ∀ event ∈ events, event.isRestart = false) (hmeets : d.MeetsAll events) : (d.run events).After v := by
  induction events generalizing d with
  | nil => exact h
  | cons event events ih =>
    apply ih (h.step (hevents event List.mem_cons_self) hmeets.1) _ hmeets.2
    exact fun event hmem => hevents event (List.mem_cons_of_mem _ hmem)

/-- In every run that meets the condition the clock is, at any time between a restart and the next one, not behind the
time that was persisted last before the restart. -/
theorem clock_goes_on {file : Option Bytes} {past later : List Event} {ms : Nat} {v : UInt64}
    (hmeets : Device.MeetsAll { file } (past ++ .restart ms :: later))
    (hlater : ∀ event ∈ later, event.isRestart = false)
    (hv : (Device.persisted { file } past).getLast? = some v) :
    v ≤ (Device.run { file } (past ++ .restart ms :: later)).ltime.1 := by
  obtain ⟨⟨hfile, hms⟩, hrest⟩ := meetsAll_append hmeets
  have hpersisted : (Device.run { file } past).file = some (rawBytes v) := by
    rw [run_file, hv]
    rfl
  have hsmall := hfile _ hpersisted
  rw [ofRawBytes_rawBytes] at hsmall
  rw [run_append]
  exact ((after_start hpersisted hsmall hms).run hlater hrest).le_ltime

theorem clock_goes_on_week : (604800002 : UInt64)
    ≤ (Device.run { file := none } ([.restart 1, .pass 604800000, .persist] ++ .restart 5 :: [.pass 10])).ltime.1 := by
  refine clock_goes_on ⟨⟨nofun, by decide⟩, ?_, trivial, ⟨?_, by decide⟩, ?_, trivial⟩ (by decide) (by decide)
  · show 1 + 604800000 + 2 ^ 32 < 2 ^ 64
    decide
  · rintro buf ⟨⟩
    decide
  · show 5 + 10 + 2 ^ 32 < 2 ^ 64
    decide

/-- Two months of uptime, then a restart: the clock starts over. -/
theorem clock_starts_over : ¬ ∀ (file : Option Bytes) (past later : List Event) (ms : Nat) (v : UInt64),
    (∀ event ∈ later, event.isRestart = false) → (Device.persisted { file } past).getLast? = some v →
    v ≤ (Device.run { file } (past ++ .restart ms :: later)).ltime.1 := by
  intro h
  have hover := h none [.restart 0, .pass 3000000000, .persist, .pass 3000000000, .persist] [.pass 1000] 0 6000000001
    (by decide) (by decide)
  revert hover
  decide

end MicroReticulum.Utilities.Clock
