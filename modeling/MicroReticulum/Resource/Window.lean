import MicroReticulum.Resource.Bookkeeping
import MicroReticulum.Resource.Filing

/-!
# The window of a transfer

`Window` is the window of a receiver with its limits, in natural numbers. It grows, is capped and shrinks by the
rules of the code, and `Window.Sound` is what is said of it where the constants are defined: it is within its
limits, and the difference between them never falls below the flexibility.

That does not hold of every run. `Window.grow_sound_iff`, `Window.slow_sound_iff` and `Window.shrink_sound_iff` say
when each rule keeps it.

Nor does the window grow only when a request is done: every part that arrives while nothing is outstanding counts
as its last one. `Watched` keeps with a record what the record does not say, the slots of its last request and the
requests behind which its window has grown.

The rates the window grows by are measured with floats and are free here.
-/

namespace MicroReticulum.Resource

open MicroReticulum Packet Link Library

/-! ## The abstract window -/

/-- A window, its limits, and the rounds at a fast and at a very slow rate. -/
structure Window where
  size : Nat
  min : Nat
  max : Nat
  fastRounds : Nat
  slowRounds : Nat
  deriving DecidableEq

namespace Window

/-- The window grows below its maximum, and pulls up the minimum. -/
def grow (w : Window) : Window :=
  if w.size < w.max then
    { w with size := w.size + 1, min := if w.min + 4 ≤ w.size + 1 then w.min + 1 else w.min }
  else w

/-- A round at a fast rate. -/
def fast (w : Window) : Window :=
  if w.fastRounds < 4 then
    { w with fastRounds := w.fastRounds + 1, max := if w.fastRounds + 1 = 4 then 75 else w.max }
  else w

/-- A round at a very slow rate. -/
def slow (w : Window) : Window :=
  if w.fastRounds = 0 ∧ w.slowRounds < 2 then
    { w with slowRounds := w.slowRounds + 1, max := if w.slowRounds + 1 = 2 then 4 else w.max }
  else w

/-- The window shrinks above its minimum, and the maximum follows by one or by two. -/
def shrink (w : Window) : Window :=
  if w.min < w.size then
    { w with
      size := w.size - 1
      max := if w.min < w.max then if w.size + 4 ≤ w.max then w.max - 2 else w.max - 1 else w.max }
  else w

/-- The window is within its limits, and they are as far apart as the flexibility. -/
structure Sound (w : Window) : Prop where
  least : 2 ≤ w.min
  low : w.min ≤ w.size
  near : w.size < w.min + 4
  high : w.size ≤ w.max
  apart : w.min + 4 ≤ w.max
  most : w.max ≤ 75
  fastRounds : w.fastRounds ≤ 4
  slowRounds : w.slowRounds ≤ 2

variable {w : Window}

/-- Growing keeps the limits apart exactly if it does not reach the maximum. -/
theorem grow_sound_iff (h : w.Sound) : w.grow.Sound ↔ w.size + 1 < w.max := by
  obtain ⟨hleast, hlow, hnear, hhigh, hapart, hmost, hfast, hslow⟩ := h
  unfold grow
  rw [if_pos (by omega)]
  constructor
  · intro hgrown
    have hapart' := hgrown.apart
    dsimp only at hapart'
    split at hapart' <;> omega
  · intro hroom
    by_cases hpull : w.min + 4 ≤ w.size + 1
    · rw [if_pos hpull]
      constructor <;> dsimp only <;> omega
    · rw [if_neg hpull]
      constructor <;> dsimp only <;> omega

/-- A fast round keeps the limits apart. -/
theorem Sound.fast (h : w.Sound) : w.fast.Sound := by
  obtain ⟨hleast, hlow, hnear, hhigh, hapart, hmost, hfast, hslow⟩ := h
  unfold Window.fast
  split
  case isFalse => exact ⟨hleast, hlow, hnear, hhigh, hapart, hmost, hfast, hslow⟩
  by_cases hraised : w.fastRounds + 1 = 4
  · rw [if_pos hraised]
    constructor <;> dsimp only <;> omega
  · rw [if_neg hraised]
    constructor <;> dsimp only <;> omega

/-- A very slow round keeps the limits apart exactly if it does not cap the window. -/
theorem slow_sound_iff (h : w.Sound) : w.slow.Sound ↔ ¬ (w.fastRounds = 0 ∧ w.slowRounds = 1) := by
  obtain ⟨hleast, hlow, hnear, hhigh, hapart, hmost, hfast, hslow⟩ := h
  unfold slow
  constructor
  · rintro hslowed ⟨hnone, hone⟩
    rw [if_pos ⟨hnone, by omega⟩, if_pos (by omega)] at hslowed
    have hapart' := hslowed.apart
    dsimp only at hapart'
    omega
  · intro huncapped
    split
    case isFalse => exact ⟨hleast, hlow, hnear, hhigh, hapart, hmost, hfast, hslow⟩
    case isTrue hslower =>
      rw [if_neg (by omega)]
      constructor <;> dsimp only <;> omega

/-- Shrinking keeps the limits apart exactly if the maximum is far enough from the minimum. -/
theorem shrink_sound_iff (h : w.Sound) :
    w.shrink.Sound ↔ (w.min < w.size → if w.size + 4 ≤ w.max then w.min + 6 ≤ w.max else w.min + 5 ≤ w.max) := by
  obtain ⟨hleast, hlow, hnear, hhigh, hapart, hmost, hfast, hslow⟩ := h
  unfold shrink
  by_cases habove : w.min < w.size
  case neg =>
    rw [if_neg habove]
    exact ⟨fun _ h => absurd h habove, fun _ => ⟨hleast, hlow, hnear, hhigh, hapart, hmost, hfast, hslow⟩⟩
  rw [if_pos habove, if_pos (by omega)]
  constructor
  · intro hshrunk _
    have hapart' := hshrunk.apart
    dsimp only at hapart'
    split at hapart' <;> split <;> omega
  · intro hfar
    have hfar' := hfar habove
    by_cases hdouble : w.size + 4 ≤ w.max
    · rw [if_pos hdouble] at hfar' ⊢
      constructor <;> dsimp only <;> omega
    · rw [if_neg hdouble] at hfar' ⊢
      constructor <;> dsimp only <;> omega

/-- What the last part of a request makes of the window. -/
def afterRequest (rates : Rates) (w : Window) : Window :=
  let w := w.grow
  let w := if rates.measured && rates.fast then w.fast else w
  if rates.measured && rates.verySlow then w.slow else w

theorem grow_rounds (w : Window) : w.grow.fastRounds = w.fastRounds ∧ w.grow.slowRounds = w.slowRounds := by
  unfold grow
  split <;> exact ⟨rfl, rfl⟩

theorem fast_rounds (w : Window) : w.fast.fastRounds ≠ 0 := by
  unfold fast
  split
  · exact Nat.succ_ne_zero _
  · omega

/-- The last part of a request keeps the limits apart, if the window does not reach its maximum and is not
capped. -/
theorem Sound.afterRequest (h : w.Sound) {rates : Rates} (hroom : w.size + 1 < w.max)
    (hcap : rates.measured → rates.verySlow → rates.fast = false → ¬ (w.fastRounds = 0 ∧ w.slowRounds = 1)) :
    (w.afterRequest rates).Sound := by
  have hgrown := (grow_sound_iff h).mpr hroom
  obtain ⟨hfastRounds, hslowRounds⟩ := grow_rounds w
  unfold Window.afterRequest
  dsimp only
  by_cases hfast : (rates.measured && rates.fast) = true
  · rw [if_pos hfast]
    split
    · exact (slow_sound_iff hgrown.fast).mpr fun hnone => fast_rounds _ hnone.1
    · exact hgrown.fast
  · rw [if_neg hfast]
    split
    case isTrue hslow =>
      obtain ⟨hmeasured, hslow⟩ := Bool.and_eq_true_iff.mp hslow
      refine (slow_sound_iff hgrown).mpr ?_
      rw [hfastRounds, hslowRounds]
      refine hcap hmeasured hslow (Bool.eq_false_iff.mpr fun h => hfast ?_)
      exact Bool.and_eq_true_iff.mpr ⟨hmeasured, h⟩
    case isFalse => exact hgrown

/-- The window of a new receiver. -/
def start : Window := ⟨4, 2, 10, 0, 0⟩

theorem start_sound : start.Sound := by
  constructor <;> decide

end Window

/-! ## The window of a record -/

/-- The window of a record, with its limits. -/
def ResourceData.limits (d : ResourceData) : Window where
  size := d.window.toNat
  min := d.windowMin.toNat
  max := d.windowMax.toNat
  fastRounds := d.fastRateRounds.toNat
  slowRounds := d.verySlowRateRounds.toNat

section Limits

variable (d : ResourceData)

/-- The rounds and the windows are counted in types they do not leave. -/
theorem fastRound_limits : (fastRound d).limits = d.limits.fast := by
  have hthreshold : fastRateThreshold.toNat = 4 := rfl
  have hmax : windowMaxFast.toNat = 75 := rfl
  unfold fastRound Window.fast ResourceData.limits
  grind [UInt8.lt_iff_toNat_lt, UInt8.toNat_inj, UInt8.toNat_add]

/-- A very slow round lowers the limits as the window's own rule says. -/
theorem verySlowRound_limits : (verySlowRound d).limits = d.limits.slow := by
  have hthreshold : verySlowRateThreshold.toNat = 2 := rfl
  have hmax : windowMaxVerySlow.toNat = 4 := rfl
  have hnone : d.fastRateRounds = 0 ↔ d.fastRateRounds.toNat = 0 := UInt8.toNat_inj.symm
  unfold verySlowRound Window.slow ResourceData.limits
  grind [UInt8.lt_iff_toNat_lt, UInt8.toNat_inj, UInt8.toNat_add]

variable {d}

/-- While the flexibility is the one of the start, growing the window is the window's own rule. -/
theorem growWindow_limits (h : d.windowFlexibility = windowFlexibilityStart) :
    (growWindow d).limits = d.limits.grow := by
  have hflexibility : d.windowFlexibility.toNat = 4 := by rw [h]; rfl
  have hmax := d.windowMax.toNat_lt
  unfold growWindow Window.grow ResourceData.limits
  grind [UInt16.lt_iff_toNat_lt, UInt16.toNat_add]

/-- While the flexibility is the one of the start, shrinking the window is the window's own rule. -/
theorem shrinkWindow_limits (h : d.windowFlexibility = windowFlexibilityStart) :
    (shrinkWindow d).limits = d.limits.shrink := by
  have hflexibility : d.windowFlexibility.toNat = 4 := by rw [h]; rfl
  have hone : (1 : UInt16).toNat = 1 := rfl
  unfold shrinkWindow Window.shrink ResourceData.limits
  grind [UInt16.lt_iff_toNat_lt, UInt16.toNat_sub_of_le, UInt16.le_iff_toNat_le]

/-- While the flexibility is the one of the start, what follows a round is the window's own rule. -/
theorem afterRequest_limits (h : d.windowFlexibility = windowFlexibilityStart) (rates : Rates) :
    (afterRequest rates d).limits = d.limits.afterRequest rates := by
  unfold afterRequest Window.afterRequest
  dsimp only
  split <;> split <;> simp only [fastRound_limits, verySlowRound_limits, growWindow_limits h]

/-- No part of a request counts the window or moves its limits. -/
theorem nextRequest_limits (d : ResourceData) : (nextRequest d).limits = d.limits := by
  obtain ⟨_, _, hnext⟩ := nextRequest_writes d
  rw [hnext]
  rfl

end Limits

/-! ## Watching -/

/-- The window grew: behind which request, and how many of its slots were still empty. -/
structure Growth where
  request : Nat
  missing : Nat
  deriving DecidableEq

/-- A record, its window in natural numbers, the slots of its last request, the number of its requests, and when
its window has grown. -/
structure Watched where
  record : ResourceData
  limits : Window := .start
  asked : List Nat := []
  requests : Nat := 0
  growths : List Growth := []

namespace Watched

/-- `request_next` -/
def request (w : Watched) : Watched :=
  if w.record.status ≠ .failed ∧ w.record.waitingForHmu = false then
    { w with record := nextRequest w.record, asked := nextSlots w.record, requests := w.requests + 1 }
  else w

/-- The rate of the first part of a request. -/
def first (rates : Rates) (w : Watched) : Watched :=
  if rates.fastFirst then { w with record := fastRound w.record, limits := w.limits.fast } else w

/-- The last part of a request has arrived, as far as `receive_part` can tell. -/
def complete (rates : Rates) (w : Watched) : Watched :=
  request
    { w with
      record := afterRequest rates w.record
      limits := w.limits.afterRequest rates
      growths :=
        if w.limits.size < w.limits.max then ⟨w.requests, (missing w.record w.asked).length⟩ :: w.growths
        else w.growths }

/-- `receive_part` -/
def part (env : Env) (data : Bytes) (rates : Rates) (w : Watched) : Watched :=
  let w := w.first rates
  if w.record.status = .failed then w
  else
    let w := { w with record := filePart env data w.record }
    if w.record.receivedCount = w.record.totalParts ∧ w.record.assemblyLock = false then
      { w with record := { w.record with assemblyLock := true } }
    else if w.record.outstandingParts = 0 then w.complete rates
    else w

/-- `hashmap_update` -/
def hashmap (segment : UInt16) (hashmap : Bytes) (w : Watched) : Watched :=
  if w.record.status ≠ .failed then
    request
      { w with
        record := { updateEntries segment hashmap { w.record with status := .transferring } with waitingForHmu := false } }
  else w

/-- A timeout of the receiver. -/
def late (w : Watched) : Watched :=
  request
    { w with
      record := { shrinkWindow w.record with retriesLeft := w.record.retriesLeft - 1, waitingForHmu := false }
      limits := w.limits.shrink }

/-- An incident of a receiver. -/
def after (env : Env) : Incident → Watched → Watched
  | .part data rates => part env data rates
  | .hashmap segment entries => hashmap segment entries
  | .late => late
  | .asked => id

variable {env : Env} {w : Watched}

/-- A watched request writes into the record what the resource does for its next request. -/
@[simp] theorem request_record (w : Watched) : w.request.record = nextRequest w.record := by
  unfold request nextRequest
  split <;> rfl

/-- The first part of a round can make the round a fast one. -/
theorem first_record (rates : Rates) (w : Watched) :
    (w.first rates).record = if rates.fastFirst then fastRound w.record else w.record := by
  unfold first
  split <;> rfl

/-- A watched part writes into the record what filing it does. -/
theorem part_record (data : Bytes) (rates : Rates) (w : Watched) :
    (w.part env data rates).record = filedPart env data rates w.record := by
  unfold part filedPart afterFiling
  dsimp only
  rw [← first_record]
  split
  · rfl
  split
  · rfl
  split
  · exact request_record _
  · rfl

/-- A watched segment writes into the record what filing it does. -/
theorem hashmap_record (segment : UInt16) (entries : Bytes) (w : Watched) :
    (w.hashmap segment entries).record = updatedHashmap segment entries w.record := by
  unfold hashmap updatedHashmap
  split
  · exact request_record _
  · rfl

theorem late_record (w : Watched) : w.late.record = timedOut w.record := request_record _

/-! ## What is kept -/

/-- The last request was the only thing to count outstanding parts for, and the window grew at most once behind each
one, with all its slots filled. -/
structure Kept (w : Watched) : Prop where
  flexibility : w.record.windowFlexibility = windowFlexibilityStart
  limits : w.record.limits = w.limits
  sound : w.limits.Sound
  asked : w.asked.Nodup
  outstanding : w.record.outstandingParts.toNat = (missing w.record w.asked).length
  growths : ∀ g ∈ w.growths, g.missing = 0 ∧ g.request ≤ w.requests
  once : (w.growths.map Growth.request).Nodup

/-- The part would be taken for the last one of its request, and not for the last one of all. -/
def Completes (env : Env) (data : Bytes) (d : ResourceData) : Prop :=
  d.outstandingParts.toNat ≤ (fits env data d).length
    ∧ ¬ (d.receivedCount + UInt32.ofNat (fits env data d).length = d.totalParts ∧ d.assemblyLock = false)

/-- While parts are outstanding, a part goes into slots that were asked for. If it would be taken for the last one of
its request, the window has not grown behind that request yet, stays below its maximum, and is not capped. A timeout
finds the maximum far enough from the minimum. -/
def Gentle (env : Env) (w : Watched) : Incident → Prop
  | .part data rates => w.record.status ≠ .failed →
      (w.record.outstandingParts ≠ 0 → fits env data w.record ⊆ w.asked)
      ∧ (Completes env data w.record →
        let limits := if rates.fastFirst then w.limits.fast else w.limits
        (∀ g ∈ w.growths, g.request ≠ w.requests) ∧ limits.size + 1 < limits.max
          ∧ (rates.measured → rates.verySlow → rates.fast = false → ¬ (limits.fastRounds = 0 ∧ limits.slowRounds = 1)))
  | .late => w.limits.min < w.limits.size →
      if w.limits.size + 4 ≤ w.limits.max then w.limits.min + 6 ≤ w.limits.max else w.limits.min + 5 ≤ w.limits.max
  | _ => True

/-- A record may change where the window and the slots are not concerned. -/
theorem Kept.withRecord (h : w.Kept) {d : ResourceData} (hlimits : d.limits = w.record.limits)
    (hflexibility : d.windowFlexibility = w.record.windowFlexibility) (hslots : d.slots = w.record.slots)
    (houtstanding : d.outstandingParts = w.record.outstandingParts) : Kept { w with record := d } where
  flexibility := hflexibility.trans h.flexibility
  limits := hlimits.trans h.limits
  sound := h.sound
  asked := h.asked
  outstanding := by
    unfold missing
    rw [hslots, houtstanding]
    exact h.outstanding
  growths := h.growths
  once := h.once

/-- A change beside the record keeps the limits. -/
theorem Kept.aside (h : w.Kept) {d : ResourceData} (haside : Aside w.record d) : Kept { w with record := d } := by
  obtain ⟨_, _, _, _, _, _, -, rfl⟩ := haside
  exact h.withRecord rfl rfl rfl rfl

/-- The next request keeps the limits: it asks for no more parts than the window. -/
theorem Kept.request (h : w.Kept) : w.request.Kept := by
  unfold Watched.request
  split
  case isFalse => exact h
  case isTrue hasks =>
    obtain ⟨outstanding, waiting, hnext⟩ := nextRequest_writes w.record
    refine ⟨?_, (nextRequest_limits _).trans h.limits, h.sound, nextSlots_nodup _, ?_, fun g hg => ?_, h.once⟩
    · rw [hnext]
      exact h.flexibility
    · rw [nextRequest_outstanding hasks]
      unfold missing
      rw [hnext]
      exact congrArg List.length (missing_nextSlots w.record).symm
    · exact ⟨(h.growths g hg).1, Nat.le_succ_of_le (h.growths g hg).2⟩

/-- The first part of a round keeps the limits. -/
theorem Kept.first (h : w.Kept) (rates : Rates) : (w.first rates).Kept := by
  unfold Watched.first
  split
  case isFalse => exact h
  case isTrue =>
    obtain ⟨rounds, windowMax, hfast⟩ := fastRound_writes w.record
    refine ⟨?_, ?_, h.sound.fast, h.asked, ?_, h.growths, h.once⟩
    · rw [hfast]
      exact h.flexibility
    · rw [← h.limits]
      exact fastRound_limits _
    · unfold missing
      rw [hfast]
      exact h.outstanding

/-- A part that goes into slots of the last request leaves as many of them empty as are outstanding. Where nothing is
outstanding none of them is empty. -/
theorem Kept.file (h : w.Kept) {data : Bytes}
    (hasked : w.record.outstandingParts ≠ 0 → fits env data w.record ⊆ w.asked) :
    Kept { w with record := filePart env data w.record } := by
  obtain ⟨_, _, _, _, _, hwrites⟩ := filePart_writes env w.record data
  have hfiled := filePart_filed env data w.record
  have hcount : (filePart env data w.record).outstandingParts.toNat
      = (missing (filePart env data w.record) w.asked).length := by
    have houtstanding := hfiled.outstanding
    rw [h.outstanding] at houtstanding
    by_cases hnone : w.record.outstandingParts = 0
    · have hle := hfiled.missing_le w.asked
      have hzero := h.outstanding
      rw [hnone] at hzero
      have : (0 : UInt16).toNat = 0 := rfl
      omega
    · have hempty : fits env data w.record ⊆ missing w.record w.asked := fun i hi =>
        List.mem_filter.mpr ⟨hasked hnone hi, decide_eq_true (of_decide_eq_true (List.mem_filter.mp hi).2).2⟩
      have hmissing := hfiled.missing ((List.nodup_range' ..).filter _) h.asked hempty
      omega
  refine ⟨?_, ?_, h.sound, h.asked, hcount, h.growths, h.once⟩
  · rw [hwrites]
    exact h.flexibility
  · rw [← h.limits, hwrites]
    rfl

/-- Behind a request that is done the window grows, once. -/
theorem Kept.complete (h : w.Kept) {rates : Rates} (hdone : missing w.record w.asked = [])
    (hnotyet : ∀ g ∈ w.growths, g.request ≠ w.requests) (hroom : w.limits.size + 1 < w.limits.max)
    (hcap : rates.measured → rates.verySlow → rates.fast = false →
      ¬ (w.limits.fastRounds = 0 ∧ w.limits.slowRounds = 1)) : (w.complete rates).Kept := by
  obtain ⟨_, _, _, _, _, hwrites⟩ := afterRequest_writes w.record rates
  refine Kept.request ⟨?_, ?_, h.sound.afterRequest hroom hcap, h.asked, ?_, ?_, ?_⟩
  · rw [hwrites]
    exact h.flexibility
  · rw [← h.limits]
    exact afterRequest_limits h.flexibility rates
  · unfold missing
    rw [hwrites]
    exact h.outstanding
  · rw [if_pos (by omega), hdone]
    intro g hg
    obtain rfl | hg := List.mem_cons.mp hg
    · exact ⟨rfl, Nat.le_refl _⟩
    · exact h.growths g hg
  · rw [if_pos (by omega), List.map_cons]
    refine List.nodup_cons.mpr ⟨fun hmem => ?_, h.once⟩
    obtain ⟨g, hg, hsame⟩ := List.mem_map.mp hmem
    exact hnotyet g hg hsame

/-- A fast round does not change which slots a part goes into. -/
theorem first_fits (env : Env) (data : Bytes) (rates : Rates) (w : Watched) :
    fits env data (w.first rates).record = fits env data w.record
      ∧ (w.first rates).asked = w.asked ∧ (w.first rates).growths = w.growths
      ∧ (w.first rates).requests = w.requests := by
  unfold Watched.first
  split
  case isFalse => exact ⟨rfl, rfl, rfl, rfl⟩
  case isTrue =>
    obtain ⟨_, _, hfast⟩ := fastRound_writes w.record
    refine ⟨?_, rfl, rfl, rfl⟩
    dsimp only
    rw [hfast]
    rfl

/-- Filing a part changes nothing about how many there are. -/
theorem filePart_total (env : Env) (data : Bytes) (d : ResourceData) :
    (filePart env data d).totalParts = d.totalParts := by
  obtain ⟨_, _, _, _, _, hfiled⟩ := filePart_writes env d data
  rw [hfiled]

/-- A part keeps the limits, with the condition on the rates under which the source keeps them. -/
theorem Kept.part (h : w.Kept) {data : Bytes} {rates : Rates} (hgentle : w.Gentle env (.part data rates)) :
    (w.part env data rates).Kept := by
  have hkept := h.first rates
  obtain ⟨hfits, hasked, hgrowths, hrequests⟩ := first_fits env data rates w
  have hlimits : (w.first rates).limits = if rates.fastFirst then w.limits.fast else w.limits := by
    unfold Watched.first
    split <;> rfl
  have hsame : (w.first rates).record.status = w.record.status
      ∧ (w.first rates).record.outstandingParts = w.record.outstandingParts
      ∧ (w.first rates).record.receivedCount = w.record.receivedCount
      ∧ (w.first rates).record.totalParts = w.record.totalParts
      ∧ (w.first rates).record.assemblyLock = w.record.assemblyLock := by
    obtain ⟨_, _, hfirst⟩ := first_writes w.record rates
    rw [first_record, hfirst]
    exact ⟨rfl, rfl, rfl, rfl, rfl⟩
  obtain ⟨hstatus, houtstanding, hreceived, htotal, hlock⟩ := hsame
  unfold Watched.part
  dsimp only
  split
  case isTrue => exact hkept
  case isFalse hrunning =>
    obtain ⟨hwanted, hcompletes⟩ := hgentle (hstatus ▸ hrunning)
    rw [← hfits, ← hasked, ← houtstanding] at hwanted
    have hfiled := filePart_filed env data (w.first rates).record
    have hkept := hkept.file hwanted
    split
    case isTrue => exact hkept.withRecord rfl rfl rfl rfl
    case isFalse hgoes =>
      split
      case isFalse => exact hkept
      case isTrue hdone =>
        have hzero : (filePart env data (w.first rates).record).outstandingParts.toNat = 0 := by rw [hdone]; rfl
        have hcompleted : Completes env data w.record := by
          refine ⟨?_, ?_⟩
          · have hcount := hfiled.outstanding
            rw [hzero, houtstanding, hfits] at hcount
            omega
          · rwa [filePart_lock, filePart_total, hfiled.received, hreceived, hfits, hlock, htotal] at hgoes
        obtain ⟨hnotyet, hroom, hcap⟩ := hcompletes hcompleted
        rw [← hlimits] at hroom hcap
        refine hkept.complete ?_ ?_ hroom hcap
        · exact List.length_eq_zero_iff.mp (hkept.outstanding.symm.trans hzero)
        · dsimp only
          rwa [hgrowths, hrequests]

/-- A segment of the hashmap keeps the limits. -/
theorem Kept.hashmap (h : w.Kept) (segment : UInt16) (entries : Bytes) : (w.hashmap segment entries).Kept := by
  unfold Watched.hashmap
  split
  case isFalse => exact h
  case isTrue =>
    obtain ⟨_, _, hentries⟩ := updateEntries_writes { w.record with status := .transferring } segment entries
    rw [hentries]
    exact Kept.request (h.withRecord rfl rfl rfl rfl)

/-- A timeout keeps the limits, with the condition under which the source keeps them. -/
theorem Kept.late (h : w.Kept) (hgentle : w.Gentle env .late) : w.late.Kept := by
  obtain ⟨_, _, hshrunk⟩ := shrinkWindow_writes w.record
  refine Kept.request ⟨?_, ?_, (Window.shrink_sound_iff h.sound).mpr hgentle, h.asked, ?_, h.growths, h.once⟩
  · rw [hshrunk]
    exact h.flexibility
  · rw [← h.limits]
    exact shrinkWindow_limits h.flexibility
  · unfold missing
    rw [hshrunk]
    exact h.outstanding

/-- Every incident keeps the limits, under its condition. -/
theorem Kept.after (h : w.Kept) {i : Incident} (hgentle : w.Gentle env i) : (w.after env i).Kept := by
  cases i with
  | part data rates => exact h.part hgentle
  | hashmap segment entries => exact h.hashmap segment entries
  | late => exact h.late hgentle
  | asked => exact h

/-! ## Runs -/

/-- A receiver whose window has not moved, and that has asked for nothing. -/
structure Untouched (d : ResourceData) : Prop where
  limits : d.limits = .start
  flexibility : d.windowFlexibility = windowFlexibilityStart
  outstanding : d.outstandingParts = 0

/-- The record changes as an incident says that may happen, and aside from that. -/
inductive Step (env : Env) (may : Watched → Incident → Prop) : Watched → Watched → Prop
  | aside {w : Watched} {d : ResourceData} : Aside w.record d → Step env may w { w with record := d }
  | reacts {w : Watched} {d d' : ResourceData} {i : Incident} : Aside w.record d → may { w with record := d } i →
      Aside (after env i { w with record := d }).record d' →
      Step env may w { after env i { w with record := d } with record := d' }

/-- A step whose incidents all meet their condition keeps the limits. -/
theorem Kept.step {may : Watched → Incident → Prop} {w' : Watched} (h : w.Kept)
    (hmay : ∀ w i, may w i → w.Gentle env i) (hstep : Step env may w w') : w'.Kept := by
  cases hstep with
  | aside haside => exact h.aside haside
  | reacts hbefore hi hafter => exact ((h.aside hbefore).after (hmay _ _ hi)).aside hafter

/-- A resource of which nothing was requested yet is within its limits. -/
theorem Untouched.kept {d : ResourceData} (h : Untouched d) : Kept { record := d } :=
  ⟨h.flexibility, h.limits, Window.start_sound, .nil, by rw [h.outstanding]; rfl, fun _ hg => absurd hg List.not_mem_nil,
    .nil⟩

/-- A watched receiver, after a run in which every incident is as it has to be. It is watched from the input on that
makes it. -/
inductive Watches (env : Env) (ok : Watched → Incident → Prop) (e : Endpoint) (r : Nat) : List Input → Watched → Prop
  | born {inputs : List Input} {input : Input} {d : ResourceData} {w : Watched} :
      (run env e inputs).created ≤ r → r < (run env e (inputs ++ [input])).created → Untouched d →
      Step env (fun _ i => ∃ entries, i = .hashmap 0 entries) { record := d } w →
      w.record = (run env e (inputs ++ [input])).resources r → Watches env ok e r (inputs ++ [input]) w
  | step {inputs : List Input} {input : Input} {w w' : Watched} : Watches env ok e r inputs w →
      Step env (fun w i => Arises (run env e inputs) input r i ∧ ok w i) w w' →
      w'.record = (run env e (inputs ++ [input])).resources r → Watches env ok e r (inputs ++ [input]) w'

variable {ok : Watched → Incident → Prop} {e : Endpoint} {r : Nat} {inputs : List Input}

/-- What is watched along a run is the record of the resource at its end. -/
theorem Watches.record (h : Watches env ok e r inputs w) : w.record = (run env e inputs).resources r := by
  cases h with
  | born _ _ _ _ hrecord => exact hrecord
  | step _ _ hrecord => exact hrecord

/-- What every gentle incident keeps, a watched run keeps. -/
theorem Watches.kept (h : Watches env (Gentle env) e r inputs w) : w.Kept := by
  induction h with
  | born _ _ huntouched hstep _ =>
    refine huntouched.kept.step (fun w i hi => ?_) hstep
    obtain ⟨entries, rfl⟩ := hi
    trivial
  | step _ hstep _ ih => exact ih.step (fun _ _ hi => hi.2) hstep

/-- What a reaction does to the record is a step of what is watched. -/
theorem Step.of_reaction (may : Watched → Incident → Prop) {i : Incident} {d' : ResourceData}
    (h : Reaction env i w.record d') (hside : d'.initiator = false) (hmay : ∀ d, may { w with record := d } i) :
    ∃ w', Step env may w w' ∧ w'.record = d' := by
  cases h with
  | part hbefore _ hafter =>
    refine ⟨_, .reacts hbefore (hmay _) ?_, rfl⟩
    unfold after
    rwa [part_record]
  | hashmap hbefore _ hafter =>
    refine ⟨_, .reacts hbefore (hmay _) ?_, rfl⟩
    unfold after
    rwa [hashmap_record]
  | late hbefore _ hafter =>
    refine ⟨_, .reacts hbefore (hmay _) ?_, rfl⟩
    unfold after
    rwa [late_record]
  | asked hinitiator hserves =>
    obtain ⟨_, _, _, _, _, _, _, _, _, rfl⟩ := hserves
    cases hinitiator.symm.trans hside

/-- A resource of which no part was sent is one of which none was requested. -/
theorem Untouched.of_unsent {d : ResourceData} (h : Unsent d) : Untouched d := by
  obtain ⟨-, -, -, -, houtstanding, -⟩ := h.receiver
  obtain ⟨hwindow, hmax, hmin, hflexibility, hfast, hslow⟩ := h.window
  refine ⟨?_, hflexibility, houtstanding⟩
  unfold ResourceData.limits
  rw [hwindow, hmax, hmin, hfast, hslow]
  rfl

/-- Every receiver of a run is watched. -/
theorem watched (env : Env) (hfresh : e.Fresh) (inputs : List Input) (hr : r < (run env e inputs).created)
    (hside : ((run env e inputs).resources r).initiator = false) :
    ∃ w, Watches env (fun _ _ => True) e r inputs w := by
  induction inputs using List.reverseRecOn with
  | nil =>
    rw [show (run env e []).created = 0 from hfresh.created] at hr
    exact absurd hr (Nat.not_lt_zero r)
  | append_singleton inputs input ih =>
    have hrun : run env e (inputs ++ [input]) = Link.step env (run env e inputs) input := List.foldl_append
    have hreacts := handle_reacts env input (run_clean env hfresh.clean inputs)
    rw [hrun] at hr hside
    by_cases hold : r < (run env e inputs).created
    · obtain haside | ⟨i, harises, hreaction⟩ := hreacts.old r hold
      · obtain ⟨w, hw⟩ := ih hold (haside.initiator.symm.trans hside)
        exact ⟨_, .step hw (.aside (hw.record ▸ haside)) (by rw [hrun])⟩
      · obtain ⟨w, hw⟩ := ih hold (hreaction.initiator.symm.trans hside)
        obtain ⟨w', hstep, hrecord⟩ := Step.of_reaction (fun _ i => Arises (run env e inputs) input r i ∧ True)
          (hw.record ▸ hreaction) hside fun _ => ⟨harises, trivial⟩
        exact ⟨w', .step hw hstep (by rw [hrecord, hrun])⟩
    · have hnew := Nat.not_lt.mp hold
      have hmade : r < (run env e (inputs ++ [input])).created := by rwa [hrun]
      obtain hunsent | ⟨adv, plaintext, requestId, totalParts, callback, sdu, hcount, hborn⟩ :=
        hreacts.new r hnew hr
      · exact ⟨_, .born hnew hmade (.of_unsent hunsent) (.aside (.refl _)) (by rw [hrun])⟩
      · obtain haside | hreaction := hborn
        · exact ⟨_, .born hnew hmade ⟨rfl, rfl, rfl⟩ (.aside haside) (by rw [hrun])⟩
        · obtain ⟨w', hstep, hrecord⟩ := Step.of_reaction (fun _ i => ∃ entries, i = .hashmap 0 entries)
            (w := { record := accepted adv plaintext requestId totalParts callback sdu }) hreaction hside
            fun _ => ⟨_, rfl⟩
          exact ⟨w', .born hnew hmade ⟨rfl, rfl, rfl⟩ hstep (by rw [hrecord, hrun])⟩

end Watched

/-! ## Every run -/

/-- What is said of the window of a receiver. -/
structure WithinLimits (w : Watched) : Prop where
  low : w.record.windowMin ≤ w.record.window
  high : w.record.window ≤ w.record.windowMax
  apart : windowFlexibilityStart.toNat ≤ w.record.windowMax.toNat - w.record.windowMin.toNat
  /-- no field has wrapped: the window is what natural numbers make of it, and the outstanding parts are the slots of
  the last request that are still empty -/
  unwrapped : w.record.limits = w.limits
    ∧ w.record.outstandingParts.toNat = (missing w.record w.asked).length
  /-- the window grew at most once behind each request -/
  once : (w.growths.map Growth.request).Nodup
  /-- no slot of the request was empty then -/
  filed : ∀ g ∈ w.growths, g.missing = 0

/-- Every receiver of a run is watched, and where every incident is gentle its window is within its limits in every
state. -/
theorem window_within_limits (env : Env) {e : Endpoint} (hfresh : e.Fresh) (inputs : List Input) {r : Nat}
    (hr : r < (run env e inputs).created) (hside : ((run env e inputs).resources r).initiator = false) :
    (∃ w, Watched.Watches env (fun _ _ => True) e r inputs w)
      ∧ ∀ w, Watched.Watches env (Watched.Gentle env) e r inputs w →
        w.record = (run env e inputs).resources r ∧ WithinLimits w := by
  refine ⟨Watched.watched env hfresh inputs hr hside, fun w hw => ⟨hw.record, ?_⟩⟩
  have hkept := hw.kept
  have hsound := hkept.sound
  rw [← hkept.limits] at hsound
  refine ⟨UInt16.le_iff_toNat_le.mpr hsound.low, UInt16.le_iff_toNat_le.mpr hsound.high, ?_,
    ⟨hkept.limits, hkept.outstanding⟩, hkept.once, fun g hg => (hkept.growths g hg).1⟩
  have hapart : w.record.windowMin.toNat + 4 ≤ w.record.windowMax.toNat := hsound.apart
  show 4 ≤ _
  omega

namespace Sample

/-- The short forms of `MsgPack`, and a map whose first number takes two bytes. -/
def decodeLong : Bytes → List Library.Token
  | 0x8B :: 0xA1 :: name :: 0xCD :: high :: low :: rest =>
    .map 11 :: .str [name] :: .int (high.toNat * 256 + low.toNat) :: Link.Sample.decodeTokens rest.length rest
  | b => Link.Sample.decodeTokens b.length b

/-- A receiver whose link takes 164 bytes in a part. -/
def wideTaker : Endpoint := { taker with link := { Link.Sample.link false with mtu := 200 } }

theorem wideTaker_fresh : wideTaker.Fresh := ⟨rfl, rfl, rfl, fun _ => rfl, rfl, rfl, rfl⟩

/-- Surroundings that read larger numbers. -/
def longEnv : Env := { Link.Sample.plainEnv prefixHash with decode := decodeLong }

/-- The entries of ten parts. -/
def tenEntries : Bytes := (List.range 10).flatMap fun i => [UInt8.ofNat i, 1, 1, 7]

/-- The advertisement of a resource of 1640 bytes. -/
def longAdvertised : Input :=
  Link.Sample.comesIn (Link.Sample.arrived ContextType.resourceAdv (Link.Sample.wire
    ([0x8B, 0xA1, Advertisement.letter 't', 0xCD, 6, 104]
      ++ [Advertisement.key 'h', .bin someHash, Advertisement.key 'r', .bin [7], Advertisement.key 'm',
        .bin tenEntries].flatMap Link.Sample.encodeToken)))

/-- One of its parts, which arrives at a very slow rate. -/
def crawls (i : Nat) : Input :=
  .packet (Link.Sample.arrived ContextType.resource [UInt8.ofNat i, 1, 1]) none fun _ =>
    { fastFirst := false, measured := true, fast := false, verySlow := true }


/-- The receiver of two parts, before the entries of the advertisement. -/
def pairExpected : ResourceData :=
  accepted { t := 100, h := someHash, r := [7] }
    ([Library.Token.map 11, Advertisement.key 't', .int 100, Advertisement.key 'h', .bin someHash,
      Advertisement.key 'r', .bin [7], Advertisement.key 'm',
      .bin [1, 2, 3, 7, 5, 6, 7, 8]].flatMap Link.Sample.encodeToken) [] 2 false 84

/-- It has asked for both. -/
def bothAsked : Watched := Watched.hashmap 0 [1, 2, 3, 7, 5, 6, 7, 8] { record := pairExpected }

/-- The first of them arrives. -/
def oneArrived : Watched :=
  let w : Watched := Watched.part (Link.Sample.plainEnv prefixHash) [1, 2, 3] Link.Sample.rates
    { bothAsked with record := { bothAsked.record with receiveLock := true, retriesLeft := maxRetries } }
  { w with record := { w.record with receiveLock := false } }

end Sample

/-- Nine of ten parts arrive in order, at a very slow rate. The window is 6 and its maximum 4. -/
theorem window_above_its_maximum :
    ¬ ∀ (env : Env) (e : Endpoint), e.Fresh → ∀ (inputs : List Input) (r : Nat), r < (run env e inputs).created →
      ((run env e inputs).resources r).initiator = false →
      ((run env e inputs).resources r).windowMin ≤ ((run env e inputs).resources r).window
        ∧ ((run env e inputs).resources r).window ≤ ((run env e inputs).resources r).windowMax
        ∧ windowFlexibilityStart.toNat ≤ ((run env e inputs).resources r).windowMax.toNat
          - ((run env e inputs).resources r).windowMin.toNat := by
  intro h
  obtain ⟨-, hhigh, -⟩ := h Sample.longEnv Sample.wideTaker Sample.wideTaker_fresh
    (Sample.longAdvertised :: (List.range 9).map Sample.crawls) 0 (by decide +kernel) (by decide +kernel)
  exact absurd hhigh (by decide +kernel)

/-- Behind the first of two parts the window is within its limits. -/
theorem window_within_limits_one_part :
    ∃ w, w.record = (run (Link.Sample.plainEnv Sample.prefixHash) Sample.narrowTaker
      [Sample.advertised [1, 2, 3, 7, 5, 6, 7, 8], Sample.arrives [1, 2, 3]]).resources 0 ∧ WithinLimits w := by
  refine ⟨Sample.oneArrived, (window_within_limits (Link.Sample.plainEnv Sample.prefixHash)
    Sample.narrowTaker_fresh [Sample.advertised [1, 2, 3, 7, 5, 6, 7, 8], Sample.arrives [1, 2, 3]]
    (by decide +kernel) (by decide +kernel)).2 Sample.oneArrived ?_⟩
  have hborn : Watched.Watches (Link.Sample.plainEnv Sample.prefixHash)
      (Watched.Gentle (Link.Sample.plainEnv Sample.prefixHash)) Sample.narrowTaker 0
      ([] ++ [Sample.advertised [1, 2, 3, 7, 5, 6, 7, 8]]) Sample.bothAsked :=
    .born (by decide +kernel) (by decide +kernel) (d := Sample.pairExpected) ⟨rfl, rfl, rfl⟩
      (.reacts (i := .hashmap 0 [1, 2, 3, 7, 5, 6, 7, 8]) (.refl _) ⟨_, rfl⟩ (.refl _)) (by decide +kernel)
  have hbefore : Aside Sample.bothAsked.record
      { Sample.bothAsked.record with receiveLock := true, retriesLeft := maxRetries } := ⟨_, _, _, _, _, _, id, rfl⟩
  have hafter : ∀ d : ResourceData, Aside d { d with receiveLock := false } := fun d => ⟨_, _, _, _, _, _, id, rfl⟩
  refine .step hborn (.reacts (i := .part [1, 2, 3] Link.Sample.rates) hbefore ⟨?_, ?_⟩ (hafter _))
    (by decide +kernel)
  · exact .part rfl (by decide +kernel)
  · exact fun _ => ⟨fun _ => by decide +kernel, fun hcompletes => absurd hcompletes.1 (by decide +kernel)⟩

end MicroReticulum.Resource
