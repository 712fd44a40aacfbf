import MicroReticulum.Resource.Receiver

/-!
# What happens to the record of a resource

The programs of `Receiver` and `Sender` run on an endpoint, and most of what they do is aside from the transfer
itself: they send, they call back, and a transfer that ends leaves the link. This module says what is left for
the record of one resource. `Incident` is what can happen to it, `filedPart`, `updatedHashmap` and `timedOut`
are what the receiver makes of it, and `Reaction` adds that the fields of `Aside` may change before and after.
-/

namespace MicroReticulum.Resource

open MicroReticulum

variable (env : Link.Env)

/-! ## The receiver -/

/-- `request_next`, of the record. -/
def nextRequest (d : ResourceData) : ResourceData :=
  if d.status ≠ .failed ∧ d.waitingForHmu = false then
    { d with
      outstandingParts := UInt16.ofNat (requestedHashes d (requestRange d)).2.1
      waitingForHmu := (requestedHashes d (requestRange d)).2.2 }
  else d

/-- `hashmap_update`, of the record. -/
def updatedHashmap (segment : UInt16) (hashmap : Bytes) (d : ResourceData) : ResourceData :=
  if d.status ≠ .failed then
    nextRequest { updateEntries segment hashmap { d with status := .transferring } with waitingForHmu := false }
  else d

/-- What a filed part leads to: the last one takes the assembly lock, and the last one of a request asks for
more. -/
def afterFiling (rates : Rates) (d : ResourceData) : ResourceData :=
  if d.receivedCount = d.totalParts ∧ d.assemblyLock = false then { d with assemblyLock := true }
  else if d.outstandingParts = 0 then nextRequest (afterRequest rates d)
  else d

/-- `receive_part`, of the record. -/
def filedPart (data : Bytes) (rates : Rates) (d : ResourceData) : ResourceData :=
  let d := if rates.fastFirst then fastRound d else d
  if d.status = .failed then d else afterFiling rates (filePart env data d)

/-- A timeout of the receiver, of the record. -/
def timedOut (d : ResourceData) : ResourceData :=
  nextRequest { shrinkWindow d with retriesLeft := d.retriesLeft - 1, waitingForHmu := false }

/-! ## What is written -/

section Written

variable (d : ResourceData)

/-- The next request writes what is outstanding and whether it waits for the hashmap. -/
theorem nextRequest_writes :
    ∃ outstandingParts waitingForHmu, nextRequest d = { d with outstandingParts, waitingForHmu } := by
  unfold nextRequest
  split <;> exact ⟨_, _, rfl⟩

/-- A fast round writes its count and the largest window. -/
theorem fastRound_writes : ∃ fastRateRounds windowMax, fastRound d = { d with fastRateRounds, windowMax } := by
  unfold fastRound
  split <;> exact ⟨_, _, rfl⟩

/-- A very slow round writes its count and the largest window. -/
theorem verySlowRound_writes :
    ∃ verySlowRateRounds windowMax, verySlowRound d = { d with verySlowRateRounds, windowMax } := by
  unfold verySlowRound
  split <;> exact ⟨_, _, rfl⟩

/-- Growing the window writes the window and its smallest size. -/
theorem growWindow_writes : ∃ window windowMin, growWindow d = { d with window, windowMin } := by
  unfold growWindow
  split <;> exact ⟨_, _, rfl⟩

/-- Shrinking the window writes the window and its largest size. -/
theorem shrinkWindow_writes : ∃ window windowMax, shrinkWindow d = { d with window, windowMax } := by
  unfold shrinkWindow
  split
  · dsimp only
    split <;> exact ⟨_, _, rfl⟩
  · exact ⟨_, _, rfl⟩

/-- What follows a round writes the window, its limits and the two counts. -/
theorem afterRequest_writes (rates : Rates) :
    ∃ window windowMin windowMax fastRateRounds verySlowRateRounds,
      afterRequest rates d = { d with window, windowMin, windowMax, fastRateRounds, verySlowRateRounds } := by
  obtain ⟨_, _, hgrown⟩ := growWindow_writes d
  obtain ⟨_, _, hfast⟩ := fastRound_writes (growWindow d)
  obtain ⟨_, _, hslow⟩ := verySlowRound_writes (growWindow d)
  obtain ⟨_, _, hboth⟩ := verySlowRound_writes (fastRound (growWindow d))
  unfold afterRequest
  dsimp only
  split <;> split
  · rw [hboth, hfast, hgrown]
    exact ⟨_, _, _, _, _, rfl⟩
  · rw [hslow, hgrown]
    exact ⟨_, _, _, _, _, rfl⟩
  · rw [hfast, hgrown]
    exact ⟨_, _, _, _, _, rfl⟩
  · rw [hgrown]
    exact ⟨_, _, _, _, _, rfl⟩

/-- Filing a segment writes the hashmap and its height. -/
theorem updateEntries_writes (segment : UInt16) (hashmap : Bytes) :
    ∃ map hashmapHeight, updateEntries segment hashmap d = { d with hashmap := map, hashmapHeight } := by
  unfold updateEntries
  dsimp only
  generalize List.range _ = entries
  induction entries generalizing d with
  | nil => exact ⟨_, _, rfl⟩
  | cons i entries ih =>
    obtain ⟨map, height, hrest⟩ := ih (updateEntry hashmap (segment.toNat * hashmapMaxLen) d i)
    exact ⟨map, height, hrest⟩

/-- A hashmap update writes the hashmap, the status and what is outstanding. -/
theorem updatedHashmap_writes (segment : UInt16) (hashmap : Bytes) :
    ∃ status map hashmapHeight outstandingParts waitingForHmu,
      updatedHashmap segment hashmap d
        = { d with status, hashmap := map, hashmapHeight, outstandingParts, waitingForHmu } := by
  unfold updatedHashmap
  split
  · obtain ⟨_, _, hentries⟩ := updateEntries_writes { d with status := .transferring } segment hashmap
    obtain ⟨_, _, hnext⟩ := nextRequest_writes
      { updateEntries segment hashmap { d with status := .transferring } with waitingForHmu := false }
    rw [hnext, hentries]
    exact ⟨_, _, _, _, _, rfl⟩
  · exact ⟨_, _, _, _, _, rfl⟩

/-- Filing a part at its places writes the slots and the counts of what has come. -/
theorem fileAll_writes (partData partHash : Bytes) (indices : List Nat) :
    ∃ slots receivedCount outstandingParts consecutiveCompletedHeight,
      indices.foldl (fileAt partData partHash) d
        = { d with slots, receivedCount, outstandingParts, consecutiveCompletedHeight } := by
  induction indices generalizing d with
  | nil => exact ⟨_, _, _, _, rfl⟩
  | cons i indices ih =>
    obtain ⟨slots, received, outstanding, height, hrest⟩ := ih (fileAt partData partHash d i)
    refine ⟨slots, received, outstanding, height, ?_⟩
    rw [List.foldl_cons, hrest]
    unfold fileAt
    split <;> rfl

/-- Filing a part writes the status, the slots and the counts. -/
theorem filePart_writes (partData : Bytes) :
    ∃ status slots receivedCount outstandingParts consecutiveCompletedHeight,
      filePart env partData d
        = { d with status, slots, receivedCount, outstandingParts, consecutiveCompletedHeight } := by
  obtain ⟨_, _, _, _, h⟩ := fileAll_writes { d with status := .transferring } partData
    (getMapHash env.fullHash d.randomHash partData) (receiveRange { d with status := .transferring })
  exact ⟨_, _, _, _, _, h⟩

/-- Behind a part the resource is in transfer. -/
theorem filePart_status (partData : Bytes) : (filePart env partData d).status = .transferring := by
  obtain ⟨_, _, _, _, h⟩ := fileAll_writes { d with status := .transferring } partData
    (getMapHash env.fullHash d.randomHash partData) (receiveRange { d with status := .transferring })
  exact congrArg ResourceData.status h

/-- What follows the filing of a part writes the lock of the assembly, the window and what is outstanding. -/
theorem afterFiling_writes (rates : Rates) :
    ∃ assemblyLock window windowMin windowMax fastRateRounds verySlowRateRounds outstandingParts waitingForHmu,
      afterFiling rates d
        = { d with
            assemblyLock, window, windowMin, windowMax, fastRateRounds, verySlowRateRounds, outstandingParts,
            waitingForHmu } := by
  unfold afterFiling
  split
  · exact ⟨_, _, _, _, _, _, _, _, rfl⟩
  split
  · obtain ⟨_, _, _, _, _, hafter⟩ := afterRequest_writes d rates
    obtain ⟨_, _, hnext⟩ := nextRequest_writes (afterRequest rates d)
    rw [hnext, hafter]
    exact ⟨_, _, _, _, _, _, _, _, rfl⟩
  · exact ⟨_, _, _, _, _, _, _, _, rfl⟩

/-- The first part of a round writes what a fast round does, or nothing. -/
theorem first_writes (rates : Rates) :
    ∃ fastRateRounds windowMax,
      (if rates.fastFirst then fastRound d else d) = { d with fastRateRounds, windowMax } := by
  split
  · exact fastRound_writes d
  · exact ⟨_, _, rfl⟩

/-- A part with all that follows it writes no more than its filing and what follows that. -/
theorem filedPart_writes (data : Bytes) (rates : Rates) :
    ∃ status slots receivedCount outstandingParts consecutiveCompletedHeight assemblyLock window windowMin windowMax
        fastRateRounds verySlowRateRounds waitingForHmu,
      filedPart env data rates d
        = { d with
            status, slots, receivedCount, outstandingParts, consecutiveCompletedHeight, assemblyLock, window,
            windowMin, windowMax, fastRateRounds, verySlowRateRounds, waitingForHmu } := by
  obtain ⟨rounds, windowMax, hfirst⟩ := first_writes d rates
  unfold filedPart
  rw [hfirst]
  dsimp only
  split
  · exact ⟨_, _, _, _, _, _, _, _, _, _, _, _, rfl⟩
  · obtain ⟨_, _, _, _, _, hfiled⟩ :=
      filePart_writes env { d with fastRateRounds := rounds, windowMax := windowMax } data
    obtain ⟨_, _, _, _, _, _, _, _, hfinal⟩ := afterFiling_writes
      (filePart env data { d with fastRateRounds := rounds, windowMax := windowMax }) rates
    rw [hfinal, hfiled]
    exact ⟨_, _, _, _, _, _, _, _, _, _, _, _, rfl⟩

/-- A timeout writes the window, the retries and what is outstanding. -/
theorem timedOut_writes :
    ∃ window windowMax retriesLeft outstandingParts waitingForHmu,
      timedOut d = { d with window, windowMax, retriesLeft, outstandingParts, waitingForHmu } := by
  obtain ⟨_, _, hshrunk⟩ := shrinkWindow_writes d
  obtain ⟨_, _, hnext⟩ := nextRequest_writes
    { shrinkWindow d with retriesLeft := d.retriesLeft - 1, waitingForHmu := false }
  unfold timedOut
  rw [hnext, hshrunk]
  exact ⟨_, _, _, _, _, rfl⟩

end Written

/-! ## Frames -/

/-- Nothing changes that decides which parts are still missing, or still to be sent. The initiator does not
come to wait for the proof. -/
def Aside (d d' : ResourceData) : Prop :=
  ∃ status data retriesLeft receiveLock advertisement reqHashlist,
    (status = .awaitingProof → d.status = .awaitingProof)
    ∧ d' = { d with status, data, retriesLeft, receiveLock, advertisement, reqHashlist }

/-- What answering a request changes. -/
def Serves (d d' : ResourceData) : Prop :=
  ∃ status data retriesLeft receiveLock advertisement reqHashlist parts sentParts receiverMinConsecutiveHeight,
    d' =
      { d with
        status, data, retriesLeft, receiveLock, advertisement, reqHashlist, parts, sentParts,
        receiverMinConsecutiveHeight }

theorem Aside.refl (d : ResourceData) : Aside d d := ⟨_, _, _, _, _, _, id, rfl⟩

theorem Aside.trans {d d' d'' : ResourceData} (h : Aside d d') (h' : Aside d' d'') : Aside d d'' := by
  obtain ⟨_, _, _, _, _, _, hstatus, rfl⟩ := h
  obtain ⟨_, _, _, _, _, _, hstatus', rfl⟩ := h'
  exact ⟨_, _, _, _, _, _, fun h => hstatus (hstatus' h), rfl⟩

/-- A change beside the record sends no part. -/
theorem Aside.serves {d d' : ResourceData} (h : Aside d d') : Serves d d' := by
  obtain ⟨_, _, _, _, _, _, -, rfl⟩ := h
  exact ⟨_, _, _, _, _, _, _, _, _, rfl⟩

theorem Serves.refl (d : ResourceData) : Serves d d := (Aside.refl d).serves

theorem Serves.trans {d d' d'' : ResourceData} (h : Serves d d') (h' : Serves d' d'') : Serves d d'' := by
  obtain ⟨_, _, _, _, _, _, _, _, _, rfl⟩ := h
  obtain ⟨_, _, _, _, _, _, _, _, _, rfl⟩ := h'
  exact ⟨_, _, _, _, _, _, _, _, _, rfl⟩

/-- A status that is not the one that waits for the proof. -/
theorem Aside.status (d : ResourceData) {status : ResourceStatus} (h : status ≠ .awaitingProof) :
    Aside d { d with status } := ⟨status, _, _, _, _, _, fun hstatus => absurd hstatus h, rfl⟩

/-! ## Incidents -/

/-- What can happen to a resource under way. -/
inductive Incident where
  /-- a part arrives at the receiver -/
  | part (data : Bytes) (rates : Rates)
  /-- a segment of the hashmap arrives -/
  | hashmap (segment : UInt16) (hashmap : Bytes)
  /-- the receiver is late -/
  | late
  /-- the initiator is asked for parts -/
  | asked

/-- The record is changed as the incident says, and aside from that. -/
inductive Reaction : Incident → ResourceData → ResourceData → Prop
  | part {data : Bytes} {rates : Rates} {d d₁ d' : ResourceData} : Aside d d₁ → d.initiator = false →
      Aside (filedPart env data rates d₁) d' → Reaction (.part data rates) d d'
  | hashmap {segment : UInt16} {hashmap : Bytes} {d d₁ d' : ResourceData} : Aside d d₁ →
      d.initiator = false → Aside (updatedHashmap segment hashmap d₁) d' →
      Reaction (.hashmap segment hashmap) d d'
  | late {d d₁ d' : ResourceData} : Aside d d₁ → d.initiator = false → Aside (timedOut d₁) d' → Reaction .late d d'
  | asked {d d' : ResourceData} : d.initiator = true → Serves d d' → Reaction .asked d d'

variable {env}

theorem Aside.initiator {d d' : ResourceData} (h : Aside d d') : d'.initiator = d.initiator := by
  obtain ⟨_, _, _, _, _, _, -, rfl⟩ := h
  rfl

/-- A reaction to an incident may be preceded by a change beside the record. -/
theorem Reaction.after {i : Incident} {d d' d'' : ResourceData} (h : Aside d d') (h' : Reaction env i d' d'') :
    Reaction env i d d'' := by
  cases h' with
  | part hbefore hside hafter => exact .part (h.trans hbefore) (h.initiator.symm.trans hside) hafter
  | hashmap hbefore hside hafter => exact .hashmap (h.trans hbefore) (h.initiator.symm.trans hside) hafter
  | late hbefore hside hafter => exact .late (h.trans hbefore) (h.initiator.symm.trans hside) hafter
  | asked hside hserves => exact .asked (h.initiator.symm.trans hside) (h.serves.trans hserves)

/-- A reaction to an incident may be followed by a change beside the record. -/
theorem Reaction.before {i : Incident} {d d' d'' : ResourceData} (h : Reaction env i d d') (h' : Aside d' d'') :
    Reaction env i d d'' := by
  cases h with
  | part hbefore hside hafter => exact .part hbefore hside (hafter.trans h')
  | hashmap hbefore hside hafter => exact .hashmap hbefore hside (hafter.trans h')
  | late hbefore hside hafter => exact .late hbefore hside (hafter.trans h')
  | asked hside hserves => exact .asked hside (hserves.trans h'.serves)

/-- No incident changes the side of a resource. -/
theorem Reaction.initiator {i : Incident} {d d' : ResourceData} (h : Reaction env i d d') :
    d'.initiator = d.initiator := by
  cases h with
  | @part data rates _ d₁ _ hbefore _ hafter =>
    obtain ⟨_, _, _, _, _, _, _, _, _, _, _, _, hfiled⟩ := filedPart_writes env d₁ data rates
    rw [hafter.initiator, hfiled, ← hbefore.initiator]
  | @hashmap _ _ _ d₁ _ hbefore _ hafter =>
    obtain ⟨_, _, _, _, _, hupdated⟩ := updatedHashmap_writes d₁ _ _
    rw [hafter.initiator, hupdated, ← hbefore.initiator]
  | @late _ d₁ _ hbefore _ hafter =>
    obtain ⟨_, _, _, _, _, hlate⟩ := timedOut_writes d₁
    rw [hafter.initiator, hlate, ← hbefore.initiator]
  | asked _ hserves =>
    obtain ⟨_, _, _, _, _, _, _, _, _, rfl⟩ := hserves
    rfl

/-! ## New resources -/

/-- A resource of which nothing was received or sent. -/
structure Unsent (d : ResourceData) : Prop where
  receiver : d.slots = [] ∧ d.receivedCount = 0 ∧ d.consecutiveCompletedHeight = -1 ∧ d.hashmapHeight = 0
    ∧ d.outstandingParts = 0 ∧ d.assemblyLock = false
  window : d.window = windowStart ∧ d.windowMax = windowMaxSlow ∧ d.windowMin = windowMinStart
    ∧ d.windowFlexibility = windowFlexibilityStart ∧ d.fastRateRounds = 0 ∧ d.verySlowRateRounds = 0
  countable : d.parts.length < 2 ^ 32
  unsent : ∀ part ∈ d.parts, part.sent = false
  sentParts : d.sentParts = 0
  status : d.status ≠ .awaitingProof
  receiverMin : d.receiverMinConsecutiveHeight = 0
  /-- only an initiator has parts -/
  initiator : d.initiator = false → d.totalParts = 0 ∧ d.parts = []

/-- A change beside the record sends no part. -/
theorem Unsent.aside {d d' : ResourceData} (hd : Unsent d) (h : Aside d d') : Unsent d' := by
  obtain ⟨_, _, _, _, _, _, hstatus, rfl⟩ := h
  exact ⟨hd.receiver, hd.window, hd.countable, hd.unsent, hd.sentParts, fun h => hd.status (hstatus h),
    hd.receiverMin, hd.initiator⟩

/-- Of a resource that has just been made no part was sent. -/
theorem Unsent.made (data : Bytes) (sdu : UInt16) : Unsent { data, sdu } :=
  ⟨⟨rfl, rfl, rfl, rfl, rfl, rfl⟩, ⟨rfl, rfl, rfl, rfl, rfl, rfl⟩, Nat.two_pow_pos 32,
    fun _ h => absurd h List.not_mem_nil, rfl, ResourceStatus.noConfusion, rfl, fun _ => ⟨rfl, rfl⟩⟩

/-- The record of an accepted resource, before the entries of the advertisement are filled in. -/
def accepted (adv : Advertisement) (plaintext requestId : Bytes) (totalParts : UInt32) (concludedCallback : Bool)
    (sdu : UInt16) : ResourceData :=
  ResourceData.ofAdvertisement adv plaintext requestId totalParts concludedCallback { sdu }

variable (env)

/-- A new resource is one of which nothing was received or sent, or one that was accepted, with the entries of
its advertisement or without. -/
inductive Born : ResourceData → Prop
  | made {d : ResourceData} : Unsent d → Born d
  | accepted {d : ResourceData} (adv : Advertisement) (plaintext requestId : Bytes) (totalParts : UInt32)
      (concludedCallback : Bool) (sdu : UInt16) : partCount adv.t sdu = some totalParts →
      Aside (accepted adv plaintext requestId totalParts concludedCallback sdu) d
        ∨ Reaction env (.hashmap 0 adv.m) (accepted adv plaintext requestId totalParts concludedCallback sdu) d →
      Born d

variable {env}

/-- A change beside the record leaves a resource one that has just been made or accepted. -/
theorem Born.aside {d d' : ResourceData} (hd : Born env d) (h : Aside d d') : Born env d' := by
  cases hd with
  | made hunsent => exact .made (hunsent.aside h)
  | accepted adv plaintext requestId totalParts callback sdu hcount hd =>
    refine .accepted adv plaintext requestId totalParts callback sdu hcount ?_
    exact hd.imp (·.trans h) (·.before h)

end MicroReticulum.Resource
