import MicroReticulum.Library.Slots
import MicroReticulum.Link.Reactions
import MicroReticulum.Resource.Malformed

/-!
# The bookkeeping of a receiver

A receiver counts the slots it has filled, and how many are filled in front, one at a time, in a loop over its
window. `Books` says that both are exact, and that the assembly lock is only taken with all slots filled; `Files`
is what one input does to the slots.

The entry of a slot may be overwritten once it is filled, so that what a slot holds need not have the map hash the
hashmap gives for it now; it had the map hash the hashmap gave for it when it was filled
(`hashmap_overwritten`).

The contents of the slots are the matter of `Link.Exchange`, where the digest is checked.
-/

namespace MicroReticulum.Resource

open MicroReticulum Packet Link Library

variable {env : Env} {d d' : ResourceData}

/-- What a receiver counts about its slots. -/
structure Books (d : ResourceData) : Prop where
  slots : d.slots.length = d.totalParts.toNat
  received : d.receivedCount.toNat = filledCount d.slots
  height : d.consecutiveCompletedHeight + 1 = filledPrefix d.slots
  locked : d.assemblyLock = true → ∀ slot ∈ d.slots, slot.isSome

/-- What becomes of the slots: none is emptied or changed, and data goes into one whose entry it has the map hash
of. -/
structure Files (env : Env) (d d' : ResourceData) : Prop where
  slots : d'.slots.length = d.slots.length
  kept : ∀ (i : Nat) (data : Bytes), d.slots[i]? = some (some data) → d'.slots[i]? = some (some data)
  filed : ∀ (i : Nat) (data : Bytes), d.slots[i]? = some none → d'.slots[i]? = some (some data) →
    mapHashAt d.hashmap i = getMapHash env.fullHash d.randomHash data
  lock : d.assemblyLock = true → d'.assemblyLock = true

/-! ## Filing one part -/

/-- The height behind slots that are filled. -/
theorem consecutiveFrom_eq {slots : List (Option Bytes)} {n : Nat} (h : ∀ j < n, Filled slots j) :
    consecutiveFrom slots ((n : Int) - 1) + 1 = filledPrefix slots := by
  rw [filledPrefix_eq_add h]
  unfold consecutiveFrom filledPrefix
  rw [show ((n : Int) - 1 + 1).toNat = n by omega]
  omega

section FileAt

variable {partData partHash : Bytes} {i : Nat}

/-- Filing a part in one slot keeps the books. -/
theorem Books.fileAt (hd : Books d) (partData partHash : Bytes) (i : Nat) :
    Books (fileAt partData partHash d i) := by
  unfold Resource.fileAt
  split
  case isFalse => exact hd
  case isTrue hfits =>
    have hempty := hfits.2
    have hcount := @filledCount_set _ _ _ partData hempty
    have hle := filledCount_le (d.slots.set i (some partData))
    rw [List.length_set, hd.slots] at hle
    have hbound := d.totalParts.toNat_lt
    refine ⟨by rw [List.length_set, hd.slots], ?_, ?_, fun hlock => ?_⟩
    · rw [hcount, ← hd.received, UInt32.toNat_add]
      rw [hcount, ← hd.received] at hle
      exact Nat.mod_eq_of_lt (by have : (1 : UInt32).toNat = 1 := rfl; omega)
    · have hbefore : ∀ j < filledPrefix d.slots, Filled (d.slots.set i (some partData)) j :=
        fun j hj => (filled_of_lt hj).set hempty
      have hheight := hd.height
      dsimp only
      split
      case isTrue hnext =>
        have hfilled : ∀ j < i + 1, Filled (d.slots.set i (some partData)) j := by
          intro j hj
          by_cases hji : j = i
          · subst hji
            exact filled_set_self hempty
          · exact hbefore j (by omega)
        simpa using consecutiveFrom_eq hfilled
      case isFalse =>
        have hfrom := consecutiveFrom_eq hbefore
        rwa [show (filledPrefix d.slots : Int) - 1 = d.consecutiveCompletedHeight by omega] at hfrom
    · have hfull := hd.locked hlock none (List.mem_of_getElem? hempty)
      cases hfull

/-- A round of the loop leaves a slot alone, or fills it if it is empty and its entry is the map hash. -/
theorem fileAt_slots (d : ResourceData) (partData partHash : Bytes) (i j : Nat) :
    (fileAt partData partHash d i).hashmap = d.hashmap
      ∧ ((fileAt partData partHash d i).slots[j]? = d.slots[j]?
        ∨ d.slots[j]? = some none ∧ (fileAt partData partHash d i).slots[j]? = some (some partData)
          ∧ mapHashAt d.hashmap j = partHash) := by
  unfold Resource.fileAt
  split
  case isFalse => exact ⟨rfl, .inl rfl⟩
  case isTrue hfits =>
    refine ⟨rfl, ?_⟩
    by_cases hij : i = j
    · subst hij
      obtain ⟨hi, -⟩ := List.getElem?_eq_some_iff.mp hfits.2
      exact .inr ⟨hfits.2, List.getElem?_set_self hi, hfits.1⟩
    · exact .inl (List.getElem?_set_ne hij)

/-- So does the whole loop. -/
theorem fileAll_slots (d : ResourceData) (partData partHash : Bytes) (indices : List Nat) (j : Nat) :
    (indices.foldl (fileAt partData partHash) d).slots[j]? = d.slots[j]?
      ∨ d.slots[j]? = some none
        ∧ (indices.foldl (fileAt partData partHash) d).slots[j]? = some (some partData)
        ∧ mapHashAt d.hashmap j = partHash := by
  induction indices generalizing d with
  | nil => exact .inl rfl
  | cons i indices ih =>
    obtain ⟨hmap, hround⟩ := fileAt_slots d partData partHash i j
    have hrest := ih (Resource.fileAt partData partHash d i)
    rw [hmap] at hrest
    rw [List.foldl_cons]
    obtain hround | ⟨hempty, hround, hfits⟩ := hround
    · rwa [hround] at hrest
    · obtain hrest | ⟨hnone, -, -⟩ := hrest
      · exact .inr ⟨hempty, hrest.trans hround, hfits⟩
      · rw [hround] at hnone
        cases hnone

/-- Filing parts makes no slot and removes none. -/
theorem fileAll_length (d : ResourceData) (partData partHash : Bytes) (indices : List Nat) :
    (indices.foldl (fileAt partData partHash) d).slots.length = d.slots.length := by
  induction indices generalizing d with
  | nil => rfl
  | cons i indices ih =>
    rw [List.foldl_cons, ih]
    unfold Resource.fileAt
    split
    · exact List.length_set
    · rfl

/-- Filing a part in several slots keeps the books. -/
theorem Books.fileAll (hd : Books d) (partData partHash : Bytes) (indices : List Nat) :
    Books (indices.foldl (Resource.fileAt partData partHash) d) := by
  induction indices generalizing d with
  | nil => exact hd
  | cons i indices ih => exact ih (hd.fileAt partData partHash i)

end FileAt

/-! ## Reactions -/

theorem Books.aside (hd : Books d) (h : Aside d d') : Books d' := by
  obtain ⟨_, _, _, _, _, _, -, rfl⟩ := h
  exact ⟨hd.slots, hd.received, hd.height, hd.locked⟩

/-- A full count takes the lock, and nothing else does. -/
theorem Books.afterFiling (hd : Books d) (rates : Rates) : Books (afterFiling rates d) := by
  unfold Resource.afterFiling
  split
  case isTrue hlast =>
    refine ⟨hd.slots, hd.received, hd.height, fun _ => filledCount_eq_length_iff.mp ?_⟩
    rw [← hd.received, hd.slots, hlast.1]
  split
  · obtain ⟨_, _, _, _, _, hafter⟩ := afterRequest_writes d rates
    obtain ⟨_, _, hnext⟩ := nextRequest_writes (afterRequest rates d)
    rw [hnext, hafter]
    exact ⟨hd.slots, hd.received, hd.height, hd.locked⟩
  · exact hd

/-- Everything `receive_part` does with a part keeps the books. -/
theorem Books.filedPart (hd : Books d) (data : Bytes) (rates : Rates) : Books (filedPart env data rates d) := by
  obtain ⟨rounds, windowMax, hfirst⟩ := first_writes d rates
  unfold Resource.filedPart
  rw [hfirst]
  dsimp only
  split
  case isTrue => exact ⟨hd.slots, hd.received, hd.height, hd.locked⟩
  case isFalse =>
    refine Books.afterFiling (Books.fileAll ?_ _ _ _) rates
    exact ⟨hd.slots, hd.received, hd.height, hd.locked⟩

/-- An update of the hashmap keeps the books. -/
theorem Books.updatedHashmap (hd : Books d) (segment : UInt16) (hashmap : Bytes) :
    Books (updatedHashmap segment hashmap d) := by
  obtain ⟨_, _, _, _, _, hupdated⟩ := updatedHashmap_writes d segment hashmap
  rw [hupdated]
  exact ⟨hd.slots, hd.received, hd.height, hd.locked⟩

theorem Books.timedOut (hd : Books d) : Books (timedOut d) := by
  obtain ⟨_, _, _, _, _, hlate⟩ := timedOut_writes d
  rw [hlate]
  exact ⟨hd.slots, hd.received, hd.height, hd.locked⟩

/-- Every reaction of a receiving resource keeps its books. -/
theorem Books.reaction {i : Incident} (hd : Books d) (h : Reaction env i d d') (hside : d'.initiator = false) :
    Books d' := by
  cases h with
  | part hbefore _ hafter => exact ((hd.aside hbefore).filedPart _ _).aside hafter
  | hashmap hbefore _ hafter => exact ((hd.aside hbefore).updatedHashmap _ _).aside hafter
  | late hbefore _ hafter => exact (hd.aside hbefore).timedOut.aside hafter
  | asked hinitiator hserves =>
    obtain ⟨_, _, _, _, _, _, _, _, _, rfl⟩ := hserves
    cases hinitiator.symm.trans hside

/-- A new receiver has filled nothing. -/
theorem Books.born (hd : Born env d) (hside : d.initiator = false) : Books d := by
  cases hd with
  | made hunsent =>
    obtain ⟨hslots, hreceived, hheight, -, -, hlock⟩ := hunsent.receiver
    obtain ⟨htotal, -⟩ := hunsent.initiator hside
    refine ⟨by rw [hslots, htotal]; rfl, by rw [hslots, hreceived]; rfl, by rw [hslots, hheight]; rfl, fun h => ?_⟩
    cases hlock.symm.trans h
  | accepted adv plaintext requestId totalParts callback sdu _ hfrom =>
    have haccepted : Books (accepted adv plaintext requestId totalParts callback sdu) :=
      ⟨List.length_replicate, (filledCount_replicate _).symm, by
        rw [accepted, ResourceData.ofAdvertisement, filledPrefix_replicate]
        rfl, fun h => Bool.noConfusion h⟩
    obtain haside | hreaction := hfrom
    · exact haccepted.aside haside
    · exact haccepted.reaction hreaction hside

/-- The books are an invariant of the receiving resources, in the form the rules for records take. -/
theorem books_invariant (env : Env) :
    RecordInvariant env (fun _ _ => True) fun d => d.initiator = false → Books d where
  aside _ _ h hd hside := (hd (h.initiator.symm.trans hside)).aside h
  born _ := Books.born
  reaction _ _ _ _ _ _ _ hd h hside := (hd (h.initiator.symm.trans hside)).reaction h hside

/-! ## What becomes of the slots -/

theorem Files.of_same (hslots : d'.slots = d.slots) (hlock : d.assemblyLock = true → d'.assemblyLock = true) :
    Files env d d' :=
  ⟨by rw [hslots], fun _ _ h => by rwa [hslots], fun _ _ h h' => by
    rw [hslots, h] at h'
    exact absurd h' (by simp), hlock⟩

theorem Files.aside (h : Aside d d') : Files env d d' := by
  obtain ⟨_, _, _, _, _, _, -, rfl⟩ := h
  exact .of_same rfl id

/-- What follows the filing of a part touches no slot and releases no lock. -/
theorem afterFiling_slots (rates : Rates) (d : ResourceData) :
    (afterFiling rates d).slots = d.slots ∧ (d.assemblyLock = true → (afterFiling rates d).assemblyLock = true) := by
  unfold afterFiling
  split
  · exact ⟨rfl, fun _ => rfl⟩
  split
  · obtain ⟨_, _, _, _, _, hafter⟩ := afterRequest_writes d rates
    obtain ⟨_, _, hnext⟩ := nextRequest_writes (afterRequest rates d)
    rw [hnext, hafter]
    exact ⟨rfl, id⟩
  · exact ⟨rfl, id⟩

/-- Filing a part leaves the assembly lock as it is. -/
theorem filePart_lock (env : Env) (data : Bytes) (d : ResourceData) :
    (filePart env data d).assemblyLock = d.assemblyLock := by
  obtain ⟨_, _, _, _, _, hfiled⟩ := filePart_writes env d data
  rw [hfiled]

/-- An arriving part goes into empty slots whose entry is its map hash. -/
theorem Files.filedPart (d : ResourceData) (data : Bytes) (rates : Rates) :
    Files env d (filedPart env data rates d) := by
  obtain ⟨rounds, windowMax, hfirst⟩ := first_writes d rates
  unfold Resource.filedPart
  rw [hfirst]
  dsimp only
  split
  case isTrue => exact .of_same rfl id
  case isFalse =>
    obtain ⟨t, ht⟩ : ∃ t, t = { d with fastRateRounds := rounds, windowMax := windowMax } := ⟨_, rfl⟩
    obtain ⟨hslots, hlock⟩ := afterFiling_slots rates (filePart env data t)
    have hround : ∀ j, (filePart env data t).slots[j]? = d.slots[j]?
        ∨ d.slots[j]? = some none ∧ (filePart env data t).slots[j]? = some (some data)
          ∧ mapHashAt d.hashmap j = getMapHash env.fullHash d.randomHash data := fun j => by
      rw [ht]
      exact fileAll_slots { d with status := .transferring, fastRateRounds := rounds, windowMax } data _ _ j
    have hlength : (filePart env data t).slots.length = d.slots.length := by
      rw [ht]
      exact fileAll_length { d with status := .transferring, fastRateRounds := rounds, windowMax } data _ _
    have hkept : (filePart env data t).assemblyLock = d.assemblyLock := by rw [filePart_lock, ht]
    rw [← ht]
    refine ⟨by rw [hslots, hlength], fun j filled hj => ?_, fun j filled hj hj' => ?_, fun h => hlock (hkept.trans h)⟩
    · obtain hsame | ⟨hempty, -, -⟩ := hround j
      · rw [hslots, hsame, hj]
      · exact absurd (hempty.symm.trans hj) (by simp)
    · rw [hslots] at hj'
      obtain hsame | ⟨-, hfilled, hentry⟩ := hround j
      · exact absurd (hj.symm.trans (hsame.symm.trans hj')) (by simp)
      · rw [hfilled, Option.some.injEq, Option.some.injEq] at hj'
        rw [hentry, hj']

theorem Files.after {d'' : ResourceData} (h : Files env d d') (h' : Aside d' d'') : Files env d d'' := by
  obtain ⟨_, _, _, _, _, _, -, rfl⟩ := h'
  exact ⟨h.slots, h.kept, h.filed, h.lock⟩

/-- A change beside the books may come first. -/
theorem Files.before {d'' : ResourceData} (h : Aside d d') (h' : Files env d' d'') : Files env d d'' := by
  obtain ⟨_, _, _, _, _, _, -, rfl⟩ := h
  exact ⟨h'.slots, h'.kept, h'.filed, h'.lock⟩

/-- Each reaction files the part of the incident, or none. -/
theorem Files.reaction {i : Incident} (h : Reaction env i d d') : Files env d d' := by
  cases h with
  | part hbefore _ hafter => exact ((Files.filedPart _ _ _).before hbefore).after hafter
  | @hashmap segment hashmap _ d₁ _ hbefore _ hafter =>
    obtain ⟨_, _, _, _, _, hupdated⟩ := updatedHashmap_writes d₁ segment hashmap
    have hfiles : Files env d₁ (updatedHashmap segment hashmap d₁) := .of_same (by rw [hupdated]) (by rw [hupdated]; exact id)
    exact (hfiles.before hbefore).after hafter
  | @late _ d₁ _ hbefore _ hafter =>
    obtain ⟨_, _, _, _, _, hlate⟩ := timedOut_writes d₁
    have hfiles : Files env d₁ (timedOut d₁) := .of_same (by rw [hlate]) (by rw [hlate]; exact id)
    exact (hfiles.before hbefore).after hafter
  | asked _ hserves =>
    obtain ⟨_, _, _, _, _, _, _, _, _, rfl⟩ := hserves
    exact .of_same rfl id

/-- What one input does to the slots of a resource that is there. -/
theorem step_files {s : Endpoint} (env : Env) (input : Input) (hc : s.Clean) {r : Nat} (hr : r < s.created) :
    Files env (s.resources r) ((step env s input).resources r) := by
  obtain haside | ⟨i, -, hreaction⟩ := (handle_reacts env input hc).old r hr
  · exact .aside haside
  · exact .reaction hreaction

/-- What was filled stays filled, and a lock that was taken stays taken. -/
theorem run_files {s : Endpoint} (env : Env) (inputs : List Input) (hc : s.Clean) {r : Nat} (hr : r < s.created) :
    (∀ (i : Nat) (data : Bytes), (s.resources r).slots[i]? = some (some data) →
        ((run env s inputs).resources r).slots[i]? = some (some data))
      ∧ ((s.resources r).assemblyLock = true → ((run env s inputs).resources r).assemblyLock = true) := by
  unfold run
  induction inputs generalizing s with
  | nil => exact ⟨fun _ _ => id, id⟩
  | cons input inputs ih =>
    have hfiles := step_files env input hc hr
    obtain ⟨hkept, hlock⟩ := ih (handle_writes env input hc).2
      (Nat.lt_of_lt_of_le hr (handle_reacts env input hc).created)
    exact ⟨fun i data h => hkept i data (hfiles.kept i data h), fun h => hlock (hfiles.lock h)⟩

/-! ## Assembling once -/

/-- `receive_part` where the assembly lock is taken, which does not assemble. -/
def receiveLocked (env : Env) (r : Nat) (packet : Packet) (rates : Rates) : Prog String Endpoint Unit :=
  Prog.call do
    let e ← Prog.get
    Prog.when (e.resources r).receiveLock Prog.leave
    Prog.modify (.withResource r fun d =>
      let d := { d with receiveLock := true, retriesLeft := maxRetries }
      if rates.fastFirst then fastRound d else d)
    Prog.when ((e.resources r).status = .failed) do
      Prog.modify (.withResource r fun d => { d with receiveLock := false })
      Prog.leave
    Prog.modify (.withResource r (filePart env packet.data))
    let e ← Prog.get
    Prog.when ((e.resources r).outstandingParts = 0) do
      Prog.modify (.withResource r (afterRequest rates))
      requestNext env r
    Prog.modify (.withResource r fun d => { d with receiveLock := false })

/-- While a resource is being assembled a part goes the way of the locked branch. -/
theorem receivePart_locked {s : Endpoint} {r : Nat} (h : (s.resources r).assemblyLock = true) (packet : Packet)
    (rates : Rates) : receivePart env r packet rates s = receiveLocked env r packet rates s := by
  refine Prog.call_congr_run ?_
  rw [Prog.get_bind_run, Prog.get_bind_run]
  by_cases hlock : (s.resources r).receiveLock = true
  case pos =>
    rw [Prog.when_of hlock]
    rfl
  rw [Prog.when_of_not hlock, Prog.pure_bind_run, Prog.pure_bind_run, Prog.modify_bind_run, Prog.modify_bind_run]
  by_cases hfailed : (s.resources r).status = .failed
  case pos =>
    rw [Prog.when_of hfailed]
    rfl
  rw [Prog.when_of_not hfailed, Prog.pure_bind_run, Prog.pure_bind_run, Prog.modify_bind_run,
    Prog.modify_bind_run, Prog.get_bind_run, Prog.get_bind_run, if_neg]
  rintro ⟨-, hfree⟩
  obtain ⟨_, _, hfirst⟩ := first_writes
    { s.resources r with receiveLock := true, retriesLeft := maxRetries } rates
  rw [Endpoint.withResource_self, Endpoint.withResource_self, filePart_lock, hfirst] at hfree
  cases h.symm.trans hfree

/-! ## Every run -/

/-- The bookkeeping of every receiver is exact in every state of a run. One more input fills a slot only with
data whose map hash is the entry of the slot at that time. What is filled stays so in the rest of the run, and so
does the assembly lock, behind which nothing is assembled any more. -/
theorem bookkeeping_exact (env : Env) {e : Endpoint} (hfresh : e.Fresh) (inputs : List Input) {r : Nat}
    (hr : r < (run env e inputs).created) (hside : ((run env e inputs).resources r).initiator = false) :
    Books ((run env e inputs).resources r)
    ∧ (∀ input, Files env ((run env e inputs).resources r) ((step env (run env e inputs) input).resources r))
    ∧ (∀ more : List Input,
        (∀ (i : Nat) (data : Bytes), ((run env e inputs).resources r).slots[i]? = some (some data) →
          ((run env e (inputs ++ more)).resources r).slots[i]? = some (some data))
        ∧ (((run env e inputs).resources r).assemblyLock = true →
          ((run env e (inputs ++ more)).resources r).assemblyLock = true))
    ∧ ∀ s : Endpoint, (s.resources r).assemblyLock = true → ∀ packet rates,
        receivePart env r packet rates s = receiveLocked env r packet rates s := by
  have hc := run_clean env hfresh.clean inputs
  have hthroughout : ∀ (s : Endpoint) (inputs : List Input), Throughout env (fun _ _ => True) s inputs := by
    intro s inputs
    induction inputs generalizing s with
    | nil => trivial
    | cons input inputs ih => exact ⟨trivial, ih _⟩
  have hbooks := run_record (books_invariant env) (hthroughout e inputs) hfresh.clean fun q hq => by
    rw [hfresh.created] at hq
    exact absurd hq (Nat.not_lt_zero q)
  refine ⟨hbooks r hr hside, fun input => step_files env input hc hr, fun more => ?_,
    fun s h packet rates => receivePart_locked h packet rates⟩
  have hrun : run env e (inputs ++ more) = run env (run env e inputs) more := List.foldl_append
  rw [hrun]
  exact run_files env more hc hr

namespace Sample

/-- A hash that is padded and cut has 32 bytes. -/
theorem prefixHash_length (b : Bytes) : ((b ++ List.replicate 32 0).take 32).length = 32 := by
  rw [List.length_take, List.length_append, List.length_replicate]
  omega

/-- The first bytes of what is hashed. -/
def prefixHash (b : Bytes) : Hash := ⟨(b ++ List.replicate 32 0).take 32, prefixHash_length b⟩

/-- A receiver whose link takes 84 bytes in a part. -/
def narrowTaker : Endpoint := { taker with link := { Link.Sample.link false with mtu := 120 } }

theorem narrowTaker_fresh : narrowTaker.Fresh := ⟨rfl, rfl, rfl, fun _ => rfl, rfl, rfl, rfl⟩

/-- The hash of a resource. -/
def someHash : Bytes := List.replicate 32 9

/-- The advertisement of a resource of 100 bytes, in short. -/
def advertised (hashmap : Bytes) : Input :=
  Link.Sample.comesIn (Link.Sample.arrived ContextType.resourceAdv (Link.Sample.wire
    ([Library.Token.map 11, Advertisement.key 't', .int 100, Advertisement.key 'h', .bin someHash,
      Advertisement.key 'r', .bin [7], Advertisement.key 'm', .bin hashmap].flatMap Link.Sample.encodeToken)))

/-- A part. -/
def arrives (data : Bytes) : Input := Link.Sample.comesIn (Link.Sample.arrived ContextType.resource data)

/-- The first entries of the hashmap once more. -/
def mapped (hashmap : Bytes) : Input :=
  Link.Sample.comesIn (Link.Sample.arrived ContextType.resourceHmu (Link.Sample.wire
    (someHash ++ [Library.Token.arr 2, .int 0, .bin hashmap].flatMap Link.Sample.encodeToken)))

end Sample

/-- A part is filed in the first of two slots, and then the entry of the slot is overwritten. -/
theorem hashmap_overwritten :
    ¬ ∀ (env : Env) (e : Endpoint), e.Fresh → ∀ (inputs : List Input) (r : Nat), r < (run env e inputs).created →
      ((run env e inputs).resources r).initiator = false → ∀ (i : Nat) (data : Bytes),
        ((run env e inputs).resources r).slots[i]? = some (some data) →
        mapHashAt ((run env e inputs).resources r).hashmap i
          = getMapHash env.fullHash ((run env e inputs).resources r).randomHash data := by
  intro h
  have hentry := h (Link.Sample.plainEnv Sample.prefixHash) Sample.narrowTaker Sample.narrowTaker_fresh
    [Sample.advertised [1, 2, 3, 7, 5, 6, 7, 8], Sample.arrives [1, 2, 3], Sample.mapped [4, 4, 4, 4]] 0
    (by decide +kernel) (by decide +kernel) 0 [1, 2, 3] (by decide +kernel)
  exact absurd hentry (by decide +kernel)

/-- With two parts missing, one arrives and is counted. -/
theorem bookkeeping_exact_one_part :
    Books ((run (Link.Sample.plainEnv Sample.prefixHash) Sample.narrowTaker
      [Sample.advertised [1, 2, 3, 7, 5, 6, 7, 8], Sample.arrives [1, 2, 3]]).resources 0) :=
  (bookkeeping_exact (Link.Sample.plainEnv Sample.prefixHash) Sample.narrowTaker_fresh
    [Sample.advertised [1, 2, 3, 7, 5, 6, 7, 8], Sample.arrives [1, 2, 3]] (by decide +kernel)
    (by decide +kernel)).1

end MicroReticulum.Resource
