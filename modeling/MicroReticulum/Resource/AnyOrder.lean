import MicroReticulum.Resource.Window

/-!
# Parts in any order

`request_next` asks for empty slots of the window that begins behind the completed height `h`, and `receive_part`
files a part in a slot of the window that begins at it. From the first part on the two windows are apart by one, so
that the last slot of a request cannot be filled before the height has moved: its part has to arrive behind that of
the slot `h + 1`.

No part is promised to arrive: the network may drop each of them.
-/

namespace MicroReticulum.Resource

open MicroReticulum Packet Link Library

variable {env : Env} {s t u : Endpoint} {r : Nat} {d c : ResourceData}

/-! ## One part -/

/-- What `receive_part` notes before it files a part. -/
def taken (rates : Rates) (d : ResourceData) : ResourceData :=
  let d := { d with receiveLock := true, retriesLeft := maxRetries }
  if rates.fastFirst then fastRound d else d

/-- A part is filed, and nothing follows from it. -/
def filedOnly (env : Env) (data : Bytes) (rates : Rates) (d : ResourceData) : ResourceData :=
  { filePart env data (taken rates d) with receiveLock := false }

/-- `receive_part` where the part is the last one of its request: the resource is assembled if it was the last one of
all, and more is asked for otherwise. -/
def receiveLast (env : Env) (r : Nat) (packet : Packet) (rates : Rates) : Prog String Endpoint Unit := Prog.call do
  let e ← Prog.get
  Prog.when (e.resources r).receiveLock Prog.leave
  Prog.modify (.withResource r (taken rates))
  Prog.when ((e.resources r).status = .failed) do
    Prog.modify (.withResource r fun d => { d with receiveLock := false })
    Prog.leave
  Prog.modify (.withResource r (filePart env packet.data))
  let e ← Prog.get
  let d := e.resources r
  if d.receivedCount = d.totalParts ∧ d.assemblyLock = false then do
    Prog.modify (.withResource r fun d => { d with assemblyLock := true })
    assemble env r
  else do
    Prog.modify (.withResource r (afterRequest rates))
    requestNext env r
  Prog.modify (.withResource r fun d => { d with receiveLock := false })

section OnePart

/-- `receive_part`, with what it notes first under its name. -/
theorem receivePart_eq (env : Env) (r : Nat) (packet : Packet) (rates : Rates) :
    receivePart env r packet rates = Prog.call (do
      let e ← Prog.get
      Prog.when (e.resources r).receiveLock Prog.leave
      Prog.modify (.withResource r (taken rates))
      Prog.when ((e.resources r).status = .failed) do
        Prog.modify (.withResource r fun d => { d with receiveLock := false })
        Prog.leave
      Prog.modify (.withResource r (filePart env packet.data))
      let e ← Prog.get
      let d := e.resources r
      if d.receivedCount = d.totalParts ∧ d.assemblyLock = false then do
        Prog.modify (.withResource r fun d => { d with assemblyLock := true })
        assemble env r
      else
        Prog.when (d.outstandingParts = 0) do
          Prog.modify (.withResource r (afterRequest rates))
          requestNext env r
      Prog.modify (.withResource r fun d => { d with receiveLock := false })) := rfl

variable {packet : Packet} {rates : Rates}

theorem taken_writes (rates : Rates) (d : ResourceData) :
    ∃ fastRateRounds windowMax,
      taken rates d = { d with receiveLock := true, retriesLeft := maxRetries, fastRateRounds, windowMax } :=
  first_writes { d with receiveLock := true, retriesLeft := maxRetries } rates

/-- Noting a part does not change where it goes. -/
theorem taken_filed (env : Env) (data : Bytes) (rates : Rates) (d : ResourceData) :
    FiledIn data (fits env data d) d (filePart env data (taken rates d)) := by
  obtain ⟨_, _, htaken⟩ := taken_writes rates d
  have hfiled := filePart_filed env data (taken rates d)
  rw [htaken] at hfiled ⊢
  exact ⟨hfiled.slots, hfiled.received, hfiled.outstanding, hfiled.hashmap⟩

/-- A part behind which something is still outstanding is filed. -/
theorem receivePart_waits (hlock : (s.resources r).receiveLock = false) (hstatus : (s.resources r).status ≠ .failed)
    (hopen : ¬ ((filePart env packet.data (taken rates (s.resources r))).receivedCount = (s.resources r).totalParts))
    (hmore : (filePart env packet.data (taken rates (s.resources r))).outstandingParts ≠ 0) :
    receivePart env r packet rates s = (.value (), s.withResource r (filedOnly env packet.data rates)) := by
  obtain ⟨_, _, htaken⟩ := taken_writes rates (s.resources r)
  have htotal : (filePart env packet.data (taken rates (s.resources r))).totalParts = (s.resources r).totalParts := by
    obtain ⟨_, _, _, _, _, hfiled⟩ := filePart_writes env (taken rates (s.resources r)) packet.data
    rw [hfiled, htaken]
  have hunlocked : ¬ (s.resources r).receiveLock = true := Bool.eq_false_iff.mp hlock
  rw [receivePart_eq]
  unfold Prog.call
  rw [Prog.get_bind_run, Prog.when_of_not hunlocked, Prog.pure_bind_run, Prog.modify_bind_run,
    Prog.when_of_not hstatus, Prog.pure_bind_run, Prog.modify_bind_run, withResource_twice, Prog.get_bind_run]
  have hat : (s.withResource r fun d => filePart env packet.data (taken rates d)).resources r
      = filePart env packet.data (taken rates (s.resources r)) := Endpoint.withResource_self ..
  rw [← htotal] at hopen
  rw [hat, if_neg fun h => hopen h.1, Prog.when_of_not hmore, Prog.pure_bind_run]
  exact congrArg (Prod.mk _) (withResource_twice _ _ s)

/-- A part behind which nothing is outstanding is the last one of its request. -/
theorem receivePart_lasts (hdone : (filePart env packet.data (taken rates (s.resources r))).outstandingParts = 0) :
    receivePart env r packet rates s = receiveLast env r packet rates s := by
  rw [receivePart_eq]
  refine Prog.call_congr_run ?_
  rw [Prog.get_bind_run, Prog.get_bind_run]
  by_cases hlock : (s.resources r).receiveLock = true
  case pos =>
    rw [Prog.when_of hlock]
    rfl
  rw [Prog.when_of_not hlock, Prog.pure_bind_run, Prog.pure_bind_run, Prog.modify_bind_run, Prog.modify_bind_run]
  by_cases hfailed : (s.resources r).status = .failed
  case pos =>
    rw [Prog.when_of hfailed]
    rfl
  have hat : (s.withResource r fun d => filePart env packet.data (taken rates d)).resources r
      = filePart env packet.data (taken rates (s.resources r)) := Endpoint.withResource_self ..
  rw [Prog.when_of_not hfailed, Prog.pure_bind_run, Prog.pure_bind_run, Prog.modify_bind_run,
    Prog.modify_bind_run, Prog.get_bind_run, Prog.get_bind_run]
  rw [withResource_twice, hat, Prog.when_of hdone]
  rfl

/-- What follows from the last part of a request does not change what is filed. -/
theorem receiveLast_slots (hr : r < s.created) (hlock : (s.resources r).receiveLock = false)
    (hstatus : (s.resources r).status ≠ .failed) :
    ((receiveLast env r packet rates s).2.resources r).slots
      = (filePart env packet.data (taken rates (s.resources r))).slots := by
  have hunlocked : ¬ (s.resources r).receiveLock = true := Bool.eq_false_iff.mp hlock
  have hunlock : ∀ u : Endpoint, Spares env u (u.withResource r fun d => { d with receiveLock := false }) := fun u =>
    .withResource ⟨_, _, _, _, _, _, id, rfl⟩
  obtain ⟨filed, hfiled⟩ : ∃ filed, filed = filePart env packet.data (taken rates (s.resources r)) := ⟨_, rfl⟩
  have hslots : ∀ {f : ResourceData → ResourceData} {v : Endpoint}, (f filed).slots = filed.slots →
      Spares env ((s.withResource r fun d => filePart env packet.data (taken rates d)).withResource r f) v →
      (v.resources r).slots = filed.slots := by
    intro f v hf hspares
    have haside := hspares.old r hr
    rw [Endpoint.withResource_self, Endpoint.withResource_self, ← hfiled] at haside
    obtain ⟨_, _, _, _, _, _, -, heq⟩ := haside
    rw [heq, ← hf]
  unfold receiveLast
  rw [Prog.call_state, Prog.get_bind_run, Prog.when_of_not hunlocked, Prog.pure_bind_run, Prog.modify_bind_run,
    Prog.when_of_not hstatus, Prog.pure_bind_run, Prog.modify_bind_run, withResource_twice, Prog.get_bind_run, ← hfiled]
  split
  · rw [Prog.modify_bind_run]
    exact hslots rfl ((sparing env).after (assemble_spares env r _) fun _ => .modify hunlock)
  · rw [Prog.modify_bind_run]
    obtain ⟨_, _, _, _, _, hafter⟩ := afterRequest_writes filed rates
    obtain ⟨_, _, hnext⟩ := nextRequest_writes (afterRequest rates filed)
    have hspares := requestNext_spares env r
      ((s.withResource r fun d => filePart env packet.data (taken rates d)).withResource r (afterRequest rates))
    rw [withResource_twice] at hspares
    exact hslots (by rw [hnext, hafter]) ((sparing env).after hspares fun _ => .modify hunlock)

end OnePart

/-! ## The parts of a request -/

/-- A window covers the slot, behind slots that are filled or requested. -/
def Covered (d : ResourceData) (j : Nat) : Prop :=
  ∃ k, (∀ i < k, Filled d.slots i ∨ i ∈ nextSlots d) ∧ j < k + d.window.toNat

/-- The packets carry the requested parts, which are told apart by their map hashes within the windows. -/
structure Carries (env : Env) (d : ResourceData) (packets : Nat → Packet) : Prop where
  hashed : ∀ i ∈ nextSlots d, mapHashAt d.hashmap i = getMapHash env.fullHash d.randomHash (packets i).data
  distinct : ∀ i ∈ nextSlots d, ∀ j, Covered d j → d.slots[j]? = some none →
    mapHashAt d.hashmap j = mapHashAt d.hashmap i → j = i

/-- Of the requested parts these have been filed, and nothing else has happened to the record. -/
structure Underway (d : ResourceData) (packets : Nat → Packet) (filed : List Nat) (c : ResourceData) : Prop where
  requested : filed ⊆ nextSlots d
  once : filed.Nodup
  slots : ∀ j, c.slots[j]? = if j ∈ filed then some (some (packets j).data) else d.slots[j]?
  outstanding : c.outstandingParts.toNat + filed.length = (nextSlots d).length
  books : Books c
  same : c.hashmap = d.hashmap ∧ c.randomHash = d.randomHash ∧ c.window = d.window ∧ c.totalParts = d.totalParts
  running : c.status ≠ .failed ∧ c.receiveLock = false

section Request

variable {packets : Nat → Packet} {filed : List Nat} {i : Nat} {rates : Rates}

/-- The slots of a request are those of the window behind the completed height. -/
theorem Books.of_mem_nextSlots (hd : Books d) (hi : i ∈ nextSlots d) :
    filledPrefix d.slots ≤ i ∧ i < filledPrefix d.slots + d.window.toNat ∧ i < d.totalParts.toNat
      ∧ d.slots[i]? = some none := by
  obtain ⟨hrange, hempty, -⟩ := of_mem_requestedSlots hi
  have hheight : (d.consecutiveCompletedHeight + 1).toNat = filledPrefix d.slots := by
    rw [hd.height]
    rfl
  unfold requestRange at hrange
  rw [hheight, List.mem_range'_1, hd.slots] at hrange
  exact ⟨hrange.1, by omega, by omega, hempty⟩

/-- A requested part goes into its slot, if `receive_part` looks at it. -/
theorem Underway.fits (h : Underway d packets filed c) (hcarries : Carries env d packets) (hi : i ∈ nextSlots d)
    (hnot : i ∉ filed) : fits env (packets i).data c = if i ∈ receiveRange c then [i] else [] := by
  obtain ⟨hmap, hrandom, hwindow, htotal⟩ := h.same
  have honly : ∀ j ∈ Resource.fits env (packets i).data c, j = i := by
    intro j hj
    obtain ⟨hrange, hfit⟩ := List.mem_filter.mp hj
    obtain ⟨hhash, hempty⟩ := of_decide_eq_true hfit
    rw [h.slots] at hempty
    split at hempty
    case isTrue => cases hempty
    refine hcarries.distinct i hi j ⟨filledPrefix c.slots, fun m hm => ?_, ?_⟩ hempty ?_
    · obtain ⟨content, hfilled⟩ := filled_of_lt hm
      rw [h.slots] at hfilled
      split at hfilled
      case isTrue hmem => exact .inr (h.requested hmem)
      case isFalse => exact .inl ⟨content, hfilled⟩
    · have hheight := h.books.height
      unfold receiveRange at hrange
      rw [List.mem_range'_1, hwindow] at hrange
      omega
    · rw [hcarries.hashed i hi, ← hmap, hhash, hrandom]
  have hnodup : (Resource.fits env (packets i).data c).Nodup := (List.nodup_range' ..).filter _
  split
  case isTrue hrange =>
    have hmem : i ∈ Resource.fits env (packets i).data c := by
      refine List.mem_filter.mpr ⟨hrange, decide_eq_true ⟨?_, ?_⟩⟩
      · rw [hmap, hrandom, hcarries.hashed i hi]
      · rw [h.slots, if_neg hnot]
        exact (of_mem_requestedSlots hi).2.1
    refine List.perm_singleton.mp ((List.perm_ext_iff_of_nodup hnodup (List.nodup_singleton i)).mpr fun j => ?_)
    rw [List.mem_singleton]
    exact ⟨honly j, fun hj => hj ▸ hmem⟩
  case isFalse hrange =>
    refine List.eq_nil_iff_forall_not_mem.mpr fun j hj => hrange ?_
    rw [← honly j hj]
    exact (List.mem_filter.mp hj).1

/-- `receive_part` looks at a requested slot, but for the last one of the request as long as the first one is
empty. -/
theorem Underway.mem_receiveRange (h : Underway d packets filed c) (hd : Books d) (hi : i ∈ nextSlots d)
    (hnot : i ∉ filed) :
    i ∈ receiveRange c ↔ filledPrefix d.slots = 0 ∨ i ≠ filledPrefix d.slots + d.window.toNat - 1
      ∨ filledPrefix d.slots ∈ filed := by
  obtain ⟨hmap, hrandom, hwindow, htotal⟩ := h.same
  obtain ⟨hfirst, hlast, hbound, hempty⟩ := hd.of_mem_nextSlots hi
  have hheight := h.books.height
  have hgrown : filledPrefix d.slots ≤ filledPrefix c.slots := le_filledPrefix fun m hm => by
    obtain ⟨content, hfilled⟩ := filled_of_lt hm
    unfold Filled
    rw [h.slots]
    split
    · exact ⟨_, rfl⟩
    · exact ⟨content, hfilled⟩
  have hbelow : filledPrefix c.slots ≤ i := by
    by_contra hlt
    obtain ⟨content, hfilled⟩ := filled_of_lt (Nat.lt_of_not_le hlt)
    rw [h.slots, if_neg hnot, hempty] at hfilled
    cases hfilled
  have hmoved : filledPrefix d.slots < filledPrefix c.slots ↔ filledPrefix d.slots ∈ filed := by
    constructor
    · intro hlt
      by_contra hmem
      obtain ⟨content, hfilled⟩ := filled_of_lt hlt
      rw [h.slots, if_neg hmem] at hfilled
      exact not_filled_filledPrefix d.slots ⟨content, hfilled⟩
    · intro hmem
      refine le_filledPrefix fun m hm => ?_
      obtain hlt | rfl := Nat.lt_succ_iff_lt_or_eq.mp hm
      · exact filled_of_lt (Nat.lt_of_lt_of_le hlt hgrown)
      · exact ⟨_, by rw [h.slots, if_pos hmem]⟩
  unfold receiveRange
  rw [List.mem_range'_1, hwindow, htotal, ← hmoved]
  omega

theorem Books.filedOnly (hd : Books d) (env : Env) (data : Bytes) (rates : Rates) :
    Books (filedOnly env data rates d) := by
  obtain ⟨_, _, htaken⟩ := taken_writes rates d
  have hbooks : Books (taken rates d) := by
    rw [htaken]
    exact ⟨hd.slots, hd.received, hd.height, hd.locked⟩
  have hfiled : Books (filePart env data (taken rates d)) :=
    Books.fileAll (d := { taken rates d with status := .transferring })
      ⟨hbooks.slots, hbooks.received, hbooks.height, hbooks.locked⟩ _ _ _
  exact ⟨hfiled.slots, hfiled.received, hfiled.height, hfiled.locked⟩

/-- What filing leaves as it is. -/
theorem filedOnly_same (env : Env) (data : Bytes) (rates : Rates) (d : ResourceData) :
    (filedOnly env data rates d).randomHash = d.randomHash ∧ (filedOnly env data rates d).window = d.window
      ∧ (filedOnly env data rates d).totalParts = d.totalParts := by
  obtain ⟨_, _, htaken⟩ := taken_writes rates d
  obtain ⟨_, _, _, _, _, hwrites⟩ := filePart_writes env (taken rates d) data
  unfold Resource.filedOnly
  rw [hwrites, htaken]
  exact ⟨rfl, rfl, rfl⟩

/-- A requested part that is looked at is filed. -/
theorem Underway.file (h : Underway d packets filed c) (hcarries : Carries env d packets) (hi : i ∈ nextSlots d)
    (hnot : i ∉ filed) (hrange : i ∈ receiveRange c) (rates : Rates) :
    Underway d packets (filed ++ [i]) (filedOnly env (packets i).data rates c) := by
  have hfiled := taken_filed env (packets i).data rates c
  rw [h.fits hcarries hi hnot, if_pos hrange] at hfiled
  obtain ⟨hmap, hrandom, hwindow, htotal⟩ := h.same
  obtain ⟨hrandom', hwindow', htotal'⟩ := filedOnly_same env (packets i).data rates c
  have honce : (filed ++ [i]).Nodup := List.nodup_append'.mpr
    ⟨h.once, List.nodup_singleton i, List.disjoint_singleton.mpr hnot⟩
  have hrequested : filed ++ [i] ⊆ nextSlots d := List.append_subset.mpr
    ⟨h.requested, fun j hj => List.mem_singleton.mp hj ▸ hi⟩
  refine ⟨hrequested, honce, fun j => ?_, ?_, h.books.filedOnly env _ rates,
    ⟨hfiled.hashmap.trans hmap, hrandom'.trans hrandom, hwindow'.trans hwindow, htotal'.trans htotal⟩,
    by rw [filedOnly, filePart_status]; exact ResourceStatus.noConfusion, rfl⟩
  · refine (hfiled.slots j).trans ?_
    rw [h.slots]
    by_cases hji : j = i
    · subst hji
      rw [if_pos (List.mem_singleton_self j), if_pos (List.mem_append_right _ (List.mem_singleton_self j))]
    · rw [if_neg fun hmem => hji (List.mem_singleton.mp hmem)]
      simp only [List.mem_append, List.mem_singleton, hji, or_false]
  · have hle := (List.subperm_of_subset honce hrequested).length_le
    have hcount := h.outstanding
    have houtstanding : (filedOnly env (packets i).data rates c).outstandingParts.toNat
        = c.outstandingParts.toNat - 1 := hfiled.outstanding
    rw [List.length_append, List.length_singleton] at hle ⊢
    omega

/-- One that is not looked at is lost. -/
theorem Underway.lose (h : Underway d packets filed c) (hcarries : Carries env d packets) (hi : i ∈ nextSlots d)
    (hnot : i ∉ filed) (hrange : i ∉ receiveRange c) (rates : Rates) :
    Underway d packets filed (filedOnly env (packets i).data rates c) := by
  have hfiled := taken_filed env (packets i).data rates c
  rw [h.fits hcarries hi hnot, if_neg hrange] at hfiled
  obtain ⟨hmap, hrandom, hwindow, htotal⟩ := h.same
  obtain ⟨hrandom', hwindow', htotal'⟩ := filedOnly_same env (packets i).data rates c
  refine ⟨h.requested, h.once, fun j => ?_, ?_, h.books.filedOnly env _ rates,
    ⟨hfiled.hashmap.trans hmap, hrandom'.trans hrandom, hwindow'.trans hwindow, htotal'.trans htotal⟩,
    by rw [filedOnly, filePart_status]; exact ResourceStatus.noConfusion, rfl⟩
  · refine ((hfiled.slots j).trans (if_neg List.not_mem_nil)).trans (h.slots j)
  · have houtstanding : (filedOnly env (packets i).data rates c).outstandingParts.toNat
        = c.outstandingParts.toNat := hfiled.outstanding
    rw [houtstanding]
    exact h.outstanding

/-- While a requested part is missing, the resource is not complete and something is outstanding. -/
theorem Underway.pending (h : Underway d packets filed c) (hmissing : filed.length < (nextSlots d).length) :
    c.receivedCount ≠ c.totalParts ∧ c.outstandingParts ≠ 0 := by
  refine ⟨fun hcomplete => ?_, fun hzero => ?_⟩
  · obtain ⟨m, hm, hnot⟩ : ∃ m ∈ nextSlots d, m ∉ filed := by
      by_contra hall
      have hsubset : nextSlots d ⊆ filed := fun m hm => by_contra fun hnot => hall ⟨m, hm, hnot⟩
      exact absurd (List.subperm_of_subset (nextSlots_nodup d) hsubset).length_le (Nat.not_le.mpr hmissing)
    have hfull : filledCount c.slots = c.slots.length := by
      rw [← h.books.received, hcomplete, h.books.slots]
    have hempty : c.slots[m]? = some none := by
      rw [h.slots, if_neg hnot]
      exact (of_mem_requestedSlots hm).2.1
    have hsome := filledCount_eq_length_iff.mp hfull none (List.mem_of_getElem? hempty)
    cases hsome
  · have hcount := h.outstanding
    rw [hzero] at hcount
    have : (0 : UInt16).toNat = 0 := rfl
    omega

/-- Behind a part that leaves something missing nothing follows but its filing. -/
theorem receivePart_pending (hrunning : (u.resources r).status ≠ .failed ∧ (u.resources r).receiveLock = false)
    (hnext : Underway d packets filed (filedOnly env (packets i).data rates (u.resources r)))
    (hmissing : filed.length < (nextSlots d).length) :
    receivePart env r (packets i) rates u
      = (.value (), u.withResource r (filedOnly env (packets i).data rates)) := by
  obtain ⟨hopen, hmore⟩ := hnext.pending hmissing
  obtain ⟨-, -, htotal⟩ := filedOnly_same env (packets i).data rates (u.resources r)
  rw [htotal] at hopen
  exact receivePart_waits hrunning.2 hrunning.1 hopen hmore

/-- Requested parts arrive that are all looked at, and at least one is missing still. -/
theorem Underway.runs (h : Underway d packets filed (u.resources r)) (hd : Books d) (hcarries : Carries env d packets)
    (rates : Nat → Rates) (more : List Nat) (hrequested : more ⊆ nextSlots d)
    (honce : (filed ++ more).Nodup) (hmissing : (filed ++ more).length < (nextSlots d).length)
    (hlooked : ∀ before i after, more = before ++ i :: after → filledPrefix d.slots = 0
      ∨ i ≠ filledPrefix d.slots + d.window.toNat - 1 ∨ filledPrefix d.slots ∈ filed ++ before) :
    ∃ v, Prog.forEach more (fun i => receivePart env r (packets i) (rates i)) u = (.value (), v)
      ∧ v.created = u.created ∧ Underway d packets (filed ++ more) (v.resources r) := by
  induction more generalizing filed u with
  | nil => exact ⟨u, rfl, rfl, by rwa [List.append_nil]⟩
  | cons i more ih =>
    have hi := hrequested List.mem_cons_self
    have hnot : i ∉ filed := fun hmem => List.disjoint_of_nodup_append honce hmem List.mem_cons_self
    have hrange : i ∈ receiveRange (u.resources r) := by
      refine (h.mem_receiveRange hd hi hnot).mpr ?_
      have hfirst := hlooked [] i more rfl
      rwa [List.append_nil] at hfirst
    have hnext := h.file hcarries hi hnot hrange (rates i)
    have hsplit : filed ++ i :: more = filed ++ [i] ++ more := List.append_cons filed i more
    rw [hsplit] at honce hmissing ⊢
    have hstep := receivePart_pending h.running hnext (by
      rw [List.length_append] at hmissing
      omega)
    have hthen : Underway d packets (filed ++ [i])
        ((u.withResource r (filedOnly env (packets i).data (rates i))).resources r) := by
      rwa [Endpoint.withResource_self]
    obtain ⟨v, hrun, hcreated, hv⟩ := ih hthen (fun j hj => hrequested (List.mem_cons_of_mem i hj)) honce hmissing
      fun before j after hmore => by
        have hthere := hlooked (i :: before) j after (by rw [hmore]; rfl)
        rwa [List.append_cons] at hthere
    exact ⟨v, (Prog.bind_value hstep).trans hrun, hcreated, hv⟩

end Request

/-! ## Every order -/

/-- The parts arrive one after the other. -/
def arrive (env : Env) (r : Nat) (packets : Nat → Packet) (rates : Nat → Rates) (order : List Nat) :
    Prog String Endpoint Unit :=
  Prog.forEach order fun i => receivePart env r (packets i) (rates i)

/-- Each of the parts is in its slot. With the last one nothing is outstanding, and more is asked for at once, or the
resource is assembled. -/
structure AllFiled (env : Env) (r : Nat) (packets : Nat → Packet) (rates : Nat → Rates) (order : List Nat)
    (t : Endpoint) : Prop where
  filed : ∀ i ∈ order,
    ((arrive env r packets rates order t).2.resources r).slots[i]? = some (some (packets i).data)
  goesOn : ∀ before i, order = before ++ [i] → ∃ u, arrive env r packets rates before t = (.value (), u)
    ∧ (filePart env (packets i).data (taken (rates i) (u.resources r))).outstandingParts = 0
    ∧ receivePart env r (packets i) (rates i) u = receiveLast env r (packets i) (rates i) u

/-- The part of the last slot of the window, if it was requested, arrives behind that of the first one, unless no part
of the resource is filed yet. -/
def InTime (d : ResourceData) (order : List Nat) : Prop :=
  let first := (d.consecutiveCompletedHeight + 1).toNat
  let last := first + d.window.toNat - 1
  first = 0 ∨ last ∉ nextSlots d ∨ order.idxOf first < order.idxOf last

instance (d : ResourceData) (order : List Nat) : Decidable (InTime d order) := by
  unfold InTime
  infer_instance

/-- Behind a request nothing of it has arrived. -/
theorem requestNext_underway (packets : Nat → Packet) (hr : r < s.created) (hbooks : Books (s.resources r))
    (hasks : (s.resources r).status ≠ .failed ∧ (s.resources r).waitingForHmu = false)
    (ht : t = (requestNext env r s).2)
    (hrunning : (t.resources r).status ≠ .failed ∧ (t.resources r).receiveLock = false) :
    Underway (s.resources r) packets [] (t.resources r) := by
  have haside := (requestNext_spares env r s).old r hr
  rw [← ht, Endpoint.withResource_self] at haside
  obtain ⟨outstanding, waiting, hnext⟩ := nextRequest_writes (s.resources r)
  have hcount := nextRequest_outstanding hasks
  obtain ⟨_, _, _, _, _, _, -, hrecord⟩ := haside
  rw [hnext] at hcount hrecord
  refine ⟨List.nil_subset _, List.nodup_nil, fun j => ?_, ?_, ?_, ?_, hrunning⟩
  · rw [hrecord]
    exact (if_neg List.not_mem_nil).symm
  · rw [hrecord]
    exact hcount
  · rw [hrecord]
    exact ⟨hbooks.slots, hbooks.received, hbooks.height, hbooks.locked⟩
  · rw [hrecord]
    exact ⟨rfl, rfl, rfl, rfl⟩

section EveryOrder

variable {packets : Nat → Packet} {rates : Nat → Rates} {order : List Nat}

theorem Underway.all_filed (h : Underway d packets [] (t.resources r)) (hd : Books d) (hr : r < t.created)
    (hcarries : Carries env d packets) (hperm : order.Perm (nextSlots d)) (hintime : InTime d order) :
    AllFiled env r packets rates order t := by
  have honce : order.Nodup := hperm.nodup_iff.mpr (nextSlots_nodup d)
  have hlooked : ∀ before i after, order = before ++ i :: after → filledPrefix d.slots = 0
      ∨ i ≠ filledPrefix d.slots + d.window.toNat - 1 ∨ filledPrefix d.slots ∈ before := by
    intro before i after horder
    have hfirst : (d.consecutiveCompletedHeight + 1).toNat = filledPrefix d.slots := by
      rw [hd.height]
      rfl
    have hi : i ∈ nextSlots d := hperm.mem_iff.mp (horder ▸ List.mem_append_right _ List.mem_cons_self)
    unfold InTime at hintime
    rw [hfirst] at hintime
    obtain hnone | hlast | hbefore := hintime
    · exact .inl hnone
    · exact .inr (.inl fun h => hlast (h ▸ hi))
    · by_cases hlast : i = filledPrefix d.slots + d.window.toNat - 1
      · refine .inr (.inr ?_)
        have hnot : i ∉ before := fun hmem =>
          List.disjoint_of_nodup_append (horder ▸ honce) hmem List.mem_cons_self
        rw [← hlast, horder, List.idxOf_append_of_notMem hnot, List.idxOf_cons_self, Nat.add_zero] at hbefore
        by_contra hfirst
        rw [List.idxOf_append_of_notMem hfirst] at hbefore
        omega
      · exact .inr (.inl hlast)
  have hlast : ∀ before i, order = before ++ [i] → ∃ u, arrive env r packets rates before t = (.value (), u)
      ∧ u.created = t.created ∧ Underway d packets before (u.resources r)
      ∧ Underway d packets (before ++ [i]) (filedOnly env (packets i).data (rates i) (u.resources r)) := by
    intro before i horder
    have hlength := hperm.length_eq
    rw [horder, List.length_append, List.length_singleton] at hlength
    have hsubset : before ++ [i] ⊆ nextSlots d := fun j hj => hperm.mem_iff.mp (horder ▸ hj)
    have hnodup : (before ++ [i]).Nodup := horder ▸ honce
    obtain ⟨u, hrun, hcreated, hu⟩ := h.runs hd hcarries rates before
      (fun j hj => hsubset (List.mem_append_left _ hj)) hnodup.of_append_left
      (by rw [List.nil_append]; omega)
      fun before' j after hbefore => hlooked before' j (after ++ [i]) (by rw [horder, hbefore]; simp)
    have hi : i ∈ nextSlots d := hsubset (List.mem_append_right _ (List.mem_singleton_self i))
    have hnot : i ∉ before := fun hmem =>
      List.disjoint_of_nodup_append hnodup hmem (List.mem_singleton_self i)
    have hrange := (hu.mem_receiveRange hd hi hnot).mpr (hlooked before i [] horder)
    exact ⟨u, hrun, hcreated, hu, hu.file hcarries hi hnot hrange (rates i)⟩
  have hzero : ∀ {before : List Nat} {i : Nat}, order = before ++ [i] → ∀ {c : ResourceData},
      Underway d packets (before ++ [i]) c → c.outstandingParts = 0 := by
    intro before i horder c hc
    have hcount := hc.outstanding
    rw [← horder, hperm.length_eq] at hcount
    have hnone : c.outstandingParts.toNat = 0 := by omega
    exact UInt16.toNat_inj.mp hnone
  refine ⟨fun j hj => ?_, fun before i horder => ?_⟩
  · obtain rfl | ⟨before, i, horder⟩ := List.eq_nil_or_concat' order
    · cases hj
    obtain ⟨u, hrun, hcreated, hu, hfiled⟩ := hlast before i horder
    have hnone := hzero horder hfiled
    have hdone : (filePart env (packets i).data (taken (rates i) (u.resources r))).outstandingParts = 0 := hnone
    have hstate : (arrive env r packets rates order t).2 = (receiveLast env r (packets i) (rates i) u).2 := by
      rw [horder]
      unfold arrive at hrun ⊢
      rw [Prog.forEach_append_run, Prog.bind_value hrun, Prog.forEach_singleton_state,
        receivePart_lasts hdone]
    rw [hstate, receiveLast_slots (hcreated ▸ hr) hu.running.2 hu.running.1]
    exact (hfiled.slots j).trans (if_pos (horder ▸ hj))
  · obtain ⟨u, hrun, -, -, hfiled⟩ := hlast before i horder
    have hdone := hzero horder hfiled
    exact ⟨u, hrun, hdone, receivePart_lasts hdone⟩

/-- The part of the last slot is lost that arrives before the first one, and nothing is asked for. -/
theorem Underway.last_lost (h : Underway d packets [] (t.resources r)) (hd : Books d)
    (hcarries : Carries env d packets) (hperm : order.Perm (nextSlots d)) (hlate : ¬ InTime d order) :
    ¬ AllFiled env r packets rates order t := by
  have honce : order.Nodup := hperm.nodup_iff.mpr (nextSlots_nodup d)
  have hfirst : (d.consecutiveCompletedHeight + 1).toNat = filledPrefix d.slots := by
    rw [hd.height]
    rfl
  obtain ⟨last, hlastEq⟩ : ∃ last, last = filledPrefix d.slots + d.window.toNat - 1 := ⟨_, rfl⟩
  unfold InTime at hlate
  dsimp only at hlate
  rw [hfirst, ← hlastEq] at hlate
  obtain ⟨hsome, hlate⟩ := not_or.mp hlate
  obtain ⟨hlast, hlate⟩ := not_or.mp hlate
  rw [not_not] at hlast
  obtain ⟨before, after, horder⟩ := List.append_of_mem (hperm.mem_iff.mpr hlast)
  have hnodup : (before ++ last :: after).Nodup := horder ▸ honce
  have hsubset : before ++ last :: after ⊆ nextSlots d := fun j hj => hperm.mem_iff.mp (horder ▸ hj)
  have hlength := hperm.length_eq
  rw [horder, List.length_append, List.length_cons] at hlength
  have hnot : last ∉ before := fun hmem => List.disjoint_of_nodup_append hnodup hmem List.mem_cons_self
  have hnotAfter : last ∉ after := (List.nodup_cons.mp hnodup.of_append_right).1
  have hfirstNot : filledPrefix d.slots ∉ before := by
    intro hmem
    rw [horder, List.idxOf_append_of_notMem hnot, List.idxOf_cons_self, Nat.add_zero,
      List.idxOf_append_of_mem hmem] at hlate
    exact hlate (List.idxOf_lt_length_of_mem hmem)
  have hother : ∀ more : List Nat, last ∉ more → ∀ before i after, more = before ++ i :: after →
      i ≠ filledPrefix d.slots + d.window.toNat - 1 := by
    intro more hmore before i after heq hi
    exact hmore (heq ▸ hlastEq.trans hi.symm ▸ List.mem_append_right _ List.mem_cons_self)
  obtain ⟨u, hrun, hcreated, hu⟩ := h.runs hd hcarries rates before
    (fun j hj => hsubset (List.mem_append_left _ hj)) hnodup.of_append_left (by rw [List.nil_append]; omega)
    fun before' i after' heq => .inr (.inl (hother before hnot before' i after' heq))
  rw [List.nil_append] at hu
  have hrange : last ∉ receiveRange (u.resources r) := by
    rw [hu.mem_receiveRange hd hlast hnot]
    rintro (hnone | hne | hmem)
    · exact hsome hnone
    · exact hne hlastEq
    · exact hfirstNot hmem
  have hlost := hu.lose hcarries hlast hnot hrange (rates last)
  have hstep := receivePart_pending hu.running hlost (by omega)
  have hthen : Underway d packets before
      ((u.withResource r (filedOnly env (packets last).data (rates last))).resources r) := by
    rwa [Endpoint.withResource_self]
  obtain ⟨v, hrest, -, hv⟩ := hthen.runs hd hcarries rates after
    (fun j hj => hsubset (List.mem_append_right _ (List.mem_cons_of_mem last hj)))
    (by
      rw [List.nodup_append'] at hnodup ⊢
      exact ⟨hnodup.1, (List.nodup_cons.mp hnodup.2.1).2, fun j hj hj' => hnodup.2.2 hj (List.mem_cons_of_mem last hj')⟩)
    (by rw [List.length_append]; omega)
    fun before' i after' heq => .inr (.inl (hother after hnotAfter before' i after' heq))
  have hall : arrive env r packets rates order t = (.value (), v) := by
    rw [horder]
    unfold arrive
    rw [Prog.forEach_append_run, Prog.bind_value hrun]
    exact (Prog.bind_value hstep).trans hrest
  intro hfiled
  have hcontent := hfiled.filed last (hperm.mem_iff.mpr hlast)
  rw [hall] at hcontent
  dsimp only at hcontent
  rw [hv.slots, if_neg fun hmem => (List.mem_append.mp hmem).elim hnot hnotAfter,
    (of_mem_requestedSlots hlast).2.1] at hcontent
  cases hcontent

/-- Behind a request its parts are all filed, and more is asked for, exactly if the part of the last slot arrives in
time. -/
theorem requested_parts_filed_iff (env : Env) (hr : r < s.created) (hbooks : Books (s.resources r))
    (hasks : (s.resources r).status ≠ .failed ∧ (s.resources r).waitingForHmu = false)
    (ht : t = (requestNext env r s).2)
    (hrunning : (t.resources r).status ≠ .failed ∧ (t.resources r).receiveLock = false)
    (hcarries : Carries env (s.resources r) packets) (rates : Nat → Rates)
    (hperm : order.Perm (nextSlots (s.resources r))) :
    AllFiled env r packets rates order t ↔ InTime (s.resources r) order := by
  have hunderway := requestNext_underway packets hr hbooks hasks ht hrunning
  have hr' : r < t.created := Nat.lt_of_lt_of_le hr (ht ▸ (requestNext_spares env r s).created)
  constructor
  · intro hfiled
    by_contra hlate
    exact hunderway.last_lost hbooks hcarries hperm hlate hfiled
  · exact hunderway.all_filed hbooks hr' hcarries hperm

end EveryOrder

namespace Sample

/-- One of ten parts. -/
def tenthPart (i : Nat) : Packet := Link.Sample.arrived ContextType.resource [UInt8.ofNat i, 1, 1]

/-- A receiver of which the first four of ten parts have arrived. -/
def fourFiled : Endpoint :=
  run longEnv wideTaker (longAdvertised :: (List.range 4).map fun i => Link.Sample.comesIn (tenthPart i))

theorem fourFiled_books : Books (fourFiled.resources 0) where
  slots := by decide +kernel
  received := by decide +kernel
  height := by decide +kernel
  locked := by decide +kernel

/-- Its next request is for five parts. -/
theorem fourFiled_nextSlots : nextSlots (fourFiled.resources 0) = [4, 5, 6, 7, 8] := by decide +kernel

theorem fourFiled_carries : Carries longEnv (fourFiled.resources 0) tenthPart where
  hashed := by decide +kernel
  distinct i hi j _ hempty hsame := by
    have hall : ∀ i ∈ nextSlots (fourFiled.resources 0), ∀ j < 10,
        mapHashAt (fourFiled.resources 0).hashmap j = mapHashAt (fourFiled.resources 0).hashmap i → j = i := by
      decide +kernel
    obtain ⟨hj, -⟩ := List.getElem?_eq_some_iff.mp hempty
    have hlength : (fourFiled.resources 0).slots.length = 10 := by decide +kernel
    exact hall i hi j (hlength ▸ hj) hsame

end Sample

/-- With four of ten parts filed five are asked for, and the last of them arrives first. -/
theorem last_part_first_lost :
    ¬ ∀ (env : Env) (s t : Endpoint) (r : Nat), r < s.created → Books (s.resources r) →
      (s.resources r).status ≠ .failed ∧ (s.resources r).waitingForHmu = false → t = (requestNext env r s).2 →
      (t.resources r).status ≠ .failed ∧ (t.resources r).receiveLock = false →
      ∀ (packets : Nat → Packet), Carries env (s.resources r) packets → ∀ (rates : Nat → Rates) (order : List Nat),
        order.Perm (nextSlots (s.resources r)) → AllFiled env r packets rates order t := by
  intro h
  have hfiled := h Sample.longEnv Sample.fourFiled _ 0 (by decide +kernel) Sample.fourFiled_books (by decide +kernel)
    rfl (by decide +kernel) Sample.tenthPart Sample.fourFiled_carries (fun _ => Link.Sample.rates) [8, 4, 5, 6, 7]
    (Sample.fourFiled_nextSlots ▸ by decide +kernel)
  exact absurd (hfiled.filed 8 List.mem_cons_self) (by decide +kernel)

/-- With the first of them before the last, all five are filed. -/
theorem requested_parts_filed_iff_swapped :
    AllFiled Sample.longEnv 0 Sample.tenthPart (fun _ => Link.Sample.rates) [7, 4, 8, 6, 5]
      (requestNext Sample.longEnv 0 Sample.fourFiled).2 :=
  (requested_parts_filed_iff Sample.longEnv (by decide +kernel) Sample.fourFiled_books (by decide +kernel) rfl
    (by decide +kernel) Sample.fourFiled_carries (fun _ => Link.Sample.rates)
    (Sample.fourFiled_nextSlots ▸ by decide +kernel)).mpr (by decide +kernel)

end MicroReticulum.Resource
