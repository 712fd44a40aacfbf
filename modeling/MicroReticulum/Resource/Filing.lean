import MicroReticulum.Resource.Incidents

/-!
# Which slots are asked for, and which are filled

`requestedSlots` are the slots of one request, and `fits` those that an arriving part goes into. Both are read off
the record before anything happens, and `filePart_filed` says that the loop over the window does what `fits` says:
it fills these slots, and counts them.
-/

namespace MicroReticulum.Resource

open MicroReticulum Packet Link Library

/-- The empty slots of a request. -/
def requestedSlots (d : ResourceData) : List Nat → List Nat
  | [] => []
  | i :: rest =>
    if d.slots[i]? = some none then
      if mapHashAt d.hashmap i = zeroMapHash then [] else i :: requestedSlots d rest
    else requestedSlots d rest

/-- The slots of the next request. -/
def nextSlots (d : ResourceData) : List Nat := requestedSlots d (requestRange d)

/-- The slots an arriving part goes into. -/
def fits (env : Env) (data : Bytes) (d : ResourceData) : List Nat :=
  (receiveRange d).filter fun i =>
    mapHashAt d.hashmap i = getMapHash env.fullHash d.randomHash data ∧ d.slots[i]? = some none

/-- The slots among these that are still empty. -/
def missing (d : ResourceData) (slots : List Nat) : List Nat := slots.filter fun i => d.slots[i]? = some none

/-! ## Requests -/

section Requests

variable {d : ResourceData} {i : Nat} {indices : List Nat}

/-- A request names the entries of its slots, and counts them. -/
theorem requestedHashes_slots (d : ResourceData) (indices : List Nat) :
    (requestedHashes d indices).1 = (requestedSlots d indices).flatMap (mapHashAt d.hashmap)
      ∧ (requestedHashes d indices).2.1 = (requestedSlots d indices).length := by
  induction indices with
  | nil => exact ⟨rfl, rfl⟩
  | cons i rest ih =>
    unfold requestedHashes requestedSlots
    split
    case isFalse => exact ih
    split
    case isTrue => exact ⟨rfl, rfl⟩
    case isFalse => exact ⟨by rw [List.flatMap_cons, ← ih.1], by rw [List.length_cons, ← ih.2]⟩

theorem requestedSlots_sublist (d : ResourceData) (indices : List Nat) :
    List.Sublist (requestedSlots d indices) indices := by
  induction indices with
  | nil => exact List.Sublist.slnil
  | cons i rest ih =>
    unfold requestedSlots
    split
    case isFalse => exact ih.cons i
    split
    case isTrue => exact List.nil_sublist _
    case isFalse => exact ih.cons_cons i

/-- Only empty slots whose entry is known are asked for. -/
theorem of_mem_requestedSlots (h : i ∈ requestedSlots d indices) :
    i ∈ indices ∧ d.slots[i]? = some none ∧ mapHashAt d.hashmap i ≠ zeroMapHash := by
  induction indices with
  | nil => cases h
  | cons j rest ih =>
    unfold requestedSlots at h
    split at h
    case isFalse => exact ⟨List.mem_cons_of_mem j (ih h).1, (ih h).2⟩
    case isTrue hempty =>
      split at h
      case isTrue => cases h
      case isFalse hknown =>
        obtain rfl | hrest := List.mem_cons.mp h
        · exact ⟨List.mem_cons_self, hempty, hknown⟩
        · exact ⟨List.mem_cons_of_mem j (ih hrest).1, (ih hrest).2⟩

theorem nextSlots_nodup (d : ResourceData) : (nextSlots d).Nodup :=
  (requestedSlots_sublist d _).nodup (List.nodup_range' ..)

theorem nextSlots_length (d : ResourceData) : (nextSlots d).length ≤ d.window.toNat := by
  have hle := (requestedSlots_sublist d (requestRange d)).length_le
  unfold requestRange at hle
  rw [List.length_range'] at hle
  unfold nextSlots requestRange
  omega

/-- Nothing of a request has arrived when it is made. -/
theorem missing_nextSlots (d : ResourceData) : missing d (nextSlots d) = nextSlots d :=
  List.filter_eq_self.mpr fun _ hi => decide_eq_true (of_mem_requestedSlots hi).2.1

/-- A request is as long as its count, whatever its width. -/
theorem nextRequest_outstanding (h : d.status ≠ .failed ∧ d.waitingForHmu = false) :
    (nextRequest d).outstandingParts.toNat = (nextSlots d).length := by
  unfold nextRequest
  rw [if_pos h]
  show (UInt16.ofNat (requestedHashes d (requestRange d)).2.1).toNat = _
  have hle := nextSlots_length d
  have hlt := d.window.toNat_lt
  rw [(requestedHashes_slots d _).2, UInt16.toNat_ofNat', Nat.mod_eq_of_lt]
  · rfl
  · show (nextSlots d).length < 2 ^ 16
    omega

end Requests

/-! ## Filing -/

section Filing

variable {partData partHash : Bytes} {d d' d'' : ResourceData} {filed asked : List Nat} {i : Nat}

/-- A part is filed in these slots, and nothing else changes that decides where it goes. -/
structure FiledIn (partData : Bytes) (filed : List Nat) (d d' : ResourceData) : Prop where
  slots : ∀ i, d'.slots[i]? = if i ∈ filed then some (some partData) else d.slots[i]?
  received : d'.receivedCount = d.receivedCount + UInt32.ofNat filed.length
  outstanding : d'.outstandingParts.toNat = d.outstandingParts.toNat - filed.length
  hashmap : d'.hashmap = d.hashmap

theorem FiledIn.refl (d : ResourceData) : FiledIn partData [] d d :=
  ⟨fun _ => (if_neg List.not_mem_nil).symm, (UInt32.add_zero _).symm, rfl, rfl⟩

theorem FiledIn.cons (h : FiledIn partData [i] d d') (h' : FiledIn partData filed d' d'') :
    FiledIn partData (i :: filed) d d'' := by
  refine ⟨fun j => ?_, ?_, ?_, h'.hashmap.trans h.hashmap⟩
  · rw [h'.slots, h.slots]
    by_cases hj : j ∈ filed
    · rw [if_pos hj, if_pos (List.mem_cons_of_mem i hj)]
    · by_cases hji : j = i <;> simp [hj, hji]
  · rw [h'.received, h.received, UInt32.add_assoc, ← UInt32.ofNat_add, Nat.add_comm]
    rfl
  · rw [h'.outstanding, h.outstanding, List.length_cons, Nat.sub_sub, Nat.add_comm]
    rfl

/-- One round fills its slot, if it is empty and its entry is the map hash. -/
theorem fileAt_filed (partData : Bytes) (h : mapHashAt d.hashmap i = partHash ∧ d.slots[i]? = some none) :
    FiledIn partData [i] d (fileAt partData partHash d i) := by
  unfold fileAt
  rw [if_pos h]
  refine ⟨fun j => ?_, rfl, ?_, rfl⟩
  · obtain ⟨hi, -⟩ := List.getElem?_eq_some_iff.mp h.2
    by_cases hji : j = i
    · rw [if_pos (List.mem_singleton.mpr hji), hji]
      exact List.getElem?_set_self hi
    · rw [if_neg fun hmem => hji (List.mem_singleton.mp hmem)]
      exact List.getElem?_set_ne (Ne.symm hji)
  · dsimp only
    split
    case isTrue hsome =>
      have hone : (1 : UInt16) ≤ d.outstandingParts :=
        UInt16.le_iff_toNat_le.mpr (Nat.succ_le_of_lt (UInt16.lt_iff_toNat_lt.mp hsome))
      rw [UInt16.toNat_sub_of_le _ _ hone]
      rfl
    case isFalse hnone =>
      have hzero : ¬ 0 < d.outstandingParts.toNat := fun h => hnone (UInt16.lt_iff_toNat_lt.mpr h)
      rw [Nat.eq_zero_of_not_pos hzero]
      rfl

/-- The loop fills every slot the part goes into. The slots of later rounds are not touched before. -/
theorem fileAll_filed (partData partHash : Bytes) {indices : List Nat} (hnodup : indices.Nodup) (d : ResourceData) :
    FiledIn partData (indices.filter fun i => mapHashAt d.hashmap i = partHash ∧ d.slots[i]? = some none) d
      (indices.foldl (fileAt partData partHash) d) := by
  induction indices generalizing d with
  | nil => exact .refl d
  | cons i rest ih =>
    obtain ⟨hfresh, hnodup⟩ := List.nodup_cons.mp hnodup
    have hrest := ih hnodup (fileAt partData partHash d i)
    rw [List.foldl_cons, List.filter_cons]
    by_cases hfits : mapHashAt d.hashmap i = partHash ∧ d.slots[i]? = some none
    · have hround := fileAt_filed partData hfits
      rw [if_pos (decide_eq_true hfits)]
      refine hround.cons ?_
      rw [hround.hashmap] at hrest
      have hsame : rest.filter (fun j => mapHashAt d.hashmap j = partHash
          ∧ (fileAt partData partHash d i).slots[j]? = some none)
            = rest.filter fun j => mapHashAt d.hashmap j = partHash ∧ d.slots[j]? = some none :=
        List.filter_congr fun j hj => by
          have hother : j ∉ [i] := fun hmem => hfresh ((List.mem_singleton.mp hmem).symm ▸ hj)
          rw [hround.slots, if_neg hother]
      rwa [hsame] at hrest
    · have hidle : fileAt partData partHash d i = d := if_neg hfits
      rw [if_neg fun h => hfits (of_decide_eq_true h)]
      rwa [hidle] at hrest ⊢

/-- A part is filed in the slots it goes into. -/
theorem filePart_filed (env : Env) (partData : Bytes) (d : ResourceData) :
    FiledIn partData (fits env partData d) d (filePart env partData d) := by
  have hrange : (receiveRange d).Nodup := List.nodup_range' ..
  have hfiled := fileAll_filed partData (getMapHash env.fullHash d.randomHash partData) hrange
    { d with status := .transferring }
  exact ⟨hfiled.slots, hfiled.received, hfiled.outstanding, hfiled.hashmap⟩

/-- No more are missing than before. -/
theorem FiledIn.missing_le (h : FiledIn partData filed d d') (asked : List Nat) :
    (missing d' asked).length ≤ (missing d asked).length := by
  refine (List.monotone_filter_right asked fun i hi => ?_).length_le
  have hempty := of_decide_eq_true hi
  rw [h.slots] at hempty
  split at hempty
  · cases hempty
  · exact decide_eq_true hempty

/-- As many are missing less as were filed, if all of them were among the ones in question. -/
theorem FiledIn.missing (h : FiledIn partData filed d d') (hnodup : filed.Nodup) (hasked : asked.Nodup)
    (hsubset : filed ⊆ missing d asked) :
    (missing d' asked).length + filed.length = (missing d asked).length := by
  have hdisjoint : List.Disjoint (Resource.missing d' asked) filed := by
    intro i hi hslot
    have hempty := of_decide_eq_true (List.mem_filter.mp hi).2
    rw [h.slots, if_pos hslot] at hempty
    cases hempty
  have hnodup' : (Resource.missing d' asked ++ filed).Nodup :=
    List.nodup_append'.mpr ⟨hasked.filter _, hnodup, hdisjoint⟩
  have hperm : (Resource.missing d asked).Perm (Resource.missing d' asked ++ filed) := by
    refine (List.perm_ext_iff_of_nodup (hasked.filter _) hnodup').mpr fun i => ?_
    rw [List.mem_append]
    by_cases hslot : i ∈ filed
    · exact ⟨fun _ => .inr hslot, fun _ => hsubset hslot⟩
    · unfold Resource.missing
      rw [List.mem_filter, List.mem_filter, h.slots, if_neg hslot]
      exact ⟨.inl, fun h => h.resolve_right hslot⟩
  rw [hperm.length_eq, List.length_append]

end Filing

end MicroReticulum.Resource
