import Mathlib.Data.List.Induction
import MicroReticulum.Resource.Filing
import MicroReticulum.Link.Queue
import MicroReticulum.Link.Reactions

/-!
# Waiting for the proof

An initiator waits for the proof once it has sent as many parts as there are. It counts a part when it hands it to the
interfaces for the first time, and where none of them takes it the part is marked as not sent again, but stays
counted: the next request counts it once more.

So the status is exact in runs where every part of a request is taken, and `transmission_failed` is the other case.

That the proof arrives is not promised, and without it the transfer ends by its timeout.
-/

namespace MicroReticulum.Resource

open MicroReticulum Packet Link Library

variable {env : Env} {s t u v : Endpoint} {r i : Nat} {d d' : ResourceData} {indices : List Nat}

/-! ## Counting -/

/-- An interface took the part, the last time it was sent. -/
def Sent (d : ResourceData) (i : Nat) : Prop := ∃ part, d.parts[i]? = some part ∧ part.sent = true

instance (d : ResourceData) (i : Nat) : Decidable (Sent d i) :=
  decidable_of_iff (d.parts[i]?.map Part.sent = some true) Option.map_eq_some_iff

/-- The part is out, and counted if it was not out before. -/
def markSent (d : ResourceData) (i : Nat) : ResourceData :=
  match d.parts[i]? with
  | none => d
  | some part =>
    { d with
      parts := d.parts.set i { part with sent := true }
      sentParts := if part.sent then d.sentParts else d.sentParts + 1 }

/-- An initiator has counted the parts that are out. -/
structure Counted (d : ResourceData) : Prop where
  countable : d.parts.length < 2 ^ 32
  sentParts : d.sentParts.toNat = d.parts.countP Part.sent

/-- Marking a part as sent writes the parts and their count, and makes no part. -/
theorem markSent_writes (d : ResourceData) (i : Nat) :
    ∃ parts sentParts, markSent d i = { d with parts, sentParts } ∧ parts.length = d.parts.length := by
  unfold markSent
  split
  · exact ⟨_, _, rfl, rfl⟩
  · exact ⟨_, _, rfl, List.length_set⟩

/-- Marking parts as sent writes the parts and their count, and makes no part. -/
theorem markAll_writes (indices : List Nat) (d : ResourceData) :
    ∃ parts sentParts, indices.foldl markSent d = { d with parts, sentParts } ∧ parts.length = d.parts.length := by
  induction indices generalizing d with
  | nil => exact ⟨_, _, rfl, rfl⟩
  | cons i indices ih =>
    obtain ⟨_, _, hone, hlength⟩ := markSent_writes d i
    obtain ⟨parts, sentParts, hrest, hlength'⟩ := ih (markSent d i)
    rw [hone] at hlength'
    refine ⟨parts, sentParts, ?_, hlength'.trans hlength⟩
    rw [List.foldl_cons, hrest, hone]

/-- The count of what was sent is right behind one more part, the first time or again. -/
theorem Counted.markSent (hd : Counted d) (i : Nat) : Counted (markSent d i) := by
  unfold Resource.markSent
  cases hpart : d.parts[i]? with
  | none => exact hd
  | some part =>
    obtain ⟨hi, hget⟩ := List.getElem?_eq_some_iff.mp hpart
    have hset := List.countP_set (p := Part.sent) (a := { part with sent := true }) hi
    have hle : (d.parts.set i { part with sent := true }).countP Part.sent ≤ d.parts.length := by
      refine List.countP_le_length.trans ?_
      rw [List.length_set]
    refine ⟨by rw [List.length_set]; exact hd.countable, ?_⟩
    rw [hget] at hset
    dsimp only
    split
    case isTrue hsent =>
      have hpos : 0 < d.parts.countP Part.sent := List.countP_pos_iff.mpr ⟨part, List.mem_of_getElem? hpart, hsent⟩
      rw [hset, hd.sentParts, if_pos hsent, if_pos rfl]
      omega
    case isFalse hsent =>
      have hbound := hd.countable
      rw [hset, if_neg hsent, if_pos rfl, UInt32.toNat_add, hd.sentParts]
      rw [hset, if_neg hsent, if_pos rfl] at hle
      exact Nat.mod_eq_of_lt (by have : (1 : UInt32).toNat = 1 := rfl; omega)

/-- The count of what was sent is right behind any parts. -/
theorem Counted.markAll (hd : Counted d) (indices : List Nat) : Counted (indices.foldl Resource.markSent d) := by
  induction indices generalizing d with
  | nil => exact hd
  | cons i indices ih => exact ih (hd.markSent i)

/-- A part is out that was out, or that went out now. -/
theorem markSent_sent (d : ResourceData) (i j : Nat) :
    Sent (markSent d i) j ↔ Sent d j ∨ j = i ∧ i < d.parts.length := by
  unfold markSent
  cases hpart : d.parts[i]? with
  | none =>
    have hout := List.getElem?_eq_none_iff.mp hpart
    exact ⟨.inl, fun h => h.resolve_right fun hi => Nat.not_lt.mpr hout hi.2⟩
  | some part =>
    obtain ⟨hi, -⟩ := List.getElem?_eq_some_iff.mp hpart
    unfold Sent
    dsimp only
    by_cases hji : j = i
    · subst hji
      rw [List.getElem?_set_self hi]
      exact ⟨fun _ => .inr ⟨rfl, hi⟩, fun _ => ⟨_, rfl, rfl⟩⟩
    · rw [List.getElem?_set_ne (Ne.symm hji)]
      exact ⟨.inl, fun h => h.resolve_right fun h => hji h.1⟩

/-- Sent are those that were before and those that are marked and exist. -/
theorem markAll_sent (indices : List Nat) (d : ResourceData) (j : Nat) :
    Sent (indices.foldl markSent d) j ↔ Sent d j ∨ j ∈ indices ∧ j < d.parts.length := by
  induction indices generalizing d with
  | nil => exact ⟨.inl, fun h => h.resolve_right fun h => List.not_mem_nil h.1⟩
  | cons i indices ih =>
    obtain ⟨_, _, hone, hlength⟩ := markSent_writes d i
    have hsame : (markSent d i).parts.length = d.parts.length := by rw [hone, hlength]
    rw [List.foldl_cons, ih, markSent_sent, hsame, List.mem_cons]
    constructor
    · rintro ((h | ⟨rfl, hi⟩) | ⟨hj, hlt⟩)
      · exact .inl h
      · exact .inr ⟨.inl rfl, hi⟩
      · exact .inr ⟨.inr hj, hlt⟩
    · rintro (h | ⟨rfl | hj, hlt⟩)
      · exact .inl (.inl h)
      · exact .inl (.inr ⟨rfl, hlt⟩)
      · exact .inr ⟨hj, hlt⟩

/-- The count is full exactly if everything is out. -/
theorem Counted.full_iff (hd : Counted d) :
    d.sentParts.toNat = d.parts.length ↔ ∀ i < d.parts.length, Sent d i := by
  rw [hd.sentParts, List.countP_eq_length]
  constructor
  · intro h i hi
    exact ⟨d.parts[i], List.getElem?_eq_getElem hi, h _ (List.getElem_mem hi)⟩
  · intro h part hpart
    obtain ⟨i, hi, rfl⟩ := List.getElem_of_mem hpart
    obtain ⟨part, hget, hsent⟩ := h i hi
    rw [List.getElem?_eq_getElem hi, Option.some.injEq] at hget
    rwa [hget]

/-! ## Sending parts -/

/-- The endpoint after so many transmissions, in which a record has changed. -/
def transmitted (r : Nat) (f : ResourceData → ResourceData) (n : Nat) (new : List Event) (e : Endpoint) : Endpoint :=
  { e.withResource r f with draws := e.draws + n, events := e.events ++ new }

theorem transmitted_resource (r : Nat) (f : ResourceData → ResourceData) (n : Nat) (new : List Event) (e : Endpoint) :
    (transmitted r f n new e).resources r = f (e.resources r) := Endpoint.withResource_self ..

/-- Transmissions in two goes are transmissions in one. -/
theorem transmitted_twice (r : Nat) (f g : ResourceData → ResourceData) (n m : Nat) (new more : List Event)
    (e : Endpoint) :
    transmitted r g m more (transmitted r f n new e) = transmitted r (fun d => g (f d)) (n + m) (new ++ more) e := by
  unfold transmitted Endpoint.withResource
  simp only [Function.update_self, Function.update_idem, Nat.add_assoc, List.append_assoc]

theorem transmitted_none (r : Nat) (e : Endpoint) : transmitted r id 0 [] e = e := by
  unfold transmitted Endpoint.withResource
  simp only [id, Function.update_eq_self, List.append_nil, Nat.add_zero]

/-- A part that is taken is marked, and counted if it was not out. -/
theorem sendPart_run (hi : i < (u.resources r).parts.length) (hopen : u.link.status ≠ .closed)
    (htaken : env.transmits u.draws = true) :
    ∃ new, sendPart env r i u = (.value (), transmitted r (markSent · i) 1 new u) := by
  have hpart := List.getElem?_eq_getElem hi
  have hout : ∀ p : Packet, outbound env p u
      = (.value true, { u with draws := u.draws + 1, events := u.events ++ [.sent p] }) := fun p => by
    unfold outbound
    rw [Prog.get_bind_run, Prog.modify_bind_run, Prog.when_of htaken, Prog.modify_bind_run, htaken]
    rfl
  refine ⟨[.sent (u.resources r).parts[i].packet], ?_⟩
  unfold sendPart
  rw [Prog.get_bind_run, hpart]
  dsimp only
  have hmark : markSent (u.resources r) i
      = { u.resources r with
          parts := (u.resources r).parts.set i { (u.resources r).parts[i] with sent := true }
          sentParts := if (u.resources r).parts[i].sent then (u.resources r).sentParts
            else (u.resources r).sentParts + 1 } := by
    unfold markSent
    rw [hpart]
  unfold transmitted Endpoint.withResource
  dsimp only
  rw [hmark]
  by_cases hsent : (u.resources r).parts[i].sent = true
  · rw [if_pos hsent, if_pos hsent, Prog.bind_value (hout _), Prog.modify_run]
  · rw [if_neg hsent, if_neg hsent, Prog.bind_value (Prog.require_run_of hopen _ _), Prog.bind_value (hout _),
      Prog.modify_run]

/-- The loop over the search range, where every part is taken that is asked for. -/
theorem sendParts_run (env : Env) (p : Nat → Prop) [DecidablePred p]
    (hbound : ∀ i ∈ indices, i < (u.resources r).parts.length)
    (hopen : u.link.status ≠ .closed)
    (htaken : ∀ j < (indices.filter p).length, env.transmits (u.draws + j) = true) :
    ∃ new, Prog.forEach indices
        (fun i => Prog.when (p i) (Prog.catching (sendPart env r i) fun _ => giveUp env r)) u
      = (.value (), transmitted r ((indices.filter p).foldl markSent) (indices.filter p).length new u) := by
  induction indices generalizing u with
  | nil => exact ⟨[], congrArg (Prod.mk _) (transmitted_none r u).symm⟩
  | cons i indices ih =>
    have hrest : ∀ j ∈ indices, j < (u.resources r).parts.length := fun j hj => hbound j (List.mem_cons_of_mem i hj)
    by_cases hp : p i
    · rw [List.filter_cons, if_pos (decide_eq_true hp)] at htaken ⊢
      obtain ⟨new, hsend⟩ := sendPart_run (hbound i List.mem_cons_self) hopen (htaken 0 (Nat.zero_lt_succ _))
      obtain ⟨_, _, hone, hlength⟩ := markSent_writes (u.resources r) i
      obtain ⟨more, hloop⟩ := ih (u := transmitted r (markSent · i) 1 new u)
        (fun j hj => by rw [transmitted_resource, hone, hlength]; exact hrest j hj) hopen fun j hj => by
          have hnext := htaken (j + 1) (Nat.succ_lt_succ hj)
          rw [← Nat.add_assoc, Nat.add_right_comm] at hnext
          exact hnext
      refine ⟨new ++ more, ?_⟩
      show (Prog.when (p i) _ >>= fun _ => Prog.forEach indices _) u = _
      have hcaught : Prog.catching (sendPart env r i) (fun _ => giveUp env r) u
          = (.value (), transmitted r (markSent · i) 1 new u) := by
        unfold Prog.catching
        rw [hsend]
      rw [Prog.when_of hp, Prog.bind_value hcaught, hloop, transmitted_twice, List.length_cons, Nat.add_comm]
      rfl
    · rw [List.filter_cons, if_neg fun h => hp (of_decide_eq_true h)] at htaken ⊢
      obtain ⟨new, hloop⟩ := ih hrest hopen htaken
      refine ⟨new, ?_⟩
      show (Prog.when (p i) _ >>= fun _ => Prog.forEach indices _) u = _
      rw [Prog.when_of_not hp]
      exact hloop

/-! ## Answering a request -/

/-- The parts that a request asks for, of those that are looked at. -/
def askedParts (d : ResourceData) (requestData : Bytes) : List Nat :=
  let pad := if requestData.byte 0 = hashmapIsExhausted then 1 + maphashLen else 1
  (searchRange d).filter fun i => mapHashAt d.hashmap i ∈ mapHashes (requestData.mid (pad + hashBytes))

/-- The record behind the parts of a request that are all taken. -/
def partsSent (d : ResourceData) (requestData : Bytes) : ResourceData :=
  (askedParts d requestData).foldl markSent { d with status := .transferring, retriesLeft := maxRetries }

/-- The payload that answers a request for more of the hashmap. -/
def hashmapUpdateFor (env : Env) (d : ResourceData) (part : Nat) : Bytes :=
  let segment := part / hashmapMaxLen
  let hashmapStart := segment * hashmapMaxLen
  let hashmapEnd := min ((segment + 1) * hashmapMaxLen) d.parts.length
  d.hash ++ env.encode [.arr 2, .int (UInt32.ofNat segment).toNat,
    .bin (d.hashmap.midLen (hashmapStart * maphashLen) ((hashmapEnd - hashmapStart) * maphashLen))]

/-- Nothing follows a program that does not come back. -/
theorem bind_of_no_value {α β : Type} {m : Prog String Endpoint α} (h : ∀ a t, m s ≠ (.value a, t))
    (g : α → Prog String Endpoint β) : ((m >>= g) s).2 = (m s).2 ∧ ∀ b t, (m >>= g) s ≠ (.value b, t) := by
  rw [Prog.bind_run]
  rcases hrun : m s with ⟨a | _ | _ | _, t⟩
  case value => exact absurd hrun (h a t)
  all_goals exact ⟨rfl, fun b t h => nomatch h⟩

/-- Giving up always throws, so what stands behind it is not reached. -/
theorem giveUp_no_value (env : Env) (r : Nat) (s : Endpoint) (a : Unit) (t : Endpoint) :
    giveUp env r s ≠ (.value a, t) := by
  unfold giveUp
  rw [Prog.bind_run]
  rcases cancel env r s with ⟨b | _ | _ | _, u⟩ <;> exact fun h => nomatch h

/-- What `send` does over a link that is open is decided by whether the packet can be packed. -/
theorem send_of_packs {context : ContextType} {data : Bytes} {p : Packet} (hopen : s.link.status ≠ .closed)
    (hp : packFor env s .data context data = .ok p) :
    ∃ t, send env .data context data s = (.value p, t) ∧ t.resources = s.resources := by
  obtain ⟨e, token, -, hrun⟩ | ⟨q, token, hq, -, -, hrun⟩ := send_cases env .data context data s
  · have hvalue : ∃ t, send env .data context data s = (.value p, t) := by
      unfold send
      rw [Prog.get_bind_run, Prog.bind_value (Prog.require_run_of hopen _ _), Prog.modify_bind_run, hp,
        Prog.bind_value (Prog.ofExcept_ok_run _ _), Prog.modify_bind_run]
      unfold outbound
      by_cases htaken : env.transmits (s.draws + 1) = true <;>
        simp [Prog.bind_run, Prog.when, Endpoint.note, Endpoint.withLink, htaken]
    obtain ⟨t, hvalue⟩ := hvalue
    cases hrun.symm.trans hvalue
  · cases hp.symm.trans hq
    exact ⟨_, hrun, rfl⟩

/-- What cannot be packed is not sent, and the resources are as they were. -/
theorem send_of_not_packs {context : ContextType} {data : Bytes} {message : String}
    (hp : packFor env s .data context data = .error message) :
    ∃ e t, send env .data context data s = (.thrown e, t) ∧ t.resources = s.resources ∧ t.created = s.created := by
  obtain ⟨e, token, -, hrun⟩ | ⟨q, token, hq, -, -, -⟩ := send_cases env .data context data s
  · exact ⟨e, _, hrun, rfl, rfl⟩
  · cases hp.symm.trans hq

/-- The record behind a request for more of the hashmap. -/
def lookedUp (lastMapHash : Bytes) (d : ResourceData) : ResourceData :=
  { d with receiverMinConsecutiveHeight := max ((partIndex d lastMapHash : Int) - 1 - windowMaxGlobal) 0 }

/-- The request is in sequence, and the answer can be packed. -/
def Answerable (env : Env) (u : Endpoint) (r : Nat) (lastMapHash : Bytes) : Prop :=
  let part := partIndex (u.resources r) lastMapHash
  part % hashmapMaxLen = 0
    ∧ ∃ p, packFor env u .data ContextType.resourceHmu (hashmapUpdateFor env (u.resources r) part) = .ok p

/-- On an open link a hashmap update that can be answered goes out, and the resource notes how far it has looked. -/
theorem sendHashmapUpdate_answers {lastMapHash : Bytes} (hopen : u.link.status ≠ .closed)
    (hanswerable : Answerable env u r lastMapHash) :
    ∃ v, sendHashmapUpdate env r lastMapHash u = (.value (), v)
      ∧ v.resources = (u.withResource r (lookedUp lastMapHash)).resources := by
  obtain ⟨hpart, p, hp⟩ := hanswerable
  obtain ⟨w, hw⟩ : ∃ w, w = u.withResource r (lookedUp lastMapHash) := ⟨_, rfl⟩
  have hopen' : w.link.status ≠ .closed := hw ▸ hopen
  have hp' : packFor env w .data ContextType.resourceHmu
      (hashmapUpdateFor env (u.resources r) (partIndex (u.resources r) lastMapHash)) = .ok p := hw ▸ hp
  obtain ⟨v, hsend, hv⟩ := send_of_packs hopen' hp'
  refine ⟨v, ?_, hv.trans (hw ▸ rfl)⟩
  have hlooked : (u.withResource r fun d => { d with
      receiverMinConsecutiveHeight :=
        max ((partIndex (u.resources r) lastMapHash : Int) - 1 - windowMaxGlobal) 0 }) = w := hw ▸ rfl
  unfold sendHashmapUpdate
  rw [Prog.get_bind_run]
  dsimp only
  rw [Prog.modify_bind_run, hlooked, Prog.when_of_not (not_not.mpr hpart)]
  show Prog.catching _ _ w = _
  unfold Prog.catching
  unfold hashmapUpdateFor at hsend
  dsimp only at hsend
  rw [Prog.bind_value hsend]
  rfl

/-- One that cannot be answered ends the request for parts where it stands. -/
theorem sendHashmapUpdate_ends {β : Type} {lastMapHash : Bytes} (h : ¬ Answerable env u r lastMapHash)
    (g : Unit → Prog String Endpoint β) :
    Spares env (u.withResource r (lookedUp lastMapHash)) ((sendHashmapUpdate env r lastMapHash >>= g) u).2 := by
  obtain ⟨w, hw⟩ : ∃ w, w = u.withResource r (lookedUp lastMapHash) := ⟨_, rfl⟩
  have hlooked : (u.withResource r fun d => { d with
      receiverMinConsecutiveHeight :=
        max ((partIndex (u.resources r) lastMapHash : Int) - 1 - windowMaxGlobal) 0 }) = w := hw ▸ rfl
  have hends : (∀ a t, sendHashmapUpdate env r lastMapHash u ≠ (.value a, t))
      ∧ Spares env w (sendHashmapUpdate env r lastMapHash u).2 := by
    unfold sendHashmapUpdate
    rw [Prog.get_bind_run]
    dsimp only
    rw [Prog.modify_bind_run, hlooked]
    by_cases hpart : partIndex (u.resources r) lastMapHash % hashmapMaxLen = 0
    · rw [Prog.when_of_not (not_not.mpr hpart), Prog.pure_bind_run]
      cases hp : packFor env w .data ContextType.resourceHmu
        (hashmapUpdateFor env (u.resources r) (partIndex (u.resources r) lastMapHash)) with
      | ok p =>
        rw [hw] at hp
        exact absurd ⟨hpart, p, hp⟩ h
      | error message =>
        obtain ⟨e, v, hsend, hresources, hcreated⟩ := send_of_not_packs hp
        unfold hashmapUpdateFor at hsend
        dsimp only at hsend
        unfold Prog.catching
        rw [Prog.bind_thrown hsend]
        exact ⟨giveUp_no_value env r v, (Spares.of_same hresources hcreated).trans (giveUp_spares env r v)⟩
    · rw [Prog.when_of hpart]
      obtain ⟨hstate, hnone⟩ := bind_of_no_value (giveUp_no_value env r w) fun _ => Prog.catching
        (do let _ ← send env .data ContextType.resourceHmu
              (hashmapUpdateFor env (u.resources r) (partIndex (u.resources r) lastMapHash)))
        fun _ => giveUp env r
      exact ⟨hnone, hstate ▸ giveUp_spares env r w⟩
  rw [(bind_of_no_value hends.1 g).1, ← hw]
  exact hends.2

/-- The request is for more of the hashmap, and cannot be answered once its parts are out. -/
def EndsTransfer (env : Env) (s : Endpoint) (r : Nat) (requestData : Bytes) : Prop :=
  requestData.byte 0 = hashmapIsExhausted
    ∧ ¬ Answerable env { s with draws := s.draws + (askedParts (s.resources r) requestData).length } r
      (requestData.midLen 1 maphashLen)

/-- The interfaces take every part that the request asks for. -/
def PartsTaken (env : Env) (s : Endpoint) (r : Nat) (requestData : Bytes) : Prop :=
  ∀ j < (askedParts (s.resources r) requestData).length, env.transmits (s.draws + j) = true

/-- The record behind a request that is answered. -/
def answered (d : ResourceData) (requestData : Bytes) : ResourceData :=
  let d := partsSent d requestData
  if requestData.byte 0 = hashmapIsExhausted then lookedUp (requestData.midLen 1 maphashLen) d else d

/-- What is looked up in the hashmap does not depend on which parts are out. -/
theorem partIndex_partsSent (d : ResourceData) (requestData lastMapHash : Bytes) :
    partIndex (partsSent d requestData) lastMapHash = partIndex d lastMapHash := by
  obtain ⟨parts, sentParts, hsent, hlength⟩ := markAll_writes (askedParts d requestData)
    { d with status := .transferring, retriesLeft := maxRetries }
  unfold partsSent
  rw [hsent]
  unfold partIndex searchRange
  dsimp only at hlength ⊢
  rw [hlength]

/-- Which segment is sent does not depend on which parts were. -/
theorem hashmapUpdateFor_partsSent (d : ResourceData) (requestData : Bytes) (part : Nat) :
    hashmapUpdateFor env (partsSent d requestData) part = hashmapUpdateFor env d part := by
  obtain ⟨parts, sentParts, hsent, hlength⟩ := markAll_writes (askedParts d requestData)
    { d with status := .transferring, retriesLeft := maxRetries }
  unfold partsSent
  rw [hsent]
  unfold hashmapUpdateFor
  dsimp only at hlength ⊢
  rw [hlength]

/-- A request that names a hash is long enough to hold it. -/
theorem length_of_requestedHash {requestData : Bytes} (h : requestedHash requestData ≠ []) :
    requestData ≠ [] ∧ ¬ requestData.length
      < (if requestData.byte 0 = hashmapIsExhausted then 1 + maphashLen else 1) + hashBytes := by
  have hne : requestData ≠ [] := by
    rintro rfl
    exact h rfl
  refine ⟨hne, fun hshort => h ?_⟩
  unfold requestedHash
  by_cases hmore : requestData.byte 0 = hashmapIsExhausted
  · rw [if_pos hmore] at hshort
    rw [if_pos ⟨hmore, hne⟩, if_neg (Nat.not_le.mpr hshort)]
  · rw [if_neg hmore] at hshort
    rw [if_neg fun hboth => hmore hboth.1, if_neg (Nat.not_le.mpr hshort)]

/-- The check behind a request. -/
def checkSent (d : ResourceData) : ResourceData :=
  if d.sentParts.toNat = d.parts.length then { d with status := .awaitingProof, retriesLeft := 3 } else d

/-- A request whose parts are all taken leaves the answered record, and waits for the proof if everything is counted.
One that ends the transfer leaves it aside. -/
theorem request_answers {requestData : Bytes} (hr : r < s.created) (hopen : s.link.status ≠ .closed)
    (hstatus : (s.resources r).status ≠ .failed) (hhash : requestedHash requestData ≠ [])
    (htaken : PartsTaken env s r requestData) :
    let d := answered (s.resources r) requestData
    let d' := (request env r requestData s).2.resources r
    (EndsTransfer env s r requestData → Aside d d')
      ∧ (¬ EndsTransfer env s r requestData → d' = checkSent d) := by
  obtain ⟨hdata, hlong⟩ := length_of_requestedHash hhash
  obtain ⟨u, hu⟩ : ∃ u, u = s.withResource r fun d => { d with status := .transferring, retriesLeft := maxRetries } :=
    ⟨_, rfl⟩
  have hrecord : u.resources r = { s.resources r with status := .transferring, retriesLeft := maxRetries } := by
    rw [hu, Endpoint.withResource_self]
  have hdraws : u.draws = s.draws := by rw [hu, Endpoint.withResource]
  have hlink : u.link = s.link := by rw [hu, Endpoint.withResource]
  have hbound : ∀ i ∈ searchRange (s.resources r), i < (u.resources r).parts.length := fun i hi => by
    have hrange := List.mem_range'_1.mp hi
    rw [hrecord]
    dsimp only
    omega
  obtain ⟨new, hloop⟩ := sendParts_run env
    (fun i => mapHashAt (s.resources r).hashmap i ∈ mapHashes
      (requestData.mid ((if requestData.byte 0 = hashmapIsExhausted then 1 + maphashLen else 1) + hashBytes)))
    hbound (hlink ▸ hopen) fun j hj => hdraws ▸ htaken j hj
  obtain ⟨w, hw⟩ : ∃ w, w = transmitted r ((askedParts (s.resources r) requestData).foldl markSent)
      (askedParts (s.resources r) requestData).length new u := ⟨_, rfl⟩
  have hsent : w.resources r = partsSent (s.resources r) requestData := by
    rw [hw, transmitted_resource, hrecord]
    rfl
  have hrun : (request env r requestData s).2
      = ((Prog.when (requestData.byte 0 = hashmapIsExhausted)
          (sendHashmapUpdate env r (requestData.midLen 1 maphashLen)) >>= fun _ =>
          Prog.modify (.withResource r checkSent)) w).2 := by
    unfold request
    rw [Prog.call_state, Prog.get_bind_run, Prog.when_of_not (by rintro (h | h); exacts [hstatus h, hdata h]),
      Prog.pure_bind_run, Prog.modify_bind_run, ← hu]
    dsimp only
    rw [Prog.when_of_not hlong, Prog.pure_bind_run, Prog.bind_value hloop]
    rw [hw]
    rfl
  rw [hrun]
  by_cases hmore : requestData.byte 0 = hashmapIsExhausted
  case neg =>
    unfold answered
    rw [if_neg hmore, Prog.when_of_not hmore, Prog.pure_bind_run, Prog.modify_run]
    refine ⟨fun h => absurd h.1 hmore, fun _ => ?_⟩
    rw [Endpoint.withResource_self, hsent]
  case pos =>
    unfold answered
    rw [if_pos hmore, Prog.when_of hmore, ← hsent]
    have hanswerable : EndsTransfer env s r requestData ↔ ¬ Answerable env w r (requestData.midLen 1 maphashLen) := by
      have hpack : ∀ data, packFor env w .data ContextType.resourceHmu data
          = packFor env { s with draws := s.draws + (askedParts (s.resources r) requestData).length } .data
            ContextType.resourceHmu data := fun data => by
        unfold packFor
        rw [hw, ← hlink, ← hdraws]
        rfl
      unfold EndsTransfer Answerable
      dsimp only
      simp only [hmore, true_and, hpack, hsent, partIndex_partsSent, hashmapUpdateFor_partsSent]
    rw [hanswerable, not_not]
    refine ⟨fun hends => ?_, fun hgoes => ?_⟩
    · have hspares := sendHashmapUpdate_ends hends fun _ => Prog.modify (.withResource r checkSent)
      have haside := hspares.old r (by rw [hw, hu]; exact hr)
      rwa [Endpoint.withResource_self] at haside
    · obtain ⟨v, hvalue, hv⟩ := sendHashmapUpdate_answers (by rw [hw]; exact hlink ▸ hopen) hgoes
      rw [Prog.bind_value hvalue, Prog.modify_run, Endpoint.withResource_self, hv, Endpoint.withResource_self]

/-- The count of what was sent is right behind an answered request. -/
theorem Counted.answered (hd : Counted d) (requestData : Bytes) : Counted (answered d requestData) := by
  have hstarted : Counted { d with status := .transferring, retriesLeft := maxRetries } := ⟨hd.countable, hd.sentParts⟩
  have hsent : Counted (partsSent d requestData) := hstarted.markAll _
  unfold Resource.answered
  dsimp only
  split
  · exact ⟨hsent.countable, hsent.sentParts⟩
  · exact hsent

/-- Sent are those that were before and those the request asks for. -/
theorem answered_sent (d : ResourceData) (requestData : Bytes) (i : Nat) :
    Sent (answered d requestData) i ↔ Sent d i ∨ i ∈ askedParts d requestData ∧ i < d.parts.length := by
  have hsent := markAll_sent (askedParts d requestData) { d with status := .transferring, retriesLeft := maxRetries } i
  unfold answered
  dsimp only
  split
  · exact hsent
  · exact hsent

/-- Behind an answered request the resource is in transfer. -/
theorem answered_status (d : ResourceData) (requestData : Bytes) : (answered d requestData).status = .transferring := by
  obtain ⟨_, _, hsent, -⟩ := markAll_writes (askedParts d requestData)
    { d with status := .transferring, retriesLeft := maxRetries }
  unfold answered partsSent
  rw [hsent]
  dsimp only
  split <;> rfl

theorem answered_length (d : ResourceData) (requestData : Bytes) :
    (answered d requestData).parts.length = d.parts.length := by
  obtain ⟨_, _, hsent, hlength⟩ := markAll_writes (askedParts d requestData)
    { d with status := .transferring, retriesLeft := maxRetries }
  unfold answered partsSent
  rw [hsent]
  dsimp only
  split
  · exact hlength
  · exact hlength

/-! ## Requests that arrive -/

/-- A packet has come in. -/
def woken (s : Endpoint) : Endpoint :=
  s.withLink fun l => { l with status := if l.status = .stale then .active else l.status }

/-- Waking a link up does not close it. -/
theorem woken_open (h : s.link.status ≠ .closed) : (woken s).link.status ≠ .closed := by
  unfold woken Endpoint.withLink
  dsimp only
  split
  · exact Status.noConfusion
  · exact h

/-- The request that an input brings to a resource, and the endpoint that has noted its packet. -/
def receivedRequest (env : Env) (s : Endpoint) : Input → Option (Nat × Bytes × Endpoint)
  | .packet packet receivingInterface _ =>
    if s.link.status ≠ .closed ∧ Transport.sameInterface receivingInterface s.link.attachedInterface
        ∧ packet.packetType = .data ∧ packet.context = ContextType.resourceReq then
      match decrypt env packet.data (woken s) with
      | (.value plaintext, t) =>
        let hash := requestedHash plaintext
        let packetHash := getHash env.fullHash packet
        (t.outgoingResources.find? fun r => (t.resources r).hash = hash).bind fun r =>
          if plaintext ≠ [] ∧ hash ≠ [] ∧ packetHash ∉ (t.resources r).reqHashlist then
            some (r, plaintext, t.withResource r fun d => { d with reqHashlist := d.reqHashlist ++ [packetHash] })
          else none
      | _ => none
    else none
  | _ => none

/-- A packet in the context of a request for parts is read as one. -/
theorem receiveData_resourceReq {packet : Packet} (h : packet.context = ContextType.resourceReq) (rates : Nat → Rates) :
    receiveData env packet rates = withPlaintext env packet (receiveResourceRequest env packet) := by
  unfold receiveData
  rw [h]
  rfl

/-- A packet that carries a request is handed to `receiveResourceRequest`. -/
theorem receive_resourceReq {packet : Packet} {receivingInterface : Option Transport.Interface}
    (hopen : s.link.status ≠ .closed) (hinterface : Transport.sameInterface receivingInterface s.link.attachedInterface)
    (htype : packet.packetType = .data) (hcontext : packet.context = ContextType.resourceReq) (rates : Nat → Rates) :
    receive env packet receivingInterface rates s
      = withPlaintext env packet (receiveResourceRequest env packet) (woken s) := by
  have hkeepalive : ¬ (s.link.initiator ∧ packet.context = ContextType.keepalive ∧ packet.data = [0xFF]) := fun h =>
    absurd (hcontext.symm.trans h.2.1) (by decide)
  unfold receive
  rw [Prog.get_bind_run, Prog.when_of ⟨hopen, hkeepalive, hinterface⟩, Prog.modify_bind_run, htype,
    ← receiveData_resourceReq hcontext rates]
  rfl

/-- What is found out about a request that is received. -/
theorem step_receivedRequest {input : Input} {requestData : Bytes}
    (h : receivedRequest env s input = some (r, requestData, t)) :
    step env s input = (request env r requestData t).2 ∧ r ∈ s.outgoingResources ∧ requestedHash requestData ≠ []
      ∧ t.link.status ≠ .closed ∧ t.created = s.created
      ∧ (∃ reqHashlist, t.resources r = { s.resources r with reqHashlist })
      ∧ ∀ q, q ≠ r → t.resources q = s.resources q := by
  cases input with
  | packet packet receivingInterface rates =>
    unfold receivedRequest at h
    dsimp only at h
    split at h
    case isFalse => cases h
    case isTrue hreceived =>
      obtain ⟨hopen, hinterface, htype, hcontext⟩ := hreceived
      obtain ⟨u, hu⟩ : ∃ u, u = woken s := ⟨_, rfl⟩
      have hopen' : u.link.status ≠ .closed := hu ▸ woken_open hopen
      have hresources : u.resources = s.resources := hu ▸ rfl
      have hcreated : u.created = s.created := hu ▸ rfl
      have hout : u.outgoingResources = s.outgoingResources := hu ▸ rfl
      obtain ⟨plaintext, v, hquiet, hrun⟩ := decrypt_run env packet.data u
      rw [← hu, hrun] at h
      dsimp only at h
      obtain ⟨q, hfound, hq⟩ := Option.bind_eq_some_iff.mp h
      split at hq
      case isFalse => cases hq
      case isTrue hnew =>
        cases hq
        have hmem := List.mem_of_find?_eq_some hfound
        obtain ⟨token, draws, new, rfl⟩ := hquiet.same
        have hstep : step env s (.packet packet receivingInterface rates) = _ :=
          congrArg Prod.snd (receive_resourceReq hopen hinterface htype hcontext rates)
        rw [← hu] at hstep
        refine ⟨?_, ?_, hnew.2.1, hopen', hcreated,
          ⟨(s.resources r).reqHashlist ++ [getHash env.fullHash packet], ?_⟩, fun p hp => ?_⟩
        · rw [hstep]
          unfold withPlaintext
          rw [Prog.bind_value hrun, Prog.when_of hnew.1]
          unfold receiveResourceRequest
          rw [Prog.get_bind_run]
          dsimp only
          rw [Prog.when_of hnew.2.1, hfound]
          dsimp only
          rw [Prog.when_of hnew.2.2, Prog.modify_bind_run]
        · rw [← hout]
          exact hmem
        · rw [Endpoint.withResource_self, ← hresources]
        · rw [Endpoint.withResource_of_ne hp, ← hresources]
  | _ => cases h

/-- A request that is not for any resource, or that was answered before, does not change the records. -/
theorem receiveResourceRequest_none {packet : Packet} {plaintext : Bytes}
    (h : ∀ q, s.outgoingResources.find? (fun r => (s.resources r).hash = requestedHash plaintext) = some q →
      ¬ (requestedHash plaintext ≠ [] ∧ getHash env.fullHash packet ∉ (s.resources q).reqHashlist)) :
    (receiveResourceRequest env packet plaintext s).2 = s := by
  unfold receiveResourceRequest
  rw [Prog.get_bind_run]
  dsimp only
  by_cases hhash : requestedHash plaintext ≠ []
  · rw [Prog.when_of hhash]
    cases hfound : s.outgoingResources.find? fun r => (s.resources r).hash = requestedHash plaintext with
    | none => rfl
    | some q =>
      dsimp only
      rw [Prog.when_of_not fun hnew => h q hfound ⟨hhash, hnew⟩]
      rfl
  · rw [Prog.when_of_not hhash]
    rfl

/-- An input that does not bring a request to a resource spares the records of the initiators. -/
theorem step_aside {input : Input} (hc : s.Clean) (hnone : receivedRequest env s input = none) (hr : r < s.created)
    (hside : (s.resources r).initiator = true) : Aside (s.resources r) ((step env s input).resources r) := by
  obtain haside | ⟨i, hi, hreaction⟩ := (handle_reacts env input hc).old r hr
  · exact haside
  cases hreaction with
  | part _ hreceiver _ => cases hreceiver.symm.trans hside
  | hashmap _ hreceiver _ => cases hreceiver.symm.trans hside
  | late _ hreceiver _ => cases hreceiver.symm.trans hside
  | asked _ _ =>
    cases hi with
    | @asked packet receivingInterface rates _ hcontext hmem =>
      suffices hspares : Spares env s (step env s (.packet packet receivingInterface rates)) from hspares.old r hr
      unfold receivedRequest at hnone
      dsimp only at hnone
      split at hnone
      case isTrue hreceived =>
        obtain ⟨hopen, hinterface, htype, -⟩ := hreceived
        have hstep : step env s (.packet packet receivingInterface rates) = _ :=
          congrArg Prod.snd (receive_resourceReq hopen hinterface htype hcontext rates)
        obtain ⟨u, hu⟩ : ∃ u, u = woken s := ⟨_, rfl⟩
        have hbefore : Spares env s u := hu ▸ .of_same rfl rfl
        obtain ⟨plaintext, v, hquiet, hrun⟩ := decrypt_run env packet.data u
        rw [← hu, hrun] at hnone
        dsimp only at hnone
        rw [hstep, ← hu]
        unfold withPlaintext
        rw [Prog.bind_value hrun]
        have hall := hbefore.trans (.of_quiet hquiet)
        by_cases hplaintext : plaintext ≠ []
        · rw [Prog.when_of hplaintext, receiveResourceRequest_none]
          · exact hall
          · intro q hq hnew
            rw [hq, Option.bind_some, if_pos ⟨hplaintext, hnew⟩] at hnone
            cases hnone
        · rw [Prog.when_of_not hplaintext]
          exact hall
      case isFalse hreceived =>
        show Spares env s (receive env packet receivingInterface rates s).2
        unfold receive
        rw [Prog.get_bind_run]
        unfold Prog.when
        split
        case isFalse => exact .refl s
        case isTrue hgoes =>
          rw [Prog.modify_bind_run]
          have hbefore : Spares env s (woken s) := .of_same rfl rfl
          cases htype : packet.packetType with
          | data => exact absurd ⟨hgoes.1, hgoes.2.2, htype, hcontext⟩ hreceived
          | proof => exact hbefore.trans (receiveProof_spares env packet _)
          | announce => exact hbefore
          | linkrequest => exact hbefore

/-! ## Runs -/

/-- The interfaces take every part that is asked for, and once everything is out no request ends the transfer. -/
def Delivered (env : Env) (s : Endpoint) (input : Input) : Prop :=
  ∀ r requestData t, receivedRequest env s input = some (r, requestData, t) →
    PartsTaken env t r requestData
      ∧ ((∀ i < (t.resources r).parts.length, Sent (t.resources r) i ∨ i ∈ askedParts (t.resources r) requestData) →
        ¬ EndsTransfer env t r requestData)

/-- An interface took the part, at some time of the run. -/
def Transmitted (env : Env) (e : Endpoint) (inputs : List Input) (r i : Nat) : Prop :=
  ∃ k, r < (run env e (inputs.take k)).created ∧ Sent ((run env e (inputs.take k)).resources r) i

/-- The parts of an initiator are counted, and it waits for the proof only if they are all out. -/
structure Awaits (d : ResourceData) : Prop where
  counted : Counted d
  full : d.status = .awaitingProof → d.sentParts.toNat = d.parts.length

/-- A change beside the record neither begins nor ends the waiting for the proof. -/
theorem Awaits.aside (hd : Awaits d) (h : Aside d d') : Awaits d' := by
  obtain ⟨_, _, _, _, _, _, hstatus, rfl⟩ := h
  exact ⟨⟨hd.counted.countable, hd.counted.sentParts⟩, fun h => hd.full (hstatus h)⟩

/-- A change beside the record sends no part. -/
theorem Aside.sent (h : Aside d d') : Sent d' i ↔ Sent d i := by
  obtain ⟨_, _, _, _, _, _, -, rfl⟩ := h
  rfl

/-- A resource of which nothing was sent does not wait for a proof yet. -/
theorem Unsent.awaits (hd : Unsent d) : Awaits d := by
  refine ⟨⟨hd.countable, ?_⟩, fun h => absurd h hd.status⟩
  rw [hd.sentParts, List.countP_eq_zero.mpr fun part hpart => by rw [hd.unsent part hpart]; exact Bool.false_ne_true]
  rfl

/-- What an initiator is asked for goes out, nothing that is out is lost, and it waits for the proof if that is all. -/
theorem step_received {input : Input} {requestData : Bytes} (hc : s.Clean)
    (hreceived : receivedRequest env s input = some (r, requestData, t)) (hdelivered : Delivered env s input)
    (hd : Awaits (s.resources r)) :
    let d' := (step env s input).resources r
    Awaits d' ∧ (∀ i, Sent (s.resources r) i → Sent d' i)
      ∧ ((∀ i < d'.parts.length, Sent d' i) → d'.status = .awaitingProof) := by
  obtain ⟨hstep, hmem, hhash, hopen, hcreated, ⟨reqHashlist, hnoted⟩, -⟩ := step_receivedRequest hreceived
  obtain ⟨hmade, -, hactive⟩ := hc.outgoing r hmem
  obtain ⟨htaken, hsequence⟩ := hdelivered r requestData t hreceived
  have hstatus : (t.resources r).status ≠ .failed := by
    rw [hnoted]
    intro hfailed
    rcases hactive with h | h | h <;> cases h.symm.trans hfailed
  have hcounted : Counted (answered (t.resources r) requestData) :=
    Counted.answered (by rw [hnoted]; exact ⟨hd.counted.countable, hd.counted.sentParts⟩) requestData
  have hkept : ∀ i, Sent (s.resources r) i → Sent (answered (t.resources r) requestData) i := fun i hi => by
    rw [answered_sent, hnoted]
    exact .inl hi
  have hall : (∀ i < (answered (t.resources r) requestData).parts.length,
      Sent (answered (t.resources r) requestData) i) → ¬ EndsTransfer env t r requestData := by
    refine fun hall => hsequence fun i hi => ?_
    have hout := hall i (by rw [answered_length]; exact hi)
    rw [answered_sent] at hout
    exact hout.imp_right And.left
  have htransferring : (answered (t.resources r) requestData).status ≠ .awaitingProof := by
    rw [answered_status]
    exact ResourceStatus.noConfusion
  obtain ⟨hends, hgoes⟩ := request_answers (hcreated ▸ hmade) hopen hstatus hhash htaken
  rw [← hstep] at hends hgoes
  by_cases hend : EndsTransfer env t r requestData
  · have haside := hends hend
    refine ⟨Awaits.aside ⟨hcounted, fun h => absurd h htransferring⟩ haside, fun i hi => haside.sent.mpr (hkept i hi),
      fun hsent => absurd hend (hall fun i hi => haside.sent.mp (hsent i ?_))⟩
    obtain ⟨_, _, _, _, _, _, -, hd'⟩ := haside
    rw [hd']
    exact hi
  · dsimp only
    rw [hgoes hend]
    unfold checkSent
    split
    case isTrue hfull => exact ⟨⟨⟨hcounted.countable, hcounted.sentParts⟩, fun _ => hfull⟩, hkept, fun _ => rfl⟩
    case isFalse hmissing =>
      refine ⟨⟨hcounted, fun h => absurd h htransferring⟩, hkept, fun hsent => ?_⟩
      exact absurd (hcounted.full_iff.mpr hsent) hmissing

/-- An input does not lose what is out. -/
theorem step_awaits {input : Input} (hc : s.Clean) (hdelivered : Delivered env s input) (hr : r < s.created)
    (hside : (s.resources r).initiator = true) (hd : Awaits (s.resources r)) :
    let d' := (step env s input).resources r
    d'.initiator = true ∧ Awaits d' ∧ ∀ i, Sent (s.resources r) i → Sent d' i := by
  have haside : Aside (s.resources r) ((step env s input).resources r) →
      ((step env s input).resources r).initiator = true ∧ Awaits ((step env s input).resources r)
        ∧ ∀ i, Sent (s.resources r) i → Sent ((step env s input).resources r) i := fun h =>
    ⟨h.initiator.trans hside, hd.aside h, fun i hi => h.sent.mpr hi⟩
  cases hreceived : receivedRequest env s input with
  | none => exact haside (step_aside hc hreceived hr hside)
  | some received =>
    obtain ⟨q, requestData, t⟩ := received
    by_cases hqr : r = q
    · subst hqr
      obtain ⟨hd', hsent, -⟩ := step_received hc hreceived hdelivered hd
      refine ⟨?_, hd', hsent⟩
      obtain h | ⟨i, -, h⟩ := (handle_reacts env input hc).old r hr
      · exact h.initiator.trans hside
      · exact h.initiator.trans hside
    · obtain ⟨hstep, -, -, -, hcreated, -, hothers⟩ := step_receivedRequest hreceived
      have hserves := (request_serves env q requestData t).others r (hcreated ▸ hr) hqr
      rw [← hstep, hothers r hqr] at hserves
      exact haside hserves

/-- A part was taken in a run that is longer by one input if it was taken before, or is out now. -/
theorem transmitted_append {e : Endpoint} {inputs : List Input} {input : Input}
    (h : Transmitted env e (inputs ++ [input]) r i) :
    Transmitted env e inputs r i
      ∨ Sent ((run env e (inputs ++ [input])).resources r) i := by
  obtain ⟨k, hmade, hsent⟩ := h
  by_cases hk : k ≤ inputs.length
  · rw [List.take_append_of_le_length hk] at hmade hsent
    exact .inl ⟨k, hmade, hsent⟩
  · rw [List.take_of_length_le (by rw [List.length_append, List.length_singleton]; omega)] at hsent
    exact .inr hsent

/-- The initiators of a run, and what an interface took of their parts. -/
structure Outgoing (env : Env) (e : Endpoint) (inputs : List Input) (r : Nat) : Prop where
  awaits : Awaits ((run env e inputs).resources r)
  sent : ∀ i, Transmitted env e inputs r i → Sent ((run env e inputs).resources r) i

/-- In a run in which every packet is delivered, a resource of the initiator waits for its proof exactly behind all
its parts. -/
theorem run_outgoing {e : Endpoint} (he : e.Fresh) {inputs : List Input} (h : Throughout env (Delivered env) e inputs) :
    ∀ r < (run env e inputs).created, ((run env e inputs).resources r).initiator = true → Outgoing env e inputs r := by
  induction inputs using List.reverseRecOn with
  | nil =>
    intro r hr
    rw [show (run env e []).created = 0 from he.created] at hr
    exact absurd hr (Nat.not_lt_zero r)
  | append_singleton inputs input ih =>
    obtain ⟨hbefore, hdelivered⟩ := h.last
    have hrun : run env e (inputs ++ [input]) = Link.step env (run env e inputs) input := List.foldl_append
    have hc := run_clean env he.clean inputs
    intro r hr hside
    by_cases hold : r < (run env e inputs).created
    · have hsame : ((run env e inputs).resources r).initiator = true := by
        rw [hrun] at hside
        obtain h | ⟨i, -, h⟩ := (handle_reacts env input hc).old r hold
        · exact h.initiator.symm.trans hside
        · exact h.initiator.symm.trans hside
      obtain ⟨hawaits, hsent⟩ := ih hbefore r hold hsame
      obtain ⟨-, hawaits', hsent'⟩ := step_awaits hc hdelivered hold hsame hawaits
      refine ⟨hrun ▸ hawaits', fun i hi => ?_⟩
      obtain hi | hi := transmitted_append hi
      · rw [hrun]
        exact hsent' i (hsent i hi)
      · exact hi
    · have hunsent : Unsent ((run env e (inputs ++ [input])).resources r) := by
        rw [hrun] at hr hside ⊢
        obtain hunsent | ⟨adv, plaintext, requestId, totalParts, callback, sdu, -, haside | hreaction⟩ :=
          (handle_reacts env input hc).new r (Nat.not_lt.mp hold) hr
        · exact hunsent
        · exact absurd (haside.initiator.symm.trans hside) Bool.false_ne_true
        · exact absurd (hreaction.initiator.symm.trans hside) Bool.false_ne_true
      refine ⟨hunsent.awaits, fun i hi => ?_⟩
      obtain ⟨k, hmade, -⟩ | hi := transmitted_append hi
      · have hle := run_created_le env (run_clean env he.clean (inputs.take k)) (inputs.drop k)
        rw [← run_append, List.take_append_drop] at hle
        exact absurd (Nat.lt_of_lt_of_le hmade hle) hold
      · exact hi

/-- What waits for the proof has been taken by the interfaces, every part of it. Behind a request the initiator waits
for the proof exactly if that is so. -/
theorem awaits_proof_iff_transmitted (env : Env) {e : Endpoint} (he : e.Fresh) {inputs : List Input}
    (h : Throughout env (Delivered env) e inputs) :
    (∀ r < (run env e inputs).created, ((run env e inputs).resources r).initiator = true →
      ((run env e inputs).resources r).status = .awaitingProof →
        ∀ i < ((run env e inputs).resources r).parts.length, Transmitted env e inputs r i)
    ∧ ∀ earlier input r requestData t, inputs = earlier ++ [input] →
      receivedRequest env (run env e earlier) input = some (r, requestData, t) →
        run env e inputs = (request env r requestData t).2
        ∧ (((run env e inputs).resources r).status = .awaitingProof
          ↔ ∀ i < ((run env e inputs).resources r).parts.length, Transmitted env e inputs r i) := by
  have hout := run_outgoing he h
  have hearly : ∀ r < (run env e inputs).created, ((run env e inputs).resources r).initiator = true →
      ((run env e inputs).resources r).status = .awaitingProof →
        ∀ i < ((run env e inputs).resources r).parts.length, Transmitted env e inputs r i := by
    intro r hr hside hstatus i hi
    have hawaits := (hout r hr hside).awaits
    refine ⟨inputs.length, ?_⟩
    rw [List.take_length]
    exact ⟨hr, hawaits.counted.full_iff.mp (hawaits.full hstatus) i hi⟩
  refine ⟨hearly, fun earlier input r requestData t hinputs hreceived => ?_⟩
  subst hinputs
  obtain ⟨hbefore, hdelivered⟩ := h.last
  have hc := run_clean env he.clean earlier
  have hrun : run env e (earlier ++ [input]) = Link.step env (run env e earlier) input :=
    run_append env e earlier [input]
  obtain ⟨hstep, hmem, -⟩ := step_receivedRequest hreceived
  obtain ⟨hmade, hside, -⟩ := hc.outgoing r hmem
  have hawaits := (run_outgoing he hbefore r hmade hside).awaits
  have hside' := (step_awaits hc hdelivered hmade hside hawaits).1
  have hmade' := Nat.lt_of_lt_of_le hmade (handle_reacts env input hc).created
  rw [← hrun] at hside' hmade'
  refine ⟨hrun.trans hstep, hearly r hmade' hside', fun hall => ?_⟩
  obtain ⟨-, -, hwaits⟩ := step_received hc hreceived hdelivered hawaits
  rw [← hrun] at hwaits
  exact hwaits fun i hi => (hout r hmade' hside').sent i (hall i hi)

namespace Sample

/-- The receiver asks for the part of a resource, under hashes that are all the same. -/
def asksForPart : Input :=
  Link.Sample.comesIn (Link.Sample.arrived ContextType.resourceReq (Link.Sample.wire
    (0 :: List.replicate 32 3 ++ List.replicate 4 3)))

/-- A digest that tells the requests and the parts apart. -/
def summingEnv : Env := Link.Sample.plainEnv fun bs => List.Vector.replicate 32 (bs.foldl (fun a b => 3 * a + b) 0)

/-- The application starts a resource of two parts, the hashes of which are 232 and 254 over and over. -/
def startsLong : Input := .transfer (List.replicate 450 1) [] false false

/-- The receiver asks for the part with the hash. -/
def asksFor (hash : UInt8) : Input :=
  Link.Sample.comesIn (Link.Sample.arrived ContextType.resourceReq (Link.Sample.wire
    (0 :: List.replicate 32 140 ++ List.replicate 4 hash)))

def asksInTurn : List Input := [startsLong, asksFor 232, asksFor 254]

/-- Behind the advertisement the interfaces take nothing more. -/
def fadingEnv : Env := { Link.Sample.quietEnv with transmits := fun n => n < 4 }

end Sample

/-- The only part of a resource is sent and taken by no interface. -/
theorem awaits_proof_of_lost_part :
    ¬ ∀ (env : Env) (e : Endpoint), e.Fresh → ∀ (inputs : List Input) (input : Input) (r : Nat) (requestData : Bytes)
      (t : Endpoint), receivedRequest env (run env e inputs) input = some (r, requestData, t) →
        (((run env e (inputs ++ [input])).resources r).status = .awaitingProof
          ↔ ∀ i < ((run env e (inputs ++ [input])).resources r).parts.length,
            Transmitted env e (inputs ++ [input]) r i) := by
  intro h
  have hreceived : (receivedRequest Sample.fadingEnv (run Sample.fadingEnv Link.Sample.initiator
      [Link.Sample.starts 1]) Sample.asksForPart).map Prod.fst = some 0 := by decide +kernel
  obtain ⟨⟨r, requestData, t⟩, hreceived, hr⟩ := Option.map_eq_some_iff.mp hreceived
  cases hr
  obtain ⟨k, -, hsent⟩ := (h _ _ Link.Sample.initiator_fresh _ _ _ _ _ hreceived).mp (by decide +kernel) 0
    (by decide +kernel)
  have hnever : ∀ inputs ∈ [[], [Link.Sample.starts 1], [Link.Sample.starts 1, Sample.asksForPart]],
      ¬ Sent ((run Sample.fadingEnv Link.Sample.initiator inputs).resources 0) 0 := by decide +kernel
  refine hnever _ ?_ hsent
  obtain _ | _ | k := k
  · exact List.mem_cons_self
  · exact List.mem_cons_of_mem _ List.mem_cons_self
  · refine List.mem_cons_of_mem _ (List.mem_cons_of_mem _ (List.mem_singleton.mpr ?_))
    rw [List.take_of_length_le (Nat.le_add_left 2 k)]
    rfl

/-- With every packet taken, the two parts of a resource are asked for one after the other: it is for the second of
them that the proof is waited for. -/
theorem awaits_proof_iff_transmitted_two_parts :
    ((run Sample.summingEnv Link.Sample.initiator [Sample.startsLong, Sample.asksFor 232]).resources 0).status
      ≠ .awaitingProof
    ∧ ((run Sample.summingEnv Link.Sample.initiator Sample.asksInTurn).resources 0).status = .awaitingProof
    ∧ ∀ i < ((run Sample.summingEnv Link.Sample.initiator Sample.asksInTurn).resources 0).parts.length,
      Transmitted Sample.summingEnv Link.Sample.initiator Sample.asksInTurn 0 i := by
  have hwaits : ((run Sample.summingEnv Link.Sample.initiator Sample.asksInTurn).resources 0).status
      = .awaitingProof := by decide +kernel
  have hrequest : ∀ s input, (receivedRequest Sample.summingEnv s input).all (fun received =>
      received.2.1.byte 0 = 0) = true → Delivered Sample.summingEnv s input := by
    intro s input hplain r requestData t h
    rw [h] at hplain
    have hzero : requestData.byte 0 = 0 := of_decide_eq_true hplain
    exact ⟨fun _ _ => rfl, fun _ hends => absurd (hends.1.symm.trans hzero) (by decide)⟩
  have hdelivered : Throughout Sample.summingEnv (Delivered Sample.summingEnv) Link.Sample.initiator
      Sample.asksInTurn :=
    ⟨fun _ _ _ h => (by cases h), hrequest _ _ (by decide +kernel), hrequest _ _ (by decide +kernel), trivial⟩
  exact ⟨by decide +kernel, hwaits, (awaits_proof_iff_transmitted Sample.summingEnv Link.Sample.initiator_fresh
    hdelivered).1 0 (by decide +kernel) (by decide +kernel) hwaits⟩

end MicroReticulum.Resource
