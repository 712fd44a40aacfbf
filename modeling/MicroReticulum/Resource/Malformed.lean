import MicroReticulum.Link.Inputs
import MicroReticulum.Resource.Advertisement
import Mathlib.Data.List.Induction

/-!
# Advertisements that are given up

`unpack` stores what it reads while it reads it, and at the first problem gives the record back as it is then.
`accept` looks at the hash alone. `entriesRead` are the entries the loop gets through, without the record: of
them the last one under a key says what the record holds.

A map that is cut off behind its hash is accepted, with zero parts if that is where its size would have been.
The booleans are derived behind the loop, so a request or a response needs a map that is read to its end.

An advertisement that is well formed may still promise what is not sent; that is found when
the resource is assembled.
-/

namespace MicroReticulum.Resource

open MicroReticulum Packet Link Library

namespace Advertisement

/-! ## What the loop gets through -/

/-- The keys of numbers. -/
def numberKeys : List UInt8 := ['t', 'd', 'n', 'i', 'l', 'f'].map letter

/-- The keys of byte strings. -/
def bytesKeys : List UInt8 := ['h', 'r', 'o', 'm'].map letter

/-- What stands behind a value, where the loop goes on. A value of the wrong type is not passed over. -/
def passed (k : UInt8) (value : List Library.Token) : Option (List Library.Token) :=
  if k ∈ numberKeys then some (readUint value).2
  else if k ∈ bytesKeys then some (readBin value).2
  else if k = letter 'q' then
    match value with
    | .nil :: rest => some rest
    | .bin _ :: rest => some rest
    | _ => none
  else none

/-- The entries the loop gets through, each with what stands at its value, and whether these are all. -/
def entriesRead : Nat → List Library.Token → List (UInt8 × List Library.Token) × Bool
  | 0, _ => ([], true)
  | count + 1, .str [k] :: value =>
    match passed k value with
    | none => ([], false)
    | some rest => ((k, value) :: (entriesRead count rest).1, (entriesRead count rest).2)
  | _ + 1, _ => ([], false)

/-- The last value under a key. -/
def lastValue (c : Char) (entries : List (UInt8 × List Library.Token)) : Option (List Library.Token) :=
  (entries.reverse.find? fun e => e.1 = letter c).map Prod.snd

/-- The entry assigns this value to its field. -/
def store (a : Advertisement) (k : UInt8) (value : List Library.Token) : Advertisement :=
  if k = letter 't' then { a with t := (readUint value).1 }
  else if k = letter 'd' then { a with d := (readUint value).1 }
  else if k = letter 'n' then { a with n := UInt32.ofNat (readUint value).1 }
  else if k = letter 'h' then { a with h := (readBin value).1 }
  else if k = letter 'r' then { a with r := (readBin value).1 }
  else if k = letter 'o' then { a with o := (readBin value).1 }
  else if k = letter 'm' then { a with m := (readBin value).1 }
  else if k = letter 'i' then { a with i := UInt16.ofNat (readUint value).1 }
  else if k = letter 'l' then { a with l := UInt16.ofNat (readUint value).1 }
  else if k = letter 'q' then
    match value with
    | .bin b :: _ => { a with q := b }
    | _ => a
  else if k = letter 'f' then { a with f := UInt8.ofNat (readUint value).1 }
  else a

/-- Reading one entry of an advertisement stores its value, if the value can be passed. -/
theorem unpackEntry_eq (a : Advertisement) (k : UInt8) (value : List Library.Token) :
    a.unpackEntry (.str [k] :: value) = (passed k value).map fun rest => (a.store k value, rest) := by
  simp only [unpackEntry, passed, store]
  by_cases ht : k = letter 't'
  · subst ht; rfl
  by_cases hd : k = letter 'd'
  · subst hd; rfl
  by_cases hn : k = letter 'n'
  · subst hn; rfl
  by_cases hh : k = letter 'h'
  · subst hh; rfl
  by_cases hr : k = letter 'r'
  · subst hr; rfl
  by_cases ho : k = letter 'o'
  · subst ho; rfl
  by_cases hm : k = letter 'm'
  · subst hm; rfl
  by_cases hi : k = letter 'i'
  · subst hi; rfl
  by_cases hl : k = letter 'l'
  · subst hl; rfl
  by_cases hq : k = letter 'q'
  · subst hq
    rcases value with _ | ⟨object, rest⟩
    · rfl
    · cases object <;> rfl
  by_cases hf : k = letter 'f'
  · subst hf; rfl
  have hnumber : k ∉ numberKeys := by simp [numberKeys, ht, hd, hn, hi, hl, hf]
  have hbytes : k ∉ bytesKeys := by simp [bytesKeys, hh, hr, ho, hm]
  simp only [ht, hd, hn, hh, hr, ho, hm, hi, hl, hq, hf, hnumber, hbytes, if_false, Option.map_none]

/-- What the entries leave in the record before the booleans are derived. -/
def stored (a : Advertisement) (entries : List (UInt8 × List Library.Token)) : Advertisement :=
  entries.foldl (fun a e => a.store e.1 e.2) a

/-- Reading the entries stores those that were read, and derives the flags only when all of them were. -/
theorem unpackEntries_eq (count : Nat) (a : Advertisement) (ts : List Library.Token) :
    unpackEntries count a ts =
      if (entriesRead count ts).2 then (a.stored (entriesRead count ts).1).deriveFlags
      else a.stored (entriesRead count ts).1 := by
  fun_induction entriesRead count ts generalizing a with
  | case1 => rfl
  | case2 count k value hpassed =>
    rw [unpackEntries, unpackEntry_eq, hpassed]
    rfl
  | case3 count k value rest hpassed ih =>
    rw [unpackEntries, unpackEntry_eq, hpassed]
    exact ih _
  | case4 count ts hkey =>
    have hnone : a.unpackEntry ts = none := by
      unfold unpackEntry
      split
      · rename_i k rest
        exact absurd rfl (hkey k rest)
      · rfl
    rw [unpackEntries, hnone]
    rfl

/-! ## Fields by their last entry -/

/-- The last value of a key, one entry on. -/
theorem lastValue_append (c : Char) (entries : List (UInt8 × List Library.Token)) (k : UInt8)
    (value : List Library.Token) :
    lastValue c (entries ++ [(k, value)]) = if k = letter c then some value else lastValue c entries := by
  unfold lastValue
  rw [List.reverse_append, List.reverse_singleton, List.singleton_append, List.find?_cons]
  by_cases hk : k = letter c <;> simp [hk]

theorem stored_append (a : Advertisement) (entries : List (UInt8 × List Library.Token)) (k : UInt8)
    (value : List Library.Token) : a.stored (entries ++ [(k, value)]) = (a.stored entries).store k value := by
  unfold stored
  rw [List.foldl_append]
  rfl

/-- What both branches show. -/
theorem show_ite {β : Type} (look : Advertisement → β) {x : β} {c : Prop} [Decidable c] {b b' : Advertisement}
    (hb : look b = x) (hb' : look b' = x) : look (if c then b else b') = x := by
  split
  · exact hb
  · exact hb'

theorem store_h (a : Advertisement) (k : UInt8) (value : List Library.Token) :
    (a.store k value).h = if k = letter 'h' then (readBin value).1 else a.h := by
  by_cases hk : k = letter 'h'
  · subst hk
    rfl
  · rw [if_neg hk]
    unfold store
    iterate 3 refine show_ite h rfl ?_
    rw [if_neg hk]
    iterate 5 refine show_ite h rfl ?_
    refine show_ite h ?_ (show_ite h rfl rfl)
    split <;> rfl

theorem store_f (a : Advertisement) (k : UInt8) (value : List Library.Token) :
    (a.store k value).f = if k = letter 'f' then UInt8.ofNat (readUint value).1 else a.f := by
  by_cases hk : k = letter 'f'
  · subst hk
    rfl
  · rw [if_neg hk]
    unfold store
    iterate 9 refine show_ite f rfl ?_
    rw [if_neg hk]
    refine show_ite f ?_ rfl
    split <;> rfl

/-- No entry stores a mark; these are derived from the flags. -/
theorem store_marks (a : Advertisement) (k : UInt8) (value : List Library.Token) :
    (a.store k value).u = a.u ∧ (a.store k value).p = a.p := by
  let marks (b : Advertisement) : Bool × Bool := (b.u, b.p)
  have hmarks : marks (a.store k value) = marks a := by
    unfold store
    iterate 9 refine show_ite marks rfl ?_
    refine show_ite marks ?_ (show_ite marks rfl rfl)
    split <;> rfl
  exact Prod.mk.inj hmarks

/-- The request ids of the entries. A `nil` is none, and takes back none either. -/
def requestIds (entries : List (UInt8 × List Library.Token)) : List Bytes :=
  entries.filterMap fun e =>
    if e.1 = letter 'q' then
      match e.2 with
      | .bin b :: _ => some b
      | _ => none
    else none

/-- Only an entry `q` stores a request id. -/
theorem store_q (a : Advertisement) (k : UInt8) (value : List Library.Token) :
    (a.store k value).q = (requestIds [(k, value)]).getLast?.getD a.q := by
  by_cases hk : k = letter 'q'
  · subst hk
    rcases value with _ | ⟨object, rest⟩
    · rfl
    · cases object <;> rfl
  · have hnone : requestIds [(k, value)] = [] := by
      simp only [requestIds, hk, if_false, List.filterMap_cons, List.filterMap_nil]
    rw [hnone]
    unfold store
    iterate 9 refine show_ite q rfl ?_
    rw [if_neg hk]
    exact show_ite q rfl rfl

/-- The hash stored is that of the last entry `h`. -/
theorem stored_h (a : Advertisement) (entries : List (UInt8 × List Library.Token)) :
    (a.stored entries).h = (lastValue 'h' entries).elim a.h fun value => (readBin value).1 := by
  induction entries using List.reverseRecOn with
  | nil => rfl
  | append_singleton entries e ih =>
    rw [stored_append, store_h, ih, lastValue_append]
    split <;> rfl

/-- The flags stored are those of the last entry `f`. -/
theorem stored_f (a : Advertisement) (entries : List (UInt8 × List Library.Token)) :
    (a.stored entries).f = (lastValue 'f' entries).elim a.f fun value => UInt8.ofNat (readUint value).1 := by
  induction entries using List.reverseRecOn with
  | nil => rfl
  | append_singleton entries e ih =>
    rw [stored_append, store_f, ih, lastValue_append]
    split <;> rfl

/-- The request id stored is that of the last entry that has one. -/
theorem stored_q (a : Advertisement) (entries : List (UInt8 × List Library.Token)) :
    (a.stored entries).q = (requestIds entries).getLast?.getD a.q := by
  induction entries using List.reverseRecOn with
  | nil => rfl
  | append_singleton entries e ih =>
    have hsplit : requestIds (entries ++ [e]) = requestIds entries ++ requestIds [e] := List.filterMap_append
    rw [stored_append, store_q, ih, hsplit, List.getLast?_append]
    cases (requestIds [(e.1, e.2)]).getLast? <;> rfl

theorem stored_marks (a : Advertisement) (entries : List (UInt8 × List Library.Token)) :
    (a.stored entries).u = a.u ∧ (a.stored entries).p = a.p := by
  induction entries using List.reverseRecOn with
  | nil => exact ⟨rfl, rfl⟩
  | append_singleton entries e ih =>
    rw [stored_append]
    exact ⟨(store_marks _ _ _).1.trans ih.1, (store_marks _ _ _).2.trans ih.2⟩

/-! ## What is read of a stream -/

/-- The hash that is read, empty where none is. -/
def hashRead : List Library.Token → Bytes
  | .map count :: rest => (lastValue 'h' (entriesRead count rest).1).elim [] fun value => (readBin value).1
  | _ => []

/-- The flag byte of the entries. -/
def flagsRead (entries : List (UInt8 × List Library.Token)) : UInt8 :=
  (lastValue 'f' entries).elim 0 fun value => UInt8.ofNat (readUint value).1

/-- The map is read to its end, names a request, and is marked as one or as a response. -/
def MarkedThrough : List Library.Token → Prop
  | .map count :: rest =>
    (entriesRead count rest).2 = true ∧ (requestIds (entriesRead count rest).1).getLast?.getD [] ≠ []
      ∧ (hasFlag (flagsRead (entriesRead count rest).1) 3 ∨ hasFlag (flagsRead (entriesRead count rest).1) 4)
  | _ => False

/-- The hash of an advertisement is the hash its entries give. -/
theorem unpack_h (ts : List Library.Token) : (unpack ts).h = hashRead ts := by
  rcases ts with _ | ⟨object, rest⟩
  · rfl
  · cases object
    case map count =>
      rw [unpack, unpackEntries_eq]
      split <;> exact stored_h ..
    all_goals rfl

/-- An advertisement is neither request nor response exactly when no marks were read through. -/
theorem unpack_marked_iff (ts : List Library.Token) :
    (unpack ts).isRequest = false ∧ (unpack ts).isResponse = false ↔ ¬ MarkedThrough ts := by
  rcases ts with _ | ⟨object, rest⟩
  · exact iff_of_true ⟨rfl, rfl⟩ id
  · cases object
    case map count =>
      have hq := stored_q {} (entriesRead count rest).1
      have hf := stored_f {} (entriesRead count rest).1
      obtain ⟨hu, hp⟩ := stored_marks {} (entriesRead count rest).1
      rw [unpack, unpackEntries_eq]
      unfold MarkedThrough
      by_cases hend : (entriesRead count rest).2 = true
      · simp only [hend, if_true, isRequest, isResponse, deriveFlags, hq, hf, flagsRead, ne_eq,
          Bool.eq_false_iff, Bool.and_eq_true, decide_eq_true_eq, true_and]
        tauto
      · simp [isRequest, isResponse, hu, hp, hend]
    all_goals exact iff_of_true ⟨rfl, rfl⟩ id

end Advertisement

/-! ## Accepting -/

section Accept

variable {env : Env} {e : Endpoint} {r : Nat}

/-- A resource that is not corrupt is cancelled without an exception. -/
theorem cancel_value (env : Env) (h : (e.resources r).status ≠ .corrupt) :
    ∃ t, cancel env r e = (.value (), t) := by
  unfold cancel
  rw [Prog.get_bind_run, if_neg h]
  obtain hrun | ⟨-, t, -, hrun | hrun⟩ := cancelTransfer_cases env r e <;> exact ⟨_, hrun⟩

/-- Asking for the next parts gives back control, as long as the resource is not corrupt. -/
theorem requestNext_value (env : Env) (h : (e.resources r).status ≠ .corrupt) :
    ∃ t, requestNext env r e = (.value (), t) := by
  unfold requestNext
  rw [Prog.get_bind_run]
  by_cases hasks : (e.resources r).status ≠ .failed ∧ (e.resources r).waitingForHmu = false
  case neg =>
    rw [Prog.when_of_not hasks]
    exact ⟨e, rfl⟩
  rw [Prog.when_of hasks]
  obtain ⟨hashes, outstanding, exhausted, hasked⟩ : ∃ hashes outstanding exhausted,
      requestedHashes (e.resources r) (requestRange (e.resources r)) = (hashes, outstanding, exhausted) :=
    ⟨_, _, _, rfl⟩
  rw [hasked]
  dsimp only
  rw [Prog.modify_bind_run]
  unfold Prog.catching
  obtain ⟨err, token, -, hrun⟩ | ⟨p, token, -, -, -, hrun⟩ := send_cases env .data ContextType.resourceReq
    (hmuPart (e.resources r) exhausted ++ (e.resources r).hash ++ hashes)
    (e.withResource r fun d =>
      { d with outstandingParts := UInt16.ofNat outstanding, waitingForHmu := exhausted })
  · rw [Prog.bind_thrown hrun]
    refine cancel_value env ?_
    simpa only [Endpoint.withLink, Endpoint.withResource_self] using h
  · rw [Prog.bind_value hrun]
    exact ⟨_, rfl⟩

/-- So does an update of the hashmap during the transfer. -/
theorem hashmapUpdate_value (env : Env) (h : (e.resources r).status = .transferring) (segment : UInt16)
    (hashmap : Bytes) : ∃ t, hashmapUpdate env r segment hashmap e = (.value (), t) := by
  unfold hashmapUpdate
  rw [Prog.get_bind_run, Prog.when_of (by rw [h]; decide), Prog.modify_bind_run]
  have hstatus : (updateEntries segment hashmap { e.resources r with status := .transferring }).status
      = .transferring := (updateEntries_bookkeeping ..).status
  refine requestNext_value env ?_
  rw [Endpoint.withResource_self]
  dsimp only
  rw [hstatus]
  decide

/-- A new resource is none of the incoming ones. -/
theorem hasIncomingResource_withNew (hnew : ∀ q ∈ e.incomingResources, q < e.created) (data hash : Bytes) :
    (withNew data e).hasIncomingResource hash = true
      ↔ ∃ q ∈ e.incomingResources, (e.resources q).hash = hash := by
  unfold Endpoint.hasIncomingResource
  rw [List.any_eq_true]
  refine exists_congr fun q => and_congr_right fun hq => ?_
  have hold : (withNew data e).resources q = e.resources q := Function.update_of_ne (Nat.ne_of_lt (hnew q hq)) ..
  rw [decide_eq_true_eq, hold]

/-- Where a check fails, `accept` leaves at most a resource that no set of the link holds. Otherwise it
registers one, and gives it back. -/
theorem accept_cases (env : Env) (plaintext requestId : Bytes) (callback : Bool)
    (hnew : ∀ q ∈ e.incomingResources, q < e.created) :
    let adv := Advertisement.unpack (env.decode plaintext)
    if adv.h = [] ∨ resourceSdu e.link = 0 ∨ ∃ q ∈ e.incomingResources, (e.resources q).hash = adv.h then
      (∀ r, (accept env plaintext requestId callback e).1 ≠ .value (some r))
      ∧ (accept env plaintext requestId callback e).2.incomingResources = e.incomingResources
      ∧ (accept env plaintext requestId callback e).2.outgoingResources = e.outgoingResources
      ∧ (accept env plaintext requestId callback e).2.events = e.events
    else (accept env plaintext requestId callback e).1 = .value (some e.created) := by
  intro adv
  unfold accept
  by_cases hhash : adv.h = []
  · rw [if_pos (.inl hhash), if_pos hhash]
    exact ⟨nofun, rfl, rfl, rfl⟩
  have hsdu : ((withNew [] e).resources e.created).sdu = resourceSdu e.link := by simp [withNew]
  rw [if_neg hhash, Prog.bind_value (newResource_run [] e), Prog.get_bind_run, hsdu]
  by_cases hroom : resourceSdu e.link = 0
  · rw [if_pos (.inr (.inl hroom)), hroom]
    exact ⟨nofun, rfl, rfl, rfl⟩
  obtain ⟨totalParts, hparts⟩ : ∃ totalParts, partCount adv.t (resourceSdu e.link) = some totalParts :=
    ⟨_, if_neg hroom⟩
  rw [hparts, Prog.bind_value (Prog.ofExcept_ok_run totalParts _), Prog.modify_bind_run]
  by_cases hother : ∃ q ∈ e.incomingResources, (e.resources q).hash = adv.h
  · rw [if_pos (.inr (.inr hother)), if_pos ((hasIncomingResource_withNew hnew [] adv.h).mpr hother)]
    exact ⟨nofun, rfl, rfl, rfl⟩
  · have hnone : ¬ (adv.h = [] ∨ resourceSdu e.link = 0 ∨ ∃ q ∈ e.incomingResources, (e.resources q).hash = adv.h) :=
      fun h => h.elim hhash fun h => h.elim hroom hother
    rw [if_neg hnone, if_neg fun h => hother ((hasIncomingResource_withNew hnew [] adv.h).mp h),
      Prog.modify_bind_run]
    obtain ⟨t, hvalue⟩ := hashmapUpdate_value (r := e.created) (e := ((withNew [] e).withResource e.created
      (.ofAdvertisement adv plaintext requestId totalParts callback)).registerIncomingResource e.created) env
      (by simp [Endpoint.registerIncomingResource, ResourceData.ofAdvertisement]) 0 adv.m
    rw [Prog.bind_value hvalue]
    rfl

end Accept

/-! ## What is dropped -/

/-- The endpoint takes no notice of an advertisement, which is neither a request nor a response. -/
structure Drops (env : Env) (e : Endpoint) (plaintext : Bytes) : Prop where
  refused : ∀ requestId callback r, (accept env plaintext requestId callback e).1 ≠ .value (some r)
  incoming : ∀ requestId callback,
    (accept env plaintext requestId callback e).2.incomingResources = e.incomingResources
  outgoing : ∀ requestId callback,
    (accept env plaintext requestId callback e).2.outgoingResources = e.outgoingResources
  silent : ∀ requestId callback, (accept env plaintext requestId callback e).2.events = e.events
  unmarked : (Advertisement.unpack (env.decode plaintext)).isRequest = false
    ∧ (Advertisement.unpack (env.decode plaintext)).isResponse = false

/-- The advertisement is dropped exactly if no hash is read of it before the first problem, or the hash of a
transfer under way, and it is not a marked one that is read to its end. -/
theorem malformed_dropped_iff (env : Env) {e : Endpoint} (hc : e.Clean) (plaintext : Bytes) :
    Drops env e plaintext
      ↔ (Advertisement.hashRead (env.decode plaintext) = [] ∨ resourceSdu e.link = 0
          ∨ ∃ q ∈ e.incomingResources, (e.resources q).hash = Advertisement.hashRead (env.decode plaintext))
        ∧ ¬ Advertisement.MarkedThrough (env.decode plaintext) := by
  have hnew : ∀ q ∈ e.incomingResources, q < e.created := fun q hq => (hc.incoming q hq).1
  rw [← Advertisement.unpack_marked_iff, ← Advertisement.unpack_h]
  constructor
  · intro h
    refine ⟨?_, h.unmarked⟩
    by_contra hpast
    have hcases := accept_cases env plaintext [] false hnew
    rw [if_neg hpast] at hcases
    exact h.refused [] false e.created hcases
  · rintro ⟨hchecked, hmarks⟩
    have hcases : ∀ requestId callback, _ := fun requestId callback =>
      accept_cases env plaintext requestId callback hnew
    simp only [if_pos hchecked] at hcases
    exact
      { refused := fun requestId callback => (hcases requestId callback).1
        incoming := fun requestId callback => (hcases requestId callback).2.1
        outgoing := fun requestId callback => (hcases requestId callback).2.2.1
        silent := fun requestId callback => (hcases requestId callback).2.2.2
        unmarked := hmarks }

/-- What a value may be. -/
def ValueFits : Char → Library.Token → Prop
  | c, .int v => c ∈ ['t', 'd', 'n', 'i', 'l', 'f'] ∧ 0 ≤ v
  | c, .bin _ => c ∈ ['h', 'r', 'o', 'q', 'm']
  | c, .nil => c = 'q'
  | _, _ => False

/-- A complete map: one entry for each key, of its type, with numbers that fit together over parts of this
size. -/
def CompleteMap (sdu : UInt16) (ts : List Library.Token) : Prop :=
  ∃ (entries : List (Char × Library.Token)) (t n i l : Nat),
    ts = .map entries.length :: entries.flatMap (fun e => [Advertisement.key e.1, e.2])
    ∧ (entries.map Prod.fst).Perm ['t', 'd', 'n', 'h', 'r', 'o', 'i', 'l', 'q', 'f', 'm']
    ∧ (∀ e ∈ entries, ValueFits e.1 e.2)
    ∧ ('t', .int t) ∈ entries ∧ ('n', .int n) ∈ entries ∧ ('i', .int i) ∈ entries ∧ ('l', .int l) ∈ entries
    ∧ (partCount t sdu).map UInt32.toNat = some n ∧ 1 ≤ i ∧ i ≤ l

/-- In a complete map there are two objects for each entry. -/
theorem CompleteMap.length {sdu : UInt16} {count : Nat} {rest : List Library.Token}
    (h : CompleteMap sdu (.map count :: rest)) : rest.length = 2 * count := by
  obtain ⟨entries, _, _, _, _, hts, -⟩ := h
  injection hts with hcount hrest
  injection hcount with hcount
  rw [hcount, hrest]
  simp [List.length_flatMap, Nat.mul_comm]

namespace Sample

/-- An endpoint with an active link. -/
def taker : Endpoint where
  link := Link.Sample.link false
  resourceStrategy := .acceptAll

theorem taker_clean : taker.Clean := Endpoint.Fresh.clean ⟨rfl, rfl, rfl, fun _ => rfl, rfl, rfl, rfl⟩

end Sample

/-- A map that is cut off behind its hash is accepted. -/
theorem cut_advertisement_accepted :
    ¬ ∀ (env : Env) (e : Endpoint), e.Clean → ∀ plaintext : Bytes,
      ¬ CompleteMap (resourceSdu e.link) (env.decode plaintext) → Drops env e plaintext := by
  intro h
  have hdecoded : (Link.Sample.plainEnv Sample.digest).decode [0x8B, 0xA1, 0x68, 0xC4, 1, 1]
      = [.map 11, .str [0x68], .bin [1]] := by decide +kernel
  have hdrops := h (Link.Sample.plainEnv Sample.digest) Sample.taker Sample.taker_clean
    [0x8B, 0xA1, 0x68, 0xC4, 1, 1] (by
      rw [hdecoded]
      exact fun hcomplete => absurd hcomplete.length (by decide))
  have haccepted := accept_cases (e := Sample.taker) (Link.Sample.plainEnv Sample.digest)
    [0x8B, 0xA1, 0x68, 0xC4, 1, 1] [] false fun q hq => absurd hq List.not_mem_nil
  rw [if_neg] at haccepted
  · exact hdrops.refused _ _ _ haccepted
  · rintro (hhash | hroom | ⟨q, hq, -⟩)
    · rw [hdecoded] at hhash
      exact absurd hhash (by decide)
    · exact absurd hroom (by decide)
    · exact absurd hq List.not_mem_nil

/-- A map that is cut off before its hash is dropped. -/
theorem malformed_dropped_iff_cut :
    Drops (Link.Sample.plainEnv Sample.digest) Sample.taker [0x8B, 0xA1, 0x74, 5] := by
  have hdecoded : (Link.Sample.plainEnv Sample.digest).decode [0x8B, 0xA1, 0x74, 5]
      = [.map 11, .str [0x74], .int 5] := by decide +kernel
  refine (malformed_dropped_iff (Link.Sample.plainEnv Sample.digest) Sample.taker_clean _).mpr ?_
  rw [hdecoded]
  exact ⟨.inl (by decide), fun hmarked => absurd hmarked.1 (by decide)⟩

end MicroReticulum.Resource
