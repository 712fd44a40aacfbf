import Mathlib.Algebra.BigOperators.Group.Finset.Piecewise
import Mathlib.Algebra.Order.BigOperators.Group.Finset
import Mathlib.Data.Fintype.Card
import MicroReticulum.Library.GenerationalSet
import MicroReticulum.Transport.Retransmit

/-!
# Path requests as they come in

`Transport::path_request_handler` reads a request, and lets it through to `path_request` if its tag was not seen for
the destination. A request has two layouts, with the transport id of the node it comes from and without. They are
told apart by their length: what is longer than two hashes has a transport id, so without one a tag is at most a
hash long.

A request that is passed on keeps its destination and its tag. `Network` follows such requests through nodes that
pass them on to each other in any way.

What is answered to a request that is let through is not the matter here.
-/

namespace MicroReticulum.Transport

open MicroReticulum Packet Link Library

variable {env : Environment}

/-! ## Reading a request -/

/-- A request with a tag. -/
structure TaggedRequest where
  destinationHash : Address
  /-- `requesting_transport_instance` -/
  requestorTransportId : Option Address
  /-- `tag_bytes`, cut to the length of a hash -/
  tag : Bytes

/-- `unique_tag` -/
def TaggedRequest.uniqueTag (r : TaggedRequest) : Bytes := r.destinationHash.toList ++ r.tag

/-- What `path_request_handler` reads; nothing where there is no destination or no tag. -/
def readPathRequest (data : Bytes) : Option TaggedRequest :=
  if h : destinationLength * 2 < data.length then
    some {
      destinationHash := data.toAddress (by omega)
      requestorTransportId := some ((data.mid destinationLength).toAddress (by
        rw [Bytes.mid_length]
        omega))
      tag := (data.mid (destinationLength * 2)).left destinationLength }
  else if h : destinationLength < data.length then
    some {
      destinationHash := data.toAddress (by omega)
      requestorTransportId := none
      tag := (data.mid destinationLength).left destinationLength }
  else none

/-- The request with its destination and the tag, as it is told apart from others. -/
def requestKey (data : Bytes) : Option Bytes := (readPathRequest data).map TaggedRequest.uniqueTag

/-- The data of a request, in one of the two layouts. -/
def requestData (destinationHash : Address) (transportId : Option Address) (tag : Bytes) : Bytes :=
  destinationHash.toList ++ (transportId.map List.Vector.toList).getD [] ++ tag

/-- The data `request_path` sends. -/
def requestPathData (transportEnabled : Bool) (identity destinationHash : Address) (requestTag : Bytes) : Bytes :=
  if transportEnabled then requestData destinationHash (some identity) requestTag
  else requestData destinationHash none requestTag

/-- Both layouts are read back, a tag without a transport id being at most a hash long. -/
theorem readPathRequest_requestData (destinationHash : Address) {transportId : Option Address} {tag : Bytes}
    (htag : tag ≠ []) (hshort : transportId = none → tag.length ≤ destinationLength) :
    readPathRequest (requestData destinationHash transportId tag)
      = some ⟨destinationHash, transportId, tag.left destinationLength⟩ := by
  have hpositive : 0 < tag.length := List.length_pos_iff.mpr htag
  have hdestination : destinationHash.toList.length = destinationLength := destinationHash.toList_length
  cases transportId with
  | none =>
    have hdata : requestData destinationHash none tag = destinationHash.toList ++ tag := by
      unfold requestData
      rw [Option.map_none, Option.getD_none, List.append_nil]
    have hlength : (destinationHash.toList ++ tag).length = destinationLength + tag.length := by
      rw [List.length_append, hdestination]
    have htags := hshort rfl
    unfold readPathRequest
    rw [hdata, dif_neg (by omega), dif_pos (by omega), Bytes.toAddress_append, Bytes.mid_append hdestination]
  | some id =>
    have hdata : requestData destinationHash (some id) tag = destinationHash.toList ++ (id.toList ++ tag) := by
      unfold requestData
      rw [List.append_assoc]
      rfl
    have hid : id.toList.length = destinationLength := id.toList_length
    have hlength : (destinationHash.toList ++ (id.toList ++ tag)).length = destinationLength * 2 + tag.length := by
      rw [List.length_append, List.length_append, hdestination, hid]
      omega
    have hrest : Bytes.mid (destinationHash.toList ++ (id.toList ++ tag)) destinationLength = id.toList ++ tag :=
      Bytes.mid_append hdestination
    have htags : Bytes.mid (destinationHash.toList ++ (id.toList ++ tag)) (destinationLength * 2) = tag := by
      rw [show destinationLength * 2 = destinationLength + destinationLength from rfl, ← Bytes.mid_mid, hrest,
        Bytes.mid_append hid]
    have hrequestor : ∀ (b : Bytes) (h : destinationLength ≤ b.length), b = id.toList ++ tag → b.toAddress h = id := by
      rintro _ h rfl
      exact Bytes.toAddress_append h
    unfold readPathRequest
    rw [hdata, dif_pos (by omega), Bytes.toAddress_append, htags, hrequestor _ _ hrest]

/-! ## Letting a request through -/

/-- A node and the tags it has seen, `_discovery_pr_tags`. -/
structure RequestState where
  tags : GenerationalSet Bytes
  transport : TransportState

/-- The tag is looked up, and a new one is put into the set. -/
def judgeRequest (data : Bytes) (tags : GenerationalSet Bytes) : Option TaggedRequest × GenerationalSet Bytes :=
  match readPathRequest data with
  | none => (none, tags)
  | some r => if tags.contains r.uniqueTag then (none, tags) else (some r, tags.insert r.uniqueTag)

/-- `path_request` for a request that was let through; what it throws is caught. -/
def serveRequest (env : Environment) (calls : PathRequestCalls) (i : Interface) (r : TaggedRequest) :
    Prog String RequestState Unit :=
  Prog.catching
    (Prog.zoom RequestState.transport (fun transport s => { s with transport })
      (pathRequest env calls {
        destinationHash := r.destinationHash
        isFromLocalClient := isLocalClientInterface i
        attachedInterface := i
        requestorTransportId := r.requestorTransportId }))
    fun _ => pure ()

/-- `Transport::path_request_handler` -/
def pathRequestHandler (env : Environment) (calls : PathRequestCalls) (i : Interface) (data : Bytes) :
    Prog String RequestState Unit := do
  let s ← Prog.get
  let judged := judgeRequest data s.tags
  Prog.modify fun s => { s with tags := judged.2 }
  match judged.1 with
  | none => pure ()
  | some r => serveRequest env calls i r

/-- The request that `path_request` runs for. -/
def servedRequest (data : Bytes) (s : RequestState) : Option TaggedRequest := (judgeRequest data s.tags).1

variable {data : Bytes} {tags : GenerationalSet Bytes} {r : TaggedRequest} {s t u : RequestState} {l : List Bytes}

/-- A request is served exactly if its tag is new, which is then known. -/
theorem judgeRequest_eq_some_iff :
    (judgeRequest data tags).1 = some r ↔ readPathRequest data = some r ∧ ¬ tags.contains r.uniqueTag = true := by
  unfold judgeRequest
  cases readPathRequest data with
  | none =>
    constructor
    · intro h
      cases h
    · rintro ⟨h, -⟩
      cases h
  | some r' =>
    dsimp only
    split
    case isTrue hknown =>
      constructor
      · intro h
        cases h
      · rintro ⟨h, hnew⟩
        cases h
        exact absurd hknown hnew
    case isFalse hnew =>
      constructor
      · intro h
        cases h
        exact ⟨rfl, hnew⟩
      · rintro ⟨h, -⟩
        exact h

/-- The tags behind a request are those before it and its own. -/
theorem judgeRequest_tags (data : Bytes) (tags : GenerationalSet Bytes) :
    (judgeRequest data tags).2 = tags.seeAll (requestKey data).toList := by
  unfold judgeRequest requestKey
  cases readPathRequest data with
  | none => rfl
  | some r =>
    dsimp only
    split
    case isTrue hknown => exact (GenerationalSet.insert_of_contains hknown).symm
    case isFalse hnew => rfl

theorem judgeRequest_none (h : (judgeRequest data tags).1 = none) : (judgeRequest data tags).2 = tags := by
  unfold judgeRequest at h ⊢
  cases hread : readPathRequest data with
  | none => rfl
  | some r =>
    rw [hread] at h
    dsimp only at h ⊢
    split at h
    case isTrue hknown => rw [if_pos hknown]
    case isFalse => cases h

/-- A request that is not served leaves the node as it was. -/
theorem pathRequestHandler_unserved (env : Environment) (calls : PathRequestCalls) (i : Interface)
    (h : servedRequest data s = none) : pathRequestHandler env calls i data s = (.value (), s) := by
  unfold servedRequest at h
  unfold pathRequestHandler
  rw [Prog.get_bind_run, Prog.modify_bind_run, h, judgeRequest_none h]
  rfl

/-- The tags behind a request, whatever `path_request` does. -/
theorem pathRequestHandler_tags (env : Environment) (calls : PathRequestCalls) (i : Interface) (data : Bytes)
    (s : RequestState) : (pathRequestHandler env calls i data s).2.tags = s.tags.seeAll (requestKey data).toList := by
  have hserve : ∀ r t, (serveRequest env calls i r t).2.tags = t.tags := by
    intro r t
    unfold serveRequest
    rw [Prog.catching_pure_state]
    rfl
  rw [← judgeRequest_tags]
  unfold pathRequestHandler
  rw [Prog.get_bind_run, Prog.modify_bind_run]
  cases (judgeRequest data s.tags).1 with
  | none => rfl
  | some r => exact hserve r _

/-! ## Runs -/

/-- What a node does, with the requests it hears. Nothing else touches the tags. The settings and the handlers may
differ from step to step. -/
inductive RequestRun (s : RequestState) : List Bytes → RequestState → Prop
  | start : RequestRun s [] s
  | request {l : List Bytes} {t : RequestState} (h : RequestRun s l t) (env : Environment) (calls : PathRequestCalls)
      (i : Interface) (data : Bytes) : RequestRun s (l ++ [data]) (pathRequestHandler env calls i data t).2
  | other {l : List Bytes} {t u : RequestState} (h : RequestRun s l t) (hsame : u.tags = t.tags) : RequestRun s l u

theorem filterMap_singleton (data : Bytes) : [data].filterMap requestKey = (requestKey data).toList := by
  cases hkey : requestKey data with
  | none => exact List.filterMap_cons_none hkey
  | some k => exact List.filterMap_cons_some hkey

theorem RequestRun.tags_eq (h : RequestRun s l t) : t.tags = s.tags.seeAll (l.filterMap requestKey) := by
  induction h with
  | start => rfl
  | request h env calls i data ih =>
    rw [pathRequestHandler_tags, ih, List.filterMap_append, filterMap_singleton]
    unfold GenerationalSet.seeAll
    rw [List.foldl_append]
  | other h hsame ih => rw [hsame, ih]

/-- What else is asked for. -/
def otherKeys (k : Bytes) (l : List Bytes) : Finset Bytes := (l.filterMap requestKey).toFinset.erase k

/-- A request that was served is not served again, as long as the others are few. -/
theorem servedRequest_again {calls : PathRequestCalls} {i : Interface} {data' : Bytes}
    (hserved : servedRequest data s = some r) (hrun : RequestRun (pathRequestHandler env calls i data s).2 l u)
    (hfew : s.tags.Few (otherKeys r.uniqueTag l)) (hsame : requestKey data' = requestKey data) :
    servedRequest data' u = none := by
  obtain ⟨hread, hnew⟩ := judgeRequest_eq_some_iff.mp hserved
  have hkey : requestKey data = some r.uniqueTag := by
    unfold requestKey
    rw [hread]
    rfl
  have htags : u.tags = (s.tags.insert r.uniqueTag).seeAll (l.filterMap requestKey) := by
    rw [hrun.tags_eq, pathRequestHandler_tags, hkey]
    rfl
  have hknown : u.tags.contains r.uniqueTag = true := by
    rw [htags]
    exact GenerationalSet.seeAll_contains hnew hfew
  by_contra hagain
  obtain ⟨r', hr'⟩ := Option.ne_none_iff_exists'.mp hagain
  obtain ⟨hread', hnew'⟩ := judgeRequest_eq_some_iff.mp hr'
  have hkey' : some r'.uniqueTag = some r.uniqueTag := by
    rw [← hkey, ← hsame]
    unfold requestKey
    rw [hread']
    rfl
  exact hnew' (Option.some.inj hkey' ▸ hknown)

/-! ## Requests that are passed on -/

/-- A request that is read has a tag, which is at most a hash long. -/
theorem tag_of_readPathRequest (h : readPathRequest data = some r) :
    r.tag ≠ [] ∧ r.tag.length ≤ destinationLength := by
  unfold readPathRequest at h
  split at h
  case isTrue hlong =>
    cases h
    refine ⟨List.ne_nil_of_length_pos ?_, ?_⟩
    · rw [Bytes.left_length, Bytes.mid_length]
      exact Nat.lt_min.mpr ⟨by decide, by omega⟩
    · rw [Bytes.left_length]
      exact Nat.min_le_left _ _
  case isFalse =>
    split at h
    case isTrue hlong =>
      cases h
      refine ⟨List.ne_nil_of_length_pos ?_, ?_⟩
      · rw [Bytes.left_length, Bytes.mid_length]
        exact Nat.lt_min.mpr ⟨by decide, by omega⟩
      · rw [Bytes.left_length]
        exact Nat.min_le_left _ _
    case isFalse => cases h

/-- A request that is passed on keeps its key. -/
theorem requestKey_passedOn (h : readPathRequest data = some r) (identity : Address) :
    requestKey (requestPathData true identity r.destinationHash r.tag) = requestKey data := by
  obtain ⟨htag, hshort⟩ := tag_of_readPathRequest h
  have hpassed : readPathRequest (requestPathData true identity r.destinationHash r.tag)
      = some ⟨r.destinationHash, some identity, r.tag.left destinationLength⟩ :=
    readPathRequest_requestData r.destinationHash htag fun hnone => by cases hnone
  have hcut : r.tag.left destinationLength = r.tag := List.take_of_length_le hshort
  unfold requestKey
  rw [hpassed, h, hcut]
  rfl

/-- Nodes that hear each other's requests. -/
structure Network (N : Type) where
  identity : N → Address
  tags : N → GenerationalSet Bytes

namespace Network

variable {N : Type} [DecidableEq N] (net : Network N)

/-- What a node has been asked for, of all that was heard. -/
def keysAt (n : N) (log : List (N × Bytes)) : List Bytes :=
  (log.filter fun m => m.1 = n).filterMap fun m => requestKey m.2

def tagsAt (n : N) (log : List (N × Bytes)) : GenerationalSet Bytes := (net.tags n).seeAll (keysAt n log)

/-- How often a node has served a request. -/
def served (k : Bytes) (n : N) (log : List (N × Bytes)) : ℕ := (net.tags n).timesNew (keysAt n log) k

/-- How often something is asked for. -/
def asked (k : Bytes) (messages : List (N × Bytes)) : ℕ := messages.countP fun m => requestKey m.2 = some k

/-- A node serves a request by passing it on. -/
def PassesOn (n : N) (data : Bytes) (log : List (N × Bytes)) (m : N × Bytes) : Prop :=
  ∃ r, (judgeRequest data (net.tagsAt n log)).1 = some r
    ∧ m.2 = requestPathData true (net.identity n) r.destinationHash r.tag

/-- The requests in flight and those that were heard, from some in flight on. At most `fanout` hear what a node passes
on; requests can be lost, and other things can be asked for at any time. -/
inductive Run (fanout : ℕ) (k : Bytes) (start : List (N × Bytes)) : List (N × Bytes) → List (N × Bytes) → Prop
  | start : Run fanout k start start []
  | hear {before after log out : List (N × Bytes)} {n : N} {data : Bytes}
      (h : Run fanout k start (before ++ (n, data) :: after) log) (hout : ∀ m ∈ out, net.PassesOn n data log m)
      (hfanout : out.length ≤ fanout) : Run fanout k start (out ++ (before ++ after)) (log ++ [(n, data)])
  | lose {before after log : List (N × Bytes)} {m : N × Bytes} (h : Run fanout k start (before ++ m :: after) log) :
      Run fanout k start (before ++ after) log
  | other {inFlight log : List (N × Bytes)} {m : N × Bytes} (h : Run fanout k start inFlight log)
      (hother : requestKey m.2 ≠ some k) : Run fanout k start (m :: inFlight) log

variable {net} {k : Bytes} {n : N}

theorem keysAt_append (n' : N) (log : List (N × Bytes)) :
    keysAt n' (log ++ [(n, data)]) = keysAt n' log ++ if n' = n then (requestKey data).toList else [] := by
  unfold keysAt
  rw [List.filter_append, List.filterMap_append]
  congr 1
  by_cases hsame : n = n'
  case pos =>
    subst hsame
    rw [if_pos rfl, List.filter_cons_of_pos (by simp)]
    exact filterMap_singleton data
  case neg =>
    rw [if_neg (Ne.symm hsame), List.filter_cons_of_neg (by simpa using hsame)]
    rfl

/-- A node serves what is new to it. -/
theorem served_append (n' : N) (log : List (N × Bytes)) :
    net.served k n' (log ++ [(n, data)]) = net.served k n' log
      + if n' = n then (if (judgeRequest data (net.tagsAt n log)).1.map TaggedRequest.uniqueTag = some k then 1 else 0)
        else 0 := by
  unfold served
  rw [keysAt_append]
  by_cases hsame : n' = n
  case neg => rw [if_neg hsame, if_neg hsame, List.append_nil, Nat.add_zero]
  case pos =>
    subst hsame
    rw [if_pos rfl, if_pos rfl]
    unfold judgeRequest requestKey
    cases readPathRequest data with
    | none => simp
    | some r =>
      show (net.tags n').timesNew (keysAt n' log ++ [r.uniqueTag]) k = _
      rw [GenerationalSet.timesNew_append]
      congr 1
      show _ = if ((if (net.tagsAt n' log).contains r.uniqueTag = true then (none, net.tagsAt n' log)
        else (some r, (net.tagsAt n' log).insert r.uniqueTag)).1).map TaggedRequest.uniqueTag = some k then 1 else 0
      by_cases hknown : (net.tagsAt n' log).contains r.uniqueTag = true
      case pos =>
        rw [if_pos hknown, if_neg fun h => h.1 hknown]
        rfl
      case neg =>
        rw [if_neg hknown]
        have hnew : ¬ ((net.tags n').seeAll (keysAt n' log)).contains r.uniqueTag = true := hknown
        simp [hnew]

omit [DecidableEq N] in
theorem asked_append (k : Bytes) (messages messages' : List (N × Bytes)) :
    asked k (messages ++ messages') = asked k messages + asked k messages' := List.countP_append

omit [DecidableEq N] in
theorem asked_cons (k : Bytes) (m : N × Bytes) (messages : List (N × Bytes)) :
    asked k (m :: messages) = asked k messages + if requestKey m.2 = some k then 1 else 0 := by
  unfold asked
  rw [List.countP_cons]
  simp only [decide_eq_true_eq]

/-- What a node passes on asks for what it was asked for. -/
theorem asked_passedOn {log out : List (N × Bytes)} (hout : ∀ m ∈ out, net.PassesOn n data log m)
    (k : Bytes) : asked k out
      ≤ if (judgeRequest data (net.tagsAt n log)).1.map TaggedRequest.uniqueTag = some k then out.length else 0 := by
  split
  case isTrue => exact List.countP_le_length
  case isFalse hother =>
    apply Nat.le_of_eq
    apply List.countP_eq_zero.mpr
    intro m hm
    obtain ⟨r, hr, hdata⟩ := hout m hm
    obtain ⟨hread, -⟩ := judgeRequest_eq_some_iff.mp hr
    rw [hdata, requestKey_passedOn hread, decide_eq_true_iff]
    intro hkey
    unfold requestKey at hkey
    rw [hread] at hkey
    rw [hr] at hother
    exact hother hkey

section

variable [Fintype N]

/-- A request that is heard is one less in flight, and what replaces it has been served. -/
theorem Run.asked_le {fanout : ℕ} {start inFlight log : List (N × Bytes)} (h : net.Run fanout k start inFlight log) :
    asked k inFlight + asked k log ≤ asked k start + fanout * ∑ n, net.served k n log := by
  induction h with
  | start =>
    show _ + 0 ≤ _
    omega
  | @hear before after log out n data h hout hfanout ih =>
    obtain ⟨new, hnew⟩ : ∃ new, new =
      if (judgeRequest data (net.tagsAt n log)).1.map TaggedRequest.uniqueTag = some k then 1 else 0 := ⟨_, rfl⟩
    have hserved : ∑ n', net.served k n' (log ++ [(n, data)]) = (∑ n', net.served k n' log) + new := by
      simp only [served_append, ← hnew, Finset.sum_add_distrib, Finset.sum_ite_eq', Finset.mem_univ, if_true]
    have hpassed : asked k out ≤ fanout * new := by
      apply (asked_passedOn hout k).trans
      rw [hnew]
      split
      · omega
      · omega
    rw [asked_append, asked_cons] at ih
    rw [hserved, asked_append, asked_append, asked_append, asked_cons, Nat.mul_add]
    have hnone : asked k ([] : List (N × Bytes)) = 0 := rfl
    omega
  | lose h ih =>
    rw [asked_append, asked_cons] at ih
    rw [asked_append]
    omega
  | other h hother ih =>
    rw [asked_cons, if_neg hother]
    exact ih

/-- A request dies out: among few others, it is heard no more often than it started and the nodes pass it on. -/
theorem Run.dies_out {fanout : ℕ} {start inFlight log : List (N × Bytes)} (h : net.Run fanout k start inFlight log)
    (hfew : ∀ n, (net.tags n).Few ((keysAt n log).toFinset.erase k)) :
    asked k log ≤ asked k start + fanout * Fintype.card N := by
  have honce : ∑ n, net.served k n log ≤ Fintype.card N := by
    calc ∑ n, net.served k n log ≤ ∑ _n : N, 1 :=
          Finset.sum_le_sum fun n _ => GenerationalSet.timesNew_le k (hfew n)
      _ = Fintype.card N := (Finset.card_eq_sum_ones Finset.univ).symm
  have hbound := h.asked_le
  have hfanout := Nat.mul_le_mul_left fanout honce
  omega

end

end Network

/-- Path requests are answered once for each tag. In both layouts, and with any tag that is at most a hash long where
there is no transport id, a request is told apart by its destination and its tag, cut to the length of a hash. One
that was served is not served again, and leaves the node as it is, as long as what else is asked for is less than half
of what the tags have room for; what has nothing behind the destination is never served. So a request that nodes pass
on to each other dies out. -/
theorem path_requests_once_per_tag :
    (∀ (destinationHash : Address) (transportId : Option Address) (tag : Bytes), tag ≠ [] →
        (transportId = none → tag.length ≤ destinationLength) →
        requestKey (requestData destinationHash transportId tag)
          = some (destinationHash.toList ++ tag.left destinationLength))
      ∧ (∀ (s : RequestState) (data : Bytes) (r : TaggedRequest), servedRequest data s = some r →
        ∀ env calls i l u, RequestRun (pathRequestHandler env calls i data s).2 l u →
        (s.tags.maxSize = 0 ∨ 2 * (otherKeys r.uniqueTag l).card < s.tags.maxSize) →
        ∀ data', requestKey data' = requestKey data → servedRequest data' u = none
          ∧ ∀ env calls i, pathRequestHandler env calls i data' u = (.value (), u))
      ∧ (∀ (data : Bytes) (s : RequestState), data.length ≤ destinationLength → servedRequest data s = none)
      ∧ ∀ (N : Type) [DecidableEq N] [Fintype N] (net : Network N) (fanout : ℕ) (k : Bytes)
        (start inFlight log : List (N × Bytes)), net.Run fanout k start inFlight log →
        (∀ n, (net.tags n).maxSize = 0
          ∨ 2 * ((Network.keysAt n log).toFinset.erase k).card < (net.tags n).maxSize) →
        Network.asked k log ≤ Network.asked k start + fanout * Fintype.card N := by
  have hhalf : ∀ (tags : GenerationalSet Bytes) (others : Finset Bytes),
      tags.maxSize = 0 ∨ 2 * others.card < tags.maxSize → tags.Few others := by
    intro tags others h
    unfold GenerationalSet.Few GenerationalSet.half
    omega
  refine ⟨?_, ?_, ?_, ?_⟩
  · intro destinationHash transportId tag htag hshort
    unfold requestKey
    rw [readPathRequest_requestData destinationHash htag hshort]
    rfl
  · intro s data r hserved env calls i l u hrun hfew data' hsame
    have hagain := servedRequest_again hserved hrun (hhalf _ _ hfew) hsame
    exact ⟨hagain, fun env calls i => pathRequestHandler_unserved env calls i hagain⟩
  · intro data s hshort
    have hread : readPathRequest data = none := by
      unfold readPathRequest
      rw [dif_neg (by omega), dif_neg (by omega)]
    unfold servedRequest judgeRequest
    rw [hread]
  · intro N _ _ net fanout k start inFlight log hrun hfew
    exact hrun.dies_out fun n => hhalf _ _ (hfew n)

namespace Sample

/-- A node that has seen no tags yet. -/
def unasked : RequestState := ⟨{ maxSize := 32 }, {}⟩

/-- Nothing happens where `path_request` goes on. -/
def deaf : PathRequestCalls where
  announceLocal _ s := (.ok (), s)
  requestPath _ _ s := (.ok (), s)

end Sample

/-- The request comes back from a node that passed it on. -/
theorem request_comes_back :
    servedRequest (requestData (.fill 1) (some (.fill 5)) [9])
      (pathRequestHandler .idle Sample.deaf { id := 1 } (requestData (.fill 1) none [9]) Sample.unasked).2 = none := by
  obtain ⟨r, hr⟩ : ∃ r, servedRequest (requestData (.fill 1) none [9]) Sample.unasked = some r :=
    Option.isSome_iff_exists.mp (by decide)
  have hsame : requestKey (requestData (.fill 1) (some (.fill 5)) [9]) = requestKey (requestData (.fill 1) none [9]) := by
    decide
  have hfew : 2 * (otherKeys r.uniqueTag []).card < Sample.unasked.tags.maxSize := by
    rw [show otherKeys r.uniqueTag [] = ∅ from Finset.erase_empty _]
    decide
  exact (path_requests_once_per_tag.2.1 Sample.unasked _ r hr .idle Sample.deaf { id := 1 } [] _ .start
    (.inr hfew) _ hsame).1

/-- Without a transport id, the sixteen bytes that two long tags share are taken for one. -/
theorem long_tags_served_twice : ¬ ∀ (destinationHash : Address) (transportId : Option Address) (tag tag' : Bytes)
    (s : RequestState), 0 < s.tags.maxSize → tag ≠ [] → tag.left destinationLength = tag'.left destinationLength →
    servedRequest (requestData destinationHash transportId tag) s ≠ none → ∀ env calls i,
      servedRequest (requestData destinationHash transportId tag')
        (pathRequestHandler env calls i (requestData destinationHash transportId tag) s).2 = none := by
  intro h
  have hagain := h (.fill 1) none (List.replicate 16 2 ++ [3]) (List.replicate 16 2 ++ [4]) Sample.unasked (by decide)
    (by decide) (by decide) (by decide) .idle Sample.deaf { id := 1 }
  unfold servedRequest at hagain
  rw [pathRequestHandler_tags] at hagain
  revert hagain
  decide

end MicroReticulum.Transport
