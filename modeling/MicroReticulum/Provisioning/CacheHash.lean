import MicroReticulum.Provisioning.WellFormed

/-!
# The hash behind an operation and the hash of the state

SetState and Commit can report the state they leave together with a checksum, which a client keeps as the
`PriorHash` of its next GetState. The two checksums are made of different bytes: GetState packs the map
header and the keys of `Values` and `Drafts` and takes the namespaces in the order of registration, while
the other two pack the values and the drafts alone, in the order of the request. No request makes the two
strings of bytes the same (`contents_differ`): read side by side they part at the first value of a field,
if not before.

So the checksums agree only where CRC-32 overlooks a difference. A checksum does not care about a common
ending. Where only the prefix is different, it overlooks the difference never without drafts, and with
drafts by accident of the prefix (`hashes_agree_of_order`). In another order the difference goes through the
whole of the shorter string, and it is overlooked if it is a multiple of the polynomial. That this is
rare is not proved; it is a matter of the values a device happens to have.
-/

namespace MicroReticulum.Provisioning

open MicroReticulum Library Utilities Provisioner

variable {R F : Type}

/-- What is used of the format: objects are packed one after the other, the first two objects of a GetState
response, and what the first bytes of an object say. -/
structure Env.PacksPrefix (env : Env F) : Prop where
  append : ∀ a b, env.encode (a ++ b) = env.encode a ++ env.encode b
  /-- a 16-bit number in one of the forms that hold it -/
  mapOfValues : env.encode [.map 1, num Key.values.toNat] ∈
    [[0x81, 0x01], [0x81, 0xcc, 0x01], ([0x81, 0xcd, 0x00, 0x01] : Bytes)]
  /-- fewer than sixteen entries are counted in the first byte of a map -/
  mapsDiffer : ∀ (m n : Nat) (a b : List Token), n < 16 → m ≠ n →
    env.encode (.map m :: a) ≠ env.encode (.map n :: b)
  numsDiffer : ∀ (m n : UInt16) (a b : List Token), m ≠ n →
    env.encode (num m.toNat :: a) ≠ env.encode (num n.toNat :: b)
  /-- the first byte tells a map from everything else -/
  mapAlone : ∀ (t : Token) (n : Nat) (a b : List Token), (∀ m, t ≠ .map m) →
    env.encode (t :: a) ≠ env.encode (.map n :: b)

/-- The namespaces of a response that have drafts to report. -/
def reportedDrafts (q : Provisioner R F) (touched : List (NamespaceDecl R)) (draft : Bool) :
    List (NamespaceDecl R) :=
  if draft then withDrafts q touched else []

/-- What the `PostOpHash` is made of. -/
def postOpContent (q : Provisioner R F) (touched : List (NamespaceDecl R)) (draft : Bool) : List Token :=
  packNsValues q touched ++
    if (reportedDrafts q touched draft).isEmpty then []
    else packNsDrafts q (reportedDrafts q touched draft)

/-- A GetState request for the namespaces of a response, with drafts or without. -/
structure FollowsUp (touched : List (NamespaceDecl R)) (draft : Bool) (o : Options) : Prop where
  hasFilter : o.hasFilter = true
  same : ∀ id, id ∈ o.filter ↔ id ∈ touched.map NamespaceDecl.id
  draft : o.draft = draft

/-! ## What is hashed -/

section Contents

variable {env : Env F} {q : Provisioner R F} {touched : List (NamespaceDecl R)} {draft : Bool}
  {o : Options}

/-- Behind the same object, two strings are the same if they are without it. -/
theorem Env.PacksPrefix.encode_cons_inj (hpacks : env.PacksPrefix) (t : Token) {a b : List Token}
    (h : env.encode (t :: a) = env.encode (t :: b)) : env.encode a = env.encode b := by
  have hcons : ∀ l : List Token, env.encode (t :: l) = env.encode [t] ++ env.encode l := fun l =>
    hpacks.append [t] l
  rw [hcons a, hcons b] at h
  exact List.append_cancel_left h

/-- A value is packed with something in front that is not a map. -/
theorem packValue_head {v : Value} (h : v.isNone = false) :
    ∃ t rest, packValue v = t :: rest ∧ ∀ n, t ≠ .map n := by
  cases v with
  | none => cases h
  | _ => exact ⟨_, _, rfl, fun _ => Token.noConfusion⟩

/-- A namespace with entries to report begins with the number of a field and its value. -/
theorem fieldValues_head {d : NamespaceDecl R} (h : fieldEntries q d ≠ 0) :
    ∃ (f : Field R) (t : Token) (rest : List Token), (d.fields.flatMap fun f =>
      let v := reportedValue q d f
      if v.isNone then [] else num f.id.toNat :: packValue v) = num f.id.toNat :: t :: rest
        ∧ ∀ n, t ≠ .map n := by
  unfold fieldEntries at h
  revert h
  induction d.fields with
  | nil => exact fun h => absurd rfl h
  | cons f fields ih =>
    intro h
    rw [List.flatMap_cons]
    cases hnone : (reportedValue q d f).isNone with
    | true =>
      rw [List.countP_cons_of_neg (by rw [hnone]; decide)] at h
      obtain ⟨g, t, rest, heq, ht⟩ := ih h
      refine ⟨g, t, rest, ?_, ht⟩
      dsimp only at heq ⊢
      rw [heq, if_pos hnone, List.nil_append]
    | false =>
      obtain ⟨t, rest, hvalue, ht⟩ := packValue_head hnone
      refine ⟨f, t, rest ++ fields.flatMap fun g =>
        if (reportedValue q d g).isNone then [] else num g.id.toNat :: packValue (reportedValue q d g),
        ?_, ht⟩
      dsimp only
      rw [if_neg (by rw [hnone]; decide), hvalue]
      rfl

/-- The follow-up is about some of the namespaces of the response, and not more of them. -/
theorem inScope_length_le (ho : FollowsUp touched draft o) : (inScope q o).length ≤ touched.length := by
  have hnodup : ((inScope q o).map NamespaceDecl.id).Nodup :=
    (decls_nodup q).sublist ((inScope_sublist q o).map _)
  have hsub : (inScope q o).map NamespaceDecl.id ⊆ touched.map NamespaceDecl.id := by
    intro id hid
    obtain ⟨d, hd, rfl⟩ := List.mem_map.mp hid
    unfold inScope at hd
    rw [if_pos ho.hasFilter] at hd
    exact (ho.same _).mp (List.contains_iff_mem.mp (List.mem_filter.mp hd).2)
  simpa using (List.subperm_of_subset hnodup hsub).length_le

theorem mem_inScope (ho : FollowsUp touched draft o) {d : NamespaceDecl R} (hd : d ∈ touched)
    (hregistered : d ∈ q.decls) : d ∈ inScope q o := by
  unfold inScope
  rw [if_pos ho.hasFilter]
  refine List.mem_filter.mpr ⟨hregistered, List.contains_iff_mem.mpr ?_⟩
  exact (ho.same _).mpr (List.mem_map_of_mem hd)

/-- The content of a GetState response begins with a map of one or two entries, the first of which are the
values. -/
theorem packContent_head (q : Provisioner R F) (o : Options) :
    ∃ n rest, 0 < n ∧ n < 3 ∧ packContent q o none
      = .map n :: num Key.values.toNat :: (packNsValues q (inScope q o) ++ rest) := by
  unfold packContent packEntries
  dsimp only
  generalize (if o.draft then withDrafts q (inScope q o) else []) = drafts
  cases (o.draft && !drafts.isEmpty) with
  | false => exact ⟨1, [], by decide, by decide, by simp⟩
  | true => exact ⟨2, num Key.drafts.toNat :: packNsDrafts q drafts, by decide, by decide, by simp⟩

/-- The two checksums are never made of the same bytes. -/
theorem contents_differ (hpacks : env.PacksPrefix) (hregistered : ∀ d ∈ touched, d ∈ q.decls)
    (ho : FollowsUp touched draft o) :
    env.encode (postOpContent q touched draft) ≠ env.encode (packContent q o none) := by
  obtain ⟨n, rest, hpos, hn, hcontent⟩ := packContent_head q o
  have hscope := inScope_length_le (q := q) ho
  rw [hcontent]
  unfold postOpContent
  generalize (if (reportedDrafts q touched draft).isEmpty then []
    else packNsDrafts q (reportedDrafts q touched draft)) = drafts
  intro heq
  -- the two are read object by object, and each object says how they go on
  have hcount : touched.length = n := not_not.mp fun hne => hpacks.mapsDiffer _ _ _ _ (by omega) hne heq
  obtain ⟨d, others, rfl⟩ := List.exists_cons_of_length_pos (hcount ▸ hpos)
  have hin := mem_inScope ho List.mem_cons_self (hregistered d List.mem_cons_self)
  obtain ⟨e, scope, he⟩ := List.exists_cons_of_ne_nil (List.ne_nil_of_mem hin)
  rw [he] at hscope heq
  unfold packNsValues at heq
  rw [hcount] at heq
  replace heq := hpacks.encode_cons_inj _ heq
  rw [List.flatMap_cons] at heq
  have hid : d.id = Key.values := not_not.mp fun hne => hpacks.numsDiffer _ _ _ _ hne heq
  rw [hid] at heq
  replace heq := hpacks.encode_cons_inj _ heq
  have hentries : fieldEntries q d = (e :: scope).length :=
    not_not.mp fun hne => hpacks.mapsDiffer _ _ _ _ (by omega) hne heq
  obtain ⟨f, t, values, hvalues, ht⟩ := fieldValues_head (q := q) (d := d) (by rw [hentries]; exact Nat.succ_ne_zero _)
  rw [hentries, hvalues, List.flatMap_cons] at heq
  replace heq := hpacks.encode_cons_inj _ heq
  have hfield : f.id = e.id := not_not.mp fun hne => hpacks.numsDiffer _ _ _ _ hne heq
  rw [hfield] at heq
  exact hpacks.mapAlone _ _ _ _ ht (hpacks.encode_cons_inj _ heq)

end Contents

/-! ## In the order of registration -/

/-- A part of a list, found again by its keys. -/
theorem filter_eq_of_sublist {α β : Type} (key : α → β) {l part : List α} (h : part.Sublist l)
    (hnodup : (l.map key).Nodup) (c : α → Bool)
    (hc : ∀ a ∈ l, c a = true ↔ key a ∈ part.map key) : l.filter c = part := by
  induction h with
  | slnil => rfl
  | @cons part l a hpart ih =>
    rw [List.map_cons, List.nodup_cons] at hnodup
    have hout : ¬ c a = true := fun hin =>
      hnodup.1 ((hpart.map key).subset ((hc a List.mem_cons_self).mp hin))
    rw [List.filter_cons_of_neg hout]
    exact ih hnodup.2 fun b hb => hc b (List.mem_cons_of_mem a hb)
  | @cons_cons part l a hpart ih =>
    rw [List.map_cons, List.nodup_cons] at hnodup
    have hin : c a = true := (hc a List.mem_cons_self).mpr List.mem_cons_self
    rw [List.filter_cons_of_pos hin]
    refine congrArg _ (ih hnodup.2 fun b hb => ?_)
    have hne : key b ≠ key a := fun heq => hnodup.1 (heq ▸ List.mem_map_of_mem hb)
    rw [hc b (List.mem_cons_of_mem a hb), List.map_cons, List.mem_cons, or_iff_right hne]

section Order

variable {env : Env F} {q : Provisioner R F} {touched : List (NamespaceDecl R)} {draft : Bool}
  {o : Options}

theorem inScope_followsUp (ho : FollowsUp touched draft o) (horder : touched.Sublist q.decls) :
    inScope q o = touched := by
  unfold inScope
  rw [if_pos ho.hasFilter]
  refine filter_eq_of_sublist NamespaceDecl.id horder (decls_nodup q) _ fun d _ => ?_
  rw [← ho.same, List.contains_iff_mem]

/-- What the hash of the follow-up is made of. -/
theorem packContent_followsUp (ho : FollowsUp touched draft o) (horder : touched.Sublist q.decls) :
    packContent q o none = if (reportedDrafts q touched draft).isEmpty then
        [.map 1, num Key.values.toNat] ++ packNsValues q touched
      else ([.map 2, num Key.values.toNat] ++ packNsValues q touched ++ [num Key.drafts.toNat])
        ++ packNsDrafts q (reportedDrafts q touched draft) := by
  have hdrafts : (draft && !(if draft then withDrafts q touched else []).isEmpty)
      = !(if draft then withDrafts q touched else []).isEmpty := by
    cases draft <;> rfl
  unfold packContent reportedDrafts
  rw [inScope_followsUp ho horder, ho.draft]
  dsimp only
  rw [hdrafts]
  cases (if draft then withDrafts q touched else []).isEmpty <;> simp [packEntries]

/-- The two checksums in the order of registration. -/
theorem hashes_agree_of_order (hpacks : env.PacksPrefix) (ho : FollowsUp touched draft o)
    (horder : touched.Sublist q.decls) :
    crc32 0 (env.encode (postOpContent q touched draft)) = bodyHash env q o
      ↔ reportedDrafts q touched draft ≠ []
        ∧ crcRegister (env.encode ([.map 2, num Key.values.toNat] ++ packNsValues q touched
            ++ [num Key.drafts.toNat]))
          = crcRegister (env.encode (packNsValues q touched)) := by
  unfold bodyHash postOpContent
  rw [packContent_followsUp ho horder, crc32_eq_iff]
  cases hdrafts : (reportedDrafts q touched draft).isEmpty with
  | true =>
    refine iff_of_false (fun h => ?_) fun h => h.1 (List.isEmpty_iff.mp hdrafts)
    rw [if_pos rfl, if_pos rfl, List.append_nil, hpacks.append] at h
    have hprefix : crcRegister [] = crcRegister (env.encode [.map 1, num Key.values.toNat]) :=
      (crcRegister_append_inj (env.encode (packNsValues q touched))).mp h
    have hforms := hpacks.mapOfValues
    simp only [List.mem_cons, List.not_mem_nil, or_false] at hforms
    rcases hforms with hform | hform | hform <;> rw [hform] at hprefix <;>
      exact absurd hprefix (by decide +kernel)
  | false =>
    have hne : reportedDrafts q touched draft ≠ [] := by
      intro hnil
      rw [hnil] at hdrafts
      cases hdrafts
    rw [if_neg (by simp), if_neg (by simp), hpacks.append, hpacks.append, crcRegister_append_inj,
      and_iff_right hne, eq_comm]

end Order

/-! ## Responses with the state -/

/-- A request to report the state behind a SetState or a Commit. -/
def AsksState (env : Env F) (p : Provisioner R F) (op : UInt8) (payload : Option Cursor) : Prop :=
  op = Op.setState ∧ (∃ n rest, payload = some (.map n :: rest)
      ∧ (setStateRun env p (.map n :: rest)).sawState = true
      ∧ (setStateRun env p (.map n :: rest)).includeState = true)
    ∨ op = Op.commit
      ∧ (readOptions { namespaceFilter := true, includeState := true } payload).includeState = true

/-- The namespaces a response reports, in its order: those a SetState request names, or those a Commit has
gone through. -/
def reportedNamespaces (env : Env F) (p : Provisioner R F) (op : UInt8) (payload : Option Cursor) :
    List (NamespaceDecl R) :=
  if op = Op.setState then (setStateRun env p (payload.getD [])).touched
  else match (commitRun env payload p).1 with
    | .value a => a.1.touched
    | _ => []

/-- The response reports the values of the namespaces, and the hash in its last entry. -/
def ReportsState (env : Env F) (op : UInt8) (seq : UInt64) (q : Provisioner R F)
    (touched : List (NamespaceDecl R)) (hash : UInt32) (response : List Token) : Prop :=
  ∃ compress n front between, response = packResponse env op seq compress (.map n :: packEntries
    (front ++ ([(Key.postOpValues, packNsValues q touched)] ++ between
      ++ [(Key.postOpHash, [num hash.toNat])])))

theorem commitRun_decls (env : Env F) (payload : Option Cursor) :
    Prog.Keeps SameDecls (commitRun (R := R) env payload) := by
  unfold commitRun
  refine Prog.Keeps.bind SameDecls.trans (Prog.Keeps.get SameDecls.refl) fun p => ?_
  refine Prog.Keeps.bind SameDecls.trans ?_ fun progress => ?_
  · refine Prog.Keeps.fold SameDecls.refl SameDecls.trans _ (fun d _ progress => ?_) _
    rw [commitNamespace_eq]
    exact Prog.Keeps.bind SameDecls.trans (commitDrafts_decls env d) fun _ =>
      Prog.Keeps.pure SameDecls.refl _
  · refine Prog.Keeps.bind SameDecls.trans (setRebootFlag_decls _) fun _ => ?_
    exact Prog.Keeps.bind SameDecls.trans (Prog.Keeps.get SameDecls.refl) fun _ =>
      Prog.Keeps.pure SameDecls.refl _

section Reports

variable {env : Env F} {p q : Provisioner R F} {op : UInt8} {seq : UInt64} {payload : Option Cursor}
  {response : List Token}

theorem setState_reports {a : SetStateRun R F} (hinclude : a.includeState = true) :
    ReportsState env Op.setState seq a.p a.touched
      (crc32 0 (env.encode (postOpContent a.p a.touched true))) (setStateResponse env seq a) := by
  have hdrafts : reportedDrafts a.p a.touched true = touchedWithDrafts a := by
    unfold touchedWithDrafts
    rw [if_pos hinclude]
    rfl
  have hhash : crc32 0 (env.encode (postOpContent a.p a.touched true)) = setStateHash env a := by
    unfold postOpContent setStateHash
    rw [hdrafts]
  rw [hhash]
  unfold ReportsState setStateResponse setStateBody
  dsimp only
  rw [if_pos hinclude, if_pos hinclude]
  exact ⟨a.compress, _, _, _, rfl⟩

theorem commit_reports {applied : Nat} {touched : List (NamespaceDecl R)} (compress : Bool) :
    ReportsState env Op.commit seq q touched
      (crc32 0 (env.encode (postOpContent q touched false)))
      (packResponse env Op.commit seq compress (commitBody env q true applied touched)) := by
  have hhash : crc32 0 (env.encode (postOpContent q touched false)) = commitHash env q touched := by
    unfold postOpContent commitHash reportedDrafts
    simp
  rw [hhash]
  exact ⟨compress, _, [(Key.applied, [num applied]), (Key.needsReboot, [.bool q.needsReboot])], [], rfl⟩

/-- Every response that is asked for the state reports it. -/
theorem reports_of_asksState (hasks : AsksState env p op payload)
    (hrun : dispatch env op seq payload p = (.value response, q)) :
    ReportsState env op seq q (reportedNamespaces env p op payload)
      (crc32 0 (env.encode (postOpContent q (reportedNamespaces env p op payload) (op = Op.setState))))
      response := by
  rcases hasks with ⟨rfl, n, rest, rfl, hstate, hinclude⟩ | ⟨rfl, hinclude⟩
  · have hset : dispatch env Op.setState seq (some (.map n :: rest)) p
        = opSetState env seq (some (.map n :: rest)) p := rfl
    rw [hset, opSetState_run] at hrun
    have htouched : reportedNamespaces env p Op.setState (some (.map n :: rest))
        = (setStateRun env p (.map n :: rest)).touched := rfl
    rw [htouched]
    generalize setStateRun env p (.map n :: rest) = a at *
    simp only [hstate, if_true, Prod.mk.injEq, Outcome.value.injEq] at hrun
    obtain ⟨rfl, rfl⟩ := hrun
    exact setState_reports hinclude
  · have hcommit : dispatch env Op.commit seq payload p = opCommit env seq payload p := rfl
    rw [hcommit, opCommit_eq, Prog.bind_pure_run, hinclude] at hrun
    rcases hresult : commitRun env payload p with ⟨a | _ | _ | _, t⟩ <;> rw [hresult] at hrun <;>
      cases hrun
    obtain ⟨progress, last⟩ := a
    obtain rfl : last = t := commitRun_state hresult
    have htouched : reportedNamespaces env p Op.commit payload = progress.touched := by
      unfold reportedNamespaces
      rw [if_neg (by decide), hresult]
    rw [htouched]
    exact commit_reports _

/-- What is reported is registered, and stays so. -/
theorem mem_reportedNamespaces (hasks : AsksState env p op payload)
    (hrun : dispatch env op seq payload p = (.value response, q)) :
    ∀ d ∈ reportedNamespaces env p op payload, d ∈ q.decls := by
  rcases hasks with ⟨rfl, n, rest, rfl, hstate, -⟩ | ⟨rfl, -⟩
  · have hset : dispatch env Op.setState seq (some (.map n :: rest)) p
        = opSetState env seq (some (.map n :: rest)) p := rfl
    rw [hset, opSetState_run] at hrun
    have htouched := (setStateRun_touchedOnce env p (.map n :: rest)).1
    simp only [hstate, if_true, Prod.mk.injEq] at hrun
    exact hrun.2 ▸ htouched
  · have hcommit : dispatch env Op.commit seq payload p = opCommit env seq payload p := rfl
    rw [hcommit, opCommit_eq, Prog.bind_pure_run] at hrun
    have hkept := commitRun_decls env payload p
    unfold reportedNamespaces
    rw [if_neg (by decide)]
    rcases hresult : commitRun env payload p with ⟨a | _ | _ | _, t⟩ <;> rw [hresult] at hrun hkept <;>
      cases hrun
    intro d hd
    exact hkept ▸ commitScope_mem ((commitRun_touched hresult).1.subset hd)

end Reports

/-- The checksum is blind for the difference of the two. In the order of registration: there are drafts, and
the register happens to be the same behind the values as behind the first header and key, the values and
the second key. In another order: the difference is a multiple of the polynomial. -/
def HashesCoincide (env : Env F) (q : Provisioner R F) (touched : List (NamespaceDecl R)) (draft : Bool)
    (o : Options) : Prop :=
  (touched.Sublist q.decls → reportedDrafts q touched draft ≠ []
    ∧ crcRegister (env.encode ([.map 2, num Key.values.toNat] ++ packNsValues q touched
        ++ [num Key.drafts.toNat]))
      = crcRegister (env.encode (packNsValues q touched)))
  ∧ (¬ touched.Sublist q.decls → CrcOverlooks (env.encode (postOpContent q touched draft))
      (env.encode (packContent q o none)))

/-- The two checksums, in any order. -/
theorem hashes_agree_iff {env : Env F} (hpacks : env.PacksPrefix) {touched : List (NamespaceDecl R)}
    {draft : Bool} {o : Options} (ho : FollowsUp touched draft o) (q : Provisioner R F) :
    crc32 0 (env.encode (postOpContent q touched draft)) = bodyHash env q o
      ↔ HashesCoincide env q touched draft o := by
  unfold HashesCoincide
  by_cases horder : touched.Sublist q.decls
  · rw [hashes_agree_of_order hpacks ho horder]
    exact ⟨fun h => ⟨fun _ => h, fun hno => absurd horder hno⟩, fun h => h.1 horder⟩
  · unfold bodyHash
    rw [crc32_eq_iff, crcRegister_eq_iff]
    exact ⟨fun h => ⟨fun hyes => absurd hyes horder, fun _ => h⟩, fun h => h.2 horder⟩

/-- The options of a GetState request. -/
def getOptions (payload : Option Cursor) : Options :=
  readOptions { namespaceFilter := true, draft := true, priorHash := true } payload

/-- The payload that tells a client that nothing has changed. -/
def unchangedBody : List Token := .map 1 :: packEntries [(Key.unchanged, [.bool true])]

/-- A GetState request is answered so exactly if it brings the hash along. -/
theorem stateBody_unchanged_iff (env : Env F) (q : Provisioner R F) (o : Options) :
    stateBody env q o = unchangedBody ↔ o.priorHash = some (bodyHash env q o) := by
  unfold stateBody
  split
  case isTrue h => exact iff_of_true rfl h
  case isFalse h =>
    refine iff_of_false (fun heq => ?_) h
    have hcount := Token.map.inj (List.cons.inj heq).1
    rw [Option.isSome_some, if_pos rfl] at hcount
    omega

/-- No request makes the two hashes be taken of the same bytes. The hash that is reported is the hash of the
follow-up, and the state is unchanged for a client that sends it back, exactly if CRC-32 is blind for the
difference; and never if the namespaces are named in the order of registration and leave no drafts. -/
theorem post_op_hash_iff (env : Env F) (hpacks : env.PacksPrefix) (p q : Provisioner R F) (op : UInt8)
    (seq : UInt64) (payload : Option Cursor) (response : List Token)
    (hasks : AsksState env p op payload)
    (hrun : dispatch env op seq payload p = (.value response, q)) :
    ∃ hash, ReportsState env op seq q (reportedNamespaces env p op payload) hash response
      ∧ ∀ get : Option Cursor,
        FollowsUp (reportedNamespaces env p op payload) (op = Op.setState) (getOptions get) →
        env.encode (postOpContent q (reportedNamespaces env p op payload) (op = Op.setState))
            ≠ env.encode (packContent q (getOptions get) none)
          ∧ (hash = bodyHash env q (getOptions get)
            ↔ HashesCoincide env q (reportedNamespaces env p op payload) (op = Op.setState) (getOptions get))
          ∧ ((getOptions get).priorHash = some hash →
            (stateBody env q (getOptions get) = unchangedBody
              ↔ HashesCoincide env q (reportedNamespaces env p op payload) (op = Op.setState)
                (getOptions get))) := by
  refine ⟨_, reports_of_asksState hasks hrun, fun get hget => ?_⟩
  have hagree := hashes_agree_iff hpacks hget q
  refine ⟨contents_differ hpacks (mem_reportedNamespaces hasks hrun) hget, hagree, fun hprior => ?_⟩
  rw [← hagree, stateBody_unchanged_iff, hprior]
  exact ⟨fun h => Option.some.inj h, congrArg some⟩

/-! ### On the desk -/

/-- The first byte of a map. -/
def MapByte (b : UInt8) : Prop := 0x80 ≤ b ∧ b < 0x90 ∨ b = 0xde ∨ b = 0xdf

instance (b : UInt8) : Decidable (MapByte b) := inferInstanceAs (Decidable (_ ∨ _))

theorem packHeader_head (short limit : Nat) (code : UInt8) (n : Nat) :
    ∃ b rest, packHeader short limit code n = b :: rest
      ∧ (n < limit ∧ b = UInt8.ofNat (short + n) ∨ limit ≤ n ∧ (b = code ∨ b = code + 1)) := by
  unfold packHeader
  split
  case isTrue h => exact ⟨_, _, rfl, .inl ⟨h, rfl⟩⟩
  case isFalse h =>
    split
    · exact ⟨_, _, rfl, .inr ⟨by omega, .inl rfl⟩⟩
    · exact ⟨_, _, rfl, .inr ⟨by omega, .inr rfl⟩⟩

/-- Bytes from a range that holds no first byte of a map. -/
theorem not_mapByte_ofNat {n : Nat} (h : n < 256) (hrange : n < 0x80 ∨ 0x90 ≤ n ∧ n < 0xde) :
    ¬ MapByte (UInt8.ofNat n) := by
  unfold MapByte
  simp only [UInt8.le_iff_toNat_le, UInt8.lt_iff_toNat_lt, ← UInt8.toNat_inj, UInt8.toNat_ofNat',
    Nat.mod_eq_of_lt h]
  simp
  omega

theorem packToken_head (t : Token) (ht : ∀ n, t ≠ .map n) :
    ∃ b rest, packToken t = b :: rest ∧ ¬ MapByte b := by
  have hheader : ∀ (short limit : Nat) (code : UInt8) (n : Nat) (tail : Bytes),
      (∀ k < limit, ¬ MapByte (UInt8.ofNat (short + k))) → ¬ MapByte code → ¬ MapByte (code + 1) →
      ∃ b rest, packHeader short limit code n ++ tail = b :: rest ∧ ¬ MapByte b := by
    intro short limit code n tail hshort hcode hnext
    obtain ⟨b, rest, hpack, ⟨hn, rfl⟩ | ⟨_, rfl | rfl⟩⟩ := packHeader_head short limit code n <;>
      rw [hpack]
    · exact ⟨_, _, rfl, hshort n hn⟩
    · exact ⟨_, _, rfl, hcode⟩
    · exact ⟨_, _, rfl, hnext⟩
  cases t with
  | map n => exact absurd rfl (ht n)
  | nil | float _ | ext => exact ⟨_, _, rfl, by decide⟩
  | bool b => cases b <;> exact ⟨_, _, rfl, by decide⟩
  | int v =>
    simp only [packToken]
    split
    · exact ⟨_, _, rfl, not_mapByte_ofNat (by omega) (by omega)⟩
    · split_ifs <;> exact ⟨_, _, rfl, by decide⟩
  | str s =>
    exact hheader 0xa0 32 0xda s.length s (fun k hk => not_mapByte_ofNat (by omega) (by omega))
      (by decide) (by decide)
  | bin b =>
    simp only [packToken]
    split_ifs <;> exact ⟨_, _, rfl, by decide⟩
  | arr n =>
    have h := hheader 0x90 16 0xdc n [] (fun k hk => not_mapByte_ofNat (by omega) (by omega))
      (by decide) (by decide)
    rwa [List.append_nil] at h

/-- A 16-bit number has one byte, or two or three of which the first says how many there are. -/
theorem packToken_num {n : Nat} (h : n < 65536) :
    n < 128 ∧ packToken (num n) = [UInt8.ofNat n]
      ∨ 128 ≤ n ∧ n < 256 ∧ packToken (num n) = [0xcc, UInt8.ofNat n]
      ∨ 256 ≤ n ∧ packToken (num n) = [0xcd, UInt8.ofNat (n / 256), UInt8.ofNat n] := by
  unfold num
  simp only [packToken]
  split
  · exact .inl ⟨by omega, rfl⟩
  · split
    · exact .inr (.inl ⟨by omega, by omega, rfl⟩)
    · rw [if_pos (by omega)]
      exact .inr (.inr ⟨by omega, rfl⟩)

theorem packToken_num_ne {m n : Nat} (hm : m < 65536) (hn : n < 65536) (hne : m ≠ n) (a b : Bytes) :
    packToken (num m) ++ a ≠ packToken (num n) ++ b := by
  have hbytes : ∀ {x y : Nat}, UInt8.ofNat x = UInt8.ofNat y ↔ x % 256 = y % 256 := by
    intro x y
    rw [← UInt8.toNat_inj, UInt8.toNat_ofNat', UInt8.toNat_ofNat']
  have hcode : ∀ {x : Nat}, x < 128 → UInt8.ofNat x ≠ 0xcc ∧ UInt8.ofNat x ≠ 0xcd := by
    refine fun {x} hx => ⟨fun h => ?_, fun h => ?_⟩
    · have hmod : x % 256 = 204 % 256 := hbytes.mp h
      omega
    · have hmod : x % 256 = 205 % 256 := hbytes.mp h
      omega
  rcases packToken_num hm with ⟨h₁, e₁⟩ | ⟨h₁, h₁', e₁⟩ | ⟨h₁, e₁⟩ <;>
    rcases packToken_num hn with ⟨h₂, e₂⟩ | ⟨h₂, h₂', e₂⟩ | ⟨h₂, e₂⟩ <;>
    rw [e₁, e₂] <;> intro h <;>
    simp only [List.cons_append, List.nil_append, List.cons.injEq, hbytes] at h
  · omega
  · exact (hcode h₁).1 h.1
  · exact (hcode h₁).2 h.1
  · exact (hcode h₂).1 h.1.symm
  · omega
  · exact absurd h.1 (by decide)
  · exact (hcode h₂).2 h.1.symm
  · exact absurd h.1 (by decide)
  · omega

theorem packMap_head (n : Nat) :
    ∃ b rest, packToken (.map n) = b :: rest ∧ MapByte b
      ∧ (n < 16 ∧ b.toNat = 0x80 + n ∨ 16 ≤ n ∧ 0x90 ≤ b.toNat) := by
  obtain ⟨b, rest, hpack, ⟨hn, rfl⟩ | ⟨hn, rfl | rfl⟩⟩ := packHeader_head 0x80 16 0xde n
  · have hbyte : (UInt8.ofNat (0x80 + n)).toNat = 0x80 + n := UInt8.toNat_ofNat_of_lt' (show 0x80 + n < 256 by omega)
    refine ⟨_, rest, hpack, .inl ⟨?_, ?_⟩, .inl ⟨hn, hbyte⟩⟩
    · rw [UInt8.le_iff_toNat_le, hbyte]
      exact Nat.le_add_right _ _
    · rw [UInt8.lt_iff_toNat_lt, hbyte]
      exact Nat.add_lt_add_left hn _
  · exact ⟨_, rest, hpack, by decide, .inr ⟨hn, by decide⟩⟩
  · exact ⟨_, rest, hpack, by decide, .inr ⟨hn, by decide⟩⟩

theorem deskEnv_packsPrefix : deskEnv.PacksPrefix where
  append _ _ := List.flatMap_append
  mapOfValues := List.mem_cons_self
  mapsDiffer m n a b hn hne h := by
    obtain ⟨c, s, hm, -, hcount⟩ := packMap_head m
    obtain ⟨d, t, hpack, -, hcount'⟩ := packMap_head n
    have hbytes : packToken (.map m) ++ a.flatMap packToken = packToken (.map n) ++ b.flatMap packToken := h
    rw [hm, hpack] at hbytes
    obtain rfl : c = d := (List.cons.inj hbytes).1
    omega
  numsDiffer m n a b hne h :=
    packToken_num_ne m.toNat_lt n.toNat_lt (fun heq => hne (UInt16.toNat_inj.mp heq)) _ _ h
  mapAlone t n a b ht h := by
    obtain ⟨c, s, htoken, hother⟩ := packToken_head t ht
    obtain ⟨d, u, hpack, hmap, -⟩ := packMap_head n
    have hbytes : packToken t ++ a.flatMap packToken = packToken (.map n) ++ b.flatMap packToken := h
    rw [htoken, hpack] at hbytes
    exact hother ((List.cons.inj hbytes).1 ▸ hmap)

/-- A second radio. -/
def spareDecl : NamespaceDecl Unit := { radioDecl with id := 2 }

/-- The device on the desk with both radios. -/
def pair : Provisioner Unit Unit :=
  { desk with
    namespaces := desk.namespaces ++ [{ decl := spareDecl, state := spareDecl.registered () }]
    distinct := by decide }

/-- The power of the second radio and that of the first, in this order, with the state. -/
def powersPayload : Option Cursor :=
  some [.map 2, .int 3, .map 2, .int 2, .map 1, .int 11, .int 5, .int 1, .map 1, .int 11, .int 6,
    .int 5, .bool true]

/-- The two radios with the powers as drafts. -/
def powersSet : SetStateRun Unit Unit := setStateRun deskEnv pair (powersPayload.getD [])

/-- A GetState request for the two radios with their drafts. -/
def pairState : Option Cursor := some [.map 2, .int 1, .arr 2, .int 1, .int 2, .int 2, .bool true]

/-- The radios are named against the order of registration, and the hash is not that of the state. -/
theorem post_op_hash_iff_powers :
    ∃ hash, ReportsState deskEnv Op.setState 7 powersSet.p [spareDecl, radioDecl] hash
        (setStateResponse deskEnv 7 powersSet)
      ∧ hash ≠ bodyHash deskEnv powersSet.p (getOptions pairState) := by
  have hasks : AsksState deskEnv pair Op.setState powersPayload := .inl ⟨rfl, _, _, rfl, rfl, rfl⟩
  have hrun : dispatch deskEnv Op.setState 7 powersPayload pair
      = (.value (setStateResponse deskEnv 7 powersSet), powersSet.p) := rfl
  obtain ⟨hash, hreports, hagree⟩ := post_op_hash_iff deskEnv deskEnv_packsPrefix pair powersSet.p
    Op.setState 7 powersPayload _ hasks hrun
  have htouched : reportedNamespaces deskEnv pair Op.setState powersPayload = [spareDecl, radioDecl] := rfl
  rw [htouched] at hreports hagree
  have hfollows : FollowsUp [spareDecl, radioDecl] true (getOptions pairState) :=
    ⟨rfl, fun _ => (List.Perm.swap (2 : NamespaceId) 1 []).mem_iff, rfl⟩
  have horder : ¬ List.Sublist [spareDecl, radioDecl] powersSet.p.decls := fun h =>
    absurd (h.map NamespaceDecl.id) (by decide)
  refine ⟨hash, hreports, fun heq => ?_⟩
  exact absurd (((hagree pairState hfollows).2.1.mp heq).2 horder) (by decide +kernel)

/-- A commit of the only namespace of the device, with its state. -/
def commitPayload : Option Cursor := some [.map 2, .int 1, .arr 1, .int 1, .int 5, .bool true]

theorem commitPayload_run : dispatch deskEnv Op.commit 7 commitPayload desk
    = (.value (packResponse deskEnv Op.commit 7 false (commitBody deskEnv desk true 0 [radioDecl])),
      desk) := rfl

/-- The hash behind a commit is not the hash of the state. -/
theorem post_op_hash_not_state_hash :
    ¬ ∀ (p q : Provisioner Unit Unit) (op : UInt8) (seq : UInt64) (payload : Option Cursor)
      (response : List Token), AsksState deskEnv p op payload →
      dispatch deskEnv op seq payload p = (.value response, q) →
      ∀ touched hash, ReportsState deskEnv op seq q touched hash response →
      ∀ get, FollowsUp touched (op = Op.setState) (getOptions get) →
        hash = bodyHash deskEnv q (getOptions get) := by
  intro h
  have hfollows : FollowsUp [radioDecl] false (getOptions (some [.map 1, .int 1, .arr 1, .int 1])) :=
    ⟨rfl, fun _ => Iff.rfl, rfl⟩
  have hsame := h desk desk Op.commit 7 commitPayload _ (.inr ⟨rfl, rfl⟩) commitPayload_run [radioDecl]
    _ (commit_reports false) _ hfollows
  exact ((hashes_agree_of_order deskEnv_packsPrefix hfollows (.refl _)).mp hsame).1 rfl

end MicroReticulum.Provisioning
