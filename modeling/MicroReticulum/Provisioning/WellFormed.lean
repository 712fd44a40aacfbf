import MicroReticulum.Provisioning.Responses

/-!
# Responses are well formed

A response is compared with the one the same request gets without compression. It is the same, or it
carries the payload of that one compressed, and is not longer.

The sequence number of a request comes back unless the request is refused before it is read, or the
number is negative; and no map has a key twice unless a Commit request with IncludeState names a
namespace twice.
-/

namespace MicroReticulum.Provisioning

open MicroReticulum Library

variable {R F : Type}

/-- The platform with a compressor that gives up. -/
def Env.uncompressed (env : Env F) : Env F := { env with compress := fun _ => [] }

/-- What is used of the format: objects are packed one after the other, and how long the headers are. -/
structure Env.PacksInTurn (env : Env F) : Prop where
  append : ∀ a b, env.encode (a ++ b) = env.encode a ++ env.encode b
  mapHeader : (env.encode [.map 1]).length = 1
  /-- two bytes for a 16-bit number behind the type -/
  key : (env.encode [num Key.compressedPayload.toNat]).length ≤ 3
  /-- at most a 32-bit length behind the type -/
  bin : ∀ b, (env.encode [.bin b]).length ≤ 5 + b.length

/-- The sequence number of a request: the integer in the second place of the envelope. -/
def requestSeq (c : Cursor) : Option Int :=
  match c with
  | .arr size :: rest =>
    if size < 2 then none
    else match skipValue rest with
      | .int v :: _ => some v
      | _ => none
  | _ => none

/-- The response is one array of operation, sequence number and payload, in which no map has a key twice;
it carries the sequence number asked for; and its payload is the one of the uncompressed response, or a
wrapper around something that decompresses to it, and the response is not longer for that. -/
def WellFormed (env : Env F) (decompress : Bytes → Bytes) (asked : Option Int)
    (response uncompressed : List Token) : Prop :=
  ∃ (op : UInt8) (seq : UInt64) (body payload : Object),
    response = (Object.arr [.int op.toNat, .int seq.toNat, body]).tokens
      ∧ uncompressed = (Object.arr [.int op.toNat, .int seq.toNat, payload]).tokens
      ∧ body.DistinctKeys ∧ payload.DistinctKeys
      ∧ (∀ v, asked = some v → v = seq.toNat)
      ∧ (body = payload ∨ ∃ z, body = .map [(.int Key.compressedPayload.toNat, .bin z)]
        ∧ decompress z = env.encode payload.tokens
        ∧ (env.encode response).length ≤ (env.encode uncompressed).length)

/-! ## Packing a response -/

/-- The answers of a handler with and without compression: both ways it packs the same payload, which is
complete and has a property. -/
def Replies (env : Env F) (seq : UInt64) (P : Provisioner R F → List Token → Prop)
    (p : Provisioner R F) (m plain : Prog String (Provisioner R F) (List Token)) : Prop :=
  ∀ response q, m p = (.value response, q) → ∃ op compress payload,
    response = packResponse env op seq compress payload
      ∧ plain p = (.value (packResponse env.uncompressed op seq compress payload), q)
      ∧ Complete payload ∧ P q payload

/-- The payload has no key twice. -/
def PackedPayload : Provisioner R F → List Token → Prop := fun _ payload => Packed payload

section Packing

variable {env : Env F} {seq : UInt64} {P : Provisioner R F → List Token → Prop} {p : Provisioner R F}

/-- A handler that ends by packing what it has computed. -/
theorem replies_bind {α : Type} (run : Prog String (Provisioner R F) α) (op : UInt8)
    (compress : α → Bool) (payload : α → List Token)
    (hrun : ∀ a q, run p = (.value a, q) → Complete (payload a) ∧ P q (payload a)) :
    Replies env seq P p (run >>= fun a => pure (packResponse env op seq (compress a) (payload a)))
      (run >>= fun a => pure (packResponse env.uncompressed op seq (compress a) (payload a))) := by
  intro response q h
  rw [Prog.bind_pure_run] at h
  rcases hresult : run p with ⟨a | _ | _ | _, t⟩ <;> rw [hresult] at h <;> cases h
  obtain ⟨hcomplete, hP⟩ := hrun a t hresult
  refine ⟨op, compress a, payload a, rfl, ?_, hcomplete, hP⟩
  rw [Prog.bind_pure_run, hresult]
  rfl

theorem Replies.mono {m plain : Prog String (Provisioner R F) (List Token)}
    {Q : Provisioner R F → List Token → Prop} (h : Replies env seq P p m plain)
    (himp : ∀ q payload, P q payload → Q q payload) : Replies env seq Q p m plain := by
  intro response q hrun
  obtain ⟨op, compress, payload, hresponse, hplain, hcomplete, hP⟩ := h response q hrun
  exact ⟨op, compress, payload, hresponse, hplain, hcomplete, himp q payload hP⟩

/-- Programs that do the same in the state reply the same. -/
theorem Replies.congr {m m' plain plain' : Prog String (Provisioner R F) (List Token)}
    (h : Replies env seq P p m plain) (hm : m' p = m p) (hplain : plain' p = plain p) :
    Replies env seq P p m' plain' := by
  unfold Replies
  rw [hm, hplain]
  exact h

/-- A handler that has nothing to compute. -/
theorem replies_pure (op : UInt8) (compress : Bool) {payload : List Token} (h : Packed payload) :
    Replies env seq PackedPayload p (pure (packResponse env op seq compress payload))
      (pure (packResponse env.uncompressed op seq compress payload)) := by
  intro response q hrun
  cases hrun
  exact ⟨op, compress, payload, rfl, rfl, h.complete, h⟩

/-- An error is an envelope with a packed payload. -/
theorem replies_encodeError (code : ErrorCode) (msg : String) :
    Replies env seq PackedPayload p (pure (encodeError env seq code msg))
      (pure (encodeError env.uncompressed seq code msg)) := by
  have hentries : Packed (.map 2 :: packEntries
      [(Key.errorCode, [num code.code.toNat]), (Key.errorMessage, [text msg])]) := by
    refine packed_entries [Key.errorCode, Key.errorMessage] (by decide) rfl (.refl _) ?_
    simp only [List.forall_mem_cons]
    exact ⟨packed_num _, packed_text _, fun _ he => (by cases he)⟩
  exact replies_pure Op.error false hentries

end Packing

/-! ## The handlers -/

section Handlers

variable {env : Env F} {p : Provisioner R F} (seq : UInt64) (payload : Option Cursor)

theorem opGetInfo_replies : Replies env seq PackedPayload p (opGetInfo env seq payload)
    (opGetInfo env.uncompressed seq payload) := by
  refine replies_pure Op.getInfo _ (packed_entries
    [Key.firmwareVersion, Key.schemaVersion, Key.needsRebootInfo, Key.schemaHash] (by decide) rfl
    (.refl _) ?_)
  simp only [List.forall_mem_cons]
  exact ⟨packed_text _, packed_num _, packed_bool _, packed_num _, fun _ he => (by cases he)⟩

/-- GetCapabilities replies with a packed payload, one map for each namespace. -/
theorem opGetCapabilities_replies : Replies env seq PackedPayload p
    (opGetCapabilities env seq payload) (opGetCapabilities env.uncompressed seq payload) := by
  have hone : ∀ d ∈ p.decls, Packed (.map 5 :: packEntries
      [(Key.nsId, [num d.id.toNat]), (Key.nsName, [.str (cString d.name)]),
        (Key.nsParent, [num d.parentId.toNat]), (Key.nsFieldCount, [num d.fields.length]),
        (Key.nsSchemaHash, [num d.schemaHash.toNat])]) := by
    intro d _
    refine packed_entries [Key.nsId, Key.nsName, Key.nsParent, Key.nsFieldCount, Key.nsSchemaHash]
      (by decide) rfl (.refl _) ?_
    simp only [List.forall_mem_cons]
    exact ⟨packed_num _, packed_str _, packed_num _, packed_num _, packed_num _,
      fun _ he => (by cases he)⟩
  exact replies_pure Op.getCapabilities _
    ((packed_arr_iff fun d hd => (hone d hd).complete).mpr hone)

/-- GetSchema replies with a packed payload, whatever the constraints of the fields are. -/
theorem opGetSchema_replies : Replies env seq PackedPayload p (opGetSchema env seq payload)
    (opGetSchema env.uncompressed seq payload) :=
  replies_pure Op.getSchema _ (packed_packSchemas _)

/-- GetState replies with a packed payload, if no draft is empty. -/
theorem opGetState_replies (hp : DraftsPresent p) : Replies env seq PackedPayload p
    (opGetState env seq payload) (opGetState env.uncompressed seq payload) :=
  replies_pure Op.getState _ (packed_stateBody env hp _)

/-- SetState replies with a packed payload, if no draft is empty behind it. -/
theorem opSetState_replies (hq : DraftsPresent (opSetState env seq payload p).2) :
    Replies env seq PackedPayload p (opSetState env seq payload)
      (opSetState env.uncompressed seq payload) := by
  rcases payload with _ | (_ | ⟨t, rest⟩)
  case some.cons =>
    cases t with
    | map n =>
      intro response q h
      rw [opSetState_run] at h hq
      cases h
      have hrun : setStateRun env.uncompressed p (.map n :: rest) = setStateRun env p (.map n :: rest) :=
        rfl
      rw [opSetState_run, hrun]
      generalize hlast : setStateRun env p (.map n :: rest) = a at hq
      have htouched := setStateRun_touchedOnce env p (.map n :: rest)
      rw [hlast] at htouched
      dsimp only
      split
      · exact ⟨Op.setState, a.compress, setStateBody env a, rfl, rfl,
          (packed_setStateBody env htouched hq).complete, packed_setStateBody env htouched hq⟩
      · exact replies_encodeError _ _ _ _ rfl
    | _ => exact replies_encodeError _ _
  all_goals exact replies_encodeError _ _

/-- What `op_commit` does before it packs its response. -/
def commitRun (env : Env F) (payload : Option Cursor) :
    Prog String (Provisioner R F) (Provisioner.CommitProgress R × Provisioner R F) := do
  let o := readOptions { namespaceFilter := true, includeState := true } payload
  let p ← Prog.get
  let progress ← Prog.fold (commitScope p payload) {} fun progress d =>
    Provisioner.commitNamespace env (fun hadDraft => o.includeState && (o.hasFilter || hadDraft))
      d progress
  Provisioner.setRebootFlag progress.anyReboot
  let q ← Prog.get
  pure (progress, q)

/-- `op_commit` is what it does before the packing, and the packing of its response. -/
theorem opCommit_eq (env : Env F) (seq : UInt64) (payload : Option Cursor) (p : Provisioner R F) :
    opCommit env seq payload p
      = (commitRun env payload >>= fun a => pure (packResponse env Op.commit seq
          (readOptions { namespaceFilter := true, includeState := true } payload).compress
          (commitBody env a.2
            (readOptions { namespaceFilter := true, includeState := true } payload).includeState
            a.1.applied a.1.touched))) p := by
  unfold opCommit commitRun
  rw [Prog.get_bind_run, Prog.bind_assoc_run, Prog.get_bind_run, Prog.bind_assoc_run]
  refine Prog.bind_congr_run _ (fun progress t => ?_) p
  rw [Prog.bind_assoc_run]
  exact Prog.bind_congr_run _ (fun _ u => rfl) t

/-- The commit of every namespace answers for it. -/
theorem mapEach_commitDrafts_decl (env : Env F) {ds : List (NamespaceDecl R)} {p q : Provisioner R F}
    {cs : List (Committed R)} (h : Prog.mapEach ds (commitDrafts env) p = (.value cs, q)) :
    cs.map Committed.decl = ds := by
  induction ds generalizing p cs with
  | nil => cases h; rfl
  | cons d ds ih =>
    rw [Prog.mapEach_cons_run] at h
    rcases hd : commitDrafts env d p with ⟨c | _ | _ | _, t⟩ <;> rw [hd] at h
    case value =>
      have hdecl : c.decl = d := by
        have hreturns : Prog.Returns (fun c : Committed R => c.decl = d) (commitDrafts env d) :=
          Prog.Returns.bind _ fun _ => Prog.Returns.bind _ fun _ => Prog.Returns.bind _ fun _ =>
            Prog.Returns.pure rfl
        exact hreturns p c t hd
      dsimp only at h
      rcases hrest : Prog.mapEach ds (commitDrafts env) t with ⟨cs' | _ | _ | _, u⟩ <;>
        rw [hrest] at h <;> cases h
      rw [List.map_cons, hdecl, ih hrest]
    all_goals cases h

/-- The state that is packed is the one that is left. -/
theorem commitRun_state {env : Env F} {payload : Option Cursor} {p q : Provisioner R F}
    {a : Provisioner.CommitProgress R × Provisioner R F}
    (h : commitRun env payload p = (.value a, q)) : a.2 = q := by
  obtain ⟨_, _, _, h⟩ := Prog.exists_of_bind_value h
  obtain ⟨_, _, _, h⟩ := Prog.exists_of_bind_value h
  obtain ⟨_, _, _, h⟩ := Prog.exists_of_bind_value h
  cases h
  rfl

/-- The namespaces a commit reports are in its scope, and with a filter they are all of it. -/
theorem commitRun_touched {env : Env F} {payload : Option Cursor} {p q : Provisioner R F}
    {a : Provisioner.CommitProgress R × Provisioner R F} (h : commitRun env payload p = (.value a, q)) :
    a.1.touched.Sublist (commitScope p payload)
      ∧ ((readOptions { namespaceFilter := true, includeState := true } payload).includeState = true →
        (readOptions { namespaceFilter := true, includeState := true } payload).hasFilter = true →
        a.1.touched = commitScope p payload) := by
  generalize ho : readOptions { namespaceFilter := true, includeState := true } payload = o
  have htouched : ∀ (report : Bool → Bool) (cs : List (Committed R)) (progress : Provisioner.CommitProgress R),
      (cs.foldl (countCommitted report) progress).touched
        = progress.touched ++ (cs.filter fun c => report c.hadDraft).map Committed.decl := by
    have hcount : ∀ (outcomes : List CommitOutcome) (progress : Provisioner.CommitProgress R),
        (outcomes.foldl Provisioner.countOutcome progress).touched = progress.touched := by
      intro outcomes
      induction outcomes with
      | nil => exact fun _ => rfl
      | cons x outcomes ih =>
        intro progress
        rw [List.foldl_cons, ih]
        cases x <;> rfl
    intro report cs
    induction cs with
    | nil => intro progress; simp
    | cons c cs ih =>
      intro progress
      rw [List.foldl_cons, ih]
      unfold countCommitted
      dsimp only
      cases hreport : report c.hadDraft <;> simp [hcount, hreport]
  unfold commitRun at h
  simp only [ho, commitNamespace_eq] at h
  rw [Prog.get_bind_run, Prog.bind_run, Prog.fold_eq_mapEach, Prog.bind_pure_run] at h
  rcases hrun : Prog.mapEach (commitScope p payload) (commitDrafts env) p
    with ⟨cs | _ | _ | _, t⟩ <;> rw [hrun] at h
  case value =>
    have hdecls := mapEach_commitDrafts_decl env hrun
    have hprogress : a.1 = cs.foldl
        (countCommitted fun hadDraft => o.includeState && (o.hasFilter || hadDraft)) {} := by
      obtain ⟨_, _, _, h⟩ := Prog.exists_of_bind_value h
      cases h
      rfl
    rw [hprogress, htouched, List.nil_append, ← hdecls]
    refine ⟨List.filter_sublist.map _, fun hinclude hfilter => ?_⟩
    rw [List.filter_eq_self.mpr fun c _ => by rw [hinclude, hfilter]; rfl]
  all_goals cases h

/-- The Commit request reports a namespace for every time its filter names it, and it names one twice. -/
def RepeatsNamespace (p : Provisioner R F) (payload : Option Cursor) : Prop :=
  (readOptions { namespaceFilter := true, includeState := true } payload).includeState = true
    ∧ (readOptions { namespaceFilter := true, includeState := true } payload).hasFilter = true
    ∧ ¬ ((commitScope p payload).map NamespaceDecl.id).Nodup

/-- Commit replies with a packed payload, unless it reports a namespace twice. -/
theorem opCommit_replies : Replies env seq
    (fun _ body => Packed body ↔ ¬ RepeatsNamespace p payload) p (opCommit env seq payload)
    (opCommit env.uncompressed seq payload) := by
  have hrun : (commitRun env.uncompressed payload : Prog String (Provisioner R F) _)
      = commitRun env payload := rfl
  have hbody : commitBody (R := R) env.uncompressed = commitBody env := rfl
  have hplain := opCommit_eq env.uncompressed seq payload p
  rw [hrun, hbody] at hplain
  refine Replies.congr (replies_bind _ Op.commit _ _ fun a q hrun => ?_)
    (opCommit_eq env seq payload p) hplain
  obtain ⟨hsub, hall⟩ := commitRun_touched hrun
  refine ⟨complete_commitBody env a.2 _ a.1.applied a.1.touched, ?_⟩
  rw [packed_commitBody_iff]
  unfold RepeatsNamespace
  cases hinclude : (readOptions { namespaceFilter := true, includeState := true }
    payload).includeState with
  | false => simp
  | true =>
    cases hfilter : (readOptions { namespaceFilter := true, includeState := true }
      payload).hasFilter with
    | false =>
      have hscope : commitScope p payload = p.decls := if_neg (by simp [hfilter])
      simpa using (decls_nodup p).sublist (hscope ▸ hsub.map _)
    | true => simp [hall hinclude hfilter]

theorem opDiscard_replies : Replies env seq PackedPayload p (opDiscard env seq payload)
    (opDiscard env.uncompressed seq payload) := by
  have hentry : ∀ cleared : Nat, Packed (.map 1 :: packEntries [(Key.applied, [num cleared])]) :=
    fun cleared => packed_entries [Key.applied] (by decide) rfl (.refl _) (by simpa using packed_num _)
  exact (replies_bind _ Op.discard (fun _ => false) _ fun cleared q _ =>
    ⟨(hentry cleared).complete, hentry cleared⟩).congr rfl rfl

theorem opFactoryReset_replies : Replies env seq PackedPayload p (opFactoryReset env seq payload)
    (opFactoryReset env.uncompressed seq payload) := by
  have hentry : ∀ b, Packed (.map 1 :: packEntries [(Key.needsReboot, [.bool b])]) :=
    fun b => packed_entries [Key.needsReboot] (by decide) rfl (.refl _) (by simpa using packed_bool b)
  refine (replies_bind (Provisioner.factoryReset env >>= fun _ => Prog.get) Op.factoryReset
    (fun _ => parseCompressOnly payload) _ fun q _ _ =>
    ⟨(hentry q.needsReboot).complete, hentry q.needsReboot⟩).congr ?_ ?_
  · exact (Prog.bind_assoc_run _ _ _ p).symm
  · exact (Prog.bind_assoc_run _ _ _ p).symm

theorem opReboot_replies : Replies env seq PackedPayload p (opReboot env seq)
    (opReboot env.uncompressed seq) :=
  (replies_bind _ Op.reboot (fun _ => false) (fun _ => [.nil]) fun _ _ _ =>
    ⟨packed_nil.complete, packed_nil⟩).congr rfl rfl

/-- Every operation, in a state whose drafts are there, as they are behind it. -/
theorem dispatch_replies (hp : DraftsPresent p) (op : UInt8)
    (hq : DraftsPresent (dispatch env op seq payload p).2) :
    Replies env seq (fun _ body => Packed body ↔ ¬ (op = Op.commit ∧ RepeatsNamespace p payload)) p
      (dispatch env op seq payload) (dispatch env.uncompressed op seq payload) := by
  have hother : ∀ {m plain : Prog String (Provisioner R F) (List Token)}, op ≠ Op.commit →
      Replies env seq PackedPayload p m plain →
      Replies env seq (fun _ body => Packed body ↔ ¬ (op = Op.commit ∧ RepeatsNamespace p payload)) p
        m plain := fun hne h =>
    h.mono fun _ _ hpacked => iff_of_true hpacked fun hand => hne hand.1
  refine dispatch_both (Replies env seq (fun _ body => Packed body ↔ ¬ (op = Op.commit ∧ RepeatsNamespace p payload)) p)
    env env.uncompressed
    (fun hop => hother (by rw [hop]; decide) (opGetSchema_replies seq payload))
    (fun hop => hother (by rw [hop]; decide) (opGetInfo_replies seq payload))
    (fun hop => hother (by rw [hop]; decide) (opGetCapabilities_replies seq payload))
    (fun hop => hother (by rw [hop]; decide) (opGetState_replies seq payload hp)) ?setState ?commit
    (fun hop => hother (by rw [hop]; decide) (opDiscard_replies seq payload))
    (fun hop => hother (by rw [hop]; decide) (opFactoryReset_replies seq payload))
    (fun hop => hother (by rw [hop]; decide) (opReboot_replies seq)) ?unknown
  case setState =>
    intro hop
    subst hop
    exact hother (by decide) (opSetState_replies seq payload hq)
  case commit =>
    intro hop
    refine (opCommit_replies seq payload).mono fun _ body hbody => hbody.trans ?_
    rw [and_iff_right hop]
  case unknown =>
    intro hop
    exact hother (fun heq => hop (heq ▸ by decide)) (replies_encodeError _ _)

end Handlers

/-! ## Every request -/

/-- The sequence number of the response. -/
def responseSeq (p : Provisioner R F) (c : Cursor) : UInt64 :=
  if p.started then
    match readEnvelope c with
    | some (_, seq, _) => seq
    | none => 0
  else 0

/-- A Commit request with IncludeState whose filter names a registered namespace twice. -/
def RequestsRepeatedly (p : Provisioner R F) (c : Cursor) : Prop :=
  p.started = true ∧ ∃ seq payload, readEnvelope c = some (Op.commit, seq, payload)
    ∧ RepeatsNamespace p payload

/-- Every request that is answered is answered in an envelope, with a packed payload but for the one Commit. -/
theorem handleObjects_replies {env : Env F} {p : Provisioner R F} (c : Cursor) (hp : DraftsPresent p)
    (hq : DraftsPresent (handleObjects env c p).2) :
    Replies env (responseSeq p c) (fun _ body => Packed body ↔ ¬ RequestsRepeatedly p c) p
      (handleObjects env c) (handleObjects env.uncompressed c) := by
  unfold responseSeq RequestsRepeatedly
  cases hstarted : p.started with
  | false =>
    have hrefused : ∀ env' : Env F, handleObjects env' c p
        = (pure (encodeError env' 0 .notInitialized "Provisioning::begin not called") :
          Prog String (Provisioner R F) (List Token)) p := fun env' => by
      unfold handleObjects
      rw [Prog.get_bind_run, if_pos hstarted]
    refine Replies.congr ?_ (hrefused env) (hrefused env.uncompressed)
    exact (replies_encodeError _ _).mono fun _ _ h => iff_of_true h fun hand => (by cases hand.1)
  | true =>
    rw [if_pos rfl]
    cases henvelope : readEnvelope c with
    | none =>
      obtain ⟨code, msg, hrun⟩ := handleObjects_of_no_envelope (R := R) (F := F) henvelope
      refine Replies.congr ?_ (hrun env p hstarted) (hrun env.uncompressed p hstarted)
      exact (replies_encodeError code msg).mono fun _ _ h => iff_of_true h (by simp)
    | some e =>
      obtain ⟨op, seq, payload⟩ := e
      have hrun := fun env' : Env F => handleObjects_of_envelope env' hstarted henvelope
      rw [hrun] at hq
      refine Replies.congr ?_ (hrun env) (hrun env.uncompressed)
      refine (dispatch_replies seq payload hp op hq).mono fun _ body hbody => hbody.trans ?_
      refine not_congr ?_
      simp only [Option.some.injEq, Prod.mk.injEq, true_and]
      constructor
      · exact fun ⟨hop, hrepeats⟩ => ⟨seq, payload, ⟨hop, rfl, rfl⟩, hrepeats⟩
      · rintro ⟨_, _, ⟨hop, rfl, rfl⟩, hrepeats⟩
        exact ⟨hop, hrepeats⟩

/-- Without compression the payload follows the envelope. -/
theorem packResponse_uncompressed (env : Env F) (op : UInt8) (seq : UInt64) (compress : Bool)
    (payload : List Token) : packResponse env.uncompressed op seq compress payload
      = .arr 3 :: num op.toNat :: num seq.toNat :: payload := by
  unfold packResponse Env.uncompressed
  simp

/-- An envelope is written as an array of three. -/
theorem envelope_tokens (op : UInt8) (seq : UInt64) (o : Object) :
    (Object.arr [.int op.toNat, .int seq.toNat, o]).tokens
      = .arr 3 :: num op.toNat :: num seq.toNat :: o.tokens := by
  simp [Object.tokens, Object.itemTokens, num]

/-- The wrapper around a compressed payload. -/
def wrapper (z : Bytes) : Object := .map [(.int Key.compressedPayload.toNat, .bin z)]

/-- The wrapper of a compressed payload is a map of one. -/
theorem wrapper_tokens (z : Bytes) :
    (wrapper z).tokens = [.map 1, num Key.compressedPayload.toNat, .bin z] := by
  simp [wrapper, Object.tokens, Object.entryTokens, num]

/-- The body of a packed response: the payload itself, or wrapped where that saves bytes. -/
theorem packResponse_body {env : Env F} (hpacks : env.PacksInTurn) (op : UInt8) (seq : UInt64)
    (compress : Bool) (o : Object) : ∃ body : Object,
    packResponse env op seq compress o.tokens = (Object.arr [.int op.toNat, .int seq.toNat, body]).tokens
      ∧ (body = o ∨ ∃ z, z = env.compress (env.encode o.tokens) ∧ z ≠ [] ∧ body = wrapper z
        ∧ (env.encode (packResponse env op seq compress o.tokens)).length
          ≤ (env.encode (Object.arr [.int op.toNat, .int seq.toNat, o]).tokens).length) := by
  rw [envelope_tokens]
  unfold packResponse
  dsimp only
  split
  case isFalse => exact ⟨o, envelope_tokens op seq o ▸ rfl, .inl rfl⟩
  case isTrue hsaves =>
    simp only [Bool.and_eq_true, Bool.not_eq_true', List.isEmpty_eq_false_iff,
      decide_eq_true_eq] at hsaves
    obtain ⟨⟨-, hsome⟩, hshorter⟩ := hsaves
    generalize hz : env.compress (env.encode o.tokens) = z at hsome hshorter
    refine ⟨wrapper z, by rw [envelope_tokens, wrapper_tokens], .inr ⟨z, rfl, hsome, rfl, ?_⟩⟩
    have hwrapped : (env.encode [.map 1, num Key.compressedPayload.toNat, .bin z]).length
        ≤ (env.encode o.tokens).length := by
      have hsplit : env.encode [.map 1, num Key.compressedPayload.toNat, .bin z]
          = env.encode [.map 1] ++ (env.encode [num Key.compressedPayload.toNat]
            ++ env.encode [.bin z]) := by
        rw [← hpacks.append, ← hpacks.append]
        rfl
      have hmap := hpacks.mapHeader
      have hkey := hpacks.key
      have hbin := hpacks.bin z
      rw [hsplit, List.length_append, List.length_append]
      unfold wrapperOverhead at hshorter
      omega
    have hfront : ∀ ts, env.encode (.arr 3 :: num op.toNat :: num seq.toNat :: ts)
        = env.encode [.arr 3, num op.toNat, num seq.toNat] ++ env.encode ts := fun ts => by
      rw [← hpacks.append]
      rfl
    rw [hfront o.tokens, hfront, List.length_append, List.length_append]
    exact Nat.add_le_add_left hwrapped _

/-- A packed response is well formed exactly if it carries the sequence number asked for and its payload
has no key twice. -/
theorem wellFormed_packResponse_iff {env : Env F} (hpacks : env.PacksInTurn)
    {decompress : Bytes → Bytes} (hlossless : ∀ b, env.compress b ≠ [] → decompress (env.compress b) = b)
    (asked : Option Int) (op : UInt8) (seq : UInt64) (compress : Bool) {payload : List Token}
    (hcomplete : Complete payload) :
    WellFormed env decompress asked (packResponse env op seq compress payload)
        (packResponse env.uncompressed op seq compress payload)
      ↔ (∀ v, asked = some v → v = seq.toNat) ∧ Packed payload := by
  obtain ⟨o, rfl⟩ := hcomplete
  rw [packResponse_uncompressed, packed_tokens_iff, ← envelope_tokens]
  constructor
  · rintro ⟨op', seq', _, payload', -, hplain, -, hkeys, hasked, -⟩
    have hsame := Object.tokens_inj hplain
    simp only [Object.arr.injEq, List.cons.injEq, Object.int.injEq, Int.natCast_inj, and_true] at hsame
    obtain ⟨-, hseq, rfl⟩ := hsame
    exact ⟨fun v hv => hseq ▸ hasked v hv, hkeys⟩
  · rintro ⟨hasked, hkeys⟩
    obtain ⟨body, hbody, hcase⟩ := packResponse_body hpacks op seq compress o
    have hdistinct : body.DistinctKeys := by
      rcases hcase with rfl | ⟨z, -, -, rfl, -⟩
      · exact hkeys
      · exact ⟨List.nodup_singleton _, trivial, trivial, trivial⟩
    refine ⟨op, seq, body, o, hbody, rfl, hdistinct, hkeys, hasked, ?_⟩
    rcases hcase with rfl | ⟨z, rfl, hsome, rfl, hlen⟩
    · exact .inl rfl
    · exact .inr ⟨_, rfl, hlossless _ hsome, hlen⟩

/-- The number comes back unless the request is refused before it is read, or it is no 64-bit number. -/
def SeqRead (p : Provisioner R F) (c : Cursor) : Prop :=
  ∀ v, requestSeq c = some v →
    v = 0 ∨ p.started = true ∧ (readEnvelope c).isSome = true ∧ 0 ≤ v ∧ v < 2 ^ 64

/-- The sequence number is read modulo its 64 bits. -/
theorem toNat_seqOfWire (v : Int) : ((wireInt v).toUInt64.toNat : Int) = v % 2 ^ 64 := by
  unfold wireInt
  rw [← UInt64.toNat_toBitVec, Int64.toBitVec_toUInt64, Int64.toBitVec_ofInt, BitVec.toNat_ofInt]
  omega

/-- The sequence number of an envelope, as the reader gets it. -/
theorem readEnvelope_seq {c : Cursor} {op : UInt8} {seq : UInt64} {payload : Option Cursor}
    (h : readEnvelope c = some (op, seq, payload)) {v : Int} (hv : requestSeq c = some v) :
    (seq.toNat : Int) = v % 2 ^ 64 := by
  unfold readEnvelope at h
  split at h
  case h_1 size k rest =>
    split at h
    case isTrue => cases h
    case isFalse =>
      cases h
      unfold requestSeq skipValue at hv
      unfold readSeq
      dsimp only at hv
      split at hv
      case isTrue => cases hv
      case isFalse hsize =>
        rw [show skip (.int k :: rest) 1 = rest from skip_zero rest] at hv
        rw [if_neg hsize]
        cases rest with
        | nil => cases hv
        | cons t rest =>
          cases t with
          | int w =>
            cases hv
            exact toNat_seqOfWire v
          | _ => cases hv
  case h_2 => cases h

/-- The sequence number comes back exactly if it is read. -/
theorem seqRead_iff (p : Provisioner R F) (c : Cursor) :
    (∀ v, requestSeq c = some v → v = (responseSeq p c).toNat) ↔ SeqRead p c := by
  refine forall₂_congr fun v hv => ?_
  unfold responseSeq
  cases hstarted : p.started with
  | false => simp
  | true =>
    cases henvelope : readEnvelope c with
    | none => simp
    | some e =>
      obtain ⟨op, seq, payload⟩ := e
      have hseq := readEnvelope_seq henvelope hv
      simp only [if_true, Option.isSome_some, true_and]
      omega

/-- The response to a request in a state whose drafts are there. -/
theorem handleObjects_wellFormed_iff {env : Env F} (hpacks : env.PacksInTurn) (decompress : Bytes → Bytes)
    (hlossless : ∀ b, env.compress b ≠ [] → decompress (env.compress b) = b) {p q : Provisioner R F}
    {c : Cursor} {response : List Token} (hp : DraftsPresent p)
    (hq : DraftsPresent (handleObjects env c p).2)
    (hrun : handleObjects env c p = (.value response, q)) :
    ∃ plain, handleObjects env.uncompressed c p = (.value plain, q)
      ∧ (WellFormed env decompress (requestSeq c) response plain
        ↔ SeqRead p c ∧ ¬ RequestsRepeatedly p c) := by
  obtain ⟨op, compress, payload, rfl, hplain, hcomplete, hpacked⟩ :=
    handleObjects_replies c hp hq response q hrun
  refine ⟨_, hplain, ?_⟩
  rw [wellFormed_packResponse_iff hpacks hlossless _ _ _ _ hcomplete, seqRead_iff, hpacked]

/-! ## Every state -/

/-- Whatever is offered to a field, its drafts pass its check. -/
def Policy.checked (R : Type) : Policy R where
  offered _ _ := True
  draft f v := f.validate v = true
  working _ _ := True

/-- An application whose hooks check their edits is registered as the invariant needs it. -/
theorem wellRegistered_checked {ds : List (NamespaceDecl R)}
    (hedits : ∀ d ∈ ds, d.HookEdits (Policy.checked R)) :
    WellRegistered (Policy.checked R) ds fun _ => True where
  accepts _ _ _ _ _ hvalid _ := ⟨hvalid, trivial⟩
  promoted _ _ _ := trivial
  defaults _ _ _ _ := trivial
  edits := hedits
  setter _ _ _ _ _ _ _ _ _ _ := trivial
  hook _ _ _ _ _ _ := trivial

/-- Nothing empty passes the check of a field. -/
theorem Field.isNone_of_validate {f : Field R} {v : Value} (h : f.validate v = true) :
    v.isNone = false := by
  have htype := f.type_of_validate h
  unfold Value.isNone
  rw [htype]
  cases hfield : f.type
  case none => simp [Field.validate, htype, hfield] at h
  all_goals rfl

/-- A draft that passes its check is not empty. -/
theorem Sound.draftsPresent {ds : List (NamespaceDecl R)} {p : Provisioner R F}
    (h : Sound (Policy.checked R) ds (fun _ => True) p) : DraftsPresent p := by
  intro d hd id v hv
  obtain ⟨f, _, hvalid⟩ := (h.states d (h.decls ▸ hd)).draft id v hv
  exact f.isNone_of_validate hvalid

/-- In every state of a run, the response to every request that is answered is well formed exactly if the
sequence number is read and the request is not a Commit that is to report a namespace twice. -/
theorem responses_well_formed_iff (env : Env F) (hpacks : env.PacksInTurn) (decompress : Bytes → Bytes)
    (hlossless : ∀ b, env.compress b ≠ [] → decompress (env.compress b) = b)
    (p₀ p : Provisioner R F) (hedits : ∀ d ∈ p₀.decls, d.HookEdits (Policy.checked R))
    (hregistered : ∀ n ∈ p₀.namespaces, n.state = n.decl.registered p₀.runtime)
    (hrun : Relation.ReflTransGen (Step (Policy.checked R) (fun _ _ => True) env) p₀ p)
    (request bytes : Bytes) (q : Provisioner R F)
    (hanswer : handleMessage env request p = (.value bytes, q)) :
    ∃ response plain, handleObjects env (env.decode request) p = (.value response, q)
      ∧ bytes = env.encode response
      ∧ handleObjects env.uncompressed (env.decode request) p = (.value plain, q)
      ∧ (WellFormed env decompress (requestSeq (env.decode request)) response plain
        ↔ SeqRead p (env.decode request) ∧ ¬ RequestsRepeatedly p (env.decode request)) := by
  have happ := wellRegistered_checked hedits
  have hstart : Sound (Policy.checked R) p₀.decls (fun _ => True) p₀ := by
    refine ⟨rfl, fun d hd => ?_, trivial, fun _ _ _ _ => trivial⟩
    obtain ⟨n, hn, rfl⟩ := List.mem_map.mp hd
    rw [Provisioner.stateOf_of_mem hn, hregistered n hn]
    exact registered_valid fun _ _ => trivial
  have hp : Sound (Policy.checked R) p₀.decls (fun _ => True) p :=
    run_sound happ (fun _ _ _ _ => trivial) hrun hstart
  have hoffers : RequestOffers (Policy.checked R) env p₀.decls (env.decode request) := by
    intro _ _ _ x _
    cases x <;> trivial
  have hq := handleObjects_sound env happ hp hoffers
  unfold handleMessage at hanswer
  rw [Prog.bind_pure_run] at hanswer
  rcases hobjects : handleObjects env (env.decode request) p with ⟨response | _ | _ | _, t⟩ <;>
    rw [hobjects] at hanswer <;> cases hanswer
  obtain ⟨plain, hplain, hiff⟩ := handleObjects_wellFormed_iff hpacks decompress hlossless hp.draftsPresent
    hq.draftsPresent hobjects
  exact ⟨response, plain, rfl, rfl, hplain, hiff⟩

/-! ### A device on the desk -/

/-- The lowest bytes of a number, the highest first. -/
def bigEndian (n : Nat) : Nat → Bytes
  | 0 => []
  | k + 1 => bigEndian (n / 256) k ++ [UInt8.ofNat n]

@[simp] theorem bigEndian_length (n k : Nat) : (bigEndian n k).length = k := by
  induction k generalizing n with
  | zero => rfl
  | succ k ih => simp [bigEndian, ih]

/-- A header of a type with a short form and one with a 16-bit and one with a 32-bit number. -/
def packHeader (short limit : Nat) (code : UInt8) (n : Nat) : Bytes :=
  if n < limit then [UInt8.ofNat (short + n)]
  else if n < 65536 then code :: bigEndian n 2
  else (code + 1) :: bigEndian n 4

/-- The bytes of an object; a negative number is not packed here, and of a floating-point number and an
extension only the first byte is. -/
def packToken : Token → Bytes
  | .nil => [0xc0]
  | .bool b => [if b then 0xc3 else 0xc2]
  | .int v =>
    if v < 128 then [UInt8.ofNat v.toNat]
    else if v < 256 then 0xcc :: bigEndian v.toNat 1
    else if v < 65536 then 0xcd :: bigEndian v.toNat 2
    else if v < 4294967296 then 0xce :: bigEndian v.toNat 4
    else 0xcf :: bigEndian v.toNat 8
  | .float _ => [0xcb]
  | .str s => packHeader 0xa0 32 0xda s.length ++ s
  | .bin b =>
    (if b.length < 256 then 0xc4 :: bigEndian b.length 1
      else if b.length < 65536 then 0xc5 :: bigEndian b.length 2
      else 0xc6 :: bigEndian b.length 4) ++ b
  | .arr n => packHeader 0x90 16 0xdc n
  | .map n => packHeader 0x80 16 0xde n
  | .ext => [0xc7]

/-- The object of a byte, for the objects that have only one. -/
def readToken (b : UInt8) : Token :=
  if b < 0x80 then .int b.toNat
  else if b < 0x90 then .map (b.toNat - 0x80)
  else if b < 0xa0 then .arr (b.toNat - 0x90)
  else if b = 0xc0 then .nil
  else if b = 0xc2 then .bool false
  else if b = 0xc3 then .bool true
  else .ext

/-- A platform without files, on which nothing is worth compressing. -/
def deskEnv : Env Unit where
  decode := List.map readToken
  encode := List.flatMap packToken
  floatOfInt v := .fin v
  compress _ := []
  fs := bareEnv.fs
  root := []

theorem deskEnv_packsInTurn : deskEnv.PacksInTurn where
  append _ _ := List.flatMap_append
  mapHeader := rfl
  key := by decide
  bin b := by
    have hsingle : deskEnv.encode [.bin b] = packToken (.bin b) := List.flatMap_singleton ..
    rw [hsingle]
    simp only [packToken, List.length_append]
    have hheader : ∀ n : Nat, List.length (if n < 256 then 0xc4 :: bigEndian n 1
        else if n < 65536 then 0xc5 :: bigEndian n 2 else 0xc6 :: bigEndian n 4) ≤ 5 := by
      intro n
      split
      · simp
      · split <;> simp
    exact Nat.add_le_add_right (hheader b.length) _

/-- The device of the small platform, with its namespace as registered. -/
def desk : Provisioner Unit Unit := radio (radioDecl.registered ())

theorem desk_edits : ∀ d ∈ desk.decls, d.HookEdits (Policy.checked Unit) := by
  intro d hd hook hhook
  rw [List.mem_singleton.mp hd] at hhook
  cases hhook

/-- A GetInfo request with the sequence number 7. -/
theorem responses_well_formed_iff_info :
    ∃ response plain, handleObjects deskEnv [.arr 3, .int 2, .int 7, .nil] desk = (.value response, desk)
      ∧ WellFormed deskEnv id (some 7) response plain := by
  have hrequest : deskEnv.decode [0x93, 0x02, 0x07, 0xc0] = [.arr 3, .int 2, .int 7, .nil] := by decide
  have hanswered : ∃ response, handleObjects deskEnv [.arr 3, .int 2, .int 7, .nil] desk
      = (.value response, desk) := ⟨_, rfl⟩
  obtain ⟨response, hresponse⟩ := hanswered
  have hanswer : handleMessage deskEnv [0x93, 0x02, 0x07, 0xc0] desk
      = (.value (deskEnv.encode response), desk) := by
    unfold handleMessage
    rw [Prog.bind_pure_run, hrequest, hresponse]
    rfl
  obtain ⟨response', plain, hrun, -, -, hiff⟩ := responses_well_formed_iff deskEnv deskEnv_packsInTurn id
    (fun _ h => absurd rfl h) desk desk desk_edits
    (fun n hn => by rw [List.mem_singleton.mp hn]) .refl [0x93, 0x02, 0x07, 0xc0] _ desk hanswer
  rw [hrequest] at hrun hiff
  refine ⟨response', plain, hrun, hiff.mpr ⟨?_, ?_⟩⟩
  · intro v hv
    cases hv
    exact .inr ⟨rfl, rfl, by decide, by decide⟩
  · rintro ⟨-, _, _, henvelope, -⟩
    cases henvelope

/-- A Commit request that asks for the state of a namespace and names it twice. -/
theorem repeated_namespace_malformed :
    ¬ ∀ (p q : Provisioner Unit Unit) (request : Bytes) (response plain : List Token),
      handleObjects deskEnv (deskEnv.decode request) p = (.value response, q) →
      handleObjects deskEnv.uncompressed (deskEnv.decode request) p = (.value plain, q) →
      WellFormed deskEnv id (requestSeq (deskEnv.decode request)) response plain := by
  intro h
  have hpresent : DraftsPresent desk := by
    intro d hd id v hv
    rw [List.mem_singleton.mp hd] at hv
    cases hv
  have hanswered : ∃ response, handleObjects deskEnv
      [.arr 3, .int 6, .int 7, .map 2, .int 1, .arr 2, .int 1, .int 1, .int 5, .bool true] desk
        = (.value response, desk) := ⟨_, rfl⟩
  obtain ⟨response, hrun⟩ := hanswered
  have hall := h desk desk [0x93, 0x06, 0x07, 0x82, 0x01, 0x92, 0x01, 0x01, 0x05, 0xc3] response
  rw [show deskEnv.decode [0x93, 0x06, 0x07, 0x82, 0x01, 0x92, 0x01, 0x01, 0x05, 0xc3]
    = [.arr 3, .int 6, .int 7, .map 2, .int 1, .arr 2, .int 1, .int 1, .int 5, .bool true]
    by decide] at hall
  obtain ⟨plain, hplain, hiff⟩ := handleObjects_wellFormed_iff deskEnv_packsInTurn id
    (fun _ h => absurd rfl h) hpresent (by rw [hrun]; exact hpresent) hrun
  refine (hiff.mp (hall plain hrun hplain)).2 ?_
  exact ⟨rfl, 7, _, rfl, rfl, rfl, by decide⟩

end MicroReticulum.Provisioning
