import MicroReticulum.Provisioning.ForeignOptions

/-!
# Entries that a request shows

The other direction of `OptionOp.ignored_of_harmless`: what is not harmless shows in the response of some device.

* Behind an entry that is not passed, the next key is read as something else. On a platform that compresses whatever
  it is asked to, a request for compression is lost.
* An option that is taken shows behind the same option with another value, on a device where it matters: a draft that
  is reported, a hash that is the hash of now, a namespace that a filter leaves out or names.

`ignored_iff` puts both directions together.
-/

namespace MicroReticulum.Provisioning

open MicroReticulum Library

variable {R F : Type}

/-! ## Compression asked for behind an entry -/

/-- A platform that compresses whatever it is asked to. -/
def squeezingEnv : Env Unit :=
  { bareEnv with encode := fun _ => List.replicate 20 0, compress := fun _ => [0] }

/-- A device without namespaces. -/
def blank : Provisioner Unit Unit where
  namespaces := []
  storage := none
  started := true
  needsReboot := false
  schemaHash := 0
  runtime := ()
  distinct := List.nodup_nil

/-- The payload of a compressed response. -/
def squeezed : List Token := [.map 1, num Key.compressedPayload.toNat, .bin [0]]

/-- Where everything is worth compressing, what is sent tells whether compression was asked for. -/
theorem packResponse_squeezing (op : UInt8) (seq : UInt64) (compress : Bool) (payload : List Token) :
    packResponse squeezingEnv op seq compress payload
      = .arr 3 :: num op.toNat :: num seq.toNat :: if compress then squeezed else payload := by
  cases compress <;> rfl

/-- So responses that are the same were asked for alike. -/
theorem compress_of_eq {op : UInt8} {seq : UInt64} {b₁ b₂ : Bool} {payload₁ payload₂ : List Token}
    (h : packResponse squeezingEnv op seq b₁ payload₁ = packResponse squeezingEnv op seq b₂ payload₂)
    (h₁ : payload₁ ≠ squeezed) (h₂ : payload₂ ≠ squeezed) : b₁ = b₂ := by
  rw [packResponse_squeezing, packResponse_squeezing] at h
  simp only [List.cons.injEq, true_and] at h
  cases b₁ <;> cases b₂
  · rfl
  · exact absurd h h₁
  · exact absurd h.symm h₂
  · rfl

theorem stateBody_ne_squeezed (env : Env F) (p : Provisioner R F) (o : Options) : stateBody env p o ≠ squeezed := by
  unfold stateBody squeezed
  split
  · exact nofun
  · intro h
    have hsize := Token.map.inj (List.cons.inj h).1
    simp only [Option.isSome_some, if_true] at hsize
    omega

/-- No report of a commit looks like a compressed payload. -/
theorem commitBody_ne_squeezed (env : Env F) (p : Provisioner R F) (includeState : Bool) (applied : Nat)
    (touched : List (NamespaceDecl R)) : commitBody env p includeState applied touched ≠ squeezed := by
  cases includeState <;> exact nofun

theorem opCommit_blank (c : Option Cursor) {o : Options}
    (ho : readOptions { namespaceFilter := true, includeState := true } c = o) (env : Env Unit) (seq : UInt64) :
    opCommit env seq c blank
      = (.value (packResponse env Op.commit seq o.compress (commitBody env blank o.includeState 0 [])), blank) := by
  have hnone : named blank o.hasFilter o.filter = [] := by
    unfold named
    split
    · exact List.filterMap_eq_nil_iff.mpr fun _ _ => rfl
    · rfl
  unfold opCommit
  rw [ho]
  simp only [Prog.get_bind_run, hnone]
  rfl

/-- On this device a response tells whether compression was asked for. -/
theorem compress_told {op : OptionOp} {known : KnownOptions} (hknown : op.known = some known) {c₁ c₂ : Option Cursor}
    (h : dispatch squeezingEnv op.code 0 c₁ blank = dispatch squeezingEnv op.code 0 c₂ blank) :
    (readOptions known c₁).compress = (readOptions known c₂).compress := by
  have hvalue := congrArg Prod.fst h
  cases op <;> cases hknown
  case getSchema => exact compress_of_eq (Outcome.value.inj hvalue) nofun nofun
  case getInfo => exact compress_of_eq (Outcome.value.inj hvalue) nofun nofun
  case getCapabilities => exact compress_of_eq (Outcome.value.inj hvalue) nofun nofun
  case factoryReset => exact compress_of_eq (Outcome.value.inj hvalue) nofun nofun
  case commit =>
    have hcommit : (opCommit squeezingEnv 0 c₁ blank).1 = (opCommit squeezingEnv 0 c₂ blank).1 := hvalue
    rw [opCommit_blank c₁ rfl, opCommit_blank c₂ rfl] at hcommit
    exact compress_of_eq (Outcome.value.inj hcommit) (commitBody_ne_squeezed _ _ _ _ _)
      (commitBody_ne_squeezed _ _ _ _ _)
  case getState =>
    exact compress_of_eq (Outcome.value.inj hvalue) (stateBody_ne_squeezed _ _ _) (stateBody_ne_squeezed _ _ _)

/-! ### Where reading goes wrong -/

/-- A filter does not get past an extension. -/
theorem times_filterEntry_ext (n : Nat) (rest : Cursor) (filter : List NamespaceId) :
    times filterEntry n (.ext :: rest) filter = (filter, .ext :: rest) := by
  induction n with
  | zero => rfl
  | succ n ih => exact ih

/-- A filter with an extension value in it stops there. -/
theorem times_filterEntry_stuck {items : List Object} (h : Object.plainItems items = false) (rest : Cursor)
    (filter : List NamespaceId) :
    ∃ inside, (times filterEntry items.length (Object.itemTokens items ++ rest) filter).2 = .ext :: inside := by
  induction items generalizing filter with
  | nil => cases h
  | cons o os ih =>
    have htokens : Object.itemTokens (o :: os) ++ rest = o.tokens ++ (Object.itemTokens os ++ rest) := by
      simp only [Object.itemTokens, List.append_assoc]
    rw [htokens]
    show ∃ inside, (times filterEntry os.length (filterEntry (o.tokens ++ _) filter).2
      (filterEntry (o.tokens ++ _) filter).1).2 = _
    have hpassed : o.plain = true →
        (filterEntry (o.tokens ++ (Object.itemTokens os ++ rest)) filter).2 = Object.itemTokens os ++ rest := by
      intro hplain
      have hskip := (skipValue_eq_iff o (Object.itemTokens os ++ rest)).mpr hplain
      cases o <;> first | rfl | exact hskip
    cases hplain : o.plain with
    | true =>
      rw [hpassed hplain]
      exact ih (by simpa only [Object.plainItems, hplain, Bool.true_and] using h) _
    | false =>
      obtain ⟨inside, hstuck⟩ := skip_tokens_stuck o hplain (Object.itemTokens os ++ rest) 0
      have hentry : filterEntry (o.tokens ++ (Object.itemTokens os ++ rest)) filter
          = (filter, .ext :: (inside ++ (Object.itemTokens os ++ rest))) := by
        cases o <;> first | exact Prod.ext rfl hstuck | cases hplain
      rw [hentry, times_filterEntry_ext]
      exact ⟨_, rfl⟩

/-- Under an integer key, reading stops at an extension value inside the value. -/
theorem optionEntry_stuck (known : KnownOptions) {k : Int} {v : Object} (h : v.plain = false) (rest : Cursor)
    (o : Options) : ∃ inside, (optionEntry known (writeEntry (.int k, v) rest) o).2 = .ext :: inside := by
  obtain ⟨inside, hstuck⟩ := skip_tokens_stuck v h rest 0
  have hskip : skipValue (v.tokens ++ rest) = .ext :: (inside ++ rest) := hstuck
  have hread : readUintKey (writeEntry (.int k, v) rest) = some (idOfWire k, v.tokens ++ rest) := rfl
  unfold optionEntry
  simp only [hread, readFlag_tokens, hskip]
  split
  · cases v with
    | arr items => exact times_filterEntry_stuck (by simpa only [Object.plain] using h) rest o.filter
    | _ => exact ⟨_, hskip⟩
  repeat' split
  all_goals first
    | exact ⟨_, rfl⟩
    | (cases v <;> first | exact ⟨_, hskip⟩ | cases h)

/-- A flag changes only if there is a boolean. -/
theorem readFlag_fst {c : Cursor} (h : ∀ b rest, c ≠ .bool b :: rest) (flag : Bool) : (readFlag flag c).1 = flag := by
  cases c with
  | nil => rfl
  | cons t rest =>
    cases t with
    | bool b => exact absurd rfl (h b rest)
    | _ => rfl

/-- Compression is asked for by an integer key with a boolean behind it, and by nothing else. -/
theorem optionEntry_compress (known : KnownOptions) {c : Cursor} (h : ∀ k b rest, c ≠ .int k :: .bool b :: rest)
    (o : Options) : (optionEntry known c o).1.compress = o.compress := by
  cases c with
  | nil => rfl
  | cons t rest =>
    cases t with
    | int k =>
      have hflag := readFlag_fst fun b rest' (heq : rest = .bool b :: rest') => h k b rest' (heq ▸ rfl)
      simp only [optionEntry, readUintKey]
      split
      · unfold readFilter
        split <;> rfl
      split
      · rfl
      split
      · unfold readPriorHash
        split <;> rfl
      split
      · rfl
      split
      · exact hflag o.compress
      · rfl
    | _ => rfl

/-- Behind an entry that is not passed, a key that asks for compression is not read as one. -/
theorem derailed_ne {e : Object × Object} (h : ¬ ∃ k, e.1 = .int k ∧ e.2.plain = true) (rest : Cursor) :
    (∀ k b c, writeEntry e (.int 100 :: rest) ≠ .int k :: .bool b :: c)
      ∧ ((∀ k, e.1 ≠ .int k) → ∀ k b c, skipValue (writeEntry e (.int 100 :: rest)) ≠ .int k :: .bool b :: c) := by
  obtain ⟨key, v⟩ := e
  constructor
  · intro k b c heq
    cases key with
    | int k' =>
      cases v with
      | bool b' => exact h ⟨k', rfl, rfl⟩
      | _ => simp [writeEntry, Object.tokens] at heq
    | _ => simp [writeEntry, Object.tokens] at heq
  · intro hkey k b c heq
    cases hplain : key.plain with
    | true =>
      have hskip : skipValue (writeEntry (key, v) (.int 100 :: rest)) = v.tokens ++ .int 100 :: rest :=
        (skipValue_eq_iff key _).mpr hplain
      rw [hskip] at heq
      cases v <;> simp [Object.tokens] at heq
    | false =>
      obtain ⟨inside, hstuck⟩ := skip_tokens_stuck key hplain (v.tokens ++ .int 100 :: rest) 0
      cases hstuck.symm.trans heq

/-- The entry, and then compression asked for. -/
def thenCompress (e : Object × Object) : List (Object × Object) := [e, (.int 100, .bool true)]

/-- An option the reading does not get past hides the one behind it. -/
theorem derailed_compress (known : KnownOptions) {e : Object × Object} (h : ¬ ∃ k, e.1 = .int k ∧ e.2.plain = true) :
    (readOptions known (some (Object.map (thenCompress e)).tokens)).compress = false := by
  have hread : ∀ c, readOptions known (some (.map 2 :: c))
      = (optionEntry known (optionEntry known c {}).2 (optionEntry known c {}).1).1 := fun _ => rfl
  have htokens : (Object.map (thenCompress e)).tokens = .map 2 :: writeEntry e [.int 100, .bool true] := by
    simp only [thenCompress, Object.tokens, Object.entryTokens, writeEntry, List.append_nil]
    rfl
  obtain ⟨hfirst, hsecond⟩ := derailed_ne h [.bool true]
  rw [htokens, hread, optionEntry_compress known ?_, optionEntry_compress known hfirst]
  obtain ⟨key, v⟩ := e
  cases key with
  | int k =>
    have hplain : v.plain = false := Bool.eq_false_iff.mpr fun hplain => h ⟨k, rfl, hplain⟩
    obtain ⟨inside, hstuck⟩ := optionEntry_stuck known hplain [.int 100, .bool true] ({} : Options)
    rw [hstuck]
    exact nofun
  | _ => exact hsecond nofun

namespace OptionOp

/-- An option that is ignored is one the reading gets past. -/
theorem passed_of_ignored {op : OptionOp} {known : KnownOptions} (hknown : op.known = some known)
    {e : Object × Object} (h : op.Ignored e) : ∃ k, e.1 = .int k ∧ e.2.plain = true := by
  by_contra hnot
  have hsame := h Unit Unit squeezingEnv blank 0 [] [(.int 100, .bool true)] [] nofun
  have htold := compress_told hknown hsame
  rw [List.append_nil, List.append_nil] at htold
  have hasked : (readOptions known (some (Object.map [(.int 100, .bool true)]).tokens)).compress = true := by
    cases op <;> cases hknown <;> rfl
  cases (derailed_compress known hnot).symm.trans (htold.trans hasked)

end OptionOp

/-! ### Options that are taken -/

/-- The options that entries under integer keys come to. -/
theorem readOptions_entries (known : KnownOptions) {es : List (Object × Object)}
    (h : ∀ e ∈ es, ∃ k, e.1 = .int k ∧ e.2.plain = true) (rest : Cursor) :
    readOptions known (some ((Object.map es).tokens ++ rest)) = es.foldl known.take {} := by
  have hloop : ∀ o, (times (optionEntry known) es.length (es.foldr writeEntry rest) o).1 = es.foldl known.take o := by
    induction es with
    | nil => exact fun _ => rfl
    | cons e es ih =>
      intro o
      obtain ⟨key, v⟩ := e
      obtain ⟨k, rfl, hplain⟩ := h _ List.mem_cons_self
      show (times (optionEntry known) es.length (optionEntry known (writeEntry _ _) o).2
        (optionEntry known (writeEntry _ _) o).1).1 = _
      rw [KnownOptions.optionEntry_take hplain]
      exact ih (fun e he => h e (List.mem_cons_of_mem _ he)) _
  show (times (optionEntry known) es.length (Object.entryTokens es ++ rest) {}).1 = _
  rw [entryTokens_append]
  exact hloop {}

namespace KnownOptions

/-- The options among the known ones. -/
def knows (known : KnownOptions) : RequestOption → Bool
  | .namespaceFilter => known.namespaceFilter
  | .draft => known.draft
  | .priorHash => known.priorHash
  | .includeState => known.includeState
  | .compress => true

theorem knows_of_select {known : KnownOptions} {key : UInt16} {w : RequestOption} (h : known.select key = some w) :
    known.knows w = true := by
  unfold select at h
  split at h
  · next hkey => cases h; exact (Bool.and_eq_true_iff.mp hkey).1
  split at h
  · next hkey => cases h; exact (Bool.and_eq_true_iff.mp hkey).1
  split at h
  · next hkey => cases h; exact (Bool.and_eq_true_iff.mp hkey).1
  split at h
  · next hkey => cases h; exact (Bool.and_eq_true_iff.mp hkey).1
  split at h
  · cases h; rfl
  · cases h

end KnownOptions

/-- An entry that goes unnoticed behind other entries leaves the operation to answer as without it, whatever
its option has become. -/
theorem OptionOp.Ignored.answers {op : OptionOp} {known : KnownOptions} (hknown : op.known = some known) {k : Int}
    {v : Object} {w : RequestOption} (h : op.Ignored (.int k, v)) (hplain : v.plain = true)
    (hselect : known.select (idOfWire k) = some w) {before : List (Object × Object)}
    (hbefore : ∀ b ∈ before, ∃ k, b.1 = .int k ∧ b.2.plain = true) {o : Options}
    (ho : before.foldl known.take {} = o) (env : Env F) (p : Provisioner R F) :
    ∃ c₁ c₂, dispatch env op.code 0 c₁ p = dispatch env op.code 0 c₂ p
      ∧ readOptions known c₁ = w.take v o ∧ readOptions known c₂ = o := by
  refine ⟨_, _, h R F env p 0 before [] [] fun b hb => (OptionOp.passed_known hknown).mpr (hbefore b hb), ?_, ?_⟩
  · have hall : ∀ e ∈ before ++ [(.int k, v)], ∃ k, e.1 = .int k ∧ e.2.plain = true := by
      intro e he
      rcases List.mem_append.mp he with hb | hlast
      · exact hbefore e hb
      · exact ⟨k, by rw [List.mem_singleton.mp hlast], by rw [List.mem_singleton.mp hlast]; exact hplain⟩
    rw [readOptions_entries known hall, List.foldl_append, ho]
    show known.take o (.int k, v) = _
    unfold KnownOptions.take
    dsimp only
    rw [hselect]
  · rw [List.append_nil before, readOptions_entries known hbefore, ho]

/-- A namespace with a field whose setter throws. -/
def guardedDecl : NamespaceDecl Unit where
  id := 1
  name := "radio".toUTF8.toList
  fields :=
    [{ id := 11, name := "power".toUTF8.toList, type := .int, flags := ffLiveApply, defaultValue := .int 0,
       setter := some fun _ => Prog.throw "no radio" }]
  distinct := by decide

/-- A device with a draft that no commit gets past. -/
def guarded : Provisioner Unit Unit where
  namespaces := [{ decl := guardedDecl, state := { draft := (∅ : FieldMap).insert 11 (.int 5) } }]
  storage := none
  started := true
  needsReboot := false
  schemaHash := 0
  runtime := ()
  distinct := List.nodup_singleton _

/-- The device of the sample has one namespace. -/
theorem find_guarded (id : NamespaceId) : guarded.find id = if id = 1 then some guardedDecl else none := by
  unfold Provisioner.find
  by_cases hid : id = 1
  · subst hid; rfl
  · rw [if_neg hid]
    exact List.find?_eq_none.mpr fun d hd => by
      rw [List.mem_singleton.mp hd]
      exact fun h => hid (of_decide_eq_true h).symm

/-- The filter leaves out the namespace of this device. -/
def Options.leavesOut (o : Options) : Bool := o.hasFilter && !o.filter.contains 1

theorem inScope_guarded (o : Options) : (inScope guarded o).length = if o.leavesOut then 0 else 1 := by
  unfold inScope Options.leavesOut
  cases o.hasFilter with
  | false => rfl
  | true =>
    let named : NamespaceDecl Unit → Bool := fun d => o.filter.contains d.id
    cases hin : o.filter.contains 1 with
    | true => exact congrArg List.length (List.filter_cons_of_pos (p := named) (a := guardedDecl) hin)
    | false =>
      exact congrArg List.length (List.filter_cons_of_neg (p := named) (a := guardedDecl) (Bool.eq_false_iff.mp hin))

theorem packResponse_plain (env : Env F) (op : UInt8) (seq : UInt64) (payload : List Token) :
    packResponse env op seq false payload = .arr 3 :: num op.toNat :: num seq.toNat :: payload := rfl

/-- A response with a schema tells the size of its scope. -/
theorem scope_told {p : Provisioner Unit Unit} {c₁ c₂ : Option Cursor} {o₁ o₂ : Options}
    (h₁ : readOptions { namespaceFilter := true } c₁ = o₁) (h₂ : readOptions { namespaceFilter := true } c₂ = o₂)
    (hplain₁ : o₁.compress = false) (hplain₂ : o₂.compress = false)
    (h : dispatch bareEnv Op.getSchema 0 c₁ p = dispatch bareEnv Op.getSchema 0 c₂ p) :
    (inScope p o₁).length = (inScope p o₂).length := by
  have hrun : ∀ {c o}, readOptions { namespaceFilter := true } c = o →
      dispatch bareEnv Op.getSchema 0 c p
        = (.value (packResponse bareEnv Op.getSchema 0 o.compress (packSchemas (inScope p o))), p) := by
    rintro c o rfl
    rfl
  rw [hrun h₁, hrun h₂, hplain₁, hplain₂, packResponse_plain, packResponse_plain] at h
  have hvalue := Outcome.value.inj (congrArg Prod.fst h)
  simp only [List.cons.injEq, true_and, packSchemas, Token.arr.injEq] at hvalue
  exact hvalue.1

/-- A response to a request for the state has the state in it. -/
theorem state_told {p : Provisioner Unit Unit} {c₁ c₂ : Option Cursor} {o₁ o₂ : Options}
    (h₁ : readOptions { namespaceFilter := true, draft := true, priorHash := true } c₁ = o₁)
    (h₂ : readOptions { namespaceFilter := true, draft := true, priorHash := true } c₂ = o₂)
    (hplain₁ : o₁.compress = false) (hplain₂ : o₂.compress = false)
    (h : dispatch bareEnv Op.getState 0 c₁ p = dispatch bareEnv Op.getState 0 c₂ p) :
    stateBody bareEnv p o₁ = stateBody bareEnv p o₂ := by
  have hrun : ∀ {c o}, readOptions { namespaceFilter := true, draft := true, priorHash := true } c = o →
      dispatch bareEnv Op.getState 0 c p
        = (.value (packResponse bareEnv Op.getState 0 o.compress (stateBody bareEnv p o)), p) := by
    rintro c o rfl
    rfl
  rw [hrun h₁, hrun h₂, hplain₁, hplain₂, packResponse_plain, packResponse_plain] at h
  have hvalue := Outcome.value.inj (congrArg Prod.fst h)
  simpa only [List.cons.injEq, true_and] using hvalue

/-- The state tells the size of its scope. -/
theorem scope_of_stateBody {p : Provisioner Unit Unit} {o₁ o₂ : Options} (hhash₁ : o₁.priorHash = none)
    (hhash₂ : o₂.priorHash = none) (h : stateBody bareEnv p o₁ = stateBody bareEnv p o₂) :
    (inScope p o₁).length = (inScope p o₂).length := by
  simp only [stateBody, hhash₁, hhash₂, reduceCtorEq, if_false, packContent, packEntries, List.flatMap_append,
    List.flatMap_cons, packNsValues, List.cons_append, List.cons.injEq, Token.map.injEq, true_and] at h
  exact h.2.1

/-- A commit comes to an answer if it does not come to the namespace. -/
theorem commit_told {c : Option Cursor} {o : Options}
    (ho : readOptions { namespaceFilter := true, includeState := true } c = o) :
    (∃ v, (dispatch bareEnv Op.commit 0 c guarded).1 = .value v) ↔ o.leavesOut = true := by
  have hnone : named guarded o.hasFilter o.filter = [] ↔ o.leavesOut = true := by
    unfold named Options.leavesOut
    cases o.hasFilter with
    | false => exact iff_of_false (by simp [Provisioner.decls, guarded]) nofun
    | true => simp [List.filterMap_eq_nil_iff, find_guarded]; grind
  have hall : ∀ d ∈ named guarded o.hasFilter o.filter, d = guardedDecl := by
    unfold named
    intro d hd
    split at hd
    · obtain ⟨id, -, hfind⟩ := List.mem_filterMap.mp hd
      rw [find_guarded] at hfind
      split at hfind
      · exact (Option.some.inj hfind).symm
      · cases hfind
    · exact List.mem_singleton.mp hd
  rw [← hnone]
  show (∃ v, (opCommit bareEnv 0 c guarded).1 = .value v) ↔ _
  unfold opCommit
  rw [ho]
  simp only [Prog.get_bind_run]
  cases hnamed : named guarded o.hasFilter o.filter with
  | nil => exact iff_of_true ⟨_, rfl⟩ rfl
  | cons d ds =>
    rw [hall d (hnamed ▸ List.mem_cons_self)]
    exact iff_of_false nofun nofun

/-- Whatever a filter is for, an operation on this device tells if it leaves out the namespace. -/
theorem filter_told {op : OptionOp} {known : KnownOptions} (hknown : op.known = some known)
    (hfilter : known.namespaceFilter = true) {c₁ c₂ : Option Cursor} {o₁ o₂ : Options}
    (h₁ : readOptions known c₁ = o₁) (h₂ : readOptions known c₂ = o₂)
    (hplain₁ : o₁.compress = false ∧ o₁.priorHash = none) (hplain₂ : o₂.compress = false ∧ o₂.priorHash = none)
    (h : dispatch bareEnv op.code 0 c₁ guarded = dispatch bareEnv op.code 0 c₂ guarded) :
    o₁.leavesOut = o₂.leavesOut := by
  have hscope : (inScope guarded o₁).length = (inScope guarded o₂).length → o₁.leavesOut = o₂.leavesOut := by
    rw [inScope_guarded, inScope_guarded]
    cases o₁.leavesOut <;> cases o₂.leavesOut <;> first | exact fun _ => rfl | exact nofun
  cases op <;> cases hknown
  case getSchema => exact hscope (scope_told h₁ h₂ hplain₁.1 hplain₂.1 h)
  case getState => exact hscope (scope_of_stateBody hplain₁.2 hplain₂.2 (state_told h₁ h₂ hplain₁.1 hplain₂.1 h))
  case commit =>
    have hone := (commit_told h₁).symm.trans (h ▸ commit_told h₂)
    exact Bool.eq_iff_iff.mpr hone
  all_goals cases hfilter

namespace OptionOp

section Noticed

variable {op : OptionOp} {known : KnownOptions} {k : Int}

/-- The flag for compression is noticed where it is known. -/
theorem compress_noticed (hknown : op.known = some known) (hselect : known.select (idOfWire k) = some .compress)
    (b : Bool) : ¬ op.Ignored (.int k, .bool b) := by
  intro h
  have hbefore : ∀ e ∈ [(Object.int 100, Object.bool !b)], ∃ k, e.1 = .int k ∧ e.2.plain = true :=
    List.forall_mem_singleton.mpr ⟨100, rfl, rfl⟩
  have ho : [(Object.int 100, Object.bool !b)].foldl known.take {} = { compress := !b } := by
    cases op <;> cases hknown <;> rfl
  obtain ⟨c₁, c₂, hsame, h₁, h₂⟩ := h.answers hknown rfl hselect hbefore ho squeezingEnv blank
  have htold := compress_told hknown hsame
  rw [h₁, h₂] at htold
  cases b <;> cases htold

/-- A flag for the drafts shows where there is one. -/
theorem draft_noticed (hselect : KnownOptions.select { namespaceFilter := true, draft := true, priorHash := true }
    (idOfWire k) = some .draft) (b : Bool) : ¬ getState.Ignored (.int k, .bool b) := by
  intro h
  have hbefore : ∀ e ∈ [(Object.int 2, Object.bool !b)], ∃ k, e.1 = .int k ∧ e.2.plain = true :=
    List.forall_mem_singleton.mpr ⟨2, rfl, rfl⟩
  obtain ⟨c₁, c₂, hsame, h₁, h₂⟩ := h.answers rfl rfl hselect hbefore (o := { draft := !b }) rfl bareEnv
    (radio { draft := (∅ : FieldMap).insert 11 (.int 5) })
  have htold := congrArg List.head? (state_told h₁ h₂ rfl rfl hsame)
  cases b <;> cases htold

/-- A hash from before shows where it is the hash of now, or is there in its place. -/
theorem priorHash_noticed (hselect : KnownOptions.select
    { namespaceFilter := true, draft := true, priorHash := true } (idOfWire k) = some .priorHash) (i : Int) :
    ¬ getState.Ignored (.int k, .int i) := by
  intro h
  have hnow : ∀ hash : Option UInt32,
      (stateBody bareEnv (radio {}) { priorHash := hash }).head? = some (.map (if hash = some 0 then 1 else 2)) := by
    intro hash
    have hhash : bodyHash bareEnv (radio {}) { priorHash := hash } = 0 :=
      show Utilities.crc32 0 [] = 0 by decide
    unfold stateBody
    rw [hhash]
    split <;> rfl
  by_cases hzero : (wireInt i).toUInt64.toUInt32 = 0
  · have hbefore : ∀ e ∈ ([] : List (Object × Object)), ∃ k, e.1 = .int k ∧ e.2.plain = true := nofun
    obtain ⟨c₁, c₂, hsame, h₁, h₂⟩ := h.answers rfl rfl hselect hbefore (o := {}) rfl bareEnv (radio {})
    have htold := congrArg List.head? (state_told h₁ h₂ rfl rfl hsame)
    have hthere : (if some (wireInt i).toUInt64.toUInt32 = some 0 then 1 else 2) = 2 :=
      Token.map.inj (Option.some.inj ((hnow _).symm.trans (htold.trans (hnow none))))
    rw [hzero] at hthere
    cases hthere
  · have hbefore : ∀ e ∈ [(Object.int 4, Object.int 0)], ∃ k, e.1 = .int k ∧ e.2.plain = true :=
      List.forall_mem_singleton.mpr ⟨4, rfl, rfl⟩
    obtain ⟨c₁, c₂, hsame, h₁, h₂⟩ := h.answers rfl rfl hselect hbefore (o := { priorHash := some 0 }) rfl bareEnv
      (radio {})
    have htold := congrArg List.head? (state_told h₁ h₂ rfl rfl hsame)
    have hthere : (if some (wireInt i).toUInt64.toUInt32 = some 0 then 1 else 2) = 1 :=
      Token.map.inj (Option.some.inj ((hnow _).symm.trans (htold.trans (hnow (some 0)))))
    rw [if_neg (fun heq => hzero (Option.some.inj heq))] at hthere
    cases hthere

/-- The flag for the state is noticed where it is known. -/
theorem includeState_noticed (hselect : KnownOptions.select { namespaceFilter := true, includeState := true }
    (idOfWire k) = some .includeState) (b : Bool) : ¬ commit.Ignored (.int k, .bool b) := by
  intro h
  have hbefore : ∀ e ∈ [(Object.int 5, Object.bool !b)], ∃ k, e.1 = .int k ∧ e.2.plain = true :=
    List.forall_mem_singleton.mpr ⟨5, rfl, rfl⟩
  obtain ⟨c₁, c₂, hsame, h₁, h₂⟩ := h.answers rfl rfl hselect hbefore (o := { includeState := !b }) rfl bareEnv blank
  have hcommit : opCommit bareEnv 0 c₁ blank = opCommit bareEnv 0 c₂ blank := hsame
  rw [opCommit_blank c₁ h₁, opCommit_blank c₂ h₂] at hcommit
  have hvalue := Outcome.value.inj (congrArg Prod.fst hcommit)
  cases b <;> cases hvalue

/-- A filter shows behind an empty one if it names the only namespace there is, and else by itself. -/
theorem namespaceFilter_noticed (hknown : op.known = some known)
    (hselect : known.select (idOfWire k) = some .namespaceFilter) {items : List Object}
    (hplain : Object.plainItems items = true) : ¬ op.Ignored (.int k, .arr items) := by
  intro h
  have hvalue : (Object.arr items).plain = true := by simpa only [Object.plain] using hplain
  let ids := items.filterMap wireId
  by_cases hnamed : ids.contains 1 = true
  · have hbefore : ∀ e ∈ [(Object.int 1, Object.arr [])], ∃ k, e.1 = .int k ∧ e.2.plain = true :=
      List.forall_mem_singleton.mpr ⟨1, rfl, rfl⟩
    have ho : [(Object.int 1, Object.arr [])].foldl known.take {} = { hasFilter := true } := by
      cases op <;> cases hknown <;> first | rfl | cases KnownOptions.knows_of_select hselect
    obtain ⟨c₁, c₂, hsame, h₁, h₂⟩ := h.answers hknown hvalue hselect hbefore ho bareEnv guarded
    have htold : Options.leavesOut { filter := ids, hasFilter := true } = true :=
      filter_told hknown (KnownOptions.knows_of_select hselect) h₁ h₂ ⟨rfl, rfl⟩ ⟨rfl, rfl⟩ hsame
    unfold Options.leavesOut at htold
    rw [hnamed] at htold
    cases htold
  · have hbefore : ∀ e ∈ ([] : List (Object × Object)), ∃ k, e.1 = .int k ∧ e.2.plain = true := nofun
    obtain ⟨c₁, c₂, hsame, h₁, h₂⟩ := h.answers hknown hvalue hselect hbefore (o := {}) rfl bareEnv guarded
    have htold : Options.leavesOut { filter := ids, hasFilter := true } = false :=
      filter_told hknown (KnownOptions.knows_of_select hselect) h₁ h₂ ⟨rfl, rfl⟩ ⟨rfl, rfl⟩ hsame
    unfold Options.leavesOut at htold
    rw [Bool.eq_false_iff.mpr hnamed] at htold
    cases htold

/-- A known option whose value has its type is noticed. -/
theorem noticed_of_takes (hknown : op.known = some known) {w : RequestOption}
    (hselect : known.select (idOfWire k) = some w) {v : Object} (htakes : w.takes v = true) (hplain : v.plain = true) :
    ¬ op.Ignored (.int k, v) := by
  have hknows := KnownOptions.knows_of_select hselect
  cases w with
  | namespaceFilter =>
    cases v with
    | arr items => exact namespaceFilter_noticed hknown hselect (by simpa only [Object.plain] using hplain)
    | _ => cases htakes
  | draft =>
    cases v with
    | bool b =>
      cases op <;> cases hknown <;> cases hknows
      exact draft_noticed hselect b
    | _ => cases htakes
  | priorHash =>
    cases v with
    | int i =>
      cases op <;> cases hknown <;> cases hknows
      exact priorHash_noticed hselect i
    | _ => cases htakes
  | includeState =>
    cases v with
    | bool b =>
      cases op <;> cases hknown <;> cases hknows
      exact includeState_noticed hselect b
    | _ => cases htakes
  | compress =>
    cases v with
    | bool b => exact compress_noticed hknown hselect b
    | _ => cases htakes

/-- An operation that reads its map with `optionEntry` notices an entry that is not passed, or has an option. -/
theorem harmless_of_ignored_known (hknown : op.known = some known) {e : Object × Object} (h : op.Ignored e) :
    op.Harmless e := by
  obtain ⟨key, v⟩ := e
  obtain ⟨k, rfl, hplain⟩ := passed_of_ignored hknown h
  refine (harmless_known hknown).mpr ⟨k, v, rfl, hplain, ?_⟩
  cases hselect : known.select (idOfWire k) with
  | none => rfl
  | some w => exact Bool.eq_false_iff.mpr fun htakes => noticed_of_takes hknown hselect htakes hplain h

end Noticed

end OptionOp

/-! ### SetState -/

/-- No report of a SetState looks like a compressed payload. -/
theorem setStateBody_ne_squeezed (env : Env F) (a : SetStateRun R F) : setStateBody env a ≠ squeezed := by
  intro h
  have hsize := Token.map.inj (List.cons.inj h).1
  omega

/-- Compression is asked for by an integer key with a boolean behind it here too. -/
theorem setStateEntry_compress (env : Env F) {c : Cursor} (h : ∀ k b rest, c ≠ .int k :: .bool b :: rest)
    (a : SetStateRun R F) : (setStateEntry env c a).1.compress = a.compress := by
  cases c with
  | nil => rfl
  | cons t rest =>
    cases t with
    | int k =>
      have hflag := readFlag_fst fun b rest' (heq : rest = .bool b :: rest') => h k b rest' (heq ▸ rfl)
      simp only [setStateEntry, readUintKey]
      split
      · rfl
      split
      · exact hflag a.compress
      split
      · unfold stateValue
        split
        · exact times_keeps (P := fun b : SetStateRun R F => b.compress = a.compress)
            (fun c b hb => (congrArg (·.2.1) (namespaceEntry_flags env c b)).trans hb) _ _ _ rfl
        · rfl
      · rfl
    | _ => rfl

/-- The local variables of `op_set_state` behind an empty `State` map and the entries. -/
def runBehind (env : Env F) (p : Provisioner R F) (es : List (Object × Object)) : SetStateRun R F :=
  (times (setStateEntry env) es.length (es.foldr writeEntry []) { p, sawState := true }).1

/-- What follows a `State` key is read like what comes before it. -/
theorem opSetState_behind (env : Env F) (p : Provisioner R F) (es : List (Object × Object)) :
    (dispatch env Op.setState 0 (some ((Object.map ((.int 3, .map []) :: es)).tokens ++ [])) p).1
      = .value (setStateResponse env 0 (runBehind env p es)) := by
  have hsaw : (runBehind env p es).sawState = true :=
    times_keeps (P := fun b : SetStateRun R F => b.sawState = true)
      (fun c b hb => setStateEntry_sawState env c (.inl hb)) _ _ _ rfl
  have hrun : setStateRun env p ((Object.map ((.int 3, .map []) :: es)).tokens ++ []) = runBehind env p es := by
    show (times (setStateEntry env) (es.length + 1) (Object.entryTokens ((.int 3, .map []) :: es) ++ []) { p }).1 = _
    rw [entryTokens_append]
    rfl
  have hanswer : ∀ a : SetStateRun R F, a.sawState = true →
      (if a.sawState then setStateResponse env 0 a else encodeError env 0 .malformedRequest "missing State key")
        = setStateResponse env 0 a := fun a ha => if_pos ha
  show (opSetState env 0 (some (.map _ :: _)) p).1 = _
  rw [opSetState_run]
  exact congrArg Outcome.value ((hanswer _ ((congrArg SetStateRun.sawState hrun).trans hsaw)).trans
    (congrArg (setStateResponse env 0) hrun))

namespace OptionOp

variable {k : Int}

/-- An entry that is ignored leaves the answer to the rest as it would be without it. -/
theorem Ignored.answers_setState {e : Object × Object} (h : setState.Ignored e) (env : Env F) (p : Provisioner R F)
    {before : List (Object × Object)} (hbefore : ∀ b ∈ before, EntryPassed p.decls b)
    (after : List (Object × Object)) :
    setStateResponse env 0 (runBehind env p (before ++ e :: after))
      = setStateResponse env 0 (runBehind env p (before ++ after)) := by
  have hstate : EntryPassed p.decls (.int 3, .map []) := nofun
  have hsame := h R F env p 0 ((.int 3, .map []) :: before) after [] (List.forall_mem_cons.mpr ⟨hstate, hbefore⟩)
  have hvalue := congrArg Prod.fst hsame
  exact Outcome.value.inj ((opSetState_behind env p (before ++ e :: after)).symm.trans
    (hvalue.trans (opSetState_behind env p (before ++ after))))

/-- A `State` key shows where there is no other. -/
theorem not_state_of_ignored {v : Object} (h : setState.Ignored (.int k, v)) : idOfWire k ≠ Key.state := by
  intro hstate
  have hsame : opSetState squeezingEnv 0 (some ((Object.map [(.int k, v)]).tokens ++ [])) blank
      = opSetState squeezingEnv 0 (some [.map 0]) blank := h Unit Unit squeezingEnv blank 0 [] [] [] nofun
  have hrefused := (opSetState_refuses_iff squeezingEnv 0 ((Object.map [(.int k, v)]).tokens ++ []) blank).mp
    ⟨"missing State key", hsame⟩
  refine hrefused ⟨1, _, rfl, Bool.or_eq_true_iff.mpr (.inl ?_)⟩
  exact decide_eq_true hstate

/-- An entry of a SetState payload that is ignored is one the reading gets past. -/
theorem passed_of_ignored_setState {e : Object × Object} (h : setState.Ignored e) :
    ∃ k, e.1 = .int k ∧ e.2.plain = true := by
  by_contra hnot
  have hbefore : ∀ b ∈ ([] : List (Object × Object)), EntryPassed blank.decls b := nofun
  have hsame := h.answers_setState squeezingEnv blank hbefore [(.int 100, .bool true)]
  have htold := compress_of_eq hsame (setStateBody_ne_squeezed _ _) (setStateBody_ne_squeezed _ _)
  obtain ⟨hfirst, hsecond⟩ := derailed_ne hnot [.bool true]
  let c := writeEntry e [.int 100, .bool true]
  let a : SetStateRun Unit Unit := { p := blank, sawState := true }
  have hbehind : ∀ k b rest, (setStateEntry squeezingEnv c a).2 ≠ .int k :: .bool b :: rest := by
    obtain ⟨key, v⟩ := e
    cases key with
    | int k =>
      have hplain : v.plain = false := Bool.eq_false_iff.mpr fun hplain => hnot ⟨k, rfl, hplain⟩
      obtain ⟨inside, hstuck⟩ := skip_tokens_stuck v hplain [.int 100, .bool true] 0
      have hrest : (setStateEntry squeezingEnv c a).2 = .ext :: (inside ++ [.int 100, .bool true]) :=
        (congrArg Prod.snd (setStateEntry_option squeezingEnv v (.inl (not_state_of_ignored h)) _ a)).trans hstuck
      rw [hrest]
      exact nofun
    | _ => exact hsecond nofun
  have hlost : (runBehind squeezingEnv blank [e, (.int 100, .bool true)]).compress = false :=
    (setStateEntry_compress squeezingEnv hbehind _).trans (setStateEntry_compress squeezingEnv hfirst a)
  exact absurd (hlost.symm.trans htold) nofun

/-- A flag that is set after it was set the other way. -/
theorem runBehind_flags (env : Env F) (p : Provisioner R F) (b : Bool) :
    runBehind env p [(.int k, .bool !b), (.int k, .bool b)]
        = payloadEffect env (.int k, .bool b) (payloadEffect env (.int k, .bool !b) { p, sawState := true })
      ∧ runBehind env p [(.int k, .bool !b)] = payloadEffect env (.int k, .bool !b) { p, sawState := true } := by
  have hone : ∀ (b : Bool) (rest : Cursor) (a : SetStateRun R F),
      setStateEntry env (writeEntry (.int k, .bool b) rest) a = (payloadEffect env (.int k, .bool b) a, rest) :=
    fun b rest a => (setStateEntry_option env (.bool b) (.inr nofun) rest a).trans
      (Prod.ext rfl ((skipValue_eq_iff (.bool b) rest).mpr rfl))
  unfold runBehind
  constructor
  · show (setStateEntry env (setStateEntry env (writeEntry _ (writeEntry _ [])) _).2
      (setStateEntry env (writeEntry _ (writeEntry _ [])) _).1).1 = _
    rw [hone, hone]
  · show (setStateEntry env (writeEntry _ []) _).1 = _
    rw [hone]

/-- A flag under one of the two known keys is not ignored. -/
theorem flag_noticed {b : Bool} (h : setState.Ignored (.int k, .bool b)) :
    idOfWire k ≠ Key.includeState ∧ idOfWire k ≠ Key.reqCompress := by
  have hbefore : ∀ ds : List (NamespaceDecl Unit), ∀ e ∈ [(Object.int k, Object.bool !b)], EntryPassed ds e :=
    fun _ => List.forall_mem_singleton.mpr rfl
  constructor
  · intro hkey
    have heffect : ∀ (b : Bool) (a : SetStateRun Unit Unit),
        payloadEffect bareEnv (.int k, .bool b) a = { a with includeState := b } := fun b a => if_pos hkey
    have hsame := h.answers_setState bareEnv blank (hbefore _) []
    obtain ⟨htwice, honce⟩ := runBehind_flags (k := k) bareEnv blank b
    rw [List.append_nil, honce] at hsame
    rw [show [(Object.int k, Object.bool !b)] ++ [(.int k, .bool b)] = [(.int k, .bool !b), (.int k, .bool b)] from rfl,
      htwice, heffect, heffect] at hsame
    cases b <;> cases hsame
  · intro hkey
    have heffect : ∀ (b : Bool) (a : SetStateRun Unit Unit),
        payloadEffect squeezingEnv (.int k, .bool b) a = { a with compress := b } := by
      intro b a
      unfold payloadEffect
      dsimp only
      rw [hkey]
      rfl
    have hsame := h.answers_setState squeezingEnv blank (hbefore _) []
    have htold := compress_of_eq hsame (setStateBody_ne_squeezed _ _) (setStateBody_ne_squeezed _ _)
    obtain ⟨htwice, honce⟩ := runBehind_flags (k := k) squeezingEnv blank b
    rw [List.append_nil, honce] at htold
    rw [show [(Object.int k, Object.bool !b)] ++ [(.int k, .bool b)] = [(.int k, .bool !b), (.int k, .bool b)] from rfl,
      htwice, heffect, heffect] at htold
    cases b <;> cases htold

/-- What is ignored under every circumstance is harmless by its form. -/
theorem harmless_of_ignored_setState {e : Object × Object} (h : setState.Ignored e) : setState.Harmless e := by
  obtain ⟨key, v⟩ := e
  obtain ⟨k, rfl, hplain⟩ := passed_of_ignored_setState h
  refine ⟨k, v, rfl, hplain, Bool.or_eq_false_iff.mpr ⟨decide_eq_false (not_state_of_ignored h), ?_⟩⟩
  cases v with
  | bool b =>
    obtain ⟨hinclude, hcompress⟩ := flag_noticed h
    rw [decide_eq_false hinclude, decide_eq_false hcompress]
    rfl
  | _ => exact Bool.and_false _

end OptionOp

/-! ## The entries that are ignored -/

/-- An entry may stand anywhere in the options of an operation exactly if its key is an integer and its value one
that can be skipped and that no option of the operation takes. -/
theorem ignored_iff (op : OptionOp) (e : Object × Object) : op.Ignored e ↔ op.Harmless e := by
  refine ⟨fun h => ?_, OptionOp.ignored_of_harmless⟩
  cases hknown : op.known with
  | some known => exact OptionOp.harmless_of_ignored_known hknown h
  | none =>
    cases op <;> cases hknown
    case none.setState.refl => exact OptionOp.harmless_of_ignored_setState h
    case none.reboot.refl => trivial

/-- The key is none that the client guide documents for the operation. -/
def OptionOp.Foreign (op : OptionOp) (e : Object × Object) : Prop :=
  ∀ key ∈ documentedKeys op.code, e.1 ≠ .int key.toNat

/-- A text key with `nil` behind it swallows the option that follows. -/
theorem foreign_option_noticed : ¬ ∀ (op : OptionOp) (e : Object × Object), op.Foreign e → op.Ignored e := by
  intro h
  have hforeign : OptionOp.getSchema.Foreign (.str [120], .nil) := fun _ _ => nofun
  have hsame := h .getSchema (.str [120], .nil) hforeign Unit Unit squeezingEnv blank 0 [] [(.int 100, .bool true)] []
    nofun
  cases congrArg Prod.fst hsame

end MicroReticulum.Provisioning
