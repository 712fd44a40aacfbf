import MicroReticulum.Provisioning.Payload

/-!
# Entries that a request does not need

A request carries its options in a map, and an entry that an operation does not know is meant to be ignored.
The handlers read the map entry by entry. They pass over the value of a key they do not know; where the key is
not an integer they pass over the key only, so that its value is read as the next key.

`Ignored` says of an entry that it may stand anywhere in the options of an operation. `ignored_of_harmless` gives it
for an integer key with a value that can be skipped, if no option takes the value.
-/

namespace MicroReticulum.Provisioning

open MicroReticulum Library

variable {R F : Type}

/-! ## The value of an option -/

/-- The id that an element of a filter stands for. -/
def wireId : Object → Option NamespaceId
  | .int v => some (idOfWire v)
  | _ => none

/-- What the elements of a filter add to it. -/
theorem times_filterEntry {items : List Object} (hplain : Object.plainItems items = true) (rest : Cursor)
    (filter : List NamespaceId) :
    times filterEntry items.length (Object.itemTokens items ++ rest) filter
      = (filter ++ items.filterMap wireId, rest) := by
  induction items generalizing filter with
  | nil => exact Prod.ext (List.append_nil filter).symm rfl
  | cons o os ih =>
    obtain ⟨ho, hos⟩ := Bool.and_eq_true_iff.mp hplain
    have hone : filterEntry (o.tokens ++ (Object.itemTokens os ++ rest)) filter
        = (filter ++ (wireId o).toList, Object.itemTokens os ++ rest) := by
      have hskip := (skipValue_eq_iff o (Object.itemTokens os ++ rest)).mpr ho
      cases o with
      | int v => rfl
      | _ => exact Prod.ext (List.append_nil filter).symm hskip
    show times filterEntry (os.length + 1) (Object.itemTokens (o :: os) ++ rest) filter = _
    have htokens : Object.itemTokens (o :: os) ++ rest = o.tokens ++ (Object.itemTokens os ++ rest) := by
      simp only [Object.itemTokens, List.append_assoc]
    rw [htokens]
    unfold times
    rw [hone, ih hos]
    cases hid : wireId o with
    | none => simp only [Option.toList_none, List.append_nil, List.filterMap_cons_none hid]
    | some id =>
      simp only [Option.toList_some, List.append_assoc, List.singleton_append, List.filterMap_cons_some hid]

/-- The options that a request may have. -/
inductive RequestOption where
  | namespaceFilter | draft | priorHash | includeState | compress
  deriving DecidableEq

namespace RequestOption

/-- What the value of an option does; one of another type does nothing. -/
def take : RequestOption → Object → Options → Options
  | namespaceFilter, .arr items, o => { o with filter := o.filter ++ items.filterMap wireId, hasFilter := true }
  | draft, .bool b, o => { o with draft := b }
  | priorHash, .int w, o => { o with priorHash := some (wireInt w).toUInt64.toUInt32 }
  | includeState, .bool b, o => { o with includeState := b }
  | compress, .bool b, o => { o with compress := b }
  | _, _, o => o

/-- The value is of the type that the option has. -/
def takes : RequestOption → Object → Bool
  | namespaceFilter, .arr _ => true
  | draft, .bool _ => true
  | priorHash, .int _ => true
  | includeState, .bool _ => true
  | compress, .bool _ => true
  | _, _ => false

theorem take_of_not_takes {w : RequestOption} {v : Object} (h : w.takes v = false) (o : Options) : w.take v o = o := by
  cases w <;> cases v <;> first | rfl | cases h

end RequestOption

namespace KnownOptions

/-- The option that a key selects. -/
def select (known : KnownOptions) (key : UInt16) : Option RequestOption :=
  if known.namespaceFilter && key = Key.namespaceFilter then some .namespaceFilter
  else if known.draft && key = Key.draft then some .draft
  else if known.priorHash && key = Key.priorHash then some .priorHash
  else if known.includeState && key = Key.includeState then some .includeState
  else if key = Key.reqCompress then some .compress
  else none

/-- What an entry does to the options. -/
def take (known : KnownOptions) (o : Options) (e : Object × Object) : Options :=
  match e with
  | (.int k, v) =>
    match known.select (idOfWire k) with
    | some w => w.take v o
    | none => o
  | _ => o

variable {known : KnownOptions} {k : Int} {v : Object}

/-- An integer key with a value that can be skipped is passed. -/
theorem optionEntry_take (hplain : v.plain = true) (rest : Cursor) (o : Options) :
    optionEntry known (writeEntry (.int k, v) rest) o = (known.take o (.int k, v), rest) := by
  have hskip : skipValue (v.tokens ++ rest) = rest := (skipValue_eq_iff v rest).mpr hplain
  have hread : readUintKey (writeEntry (.int k, v) rest) = some (idOfWire k, v.tokens ++ rest) := rfl
  have hflag (b : Bool) : readFlag b (v.tokens ++ rest) = (flagOf b v, rest) := by rw [readFlag_tokens, hskip]
  unfold optionEntry take select
  simp only [hread, hflag]
  split
  · cases v with
    | arr items =>
      show (let r := times filterEntry items.length (Object.itemTokens items ++ rest) o.filter
        ({ o with filter := r.1, hasFilter := true }, r.2)) = _
      rw [times_filterEntry (by simpa only [Object.plain] using hplain)]
      rfl
    | _ => exact Prod.ext rfl hskip
  split
  · cases v <;> rfl
  split
  · cases v with
    | int w => rfl
    | _ => exact Prod.ext rfl hskip
  split
  · cases v <;> rfl
  split
  · cases v <;> rfl
  · exact Prod.ext rfl hskip

end KnownOptions

/-! ## Maps of options -/

/-- An entry that is passed and does nothing may stand anywhere behind entries that are passed. -/
theorem times_insert {A : Type} {body : Cursor → A → A × Cursor} (effect : Object × Object → A → A) {P : A → Prop}
    {e : Object × Object} (he : ∀ c a, P a → body (writeEntry e c) a = (a, c)) {before : List (Object × Object)}
    (hbefore : ∀ b ∈ before, ∀ c a, P a → P (effect b a) ∧ body (writeEntry b c) a = (effect b a, c))
    (after : List (Object × Object)) (rest : Cursor) {a : A} (ha : P a) :
    times body (before ++ e :: after).length (Object.entryTokens (before ++ e :: after) ++ rest) a
      = times body (before ++ after).length (Object.entryTokens (before ++ after) ++ rest) a := by
  rw [entryTokens_append, entryTokens_append]
  induction before generalizing a with
  | nil =>
    show times body after.length (body (writeEntry e _) a).2 (body (writeEntry e _) a).1 = _
    rw [he _ a ha]
    rfl
  | cons b bs ih =>
    have hstep : ∀ es : List (Object × Object), times body (b :: es).length ((b :: es).foldr writeEntry rest) a
        = times body es.length (es.foldr writeEntry rest) (effect b a) := by
      intro es
      show times body es.length (body (writeEntry b _) a).2 (body (writeEntry b _) a).1 = _
      rw [(hbefore b List.mem_cons_self _ a ha).2]
    rw [List.cons_append, List.cons_append, hstep, hstep]
    exact ih (fun b' hb' => hbefore b' (List.mem_cons_of_mem b hb')) (hbefore b List.mem_cons_self rest a ha).1

/-- The operations that take a map of options, or parse one. -/
inductive OptionOp where
  | getSchema | getInfo | getCapabilities | getState | setState | commit | factoryReset | reboot

namespace OptionOp

def code : OptionOp → UInt8
  | getSchema => Op.getSchema
  | getInfo => Op.getInfo
  | getCapabilities => Op.getCapabilities
  | getState => Op.getState
  | setState => Op.setState
  | commit => Op.commit
  | factoryReset => Op.factoryReset
  | reboot => Op.reboot

/-- The options of the operations that read their map with `optionEntry`. -/
def known : OptionOp → Option KnownOptions
  | getSchema => some { namespaceFilter := true }
  | getState => some { namespaceFilter := true, draft := true, priorHash := true }
  | commit => some { namespaceFilter := true, includeState := true }
  | getInfo | getCapabilities | factoryReset => some {}
  | setState | reboot => none

theorem dispatch_congr {op : OptionOp} {known : KnownOptions} (hknown : op.known = some known) (env : Env F)
    (seq : UInt64) {c₁ c₂ : Option Cursor} (h : readOptions known c₁ = readOptions known c₂) :
    (dispatch env op.code seq c₁ : Prog String (Provisioner R F) (List Token)) = dispatch env op.code seq c₂ := by
  cases op <;> cases hknown
  case getSchema => show opGetSchema env seq c₁ = opGetSchema env seq c₂; unfold opGetSchema; rw [h]
  case getInfo => show opGetInfo env seq c₁ = opGetInfo env seq c₂; unfold opGetInfo parseCompressOnly; rw [h]
  case getCapabilities =>
    show opGetCapabilities env seq c₁ = opGetCapabilities env seq c₂
    unfold opGetCapabilities parseCompressOnly
    rw [h]
  case getState => show opGetState env seq c₁ = opGetState env seq c₂; unfold opGetState; rw [h]
  case commit => show opCommit env seq c₁ = opCommit env seq c₂; unfold opCommit; rw [h]
  case factoryReset =>
    show opFactoryReset env seq c₁ = opFactoryReset env seq c₂
    unfold opFactoryReset parseCompressOnly
    rw [h]

/-- The entry is passed, so that what follows it is read from its own place. -/
def Passed (op : OptionOp) (ds : List (NamespaceDecl R)) (e : Object × Object) : Prop :=
  match op with
  | setState => EntryPassed ds e
  | _ => ∃ k, e.1 = .int k ∧ e.2.plain = true

/-- The value is one that an option of the operation takes; a `State` key takes any. -/
def takes (op : OptionOp) (key : UInt16) (v : Object) : Bool :=
  match op with
  | setState => key = Key.state || (key = Key.includeState || key = Key.reqCompress) && (v matches .bool _)
  | op => (op.known.bind fun known => known.select key).any fun w => w.takes v

/-- The entry may stand anywhere in the options of the operation. -/
def Ignored (op : OptionOp) (e : Object × Object) : Prop :=
  ∀ (R F : Type) (env : Env F) (p : Provisioner R F) (seq : UInt64) (before after : List (Object × Object))
    (rest : Cursor), (∀ b ∈ before, op.Passed p.decls b) →
    dispatch env op.code seq (some ((Object.map (before ++ e :: after)).tokens ++ rest)) p
      = dispatch env op.code seq (some ((Object.map (before ++ after)).tokens ++ rest)) p

/-- The key is an integer and the value can be skipped, but is none that an option takes. A reboot has no use
for its map at all. -/
def Harmless (op : OptionOp) (e : Object × Object) : Prop :=
  match op with
  | reboot => True
  | op => ∃ k v, e = (.int k, v) ∧ v.plain = true ∧ op.takes (idOfWire k) v = false

theorem passed_known {op : OptionOp} {known : KnownOptions} (hknown : op.known = some known)
    {ds : List (NamespaceDecl R)} {e : Object × Object} :
    op.Passed ds e ↔ ∃ k, e.1 = .int k ∧ e.2.plain = true := by
  cases op <;> first | exact Iff.rfl | cases hknown

theorem harmless_known {op : OptionOp} {known : KnownOptions} (hknown : op.known = some known)
    {e : Object × Object} : op.Harmless e ↔ ∃ k v, e = (.int k, v) ∧ v.plain = true
      ∧ (known.select (idOfWire k)).any (fun w => w.takes v) = false := by
  cases op <;> cases hknown <;> exact Iff.rfl

theorem readOptions_insert (known : KnownOptions) {k : Int} {v : Object} (hplain : v.plain = true)
    (htakes : (known.select (idOfWire k)).any (fun w => w.takes v) = false) {before : List (Object × Object)}
    (hbefore : ∀ b ∈ before, ∃ k, b.1 = .int k ∧ b.2.plain = true) (after : List (Object × Object)) (rest : Cursor) :
    readOptions known (some ((Object.map (before ++ (.int k, v) :: after)).tokens ++ rest))
      = readOptions known (some ((Object.map (before ++ after)).tokens ++ rest)) := by
  have hnothing : ∀ o, known.take o (.int k, v) = o := by
    intro o
    unfold KnownOptions.take
    dsimp only
    cases hselect : known.select (idOfWire k) with
    | none => rfl
    | some w =>
      rw [hselect] at htakes
      exact RequestOption.take_of_not_takes htakes o
  have hentry : ∀ c o, True → optionEntry known (writeEntry (.int k, v) c) o = (o, c) := fun c o _ =>
    (KnownOptions.optionEntry_take hplain c o).trans (by rw [hnothing])
  have hread : ∀ b ∈ before, ∀ c o, True →
      True ∧ optionEntry known (writeEntry b c) o = (known.take o b, c) := by
    rintro ⟨k', v'⟩ hb c o -
    obtain ⟨i, rfl, hv⟩ := hbefore _ hb
    exact ⟨trivial, KnownOptions.optionEntry_take hv c o⟩
  exact congrArg Prod.fst (times_insert (fun b o => known.take o b) (P := fun _ => True) hentry hread
    after rest trivial)

theorem ignored_of_harmless {op : OptionOp} {e : Object × Object} (h : op.Harmless e) : op.Ignored e := by
  intro R F env p seq before after rest hbefore
  cases hknown : op.known with
  | some known =>
    obtain ⟨k, v, rfl, hplain, htakes⟩ := (harmless_known hknown).mp h
    have hpassed : ∀ b ∈ before, ∃ k, b.1 = .int k ∧ b.2.plain = true := fun b hb =>
      (passed_known hknown).mp (hbefore b hb)
    rw [dispatch_congr hknown env seq (readOptions_insert known hplain htakes hpassed after rest)]
  | none =>
    cases op <;> cases hknown
    case none.reboot.refl => rfl
    case none.setState.refl =>
      obtain ⟨k, v, rfl, hplain, htakes⟩ := h
      obtain ⟨hstate, hflags⟩ := Bool.or_eq_false_iff.mp htakes
      have hother : idOfWire k ≠ Key.state := of_decide_eq_false hstate
      have hnothing : ∀ a : SetStateRun R F, payloadEffect env (.int k, v) a = a := by
        intro a
        have hflag : (idOfWire k = Key.includeState ∨ idOfWire k = Key.reqCompress) → ∀ b, flagOf b v = b := by
          intro hkey b
          cases v with
          | bool => exact absurd hkey (not_or.mpr (by simpa using hflags))
          | _ => rfl
        simp only [payloadEffect, if_neg hother]
        split
        · next hkey => rw [hflag (.inl hkey)]
        split
        · next hkey => rw [hflag (.inr hkey)]
        · rfl
      have hentry : ∀ c (a : SetStateRun R F), a.p.decls = p.decls →
          setStateEntry env (writeEntry (.int k, v) c) a = (a, c) := fun c a _ =>
        (setStateEntry_option env v (.inl hother) c a).trans
          (Prod.ext (hnothing a) ((skipValue_eq_iff v c).mpr hplain))
      have hread : ∀ b ∈ before, ∀ c (a : SetStateRun R F), a.p.decls = p.decls →
          (payloadEffect env b a).p.decls = p.decls
            ∧ setStateEntry env (writeEntry b c) a = (payloadEffect env b a, c) := by
        intro b hb c a ha
        let loop := payloadLoop env p.decls
        have hlate := loop.late_of_good b (hbefore b hb)
        exact ⟨(payloadEffect_decls env b a).trans ha, Prod.ext (loop.body_of_late b c a ha hlate)
          ((loop.passed_iff b c a ha hlate).mpr (hbefore b hb))⟩
      have hrun : setStateRun env p ((Object.map (before ++ (.int k, v) :: after)).tokens ++ rest)
          = setStateRun env p ((Object.map (before ++ after)).tokens ++ rest) :=
        congrArg Prod.fst (times_insert (payloadEffect env) (P := fun a : SetStateRun R F => a.p.decls = p.decls)
          hentry hread after rest (a := { p }) rfl)
      show opSetState env seq (some (.map _ :: _)) p = opSetState env seq (some (.map _ :: _)) p
      rw [opSetState_run, opSetState_run]
      exact congrArg (fun a : SetStateRun R F => ((.value (if a.sawState then setStateResponse env seq a
        else encodeError env seq .malformedRequest "missing State key") : Outcome String (List Token)), a.p)) hrun

end OptionOp

end MicroReticulum.Provisioning
