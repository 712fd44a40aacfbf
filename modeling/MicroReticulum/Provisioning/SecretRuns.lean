import MicroReticulum.Provisioning.BuiltinSettings
import MicroReticulum.Provisioning.Secrecy

/-!
# Runs of two devices with different secrets

Two devices that differ in their secrets are sent the same requests, but for the secrets supplied, and
answer the same (`responses_eq`), as long as no request asks for the draft of a secret. The registry that
a device begins with is one for which this holds: the only secret in it is the transport identity, and of
the two devices all that the getters show of their identities is a hash, which has to be the same.

Nothing is said of the files on the storage.
-/

namespace MicroReticulum.Provisioning

open MicroReticulum Library

variable {R F : Type}

/-! ## Runs -/

/-- What a device answers to a sequence of requests. -/
def responses (env : Env F) : List Bytes → Provisioner R F → List (Outcome String Bytes)
  | [], _ => []
  | request :: requests, p =>
    (handleMessage env request p).1 :: responses env requests (handleMessage env request p).2

/-- Two devices are sent the same requests, but for the secrets supplied, and every request meets the
condition in the state it finds. -/
def DiscreetRun (env : Env F) :
    List (Bytes × Bytes) → Provisioner R F → Provisioner R F → Prop
  | [], _, _ => True
  | (b₁, b₂) :: requests, p₁, p₂ =>
    (RequestsAlike p₁.decls (env.decode b₁) (env.decode b₂)
        ∧ SuppliesFresh env p₁ (env.decode b₁) ∧ SuppliesFresh env p₂ (env.decode b₂)
        ∧ Discreet env p₁ (env.decode b₁))
      ∧ DiscreetRun env requests (handleMessage env b₁ p₁).2 (handleMessage env b₂ p₂).2

/-- Two devices that differ in the values of their secret fields, and are sent requests that differ in
the secrets they supply, give the same responses, as long as no request asks for a secret draft. -/
theorem responses_eq {ds : List (NamespaceDecl R)} {RR : R → R → Prop} {env : Env F}
    (happ : Respects ds RR) (hfs : env.fs.Answer) (requests : List (Bytes × Bytes))
    {p₁ p₂ : Provisioner R F} (h : Provisioner.Alike ds RR p₁ p₂)
    (hrun : DiscreetRun env requests p₁ p₂) :
    responses env (requests.map Prod.fst) p₁ = responses env (requests.map Prod.snd) p₂ := by
  induction requests generalizing p₁ p₂ with
  | nil => rfl
  | cons r requests ih =>
    obtain ⟨b₁, b₂⟩ := r
    obtain ⟨⟨hc, h₁, h₂, hquiet⟩, hrest⟩ := hrun
    rw [h.decls₁] at hc
    have hstep : Prog.RelatedAt (Provisioner.Alike ds RR) Eq (handleMessage env b₁) p₁
        (handleMessage env b₂) p₂ :=
      (handleObjects_related happ hfs h hc h₁ h₂ hquiet).bind fun _ _ _ _ hr ht =>
        Prog.RelatedAt.pure (by rw [hr]) ht
    obtain ⟨hout, hstate⟩ := hstep
    show (handleMessage env b₁ p₁).1 :: _ = (handleMessage env b₂ p₂).1 :: _
    rw [show (handleMessage env b₁ p₁).1 = (handleMessage env b₂ p₂).1 from
      Outcome.eq_of_rel hout]
    exact congrArg _ (ih hstate hrest)

/-! ## The built-in settings -/

namespace Builtin

variable {X : Type} {identityHash : PrivateKeys → Bytes} {RR : Runtime X → Runtime X → Prop}

/-- The same runtime, with another identity. -/
def withIdentity (i : Option PrivateKeys) (r : Runtime X) : Runtime X := { r with identity := i }

/-- Two runtimes with different private keys, which have the same hash. -/
structure SameButKeys (identityHash : PrivateKeys → Bytes) (r₁ r₂ : Runtime X) : Prop where
  others : withIdentity r₂.identity r₁ = r₂
  hashes : r₁.identity.map identityHash = r₂.identity.map identityHash

/-- A variable that is not the identity is the same in both. -/
theorem SameButKeys.reads {α : Type} {r₁ r₂ : Runtime X} (h : SameButKeys identityHash r₁ r₂) (g : Runtime X → α)
    (hg : ∀ i r, g (withIdentity i r) = g r) : g r₁ = g r₂ := by
  rw [← hg r₂.identity r₁, h.others]

/-- Writing it leaves the runtimes the same but for the keys. -/
theorem SameButKeys.writes {r₁ r₂ : Runtime X} (h : SameButKeys identityHash r₁ r₂) (g : Runtime X → Runtime X)
    (hg : ∀ i r, g (withIdentity i r) = withIdentity i (g r)) : SameButKeys identityHash (g r₁) (g r₂) := by
  have hkeys : ∀ r, (g r).identity = r.identity := by
    intro r
    have hsame : g r = withIdentity r.identity (g r) := hg r.identity r
    rw [hsame]
    rfl
  refine ⟨?_, ?_⟩
  · rw [hkeys, ← hg, h.others]
  · rw [hkeys, hkeys, h.hashes]

/-- A setter that writes a variable, on a field that is no secret. -/
theorem respects_of_store {f : Field (Runtime X)} {g : Value → Runtime X → Runtime X}
    (hsetter : f.setter = some fun v => store (g v)) (hg : ∀ v r₁ r₂, RR r₁ r₂ → RR (g v r₁) (g v r₂))
    (hsecret : f.hasFlag ffSecret = false)
    (hgetter : ∀ getter, f.getter = some getter → ∀ r₁ r₂, RR r₁ r₂ → getter r₁ = getter r₂) : f.Respects RR := by
  have hstore : ∀ v, Prog.Related RR Eq (store (g v)) (store (g v)) := fun v =>
    (Prog.Related.modify (hg v)).bind fun _ _ _ => Prog.Related.pure rfl
  refine ⟨fun _ _ => hgetter, fun _ setter h v₁ v₂ _ _ hsame => ?_, fun _ setter h => ?_⟩
  · cases hsetter.symm.trans h
    rw [hsame.resolve_right (by rw [hsecret]; exact Bool.false_ne_true)]
    exact hstore v₂
  · cases hsetter.symm.trans h
    exact hstore _

theorem respects_of_command {name : Bytes} {id : FieldId} {setter : Prog String (Runtime X) Bool}
    (h : Prog.Related RR Eq setter setter) : (commandVoid name id setter).Respects RR where
  getter := fun _ _ getter hgetter => by cases hgetter
  setter := fun _ _ hsetter _ _ _ _ _ => by
    cases hsetter
    exact h
  reset := fun _ _ hsetter => by
    cases hsetter
    exact h

theorem respects_of_metric {name : Bytes} {id : FieldId} {getter : Runtime X → Bytes}
    (h : ∀ r₁ r₂, RR r₁ r₂ → getter r₁ = getter r₂) : (metricBytes name id getter).Respects RR where
  getter := fun _ _ _ hgetter r₁ r₂ hr => by
    cases hgetter
    exact congrArg Value.bytes (h r₁ r₂ hr)
  setter := fun _ _ hsetter => by cases hsetter
  reset := fun _ _ hsetter => by cases hsetter

/-- A commit does not call the setter of the transport identity, and a reset calls it with nothing. -/
theorem transportIdentity_respects : (transportIdentity (X := X)).Respects RR := by
  have hflags : ∀ flag, (transportIdentity (X := X)).hasFlag flag = (((ffRebootRequired ||| ffSecret) &&& flag) ≠ 0 : Bool) :=
    fun _ => rfl
  refine ⟨fun hsecret => ?_, fun ⟨_, hcommit⟩ => ?_, fun _ setter hsetter => ?_⟩
  · rw [hflags] at hsecret
    exact absurd hsecret (by decide)
  · rw [hflags, hflags] at hcommit
    exact absurd hcommit (by decide)
  · cases hsetter
    exact (Prog.Related.modify fun _ _ h => h).bind fun _ _ _ => Prog.Related.pure rfl

/-- Every other field keeps clear of the identity. -/
theorem Tunable.respects (s : Tunable) (r₀ : Runtime X) : (s.field r₀).Respects (SameButKeys identityHash) := by
  by_cases hs : s = .transportIdentity
  · rw [hs]
    exact transportIdentity_respects
  · have hsecret : (s.field r₀).hasFlag ffSecret = false := by
      have hflags : (s.field r₀).flags = ffLiveApply ∨ (s.field r₀).flags = ffRebootRequired := by
        cases s
        case transportIdentity => exact absurd rfl hs
        all_goals first | exact .inl rfl | exact .inr rfl
      unfold Field.hasFlag
      rcases hflags with h | h <;> rw [h] <;> decide
    have hwrites : ∀ v i r, s.written r₀ v (withIdentity i r) = withIdentity i (s.written r₀ v r) := by
      intro v i r
      cases s
      case transportIdentity => exact absurd rfl hs
      all_goals rfl
    have hreads : ∀ i (r : Runtime X), s.shown (withIdentity i r) = s.shown r := by
      intro i r
      cases s
      case transportIdentity => exact absurd rfl hs
      all_goals rfl
    refine respects_of_store s.field_setter (fun v r₁ r₂ h => h.writes _ (hwrites v)) hsecret ?_
    intro getter hgetter r₁ r₂ h
    cases s.field_getter.symm.trans hgetter
    exact h.reads (fun r => s.shown r) hreads

/-- The namespaces that a device begins with, those that only measure left out but for the addresses. -/
def builtinDecls (r₀ : Runtime X) (c : Platform X) (identityHash : PrivateKeys → Bytes) (probe management : X → Bytes)
    (infoHash addressesHash : UInt32) : List (NamespaceDecl (Runtime X)) :=
  [generalConfig r₀ c.clearProvisioning c.generalHash, transportConfig r₀ c.clearTransport c.transportHash,
    info infoHash, addresses identityHash probe management addressesHash]

/-- They respect runtimes that differ in the private keys only. -/
theorem builtin_respects (r₀ : Runtime X) (c : Platform X) (identityHash : PrivateKeys → Bytes)
    (probe management : X → Bytes) (infoHash addressesHash : UInt32) :
    Respects (builtinDecls r₀ c identityHash probe management infoHash addressesHash) (SameButKeys identityHash) where
  fields := fun d hd f hf => by
    have hcommand : ∀ g : Runtime X → Runtime X,
        (∀ i r, g (withIdentity i r) = withIdentity i (g r)) →
        Prog.Related (SameButKeys identityHash) Eq (store g) (store g) := fun g hg =>
      (Prog.Related.modify fun _ _ h => h.writes g hg).bind fun _ _ _ => Prog.Related.pure rfl
    simp only [builtinDecls, List.mem_cons, List.not_mem_nil, or_false] at hd
    rcases hd with rfl | rfl | rfl | rfl
    · have hfield : (∃ s : Tunable, f = s.field r₀) ∨ f = clearProvisioning c.clearProvisioning := by
        simp only [generalConfig, List.mem_cons, List.not_mem_nil, or_false] at hf
        rcases hf with h | h | h | h | h | h | h | h | h
        exacts [.inl ⟨.transportEnabled, h⟩, .inl ⟨.linkMtuDiscovery, h⟩, .inl ⟨.remoteManagementEnabled, h⟩,
          .inl ⟨.probeDestinationEnabled, h⟩, .inl ⟨.persistInterval, h⟩, .inl ⟨.cleanInterval, h⟩,
          .inl ⟨.transportIdentity, h⟩, .inl ⟨.remoteManagementAllowed, h⟩, .inr h]
      rcases hfield with ⟨s, rfl⟩ | rfl
      · exact s.respects r₀
      · refine respects_of_command fun r₁ r₂ h => Prog.RelatedAt.get_bind ?_
        rw [h.reads Runtime.rest fun _ _ => rfl]
        have hclears : Prog.Related (SameButKeys identityHash) Eq
            (Prog.modify fun r => { r with rest := (c.clearProvisioning r.rest).2 } : Prog String (Runtime X) Unit)
            (Prog.modify fun r => { r with rest := (c.clearProvisioning r.rest).2 }) :=
          Prog.Related.modify fun _ _ h => h.writes (fun r => { r with rest := (c.clearProvisioning r.rest).2 })
            fun _ _ => rfl
        exact (hclears.bind fun _ _ _ => Prog.Related.pure rfl) r₁ r₂ h
    · have hfield : (∃ s : Tunable, f = s.field r₀) ∨ f = clearTransportStorage c.clearTransport := by
        simp only [transportConfig, List.mem_cons, List.not_mem_nil, or_false] at hf
        rcases hf with h | h | h | h | h | h
        exacts [.inl ⟨.pathTableMaxsize, h⟩, .inl ⟨.announceTableMaxsize, h⟩, .inl ⟨.hashlistMaxsize, h⟩,
          .inl ⟨.maxPrTags, h⟩, .inl ⟨.knownDestinationsMaxsize, h⟩, .inr h]
      rcases hfield with ⟨s, rfl⟩ | rfl
      · exact s.respects r₀
      · exact respects_of_command (hcommand _ fun _ _ => rfl)
    · cases hf
    · simp only [addresses, List.mem_cons, List.not_mem_nil, or_false] at hf
      rcases hf with rfl | rfl | rfl
      · refine respects_of_metric fun r₁ r₂ h => ?_
        rw [h.hashes]
      · exact respects_of_metric fun r₁ r₂ h => h.reads (fun r => probe r.rest) fun _ _ => rfl
      · exact respects_of_metric fun r₁ r₂ h => h.reads (fun r => management r.rest) fun _ _ => rfl
  onCommit := fun d hd hook hhook => by
    simp only [builtinDecls, List.mem_cons, List.not_mem_nil, or_false] at hd
    rcases hd with rfl | rfl | rfl | rfl <;> cases hhook

/-! ### Two devices with new keys -/

def plainRuntime : Runtime Unit where
  transportEnabled := false
  linkMtuDiscovery := true
  remoteManagementEnabled := false
  allowProbes := false
  persistInterval := 300
  cleanInterval := 300
  identity := some (loadPrivateKey (List.replicate 64 1))
  remoteManagementAllowed := ∅
  pathTableMaxsize := 100
  pathStoreMaxRecs := 100
  announceTableMaxsize := 100
  hashlistMaxsize := 100
  packetHashStoreMaxRecs := 100
  maxPrTags := 32
  discoveryPrTagsMaxSize := 32
  knownDestinationsMaxsize := 100
  knownStoreMaxRecs := 100
  rest := ()

def plainDecls : List (NamespaceDecl (Runtime Unit)) :=
  builtinDecls plainRuntime ⟨fun x => (true, x), id, 0, 0⟩ (fun k => k.sigPrvBytes.take 16) (fun _ => []) (fun _ => [])
    0 0

/-- A device that has committed a transport identity, which takes effect with the next boot. -/
def committed (key : Bytes) : Provisioner (Runtime Unit) Unit where
  namespaces := plainDecls.map fun d =>
    { decl := d, state := if d.id = 1 then { working := (∅ : FieldMap).insert 9 (.bytes key) } else {} }
  storage := none
  started := true
  needsReboot := true
  schemaHash := 0
  runtime := plainRuntime
  distinct := by
    show [(1 : NamespaceId), 2, 60, 61].Nodup
    decide

/-- The payload that sets the transport identity. -/
def newKey (key : Bytes) : List (Object × Object) :=
  [(.int 3, .map [(.int 1, .map [(.int 9, .bin key)])])]

/-- The requests of a client, by their first byte: set the one key or the other, commit, ask for the state. -/
def clientEnv : Env Unit :=
  { bareEnv with
    encode := fun ts => ts.flatMap fun t => match t with
      | .int k => [1, UInt8.ofNat (k % 256).toNat]
      | .bool b => [2, b.toUInt8]
      | .bin b => 3 :: b
      | .str s => 4 :: s
      | .map n => [5, UInt8.ofNat n]
      | .arr n => [6, UInt8.ofNat n]
      | .float _ => [7]
      | .ext => [8]
      | .nil => [9]
    decode := fun b => match b with
      | [1] => [.arr 3, .int Op.setState.toNat, .int 0] ++ (Object.map (newKey (List.replicate 64 4))).tokens
      | [2] => [.arr 3, .int Op.setState.toNat, .int 0] ++ (Object.map (newKey (List.replicate 64 5))).tokens
      | [3] => [.arr 3, .int Op.commit.toNat, .int 1, .map 0]
      | _ => [.arr 3, .int Op.getState.toNat, .int 2, .map 0] }

theorem committed_alike (key₁ key₂ : Bytes) :
    Provisioner.Alike plainDecls (SameButKeys fun k => k.sigPrvBytes.take 16) (committed key₁) (committed key₂) := by
  have hdecls : ∀ key, (committed key).decls = plainDecls := fun key => rfl
  have hsecret : ∀ d ∈ plainDecls, d.id = 1 → d.isSecret 9 = true := by
    intro d hd hid
    simp only [plainDecls, builtinDecls, List.mem_cons, List.not_mem_nil, or_false] at hd
    rcases hd with rfl | rfl | rfl | rfl
    · rfl
    all_goals cases hid
  have hstate : ∀ key, ∀ d ∈ plainDecls, (committed key).stateOf d.id
      = if d.id = 1 then { working := (∅ : FieldMap).insert 9 (.bytes key) } else {} := by
    intro key d hd
    simp only [plainDecls, builtinDecls, List.mem_cons, List.not_mem_nil, or_false] at hd
    rcases hd with rfl | rfl | rfl | rfl <;> rfl
  exact {
    decls₁ := hdecls key₁
    decls₂ := hdecls key₂
    states := fun d hd => by
      rw [hstate key₁ d hd, hstate key₂ d hd]
      split
      case isTrue hid =>
        refine ⟨fun id hopen => ?_, fun _ _ => rfl, fun _ => rfl, fun _ _ _ _ hv => (by cases hv),
          fun _ _ _ _ hv => (by cases hv)⟩
        have hne : id ≠ 9 := fun heq => by
          rw [heq, hsecret d hd hid] at hopen
          cases hopen
        exact (AList.lookup_insert_ne hne).trans (AList.lookup_insert_ne hne).symm
      case isFalse => exact ⟨fun _ _ => rfl, fun _ _ => rfl, fun _ => rfl, fun _ _ _ _ hv => (by cases hv),
        fun _ _ _ _ hv => (by cases hv)⟩
    runtime := ⟨rfl, rfl⟩
    started := rfl
    needsReboot := rfl
    schemaHash := rfl
    onRebootRequired := rfl
    onReboot := rfl
    onFactoryReset := rfl
    callbacks := fun m hm => by rcases hm with hm | hm | hm <;> cases hm }

theorem newKey_passed (key : Bytes) : ∀ e ∈ newKey key, EntryPassed plainDecls e := by
  intro e he
  rw [List.mem_singleton.mp he]
  show ∀ e ∈ [_], NamespacePassed plainDecls e
  intro e he
  rw [List.mem_singleton.mp he]
  show ∀ e ∈ [_], FieldPassed (some _) e
  intro e he
  rw [List.mem_singleton.mp he]
  exact (fieldPassed_found (f := transportIdentity) (.bin key) rfl).mpr rfl

theorem newKey_alike (key₁ key₂ : Bytes) : List.Forall₂ (EntriesAlike plainDecls) (newKey key₁) (newKey key₂) := by
  refine .cons (.inr ⟨3, _, _, rfl, rfl, rfl, .cons (.inr ⟨1, _, _, rfl, rfl, .cons (.inr ?_) .nil⟩) .nil⟩) .nil
  exact ⟨9, transportIdentity, rfl, rfl, rfl, rfl⟩

theorem newKey_fresh {key old : Bytes} (hlength : key.length ≤ 64) (hne : old ≠ key) :
    ∀ x ∈ settings clientEnv plainDecls (Object.map (newKey key)).tokens, x.Fresh (committed old) := by
  obtain ⟨d, hd⟩ : ∃ d, d = generalConfig plainRuntime (fun x => (true, x)) 0 := ⟨_, rfl⟩
  have hsettings : settings clientEnv plainDecls (Object.map (newKey key)).tokens
      = [.state, .touch (some d), .write 1 d transportIdentity (.bytes key)] := by
    rw [hd]
    rfl
  rw [hsettings]
  simp only [List.forall_mem_cons, List.not_mem_nil, false_implies, implies_true, and_true]
  refine ⟨trivial, trivial, fun _ _ => ⟨?_, fun _ => ?_⟩⟩
  · show (!(true && decide (64 < key.length))) = true
    simpa using hlength
  · rw [hd]
    show (Value.bytes old).eq (.bytes key) = false
    simpa [Value.eq] using hne

/-- Two devices that wait to begin with different keys are given two others and asked for their state. -/
theorem responses_eq_without_drafts :
    responses clientEnv [[1], [3], [4]] (committed (List.replicate 64 2))
      = responses clientEnv [[2], [3], [4]] (committed (List.replicate 64 3)) := by
  have hfs : clientEnv.fs.Answer := ⟨fun _ => .pure _, fun _ => .pure _, fun _ => .pure _, fun _ => .pure _,
    fun _ _ => .pure _, fun _ _ => .pure _⟩
  have halike : RequestsAlike plainDecls (clientEnv.decode [1]) (clientEnv.decode [2]) :=
    .inr ⟨0, newKey (List.replicate 64 4), newKey (List.replicate 64 5), [], [], rfl, rfl, newKey_alike _ _,
      newKey_passed _, newKey_passed _⟩
  refine responses_eq (builtin_respects _ _ _ _ _ _ _) hfs [([1], [2]), ([3], [3]), ([4], [4])]
    (committed_alike _ _) ⟨⟨halike, ?_, ?_, ?_⟩, ⟨.inl rfl, ?_, ?_, ?_⟩, ⟨.inl rfl, ?_, ?_, ?_⟩, trivial⟩
  · intro seq payload h
    cases h
    exact newKey_fresh (by decide) (by decide)
  · intro seq payload h
    cases h
    exact newKey_fresh (by decide) (by decide)
  · refine ⟨fun seq payload h => (by cases h), fun seq payload h => ?_⟩
    cases h
    intro xs hasks
    cases hasks
  · intro seq payload h
    cases h
  · intro seq payload h
    cases h
  · exact ⟨fun seq payload h => (by cases h), fun seq payload h => (by cases h)⟩
  · intro seq payload h
    cases h
  · intro seq payload h
    cases h
  · refine ⟨fun seq payload h hdraft => ?_, fun seq payload h => (by cases h)⟩
    cases h
    cases hdraft

end Builtin

/-! ## Two radios -/

/-- A radio that is about to get a new key. -/
def rekeyed (key : Bytes) : Provisioner Unit Unit :=
  radio { draft := (∅ : FieldMap).insert 13 (.bytes key) }

theorem rekeyed_alike (key₁ key₂ : Bytes) :
    Provisioner.Alike [radioDecl] (fun _ _ => True) (rekeyed key₁) (rekeyed key₂) := by
  have hlookup : ∀ (key : Bytes) (id : FieldId),
      ((∅ : FieldMap).insert 13 (.bytes key)).lookup id
        = if id = 13 then some (.bytes key) else none := by
    intro key id
    split
    case isTrue heq => rw [heq]; exact AList.lookup_insert _
    case isFalse hne => exact AList.lookup_insert_ne hne
  have hvalid : ∀ key : Bytes, NamespaceState.SecretsValid radioDecl
      { draft := (∅ : FieldMap).insert 13 (.bytes key) } := by
    intro key f hf hsecret v hv
    rw [hlookup] at hv
    split at hv
    case isTrue =>
      cases hv
      simp only [radioDecl, List.mem_cons, List.not_mem_nil, or_false] at hf
      rcases hf with rfl | rfl | rfl | rfl <;> first | rfl | cases hsecret
    case isFalse => cases hv
  have hstate : NamespaceState.Alike radioDecl
      { draft := (∅ : FieldMap).insert 13 (.bytes key₁) }
      { draft := (∅ : FieldMap).insert 13 (.bytes key₂) } := by
    refine ⟨fun _ _ => rfl, fun id hid => ?_, fun id => ?_, hvalid key₁, hvalid key₂⟩
    · rw [hlookup, hlookup]
      split
      case isTrue heq => rw [heq] at hid; cases hid
      case isFalse => rfl
    · unfold NamespaceState.hasDraft
      rw [hlookup, hlookup]
      split <;> rfl
  exact {
    decls₁ := rfl
    decls₂ := rfl
    states := fun d hd => by
      rw [List.mem_singleton.mp hd]
      exact hstate
    runtime := trivial
    started := rfl
    needsReboot := rfl
    schemaHash := rfl
    onRebootRequired := rfl
    onReboot := rfl
    onFactoryReset := rfl
    callbacks := fun m hm => by rcases hm with hm | hm | hm <;> cases hm }

theorem radioDecl_respects : Respects [radioDecl] (fun _ _ : Unit => True) where
  fields := fun d hd f hf => by
    have hnone : f.setter = none ∧ f.getter = none := by
      rw [List.mem_singleton.mp hd] at hf
      simp only [radioDecl, List.mem_cons, List.not_mem_nil, or_false] at hf
      rcases hf with rfl | rfl | rfl | rfl <;> exact ⟨rfl, rfl⟩
    obtain ⟨hsetter, hgetter⟩ := hnone
    exact ⟨fun _ _ getter h => (by rw [hgetter] at h; cases h), fun _ setter h => (by rw [hsetter] at h; cases h),
      fun _ setter h => (by rw [hsetter] at h; cases h)⟩
  onCommit := fun d hd hook hhook => by
    rw [List.mem_singleton.mp hd] at hhook
    cases hhook

/-- A platform that is asked for the state and the drafts, and whose packer keeps byte strings only. -/
def askingEnv : Env Unit :=
  { bareEnv with
    decode := fun _ => [.arr 3, .int Op.getState.toNat, .int 0, .map 1, .int 2, .bool true]
    encode := fun ts => ts.flatMap fun t => match t with
      | .bin b => b
      | _ => [] }

theorem askingEnv_answers : askingEnv.fs.Answer where
  directoryExists _ := Prog.Answers.pure _
  createDirectory _ := Prog.Answers.pure _
  fileExists _ := Prog.Answers.pure _
  removeFile _ := Prog.Answers.pure _
  writeFile _ _ := Prog.Answers.pure _
  renameFile _ _ := Prog.Answers.pure _

/-- Two radios with different new keys answer a GetState request with `Draft` differently: the drafts
in the response contain the key. -/
theorem secret_draft_reported :
    Respects [radioDecl] (fun _ _ => True) ∧ askingEnv.fs.Answer
      ∧ Provisioner.Alike [radioDecl] (fun _ _ => True) (rekeyed [1]) (rekeyed [2])
      ∧ responses askingEnv [[]] (rekeyed [1]) ≠ responses askingEnv [[]] (rekeyed [2]) := by
  refine ⟨radioDecl_respects, askingEnv_answers, rekeyed_alike [1] [2], fun h => ?_⟩
  have h₁ : responses askingEnv [[]] (rekeyed [1]) = [.value [1]] := rfl
  have h₂ : responses askingEnv [[]] (rekeyed [2]) = [.value [2]] := rfl
  rw [h₁, h₂] at h
  cases h

end MicroReticulum.Provisioning
