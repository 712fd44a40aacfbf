import MicroReticulum.Provisioning.Builtin
import MicroReticulum.Provisioning.Settling

/-!
# A built-in setting means what it says

A built-in field that is set and committed shows the value through its getter, and the variable behind it has the
value: at once, or where it needs a reboot after the next boot has pushed it through the setter
(`setting_means_what_it_says`). Three things are read with care:

* an empty transport identity stands for no change;
* who may manage the device is a set, so its getter gives the entries in order and each once;
* the two intervals are declared up to a day in seconds and kept in sixteen bits.

What the settings do to the running transport is not followed beyond the variables they are
kept in.
-/

namespace MicroReticulum.Provisioning.Builtin

open MicroReticulum Library Provisioner

variable {X F : Type}

/-! ## The fields that can be set and read back -/

inductive Tunable where
  | transportEnabled | linkMtuDiscovery | remoteManagementEnabled | probeDestinationEnabled
  | persistInterval | cleanInterval | transportIdentity | remoteManagementAllowed
  | pathTableMaxsize | announceTableMaxsize | hashlistMaxsize | maxPrTags | knownDestinationsMaxsize
  deriving DecidableEq

/-- The two commands, which delete files, and the hashes that `begin` computes of the two schemas. -/
structure Platform (X : Type) where
  clearProvisioning : X → Bool × X
  clearTransport : X → X
  generalHash : UInt32
  transportHash : UInt32

namespace Tunable

/-- It is declared in General Config, else in Transport Config. -/
def general : Tunable → Bool
  | .pathTableMaxsize | .announceTableMaxsize | .hashlistMaxsize | .maxPrTags | .knownDestinationsMaxsize => false
  | _ => true

def id : Tunable → FieldId
  | .transportEnabled | .pathTableMaxsize => 1
  | .linkMtuDiscovery | .announceTableMaxsize => 2
  | .remoteManagementEnabled | .hashlistMaxsize => 3
  | .probeDestinationEnabled | .maxPrTags => 4
  | .persistInterval | .knownDestinationsMaxsize => 6
  | .cleanInterval => 7
  | .remoteManagementAllowed => 8
  | .transportIdentity => 9

def field (r₀ : Runtime X) : Tunable → Field (Runtime X)
  | .transportEnabled => Builtin.transportEnabled r₀
  | .linkMtuDiscovery => Builtin.linkMtuDiscovery r₀
  | .remoteManagementEnabled => Builtin.remoteManagementEnabled r₀
  | .probeDestinationEnabled => Builtin.probeDestinationEnabled r₀
  | .persistInterval => Builtin.persistInterval r₀
  | .cleanInterval => Builtin.cleanInterval r₀
  | .transportIdentity => Builtin.transportIdentity
  | .remoteManagementAllowed => Builtin.remoteManagementAllowed
  | .pathTableMaxsize => Builtin.pathTableMaxsize r₀
  | .announceTableMaxsize => Builtin.announceTableMaxsize r₀
  | .hashlistMaxsize => Builtin.hashlistMaxsize r₀
  | .maxPrTags => Builtin.maxPrTags r₀
  | .knownDestinationsMaxsize => Builtin.knownDestinationsMaxsize r₀

/-- The namespace that declares it. -/
def decl (r₀ : Runtime X) (c : Platform X) (s : Tunable) : NamespaceDecl (Runtime X) :=
  if s.general then generalConfig r₀ c.clearProvisioning c.generalHash
  else transportConfig r₀ c.clearTransport c.transportHash

/-- What its getter shows. -/
def shown (r : Runtime X) : Tunable → Value
  | .transportEnabled => .bool r.transportEnabled
  | .linkMtuDiscovery => .bool r.linkMtuDiscovery
  | .remoteManagementEnabled => .bool r.remoteManagementEnabled
  | .probeDestinationEnabled => .bool r.allowProbes
  | .persistInterval => .int (widen r.persistInterval)
  | .cleanInterval => .int (widen r.cleanInterval)
  | .transportIdentity => .bytes r.identityPrv
  | .remoteManagementAllowed => .bytesList r.allowedList
  | .pathTableMaxsize => .int (widen r.pathTableMaxsize)
  | .announceTableMaxsize => .int (widen r.announceTableMaxsize)
  | .hashlistMaxsize => .int (widen r.hashlistMaxsize)
  | .maxPrTags => .int (widen r.maxPrTags)
  | .knownDestinationsMaxsize => .int (widen r.knownDestinationsMaxsize)

/-- What its setter leaves. -/
def written (s : Tunable) (r₀ : Runtime X) (v : Value) (r : Runtime X) : Runtime X :=
  match (s.field r₀).setter with
  | none => r
  | some setter => (setter v r).2

/-- What the getter is to show once the value is set, where it showed `old`. -/
def outcome (v old : Value) : Tunable → Value
  | .transportIdentity => if v.asBytes.length = 0 then old else v
  | .remoteManagementAllowed => .bytesList (inOrder v.asBytesList.toFinset)
  | _ => v

variable {r₀ : Runtime X} {c : Platform X} {v : Value}

/-- The getter of a setting shows the variable behind it. -/
theorem field_getter (s : Tunable) : (s.field r₀).getter = some fun r => s.shown r := by cases s <;> rfl

/-- The setter of a setting stores what it makes of the value, and always accepts it. -/
theorem field_setter (s : Tunable) :
    (s.field r₀).setter = some fun v => store (s.written r₀ v) := by
  cases s <;> rfl

/-- A setting is one of the fields its namespace declares. -/
theorem field_mem (s : Tunable) : s.field r₀ ∈ (s.decl r₀ c).fields := by
  cases s <;> simp [decl, general, field, generalConfig, transportConfig]

/-- What a field accepts does not depend on when it was registered. -/
theorem field_validate (s : Tunable) (r₀ r₁ : Runtime X) (v : Value) :
    (s.field r₀).validate v = (s.field r₁).validate v := by cases s <;> rfl

theorem field_id (s : Tunable) : (s.field r₀).id = s.id := by cases s <;> rfl

/-- A setter writes the variables of its own field. -/
theorem shown_written {s t : Tunable} (hne : s ≠ t) (v : Value) (r : Runtime X) :
    s.shown (t.written r₀ v r) = s.shown r := by
  cases t
  case transportIdentity =>
    show s.shown (if v.asBytes.length = 0 then r else { r with identity := some (loadPrivateKey v.asBytes) }) = _
    split
    · rfl
    · cases s <;> first | rfl | exact absurd rfl hne
  all_goals cases s <;> first | rfl | exact absurd rfl hne

/-! ### Values that are accepted -/

/-- A day in seconds passes the range of an interval, and does not fit in its variable. -/
def Fits (v : Value) (s : Tunable) : Prop := s = .persistInterval ∨ s = .cleanInterval → v.asInt ≤ 65535

theorem bool_of_type (h : v.type = .bool) : v = .bool v.asBool := by
  cases v with
  | bool b => cases b <;> rfl
  | _ => cases h

theorem int_of_type (h : v.type = .int) : v = .int v.asInt := by
  cases v with
  | int i => rfl
  | _ => cases h

theorem bytes_of_type (h : v.type = .bytes) : v = .bytes v.asBytes := by
  cases v with
  | bytes b => rfl
  | _ => cases h

section Range

variable {name : Bytes} {id : FieldId} {flags : UInt8} {defaultValue imin imax : Int64}
  {setter : Value → Prog String (Runtime X) Bool} {getter : Runtime X → Int64}

/-- What a range lets pass lies in it. -/
theorem range_of_valid (hv : (fieldInt name id flags defaultValue imin imax setter getter).validate v = true) :
    imin ≤ v.asInt ∧ v.asInt ≤ imax := by
  unfold Field.validate at hv
  rw [if_neg (not_not.mpr (Field.type_of_validate hv))] at hv
  have hin : (!(v.asInt < imin || imax < v.asInt)) = true := hv
  rw [Bool.not_eq_true', Bool.or_eq_false_iff] at hin
  exact ⟨Int64.not_lt.mp (of_decide_eq_false hin.1), Int64.not_lt.mp (of_decide_eq_false hin.2)⟩

/-- An accepted integer that fits comes back from its variable. -/
theorem widen_of_valid (hv : (fieldInt name id flags defaultValue imin imax setter getter).validate v = true)
    (hmin : 0 ≤ imin) (hfits : v.asInt ≤ 65535) : .int (widen (asUInt16 v)) = v := by
  have hin := range_of_valid hv
  rw [(widen_asUInt16_iff v).mpr ⟨Int64.le_trans hmin hin.1, hfits⟩]
  exact (int_of_type (Field.type_of_validate hv)).symm

/-- A number in the range of the setting survives the way through the 16-bit variable. -/
theorem widen_of_narrow (hv : (fieldInt name id flags defaultValue imin imax setter getter).validate v = true)
    (hmin : 0 ≤ imin) (hmax : imax ≤ 65535) : .int (widen (asUInt16 v)) = v :=
  widen_of_valid hv hmin (Int64.le_trans (range_of_valid hv).2 hmax)

end Range

/-- Set and read back. -/
theorem shown_written_self {s : Tunable} (hv : (s.field r₀).validate v = true) (hfits : s.Fits v) (r : Runtime X) :
    s.shown (s.written r₀ v r) = s.outcome v (s.shown r) := by
  have htype := Field.type_of_validate hv
  cases s
  case transportEnabled => exact (bool_of_type htype).symm
  case linkMtuDiscovery => exact (bool_of_type htype).symm
  case remoteManagementEnabled => exact (bool_of_type htype).symm
  case probeDestinationEnabled => exact (bool_of_type htype).symm
  case persistInterval => exact widen_of_valid hv (by decide) (hfits (.inl rfl))
  case cleanInterval => exact widen_of_valid hv (by decide) (hfits (.inr rfl))
  case transportIdentity =>
    show Value.bytes (Runtime.identityPrv
      (if v.asBytes.length = 0 then r else { r with identity := some (loadPrivateKey v.asBytes) })) =
        if v.asBytes.length = 0 then .bytes r.identityPrv else v
    split
    · rfl
    · refine Eq.trans ?_ (bytes_of_type htype).symm
      exact congrArg Value.bytes (List.take_append_drop 32 v.asBytes)
  case remoteManagementAllowed => rfl
  case pathTableMaxsize => exact widen_of_narrow hv (by decide) (by decide)
  case announceTableMaxsize => exact widen_of_narrow hv (by decide) (by decide)
  case hashlistMaxsize => exact widen_of_narrow hv (by decide) (by decide)
  case maxPrTags => exact widen_of_narrow hv (by decide) (by decide)
  case knownDestinationsMaxsize => exact widen_of_narrow hv (by decide) (by decide)

/-! ### Set at once, or at the next boot -/

/-- No setting is a float, a text or of no type, so its value survives the file. -/
theorem field_type (s : Tunable) :
    (s.field r₀).type ≠ .float ∧ (s.field r₀).type ≠ .string ∧ (s.field r₀).type ≠ .none := by
  cases s <;> exact ⟨nofun, nofun, nofun⟩

/-- A setting is applied live, or with a reboot, and one of those is secret. -/
theorem field_flags (s : Tunable) (r₀ : Runtime X) :
    ((s.field r₀).flags = ffLiveApply ∧ ∀ v old, s.outcome v old = v)
      ∨ (s.field r₀).flags = ffRebootRequired ∨ (s.field r₀).flags = ffRebootRequired ||| ffSecret := by
  cases s
  case transportIdentity => exact .inr (.inr rfl)
  case transportEnabled => exact .inr (.inl rfl)
  case linkMtuDiscovery => exact .inr (.inl rfl)
  case remoteManagementEnabled => exact .inr (.inl rfl)
  case probeDestinationEnabled => exact .inr (.inl rfl)
  case remoteManagementAllowed => exact .inr (.inl rfl)
  all_goals exact .inl ⟨rfl, fun _ _ => rfl⟩

theorem field_writable (s : Tunable) : (s.field r₀).hasFlag ffReadOnly = false := by
  unfold Field.hasFlag
  rcases s.field_flags r₀ with ⟨h, -⟩ | h | h <;> rw [h] <;> decide

theorem field_stateful (s : Tunable) : (s.field r₀).hasFlag ffWriteOnly = false := by
  unfold Field.hasFlag
  rcases s.field_flags r₀ with ⟨h, -⟩ | h | h <;> rw [h] <;> decide

/-- A field is applied at once, and then shows what is written, or waits for a reboot. -/
theorem live_or_reboot (s : Tunable) (r₀ : Runtime X) :
    ((s.field r₀).hasFlag ffRebootRequired = true ∧ (s.field r₀).hasFlag ffLiveApply = false)
      ∨ ((s.field r₀).hasFlag ffRebootRequired = false ∧ (s.field r₀).hasFlag ffLiveApply = true
        ∧ ∀ v old, s.outcome v old = v) := by
  unfold Field.hasFlag
  rcases s.field_flags r₀ with ⟨h, hshows⟩ | h | h <;> rw [h]
  · exact .inr ⟨by decide, by decide, hshows⟩
  · exact .inl (by decide)
  · exact .inl (by decide)

/-- Only numbers that are not integers compare equal without being equal. -/
theorem eq_of_eq {w : Value} (htype : v.type ≠ .float) (heq : v.eq w = true ∨ w.eq v = true) : w = v := by
  cases v
  case float d => exact absurd rfl htype
  all_goals
    cases w
    all_goals rcases heq with heq | heq
    all_goals first | exact (of_decide_eq_true heq).symm | exact of_decide_eq_true heq

/-- A value that passes the check and fits the variable can be set. -/
theorem settable {s : Tunable} (hv : (s.field r₀).validate v = true) (hfits : s.Fits v) : (s.field r₀).Settable v where
  valid := hv
  writable := s.field_writable
  stateful := s.field_stateful
  exact w heq := eq_of_eq (Field.type_of_validate hv ▸ s.field_type.1) (.inr heq)
  applied := by
    refine (s.live_or_reboot r₀).imp (fun h => h) fun ⟨hreboot, hlive, hshows⟩ =>
      ⟨hreboot, hlive, _, _, s.field_setter, s.field_getter, fun r => ?_⟩
    exact (shown_written_self hv hfits r).trans (hshows v _)

/-- A value that passes the check is written in whole. -/
theorem whole {s : Tunable} (hv : (s.field r₀).validate v = true) : v.Whole := by
  rintro b rfl
  exact absurd (Field.type_of_validate hv).symm s.field_type.2.1

/-- Setting what the getter shows changes nothing that it shows, and setting twice is setting once. -/
theorem field_outcome {s : Tunable} (hv : (s.field r₀).validate v = true) (hfits : s.Fits v) :
    (s.field r₀).Outcome v fun old => s.outcome v old where
  writable := s.field_writable
  stateful := s.field_stateful
  present := decide_eq_false fun hnone => s.field_type.2.2 ((Field.type_of_validate hv).symm.trans hnone)
  calls := by
    refine ⟨_, _, s.field_setter, s.field_getter, shown_written_self hv hfits, fun r heq => ?_⟩
    have hthere := eq_of_eq (Field.type_of_validate hv ▸ s.field_type.1) (.inl heq)
    cases s
    case transportIdentity =>
      show (if v.asBytes.length = 0 then _ else v) = _
      rw [hthere]
      split <;> rfl
    case remoteManagementAllowed =>
      rw [← hthere]
      exact congrArg (fun set : Finset Bytes => Value.bytesList (inOrder set)) r.toFinset_allowedList
    all_goals exact hthere.symm
  twice w := by
    cases s
    case transportIdentity =>
      show (if v.asBytes.length = 0 then _ else v) = _
      split
      · rfl
      · next hlen => exact (if_neg hlen).symm
    all_goals rfl

/-! ### The meaning -/

/-- The variable behind the field has the value. Empty input leaves the private key of the identity as it was. -/
def Holds (v : Value) (old r : Runtime X) : Tunable → Prop
  | .transportEnabled => v = .bool r.transportEnabled
  | .linkMtuDiscovery => v = .bool r.linkMtuDiscovery
  | .remoteManagementEnabled => v = .bool r.remoteManagementEnabled
  | .probeDestinationEnabled => v = .bool r.allowProbes
  | .persistInterval => v.asInt.toInt = r.persistInterval.toNat
  | .cleanInterval => v.asInt.toInt = r.cleanInterval.toNat
  | .transportIdentity =>
    if v.asBytes = [] then r.identityPrv = old.identityPrv
    else ∃ keys, r.identity = some keys ∧ keys.getPrivateKey = v.asBytes
  | .remoteManagementAllowed => ∀ b, b ∈ r.remoteManagementAllowed ↔ b ∈ v.asBytesList
  | .pathTableMaxsize => v.asInt.toInt = r.pathTableMaxsize.toNat
  | .announceTableMaxsize => v.asInt.toInt = r.announceTableMaxsize.toNat
  | .hashlistMaxsize => v.asInt.toInt = r.hashlistMaxsize.toNat
  | .maxPrTags => v.asInt.toInt = r.maxPrTags.toNat
  | .knownDestinationsMaxsize => v.asInt.toInt = r.knownDestinationsMaxsize.toNat

/-- The field stands for the value: its getter shows it, and its variable has it. -/
structure Means (s : Tunable) (r₀ : Runtime X) (v : Value) (old r : Runtime X) : Prop where
  getter : (s.field r₀).getter.map (fun getter => getter r) = some (s.outcome v (s.shown old))
  parameter : s.Holds v old r

/-- What the getter shows tells what the variable has. -/
theorem holds_of_shown {s : Tunable} {old r : Runtime X} (h : s.shown r = s.outcome v (s.shown old)) :
    s.Holds v old r := by
  have hint : ∀ x : UInt16, .int (widen x) = v → v.asInt.toInt = x.toNat := by
    rintro x rfl
    exact toInt_widen x
  cases s
  case transportEnabled => exact h.symm
  case linkMtuDiscovery => exact h.symm
  case remoteManagementEnabled => exact h.symm
  case probeDestinationEnabled => exact h.symm
  case transportIdentity =>
    have hbytes : Value.bytes r.identityPrv = if v.asBytes.length = 0 then .bytes old.identityPrv else v := h
    show if v.asBytes = [] then _ else _
    split at hbytes
    · next hlen =>
      rw [if_pos (List.eq_nil_of_length_eq_zero hlen)]
      exact Value.bytes.inj hbytes
    · next hlen =>
      rw [if_neg fun hnil => hlen (by rw [hnil]; rfl)]
      subst hbytes
      unfold Value.asBytes Runtime.identityPrv at hlen ⊢
      cases hidentity : r.identity with
      | none =>
        rw [hidentity] at hlen
        exact absurd rfl hlen
      | some keys => exact ⟨keys, rfl, rfl⟩
  case remoteManagementAllowed =>
    have hlist : r.allowedList = inOrder v.asBytesList.toFinset := Value.bytesList.inj h
    intro b
    rw [← r.toFinset_allowedList, hlist, toFinset_inOrder, List.mem_toFinset]
  all_goals exact hint _ h

/-- A setting that shows what it should means what it says. -/
theorem means_of_shown {s : Tunable} {old r : Runtime X} (h : s.shown r = s.outcome v (s.shown old)) :
    s.Means r₀ v old r where
  getter := by
    rw [s.field_getter, Option.map_some]
    exact congrArg some h
  parameter := holds_of_shown h

end Tunable

/-! ## The device -/

/-- What all settings show is the same. -/
def SameSettings (r r' : Runtime X) : Prop := ∀ s : Tunable, s.shown r' = s.shown r

/-- A device with the built-in namespaces, whose other code comes back and leaves the settings alone. The built-in
namespaces besides the two have no setter and no hook. -/
structure Hosts (p : Provisioner (Runtime X) F) (r₀ : Runtime X) (c : Platform X) : Prop where
  general : generalConfig r₀ c.clearProvisioning c.generalHash ∈ p.decls
  transport : transportConfig r₀ c.clearTransport c.transportHash ∈ p.decls
  hooks : ∀ d ∈ p.decls, ∀ hook, d.onCommit = some hook → Prog.Answers (hook d.fields)
    ∧ Prog.Keeps (fun x y : NamespaceState × Runtime X => SameSettings x.2 y.2) (hook d.fields)
  setters : ∀ d ∈ p.decls, d.id ≠ 1 → d.id ≠ 2 → ∀ g ∈ d.fields, ∀ setter, g.setter = some setter →
    ∀ w, Prog.Succeeds (setter w) ∧ Prog.Keeps SameSettings (setter w)
  callback : ∀ m, p.onRebootRequired = some m → Prog.Answers m ∧ Prog.Keeps SameSettings m

section Device

variable {env : Env F} {p : Provisioner (Runtime X) F} {r₀ : Runtime X} {c : Platform X} {v : Value} {s : Tunable}

/-- The fields of the general namespace are its settings and the command that clears the provisioning. -/
theorem mem_general {g : Field (Runtime X)} {clear : X → Bool × X} {hash : UInt32}
    (h : g ∈ (generalConfig r₀ clear hash).fields) :
    (∃ t : Tunable, t.general = true ∧ g = t.field r₀) ∨ g = clearProvisioning clear := by
  simp only [generalConfig, List.mem_cons, List.not_mem_nil, or_false] at h
  rcases h with h | h | h | h | h | h | h | h | h
  · exact .inl ⟨.transportEnabled, rfl, h⟩
  · exact .inl ⟨.linkMtuDiscovery, rfl, h⟩
  · exact .inl ⟨.remoteManagementEnabled, rfl, h⟩
  · exact .inl ⟨.probeDestinationEnabled, rfl, h⟩
  · exact .inl ⟨.persistInterval, rfl, h⟩
  · exact .inl ⟨.cleanInterval, rfl, h⟩
  · exact .inl ⟨.transportIdentity, rfl, h⟩
  · exact .inl ⟨.remoteManagementAllowed, rfl, h⟩
  · exact .inr h

/-- The fields of the transport namespace are its settings and the command that clears the storage. -/
theorem mem_transport {g : Field (Runtime X)} {clear : X → X} {hash : UInt32}
    (h : g ∈ (transportConfig r₀ clear hash).fields) :
    (∃ t : Tunable, t.general = false ∧ g = t.field r₀) ∨ g = clearTransportStorage clear := by
  simp only [transportConfig, List.mem_cons, List.not_mem_nil, or_false] at h
  rcases h with h | h | h | h | h | h
  · exact .inl ⟨.pathTableMaxsize, rfl, h⟩
  · exact .inl ⟨.announceTableMaxsize, rfl, h⟩
  · exact .inl ⟨.hashlistMaxsize, rfl, h⟩
  · exact .inl ⟨.maxPrTags, rfl, h⟩
  · exact .inl ⟨.knownDestinationsMaxsize, rfl, h⟩
  · exact .inr h

/-- The setter comes back, and leaves alone what the others show. -/
def Minds (g : Field (Runtime X)) (own : Tunable → Prop) : Prop :=
  ∀ setter, g.setter = some setter → ∀ w, Prog.Succeeds (setter w)
    ∧ ∀ s, ¬ own s → ∀ r, s.shown (setter w r).2 = s.shown r

/-- A setting minds no other one: it shows and writes its own variable. -/
theorem field_minds (t : Tunable) (r₀ : Runtime X) : Minds (t.field r₀) (· = t) := by
  intro setter hsetter w
  rw [t.field_setter] at hsetter
  cases hsetter
  exact ⟨fun r => ⟨true, _, rfl⟩, fun s hne r => Tunable.shown_written hne w r⟩

/-- The command that clears the provisioning minds no setting. -/
theorem clearProvisioning_minds (clear : X → Bool × X) : Minds (clearProvisioning clear) fun _ => False := by
  rintro _ ⟨⟩ w
  exact ⟨fun r => ⟨(clear r.rest).1, _, rfl⟩, fun s _ r => by cases s <;> rfl⟩

/-- The command that clears the storage minds no setting. -/
theorem clearTransportStorage_minds (clear : X → X) : Minds (clearTransportStorage clear) fun _ => False := by
  rintro _ ⟨⟩ w
  exact ⟨fun r => ⟨true, _, rfl⟩, fun s _ r => by cases s <;> rfl⟩

/-- A device that hosts the settings has the namespace of each registered. -/
theorem Hosts.mem (h : Hosts p r₀ c) (s : Tunable) : s.decl r₀ c ∈ p.decls := by
  unfold Tunable.decl
  split
  · exact h.general
  · exact h.transport

/-- Every setter of the device comes back, and leaves alone the settings that are not its own. -/
theorem Hosts.minds (h : Hosts p r₀ c) {d : NamespaceDecl (Runtime X)} (hd : d ∈ p.decls) {g : Field (Runtime X)}
    (hg : g ∈ d.fields) : Minds g fun s => d = s.decl r₀ c ∧ g.id = s.id := by
  have hof : ∀ {own : Tunable → Prop}, Minds g own → (∀ s, own s → d = s.decl r₀ c ∧ g.id = s.id) →
      Minds g fun s => d = s.decl r₀ c ∧ g.id = s.id := fun hminds hown setter hsetter w =>
    ⟨(hminds setter hsetter w).1, fun s hs r => (hminds setter hsetter w).2 s (fun h => hs (hown s h)) r⟩
  by_cases hgeneral : d.id = 1
  · obtain rfl := decls_unique h.general d hd hgeneral
    rcases mem_general hg with ⟨t, ht, rfl⟩ | rfl
    · refine hof (field_minds t r₀) ?_
      rintro _ rfl
      exact ⟨by unfold Tunable.decl; rw [if_pos ht], Tunable.field_id _⟩
    · exact hof (clearProvisioning_minds _) fun _ => False.elim
  by_cases htransport : d.id = 2
  · obtain rfl := decls_unique h.transport d hd htransport
    rcases mem_transport hg with ⟨t, ht, rfl⟩ | rfl
    · refine hof (field_minds t r₀) ?_
      rintro _ rfl
      exact ⟨by unfold Tunable.decl; rw [if_neg (Bool.eq_false_iff.mp ht)], Tunable.field_id _⟩
    · exact hof (clearTransportStorage_minds _) fun _ => False.elim
  · intro setter hsetter w
    obtain ⟨hsucceeds, hkeeps⟩ := h.setters d hd hgeneral htransport g hg setter hsetter w
    exact ⟨hsucceeds, fun s _ r => hkeeps r s⟩

/-- A getter tells two runtimes apart by the variable of its setting only. -/
theorem sameShown_of {r r' : Runtime X} (h : s.shown r' = s.shown r) : (s.field r₀).SameShown r r' := by
  intro getter hgetter
  rw [s.field_getter] at hgetter
  cases hgetter
  exact h

/-- The other fields of the device leave what a setting shows alone. -/
theorem Hosts.unmoved (h : Hosts p r₀ c) (s : Tunable) {d : NamespaceDecl (Runtime X)} (hd : d ∈ p.decls)
    {g : Field (Runtime X)} (hg : g ∈ d.fields) (hother : ¬ (d = s.decl r₀ c ∧ g.id = (s.field r₀).id))
    {setter : Value → Prog String (Runtime X) Bool} (hsetter : g.setter = some setter) (w : Value) :
    (s.field r₀).Unmoved (setter w) := by
  rw [s.field_id] at hother
  exact fun r => sameShown_of ((h.minds hd hg setter hsetter w).2 s hother r)

/-- So nothing on the device disturbs a setting while it is committed. -/
theorem Hosts.undisturbed (h : Hosts p r₀ c) (hfiles : env.fs.Answer) (s : Tunable) :
    Undisturbed env p (s.decl r₀ c) (s.field r₀) where
  responsive :=
    { files := hfiles
      hooks := fun d hd hook hhook => (h.hooks d hd hook hhook).1
      callback := fun m hm => (h.callback m hm).1 }
  own := by
    unfold Tunable.decl
    split <;> rfl
  hooks d hd hook hhook x := sameShown_of ((h.hooks d hd hook hhook).2 x s)
  setters d hd g hg setter hsetter w := (h.minds hd hg setter hsetter w).1
  others d hd g hg hother setter hsetter w := h.unmoved s hd hg hother hsetter w
  callback m hm r := sameShown_of ((h.callback m hm).2 r s)

/-- A live field that settled at a value shows it; one that waits for a reboot has it as its working value. -/
theorem shown_of_settled {x : NamespaceState × Runtime X} (h : Settled (s.decl r₀ c) (s.field r₀) v x) :
    ((s.field r₀).hasFlag ffRebootRequired = false → s.shown x.2 = v)
      ∧ ((s.field r₀).hasFlag ffRebootRequired = true → x.1.workingValue s.id = v) := by
  have hvalue := h.2
  unfold NamespaceDecl.settledValue NamespaceDecl.effective at hvalue
  rw [NamespaceDecl.findField_of_mem s.field_mem] at hvalue
  simp only [s.field_getter, s.field_stateful, s.field_id] at hvalue
  constructor
  · intro hlive
    rwa [if_neg (Bool.eq_false_iff.mp hlive)] at hvalue
  · intro hreboot
    rwa [if_pos hreboot] at hvalue

/-- The next boot: the value that was read back is pushed through the setter. -/
theorem means_at_boot (h : Hosts p r₀ c) (hv : (s.field r₀).validate v = true) (hfits : s.Fits v)
    (hvalue : (p.stateOf (s.decl r₀ c).id).workingValue s.id = v) :
    ∃ q, applyLoadedToRuntime p = (.value (), q) ∧ s.Means r₀ v p.runtime q.runtime := by
  obtain ⟨q, hrun, hshown⟩ := applied_at_boot (Tunable.field_outcome hv hfits)
    (fun d hd g hg setter hsetter w => (h.minds hd hg setter hsetter w).1)
    (fun d hd g hg hother setter hsetter w => h.unmoved s hd hg hother hsetter w)
    (h.mem s) s.field_mem (by rwa [s.field_id]) s.field_getter
  exact ⟨q, hrun, Tunable.means_of_shown hshown⟩

/-- A value that a built-in field accepts, and that fits where the field is an interval, comes back from the getter and
is in the variable: after the commit, or after the boot that finds it as the working value. -/
theorem setting_means_what_it_says (s : Tunable) (r₀ : Runtime X) (c : Platform X) (env : Env F)
    (hfiles : env.fs.Answer) (p : Provisioner (Runtime X) F) (h : Hosts p r₀ c) (v : Value)
    (hv : (s.field r₀).validate v = true) (hfits : s.Fits v) (set : SetWay) (way : Way)
    (hscope : s.decl r₀ c ∈ way.scope p) :
    ∃ answer q, (set.set env (s.decl r₀ c).id s.id v >>= fun _ => way.commit env) p = (.value answer, q)
      ∧ ((s.field r₀).hasFlag ffRebootRequired = false → s.Means r₀ v p.runtime q.runtime)
      ∧ ((s.field r₀).hasFlag ffRebootRequired = true →
        (q.stateOf (s.decl r₀ c).id).workingValue s.id = v
        ∧ ∀ (r₁ : Runtime X) (c₁ : Platform X) (boot : Provisioner (Runtime X) F), Hosts boot r₁ c₁ →
          (boot.stateOf (s.decl r₁ c₁).id).workingValue s.id = v →
          ∃ booted, applyLoadedToRuntime boot = (.value (), booted)
            ∧ s.Means r₁ v boot.runtime booted.runtime) := by
  obtain ⟨answer, q, hrun, hsettled⟩ := set_and_committed set way (h.undisturbed hfiles s) s.field_mem
    (Tunable.settable hv hfits) (Tunable.whole hv) hscope
  rw [s.field_id] at hrun
  obtain ⟨hshown, hworking⟩ := shown_of_settled hsettled
  refine ⟨answer, q, hrun, fun hlive => ?_, fun hreboot => ⟨hworking hreboot, fun r₁ c₁ boot hboot hvalue => ?_⟩⟩
  · rcases s.live_or_reboot r₀ with ⟨hreboot, -⟩ | ⟨-, -, houtcome⟩
    · rw [hreboot] at hlive
      cases hlive
    · exact Tunable.means_of_shown ((hshown hlive).trans (houtcome v _).symm)
  · exact means_at_boot hboot (s.field_validate r₀ r₁ v ▸ hv) hfits hvalue

end Device

/-! ### A device with nothing else on it -/

def quiet : Platform Unit where
  clearProvisioning _ := (true, ())
  clearTransport _ := ()
  generalHash := 0
  transportHash := 0

def fresh : Runtime Unit where
  transportEnabled := false
  linkMtuDiscovery := true
  remoteManagementEnabled := false
  allowProbes := false
  persistInterval := 60
  cleanInterval := 60
  identity := none
  remoteManagementAllowed := ∅
  pathTableMaxsize := 100
  pathStoreMaxRecs := 100
  announceTableMaxsize := 100
  hashlistMaxsize := 100
  packetHashStoreMaxRecs := 100
  maxPrTags := 32
  discoveryPrTagsMaxSize := 32
  knownDestinationsMaxsize := 100
  knownStoreMaxRecs := 100
  rest := ()

def freshGeneral : NamespaceDecl (Runtime Unit) := generalConfig fresh quiet.clearProvisioning 0
def freshTransport : NamespaceDecl (Runtime Unit) := transportConfig fresh quiet.clearTransport 0

/-- The device with the given state of General Config. -/
def station (s : NamespaceState) (r : Runtime Unit) : Provisioner (Runtime Unit) Unit where
  namespaces := [{ decl := freshGeneral, state := s }, { decl := freshTransport, state := {} }]
  storage := none
  started := true
  needsReboot := false
  schemaHash := 0
  runtime := r
  distinct := by
    show [(1 : NamespaceId), 2].Nodup
    decide

theorem station_hosts (s : NamespaceState) (r : Runtime Unit) : Hosts (station s r) fresh quiet where
  general := List.mem_cons_self
  transport := List.mem_cons_of_mem _ List.mem_cons_self
  hooks d hd hook hhook := by
    rcases List.mem_cons.mp hd with rfl | hd
    · cases hhook
    · rw [List.mem_singleton.mp hd] at hhook
      cases hhook
  setters d hd hgeneral htransport := by
    rcases List.mem_cons.mp hd with rfl | hd
    · exact absurd rfl hgeneral
    · rw [List.mem_singleton.mp hd] at htransport
      exact absurd rfl htransport
  callback m hm := by cases hm

/-- Half a day between two writes of the tables. -/
theorem setting_means_what_it_says_station :
    ∃ answer q, (SetWay.inProcess.set bareEnv 1 6 (.int 43200) >>= fun _ => (Way.inProcess 0).commit bareEnv)
        (station {} fresh) = (.value answer, q)
      ∧ q.runtime.persistInterval.toNat = 43200 := by
  obtain ⟨answer, q, hrun, hmeans, -⟩ := setting_means_what_it_says .persistInterval fresh quiet bareEnv
    tuner_responsive.files (station {} fresh) (station_hosts {} fresh) (.int 43200) (by decide) (fun _ => by decide)
    .inProcess (.inProcess 0) List.mem_cons_self
  have hvalue : (43200 : Int) = q.runtime.persistInterval.toNat := (hmeans rfl).parameter
  exact ⟨answer, q, hrun, by omega⟩

/-- What was read back for one field. -/
def readBack (id : FieldId) (v : Value) : NamespaceState := ({} : NamespaceState).putWorking id v

def keyed : Runtime Unit := { fresh with identity := some (loadPrivateKey (List.replicate 64 7)) }

/-- Two who may manage the device. -/
def managers : List Bytes := [List.replicate 16 1, List.replicate 16 2]

/-- The set of the managers is kept in the order of the bytes. -/
theorem managers_in_order : inOrder managers.reverse.toFinset = managers := by
  have hset : managers.reverse.toFinset = managers.toFinset := List.toFinset_reverse
  rw [hset]
  exact inOrder_toFinset (by decide) (by decide)

/-- A list that is not in order comes back in order, empty input leaves the identity, and a day does not fit in the
variable of an interval. -/
theorem accepted_values_change :
    ((remoteManagementAllowed : Field (Runtime Unit)).validate (.bytesList managers.reverse) = true
      ∧ ∃ q, applyLoadedToRuntime (station (readBack 8 (.bytesList managers.reverse)) fresh) = (.value (), q)
        ∧ q.runtime.allowedList = managers)
    ∧ ((transportIdentity : Field (Runtime Unit)).validate (.bytes []) = true
      ∧ ∃ q, applyLoadedToRuntime (station (readBack 9 (.bytes [])) keyed) = (.value (), q)
        ∧ q.runtime.identityPrv = List.replicate 64 7)
    ∧ ((persistInterval fresh).validate (.int 86400) = true
      ∧ ((SetWay.inProcess.set bareEnv 1 6 (.int 86400) >>= fun _ => (Way.inProcess 0).commit bareEnv)
        (station {} fresh)).2.runtime.persistInterval = 20864) := by
  refine ⟨⟨by decide, ?_⟩, ⟨by decide, ?_⟩, by decide, rfl⟩
  · obtain ⟨q, hrun, hmeans⟩ := means_at_boot (s := .remoteManagementAllowed) (v := .bytesList managers.reverse)
      (station_hosts (readBack 8 (.bytesList managers.reverse)) fresh) (by decide) nofun rfl
    refine ⟨q, hrun, ?_⟩
    have hlist : Value.bytesList q.runtime.allowedList = .bytesList (inOrder managers.reverse.toFinset) :=
      Option.some.inj hmeans.getter
    rw [Value.bytesList.inj hlist, managers_in_order]
  · obtain ⟨q, hrun, hmeans⟩ := means_at_boot (s := .transportIdentity) (v := .bytes [])
      (station_hosts (readBack 9 (.bytes [])) keyed) (by decide) nofun rfl
    have hkept : q.runtime.identityPrv = keyed.identityPrv := hmeans.parameter
    exact ⟨q, hrun, hkept⟩

end MicroReticulum.Provisioning.Builtin
