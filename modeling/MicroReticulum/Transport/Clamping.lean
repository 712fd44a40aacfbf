import MicroReticulum.Link.ValidateRequest

/-!
# The MTU of a link on its way to the destination

A link request names the MTU its initiator would like. Every transport node lowers it to what its two interfaces can
carry, or removes it when its outgoing interface takes no part, and the node of the destination lowers it once more
before the destination makes the link. `Lowered` says this for a chain of nodes.

`link_mtu_lowered` gives the condition under which it is so, on what was signalled and the interfaces. An MTU from 65536 on is
read without its upper bits, and a node that finds nothing to lower in the rest passes the bytes on as they are. At the
destination, an MTU that reads as zero counts as the default, and an interface that neither configures itself nor is
fixed counts as one with the default MTU, even when its hardware carries less.

An interface that announces less than it can carry is believed; nothing is measured.
-/

namespace MicroReticulum.Transport

open MicroReticulum Packet Library Link

/-- The two interfaces of a transport node a request goes through. -/
structure Hop where
  receiving : Interface
  outbound : Interface

/-- The request as a transport node passes it on, as far as its payload goes. -/
def forwardedRequest (h : Hop) (p : Packet) : Except String Packet :=
  (rewriteMtuData h.receiving.hwMtu h.outbound p).map fun data => { p with data }

/-- The request behind a chain of transport nodes. -/
def carried : List Hop → Packet → Except String Packet
  | [], p => .ok p
  | h :: hops, p => (forwardedRequest h p).bind (carried hops)

/-- The request as the destination gets it. -/
def deliveredRequest (hops : List Hop) (i : Interface) (p : Packet) : Except String Packet :=
  (carried hops p).bind (clampLinkRequest i)

/-! ## What each node has to keep to -/

/-- The MTU that a request signals, all 21 bits of it. -/
def signalledMtu (p : Packet) : Nat := wireMtuOf (requestWire p)

/-- Both interfaces carry packets of this size; an interface with a hardware MTU of zero is not known. -/
def Within (mtu : Nat) (h : Hop) : Prop :=
  mtu ≤ h.outbound.hwMtu.toNat ∧ (h.receiving.hwMtu ≠ 0 → mtu ≤ h.receiving.hwMtu.toNat)

/-- A node has removed the signalling bytes, or has lowered the MTU in them and nothing else. -/
def HopLowers (h : Hop) (p q : Packet) : Prop :=
  q.data = p.data.left ecpubsize
    ∨ (q.data.length = ecpubsize + linkMtuSize ∧ q.data.left ecpubsize = p.data.left ecpubsize
      ∧ (q.data.byte ecpubsize).toNat / 32 = (p.data.byte ecpubsize).toNat / 32
      ∧ signalledMtu q ≤ signalledMtu p ∧ Within (signalledMtu q) h)

/-- The signalling bytes are removed for the destination, or it uses no more than is signalled and than the interface
carries.
-/
def ArrivalLowers (i : Interface) (p q : Packet) : Prop :=
  q.data = p.data.left ecpubsize
    ∨ ((requestedMtu q).toNat ≤ signalledMtu p ∧ (i.hwMtu ≠ 0 → (requestedMtu q).toNat ≤ i.hwMtu.toNat))

/-- The MTU is only ever lowered, by each node of the chain and at the destination. -/
def Lowered : List Hop → Interface → Packet → Prop
  | [], i, p => ∃ q, clampLinkRequest i p = .ok q ∧ ArrivalLowers i p q
  | h :: hops, i, p => ∃ q, forwardedRequest h p = .ok q ∧ HopLowers h p q
    ∧ (q.data.length = ecpubsize + linkMtuSize → Lowered hops i q)

/-! ## The conditions -/

/-- What the interfaces of a node carry. -/
def hopLimit (h : Hop) : Nat := (clampedMtu h.receiving.hwMtu h.outbound).toNat

/-- The MTU fits sixteen bits, or the node removes or replaces it by what it has read of it. -/
def HopReads (h : Hop) (mtu : Nat) : Prop :=
  mtu < 65536 ∨ (mtu % 65536 ≠ 0 ∧ (dropsSignalling h.outbound = true ∨ hopLimit h < mtu % 65536))

/-- The default MTU, where the destination or its interface falls back on it, is no more than is signalled and than the
interface carries.
-/
def ArrivalReads (i : Interface) (mtu : Nat) : Prop :=
  if mtu % 65536 = 0 then reticulumMtu ≤ mtu ∧ (i.hwMtu ≠ 0 → reticulumMtu ≤ i.hwMtu.toNat)
  else i.hwMtu = 0 ∨ i.autoconfigureMtu = true ∨ i.fixedMtu = true ∨ min reticulumMtu (mtu % 65536) ≤ i.hwMtu.toNat

/-- The least of an MTU and what the nodes of a chain carry. -/
def leastMtu (hops : List Hop) (mtu : Nat) : Nat :=
  hops.foldl (fun mtu h => min mtu (hopLimit h)) mtu

/-- The first node meets its condition, and the destination its own, unless a node removes the signalling bytes. -/
structure Reads (hops : List Hop) (i : Interface) (mtu : Nat) : Prop where
  first : ∀ h ∈ hops.head?, HopReads h mtu
  arrival : (mtu % 65536 ≠ 0 ∧ ∃ h ∈ hops, dropsSignalling h.outbound = true)
    ∨ ArrivalReads i (if mtu % 65536 = 0 then mtu else leastMtu hops (mtu % 65536))

/-! ## One node -/

section

variable {p : Packet}

theorem mtuFromLrPacket_toNat (h : SignalledRequest p) : (mtuFromLrPacket p).toNat = signalledMtu p % 65536 := by
  have hread : mtuFromLrPacket p = mtuOfBytes (p.data.byte ecpubsize) (p.data.byte (ecpubsize + 1))
      (p.data.byte (ecpubsize + 2)) := if_pos h.length
  unfold signalledMtu
  rw [hread, mtuOfBytes_toNat, requestWire_eq h.length]
  rfl

theorem left_stripped (h : SignalledRequest p) : p.data.left (p.data.length - linkMtuSize) = p.data.left ecpubsize := by
  rw [h.length]
  rfl

/-- Signalling bytes behind the keys of a request. -/
theorem signalled_append {mtu : UInt16} {mode : LinkMode} {keys signalling : Bytes} {q : Packet}
    (hs : signallingBytes mtu mode = .ok signalling) (hkeys : keys.length = ecpubsize)
    (hdata : q.data = keys ++ signalling) :
    SignalledRequest q ∧ signalledMtu q = mtu.toNat ∧ (q.data.byte ecpubsize).toNat / 32 = mode.code := by
  have hlength : q.data.length = ecpubsize + linkMtuSize := by
    rw [hdata, List.length_append, hkeys, signallingBytes_length hs]
  have henabled : mode ∈ enabledModes := signallingBytes_ok_iff.mp ⟨_, hs⟩
  have hwire : requestWire q = signalling := by
    unfold requestWire
    rw [hdata, Bytes.mid_append hkeys]
  obtain ⟨b0, b1, b2, rfl⟩ : ∃ b0 b1 b2, signalling = [b0, b1, b2] :=
    List.length_eq_three.mp (signallingBytes_length hs)
  obtain ⟨hmtu, hmode⟩ := ofBytes_of_signallingBytes hs
  have hbyte : q.data.byte ecpubsize = b0 := by
    have heq := hwire
    rw [requestWire_eq hlength] at heq
    exact (List.cons.inj heq).1
  have hmode' : modeFromLrPacket q = mode := by
    rw [modeFromLrPacket_eq hlength, hbyte, hmode]
  refine ⟨⟨hlength, hmode' ▸ henabled⟩, ?_, ?_⟩
  · -- the upper bits of a built MTU are zero
    have hread := (request_rebuilt_iff ⟨hlength, hmode' ▸ henabled⟩).mp (by
      have hmtu' : mtuFromLrPacket q = mtu := by
        have hreads : mtuFromLrPacket q = mtuOfBytes (q.data.byte ecpubsize) (q.data.byte (ecpubsize + 1))
            (q.data.byte (ecpubsize + 2)) := if_pos hlength
        have heq := hwire
        rw [requestWire_eq hlength] at heq
        cases heq
        rw [hreads, hmtu]
      rw [hmtu', hmode', hs, hwire])
    have htoNat := mtuOfBytes_toNat b0 b1 b2
    rw [hmtu] at htoNat
    unfold signalledMtu
    rw [hwire] at hread ⊢
    have hsmall : wireMtu b0 b1 b2 < 65536 := hread
    show wireMtu b0 b1 b2 = mtu.toNat
    rw [htoNat, Nat.mod_eq_of_lt hsmall]
  · rw [hbyte, ← hmode]
    have hlt : b0.toNat < 256 := b0.toNat_lt
    have hall : ∀ n < 8, (LinkMode.ofCode n).code = n := by decide
    exact (hall _ (by omega)).symm

theorem phMtu_pos_iff (phMtu : UInt16) : (0 : UInt16) < phMtu ↔ phMtu ≠ 0 := by
  rw [UInt16.lt_iff_toNat_lt, ne_eq, ← UInt16.toNat_inj]
  exact Nat.pos_iff_ne_zero

/-- What a node carries is what its outgoing interface carries and, when that is known, its receiving one. -/
theorem le_hopLimit_iff (h : Hop) (mtu : Nat) : mtu ≤ hopLimit h ↔ Within mtu h := by
  unfold hopLimit clampedMtu Within
  dsimp only
  by_cases hknown : h.receiving.hwMtu ≠ 0
  · rw [if_pos ((phMtu_pos_iff _).mpr hknown)]
    split
    case isTrue hlt =>
      rw [UInt16.lt_iff_toNat_lt] at hlt
      exact ⟨fun hle => ⟨hle.trans hlt.le, fun _ => hle⟩, fun hw => hw.2 hknown⟩
    case isFalse hge =>
      rw [UInt16.lt_iff_toNat_lt] at hge
      exact ⟨fun hle => ⟨hle, fun _ => by omega⟩, fun hw => hw.1⟩
  · rw [if_neg (fun hp => hknown ((phMtu_pos_iff _).mp hp)), ite_self]
    exact ⟨fun hle => ⟨hle, fun hne => absurd hne hknown⟩, fun hw => hw.1⟩

theorem exceedsHop_iff (h : Hop) (mtu : UInt16) :
    exceedsHop h.receiving.hwMtu h.outbound mtu = true ↔ hopLimit h < mtu.toNat := by
  rw [← Nat.not_le, le_hopLimit_iff]
  unfold exceedsHop Within
  rw [Bool.or_eq_true, Bool.and_eq_true, decide_eq_true_iff, decide_eq_true_iff, decide_eq_true_iff,
    UInt16.lt_iff_toNat_lt, UInt16.lt_iff_toNat_lt]
  constructor
  · rintro (hout | ⟨hknown, hin⟩) ⟨hle, hle'⟩
    · exact Nat.not_le.mpr hout hle
    · exact Nat.not_le.mpr hin (hle' hknown)
  · intro hnot
    by_contra hno
    push Not at hno
    exact hnot hno

/-- Only an outgoing interface without a hardware MTU carries nothing. -/
theorem hopLimit_pos {h : Hop} (hkeeps : dropsSignalling h.outbound ≠ true) : 0 < hopLimit h := by
  have hout : h.outbound.hwMtu ≠ 0 := by
    rintro hzero
    apply hkeeps
    unfold dropsSignalling
    rw [hzero]
    rfl
  apply Nat.pos_of_ne_zero
  intro hzero
  have hone := (le_hopLimit_iff h 1).mpr ⟨?_, ?_⟩
  · omega
  · have hne : h.outbound.hwMtu.toNat ≠ 0 := fun h0 => hout (UInt16.toNat_inj.mp h0)
    omega
  · intro hknown
    have hne : h.receiving.hwMtu.toNat ≠ 0 := fun h0 => hknown (UInt16.toNat_inj.mp h0)
    omega

theorem hopLimit_lt (h : Hop) : hopLimit h < 65536 := (clampedMtu h.receiving.hwMtu h.outbound).toNat_lt

/-- The keys alone are shorter than a request that signals an MTU. -/
theorem ne_left_of_signalled {data : Bytes} (hlength : data.length = ecpubsize + linkMtuSize) (other : Bytes) :
    data ≠ other.left ecpubsize := by
  intro hremoved
  have hle : (other.left ecpubsize).length ≤ ecpubsize := by
    rw [Bytes.left_length]
    exact Nat.min_le_left _ _
  rw [← hremoved, hlength] at hle
  exact absurd hle (by decide)

/-- What a transport node makes of a request. -/
inductive Forwarded (h : Hop) (p q : Packet) : Prop
  | removed (read : signalledMtu p % 65536 ≠ 0) (drops : dropsSignalling h.outbound = true)
      (data : q.data = p.data.left ecpubsize)
  | replaced (read : signalledMtu p % 65536 ≠ 0) (keeps : dropsSignalling h.outbound ≠ true)
      (exceeds : hopLimit h < signalledMtu p % 65536) (signalled : SignalledRequest q)
      (mtu : signalledMtu q = hopLimit h) (front : q.data.left ecpubsize = p.data.left ecpubsize)
      (mode : (q.data.byte ecpubsize).toNat / 32 = (p.data.byte ecpubsize).toNat / 32)
  | passed (carries : signalledMtu p % 65536 = 0 ∨ dropsSignalling h.outbound ≠ true)
      (within : signalledMtu p % 65536 = 0 ∨ signalledMtu p % 65536 ≤ hopLimit h) (same : q = p)

theorem forwardedRequest_cases (h : Hop) (hp : SignalledRequest p) :
    ∃ q, forwardedRequest h p = .ok q ∧ Forwarded h p q := by
  have hread := mtuFromLrPacket_toNat hp
  have hreadZero : mtuFromLrPacket p = 0 ↔ signalledMtu p % 65536 = 0 := by
    rw [← UInt16.toNat_inj, hread]
    rfl
  unfold forwardedRequest rewriteMtuData
  dsimp only
  by_cases hzero : mtuFromLrPacket p = 0
  · rw [if_pos hzero]
    exact ⟨p, rfl, .passed (.inl (hreadZero.mp hzero)) (.inl (hreadZero.mp hzero)) rfl⟩
  rw [if_neg hzero]
  have hne : signalledMtu p % 65536 ≠ 0 := fun h0 => hzero (hreadZero.mpr h0)
  by_cases hdrops : dropsSignalling h.outbound = true
  · rw [if_pos hdrops, left_stripped hp]
    exact ⟨{ p with data := p.data.left ecpubsize }, rfl, .removed hne hdrops rfl⟩
  rw [if_neg hdrops]
  have hexceeds := exceedsHop_iff h (mtuFromLrPacket p)
  rw [hread] at hexceeds
  by_cases hlimit : exceedsHop h.receiving.hwMtu h.outbound (mtuFromLrPacket p) = true
  · obtain ⟨signalling, hs⟩ : ∃ b, signallingBytes (clampedMtu h.receiving.hwMtu h.outbound) (modeFromLrPacket p) = .ok b :=
      signallingBytes_ok_iff.mpr hp.enabled
    rw [if_pos hlimit, hs, left_stripped hp]
    have hkeys : (p.data.left ecpubsize).length = ecpubsize := by
      rw [Bytes.left_length, hp.length]
      exact Nat.min_eq_left (Nat.le_add_right _ _)
    obtain ⟨hq, hmtu, hmode⟩ := signalled_append (q := { p with data := p.data.left ecpubsize ++ signalling }) hs hkeys rfl
    refine ⟨{ p with data := p.data.left ecpubsize ++ signalling }, rfl,
      .replaced hne hdrops (hexceeds.mp hlimit) hq hmtu (Bytes.left_append hkeys.symm) ?_⟩
    rw [hmode, modeFromLrPacket_eq hp.length]
    have hlt : (p.data.byte ecpubsize).toNat < 256 := (p.data.byte ecpubsize).toNat_lt
    have hall : ∀ n < 8, (LinkMode.ofCode n).code = n := by decide
    exact hall _ (by omega)
  · rw [if_neg hlimit]
    rw [hexceeds, Nat.not_lt] at hlimit
    exact ⟨p, rfl, .passed (.inr hdrops) (.inr hlimit) rfl⟩

/-- A request that still has its signalling bytes has an MTU and a mode in them. -/
theorem Forwarded.signalled {h : Hop} {q : Packet} (hp : SignalledRequest p) (hf : Forwarded h p q)
    (hlength : q.data.length = ecpubsize + linkMtuSize) : SignalledRequest q := by
  cases hf with
  | removed read drops data => exact absurd data (ne_left_of_signalled hlength _)
  | replaced read keeps exceeds signalled mtu front mode => exact signalled
  | passed carries within same => exact same ▸ hp

/-- A transport node does right by a request exactly if it reads the MTU in full or takes it away. -/
theorem Forwarded.lowers_iff {h : Hop} {q : Packet} (hp : SignalledRequest p) (hf : Forwarded h p q) :
    HopLowers h p q ↔ HopReads h (signalledMtu p) := by
  have hmod := Nat.mod_le (signalledMtu p) 65536
  cases hf with
  | removed read drops data => exact iff_of_true (.inl data) (.inr ⟨read, .inl drops⟩)
  | replaced read keeps exceeds signalled mtu front mode =>
    refine iff_of_true (.inr ⟨signalled.length, front, mode, ?_, ?_⟩) (.inr ⟨read, .inr exceeds⟩)
    · omega
    · exact (le_hopLimit_iff h _).mp mtu.le
  | passed carries within same =>
    subst same
    have hlimit := hopLimit_lt h
    constructor
    · rintro (hremoved | ⟨-, -, -, -, hwithin⟩)
      · exact absurd hremoved (ne_left_of_signalled hp.length _)
      · exact .inl (((le_hopLimit_iff h _).mpr hwithin).trans_lt hlimit)
    · intro hreads
      have hsmall : signalledMtu q < 65536 := by
        rcases hreads with hsmall | ⟨hne, hdrops | hexceeds⟩
        · exact hsmall
        · exact absurd hdrops (carries.resolve_left hne)
        · have hle := within.resolve_left hne
          omega
      rw [Nat.mod_eq_of_lt hsmall] at within
      exact .inr ⟨hp.length, rfl, rfl, le_rfl, (le_hopLimit_iff h _).mp (by omega)⟩

/-- An MTU that does not read as zero is the one the destination uses. -/
theorem requestedMtu_eq {q : Packet} (hq : SignalledRequest q) (hne : mtuFromLrPacket q ≠ 0) :
    requestedMtu q = mtuFromLrPacket q := by
  unfold requestedMtu
  rw [if_pos hq.length, if_pos hne]

/-- Between what a request signals and what is put against it, the destination uses the lesser. -/
theorem clamped_used (hp : SignalledRequest p) (hne : mtuFromLrPacket p ≠ 0) (nhMtu : UInt16) (hnh : nhMtu ≠ 0) :
    ∃ q, (if nhMtu < mtuFromLrPacket p then
        (signallingBytes nhMtu (modeFromLrPacket p)).map fun clamped =>
          { p with data := p.data.left (p.data.length - linkMtuSize) ++ clamped }
      else .ok p) = .ok q
      ∧ q.data.length = ecpubsize + linkMtuSize
      ∧ (requestedMtu q).toNat = min nhMtu.toNat (mtuFromLrPacket p).toNat := by
  split
  case isTrue hlt =>
    rw [UInt16.lt_iff_toNat_lt] at hlt
    obtain ⟨signalling, hs⟩ : ∃ b, signallingBytes nhMtu (modeFromLrPacket p) = .ok b :=
      signallingBytes_ok_iff.mpr hp.enabled
    have hkeys : (p.data.left ecpubsize).length = ecpubsize := by
      rw [Bytes.left_length, hp.length]
      exact Nat.min_eq_left (Nat.le_add_right _ _)
    obtain ⟨hq, hmtu, -⟩ := signalled_append (q := { p with data := p.data.left ecpubsize ++ signalling }) hs hkeys rfl
    rw [hs, left_stripped hp]
    refine ⟨{ p with data := p.data.left ecpubsize ++ signalling }, rfl, hq.length, ?_⟩
    have hread := mtuFromLrPacket_toNat hq
    rw [hmtu, Nat.mod_eq_of_lt nhMtu.toNat_lt, UInt16.toNat_inj] at hread
    rw [requestedMtu_eq hq (hread ▸ hnh), hread, Nat.min_eq_left hlt.le]
  case isFalse hge =>
    rw [UInt16.lt_iff_toNat_lt] at hge
    refine ⟨p, rfl, hp.length, ?_⟩
    rw [requestedMtu_eq hp hne, Nat.min_eq_right (Nat.le_of_not_lt hge)]

/-- What the node of the destination does with a request, and when that is right. -/
theorem clampLinkRequest_iff (i : Interface) (hp : SignalledRequest p) :
    ∃ q, clampLinkRequest i p = .ok q ∧ (ArrivalLowers i p q ↔ ArrivalReads i (signalledMtu p)) := by
  have hread := mtuFromLrPacket_toNat hp
  have hreadZero : mtuFromLrPacket p = 0 ↔ signalledMtu p % 65536 = 0 := by
    rw [← UInt16.toNat_inj, hread]
    rfl
  have hmod := Nat.mod_le (signalledMtu p) 65536
  have hdefault : (UInt16.ofNat reticulumMtu).toNat = reticulumMtu := rfl
  unfold clampLinkRequest ArrivalReads
  dsimp only
  by_cases hzero : mtuFromLrPacket p = 0
  · rw [if_pos hzero, if_pos (hreadZero.mp hzero)]
    refine ⟨p, rfl, ?_⟩
    have hused : requestedMtu p = UInt16.ofNat reticulumMtu := by
      unfold requestedMtu
      rw [if_pos hp.length, if_neg (not_not.mpr hzero)]
    unfold ArrivalLowers
    rw [hused, hdefault, or_iff_right (ne_left_of_signalled hp.length _)]
  rw [if_neg hzero, if_neg fun h0 => hzero (hreadZero.mpr h0), ← hread]
  by_cases hunknown : i.hwMtu = 0
  · rw [if_pos hunknown, left_stripped hp]
    exact ⟨{ p with data := p.data.left ecpubsize }, rfl, iff_of_true (.inl rfl) (.inl hunknown)⟩
  rw [if_neg hunknown, or_iff_right hunknown]
  by_cases hauto : (i.autoconfigureMtu || i.fixedMtu) = true
  · rw [if_pos hauto]
    obtain ⟨q, hq, hlength, hused⟩ := clamped_used hp hzero _ hunknown
    rw [Bool.or_eq_true] at hauto
    refine ⟨q, hq, iff_of_true (.inr ⟨?_, fun _ => ?_⟩) (hauto.elim .inl fun hfixed => .inr (.inl hfixed))⟩
    · omega
    · omega
  · rw [if_neg hauto]
    obtain ⟨q, hq, hlength, hused⟩ := clamped_used hp hzero (UInt16.ofNat reticulumMtu) (by decide)
    rw [hdefault] at hused
    rw [Bool.or_eq_true] at hauto
    refine ⟨q, hq, ?_⟩
    unfold ArrivalLowers
    rw [or_iff_right (ne_left_of_signalled hlength _), hused, or_iff_right fun h => hauto (.inl h),
      or_iff_right fun h => hauto (.inr h)]
    constructor
    · intro h
      exact h.2 hunknown
    · intro h
      exact ⟨(Nat.min_le_right _ _).trans (hread.trans_le hmod), fun _ => h⟩

end

/-! ## The whole way -/

/-- The conditions of a chain, its first node apart. -/
theorem reads_head {h : Hop} {hops : List Hop} {i : Interface} {mtu : Nat} :
    Reads (h :: hops) i mtu ↔ HopReads h mtu
      ∧ ((mtu % 65536 ≠ 0 ∧ (dropsSignalling h.outbound = true ∨ ∃ h' ∈ hops, dropsSignalling h'.outbound = true))
        ∨ ArrivalReads i (if mtu % 65536 = 0 then mtu else leastMtu hops (min (mtu % 65536) (hopLimit h)))) := by
  rw [← List.exists_mem_cons_iff fun h' : Hop => dropsSignalling h'.outbound = true]
  constructor
  · rintro ⟨hfirst, harrival⟩
    exact ⟨hfirst h rfl, harrival⟩
  · rintro ⟨hfirst, harrival⟩
    refine ⟨fun h' hh' => ?_, harrival⟩
    cases hh'
    exact hfirst

/-- Without nodes between, the destination alone has to read the MTU. -/
theorem reads_nil {i : Interface} {mtu : Nat} : Reads [] i mtu ↔ ArrivalReads i mtu := by
  have hsame : ArrivalReads i (if mtu % 65536 = 0 then mtu else leastMtu [] (mtu % 65536)) ↔ ArrivalReads i mtu := by
    split
    case isTrue => exact Iff.rfl
    case isFalse hne =>
      unfold ArrivalReads leastMtu
      rw [List.foldl_nil, Nat.mod_mod, if_neg hne, if_neg hne]
  constructor
  · rintro ⟨-, ⟨-, h, hmem, -⟩ | harrival⟩
    · exact absurd hmem List.not_mem_nil
    · exact hsame.mp harrival
  · intro harrival
    exact ⟨fun h hh => absurd hh (Option.not_mem_none h), .inr (hsame.mpr harrival)⟩

/-- An MTU that fits sixteen bits is read by every node. -/
theorem reads_small {hops : List Hop} {i : Interface} {mtu : Nat} (hsmall : mtu < 65536) (hne : mtu ≠ 0) :
    Reads hops i mtu ↔ (∃ h ∈ hops, dropsSignalling h.outbound = true) ∨ ArrivalReads i (leastMtu hops mtu) := by
  have hmod : mtu % 65536 = mtu := Nat.mod_eq_of_lt hsmall
  constructor
  · rintro ⟨-, harrival⟩
    rw [hmod, if_neg hne] at harrival
    exact harrival.imp_left And.right
  · intro harrival
    refine ⟨fun h _ => .inl hsmall, ?_⟩
    rw [hmod, if_neg hne]
    exact harrival.imp_left (And.intro hne)

/-- An MTU that reads as zero is not replaced on the way. -/
theorem reads_zero {hops : List Hop} {i : Interface} : Reads hops i 0 ↔ ArrivalReads i 0 := by
  constructor
  · rintro ⟨-, ⟨hne, -⟩ | harrival⟩
    · exact absurd rfl hne
    · exact harrival
  · intro harrival
    exact ⟨fun h _ => .inl (by decide), .inr harrival⟩

/-- Behind its first node, a chain has to read what that node has made of the MTU. -/
theorem reads_cons {h : Hop} {hops : List Hop} {i : Interface} {q : Packet} (hp : SignalledRequest p)
    (hf : Forwarded h p q) :
    Reads (h :: hops) i (signalledMtu p)
      ↔ HopReads h (signalledMtu p) ∧ (q.data.length = ecpubsize + linkMtuSize → Reads hops i (signalledMtu q)) := by
  rw [reads_head]
  refine and_congr_right fun hreads => ?_
  cases hf with
  | removed read drops data =>
    exact iff_of_true (.inl ⟨read, .inl drops⟩) fun hlength => absurd data (ne_left_of_signalled hlength _)
  | replaced read keeps exceeds signalled mtu front mode =>
    rw [mtu, reads_small (hopLimit_lt h) (hopLimit_pos keeps).ne', if_neg read, Nat.min_eq_right exceeds.le,
      or_iff_right keeps, and_iff_right read, forall_prop_of_true signalled.length]
  | passed carries within same =>
    subst same
    rw [forall_prop_of_true hp.length]
    by_cases hzero : signalledMtu q % 65536 = 0
    · -- only zero itself is passed on and read in full
      have hall : signalledMtu q = 0 := by
        rcases hreads with hsmall | hne
        · rwa [Nat.mod_eq_of_lt hsmall] at hzero
        · exact absurd hzero hne.1
      rw [hall, reads_zero]
      exact ⟨fun h => h.elim (fun hne => absurd rfl hne.1) id, .inr⟩
    · have hkeeps := carries.resolve_left hzero
      have hle := within.resolve_left hzero
      have hsmall : signalledMtu q < 65536 := by
        rcases hreads with hsmall | ⟨-, hdrops | hexceeds⟩
        · exact hsmall
        · exact absurd hdrops hkeeps
        · exact absurd hexceeds (Nat.not_lt.mpr hle)
      rw [if_neg hzero, and_iff_right hzero, or_iff_right hkeeps, Nat.min_eq_left hle]
      rw [Nat.mod_eq_of_lt hsmall] at hzero ⊢
      rw [reads_small hsmall hzero]

/-- The MTU is only lowered on the way exactly if it is read in full, as far as the nodes still have it. -/
theorem lowered_iff_reads {i : Interface} : ∀ (hops : List Hop) {p : Packet}, SignalledRequest p →
    (Lowered hops i p ↔ Reads hops i (signalledMtu p))
  | [], p, hp => by
    obtain ⟨q, hq, hiff⟩ := clampLinkRequest_iff i hp
    rw [reads_nil, ← hiff]
    constructor
    · rintro ⟨q', hq', hlowers⟩
      cases hq.symm.trans hq'
      exact hlowers
    · intro hlowers
      exact ⟨q, hq, hlowers⟩
  | h :: hops, p, hp => by
    obtain ⟨q, hq, hf⟩ := forwardedRequest_cases h hp
    rw [reads_cons hp hf, ← hf.lowers_iff hp]
    constructor
    · rintro ⟨q', hq', hlowers, hrest⟩
      cases hq.symm.trans hq'
      exact ⟨hlowers, fun hlength => (lowered_iff_reads hops (hf.signalled hp hlength)).mp (hrest hlength)⟩
    · rintro ⟨hlowers, hrest⟩
      exact ⟨q, hq, hlowers, fun hlength => (lowered_iff_reads hops (hf.signalled hp hlength)).mpr (hrest hlength)⟩

/-- Keys without signalling bytes are passed on as they are. -/
theorem carried_plain {p : Packet} (hplain : p.data.length ≠ ecpubsize + linkMtuSize) :
    ∀ hops, carried hops p = .ok p
  | [] => rfl
  | h :: hops => by
    have hzero : mtuFromLrPacket p = 0 := if_neg hplain
    have hforwarded : forwardedRequest h p = .ok p := by
      unfold forwardedRequest rewriteMtuData
      rw [if_pos hzero]
      rfl
    unfold carried
    rw [hforwarded]
    exact carried_plain hplain hops

/-- Neither are they changed at the destination. -/
theorem clampLinkRequest_plain {i : Interface} {p : Packet} (hplain : p.data.length ≠ ecpubsize + linkMtuSize) :
    clampLinkRequest i p = .ok p := by
  have hzero : mtuFromLrPacket p = 0 := if_neg hplain
  unfold clampLinkRequest
  rw [if_pos hzero]

/-- What is lowered at every node is lowered on the whole way: the MTU the destination uses is no more than was first
signalled, and every interface of the way carries it.
-/
theorem Lowered.whole {i : Interface} : ∀ {hops : List Hop} {p q : Packet}, Lowered hops i p →
    deliveredRequest hops i p = .ok q → q.data.length = ecpubsize + linkMtuSize →
    (requestedMtu q).toNat ≤ signalledMtu p ∧ (i.hwMtu ≠ 0 → (requestedMtu q).toNat ≤ i.hwMtu.toNat)
      ∧ ∀ h ∈ hops, Within (requestedMtu q).toNat h
  | [], p, q, hlowered, hq, hlength => by
    obtain ⟨q', hq', hremoved | ⟨hsignalled, hcarries⟩⟩ := hlowered
    all_goals cases hq'.symm.trans hq
    · exact absurd hremoved (ne_left_of_signalled hlength _)
    · exact ⟨hsignalled, hcarries, fun h hmem => absurd hmem List.not_mem_nil⟩
  | h :: hops, p, q, hlowered, hq, hlength => by
    obtain ⟨q', hq', hlowers, hrest⟩ := hlowered
    have hbehind : deliveredRequest hops i q' = .ok q := by
      rw [← hq]
      unfold deliveredRequest
      rw [carried, hq']
      rfl
    by_cases hlength' : q'.data.length = ecpubsize + linkMtuSize
    · obtain ⟨hsignalled, hcarries, hall⟩ := (hrest hlength').whole hbehind hlength
      rcases hlowers with hremoved | ⟨-, -, -, hle, hwithin⟩
      · exact absurd hremoved (ne_left_of_signalled hlength' _)
      · refine ⟨hsignalled.trans hle, hcarries, List.forall_mem_cons.mpr ⟨?_, hall⟩⟩
        exact (le_hopLimit_iff h _).mp (hsignalled.trans ((le_hopLimit_iff h _).mpr hwithin))
    · have hplain : deliveredRequest hops i q' = .ok q' := by
        unfold deliveredRequest
        rw [carried_plain hlength' hops]
        exact clampLinkRequest_plain hlength'
      cases hplain.symm.trans hbehind
      exact absurd hlength hlength'

/-- The MTU of a link is only lowered on the way exactly if it is read in full, and then it is no more at the
destination than anything on the way allows.
-/
theorem link_mtu_lowered (hops : List Hop) (i : Interface) (p : Packet) (hp : SignalledRequest p) :
    (Lowered hops i p ↔ Reads hops i (signalledMtu p))
      ∧ (Reads hops i (signalledMtu p) → ∀ q, deliveredRequest hops i p = .ok q →
        q.data.length = ecpubsize + linkMtuSize →
        (requestedMtu q).toNat ≤ signalledMtu p ∧ (i.hwMtu ≠ 0 → (requestedMtu q).toNat ≤ i.hwMtu.toNat)
          ∧ ∀ h ∈ hops, Within (requestedMtu q).toNat h) := by
  have hiff := lowered_iff_reads (i := i) hops hp
  refine ⟨hiff, fun hreads q hq hlength => ?_⟩
  exact (hiff.mpr hreads).whole hq hlength

namespace Sample

/-- An interface with the default MTU. -/
def plainInterface : Interface := { id := 1, hwMtu := 500, fixedMtu := true }

/-- A transport node between two of them. -/
def plainHop : Hop := { receiving := plainInterface, outbound := plainInterface }

/-- A request for an MTU of 1000. -/
def largeRequest : Packet := carrying (List.replicate 64 0 ++ [0x20, 0x03, 0xE8])

theorem largeRequest_signalled : SignalledRequest largeRequest := ⟨rfl, by decide +kernel⟩

end Sample

/-- A request for an MTU of 65536 passes a node that carries 500 as it is. -/
theorem wide_mtu_passes : ¬ ∀ hops i p, SignalledRequest p → Lowered hops i p := by
  intro h
  have hlowered := h [Sample.plainHop] Sample.plainInterface Link.Sample.wideRequest Link.Sample.wideRequest_signalled
  have hreads := (lowered_iff_reads _ Link.Sample.wideRequest_signalled).mp hlowered
  have hfirst := hreads.first _ rfl
  unfold HopReads at hfirst
  revert hfirst
  decide +kernel

/-- A request for an MTU of 1000 is lowered to 500 on the way. -/
theorem large_mtu_lowered : Lowered [Sample.plainHop] Sample.plainInterface Sample.largeRequest := by
  refine (link_mtu_lowered _ _ _ Sample.largeRequest_signalled).1.mpr ⟨?_, .inr ?_⟩
  · intro h hh
    exact .inl (by decide +kernel)
  · rw [if_neg (by decide +kernel)]
    unfold ArrivalReads
    rw [if_neg (by decide +kernel)]
    exact .inr (.inr (.inl rfl))

end MicroReticulum.Transport
