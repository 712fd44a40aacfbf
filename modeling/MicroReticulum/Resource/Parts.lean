import MicroReticulum.Transport.State
import Mathlib.Tactic.IntervalCases

/-!
# Cutting a resource into parts

`slice` is the part of `Resource::start` that cuts the encrypted stream, packs the parts and collects the
hashmap; `partCount` is the number of parts, which both `start` and `Resource::accept` compute. The size of
a part is fixed by the `Resource` constructor from the link it is given, and only a link in the state
`ACTIVE` tells it an MTU.

The packet constructor does not know the MTU of the link when it cuts its payload at `Type::Packet::MDU`;
`pack` knows it, and compares the whole packet. `cut_alike_iff` says for which streams all of this fits.

The number of parts is a sum in `size_t` in the source; the statements are about streams
below its bound.
-/

namespace MicroReticulum.Resource

open MicroReticulum Packet Link
open MicroReticulum.Transport (reticulumMdu)

/-- `Type::Resource::MAPHASH_LEN` -/
def maphashLen : Nat := 4

/-- `Type::Reticulum::IFAC_MIN_SIZE` -/
def ifacMinSize : Nat := 1

/-- `Type::Resource::SDU` -/
def defaultSdu : UInt16 := UInt16.ofNat reticulumMdu

/-- `Link::get_mtu`, zero unless the link is established -/
def getMtu (l : LinkState) : UInt16 := if l.status = .active then l.mtu else 0

/-- `Link::get_mdu` -/
def getMdu (l : LinkState) : UInt16 := if l.status = .active then l.mdu else 0

/-- `_sdu`, as the `Resource` constructor computes it from its link. -/
def resourceSdu (l : LinkState) : UInt16 :=
  if getMtu l ≠ 0 then UInt16.ofInt ((getMtu l).toNat - headerMaxsize - ifacMinSize)
  else if getMdu l ≠ 0 then getMdu l
  else defaultSdu

/-- `_total_parts`, as `start` and `accept` compute it. A size of zero divides by zero. The sum is a `size_t`
in the source: it is the one here while `size + sdu` is at most what a `size_t` holds, which a stream in
memory or a size from an advertisement of less than 4 GiB is on a 64-bit platform. -/
def partCount (size : Nat) (sdu : UInt16) : Option UInt32 :=
  if sdu = 0 then none else some (UInt32.ofNat ((size + sdu.toNat - 1) / sdu.toNat))

/-- The chunk of the encrypted stream that `start` takes for a part. -/
def chunk (stream : Bytes) (sdu : UInt16) (i : Nat) : Bytes :=
  let offset := i * sdu.toNat
  stream.midLen offset (if stream.length < offset + sdu.toNat then stream.length - offset else sdu.toNat)

/-- `Packet(link, data)` with a context. The constructor cuts the payload, and notes it in
`_truncated`. -/
def linkPacket (l : LinkState) (context : ContextType) (data : Bytes) : PacketSpec :=
  linkSpec l .data context (data.left reticulumMdu)

/-- `_truncated` of such a packet -/
def truncated (data : Bytes) : Bool := reticulumMdu < data.length

/-- `Resource::get_map_hash` -/
def getMapHash (fullHash : Bytes → Hash) (randomHash data : Bytes) : Bytes :=
  Bytes.left (fullHash (data ++ randomHash)).toList maphashLen

/-- `_total_parts`, `_parts` and `_hashmap` of a started resource. -/
structure Sliced where
  totalParts : UInt32
  parts : List Packet
  hashmap : Bytes

/-- The part packet of one round of the loop in `start`. -/
def packPart (encrypt : PacketSpec → Bytes → Except String Bytes) (l : LinkState) (data : Bytes) :
    Except String Packet :=
  pack encrypt (linkPacket l ContextType.resource data)

/-- The slicing of `Resource::start`, over a link `l`. -/
def slice (encrypt : PacketSpec → Bytes → Except String Bytes) (fullHash : Bytes → Hash) (l : LinkState)
    (sdu : UInt16) (randomHash stream : Bytes) : Except String Sliced :=
  match partCount stream.length sdu with
  | none => .error "division by zero"
  | some totalParts =>
    let indices := List.range totalParts.toNat
    match indices.mapM fun i => packPart encrypt l (chunk stream sdu i) with
    | .error e => .error e
    | .ok parts => .ok
      { totalParts, parts
        hashmap := indices.flatMap fun i => getMapHash fullHash randomHash (chunk stream sdu i) }

/-- The payload on the wire of a part packet. -/
def carried (p : Packet) : Bytes := p.raw.mid headerMinsize

/-! ## Chunks -/

section Chunks

variable {stream : Bytes} {sdu : UInt16}

theorem chunk_eq (stream : Bytes) (sdu : UInt16) (i : Nat) :
    chunk stream sdu i = (stream.drop (i * sdu.toNat)).take sdu.toNat := by
  unfold chunk Bytes.midLen
  simp only
  split
  · rw [List.take_of_length_le (by simp), List.take_of_length_le]
    simp only [List.length_drop]
    omega
  · rfl

theorem chunk_length (stream : Bytes) (sdu : UInt16) (i : Nat) :
    (chunk stream sdu i).length = min sdu.toNat (stream.length - i * sdu.toNat) := by
  rw [chunk_eq, List.length_take, List.length_drop]

/-- No chunk is longer than the first one. -/
theorem chunk_length_le (stream : Bytes) (sdu : UInt16) (i : Nat) :
    (chunk stream sdu i).length ≤ min sdu.toNat stream.length := by
  rw [chunk_length]
  omega

/-- So many chunks make so much of the stream. -/
theorem flatten_chunks (stream : Bytes) (sdu : UInt16) (k : Nat) :
    ((List.range k).map (chunk stream sdu)).flatten = stream.take (k * sdu.toNat) := by
  induction k with
  | zero => simp
  | succ k ih =>
    rw [List.range_succ, List.map_append, List.flatten_append, ih, Nat.add_mul, Nat.one_mul,
      List.take_add]
    simp [chunk_eq]

/-- As many parts as `start` means to make cover the stream. -/
theorem length_le_parts {n s : Nat} (hs : 0 < s) : n ≤ (n + s - 1) / s * s := by
  have hdiv := Nat.div_add_mod (n + s - 1) s
  have hmod := Nat.mod_lt (n + s - 1) hs
  rw [Nat.mul_comm] at hdiv
  omega

/-- One part less does not. -/
theorem parts_le_length {n s k : Nat} (hs : 0 < s) (h : n ≤ k * s) : (n + s - 1) / s ≤ k := by
  have hlt : n + s - 1 < (k + 1) * s := by
    rw [Nat.add_mul, Nat.one_mul]
    omega
  exact Nat.lt_succ_iff.mp ((Nat.div_lt_iff_lt_mul hs).mpr hlt)

end Chunks

/-! ## Part packets -/

section PartPackets

variable {encrypt : PacketSpec → Bytes → Except String Bytes} {fullHash : Bytes → Hash}
  {l : LinkState} {randomHash stream : Bytes} {sdu : UInt16}

/-- A part packs exactly when what the constructor left of it fits the MTU of the link, and that is what it
carries. -/
theorem packPart_cases (encrypt : PacketSpec → Bytes → Except String Bytes) (l : LinkState) (data : Bytes) :
    (∃ p, packPart encrypt l data = .ok p ∧ carried p = data.left reticulumMdu
      ∧ headerMinsize + (data.left reticulumMdu).length ≤ l.mtu.toNat)
    ∨ (∃ e, packPart encrypt l data = .error e)
      ∧ l.mtu.toNat < headerMinsize + (data.left reticulumMdu).length := by
  have hwire : plaintextOnWire (linkPacket l ContextType.resource data) = true := by
    simp [plaintextOnWire, linkPacket, linkSpec]
  have hbody : packBody encrypt (linkPacket l ContextType.resource data)
      = .ok (l.linkId.toList, data.left reticulumMdu) := by
    unfold packBody
    rw [if_neg (show ¬ (linkPacket l ContextType.resource data).context = ContextType.lrproof from
      show ¬ ContextType.resource = ContextType.lrproof by decide)]
    simp only [hwire, if_true]
    rfl
  have hlength : ∀ flags hops context : UInt8,
      (flags :: hops :: (l.linkId.toList ++ context :: data.left reticulumMdu)).length
        = headerMinsize + (data.left reticulumMdu).length := by
    intro flags hops context
    simp only [List.length_cons, List.length_append, l.linkId.toList_length, headerMinsize]
    omega
  unfold packPart pack
  rw [hbody]
  simp only [hlength]
  split
  case isTrue hlong => exact .inr ⟨⟨_, rfl⟩, hlong⟩
  case isFalse hfits =>
    refine .inl ⟨_, rfl, ?_, Nat.le_of_not_lt hfits⟩
    show Bytes.mid (_ :: _ :: (l.linkId.toList ++ _ :: data.left reticulumMdu)) (2 + 1 + 16) = _
    rw [show 2 + 1 + 16 = (16 + 1) + 1 + 1 from rfl, Bytes.mid_cons_succ, Bytes.mid_cons_succ,
      List.append_cons]
    exact Bytes.mid_append (by rw [List.length_append, l.linkId.toList_length]; rfl)

/-- The packing of one part, as `packPart_cases` describes it. -/
theorem packPart_ok {data : Bytes} {p : Packet} (h : packPart encrypt l data = .ok p) :
    carried p = data.left reticulumMdu
      ∧ headerMinsize + (data.left reticulumMdu).length ≤ l.mtu.toNat := by
  obtain ⟨q, hq, hcarried⟩ | ⟨⟨e, he⟩, -⟩ := packPart_cases encrypt l data
  · cases h.symm.trans hq
    exact hcarried
  · cases h.symm.trans he

/-- A loop that failed failed in one of its rounds. -/
theorem mapM_error {α β : Type} {f : α → Except String β} {e : String} :
    ∀ {as : List α}, as.mapM f = .error e → ∃ a ∈ as, f a = .error e
  | [], h => by cases h
  | a :: as, h => by
    rw [List.mapM_cons] at h
    cases ha : f a with
    | error e' =>
      rw [ha] at h
      cases h
      exact ⟨a, List.mem_cons_self, ha⟩
    | ok b =>
      cases has : as.mapM f with
      | error e' =>
        rw [ha, has] at h
        cases h
        obtain ⟨c, hc, hfail⟩ := mapM_error has
        exact ⟨c, List.mem_cons_of_mem a hc, hfail⟩
      | ok bs =>
        rw [ha, has] at h
        cases h

/-- A loop that came to an end came through every round. -/
theorem mapM_forall {α β : Type} {f : α → Except String β} :
    ∀ {as : List α} {bs : List β}, as.mapM f = .ok bs → List.Forall₂ (fun a b => f a = .ok b) as bs
  | [], _, h => by
    cases h
    exact .nil
  | a :: as, bs, h => by
    rw [List.mapM_cons] at h
    cases ha : f a with
    | error e =>
      rw [ha] at h
      cases h
    | ok b =>
      cases has : as.mapM f with
      | error e =>
        rw [ha, has] at h
        cases h
      | ok bs' =>
        rw [ha, has] at h
        cases h
        exact .cons ha (mapM_forall has)

end PartPackets

/-! ## Both ends -/

/-- What the two ends of a transfer rely on. The parts carry the stream and none was cut, every entry of the
hashmap is that of the part with its index, and the receiver, from its own link, counts as many parts. -/
structure CutAlike (fullHash : Bytes → Hash) (randomHash stream : Bytes) (sdu : UInt16) (receiver : LinkState)
    (sliced : Sliced) : Prop where
  carries : (sliced.parts.map carried).flatten = stream
  whole : ∀ i < sliced.totalParts.toNat, truncated (chunk stream sdu i) = false
  mapped : ∀ i < sliced.totalParts.toNat, ∃ p, sliced.parts[i]? = some p
    ∧ sliced.hashmap.midLen (i * maphashLen) maphashLen = getMapHash fullHash randomHash (carried p)
  counted : partCount stream.length (resourceSdu receiver) = some sliced.totalParts

/-- When both ends cut a stream of `n` bytes alike: the first part fits the constructor of a packet and the
MTU of the link, the count fits its type, and parts of the receiver's size are as many. -/
structure Fits (n sdu sdu' mtu : Nat) : Prop where
  nonzero : 0 < sdu
  uncut : min sdu n ≤ reticulumMdu
  packs : headerMinsize + min sdu n ≤ mtu
  countable : (n + sdu - 1) / sdu < 2 ^ 32
  nonzero' : 0 < sdu'
  alike : (n + sdu' - 1) / sdu' % 2 ^ 32 = (n + sdu - 1) / sdu

section BothEnds

variable {encrypt : PacketSpec → Bytes → Except String Bytes} {fullHash : Bytes → Hash}
  {l receiver : LinkState} {randomHash stream : Bytes} {sdu : UInt16} {sliced : Sliced}

theorem getMapHash_length (fullHash : Bytes → Hash) (randomHash data : Bytes) :
    (getMapHash fullHash randomHash data).length = maphashLen := by
  simp [getMapHash, Bytes.left, maphashLen, (fullHash (data ++ randomHash)).toList_length]

/-- Entries of one length stand where their indices say. -/
theorem midLen_flatMap {f : Nat → Bytes} {m : Nat} (hf : ∀ i, (f i).length = m) {k i : Nat} (hi : i < k) :
    Bytes.midLen ((List.range k).flatMap f) (i * m) m = f i := by
  obtain ⟨j, rfl⟩ : ∃ j, k = i + (j + 1) := ⟨k - i - 1, by omega⟩
  have hbefore : ((List.range i).flatMap f).length = i * m := by
    simp [List.length_flatMap, hf]
  rw [List.range_add, List.flatMap_append, List.range_succ_eq_map, List.map_cons, List.flatMap_cons]
  unfold Bytes.midLen
  rw [← hbefore, List.drop_left, List.take_append_of_le_length (by rw [Nat.add_zero, hf]),
    Nat.add_zero, List.take_of_length_le (by rw [hf])]

/-- What the loop of `start` leaves behind. -/
theorem slice_ok (h : slice encrypt fullHash l sdu randomHash stream = .ok sliced) :
    partCount stream.length sdu = some sliced.totalParts
      ∧ List.Forall₂ (fun i p => packPart encrypt l (chunk stream sdu i) = .ok p)
          (List.range sliced.totalParts.toNat) sliced.parts
      ∧ sliced.hashmap = (List.range sliced.totalParts.toNat).flatMap fun i =>
          getMapHash fullHash randomHash (chunk stream sdu i) := by
  unfold slice at h
  split at h
  case h_1 => cases h
  case h_2 totalParts hcount =>
    dsimp only at h
    split at h
    case h_1 => cases h
    case h_2 parts hparts =>
      cases h
      exact ⟨hcount, mapM_forall hparts, rfl⟩

/-- The loop comes to its end when every part packs. -/
theorem slice_of_packs {totalParts : UInt32} (hcount : partCount stream.length sdu = some totalParts)
    (hpacks : ∀ i < totalParts.toNat, ∃ p, packPart encrypt l (chunk stream sdu i) = .ok p) :
    ∃ sliced, slice encrypt fullHash l sdu randomHash stream = .ok sliced := by
  have hchoose : ∃ parts, (List.range totalParts.toNat).mapM
      (fun i => packPart encrypt l (chunk stream sdu i)) = .ok parts := by
    cases h : (List.range totalParts.toNat).mapM fun i => packPart encrypt l (chunk stream sdu i) with
    | ok parts => exact ⟨parts, rfl⟩
    | error e =>
      obtain ⟨i, hi, hfail⟩ := mapM_error h
      obtain ⟨p, hp⟩ := hpacks i (List.mem_range.mp hi)
      cases hp.symm.trans hfail
  obtain ⟨parts, hparts⟩ := hchoose
  unfold slice
  rw [hcount]
  dsimp only
  rw [hparts]
  exact ⟨_, rfl⟩

/-- The parts carry what the constructor left of the chunks. -/
theorem carried_parts {indices : List Nat} {parts : List Packet}
    (h : List.Forall₂ (fun i p => packPart encrypt l (chunk stream sdu i) = .ok p) indices parts) :
    parts.map carried = indices.map fun i => (chunk stream sdu i).left reticulumMdu := by
  induction h with
  | nil => rfl
  | cons hp _ ih => rw [List.map_cons, List.map_cons, (packPart_ok hp).1, ih]

theorem left_whole {data : Bytes} (h : truncated data = false) : data.left reticulumMdu = data :=
  List.take_of_length_le (Nat.le_of_not_lt (of_decide_eq_false h))

theorem whole_of_uncut (h : min sdu.toNat stream.length ≤ reticulumMdu) (i : Nat) :
    truncated (chunk stream sdu i) = false := by
  apply decide_eq_false
  have := chunk_length_le stream sdu i
  omega

theorem partCount_some {n : Nat} {totalParts : UInt32} (h : partCount n sdu = some totalParts) :
    0 < sdu.toNat ∧ totalParts.toNat = (n + sdu.toNat - 1) / sdu.toNat % 2 ^ 32 := by
  unfold partCount at h
  split at h
  case isTrue => cases h
  case isFalse hzero =>
    cases h
    refine ⟨Nat.pos_of_ne_zero fun h0 => hzero (UInt16.toNat_inj.mp h0), ?_⟩
    rw [UInt32.toNat_ofNat']

theorem partCount_pos (n : Nat) (hs : 0 < sdu.toNat) :
    partCount n sdu = some (UInt32.ofNat ((n + sdu.toNat - 1) / sdu.toNat)) :=
  if_neg fun h0 => by
    rw [h0] at hs
    exact absurd hs (by decide)

/-- Whole parts carry the stream as far as they go. -/
theorem flatten_carried {k : Nat} {parts : List Packet}
    (hparts : List.Forall₂ (fun i p => packPart encrypt l (chunk stream sdu i) = .ok p) (List.range k) parts)
    (hwhole : ∀ i < k, truncated (chunk stream sdu i) = false) :
    (parts.map carried).flatten = stream.take (k * sdu.toNat) := by
  rw [carried_parts hparts, ← flatten_chunks]
  congr 1
  exact List.map_congr_left fun i hi => left_whole (hwhole i (List.mem_range.mp hi))

theorem Forall₂.get {α β : Type} {R : α → β → Prop} {as : List α} {bs : List β} (h : List.Forall₂ R as bs)
    {i : Nat} {a : α} (ha : as[i]? = some a) : ∃ b, bs[i]? = some b ∧ R a b := by
  induction h generalizing i with
  | nil => cases ha
  | cons hab _ ih =>
    cases i with
    | zero =>
      cases ha
      exact ⟨_, rfl, hab⟩
    | succ i => exact ih ha

theorem fits_of_cutAlike (hne : stream ≠ []) (h : slice encrypt fullHash l sdu randomHash stream = .ok sliced)
    (hcut : CutAlike fullHash randomHash stream sdu receiver sliced) :
    Fits stream.length sdu.toNat (resourceSdu receiver).toNat l.mtu.toNat := by
  obtain ⟨hcount, hparts, -⟩ := slice_ok h
  obtain ⟨hs, htotal⟩ := partCount_some hcount
  obtain ⟨hs', htotal'⟩ := partCount_some hcut.counted
  have hlong : stream.length ≤ sliced.totalParts.toNat * sdu.toNat := by
    have hflat := flatten_carried hparts hcut.whole
    rw [hcut.carries] at hflat
    have := congrArg List.length hflat
    rw [List.length_take] at this
    omega
  have hlength : 0 < stream.length := List.length_pos_iff.mpr hne
  have hsome : 0 < sliced.totalParts.toNat := by
    apply Nat.pos_of_ne_zero
    intro h0
    rw [h0] at hlong
    omega
  have hfirst : (chunk stream sdu 0).length = min sdu.toNat stream.length := by
    rw [chunk_length]
    simp
  have hwhole := hcut.whole 0 hsome
  have huncut : min sdu.toNat stream.length ≤ reticulumMdu := by
    rw [← hfirst]
    exact Nat.le_of_not_lt (of_decide_eq_false hwhole)
  obtain ⟨p, -, hp⟩ := Forall₂.get hparts
    (show (List.range sliced.totalParts.toNat)[0]? = some 0 by simp [hsome])
  have hpacks := (packPart_ok hp).2
  rw [left_whole hwhole, hfirst] at hpacks
  have hceil := parts_le_length hs hlong
  have hbound := sliced.totalParts.toNat_lt
  have hcountable : (stream.length + sdu.toNat - 1) / sdu.toNat < 2 ^ 32 := Nat.lt_of_le_of_lt hceil hbound
  rw [Nat.mod_eq_of_lt hcountable] at htotal
  exact ⟨hs, huncut, hpacks, hcountable, hs', by rw [← htotal', htotal]⟩

theorem cutAlike_of_fits
    (h : Fits stream.length sdu.toNat (resourceSdu receiver).toNat l.mtu.toNat) :
    ∃ sliced, slice encrypt fullHash l sdu randomHash stream = .ok sliced
      ∧ CutAlike fullHash randomHash stream sdu receiver sliced := by
  have hwhole := whole_of_uncut h.uncut
  have hpacks : ∀ i, ∃ p, packPart encrypt l (chunk stream sdu i) = .ok p := by
    intro i
    obtain ⟨p, hp, -⟩ | ⟨-, hlong⟩ := packPart_cases encrypt l (chunk stream sdu i)
    · exact ⟨p, hp⟩
    · rw [left_whole (hwhole i)] at hlong
      have := chunk_length_le stream sdu i
      have := h.packs
      omega
  obtain ⟨sliced, hslice⟩ := @slice_of_packs encrypt fullHash l randomHash stream sdu _
    (partCount_pos stream.length h.nonzero) fun i _ => hpacks i
  obtain ⟨hcount, hparts, hmap⟩ := slice_ok hslice
  have htotal := (partCount_some hcount).2
  rw [Nat.mod_eq_of_lt h.countable] at htotal
  refine ⟨sliced, hslice, ?_, fun i _ => hwhole i, ?_, ?_⟩
  · rw [flatten_carried hparts fun i _ => hwhole i, htotal]
    exact List.take_of_length_le (length_le_parts h.nonzero)
  · intro i hi
    obtain ⟨p, hget, hp⟩ := Forall₂.get hparts
      (show (List.range sliced.totalParts.toNat)[i]? = some i by simp [hi])
    refine ⟨p, hget, ?_⟩
    rw [hmap, midLen_flatMap (fun _ => getMapHash_length _ _ _) hi, (packPart_ok hp).1, left_whole (hwhole i)]
  · rw [partCount_pos _ h.nonzero']
    congr 1
    apply UInt32.toNat_inj.mp
    rw [UInt32.toNat_ofNat', h.alike, htotal]

theorem cutAlike_iff (encrypt : PacketSpec → Bytes → Except String Bytes) (fullHash : Bytes → Hash)
    (constructed sender receiver : LinkState) (randomHash stream : Bytes) (hne : stream ≠ []) :
    (∃ sliced, slice encrypt fullHash sender (resourceSdu constructed) randomHash stream = .ok sliced
        ∧ CutAlike fullHash randomHash stream (resourceSdu constructed) receiver sliced)
      ↔ Fits stream.length (resourceSdu constructed).toNat (resourceSdu receiver).toNat sender.mtu.toNat :=
  ⟨fun ⟨_, hslice, hcut⟩ => fits_of_cutAlike hne hslice hcut, cutAlike_of_fits⟩

end BothEnds

/-! ## Every stream -/

section EveryStream

variable {l : LinkState} {s s' mtu : Nat}

theorem resourceSdu_inactive (h : l.status ≠ .active) : (resourceSdu l).toNat = reticulumMdu := by
  simp only [resourceSdu, getMtu, getMdu, if_neg h]
  decide

theorem resourceSdu_active (h : l.status = .active) (hmtu : 36 < l.mtu.toNat) :
    (resourceSdu l).toNat = l.mtu.toNat - 36 := by
  have hne : l.mtu ≠ 0 := by
    intro h0
    rw [h0] at hmtu
    exact absurd hmtu (by decide)
  have hbound := l.mtu.toNat_lt
  simp only [resourceSdu, getMtu, if_pos h, if_pos hne, headerMaxsize, ifacMinSize]
  rw [show ((l.mtu.toNat : Int) - ((2 + 1 + 16 * 2 : Nat) : Int) - ((1 : Nat) : Int))
    = ((l.mtu.toNat - 36 : Nat) : Int) by omega]
  simp [UInt16.ofInt, UInt16.toNat_ofNat']
  omega

/-- An MTU that leaves no room for the header gives no size, or one that is far too long. -/
theorem resourceSdu_wraps (h : l.status = .active) (hmtu : l.mtu ≠ 0) (hshort : l.mtu.toNat ≤ 36) :
    (resourceSdu l).toNat = 0 ∨ reticulumMdu < (resourceSdu l).toNat := by
  simp only [resourceSdu, getMtu, if_pos h, if_pos hmtu, headerMaxsize, ifacMinSize]
  generalize l.mtu.toNat = m at hshort
  interval_cases m <;> decide

/-- Parts of one size, short enough, fit whatever the stream. -/
theorem fits_same (hs : 0 < s) (hmdu : s ≤ reticulumMdu) (hpacks : headerMinsize + s ≤ mtu) {n : Nat}
    (hn : n < 2 ^ 32) : Fits n s s mtu := by
  have hceil : (n + s - 1) / s ≤ n := parts_le_length hs (Nat.le_mul_of_pos_right n hs)
  exact ⟨hs, by omega, by omega, by omega, hs, Nat.mod_eq_of_lt (by omega)⟩

/-- Streams of any length show the bounds on the size of a part. -/
theorem bounds_of_fits (h : ∀ n, 0 < n → n < 2 ^ 32 → Fits n s s' mtu) :
    0 < s ∧ s ≤ reticulumMdu ∧ headerMinsize + s ≤ mtu ∧ 0 < s' := by
  have hlong := h (reticulumMdu + 1) (by decide) (by decide)
  have huncut := hlong.uncut
  have hpacks := hlong.packs
  exact ⟨hlong.nonzero, by omega, by omega, hlong.nonzero'⟩

/-- Sizes that count alike for every stream are equal. -/
theorem same_of_fits (h : ∀ n, 0 < n → n < 2 ^ 32 → Fits n s s' mtu) : s = s' := by
  obtain ⟨hs, hmdu, -, hs'⟩ := bounds_of_fits h
  have hsmall : s ≤ 464 := hmdu
  have hone : ∀ {k : Nat}, 0 < k → (k + k - 1) / k = 1 := by
    intro k hk
    have hle := parts_le_length hk (show k ≤ 1 * k by omega)
    have hge : k ≤ (k + k - 1) / k * k := length_le_parts hk
    generalize (k + k - 1) / k = c at hle hge ⊢
    interval_cases c <;> omega
  -- a stream of one part of the sender's is one part of the receiver's
  have hle : s ≤ s' := by
    have hcount := (h s hs (by omega)).alike
    have hbound := parts_le_length hs' (Nat.le_mul_of_pos_right s hs')
    rw [hone hs, Nat.mod_eq_of_lt (by omega)] at hcount
    have hge : s ≤ (s + s' - 1) / s' * s' := length_le_parts hs'
    rw [hcount] at hge
    omega
  -- and one more byte takes both a second one
  refine Nat.le_antisymm hle (Nat.not_lt.mp fun hlt => ?_)
  have hcount := (h (s + 1) (by omega) (by omega)).alike
  have htwo : (s + 1 + s - 1) / s = 2 := by
    rw [show s + 1 + s - 1 = 2 * s by omega, Nat.mul_div_cancel _ hs]
  have hbound := parts_le_length hs' (show s + 1 ≤ 1 * s' by omega)
  rw [htwo, Nat.mod_eq_of_lt (by omega)] at hcount
  omega

end EveryStream

/-- Two ends that are not active take the default size whatever the MTU, so an MTU above the default one
does them no harm. Ends that differ only agree at the default one. -/
theorem cutAlike_always_iff (encrypt : PacketSpec → Bytes → Except String Bytes) (fullHash : Bytes → Hash)
    (constructed sender receiver : LinkState) (randomHash : Bytes)
    (hmtu : constructed.mtu = sender.mtu) (hmtu' : receiver.mtu = sender.mtu) :
    (∀ stream : Bytes, stream ≠ [] → stream.length < 2 ^ 32 →
      ∃ sliced, slice encrypt fullHash sender (resourceSdu constructed) randomHash stream = .ok sliced
        ∧ CutAlike fullHash randomHash stream (resourceSdu constructed) receiver sliced)
      ↔ (constructed.status = .active ∧ receiver.status = .active ∧ 36 < sender.mtu.toNat
            ∧ sender.mtu.toNat ≤ 500)
        ∨ (constructed.status ≠ .active ∧ receiver.status ≠ .active ∧ 483 ≤ sender.mtu.toNat)
        ∨ sender.mtu.toNat = 500 := by
  constructor
  · intro hall
    have hfits : ∀ n, 0 < n → n < 2 ^ 32 →
        Fits n (resourceSdu constructed).toNat (resourceSdu receiver).toNat sender.mtu.toNat := by
      intro n hn hlt
      obtain ⟨sliced, hslice, hcut⟩ := hall (List.replicate n 0)
        (List.ne_nil_of_length_pos (by rw [List.length_replicate]; exact hn))
        (by rw [List.length_replicate]; exact hlt)
      have := fits_of_cutAlike (List.ne_nil_of_length_pos (by rw [List.length_replicate]; exact hn)) hslice hcut
      rwa [List.length_replicate] at this
    obtain ⟨hs, hmdu, hpacks, -⟩ := bounds_of_fits hfits
    have hsame := same_of_fits hfits
    have hheader : headerMinsize = 19 := rfl
    -- a size that is neither zero nor too long did not wrap around
    have hactive : ∀ {l : LinkState}, l.mtu = sender.mtu → l.status = .active →
        (resourceSdu l).toNat = (resourceSdu constructed).toNat →
        36 < sender.mtu.toNat ∧ (resourceSdu l).toNat = sender.mtu.toNat - 36 := by
      intro l hl hstatus hsize
      have hne : l.mtu ≠ 0 := by
        intro h0
        rw [← hl, h0] at hpacks
        exact absurd hpacks (by simp [headerMinsize])
      have hroom : 36 < l.mtu.toNat := by
        refine Nat.not_le.mp fun hshort => ?_
        obtain h | h := resourceSdu_wraps hstatus hne hshort <;> omega
      rw [← hl]
      exact ⟨hroom, resourceSdu_active hstatus hroom⟩
    rw [show reticulumMdu = 464 from rfl] at hmdu
    by_cases hc : constructed.status = .active <;> by_cases hr : receiver.status = .active
    · obtain ⟨hroom, hsize⟩ := hactive hmtu hc rfl
      exact .inl ⟨hc, hr, hroom, by omega⟩
    · obtain ⟨hroom, hsize⟩ := hactive hmtu hc rfl
      have hdefault := resourceSdu_inactive hr
      rw [show reticulumMdu = 464 from rfl] at hdefault
      exact .inr (.inr (by omega))
    · obtain ⟨hroom, hsize⟩ := hactive hmtu' hr hsame.symm
      have hdefault := resourceSdu_inactive hc
      rw [show reticulumMdu = 464 from rfl] at hdefault
      exact .inr (.inr (by omega))
    · have hdefault := resourceSdu_inactive hc
      rw [show reticulumMdu = 464 from rfl] at hdefault
      exact .inr (.inl ⟨hc, hr, by omega⟩)
  · intro hlinks stream _ hlt
    have hmdu : reticulumMdu = 464 := rfl
    have hheader : headerMinsize = 19 := rfl
    apply cutAlike_of_fits
    have hdefault : ∀ {l : LinkState}, l.status ≠ .active → (resourceSdu l).toNat = 464 :=
      fun h => resourceSdu_inactive h
    obtain ⟨hc, hr, hroom, hshort⟩ | ⟨hc, hr, hroom⟩ | hstandard := hlinks
    · rw [resourceSdu_active hc (by rwa [hmtu]), resourceSdu_active hr (by rwa [hmtu']), hmtu, hmtu']
      exact fits_same (by omega) (by rw [hmdu]; omega) (by rw [hheader]; omega) hlt
    · rw [hdefault hc, hdefault hr]
      exact fits_same (by omega) (by rw [hmdu]) (by rw [hheader]; omega) hlt
    · have hsize : ∀ {l : LinkState}, l.mtu = sender.mtu → (resourceSdu l).toNat = 464 := by
        intro l hl
        by_cases h : l.status = .active
        · rw [resourceSdu_active h (by rw [hl]; omega), hl, hstandard]
        · exact hdefault h
      rw [hsize hmtu, hsize hmtu', hstandard]
      exact fits_same (by decide) (by decide) (by decide) hlt

/-- The two ends of a transfer cut a stream alike exactly when the first part is neither cut by the packet
constructor nor too long for the link, and both sizes give the same count. They cut every stream alike
exactly when both are active and the MTU is at most the default one, or none is active and it leaves room
for a part of the default size, or it is the default one. -/
theorem cut_alike_iff (encrypt : PacketSpec → Bytes → Except String Bytes) (fullHash : Bytes → Hash)
    (constructed sender receiver : LinkState) (randomHash : Bytes)
    (hmtu : constructed.mtu = sender.mtu) (hmtu' : receiver.mtu = sender.mtu) :
    (∀ stream : Bytes, stream ≠ [] →
      ((∃ sliced, slice encrypt fullHash sender (resourceSdu constructed) randomHash stream = .ok sliced
          ∧ CutAlike fullHash randomHash stream (resourceSdu constructed) receiver sliced)
        ↔ Fits stream.length (resourceSdu constructed).toNat (resourceSdu receiver).toNat sender.mtu.toNat))
    ∧ ((∀ stream : Bytes, stream ≠ [] → stream.length < 2 ^ 32 →
        ∃ sliced, slice encrypt fullHash sender (resourceSdu constructed) randomHash stream = .ok sliced
          ∧ CutAlike fullHash randomHash stream (resourceSdu constructed) receiver sliced)
      ↔ (constructed.status = .active ∧ receiver.status = .active ∧ 36 < sender.mtu.toNat
            ∧ sender.mtu.toNat ≤ 500)
        ∨ (constructed.status ≠ .active ∧ receiver.status ≠ .active ∧ 483 ≤ sender.mtu.toNat)
        ∨ sender.mtu.toNat = 500) :=
  ⟨cutAlike_iff encrypt fullHash constructed sender receiver randomHash,
    cutAlike_always_iff encrypt fullHash constructed sender receiver randomHash hmtu hmtu'⟩

/-- A link of the given state and MTU. -/
def linkWith (status : Status) (mtu : UInt16) : LinkState :=
  { initiator := true, status, mtu, linkId := List.Vector.replicate 16 7, prv := [], pubBytes := []
    sigPrv := [], sigPubBytes := [] }

/-- A responder that still waits for the round trip time counts like the active initiator at the default
MTU. -/
theorem cut_alike_iff_handshake :
    ∃ sliced, slice prefixEncrypt (fun _ => List.Vector.replicate 32 0) (linkWith .active 500)
        (resourceSdu (linkWith .active 500)) [1, 2, 3, 4] (List.replicate 1000 0) = .ok sliced
      ∧ CutAlike (fun _ => List.Vector.replicate 32 0) [1, 2, 3, 4] (List.replicate 1000 0)
          (resourceSdu (linkWith .active 500)) (linkWith .handshake 500) sliced :=
  (cut_alike_iff prefixEncrypt (fun _ => List.Vector.replicate 32 0) (linkWith .active 500)
    (linkWith .active 500) (linkWith .handshake 500) [1, 2, 3, 4] rfl rfl).2.mpr
    (.inr (.inr (by decide))) (List.replicate 1000 0) (List.ne_nil_of_length_eq_add_one List.length_replicate)
    (by rw [List.length_replicate]; decide)

/-- Over an active link with an MTU of 1064, a part of 1008 bytes loses 544 of them. -/
theorem long_parts_cut :
    ¬ ∃ sliced, slice prefixEncrypt (fun _ => List.Vector.replicate 32 0) (linkWith .active 1064)
        (resourceSdu (linkWith .active 1064)) [1, 2, 3, 4] (List.replicate 1008 0) = .ok sliced
      ∧ CutAlike (fun _ => List.Vector.replicate 32 0) [1, 2, 3, 4] (List.replicate 1008 0)
          (resourceSdu (linkWith .active 1064)) (linkWith .active 1064) sliced := by
  rintro ⟨sliced, hslice, hcut⟩
  have huncut := (fits_of_cutAlike (List.ne_nil_of_length_eq_add_one List.length_replicate) hslice
    hcut).uncut
  rw [List.length_replicate] at huncut
  exact absurd huncut (by decide)

end MicroReticulum.Resource
