import MicroReticulum.Link.Receive

/-!
# Advertisements round trip

An advertisement is packed once for each segment of the hashmap, and of a segment the other end reads the
whole record back: the numbers through a cast to 64 bits and another one to the width of the field, the
booleans through the flag byte, and of the hashmap the entries of the segment.

The number of a segment has 16 bits. What is behind the last segment such a number names, no advertisement
carries; the constants leave room for much less.

Hashmaps longer than a segment come in parts, and that the parts are asked for in turn is
proved with the receiver.
-/

namespace MicroReticulum.Resource

open MicroReticulum Packet Link

/-- The entries of the parts from `i` on. -/
def entriesFrom (hashmap : Bytes) (i count : Nat) : Bytes := (List.range' i count).flatMap (mapHashAt hashmap)

/-- The hashmap has an entry for each part. -/
def ResourceData.Mapped (r : ResourceData) : Prop := r.hashmap.length = r.parts.length * maphashLen

/-! ## Entries -/

theorem midLen_eq_entriesFrom (hashmap : Bytes) (i count : Nat) :
    hashmap.midLen (i * maphashLen) (count * maphashLen) = entriesFrom hashmap i count := by
  induction count with
  | zero => simp [entriesFrom, Bytes.midLen]
  | succ count ih =>
    have hstep : entriesFrom hashmap i (count + 1)
        = entriesFrom hashmap i count ++ mapHashAt hashmap (i + count) := by
      unfold entriesFrom
      rw [List.range'_concat, List.flatMap_append, List.flatMap_singleton, Nat.one_mul]
    rw [hstep, ← ih]
    unfold mapHashAt Bytes.midLen
    rw [Nat.add_mul, Nat.one_mul, List.take_add, List.drop_drop, Nat.add_mul]

theorem entriesFrom_append (hashmap : Bytes) (i m n : Nat) :
    entriesFrom hashmap i m ++ entriesFrom hashmap (i + m) n = entriesFrom hashmap i (m + n) := by
  unfold entriesFrom
  rw [← List.flatMap_append, List.range'_append_1]

/-- As many entries as there are parts are the hashmap. -/
theorem entriesFrom_all {hashmap : Bytes} {n : Nat} (h : hashmap.length = n * maphashLen) :
    entriesFrom hashmap 0 n = hashmap := by
  rw [← midLen_eq_entriesFrom, ← h]
  simp [Bytes.midLen]

namespace Advertisement

/-! ## Fields -/

/-- A number below 2^64 survives the cast of the reader. -/
theorem readUint_int {n : Nat} (h : n < 2 ^ 64) (rest : List Library.Token) :
    readUint (.int n :: rest) = (n, rest) := by
  have hcast : (Int64.ofInt n).toUInt64.toNat = n := by
    show (BitVec.ofInt 64 n).toNat = n
    rw [BitVec.toNat_ofInt]
    omega
  exact congrArg (·, rest) hcast

theorem flags_expand : ∀ x p u s c e : Bool,
    let f := flag x 5 ||| flag p 4 ||| flag u 3 ||| flag s 2 ||| flag c 1 ||| flag e 0
    hasFlag f 0 = e ∧ hasFlag f 1 = c ∧ hasFlag f 2 = s ∧ hasFlag f 3 = u ∧ hasFlag f 4 = p
      ∧ hasFlag f 5 = x := by
  decide

/-- The booleans of a resource are the ones of its flag byte. -/
theorem ofResource_deriveFlags (r : ResourceData) : (ofResource r).deriveFlags = ofResource r := by
  obtain ⟨he, hc, hs, hu, hp, hx⟩ := flags_expand r.hasMetadata (r.requestId ≠ [] ∧ r.isResponse)
    (r.requestId ≠ [] ∧ ¬ r.isResponse) r.split r.compressed r.encrypted
  unfold deriveFlags ofResource
  simp only [he, hc, hs, hu, hp, hx]

/-- What is read of a segment is the record, with the entries of the segment for its hashmap. -/
theorem unpack_pack_segment {a : Advertisement} (ht : a.t < 2 ^ 64) (hd : a.d < 2 ^ 64)
    (hflags : a.deriveFlags = a) (segment : UInt16) :
    unpack (a.pack segment) = { a with m := a.segmentEntries segment } := by
  have hn := readUint_int (show a.n.toNat < 2 ^ 64 by have := a.n.toNat_lt; omega)
  have hi := readUint_int (show a.i.toNat < 2 ^ 64 by have := a.i.toNat_lt; omega)
  have hl := readUint_int (show a.l.toNat < 2 ^ 64 by have := a.l.toNat_lt; omega)
  have hf := readUint_int (show a.f.toNat < 2 ^ 64 by have := a.f.toNat_lt; omega)
  have hbooleans : deriveFlags { a with m := a.segmentEntries segment }
      = { a with m := a.segmentEntries segment } := by
    conv_rhs => rw [← hflags]
    rfl
  rw [← hbooleans]
  by_cases hq : a.q = []
  · simp [hq, pack, unpack, unpackEntries, unpackEntry, key, letter, readUint_int ht, readUint_int hd, hn, hi,
      hl, hf, readBin, deriveFlags]
  · simp [hq, pack, unpack, unpackEntries, unpackEntry, key, letter, readUint_int ht, readUint_int hd, hn, hi,
      hl, hf, readBin, deriveFlags]

/-! ## Segments -/

/-- The entries of a segment are those of its parts, and the last segment ends with the last part. -/
theorem segmentEntries_eq {a : Advertisement} (h : a.n.toNat * maphashLen ≤ a.m.length) (segment : UInt16) :
    a.segmentEntries segment = entriesFrom a.m (segment.toNat * hashmapMaxLen)
      (min ((segment.toNat + 1) * hashmapMaxLen) a.n.toNat - segment.toNat * hashmapMaxLen) := by
  unfold segmentEntries
  simp only
  by_cases hlt : segment.toNat * hashmapMaxLen < min ((segment.toNat + 1) * hashmapMaxLen) a.n.toNat
  · have hroom : min ((segment.toNat + 1) * hashmapMaxLen) a.n.toNat * maphashLen ≤ a.m.length :=
      (Nat.mul_le_mul_right _ (Nat.min_le_right _ _)).trans h
    rw [if_pos ⟨hroom, hlt⟩, midLen_eq_entriesFrom]
  · rw [if_neg fun hboth => hlt hboth.2, Nat.sub_eq_zero_of_le (Nat.not_lt.mp hlt)]
    rfl

/-- The first segments carry the first entries. -/
theorem segments_concat {a : Advertisement} (h : a.n.toNat * maphashLen ≤ a.m.length) {k : Nat}
    (hk : k ≤ 2 ^ 16) :
    ((List.range k).flatMap fun s => a.segmentEntries (UInt16.ofNat s))
      = entriesFrom a.m 0 (min (k * hashmapMaxLen) a.n.toNat) := by
  induction k with
  | zero => simp [entriesFrom]
  | succ k ih =>
    have hnat : (UInt16.ofNat k).toNat = k := by
      rw [UInt16.toNat_ofNat']
      omega
    rw [List.range_succ, List.flatMap_append, List.flatMap_singleton, ih (by omega), segmentEntries_eq h, hnat]
    -- a segment behind the last part has no entries
    by_cases hbehind : a.n.toNat ≤ k * hashmapMaxLen
    · have hnext : a.n.toNat ≤ (k + 1) * hashmapMaxLen := hbehind.trans (Nat.mul_le_mul_right _ (by omega))
      rw [Nat.min_eq_right hbehind, Nat.min_eq_right hnext, Nat.sub_eq_zero_of_le hbehind]
      exact List.append_nil _
    · have hstart : k * hashmapMaxLen ≤ min ((k + 1) * hashmapMaxLen) a.n.toNat :=
        le_min (Nat.mul_le_mul_right _ (by omega)) (by omega)
      have hjoin := entriesFrom_append a.m 0 (k * hashmapMaxLen)
        (min ((k + 1) * hashmapMaxLen) a.n.toNat - k * hashmapMaxLen)
      rw [Nat.zero_add, Nat.add_sub_cancel' hstart] at hjoin
      rw [Nat.min_eq_left (by omega), hjoin]

end Advertisement

/-- An advertisement of a resource is read back as it was, with the entries of the segment for its hashmap. As
many segments as there are, if their numbers fit, carry the hashmap from end to end. -/
theorem advertisement_round_trip (env env' : Env) (r : ResourceData) (hsize : r.size < 2 ^ 64)
    (htotal : r.totalSize < 2 ^ 64) (hmapped : r.Mapped)
    (hcodec : ∀ segment, env'.decode (env.encode ((Advertisement.ofResource r).pack segment))
      = (Advertisement.ofResource r).pack segment) :
    let a := Advertisement.ofResource r
    let read := fun segment => Advertisement.unpack (env'.decode (env.encode (a.pack segment)))
    (∀ segment : UInt16, read segment =
      { a with
        m := entriesFrom r.hashmap (segment.toNat * hashmapMaxLen)
          (min ((segment.toNat + 1) * hashmapMaxLen) a.n.toNat - segment.toNat * hashmapMaxLen) })
    ∧ ∀ k ≤ 2 ^ 16, r.parts.length ≤ k * hashmapMaxLen →
      ((List.range k).flatMap fun segment => (read (UInt16.ofNat segment)).m) = r.hashmap := by
  intro a read
  have hcount : a.n.toNat ≤ r.parts.length := by
    show (UInt32.ofNat r.parts.length).toNat ≤ _
    rw [UInt32.toNat_ofNat']
    exact Nat.mod_le _ _
  have hroom : a.n.toNat * maphashLen ≤ a.m.length := by
    rw [show a.m.length = r.parts.length * maphashLen from hmapped]
    exact Nat.mul_le_mul_right _ hcount
  have hread : ∀ segment, read segment = { a with m := a.segmentEntries segment } := by
    intro segment
    simp only [read, a, hcodec]
    exact Advertisement.unpack_pack_segment hsize htotal (Advertisement.ofResource_deriveFlags r) segment
  refine ⟨fun segment => ?_, fun k hk hparts => ?_⟩
  · rw [hread, Advertisement.segmentEntries_eq hroom]
    rfl
  · have hwhole : a.n.toNat = r.parts.length := by
      show (UInt32.ofNat r.parts.length).toNat = _
      rw [UInt32.toNat_ofNat', Nat.mod_eq_of_lt]
      have hmax : hashmapMaxLen = 74 := rfl
      rw [hmax] at hparts
      omega
    simp only [hread]
    rw [Advertisement.segments_concat hroom hk, hwhole, Nat.min_eq_right hparts]
    exact entriesFrom_all hmapped

namespace Sample

/-- A resource of two parts. -/
def twoParts : ResourceData where
  initiator := true
  encrypted := true
  hash := List.replicate 32 1
  originalHash := List.replicate 32 1
  randomHash := [5, 5, 5, 5]
  requestId := [9]
  size := 100
  totalSize := 90
  parts := List.replicate 2 { packet := Link.Sample.arrived ContextType.resource [1] }
  hashmap := [1, 2, 3, 4, 5, 6, 7, 8]

def digest (_ : Bytes) : Hash := List.Vector.replicate 32 0

/-- Its advertisement has small objects only. -/
theorem twoParts_decoded (segment : UInt16) :
    (Link.Sample.plainEnv digest).decode
        ((Link.Sample.plainEnv digest).encode ((Advertisement.ofResource twoParts).pack segment))
      = (Advertisement.ofResource twoParts).pack segment := by
  by_cases hfirst : segment = 0
  · rw [hfirst]
    decide +kernel
  · have hlater : 1 ≤ segment.toNat := Nat.pos_of_ne_zero fun h0 => hfirst (UInt16.toNat_inj.mp h0)
    have hempty : (Advertisement.ofResource twoParts).segmentEntries segment = [] := by
      refine if_neg fun hboth => ?_
      have hend : (Advertisement.ofResource twoParts).n.toNat = 2 := rfl
      have hmax : hashmapMaxLen = 74 := rfl
      have hstart := hboth.2
      simp only [hend, hmax] at hstart
      omega
    unfold Advertisement.pack
    rw [hempty]
    decide +kernel

end Sample

theorem advertisement_round_trip_two_parts :
    (Advertisement.unpack ((Link.Sample.plainEnv Sample.digest).decode
        ((Link.Sample.plainEnv Sample.digest).encode ((Advertisement.ofResource Sample.twoParts).pack 0)))).t = 100
    ∧ ((List.range 1).flatMap fun segment => (Advertisement.unpack ((Link.Sample.plainEnv Sample.digest).decode
        ((Link.Sample.plainEnv Sample.digest).encode
          ((Advertisement.ofResource Sample.twoParts).pack (UInt16.ofNat segment))))).m)
      = [1, 2, 3, 4, 5, 6, 7, 8] := by
  obtain ⟨hread, hwhole⟩ := advertisement_round_trip (Link.Sample.plainEnv Sample.digest)
    (Link.Sample.plainEnv Sample.digest) Sample.twoParts (by decide) (by decide) rfl Sample.twoParts_decoded
  exact ⟨congrArg Advertisement.t (hread 0), hwhole 1 (by decide) (by decide)⟩

end MicroReticulum.Resource
