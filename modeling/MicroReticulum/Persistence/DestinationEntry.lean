import MicroReticulum.Announce.Provenance
import MicroReticulum.Library.MsgPackValues
import MicroReticulum.Transport.Lock

/-!
# Persisted paths

The record of a path is a `MsgPack` array of seven fields. `encode` writes it and `decode` reads it back, after a
restart, when the interface of the path is looked up by its hash and the announce packet is unpacked again.
`decode_encode` says what comes back, and `decode_cut` that nothing does of a record whose end is missing.

The packet comes back with one hop more than its raw bytes have. This is how `inbound` counts what comes from
other nodes. What came over an interface to a shared instance is not counted there, and is one hop further away
after the restart.

The path table of `Transport` keeps `StoredPath`, in which the fields are not bytes yet; `decode_refines` says that
the record amounts to it.
-/

namespace MicroReticulum.Persistence

open MicroReticulum Packet Library Transport

/-! ## Entries -/

/-- `_announce_packet`: its bytes, what was unpacked of them, and where it came from. -/
structure AnnouncePacket where
  raw : Bytes
  /-- the fields, where they have been unpacked -/
  unpacked : Option Packet := none
  receivingInterface : Option Interface := none

/-- `DestinationEntry` -/
structure DestinationEntry where
  timestamp : Double := .fin 0
  receivedFrom : Bytes := []
  hops : UInt8 := 0
  expires : Double := .fin 0
  randomBlobs : List Bytes := []
  receivingInterface : Option Interface := none
  announcePacket : Option AnnouncePacket := none

/-- `operator bool` -/
def DestinationEntry.valid (e : DestinationEntry) : Bool := e.receivingInterface.isSome && e.announcePacket.isSome

section Codec

variable (lib : Packing Token) (getHash : Interface → Bytes) (s : TransportState)

/-! ## Writing -/

/-- The fields of a record. -/
def recordOf (e : DestinationEntry) (i : Interface) (a : AnnouncePacket) : List Token :=
  let randomBlobs := lastOf persistRandomBlobs e.randomBlobs
  [.arr 7, .float e.timestamp, .int e.hops.toNat, .float e.expires, .bin e.receivedFrom,
    .arr randomBlobs.length] ++ randomBlobs.map .bin ++ [.bin (getHash i), .bin a.raw]

/-- `encode`; an entry that is not valid has no record. -/
def encode (e : DestinationEntry) : Bytes :=
  match e.receivingInterface, e.announcePacket with
  | some i, some a => lib.packAll (recordOf getHash e i a)
  | _, _ => []

/-! ## Reading

Each of these looks at the next value of the unpacker. A record that was written by `encode` has no value of
another type there, whole or cut short. -/

/-- `isArray`, `unpackArraySize` -/
def arraySize : Decoder Token Nat
  | .arr n :: c => some (n, c)
  | _ => none

def deserializeDouble : Decoder Token Double
  | .float d :: c => some (d, c)
  | _ => none

def deserializeUInt8 : Decoder Token UInt8
  | .int v :: c => if 0 ≤ v ∧ v < 256 then some (UInt8.ofNat v.toNat, c) else none
  | _ => none

/-- `deserialize` of a `bin_t` -/
def deserializeBin : Decoder Token Bytes
  | .bin b :: c => some (b, c)
  | _ => none

/-- `Transport::find_interface_from_hash`, from the bytes of the hash -/
def findInterfaceFromHash (hash : Bytes) : Option Interface := s.interfaces.find? fun i => getHash i = hash

/-- The announce packet of a record: it is unpacked, and counted as received once already. -/
def rehydrate (receivingInterface : Option Interface) (a : AnnouncePacket) : AnnouncePacket :=
  match unpack a.raw with
  | some p => { a with unpacked := some { p with hops := p.hops + 1 }, receivingInterface }
  | none => { a with receivingInterface }

/-- The fields of a record, one after the other. -/
def readEntry (entry : DestinationEntry) : Decoder Token DestinationEntry := do
  let n ← arraySize
  guard (7 ≤ n)
  let timestamp ← deserializeDouble
  let hops ← deserializeUInt8
  let expires ← deserializeDouble
  let receivedFrom ← deserializeBin
  let count ← arraySize
  let randomBlobs ← deserializeBin.times count
  let interfaceHash ← deserializeBin
  let packetData ← deserializeBin
  let receivingInterface := findInterfaceFromHash getHash s interfaceHash
  -- an empty packet leaves the one that is there
  let announcePacket := if packetData = [] then entry.announcePacket else some { raw := packetData }
  pure
    { timestamp, receivedFrom, hops, expires, randomBlobs, receivingInterface
      announcePacket := announcePacket.map (rehydrate receivingInterface) }

/-- `decode`, into an entry; `none` for false. A receiving interface that is not registered is only warned of. -/
def decode (data : Bytes) (entry : DestinationEntry) : Option DestinationEntry :=
  if data = [] then none else (readEntry getHash s entry (lib.unpack data)).map Prod.fst

end Codec

/-! ## Records that are read back -/

section Reads

theorem arraySize_reads (n : Nat) : Decoder.Reads arraySize [.arr n] n := .one (fun _ => rfl) rfl

theorem deserializeDouble_reads (d : Double) : Decoder.Reads deserializeDouble [.float d] d := .one (fun _ => rfl) rfl

theorem deserializeUInt8_reads (n : UInt8) : Decoder.Reads deserializeUInt8 [.int n.toNat] n := by
  refine .one (fun rest => ?_) rfl
  have hlt := n.toNat_lt
  have hback : UInt8.ofNat ((n.toNat : Int).toNat) = n := by rw [Int.toNat_natCast, UInt8.ofNat_toNat]
  unfold deserializeUInt8
  dsimp only
  rw [if_pos ⟨Int.natCast_nonneg _, by omega⟩, hback]

theorem deserializeBin_reads (b : Bytes) : Decoder.Reads deserializeBin [.bin b] b := .one (fun _ => rfl) rfl

variable {getHash : Interface → Bytes} {s : TransportState}

/-- The entry that a record comes to. -/
def restored (getHash : Interface → Bytes) (s : TransportState) (old e : DestinationEntry) (i : Interface)
    (a : AnnouncePacket) : DestinationEntry :=
  let receivingInterface := findInterfaceFromHash getHash s (getHash i)
  { timestamp := e.timestamp
    receivedFrom := e.receivedFrom
    hops := e.hops
    expires := e.expires
    randomBlobs := lastOf persistRandomBlobs e.randomBlobs
    receivingInterface
    announcePacket :=
      (if a.raw = [] then old.announcePacket else some { raw := a.raw }).map (rehydrate receivingInterface) }

theorem readEntry_reads (old e : DestinationEntry) (i : Interface) (a : AnnouncePacket) :
    Decoder.Reads (readEntry getHash s old) (recordOf getHash e i a) (restored getHash s old e i a) := by
  let blobs := lastOf persistRandomBlobs e.randomBlobs
  have hblobs : Decoder.Reads (deserializeBin.times blobs.length) (blobs.map Token.bin) blobs := by
    rw [List.map_eq_flatMap]
    exact Decoder.Reads.times fun b _ => deserializeBin_reads b
  have hrecord : recordOf getHash e i a
      = [.arr 7] ++ ([] ++ ([.float e.timestamp] ++ ([.int e.hops.toNat] ++ ([.float e.expires] ++
        ([.bin e.receivedFrom] ++ ([.arr blobs.length] ++ (blobs.map Token.bin ++
          ([.bin (getHash i)] ++ ([.bin a.raw] ++ []))))))))) := by
    simp only [recordOf, List.cons_append, List.nil_append]
    rfl
  rw [hrecord]
  refine (arraySize_reads 7).bind ?_
  refine Decoder.Reads.bind (a := ()) (.pure ()) ?_
  refine (deserializeDouble_reads e.timestamp).bind ?_
  refine (deserializeUInt8_reads e.hops).bind ?_
  refine (deserializeDouble_reads e.expires).bind ?_
  refine (deserializeBin_reads e.receivedFrom).bind ?_
  refine (arraySize_reads blobs.length).bind ?_
  refine hblobs.bind ?_
  refine (deserializeBin_reads (getHash i)).bind ?_
  refine (deserializeBin_reads a.raw).bind ?_
  exact .pure _

/-- The values of the record have a form: the times are doubles, and no string has 2^32 bytes. -/
def Storable (getHash : Interface → Bytes) (e : DestinationEntry) : Prop :=
  ∀ i a, e.receivingInterface = some i → e.announcePacket = some a →
    ∀ t ∈ recordOf getHash e i a, MsgPack.Packable t

variable {lib : Packing Token} (hlib : lib.Lawful MsgPack.Packable) {e : DestinationEntry} {i : Interface}
  {a : AnnouncePacket} (hi : e.receivingInterface = some i) (ha : e.announcePacket = some a)
  (hfits : Storable getHash e)

include hi ha in
theorem encode_eq : encode lib getHash e = lib.packAll (recordOf getHash e i a) := by
  unfold encode
  rw [hi, ha]

include hlib hi ha hfits

theorem decode_encode (old : DestinationEntry) :
    decode lib getHash s (encode lib getHash e) old = some (restored getHash s old e i a) := by
  have hrecord := hfits i a hi ha
  have hne : lib.packAll (recordOf getHash e i a) ≠ [] :=
    fun hnil => hlib.pack_ne_nil (.arr 7) (hrecord _ List.mem_cons_self) (List.append_eq_nil_iff.mp hnil).1
  have hreads : Decoder.Reads (readEntry getHash s old) (recordOf getHash e i a) _ := readEntry_reads old e i a
  have hread := hreads.whole []
  rw [List.append_nil] at hread
  rw [encode_eq hi ha]
  unfold decode
  rw [if_neg hne, hlib.unpack_packAll hrecord, hread]
  rfl

/-- Nothing comes back of a record whose end is missing. -/
theorem decode_cut {data : Bytes} (hdata : data <+: encode lib getHash e) (hne : data ≠ encode lib getHash e)
    (old : DestinationEntry) : decode lib getHash s data old = none := by
  rw [encode_eq hi ha] at hdata hne
  obtain ⟨hpre, hfewer⟩ := hlib.unpack_cut (hfits i a hi ha) hdata hne
  have hreads : Decoder.Reads (readEntry getHash s old) (recordOf getHash e i a) _ := readEntry_reads old e i a
  unfold decode
  split
  · rfl
  · rw [hreads.cut _ hpre hfewer]
    rfl

end Reads

/-! ## Paths that were learned -/

/-- What `inbound` stores of the announce `raw` that came in over `i`. -/
structure Learned (s : TransportState) (i : Interface) (raw : Bytes) (p : Packet) (e : DestinationEntry) : Prop where
  unpacks : unpack raw = some p
  interface : e.receivingInterface = some i
  announce : e.announcePacket
    = some { raw, unpacked := some { p with hops := arrivalHops s i p.hops }, receivingInterface := some i }

/-- The entry of a path in the table. -/
def ofPath (d : Transport.DestinationEntry) : DestinationEntry where
  timestamp := .fin d.timestamp
  receivedFrom := d.receivedFrom.toList
  hops := d.hops
  expires := .fin d.expires
  randomBlobs := d.randomBlobs
  receivingInterface := some d.receivingInterface
  announcePacket := some
    { raw := d.announcePacket.raw, unpacked := some d.announcePacket, receivingInterface := some d.receivingInterface }

/-- The path that `inbound` stores is learned from the bytes that came in. -/
theorem learned_of_arrive {raw : Bytes} {i : Interface} {s t : TransportState} {a : Arrived}
    (h : arrive raw (some i) s = (.value a, t)) (env : Environment) (blobs : List Bytes) :
    ∃ p, Learned s i raw p (ofPath (announcedPath env a.packet a.receivingInterface blobs)) := by
  cases hrunning : s.jobsRunning with
  | true =>
    unfold arrive at h
    rw [Prog.bind_run, waitForJobs_waits hrunning] at h
    cases h
  | false =>
    cases hidentity : s.identity with
    | none =>
      unfold arrive at h
      rw [Prog.bind_value (waitForJobs_run hrunning), Prog.get_bind_run, hidentity] at h
      cases h
    | some identity =>
      obtain ⟨hdrop, hrun, -⟩ := arrive_run hrunning hidentity raw (some i)
      cases hunpack : unpack raw with
      | none =>
        rw [hdrop hunpack] at h
        cases h
      | some p =>
        rw [hrun _ (arrivedPacket_some hidentity hunpack i)] at h
        cases h
        have hraw : p.raw = raw := (unpack_sound hunpack).2.1
        refine ⟨p, hunpack, rfl, ?_⟩
        rw [← hraw]
        rfl

/-- The record of a path amounts to what the path table keeps of it. -/
theorem decode_refines {lib : Packing Token} (hlib : lib.Lawful MsgPack.Packable) {getHash : Interface → Bytes}
    (hhash : ∀ i j : Interface, getHash i = getHash j ↔ i.id = j.id) {d : Transport.DestinationEntry} {p : Packet}
    (hunpacks : unpack d.announcePacket.raw = some p) (hfits : Storable getHash (ofPath d)) (s : TransportState)
    (old : DestinationEntry) :
    (decode lib getHash s (encode lib getHash (ofPath d)) old).filter DestinationEntry.valid
      = (StoredPath.decode s d.encode).map ofPath := by
  have hraw : d.announcePacket.raw ≠ [] := by
    intro hnil
    rw [hnil] at hunpacks
    cases hunpacks
  have hfind : findInterfaceFromHash getHash s (getHash d.receivingInterface)
      = findInterface s d.receivingInterface.id := by
    unfold findInterfaceFromHash findInterface
    exact congrArg (s.interfaces.find? ·) (funext fun j => decide_eq_decide.mpr (hhash j d.receivingInterface))
  rw [decode_encode hlib rfl rfl hfits]
  unfold StoredPath.decode restored rehydrate
  simp only [ofPath, DestinationEntry.encode, if_neg hraw, Option.map_some, hfind, hunpacks]
  cases hi : findInterface s d.receivingInterface.id with
  | none => rfl
  | some i =>
    rw [← (unpack_sound hunpacks).2.1]
    rfl

/-- What comes back of a packet: its bytes and fields, its hop count among them, and its interface by its hash. -/
structure SamePacket (getHash : Interface → Bytes) (a a' : AnnouncePacket) : Prop where
  raw : a'.raw = a.raw
  unpacked : a'.unpacked = a.unpacked
  interface : a'.receivingInterface.map getHash = a.receivingInterface.map getHash

/-- What comes back of an entry. -/
structure Restores (getHash : Interface → Bytes) (e e' : DestinationEntry) : Prop where
  timestamp : e'.timestamp = e.timestamp
  receivedFrom : e'.receivedFrom = e.receivedFrom
  hops : e'.hops = e.hops
  expires : e'.expires = e.expires
  interface : e'.receivingInterface.map getHash = e.receivingInterface.map getHash
  announce : ∃ a a', e.announcePacket = some a ∧ e'.announcePacket = some a' ∧ SamePacket getHash a a'
  randomBlobs : e'.randomBlobs = lastOf persistRandomBlobs e.randomBlobs

theorem findInterfaceFromHash_map {getHash : Interface → Bytes} {s : TransportState} {hash : Bytes}
    (h : ∃ j ∈ s.interfaces, getHash j = hash) : (findInterfaceFromHash getHash s hash).map getHash = some hash := by
  obtain ⟨j, hj, hhash⟩ := h
  unfold findInterfaceFromHash
  cases hfind : s.interfaces.find? fun i => getHash i = hash with
  | none => exact absurd hhash (by simpa using List.find?_eq_none.mp hfind j hj)
  | some k =>
    have hk := List.find?_some (p := fun i => decide (getHash i = hash)) hfind
    exact congrArg some (of_decide_eq_true hk)

/-- A path learned from another node comes back after a restart, with the newest of its random blobs. Of a record
whose end is missing nothing comes back. -/
theorem path_restored {lib : Packing Token} (hlib : lib.Lawful MsgPack.Packable) {getHash : Interface → Bytes}
    {s₀ : TransportState} {i : Interface} {raw : Bytes} {p : Packet} {e : DestinationEntry}
    (h : Learned s₀ i raw p e) (hpeers : Announce.leadsToPeers s₀ i = true) (hfits : Storable getHash e)
    {s : TransportState} (hregistered : ∃ j ∈ s.interfaces, getHash j = getHash i) (old : DestinationEntry) :
    (∃ e', decode lib getHash s (encode lib getHash e) old = some e' ∧ Restores getHash e e')
      ∧ ∀ data, data <+: encode lib getHash e → data ≠ encode lib getHash e → decode lib getHash s data old = none := by
  refine ⟨⟨_, decode_encode hlib h.interface h.announce hfits old, ?_⟩,
    fun data hdata hne => decode_cut hlib h.interface h.announce hfits hdata hne old⟩
  have hraw : raw ≠ [] := by
    rintro rfl
    cases h.unpacks
  have hfound : (findInterfaceFromHash getHash s (getHash i)).map getHash = some (getHash i) :=
    findInterfaceFromHash_map hregistered
  have hcounted : arrivalHops s₀ i p.hops = p.hops + 1 := by
    rw [Announce.arrivalHops_eq, hpeers]
    rfl
  have hpacket : (restored getHash s old e i
      { raw, unpacked := some { p with hops := arrivalHops s₀ i p.hops }, receivingInterface := some i }).announcePacket
      = some { raw, unpacked := some { p with hops := p.hops + 1 },
               receivingInterface := findInterfaceFromHash getHash s (getHash i) } := by
    unfold restored rehydrate
    simp only [if_neg hraw, Option.map_some, h.unpacks]
  exact
    { timestamp := rfl, receivedFrom := rfl, hops := rfl, expires := rfl, randomBlobs := rfl
      interface := by rw [h.interface]; exact hfound
      announce := ⟨_, _, h.announce, hpacket, rfl, by rw [hcounted], hfound⟩ }

/-! ### An announce on a test bench -/

/-- An announce with one hop behind it. -/
def benchRaw : Bytes := layout 1 1 none (.fill 3) 0 [7]

def benchPacket : Packet := ofLayout 1 1 none (.fill 3) 0 [7]

theorem bench_unpacks : unpack benchRaw = some benchPacket :=
  unpack_layout ⟨nofun, nofun⟩

/-- The entry of that announce, come in over an interface, with four random blobs more than a record keeps. -/
def benchEntry (i : Interface) : DestinationEntry where
  timestamp := .fin 3
  receivedFrom := (Address.fill 3).toList
  hops := arrivalHops {} i 1
  expires := .fin 604803
  randomBlobs := (List.range 20).map fun n => [UInt8.ofNat n]
  receivingInterface := some i
  announcePacket := some
    { raw := benchRaw
      unpacked := some { benchPacket with hops := arrivalHops {} i 1 }
      receivingInterface := some i }

theorem bench_learned (i : Interface) : Learned {} i benchRaw benchPacket (benchEntry i) := ⟨bench_unpacks, rfl, rfl⟩

/-- The hash of an interface on the test bench. -/
def benchHash (i : Interface) : Bytes := List.replicate 32 (UInt8.ofNat i.id)

theorem bench_storable (i : Interface) : Storable benchHash (benchEntry i) := by
  intro i' a hi ha t ht
  cases hi
  cases ha
  have hunit : ∀ a b : Nat, (2 : ℚ) ^ a / 2 ^ (a + b) = (2 ^ b)⁻¹ := fun a b => by
    rw [pow_add, div_mul_cancel_left₀ (pow_ne_zero a two_ne_zero)]
  have hheard : MsgPack.Packable (.float (.fin 3)) := by
    refine ⟨⟨.float64, 0x4008000000000000, by decide⟩, rfl, ?_⟩
    have hvalue : ((2 : ℚ) ^ 52 + 2251799813685248) * (2 ^ 1024 / 2 ^ (1024 + 51)) = 3 := by
      rw [hunit]
      norm_num
    simpa [MsgPack.FloatValue.number, MsgPack.FloatForm.number, MsgPack.FloatForm.fractionBits,
      MsgPack.FloatForm.exponentBits] using hvalue
  have hexpires : MsgPack.Packable (.float (.fin 604803)) := by
    refine ⟨⟨.float64, 0x4122750600000000, by decide⟩, rfl, ?_⟩
    have hvalue : ((2 : ℚ) ^ 52 + 691618583674880) * (2 ^ 1042 / 2 ^ (1042 + 33)) = 604803 := by
      rw [hunit]
      norm_num
    simpa [MsgPack.FloatValue.number, MsgPack.FloatForm.number, MsgPack.FloatForm.fractionBits,
      MsgPack.FloatForm.exponentBits] using hvalue
  have hhops := (arrivalHops {} i 1).toNat_lt
  have hhash : (benchHash i).length = 32 := List.length_replicate
  have hblobs : lastOf persistRandomBlobs (benchEntry i).randomBlobs
      = (List.range' 4 16).map fun n => [UInt8.ofNat n] := by
    show lastOf persistRandomBlobs ((List.range 20).map fun n => [UInt8.ofNat n]) = _
    decide +kernel
  simp only [recordOf, hblobs, List.cons_append, List.nil_append, List.mem_cons, List.mem_append, List.mem_map,
    List.not_mem_nil, or_false, List.length_map] at ht
  rcases ht with rfl | rfl | rfl | rfl | rfl | rfl | ⟨blob, ⟨n, -, rfl⟩, rfl⟩ | rfl | rfl
  · exact show 7 < 2 ^ 32 by decide
  · exact hheard
  · exact ⟨Int.natCast_nonneg _, Int.ofNat_lt.mpr hhops⟩
  · exact hexpires
  · exact show (Address.fill 3).toList.length < 2 ^ 32 by decide
  · exact show (List.range' 4 16).length < 2 ^ 32 by decide
  · exact show 1 < 2 ^ 32 by decide
  · show (benchHash i).length < 2 ^ 32
    rw [hhash]
    decide
  · exact show benchRaw.length < 2 ^ 32 by decide

theorem path_restored_bench :
    (∃ e', decode MsgPack.packing benchHash { interfaces := [{ id := 4 }] }
        (encode MsgPack.packing benchHash (benchEntry { id := 4 })) {} = some e'
          ∧ Restores benchHash (benchEntry { id := 4 }) e')
      ∧ ∀ data, data <+: encode MsgPack.packing benchHash (benchEntry { id := 4 }) →
        data ≠ encode MsgPack.packing benchHash (benchEntry { id := 4 }) →
          decode MsgPack.packing benchHash { interfaces := [{ id := 4 }] } data {} = none :=
  path_restored MsgPack.packing_lawful (bench_learned { id := 4 }) rfl (bench_storable { id := 4 })
    ⟨{ id := 4 }, List.mem_singleton.mpr rfl, rfl⟩ {}

/-- What came over an interface to a shared instance is one hop further away after a restart. -/
theorem shared_path_not_restored :
    ¬ ∀ (lib : Packing Token), lib.Lawful MsgPack.Packable → ∀ (getHash : Interface → Bytes) (s₀ : TransportState)
      (i : Interface) (raw : Bytes) (p : Packet) (e : DestinationEntry), Learned s₀ i raw p e → Storable getHash e →
      ∀ s : TransportState, (∃ j ∈ s.interfaces, getHash j = getHash i) → ∀ old : DestinationEntry,
        ∃ e', decode lib getHash s (encode lib getHash e) old = some e' ∧ Restores getHash e e' := by
  intro h
  let shared : Interface := { id := 4, isConnectedToSharedInstance := true }
  obtain ⟨e', hdecode, hrestores⟩ := h MsgPack.packing MsgPack.packing_lawful benchHash {} shared benchRaw benchPacket
    (benchEntry shared) (bench_learned shared) (bench_storable shared) { interfaces := [shared] }
    ⟨shared, List.mem_singleton.mpr rfl, rfl⟩ {}
  rw [decode_encode MsgPack.packing_lawful rfl rfl (bench_storable shared)] at hdecode
  cases hdecode
  obtain ⟨a, a', ha, ha', hsame⟩ := hrestores.announce
  cases ha
  cases ha'
  have hcounted : ∀ j, (rehydrate j { raw := benchRaw }).unpacked
      = some { benchPacket with hops := benchPacket.hops + 1 } := by
    intro j
    unfold rehydrate
    dsimp only
    rw [bench_unpacks]
  exact absurd (congrArg (Option.map Packet.hops) ((hcounted _).symm.trans hsame.unpacked)) (by decide)

end MicroReticulum.Persistence
