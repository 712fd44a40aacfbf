import MicroReticulum.Transport.Rewrite

/-!
# The hash as the identity of a packet

A packet is remembered, proved and filtered by its hash. Two facts make that work: the hash does
not change on the way, and packets that differ in what they say have different hashed bytes.
`packet_hash_path_independent` states both.

Its limits are stated next to it. A link request whose MTU signalling is changed by a hop has
another hash afterwards. Under `HEADER_2` only announces are packed with their payload, and a link
request proof is packed without its transport id, so for those packets the hashed bytes leave
something out. A packet packed with transport type `NONE` announces a header it does not have.

That two different hashed parts have different hashes is not proved and not assumed;
collisions are named where they matter.
-/

namespace MicroReticulum.Packet

open MicroReticulum Transport

/-! ## The hashable part of a packed packet -/

/-- The packets `pack` writes in the layout of their header type: everything under `HEADER_1`, and
announces under `HEADER_2`. -/
def Laidout (spec : PacketSpec) : Prop :=
  spec.headerType = .header1 ∨ spec.packetType = .announce ∧ spec.context ≠ ContextType.lrproof

/-- The payload goes onto the wire as it is. -/
def Unencrypted (spec : PacketSpec) : Prop :=
  spec.context = ContextType.lrproof ∨ plaintextOnWire spec = true

instance (spec : PacketSpec) : Decidable (Unencrypted spec) := by
  unfold Unencrypted; infer_instance

/-- The bytes `c` carry the payload of `spec`, encrypted where `pack` encrypts. -/
def Carries (encrypt : PacketSpec → Bytes → Except String Bytes) (spec : PacketSpec) (c : Bytes) :
    Prop :=
  (Unencrypted spec → c = spec.data) ∧ (¬ Unencrypted spec → encrypt spec spec.data = .ok c)

/-- The transport id that goes onto the wire: `HEADER_1` has none. -/
def wireTransportId (spec : PacketSpec) : Option Address :=
  match spec.headerType with
  | .header1 => none
  | .header2 => spec.transportId

/-- The body of a laid-out packet: the addresses its header type asks for, then the carried
payload. -/
theorem packBody_laidout {encrypt : PacketSpec → Bytes → Except String Bytes} {spec : PacketSpec}
    {addresses c : Bytes} (h : packBody encrypt spec = .ok (addresses, c)) (hlaid : Laidout spec) :
    ((wireTransportId spec).isSome ↔ spec.headerType = .header2)
      ∧ addresses = transportBytes (wireTransportId spec) ++ spec.destinationHash.toList
      ∧ Carries encrypt spec c := by
  have hheader1 (htype : spec.headerType = .header1) : wireTransportId spec = none := by
    unfold wireTransportId
    rw [htype]
  unfold packBody at h
  split at h
  case isTrue hproof =>
    have htype : spec.headerType = .header1 := by
      rcases hlaid with htype | ⟨_, hne⟩
      · exact htype
      · exact absurd hproof hne
    cases hlink : spec.destinationLink with
    | none => rw [hlink] at h; cases h
    | some link =>
      rw [hlink] at h
      cases h
      have haddr := (spec.linkAddressed link hlink).1
      rw [hheader1 htype]
      exact ⟨by rw [htype]; decide, by rw [haddr]; rfl, fun _ => rfl,
        fun hne => absurd (Or.inl hproof) hne⟩
  case isFalse hproof =>
    split at h
    case h_1 htype =>
      rw [hheader1 htype]
      split at h
      case isTrue hplain =>
        cases h
        exact ⟨by rw [htype]; decide, rfl, fun _ => rfl, fun hne => absurd (Or.inr hplain) hne⟩
      case isFalse hplain =>
        cases hc : encrypt spec spec.data with
        | error e => rw [hc] at h; cases h
        | ok c' =>
          rw [hc] at h
          cases h
          refine ⟨by rw [htype]; decide, rfl, ?_, fun _ => hc⟩
          rintro (hp | hp)
          · exact absurd hp hproof
          · exact absurd hp hplain
    case h_2 htype =>
      have hannounce : spec.packetType = .announce := by
        rcases hlaid with h1 | ⟨h2, _⟩
        · rw [h1] at htype; cases htype
        · exact h2
      cases hid : spec.transportId with
      | none => rw [hid] at h; cases h
      | some t =>
        rw [hid] at h
        simp only [hannounce, if_true] at h
        cases h
        have hplain : Unencrypted spec := by
          right; unfold plaintextOnWire; rw [hannounce]; rfl
        have hwire : wireTransportId spec = some t := by
          unfold wireTransportId
          rw [htype, hid]
        rw [hwire]
        exact ⟨by simp [htype], rfl, fun _ => rfl, fun hne => absurd hplain hne⟩

/-- The hashed part starts behind the transport id. -/
theorem transportBytes_length {spec : PacketSpec}
    (h : (wireTransportId spec).isSome ↔ spec.headerType = .header2) :
    (transportBytes (wireTransportId spec)).length + 2 = hashableStart spec.headerType := by
  cases hid : wireTransportId spec with
  | none =>
    cases htype : spec.headerType with
    | header1 => rfl
    | header2 => simp [hid, htype] at h
  | some t =>
    rw [h.mp (by rw [hid]; rfl)]
    show t.toList.length + 2 = _
    rw [t.toList_length]
    rfl

/-- The destination type in the flag byte is the packet's own. -/
theorem getPackedFlags_low {encrypt : PacketSpec → Bytes → Except String Bytes}
    {spec : PacketSpec} {p : Packet} (hpack : pack encrypt spec = .ok p) :
    getPackedFlags spec &&& (0b00001111 : UInt8)
      = (spec.destinationType.code <<< 2) ||| spec.packetType.code := by
  unfold getPackedFlags
  rw [packFlags_low]
  dsimp only
  split
  case isFalse => rfl
  case isTrue hproof =>
    -- a link request proof was packed for its link, so it is addressed to one
    cases hlink : spec.destinationLink with
    | none => simp [pack, packBody, hproof, hlink] at hpack
    | some link => rw [(spec.linkAddressed link hlink).2]

/-- The hashable part of a laid-out packet says where it goes, what it is and what it carries. -/
theorem getHashablePart_pack {encrypt : PacketSpec → Bytes → Except String Bytes}
    {spec : PacketSpec} {p : Packet} (hpack : pack encrypt spec = .ok p) (hlaid : Laidout spec) :
    ∃ c, Carries encrypt spec c ∧ p.getHashablePart
      = ((spec.destinationType.code <<< 2) ||| spec.packetType.code) ::
          (spec.destinationHash.toList ++ spec.context :: c) := by
  have hlow := getPackedFlags_low hpack
  unfold pack at hpack
  split at hpack
  case h_1 => cases hpack
  case h_2 addresses c hbody =>
    obtain ⟨hsome, haddr, hcarries⟩ := packBody_laidout hbody hlaid
    have hlen := transportBytes_length hsome
    dsimp only at hpack
    split at hpack
    case isTrue => cases hpack
    case isFalse =>
      cases hpack
      refine ⟨c, hcarries, ?_⟩
      simp only [getHashablePart, Bytes.byte_cons_zero, hlow, ← hlen, Bytes.mid_cons_succ, haddr,
        List.append_assoc]
      rw [Bytes.mid_append rfl]

/-- The header type in the flag byte is the packet's own: only the transport type `NONE` spills into a bit that
`HEADER_1` leaves clear. -/
theorem getPackedFlags_header {spec : PacketSpec}
    (htransport : spec.headerType = .header1 → spec.transportType ≠ .none) :
    (unpackFlags (getPackedFlags spec)).headerType = spec.headerType := by
  cases htype : spec.headerType with
  | header1 =>
    rw [← htype]
    exact ofFlags_packFlags_header _ (htransport htype)
  | header2 =>
    have hbit : ∀ f : Flags, f.headerType = .header2 → HeaderType.ofFlags (packFlags f) = .header2 := by
      rintro ⟨ht, cf, tt, dt, pt⟩ h
      cases h
      cases cf <;> cases tt <;> cases dt <;> cases pt <;> decide
    exact hbit _ htype

/-- What the other end reads of a laid-out packet: every field `pack` wrote. -/
theorem unpack_laidout {encrypt : PacketSpec → Bytes → Except String Bytes} {spec : PacketSpec} {p : Packet}
    (hpack : pack encrypt spec = .ok p) (hlaid : Laidout spec)
    (htransport : spec.headerType = .header1 → spec.transportType ≠ .none) :
    ∃ c, Carries encrypt spec c ∧ unpack p.raw = some (ofLayout (getPackedFlags spec) spec.hops
      (wireTransportId spec) spec.destinationHash spec.context c) := by
  unfold pack at hpack
  split at hpack
  case h_1 => cases hpack
  case h_2 addresses c hbody =>
    obtain ⟨hsome, haddr, hcarries⟩ := packBody_laidout hbody hlaid
    dsimp only at hpack
    split at hpack
    case isTrue => cases hpack
    case isFalse =>
      cases hpack
      have haddressed : Addressed (getPackedFlags spec) (wireTransportId spec) := by
        unfold Addressed
        rw [getPackedFlags_header htransport]
        exact hsome
      refine ⟨c, hcarries, ?_⟩
      rw [← unpack_layout haddressed, haddr]
      simp [layout]

/-- The types a packed packet is marked with are its own. -/
theorem getPackedFlags_fields {encrypt : PacketSpec → Bytes → Except String Bytes} {spec : PacketSpec} {p : Packet}
    (hpack : pack encrypt spec = .ok p) :
    (unpackFlags (getPackedFlags spec)).destinationType = spec.destinationType
      ∧ (unpackFlags (getPackedFlags spec)).packetType = spec.packetType := by
  have hlow : getPackedFlags spec &&& 0b00001111
      = packFlags ⟨.header1, .unset, .broadcast, spec.destinationType, spec.packetType⟩ &&& 0b00001111 := by
    rw [getPackedFlags_low hpack, packFlags_low]
  obtain ⟨hdestination, htype⟩ := unpackFlags_of_low_eq hlow
  rw [unpackFlags_packFlags _ (.inl rfl)] at hdestination htype
  exact ⟨hdestination, htype⟩

/-- What the other end reads of a packet packed under `HEADER_1`. -/
theorem unpack_pack {encrypt : PacketSpec → Bytes → Except String Bytes} {spec : PacketSpec} {p : Packet}
    (hpack : pack encrypt spec = .ok p) (hheader : spec.headerType = .header1)
    (htransport : spec.transportType = .broadcast) :
    ∃ c q, Carries encrypt spec c ∧ unpack p.raw = some q ∧ q.packetType = spec.packetType
      ∧ q.context = spec.context ∧ q.data = c := by
  obtain ⟨c, hcarries, hunpack⟩ := unpack_laidout hpack (.inl hheader) fun _ => by
    rw [htransport]
    exact TransportType.noConfusion
  exact ⟨c, _, hcarries, hunpack, (getPackedFlags_fields hpack).2, rfl, rfl⟩

/-- Two packets with the same hashable part agree in all it names. -/
theorem hashablePart_injective {encrypt : PacketSpec → Bytes → Except String Bytes}
    {decrypt : Address → Bytes → Option Bytes}
    (hdecrypt : ∀ spec c, encrypt spec spec.data = .ok c →
      decrypt spec.destinationHash c = some spec.data)
    {spec₁ spec₂ : PacketSpec} {p₁ p₂ : Packet} (h₁ : pack encrypt spec₁ = .ok p₁)
    (h₂ : pack encrypt spec₂ = .ok p₂) (hl₁ : Laidout spec₁) (hl₂ : Laidout spec₂)
    (heq : p₁.getHashablePart = p₂.getHashablePart) :
    spec₁.destinationHash = spec₂.destinationHash ∧ spec₁.context = spec₂.context
      ∧ spec₁.packetType = spec₂.packetType ∧ spec₁.destinationType = spec₂.destinationType
      ∧ spec₁.data = spec₂.data := by
  obtain ⟨c₁, hc₁, hp₁⟩ := getHashablePart_pack h₁ hl₁
  obtain ⟨c₂, hc₂, hp₂⟩ := getHashablePart_pack h₂ hl₂
  rw [hp₁, hp₂] at heq
  obtain ⟨hlow, hrest⟩ := List.cons.inj heq
  obtain ⟨hdest, hpack⟩ := low_injective hlow
  obtain ⟨hhash, htail⟩ := List.append_inj hrest
    (spec₁.destinationHash.toList_length.trans spec₂.destinationHash.toList_length.symm)
  obtain ⟨hcontext, hcarried⟩ := List.cons.inj htail
  have hhash' : spec₁.destinationHash = spec₂.destinationHash := List.Vector.eq _ _ hhash
  have hsame : Unencrypted spec₁ ↔ Unencrypted spec₂ := by
    unfold Unencrypted plaintextOnWire
    rw [hcontext, hdest, hpack]
  refine ⟨hhash', hcontext, hpack, hdest, ?_⟩
  by_cases hplain : Unencrypted spec₁
  · rw [← hc₁.1 hplain, ← hc₂.1 (hsame.mp hplain), hcarried]
  · have hd₁ := hdecrypt spec₁ c₁ (hc₁.2 hplain)
    have hd₂ := hdecrypt spec₂ c₂ (hc₂.2 fun h => hplain (hsame.mpr h))
    rw [hcarried, hhash'] at hd₁
    exact Option.some.inj (hd₁.symm.trans hd₂)

/-! ## The main result -/

/-- The hash of a packed packet is computed alike at every node that a chain of transport steps
leads to, and packets that differ in destination hash, context, packet type, destination type or
payload have different hashable parts. -/
theorem packet_hash_path_independent (fullHash : Bytes → Hash)
    (encrypt : PacketSpec → Bytes → Except String Bytes)
    (decrypt : Address → Bytes → Option Bytes)
    (hdecrypt : ∀ spec c, encrypt spec spec.data = .ok c →
      decrypt spec.destinationHash c = some spec.data) :
    (∀ (spec : PacketSpec) (p q : Packet) (raw : Bytes), pack encrypt spec = .ok p →
      spec.transportType ≠ .none → TransportRun p.raw raw → unpack raw = some q →
      q.getHash fullHash = p.getHash fullHash
        ∧ q.getTruncatedHash fullHash = p.getTruncatedHash fullHash)
    ∧ (∀ (spec₁ spec₂ : PacketSpec) (p₁ p₂ : Packet), pack encrypt spec₁ = .ok p₁ →
      pack encrypt spec₂ = .ok p₂ → Laidout spec₁ → Laidout spec₂ →
      (spec₁.destinationHash ≠ spec₂.destinationHash ∨ spec₁.context ≠ spec₂.context
        ∨ spec₁.packetType ≠ spec₂.packetType ∨ spec₁.destinationType ≠ spec₂.destinationType
        ∨ spec₁.data ≠ spec₂.data) →
      p₁.getHashablePart ≠ p₂.getHashablePart) := by
  refine ⟨?_, ?_⟩
  · intro spec p q raw hpack htransport hrun hunpack
    have hpart : q.getHashablePart = p.getHashablePart := by
      rw [getHashablePart_of_unpack hunpack, getHashablePart_of_pack hpack htransport]
      exact hrun.wireHashablePart_eq
    unfold getHash getTruncatedHash
    rw [hpart]
    exact ⟨rfl, rfl⟩
  · intro spec₁ spec₂ p₁ p₂ h₁ h₂ hl₁ hl₂ hdiffer heq
    obtain ⟨hhash, hcontext, htype, hdest, hdata⟩ :=
      hashablePart_injective hdecrypt h₁ h₂ hl₁ hl₂ heq
    rcases hdiffer with h | h | h | h | h
    · exact h hhash
    · exact h hcontext
    · exact h htype
    · exact h hdest
    · exact h hdata

/-- A data packet with the given payload. -/
def dataSpec (data : Bytes) : PacketSpec where
  destinationType := .single
  destinationHash := .fill 7
  data := data

theorem packet_hash_path_independent_inserted :
    (∃ p q, pack prefixEncrypt (dataSpec [1, 2, 3]) = .ok p
        ∧ unpack (insertTransport p (.fill 9)) = some q
        ∧ q.getHash tailHash = p.getHash tailHash)
      ∧ (∃ p q, pack prefixEncrypt (dataSpec [1]) = .ok p
          ∧ pack prefixEncrypt (dataSpec [2]) = .ok q
          ∧ p.getHashablePart ≠ q.getHashablePart) := by
  have main := packet_hash_path_independent tailHash prefixEncrypt (fun _ c => some c.tail)
    (by intro spec c h; cases h; rfl)
  refine ⟨⟨_, _, rfl, rfl, ?_⟩, ⟨_, _, rfl, rfl, ?_⟩⟩
  · exact (main.1 (dataSpec [1, 2, 3]) _ _ _ rfl (by decide)
      (.single (TransportStep.insert (.fill 9) rfl rfl)) rfl).1
  · exact main.2 (dataSpec [1]) (dataSpec [2]) _ _ rfl rfl (.inl rfl) (.inl rfl)
      (.inr (.inr (.inr (.inr (by decide)))))

/-- A link request: two keys and the signalling bytes of an MTU of 500. -/
def signalledRequest : PacketSpec where
  destinationType := .single
  destinationHash := .fill 7
  packetType := .linkrequest
  data := List.replicate 64 1 ++ [0x20, 0x01, 0xF4]

/-- A `HEADER_2` packet with the given payload. -/
def transportSpec (data : Bytes) : PacketSpec :=
  { dataSpec data with headerType := .header2, transportId := some (.fill 9) }

/-- A `HEADER_2` link proof for the link `x`. -/
def transportProofSpec (x : UInt8) : PacketSpec where
  destinationType := .link
  destinationHash := .fill x
  destinationLink := some (.fill x)
  headerType := .header2
  packetType := .proof
  context := ContextType.lrproof
  data := [1]

/-- What is left out above does happen. A hop without a known hardware MTU removes the signalling
bytes of a link request, and with them the hash changes. `HEADER_2` data packets with different
payloads, and `HEADER_2` link proofs of different links, have one hashable part. A transport type
`NONE` makes the next node read another header type. -/
theorem packet_hash_depends_on_path :
    (∃ p raw₁ raw₂ q, pack prefixEncrypt signalledRequest = .ok p
        ∧ TransportStep false p.raw raw₁ ∧ TransportStep true raw₁ raw₂
        ∧ unpack raw₂ = some q ∧ q.getHash tailHash ≠ p.getHash tailHash)
      ∧ (∃ p q, pack prefixEncrypt (transportSpec [1]) = .ok p
          ∧ pack prefixEncrypt (transportSpec [2]) = .ok q
          ∧ p.getHashablePart = q.getHashablePart)
      ∧ (∃ p q, pack prefixEncrypt (transportProofSpec 7) = .ok p
          ∧ pack prefixEncrypt (transportProofSpec 8) = .ok q
          ∧ p.getHashablePart = q.getHashablePart)
      ∧ (∃ p q, pack prefixEncrypt { dataSpec (List.replicate 20 1) with transportType := .none }
            = .ok p
          ∧ unpack p.raw = some q ∧ q.getHash tailHash ≠ p.getHash tailHash) := by
  refine ⟨?_, ⟨_, _, rfl, rfl, by decide⟩, ⟨_, _, rfl, rfl, by decide⟩,
    ⟨_, _, rfl, rfl, by decide⟩⟩
  have hsent : unpack (getPackedFlags signalledRequest :: 0 ::
      (List.replicate 16 7 ++ 0 :: signalledRequest.data)) = some _ := rfl
  have hinsert := TransportStep.insert (.fill 9) hsent rfl
  have harrived : unpack (0x52 :: 0 :: (List.replicate 16 9 ++
      (List.replicate 16 7 ++ 0 :: signalledRequest.data))) = some _ := rfl
  have hstrip := TransportStep.nextHop 1 0 { id := 1 } (.fill 7) 1 harrived (fun _ => rfl) rfl
  exact ⟨_, _, _, _, rfl, hinsert, hstrip, rfl, by decide⟩

end MicroReticulum.Packet
