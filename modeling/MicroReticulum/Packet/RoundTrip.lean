import MicroReticulum.Packet.Identity
import MicroReticulum.Transport.State

/-!
# What is read back of a packet

`construct` is what the `Packet` constructors make of the caller's data: it is cut to `MDU` bytes, and nothing was
packed before. `ReadBack` says that the raw bytes of a packet unpack to its fields and carry given data.

`unpack_construct` proves it for everything under `HEADER_1` and for the announces of `HEADER_2`, with the data as
the constructor left it. `not_readBack_construct` shows on concrete packets what does not come back.

What is encrypted for a destination is opened in `Cryptography.TokenRoundTrip` and on the
links; here it is carried.
-/

namespace MicroReticulum.Packet

open MicroReticulum Transport

/-- The data of the `Packet(destination, data)` and `Packet(link, data)` constructors. The fluent setters fix the
rest. -/
def construct (spec : PacketSpec) : PacketSpec :=
  { spec with data := spec.data.left reticulumMdu, ciphertext := [] }

/-- The raw bytes of the packed `spec` are unpacked to its fields and to `data`, encrypted where `pack` encrypts. A
flag byte has one bit for the transport type. -/
def ReadBack (encrypt : PacketSpec → Bytes → Except String Bytes) (decrypt : Address → Bytes → Option Bytes)
    (spec : PacketSpec) (data : Bytes) (p : Packet) : Prop :=
  ∃ q, unpack p.raw = some q ∧ q.flags = getPackedFlags spec ∧ q.hops = spec.hops ∧ q.headerType = spec.headerType
    ∧ q.destinationType = spec.destinationType ∧ q.packetType = spec.packetType
    ∧ (spec.transportType = .broadcast ∨ spec.transportType = .transport →
      q.contextFlag = spec.contextFlag ∧ q.transportType = spec.transportType)
    ∧ q.transportId = wireTransportId spec ∧ q.destinationHash = spec.destinationHash ∧ q.context = spec.context
    ∧ (Unencrypted spec → q.data = data)
    ∧ (¬ Unencrypted spec → encrypt spec data = .ok q.data ∧ decrypt spec.destinationHash q.data = some data)

/-- Whatever the caller supplies, a packet under `HEADER_1` and an announce under `HEADER_2` are read back with all
their fields and with the data the constructor kept: its first `MDU` bytes. -/
theorem unpack_construct (encrypt : PacketSpec → Bytes → Except String Bytes)
    (decrypt : Address → Bytes → Option Bytes)
    (hdecrypt : ∀ spec data c, encrypt spec data = .ok c → decrypt spec.destinationHash c = some data)
    (spec : PacketSpec) (p : Packet) (hpack : pack encrypt (construct spec) = .ok p)
    (hheader : spec.headerType = .header1 ∧ spec.transportType ≠ .none
      ∨ spec.headerType = .header2 ∧ spec.packetType = .announce ∧ spec.context ≠ ContextType.lrproof) :
    ReadBack encrypt decrypt (construct spec) (spec.data.left reticulumMdu) p := by
  have hlaid : Laidout (construct spec) := by
    obtain ⟨htype, -⟩ | ⟨-, hannounce⟩ := hheader
    · exact .inl htype
    · exact .inr hannounce
  have htransport : (construct spec).headerType = .header1 → (construct spec).transportType ≠ .none := by
    obtain ⟨-, hne⟩ | ⟨htype, -⟩ := hheader
    · exact fun _ => hne
    · exact fun h => HeaderType.noConfusion (htype.symm.trans h)
  obtain ⟨c, hcarries, hunpack⟩ := unpack_laidout hpack hlaid htransport
  obtain ⟨hdestination, htype⟩ := getPackedFlags_fields hpack
  refine ⟨_, hunpack, rfl, rfl, getPackedFlags_header htransport, hdestination, htype, fun hbit => ?_, rfl, rfl, rfl,
    hcarries.1, fun hencrypted => ?_⟩
  · have hflags : unpackFlags (getPackedFlags (construct spec)) = _ := unpackFlags_packFlags _ hbit
    exact ⟨congrArg Flags.contextFlag hflags, congrArg Flags.transportType hflags⟩
  · have hencrypt := hcarries.2 hencrypted
    exact ⟨hencrypt, hdecrypt _ _ _ hencrypt⟩

/-- An announce in transport. -/
def transportAnnounce : PacketSpec :=
  { transportSpec [1, 2, 3] with packetType := .announce }

theorem unpack_construct_announce : ∃ p, pack prefixEncrypt (construct transportAnnounce) = .ok p
    ∧ ReadBack prefixEncrypt (fun _ c => some c.tail) (construct transportAnnounce) [1, 2, 3] p := by
  refine ⟨_, rfl, ?_⟩
  exact unpack_construct prefixEncrypt (fun _ c => some c.tail) (by intro spec data c h; cases h; rfl) transportAnnounce
    _ rfl (.inr ⟨rfl, rfl, by decide⟩)

/-- Data behind the first `MDU` bytes never comes back, whatever the packet. -/
theorem not_readBack_of_long {encrypt : PacketSpec → Bytes → Except String Bytes}
    {decrypt : Address → Bytes → Option Bytes} {spec : PacketSpec} {p : Packet}
    (hpack : pack encrypt (construct spec) = .ok p) (hheader : spec.headerType = .header1)
    (htransport : spec.transportType ≠ .none) (hplain : Unencrypted (construct spec))
    (hlong : reticulumMdu < spec.data.length) : ¬ ReadBack encrypt decrypt (construct spec) spec.data p := by
  rintro ⟨q, hunpack, -, -, -, -, -, -, -, -, -, hdata, -⟩
  obtain ⟨c, hcarries, hlayout⟩ := unpack_laidout hpack (.inl hheader) fun _ => htransport
  obtain rfl := Option.some.inj (hlayout.symm.trans hunpack)
  have hcut : spec.data.left reticulumMdu = spec.data := (hcarries.1 hplain).symm.trans (hdata hplain)
  have hlength := congrArg List.length hcut
  rw [Bytes.left_length] at hlength
  omega

/-- Not all data comes back. A link request of 465 bytes is cut, a data packet under `HEADER_2` loses its payload,
and the transport type `NONE` makes the next node read another header type. -/
theorem not_readBack_construct :
    (∃ p, pack prefixEncrypt (construct { dataSpec (List.replicate 465 1) with packetType := .linkrequest }) = .ok p
        ∧ ¬ ReadBack prefixEncrypt (fun _ c => some c.tail)
          (construct { dataSpec (List.replicate 465 1) with packetType := .linkrequest }) (List.replicate 465 1) p)
      ∧ (∃ p, pack prefixEncrypt (construct (transportSpec [1])) = .ok p
        ∧ ¬ ReadBack prefixEncrypt (fun _ c => some c.tail) (construct (transportSpec [1])) [1] p)
      ∧ (∃ p, pack prefixEncrypt (construct { dataSpec [1] with transportType := .none }) = .ok p
        ∧ ¬ ReadBack prefixEncrypt (fun _ c => some c.tail) (construct { dataSpec [1] with transportType := .none })
          [1] p) := by
  refine ⟨?_, ⟨_, rfl, ?_⟩, ⟨_, rfl, ?_⟩⟩
  · have hpacks : (pack prefixEncrypt (construct
        { dataSpec (List.replicate 465 1) with packetType := .linkrequest })).toOption.isSome := by decide +kernel
    cases hpack : pack prefixEncrypt (construct
        { dataSpec (List.replicate 465 1) with packetType := .linkrequest }) with
    | error e =>
      rw [hpack] at hpacks
      cases hpacks
    | ok p =>
      refine ⟨p, rfl, not_readBack_of_long hpack rfl TransportType.noConfusion (.inr rfl) ?_⟩
      show reticulumMdu < (List.replicate 465 _).length
      rw [List.length_replicate]
      decide
  · rintro ⟨q, hunpack, -, -, -, -, -, -, -, -, -, -, hencrypted⟩
    cases hunpack
    exact absurd (hencrypted (by decide)).1 (by decide)
  · rintro ⟨q, hunpack, -, -, -, -, -, -, -, -, -, -, hencrypted⟩
    cases hunpack

end MicroReticulum.Packet
