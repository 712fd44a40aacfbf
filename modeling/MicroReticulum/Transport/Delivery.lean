import MicroReticulum.Cryptography.Token
import MicroReticulum.Library.Logged
import MicroReticulum.Packet.Identity
import MicroReticulum.Transport.Inbound

/-!
# Delivery to a local destination, and the proof of it

`Receiver` is a destination with its callbacks, and `deliver` the part of `Transport::inbound` that gives
it a data packet and then proves the packet as the destination's strategy asks. It notes the calls of the
packet callback and the proofs that are sent; `deliver_erases` says that without the notes it is
`handleDestinationData` with such a destination behind it.

`Destination::receive` answers nothing to its caller, and asks whether the plaintext is empty where it
means to ask whether there is one. So a packet is proved whether or not it was decrypted, and a packet
that carries nothing is proved without a callback; `Link::receive` proves behind the same question.
`proved_as_delivered_iff` says when a proof still means delivery.

What the packet callback does to other tables is not followed here.
-/

namespace MicroReticulum.Transport

open MicroReticulum Packet Link Library
open MicroReticulum.Cryptography (Ciphers)

/-- What a delivery does that its sender may rely on. -/
inductive DeliveryEvent where
  | callback (plaintext : Bytes)
  | proof
  deriving DecidableEq

/-- A `Destination` on the receiving side. -/
structure Receiver (c : Ciphers) where
  type : DestinationType
  identity : Option (Cryptography.Identity c)
  /-- `_callbacks._packet` -/
  packetCallback : Option (Bytes → Packet → Handler TransportState Unit)
  /-- `_callbacks._proof_requested` -/
  proofRequested : Option (Packet → Handler TransportState Bool)
  proofStrategy : ProofStrategy
  /-- `Identity::prove`, which signs the packet hash and sends it -/
  identityProve : Packet → Handler TransportState Unit
  /-- the constructor throws otherwise -/
  plain : type = .plain → identity = none

variable {c : Ciphers}

namespace Receiver

/-- `Destination::encrypt`, with what the identity draws. -/
def encrypt (d : Receiver c) (ephemeral iv data : Bytes) : Except String Bytes :=
  match d.type, d.identity with
  | .single, some i => i.encrypt ephemeral iv data
  | _, _ => .ok data

/-- `Destination::decrypt` -/
def decrypt (d : Receiver c) (data : Bytes) : Except String Bytes :=
  match d.type, d.identity with
  | .plain, _ => .ok data
  | .single, some i => i.decrypt data
  | _, _ => .ok []

/-- The identity holds a private key. -/
def HoldsKey (d : Receiver c) : Prop := ∃ i, d.identity = some i ∧ i.prv.isSome

instance (d : Receiver c) : Decidable d.HoldsKey :=
  decidable_of_iff (d.identity.any fun i => i.prv.isSome) <| by
    cases h : d.identity <;> simp [HoldsKey, h]

/-- The payload decrypts, and to `m`. -/
def Opens (d : Receiver c) (data m : Bytes) : Prop :=
  (d.type = .plain ∧ m = data) ∨ (d.type = .single ∧ ∃ i, d.identity = some i ∧ i.Opens data m)

end Receiver

/-- A program that notes deliveries. -/
abbrev Delivering : Type → Type := Prog String (Logged TransportState DeliveryEvent)

/-- `Destination::receive` of a packet that is no link request. -/
def receive (d : Receiver c) (p : Packet) : Delivering Unit := do
  let plaintext ← Prog.ofExcept (d.decrypt p.data)
  Prog.when (plaintext ≠ [] ∧ p.packetType = .data) <|
    match d.packetCallback with
    | none => pure ()
    | some callback => do
      Logged.note (.callback plaintext)
      Prog.catching (Logged.lift (callHandler (callback plaintext p))) fun _ => pure ()

/-- `Packet::prove` of a packet that was received for a destination. -/
def prove (d : Receiver c) (p : Packet) : Delivering Unit :=
  Prog.when d.HoldsKey do
    Logged.note .proof
    Logged.lift (callHandler (d.identityProve p))

/-- The local delivery of `Transport::inbound`. -/
def deliver (d : Receiver c) (p : Packet) : Delivering Unit := do
  receive d p
  match d.proofStrategy with
  | .proveAll => prove d p
  | .proveApp =>
    match d.proofRequested with
    | none => pure ()
    | some requested =>
      Prog.catching
        (do
          let answer ← Logged.lift (callHandler (requested p))
          Prog.when (answer = true) (prove d p))
        fun _ => pure ()
  | .proveNone => pure ()

/-- What one delivery notes. -/
def deliveryLog (d : Receiver c) (p : Packet) (s : TransportState) : List DeliveryEvent :=
  (deliver d p { state := s }).2.log

/-! ## The same delivery in `inbound` -/

/-- A program as a handler: it comes back, and its notes are dropped. -/
def asHandler (m : Delivering Unit) : Handler TransportState Unit := fun s =>
  match m { state := s } with
  | (.thrown e, t) => (.error e, t.state)
  | (_, t) => (.ok (), t.state)

/-- The environment with a destination registered under a hash. -/
def serving (env : Environment) (hash : Address) (d : Receiver c) : Environment :=
  { env with
    destinationReceive := fun h p =>
      if h = hash ∧ p.packetType ≠ .linkrequest then asHandler (receive d p)
      else env.destinationReceive h p
    proofRequested := fun h => if h = hash then d.proofRequested else env.proofRequested h
    provePacket := fun p =>
      if p.destinationHash = hash then asHandler (prove d p) else env.provePacket p }

theorem callHandler_answers {σ α : Type} (h : Handler σ α) : Prog.Answers (callHandler h) := by
  intro s
  unfold callHandler
  rcases h s with ⟨e | a, t⟩
  · exact .inr ⟨e, rfl⟩
  · exact .inl ⟨a, rfl⟩

/-- A program that answers is called as what it does to the state, if that does not depend on the
notes. -/
theorem erases_asHandler {m : Delivering Unit} {m' : Prog String TransportState Unit}
    (h : Logged.Erases m m') (hanswers : m'.Answers) :
    Logged.Erases m (callHandler (asHandler m)) := by
  intro s
  have hempty := h { state := s.state }
  obtain ⟨houtcome, hstate⟩ := h s
  rw [houtcome, hstate]
  unfold callHandler asHandler
  rcases hm : m { state := s.state } with ⟨o, t⟩
  rw [hm] at hempty
  have ho : o = (m' s.state).1 := hempty.1
  have ht : t.state = (m' s.state).2 := hempty.2
  rcases hanswers s.state with ⟨a, ha⟩ | ⟨e, he⟩
  · rw [ha] at ho ⊢
    subst ho
    exact ⟨rfl, ht.symm⟩
  · rw [he] at ho ⊢
    subst ho
    exact ⟨rfl, ht.symm⟩

/-- `receive` without its notes. -/
theorem receive_erases (d : Receiver c) (p : Packet) :
    ∃ m' : Prog String TransportState Unit, Logged.Erases (receive d p) m' ∧ m'.Answers := by
  refine ⟨do
    let plaintext ← Prog.ofExcept (d.decrypt p.data)
    Prog.when (plaintext ≠ [] ∧ p.packetType = .data) <|
      match d.packetCallback with
      | none => pure ()
      | some callback => Prog.catching (callHandler (callback plaintext p)) fun _ => pure (), ?_, ?_⟩
  · refine .bind (.ofExcept _) fun plaintext => .when ?_
    cases d.packetCallback with
    | none => exact .pure ()
    | some callback => exact .note_bind _ (.catching (.lift _) fun _ => .pure ())
  · refine .bind (fun s => ?_) fun plaintext => ?_
    · cases d.decrypt p.data with
      | error e => exact .inr ⟨e, rfl⟩
      | ok m => exact .inl ⟨m, rfl⟩
    · unfold Prog.when
      split
      · cases d.packetCallback with
        | none => exact .pure ()
        | some callback => exact fun s => .inl (Prog.Answers.catching (callHandler_answers _) _ s)
      · exact .pure ()

/-- `prove` without its notes. -/
theorem prove_erases (d : Receiver c) (p : Packet) :
    ∃ m' : Prog String TransportState Unit, Logged.Erases (prove d p) m' ∧ m'.Answers := by
  refine ⟨Prog.when d.HoldsKey (callHandler (d.identityProve p)), .when (.note_bind _ (.lift _)), ?_⟩
  unfold Prog.when
  split
  · exact callHandler_answers _
  · exact .pure ()

/-- Apart from its notes, `deliver` is what `inbound` does with a data packet for that destination. -/
theorem deliver_erases {env : Environment} {d : Receiver c} {a : Arrived} {s : TransportState}
    {destination : LocalDestination} (log : List DeliveryEvent)
    (hlocal : localDestination s a.packet = some destination) (htype : a.packet.packetType = .data)
    (hstrategy : destination.proofStrategy = d.proofStrategy) :
    (deliver d a.packet { state := s, log }).1
        = (handleDestinationData (serving env a.packet.destinationHash d) a s).1
      ∧ (deliver d a.packet { state := s, log }).2.state
        = (handleDestinationData (serving env a.packet.destinationHash d) a s).2 := by
  obtain ⟨r, hr, hranswers⟩ := receive_erases d a.packet
  obtain ⟨q, hq, hqanswers⟩ := prove_erases d a.packet
  have hreceive : (serving env a.packet.destinationHash d).destinationReceive a.packet.destinationHash
      a.packet = asHandler (receive d a.packet) := by
    show (if a.packet.destinationHash = a.packet.destinationHash ∧ a.packet.packetType ≠ .linkrequest
      then _ else _) = _
    rw [if_pos ⟨rfl, by rw [htype]; exact PacketType.noConfusion⟩]
  have hprove : (serving env a.packet.destinationHash d).provePacket a.packet
      = asHandler (prove d a.packet) := if_pos rfl
  have hrequested : (serving env a.packet.destinationHash d).proofRequested a.packet.destinationHash
      = d.proofRequested := if_pos rfl
  have hproves : Logged.Erases (prove d a.packet) (callHandler (asHandler (prove d a.packet))) :=
    erases_asHandler hq hqanswers
  unfold handleDestinationData
  rw [Prog.get_bind_run, hlocal]
  simp only [hreceive, hrequested, hprove, hstrategy]
  refine Logged.Erases.bind (erases_asHandler hr hranswers) (fun _ => ?_) { state := s, log }
  cases d.proofStrategy with
  | proveNone => exact .pure ()
  | proveAll => exact hproves
  | proveApp =>
    cases d.proofRequested with
    | none => exact .pure ()
    | some requested => exact .catching (.bind (.lift _) fun _ => .when hproves) fun _ => .pure ()

/-! ## What a delivery notes -/

/-- The callback for a plaintext. -/
def callbackEvents (d : Receiver c) (plaintext : Bytes) : List DeliveryEvent :=
  if plaintext ≠ [] ∧ d.packetCallback.isSome then [.callback plaintext] else []

/-- The proof of a packet. -/
def proofEvents (d : Receiver c) : List DeliveryEvent := if d.HoldsKey then [.proof] else []

theorem callbackEvents_nil (d : Receiver c) : callbackEvents d [] = [] := if_neg (by simp)

theorem callbackEvents_cons {d : Receiver c} {m : Bytes} (hm : m ≠ [])
    (hcallback : d.packetCallback.isSome) : callbackEvents d m = [.callback m] := if_pos ⟨hm, hcallback⟩

theorem proof_not_mem_callbackEvents (d : Receiver c) (m : Bytes) :
    DeliveryEvent.proof ∉ callbackEvents d m := by
  unfold callbackEvents
  split <;> simp

/-- A packet that decrypts, to nothing or to something, leaves `receive` normally. -/
theorem receive_ok {d : Receiver c} {p : Packet} {m : Bytes} (htype : p.packetType = .data)
    (hm : d.decrypt p.data = .ok m) (s : Logged TransportState DeliveryEvent) :
    (receive d p s).1 = .value () ∧ Logged.Notes (receive d p) s (callbackEvents d m) := by
  have hrun : receive d p s = Prog.when (m ≠ [] ∧ p.packetType = .data)
      (match d.packetCallback with
      | none => pure ()
      | some callback => do
        Logged.note (.callback m)
        Prog.catching (Logged.lift (callHandler (callback m p))) fun _ => pure ()) s := by
    unfold receive
    rw [hm, Prog.bind_value (Prog.ofExcept_ok_run _ _)]
  unfold Logged.Notes
  rw [hrun]
  by_cases hempty : m = []
  · rw [Prog.when_of_not (by simp [hempty]), hempty, callbackEvents_nil]
    exact ⟨rfl, (List.append_nil _).symm⟩
  · rw [Prog.when_of ⟨hempty, htype⟩]
    cases hcallback : d.packetCallback with
    | none => exact ⟨rfl, by simp [callbackEvents, hcallback]⟩
    | some callback =>
      rw [callbackEvents_cons hempty (by rw [hcallback]; rfl)]
      refine ⟨?_, Logged.Notes.bind (Logged.Notes.note _ s) rfl fun t => .catching (.lift _ t) _⟩
      obtain ⟨_, hvalue⟩ := Prog.Answers.catching
        (Logged.lift_answers (callHandler_answers (callback m p))) (fun _ => ())
        { s with log := s.log ++ [.callback m] }
      exact hvalue

/-- A packet whose decryption throws leaves `receive` by the exception. -/
theorem receive_error {d : Receiver c} {p : Packet} {e : String} (he : d.decrypt p.data = .error e)
    (s : Logged TransportState DeliveryEvent) : receive d p s = (.thrown e, s) := by
  unfold receive
  rw [he, Prog.bind_thrown (Prog.ofExcept_error_run _ _)]

theorem prove_notes (d : Receiver c) (p : Packet) (s : Logged TransportState DeliveryEvent) :
    Logged.Notes (prove d p) s (proofEvents d) := by
  unfold prove proofEvents
  by_cases hkey : d.HoldsKey
  · rw [Prog.when_of hkey, if_pos hkey]
    exact .bind (.note _ s) rfl fun t => .lift _ t
  · rw [Prog.when_of_not hkey, if_neg hkey]
    exact .pure () s

/-- Under `PROVE_ALL` what decrypts is called back, unless it is empty, and proved in any case. -/
theorem deliveryLog_ok {d : Receiver c} {p : Packet} {m : Bytes} (hstrategy : d.proofStrategy = .proveAll)
    (htype : p.packetType = .data) (hm : d.decrypt p.data = .ok m) (s : TransportState) :
    deliveryLog d p s = callbackEvents d m ++ proofEvents d := by
  obtain ⟨hvalue, hnotes⟩ := receive_ok htype hm { state := s }
  have hall : Logged.Notes (deliver d p) { state := s } (callbackEvents d m ++ proofEvents d) := by
    refine hnotes.bind hvalue fun t => ?_
    simp only [hstrategy]
    exact prove_notes d p t
  exact hall

theorem deliveryLog_error {d : Receiver c} {p : Packet} {e : String} (he : d.decrypt p.data = .error e)
    (s : TransportState) : deliveryLog d p s = [] := by
  have hrun := receive_error he { state := s, log := [] }
  have hnone : Logged.Notes (deliver d p) { state := s } [] :=
    .bind_thrown (e := e) (by unfold Logged.Notes; rw [hrun]; rfl) (by rw [hrun])
  exact hnone

/-! ## The packets of a sender -/

/-- A data packet a sender builds for the destination, not packed before. -/
structure SentTo (d : Receiver c) (spec : PacketSpec) : Prop where
  isData : spec.packetType = .data
  type : spec.destinationType = d.type
  noLink : spec.destinationLink = none
  fresh : spec.ciphertext = []

/-- What arrives of a packet: it unpacks from bytes with the same hashed part, and hops and transport id
have changed on the way. -/
def CopyOf (sent p : Packet) : Prop :=
  ∃ raw q, unpack raw = some q ∧ q.getHashablePart = sent.getHashablePart
    ∧ p = { q with hops := p.hops, transportId := p.transportId }

/-- What `pack` carries of a data packet: the payload, encrypted or not, under `HEADER_1`, and under
`HEADER_2` nothing. -/
theorem pack_carries {encrypt : PacketSpec → Bytes → Except String Bytes} {d : Receiver c}
    {spec : PacketSpec} {packet : Packet} (hsent : SentTo d spec)
    (hpack : pack encrypt spec = .ok packet) :
    ∃ carried, packet.getHashablePart = ((spec.destinationType.code <<< 2) ||| spec.packetType.code) ::
        (spec.destinationHash.toList ++ spec.context :: carried)
      ∧ (spec.headerType = .header2 → carried = [])
      ∧ (spec.headerType = .header1 → plaintextOnWire spec = true → carried = spec.data)
      ∧ (spec.headerType = .header1 → plaintextOnWire spec = false →
        encrypt spec spec.data = .ok carried) := by
  have hproof : spec.context ≠ ContextType.lrproof := by
    intro h
    simp [pack, packBody, h, hsent.noLink] at hpack
  cases hheader : spec.headerType with
  | header1 =>
    obtain ⟨carried, ⟨hplain, hencrypted⟩, hpart⟩ := getHashablePart_pack hpack (.inl hheader)
    refine ⟨carried, hpart, HeaderType.noConfusion, fun _ h => hplain (.inr h), fun _ h => hencrypted ?_⟩
    rintro (h' | h')
    · exact hproof h'
    · rw [h] at h'
      cases h'
  | header2 =>
    refine ⟨[], ?_, fun _ => rfl, HeaderType.noConfusion, HeaderType.noConfusion⟩
    have hlow := getPackedFlags_low hpack
    have hannounce : spec.packetType ≠ .announce := by
      rw [hsent.isData]
      exact PacketType.noConfusion
    unfold pack packBody at hpack
    rw [if_neg hproof] at hpack
    simp only [hheader] at hpack
    cases hid : spec.transportId with
    | none =>
      rw [hid] at hpack
      cases hpack
    | some t =>
      rw [hid] at hpack
      simp only [if_neg hannounce, hsent.fresh] at hpack
      split at hpack
      · cases hpack
      · cases hpack
        have hstart : hashableStart .header2 = t.toList.length + 1 + 1 := by
          rw [t.toList_length]
          rfl
        simp only [getHashablePart, Bytes.byte_cons_zero, hlow, hstart, Bytes.mid_cons_succ,
          List.append_assoc]
        rw [Bytes.mid_append rfl]

/-- A copy carries what the packet carried. -/
theorem CopyOf.data {sent p : Packet} {low : UInt8} {hash : Address} {context : ContextType}
    {carried : Bytes} (h : CopyOf sent p)
    (hpart : sent.getHashablePart = low :: (hash.toList ++ context :: carried)) : p.data = carried := by
  obtain ⟨raw, q, hq, hsame, hp⟩ := h
  rw [hpart, getHashablePart_unpack hq] at hsame
  have hrest := (List.cons.inj hsame).2
  have htail := (List.append_inj hrest (q.destinationHash.toList_length.trans hash.toList_length.symm)).2
  rw [hp]
  exact (List.cons.inj htail).2

/-- A copy of a data packet is a data packet. -/
theorem CopyOf.packetType {sent p : Packet} {t : DestinationType} {tail : Bytes} (h : CopyOf sent p)
    (hpart : sent.getHashablePart = ((t.code <<< 2) ||| PacketType.data.code) :: tail) :
    p.packetType = .data := by
  obtain ⟨raw, q, hq, hsame, hp⟩ := h
  rw [hpart, getHashablePart_unpack hq] at hsame
  have hlow := (List.cons.inj hsame).1
  obtain ⟨-, hflags, -, -, -, htype⟩ := unpack_header hq
  rw [hp]
  show q.packetType = .data
  rw [htype, ← hflags]
  have hback : (unpackFlags ((t.code <<< 2) ||| PacketType.data.code)).packetType = .data := by
    cases t <;> decide
  rw [(unpackFlags_of_low_eq (b := (t.code <<< 2) ||| PacketType.data.code) ?_).2, hback]
  rw [hlow]
  cases t <;> decide

/-! ## When a proof means delivery -/

/-- A proof that was sent stands behind a decrypted payload, and behind the callback with it where there is
one. -/
def ProofMeansDelivery (d : Receiver c) (p : Packet) (log : List DeliveryEvent) : Prop :=
  .proof ∈ log → ∃ m, d.Opens p.data m ∧ (d.packetCallback.isSome → [.callback m, .proof].Sublist log)

/-- The callback gets the plaintext before anything else happens. -/
def CallbackFirst (plaintext : Bytes) (log : List DeliveryEvent) : Prop :=
  ∃ rest, log = .callback plaintext :: rest

/-- The payload decrypts, and there is something in it for the callback, if there is one. -/
def Received (d : Receiver c) (data : Bytes) : Prop :=
  ∃ m, d.Opens data m ∧ (d.packetCallback.isSome → m ≠ [])

/-- A packet whose payload can be delivered: it is not empty, it is carried, and it is encrypted unless the
destination is `PLAIN`. -/
def Deliverable (d : Receiver c) (spec : PacketSpec) : Prop :=
  spec.headerType = .header1 ∧ spec.data ≠ []
    ∧ (d.type = .plain ∨ d.type = .single ∧ d.HoldsKey ∧ plaintextOnWire spec = false)

theorem Receiver.Opens.unique {d : Receiver c} {data m m' : Bytes} (h : d.Opens data m)
    (h' : d.Opens data m') : m = m' := by
  rcases h with ⟨hplain, rfl⟩ | ⟨hsingle, i, hi, hopens⟩
  · rcases h' with ⟨-, rfl⟩ | ⟨hsingle, -⟩
    · rfl
    · rw [hplain] at hsingle
      cases hsingle
  · rcases h' with ⟨hplain, -⟩ | ⟨-, i', hi', hopens'⟩
    · rw [hplain] at hsingle
      cases hsingle
    · rw [hi] at hi'
      cases hi'
      exact hopens.unique hopens'

/-- A destination with a private key answers every payload: with what is in it, or with nothing. -/
theorem Receiver.decrypt_of_holdsKey {d : Receiver c} (hkey : d.HoldsKey) (htype : d.type = .single)
    (data : Bytes) :
    (∃ m, d.Opens data m ∧ d.decrypt data = .ok m)
      ∨ (∀ m, ¬ d.Opens data m) ∧ d.decrypt data = .ok [] := by
  obtain ⟨i, hi, hprv⟩ := hkey
  have hdecrypt : d.decrypt data = i.decrypt data := by
    unfold Receiver.decrypt
    rw [htype, hi]
  rw [hdecrypt]
  rcases i.decrypt_eq hprv data with ⟨m, hm, hok⟩ | ⟨hnone, hok⟩
  · exact .inl ⟨m, .inr ⟨htype, i, hi, hm⟩, hok⟩
  · refine .inr ⟨?_, hok⟩
    rintro m (⟨hplain, -⟩ | ⟨-, i', hi', hopens⟩)
    · rw [hplain] at htype
      cases htype
    · rw [hi] at hi'
      cases hi'
      exact hnone m hopens

/-- Only a `SINGLE` destination holds a key here. -/
theorem Receiver.single_of_holdsKey {d : Receiver c} (htype : d.type = .single ∨ d.type = .plain)
    (hkey : d.HoldsKey) : d.type = .single := by
  rcases htype with h | h
  · exact h
  · obtain ⟨i, hi, -⟩ := hkey
    rw [d.plain h] at hi
    cases hi

/-- Without a key nothing is proved. -/
theorem proof_not_mem {d : Receiver c} {p : Packet} (hstrategy : d.proofStrategy = .proveAll)
    (htype : p.packetType = .data) (hkey : ¬ d.HoldsKey) (s : TransportState) :
    DeliveryEvent.proof ∉ deliveryLog d p s := by
  cases hm : d.decrypt p.data with
  | error e =>
    rw [deliveryLog_error hm]
    exact List.not_mem_nil
  | ok m =>
    rw [deliveryLog_ok hstrategy htype hm, proofEvents, if_neg hkey, List.append_nil]
    exact proof_not_mem_callbackEvents d m

/-- With a key every data packet is proved, behind the callback for what is in it. -/
theorem deliveryLog_of_holdsKey {d : Receiver c} {p : Packet} (hstrategy : d.proofStrategy = .proveAll)
    (htype : p.packetType = .data) (hkey : d.HoldsKey) (hsingle : d.type = .single)
    (s : TransportState) :
    (∃ m, d.Opens p.data m ∧ deliveryLog d p s = callbackEvents d m ++ [.proof])
      ∨ (∀ m, ¬ d.Opens p.data m) ∧ deliveryLog d p s = [.proof] := by
  have hproof : proofEvents d = [.proof] := if_pos hkey
  rcases Receiver.decrypt_of_holdsKey hkey hsingle p.data with ⟨m, hm, hok⟩ | ⟨hnone, hok⟩
  · exact .inl ⟨m, hm, by rw [deliveryLog_ok hstrategy htype hok, hproof]⟩
  · refine .inr ⟨hnone, ?_⟩
    rw [deliveryLog_ok hstrategy htype hok, hproof, callbackEvents_nil, List.nil_append]

/-- The first half: a packet is proved for what was delivered exactly when there is no key to prove with, or
the payload was received. -/
theorem proofMeansDelivery_iff {d : Receiver c} {p : Packet} (hstrategy : d.proofStrategy = .proveAll)
    (hdest : d.type = .single ∨ d.type = .plain) (htype : p.packetType = .data) (s : TransportState) :
    ProofMeansDelivery d p (deliveryLog d p s) ↔ ¬ d.HoldsKey ∨ Received d p.data := by
  by_cases hkey : d.HoldsKey
  swap
  · exact ⟨fun _ => .inl hkey, fun _ h => absurd h (proof_not_mem hstrategy htype hkey s)⟩
  have hsingle := Receiver.single_of_holdsKey hdest hkey
  rcases deliveryLog_of_holdsKey hstrategy htype hkey hsingle s with ⟨m, hm, hlog⟩ | ⟨hnone, hlog⟩
  · rw [hlog]
    constructor
    · intro h
      right
      obtain ⟨m', hm', hcallback⟩ := h (by simp)
      cases hm.unique hm'
      refine ⟨m, hm, fun hsome hempty => ?_⟩
      have hsublist := hcallback hsome
      rw [hempty, callbackEvents_nil] at hsublist
      have hlength := hsublist.length_le
      simp at hlength
    · rintro (hno | ⟨m', hm', hnonempty⟩) -
      · exact absurd hkey hno
      · cases hm.unique hm'
        refine ⟨m, hm, fun hsome => ?_⟩
        rw [callbackEvents_cons (hnonempty hsome) hsome]
        exact List.Sublist.refl _
  · constructor
    · intro h
      obtain ⟨m, hm, -⟩ := h (by rw [hlog]; simp)
      exact absurd hm (hnone m)
    · rintro (hno | ⟨m, hm, -⟩)
      · exact absurd hkey hno
      · exact absurd hm (hnone m)

/-- The callback is first exactly when it gets the plaintext. -/
theorem callbackFirst_callbackEvents {d : Receiver c} {m m' : Bytes} (hsome : d.packetCallback.isSome)
    {rest : List DeliveryEvent} (hrest : ∀ plaintext, ¬ CallbackFirst plaintext rest) :
    CallbackFirst m' (callbackEvents d m ++ rest) ↔ m ≠ [] ∧ m' = m := by
  by_cases hempty : m = []
  · subst hempty
    rw [callbackEvents_nil, List.nil_append]
    exact ⟨fun h => absurd h (hrest m'), fun h => absurd rfl h.1⟩
  · rw [callbackEvents_cons hempty hsome]
    constructor
    · rintro ⟨rest', h⟩
      cases h
      exact ⟨hempty, rfl⟩
    · rintro ⟨-, rfl⟩
      exact ⟨rest, rfl⟩

theorem not_callbackFirst_proofEvents (d : Receiver c) (plaintext : Bytes) :
    ¬ CallbackFirst plaintext (proofEvents d) := by
  rintro ⟨rest, h⟩
  unfold proofEvents at h
  split at h <;> cases h

theorem Receiver.decrypt_nil {d : Receiver c} {m : Bytes} (h : d.decrypt [] = .ok m) : m = [] := by
  unfold Receiver.decrypt at h
  split at h
  · cases h
    rfl
  · unfold Cryptography.Identity.decrypt at h
    split at h
    · cases h
    · rw [if_pos (by simp)] at h
      cases h
      rfl
  · cases h
    rfl

theorem Receiver.decrypt_keyless {d : Receiver c} (hsingle : d.type = .single) (hkey : ¬ d.HoldsKey)
    {b m : Bytes} (h : d.decrypt b = .ok m) : m = [] := by
  unfold Receiver.decrypt at h
  rw [hsingle] at h
  cases hi : d.identity with
  | none =>
    rw [hi] at h
    cases h
    rfl
  | some i =>
    rw [hi] at h
    have hnone : i.prv = none := by
      cases hprv : i.prv with
      | none => rfl
      | some k => exact absurd ⟨i, hi, by rw [hprv]; rfl⟩ hkey
    simp only [Cryptography.Identity.decrypt, hnone] at h
    cases h

section Callback

variable {d : Receiver c} {p : Packet} (hstrategy : d.proofStrategy = .proveAll) (htype : p.packetType = .data)
  (hsome : d.packetCallback.isSome)

include hstrategy htype hsome

/-- The callback gets what is decrypted, unless it is empty. -/
theorem callbackFirst_of_ok {m : Bytes} (hm : d.decrypt p.data = .ok m) (plaintext : Bytes) (s : TransportState) :
    CallbackFirst plaintext (deliveryLog d p s) ↔ m ≠ [] ∧ plaintext = m := by
  rw [deliveryLog_ok hstrategy htype hm]
  exact callbackFirst_callbackEvents hsome (not_callbackFirst_proofEvents d)

/-- Where nothing is decrypted there is no callback. -/
theorem not_callbackFirst (hnil : ∀ m, d.decrypt p.data = .ok m → m = []) (plaintext : Bytes)
    (s : TransportState) : ¬ CallbackFirst plaintext (deliveryLog d p s) := by
  intro hfirst
  rcases hd : d.decrypt p.data with e | m
  · rw [deliveryLog_error hd] at hfirst
    obtain ⟨rest, h⟩ := hfirst
    cases h
  · exact ((callbackFirst_of_ok hstrategy htype hsome hd plaintext s).mp hfirst).1 (hnil m hd)

/-- With the key, what was encrypted for the destination is delivered, and what went out as it is is not: what
opens of it is shorter. -/
theorem callbackFirst_of_holdsKey (hc : c.Lawful) (hsingle : d.type = .single) (hkey : d.HoldsKey)
    {ephemeral iv data : Bytes} (hiv : iv.length = 16) {inPlain : Bool}
    (hplain : inPlain = true → p.data = data)
    (hencrypted : inPlain = false → d.encrypt ephemeral iv data = .ok p.data) (s : TransportState) :
    CallbackFirst data (deliveryLog d p s) ↔ data ≠ [] ∧ inPlain = false := by
  obtain ⟨i, hi, hprv⟩ := hkey
  cases inPlain with
  | false =>
    have hopens : d.Opens p.data data := by
      have henc := hencrypted rfl
      unfold Receiver.encrypt at henc
      rw [hsingle, hi] at henc
      exact .inr ⟨hsingle, i, hi, i.opens_encrypt hc hprv hiv henc⟩
    rcases Receiver.decrypt_of_holdsKey ⟨i, hi, hprv⟩ hsingle p.data with ⟨m, hm, hok⟩ | ⟨hnone, -⟩
    · cases hm.unique hopens
      rw [callbackFirst_of_ok hstrategy htype hsome hok]
      exact ⟨fun h => ⟨h.1, rfl⟩, fun h => ⟨h.1, rfl⟩⟩
    · exact absurd hopens (hnone _)
  | true =>
    refine iff_of_false (fun hfirst => ?_) fun h => Bool.noConfusion h.2
    rcases Receiver.decrypt_of_holdsKey ⟨i, hi, hprv⟩ hsingle p.data with ⟨m, hm, hok⟩ | ⟨-, hok⟩
    · have hsame := ((callbackFirst_of_ok hstrategy htype hsome hok data s).mp hfirst).2
      rcases hm with ⟨hplainType, -⟩ | ⟨-, i', -, hopens⟩
      · cases hsingle.symm.trans hplainType
      · have hlt := hopens.length hc
        rw [hplain rfl, hsame] at hlt
        omega
    · exact ((callbackFirst_of_ok hstrategy htype hsome hok data s).mp hfirst).1 rfl

end Callback

/-- The second half: the callback gets the plaintext of a sender's packet exactly when the packet is one that
can be delivered. -/
theorem callbackFirst_iff (hc : c.Lawful) {d : Receiver c} {spec : PacketSpec} {packet p : Packet}
    {ephemeral iv : Bytes} (hstrategy : d.proofStrategy = .proveAll)
    (hdest : d.type = .single ∨ d.type = .plain) (hsome : d.packetCallback.isSome)
    (hiv : iv.length = 16) (hsent : SentTo d spec)
    (hpack : pack (fun _ => d.encrypt ephemeral iv) spec = .ok packet) (hcopy : CopyOf packet p)
    (s : TransportState) :
    CallbackFirst spec.data (deliveryLog d p s) ↔ Deliverable d spec := by
  obtain ⟨carried, hpart, hheader2, hplain, hencrypted⟩ := pack_carries hsent hpack
  obtain rfl : p.data = carried := hcopy.data hpart
  rw [hsent.isData] at hpart
  have htype := hcopy.packetType hpart
  cases hheader : spec.headerType with
  | header2 =>
    -- nothing is carried, so nothing is delivered
    refine iff_of_false (not_callbackFirst hstrategy htype hsome (fun m hm => ?_) _ s)
      fun h => absurd (hheader.symm.trans h.1) HeaderType.noConfusion
    rw [hheader2 hheader] at hm
    exact Receiver.decrypt_nil hm
  | header1 =>
    rcases hdest with hsingle | hplainType
    swap
    · -- a `PLAIN` destination passes on what it gets
      have hcarried : p.data = spec.data := by
        cases hwire : plaintextOnWire spec with
        | true => exact hplain hheader hwire
        | false =>
          have hid := hencrypted hheader hwire
          unfold Receiver.encrypt at hid
          rw [hplainType] at hid
          exact (Except.ok.inj hid).symm
      have hdecrypt : d.decrypt p.data = .ok spec.data := by
        unfold Receiver.decrypt
        rw [hplainType, hcarried]
      rw [callbackFirst_of_ok hstrategy htype hsome hdecrypt]
      exact ⟨fun h => ⟨hheader, h.1, .inl hplainType⟩, fun h => ⟨h.2.1, rfl⟩⟩
    have hnotPlain : d.type ≠ .plain := by
      rw [hsingle]
      exact DestinationType.noConfusion
    by_cases hkey : d.HoldsKey
    swap
    · refine iff_of_false (not_callbackFirst hstrategy htype hsome
        (fun m hm => Receiver.decrypt_keyless hsingle hkey hm) _ s) fun h => ?_
      exact hkey (h.2.2.resolve_left hnotPlain).2.1
    rw [callbackFirst_of_holdsKey hstrategy htype hsome hc hsingle hkey hiv (hplain hheader)
      (hencrypted hheader)]
    exact ⟨fun h => ⟨hheader, h.1, .inr ⟨hsingle, hkey, h.2⟩⟩,
      fun h => ⟨h.2.1, (h.2.2.resolve_left hnotPlain).2.2⟩⟩

/-! ## The main result -/

/-- For a destination that proves everything: a proof means delivery exactly for the packets that were
received, where there is a key to prove with; and the callback comes before the proof exactly for those
packets of a sender whose payload can be delivered. -/
theorem proved_as_delivered_iff (hc : c.Lawful) (d : Receiver c) (hstrategy : d.proofStrategy = .proveAll)
    (hdest : d.type = .single ∨ d.type = .plain) (s : TransportState) :
    (∀ p : Packet, p.packetType = .data →
      (ProofMeansDelivery d p (deliveryLog d p s) ↔ ¬ d.HoldsKey ∨ Received d p.data))
    ∧ (d.packetCallback.isSome → ∀ (ephemeral iv : Bytes) (spec : PacketSpec) (packet p : Packet),
      iv.length = 16 → SentTo d spec → pack (fun _ => d.encrypt ephemeral iv) spec = .ok packet →
      CopyOf packet p → (CallbackFirst spec.data (deliveryLog d p s) ↔ Deliverable d spec)) :=
  ⟨fun _ htype => proofMeansDelivery_iff hstrategy hdest htype s,
    fun hsome _ _ _ _ _ hiv hsent hpack hcopy =>
      callbackFirst_iff hc hstrategy hdest hsome hiv hsent hpack hcopy s⟩

namespace Sample

/-- Primitives that keep everything as it is, on keys of zeros. -/
def plainCiphers : Ciphers where
  x25519Public _ := List.Vector.replicate 32 0
  exchange _ _ := .ok (List.replicate 32 0)
  hkdf n _ _ _ := .ok (List.replicate n 0)
  hmac _ _ := List.Vector.replicate 32 0
  aesEncrypt _ _ b := b
  aesDecrypt _ _ b := b
  stray := 0

theorem plainCiphers_lawful : plainCiphers.Lawful where
  agreement _ _ := rfl
  hkdf_length n _ _ _ key h := by
    cases h
    exact List.length_replicate
  aesEncrypt_length _ _ _ := rfl
  aesDecrypt_length _ _ _ := rfl
  aes _ _ _ _ := rfl

/-- A `SINGLE` destination that proves everything, with a callback. -/
def receiver : Receiver plainCiphers where
  type := .single
  identity := some
    { pub := some (List.replicate 32 0), prv := some [1], hash := .fill 0, derived := fun _ _ => rfl }
  packetCallback := some fun _ _ s => (.ok (), s)
  proofRequested := none
  proofStrategy := .proveAll
  identityProve _ s := (.ok (), s)
  plain := nofun

/-- The packet a sender builds for it. -/
def message (data : Bytes) : PacketSpec where
  destinationType := .single
  destinationHash := .fill 0
  data

theorem message_sent (data : Bytes) : SentTo receiver (message data) := ⟨rfl, rfl, rfl, rfl⟩

/-- A packet as it arrives. -/
def arrived (data : Bytes) : Packet := ofLayout 0 0 none (.fill 0) ContextType.none data

/-- The packet as its sender keeps it, with the plaintext. -/
def packed (carried data : Bytes) : Packet := { arrived carried with data }

theorem arrived_copy (carried data : Bytes) : CopyOf (packed carried data) (arrived carried) :=
  ⟨_, _, unpack_layout (by unfold Addressed; decide), rfl, rfl⟩

/-- The ciphertext of a plaintext that fits one block. -/
def block (plaintext : Bytes) : Bytes :=
  List.replicate 48 0 ++ Cryptography.pad plaintext ++ List.replicate 32 0

end Sample

/-- The callback gets a plaintext of one byte, and every packet is proved as the two equivalences say. -/
theorem proved_as_delivered_iff_byte :
    (∀ p : Packet, p.packetType = .data →
      (ProofMeansDelivery Sample.receiver p (deliveryLog Sample.receiver p {})
        ↔ ¬ Sample.receiver.HoldsKey ∨ Received Sample.receiver p.data))
    ∧ CallbackFirst [1] (deliveryLog Sample.receiver (Sample.arrived (Sample.block [1])) {}) := by
  have h := proved_as_delivered_iff Sample.plainCiphers_lawful Sample.receiver rfl (.inl rfl) {}
  refine ⟨h.1, ?_⟩
  exact (h.2 rfl [] (List.replicate 16 0) (Sample.message [1]) (Sample.packed (Sample.block [1]) [1])
    _ rfl (Sample.message_sent _) (by decide +kernel) (Sample.arrived_copy _ _)).mpr
    ⟨rfl, by decide, .inr ⟨rfl, by decide, rfl⟩⟩

/-- A payload of one byte, which no key opens, is proved; and so is an empty plaintext, without a callback. -/
theorem undelivered_packets_proved :
    (¬ ∀ (c : Ciphers), c.Lawful → ∀ d : Receiver c, d.proofStrategy = .proveAll → d.type = .single →
      ∀ (p : Packet) (s : TransportState), p.packetType = .data →
        ProofMeansDelivery d p (deliveryLog d p s))
    ∧ ¬ ∀ (c : Ciphers), c.Lawful → ∀ d : Receiver c, d.proofStrategy = .proveAll → d.type = .single →
      d.packetCallback.isSome → ∀ (ephemeral iv : Bytes) (spec : PacketSpec) (packet p : Packet)
        (s : TransportState), iv.length = 16 → SentTo d spec → spec.headerType = .header1 →
        spec.context = ContextType.none → pack (fun _ => d.encrypt ephemeral iv) spec = .ok packet →
        CopyOf packet p → CallbackFirst spec.data (deliveryLog d p s) := by
  have hkey : Sample.receiver.HoldsKey := by decide
  constructor
  · intro h
    have hmeans := h _ Sample.plainCiphers_lawful Sample.receiver rfl rfl (Sample.arrived [0]) {} rfl
    rcases (proofMeansDelivery_iff rfl (.inl rfl) rfl _).mp hmeans with hno | ⟨m, hm, -⟩
    · exact hno hkey
    · rcases hm with ⟨hplain, -⟩ | ⟨-, i, -, prv, -, hlong, -⟩
      · cases hplain
      · exact absurd hlong (by decide)
  · intro h
    have hpack : pack (fun _ => Sample.receiver.encrypt [] (List.replicate 16 0)) (Sample.message [])
        = .ok (Sample.packed (Sample.block []) []) := by decide +kernel
    have hfirst := h _ Sample.plainCiphers_lawful Sample.receiver rfl rfl rfl _ _ _ _ _ {} rfl
      (Sample.message_sent []) rfl rfl hpack (Sample.arrived_copy _ _)
    exact ((callbackFirst_iff Sample.plainCiphers_lawful rfl (.inl rfl) rfl rfl (Sample.message_sent [])
      hpack (Sample.arrived_copy _ _) {}).mp hfirst).2.1 rfl

end MicroReticulum.Transport
