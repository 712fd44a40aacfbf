import Mathlib.Logic.Relation
import MicroReticulum.Announce.Provenance

/-!
# Announces passed on from node to node

A node is its state together with the arrivals it has accepted. `RelayStep` is what happens to it, in any
order: announces come in, the announce job runs, paths are asked for, path records are read and stored
again, the node restarts with its path store. `Chain first n a` says that `a` is what the `n`-th node of
a chain accepted of an announce that the first node accepted as `first`.

Two results follow from where relayed announces come from. `relays_faithful_iff`: what a node hands out
of an announce says the same one hop further exactly when the payload fits the packet constructor and the
hop byte is not the last one. `hop_limit_iff`: the hop limit bounds what is accepted and how far it gets,
again except for the last value of the hop byte, which counts as none.
-/

namespace MicroReticulum.Announce

open MicroReticulum Packet Link Library Transport

/-! ## Nodes -/

/-- A state and the arrivals that were accepted before it. -/
abbrev Node : Type := TransportState × List Arrival

/-- A node that has not heard anything. -/
def Node.Fresh (n : Node) : Prop :=
  n.1.announceTable = ∅ ∧ n.1.heldAnnounces = ∅ ∧ n.1.pathTable = ∅ ∧ n.1.wire = [] ∧ n.2 = []

/-- A step of a node. The clock, the settings and the stores may differ from step to step. -/
inductive RelayStep : Node → Node → Prop
  /-- an announce comes in and is accepted -/
  | accepts (env : Environment) (henv : Validates env)
    (hhandlers : ∀ accepted, HandlersKeep accepted env) (s : TransportState)
    (accepted : List Arrival) (a : Arrival) (i : Interface) (identity : Address)
    (hpeer : a.fromPeer = leadsToPeers s i) (blobs : List Bytes)
    (haccepted : (judgeAnnounce env a.arrived s).1 = .value (some blobs)) :
    RelayStep (s, accepted) ((handleAnnounce env a.arrived i identity s).2, a :: accepted)
  /-- an announce comes in and is not accepted -/
  | refuses (env : Environment) (henv : Validates env) (s : TransportState)
    (accepted : List Arrival) (a : Arrival) (i : Interface) (identity : Address)
    (hpeer : a.fromPeer = leadsToPeers s i)
    (hrefused : ∀ blobs, (judgeAnnounce env a.arrived s).1 ≠ .value (some blobs)) :
    RelayStep (s, accepted) ((handleAnnounce env a.arrived i identity s).2, accepted)
  | job (env : Environment) (s : TransportState) (accepted : List Arrival) :
    RelayStep (s, accepted) ((announceJob env s).2, accepted)
  | request (env : Environment) (calls : PathRequestCalls)
    (hcalls : ∀ accepted, CallsKeep accepted calls) (r : PathRequest) (s : TransportState)
    (accepted : List Arrival) : RelayStep (s, accepted) ((pathRequest env calls r s).2, accepted)
  /-- a path record is read and stored again -/
  | restore (s : TransportState) (accepted : List Arrival) (d : Address) (entry : DestinationEntry)
    (hentry : getPath s d = some entry) :
    RelayStep (s, accepted) (putPath d entry.encode s, accepted)
  /-- a restart keeps path records and nothing else -/
  | restart (s t : TransportState) (accepted : List Arrival) (hannounces : t.announceTable = ∅)
    (hheld : t.heldAnnounces = ∅)
    (hpaths : ∀ d r, t.pathTable.lookup d = some r → s.pathTable.lookup d = some r)
    (hwire : t.wire = s.wire) : RelayStep (s, accepted) (t, accepted)
  /-- anything that neither keeps an announce nor hands one out with a transport header -/
  | other (s t : TransportState) (accepted : List Arrival)
    (hkeeps : ∀ accepted, Sourced accepted s → Sourced accepted t) :
    RelayStep (s, accepted) (t, accepted)

/-- What holds of every node: the source of all it keeps and hands out, and the hop limit. -/
structure Node.Sound (n : Node) : Prop where
  sourced : Sourced n.2 n.1
  limit : ∀ a ∈ n.2, a.hops < pathfinderM + 1

theorem Node.Fresh.sound {n : Node} (h : n.Fresh) : n.Sound := by
  obtain ⟨hannounces, hheld, hpaths, hwire, haccepted⟩ := h
  refine ⟨⟨?_, ?_, ?_, ?_⟩, ?_⟩
  · rw [hannounces]; exact TableAll.empty
  · rw [hheld]; exact TableAll.empty
  · rw [hpaths]; exact TableAll.empty
  · rw [hwire]; intro x hx; cases hx
  · rw [haccepted]; intro a ha; cases ha

/-- Each step keeps it. -/
theorem RelayStep.sound {n n' : Node} (hstep : RelayStep n n') (h : n.Sound) : n'.Sound := by
  cases hstep with
  | accepts env henv hhandlers s accepted a i identity hpeer blobs haccepted =>
    have hmono : Sourced (a :: accepted) s := h.sourced.mono fun b hb => List.mem_cons_of_mem a hb
    refine ⟨?_, fun b hb => ?_⟩
    · show Sourced (a :: accepted) (handleAnnounce env a.arrived i identity s).2
      rw [handleAnnounce_eq]
      refine (?_ : KeepsSourced (a :: accepted) _) s hmono
      refine .bind (judgeAnnounce_sourced henv a.arrived) fun decision => ?_
      cases decision with
      | none => exact .pure _
      | some blobs =>
        exact acceptAnnounce_sourced List.mem_cons_self (hhandlers _) i identity blobs
    · rcases List.mem_cons.mp hb with rfl | hold
      · exact judgeAnnounce_hops haccepted
      · exact h.limit b hold
  | refuses env henv s accepted a i identity hpeer hrefused =>
    refine ⟨?_, h.limit⟩
    show Sourced accepted (handleAnnounce env a.arrived i identity s).2
    have hjudged : Sourced accepted (judgeAnnounce env a.arrived s).2 :=
      judgeAnnounce_sourced henv a.arrived s h.sourced
    rw [handleAnnounce_eq, Prog.bind_run]
    rcases hrun : judgeAnnounce env a.arrived s with ⟨decision | _ | _ | _, t⟩ <;>
      rw [hrun] at hjudged
    case value =>
      cases decision with
      | none => exact hjudged
      | some blobs => exact absurd (congrArg Prod.fst hrun) (hrefused blobs)
    all_goals exact hjudged
  | job env s accepted => exact ⟨announceJob_sourced s h.sourced, h.limit⟩
  | request env calls hcalls r s accepted =>
    exact ⟨pathRequest_sourced (hcalls accepted) r s h.sourced, h.limit⟩
  | restore s accepted d entry hentry => exact ⟨restore_sourced h.sourced hentry, h.limit⟩
  | restart s t accepted hannounces hheld hpaths hwire =>
    have hs : Sourced accepted s := h.sourced
    refine ⟨⟨?_, ?_, fun d r hr => hs.paths d r (hpaths d r hr), ?_⟩, h.limit⟩
    · rw [hannounces]; exact TableAll.empty
    · rw [hheld]; exact TableAll.empty
    · rw [hwire]; exact hs.wire
  | other s t accepted hkeeps => exact ⟨hkeeps accepted h.sourced, h.limit⟩

/-- A node in any run from a fresh start. -/
def Node.Reached (n : Node) : Prop := ∃ fresh : Node, fresh.Fresh ∧ Relation.ReflTransGen RelayStep fresh n

theorem Node.Reached.sound {n : Node} (h : n.Reached) : n.Sound := by
  obtain ⟨fresh, hfresh, hrun⟩ := h
  induction hrun with
  | refl => exact hfresh.sound
  | tail _ hstep ih => exact hstep.sound ih

/-! ## One hop further -/

/-- `validate_announce` reads the packet type, the flag, the destination and the payload. -/
theorem validateAnnounce_congr {p q : Packet} (htype : q.packetType = p.packetType)
    (hflag : q.contextFlag = p.contextFlag) (hdestination : q.destinationHash = p.destinationHash)
    (hdata : q.data = p.data) (env : Environment) (only : Bool) :
    validateAnnounce env q only = validateAnnounce env p only := by
  unfold validateAnnounce signatureValid hashMatches acceptIdentity
  rw [htype, hflag, hdestination, hdata]

/-- A packet that says what an arrival said, one hop further, and is valid wherever the arrival is. -/
structure Faithful (a : Arrival) (q : Packet) : Prop where
  destinationHash : q.destinationHash = a.packet.destinationHash
  contextFlag : q.contextFlag = a.packet.contextFlag
  data : q.data = a.packet.data
  hops : q.hops.toNat = a.packet.hops.toNat + 1
  valid : ∀ env, validateAnnounce env q false = validateAnnounce env a.packet false

/-- The payload fits the packet constructor, and the hop byte can be counted up. -/
def Arrival.Fits (a : Arrival) : Prop := a.packet.data.length ≤ reticulumMdu ∧ a.packet.hops ≠ 255

/-- A hop byte is counted up, except for the last one. -/
theorem toNat_succ_iff (h : UInt8) : (h + 1).toNat = h.toNat + 1 ↔ h ≠ 255 := by
  revert h
  apply forall_byte
  decide +kernel

theorem hops_of_fromPeer {a : Arrival} (hpeer : a.fromPeer = true) : a.hops = a.packet.hops + 1 := by
  simp [Arrival.hops, hpeer]

theorem RelayOf.hops_eq {a : Arrival} {q : Packet} (h : RelayOf a q) (hpeer : a.fromPeer = true) :
    q.hops = a.packet.hops + 1 := by
  rcases h.hops with hq | hq
  · rw [hq, hops_of_fromPeer hpeer]
  · exact hq

/-- What is sent for an arrival from another node says the same exactly if it fits. -/
theorem RelayOf.faithful_iff {a : Arrival} {q : Packet} (h : RelayOf a q) (hq : Relayed q)
    (hpeer : a.fromPeer = true) : Faithful a q ↔ a.Fits := by
  constructor
  · intro hfaithful
    refine ⟨?_, (toNat_succ_iff _).mp (h.hops_eq hpeer ▸ hfaithful.hops)⟩
    have hlength := congrArg List.length (hfaithful.data.symm.trans h.data)
    rw [Bytes.left_length] at hlength
    omega
  · rintro ⟨hfits, hlast⟩
    have hdata : q.data = a.packet.data := h.data.trans (List.take_of_length_le hfits)
    exact
      { destinationHash := h.destinationHash
        contextFlag := h.contextFlag
        data := hdata
        hops := h.hops_eq hpeer ▸ (toNat_succ_iff _).mpr hlast
        valid := fun env => validateAnnounce_congr (hq.1.trans a.isAnnounce.symm) h.contextFlag
          h.destinationHash hdata env false }

/-! ## Chains -/

/-- The `k`-th node of a chain has accepted `a` from the node before it; the first one `first`. -/
inductive Chain (first : Arrival) : Nat → Arrival → Prop
  | first (n : Node) (hreached : n.Reached) (haccepted : first ∈ n.2)
    (hpeer : first.fromPeer = true) : Chain first 1 first
  | next (k : Nat) (a : Arrival) (h : Chain first k a) (n : Node) (hreached : n.Reached)
    (haccepted : a ∈ n.2) (x : Interface × Bytes) (hsent : x ∈ n.1.wire) (b : Arrival)
    (hreceived : b.raw = x.2) (hrelayed : Relayed b.packet) (hrelay : RelayOf a b.packet)
    (hpeer : b.fromPeer = true) (n' : Node) (hreached' : n'.Reached) (haccepted' : b ∈ n'.2) :
    Chain first (k + 1) b

theorem Chain.fromPeer {first a : Arrival} {k : Nat} (h : Chain first k a) : a.fromPeer = true := by
  cases h <;> assumption

/-- What a chain has accepted is within the hop limit. -/
theorem Chain.limit {first a : Arrival} {k : Nat} (h : Chain first k a) :
    a.hops.toNat ≤ pathfinderM.toNat := by
  have hlimit : a.hops < pathfinderM + 1 := by
    cases h with
    | first n hreached haccepted => exact hreached.sound.limit _ haccepted
    | next _ _ _ _ _ _ _ _ _ _ _ _ _ n' hreached' haccepted' =>
      exact hreached'.sound.limit a haccepted'
  have hnat := UInt8.lt_iff_toNat_lt.mp hlimit
  have hbound : (pathfinderM + 1).toNat = 129 := rfl
  have hpath : pathfinderM.toNat = 128 := rfl
  omega

/-- Along a chain the hop count goes up by one from node to node. -/
theorem Chain.hops {first a : Arrival} {k : Nat} (h : Chain first k a)
    (hlast : first.packet.hops ≠ 255) : a.hops.toNat = first.packet.hops.toNat + k := by
  induction h with
  | first n hreached haccepted hpeer =>
    rw [hops_of_fromPeer hpeer]
    exact (toNat_succ_iff _).mpr hlast
  | next k a h n hreached haccepted x hsent b hreceived hrelayed hrelay hpeer _ _ _ ih =>
    have hlimit := h.limit
    have hbyte : b.packet.hops = a.hops := by
      rw [hrelay.hops_eq h.fromPeer, hops_of_fromPeer h.fromPeer]
    have hnot : a.hops ≠ 255 := by
      intro heq
      rw [heq] at hlimit
      exact absurd hlimit (by decide)
    rw [hops_of_fromPeer hpeer, hbyte, (toNat_succ_iff _).mpr hnot, ih]
    rfl

/-- Along a chain the payload of an announce that fits stays the same. -/
theorem Chain.payload {first a : Arrival} {k : Nat} (h : Chain first k a)
    (hfits : first.packet.data.length ≤ reticulumMdu) :
    a.packet.data = first.packet.data ∧ a.packet.contextFlag = first.packet.contextFlag
      ∧ a.packet.destinationHash = first.packet.destinationHash := by
  induction h with
  | first => exact ⟨rfl, rfl, rfl⟩
  | next k a h n hreached haccepted x hsent b hreceived hrelayed hrelay _ _ _ _ ih =>
    obtain ⟨hdata, hflag, hdestination⟩ := ih
    refine ⟨?_, hrelay.contextFlag.trans hflag, hrelay.destinationHash.trans hdestination⟩
    rw [hrelay.data, hdata]
    exact List.take_of_length_le hfits

/-! ## A node with one request waiting -/

namespace Sample

/-- The flags of an announce that was not relayed. -/
def announceFlags : UInt8 :=
  packFlags
    { headerType := .header1, contextFlag := .unset, transportType := .broadcast
      destinationType := .single, packetType := .announce }

/-- The flags of an announce that was. -/
def relayedFlags : UInt8 :=
  packFlags
    { headerType := .header2, contextFlag := .unset, transportType := .transport
      destinationType := .single, packetType := .announce }

/-- An announce from another node, with a hop byte and a payload. -/
def arrival (hops : UInt8) (data : Bytes) : Arrival where
  raw := layout announceFlags hops none (.fill 0) ContextType.none data
  packet := ofLayout announceFlags hops none (.fill 0) ContextType.none data
  unpacks := unpack_layout (by unfold Addressed announceFlags; decide)
  isAnnounce := by
    show (unpackFlags announceFlags).packetType = .announce
    decide
  fromPeer := true

/-- A node to which every signature is valid and every hash zero. -/
def trusting : Environment :=
  { Environment.idle with validateAnnounce := validateHandler Environment.idle }

/-- Somebody waits for the path. -/
def waiting : TransportState :=
  { interfaces := [{ id := 1 }]
    discoveryPathRequests := (∅ : Table PathRequestEntry).insert (.fill 0)
      { timeout := 0, requestingInterface := some { id := 1 } } }

/-- The node behind the announce. -/
def after (a : Arrival) : TransportState :=
  (handleAnnounce trusting a.arrived { id := 1 } (.fill 3) waiting).2

theorem after_reached {a : Arrival} (hpeer : a.fromPeer = true) (blobs : List Bytes)
    (haccepted : (judgeAnnounce trusting a.arrived waiting).1 = .value (some blobs)) :
    Node.Reached (after a, [a]) := by
  refine ⟨(waiting, []), ⟨rfl, rfl, rfl, rfl, rfl⟩, .single ?_⟩
  exact .accepts trusting (fun _ => rfl) (fun _ handler hmem => by cases hmem) waiting [] a { id := 1 }
    (.fill 3) hpeer blobs haccepted

/-- As short as an announce can be. -/
def payload : Bytes := List.replicate 148 7

/-- One byte more than the packet constructor keeps. -/
def longPayload : Bytes := List.replicate 465 7

/-- The answer that goes out. -/
def answer (hops : UInt8) (data : Bytes) : Bytes :=
  layout relayedFlags hops (some (.fill 3)) (.fill 0) ContextType.pathResponse data

theorem unpack_answer (hops : UInt8) (data : Bytes) :
    unpack (answer hops data) = some
      (ofLayout relayedFlags hops (some (.fill 3)) (.fill 0) ContextType.pathResponse data) :=
  unpack_layout (by unfold Addressed relayedFlags; decide)

theorem relayed_answer (hops : UInt8) (data : Bytes) :
    Relayed (ofLayout relayedFlags hops (some (.fill 3)) (.fill 0) ContextType.pathResponse data) := by
  show (unpackFlags relayedFlags).packetType = .announce
    ∧ (unpackFlags relayedFlags).headerType = .header2
  decide

end Sample

/-! ## The two results -/

/-- In every run of a node, each announce it hands out under a transport header was made of an accepted
arrival; if that came from another node, the announce says the same one hop further exactly if the
arrival fits. Along every chain of nodes an announce that fits keeps its payload, stays valid, and is
stored with one more hop at every node. -/
theorem relays_faithful_iff (n : Node) (hreached : n.Reached) :
    (∀ x ∈ n.1.wire, ∀ q, unpack x.2 = some q → Relayed q →
        ∃ a ∈ n.2, RelayOf a q ∧ (a.fromPeer = true → (Faithful a q ↔ a.Fits)))
      ∧ (∀ d r, n.1.pathTable.lookup d = some r → ∃ a ∈ n.2, r.announce = a.raw ∧ r.hops = a.hops)
      ∧ ∀ first ∈ n.2, first.Fits → ∀ k a, Chain first k a →
        a.hops.toNat = first.packet.hops.toNat + k ∧ a.packet.data = first.packet.data
          ∧ ∀ env, validateAnnounce env a.packet false = validateAnnounce env first.packet false := by
  have hsound := hreached.sound
  refine ⟨fun x hx q hq hrelayed => ?_, fun d r hr => ?_, fun first _ hfits k a hchain => ?_⟩
  · obtain ⟨a, ha, hrelay⟩ := hsound.sourced.wire x hx q hq hrelayed
    exact ⟨a, ha, hrelay, hrelay.faithful_iff hrelayed⟩
  · obtain ⟨a, ha, -, hraw, hhops⟩ := hsound.sourced.paths d r hr
    exact ⟨a, ha, hraw, hhops⟩
  · obtain ⟨hdata, hflag, hdestination⟩ := hchain.payload hfits.1
    exact ⟨hchain.hops hfits.2, hdata, fun env => validateAnnounce_congr
      (a.isAnnounce.trans first.isAnnounce.symm) hflag hdestination hdata env false⟩

set_option maxRecDepth 8000 in
/-- The answer to the waiting request says what the announce said. -/
theorem relays_faithful_iff_answer :
    ∃ q, unpack (Sample.answer 1 Sample.payload) = some q
      ∧ Faithful (Sample.arrival 0 Sample.payload) q := by
  have hreached := Sample.after_reached (a := Sample.arrival 0 Sample.payload) rfl [] rfl
  have hwire : (Sample.after (Sample.arrival 0 Sample.payload)).wire
      = [({ id := 1 }, Sample.answer 1 Sample.payload)] := rfl
  have hunpack := Sample.unpack_answer 1 Sample.payload
  obtain ⟨a, ha, -, hiff⟩ := (relays_faithful_iff _ hreached).1
    ({ id := 1 }, Sample.answer 1 Sample.payload) (hwire ▸ List.mem_cons_self) _ hunpack
    (Sample.relayed_answer 1 Sample.payload)
  rw [List.mem_singleton.mp ha] at hiff
  exact ⟨_, hunpack, (hiff rfl).mpr ⟨by decide, by decide⟩⟩

set_option maxRecDepth 8000 in
/-- The answer leaves out what the packet constructor has no room for. -/
theorem long_announce_cut :
    ¬ ∀ n : Node, n.Reached → ∀ x ∈ n.1.wire, ∀ q, unpack x.2 = some q → Relayed q →
      ∃ a ∈ n.2, RelayOf a q ∧ (a.fromPeer = true → Faithful a q) := by
  intro h
  have hreached := Sample.after_reached (a := Sample.arrival 0 Sample.longPayload) rfl [] rfl
  have hwire : (Sample.after (Sample.arrival 0 Sample.longPayload)).wire
      = [({ id := 1 }, Sample.answer 1 (Sample.longPayload.left reticulumMdu))] := rfl
  obtain ⟨a, ha, -, hfaithful⟩ := h _ hreached
    ({ id := 1 }, Sample.answer 1 (Sample.longPayload.left reticulumMdu)) (hwire ▸ List.mem_cons_self)
    _ (Sample.unpack_answer _ _) (Sample.relayed_answer _ _)
  rw [List.mem_singleton.mp ha] at hfaithful
  have hlength := congrArg List.length (hfaithful rfl).data
  exact absurd hlength (by decide +kernel)

/-- The hop byte of an arrival is below the limit, and its hop count is higher than that byte. -/
def Arrival.Bounded (a : Arrival) : Prop :=
  a.packet.hops.toNat < pathfinderM.toNat ∧ a.packet.hops.toNat < a.hops.toNat

/-- In every run of a node, what it has stored and handed out of announces was made of accepted
arrivals; and an accepted arrival from another node is bounded by the hop limit exactly if its hop byte
was not the last one. A chain that starts below that byte ends at the limit. -/
theorem hop_limit_iff (n : Node) (hreached : n.Reached) :
    (∀ a ∈ n.2, a.fromPeer = true → (a.Bounded ↔ a.packet.hops ≠ 255))
      ∧ (∀ d r, n.1.pathTable.lookup d = some r → ∃ a ∈ n.2, r.announce = a.raw ∧ r.hops = a.hops)
      ∧ (∀ x ∈ n.1.wire, ∀ q, unpack x.2 = some q → Relayed q → ∃ a ∈ n.2, RelayOf a q)
      ∧ ∀ first ∈ n.2, first.packet.hops ≠ 255 → ∀ k a, Chain first k a →
        first.packet.hops.toNat + k ≤ pathfinderM.toNat := by
  have hsound := hreached.sound
  refine ⟨fun a ha hpeer => ?_, fun d r hr => ?_, hsound.sourced.wire,
    fun first _ hlast k a hchain => ?_⟩
  · have hlimit := UInt8.lt_iff_toNat_lt.mp (hsound.limit a ha)
    have hbound : (pathfinderM + 1).toNat = 129 := rfl
    have hpath : pathfinderM.toNat = 128 := rfl
    have hbyte := toNat_succ_iff a.packet.hops
    unfold Arrival.Bounded
    rw [hops_of_fromPeer hpeer] at hlimit ⊢
    constructor
    · rintro ⟨hfar, hmore⟩ hlast
      rw [hlast] at hfar
      exact absurd hfar (by decide)
    · intro hlast
      have hsucc := hbyte.mpr hlast
      omega
  · obtain ⟨a, ha, -, hraw, hhops⟩ := hsound.sourced.paths d r hr
    exact ⟨a, ha, hraw, hhops⟩
  · have hhops := hchain.hops hlast
    have hlimit := hchain.limit
    omega

theorem hop_limit_iff_answer : (Sample.arrival 0 Sample.payload).Bounded := by
  have hreached := Sample.after_reached (a := Sample.arrival 0 Sample.payload) rfl [] rfl
  exact ((hop_limit_iff _ hreached).1 _ List.mem_cons_self rfl).mpr (by decide)

set_option maxRecDepth 8000 in
/-- An announce with the last hop byte is stored as if it came from next door. -/
theorem last_hop_byte_stored :
    ¬ ∀ n : Node, n.Reached → ∀ d r, n.1.pathTable.lookup d = some r →
      ∀ p, unpack r.announce = some p →
        p.hops.toNat < pathfinderM.toNat ∧ p.hops.toNat < r.hops.toNat := by
  intro h
  have hreached := Sample.after_reached (a := Sample.arrival 255 Sample.payload) rfl [] rfl
  have hstored : (Sample.after (Sample.arrival 255 Sample.payload)).pathTable.lookup (.fill 0)
      = some _ := rfl
  have hfar := (h _ hreached _ _ hstored _ (Sample.arrival 255 Sample.payload).unpacks).1
  exact absurd hfar (by decide)

end MicroReticulum.Announce
