import MicroReticulum.Announce.Replay

/-!
# What receiving can change

`Receiving` adds to the changes of sending those that `inbound` makes, up to local handling and in it. A relation that
allows them is kept by everything but the passing on of a proof, whose credit is left out here. Handlers belong to the
application or to other parts of the node; `HandlersKeep` is what is assumed of them.
-/

namespace MicroReticulum.Transport

open MicroReticulum Packet Link Library Announce

variable {env : Environment} {R : TransportState → TransportState → Prop}

/-! ## Local handling -/

/-- A proof that may be on its way back along the reverse table: neither of a link request nor of a resource. -/
def RegularProof (p : Packet) : Prop :=
  p.packetType = .proof ∧ p.context ≠ ContextType.lrproof ∧ p.context ≠ ContextType.resourcePrf

instance (p : Packet) : Decidable (RegularProof p) := inferInstanceAs (Decidable (_ ∧ _ ∧ _))

/-- Such a proof is passed on, and then offered to the receipts. -/
theorem localHandling_of_regularProof {a : Arrived} (h : RegularProof a.packet) (flags : ClientFlags) :
    localHandling env flags a = transportProof env flags a >>= fun _ => concludeReceipts env a := by
  unfold localHandling handleProof
  rw [h.1]
  dsimp only
  rw [if_neg h.2.1, if_neg h.2.2]

/-- The handlers keep `R`. -/
structure HandlersKeep (R : TransportState → TransportState → Prop) (env : Environment) : Prop where
  validateAnnounce : ∀ p s, R s (env.validateAnnounce p s).2
  announce : HandlersSpare R env
  destinationReceive : ∀ d p s, R s (env.destinationReceive d p s).2
  proofRequested : ∀ d requested, env.proofRequested d = some requested → ∀ p s, R s (requested p s).2
  provePacket : ∀ p s, R s (env.provePacket p s).2
  linkReceive : ∀ l p s, R s (env.linkReceive l p s).2
  linkValidateProof : ∀ l p s, R s (env.linkValidateProof l p s).2
  validateProofPacket : ∀ r p link s, R s (env.validateProofPacket r p link s).2

/-- The relation allows every change that receiving makes, but for the credit of a proof that is passed on. -/
structure Receiving (R : TransportState → TransportState → Prop) : Prop extends Sending R, Passing R where
  hashes : ∀ hashes s, R s { s with packetHashlist := hashes }
  known : ∀ table s, R s { s with knownDestinations := table }
  mark : ∀ state d s, R s (markPath state d s)
  waiting : ∀ table s, R s { s with announceTable := table }
  rates : ∀ table s, R s { s with announceRateTable := table }
  pending : ∀ table s, R s { s with pendingLocalPathRequests := table }
  path : ∀ d path s, R s (putPath d path s)
  conclude : ∀ keep s, R s { s with receipts := s.receipts.filter keep }

theorem concludeReceipts_keeps (h : Handing R) (hconclude : ∀ keep s, R s { s with receipts := s.receipts.filter keep })
    (hvalidate : ∀ r p link s, R s (env.validateProofPacket r p link s).2) (a : Arrived) :
    Prog.Keeps R (concludeReceipts env a) := by
  apply Prog.Keeps.bind h.trans (.get h.refl)
  intro s
  apply Prog.Keeps.bind h.trans
  · apply Prog.Keeps.fold h.refl h.trans
    intro r _ concluded
    exact .bind h.trans (callHandler_keeps (hvalidate r _ _)) fun _ => .pure h.refl _
  intro concluded
  exact .modify fun s => hconclude _ s

namespace Receiving

variable (h : Receiving R)

include h

/-! ### Announces -/

theorem identityRecall (d : Address) : Prog.Keeps R (identityRecall env d) :=
  identityRecall_keeps h.refl h.trans (fun s table => h.known table s) d

theorem hearRebroadcast (now : ℚ) (p : Packet) (s : TransportState) : R s (hearRebroadcast now p s) := by
  unfold Transport.hearRebroadcast
  split
  · exact h.refl s
  · split
    · exact h.waiting _ s
    · split
      · exact h.waiting _ s
      · exact h.refl s

theorem cullAnnounceTable (s : TransportState) : R s (cullAnnounceTable env s) := by
  unfold Transport.cullAnnounceTable
  split
  · exact h.waiting _ s
  · exact h.refl s

theorem addAnnounceEntry (d : Address) (e : AnnounceEntry) (s : TransportState) :
    R s (addAnnounceEntry env d e s) :=
  h.trans _ _ _ (h.waiting _ s) (h.cullAnnounceTable _)

variable (hhandlers : HandlersKeep R env)

include hhandlers

theorem acceptAnnounce (p : Packet) (i : Interface) (identity : Address) (blobs : List Bytes) :
    Prog.Keeps R (acceptAnnounce env p i identity blobs) := by
  have hanswer : ∀ context attached, Prog.Keeps R (answerAnnounce env p identity context attached) :=
    fun context attached => .bind h.trans (h.send _) fun _ => .pure h.refl _
  apply Prog.Keeps.bind h.trans (rateBlocked_keeps h.refl h.trans (fun s table => h.rates table s) _ p i)
  intro blocked
  apply Prog.Keeps.bind h.trans
  · exact scheduleAnnounce_keeps h.refl h.trans h.addAnnounceEntry (fun s table => h.pending table s) p i blocked
  intro _
  apply Prog.Keeps.bind h.trans
  · exact answerWaiting_keeps_of_answers h.refl h.trans hanswer (h.identityRecall _) i
  intro _
  apply Prog.Keeps.bind h.trans
  · exact storePath_keeps h.refl h.trans h.path (h.mark .unknown) p i blobs
  intro _
  exact callAnnounceHandlers_keeps h.refl h.trans (h.identityRecall _) hhandlers.announce

theorem handleAnnounce (p : Packet) (i : Interface) (identity : Address) :
    Prog.Keeps R (handleAnnounce env p i identity) := by
  apply Prog.Keeps.bind h.trans (.get h.refl)
  intro s
  apply Prog.Keeps.when h.refl
  intro _
  apply Prog.Keeps.bind h.trans (callHandler_keeps (hhandlers.validateAnnounce p))
  intro valid
  apply Prog.Keeps.when h.refl
  intro _
  apply Prog.Keeps.bind h.trans (.when h.refl fun _ => .modify (h.hearRebroadcast _ p))
  intro _
  apply Prog.Keeps.bind h.trans (.get h.refl)
  intro t
  apply Prog.Keeps.when h.refl
  intro _
  apply Prog.Keeps.bind h.trans (shouldAddPath_keeps h.refl h.trans (h.mark .unknown) _ p)
  intro shouldAdd
  apply Prog.Keeps.bind h.trans (blackholeAllows_keeps h.refl h.trans (h.identityRecall _) _)
  intro allowed
  exact .when h.refl fun _ => h.acceptAnnounce hhandlers p i identity _

/-! ### The other packets -/

theorem handleLinkRequest (a : Arrived) : Prog.Keeps R (handleLinkRequest env a) := by
  apply Prog.Keeps.bind h.trans (.get h.refl)
  intro s
  apply Prog.Keeps.when h.refl
  intro _
  split
  · exact .pure h.refl _
  · exact callHandler_keeps (hhandlers.destinationReceive _ _)

theorem handleLinkData (a : Arrived) : Prog.Keeps R (handleLinkData env a) := by
  apply Prog.Keeps.bind h.trans (.get h.refl)
  intro s
  split
  · exact .pure h.refl _
  · split
    · exact callHandler_keeps (hhandlers.linkReceive _ _)
    · exact .modify fun s => h.hashes _ s

theorem handleDestinationData (a : Arrived) : Prog.Keeps R (handleDestinationData env a) := by
  apply Prog.Keeps.bind h.trans (.get h.refl)
  intro s
  split
  · exact .pure h.refl _
  · apply Prog.Keeps.bind h.trans (callHandler_keeps (hhandlers.destinationReceive _ _))
    intro _
    split
    · exact callHandler_keeps (hhandlers.provePacket _)
    · split
      · exact .pure h.refl _
      · rename_i requested hrequested
        apply Prog.Keeps.catching h.trans _ fun _ => .pure h.refl _
        apply Prog.Keeps.bind h.trans (callHandler_keeps (hhandlers.proofRequested _ _ hrequested _))
        intro prove
        exact .when h.refl fun _ => callHandler_keeps (hhandlers.provePacket _)
    · exact .pure h.refl _

omit hhandlers in
theorem transportLinkProof (a : Arrived) (entry : LinkEntry) : Prog.Keeps R (transportLinkProof env a entry) := by
  apply Prog.Keeps.when h.refl
  intro _
  apply Prog.Keeps.bind h.trans (.ofExcept h.refl _)
  intro signalling
  apply Prog.Keeps.bind h.trans (h.identityRecall _)
  intro identity
  split
  · exact .pure h.refl _
  · apply Prog.Keeps.when h.refl
    intro _
    exact .bind h.trans (.modify (h.link _ _)) fun _ => h.transmitOn _ _

theorem handleLinkProof (flags : ClientFlags) (a : Arrived) : Prog.Keeps R (handleLinkProof env flags a) := by
  apply Prog.Keeps.bind h.trans (.get h.refl)
  intro s
  split
  · apply Prog.Keeps.when h.refl
    intro _
    exact .catching h.trans (h.transportLinkProof a _) fun _ => .pure h.refl _
  · exact .forEach h.refl h.trans _ fun l _ => callHandler_keeps (hhandlers.linkValidateProof _ _)

theorem handleResourceProof (a : Arrived) : Prog.Keeps R (handleResourceProof env a) := by
  apply Prog.Keeps.bind h.trans (.get h.refl)
  intro s
  exact .forEach h.refl h.trans _ fun l _ => callHandler_keeps (hhandlers.linkReceive _ _)

theorem concludeReceipts (a : Arrived) : Prog.Keeps R (concludeReceipts env a) :=
  concludeReceipts_keeps h.toHanding h.conclude hhandlers.validateProofPacket a

theorem localHandling (flags : ClientFlags) (a : Arrived) (hproof : ¬ RegularProof a.packet) :
    Prog.Keeps R (localHandling env flags a) := by
  unfold Transport.localHandling
  split
  · exact h.handleAnnounce hhandlers _ _ _
  · exact h.handleLinkRequest hhandlers a
  · split
    · exact h.handleLinkData hhandlers a
    · exact h.handleDestinationData hhandlers a
  · rename_i htype
    unfold handleProof
    split
    · exact h.handleLinkProof hhandlers flags a
    · split
      · exact h.handleResourceProof hhandlers a
      · rename_i hlink hresource
        exact absurd ⟨htype, hlink, hresource⟩ hproof

/-- A relation that allows the credit of a proof as well is kept by `inbound`. -/
theorem inbound (hcredit : ∀ now nextHop s, R s (recordNeighborProof now nextHop s)) (raw : Bytes)
    (interface : Option Interface) : Prog.Keeps R (inbound env raw interface) := by
  have hlocal : ∀ flags a, Prog.Keeps R (Transport.localHandling env flags a) := by
    intro flags a
    by_cases hproof : RegularProof a.packet
    case neg => exact h.localHandling hhandlers flags a hproof
    case pos =>
      rw [localHandling_of_regularProof hproof]
      apply Prog.Keeps.bind h.trans _ fun _ => h.concludeReceipts hhandlers a
      apply Prog.Keeps.bind h.trans (.get h.refl)
      intro s
      split
      · exact .pure h.refl _
      · apply Prog.Keeps.when h.refl
        intro _
        exact .bind h.trans (h.transmitOn _ _) fun _ => .modify (hcredit _ _)
  intro s
  rw [inbound_state]
  refine Prog.Keeps.bind h.trans (h.toPassing.untilLocal raw interface) (fun arrived => ?_) s
  cases arrived with
  | none => exact .modify (h.lock false)
  | some arrived => exact .bind h.trans (hlocal arrived.1 arrived.2) fun _ => .modify (h.lock false)

end Receiving

end MicroReticulum.Transport
