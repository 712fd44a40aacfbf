import MicroReticulum.Wire.Bytes

/-!
# HMAC objects

An `HMAC` object feeds a hash object of the library below, which is a parameter here: its state, and what it does
to it. `HashLibrary.Implements` is what the library promises, HMAC of everything it was fed since the key, in
whatever pieces.

The constructor feeds the message it is given. `digest`, which is one call for all of it, feeds the message a
second time, so what it returns is the HMAC of the message written twice.
-/

namespace MicroReticulum.Cryptography

/-- `HMAC::Digest` -/
inductive Digest where
  | none | sha256 | sha512
  deriving DecidableEq, Repr

/-- The hash objects of the library, with the states they go through. -/
structure HashLibrary (σ : Type) where
  /-- a new object of the kind, and `resetHMAC` with the key -/
  resetHmac : Digest → Bytes → σ
  update : σ → Bytes → σ
  /-- state, key, length; the object is left in some state -/
  finalizeHmac : σ → Bytes → Nat → Bytes × σ
  hashSize : Digest → Nat

/-- The library computes the function, over all that an object was fed. -/
structure HashLibrary.Implements {σ : Type} (lib : HashLibrary σ) (hmac : Digest → Bytes → Bytes → Bytes) : Prop where
  finalize : ∀ kind key (chunks : List Bytes),
    (lib.finalizeHmac (chunks.foldl lib.update (lib.resetHmac kind key)) key (lib.hashSize kind)).1
      = hmac kind key chunks.flatten
  length : ∀ kind key message, (hmac kind key message).length = lib.hashSize kind

/-- `HMAC` -/
structure Hmac (σ : Type) where
  key : Bytes
  kind : Digest
  hash : σ

namespace Hmac

variable {σ : Type} (lib : HashLibrary σ)

/-- `HMAC::update` -/
def update (h : Hmac σ) (msg : Bytes) : Hmac σ := { h with hash := lib.update h.hash msg }

/-- The constructor of `HMAC` -/
def new (key msg : Bytes) (digest : Digest) : Except String (Hmac σ) :=
  if digest = .none then .error "Cannot derive key from empty input material"
  else
    let h : Hmac σ := { key, kind := digest, hash := lib.resetHmac digest key }
    .ok (if msg = [] then h else h.update lib msg)

/-- `HMAC::digest`: the result, and the object behind it. -/
def digest (h : Hmac σ) : Bytes × Hmac σ :=
  let result := lib.finalizeHmac h.hash h.key (lib.hashSize h.kind)
  (result.1, { h with hash := result.2 })

/-- `HMAC::generate` -/
def generate (key msg : Bytes) (digest : Digest) : Except String (Hmac σ) := new lib key msg digest

end Hmac

variable {σ : Type}

/-- `Cryptography::digest` -/
def digest (lib : HashLibrary σ) (key msg : Bytes) (kind : Digest) : Except String Bytes := do
  let h ← Hmac.new lib key msg kind
  let h := h.update lib msg
  pure (h.digest lib).1

/-- An object that is fed a message through its constructor and in chunks, and is asked for its digest. -/
def digestInChunks (lib : HashLibrary σ) (key first : Bytes) (chunks : List Bytes) (kind : Digest) :
    Except String Bytes := do
  let h ← Hmac.new lib key first kind
  pure ((chunks.foldl (Hmac.update lib) h).digest lib).1

/-- However the message is fed, the same comes back. -/
def EntryPointsAgree (lib : HashLibrary σ) (key msg : Bytes) (kind : Digest) : Prop :=
  ∀ (first : Bytes) (chunks : List Bytes), first ++ chunks.flatten = msg →
    digestInChunks lib key first chunks kind = digestInChunks lib key msg [] kind
      ∧ digest lib key msg kind = digestInChunks lib key msg [] kind

variable {lib : HashLibrary σ} {hmac : Digest → Bytes → Bytes → Bytes} {key msg first : Bytes} {chunks : List Bytes}
  {kind : Digest}

theorem foldl_update (h : Hmac σ) (chunks : List Bytes) :
    chunks.foldl (Hmac.update lib) h = { h with hash := chunks.foldl lib.update h.hash } := by
  induction chunks generalizing h with
  | nil => rfl
  | cons chunk chunks ih => exact ih (h.update lib chunk)

/-- An object that was fed in chunks has fed the library some chunks of the same message. -/
theorem digestInChunks_eq (hlib : lib.Implements hmac) (hkind : kind ≠ .none) (first : Bytes) (chunks : List Bytes) :
    digestInChunks lib key first chunks kind = .ok (hmac kind key (first ++ chunks.flatten)) := by
  obtain ⟨fed, hfed, hflat⟩ : ∃ fed : List Bytes, Hmac.new lib key first kind
      = .ok { key, kind, hash := fed.foldl lib.update (lib.resetHmac kind key) } ∧ fed.flatten = first := by
    unfold Hmac.new
    rw [if_neg hkind]
    by_cases hempty : first = []
    · exact ⟨[], congrArg Except.ok (if_pos hempty), hempty.symm⟩
    · exact ⟨[first], congrArg Except.ok (if_neg hempty), List.flatten_singleton⟩
  have hall := hlib.finalize kind key (fed ++ chunks)
  rw [List.foldl_append, List.flatten_append, hflat] at hall
  unfold digestInChunks
  rw [hfed, ← hall]
  show Except.ok ((chunks.foldl (Hmac.update lib) _).digest lib).1 = _
  rw [foldl_update]
  rfl

/-- The one call is a constructor and one more chunk. -/
theorem digest_eq_chunks (lib : HashLibrary σ) (key msg : Bytes) (kind : Digest) :
    digest lib key msg kind = digestInChunks lib key msg [msg] kind := rfl

/-- A library whose digests tell one byte about the message. -/
def tellingLibrary (tell : Bytes → UInt8) : HashLibrary (Digest × Bytes) where
  resetHmac kind _ := (kind, [])
  update s chunk := (s.1, s.2 ++ chunk)
  finalizeHmac s _ length := (List.replicate length (tell s.2), s)
  hashSize
    | .none => 0
    | .sha256 => 32
    | .sha512 => 64

theorem tellingLibrary_implements (tell : Bytes → UInt8) :
    (tellingLibrary tell).Implements fun kind _ message =>
      List.replicate ((tellingLibrary tell).hashSize kind) (tell message) where
  finalize kind key chunks := by
    have hfed : ∀ (s : Digest × Bytes), chunks.foldl (tellingLibrary tell).update s = (s.1, s.2 ++ chunks.flatten) := by
      induction chunks with
      | nil => exact fun s => Prod.ext rfl (List.append_nil s.2).symm
      | cons chunk chunks ih => exact fun s => (ih _).trans (Prod.ext rfl (List.append_assoc ..))
    rw [hfed]
    rfl
  length kind key message := List.length_replicate

/-- Constructor and chunks agree on every message, over every library. The one call returns the HMAC of the message
written twice; over every library that is the same only of the empty message, or of no digest kind at all. -/
theorem entry_points_agree_iff (key msg : Bytes) (kind : Digest) :
    (∀ (σ : Type) (lib : HashLibrary σ) (hmac : Digest → Bytes → Bytes → Bytes), lib.Implements hmac → kind ≠ .none →
      (∀ first chunks, first ++ chunks.flatten = msg →
        digestInChunks lib key first chunks kind = .ok (hmac kind key msg))
      ∧ digest lib key msg kind = .ok (hmac kind key (msg ++ msg)))
    ∧ ((∀ (σ : Type) (lib : HashLibrary σ) (hmac : Digest → Bytes → Bytes → Bytes), lib.Implements hmac →
        EntryPointsAgree lib key msg kind) ↔ kind = .none ∨ msg = []) := by
  have hall : ∀ (σ : Type) (lib : HashLibrary σ) (hmac : Digest → Bytes → Bytes → Bytes), lib.Implements hmac →
      kind ≠ .none →
      (∀ first chunks, first ++ chunks.flatten = msg →
        digestInChunks lib key first chunks kind = .ok (hmac kind key msg))
      ∧ digest lib key msg kind = .ok (hmac kind key (msg ++ msg)) := by
    intro σ lib hmac hlib hkind
    refine ⟨fun first chunks hmsg => hmsg ▸ digestInChunks_eq hlib hkind first chunks, ?_⟩
    rw [digest_eq_chunks, digestInChunks_eq hlib hkind, List.flatten_singleton]
  refine ⟨hall, ?_, ?_⟩
  · intro hagree
    by_contra hcondition
    obtain ⟨hkind, hmsg⟩ := not_or.mp hcondition
    -- a library that tells the message from the message written twice
    have hlib := tellingLibrary_implements fun m => if m = msg then 0 else 1
    obtain ⟨hchunks, hcall⟩ := hall _ _ _ hlib hkind
    have hsame := (hagree _ _ _ hlib msg [] (List.append_nil msg)).2
    rw [hcall, hchunks msg [] (List.append_nil msg)] at hsame
    have htwice : msg ++ msg ≠ msg := fun h => hmsg (List.append_left_eq_self.mp h)
    rw [if_neg htwice, if_pos rfl, Except.ok.injEq, List.replicate_inj] at hsame
    obtain ⟨-, hsize | hbyte⟩ := hsame
    · cases kind with
      | none => exact hkind rfl
      | sha256 => cases hsize
      | sha512 => cases hsize
    · exact absurd hbyte (by decide)
  · rintro (rfl | rfl) σ lib hmac hlib first chunks hmsg
    · exact ⟨rfl, rfl⟩
    · by_cases hkind : kind = .none
      · subst hkind
        exact ⟨rfl, rfl⟩
      · obtain ⟨hchunks, hcall⟩ := hall σ lib hmac hlib hkind
        exact ⟨(hchunks first chunks hmsg).trans (hchunks [] [] rfl).symm, hcall.trans (hchunks [] [] rfl).symm⟩

/-- One byte is one byte to the object, and two to the one call. -/
theorem one_call_feeds_twice :
    ¬ ∀ (σ : Type) (lib : HashLibrary σ) (hmac : Digest → Bytes → Bytes → Bytes), lib.Implements hmac →
      ∀ key msg kind, EntryPointsAgree lib key msg kind := by
  intro h
  have hagree := h _ _ _ (tellingLibrary_implements fun m => UInt8.ofNat m.length) [1] [2] .sha256 [2] [] rfl
  exact absurd hagree.2 (by decide)

end MicroReticulum.Cryptography
