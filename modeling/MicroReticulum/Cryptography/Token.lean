import MicroReticulum.Link.State

/-!
# Tokens, and encryption to an identity

`Ciphers` are the primitives of the crypto library, on byte strings; what they are assumed to do is
`Ciphers.Lawful`. Over them stand the source's own layers: PKCS7 padding, `Token` (AES-CBC under an HMAC)
and the encryption of `Identity`, which sends the public half of an ephemeral key ahead of a token.

The padding is zeros and one length byte, and `unpad` believes that byte up to the block size. It reads it
without asking whether there is one: what it finds in front of an empty buffer is the parameter `stray`.

`decrypt` of an identity has one answer for a token that does not open and for a token that holds nothing.
`Opens` keeps the two apart.
-/

namespace MicroReticulum.Cryptography

open MicroReticulum Link

/-! ## Primitives -/

/-- X25519, HKDF and HMAC over SHA-256, and AES in CBC mode. -/
structure Ciphers where
  x25519Public : Bytes → List.Vector UInt8 32
  /-- `X25519PrivateKey::exchange`: private key, peer key; it throws on an invalid peer key -/
  exchange : Bytes → Bytes → Except String Bytes
  /-- `Cryptography::hkdf`: length, input material, salt, context -/
  hkdf : Nat → Bytes → Bytes → Bytes → Except String Bytes
  /-- `HMAC::generate` and `digest`: key, message -/
  hmac : Bytes → Bytes → Hash
  /-- `AES_128_CBC` or `AES_256_CBC`, by the size of the key: key, initialisation vector, buffer -/
  aesEncrypt : Bytes → Bytes → Bytes → Bytes
  aesDecrypt : Bytes → Bytes → Bytes → Bytes
  /-- the byte in front of an empty buffer -/
  stray : UInt8

/-- What the primitives promise. -/
structure Ciphers.Lawful (c : Ciphers) : Prop where
  agreement : ∀ a b, c.exchange a (c.x25519Public b).toList = c.exchange b (c.x25519Public a).toList
  hkdf_length : ∀ n material salt context key,
    c.hkdf n material salt context = .ok key → key.length = n
  /-- both directions work on buffers of the same size -/
  aesEncrypt_length : ∀ key iv b, (c.aesEncrypt key iv b).length = b.length
  aesDecrypt_length : ∀ key iv b, (c.aesDecrypt key iv b).length = b.length
  /-- on whole blocks decryption undoes encryption -/
  aes : ∀ key iv b, 16 ∣ b.length → c.aesDecrypt key iv (c.aesEncrypt key iv b) = b

variable {c : Ciphers}

/-! ## Padding -/

/-- `PKCS7::BLOCKSIZE` -/
def blocksize : Nat := 16

/-- The number of bytes `PKCS7::pad` appends. -/
def padLength (data : Bytes) : Nat := blocksize - data.length % blocksize

/-- `PKCS7::pad`: zeros, and the number of appended bytes as the last one. -/
def pad (data : Bytes) : Bytes :=
  data ++ (List.replicate (padLength data - 1) 0 ++ [UInt8.ofNat (padLength data)])

/-- `PKCS7::unpad`: the last byte says how much is cut off. A length above that of the buffer wraps
around and asks `resize` for more than a vector can hold. Of an empty buffer (an authentic token of 48 bytes
has one) the source reads `data[-1]`, which is not defined; it stands here as one byte from outside,
`stray`. -/
def unpad (stray : UInt8) (data : Bytes) : Except String Bytes :=
  let padlen := (data.getLast?.getD stray).toNat
  if blocksize < padlen then .error s!"Cannot unpad, invalid padding length of {padlen} bytes"
  else if data.length < padlen then .error "vector::_M_default_append"
  else .ok (data.left (data.length - padlen))

theorem padLength_pos (data : Bytes) : 0 < padLength data := by
  unfold padLength blocksize
  omega

theorem padLength_le (data : Bytes) : padLength data ≤ blocksize := by
  unfold padLength
  omega

theorem pad_length (data : Bytes) : (pad data).length = data.length + padLength data := by
  have hpos := padLength_pos data
  simp only [pad, List.length_append, List.length_replicate, List.length_singleton]
  omega

theorem pad_blocks (data : Bytes) : 16 ∣ (pad data).length := by
  rw [pad_length]
  unfold padLength blocksize
  omega

theorem pad_getLast (data : Bytes) : (pad data).getLast? = some (UInt8.ofNat (padLength data)) := by
  simp [pad]

/-- Unpadding undoes padding, whatever is in front of the buffer. -/
theorem unpad_pad (stray : UInt8) (data : Bytes) : unpad stray (pad data) = .ok data := by
  have hle := padLength_le data
  have hbyte : (UInt8.ofNat (padLength data)).toNat = padLength data := by
    apply UInt8.toNat_ofNat_of_lt'
    simp only [blocksize] at hle
    simp only [UInt8.size]
    omega
  unfold unpad
  rw [pad_getLast, Option.getD_some, hbyte, if_neg (by omega), if_neg (by rw [pad_length]; omega)]
  congr 1
  exact Bytes.left_append (by rw [pad_length]; omega)

/-- What is unpadded is not longer than the buffer. -/
theorem unpad_length {stray : UInt8} {data m : Bytes} (h : unpad stray data = .ok m) :
    m.length ≤ data.length := by
  unfold unpad at h
  simp only at h
  split at h
  · cases h
  · split at h
    · cases h
    · cases h
      simp

/-! ## Tokens -/

/-- `_signing_key`, the first half of the key -/
def signingKey (token : Token) : Bytes := token.key.left (token.key.length / 2)

/-- `_encryption_key`, the second half of the key -/
def encryptionKey (token : Token) : Bytes := token.key.mid (token.key.length / 2)

/-- `Token::encrypt`, with the initialisation vector it draws. -/
def tokenEncrypt (c : Ciphers) (token : Token) (iv data : Bytes) : Bytes :=
  let ciphertext := c.aesEncrypt (encryptionKey token) iv (pad data)
  let signedParts := iv ++ ciphertext
  signedParts ++ (c.hmac (signingKey token) signedParts).toList

/-- `Token::verify_hmac` -/
def verifyHmac (c : Ciphers) (token : Token) (data : Bytes) : Except String Bool :=
  if data.length ≤ 32 then .error s!"Cannot verify HMAC on token of only {data.length} bytes"
  else
    let receivedHmac := data.mid (data.length - 32)
    let expectedHmac := c.hmac (signingKey token) (data.left (data.length - 32))
    .ok (receivedHmac = expectedHmac.toList)

/-- `Token::decrypt` -/
def tokenDecrypt (c : Ciphers) (token : Token) (data : Bytes) : Except String Bytes :=
  if data.length < 48 then .error s!"Cannot decrypt token of only {data.length} bytes"
  else
    match verifyHmac c token data with
    | .error e => .error e
    | .ok false => .error "Token token HMAC was invalid"
    | .ok true =>
      let iv := data.left 16
      let ciphertext := data.midLen 16 (data.length - 48)
      match unpad c.stray (c.aesDecrypt (encryptionKey token) iv ciphertext) with
      | .error _ => .error "Could not decrypt Token token"
      | .ok plaintext => .ok plaintext

theorem tokenEncrypt_length (hc : c.Lawful) (token : Token) {iv : Bytes} (hiv : iv.length = 16)
    (data : Bytes) :
    (tokenEncrypt c token iv data).length = 16 + (data.length + padLength data) + 32 := by
  simp only [tokenEncrypt, List.length_append, hiv, hc.aesEncrypt_length, pad_length,
    List.Vector.toList_length]

/-- A token of the same key verifies. -/
theorem verifyHmac_append (token : Token) {parts : Bytes} (h : parts ≠ []) :
    verifyHmac c token (parts ++ (c.hmac (signingKey token) parts).toList) = .ok true := by
  have hlength : (parts ++ (c.hmac (signingKey token) parts).toList).length = parts.length + 32 := by
    rw [List.length_append, List.Vector.toList_length]
  have hpos : 0 < parts.length := List.length_pos_iff.mpr h
  have hparts : (parts ++ (c.hmac (signingKey token) parts).toList).left (parts.length + 32 - 32)
      = parts := Bytes.left_append (by omega)
  have hsig : (parts ++ (c.hmac (signingKey token) parts).toList).mid (parts.length + 32 - 32)
      = (c.hmac (signingKey token) parts).toList := Bytes.mid_append (by omega)
  unfold verifyHmac
  rw [hlength, if_neg (by omega)]
  simp only [hparts, hsig, decide_true]

/-- Decryption undoes encryption. -/
theorem tokenDecrypt_tokenEncrypt (hc : c.Lawful) (token : Token) {iv : Bytes}
    (hiv : iv.length = 16) (data : Bytes) :
    tokenDecrypt c token (tokenEncrypt c token iv data) = .ok data := by
  have hlength := tokenEncrypt_length hc token hiv data
  have hverify : verifyHmac c token (tokenEncrypt c token iv data) = .ok true :=
    verifyHmac_append token (by
      intro hnil
      have hivnil := (List.append_eq_nil_iff.mp hnil).1
      rw [hivnil] at hiv
      cases hiv)
  have hivback : (tokenEncrypt c token iv data).left 16 = iv := by
    unfold tokenEncrypt
    simp only [List.append_assoc]
    exact Bytes.left_append hiv.symm
  -- between the initialisation vector and the HMAC stands the ciphertext
  have hcipher : (tokenEncrypt c token iv data).midLen 16 ((tokenEncrypt c token iv data).length - 48)
      = c.aesEncrypt (encryptionKey token) iv (pad data) := by
    unfold Bytes.midLen
    rw [hlength]
    unfold tokenEncrypt
    simp only [List.append_assoc]
    rw [List.drop_left' hiv]
    exact List.take_left' (by rw [hc.aesEncrypt_length, pad_length]; omega)
  unfold tokenDecrypt
  rw [if_neg (by omega), hverify]
  simp only [hivback, hcipher, hc.aes _ _ _ (pad_blocks data), unpad_pad]

/-- A token that opens is longer than what it holds. -/
theorem tokenDecrypt_length (hc : c.Lawful) {token : Token} {data m : Bytes}
    (h : tokenDecrypt c token data = .ok m) : m.length < data.length := by
  unfold tokenDecrypt at h
  split at h
  · cases h
  · rename_i hlong
    split at h
    · cases h
    · cases h
    · simp only at h
      split at h
      · cases h
      · rename_i plaintext hunpad
        cases h
        have hle := unpad_length hunpad
        rw [hc.aesDecrypt_length] at hle
        simp only [Bytes.midLen, List.length_take, List.length_drop] at hle
        omega

/-! ## Identities -/

/-- `Type::Identity::DERIVED_KEY_LENGTH` -/
def derivedKeyLength : Nat := 64

/-- What `Identity::encrypt` and `Identity::decrypt` use of an identity. -/
structure Identity (c : Ciphers) where
  /-- `_pub_bytes`, where the identity holds a public key -/
  pub : Option Bytes
  /-- `_prv_bytes`, where it holds a private key -/
  prv : Option Bytes
  hash : Address
  derived : ∀ k, prv = some k → pub = some (c.x25519Public k).toList

namespace Identity

/-- The token two parties derive from the key they share; the hash of the identity is the salt, and the
context is empty. -/
def deriveToken (i : Identity c) (sharedKey : Bytes) : Except String Token :=
  match c.hkdf derivedKeyLength sharedKey i.hash.toList [] with
  | .error e => .error e
  | .ok derivedKey => newToken derivedKey

/-- `Identity::encrypt`, with the ephemeral key and the initialisation vector it draws. -/
def encrypt (i : Identity c) (ephemeral iv plaintext : Bytes) : Except String Bytes :=
  match i.pub with
  | none => .error "Encryption failed because identity does not hold a public key"
  | some pub =>
    match (c.exchange ephemeral pub).bind i.deriveToken with
    | .error e => .error e
    | .ok token => .ok ((c.x25519Public ephemeral).toList ++ tokenEncrypt c token iv plaintext)

/-- The part of `Identity::decrypt` whose exceptions are caught. -/
def openToken (i : Identity c) (prv ciphertextToken : Bytes) : Except String Bytes :=
  match (c.exchange prv (ciphertextToken.left 32)).bind i.deriveToken with
  | .error e => .error e
  | .ok token => tokenDecrypt c token (ciphertextToken.mid 32)

/-- `Identity::decrypt` -/
def decrypt (i : Identity c) (ciphertextToken : Bytes) : Except String Bytes :=
  match i.prv with
  | none => .error "Decryption failed because identity does not hold a private key"
  | some prv =>
    if ciphertextToken.length ≤ 32 then .ok []
    else
      match i.openToken prv ciphertextToken with
      | .error _ => .ok []
      | .ok plaintext => .ok plaintext

/-- The ciphertext decrypts, and to `m`. -/
def Opens (i : Identity c) (ciphertextToken m : Bytes) : Prop :=
  ∃ prv, i.prv = some prv ∧ 32 < ciphertextToken.length ∧ i.openToken prv ciphertextToken = .ok m

/-- With a private key, `decrypt` answers with what opens, and with nothing where nothing does. -/
theorem decrypt_eq {i : Identity c} (h : i.prv.isSome) (data : Bytes) :
    (∃ m, i.Opens data m ∧ i.decrypt data = .ok m)
      ∨ (∀ m, ¬ i.Opens data m) ∧ i.decrypt data = .ok [] := by
  obtain ⟨prv, hprv⟩ := Option.isSome_iff_exists.mp h
  by_cases hlong : data.length ≤ 32
  · right
    refine ⟨fun m ⟨_, _, hlt, _⟩ => absurd hlt (by omega), ?_⟩
    simp only [decrypt, hprv, if_pos hlong]
  · cases hopen : i.openToken prv data with
    | error e =>
      right
      refine ⟨?_, by simp only [decrypt, hprv, if_neg hlong, hopen]⟩
      rintro m ⟨prv', hprv', -, hok⟩
      rw [hprv] at hprv'
      cases hprv'
      rw [hopen] at hok
      cases hok
    | ok m =>
      left
      exact ⟨m, ⟨prv, hprv, by omega, hopen⟩, by simp only [decrypt, hprv, if_neg hlong, hopen]⟩

/-- A ciphertext opens in one way. -/
theorem Opens.unique {i : Identity c} {data m m' : Bytes} (h : i.Opens data m)
    (h' : i.Opens data m') : m = m' := by
  obtain ⟨prv, hprv, -, hok⟩ := h
  obtain ⟨prv', hprv', -, hok'⟩ := h'
  rw [hprv] at hprv'
  cases hprv'
  rw [hok] at hok'
  cases hok'
  rfl

/-- What was encrypted to an identity opens for the holder of its private key. -/
theorem opens_encrypt (hc : c.Lawful) {i : Identity c} (hprv : i.prv.isSome) {ephemeral iv m data : Bytes}
    (hiv : iv.length = 16) (h : i.encrypt ephemeral iv m = .ok data) : i.Opens data m := by
  obtain ⟨prv, hprv⟩ := Option.isSome_iff_exists.mp hprv
  have hpub := i.derived prv hprv
  unfold encrypt at h
  rw [hpub] at h
  simp only at h
  split at h
  · cases h
  · rename_i token htoken
    cases h
    have hlength := tokenEncrypt_length hc token hiv m
    have hephemeral : Bytes.left ((c.x25519Public ephemeral).toList ++ tokenEncrypt c token iv m) 32
        = (c.x25519Public ephemeral).toList :=
      Bytes.left_append (List.Vector.toList_length _).symm
    have hrest : Bytes.mid ((c.x25519Public ephemeral).toList ++ tokenEncrypt c token iv m) 32
        = tokenEncrypt c token iv m := Bytes.mid_append (List.Vector.toList_length _)
    refine ⟨prv, hprv, ?_, ?_⟩
    · rw [List.length_append, List.Vector.toList_length, hlength]
      omega
    · unfold openToken
      rw [hephemeral, ← hc.agreement ephemeral prv, htoken]
      simp only [hrest, tokenDecrypt_tokenEncrypt hc token hiv]

/-- A ciphertext that opens is longer than what it holds. -/
theorem Opens.length (hc : c.Lawful) {i : Identity c} {data m : Bytes} (h : i.Opens data m) :
    m.length < data.length := by
  obtain ⟨prv, -, -, hok⟩ := h
  unfold openToken at hok
  split at hok
  · cases hok
  · have hlt := tokenDecrypt_length hc hok
    rw [Bytes.mid_length] at hlt
    omega

end Identity

end MicroReticulum.Cryptography
