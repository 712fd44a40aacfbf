import MicroReticulum.Cryptography.Token

/-!
# Tokens round trip

`Token` checks before it deciphers: the length first, which leaves room for the initialisation vector and
the HMAC, then the HMAC. What it refuses on either ground it refuses alike whatever the cipher would have
made of the bytes. What it made itself it opens, for both sizes of the key and each length of the plaintext.

That nobody else can make an authentic token is not proved; the HMAC and the cipher are
parameters.
-/

namespace MicroReticulum.Cryptography

open MicroReticulum Link

/-- The last 32 bytes of the token are the HMAC of those before them. -/
def Authentic (c : Ciphers) (token : Token) (data : Bytes) : Prop :=
  data.mid (data.length - 32) = (c.hmac (signingKey token) (data.left (data.length - 32))).toList

instance (c : Ciphers) (token : Token) (data : Bytes) : Decidable (Authentic c token data) :=
  inferInstanceAs (Decidable (_ = _))

/-- The token is answered with one exception, whatever the block cipher does. -/
def RefusedUndeciphered (c : Ciphers) (token : Token) (data : Bytes) : Prop :=
  ∃ e, ∀ decipher, tokenDecrypt { c with aesDecrypt := decipher } token data = .error e

/-- What an encryption adds is a block more than the whole blocks of the data need. -/
theorem length_add_padLength (data : Bytes) :
    data.length + padLength data = 16 * (data.length / 16 + 1) := by
  unfold padLength blocksize
  omega

theorem verifyHmac_eq {c : Ciphers} {token : Token} {data : Bytes} (h : 32 < data.length) :
    verifyHmac c token data = .ok (decide (Authentic c token data)) := by
  unfold verifyHmac
  rw [if_neg (by omega)]
  rfl

theorem refusedUndeciphered_of_short {c : Ciphers} {token : Token} {data : Bytes}
    (h : data.length < 48) : RefusedUndeciphered c token data := by
  refine ⟨s!"Cannot decrypt token of only {data.length} bytes", fun decipher => ?_⟩
  unfold tokenDecrypt
  rw [if_pos h]

theorem refusedUndeciphered_of_not_authentic {c : Ciphers} {token : Token} {data : Bytes}
    (h : ¬ Authentic c token data) : RefusedUndeciphered c token data := by
  by_cases hshort : data.length < 48
  · exact refusedUndeciphered_of_short hshort
  · refine ⟨"Token token HMAC was invalid", fun decipher => ?_⟩
    -- the HMAC is the cipher's business in neither of the two records
    have hverify : verifyHmac { c with aesDecrypt := decipher } token data = .ok false := by
      rw [verifyHmac_eq (by omega)]
      exact congrArg Except.ok (decide_eq_false h)
    unfold tokenDecrypt
    rw [if_neg hshort, hverify]

/-- Of a key of one of the two sizes a token is made. -/
theorem newToken_of_sized {key : Bytes} (h : key.length = 32 ∨ key.length = 64) :
    newToken key = .ok { key, sized := h } := by
  have hne : key ≠ [] := by
    rintro rfl
    revert h
    decide
  unfold newToken
  rw [if_neg hne, dif_pos h]

/-- With a key of either size, what `encrypt` makes of a plaintext has the expected length and decrypts to
it, and what is too short or not authentic is refused before the cipher is asked. -/
theorem token_inverts {c : Ciphers} (hc : c.Lawful) (key : Bytes)
    (hkey : key.length = 32 ∨ key.length = 64) :
    ∃ token, newToken key = .ok token ∧ token.key = key
      ∧ (∀ (iv : List.Vector UInt8 16) (p : Bytes),
          tokenDecrypt c token (tokenEncrypt c token iv.toList p) = .ok p
          ∧ (tokenEncrypt c token iv.toList p).length = 16 + 16 * (p.length / 16 + 1) + 32)
      ∧ ∀ data : Bytes, data.length < 48 ∨ ¬ Authentic c token data →
          RefusedUndeciphered c token data := by
  refine ⟨{ key, sized := hkey }, newToken_of_sized hkey, rfl, ?_, ?_⟩
  · intro iv p
    have hiv : iv.toList.length = 16 := iv.toList_length
    refine ⟨tokenDecrypt_tokenEncrypt hc _ hiv p, ?_⟩
    rw [tokenEncrypt_length hc _ hiv p, length_add_padLength]
  · rintro data (hshort | hforged)
    · exact refusedUndeciphered_of_short hshort
    · exact refusedUndeciphered_of_not_authentic hforged

/-- Primitives whose cipher turns a buffer round. -/
def Sample.turningCiphers : Ciphers where
  x25519Public _ := List.Vector.replicate 32 0
  exchange _ _ := .ok (List.replicate 32 0)
  hkdf n _ _ _ := .ok (List.replicate n 0)
  hmac key m := List.Vector.replicate 32 ((key ++ m).foldl UInt8.add 0)
  aesEncrypt _ _ b := b.reverse
  aesDecrypt _ _ b := b.reverse
  stray := 0

theorem Sample.turningCiphers_lawful : Sample.turningCiphers.Lawful where
  agreement _ _ := rfl
  hkdf_length n _ _ _ key h := by
    cases h
    exact List.length_replicate
  aesEncrypt_length _ _ _ := List.length_reverse
  aesDecrypt_length _ _ _ := List.length_reverse
  aes _ _ _ _ := List.reverse_reverse _

/-- A plaintext of one whole block, and a token that nothing signed. -/
theorem token_inverts_block :
    ∃ token, newToken (List.replicate 32 7) = .ok token
      ∧ tokenDecrypt Sample.turningCiphers token
          (tokenEncrypt Sample.turningCiphers token (List.replicate 16 1) (List.replicate 16 2))
          = .ok (List.replicate 16 2)
      ∧ (tokenEncrypt Sample.turningCiphers token (List.replicate 16 1) (List.replicate 16 2)).length = 80
      ∧ RefusedUndeciphered Sample.turningCiphers token (List.replicate 48 1) := by
  obtain ⟨token, hnew, hkey, hround, hrefused⟩ :=
    token_inverts Sample.turningCiphers_lawful (List.replicate 32 7) (.inl rfl)
  have hforged : ¬ Authentic Sample.turningCiphers token (List.replicate 48 1) := by
    unfold Authentic signingKey
    rw [hkey]
    decide
  have hblock := hround (List.Vector.replicate 16 1) (List.replicate 16 2)
  exact ⟨token, hnew, hblock.1, hblock.2, hrefused _ (.inr hforged)⟩

end MicroReticulum.Cryptography
