import Tlscap.Tls.Crypto

/-!
# Recorded primitives

The primitives as a finite table of what they computed in one recorded exchange,
and a decoder of hexadecimal digits.  The model is run on concrete records with them.
-/

namespace Tlscap

/-- What the primitives returned for the arguments of one exchange. -/
structure Recording where
  hkdf : List ((HashAlgorithm × Bytes × Bytes) × Bytes) := []
  hmac : List ((HashAlgorithm × Bytes × Bytes) × Bytes) := []
  sealed : List (Bytes × Sealing) := []

namespace Recording

/-- The first `length` bytes, filled up with zeros. -/
def fit (length : ℕ) (bytes : Bytes) : Bytes :=
  (bytes ++ List.replicate length 0).take length

theorem length_fit (length : ℕ) (bytes : Bytes) : (fit length bytes).length = length := by
  simp [fit]

/-- How a recorded ciphertext was made. -/
def log (recording : Recording) (ciphertext : Bytes) : Option Sealing :=
  (recording.sealed.lookup ciphertext).filter fun made =>
    ciphertext.length == made.plaintext.length + 16

/-- Opens the recorded ciphertexts as they were made. -/
def aeadDecrypt (recording : Recording) (algorithm : AeadAlgorithm)
    (key nonce aad ciphertext : Bytes) : Option Bytes :=
  match recording.log ciphertext with
  | none => none
  | some made =>
      if made = ⟨algorithm, key, nonce, aad, made.plaintext⟩ then some made.plaintext else none

theorem aeadDecrypt_eq_some_iff (recording : Recording) (algorithm : AeadAlgorithm)
    (key nonce aad ciphertext plaintext : Bytes) :
    recording.aeadDecrypt algorithm key nonce aad ciphertext = some plaintext ↔
      recording.log ciphertext = some ⟨algorithm, key, nonce, aad, plaintext⟩ := by
  unfold aeadDecrypt
  cases recording.log ciphertext with
  | none => simp
  | some made =>
      simp only [Option.some.injEq]
      constructor
      · intro h
        split at h
        · rename_i hmade
          cases h
          exact hmade
        · cases h
      · rintro rfl
        simp

/-- The value of a hexadecimal digit. -/
def hexDigit (c : Char) : Option ℕ :=
  if '0' ≤ c ∧ c ≤ '9' then some (c.toNat - 48)
  else if 'a' ≤ c ∧ c ≤ 'f' then some (c.toNat - 87)
  else if 'A' ≤ c ∧ c ≤ 'F' then some (c.toNat - 55)
  else none

/-- Two digits to a byte, in either case. -/
def hexDecode : Text → Option Bytes
  | [] => some []
  | [_] => none
  | high :: low :: rest =>
      match hexDigit high, hexDigit low, hexDecode rest with
      | some h, some l, some bytes => some (UInt8.ofNat (16 * h + l) :: bytes)
      | _, _, _ => none

/-- The primitives that look their results up: what was not recorded hashes to
zeros and does not open. -/
def crypto (recording : Recording) : Crypto where
  hkdfExpand hash prk info length :=
    fit length ((recording.hkdf.lookup (hash, prk, info)).getD [])
  hmac hash key data :=
    fit hash.outputSize ((recording.hmac.lookup (hash, key, data)).getD [])
  aeadDecrypt := recording.aeadDecrypt
  hexDecode := hexDecode
  hkdfExpand_length _ _ _ length := length_fit length _
  hmac_length hash _ _ := length_fit hash.outputSize _
  aeadDecrypt_length algorithm key nonce aad msg plaintext h := by
    have hlog := (recording.aeadDecrypt_eq_some_iff algorithm key nonce aad msg plaintext).mp h
    simpa using (Option.filter_eq_some_iff.mp hlog).2

/-- The recorded ciphertexts open as an ideal AEAD would open them. -/
theorem idealAead_crypto (recording : Recording) : IdealAead recording.crypto recording.log :=
  recording.aeadDecrypt_eq_some_iff

/-- The hash values of two rounds of `P_hash`: `A(1)` and its output block, then
`A(2)` and its output block. -/
def pHashRounds (hash : HashAlgorithm) (secret seed a₁ block₁ a₂ block₂ : Bytes) :
    List ((HashAlgorithm × Bytes × Bytes) × Bytes) :=
  [((hash, secret, seed), a₁), ((hash, secret, a₁ ++ seed), block₁),
    ((hash, secret, a₁), a₂), ((hash, secret, a₂ ++ seed), block₂)]

end Recording

end Tlscap
