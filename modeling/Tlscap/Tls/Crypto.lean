import Tlscap.Basic

/-!
# The primitives of the record layer

The ciphers, HKDF and HMAC come from other crates, and so does the decoder of the
hexadecimal digits secrets are written in.  `Crypto` is what the program calls of
them, with the lengths these crates document; everything built on top of it in the
source is built on top of it here.
-/

namespace Tlscap

/-- The AEAD algorithms the record layer supports. -/
inductive AeadAlgorithm
  | aes128Gcm
  | aes256Gcm
  | chaCha20Poly1305
  deriving DecidableEq, Repr

/-- The hash of an HKDF or PRF instance. -/
inductive HashAlgorithm
  | sha256
  | sha384
  deriving DecidableEq, Repr

namespace HashAlgorithm

/-- The output size in bytes. -/
def outputSize : HashAlgorithm → ℕ
  | sha256 => 32
  | sha384 => 48

end HashAlgorithm

namespace AeadAlgorithm

/-- The key length in bytes. -/
def keyLen : AeadAlgorithm → ℕ
  | aes128Gcm => 16
  | aes256Gcm => 32
  | chaCha20Poly1305 => 32

/-- Every nonce of TLS 1.3 has twelve bytes. -/
def ivLen : ℕ := 12

/-- The hash of the TLS 1.3 cipher suite. -/
def hash : AeadAlgorithm → HashAlgorithm
  | aes128Gcm => .sha256
  | aes256Gcm => .sha384
  | chaCha20Poly1305 => .sha256

end AeadAlgorithm

/-- What decryption uses of the crates `hmac`, `hkdf`, those of the AEADs and `hex`. -/
structure Crypto where
  /-- HKDF-Expand of a pseudorandom key that is long enough for the hash. -/
  hkdfExpand : HashAlgorithm → (prk info : Bytes) → (length : ℕ) → Bytes
  /-- HMAC over the data. -/
  hmac : HashAlgorithm → (key data : Bytes) → Bytes
  /-- Opening of a ciphertext with its tag; `none` if the tag does not verify. -/
  aeadDecrypt : AeadAlgorithm → (key nonce aad msg : Bytes) → Option Bytes
  /-- The bytes that hexadecimal digits spell; `none` where they spell none. -/
  hexDecode : Text → Option Bytes
  hkdfExpand_length : ∀ hash prk info length, (hkdfExpand hash prk info length).length = length
  hmac_length : ∀ hash key data, (hmac hash key data).length = hash.outputSize
  aeadDecrypt_length : ∀ algorithm key nonce aad msg plaintext,
    aeadDecrypt algorithm key nonce aad msg = some plaintext → msg.length = plaintext.length + 16

/-- How a ciphertext was made. -/
structure Sealing where
  algorithm : AeadAlgorithm
  key : Bytes
  nonce : Bytes
  aad : Bytes
  plaintext : Bytes
  deriving DecidableEq

/-- Opening succeeds exactly on the key, nonce and additional data a ciphertext
was sealed with, and returns what was sealed.

What was sealed is a partial function of the ciphertext rather than an encryption
function of the key: with tags of fixed length an encryption function cannot be
injective in its key, so no AEAD would be ideal. -/
def IdealAead (crypto : Crypto) (log : Bytes → Option Sealing) : Prop :=
  ∀ algorithm key nonce aad ciphertext plaintext,
    crypto.aeadDecrypt algorithm key nonce aad ciphertext = some plaintext ↔
      log ciphertext = some ⟨algorithm, key, nonce, aad, plaintext⟩

/-- The low `width` bytes of a number, most significant first. -/
def beBytes : (width : ℕ) → ℕ → Bytes
  | 0, _ => []
  | width + 1, n => UInt8.ofNat (n / 256 ^ width) :: beBytes width n

/-- The number two bytes encode, most significant first. -/
def u16FromBeBytes (high low : UInt8) : ℕ := high.toNat * 256 + low.toNat

@[simp] theorem length_beBytes (width n : ℕ) : (beBytes width n).length = width := by
  induction width with
  | zero => rfl
  | succ width ih => simp [beBytes, ih]

/-- Equal encodings come from numbers that agree modulo `256 ^ width`. -/
theorem mod_eq_of_beBytes_eq {width m n : ℕ} (h : beBytes width m = beBytes width n) :
    m % 256 ^ width = n % 256 ^ width := by
  induction width with
  | zero => simp [Nat.mod_one]
  | succ width ih =>
      simp only [beBytes, List.cons.injEq] at h
      have hhead : m / 256 ^ width % 256 = n / 256 ^ width % 256 := by
        have := congrArg UInt8.toNat h.1
        simpa using this
      rw [pow_succ, Nat.mod_mul, Nat.mod_mul, ih h.2, hhead]

/-- The eight bytes of a record number determine it. -/
theorem eq_of_beBytes_toNat_eq {first second : UInt64}
    (h : beBytes 8 first.toNat = beBytes 8 second.toNat) : first = second := by
  have hmod : first.toNat % 2 ^ 64 = second.toNat % 2 ^ 64 := mod_eq_of_beBytes_eq h
  rw [Nat.mod_eq_of_lt first.toNat_lt, Nat.mod_eq_of_lt second.toNat_lt] at hmod
  exact UInt64.toNat_inj.mp hmod

end Tlscap
