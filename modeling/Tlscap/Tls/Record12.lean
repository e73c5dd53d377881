import Tlscap.Tls.Crypto

/-!
# TLS 1.2 record protection

Key expansion and decryption of one AES-GCM record of TLS 1.2, given the master secret,
both randoms and the record's sequence number.

The key block is expanded anew for each direction and cut into both sides' keys, of which
one is kept (`RecordKeys.derive`).  The nonce is the direction's salt and the part that is
sent with the record; the record number is authenticated only, with the content type and
the length (`aad_inj`).
-/

namespace Tlscap.Tls12

/-- The hash of the PRF. -/
def prfHash : AeadAlgorithm → HashAlgorithm
  | .aes128Gcm => .sha256
  | .aes256Gcm => .sha384
  | .chaCha20Poly1305 => .sha256

/-- The loop of `p_hash`: `result` so far and the current `A(i)`. -/
def pHashLoop (mac : Bytes → Bytes) (seed : Bytes) (outLen : ℕ) : ℕ → Bytes → Bytes → Bytes
  | 0, result, _ => result
  | fuel + 1, result, a =>
      if result.length < outLen then
        pHashLoop mac seed outLen fuel (result ++ mac (a ++ seed)) (mac a)
      else result

/-- `P_hash` of the TLS 1.2 PRF.  Every iteration adds at least one byte, so
`outLen` iterations suffice. -/
def pHash (mac : Bytes → Bytes) (seed : Bytes) (outLen : ℕ) : Bytes :=
  (pHashLoop mac seed outLen outLen [] (mac seed)).take outLen

/-- The PRF, keyed with the secret. -/
def prf (crypto : Crypto) (secret labelAndSeed : Bytes) (outLen : ℕ) (hash : HashAlgorithm) :
    Bytes :=
  pHash (crypto.hmac hash secret) labelAndSeed outLen

/-- The label `key expansion`. -/
def keyExpansionLabel : Bytes :=
  [0x6b, 0x65, 0x79, 0x20, 0x65, 0x78, 0x70, 0x61, 0x6e, 0x73, 0x69, 0x6f, 0x6e]

/-- One direction's key and implicit nonce part. -/
structure RecordKeys where
  algorithm : AeadAlgorithm
  key : Bytes
  salt : Bytes
  deriving DecidableEq, Repr

namespace RecordKeys

/-- Expands the key block and cuts this direction's key and salt out of it. -/
def derive (crypto : Crypto) (masterSecret clientRandom serverRandom : Bytes)
    (algorithm : AeadAlgorithm) (isClient : Bool) : RecordKeys :=
  let keyLen := algorithm.keyLen
  let saltLen := 4
  let total := 2 * keyLen + 2 * saltLen
  let seed := keyExpansionLabel ++ serverRandom ++ clientRandom
  let keyBlock := prf crypto masterSecret seed total (prfHash algorithm)
  let clientWriteKey := slice keyBlock 0 keyLen
  let serverWriteKey := slice keyBlock keyLen keyLen
  let clientWriteIv := slice keyBlock (2 * keyLen) saltLen
  let serverWriteIv := slice keyBlock (2 * keyLen + saltLen) saltLen
  if isClient then ⟨algorithm, clientWriteKey, clientWriteIv⟩
  else ⟨algorithm, serverWriteKey, serverWriteIv⟩

/-- The salt followed by the nonce part sent with the record. -/
def nonceFor (keys : RecordKeys) (explicitNonce : Bytes) : Bytes := keys.salt ++ explicitNonce

/-- The additional data; its length field is the plaintext length. -/
def aad (seqNum : UInt64) (contentType : UInt8) (plaintextLen : ℕ) : Bytes :=
  beBytes 8 seqNum.toNat ++ [contentType, 0x03, 0x03] ++ beBytes 2 plaintextLen

/-- Decrypts what follows the explicit nonce of a record; `none` if it does not
authenticate. -/
def decryptRecord (crypto : Crypto) (keys : RecordKeys) (seqNum : UInt64) (contentType : UInt8)
    (explicitNonce ciphertext : Bytes) : Option Bytes :=
  let nonce := keys.nonceFor explicitNonce
  let aad := aad seqNum contentType (ciphertext.length - 16)
  match keys.algorithm with
  | .aes128Gcm => crypto.aeadDecrypt .aes128Gcm keys.key nonce aad ciphertext
  | .aes256Gcm => crypto.aeadDecrypt .aes256Gcm keys.key nonce aad ciphertext
  | .chaCha20Poly1305 => none

end RecordKeys

/-- The `random` field of a ServerHello. -/
def serverRandomFromServerHello (handshakeBody : Bytes) : Option Bytes :=
  if handshakeBody.length < 1 + 3 + 2 + 32 ∨ handshakeBody[0]? ≠ some 0x02 then none
  else some (slice handshakeBody 6 32)

theorem derive_algorithm (crypto : Crypto) (masterSecret clientRandom serverRandom : Bytes)
    (algorithm : AeadAlgorithm) (isClient : Bool) :
    (RecordKeys.derive crypto masterSecret clientRandom serverRandom algorithm
      isClient).algorithm = algorithm := by
  cases isClient <;> rfl

/-- A decrypted record was opened by the AEAD under the keys' algorithm. -/
theorem decryptRecord_eq_some {crypto : Crypto} {keys : RecordKeys} {seqNum : UInt64}
    {contentType : UInt8} {explicitNonce ciphertext plaintext : Bytes}
    (h : keys.decryptRecord crypto seqNum contentType explicitNonce ciphertext =
      some plaintext) :
    crypto.aeadDecrypt keys.algorithm keys.key (keys.nonceFor explicitNonce)
      (RecordKeys.aad seqNum contentType (ciphertext.length - 16)) ciphertext =
        some plaintext := by
  unfold RecordKeys.decryptRecord at h
  cases hkeys : keys.algorithm with
  | aes128Gcm => simpa only [hkeys] using h
  | aes256Gcm => simpa only [hkeys] using h
  | chaCha20Poly1305 => simp only [hkeys, reduceCtorEq] at h

/-- Equal additional data come from equal record numbers and content types. -/
theorem aad_inj {first second : UInt64} {contentType otherType : UInt8} {length otherLength : ℕ}
    (h : RecordKeys.aad first contentType length =
      RecordKeys.aad second otherType otherLength) :
    first = second ∧ contentType = otherType := by
  unfold RecordKeys.aad at h
  rw [List.append_assoc, List.append_assoc] at h
  obtain ⟨hseq, hrest⟩ := List.append_inj h (by rw [length_beBytes, length_beBytes])
  refine ⟨eq_of_beBytes_toNat_eq hseq, ?_⟩
  simp only [List.cons_append, List.cons.injEq] at hrest
  exact hrest.1

end Tlscap.Tls12
