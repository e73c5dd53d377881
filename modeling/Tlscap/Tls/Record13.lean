import Tlscap.Tls.Crypto

/-!
# TLS 1.3 record protection

Key derivation and decryption of one TLS 1.3 record, given a traffic secret and
the record's sequence number.

The facts the other modules use: what is decrypted was opened by the AEAD and split
(`decryptRecord_eq_ok`), different record numbers have different nonces, as the static IV
is xored with the number (`nonceFor_inj`), and what an honest sender seals is split into
its content and type, however much padding there is (`splitInner_seal`).
-/

namespace Tlscap.Tls13

/-- Why a record was not decrypted. -/
inductive Tls13Error
  | aead
  | recordTooShort
  | noContentType
  deriving DecidableEq, Repr

/-- HKDF-Expand-Label; `none` if the secret is too short for the hash.  The label
is given by its bytes and prefixed with `tls13 `. -/
def hkdfExpandLabel (crypto : Crypto) (secret label context : Bytes) (length : ℕ)
    (hash : HashAlgorithm) : Option Bytes :=
  let fullLabel : Bytes := [0x74, 0x6c, 0x73, 0x31, 0x33, 0x20] ++ label
  let hkdfLabel := beBytes 2 length ++ beBytes 1 fullLabel.length ++ fullLabel ++
    beBytes 1 context.length ++ context
  if secret.length < hash.outputSize then none
  else some (crypto.hkdfExpand hash secret hkdfLabel length)

/-- The label `key`. -/
def keyLabel : Bytes := [0x6b, 0x65, 0x79]

/-- The label `iv`. -/
def ivLabel : Bytes := [0x69, 0x76]

/-- The key and the static IV of one traffic secret. -/
structure RecordKeys where
  algorithm : AeadAlgorithm
  key : Bytes
  iv : Bytes
  deriving DecidableEq, Repr

namespace RecordKeys

/-- `none` if the secret is too short for the hash of the algorithm. -/
def derive (crypto : Crypto) (trafficSecret : Bytes) (algorithm : AeadAlgorithm) :
    Option RecordKeys :=
  match hkdfExpandLabel crypto trafficSecret keyLabel [] algorithm.keyLen algorithm.hash with
  | none => none
  | some key =>
      match hkdfExpandLabel crypto trafficSecret ivLabel [] AeadAlgorithm.ivLen
          algorithm.hash with
      | none => none
      | some iv => some ⟨algorithm, key, iv⟩

/-- The static IV, its last eight bytes xored with the sequence number. -/
def nonceFor (keys : RecordKeys) (seqNum : UInt64) : Bytes :=
  keys.iv.take 4 ++ List.zipWith (· ^^^ ·) (keys.iv.drop 4) (beBytes 8 seqNum.toNat)

/-- An inner plaintext without its zero padding and content type. -/
def splitInner (inner : Bytes) : Except Tls13Error (Bytes × UInt8) :=
  match inner.reverse.dropWhile (· == 0) with
  | [] => .error .noContentType
  | contentType :: content => .ok (content.reverse, contentType)

/-- Decrypts one record: its content and its real content type. -/
def decryptRecord (crypto : Crypto) (keys : RecordKeys) (seqNum : UInt64)
    (aad encryptedRecord : Bytes) : Except Tls13Error (Bytes × UInt8) :=
  if encryptedRecord.length < 16 then .error .recordTooShort
  else
    match crypto.aeadDecrypt keys.algorithm keys.key (keys.nonceFor seqNum) aad
        encryptedRecord with
    | none => .error .aead
    | some inner => splitInner inner

end RecordKeys

/-- The record header that protected records are authenticated with. -/
def recordAad (ciphertextLen : ℕ) : Bytes := [0x17, 0x03, 0x03] ++ beBytes 2 ciphertextLen

/-! ## Derivation and opening -/

/-- Derivation yields keys of the algorithm asked for. -/
theorem derive_algorithm {crypto : Crypto} {secret : Bytes} {algorithm : AeadAlgorithm}
    {keys : RecordKeys} (h : RecordKeys.derive crypto secret algorithm = some keys) :
    keys.algorithm = algorithm := by
  unfold RecordKeys.derive at h
  split at h
  · cases h
  · split at h
    · cases h
    · cases h
      rfl

/-- A decrypted record was opened by the AEAD and split. -/
theorem decryptRecord_eq_ok {crypto : Crypto} {keys : RecordKeys} {seqNum : UInt64}
    {aad encryptedRecord : Bytes} {result : Bytes × UInt8}
    (h : keys.decryptRecord crypto seqNum aad encryptedRecord = .ok result) :
    ∃ inner, crypto.aeadDecrypt keys.algorithm keys.key (keys.nonceFor seqNum) aad
        encryptedRecord = some inner ∧ RecordKeys.splitInner inner = .ok result := by
  unfold RecordKeys.decryptRecord at h
  split at h
  · cases h
  · split at h
    · cases h
    · rename_i inner hinner
      exact ⟨inner, hinner, h⟩

/-- The static IV has the length of a nonce. -/
theorem derive_iv_length {crypto : Crypto} {secret : Bytes} {algorithm : AeadAlgorithm}
    {keys : RecordKeys} (h : RecordKeys.derive crypto secret algorithm = some keys) :
    keys.iv.length = AeadAlgorithm.ivLen := by
  unfold RecordKeys.derive at h
  split at h
  · cases h
  · split at h
    · cases h
    · rename_i iv hiv
      cases h
      unfold hkdfExpandLabel at hiv
      simp only at hiv
      split at hiv
      · cases hiv
      · cases hiv
        exact crypto.hkdfExpand_length _ _ _ _

/-! ## Nonces and padding -/

private theorem eq_of_zipWith_xor_eq {mask first second : Bytes}
    (hfirst : first.length ≤ mask.length) (hlength : first.length = second.length)
    (h : List.zipWith (· ^^^ ·) mask first = List.zipWith (· ^^^ ·) mask second) :
    first = second := by
  induction mask generalizing first second with
  | nil =>
      rw [List.length_nil, Nat.le_zero, List.length_eq_zero_iff] at hfirst
      subst hfirst
      exact (List.length_eq_zero_iff.mp hlength.symm).symm
  | cons m mask ih =>
      cases first with
      | nil => exact (List.length_eq_zero_iff.mp hlength.symm).symm
      | cons a first =>
          cases second with
          | nil => simp at hlength
          | cons b second =>
              simp only [List.zipWith_cons_cons, List.cons.injEq] at h
              simp only [List.length_cons, Nat.add_le_add_iff_right, Nat.add_right_cancel_iff]
                at hfirst hlength
              rw [(UInt8.xor_right_inj m).mp h.1, ih hfirst hlength h.2]

/-- Different record numbers have different nonces. -/
theorem nonceFor_inj {keys : RecordKeys} (hiv : keys.iv.length = AeadAlgorithm.ivLen)
    {first second : UInt64} (h : keys.nonceFor first = keys.nonceFor second) :
    first = second := by
  unfold RecordKeys.nonceFor at h
  apply eq_of_beBytes_toNat_eq
  apply eq_of_zipWith_xor_eq _ _ (List.append_cancel_left h)
  · rw [length_beBytes, List.length_drop, hiv, AeadAlgorithm.ivLen]
  · rw [length_beBytes, length_beBytes]

/-- Padding and content type are stripped from what an honest sender seals. -/
theorem splitInner_seal (content : Bytes) {contentType : UInt8} (htype : contentType ≠ 0)
    (padding : ℕ) :
    RecordKeys.splitInner (content ++ [contentType] ++ List.replicate padding 0) =
      .ok (content, contentType) := by
  have hpadding : ∀ rest : Bytes,
      (List.replicate padding (0 : UInt8) ++ rest).dropWhile (· == 0) =
        rest.dropWhile (· == 0) := by
    intro rest
    induction padding with
    | zero => rfl
    | succ padding ih => simp [List.replicate_succ, ih]
  unfold RecordKeys.splitInner
  rw [List.reverse_append, List.reverse_replicate, hpadding, List.reverse_append]
  simp [htype]

end Tlscap.Tls13
