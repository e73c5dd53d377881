import Tlscap.Connection.Uncached
import Tlscap.Tls.Recording

/-!
# Why a record is not decrypted

`ProcessError` tells a record without a key (`noKey`) from one that no key opens
(`authFailed`).  `decrypt` tries TLS 1.3 first and forgets its error, and both probing loops
end in `noKey` once every key has failed.  So `authFailed` is only reported where TLS 1.2 has
all it needs and the body is too short to try it, and every other record that a key exists
for and none opens is reported as `noKey` (`ConnectionState.truthful_iff`).

## Strategy

Keys are derived while the loops run, so which keys open a record must not depend on where a
loop has got to: looking keys up once more finds the same (`keysFor_again`, for both caches
an instance of `Memo.Source.lookup_again`).  With that, `opens` speaks of the keys of a
candidate by itself, and the cases are:

* **TLS 1.3.**  The loop succeeds if the keys of some candidate open the record
  (`isOk_probe`).  It also stops at a body without room for a tag, but such a body is opened
  by no keys at all (`opens_of_tooShort`), so nothing is missed.
* **TLS 1.2.**  The loop either succeeds or reports `noKey` (`probe_classified`); the
  error for a short body comes before the loop (`decryptTls12_classified`).
* **Together.**  The error of TLS 1.3 is replaced by that of TLS 1.2, which gives the outcome
  of every record (`decrypt_classified`) and the condition under which it is the truthful one
  (`Classifiable`).
-/

namespace Tlscap

/-- Only a body without room for a tag is too short. -/
theorem Tls13.decryptRecord_tooShort {crypto : Crypto} {keys : Tls13.RecordKeys}
    {seqNum : UInt64} {aad encryptedRecord : Bytes}
    (h : keys.decryptRecord crypto seqNum aad encryptedRecord = .error .recordTooShort) :
    encryptedRecord.length < 16 := by
  by_contra hlong
  rw [Tls13.RecordKeys.decryptRecord, if_neg hlong] at h
  split at h
  · cases h
  · unfold Tls13.RecordKeys.splitInner at h
    split at h
    · cases h
    · cases h

/-! ## Which keys there are -/

namespace DirectionState

variable (crypto : Crypto) (clientRandom : Bytes) (keylog : Keylog) (isClient : Bool)
  (encryptedBody : Bytes)

/-- The candidate's keys open the record. -/
def opens (dir : DirectionState) (candidate : Generation × AeadAlgorithm) : Bool :=
  match (dir.keysFor crypto candidate.1 clientRandom keylog isClient candidate.2).2 with
  | none => false
  | some recordKeys =>
      (recordKeys.decryptRecord crypto (dir.seq candidate.1)
        (Tls13.recordAad encryptedBody.length) encryptedBody).isOk

/-- Looking keys up changes neither the counters nor what is found later. -/
theorem keysFor_again (dir : DirectionState) (g h : Generation)
    (algorithm other : AeadAlgorithm) :
    let after := (dir.keysFor crypto g clientRandom keylog isClient algorithm).1
    after.seq = dir.seq ∧ (after.keysFor crypto h clientRandom keylog isClient other).2 =
      (dir.keysFor crypto h clientRandom keylog isClient other).2 := by
  intro after
  obtain ⟨hlooked, hseq⟩ := dir.keysFor_eq crypto clientRandom keylog isClient g algorithm
  have hcache : after.cache = _ := congrArg Prod.fst hlooked
  have hlater := congrArg Prod.snd (after.keysFor_eq crypto clientRandom keylog isClient h other).1
  have hdirect := congrArg Prod.snd (dir.keysFor_eq crypto clientRandom keylog isClient h other).1
  dsimp only at hlater hdirect
  refine ⟨hseq, ?_⟩
  rw [hlater, hcache, Memo.Source.lookup_again, ← hdirect]

variable {crypto clientRandom keylog isClient encryptedBody}

theorem opens_keysFor (dir : DirectionState) (g : Generation) (algorithm : AeadAlgorithm) :
    opens crypto clientRandom keylog isClient encryptedBody
        (dir.keysFor crypto g clientRandom keylog isClient algorithm).1 =
      opens crypto clientRandom keylog isClient encryptedBody dir := by
  funext candidate
  obtain ⟨hseq, hkeys⟩ := dir.keysFor_again crypto clientRandom keylog isClient g candidate.1
    algorithm candidate.2
  unfold opens
  rw [hseq, hkeys]

/-- A body too short for a tag is opened by no keys. -/
theorem opens_of_tooShort (dir : DirectionState) (hshort : encryptedBody.length < 16)
    (candidate : Generation × AeadAlgorithm) :
    opens crypto clientRandom keylog isClient encryptedBody dir candidate = false := by
  unfold opens
  cases (dir.keysFor crypto candidate.1 clientRandom keylog isClient candidate.2).2 with
  | none => rfl
  | some recordKeys =>
      simp only
      rw [Tls13.RecordKeys.decryptRecord, if_pos hshort]
      rfl

/-- The probing loop succeeds if the keys of one of the candidates open the record. -/
theorem isOk_probe (crypto : Crypto) (clientRandom : Bytes) (keylog : Keylog) (isClient : Bool)
    (encryptedBody : Bytes) (dir : DirectionState)
    (candidates : List (Generation × AeadAlgorithm)) :
    (dir.probe crypto clientRandom keylog isClient encryptedBody candidates).2.isOk =
      candidates.any (opens crypto clientRandom keylog isClient encryptedBody dir) := by
  induction candidates generalizing dir with
  | nil => rfl
  | cons candidate rest ih =>
      obtain ⟨g, algorithm⟩ := candidate
      have hseq := (dir.keysFor_again crypto clientRandom keylog isClient g g algorithm
        algorithm).1
      have hrest := ih (dir.keysFor crypto g clientRandom keylog isClient algorithm).1
      rw [opens_keysFor] at hrest
      rw [probe, List.any_cons]
      have hopens : opens crypto clientRandom keylog isClient encryptedBody dir (g, algorithm) =
        match (dir.keysFor crypto g clientRandom keylog isClient algorithm).2 with
        | none => false
        | some recordKeys => (recordKeys.decryptRecord crypto (dir.seq g)
            (Tls13.recordAad encryptedBody.length) encryptedBody).isOk := rfl
      rw [hopens]
      rcases hlookup : dir.keysFor crypto g clientRandom keylog isClient algorithm with
        ⟨dir', _ | recordKeys⟩
      · rw [hlookup] at hrest
        simp only [Bool.false_or]
        exact hrest
      · rw [hlookup] at hseq hrest
        simp only at hseq ⊢
        rw [hseq]
        rcases hdecrypt : recordKeys.decryptRecord crypto (dir.seq g)
          (Tls13.recordAad encryptedBody.length) encryptedBody with error | ⟨plaintext, contentType⟩
        · cases error with
          | aead => exact hrest
          | noContentType => exact hrest
          | recordTooShort =>
              -- the loop stops here, but no other keys open so short a body either
              have hshort := Tls13.decryptRecord_tooShort hdecrypt
              symm
              change (false || _) = false
              rw [Bool.false_or, List.any_eq_false]
              intro candidate _
              rw [dir.opens_of_tooShort hshort]
              exact Bool.false_ne_true
        · rfl

end DirectionState

namespace Tls12DirectionState

variable (crypto : Crypto) (masterSecret clientRandom serverRandom : Bytes) (isClient : Bool)
  (contentType : UInt8) (explicitNonce ciphertext : Bytes)

/-- The keys of an algorithm open the record. -/
def opens (dir : Tls12DirectionState) (algorithm : AeadAlgorithm) : Bool :=
  ((dir.keysFor crypto masterSecret clientRandom serverRandom isClient
    algorithm).2.decryptRecord crypto dir.seq contentType explicitNonce ciphertext).isSome

/-- Looking keys up changes neither the counter nor what is found later. -/
theorem keysFor_again (dir : Tls12DirectionState) (algorithm other : AeadAlgorithm) :
    let after := (dir.keysFor crypto masterSecret clientRandom serverRandom isClient algorithm).1
    after.seq = dir.seq ∧
      (after.keysFor crypto masterSecret clientRandom serverRandom isClient other).2 =
        (dir.keysFor crypto masterSecret clientRandom serverRandom isClient other).2 := by
  intro after
  obtain ⟨hlooked, hseq⟩ := dir.keysFor_eq crypto masterSecret clientRandom serverRandom isClient
    algorithm
  have hkeys : after.keys = _ := congrArg Prod.fst hlooked
  have hlater := congrArg Prod.snd
    (after.keysFor_eq crypto masterSecret clientRandom serverRandom isClient other).1
  have hdirect := congrArg Prod.snd
    (dir.keysFor_eq crypto masterSecret clientRandom serverRandom isClient other).1
  dsimp only at hlater hdirect
  refine ⟨hseq, Option.some.inj ?_⟩
  rw [hlater, hkeys, Memo.Source.lookup_again, ← hdirect]

/-- The probing loop succeeds if the keys of one of the algorithms open the record,
and reports `noKey` otherwise. -/
theorem probe_classified (dir : Tls12DirectionState) (algorithms : List AeadAlgorithm) :
    let result := (dir.probe crypto masterSecret clientRandom serverRandom isClient contentType
      explicitNonce ciphertext algorithms).2
    let opened := algorithms.any (opens crypto masterSecret clientRandom serverRandom isClient
      contentType explicitNonce ciphertext dir)
    (∃ record, result = .ok record) ∧ opened = true ∨ result = .error .noKey ∧ opened = false := by
  induction algorithms generalizing dir with
  | nil => exact .inr ⟨rfl, rfl⟩
  | cons algorithm rest ih =>
      -- keys derived for one algorithm do not change what the others open
      have hagain := fun other => dir.keysFor_again crypto masterSecret clientRandom serverRandom
        isClient algorithm other
      have hrest := ih (dir.keysFor crypto masterSecret clientRandom serverRandom isClient
        algorithm).1
      have hopens : opens crypto masterSecret clientRandom serverRandom isClient contentType
          explicitNonce ciphertext (dir.keysFor crypto masterSecret clientRandom serverRandom
            isClient algorithm).1 =
          opens crypto masterSecret clientRandom serverRandom isClient contentType explicitNonce
            ciphertext dir := by
        funext other
        unfold opens
        rw [(hagain other).1, (hagain other).2]
      rw [hopens] at hrest
      simp only [probe, List.any_cons, (hagain algorithm).1]
      cases hdecrypt : (dir.keysFor crypto masterSecret clientRandom serverRandom isClient
          algorithm).2.decryptRecord crypto dir.seq contentType explicitNonce ciphertext with
      | some plaintext =>
          left
          rw [opens, hdecrypt]
          exact ⟨⟨_, rfl⟩, rfl⟩
      | none =>
          rw [opens, hdecrypt]
          simp only [Option.isSome_none, Bool.false_or]
          exact hrest

end Tls12DirectionState

/-! ## The outcome of a record -/

namespace ConnectionState

variable (crypto : Crypto) (state : ConnectionState) (keylog : Keylog) (isClientToServer : Bool)
  (outerContentType : UInt8) (encryptedBody : Bytes)

/-- The keys of some TLS 1.3 algorithm can be derived from a traffic secret of the
direction. -/
def hasKey13 : Bool :=
  tls13Candidates.any fun candidate =>
    (freshKeys crypto state.clientRandom keylog isClientToServer candidate.1 candidate.2).isSome

/-- There is a TLS 1.2 master secret, and the server random is known. -/
def hasKey12 : Bool :=
  state.serverRandom.isSome && (keylog.secretFor state.clientRandom .clientRandom).isSome

/-- There is a usable secret for the connection and direction. -/
def hasKey : Bool := state.hasKey13 crypto keylog isClientToServer || state.hasKey12 keylog

/-- TLS 1.2 has all it needs. -/
def tls12Usable : Bool := state.hasKey12 keylog && state.clientRandom.length == 32

/-- Some TLS 1.2 keys open the record. -/
def opens12 : Bool :=
  match state.serverRandom, keylog.secretFor state.clientRandom .clientRandom with
  | some serverRandom, some masterSecret =>
      state.clientRandom.length == 32 && decide (8 + 16 ≤ encryptedBody.length) &&
        tls12Algorithms.any (Tls12DirectionState.opens crypto masterSecret state.clientRandom
          serverRandom isClientToServer outerContentType (encryptedBody.take 8)
          (encryptedBody.drop 8) (state.tls12Direction isClientToServer))
  | _, _ => false

/-- Some keys open the record. -/
def opens : Bool :=
  tls13Candidates.any (DirectionState.opens crypto state.clientRandom keylog isClientToServer
      encryptedBody (state.direction isClientToServer)) ||
    state.opens12 crypto keylog isClientToServer outerContentType encryptedBody

theorem decryptTls12_classified :
    let result := (state.decryptTls12 crypto keylog isClientToServer outerContentType
      encryptedBody).2
    let opened := state.opens12 crypto keylog isClientToServer outerContentType encryptedBody
    let short := state.tls12Usable keylog && decide (encryptedBody.length < 8 + 16)
    (∃ record, result = .ok record) ∧ opened = true ∨
      result = .error .authFailed ∧ opened = false ∧ short = true ∨
      result = .error .noKey ∧ opened = false ∧ short = false := by
  unfold decryptTls12 opens12 tls12Usable hasKey12
  cases state.serverRandom with
  | none => exact .inr (.inr ⟨rfl, rfl, rfl⟩)
  | some serverRandom =>
      cases keylog.secretFor state.clientRandom .clientRandom with
      | none =>
          refine .inr (.inr ⟨?_, rfl, rfl⟩)
          simp only
          split <;> rfl
      | some masterSecret =>
          simp only [Option.isSome_some, Bool.and_self, Bool.true_and]
          by_cases hlength : state.clientRandom.length = 32
          · rw [if_neg (not_not_intro hlength), hlength]
            by_cases hshort : encryptedBody.length < 8 + 16
            · rw [if_pos hshort, decide_eq_true hshort, decide_eq_false (Nat.not_le.mpr hshort)]
              exact .inr (.inl ⟨rfl, rfl, rfl⟩)
            · -- long enough, so the candidates decide
              rw [if_neg hshort, decide_eq_false hshort, decide_eq_true (Nat.not_lt.mp hshort)]
              rcases Tls12DirectionState.probe_classified crypto masterSecret state.clientRandom
                serverRandom isClientToServer outerContentType (encryptedBody.take 8)
                (encryptedBody.drop 8) (state.tls12Direction isClientToServer)
                tls12Algorithms with ⟨hok, hopened⟩ | ⟨herror, hopened⟩
              · rw [hopened]
                exact .inl ⟨hok, rfl⟩
              · rw [hopened]
                exact .inr (.inr ⟨herror, rfl, rfl⟩)
          · rw [if_pos hlength, beq_false_of_ne hlength]
            exact .inr (.inr ⟨rfl, rfl, rfl⟩)

/-- **The outcome of a record.** -/
theorem decrypt_classified :
    let result := (state.decrypt crypto keylog isClientToServer outerContentType encryptedBody).2
    let opened := state.opens crypto keylog isClientToServer outerContentType encryptedBody
    let short := state.tls12Usable keylog && decide (encryptedBody.length < 8 + 16)
    (∃ record, result = .ok record) ∧ opened = true ∨
      result = .error .authFailed ∧ opened = false ∧ short = true ∨
      result = .error .noKey ∧ opened = false ∧ short = false := by
  have hprobe := (state.direction isClientToServer).isOk_probe crypto state.clientRandom keylog
    isClientToServer encryptedBody tls13Candidates
  unfold decrypt decryptTls13 opens
  rw [← hprobe]
  rcases (state.direction isClientToServer).probe crypto state.clientRandom keylog
    isClientToServer encryptedBody tls13Candidates with ⟨dir, error | record⟩
  · -- the error of TLS 1.3 is forgotten, and TLS 1.2 decides
    have htls12 := (state.setDirection isClientToServer dir).decryptTls12_classified crypto keylog
      isClientToServer outerContentType encryptedBody
    simp only [opens12, tls12Usable, hasKey12, serverRandom_setDirection,
      clientRandom_setDirection, tls12Direction_setDirection] at htls12
    exact htls12
  · exact .inl ⟨⟨record, rfl⟩, rfl⟩

variable {crypto state keylog isClientToServer outerContentType encryptedBody}

/-- A failure is classified truthfully: `noKey` means that there is no usable secret, and
a record that usable secrets do not open is `authFailed`. -/
structure Truthful (crypto : Crypto) (state : ConnectionState) (keylog : Keylog)
    (isClientToServer : Bool) (outerContentType : UInt8) (encryptedBody : Bytes) : Prop where
  noKey : (state.decrypt crypto keylog isClientToServer outerContentType encryptedBody).2 =
    .error .noKey → state.hasKey crypto keylog isClientToServer = false
  authFailed : state.hasKey crypto keylog isClientToServer = true →
    state.opens crypto keylog isClientToServer outerContentType encryptedBody = false →
    (state.decrypt crypto keylog isClientToServer outerContentType encryptedBody).2 =
      .error .authFailed

/-- Some keys open the record, or there is no usable secret, or TLS 1.2 has all it needs
and the body is too short for it. -/
def Classifiable (crypto : Crypto) (state : ConnectionState) (keylog : Keylog)
    (isClientToServer : Bool) (outerContentType : UInt8) (encryptedBody : Bytes) : Prop :=
  state.opens crypto keylog isClientToServer outerContentType encryptedBody = true ∨
    state.hasKey crypto keylog isClientToServer = false ∨
    state.tls12Usable keylog = true ∧ encryptedBody.length < 8 + 16

instance : Decidable (Classifiable crypto state keylog isClientToServer outerContentType
    encryptedBody) := inferInstanceAs (Decidable (_ ∨ _ ∨ _ ∧ _))

/-- **One record.**  Its failure is classified truthfully in these cases only. -/
theorem truthful_iff :
    Truthful crypto state keylog isClientToServer outerContentType encryptedBody ↔
      Classifiable crypto state keylog isClientToServer outerContentType encryptedBody := by
  have hclassified := state.decrypt_classified crypto keylog isClientToServer outerContentType
    encryptedBody
  simp only [Bool.and_eq_true, decide_eq_true_eq, Bool.and_eq_false_iff, decide_eq_false_iff_not]
    at hclassified
  unfold Classifiable
  constructor
  · rintro ⟨hnoKey, -⟩
    rcases hclassified with ⟨-, hopened⟩ | ⟨-, -, hshort⟩ | ⟨hresult, -, -⟩
    · exact .inl hopened
    · exact .inr (.inr hshort)
    · exact .inr (.inl (hnoKey hresult))
  · intro hcases
    rcases hclassified with ⟨⟨record, hresult⟩, hopened⟩ | ⟨hresult, -, hshort⟩ |
      ⟨hresult, hclosed, hlong⟩
    · refine ⟨?_, ?_⟩
      · intro hnoKey
        cases hresult.symm.trans hnoKey
      · intro _ hclosed
        cases hopened.symm.trans hclosed
    · -- the record is short, and the failure is an authentication failure
      refine ⟨?_, fun _ _ => hresult⟩
      intro hnoKey
      cases hresult.symm.trans hnoKey
    · -- a missing key was reported, which is true only if there was none
      have hnone : state.hasKey crypto keylog isClientToServer = false := by
        rcases hcases with hopened | hnone | ⟨husable, hshort⟩
        · cases hopened.symm.trans hclosed
        · exact hnone
        · rcases hlong with hunusable | hlong
          · cases husable.symm.trans hunusable
          · exact absurd hshort hlong
      refine ⟨fun _ => hnone, ?_⟩
      intro hkey _
      cases hnone.symm.trans hkey

end ConnectionState

end Tlscap
