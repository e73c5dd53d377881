import Tlscap.Connection.Model
import Tlscap.Library.Memo
import Tlscap.Library.Run

/-!
# Decryption without caches

`Uncached` is what decryption would depend on if no keys were kept: the two randoms and the
counters.  Every attempt derives its keys from the keylog it is given.  Where the cached keys
of a direction are the ones the keylog would give (`CachesAgree`), `ConnectionState.decrypt`
computes exactly this (`decrypt_agrees`), and the caches can be forgotten from there on.

## Strategy

Each protocol has a cache of its own, filled candidate by candidate while a loop looks for
keys that open the record.  Both are treated as one:

* **The keys.**  A direction looks keys up in a memo (`keysFor_eq`), whose source is the
  keylog for TLS 1.3 (`tls13Source`) and the one master secret for TLS 1.2 (`tls12Source`).
* **The loop.**  It probes that memo, and besides moves the counter on that the decrypted
  record was numbered by (`probe_eq`).  What is in the memo before and after, and that the
  outcome is that of fresh keys, are then facts about memos (`probe_fills`, `probe_agrees`).
* **The fallback.**  TLS 1.2 is tried with the state TLS 1.3 has left, which differs in its
  TLS 1.3 keys only (`tls12Direction_decryptTls13`), so the two agreements can be chained.

What makes the caches agree is that the keylog never changes its mind: if whatever it binds
are the secrets of the connection (`Keylog.BindsOnly`), every cached key was derived from
these (`CachesFrom`).  Learning the server's random keeps that, as TLS 1.2 keys are derived
only after it is known.
-/

namespace Tlscap

/-! ## The state and its attempts -/

/-- The decrypt state of a connection without its caches. -/
@[ext] structure Uncached where
  clientRandom : Bytes
  serverRandom : Option Bytes
  seq : (isClientToServer : Bool) → Generation → UInt64
  tls12Seq : (isClientToServer : Bool) → UInt64

/-- Forgets the cached keys. -/
def ConnectionState.uncached (state : ConnectionState) : Uncached where
  clientRandom := state.clientRandom
  serverRandom := state.serverRandom
  seq isClientToServer := (state.direction isClientToServer).seq
  tls12Seq isClientToServer := (state.tls12Direction isClientToServer).seq

/-- The TLS 1.3 keys of a candidate, derived from the keylog. -/
def freshKeys (crypto : Crypto) (clientRandom : Bytes) (keylog : Keylog) (isClient : Bool)
    (g : Generation) (algorithm : AeadAlgorithm) : Option Tls13.RecordKeys :=
  match keylog.secretFor clientRandom (trafficLabel g isClient) with
  | none => none
  | some secret => Tls13.RecordKeys.derive crypto secret algorithm

namespace Uncached

/-- The TLS 1.3 attempts over the candidates that are left. -/
def attempts13 (crypto : Crypto) (clientRandom : Bytes) (keylog : Keylog) (isClient : Bool)
    (seq : Generation → UInt64) (encryptedBody : Bytes) :
    List (Generation × AeadAlgorithm) → Except ProcessError DecryptedRecord
  | [] => .error .noKey
  | (g, algorithm) :: rest =>
      match freshKeys crypto clientRandom keylog isClient g algorithm with
      | none => attempts13 crypto clientRandom keylog isClient seq encryptedBody rest
      | some recordKeys =>
          match recordKeys.decryptRecord crypto (seq g) (Tls13.recordAad encryptedBody.length)
              encryptedBody with
          | .ok (plaintext, contentType) => .ok ⟨plaintext, contentType, algorithm, .tls13 g⟩
          | .error .recordTooShort => .error .authFailed
          | .error _ => attempts13 crypto clientRandom keylog isClient seq encryptedBody rest

/-- The TLS 1.2 attempts over the algorithms that are left. -/
def attempts12 (crypto : Crypto) (masterSecret clientRandom serverRandom : Bytes)
    (isClient : Bool) (seq : UInt64) (contentType : UInt8) (explicitNonce ciphertext : Bytes) :
    List AeadAlgorithm → Except ProcessError DecryptedRecord
  | [] => .error .noKey
  | algorithm :: rest =>
      match (Tls12.RecordKeys.derive crypto masterSecret clientRandom serverRandom algorithm
          isClient).decryptRecord crypto seq contentType explicitNonce ciphertext with
      | some plaintext => .ok ⟨plaintext, contentType, algorithm, .tls12 explicitNonce⟩
      | none =>
          attempts12 crypto masterSecret clientRandom serverRandom isClient seq contentType
            explicitNonce ciphertext rest

/-- The outcome of TLS 1.3. -/
def attempt13 (crypto : Crypto) (state : Uncached) (keylog : Keylog) (isClientToServer : Bool)
    (encryptedBody : Bytes) : Except ProcessError DecryptedRecord :=
  attempts13 crypto state.clientRandom keylog isClientToServer (state.seq isClientToServer)
    encryptedBody tls13Candidates

/-- The outcome of TLS 1.2. -/
def attempt12 (crypto : Crypto) (state : Uncached) (keylog : Keylog) (isClientToServer : Bool)
    (contentType : UInt8) (encryptedBody : Bytes) : Except ProcessError DecryptedRecord :=
  match state.serverRandom with
  | none => .error .noKey
  | some serverRandom =>
      if state.clientRandom.length ≠ 32 then .error .noKey
      else
        match keylog.secretFor state.clientRandom .clientRandom with
        | none => .error .noKey
        | some masterSecret =>
            if encryptedBody.length < 8 + 16 then .error .authFailed
            else
              attempts12 crypto masterSecret state.clientRandom serverRandom isClientToServer
                (state.tls12Seq isClientToServer) contentType (encryptedBody.take 8)
                (encryptedBody.drop 8) tls12Algorithms

/-- The outcome of a record: TLS 1.3 first, then TLS 1.2. -/
def attempt (crypto : Crypto) (state : Uncached) (keylog : Keylog) (isClientToServer : Bool)
    (outerContentType : UInt8) (encryptedBody : Bytes) : Except ProcessError DecryptedRecord :=
  match state.attempt13 crypto keylog isClientToServer encryptedBody with
  | .ok record => .ok record
  | .error _ => state.attempt12 crypto keylog isClientToServer outerContentType encryptedBody

/-- Moves the counter on that a decrypted record was numbered by. -/
def advance (state : Uncached) (isClientToServer : Bool) : RecordVersion → Uncached
  | .tls13 g =>
      { state with
        seq := Function.update state.seq isClientToServer
          (Function.update (state.seq isClientToServer) g (state.seq isClientToServer g + 1)) }
  | .tls12 _ =>
      { state with
        tls12Seq := Function.update state.tls12Seq isClientToServer
          (state.tls12Seq isClientToServer + 1) }

/-- The counters after an outcome. -/
def after (state : Uncached) (isClientToServer : Bool) :
    Except ProcessError DecryptedRecord → Uncached
  | .ok record => state.advance isClientToServer record.version
  | .error _ => state

@[simp] theorem serverRandom_after (state : Uncached) (isClientToServer : Bool)
    (outcome : Except ProcessError DecryptedRecord) :
    (state.after isClientToServer outcome).serverRandom = state.serverRandom := by
  rcases outcome with _ | ⟨_, _, _, _ | _⟩ <;> rfl

@[simp] theorem clientRandom_after (state : Uncached) (isClientToServer : Bool)
    (outcome : Except ProcessError DecryptedRecord) :
    (state.after isClientToServer outcome).clientRandom = state.clientRandom := by
  rcases outcome with _ | ⟨_, _, _, _ | _⟩ <;> rfl

/-- Decrypts one record with keys derived from the keylog passed. -/
def decrypt (crypto : Crypto) (state : Uncached) (keylog : Keylog) (isClientToServer : Bool)
    (outerContentType : UInt8) (encryptedBody : Bytes) :
    Uncached × Except ProcessError DecryptedRecord :=
  let outcome := state.attempt crypto keylog isClientToServer outerContentType encryptedBody
  (state.after isClientToServer outcome, outcome)

/-- Learns the random of the ServerHello, as `ConnectionState.setServerRandom` does. -/
def setServerRandom (state : Uncached) (serverRandom : Bytes) : Uncached × Bool :=
  match state.serverRandom with
  | none => ({ state with serverRandom := some serverRandom }, true)
  | some _ => (state, false)

end Uncached

/-! ## Caches that agree with the keylog -/

/-- The TLS 1.3 keys of a direction are the ones this keylog gives, wherever it
gives a secret at all. -/
def DirectionState.Agrees (crypto : Crypto) (dir : DirectionState) (clientRandom : Bytes)
    (keylog : Keylog) (isClient : Bool) : Prop :=
  ∀ g algorithm recordKeys secret, dir.keys g algorithm = some recordKeys →
    keylog.secretFor clientRandom (trafficLabel g isClient) = some secret →
    Tls13.RecordKeys.derive crypto secret algorithm = some recordKeys

/-- The TLS 1.2 keys of a direction are the ones this master secret gives. -/
def Tls12DirectionState.Agrees (crypto : Crypto) (dir : Tls12DirectionState)
    (masterSecret clientRandom serverRandom : Bytes) (isClient : Bool) : Prop :=
  ∀ algorithm recordKeys, dir.keys algorithm = some recordKeys →
    Tls12.RecordKeys.derive crypto masterSecret clientRandom serverRandom algorithm isClient =
      recordKeys

/-- No cached keys of the direction are stale for this keylog. -/
def ConnectionState.CachesAgree (crypto : Crypto) (state : ConnectionState) (keylog : Keylog)
    (isClientToServer : Bool) : Prop :=
  (state.direction isClientToServer).Agrees crypto state.clientRandom keylog isClientToServer ∧
    ∀ serverRandom masterSecret, state.serverRandom = some serverRandom →
      keylog.secretFor state.clientRandom .clientRandom = some masterSecret →
      (state.tls12Direction isClientToServer).Agrees crypto masterSecret state.clientRandom
        serverRandom isClientToServer

/-! ## Both caches are of one kind

A direction looks keys up as `Memo.Source.lookup` does, and its probing loop is
`Memo.Source.probe`: the TLS 1.3 keys of a candidate come from the secret the keylog has
for it, those of TLS 1.2 from the one master secret.  What the loops do besides is to
count: a record that is decrypted moves its counter on (`probe_eq`). -/

/-- Where the TLS 1.3 keys of a direction come from. -/
def tls13Source (crypto : Crypto) (clientRandom : Bytes) (keylog : Keylog) (isClient : Bool) :
    Memo.Source (Generation × AeadAlgorithm) Bytes Tls13.RecordKeys where
  known candidate := keylog.secretFor clientRandom (trafficLabel candidate.1 isClient)
  compute candidate secret := Tls13.RecordKeys.derive crypto secret candidate.2

/-- Where the TLS 1.2 keys of a direction come from. -/
def tls12Source (crypto : Crypto) (masterSecret clientRandom serverRandom : Bytes)
    (isClient : Bool) : Memo.Source AeadAlgorithm Bytes Tls12.RecordKeys where
  known _ := some masterSecret
  compute algorithm secret :=
    some (Tls12.RecordKeys.derive crypto secret clientRandom serverRandom algorithm isClient)

theorem fresh_tls13Source (crypto : Crypto) (clientRandom : Bytes) (keylog : Keylog)
    (isClient : Bool) (g : Generation) (algorithm : AeadAlgorithm) :
    (tls13Source crypto clientRandom keylog isClient).fresh (g, algorithm) =
      freshKeys crypto clientRandom keylog isClient g algorithm := by
  unfold Memo.Source.fresh freshKeys tls13Source
  dsimp only
  cases keylog.secretFor clientRandom (trafficLabel g isClient) <;> rfl

namespace DirectionState

variable {crypto : Crypto} {dir : DirectionState} {clientRandom : Bytes} {keylog : Keylog}
  {isClient : Bool}

/-- The keys by candidate. -/
def cache (dir : DirectionState) (candidate : Generation × AeadAlgorithm) :
    Option Tls13.RecordKeys :=
  dir.keys candidate.1 candidate.2

theorem cache_insertKeys (dir : DirectionState) (g : Generation) (algorithm : AeadAlgorithm)
    (recordKeys : Tls13.RecordKeys) :
    (dir.insertKeys g algorithm recordKeys).cache =
      Function.update dir.cache (g, algorithm) (some recordKeys) := by
  funext candidate
  rw [cache, keys_insertKeys, Function.update_apply]
  simp only [Prod.ext_iff]
  rfl

theorem Agrees.source (h : dir.Agrees crypto clientRandom keylog isClient) :
    (tls13Source crypto clientRandom keylog isClient).Agrees dir.cache :=
  fun candidate recordKeys secret hkeys hsecret =>
    h candidate.1 candidate.2 recordKeys secret hkeys hsecret

/-! ### The loop of TLS 1.3 -/

/-- Looking keys up leaves the counters alone. -/
theorem keysFor_eq (crypto : Crypto) (dir : DirectionState) (clientRandom : Bytes)
    (keylog : Keylog) (isClient : Bool) (g : Generation) (algorithm : AeadAlgorithm) :
    let after := dir.keysFor crypto g clientRandom keylog isClient algorithm
    (after.1.cache, after.2) =
        (tls13Source crypto clientRandom keylog isClient).lookup dir.cache (g, algorithm) ∧
      after.1.seq = dir.seq := by
  have hcache : dir.cache (g, algorithm) = dir.keys g algorithm := rfl
  unfold keysFor Memo.Source.lookup tls13Source
  dsimp only
  rw [hcache]
  cases keylog.secretFor clientRandom (trafficLabel g isClient) with
  | none => exact ⟨rfl, rfl⟩
  | some secret =>
      cases dir.keys g algorithm with
      | some recordKeys => exact ⟨rfl, rfl⟩
      | none =>
          cases hderive : Tls13.RecordKeys.derive crypto secret algorithm with
          | none =>
              simp only [hderive]
              exact ⟨trivial, trivial⟩
          | some recordKeys =>
              simp only [hderive, cache_insertKeys, true_and]
              exact funext fun h => seq_insertKeys dir g h algorithm recordKeys

/-- What trying the keys of a candidate gives: a record, or the error that ends the loop. -/
def tryRecord (crypto : Crypto) (seq : Generation → UInt64) (encryptedBody : Bytes)
    (candidate : Generation × AeadAlgorithm) (recordKeys : Tls13.RecordKeys) :
    Option (Except ProcessError DecryptedRecord) :=
  match recordKeys.decryptRecord crypto (seq candidate.1) (Tls13.recordAad encryptedBody.length)
      encryptedBody with
  | .ok (plaintext, contentType) =>
      some (.ok ⟨plaintext, contentType, candidate.2, .tls13 candidate.1⟩)
  | .error .recordTooShort => some (.error .authFailed)
  | .error _ => none

/-- The probing loop probes the cache, and moves the counter on that its outcome names. -/
theorem probe_eq (crypto : Crypto) (dir : DirectionState) (clientRandom : Bytes)
    (keylog : Keylog) (isClient : Bool) (encryptedBody : Bytes)
    (candidates : List (Generation × AeadAlgorithm)) :
    let after := dir.probe crypto clientRandom keylog isClient encryptedBody candidates
    let probed := (tls13Source crypto clientRandom keylog isClient).probe
      (tryRecord crypto dir.seq encryptedBody) candidates dir.cache
    (after.1.cache = probed.1 ∧ after.2 = probed.2.getD (.error .noKey)) ∧
      ((∃ record g, after.2 = .ok record ∧ record.version = .tls13 g ∧
          after.1.seq = Function.update dir.seq g (dir.seq g + 1)) ∨
        (∃ error, after.2 = .error error) ∧ after.1.seq = dir.seq) := by
  induction candidates generalizing dir with
  | nil => exact ⟨⟨rfl, rfl⟩, .inr ⟨⟨.noKey, rfl⟩, rfl⟩⟩
  | cons candidate rest ih =>
      obtain ⟨g, algorithm⟩ := candidate
      obtain ⟨hlooked, hseq⟩ := dir.keysFor_eq crypto clientRandom keylog isClient g algorithm
      rcases hlookup : dir.keysFor crypto g clientRandom keylog isClient algorithm with
        ⟨dir', found⟩
      rw [hlookup] at hlooked hseq
      dsimp only at hlooked hseq
      have hrest := ih dir'
      rw [hseq] at hrest
      simp only [probe, hlookup, Memo.Source.probe, ← hlooked]
      cases found with
      | none => exact hrest
      | some recordKeys =>
          simp only [Option.bind_some, tryRecord, hseq]
          rcases recordKeys.decryptRecord crypto (dir.seq g)
              (Tls13.recordAad encryptedBody.length) encryptedBody with
            error | ⟨plaintext, contentType⟩
          · cases error with
            | aead => exact hrest
            | noContentType => exact hrest
            -- a record that is too short for one candidate ends the loop
            | recordTooShort => exact ⟨⟨rfl, rfl⟩, .inr ⟨⟨.authFailed, rfl⟩, hseq⟩⟩
          · refine ⟨⟨?_, rfl⟩, .inl ⟨_, g, rfl, rfl, ?_⟩⟩
            · funext candidate
              rw [cache, keys_nextSeq]
              rfl
            · funext h
              rw [seq_nextSeq, hseq, Function.update_apply]
              split
              · rename_i hsame
                rw [hsame]
              · rfl

theorem probe_fills (crypto : Crypto) (dir : DirectionState) (clientRandom : Bytes)
    (keylog : Keylog) (isClient : Bool) (encryptedBody : Bytes)
    (candidates : List (Generation × AeadAlgorithm)) :
    (tls13Source crypto clientRandom keylog isClient).Fills dir.cache
      (dir.probe crypto clientRandom keylog isClient encryptedBody candidates).1.cache := by
  rw [(dir.probe_eq crypto clientRandom keylog isClient encryptedBody candidates).1.1]
  exact Memo.Source.probe_fills _ _ candidates dir.cache

/-- The uncached attempts have the first result that fresh keys give. -/
theorem attempts13_eq (crypto : Crypto) (clientRandom : Bytes) (keylog : Keylog)
    (isClient : Bool) (seq : Generation → UInt64) (encryptedBody : Bytes)
    (candidates : List (Generation × AeadAlgorithm)) :
    Uncached.attempts13 crypto clientRandom keylog isClient seq encryptedBody candidates =
      (candidates.findSome? fun candidate =>
        ((tls13Source crypto clientRandom keylog isClient).fresh candidate).bind
          (tryRecord crypto seq encryptedBody candidate)).getD (.error .noKey) := by
  induction candidates with
  | nil => rfl
  | cons candidate rest ih =>
      obtain ⟨g, algorithm⟩ := candidate
      rw [Uncached.attempts13, List.findSome?_cons, fresh_tls13Source, ih]
      cases freshKeys crypto clientRandom keylog isClient g algorithm with
      | none => rfl
      | some recordKeys =>
          simp only [Option.bind_some, tryRecord]
          rcases recordKeys.decryptRecord crypto (seq g) (Tls13.recordAad encryptedBody.length)
            encryptedBody with error | ⟨plaintext, contentType⟩
          · cases error <;> rfl
          · rfl

/-- The probing loop has the outcome of the uncached attempts. -/
theorem probe_agrees (hagrees : dir.Agrees crypto clientRandom keylog isClient)
    (encryptedBody : Bytes) (candidates : List (Generation × AeadAlgorithm)) :
    (dir.probe crypto clientRandom keylog isClient encryptedBody candidates).2 =
      Uncached.attempts13 crypto clientRandom keylog isClient dir.seq encryptedBody
        candidates := by
  rw [(dir.probe_eq crypto clientRandom keylog isClient encryptedBody candidates).1.2,
    attempts13_eq, Memo.Source.probe_agrees hagrees.source]

end DirectionState

/-! ### The loop of TLS 1.2 -/

namespace Tls12DirectionState

variable {crypto : Crypto} {dir : Tls12DirectionState}
  {masterSecret clientRandom serverRandom : Bytes} {isClient : Bool}

theorem Agrees.source (h : dir.Agrees crypto masterSecret clientRandom serverRandom isClient) :
    (tls12Source crypto masterSecret clientRandom serverRandom isClient).Agrees dir.keys := by
  rintro algorithm recordKeys secret hkeys ⟨⟩
  exact congrArg some (h algorithm recordKeys hkeys)

/-- Looking keys up leaves the counter alone. -/
theorem keysFor_eq (crypto : Crypto) (dir : Tls12DirectionState)
    (masterSecret clientRandom serverRandom : Bytes) (isClient : Bool)
    (algorithm : AeadAlgorithm) :
    let after := dir.keysFor crypto masterSecret clientRandom serverRandom isClient algorithm
    (after.1.keys, some after.2) =
        (tls12Source crypto masterSecret clientRandom serverRandom isClient).lookup dir.keys
          algorithm ∧
      after.1.seq = dir.seq := by
  unfold keysFor Memo.Source.lookup tls12Source
  cases hkeys : dir.keys algorithm with
  | some recordKeys => exact ⟨rfl, rfl⟩
  | none => exact ⟨rfl, rfl⟩

/-- What trying the keys of an algorithm gives. -/
def tryRecord (crypto : Crypto) (seq : UInt64) (contentType : UInt8)
    (explicitNonce ciphertext : Bytes) (algorithm : AeadAlgorithm)
    (recordKeys : Tls12.RecordKeys) : Option DecryptedRecord :=
  (recordKeys.decryptRecord crypto seq contentType explicitNonce ciphertext).map fun plaintext =>
    ⟨plaintext, contentType, algorithm, .tls12 explicitNonce⟩

/-- The outcome of the loop, where none of the keys gives a record. -/
def outcome (found : Option DecryptedRecord) : Except ProcessError DecryptedRecord :=
  found.elim (.error .noKey) .ok

/-- The probing loop probes the cache, and moves the counter on where that gives a record. -/
theorem probe_eq (crypto : Crypto) (dir : Tls12DirectionState)
    (masterSecret clientRandom serverRandom : Bytes) (isClient : Bool) (contentType : UInt8)
    (explicitNonce ciphertext : Bytes) (algorithms : List AeadAlgorithm) :
    let after := dir.probe crypto masterSecret clientRandom serverRandom isClient contentType
      explicitNonce ciphertext algorithms
    let probed := (tls12Source crypto masterSecret clientRandom serverRandom isClient).probe
      (tryRecord crypto dir.seq contentType explicitNonce ciphertext) algorithms dir.keys
    (after.1.keys = probed.1 ∧ after.2 = outcome probed.2) ∧
      ((∃ record, after.2 = .ok record ∧ record.version = .tls12 explicitNonce ∧
          after.1.seq = dir.seq + 1) ∨
        (∃ error, after.2 = .error error) ∧ after.1.seq = dir.seq) := by
  induction algorithms generalizing dir with
  | nil => exact ⟨⟨rfl, rfl⟩, .inr ⟨⟨.noKey, rfl⟩, rfl⟩⟩
  | cons algorithm rest ih =>
      obtain ⟨hlooked, hseq⟩ := dir.keysFor_eq crypto masterSecret clientRandom serverRandom
        isClient algorithm
      rcases hlookup : dir.keysFor crypto masterSecret clientRandom serverRandom isClient
          algorithm with ⟨dir', recordKeys⟩
      rw [hlookup] at hlooked hseq
      dsimp only at hlooked hseq
      have hrest := ih dir'
      rw [hseq] at hrest
      simp only [probe, hlookup, Memo.Source.probe, ← hlooked, Option.bind_some, tryRecord, hseq]
      rcases recordKeys.decryptRecord crypto dir.seq contentType explicitNonce ciphertext with
        _ | plaintext
      · exact hrest
      · refine ⟨⟨rfl, rfl⟩, .inl ⟨_, rfl, rfl, ?_⟩⟩
        simp only [nextSeq, hseq]

theorem probe_fills (crypto : Crypto) (dir : Tls12DirectionState)
    (masterSecret clientRandom serverRandom : Bytes) (isClient : Bool) (contentType : UInt8)
    (explicitNonce ciphertext : Bytes) (algorithms : List AeadAlgorithm) :
    (tls12Source crypto masterSecret clientRandom serverRandom isClient).Fills dir.keys
      (dir.probe crypto masterSecret clientRandom serverRandom isClient contentType
        explicitNonce ciphertext algorithms).1.keys := by
  rw [(dir.probe_eq crypto masterSecret clientRandom serverRandom isClient contentType
    explicitNonce ciphertext algorithms).1.1]
  exact Memo.Source.probe_fills _ _ algorithms dir.keys

/-- The uncached attempts have the first record that fresh keys give. -/
theorem attempts12_eq (crypto : Crypto) (masterSecret clientRandom serverRandom : Bytes)
    (isClient : Bool) (seq : UInt64) (contentType : UInt8) (explicitNonce ciphertext : Bytes)
    (algorithms : List AeadAlgorithm) :
    Uncached.attempts12 crypto masterSecret clientRandom serverRandom isClient seq contentType
        explicitNonce ciphertext algorithms =
      outcome (algorithms.findSome? fun algorithm =>
        ((tls12Source crypto masterSecret clientRandom serverRandom isClient).fresh
          algorithm).bind
            (tryRecord crypto seq contentType explicitNonce ciphertext algorithm)) := by
  induction algorithms with
  | nil => rfl
  | cons algorithm rest ih =>
      have hfresh : (tls12Source crypto masterSecret clientRandom serverRandom isClient).fresh
          algorithm = some (Tls12.RecordKeys.derive crypto masterSecret clientRandom serverRandom
            algorithm isClient) := rfl
      rw [Uncached.attempts12, List.findSome?_cons, hfresh, Option.bind_some, tryRecord, ih]
      rcases (Tls12.RecordKeys.derive crypto masterSecret clientRandom serverRandom algorithm
        isClient).decryptRecord crypto seq contentType explicitNonce ciphertext with
        _ | plaintext
      · rfl
      · rfl

/-- The probing loop has the outcome of the uncached attempts. -/
theorem probe_agrees
    (hagrees : dir.Agrees crypto masterSecret clientRandom serverRandom isClient)
    (contentType : UInt8) (explicitNonce ciphertext : Bytes) (algorithms : List AeadAlgorithm) :
    (dir.probe crypto masterSecret clientRandom serverRandom isClient contentType explicitNonce
        ciphertext algorithms).2 =
      Uncached.attempts12 crypto masterSecret clientRandom serverRandom isClient dir.seq
        contentType explicitNonce ciphertext algorithms := by
  rw [(dir.probe_eq crypto masterSecret clientRandom serverRandom isClient contentType
    explicitNonce ciphertext algorithms).1.2, attempts12_eq,
    Memo.Source.probe_agrees hagrees.source]

end Tls12DirectionState

/-! ## Both protocols -/

namespace ConnectionState

variable {crypto : Crypto} {state : ConnectionState} {keylog : Keylog} {isClientToServer : Bool}

theorem uncached_setDirection (state : ConnectionState) (isClientToServer : Bool)
    (dir : DirectionState) :
    (state.setDirection isClientToServer dir).uncached =
      { state.uncached with
        seq := Function.update state.uncached.seq isClientToServer dir.seq } := by
  ext d g <;> simp [uncached, Function.update_apply]
  split <;> rfl

theorem uncached_setTls12Direction (state : ConnectionState) (isClientToServer : Bool)
    (dir : Tls12DirectionState) :
    (state.setTls12Direction isClientToServer dir).uncached =
      { state.uncached with
        tls12Seq := Function.update state.uncached.tls12Seq isClientToServer dir.seq } := by
  ext d g <;> simp [uncached, Function.update_apply]
  split <;> rfl

@[simp] theorem clientRandom_decryptTls13 (crypto : Crypto) (state : ConnectionState)
    (keylog : Keylog) (isClientToServer : Bool) (body : Bytes) :
    (state.decryptTls13 crypto keylog isClientToServer body).1.clientRandom =
      state.clientRandom := by
  simp [decryptTls13]

@[simp] theorem serverRandom_decryptTls13 (crypto : Crypto) (state : ConnectionState)
    (keylog : Keylog) (isClientToServer : Bool) (body : Bytes) :
    (state.decryptTls13 crypto keylog isClientToServer body).1.serverRandom =
      state.serverRandom := by
  simp [decryptTls13]

@[simp] theorem tls12Direction_decryptTls13 (crypto : Crypto) (state : ConnectionState)
    (keylog : Keylog) (isClientToServer isClient : Bool) (body : Bytes) :
    (state.decryptTls13 crypto keylog isClientToServer body).1.tls12Direction isClient =
      state.tls12Direction isClient := by
  simp [decryptTls13]

/-- TLS 1.3 decryption with agreeing caches: the uncached outcome, and counters
moved on accordingly. -/
theorem decryptTls13_agrees (hagrees : (state.direction isClientToServer).Agrees crypto
      state.clientRandom keylog isClientToServer) (encryptedBody : Bytes) :
    let after := state.decryptTls13 crypto keylog isClientToServer encryptedBody
    after.2 = state.uncached.attempt13 crypto keylog isClientToServer encryptedBody ∧
      after.1.uncached = state.uncached.after isClientToServer after.2 := by
  have houtcome := DirectionState.probe_agrees hagrees encryptedBody tls13Candidates
  have hcounters := ((state.direction isClientToServer).probe_eq crypto state.clientRandom keylog
    isClientToServer encryptedBody tls13Candidates).2
  simp only [decryptTls13]
  rcases hprobe : (state.direction isClientToServer).probe crypto state.clientRandom keylog
    isClientToServer encryptedBody tls13Candidates with ⟨dir, result⟩
  rw [hprobe] at houtcome hcounters
  simp only at houtcome hcounters
  refine ⟨houtcome, ?_⟩
  rw [uncached_setDirection]
  obtain ⟨record, g, rfl, hversion, hseq⟩ | ⟨⟨error, rfl⟩, hseq⟩ := hcounters
  · simp only [Uncached.after, hversion, Uncached.advance, hseq]
    rfl
  · rw [hseq]
    exact congrArg (fun seq => { state.uncached with seq })
      (Function.update_eq_self isClientToServer state.uncached.seq)

/-- The same for TLS 1.2. -/
theorem decryptTls12_agrees
    (hagrees : ∀ serverRandom masterSecret, state.serverRandom = some serverRandom →
      keylog.secretFor state.clientRandom .clientRandom = some masterSecret →
      (state.tls12Direction isClientToServer).Agrees crypto masterSecret state.clientRandom
        serverRandom isClientToServer) (contentType : UInt8) (encryptedBody : Bytes) :
    let after := state.decryptTls12 crypto keylog isClientToServer contentType encryptedBody
    after.2 = state.uncached.attempt12 crypto keylog isClientToServer contentType
        encryptedBody ∧
      after.1.uncached = state.uncached.after isClientToServer after.2 := by
  unfold decryptTls12 Uncached.attempt12
  simp only [show state.uncached.serverRandom = state.serverRandom from rfl,
    show state.uncached.clientRandom = state.clientRandom from rfl]
  cases hserver : state.serverRandom with
  | none => exact ⟨rfl, rfl⟩
  | some serverRandom =>
      by_cases hrandom : state.clientRandom.length ≠ 32
      · simp only [if_pos hrandom]
        exact ⟨trivial, rfl⟩
      simp only [if_neg hrandom]
      cases hmaster : keylog.secretFor state.clientRandom .clientRandom with
      | none => exact ⟨rfl, rfl⟩
      | some masterSecret =>
          by_cases hshort : encryptedBody.length < 8 + 16
          · simp only [if_pos hshort]
            exact ⟨trivial, rfl⟩
          simp only [if_neg hshort]
          -- with both randoms and a secret the caches are asked, which agree with it
          have houtcome :=
            Tls12DirectionState.probe_agrees (hagrees serverRandom masterSecret hserver hmaster)
              contentType (encryptedBody.take 8) (encryptedBody.drop 8) tls12Algorithms
          have hcounters := ((state.tls12Direction isClientToServer).probe_eq crypto masterSecret
            state.clientRandom serverRandom isClientToServer contentType (encryptedBody.take 8)
            (encryptedBody.drop 8) tls12Algorithms).2
          rcases hprobe : (state.tls12Direction isClientToServer).probe crypto masterSecret
            state.clientRandom serverRandom isClientToServer contentType (encryptedBody.take 8)
            (encryptedBody.drop 8) tls12Algorithms with ⟨dir, result⟩
          rw [hprobe] at houtcome hcounters
          simp only at houtcome hcounters
          refine ⟨houtcome, ?_⟩
          rw [uncached_setTls12Direction]
          obtain ⟨record, rfl, hversion, hseq⟩ | ⟨⟨error, rfl⟩, hseq⟩ := hcounters
          · simp only [Uncached.after, hversion, Uncached.advance, hseq]
            rfl
          · rw [hseq]
            exact congrArg (fun tls12Seq => { state.uncached with tls12Seq })
              (Function.update_eq_self isClientToServer state.uncached.tls12Seq)

/-- **With agreeing caches, decryption is uncached decryption.** -/
theorem decrypt_agrees (hagrees : state.CachesAgree crypto keylog isClientToServer)
    (outerContentType : UInt8) (encryptedBody : Bytes) :
    state.uncached.decrypt crypto keylog isClientToServer outerContentType encryptedBody =
      ((state.decrypt crypto keylog isClientToServer outerContentType encryptedBody).1.uncached,
        (state.decrypt crypto keylog isClientToServer outerContentType encryptedBody).2) := by
  obtain ⟨houtcome, hcounters⟩ := decryptTls13_agrees hagrees.1 encryptedBody
  unfold decrypt Uncached.decrypt Uncached.attempt
  have hserver := serverRandom_decryptTls13 crypto state keylog isClientToServer encryptedBody
  have hclient := clientRandom_decryptTls13 crypto state keylog isClientToServer encryptedBody
  have htls12 := tls12Direction_decryptTls13 crypto state keylog isClientToServer isClientToServer
    encryptedBody
  rcases htls13 : state.decryptTls13 crypto keylog isClientToServer encryptedBody with
    ⟨middle, result⟩
  rw [htls13] at houtcome hcounters hserver hclient htls12
  simp only at houtcome hcounters hserver hclient htls12
  rw [← houtcome]
  cases result with
  | ok record => exact Prod.ext hcounters.symm rfl
  | error error =>
      have hagrees12 := hagrees.2
      rw [← hserver, ← hclient, ← htls12] at hagrees12
      obtain ⟨houtcome12, hcounters12⟩ :=
        decryptTls12_agrees hagrees12 outerContentType encryptedBody
      have hsame : middle.uncached = state.uncached := hcounters
      rw [hsame] at houtcome12 hcounters12
      simp only [← houtcome12]
      exact Prod.ext hcounters12.symm rfl

end ConnectionState

/-! ## Keylogs that bind the same secrets

As long as every keylog binds a label of the connection to one and the same
secret, or not at all, no cached keys are ever stale. -/

/-- The secrets of one connection. -/
abbrev Secrets := SecretLabel → Option Bytes

/-- What the keylog has of the connection are secrets of it. -/
def Keylog.BindsOnly (keylog : Keylog) (clientRandom : Bytes) (secrets : Secrets) : Prop :=
  ∀ label secret, keylog.secretFor clientRandom label = some secret →
    secrets label = some secret

/-- Every cached key was derived from the secrets of the connection. -/
structure ConnectionState.CachesFrom (crypto : Crypto) (state : ConnectionState)
    (secrets : Secrets) : Prop where
  tls13 : ∀ isClient g algorithm recordKeys,
    (state.direction isClient).keys g algorithm = some recordKeys →
    ∃ secret, secrets (trafficLabel g isClient) = some secret ∧
      Tls13.RecordKeys.derive crypto secret algorithm = some recordKeys
  tls12 : ∀ isClient algorithm recordKeys,
    (state.tls12Direction isClient).keys algorithm = some recordKeys →
    ∃ masterSecret serverRandom, secrets .clientRandom = some masterSecret ∧
      state.serverRandom = some serverRandom ∧
      Tls12.RecordKeys.derive crypto masterSecret state.clientRandom serverRandom algorithm
        isClient = recordKeys

namespace ConnectionState

variable {crypto : Crypto} {state : ConnectionState} {keylog : Keylog} {secrets : Secrets}

theorem cachesFrom_new (crypto : Crypto) (clientRandom : Bytes) (secrets : Secrets) :
    (new clientRandom).CachesFrom crypto secrets := by
  constructor
  · intro isClient g algorithm recordKeys hkeys
    cases isClient <;> cases g <;> cases hkeys
  · intro isClient algorithm recordKeys hkeys
    cases isClient <;> cases hkeys

theorem CachesFrom.agree (hcaches : state.CachesFrom crypto secrets)
    (hbinds : keylog.BindsOnly state.clientRandom secrets) (isClientToServer : Bool) :
    state.CachesAgree crypto keylog isClientToServer := by
  constructor
  · intro g algorithm recordKeys secret hkeys hsecret
    obtain ⟨original, horiginal, hderive⟩ :=
      hcaches.tls13 isClientToServer g algorithm recordKeys hkeys
    rw [hbinds _ _ hsecret, Option.some.injEq] at horiginal
    rw [horiginal, hderive]
  · intro serverRandom masterSecret hserver hmaster algorithm recordKeys hkeys
    obtain ⟨original, server, horiginal, hserver', hderive⟩ :=
      hcaches.tls12 isClientToServer algorithm recordKeys hkeys
    rw [hbinds _ _ hmaster, Option.some.injEq] at horiginal
    rw [hserver, Option.some.injEq] at hserver'
    rw [horiginal, hserver', hderive]

/-- What `decryptTls12` can leave: the state as it was, or one direction probed
under the logged master secret. -/
theorem decryptTls12_cases (state : ConnectionState) (keylog : Keylog)
    (isClientToServer : Bool) (contentType : UInt8) (body : Bytes) :
    (state.decryptTls12 crypto keylog isClientToServer contentType body).1 = state ∨
      ∃ serverRandom masterSecret, state.serverRandom = some serverRandom ∧
        keylog.secretFor state.clientRandom .clientRandom = some masterSecret ∧
        (state.decryptTls12 crypto keylog isClientToServer contentType body).1 =
          state.setTls12Direction isClientToServer
            ((state.tls12Direction isClientToServer).probe crypto masterSecret
              state.clientRandom serverRandom isClientToServer contentType (body.take 8)
              (body.drop 8) tls12Algorithms).1 := by
  unfold decryptTls12
  cases hserver : state.serverRandom with
  | none => exact .inl rfl
  | some serverRandom =>
      simp only
      split
      · exact .inl rfl
      · cases hmaster : keylog.secretFor state.clientRandom .clientRandom with
        | none => exact .inl rfl
        | some masterSecret =>
            simp only
            split
            · exact .inl rfl
            · exact .inr ⟨serverRandom, masterSecret, rfl, rfl, rfl⟩

theorem CachesFrom.decryptTls13 (hcaches : state.CachesFrom crypto secrets)
    (hbinds : keylog.BindsOnly state.clientRandom secrets) (isClientToServer : Bool)
    (body : Bytes) :
    (state.decryptTls13 crypto keylog isClientToServer body).1.CachesFrom crypto secrets := by
  constructor
  · intro isClient g algorithm recordKeys hkeys
    simp only [ConnectionState.decryptTls13, direction_setDirection] at hkeys
    split at hkeys
    · rename_i hsame
      subst hsame
      -- a key that is new was derived from what the keylog has, which is a secret of ours
      rcases DirectionState.probe_fills crypto (state.direction isClient) state.clientRandom
        keylog isClient body tls13Candidates (g, algorithm) recordKeys hkeys with hold | hfresh
      · exact hcaches.tls13 isClient g algorithm recordKeys hold
      · rw [fresh_tls13Source] at hfresh
        unfold freshKeys at hfresh
        split at hfresh
        · cases hfresh
        · rename_i secret hsecret
          exact ⟨secret, hbinds _ _ hsecret, hfresh⟩
    · exact hcaches.tls13 isClient g algorithm recordKeys hkeys
  · intro isClient algorithm recordKeys hkeys
    rw [tls12Direction_decryptTls13] at hkeys
    simpa using hcaches.tls12 isClient algorithm recordKeys hkeys

theorem CachesFrom.decryptTls12 (hcaches : state.CachesFrom crypto secrets)
    (hbinds : keylog.BindsOnly state.clientRandom secrets) (isClientToServer : Bool)
    (contentType : UInt8) (body : Bytes) :
    (state.decryptTls12 crypto keylog isClientToServer contentType body).1.CachesFrom crypto
      secrets := by
  rcases decryptTls12_cases state keylog isClientToServer contentType body with
    hsame | ⟨serverRandom, masterSecret, hserver, hmaster, hafter⟩
  · rwa [hsame]
  · rw [hafter]
    constructor
    · intro isClient g algorithm recordKeys hkeys
      rw [direction_setTls12Direction] at hkeys
      exact hcaches.tls13 isClient g algorithm recordKeys hkeys
    · intro isClient algorithm recordKeys hkeys
      rw [tls12Direction_setTls12Direction] at hkeys
      rw [serverRandom_setTls12Direction, clientRandom_setTls12Direction]
      split at hkeys
      · rename_i hsame
        subst hsame
        rcases Tls12DirectionState.probe_fills crypto (state.tls12Direction isClient)
          masterSecret state.clientRandom serverRandom isClient contentType (body.take 8)
          (body.drop 8) tls12Algorithms algorithm recordKeys hkeys with hold | hfresh
        · exact hcaches.tls12 isClient algorithm recordKeys hold
        · exact ⟨masterSecret, serverRandom, hbinds _ _ hmaster, hserver, Option.some.inj hfresh⟩
      · exact hcaches.tls12 isClient algorithm recordKeys hkeys

@[simp] theorem clientRandom_decryptTls12 (state : ConnectionState) (keylog : Keylog)
    (isClientToServer : Bool) (contentType : UInt8) (body : Bytes) :
    (state.decryptTls12 crypto keylog isClientToServer contentType body).1.clientRandom =
      state.clientRandom := by
  rcases decryptTls12_cases state keylog isClientToServer contentType body with
    hsame | ⟨_, _, _, _, hafter⟩
  · rw [hsame]
  · rw [hafter, clientRandom_setTls12Direction]

@[simp] theorem clientRandom_decrypt (state : ConnectionState) (keylog : Keylog)
    (isClientToServer : Bool) (contentType : UInt8) (body : Bytes) :
    (state.decrypt crypto keylog isClientToServer contentType body).1.clientRandom =
      state.clientRandom := by
  unfold decrypt
  have hmiddle := clientRandom_decryptTls13 crypto state keylog isClientToServer body
  rcases htls13 : state.decryptTls13 crypto keylog isClientToServer body with
    ⟨middle, error | record⟩
  · rw [htls13] at hmiddle
    simpa using hmiddle
  · rw [htls13] at hmiddle
    exact hmiddle

@[simp] theorem serverRandom_decryptTls12 (state : ConnectionState) (keylog : Keylog)
    (isClientToServer : Bool) (contentType : UInt8) (body : Bytes) :
    (state.decryptTls12 crypto keylog isClientToServer contentType body).1.serverRandom =
      state.serverRandom := by
  rcases decryptTls12_cases state keylog isClientToServer contentType body with
    hsame | ⟨_, _, _, _, hafter⟩
  · rw [hsame]
  · rw [hafter, serverRandom_setTls12Direction]

@[simp] theorem serverRandom_decrypt (state : ConnectionState) (keylog : Keylog)
    (isClientToServer : Bool) (contentType : UInt8) (body : Bytes) :
    (state.decrypt crypto keylog isClientToServer contentType body).1.serverRandom =
      state.serverRandom := by
  unfold decrypt
  have hmiddle := serverRandom_decryptTls13 crypto state keylog isClientToServer body
  rcases htls13 : state.decryptTls13 crypto keylog isClientToServer body with
    ⟨middle, error | record⟩
  · rw [htls13] at hmiddle
    simpa using hmiddle
  · rw [htls13] at hmiddle
    exact hmiddle

theorem CachesFrom.decrypt (hcaches : state.CachesFrom crypto secrets)
    (hbinds : keylog.BindsOnly state.clientRandom secrets) (isClientToServer : Bool)
    (contentType : UInt8) (body : Bytes) :
    (state.decrypt crypto keylog isClientToServer contentType body).1.CachesFrom crypto
      secrets := by
  have hmiddle := hcaches.decryptTls13 hbinds isClientToServer body
  have hrandom := clientRandom_decryptTls13 crypto state keylog isClientToServer body
  unfold ConnectionState.decrypt
  rcases htls13 : state.decryptTls13 crypto keylog isClientToServer body with
    ⟨middle, error | record⟩
  · rw [htls13] at hmiddle hrandom
    simp only at hmiddle hrandom
    rw [← hrandom] at hbinds
    exact hmiddle.decryptTls12 hbinds isClientToServer contentType body
  · rw [htls13] at hmiddle
    exact hmiddle

theorem CachesFrom.setServerRandom (hcaches : state.CachesFrom crypto secrets)
    (serverRandom : Bytes) :
    (state.setServerRandom serverRandom).1.CachesFrom crypto secrets := by
  unfold ConnectionState.setServerRandom
  cases hserver : state.serverRandom with
  | some known => exact hcaches
  | none =>
      refine ⟨hcaches.tls13, ?_⟩
      intro isClient algorithm recordKeys hkeys
      -- there are no TLS 1.2 keys yet, as they need the random that is learned here
      obtain ⟨_, _, _, hknown, _⟩ := hcaches.tls12 isClient algorithm recordKeys hkeys
      rw [hserver] at hknown
      cases hknown

end ConnectionState

end Tlscap
