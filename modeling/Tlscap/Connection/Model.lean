import Tlscap.Keylog.Model
import Tlscap.Tls.Record12
import Tlscap.Tls.Record13

/-!
# The decrypt state of one connection

`ConnectionState` keeps, for each direction, the record counters of both
generations of TLS 1.3 and the one counter of TLS 1.2, and the record keys it has
derived.  A record is tried against every generation and algorithm of TLS 1.3
and then against TLS 1.2; whatever authenticates is taken to be right.

The two loops over generations and algorithms are one recursion over the candidates in
their order (`DirectionState.probe`).  At each of them

* **no keys** means that the keylog has no secret for the generation, or one of a length
  the algorithm does not take: the next candidate is tried;
* **keys that fail** leave no trace: the next candidate is tried, and a record that none
  opens is reported as one without a key;
* **a record that is too short** for any keys ends the loop as not authenticated;
* **keys that open it** move the counter of their generation, and end the loop.

Keys come from the cache of the direction where it has some, and are derived and put
there where it has none (`DirectionState.keysFor`); the secret is looked up first in
either case.
-/

namespace Tlscap

/-- The generation of a TLS 1.3 traffic secret. -/
inductive Generation
  | handshake
  | application
  deriving DecidableEq, Repr

/-- The TLS version that protected a record. -/
inductive RecordVersion
  | tls13 (generation : Generation)
  | tls12 (explicitNonce : Bytes)
  deriving DecidableEq, Repr

/-- Why a record was not decrypted. -/
inductive ProcessError
  | noKey
  | authFailed
  deriving DecidableEq, Repr

/-- A decrypted record. -/
structure DecryptedRecord where
  plaintext : Bytes
  contentType : UInt8
  algorithm : AeadAlgorithm
  version : RecordVersion
  deriving DecidableEq, Repr

/-- The algorithms tried for TLS 1.3, in this order. -/
def allAlgorithms : List AeadAlgorithm := [.aes128Gcm, .aes256Gcm, .chaCha20Poly1305]

/-- The algorithms tried for TLS 1.2, in this order. -/
def tls12Algorithms : List AeadAlgorithm := [.aes128Gcm, .aes256Gcm]

/-- The pairs the two loops of `decryptTls13` go through: every algorithm for the
handshake generation, then every algorithm for the application generation. -/
def tls13Candidates : List (Generation × AeadAlgorithm) :=
  [Generation.handshake, Generation.application].flatMap fun g => allAlgorithms.map (g, ·)

/-- Keys by algorithm. -/
abbrev KeyCache (κ : Type) := AeadAlgorithm → Option κ

/-- The cache without keys. -/
def KeyCache.empty {κ : Type} : KeyCache κ := fun _ => none

/-- The label under which a generation's secret is logged. -/
def trafficLabel : Generation → (isClient : Bool) → SecretLabel
  | .handshake, true => .clientHandshakeTrafficSecret
  | .handshake, false => .serverHandshakeTrafficSecret
  | .application, true => .clientTrafficSecret0
  | .application, false => .serverTrafficSecret0

/-- The TLS 1.3 state of one direction. -/
structure DirectionState where
  seqHandshake : UInt64 := 0
  seqApplication : UInt64 := 0
  keysHandshake : KeyCache Tls13.RecordKeys := KeyCache.empty
  keysApplication : KeyCache Tls13.RecordKeys := KeyCache.empty

namespace DirectionState

/-- The counter of a generation. -/
def seq (dir : DirectionState) : Generation → UInt64
  | .handshake => dir.seqHandshake
  | .application => dir.seqApplication

/-- The keys of a generation. -/
def keys (dir : DirectionState) : Generation → KeyCache Tls13.RecordKeys
  | .handshake => dir.keysHandshake
  | .application => dir.keysApplication

/-- Fills one slot of the cache. -/
def insertKeys (dir : DirectionState) (g : Generation) (algorithm : AeadAlgorithm)
    (recordKeys : Tls13.RecordKeys) : DirectionState :=
  match g with
  | .handshake =>
      { dir with keysHandshake := Function.update dir.keysHandshake algorithm recordKeys }
  | .application =>
      { dir with keysApplication := Function.update dir.keysApplication algorithm recordKeys }

/-- The keys for one candidate, and the cache after the lookup.  Without a logged
secret there are none, even if the cache has some. -/
def keysFor (crypto : Crypto) (dir : DirectionState) (g : Generation) (clientRandom : Bytes)
    (keylog : Keylog) (isClient : Bool) (algorithm : AeadAlgorithm) :
    DirectionState × Option Tls13.RecordKeys :=
  match keylog.secretFor clientRandom (trafficLabel g isClient) with
  | none => (dir, none)
  | some secret =>
      match dir.keys g algorithm with
      | some recordKeys => (dir, some recordKeys)
      | none =>
          match Tls13.RecordKeys.derive crypto secret algorithm with
          | none => (dir, none)
          | some recordKeys => (dir.insertKeys g algorithm recordKeys, some recordKeys)

/-- Moves the counter of a generation on. -/
def nextSeq (dir : DirectionState) : Generation → DirectionState
  | .handshake => { dir with seqHandshake := dir.seqHandshake + 1 }
  | .application => { dir with seqApplication := dir.seqApplication + 1 }

/-- The probing loop of `decryptTls13` over the candidates that are left.  A
counter moves only when the loop returns, so what it is at a candidate is what it
was at the start of the generation. -/
def probe (crypto : Crypto) (clientRandom : Bytes) (keylog : Keylog) (isClient : Bool)
    (encryptedBody : Bytes) : List (Generation × AeadAlgorithm) → DirectionState →
    DirectionState × Except ProcessError DecryptedRecord
  | [], dir => (dir, .error .noKey)
  | (g, algorithm) :: rest, dir =>
      match dir.keysFor crypto g clientRandom keylog isClient algorithm with
      | (dir, none) => probe crypto clientRandom keylog isClient encryptedBody rest dir
      | (dir, some recordKeys) =>
          match recordKeys.decryptRecord crypto (dir.seq g)
              (Tls13.recordAad encryptedBody.length) encryptedBody with
          | .ok (plaintext, contentType) =>
              (dir.nextSeq g, .ok ⟨plaintext, contentType, algorithm, .tls13 g⟩)
          | .error .recordTooShort => (dir, .error .authFailed)
          | .error _ => probe crypto clientRandom keylog isClient encryptedBody rest dir

end DirectionState

/-- The TLS 1.2 state of one direction. -/
structure Tls12DirectionState where
  seq : UInt64 := 0
  keys : KeyCache Tls12.RecordKeys := KeyCache.empty

namespace Tls12DirectionState

/-- The keys for one algorithm, and the cache after the lookup. -/
def keysFor (crypto : Crypto) (dir : Tls12DirectionState)
    (masterSecret clientRandom serverRandom : Bytes) (isClient : Bool)
    (algorithm : AeadAlgorithm) : Tls12DirectionState × Tls12.RecordKeys :=
  match dir.keys algorithm with
  | some recordKeys => (dir, recordKeys)
  | none =>
      let recordKeys :=
        Tls12.RecordKeys.derive crypto masterSecret clientRandom serverRandom algorithm isClient
      ({ dir with keys := Function.update dir.keys algorithm recordKeys }, recordKeys)

/-- Moves the counter on. -/
def nextSeq (dir : Tls12DirectionState) : Tls12DirectionState := { dir with seq := dir.seq + 1 }

/-- The probing loop of `decryptTls12` over the algorithms that are left. -/
def probe (crypto : Crypto) (masterSecret clientRandom serverRandom : Bytes) (isClient : Bool)
    (contentType : UInt8) (explicitNonce ciphertext : Bytes) :
    List AeadAlgorithm → Tls12DirectionState →
    Tls12DirectionState × Except ProcessError DecryptedRecord
  | [], dir => (dir, .error .noKey)
  | algorithm :: rest, dir =>
      match dir.keysFor crypto masterSecret clientRandom serverRandom isClient algorithm with
      | (dir, recordKeys) =>
          match recordKeys.decryptRecord crypto dir.seq contentType explicitNonce ciphertext with
          | some plaintext =>
              (dir.nextSeq, .ok ⟨plaintext, contentType, algorithm, .tls12 explicitNonce⟩)
          | none =>
              probe crypto masterSecret clientRandom serverRandom isClient contentType
                explicitNonce ciphertext rest dir

end Tls12DirectionState

/-- The decrypt state of one connection. -/
structure ConnectionState where
  clientRandom : Bytes
  serverRandom : Option Bytes := none
  clientToServer : DirectionState := {}
  serverToClient : DirectionState := {}
  tls12ClientToServer : Tls12DirectionState := {}
  tls12ServerToClient : Tls12DirectionState := {}

namespace ConnectionState

/-- The state of a connection whose ClientHello was just seen. -/
def new (clientRandom : Bytes) : ConnectionState := { clientRandom }

/-- The TLS 1.3 state of a direction. -/
def direction (state : ConnectionState) (isClientToServer : Bool) : DirectionState :=
  if isClientToServer then state.clientToServer else state.serverToClient

/-- Replaces the TLS 1.3 state of a direction. -/
def setDirection (state : ConnectionState) (isClientToServer : Bool) (dir : DirectionState) :
    ConnectionState :=
  if isClientToServer then { state with clientToServer := dir }
  else { state with serverToClient := dir }

/-- The TLS 1.2 state of a direction. -/
def tls12Direction (state : ConnectionState) (isClientToServer : Bool) : Tls12DirectionState :=
  if isClientToServer then state.tls12ClientToServer else state.tls12ServerToClient

/-- Replaces the TLS 1.2 state of a direction. -/
def setTls12Direction (state : ConnectionState) (isClientToServer : Bool)
    (dir : Tls12DirectionState) : ConnectionState :=
  if isClientToServer then { state with tls12ClientToServer := dir }
  else { state with tls12ServerToClient := dir }

/-- Learns the random of the ServerHello.  The first one stays; the result is
whether this was the first. -/
def setServerRandom (state : ConnectionState) (serverRandom : Bytes) : ConnectionState × Bool :=
  match state.serverRandom with
  | none => ({ state with serverRandom := some serverRandom }, true)
  | some _ => (state, false)

/-- Tries a record against every generation and algorithm of TLS 1.3. -/
def decryptTls13 (crypto : Crypto) (state : ConnectionState) (keylog : Keylog)
    (isClientToServer : Bool) (encryptedBody : Bytes) :
    ConnectionState × Except ProcessError DecryptedRecord :=
  match (state.direction isClientToServer).probe crypto state.clientRandom keylog
      isClientToServer encryptedBody tls13Candidates with
  | (dir, result) => (state.setDirection isClientToServer dir, result)

/-- Tries a record against the algorithms of TLS 1.2. -/
def decryptTls12 (crypto : Crypto) (state : ConnectionState) (keylog : Keylog)
    (isClientToServer : Bool) (contentType : UInt8) (encryptedBody : Bytes) :
    ConnectionState × Except ProcessError DecryptedRecord :=
  match state.serverRandom with
  | none => (state, .error .noKey)
  | some serverRandom =>
      if state.clientRandom.length ≠ 32 then (state, .error .noKey)
      else
        match keylog.secretFor state.clientRandom .clientRandom with
        | none => (state, .error .noKey)
        | some masterSecret =>
            if encryptedBody.length < 8 + 16 then (state, .error .authFailed)
            else
              match (state.tls12Direction isClientToServer).probe crypto masterSecret
                  state.clientRandom serverRandom isClientToServer contentType
                  (encryptedBody.take 8) (encryptedBody.drop 8) tls12Algorithms with
              | (dir, result) => (state.setTls12Direction isClientToServer dir, result)

/-- Decrypts the body of one record of a direction. -/
def decrypt (crypto : Crypto) (state : ConnectionState) (keylog : Keylog)
    (isClientToServer : Bool) (outerContentType : UInt8) (encryptedBody : Bytes) :
    ConnectionState × Except ProcessError DecryptedRecord :=
  match state.decryptTls13 crypto keylog isClientToServer encryptedBody with
  | (state, .ok record) => (state, .ok record)
  | (state, .error _) =>
      state.decryptTls12 crypto keylog isClientToServer outerContentType encryptedBody

end ConnectionState

/-- The `random` field of a ClientHello. -/
def clientRandomFromClientHello (handshakeBody : Bytes) : Option Bytes :=
  if handshakeBody.length < 1 + 3 + 2 + 32 ∨ handshakeBody[0]? ≠ some 0x01 then none
  else some (slice handshakeBody 6 32)

namespace DirectionState

@[simp] theorem seq_insertKeys (dir : DirectionState) (g h : Generation)
    (algorithm : AeadAlgorithm) (recordKeys : Tls13.RecordKeys) :
    (dir.insertKeys g algorithm recordKeys).seq h = dir.seq h := by
  cases g <;> cases h <;> rfl

theorem keys_insertKeys (dir : DirectionState) (g h : Generation)
    (algorithm other : AeadAlgorithm) (recordKeys : Tls13.RecordKeys) :
    (dir.insertKeys g algorithm recordKeys).keys h other =
      if h = g ∧ other = algorithm then some recordKeys else dir.keys h other := by
  cases g <;> cases h <;> simp [insertKeys, keys, Function.update_apply]

@[simp] theorem keys_nextSeq (dir : DirectionState) (g h : Generation) :
    (dir.nextSeq g).keys h = dir.keys h := by
  cases g <;> cases h <;> rfl

theorem seq_nextSeq (dir : DirectionState) (g h : Generation) :
    (dir.nextSeq g).seq h = if h = g then dir.seq h + 1 else dir.seq h := by
  cases g <;> cases h <;> rfl

end DirectionState

namespace ConnectionState

@[simp] theorem direction_setDirection (state : ConnectionState) (c d : Bool)
    (dir : DirectionState) :
    (state.setDirection c dir).direction d = if d = c then dir else state.direction d := by
  cases c <;> cases d <;> rfl

@[simp] theorem tls12Direction_setDirection (state : ConnectionState) (c d : Bool)
    (dir : DirectionState) :
    (state.setDirection c dir).tls12Direction d = state.tls12Direction d := by
  cases c <;> cases d <;> rfl

@[simp] theorem clientRandom_setDirection (state : ConnectionState) (c : Bool)
    (dir : DirectionState) : (state.setDirection c dir).clientRandom = state.clientRandom := by
  cases c <;> rfl

@[simp] theorem serverRandom_setDirection (state : ConnectionState) (c : Bool)
    (dir : DirectionState) : (state.setDirection c dir).serverRandom = state.serverRandom := by
  cases c <;> rfl

@[simp] theorem direction_setTls12Direction (state : ConnectionState) (c d : Bool)
    (dir : Tls12DirectionState) :
    (state.setTls12Direction c dir).direction d = state.direction d := by
  cases c <;> cases d <;> rfl

@[simp] theorem tls12Direction_setTls12Direction (state : ConnectionState) (c d : Bool)
    (dir : Tls12DirectionState) :
    (state.setTls12Direction c dir).tls12Direction d =
      if d = c then dir else state.tls12Direction d := by
  cases c <;> cases d <;> rfl

@[simp] theorem clientRandom_setTls12Direction (state : ConnectionState) (c : Bool)
    (dir : Tls12DirectionState) :
    (state.setTls12Direction c dir).clientRandom = state.clientRandom := by
  cases c <;> rfl

@[simp] theorem serverRandom_setTls12Direction (state : ConnectionState) (c : Bool)
    (dir : Tls12DirectionState) :
    (state.setTls12Direction c dir).serverRandom = state.serverRandom := by
  cases c <;> rfl

end ConnectionState

end Tlscap
