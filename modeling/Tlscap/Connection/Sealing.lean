import Tlscap.Connection.Uncached

/-!
# Honest records under an ideal AEAD

A session's peers number the records of each direction and seal them; `Seals` says which
bodies carry which record.  Under an ideal AEAD, one attempt on an honest record succeeds
exactly if the keylog has the secret and the counter is the record's number, and it never
succeeds on anything else.

## Strategy

A record is tried under all candidates: two generations of TLS 1.3 with three algorithms each,
and then two algorithms of TLS 1.2.  An ideal AEAD opens a body only under the key, nonce and
additional data it was sealed with, so at most one of the attempts counts.

* **A record that TLS 1.3 yields** was sealed under a traffic secret of the session, with the
  counter of its generation (`attempt13_sealed`).  The key tells the generation, as the keys
  of a direction differ (`KeysDistinct.generation_eq`), and nonces tell the counters.
* **A record that TLS 1.2 yields** was sealed under the master secret, with the counter of
  the direction (`attempt12_sealed`).
* **The two do not meet**, as a session has traffic secrets or a master secret.
* **A body that was not sealed for the direction** is therefore never decrypted
  (`attempt_foreign`); one that was is decrypted to what was sealed and to nothing else
  (`attempt_seals`).
* **The right candidate is reached.**  Only a body without room for a tag ends the loops
  early, and no honest record is that short (`attempt_isOk`).
-/

namespace Tlscap

/-! ## What an attempt opens -/

namespace Uncached

/-- A record TLS 1.3 yields was opened by the keys of the candidate it names. -/
theorem attempts13_eq_ok {crypto : Crypto} {clientRandom : Bytes} {keylog : Keylog}
    {isClient : Bool} {seq : Generation → UInt64} {body : Bytes}
    {candidates : List (Generation × AeadAlgorithm)} {record : DecryptedRecord}
    (h : attempts13 crypto clientRandom keylog isClient seq body candidates = .ok record) :
    ∃ g recordKeys,
      freshKeys crypto clientRandom keylog isClient g record.algorithm = some recordKeys ∧
      record.version = .tls13 g ∧
      recordKeys.decryptRecord crypto (seq g) (Tls13.recordAad body.length) body =
        .ok (record.plaintext, record.contentType) := by
  induction candidates with
  | nil => cases h
  | cons candidate rest ih =>
      obtain ⟨g, algorithm⟩ := candidate
      rw [attempts13] at h
      split at h
      · exact ih h
      · rename_i recordKeys hkeys
        split at h
        · rename_i plaintext contentType hopened
          cases h
          exact ⟨g, recordKeys, hkeys, rfl, hopened⟩
        · cases h
        · exact ih h

/-- A body that is long enough and opens for some candidate is decrypted. -/
theorem attempts13_isOk {crypto : Crypto} {clientRandom : Bytes} {keylog : Keylog}
    {isClient : Bool} {seq : Generation → UInt64} {body : Bytes}
    {candidates : List (Generation × AeadAlgorithm)} {g : Generation}
    {algorithm : AeadAlgorithm} {recordKeys : Tls13.RecordKeys} {opened : Bytes × UInt8}
    (hlength : 16 ≤ body.length) (hmem : (g, algorithm) ∈ candidates)
    (hkeys : freshKeys crypto clientRandom keylog isClient g algorithm = some recordKeys)
    (hopened : recordKeys.decryptRecord crypto (seq g) (Tls13.recordAad body.length) body =
      .ok opened) :
    ∃ record, attempts13 crypto clientRandom keylog isClient seq body candidates =
      .ok record := by
  induction candidates with
  | nil => cases hmem
  | cons candidate rest ih =>
      obtain ⟨g', algorithm'⟩ := candidate
      rw [attempts13]
      rcases List.mem_cons.mp hmem with hhead | hrest
      · cases hhead
        simp only [hkeys, hopened]
        exact ⟨_, rfl⟩
      · split
        · exact ih hrest
        · split
          · exact ⟨_, rfl⟩
          · rename_i hshort
            -- only a body without room for a tag ends the loop early
            unfold Tls13.RecordKeys.decryptRecord at hshort
            rw [if_neg (by omega)] at hshort
            split at hshort
            · cases hshort
            · unfold Tls13.RecordKeys.splitInner at hshort
              split at hshort <;> cases hshort
          · exact ih hrest

/-- A record TLS 1.2 yields was opened by the keys of the algorithm it names. -/
theorem attempts12_eq_ok {crypto : Crypto} {masterSecret clientRandom serverRandom : Bytes}
    {isClient : Bool} {seq : UInt64} {contentType : UInt8} {explicitNonce ciphertext : Bytes}
    {algorithms : List AeadAlgorithm} {record : DecryptedRecord}
    (h : attempts12 crypto masterSecret clientRandom serverRandom isClient seq contentType
      explicitNonce ciphertext algorithms = .ok record) :
    record.version = .tls12 explicitNonce ∧ record.contentType = contentType ∧
      (Tls12.RecordKeys.derive crypto masterSecret clientRandom serverRandom record.algorithm
          isClient).decryptRecord crypto seq contentType explicitNonce ciphertext =
        some record.plaintext := by
  induction algorithms with
  | nil => cases h
  | cons algorithm rest ih =>
      rw [attempts12] at h
      split at h
      · rename_i plaintext hopened
        cases h
        exact ⟨rfl, rfl, hopened⟩
      · exact ih h

/-- A ciphertext that opens for some algorithm is decrypted. -/
theorem attempts12_isOk {crypto : Crypto} {masterSecret clientRandom serverRandom : Bytes}
    {isClient : Bool} {seq : UInt64} {contentType : UInt8} {explicitNonce ciphertext : Bytes}
    {algorithms : List AeadAlgorithm} {algorithm : AeadAlgorithm} {plaintext : Bytes}
    (hmem : algorithm ∈ algorithms)
    (hopened : (Tls12.RecordKeys.derive crypto masterSecret clientRandom serverRandom algorithm
      isClient).decryptRecord crypto seq contentType explicitNonce ciphertext =
        some plaintext) :
    ∃ record, attempts12 crypto masterSecret clientRandom serverRandom isClient seq contentType
      explicitNonce ciphertext algorithms = .ok record := by
  induction algorithms with
  | nil => cases hmem
  | cons other rest ih =>
      rw [attempts12]
      split
      · exact ⟨_, rfl⟩
      · rename_i hclosed
        rcases List.mem_cons.mp hmem with hhead | hrest
        · subst hhead
          rw [hopened] at hclosed
          cases hclosed
        · exact ih hrest

/-- Which counter a record of a direction is numbered by: the one of its
generation, or the one of TLS 1.2. -/
def counter (state : Uncached) (isClient : Bool) : Option Generation → UInt64
  | some g => state.seq isClient g
  | none => state.tls12Seq isClient

end Uncached

/-- The counter a protection uses: a generation's, or the one of TLS 1.2. -/
def RecordVersion.lane : RecordVersion → Option Generation
  | .tls13 g => some g
  | .tls12 _ => none

/-- The label of the secret that protects a lane. -/
def laneLabel (isClient : Bool) : Option Generation → SecretLabel
  | some g => trafficLabel g isClient
  | none => .clientRandom

namespace Uncached

/-- A decrypted record moves the counter of its direction and lane on, and no
other. -/
theorem counter_advance (state : Uncached) (isClient other : Bool) (version : RecordVersion)
    (lane : Option Generation) :
    (state.advance isClient version).counter other lane =
      if other = isClient ∧ lane = version.lane then state.counter other lane + 1
      else state.counter other lane := by
  cases version with
  | tls13 g =>
      cases lane with
      | none => simp [advance, counter, RecordVersion.lane]
      | some g' =>
          by_cases hother : other = isClient
          · subst hother
            by_cases hg : g' = g
            · subst hg
              simp [advance, counter, RecordVersion.lane]
            · simp [advance, counter, RecordVersion.lane, hg]
          · simp [advance, counter, RecordVersion.lane, hother]
  | tls12 explicitNonce =>
      cases lane with
      | some g => simp [advance, counter, RecordVersion.lane]
      | none =>
          by_cases hother : other = isClient
          · subst hother
            simp [advance, counter, RecordVersion.lane]
          · simp [advance, counter, RecordVersion.lane, hother]

end Uncached

/-! ## Sessions -/

/-- A session: its randoms, the negotiated algorithm and its secrets.  A session
is of one TLS version, so it has a master secret or traffic secrets. -/
structure Session where
  clientRandom : Bytes
  serverRandom : Bytes
  algorithm : AeadAlgorithm
  secrets : Secrets
  clientRandom_length : clientRandom.length = 32
  oneVersion : secrets .clientRandom = none ∨
    ∀ isClient g, secrets (trafficLabel g isClient) = none

/-- A record before its protection.  TLS 1.2 does not pad. -/
structure SessionRecord where
  isClient : Bool
  version : RecordVersion
  contentType : UInt8
  content : Bytes
  padding : ℕ

namespace Session

/-- The keys one traffic secret gives for an algorithm. -/
def keys13 (session : Session) (crypto : Crypto) (isClient : Bool) (g : Generation)
    (algorithm : AeadAlgorithm) : Option Tls13.RecordKeys :=
  match session.secrets (trafficLabel g isClient) with
  | none => none
  | some secret => Tls13.RecordKeys.derive crypto secret algorithm

theorem keys13_secret {session : Session} {crypto : Crypto} {isClient : Bool} {g : Generation}
    {algorithm : AeadAlgorithm} {recordKeys : Tls13.RecordKeys}
    (h : session.keys13 crypto isClient g algorithm = some recordKeys) :
    ∃ secret, session.secrets (trafficLabel g isClient) = some secret ∧
      Tls13.RecordKeys.derive crypto secret algorithm = some recordKeys := by
  unfold keys13 at h
  split at h
  · cases h
  · rename_i secret hsecret
    exact ⟨secret, hsecret, h⟩

/-- A session with traffic keys has no master secret. -/
theorem noMaster_of_keys13 {session : Session} {crypto : Crypto} {isClient : Bool}
    {g : Generation} {algorithm : AeadAlgorithm} {recordKeys : Tls13.RecordKeys}
    (h : session.keys13 crypto isClient g algorithm = some recordKeys) :
    session.secrets .clientRandom = none := by
  obtain ⟨secret, hsecret, _⟩ := keys13_secret h
  rcases session.oneVersion with hmaster | htraffic
  · exact hmaster
  · rw [htraffic] at hsecret
    cases hsecret

/-- A session with a master secret has no traffic secrets. -/
theorem noTraffic_of_master {session : Session} {masterSecret : Bytes}
    (h : session.secrets .clientRandom = some masterSecret) (isClient : Bool)
    (g : Generation) : session.secrets (trafficLabel g isClient) = none := by
  rcases session.oneVersion with hnone | htraffic
  · rw [hnone] at h
    cases h
  · exact htraffic isClient g

/-- The keys of the two generations of a direction differ. -/
def KeysDistinct (session : Session) (crypto : Crypto) : Prop :=
  ∀ isClient algorithm handshakeKeys applicationKeys,
    session.keys13 crypto isClient .handshake algorithm = some handshakeKeys →
    session.keys13 crypto isClient .application algorithm = some applicationKeys →
    handshakeKeys.key ≠ applicationKeys.key

/-- The key of a record tells the generation it was sealed in. -/
theorem KeysDistinct.generation_eq {session : Session} {crypto : Crypto}
    (hdistinct : session.KeysDistinct crypto) {isClient : Bool} {g g' : Generation}
    {algorithm : AeadAlgorithm} {recordKeys otherKeys : Tls13.RecordKeys}
    (hkeys : session.keys13 crypto isClient g algorithm = some recordKeys)
    (hother : session.keys13 crypto isClient g' algorithm = some otherKeys)
    (hkey : recordKeys.key = otherKeys.key) : g = g' := by
  cases g <;> cases g'
  · rfl
  · exact absurd hkey (hdistinct isClient _ _ _ hkeys hother)
  · exact absurd hkey.symm (hdistinct isClient _ _ _ hother hkeys)
  · rfl

/-- The body carries the record, sealed as record `number` of its direction and
lane; `wireType` is the content type in its header.  A peer ends the connection
before its record number outgrows 64 bits. -/
def Seals (session : Session) (crypto : Crypto) (log : Bytes → Option Sealing)
    (record : SessionRecord) (number : ℕ) (wireType : UInt8) (body : Bytes) : Prop :=
  number < 2 ^ 64 ∧
  match record.version with
  | .tls13 g =>
      record.contentType ≠ 0 ∧
        ∃ recordKeys,
          session.keys13 crypto record.isClient g session.algorithm = some recordKeys ∧
          log body = some
            ⟨session.algorithm, recordKeys.key, recordKeys.nonceFor (UInt64.ofNat number),
              Tls13.recordAad body.length,
              record.content ++ [record.contentType] ++ List.replicate record.padding 0⟩
  | .tls12 explicitNonce =>
      wireType = record.contentType ∧ explicitNonce.length = 8 ∧
        session.algorithm ∈ tls12Algorithms ∧
        ∃ masterSecret ciphertext, session.secrets .clientRandom = some masterSecret ∧
          body = explicitNonce ++ ciphertext ∧
          let recordKeys := Tls12.RecordKeys.derive crypto masterSecret session.clientRandom
            session.serverRandom session.algorithm record.isClient
          log ciphertext = some
            ⟨session.algorithm, recordKeys.key, recordKeys.nonceFor explicitNonce,
              Tls12.RecordKeys.aad (UInt64.ofNat number) record.contentType
                record.content.length,
              record.content⟩

/-- The session has the secret a record of it was sealed under. -/
theorem Seals.secret {session : Session} {crypto : Crypto} {log : Bytes → Option Sealing}
    {record : SessionRecord} {number : ℕ} {wireType : UInt8} {body : Bytes}
    (hseals : session.Seals crypto log record number wireType body) :
    ∃ secret, session.secrets (laneLabel record.isClient record.version.lane) = some secret := by
  replace hseals := hseals.2
  split at hseals
  · rename_i g hversion
    obtain ⟨-, recordKeys, hkeys, -⟩ := hseals
    obtain ⟨secret, hsecret, _⟩ := keys13_secret hkeys
    rw [hversion]
    exact ⟨secret, hsecret⟩
  · rename_i explicitNonce hversion
    obtain ⟨-, -, -, masterSecret, _, hmaster, -⟩ := hseals
    rw [hversion]
    exact ⟨masterSecret, hmaster⟩

/-- The body was not sealed under keys of the session for this direction. -/
def Foreign (session : Session) (crypto : Crypto) (log : Bytes → Option Sealing)
    (isClient : Bool) (body : Bytes) : Prop :=
  (∀ g algorithm recordKeys nonce aad plaintext,
      session.keys13 crypto isClient g algorithm = some recordKeys →
      log body ≠ some ⟨algorithm, recordKeys.key, nonce, aad, plaintext⟩) ∧
    ∀ masterSecret algorithm nonce aad plaintext,
      session.secrets .clientRandom = some masterSecret →
      log (body.drop 8) ≠ some
        ⟨algorithm, (Tls12.RecordKeys.derive crypto masterSecret session.clientRandom
          session.serverRandom algorithm isClient).key, nonce, aad, plaintext⟩

/-- What decryption should yield for a record. -/
def opened (session : Session) (record : SessionRecord) : DecryptedRecord :=
  ⟨record.content, record.contentType, session.algorithm, record.version⟩

/-- The decrypt state belongs to the session. -/
structure Tracks (session : Session) (state : Uncached) : Prop where
  clientRandom : state.clientRandom = session.clientRandom
  serverRandom : ∀ serverRandom, state.serverRandom = some serverRandom →
    serverRandom = session.serverRandom

end Session

/-! ## One attempt on a body of the session -/

section Attempt

variable {crypto : Crypto} {log : Bytes → Option Sealing} {session : Session}
  {state : Uncached} {keylog : Keylog}

/-- What TLS 1.3 decrypts was sealed under a traffic secret of the session, with
the counter of its generation. -/
theorem attempt13_sealed (hideal : IdealAead crypto log) (htracks : session.Tracks state)
    (hbinds : keylog.BindsOnly session.clientRandom session.secrets) {isClient : Bool}
    {body : Bytes} {record : DecryptedRecord}
    (h : state.attempt13 crypto keylog isClient body = .ok record) :
    ∃ g secret recordKeys inner,
      keylog.secretFor session.clientRandom (trafficLabel g isClient) = some secret ∧
      session.secrets (trafficLabel g isClient) = some secret ∧
      session.keys13 crypto isClient g record.algorithm = some recordKeys ∧
      record.version = .tls13 g ∧
      log body = some ⟨record.algorithm, recordKeys.key,
        recordKeys.nonceFor (state.seq isClient g), Tls13.recordAad body.length, inner⟩ ∧
      Tls13.RecordKeys.splitInner inner = .ok (record.plaintext, record.contentType) := by
  obtain ⟨g, recordKeys, hkeys, hversion, hopened⟩ := Uncached.attempts13_eq_ok h
  rw [htracks.clientRandom] at hkeys
  unfold freshKeys at hkeys
  split at hkeys
  · cases hkeys
  · rename_i secret hsecret
    have hderived := hbinds _ _ hsecret
    obtain ⟨inner, hinner, hsplit⟩ := Tls13.decryptRecord_eq_ok hopened
    rw [Tls13.derive_algorithm hkeys] at hinner
    refine ⟨g, secret, recordKeys, inner, hsecret, hderived, ?_, hversion,
      (hideal _ _ _ _ _ _).mp hinner, hsplit⟩
    simp only [Session.keys13, hderived, hkeys]

/-- What TLS 1.2 decrypts was sealed under the master secret of the session, with
the counter of the direction. -/
theorem attempt12_sealed (hideal : IdealAead crypto log) (htracks : session.Tracks state)
    (hbinds : keylog.BindsOnly session.clientRandom session.secrets) {isClient : Bool}
    {contentType : UInt8} {body : Bytes} {record : DecryptedRecord}
    (h : state.attempt12 crypto keylog isClient contentType body = .ok record) :
    ∃ masterSecret,
      keylog.secretFor session.clientRandom .clientRandom = some masterSecret ∧
      session.secrets .clientRandom = some masterSecret ∧
      record.version = .tls12 (body.take 8) ∧ record.contentType = contentType ∧
      let recordKeys := Tls12.RecordKeys.derive crypto masterSecret session.clientRandom
        session.serverRandom record.algorithm isClient
      log (body.drop 8) = some ⟨record.algorithm, recordKeys.key,
        recordKeys.nonceFor (body.take 8),
        Tls12.RecordKeys.aad (state.tls12Seq isClient) contentType
          ((body.drop 8).length - 16),
        record.plaintext⟩ := by
  unfold Uncached.attempt12 at h
  split at h
  · cases h
  · rename_i serverRandom hserver
    split at h
    · cases h
    · split at h
      · cases h
      · rename_i masterSecret hmaster
        split at h
        · cases h
        · rw [htracks.clientRandom] at hmaster h
          rw [htracks.serverRandom serverRandom hserver] at h
          obtain ⟨hversion, htype, hopened⟩ := Uncached.attempts12_eq_ok h
          have hinner := Tls12.decryptRecord_eq_some hopened
          rw [Tls12.derive_algorithm] at hinner
          exact ⟨masterSecret, hmaster, hbinds _ _ hmaster, hversion, htype,
            (hideal _ _ _ _ _ _).mp hinner⟩

/-- A foreign body is never decrypted. -/
theorem attempt_foreign (hideal : IdealAead crypto log) (htracks : session.Tracks state)
    (hbinds : keylog.BindsOnly session.clientRandom session.secrets) {isClient : Bool}
    {body : Bytes} (hforeign : session.Foreign crypto log isClient body) (wireType : UInt8) :
    ∃ error, state.attempt crypto keylog isClient wireType body = .error error := by
  unfold Uncached.attempt
  cases h13 : state.attempt13 crypto keylog isClient body with
  | ok record =>
      obtain ⟨g, _, recordKeys, inner, _, _, hkeys, _, hlog, _⟩ :=
        attempt13_sealed hideal htracks hbinds h13
      exact absurd hlog (hforeign.1 g record.algorithm recordKeys _ _ _ hkeys)
  | error _ =>
      simp only
      cases h12 : state.attempt12 crypto keylog isClient wireType body with
      | error error => exact ⟨error, rfl⟩
      | ok record =>
          obtain ⟨masterSecret, _, hmaster, _, _, hlog⟩ :=
            attempt12_sealed hideal htracks hbinds h12
          exact absurd hlog (hforeign.2 masterSecret record.algorithm _ _ _ hmaster)

/-- An honest record is decrypted only to what was sealed, only with a secret the
keylog has, and only while the counter is its number. -/
theorem attempt_seals (hideal : IdealAead crypto log) (hdistinct : session.KeysDistinct crypto)
    (htracks : session.Tracks state)
    (hbinds : keylog.BindsOnly session.clientRandom session.secrets)
    {record : SessionRecord} {number : ℕ} {wireType : UInt8} {body : Bytes}
    (hseals : session.Seals crypto log record number wireType body)
    {decrypted : DecryptedRecord}
    (h : state.attempt crypto keylog record.isClient wireType body = .ok decrypted) :
    decrypted = session.opened record ∧
      state.counter record.isClient record.version.lane = UInt64.ofNat number ∧
      ∃ secret, keylog.secretFor session.clientRandom
        (laneLabel record.isClient record.version.lane) = some secret := by
  obtain ⟨isClient, version, contentType, content, padding⟩ := record
  cases version with
  | tls13 g =>
      obtain ⟨-, htype, recordKeys, hkeys, hlog⟩ := hseals
      simp only at htype hkeys hlog h
      unfold Uncached.attempt at h
      cases h13 : state.attempt13 crypto keylog isClient body with
      | error _ =>
          -- TLS 1.2 would need a master secret of the session
          rw [h13] at h
          obtain ⟨masterSecret, _, hsome, _⟩ := attempt12_sealed hideal htracks hbinds h
          rw [Session.noMaster_of_keys13 hkeys] at hsome
          cases hsome
      | ok opened =>
          rw [h13] at h
          cases h
          obtain ⟨g', secret, usedKeys, inner, hbound, _, hused, hversion, hsealed, hsplit⟩ :=
            attempt13_sealed hideal htracks hbinds h13
          -- the sealing that was opened is the one the record was sent in
          rw [hlog] at hsealed
          simp only [Option.some.injEq, Sealing.mk.injEq] at hsealed
          obtain ⟨halgorithm, hkey, hnonce, -, hinner⟩ := hsealed
          rw [← halgorithm] at hused
          have hgeneration : g = g' := hdistinct.generation_eq hkeys hused hkey
          subst hgeneration
          rw [hkeys, Option.some.injEq] at hused
          subst hused
          have hiv : recordKeys.iv.length = AeadAlgorithm.ivLen := by
            obtain ⟨_, _, hderived⟩ := Session.keys13_secret hkeys
            exact Tls13.derive_iv_length hderived
          rw [← hinner, Tls13.splitInner_seal content htype padding] at hsplit
          obtain ⟨plaintext, type, algorithm, version⟩ := decrypted
          simp only [Except.ok.injEq, Prod.mk.injEq] at hsplit halgorithm hversion
          obtain ⟨rfl, rfl⟩ := hsplit
          subst halgorithm hversion
          exact ⟨rfl, (Tls13.nonceFor_inj hiv hnonce).symm, secret, hbound⟩
  | tls12 explicitNonce =>
      obtain ⟨-, hwire, hexplicit, halgorithms, masterSecret, ciphertext, hmaster, hbody,
        hlog⟩ := hseals
      simp only at hwire hlog h
      have htake : body.take 8 = explicitNonce := by
        rw [hbody, List.take_left' hexplicit]
      have hdrop : body.drop 8 = ciphertext := by
        rw [hbody, List.drop_left' hexplicit]
      unfold Uncached.attempt at h
      cases h13 : state.attempt13 crypto keylog isClient body with
      | ok opened =>
          -- TLS 1.3 would need a traffic secret of the session
          obtain ⟨g, _, _, _, _, hsome, _⟩ := attempt13_sealed hideal htracks hbinds h13
          rw [Session.noTraffic_of_master hmaster] at hsome
          cases hsome
      | error _ =>
          rw [h13] at h
          obtain ⟨usedSecret, hbound, hsecret, hversion, htype, hsealed⟩ :=
            attempt12_sealed hideal htracks hbinds h
          rw [hmaster, Option.some.injEq] at hsecret
          subst hsecret
          rw [hdrop, hlog] at hsealed
          simp only [Option.some.injEq, Sealing.mk.injEq] at hsealed
          obtain ⟨halgorithm, -, -, haad, hplaintext⟩ := hsealed
          obtain ⟨plaintext, type, algorithm, version⟩ := decrypted
          simp only at halgorithm hplaintext htype hversion
          subst halgorithm hplaintext
          rw [htype, hversion, htake, hwire]
          exact ⟨rfl, (Tls12.aad_inj haad).1.symm, masterSecret, hbound⟩

/-- What the sender sealed for TLS 1.3 under the number of the counter is opened. -/
theorem attempt13_isOk (hideal : IdealAead crypto log) (htracks : session.Tracks state)
    (hbinds : keylog.BindsOnly session.clientRandom session.secrets) {isClient : Bool}
    {g : Generation} {secret : Bytes}
    (hsecret : keylog.secretFor session.clientRandom (trafficLabel g isClient) = some secret)
    {recordKeys : Tls13.RecordKeys}
    (hkeys : session.keys13 crypto isClient g session.algorithm = some recordKeys)
    {content body : Bytes} {contentType : UInt8} (htype : contentType ≠ 0) (padding : ℕ)
    (hlog : log body = some ⟨session.algorithm, recordKeys.key,
      recordKeys.nonceFor (state.seq isClient g), Tls13.recordAad body.length,
      content ++ [contentType] ++ List.replicate padding 0⟩) :
    ∃ opened, state.attempt13 crypto keylog isClient body = .ok opened := by
  have hderive : Tls13.RecordKeys.derive crypto secret session.algorithm = some recordKeys := by
    simpa only [Session.keys13, hbinds _ _ hsecret] using hkeys
  -- the sender's keys are among those tried, and open what they sealed
  have hfresh : freshKeys crypto state.clientRandom keylog isClient g session.algorithm =
      some recordKeys := by
    simp only [freshKeys, htracks.clientRandom, hsecret, hderive]
  have hopens := (hideal _ _ _ _ _ _).mpr hlog
  have hlength : 16 ≤ body.length := by
    rw [crypto.aeadDecrypt_length _ _ _ _ _ _ hopens]
    omega
  have hdecrypt : recordKeys.decryptRecord crypto (state.seq isClient g)
      (Tls13.recordAad body.length) body = .ok (content, contentType) := by
    rw [Tls13.RecordKeys.decryptRecord, if_neg (by omega), Tls13.derive_algorithm hderive, hopens]
    exact Tls13.splitInner_seal content htype padding
  have hmem : (g, session.algorithm) ∈ tls13Candidates := by
    cases g <;> cases session.algorithm <;> decide
  exact Uncached.attempts13_isOk hlength hmem hfresh hdecrypt

/-- What the sender sealed for TLS 1.2 under the number of the counter is opened, once both
randoms are known. -/
theorem attempt12_isOk (hideal : IdealAead crypto log) (htracks : session.Tracks state)
    {isClient : Bool} (hserver : state.serverRandom = some session.serverRandom)
    {masterSecret : Bytes}
    (hsecret : keylog.secretFor session.clientRandom .clientRandom = some masterSecret)
    (halgorithms : session.algorithm ∈ tls12Algorithms)
    {content explicitNonce ciphertext : Bytes} {contentType : UInt8}
    (hexplicit : explicitNonce.length = 8)
    (hlog : log ciphertext = some ⟨session.algorithm,
      (Tls12.RecordKeys.derive crypto masterSecret session.clientRandom session.serverRandom
        session.algorithm isClient).key,
      (Tls12.RecordKeys.derive crypto masterSecret session.clientRandom session.serverRandom
        session.algorithm isClient).nonceFor explicitNonce,
      Tls12.RecordKeys.aad (state.tls12Seq isClient) contentType content.length, content⟩) :
    ∃ opened, state.attempt12 crypto keylog isClient contentType (explicitNonce ++ ciphertext) =
      .ok opened := by
  have hopens := (hideal _ _ _ _ _ _).mpr hlog
  have hlength := crypto.aeadDecrypt_length _ _ _ _ _ _ hopens
  have hlong : ¬ (explicitNonce ++ ciphertext).length < 8 + 16 := by
    rw [List.length_append]
    omega
  have hrandom : ¬ session.clientRandom.length ≠ 32 := by
    simp [session.clientRandom_length]
  simp only [Uncached.attempt12, hserver, htracks.clientRandom, if_neg hrandom, hsecret,
    if_neg hlong, List.take_left' hexplicit, List.drop_left' hexplicit]
  apply Uncached.attempts12_isOk halgorithms
  have hcontent : ciphertext.length - 16 = content.length := by omega
  unfold Tls12.RecordKeys.decryptRecord
  rw [Tls12.derive_algorithm, hcontent]
  rcases halgorithm : session.algorithm with _ | _ | _
  · rwa [halgorithm] at hopens
  · rwa [halgorithm] at hopens
  · -- the third algorithm is no candidate of TLS 1.2
    rw [halgorithm] at halgorithms
    cases halgorithms with
    | tail _ hrest =>
        cases hrest with
        | tail _ hrest => cases hrest

/-- An honest record is decrypted if the keylog has its secret and the counter is
its number. -/
theorem attempt_isOk (hideal : IdealAead crypto log) (htracks : session.Tracks state)
    (hbinds : keylog.BindsOnly session.clientRandom session.secrets)
    {record : SessionRecord} {number : ℕ} {wireType : UInt8} {body : Bytes}
    (hseals : session.Seals crypto log record number wireType body)
    (hserver : record.version.lane = none → state.serverRandom = some session.serverRandom)
    (hcounter : state.counter record.isClient record.version.lane = UInt64.ofNat number)
    {secret : Bytes} (hsecret : keylog.secretFor session.clientRandom
      (laneLabel record.isClient record.version.lane) = some secret) :
    ∃ decrypted,
      state.attempt crypto keylog record.isClient wireType body = .ok decrypted := by
  obtain ⟨isClient, version, contentType, content, padding⟩ := record
  unfold Uncached.attempt
  cases version with
  | tls13 g =>
      obtain ⟨-, htype, recordKeys, hkeys, hlog⟩ := hseals
      simp only at htype hkeys hlog ⊢
      simp only [RecordVersion.lane, Uncached.counter, laneLabel] at hcounter hsecret
      rw [← hcounter] at hlog
      obtain ⟨opened, hopened⟩ :=
        attempt13_isOk hideal htracks hbinds hsecret hkeys htype padding hlog
      rw [hopened]
      exact ⟨opened, rfl⟩
  | tls12 explicitNonce =>
      obtain ⟨-, rfl, hexplicit, halgorithms, masterSecret, ciphertext, hmaster, rfl, hlog⟩ :=
        hseals
      simp only at hlog ⊢
      simp only [RecordVersion.lane, Uncached.counter, laneLabel] at hcounter hsecret
      have hsame := hbinds _ _ hsecret
      rw [hmaster, Option.some.injEq] at hsame
      subst hsame
      rw [← hcounter] at hlog
      -- the candidates of TLS 1.3 are tried first; that one of them opens the body is enough
      cases state.attempt13 crypto keylog isClient (explicitNonce ++ ciphertext) with
      | ok opened => exact ⟨opened, rfl⟩
      | error _ =>
          exact attempt12_isOk hideal htracks (hserver rfl) hsecret halgorithms hexplicit hlog

end Attempt

end Tlscap
