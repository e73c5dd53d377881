import Tlscap.Connection.Sealing
import Tlscap.Tls.Recording

/-!
# Decrypting a whole session

Both peers number their records per direction and lane; the receiver's counters move when it
decrypts.  Over any interleaving of the two directions, with foreign records anywhere, the
counters follow the numbering: every record of the session is decrypted to what was sealed,
and every foreign record fails (`Session.decrypts_session`).

## Strategy

The invariant is `Session.Follows`: the counters are those of the numbering, and the caches
hold keys of the session.

* **The caches** are forgotten first: as the keylog binds the session's secrets only, what
  they hold is what the keylog gives, and decryption is that without caches
  (`Follows.decrypt`).
* **A record of the session** is numbered by the counter of its lane, so it opens, and moves
  this counter on as sending it moved the numbering (`Follows.counters_after`).  Under
  TLS 1.2 it needs the random of the server, which is known where the session has a master
  secret (`Follows.serverRandom_of_secret`).
* **A foreign record** was not sealed under keys of the session for its direction.  It opens
  for no key, and a failed attempt moves no counter.
-/

namespace Tlscap

/-- A record as it arrives. -/
inductive WireRecord
  | honest (record : SessionRecord) (wireType : UInt8) (body : Bytes)
  | foreign (isClient : Bool) (wireType : UInt8) (body : Bytes)

/-- How many records of each direction and lane have been sent. -/
abbrev Numbering := (isClient : Bool) → (lane : Option Generation) → ℕ

/-- The numbering after one more record of a direction and lane. -/
def Numbering.next (numbering : Numbering) (isClient : Bool) (lane : Option Generation) :
    Numbering :=
  fun other otherLane =>
    if other = isClient ∧ otherLane = lane then numbering other otherLane + 1
    else numbering other otherLane

namespace Session

/-- The traffic is the session's: every honest record is sealed with its number,
the other records are foreign. -/
def Sends (session : Session) (crypto : Crypto) (log : Bytes → Option Sealing) :
    Numbering → List WireRecord → Prop
  | _, [] => True
  | numbering, .honest record wireType body :: rest =>
      session.Seals crypto log record (numbering record.isClient record.version.lane) wireType
          body ∧
        session.Sends crypto log (numbering.next record.isClient record.version.lane) rest
  | numbering, .foreign isClient _ body :: rest =>
      session.Foreign crypto log isClient body ∧ session.Sends crypto log numbering rest

/-- The result a record should have. -/
def Yields (session : Session) : WireRecord → Except ProcessError DecryptedRecord → Prop
  | .honest record _ _, result => result = .ok (session.opened record)
  | .foreign _ _ _, result => ∃ error, result = .error error

/-- The decrypt state after the ClientHello and, if it was `learned`, the random
of the ServerHello. -/
def start (session : Session) (learned : Bool) : ConnectionState :=
  if learned then
    ((ConnectionState.new session.clientRandom).setServerRandom session.serverRandom).1
  else ConnectionState.new session.clientRandom

end Session

/-- Decrypts one record as it arrives. -/
def ConnectionState.receive (crypto : Crypto) (keylog : Keylog) (state : ConnectionState) :
    WireRecord → ConnectionState × Except ProcessError DecryptedRecord
  | .honest record wireType body => state.decrypt crypto keylog record.isClient wireType body
  | .foreign isClient wireType body => state.decrypt crypto keylog isClient wireType body

/-- The receiver's state after the records counted by a numbering: its counters
are the numbering's, and its caches hold keys of the session. -/
structure Session.Follows (session : Session) (crypto : Crypto) (learned : Bool)
    (numbering : Numbering) (state : ConnectionState) : Prop where
  caches : state.CachesFrom crypto session.secrets
  clientRandom : state.clientRandom = session.clientRandom
  serverRandom : state.serverRandom = if learned then some session.serverRandom else none
  counters : ∀ isClient lane,
    state.uncached.counter isClient lane = UInt64.ofNat (numbering isClient lane)

namespace Session

variable {crypto : Crypto} {log : Bytes → Option Sealing} {session : Session} {learned : Bool}
  {numbering : Numbering} {state : ConnectionState} {keylog : Keylog}

theorem follows_start (session : Session) (crypto : Crypto) (learned : Bool) :
    session.Follows crypto learned (fun _ _ => 0) (session.start learned) := by
  have hcaches := ConnectionState.cachesFrom_new crypto session.clientRandom session.secrets
  cases learned with
  | false =>
      refine ⟨hcaches, rfl, rfl, ?_⟩
      rintro (_ | _) (_ | _ | _) <;> rfl
  | true =>
      refine ⟨hcaches.setServerRandom session.serverRandom, rfl, rfl, ?_⟩
      rintro (_ | _) (_ | _ | _) <;> rfl

theorem Follows.tracks (hfollows : session.Follows crypto learned numbering state) :
    session.Tracks state.uncached := by
  refine ⟨hfollows.clientRandom, ?_⟩
  intro serverRandom hserver
  have hknown : state.serverRandom = some serverRandom := hserver
  rw [hfollows.serverRandom] at hknown
  split at hknown
  · exact (Option.some.inj hknown).symm
  · cases hknown

/-- The random of the ServerHello is known where TLS 1.2 needs it. -/
theorem Follows.serverRandom_of_secret
    (hfollows : session.Follows crypto learned numbering state)
    (hlearned : session.secrets .clientRandom ≠ none → learned = true) {isClient : Bool}
    {lane : Option Generation} {secret : Bytes}
    (hsecret : session.secrets (laneLabel isClient lane) = some secret) (hlane : lane = none) :
    state.uncached.serverRandom = some session.serverRandom := by
  subst hlane
  have hmaster : session.secrets .clientRandom = some secret := hsecret
  have hknown := hfollows.serverRandom
  rwa [hlearned (by simp [hmaster]), if_pos rfl] at hknown

/-- What one decryption leaves, if its outcome is known: the counters are moved on
by that outcome. -/
theorem Follows.decrypt (hfollows : session.Follows crypto learned numbering state)
    (hbinds : keylog.BindsOnly session.clientRandom session.secrets) {isClient : Bool}
    {wireType : UInt8} {body : Bytes} {outcome : Except ProcessError DecryptedRecord}
    (houtcome : state.uncached.attempt crypto keylog isClient wireType body = outcome)
    {after : Numbering}
    (hafter : ∀ other lane, (state.uncached.after isClient outcome).counter other lane =
      UInt64.ofNat (after other lane)) :
    session.Follows crypto learned after
        (state.decrypt crypto keylog isClient wireType body).1 ∧
      (state.decrypt crypto keylog isClient wireType body).2 = outcome := by
  have hbinds' : keylog.BindsOnly state.clientRandom session.secrets := by
    rwa [hfollows.clientRandom]
  have hdecrypt := ConnectionState.decrypt_agrees (hfollows.caches.agree hbinds' isClient)
    wireType body
  simp only [Uncached.decrypt, houtcome, Prod.mk.injEq] at hdecrypt
  obtain ⟨hstate, hresult⟩ := hdecrypt
  refine ⟨⟨hfollows.caches.decrypt hbinds' isClient wireType body, ?_, ?_, ?_⟩, hresult.symm⟩
  · rw [ConnectionState.clientRandom_decrypt, hfollows.clientRandom]
  · have hserver := congrArg Uncached.serverRandom hstate
    rw [Uncached.serverRandom_after] at hserver
    rw [← hfollows.serverRandom]
    exact hserver.symm
  · intro other lane
    rw [← hstate]
    exact hafter other lane

/-- Decrypting a record of the session moves the counters as sending it moves the
numbering. -/
theorem Follows.counters_after (hfollows : session.Follows crypto learned numbering state)
    (record : SessionRecord) (other : Bool) (lane : Option Generation) :
    (state.uncached.after record.isClient (.ok (session.opened record))).counter other lane =
      UInt64.ofNat (numbering.next record.isClient record.version.lane other lane) := by
  rw [Uncached.after, Uncached.counter_advance, hfollows.counters, Numbering.next, opened]
  by_cases hsame : other = record.isClient ∧ lane = record.version.lane
  · rw [if_pos hsame, if_pos hsame, UInt64.ofNat_add]
    rfl
  · rw [if_neg hsame, if_neg hsame]

/-- One record: it has the result it should, and the receiver still follows. -/
theorem Follows.receive (hideal : IdealAead crypto log) (hdistinct : session.KeysDistinct crypto)
    (hkeylog : ∀ label, keylog.secretFor session.clientRandom label = session.secrets label)
    (hlearned : session.secrets .clientRandom ≠ none → learned = true)
    (hfollows : session.Follows crypto learned numbering state) {wire : WireRecord}
    {rest : List WireRecord} (hsends : session.Sends crypto log numbering (wire :: rest)) :
    session.Yields wire (state.receive crypto keylog wire).2 ∧
      ∃ after, session.Follows crypto learned after (state.receive crypto keylog wire).1 ∧
        session.Sends crypto log after rest := by
  have hbinds : keylog.BindsOnly session.clientRandom session.secrets := by
    intro label secret hsecret
    rwa [← hkeylog]
  cases wire with
  | foreign isClient wireType body =>
      obtain ⟨hforeign, hrest⟩ := hsends
      obtain ⟨error, houtcome⟩ :=
        attempt_foreign hideal hfollows.tracks hbinds hforeign wireType
      -- a failed attempt moves no counter
      obtain ⟨hfollows', hresult⟩ := hfollows.decrypt hbinds houtcome hfollows.counters
      exact ⟨⟨error, hresult⟩, numbering, hfollows', hrest⟩
  | honest record wireType body =>
      obtain ⟨hseals, hrest⟩ := hsends
      obtain ⟨secret, hsecret⟩ := hseals.secret
      have hserver := hfollows.serverRandom_of_secret hlearned hsecret
      obtain ⟨decrypted, houtcome⟩ := attempt_isOk hideal hfollows.tracks hbinds hseals hserver
        (hfollows.counters _ _) ((hkeylog _).trans hsecret)
      obtain ⟨hopened, -, -⟩ :=
        attempt_seals hideal hdistinct hfollows.tracks hbinds hseals houtcome
      subst hopened
      obtain ⟨hfollows', hresult⟩ :=
        hfollows.decrypt hbinds houtcome (hfollows.counters_after record)
      exact ⟨hresult, _, hfollows', hrest⟩

/-- **A whole session is decrypted.**  With the session's secrets in the keylog,
the random of the ServerHello known if the session is one of TLS 1.2, and an ideal
AEAD: over every interleaving of the records of both directions, each lane in
order, with any foreign records in between, every record of the session yields
the content and content type it was sealed with, and every foreign record an
error. -/
theorem decrypts_session (hideal : IdealAead crypto log)
    (hdistinct : session.KeysDistinct crypto)
    (hkeylog : ∀ label, keylog.secretFor session.clientRandom label = session.secrets label)
    (hlearned : session.secrets .clientRandom ≠ none → learned = true)
    {traffic : List WireRecord} (hsends : session.Sends crypto log (fun _ _ => 0) traffic) :
    List.Forall₂ session.Yields traffic
      (Machine.run (ConnectionState.receive crypto keylog) (session.start learned)
        traffic).2 := by
  have hrun : ∀ numbering state, session.Follows crypto learned numbering state →
      session.Sends crypto log numbering traffic →
      List.Forall₂ session.Yields traffic
        (Machine.run (ConnectionState.receive crypto keylog) state traffic).2 := by
    clear hsends
    induction traffic with
    | nil => exact fun _ _ _ _ => .nil
    | cons wire rest ih =>
        intro numbering state hfollows hsends
        obtain ⟨hyields, after, hfollows', hrest⟩ :=
          hfollows.receive hideal hdistinct hkeylog hlearned hsends
        rw [Machine.run_cons]
        exact .cons hyields (ih after _ hfollows' hrest)
  exact hrun _ _ (follows_start session crypto learned) hsends

end Session

/-! ## A recorded session

A TLS 1.3 session: both handshake flights, two requests of the client, a response
of the server, and two records in between that are not the session's. -/

namespace RecordedSession

/-- A line of the keylog for the client random of the session. -/
def line (label : String) (digit : Char) : Text :=
  label.toList ++ [' '] ++ List.replicate 64 'a' ++ [' '] ++ List.replicate 64 digit ++ ['\n']

/-- The lines of the keylog. -/
def keylogText : Text :=
  line "CLIENT_HANDSHAKE_TRAFFIC_SECRET" '1' ++ line "SERVER_HANDSHAKE_TRAFFIC_SECRET" '2' ++
    line "CLIENT_TRAFFIC_SECRET_0" '3' ++ line "SERVER_TRAFFIC_SECRET_0" '4'

/-- The keylog of the session. -/
def keylog : Keylog := Keylog.parse Recording.hexDecode keylogText

/-- The secrets of the session. -/
def secrets : Secrets
  | .clientHandshakeTrafficSecret => some (List.replicate 32 0x11)
  | .serverHandshakeTrafficSecret => some (List.replicate 32 0x22)
  | .clientTrafficSecret0 => some (List.replicate 32 0x33)
  | .serverTrafficSecret0 => some (List.replicate 32 0x44)
  | _ => none

/-- The session. -/
def session : Session where
  clientRandom := List.replicate 32 0xaa
  serverRandom := List.replicate 32 0xbb
  algorithm := .aes128Gcm
  secrets := secrets
  clientRandom_length := rfl
  oneVersion := .inl rfl

/-- What HKDF gives for one secret: a key of sixteen bytes, one of thirty-two and
the IV. -/
def expansions (secret key longKey iv : Bytes) : List ((HashAlgorithm × Bytes × Bytes) × Bytes) :=
  let label (rest : Bytes) : Bytes := [0x74, 0x6c, 0x73, 0x31, 0x33, 0x20] ++ rest ++ [0]
  [((.sha256, secret, [0x00, 0x10, 0x09] ++ label Tls13.keyLabel), key),
    ((.sha256, secret, [0x00, 0x20, 0x09] ++ label Tls13.keyLabel), longKey),
    ((.sha256, secret, [0x00, 0x0c, 0x08] ++ label Tls13.ivLabel), iv)]

/-- The server's EncryptedExtensions. -/
def extensions : Bytes := beBytes 23 0x68a117109e01a57601ef7f1b97cdbbce30ba1ca2e73571

/-- The client's Finished. -/
def finished : Bytes :=
  beBytes 53 0x1b11b666c07a647412c9e86d078de29124171d56d8998e4c8600d47fcdfdcfb2d8efba5f91a19d2474483a5bc7735da2349315437f

/-- The client's request. -/
def request : Bytes := beBytes 23 0xb1a56ecd57bf7390b20cf09f6a84ca6dc0a51d608857ee

/-- The client's second request. -/
def secondRequest : Bytes := beBytes 21 0xd43d4d96d548172114c01267e927bd2c76948cbd0c

/-- The server's response. -/
def response : Bytes := beBytes 19 0x3ddab1051e4c8486efcfc5706e4667e6f1bf0b

/-- A record sealed under the keys of its lane. -/
def sealing (key nonce plaintext : Bytes) : Sealing where
  algorithm := .aes128Gcm
  key := key
  nonce := nonce
  aad := Tls13.recordAad (plaintext.length + 16)
  plaintext := plaintext

/-- The key schedule of the session and its ciphertexts. -/
def recording : Recording where
  hkdf :=
    expansions (List.replicate 32 0x11) (beBytes 16 0x814d34c050e0e0020f9a4d91489578ff)
      (beBytes 32 0xaca0ab08790488b17907b72622ec5995ed7315c734d1fe235140be018af1aed1)
      (beBytes 12 0xa8d22deb12278af91d0cf796) ++
    expansions (List.replicate 32 0x22) (beBytes 16 0xab963abbbd0e16767c75e4ec572bd8ff)
      (beBytes 32 0x780a3c88ffc5d06ee51538643133b0715f96b007ffea26defe3aadcd91c6694a)
      (beBytes 12 0xc12884a601afea44fb882328) ++
    expansions (List.replicate 32 0x33) (beBytes 16 0x9b16fa13972ccdd9f3fdecdce2ebd949)
      (beBytes 32 0xe5dec12c1402cd92f5752a557af2da8854e65dad6881eedba2d20c1b35d90e7f)
      (beBytes 12 0x8bfd7ab1376b0dfdaa7d5b56) ++
    expansions (List.replicate 32 0x44) (beBytes 16 0xc14df1485a1a083bbf2ac880e20b5a0a)
      (beBytes 32 0x6c90a346274eeddf6e01dd55f3662f778ee78d315f5c6b121a6d1300023e1d0e)
      (beBytes 12 0xca6db7bc2ea4985ebe45715a)
  sealed :=
    [(extensions, sealing (beBytes 16 0xab963abbbd0e16767c75e4ec572bd8ff)
        (beBytes 12 0xc12884a601afea44fb882328) [0x08, 0x00, 0x00, 0x02, 0x00, 0x00, 0x16]),
      (finished, sealing (beBytes 16 0x814d34c050e0e0020f9a4d91489578ff)
        (beBytes 12 0xa8d22deb12278af91d0cf796)
        ([0x14, 0x00, 0x00, 0x20] ++ List.replicate 32 0x77 ++ [0x16])),
      (request, sealing (beBytes 16 0x9b16fa13972ccdd9f3fdecdce2ebd949)
        (beBytes 12 0x8bfd7ab1376b0dfdaa7d5b56) [0x47, 0x45, 0x54, 0x17, 0x00, 0x00, 0x00]),
      (secondRequest, sealing (beBytes 16 0x9b16fa13972ccdd9f3fdecdce2ebd949)
        (beBytes 12 0x8bfd7ab1376b0dfdaa7d5b57) [0x50, 0x4f, 0x53, 0x54, 0x17]),
      (response, sealing (beBytes 16 0xc14df1485a1a083bbf2ac880e20b5a0a)
        (beBytes 12 0xca6db7bc2ea4985ebe45715a) [0x6f, 0x6b, 0x17])]

/-- The records in the order they arrive. -/
def traffic : List WireRecord :=
  [.honest ⟨false, .tls13 .handshake, 0x16, [0x08, 0x00, 0x00, 0x02, 0x00, 0x00], 0⟩ 0x17
      extensions,
    .foreign true 0x14 [0x01],
    .honest ⟨true, .tls13 .handshake, 0x16,
      [0x14, 0x00, 0x00, 0x20] ++ List.replicate 32 0x77, 0⟩ 0x17 finished,
    .honest ⟨true, .tls13 .application, 0x17, [0x47, 0x45, 0x54], 3⟩ 0x17 request,
    .honest ⟨true, .tls13 .application, 0x17, [0x50, 0x4f, 0x53, 0x54], 0⟩ 0x17 secondRequest,
    .foreign false 0x17 (List.replicate 24 0x5a),
    .honest ⟨false, .tls13 .application, 0x17, [0x6f, 0x6b], 0⟩ 0x17 response]

theorem secretFor_keylog (label : SecretLabel) :
    keylog.secretFor session.clientRandom label = session.secrets label := by
  have hentries : keylog.byClientRandom.entries =
      [⟨(session.clientRandom, .serverTrafficSecret0), List.replicate 32 0x44⟩,
        ⟨(session.clientRandom, .clientTrafficSecret0), List.replicate 32 0x33⟩,
        ⟨(session.clientRandom, .serverHandshakeTrafficSecret), List.replicate 32 0x22⟩,
        ⟨(session.clientRandom, .clientHandshakeTrafficSecret), List.replicate 32 0x11⟩] := by
    decide +kernel
  unfold Keylog.secretFor AList.lookup
  rw [hentries]
  cases label with
  | other name =>
      rw [List.dlookup_cons_ne _ _ (by simp), List.dlookup_cons_ne _ _ (by simp),
        List.dlookup_cons_ne _ _ (by simp), List.dlookup_cons_ne _ _ (by simp), List.dlookup_nil]
      rfl
  | _ => decide +kernel

theorem keysDistinct : session.KeysDistinct recording.crypto := by
  have hkeys : ∀ isClient algorithm,
      (session.keys13 recording.crypto isClient .handshake algorithm).isNone ∨
        (session.keys13 recording.crypto isClient .handshake algorithm).map (·.key) ≠
          (session.keys13 recording.crypto isClient .application algorithm).map (·.key) := by
    intro isClient algorithm
    cases isClient <;> cases algorithm <;> decide +kernel
  intro isClient algorithm handshakeKeys applicationKeys hhandshake happlication hsame
  rcases hkeys isClient algorithm with hnone | hdiffer
  · rw [hhandshake] at hnone
    cases hnone
  · rw [hhandshake, happlication] at hdiffer
    exact hdiffer (congrArg some hsame)

theorem foreign_of_log_eq_none {isClient : Bool} {body : Bytes}
    (hlog : recording.log body = none) :
    session.Foreign recording.crypto recording.log isClient body := by
  constructor
  · intro g algorithm recordKeys nonce aad plaintext _
    rw [hlog]
    exact nofun
  · intro masterSecret algorithm nonce aad plaintext hmaster
    cases hmaster

theorem sends_traffic :
    session.Sends recording.crypto recording.log (fun _ _ => 0) traffic := by
  refine ⟨⟨by decide, by decide, ⟨.aes128Gcm, beBytes 16 0xab963abbbd0e16767c75e4ec572bd8ff,
      beBytes 12 0xc12884a601afea44fb882328⟩, by decide +kernel, by decide +kernel⟩,
    foreign_of_log_eq_none (by decide +kernel),
    ⟨by decide, by decide, ⟨.aes128Gcm, beBytes 16 0x814d34c050e0e0020f9a4d91489578ff,
      beBytes 12 0xa8d22deb12278af91d0cf796⟩, by decide +kernel, by decide +kernel⟩,
    ⟨by decide, by decide, ⟨.aes128Gcm, beBytes 16 0x9b16fa13972ccdd9f3fdecdce2ebd949,
      beBytes 12 0x8bfd7ab1376b0dfdaa7d5b56⟩, by decide +kernel, by decide +kernel⟩,
    ⟨by decide, by decide, ⟨.aes128Gcm, beBytes 16 0x9b16fa13972ccdd9f3fdecdce2ebd949,
      beBytes 12 0x8bfd7ab1376b0dfdaa7d5b56⟩, by decide +kernel, by decide +kernel⟩,
    foreign_of_log_eq_none (by decide +kernel),
    ⟨by decide, by decide, ⟨.aes128Gcm, beBytes 16 0xc14df1485a1a083bbf2ac880e20b5a0a,
      beBytes 12 0xca6db7bc2ea4985ebe45715a⟩, by decide +kernel, by decide +kernel⟩, trivial⟩

end RecordedSession

/-- The recorded session is decrypted. -/
theorem Session.decrypts_recorded_session :
    List.Forall₂ RecordedSession.session.Yields RecordedSession.traffic
      (Machine.run (ConnectionState.receive RecordedSession.recording.crypto
        RecordedSession.keylog) (RecordedSession.session.start true)
        RecordedSession.traffic).2 :=
  Session.decrypts_session RecordedSession.recording.idealAead_crypto
    RecordedSession.keysDistinct RecordedSession.secretFor_keylog (fun _ => rfl)
    RecordedSession.sends_traffic

end Tlscap
