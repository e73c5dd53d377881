import Mathlib.Algebra.Group.Defs
import Tlscap.Keylog.Steady
import Tlscap.Orchestrator.Frame

/-!
# Decoding the records of one direction

What a record does depends on little: the endpoints, the decrypt state and the undissected
plaintext of its direction.  `Decoder` is these, and `Decoder.record` feeds one record to it
under a fixed keylog and dissectors that compute a function.  It says what the loop of
`drain_records` is for, without clocks, files, heaps and counters before;
`processRecord_decodes` connects the two.

## How they are connected

A step of the source is given the connection and what is shared, and changes both.
`Decoded.ShownBy` says that what it leaves is the connection with another decoder, the same
keylog, the counters added to, and the messages stamped with the time of the frame.

* **Counters** form a monoid, so steps that only add to them can be put together.
* **The keylog** stays as it is, since the readings of the file are steady
  (`attemptDecrypt_steady`).
* **The heap** of the dissectors may change, but what they return does not depend on it.
* **The tail** is set through its cap, which is keeping the newest bytes
  (`setTailCapped_eq`).
-/

namespace Tlscap

/-! ## Counters add up -/

instance : Zero Counters := ⟨{}⟩

instance : Add Counters where
  add a b :=
    { evictedConnections := a.evictedConnections + b.evictedConnections
      gapAbandonedBytes := a.gapAbandonedBytes + b.gapAbandonedBytes
      tailBytesDiscarded := a.tailBytesDiscarded + b.tailBytesDiscarded
      connectionsDesynced := a.connectionsDesynced + b.connectionsDesynced
      tlsRecordsSeen := a.tlsRecordsSeen + b.tlsRecordsSeen
      tlsRecordsDecrypted := a.tlsRecordsDecrypted + b.tlsRecordsDecrypted
      tlsRecordsAuthfailed := a.tlsRecordsAuthfailed + b.tlsRecordsAuthfailed
      tlsRecordsNokey := a.tlsRecordsNokey + b.tlsRecordsNokey
      tlsRecordsNoClientHello := a.tlsRecordsNoClientHello + b.tlsRecordsNoClientHello
      tlsRecordsPlaintextHandshake :=
        a.tlsRecordsPlaintextHandshake + b.tlsRecordsPlaintextHandshake }

instance : AddMonoid Counters where
  add_assoc a b c := by ext <;> exact Nat.add_assoc _ _ _
  zero_add a := by ext <;> exact Nat.zero_add _
  add_zero a := by ext <;> exact Nat.add_zero _
  nsmul := nsmulRec

/-- A message with another timestamp. -/
def DecodedMessage.stamp (timestamp : Duration) (message : DecodedMessage) : DecodedMessage :=
  { message with timestamp }

/-! ## The decoder -/

/-- What the records of one direction see of their connection. -/
structure Decoder where
  clientEndpoint : Endpoint
  serverEndpoint : Endpoint
  state : Option ConnectionState
  tail : Bytes

/-- The decoder of a direction. -/
def Connection.decoder (conn : Connection) (isClientToServer : Bool) : Decoder :=
  ⟨conn.clientEndpoint, conn.serverEndpoint, conn.state, conn.tail isClientToServer⟩

/-- The connection with what a decoder has become. -/
def Connection.withDecoder (conn : Connection) (isClientToServer : Bool) (decoder : Decoder) :
    Connection :=
  { conn with state := decoder.state }.setTail isClientToServer decoder.tail

/-- What records do: the decoder afterwards, what is added to the counters, and the
messages, stamped zero. -/
structure Decoded where
  decoder : Decoder
  counters : Counters
  messages : List DecodedMessage

/-- A function that dissectors compute, of the port and the bytes. -/
abbrev Dissector := UInt16 → Bytes → Except Text (Option (FrameFields × ℕ))

namespace Decoder

variable (crypto : Crypto) (dissector : Dissector) (keylog : Keylog) (maxTailBytes : ℕ)
  (isClientToServer : Bool)

/-- The decrypt state once a record is the ClientHello or ServerHello that is waited
for. -/
def learn (decoder : Decoder) (body : Bytes) : Option ConnectionState :=
  if isClientToServer then
    match decoder.state, clientRandomFromClientHello body with
    | none, some clientRandom => some (.new clientRandom)
    | _, _ => none
  else
    match Tls12.serverRandomFromServerHello body, decoder.state with
    | some serverRandom, some state =>
        match state.setServerRandom serverRandom with
        | (state, true) => some state
        | (_, false) => none
    | _, _ => none

/-- Source and destination of the messages. -/
def endpoints (decoder : Decoder) : Endpoint × Endpoint :=
  if isClientToServer then (decoder.clientEndpoint, decoder.serverEndpoint)
  else (decoder.serverEndpoint, decoder.clientEndpoint)

/-- Keeps undissected plaintext up to its cap, the newest bytes of it. -/
def keep (decoder : Decoder) (bytes : Bytes) : Decoder × Counters :=
  ({ decoder with tail := bytes.drop (bytes.length - maxTailBytes) },
    { tailBytesDiscarded := bytes.length - maxTailBytes })

/-- Dissects a plaintext after what was kept: one message in every case. -/
def dissect (decoder : Decoder) (plaintext : Bytes) : Decoder × Counters × DecodedMessage :=
  let buf := decoder.tail ++ plaintext
  let (src, dst) := decoder.endpoints isClientToServer
  let message (fields : FrameFields) : DecodedMessage :=
    { srcIp := src.ip, dstIp := dst.ip, srcPort := src.port, dstPort := dst.port
      tlsAppData := plaintext, fields, timestamp := 0 }
  match dissector decoder.serverEndpoint.port buf with
  | .ok (some (fields, consumed)) =>
      let (decoder, counters) := decoder.keep maxTailBytes (buf.drop (min consumed buf.length))
      (decoder, counters, message fields)
  | .ok none => ({ decoder with tail := [] }, 0, message .empty)
  | .error _ =>
      let (decoder, counters) := decoder.keep maxTailBytes buf
      (decoder, counters, message .empty)

/-- What one record does, given by its type and body. -/
def record (decoder : Decoder) (record : UInt8 × Bytes) : Decoded :=
  let seen : Counters := { tlsRecordsSeen := 1 }
  let plaintextHandshake : Counters := { seen with tlsRecordsPlaintextHandshake := 1 }
  if record.1 = 0x14 then ⟨decoder, plaintextHandshake, []⟩
  else
    match decoder.learn isClientToServer record.2 with
    | some state => ⟨{ decoder with state := some state }, plaintextHandshake, []⟩
    | none =>
        match decoder.state with
        | none => ⟨decoder, { seen with tlsRecordsNoClientHello := 1 }, []⟩
        | some state =>
            match state.decrypt crypto keylog isClientToServer record.1 record.2 with
            | (state, .error .noKey) =>
                ⟨{ decoder with state := some state }, { seen with tlsRecordsNokey := 1 }, []⟩
            | (state, .error .authFailed) =>
                ⟨{ decoder with state := some state }, { seen with tlsRecordsAuthfailed := 1 }, []⟩
            | (state, .ok decrypted) =>
                let decoder := { decoder with state := some state }
                let counted : Counters := { seen with tlsRecordsDecrypted := 1 }
                if decrypted.contentType = 0x17 then
                  let (decoder, counters, message) :=
                    decoder.dissect dissector maxTailBytes isClientToServer decrypted.plaintext
                  ⟨decoder, counted + counters, [message]⟩
                else ⟨decoder, counted, []⟩

/-- Records leave the endpoints alone. -/
theorem record_endpoints (decoder : Decoder) (received : UInt8 × Bytes) :
    let after := (decoder.record crypto dissector keylog maxTailBytes isClientToServer
      received).decoder
    after.clientEndpoint = decoder.clientEndpoint ∧
      after.serverEndpoint = decoder.serverEndpoint := by
  have hdissect : ∀ (decoder : Decoder) (plaintext : Bytes),
      let after := (decoder.dissect dissector maxTailBytes isClientToServer plaintext).1
      after.clientEndpoint = decoder.clientEndpoint ∧
        after.serverEndpoint = decoder.serverEndpoint := by
    intro decoder plaintext
    unfold dissect
    simp only
    split <;> exact ⟨rfl, rfl⟩
  unfold record
  simp only
  split
  · exact ⟨rfl, rfl⟩
  · split
    · exact ⟨rfl, rfl⟩
    · split
      · exact ⟨rfl, rfl⟩
      · split
        · exact ⟨rfl, rfl⟩
        · exact ⟨rfl, rfl⟩
        · split
          · exact hdissect _ _
          · exact ⟨rfl, rfl⟩

/-- What records do one after another. -/
def records (decoder : Decoder) : List (UInt8 × Bytes) → Decoded
  | [] => ⟨decoder, 0, []⟩
  | record :: rest =>
      let now := decoder.record crypto dissector keylog maxTailBytes isClientToServer record
      let later := records now.decoder rest
      ⟨later.decoder, now.counters + later.counters, now.messages ++ later.messages⟩

theorem records_endpoints (decoder : Decoder) (received : List (UInt8 × Bytes)) :
    let after := (decoder.records crypto dissector keylog maxTailBytes isClientToServer
      received).decoder
    after.clientEndpoint = decoder.clientEndpoint ∧
      after.serverEndpoint = decoder.serverEndpoint := by
  induction received generalizing decoder with
  | nil => exact ⟨rfl, rfl⟩
  | cons first rest ih =>
      obtain ⟨hclient, hserver⟩ := record_endpoints crypto dissector keylog maxTailBytes
        isClientToServer decoder first
      obtain ⟨hclient', hserver'⟩ := ih (decoder.record crypto dissector keylog maxTailBytes
        isClientToServer first).decoder
      exact ⟨hclient'.trans hclient, hserver'.trans hserver⟩

/-- Records come in parts. -/
theorem records_append (decoder : Decoder) (first second : List (UInt8 × Bytes)) :
    let now := decoder.records crypto dissector keylog maxTailBytes isClientToServer first
    let later := now.decoder.records crypto dissector keylog maxTailBytes isClientToServer second
    decoder.records crypto dissector keylog maxTailBytes isClientToServer (first ++ second) =
      ⟨later.decoder, now.counters + later.counters, now.messages ++ later.messages⟩ := by
  induction first generalizing decoder with
  | nil => simp [records]
  | cons record rest ih =>
      simp only [List.cons_append, records] at ih ⊢
      simp only [ih, add_assoc, List.append_assoc]

end Decoder

/-! ## The loop computes the decoder -/

section Record

variable {σ : Type} {crypto : Crypto} {vm : LuaVm σ} {config : OrchestratorConfig}
  {dissector : Dissector} {hasPath : Bool} {keylog : Keylog} {isClientToServer : Bool}

/-- The state after a step is the connection with the decoder, the keylog as it was,
the counters added to and the messages stamped. -/
structure Decoded.ShownBy (decoded : Decoded) (hasPath : Bool) (keylog : Keylog)
    (isClientToServer : Bool) (timestamp : Duration) (conn : Connection) (counters : Counters)
    (after : Connection × Shared σ × List DecodedMessage) : Prop where
  conn : after.1 = conn.withDecoder isClientToServer decoded.decoder
  keylog : after.2.1.keylog.Reads hasPath keylog
  counters : after.2.1.counters = counters + decoded.counters
  messages : after.2.2 = decoded.messages.map (DecodedMessage.stamp timestamp)

/-! ### The connection with another decoder -/

namespace Connection

variable (conn : Connection) (c : Bool)

@[simp] theorem withDecoder_decoder : conn.withDecoder c (conn.decoder c) = conn := by
  cases c <;> rfl

theorem decoder_withDecoder {decoder : Decoder}
    (hclient : decoder.clientEndpoint = conn.clientEndpoint)
    (hserver : decoder.serverEndpoint = conn.serverEndpoint) :
    (conn.withDecoder c decoder).decoder c = decoder := by
  cases decoder
  subst hclient hserver
  cases c <;> rfl

@[simp] theorem clientEndpoint_withDecoder (decoder : Decoder) :
    (conn.withDecoder c decoder).clientEndpoint = conn.clientEndpoint := by
  cases c <;> rfl

@[simp] theorem isDesynced_withDecoder (d : Bool) (decoder : Decoder) :
    (conn.withDecoder c decoder).isDesynced d = conn.isDesynced d := by
  cases c <;> cases d <;> rfl

@[simp] theorem withDecoder_withDecoder (first second : Decoder) :
    (conn.withDecoder c first).withDecoder c second = conn.withDecoder c second := by
  cases c <;> rfl

@[simp] theorem decoder_setReassembler (r : StreamReassembler) :
    (conn.setReassembler c r).decoder c = conn.decoder c := by
  cases c <;> rfl

theorem setReassembler_withDecoder (r : StreamReassembler) (decoder : Decoder) :
    (conn.withDecoder c decoder).setReassembler c r =
      (conn.setReassembler c r).withDecoder c decoder := by
  cases c <;> rfl

@[simp] theorem reassemblerFor_withDecoder (d : Bool) (decoder : Decoder) :
    (conn.withDecoder c decoder).reassemblerFor d = conn.reassemblerFor d := by
  cases c <;> cases d <;> rfl

@[simp] theorem setReassembler_setReassembler (r r' : StreamReassembler) :
    (conn.setReassembler c r).setReassembler c r' = conn.setReassembler c r' := by
  cases c <;> rfl

@[simp] theorem setReassembler_reassemblerFor :
    conn.setReassembler c (conn.reassemblerFor c) = conn := by
  cases c <;> rfl

end Connection

/-- An attempt decrypts with the steady keylog. -/
theorem attemptDecrypt_steady (crypto : Crypto) {source : KeylogSource}
    (hreads : source.Reads hasPath keylog) {readings : KeylogReadings}
    (hsteady : readings.Steady crypto.hexDecode hasPath keylog) (state : ConnectionState)
    (isClientToServer : Bool) (outerContentType : UInt8) (body : Bytes) :
    (attemptDecrypt crypto source state readings isClientToServer outerContentType
        body).1.Reads hasPath keylog ∧
      (attemptDecrypt crypto source state readings isClientToServer outerContentType body).2 =
        state.decrypt crypto keylog isClientToServer outerContentType body := by
  have hpolled := hreads.poll hsteady
  obtain ⟨hleft, hdecrypted⟩ := attemptDecrypt_spec crypto source state readings
    isClientToServer outerContentType body
  rw [hpolled.current_eq] at hdecrypted
  refine ⟨?_, hdecrypted⟩
  rcases hleft with hleft | hleft
  · rw [hleft]
    exact hpolled
  · rw [hleft]
    exact hpolled.pollAfterMiss hsteady

theorem learnHello_eq (conn : Connection) (isClientToServer : Bool) (body : Bytes) :
    learnHello conn isClientToServer body =
      ((conn.decoder isClientToServer).learn isClientToServer body).map fun state =>
        { conn with state := some state } := by
  unfold learnHello Decoder.learn Connection.decoder
  cases isClientToServer with
  | true =>
      simp only [if_true]
      cases conn.state <;> cases clientRandomFromClientHello body <;> rfl
  | false =>
      simp only [Bool.false_eq_true, if_false]
      cases Tls12.serverRandomFromServerHello body with
      | none => rfl
      | some serverRandom =>
          cases conn.state with
          | none => rfl
          | some state =>
              simp only
              rcases state.setServerRandom serverRandom with ⟨state, _ | _⟩
              · rfl
              · rfl

/-- Setting the tail of a direction is keeping plaintext in its decoder. -/
theorem setTailCapped_eq (conn : Connection) (counters : Counters) (bytes : Bytes) :
    setTailCapped config conn counters isClientToServer bytes =
      (conn.withDecoder isClientToServer
          ((conn.decoder isClientToServer).keep config.maxTailBytes bytes).1,
        counters + ((conn.decoder isClientToServer).keep config.maxTailBytes bytes).2) := by
  have hconn : conn.setTail isClientToServer (bytes.drop (bytes.length - config.maxTailBytes)) =
      conn.withDecoder isClientToServer
        ((conn.decoder isClientToServer).keep config.maxTailBytes bytes).1 := by
    cases isClientToServer <;> rfl
  rw [← hconn, ← setTailCapped_fst config conn counters]
  unfold setTailCapped Decoder.keep
  split
  · rfl
  · rename_i hfits
    have hnone : bytes.length - config.maxTailBytes = 0 := by omega
    rw [hnone]
    exact Prod.ext rfl (add_zero counters).symm

/-- Dissecting is dissecting in the decoder. -/
theorem dissectAndEmit_decodes (config : OrchestratorConfig) (hpure : vm.IsPure dissector)
    (shared : Shared σ) (hreads : shared.keylog.Reads hasPath keylog) (conn : Connection)
    (isClientToServer : Bool) (plaintext : Bytes) (timestamp : Duration) :
    let after := dissectAndEmit vm config conn shared isClientToServer plaintext timestamp
    let decoded := (conn.decoder isClientToServer).dissect dissector config.maxTailBytes
      isClientToServer plaintext
    Decoded.ShownBy ⟨decoded.1, decoded.2.1, [decoded.2.2]⟩ hasPath keylog isClientToServer
      timestamp conn shared.counters (after.1, after.2.1, [after.2.2]) := by
  have hport : (conn.setTail isClientToServer []).serverEndpoint = conn.serverEndpoint := by
    cases isClientToServer <;> rfl
  have hendpoints : (conn.setTail isClientToServer []).endpoints isClientToServer =
      (conn.decoder isClientToServer).endpoints isClientToServer := by
    cases isClientToServer <;> rfl
  have hcomputes := hpure shared.lua conn.serverEndpoint.port
    (conn.tail isClientToServer ++ plaintext)
  unfold dissectAndEmit Decoder.dissect
  simp only [hport, hendpoints, setTailCapped_eq]
  change _ = dissector (conn.decoder isClientToServer).serverEndpoint.port
    ((conn.decoder isClientToServer).tail ++ plaintext) at hcomputes
  rw [← hcomputes]
  rcases vm.dissect shared.lua conn.serverEndpoint.port
    (conn.tail isClientToServer ++ plaintext) with ⟨lua, message | (_ | ⟨fields, consumed⟩)⟩
  · refine ⟨?_, hreads, rfl, rfl⟩
    cases isClientToServer <;> rfl
  · refine ⟨?_, hreads, rfl, rfl⟩
    cases isClientToServer <;> rfl
  · refine ⟨?_, hreads, rfl, rfl⟩
    cases isClientToServer <;> rfl

/-- **One record.**  The body of the loop computes the decoder. -/
theorem processRecord_decodes (crypto : Crypto) (config : OrchestratorConfig)
    (hpure : vm.IsPure dissector) {shared : Shared σ}
    (hreads : shared.keylog.Reads hasPath keylog) {readings : KeylogReadings}
    (hsteady : readings.Steady crypto.hexDecode hasPath keylog) (conn : Connection)
    (isClientToServer : Bool)
    (record : UInt8 × Bytes) (timestamp : Duration) :
    ((conn.decoder isClientToServer).record crypto dissector keylog config.maxTailBytes
      isClientToServer record).ShownBy hasPath keylog isClientToServer timestamp conn
      shared.counters (processRecord crypto vm config conn shared isClientToServer record.1
        record.2 timestamp readings) := by
  unfold processRecord Decoder.record
  simp only [learnHello_eq]
  split
  · exact ⟨(conn.withDecoder_decoder isClientToServer).symm, hreads, rfl, rfl⟩
  · cases (conn.decoder isClientToServer).learn isClientToServer record.2 with
    | some state =>
        refine ⟨?_, hreads, rfl, rfl⟩
        cases isClientToServer <;> rfl
    | none =>
        change Decoded.ShownBy (match conn.state with | none => _ | some _ => _) _ _ _ _ _ _ _
        cases conn.state with
        | none => exact ⟨(conn.withDecoder_decoder isClientToServer).symm, hreads, rfl, rfl⟩
        | some state =>
            obtain ⟨hkeylog, hdecrypt⟩ := attemptDecrypt_steady crypto hreads hsteady state
              isClientToServer record.1 record.2
            simp only
            rw [← hdecrypt]
            -- of the attempt only its result and the state it leaves matter from here on
            generalize attemptDecrypt crypto shared.keylog state readings isClientToServer
              record.1 record.2 = attempt at hkeylog ⊢
            obtain ⟨source, state, (_ | _) | decrypted⟩ := attempt
            · refine ⟨?_, hkeylog, rfl, rfl⟩
              cases isClientToServer <;> rfl
            · refine ⟨?_, hkeylog, rfl, rfl⟩
              cases isClientToServer <;> rfl
            · simp only
              split
              · obtain ⟨hconn, hkept, hcounters, hmessages⟩ := dissectAndEmit_decodes config
                  hpure ⟨source, shared.lua, shared.counters +
                    { tlsRecordsSeen := 1, tlsRecordsDecrypted := 1 }⟩ hkeylog
                  { conn with state := some state } isClientToServer decrypted.plaintext timestamp
                refine ⟨hconn.trans ?_, hkept, hcounters.trans (add_assoc _ _ _), hmessages⟩
                cases isClientToServer <;> rfl
              · refine ⟨?_, hkeylog, rfl, rfl⟩
                cases isClientToServer <;> rfl

end Record

end Tlscap
