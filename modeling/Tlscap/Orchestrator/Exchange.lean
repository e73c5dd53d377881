import Tlscap.Connection.Uncached
import Tlscap.Orchestrator.Trace

/-!
# The records of a connection, one after another

`Exchange` is what the records of both directions have led to: the decrypt state without its
caches, and the undissected plaintext of each direction.  One record is received at a time
(`Exchange.receive`), under a fixed keylog and dissectors that compute a function.

The two directions meet here and nowhere else.  A server record needs the random of the
client's hello, and under TLS 1.2 a client record needs that of the server's.

## Strategy

The loop of `drain_records` refines an exchange, record by record
(`RecordStep.refines_exchange`), and so do the records of a frame (`Drains.refines_exchange`).
What an exchange leaves out makes no difference:

* **The cached keys.**  A connection that fits the setting has only keys that its keylog
  gives, so an attempt is the attempt without caches, and leaves such keys again
  (`attempt_exchange`, `cachesFrom_learnHello`).
* **The reader of the keylog.**  It shows one keylog throughout, whether or not it polls.
* **The heap of the dissectors**, which a dissection does not depend on where they compute a
  function (`dissectAndEmit_exchange`).
* **Time stamps.**  Messages are compared stamped zero.

Streams and marks are not in it at all: an iteration leaves them alone.
-/

namespace Tlscap

/-- A record as it is taken off the stream of its direction. -/
structure TakenRecord where
  isClientToServer : Bool
  contentType : UInt8
  body : Bytes
  deriving DecidableEq, Repr

/-- What the records of a connection have led to. -/
structure Exchange where
  state : Option Uncached
  tail : (isClientToServer : Bool) → Bytes

/-- What does not change while the records of a connection are received. -/
structure ExchangeSetting where
  crypto : Crypto
  dissector : Dissector
  keylog : Keylog
  maxTailBytes : ℕ
  clientEndpoint : Endpoint
  serverEndpoint : Endpoint

/-- The decrypt state before any record was decrypted. -/
def Uncached.opened (clientRandom : Bytes) (serverRandom : Option Bytes) : Uncached where
  clientRandom := clientRandom
  serverRandom := serverRandom
  seq := fun _ _ => 0
  tls12Seq := fun _ => 0

theorem uncached_new (clientRandom : Bytes) :
    (ConnectionState.new clientRandom).uncached = .opened clientRandom none := by
  apply Uncached.ext
  · rfl
  · rfl
  · funext isClientToServer g
    cases isClientToServer <;> cases g <;> rfl
  · funext isClientToServer
    cases isClientToServer <;> rfl

namespace Exchange

variable (setting : ExchangeSetting) (known : Option Bytes) (exchange : Exchange)

/-- The decrypt state once the record is a hello that is waited for.  A ClientHello is
met with the server random that is known by then. -/
def learn (record : TakenRecord) : Option Uncached :=
  if record.isClientToServer then
    match exchange.state, clientRandomFromClientHello record.body with
    | none, some clientRandom => some (.opened clientRandom known)
    | _, _ => none
  else
    match Tls12.serverRandomFromServerHello record.body, exchange.state with
    | some serverRandom, some state =>
        match state.setServerRandom serverRandom with
        | (state, true) => some state
        | (_, false) => none
    | _, _ => none

/-- Dissects a plaintext after what its direction kept. -/
def dissect (isClientToServer : Bool) (plaintext : Bytes) : Exchange × DecodedMessage :=
  let decoder : Decoder :=
    ⟨setting.clientEndpoint, setting.serverEndpoint, none, exchange.tail isClientToServer⟩
  let dissected := decoder.dissect setting.dissector setting.maxTailBytes isClientToServer
    plaintext
  ({ exchange with tail := Function.update exchange.tail isClientToServer dissected.1.tail },
    dissected.2.2)

/-- The outcome of an attempt at the record. -/
def attempt (state : Uncached) (record : TakenRecord) : Except ProcessError DecryptedRecord :=
  state.attempt setting.crypto setting.keylog record.isClientToServer record.contentType record.body

/-- What an outcome leaves, and the messages it yields. -/
def settle (state : Uncached) (isClientToServer : Bool)
    (outcome : Except ProcessError DecryptedRecord) : Exchange × List DecodedMessage :=
  let exchange := { exchange with state := some (state.after isClientToServer outcome) }
  match outcome with
  | .ok decrypted =>
      if decrypted.contentType = 0x17 then
        let (exchange, message) :=
          exchange.dissect setting isClientToServer decrypted.plaintext
        (exchange, [message])
      else (exchange, [])
  | .error _ => (exchange, [])

/-- Receives one record: what it leaves, and the messages it yields, stamped zero. -/
def receive (record : TakenRecord) : Exchange × List DecodedMessage :=
  if record.contentType = 0x14 then (exchange, [])
  else
    match exchange.learn known record with
    | some state => ({ exchange with state := some state }, [])
    | none =>
        match exchange.state with
        | none => (exchange, [])
        | some state =>
            exchange.settle setting state record.isClientToServer (attempt setting state record)

/-- One record of a list: what was there before it, and the messages it yields. -/
structure Reception where
  before : Exchange
  record : TakenRecord
  messages : List DecodedMessage

/-- The reception of a record. -/
def reception (record : TakenRecord) : Reception :=
  ⟨exchange, record, (exchange.receive setting known record).2⟩

/-- The receptions of records, one after another. -/
def receptions (records : List TakenRecord) : List Reception :=
  Machine.collect (receive setting known)
    (fun exchange record => [exchange.reception setting known record]) exchange records

/-- What records leave, one after another. -/
def receiveAll (records : List TakenRecord) : Exchange :=
  (Machine.run (receive setting known) exchange records).1

variable {setting known exchange} {record : TakenRecord} {state : Uncached}

theorem receptions_cons (record : TakenRecord) (rest : List TakenRecord) :
    exchange.receptions setting known (record :: rest) =
      exchange.reception setting known record ::
        (exchange.receive setting known record).1.receptions setting known rest := rfl

theorem receptions_append (first second : List TakenRecord) :
    exchange.receptions setting known (first ++ second) =
      exchange.receptions setting known first ++
        (exchange.receiveAll setting known first).receptions setting known second :=
  Machine.collect_append exchange first second

theorem receiveAll_append (first second : List TakenRecord) :
    exchange.receiveAll setting known (first ++ second) =
      (exchange.receiveAll setting known first).receiveAll setting known second := by
  unfold receiveAll
  rw [Machine.run_append]

theorem receive_changeCipherSpec (htype : record.contentType = 0x14) :
    exchange.receive setting known record = (exchange, []) :=
  if_pos htype

theorem receive_hello (htype : record.contentType ≠ 0x14)
    (hlearn : exchange.learn known record = some state) :
    exchange.receive setting known record = ({ exchange with state := some state }, []) := by
  unfold receive
  rw [if_neg htype, hlearn]

theorem receive_unknown (htype : record.contentType ≠ 0x14)
    (hlearn : exchange.learn known record = none) (hstate : exchange.state = none) :
    exchange.receive setting known record = (exchange, []) := by
  unfold receive
  rw [if_neg htype, hlearn, hstate]

theorem receive_attempted (htype : record.contentType ≠ 0x14)
    (hlearn : exchange.learn known record = none) (hstate : exchange.state = some state) :
    exchange.receive setting known record =
      exchange.settle setting state record.isClientToServer (attempt setting state record) := by
  unfold receive
  rw [if_neg htype, hlearn, hstate]

end Exchange

/-! ## One iteration of the loop -/

/-- What the records of a connection have led to. -/
def Connection.exchange (conn : Connection) : Exchange :=
  ⟨conn.state.map ConnectionState.uncached, conn.tail⟩

/-- The cached keys of the connection are those the keylog gives. -/
def Connection.CachesFrom (crypto : Crypto) (keylog : Keylog) (conn : Connection) : Prop :=
  ∀ state, conn.state = some state → state.CachesFrom crypto (keylog.secretFor state.clientRandom)

/-- The roles of the connection are those of the setting. -/
def Connection.Plays (setting : ExchangeSetting) (conn : Connection) : Prop :=
  conn.clientEndpoint = setting.clientEndpoint ∧ conn.serverEndpoint = setting.serverEndpoint

/-- The record of an iteration. -/
def RecordStep.record {σ : Type} (step : RecordStep σ) : TakenRecord :=
  ⟨step.isClientToServer, step.contentType, step.body⟩

section Refine

variable {σ : Type} {setting : ExchangeSetting} {vm : LuaVm σ} {config : OrchestratorConfig}
  {hasPath : Bool}

theorem learnHello_exchange (conn : Connection) (record : TakenRecord) :
    conn.exchange.learn none record =
      (learnHello conn record.isClientToServer record.body).bind fun learned =>
        learned.state.map ConnectionState.uncached := by
  obtain ⟨isClientToServer, contentType, body⟩ := record
  unfold Exchange.learn learnHello Connection.exchange
  cases isClientToServer with
  | true =>
      simp only [if_true]
      rcases conn.state with _ | state <;> rcases clientRandomFromClientHello body with _ | random
      · rfl
      · exact congrArg some (uncached_new random).symm
      · rfl
      · rfl
  | false =>
      simp only [Bool.false_eq_true, if_false]
      rcases Tls12.serverRandomFromServerHello body with _ | random
      · rfl
      · rcases conn.state with _ | state
        · rfl
        · have hknown : state.uncached.serverRandom = state.serverRandom := rfl
          simp only [Option.map_some, Uncached.setServerRandom, ConnectionState.setServerRandom,
            hknown]
          cases state.serverRandom with
          | none => rfl
          | some known => rfl

/-- A hello that is learned leaves no stale keys. -/
theorem cachesFrom_learnHello {conn learned : Connection} {isClientToServer : Bool} {body : Bytes}
    (h : conn.CachesFrom setting.crypto setting.keylog)
    (hhello : learnHello conn isClientToServer body = some learned) :
    learned.CachesFrom setting.crypto setting.keylog := by
  unfold learnHello at hhello
  cases isClientToServer with
  | true =>
      simp only [if_true] at hhello
      split at hhello
      · cases hhello
        intro state hstate
        cases hstate
        exact ConnectionState.cachesFrom_new _ _ _
      · cases hhello
  | false =>
      simp only [Bool.false_eq_true, if_false] at hhello
      split at hhello
      · rename_i serverRandom state hserver hstate
        split at hhello
        · rename_i later hset
          cases hhello
          intro known hknown
          cases hknown
          have hcaches := (h state hstate).setServerRandom serverRandom
          have hrandom : (state.setServerRandom serverRandom).1.clientRandom =
              state.clientRandom := by
            unfold ConnectionState.setServerRandom
            split <;> rfl
          rw [hset] at hcaches hrandom
          simp only at hrandom
          rw [hrandom]
          exact hcaches
        · cases hhello
      · cases hhello

/-- **One decrypt attempt** is the attempt without caches, and leaves no stale keys. -/
theorem attempt_exchange (state : ConnectionState) (record : TakenRecord)
    (hcaches : state.CachesFrom setting.crypto (setting.keylog.secretFor state.clientRandom)) :
    let decrypted := state.decrypt setting.crypto setting.keylog record.isClientToServer
      record.contentType record.body
    decrypted.2 = Exchange.attempt setting state.uncached record ∧
      decrypted.1.uncached = state.uncached.after record.isClientToServer decrypted.2 ∧
      decrypted.1.CachesFrom setting.crypto
        (setting.keylog.secretFor decrypted.1.clientRandom) := by
  intro decrypted
  have hbinds : setting.keylog.BindsOnly state.clientRandom
      (setting.keylog.secretFor state.clientRandom) := fun _ _ hsecret => hsecret
  have hagrees := ConnectionState.decrypt_agrees (hcaches.agree hbinds record.isClientToServer)
    record.contentType record.body
  have hsame : state.uncached.after record.isClientToServer
      (Exchange.attempt setting state.uncached record) = decrypted.1.uncached ∧
        Exchange.attempt setting state.uncached record = decrypted.2 := Prod.ext_iff.mp hagrees
  refine ⟨hsame.2.symm, ?_, ?_⟩
  · rw [← hsame.2]
    exact hsame.1.symm
  · have hrandom : decrypted.1.clientRandom = state.clientRandom :=
      ConnectionState.clientRandom_decrypt _ _ _ _ _
    rw [hrandom]
    exact hcaches.decrypt hbinds record.isClientToServer record.contentType record.body

/-- A dissection does not look at the decrypt state. -/
theorem dissect_withoutState (decoder : Decoder) (dissector : Dissector) (maxTailBytes : ℕ)
    (isClientToServer : Bool) (plaintext : Bytes) :
    let dissected := decoder.dissect dissector maxTailBytes isClientToServer plaintext
    let stateless := ({ decoder with state := none } : Decoder).dissect dissector maxTailBytes
      isClientToServer plaintext
    dissected.1.state = decoder.state ∧ stateless.1.tail = dissected.1.tail ∧
      stateless.2.2 = dissected.2.2 ∧ dissected.2.2.timestamp = 0 := by
  unfold Decoder.dissect
  simp only
  rcases dissector decoder.serverEndpoint.port (decoder.tail ++ plaintext) with
    message | (_ | ⟨fields, consumed⟩)
  · exact ⟨rfl, rfl, rfl, rfl⟩
  · exact ⟨rfl, rfl, rfl, rfl⟩
  · exact ⟨rfl, rfl, rfl, rfl⟩

/-- **One dissection** is the dissection in the exchange. -/
theorem dissectAndEmit_exchange (hpure : vm.IsPure setting.dissector)
    (htail : config.maxTailBytes = setting.maxTailBytes) (shared : Shared σ)
    (hreads : shared.keylog.Reads hasPath setting.keylog) (conn : Connection)
    (hplays : conn.Plays setting) (isClientToServer : Bool) (plaintext : Bytes)
    (timestamp : Duration) :
    let after := dissectAndEmit vm config conn shared isClientToServer plaintext timestamp
    conn.exchange.dissect setting isClientToServer plaintext =
        (after.1.exchange, after.2.2.stamp 0) ∧
      after.1.state = conn.state ∧ after.2.1.keylog.Reads hasPath setting.keylog := by
  intro after
  obtain ⟨hleft, hkept, -, hmessages⟩ := dissectAndEmit_decodes config hpure shared hreads conn
    isClientToServer plaintext timestamp
  set dissected := (conn.decoder isClientToServer).dissect setting.dissector config.maxTailBytes
    isClientToServer plaintext with hdissected
  obtain ⟨hstate, htail', hmessage, hstamp⟩ := dissect_withoutState (conn.decoder isClientToServer)
    setting.dissector config.maxTailBytes isClientToServer plaintext
  have hconn : after.1 = conn.withDecoder isClientToServer dissected.1 := hleft
  have hemitted : after.2.2 = dissected.2.2.stamp timestamp := (List.cons_eq_cons.mp hmessages).1
  have hstateless : ({ conn.decoder isClientToServer with state := none } : Decoder) =
      ⟨setting.clientEndpoint, setting.serverEndpoint, none,
        conn.exchange.tail isClientToServer⟩ := by
    rw [← hplays.1, ← hplays.2]
    rfl
  rw [hstateless, htail] at htail' hmessage
  -- the message of the exchange is the one of the connection without its timestamp
  have hunstamped : dissected.2.2 = after.2.2.stamp 0 := by
    rw [hemitted]
    change dissected.2.2 = { dissected.2.2 with timestamp := 0 }
    rw [hdissected, ← hstamp]
  have hexchange : after.1.exchange =
      { conn.exchange with
        tail := Function.update conn.exchange.tail isClientToServer dissected.1.tail } := by
    have hkeeps : dissected.1.state = conn.state := hstate
    rw [hconn]
    unfold Connection.exchange Connection.withDecoder
    cases isClientToServer with
    | true =>
        refine congrArg₂ Exchange.mk (congrArg _ hkeeps) (funext fun direction => ?_)
        cases direction <;> rfl
    | false =>
        refine congrArg₂ Exchange.mk (congrArg _ hkeeps) (funext fun direction => ?_)
        cases direction <;> rfl
  refine ⟨?_, ?_, hkept⟩
  · unfold Exchange.dissect
    simp only
    rw [htail', hmessage, hexchange]
    exact Prod.ext (by rw [hdissected, htail]) (by rw [← hunstamped, hdissected, htail])
  · rw [hconn]
    cases isClientToServer <;> exact hstate

/-- What an iteration leaves is what receiving its record leaves. -/
structure RecordStep.Refines (setting : ExchangeSetting) (hasPath : Bool) (step : RecordStep σ)
    (after : Connection × Shared σ × List DecodedMessage) : Prop where
  receives : step.conn.exchange.receive setting none step.record =
    (after.1.exchange, after.2.2.map (DecodedMessage.stamp 0))
  caches : after.1.CachesFrom setting.crypto setting.keylog
  reads : after.2.1.keylog.Reads hasPath setting.keylog

/-- **An attempt** on a record is the attempt on it in the exchange. -/
theorem RecordStep.attempt_refines (step : RecordStep σ)
    (hreads : step.shared.keylog.Reads hasPath setting.keylog)
    (hsteady : step.readings.Steady setting.crypto.hexDecode hasPath setting.keylog)
    (hcaches : step.conn.CachesFrom setting.crypto setting.keylog)
    {state newState : ConnectionState} {keylog : KeylogSource}
    {result : Except ProcessError DecryptedRecord} (hstate : step.conn.state = some state)
    (hdecrypt : attemptDecrypt setting.crypto step.shared.keylog state step.readings
      step.isClientToServer step.contentType step.body = (keylog, newState, result)) :
    keylog.Reads hasPath setting.keylog ∧
      Exchange.attempt setting state.uncached step.record = result ∧
      newState.uncached = state.uncached.after step.isClientToServer result ∧
      newState.CachesFrom setting.crypto (setting.keylog.secretFor newState.clientRandom) := by
  obtain ⟨hkeylog, hresult⟩ := attemptDecrypt_steady setting.crypto hreads hsteady state
    step.isClientToServer step.contentType step.body
  rw [hdecrypt] at hkeylog hresult
  have hdecrypted : state.decrypt setting.crypto setting.keylog step.record.isClientToServer
      step.record.contentType step.record.body = (newState, result) := hresult.symm
  have hexchange := attempt_exchange state step.record (hcaches state hstate)
  rw [hdecrypted] at hexchange
  obtain ⟨hsame, hafter, hcaches'⟩ := hexchange
  exact ⟨hkeylog, hsame.symm, hafter, hcaches'⟩

/-- **One iteration** receives its record. -/
theorem RecordStep.refines_exchange (hpure : vm.IsPure setting.dissector)
    (htail : config.maxTailBytes = setting.maxTailBytes) (step : RecordStep σ)
    (hreads : step.shared.keylog.Reads hasPath setting.keylog)
    (hsteady : step.readings.Steady setting.crypto.hexDecode hasPath setting.keylog)
    (hcaches : step.conn.CachesFrom setting.crypto setting.keylog)
    (hplays : step.conn.Plays setting) :
    step.Refines setting hasPath (step.after setting.crypto vm config) := by
  have hlearn : step.conn.exchange.learn none step.record =
      (learnHello step.conn step.isClientToServer step.body).bind fun learned =>
        learned.state.map ConnectionState.uncached := learnHello_exchange step.conn step.record
  have hstate : ∀ {state}, step.conn.state = state →
      step.conn.exchange.state = state.map ConnectionState.uncached := by
    rintro state rfl
    rfl
  cases step.fate setting.crypto vm config with
  | changeCipherSpec htype _ _ hafter =>
      rw [hafter]
      exact ⟨Exchange.receive_changeCipherSpec htype, hcaches, hreads⟩
  | hello state htype hhello _ _ hafter =>
      rw [hafter]
      rw [hhello] at hlearn
      exact ⟨Exchange.receive_hello htype hlearn, cachesFrom_learnHello hcaches hhello, hreads⟩
  | noClientHello htype hhello hnone _ _ hafter =>
      rw [hafter]
      rw [hhello] at hlearn
      exact ⟨Exchange.receive_unknown htype hlearn (hstate hnone), hcaches, hreads⟩
  | attempted state keylog newState result hsome hattempted hdecrypt hother _ hafter =>
      obtain ⟨htype, hhello⟩ := step.attempt_isSome setting.crypto (by rw [hattempted]; rfl)
      obtain ⟨hkeylog, hresult, huncached, hcaches'⟩ :=
        step.attempt_refines hreads hsteady hcaches hsome hdecrypt
      rw [hhello] at hlearn
      rw [hafter]
      refine ⟨?_, ?_, hkeylog⟩
      · rw [Exchange.receive_attempted htype hlearn (hstate hsome), hresult]
        change Exchange.settle _ _ _ step.isClientToServer _ =
          (Exchange.mk (some newState.uncached) step.conn.tail, _)
        rw [huncached]
        cases result with
        | error _ => rfl
        | ok decrypted => exact if_neg fun hdata => hother ⟨decrypted, rfl, hdata⟩
      · intro known hknown
        cases hknown
        exact hcaches'
  | application state keylog newState decrypted hsome hattempted hdecrypt happlication _ hafter =>
      obtain ⟨htype, hhello⟩ := step.attempt_isSome setting.crypto (by rw [hattempted]; rfl)
      obtain ⟨hkeylog, hresult, huncached, hcaches'⟩ :=
        step.attempt_refines hreads hsteady hcaches hsome hdecrypt
      rw [hhello] at hlearn
      -- the plaintext goes to the dissector with the tail of its direction
      obtain ⟨hdissected, hstate', hkept⟩ := dissectAndEmit_exchange hpure htail
        { step.shared.count (attemptCounters (.ok decrypted)) with keylog } hkeylog
        { step.conn with state := some newState } hplays step.isClientToServer
        decrypted.plaintext step.timestamp
      rw [hafter]
      refine ⟨?_, ?_, hkept⟩
      · rw [Exchange.receive_attempted htype hlearn (hstate hsome), hresult]
        unfold Exchange.settle
        rw [show step.record.isClientToServer = step.isClientToServer from rfl, ← huncached]
        simp only [if_pos happlication]
        exact congrArg (fun dissected => (dissected.1, [dissected.2])) hdissected
      · intro known hknown
        rw [hstate'] at hknown
        cases hknown
        exact hcaches'

/-! ## The records of a frame -/

/-- The reception of an iteration's record. -/
def RecordStep.reception (crypto : Crypto) (vm : LuaVm σ) (config : OrchestratorConfig)
    (step : RecordStep σ) : Exchange.Reception :=
  ⟨step.conn.exchange, step.record,
    (step.after crypto vm config).2.2.map (DecodedMessage.stamp 0)⟩

theorem drainSteps_readings (crypto : Crypto) (vm : LuaVm σ) (config : OrchestratorConfig)
    (isClientToServer : Bool) (timestamp : Duration) (readings : ℕ → KeylogReadings)
    (fuel index : ℕ) (conn : Connection) (shared : Shared σ) :
    ∀ step ∈ drainSteps crypto vm config isClientToServer timestamp readings fuel index conn
      shared, ∃ position, step.readings = readings position := by
  induction fuel generalizing index conn shared with
  | zero => exact fun _ hnone => absurd hnone List.not_mem_nil
  | succ fuel ih =>
      unfold drainSteps
      rcases nextRecord (conn.reassemblerFor isClientToServer) with _ | ⟨⟨contentType, body⟩, rest⟩
      · exact fun _ hnone => absurd hnone List.not_mem_nil
      · simp only [List.forall_mem_cons]
        exact ⟨⟨index, rfl⟩, ih _ _ _⟩

/-- The connection can be received on under the setting. -/
structure Connection.Fits (setting : ExchangeSetting) (conn : Connection) : Prop where
  caches : conn.CachesFrom setting.crypto setting.keylog
  plays : conn.Plays setting

/-- **The records of a frame** are received one after another. -/
theorem Drains.refines_exchange (hpure : vm.IsPure setting.dissector)
    (htail : config.maxTailBytes = setting.maxTailBytes) {isClientToServer : Bool}
    {conn last : Connection} {shared lastShared : Shared σ} {steps : List (RecordStep σ)}
    (h : Drains setting.crypto vm config isClientToServer conn shared steps last lastShared)
    (hreads : shared.keylog.Reads hasPath setting.keylog)
    (hsteady : ∀ step ∈ steps, step.readings.Steady setting.crypto.hexDecode hasPath setting.keylog)
    (hfits : conn.Fits setting) :
    steps.map (RecordStep.reception setting.crypto vm config) =
        conn.exchange.receptions setting none (steps.map RecordStep.record) ∧
      last.exchange = conn.exchange.receiveAll setting none (steps.map RecordStep.record) ∧
      last.Fits setting := by
  -- by induction on the drain; taking a record off changes the streams, not the exchange
  induction h with
  | stop conn shared => exact ⟨rfl, rfl, hfits⟩
  | @take conn shared step steps last lastShared htakes hlater ih =>
      obtain ⟨rest, -, hconn⟩ := htakes.record
      have hexchange : step.conn.exchange = conn.exchange := by
        rw [hconn]
        cases isClientToServer <;> rfl
      have hbefore : step.conn.Fits setting := by
        rw [hconn]
        refine ⟨?_, ?_⟩
        · cases isClientToServer <;> exact hfits.caches
        · cases isClientToServer <;> exact hfits.plays
      obtain ⟨hnow, hrest⟩ := List.forall_mem_cons.mp hsteady
      rw [← htakes.shared] at hreads
      have hstep := step.refines_exchange hpure htail hreads hnow hbefore.caches hbefore.plays
      have hsame := step.sameStreams setting.crypto vm config
      obtain ⟨hreceptions, hlast, hfits'⟩ := ih hstep.reads hrest
        ⟨hstep.caches, hsame.clientEndpoint.trans hbefore.plays.1,
          hsame.serverEndpoint.trans hbefore.plays.2⟩
      have hreceived : conn.exchange.receive setting none step.record =
          ((step.after setting.crypto vm config).1.exchange,
            (step.after setting.crypto vm config).2.2.map (DecodedMessage.stamp 0)) := by
        rw [← hexchange]
        exact hstep.receives
      have hone : step.reception setting.crypto vm config =
          conn.exchange.reception setting none step.record := by
        unfold RecordStep.reception Exchange.reception
        rw [hreceived, hexchange]
      refine ⟨?_, ?_, hfits'⟩
      · calc (step :: steps).map (RecordStep.reception setting.crypto vm config)
            = conn.exchange.reception setting none step.record ::
                (step.after setting.crypto vm config).1.exchange.receptions setting none
                  (steps.map RecordStep.record) := by rw [List.map_cons, hone, hreceptions]
          _ = conn.exchange.receptions setting none ((step :: steps).map RecordStep.record) := by
              rw [List.map_cons, Exchange.receptions_cons, hreceived]
      · rw [hlast, List.map_cons, Exchange.receiveAll, Exchange.receiveAll, Machine.run_cons,
          hreceived]

end Refine

end Tlscap
