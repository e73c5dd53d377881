import Tlscap.Connection.Model
import Tlscap.Lua.Model
import Tlscap.Reassembly.Model
import Tlscap.Library.KeyedMap

/-!
# The orchestrator

One captured frame after another goes through `processFrame`: it finds or makes the
connection of the frame's endpoint pair, feeds the payload to the reassembler of its
direction, drains every complete TLS record, decrypts and dissects it, and evicts the
connection once it is closed.

The loop over the records of a frame works on one connection and on what all connections share
(`Shared`): the keylog reader, the Lua heap and the counters.  So it can be followed without
the table of connections (`handleFrame`), and `store` puts the connection back, or evicts it.

What the source reads from outside is part of a call's input (`FrameInput`):

* **The clock** is read at several places of a call, in the order of `FrameClock`; nothing
  says here that it does not run backwards.
* **The keylog file** and its metadata are read before an attempt at a record, and after one
  that misses a key.  `keylogReadings i` is what the `i`-th record of the call meets.
* **The dissectors** are those of a virtual machine (`LuaVm`), which may do anything with its
  heap.

The loop of `drain_records` runs on fuel.  Every iteration takes at least the five bytes of a
header, so the buffered bytes are enough of it; that the loop does not end for want of fuel
is a theorem about it and not an assumption.
-/

namespace Tlscap

/-! ## Endpoints -/

/-- An IP address, by its value in network order. -/
inductive IpAddr
  | v4 (address : UInt32)
  | v6 (address : BitVec 128)
  deriving DecidableEq, Repr

/-- The position of an address in the order of addresses: every IPv4 address comes
before every IPv6 address. -/
def IpAddr.rank : IpAddr → ℕ
  | .v4 address => address.toNat
  | .v6 address => 2 ^ 32 + address.toNat

/-- An address and a port. -/
structure Endpoint where
  ip : IpAddr
  port : UInt16
  deriving DecidableEq, Repr

/-- The lexicographic order of address and port. -/
def Endpoint.le (a b : Endpoint) : Bool :=
  a.ip.rank < b.ip.rank || (a.ip.rank == b.ip.rank && a.port ≤ b.port)

/-- The identity of a connection: its endpoints in a canonical order. -/
structure ConnKey where
  first : Endpoint
  second : Endpoint
  deriving DecidableEq, Repr

/-- The key of the connection between two endpoints. -/
def connKey (a b : Endpoint) : ConnKey := if a.le b then ⟨a, b⟩ else ⟨b, a⟩

/-! ## Frames -/

/-- The TCP flags that are looked at. -/
structure TcpFlags where
  syn : Bool
  fin : Bool
  rst : Bool
  ack : Bool
  psh : Bool
  deriving DecidableEq, Repr

/-- One captured TCP segment. -/
structure TcpFrame where
  srcIp : IpAddr
  dstIp : IpAddr
  srcPort : UInt16
  dstPort : UInt16
  seq : UInt32
  ackNumber : UInt32
  flags : TcpFlags
  payloadRange : ByteRange
  deriving DecidableEq, Repr

/-- The clock readings of one call, in the order in which they are taken. -/
structure FrameClock where
  activity : Instant
  gapOpened : Instant
  gapChecked : Instant
  sweepChecked : Instant
  sweepStarted : Instant
  sweepNow : Instant
  gcChecked : Instant
  gcStarted : Instant

/-- Everything one call of `process_frame` takes in.  Parsing a frame yields the
range of its payload within the packet, and `keylogReadings i` is what the keylog
operations around the `i`-th record of the call see. -/
structure FrameInput where
  frame : TcpFrame
  packetIndex : ℕ
  packetData : Bytes
  timestamp : Duration
  clock : FrameClock
  keylogReadings : ℕ → KeylogReadings
  payload_valid : frame.payloadRange.start ≤ frame.payloadRange.stop ∧
    frame.payloadRange.stop ≤ packetData.length

namespace FrameInput

/-- The source endpoint. -/
def src (input : FrameInput) : Endpoint := ⟨input.frame.srcIp, input.frame.srcPort⟩

/-- The destination endpoint. -/
def dst (input : FrameInput) : Endpoint := ⟨input.frame.dstIp, input.frame.dstPort⟩

/-- The key of the frame's connection. -/
def key (input : FrameInput) : ConnKey := connKey input.src input.dst

/-- The payload. -/
def payload (input : FrameInput) : Bytes :=
  slice input.packetData input.frame.payloadRange.start
    (input.frame.payloadRange.stop - input.frame.payloadRange.start)

end FrameInput

/-! ## What a call returns -/

/-- One dissected message. -/
structure DecodedMessage where
  srcIp : IpAddr
  dstIp : IpAddr
  srcPort : UInt16
  dstPort : UInt16
  tlsAppData : Bytes
  fields : FrameFields
  timestamp : Duration

/-- The header-level event of one frame. -/
structure PacketEvent where
  srcIp : IpAddr
  dstIp : IpAddr
  srcPort : UInt16
  dstPort : UInt16
  seq : UInt32
  ack : UInt32
  flags : List String
  payloadLen : ℕ
  timestamp : Duration
  deriving DecidableEq, Repr

/-- The set flags in their fixed order. -/
def canonicalFlags (flags : TcpFlags) : List String :=
  (if flags.syn then ["syn"] else []) ++ (if flags.ack then ["ack"] else []) ++
    (if flags.fin then ["fin"] else []) ++ (if flags.rst then ["rst"] else []) ++
    (if flags.psh then ["psh"] else [])

/-- The event of a frame. -/
def packetEvent (input : FrameInput) : PacketEvent where
  srcIp := input.frame.srcIp
  dstIp := input.frame.dstIp
  srcPort := input.frame.srcPort
  dstPort := input.frame.dstPort
  seq := input.frame.seq
  ack := input.frame.ackNumber
  flags := canonicalFlags input.frame.flags
  payloadLen := input.frame.payloadRange.stop - input.frame.payloadRange.start
  timestamp := input.timestamp

/-! ## Connections -/

/-- The lifecycle of a connection. -/
structure ConnectionMeta where
  finSeenC2s : Bool := false
  finSeenS2c : Bool := false
  rstSeen : Bool := false
  lastActivity : Option Instant := none

/-- Both directions have sent FIN, or one has sent RST. -/
def ConnectionMeta.isClosed (info : ConnectionMeta) : Bool :=
  info.rstSeen || (info.finSeenC2s && info.finSeenS2c)

/-- One tracked connection. -/
structure Connection where
  clientEndpoint : Endpoint
  serverEndpoint : Endpoint
  reassemblerC2s : StreamReassembler
  reassemblerS2c : StreamReassembler
  state : Option ConnectionState
  tailC2s : Bytes
  tailS2c : Bytes
  desyncedC2s : Bool
  desyncedS2c : Bool
  info : ConnectionMeta

namespace Connection

/-- A connection nothing was received on. -/
def new (clientEndpoint serverEndpoint : Endpoint) (pendingLimits : PendingLimits) :
    Connection where
  clientEndpoint := clientEndpoint
  serverEndpoint := serverEndpoint
  reassemblerC2s := StreamReassembler.withPendingLimits pendingLimits
  reassemblerS2c := StreamReassembler.withPendingLimits pendingLimits
  state := none
  tailC2s := []
  tailS2c := []
  desyncedC2s := false
  desyncedS2c := false
  info := {}

/-- The reassembler of a direction. -/
def reassemblerFor (conn : Connection) (isClientToServer : Bool) : StreamReassembler :=
  if isClientToServer then conn.reassemblerC2s else conn.reassemblerS2c

/-- Replaces the reassembler of a direction. -/
def setReassembler (conn : Connection) (isClientToServer : Bool) (r : StreamReassembler) :
    Connection :=
  if isClientToServer then { conn with reassemblerC2s := r }
  else { conn with reassemblerS2c := r }

/-- Whether a direction has lost bytes. -/
def isDesynced (conn : Connection) (isClientToServer : Bool) : Bool :=
  if isClientToServer then conn.desyncedC2s else conn.desyncedS2c

/-- Marks a direction as having lost bytes, and drops what it had buffered. -/
def markDesynced (conn : Connection) (isClientToServer : Bool) (pendingLimits : PendingLimits) :
    Connection :=
  if isClientToServer then
    { conn with
      desyncedC2s := true
      reassemblerC2s := StreamReassembler.withPendingLimits pendingLimits }
  else
    { conn with
      desyncedS2c := true
      reassemblerS2c := StreamReassembler.withPendingLimits pendingLimits }

/-- The undissected plaintext of a direction. -/
def tail (conn : Connection) (isClientToServer : Bool) : Bytes :=
  if isClientToServer then conn.tailC2s else conn.tailS2c

/-- Replaces the undissected plaintext of a direction. -/
def setTail (conn : Connection) (isClientToServer : Bool) (bytes : Bytes) : Connection :=
  if isClientToServer then { conn with tailC2s := bytes } else { conn with tailS2c := bytes }

/-- Source and destination of a message in a direction. -/
def endpoints (conn : Connection) (isClientToServer : Bool) : Endpoint × Endpoint :=
  if isClientToServer then (conn.clientEndpoint, conn.serverEndpoint)
  else (conn.serverEndpoint, conn.clientEndpoint)

end Connection

/-! ## The orchestrator's state -/

/-- The configuration. -/
structure OrchestratorConfig where
  idleTimeout : Option Duration
  sweepInterval : Duration
  maxPendingBytes : ℕ
  maxPendingPackets : ℕ
  maxPendingAge : Duration
  maxTailBytes : ℕ
  luaGcInterval : Duration
  deriving DecidableEq, Repr

/-- The default configuration; a duration is in nanoseconds. -/
def OrchestratorConfig.default : OrchestratorConfig where
  idleTimeout := none
  sweepInterval := 60 * 10 ^ 9
  maxPendingBytes := 4 * 1024 * 1024
  maxPendingPackets := 50
  maxPendingAge := 30 * 10 ^ 9
  maxTailBytes := 1024 * 1024
  luaGcInterval := 5 * 10 ^ 9

/-- The caps on out-of-order data. -/
def OrchestratorConfig.pendingLimits (config : OrchestratorConfig) : PendingLimits :=
  ⟨config.maxPendingBytes, config.maxPendingPackets, config.maxPendingAge⟩

/-- The diagnostic counters. -/
@[ext] structure Counters where
  evictedConnections : ℕ := 0
  gapAbandonedBytes : ℕ := 0
  tailBytesDiscarded : ℕ := 0
  connectionsDesynced : ℕ := 0
  tlsRecordsSeen : ℕ := 0
  tlsRecordsDecrypted : ℕ := 0
  tlsRecordsAuthfailed : ℕ := 0
  tlsRecordsNokey : ℕ := 0
  tlsRecordsNoClientHello : ℕ := 0
  tlsRecordsPlaintextHandshake : ℕ := 0
  deriving DecidableEq, Repr

/-- What all connections share while the records of one are drained. -/
structure Shared (σ : Type) where
  keylog : KeylogSource
  lua : σ
  counters : Counters

/-- The state of the whole program. -/
structure Orchestrator (σ : Type) where
  connections : AList fun _ : ConnKey => Connection
  shared : Shared σ
  config : OrchestratorConfig
  lastSweep : Instant
  lastLuaGc : Instant

/-! ## One record -/

section Record

variable {σ : Type} (crypto : Crypto) (vm : LuaVm σ) (config : OrchestratorConfig)

/-- Sets the undissected plaintext of a direction, dropping its oldest bytes where it
is too long. -/
def setTailCapped (conn : Connection) (counters : Counters) (isClientToServer : Bool)
    (bytes : Bytes) : Connection × Counters :=
  if config.maxTailBytes < bytes.length then
    let discard := bytes.length - config.maxTailBytes
    (conn.setTail isClientToServer (bytes.drop discard),
      { counters with tailBytesDiscarded := counters.tailBytesDiscarded + discard })
  else (conn.setTail isClientToServer bytes, counters)

/-- Dissects a decrypted record after the carried-over plaintext of its direction.
One message is emitted in every case. -/
def dissectAndEmit (conn : Connection) (shared : Shared σ) (isClientToServer : Bool)
    (plaintext : Bytes) (timestamp : Duration) : Connection × Shared σ × DecodedMessage :=
  let buf := conn.tail isClientToServer ++ plaintext
  let conn := conn.setTail isClientToServer []
  let (src, dst) := conn.endpoints isClientToServer
  let message (fields : FrameFields) : DecodedMessage :=
    { srcIp := src.ip, dstIp := dst.ip, srcPort := src.port, dstPort := dst.port
      tlsAppData := plaintext, fields, timestamp }
  -- the port looked up is the server's in both directions
  match vm.dissect shared.lua conn.serverEndpoint.port buf with
  | (lua, .ok (some (dissected, consumed))) =>
      let leftover := buf.drop (min consumed buf.length)
      let (conn, counters) :=
        setTailCapped config conn shared.counters isClientToServer leftover
      (conn, { shared with lua, counters }, message dissected)
  | (lua, .ok none) => (conn, { shared with lua }, message .empty)
  | (lua, .error _) =>
      let (conn, counters) := setTailCapped config conn shared.counters isClientToServer buf
      (conn, { shared with lua, counters }, message .empty)

/-- Learns a random from the record if it is the connection's ClientHello or
ServerHello. -/
def learnHello (conn : Connection) (isClientToServer : Bool) (body : Bytes) :
    Option Connection :=
  if isClientToServer then
    match conn.state, clientRandomFromClientHello body with
    | none, some clientRandom => some { conn with state := some (.new clientRandom) }
    | _, _ => none
  else
    match Tls12.serverRandomFromServerHello body, conn.state with
    | some serverRandom, some state =>
        match state.setServerRandom serverRandom with
        | (state, true) => some { conn with state := some state }
        | (_, false) => none
    | _, _ => none

/-- One decrypt attempt: the keylog is polled before, and after a miss. -/
def attemptDecrypt (keylog : KeylogSource) (state : ConnectionState) (readings : KeylogReadings)
    (isClientToServer : Bool) (outerContentType : UInt8) (body : Bytes) :
    KeylogSource × ConnectionState × Except ProcessError DecryptedRecord :=
  let keylog := keylog.poll crypto.hexDecode readings.pollClock readings.pollReload
  match state.decrypt crypto keylog.current isClientToServer outerContentType body with
  | (state, .error .noKey) =>
      (keylog.pollAfterMiss crypto.hexDecode readings.missSignature readings.missReload, state,
        .error .noKey)
  | (state, result) => (keylog, state, result)

/-- The body of the loop of `drain_records`, once a record has been taken off the
stream. -/
def processRecord (conn : Connection) (shared : Shared σ) (isClientToServer : Bool)
    (outerContentType : UInt8) (body : Bytes) (timestamp : Duration)
    (readings : KeylogReadings) : Connection × Shared σ × List DecodedMessage :=
  let counters := { shared.counters with tlsRecordsSeen := shared.counters.tlsRecordsSeen + 1 }
  let plaintextHandshake : Shared σ :=
    { shared with
      counters :=
        { counters with
          tlsRecordsPlaintextHandshake := counters.tlsRecordsPlaintextHandshake + 1 } }
  -- a ChangeCipherSpec is never encrypted
  if outerContentType = 0x14 then (conn, plaintextHandshake, [])
  else
    match learnHello conn isClientToServer body with
    | some conn => (conn, plaintextHandshake, [])
    | none =>
        match conn.state with
        | none =>
            (conn,
              { shared with
                counters :=
                  { counters with
                    tlsRecordsNoClientHello := counters.tlsRecordsNoClientHello + 1 } },
              [])
        | some state =>
            let (keylog, state, result) :=
              attemptDecrypt crypto shared.keylog state readings isClientToServer
                outerContentType body
            let conn := { conn with state := some state }
            match result with
            | .ok decrypted =>
                let shared : Shared σ :=
                  { shared with
                    keylog
                    counters :=
                      { counters with tlsRecordsDecrypted := counters.tlsRecordsDecrypted + 1 } }
                if decrypted.contentType = 0x17 then
                  let (conn, shared, message) :=
                    dissectAndEmit vm config conn shared isClientToServer decrypted.plaintext
                      timestamp
                  (conn, shared, [message])
                else (conn, shared, [])
            | .error .noKey =>
                (conn,
                  { shared with
                    keylog
                    counters :=
                      { counters with tlsRecordsNokey := counters.tlsRecordsNokey + 1 } }, [])
            | .error .authFailed =>
                (conn,
                  { shared with
                    keylog
                    counters :=
                      { counters with tlsRecordsAuthfailed := counters.tlsRecordsAuthfailed + 1 } },
                  [])

/-! ## One frame -/

/-- The length of the first record by its header, with the header. -/
def recordLength (header : Bytes) : ℕ :=
  5 + u16FromBeBytes (header.getD 3 0) (header.getD 4 0)

/-- One iteration of `drain_records`; `none` where the loop ends. -/
def drainStep (conn : Connection) (shared : Shared σ) (isClientToServer : Bool)
    (timestamp : Duration) (readings : KeylogReadings) :
    Option (Connection × Shared σ × List DecodedMessage) :=
  let reassembler := conn.reassemblerFor isClientToServer
  if reassembler.contiguousLen < 5 then none
  else
    let header := reassembler.peek 5
    let totalLen := recordLength header
    if reassembler.contiguousLen < totalLen then none
    else
      match reassembler.takeBytes totalLen with
      | none => none
      | some ((record, _), reassembler) =>
          some (processRecord crypto vm config (conn.setReassembler isClientToServer reassembler)
            shared isClientToServer (header.getD 0 0) (record.drop 5) timestamp readings)

/-- The loop of `drain_records`, from the `index`-th record of the call on.  Every
iteration takes at least five bytes, so the buffered bytes bound its length. -/
def drainLoop (isClientToServer : Bool) (timestamp : Duration)
    (readings : ℕ → KeylogReadings) :
    ℕ → ℕ → Connection → Shared σ → Connection × Shared σ × List DecodedMessage
  | 0, _, conn, shared => (conn, shared, [])
  | fuel + 1, index, conn, shared =>
      match drainStep crypto vm config conn shared isClientToServer timestamp
          (readings index) with
      | none => (conn, shared, [])
      | some (conn, shared, messages) =>
          let (conn, shared, later) :=
            drainLoop isClientToServer timestamp readings fuel (index + 1) conn shared
          (conn, shared, messages ++ later)

/-- Drains every complete record of a direction. -/
def drainRecords (conn : Connection) (shared : Shared σ) (isClientToServer : Bool)
    (timestamp : Duration) (readings : ℕ → KeylogReadings) :
    Connection × Shared σ × List DecodedMessage :=
  drainLoop crypto vm config isClientToServer timestamp readings
    (conn.reassemblerFor isClientToServer).contiguousLen 0 conn shared

/-- The connection a frame belongs to: the tracked one, or a new one. -/
def openConnection (found : Option Connection) (input : FrameInput) : Connection :=
  match found with
  | some conn => conn
  | none =>
      let conn := Connection.new input.src input.dst config.pendingLimits
      -- a SYN without ACK makes its sender the client, which it is already
      if input.frame.flags.syn && !input.frame.flags.ack then
        { conn with clientEndpoint := input.src, serverEndpoint := input.dst }
      else conn

/-- Records the flags of a frame: a SYN anchors its direction, FIN and RST are
remembered. -/
def noteFlags (conn : Connection) (isClientToServer : Bool) (input : FrameInput) : Connection :=
  let conn :=
    if input.frame.flags.syn then
      conn.setReassembler isClientToServer
        ((conn.reassemblerFor isClientToServer).setIsn (input.frame.seq + 1))
    else conn
  let info := conn.info
  let info :=
    if input.frame.flags.fin then
      if isClientToServer then { info with finSeenC2s := true }
      else { info with finSeenS2c := true }
    else info
  let info := if input.frame.flags.rst then { info with rstSeen := true } else info
  { conn with info := { info with lastActivity := some input.clock.activity } }

/-- Feeds the payload of a frame to the reassembler of its direction, unless that
direction has lost bytes. -/
def receivePayload (conn : Connection) (counters : Counters) (isClientToServer : Bool)
    (input : FrameInput) : Connection × Counters :=
  if !input.payload.isEmpty && !conn.isDesynced isClientToServer then
    match (conn.reassemblerFor isClientToServer).push input.packetIndex input.frame.seq
        input.frame.payloadRange input.payload input.clock.gapOpened input.clock.gapChecked with
    | (.gapAbandoned bytes, _) =>
        (conn.markDesynced isClientToServer config.pendingLimits,
          { counters with
            gapAbandonedBytes := counters.gapAbandonedBytes + bytes
            connectionsDesynced := counters.connectionsDesynced + 1 })
    | (_, reassembler) => (conn.setReassembler isClientToServer reassembler, counters)
  else (conn, counters)

/-- What a frame does to its connection, up to eviction. -/
def handleFrame (found : Option Connection) (shared : Shared σ) (input : FrameInput) :
    Connection × Shared σ × List DecodedMessage :=
  let conn := openConnection config found input
  let isClientToServer := decide (input.src = conn.clientEndpoint)
  let conn := noteFlags conn isClientToServer input
  let (conn, counters) := receivePayload config conn shared.counters isClientToServer input
  drainRecords crypto vm config conn { shared with counters } isClientToServer input.timestamp
    input.keylogReadings

end Record

/-! ## The orchestrator's operations -/

namespace Orchestrator

variable {σ : Type}

/-- The orchestrator before the first frame. -/
def new (keylog : KeylogSource) (lua : σ) (config : OrchestratorConfig)
    (sweepNow gcNow : Instant) : Orchestrator σ where
  connections := ∅
  shared := ⟨keylog, lua, {}⟩
  config := config
  lastSweep := sweepNow
  lastLuaGc := gcNow

/-- The number of tracked connections. -/
def activeConnections (orchestrator : Orchestrator σ) : ℕ :=
  orchestrator.connections.entries.length

/-- The bytes held by the reassemblers of one connection. -/
def connectionBytes (conn : Connection) : ℕ :=
  conn.reassemblerC2s.contiguousLen + conn.reassemblerC2s.pendingLen +
    conn.reassemblerS2c.contiguousLen + conn.reassemblerS2c.pendingLen

/-- The bytes held by all reassemblers. -/
def bufferedBytes (orchestrator : Orchestrator σ) : ℕ :=
  (orchestrator.connections.entries.map fun entry => connectionBytes entry.2).sum

/-- Drops the connections without recent activity, where that is configured. -/
def maybeSweepIdle (orchestrator : Orchestrator σ) (clock : FrameClock) : Orchestrator σ :=
  match orchestrator.config.idleTimeout with
  | none => orchestrator
  | some idleTimeout =>
      if elapsed orchestrator.lastSweep clock.sweepChecked < orchestrator.config.sweepInterval then
        orchestrator
      else
        let connections := orchestrator.connections.retain fun _ conn =>
          match conn.info.lastActivity with
          | some t => decide (clock.sweepNow - t < idleTimeout)
          | none => true
        let evicted := orchestrator.connections.entries.length - connections.entries.length
        let counters := orchestrator.shared.counters
        { orchestrator with
          connections
          lastSweep := clock.sweepStarted
          shared :=
            { orchestrator.shared with
              counters :=
                { counters with evictedConnections := counters.evictedConnections + evicted } } }

/-- Forces a Lua garbage collection once the interval has elapsed. -/
def maybeGcLua (vm : LuaVm σ) (orchestrator : Orchestrator σ) (clock : FrameClock) :
    Orchestrator σ :=
  if elapsed orchestrator.lastLuaGc clock.gcChecked < orchestrator.config.luaGcInterval then
    orchestrator
  else
    { orchestrator with
      lastLuaGc := clock.gcStarted
      shared := { orchestrator.shared with lua := vm.gcCollect orchestrator.shared.lua } }

/-- The orchestrator once the frame's connection has been handled: the connection is
stored, or evicted if it is closed. -/
def store (orchestrator : Orchestrator σ) (key : ConnKey) (conn : Connection)
    (shared : Shared σ) : Orchestrator σ :=
  if conn.info.isClosed then
    let counters := shared.counters
    { orchestrator with
      connections := orchestrator.connections.erase key
      shared :=
        { shared with
          counters :=
            { counters with evictedConnections := counters.evictedConnections + 1 } } }
  else
    { orchestrator with connections := orchestrator.connections.insert key conn, shared }

/-- Processes one captured frame: its event, and the messages it completed. -/
def processFrame (crypto : Crypto) (vm : LuaVm σ) (orchestrator : Orchestrator σ)
    (input : FrameInput) : Orchestrator σ × PacketEvent × List DecodedMessage :=
  let (conn, shared, messages) :=
    handleFrame crypto vm orchestrator.config (orchestrator.connections.lookup input.key)
      orchestrator.shared input
  let orchestrator := orchestrator.store input.key conn shared
  let orchestrator := orchestrator.maybeSweepIdle input.clock
  (orchestrator.maybeGcLua vm input.clock, packetEvent input, messages)

end Orchestrator

end Tlscap
