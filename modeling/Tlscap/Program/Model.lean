import Tlscap.Output.Model
import Tlscap.Pcap.Source
import Tlscap.Program.Plugins

/-!
# The program

The command line, the loop over the packets of a capture and the two outputs: the decoded
messages, and the packet log if there is to be one.  What the program reads of the world is
part of its input (`Surroundings`): the keylog file and the plugin directories at the start,
the capture, and for each packet the readings of the clock and of the keylog file.

* **How it ends** is `Outcome`: the options are refused, something cannot be opened, the loop
  reaches a branch that the source calls unreachable, or the capture has been handled.
* **What it writes** goes to `World`, the disk and the standard output.

Writing does not fail, and a call of a plugin returns.  In the source an output that cannot be
created or written, and a panic within a plugin's call, end the program; both are outside of
the model.
-/

namespace Tlscap

/-! ## Paths -/

/-- What of a path comes before its components: the root, or a leading dot. -/
def pathLead (path : Text) : Text :=
  if path.head? = some '/' then ['/']
  else if path = ['.'] ∨ "./".toList <+: path then ['.']
  else []

/-- The last piece of a path, and what is in front of its separator. -/
def splitLast (body : Text) : Text × Text :=
  ((body.rdropWhile (· ≠ '/')).dropLast, body.rtakeWhile (· ≠ '/'))

/-- Removes separators and dots from the end of a path. -/
def trimPath : ℕ → Text → Text
  | 0, body => body
  | fuel + 1, body =>
      let (front, last) := splitLast body
      if body.isEmpty then []
      else if last = [] ∨ last = ['.'] then trimPath fuel front
      else body

/-- The prefix of a path, by `file_name` and `parent`. -/
def PathPrefix.ofText (path : Text) : PathPrefix :=
  let lead := pathLead path
  let body := trimPath path.length (path.drop lead.length)
  let (front, last) := splitLast body
  if body.isEmpty then ⟨none, if lead = ['.'] then some [] else none⟩
  else ⟨if last = "..".toList then none else some last, some (lead ++ trimPath path.length front)⟩

/-! ## The command line -/

/-- The options, as far as the program reads them. -/
structure Cli where
  keylog : Option Text
  keylogReloadInterval : ℕ
  pluginDirs : List Text
  luaScripts : List Text
  fields : List Text
  format : Text
  ekIndexPrefix : Text
  output : Text
  packetLog : Option Text
  ndjsonExplode : Option Text
  ndjsonMap : List Text
  rotateCount : Option ℕ
  rotateSeconds : Option ℕ
  compress : Option Text
  compressLevel : ℕ
  idleTimeoutSeconds : ℕ
  maxPendingBytes : ℕ
  maxPendingPackets : ℕ
  maxPendingAgeSeconds : ℕ
  maxTailBytes : ℕ
  luaGcIntervalSeconds : ℕ
  deriving DecidableEq, Repr

/-- `Duration::from_secs` -/
def Duration.fromSecs (secs : ℕ) : Duration := secs * 10 ^ 9

namespace Cli

variable (cli : Cli)

/-- Why `main` refuses the options, if it does. -/
def refusal : Option Text :=
  if cli.rotateCount.isSome ∧ cli.rotateSeconds.isSome then
    some "tlscap: --rotate-count and --rotate-seconds are mutually exclusive".toList
  else if cli.format ≠ "ek".toList ∧ cli.format ≠ "ndjson".toList then
    some ("tlscap: -T must be 'ek' or 'ndjson' (got: ".toList ++ cli.format ++ [')'])
  else if cli.packetLog.isSome ∧ cli.format ≠ "ndjson".toList then
    some ("tlscap: --packet-log requires -T ndjson ".toList ++
      "(packet events have no -T ek representation)".toList)
  else if cli.ndjsonExplode.isSome ∧ cli.format ≠ "ndjson".toList then
    some "tlscap: --ndjson-explode requires -T ndjson".toList
  else if cli.ndjsonMap ≠ [] ∧ cli.format ≠ "ndjson".toList then
    some "tlscap: --ndjson-map requires -T ndjson".toList
  else
    match cli.compress with
    | some c =>
        if c ≠ "gzip".toList then
          some ("tlscap: --compress only supports 'gzip' (got: ".toList ++ c ++ [')'])
        else none
    | none => none

/-- The configuration of the orchestrator. -/
def config : OrchestratorConfig where
  idleTimeout :=
    if cli.idleTimeoutSeconds = 0 then none else some (Duration.fromSecs cli.idleTimeoutSeconds)
  sweepInterval := Duration.fromSecs 60
  maxPendingBytes := cli.maxPendingBytes
  maxPendingPackets := cli.maxPendingPackets
  maxPendingAge := Duration.fromSecs cli.maxPendingAgeSeconds
  maxTailBytes := cli.maxTailBytes
  luaGcInterval := Duration.fromSecs cli.luaGcIntervalSeconds

/-- When the outputs rotate; `none` where the source has ruled the options out. -/
def rotateBy : Option RotateBy :=
  match cli.rotateCount, cli.rotateSeconds with
  | some n, none => some (.count n)
  | none, some s => some (.seconds (Duration.fromSecs s))
  | none, none => some .never
  | some _, some _ => none

end Cli

/-! ## The outputs -/

/-- The bytes of a text, in UTF-8. -/
def utf8 (text : Text) : Bytes := text.flatMap String.utf8EncodeChar

/-- What the outputs write to. -/
structure World where
  disk : Disk
  stdout : Bytes

/-- `Output`: the standard output or a writer of chunks. -/
inductive Output (gzip : Gzip)
  | stdout
  | rotating (writer : RotatingGzWriter gzip)

namespace Output

variable {gzip : Gzip}

/-- A prefix of one dash stands for the standard output. -/
def new (pathPrefix : Text) (rotateBy : RotateBy) (compression : gzip.Compression) :
    Output gzip :=
  if pathPrefix = ['-'] then stdout
  else rotating (.withCompression (.ofText pathPrefix) rotateBy compression)

/-- One message, where the output takes it. -/
def write (output : Output gzip) (world : World) (data : Bytes) (readings : WriteReadings) :
    Output gzip × World :=
  match output with
  | stdout => (stdout, { world with stdout := world.stdout ++ data })
  | rotating writer =>
      let (writer, disk) := writer.writeMessage world.disk data readings
      (rotating writer, { world with disk })

/-- The last chunk is closed; the standard output has none. -/
def finish (output : Output gzip) (world : World) : Output gzip × World :=
  match output with
  | stdout => (stdout, world)
  | rotating writer =>
      let (writer, disk) := writer.finishCurrent world.disk
      (rotating writer, { world with disk })

end Output

/-- The writer of the selected format. -/
inductive MessageWriter
  | ek (writer : EkWriter)
  | ndjson (writer : NdjsonWriter)

namespace MessageWriter

/-- The writer for the format and the selection of the options. -/
def ofCli (cli : Cli) : MessageWriter :=
  if cli.format = "ndjson".toList then
    ndjson (.new cli.fields cli.ndjsonExplode cli.ndjsonMap)
  else ek ⟨cli.fields, cli.ekIndexPrefix⟩

/-- A message in the shape of the selected format. -/
def writeTlsRecord (hexEncode : Bytes → Text) (writer : MessageWriter) (buf : Text)
    (msg : DecodedMessage) : Text :=
  match writer with
  | ek w => (w.writeMessage hexEncode buf msg).1
  | ndjson w => (w.writeTlsRecord hexEncode buf msg).1

/-- `none` where the source panics: a packet event has no Elasticsearch shape. -/
def writePacketEvent (writer : MessageWriter) (buf : Text) (evt : PacketEvent) : Option Text :=
  match writer with
  | ek _ => none
  | ndjson w => some (w.writePacketEvent buf evt).1

end MessageWriter

/-! ## The loop -/

/-- What the handling of one packet reads: the clock and the keylog file in
`process_frame`, and the clock for each line that is written. -/
structure PacketReadings where
  clock : FrameClock
  keylogReadings : ℕ → KeylogReadings
  eventWrite : WriteReadings
  messageWrites : ℕ → WriteReadings

/-- The state of the loop. -/
structure Program (σ : Type) (gzip : Gzip) where
  orchestrator : Orchestrator σ
  writer : MessageWriter
  output : Output gzip
  packetOutput : Option (Output gzip)
  world : World
  packetIndex : ℕ
  messagesWritten : ℕ
  packetEventsWritten : ℕ

namespace Program

variable {σ : Type} {gzip : Gzip}

/-- Writes the line of a packet event, if there is a packet log. -/
def writeEvent (program : Program σ gzip) (event : PacketEvent) (readings : WriteReadings) :
    Option (Program σ gzip) :=
  match program.packetOutput with
  | none => some program
  | some packetOutput =>
      match program.writer.writePacketEvent [] event with
      | none => none
      | some line =>
          let (packetOutput, world) := packetOutput.write program.world (utf8 line) readings
          some { program with
            packetOutput := some packetOutput
            world
            packetEventsWritten := program.packetEventsWritten + 1 }

/-- Writes the lines of a message. -/
def writeMessage (hexEncode : Bytes → Text) (program : Program σ gzip) (msg : DecodedMessage)
    (readings : WriteReadings) : Program σ gzip :=
  let lines := program.writer.writeTlsRecord hexEncode [] msg
  let (output, world) := program.output.write program.world (utf8 lines) readings
  { program with output, world, messagesWritten := program.messagesWritten + 1 }

/-- Writes the messages of a frame, the `index`-th and those behind it. -/
def writeMessages (hexEncode : Bytes → Text) (readings : ℕ → WriteReadings) :
    ℕ → Program σ gzip → List DecodedMessage → Program σ gzip
  | _, program, [] => program
  | index, program, msg :: rest =>
      writeMessages hexEncode readings (index + 1)
        (program.writeMessage hexEncode msg (readings index)) rest

section Loop

variable (crypto : Crypto) (vm : LuaVm σ) (etherparse : Etherparse) (hexEncode : Bytes → Text)

/-- The input of `process_frame` for a packet, unless it is no TCP segment. -/
def frameInput? (packet : RawPacket × DataLink) (readings : PacketReadings) :
    Option FrameInput :=
  match h : parseTcpFrame etherparse packet.2 packet.1.data with
  | .error _ => none
  | .ok frame =>
      some {
        frame
        packetIndex := packet.1.index
        packetData := packet.1.data
        timestamp := packet.1.timestamp
        clock := readings.clock
        keylogReadings := readings.keylogReadings
        payload_valid := parseTcpFrame_valid h }

/-- Handles one packet; `none` where the source panics. -/
def handlePacket (program : Program σ gzip) (packet : RawPacket × DataLink)
    (readings : PacketReadings) : Option (Program σ gzip) :=
  let program := { program with packetIndex := program.packetIndex + 1 }
  match frameInput? etherparse packet readings with
  | none => some program
  | some input =>
      let (orchestrator, event, messages) := program.orchestrator.processFrame crypto vm input
      match { program with orchestrator }.writeEvent event readings.eventWrite with
      | none => none
      | some program => some (program.writeMessages hexEncode readings.messageWrites 0 messages)

/-- Handles the packets of the capture, up to its end or the first error. -/
def loop (readings : ℕ → PacketReadings) :
    ℕ → Program σ gzip → PcapSource → Option (Program σ gzip)
  | 0, program, _ => some program
  | fuel + 1, program, source =>
      match source.nextPacket program.packetIndex with
      | (some (.ok packet), source) =>
          match program.handlePacket crypto vm etherparse hexEncode packet
              (readings program.packetIndex) with
          | none => none
          | some program => loop readings fuel program source
      | (some (.error _), _) | (none, _) => some program

/-- Finishes the outputs. -/
def finish (program : Program σ gzip) : Program σ gzip :=
  let (output, world) := program.output.finish program.world
  match program.packetOutput with
  | none => { program with output, world }
  | some packetOutput =>
      let (packetOutput, world) := packetOutput.finish world
      { program with output, packetOutput := some packetOutput, world }

end Loop

end Program

/-! ## The whole program -/

/-- What the program finds when it starts. -/
structure Surroundings (σ : Type) (gzip : Gzip) where
  keylogContents : Except ReadError Text
  keylogSignature : Signature
  keylogOpened : Instant
  loader : LuaLoader σ
  listing : Text → Listing
  newCompression : ℕ → gzip.Compression
  files : AList fun _ : Text => Bytes
  sweepNow : Instant
  gcNow : Instant
  crate : PcapFile
  stdin : ByteStream
  readings : ℕ → PacketReadings

/-- How the program ends. -/
inductive Outcome (σ : Type) (gzip : Gzip)
  | refused (message : Text)
  | fatal
  | panicked
  | finished (program : Program σ gzip)

namespace Surroundings

variable {σ : Type} {gzip : Gzip} (env : Surroundings σ gzip)

/-- The keylog: the file's, or an empty one without a file. -/
def openKeylog (hexDecode : Text → Option Bytes) (cli : Cli) : Except ReadError KeylogSource :=
  match cli.keylog with
  | some _ =>
      KeylogSource.openPath hexDecode env.keylogContents env.keylogSignature
        (Duration.fromSecs cli.keylogReloadInterval) env.keylogOpened
  | none => .ok (.fromParsed (Keylog.parse hexDecode []) env.keylogOpened)

/-- The virtual machine with all plugins loaded; `none` where one of them fails. -/
def loadPlugins (cli : Cli) : Option σ :=
  match env.loader.new with
  | .error _ => none
  | .ok heap =>
      let dirs := cli.pluginDirs.map fun dir => (dir, env.listing dir)
      match loadDirectories env.loader heap dirs with
      | .error _ => none
      | .ok (heap, _) => (loadScripts env.loader heap cli.luaScripts).toOption

/-- The state before the first packet. -/
def start (cli : Cli) (keylog : KeylogSource) (lua : σ) (rotateBy : RotateBy) :
    Program σ gzip where
  orchestrator := .new keylog lua cli.config env.sweepNow env.gcNow
  writer := .ofCli cli
  output := .new cli.output rotateBy (env.newCompression cli.compressLevel)
  packetOutput := cli.packetLog.map fun pathPrefix =>
    .new pathPrefix rotateBy (env.newCompression cli.compressLevel)
  world := ⟨⟨env.files, []⟩, []⟩
  packetIndex := 0
  messagesWritten := 0
  packetEventsWritten := 0

/-- `run`: opens the keylog, loads the plugins, opens the capture and handles its packets. -/
def run (crypto : Crypto) (vm : LuaVm σ) (etherparse : Etherparse) (hexEncode : Bytes → Text)
    (cli : Cli) : Outcome σ gzip :=
  match env.openKeylog crypto.hexDecode cli, env.loadPlugins cli with
  | .error _, _ | .ok _, none => .fatal
  | .ok keylog, some lua =>
      match cli.rotateBy with
      | none => .panicked
      | some rotateBy =>
          match openSource env.crate env.stdin with
          | .error _ => .fatal
          | .ok source =>
              match (env.start cli keylog lua rotateBy).loop crypto vm etherparse hexEncode
                  env.readings source.remaining source with
              | none => .panicked
              | some program => .finished program.finish

/-- `main`: refuses options that do not go together, and runs. -/
def main (crypto : Crypto) (vm : LuaVm σ) (etherparse : Etherparse) (hexEncode : Bytes → Text)
    (cli : Cli) : Outcome σ gzip :=
  match cli.refusal with
  | some message => .refused message
  | none => env.run crypto vm etherparse hexEncode cli

end Surroundings

end Tlscap
