import Tlscap.Orchestrator.Keyless
import Tlscap.Program.Run

/-!
# The packet log

The packet log has one line for each TCP segment of the capture, in the order of the capture.
A line is fixed by its segment and the selected groups: it does not matter what is decrypted,
which plugins there are and how much is buffered (`Surroundings.packet_log_unaffected`).
Without a keylog the packet log is all there is (`Surroundings.nothing_decrypts`).

* **What is logged.**  Of the lines of a run, those for the packet log are the lines of the
  events (`Program.messagesOf_lines`), whatever messages come in between; and an event is made
  of its segment alone, by a writer that only looks at the selection
  (`Program.segments_logged`).
* **What is left.**  The files of the packet log are cut greedily from these lines by the
  readings of the clock at the events, so they are the same where these are
  (`Surroundings.packet_log_holds`).
* **Without keys** a run has no lines of messages at all (`Program.lines_keyless`), and chunks
  hold at least one message, so there are none for them.

The files of the two outputs must not have paths that begin alike: the outputs would empty
each other's files.
-/

namespace Tlscap

namespace Program

variable {σ : Type} {gzip : Gzip} {crypto : Crypto} {vm : LuaVm σ} {hexEncode : Bytes → Text}

/-- The line of a segment's event. -/
def eventWritten (writer : MessageWriter) (segment : FrameInput × PacketReadings) : Written :=
  (eventLine writer (packetEvent segment.1) segment.2.eventWrite).2

theorem messagesOf_messageLines (writer : MessageWriter) (readings : ℕ → WriteReadings)
    (index : ℕ) (messages : List DecodedMessage) :
    SharedDisk.messagesOf true (messageLines hexEncode writer readings index messages) = [] := by
  induction messages generalizing index with
  | nil => rfl
  | cons msg rest ih => exact ih (index + 1)

/-- The lines for the packet log are those of the events. -/
theorem messagesOf_lines (writer : MessageWriter) (orchestrator : Orchestrator σ)
    (segments : List (FrameInput × PacketReadings)) :
    SharedDisk.messagesOf true (lines crypto vm hexEncode writer orchestrator segments) =
      segments.map (eventWritten writer) := by
  have happend : ∀ first second : List (Bool × Written),
      SharedDisk.messagesOf true (first ++ second) =
        SharedDisk.messagesOf true first ++ SharedDisk.messagesOf true second := by
    intro first second
    unfold SharedDisk.messagesOf
    rw [List.filter_append, List.map_append]
  induction segments generalizing orchestrator with
  | nil => rfl
  | cons segment rest ih =>
      have hsegment : SharedDisk.messagesOf true
          (segmentLines crypto vm hexEncode writer orchestrator segment) =
            [eventWritten writer segment] :=
        congrArg (List.cons _) (messagesOf_messageLines writer _ 0 _)
      rw [lines, happend, hsegment, ih]
      rfl

theorem countP_isMessage (lines : List (Bool × Written)) :
    lines.countP isMessage = (SharedDisk.messagesOf false lines).length := by
  unfold SharedDisk.messagesOf
  rw [List.length_map, List.countP_eq_length_filter]
  congr 2
  funext line
  unfold isMessage
  cases line.1 <;> rfl

variable (crypto vm hexEncode) in
/-- Without keys there are no lines of messages. -/
theorem lines_keyless (writer : MessageWriter) {orchestrator : Orchestrator σ}
    (hkeyless : orchestrator.shared.keylog.Keyless)
    (segments : List (FrameInput × PacketReadings)) :
    SharedDisk.messagesOf false (lines crypto vm hexEncode writer orchestrator segments) = [] ∧
      (orchestrator.after crypto vm (segments.map Prod.fst)).shared.counters.tlsRecordsDecrypted =
        orchestrator.shared.counters.tlsRecordsDecrypted := by
  induction segments generalizing orchestrator with
  | nil => exact ⟨rfl, rfl⟩
  | cons segment rest ih =>
      obtain ⟨hnext, hmessages, hdecrypted⟩ :=
        orchestrator.processFrame_keyless crypto vm hkeyless segment.1
      obtain ⟨hnone, hlater⟩ := ih hnext
      refine ⟨?_, hlater.trans hdecrypted⟩
      have hsegment : segmentLines crypto vm hexEncode writer orchestrator segment =
          [(true, eventWritten writer segment)] := by
        unfold segmentLines
        dsimp only
        rw [hmessages]
        rfl
      rw [lines, hsegment]
      exact hnone

/-! ## What the packet log depends on -/

/-- Writers that log an event alike. -/
def LogsAlike (writer other : MessageWriter) : Prop :=
  ∀ event, other.writePacketEvent [] event = writer.writePacketEvent [] event

theorem logsAlike_ofCli {cli other : Cli} (hformat : other.format = cli.format)
    (hfields : other.fields = cli.fields) : LogsAlike (.ofCli cli) (.ofCli other) := by
  intro event
  unfold MessageWriter.ofCli
  rw [hformat, hfields]
  split_ifs <;> rfl

/-- The same packets are logged alike. -/
theorem segments_logged (etherparse : Etherparse) {writer otherWriter : MessageWriter}
    (hwriter : LogsAlike writer otherWriter) {readings other : ℕ → PacketReadings}
    (hevents : ∀ index, (other index).eventWrite = (readings index).eventWrite)
    (packets : List (RawPacket × DataLink)) :
    (segments etherparse other packets).map (eventWritten otherWriter) =
      (segments etherparse readings packets).map (eventWritten writer) := by
  unfold segments
  rw [List.map_filterMap, List.map_filterMap]
  refine List.filterMap_congr fun packet _ => ?_
  rw [Option.map_map, Option.map_map]
  unfold frameInput?
  split
  · rfl
  · rw [Option.map_some, Option.map_some]
    refine congrArg some ?_
    unfold Function.comp eventWritten eventLine packetEvent
    dsimp only
    rw [hwriter, hevents]

end Program

namespace Surroundings

variable {σ τ : Type} {gzip : Gzip} {env : Surroundings σ gzip} {crypto : Crypto} {vm : LuaVm σ}
  {etherparse : Etherparse} {hexEncode : Bytes → Text} {cli : Cli} {program : Program σ gzip}

/-- Two surroundings with the same capture, in which events are logged at the same times. -/
structure SameCapture (env : Surroundings σ gzip) (other : Surroundings τ gzip) : Prop where
  crate : other.crate = env.crate
  bytes : other.stdin.bytes = env.stdin.bytes
  fails : other.stdin.fails = env.stdin.fails
  eventWrite : ∀ index, (other.readings index).eventWrite = (env.readings index).eventWrite

/-- Two command lines that ask for the same packet log. -/
structure SameLog (cli other : Cli) : Prop where
  packetLog : other.packetLog = cli.packetLog
  format : other.format = cli.format
  fields : other.fields = cli.fields
  rotateCount : other.rotateCount = cli.rotateCount
  rotateSeconds : other.rotateSeconds = cli.rotateSeconds

theorem SameLog.rotateBy {other : Cli} (h : SameLog cli other) : other.rotateBy = cli.rotateBy := by
  unfold Cli.rotateBy
  rw [h.rotateCount, h.rotateSeconds]

open scoped Classical in
/-- The files of the packet log hold the lines of the segments. -/
theorem packet_log_holds (hapart : cli.OutputsApart)
    (hstamps : ∀ index, Program.Stamped (env.readings index))
    (hmain : env.main crypto vm etherparse hexEncode cli = .finished program) :
    ∃ rotateBy source, cli.rotateBy = some rotateBy ∧
      openSource env.crate env.stdin = .ok source ∧
      let segments :=
        Program.segments etherparse env.readings (PcapSource.numbered 0 source.packets)
      program.packetIndex = source.packets.length ∧
        (program.packetEventsWritten = if cli.packetLog.isSome then segments.length else 0) ∧
        ∀ packetLog, cli.packetLog = some packetLog → packetLog ≠ ['-'] →
          HoldsGreedily gzip (.ofText packetLog) rotateBy program.world.disk
            (program.world.disk.created.filter (PathPrefix.ofText packetLog).Names)
            (segments.map (Program.eventWritten (.ofCli cli))) := by
  obtain ⟨keylog, lua, source, rotateBy, before, -, -, hsource, hran, rfl⟩ :=
    ran_of_finished hmain
  obtain ⟨-, hindex, -, hevents⟩ := hran.counts
  refine ⟨rotateBy, source, hran.rotates, hsource, hindex, hevents,
    fun packetLog hlog hfiles => ?_⟩
  have hholds := (hran.wrote hapart hstamps).files true packetLog hlog hfiles
  rw [Program.messagesOf_lines] at hholds
  exact hholds

open scoped Classical in
/-- **The packet log is unaffected.**  Two runs over the same capture that ask for the same
packet log, with the same fields and the same rotation, leave the same packet log, chunk by
chunk, whatever keylog, plugins, limits and message output the one and the other have. -/
theorem packet_log_unaffected {other : Surroundings τ gzip} {otherCrypto : Crypto}
    {otherVm : LuaVm τ} {otherHexEncode : Bytes → Text} {otherCli : Cli}
    (hcapture : SameCapture env other) (hlog : SameLog cli otherCli)
    (hapart : cli.OutputsApart) (hotherApart : otherCli.OutputsApart)
    (hstamps : ∀ index, Program.Stamped (env.readings index))
    (hotherStamps : ∀ index, Program.Stamped (other.readings index))
    (hmain : env.main crypto vm etherparse hexEncode cli = .finished program)
    {otherProgram : Program τ gzip}
    (hother : other.main otherCrypto otherVm etherparse otherHexEncode otherCli =
      .finished otherProgram) :
    otherProgram.packetIndex = program.packetIndex ∧
      otherProgram.packetEventsWritten = program.packetEventsWritten ∧
      ∀ packetLog, cli.packetLog = some packetLog → packetLog ≠ ['-'] →
        let chunks := fun world : World =>
          (world.disk.created.filter (PathPrefix.ofText packetLog).Names).map
            (world.disk.decoded gzip)
        chunks otherProgram.world = chunks program.world := by
  obtain ⟨rotateBy, source, hrotates, hsource, hindex, hevents, hholds⟩ :=
    packet_log_holds hapart hstamps hmain
  obtain ⟨otherRotateBy, otherSource, hotherRotates, hotherSource, hotherIndex, hotherEvents,
    hotherHolds⟩ := packet_log_holds hotherApart hotherStamps hother
  obtain rfl : otherRotateBy = rotateBy :=
    Option.some.inj (hotherRotates.symm.trans (hlog.rotateBy.trans hrotates))
  obtain rfl : otherSource = source := by
    rw [hcapture.crate, openSource_congr env.crate hcapture.bytes hcapture.fails,
      hsource] at hotherSource
    exact (Except.ok.inj hotherSource).symm
  -- the same packets give the same events, numbered alike, whatever else the runs do
  have hlogged := Program.segments_logged etherparse
    (Program.logsAlike_ofCli hlog.format hlog.fields) hcapture.eventWrite
    (PcapSource.numbered 0 otherSource.packets)
  have hlength := congrArg List.length hlogged
  rw [List.length_map, List.length_map] at hlength
  refine ⟨hotherIndex.trans hindex.symm, ?_, fun packetLog hasked hfiles => ?_⟩
  · rw [hotherEvents, hevents, hlog.packetLog, hlength]
  · have hheld := hotherHolds packetLog (hlog.packetLog.trans hasked) hfiles
    rw [hlogged] at hheld
    exact hheld.decoded.trans (hholds packetLog hasked hfiles).decoded.symm

end Surroundings

namespace SmallRun

open Capture

/-- Without a keylog: messages go to the standard output, and little is buffered. -/
def keylessCli : Cli :=
  { cli with
    keylog := none
    output := ['-']
    maxPendingPackets := 1
    maxTailBytes := 0 }

theorem finished_keyless : ∃ program,
    env.main RecordedSession.recording.crypto plainVm etherparse FieldValue.hexEncode keylessCli =
      .finished program ∧ program.messagesWritten = 0 := by
  obtain ⟨program, hmain, hmessages⟩ := finished_of_opened
    (show keylessCli.refusal = none by decide +kernel)
    (show env.openKeylog Recording.hexDecode keylessCli = .ok _ from rfl) rfl
  exact ⟨program, hmain, hmessages.trans (by decide +kernel)⟩

/-- With the keylog, by which one message is decrypted, and without it. -/
theorem packet_log_unaffected_small : ∃ program other,
    env.main RecordedSession.recording.crypto plainVm etherparse FieldValue.hexEncode cli =
        .finished program ∧ program.messagesWritten = 1 ∧
      env.main RecordedSession.recording.crypto plainVm etherparse FieldValue.hexEncode
          keylessCli = .finished other ∧ other.messagesWritten = 0 ∧
      other.packetEventsWritten = program.packetEventsWritten := by
  obtain ⟨program, hmain, hone⟩ := finished_env
  obtain ⟨other, hother, hnone⟩ := finished_keyless
  have hcapture : Surroundings.SameCapture env env := ⟨rfl, rfl, rfl, fun _ => rfl⟩
  have hlog : Surroundings.SameLog cli keylessCli := ⟨rfl, rfl, rfl, rfl, rfl⟩
  have hapart : keylessCli.OutputsApart := fun _ _ _ hfiles => absurd rfl hfiles
  obtain ⟨-, hevents, -⟩ := Surroundings.packet_log_unaffected hcapture hlog apart_cli hapart
    stamped_env stamped_env hmain hother
  exact ⟨program, other, hmain, hone, hother, hnone, hevents⟩

end SmallRun

namespace Surroundings

variable {σ : Type} {gzip : Gzip} {env : Surroundings σ gzip} {crypto : Crypto} {vm : LuaVm σ}
  {etherparse : Etherparse} {hexEncode : Bytes → Text} {cli : Cli} {program : Program σ gzip}

/-- **Nothing decrypts without a keylog.**  A run without `--keylog` writes no message,
whatever the capture, the plugins and the other options are.  Where the outputs are apart, it
creates no file for messages either. -/
theorem nothing_decrypts (hkeylog : cli.keylog = none)
    (hmain : env.main crypto vm etherparse hexEncode cli = .finished program) :
    program.messagesWritten = 0 ∧
      program.orchestrator.shared.counters.tlsRecordsDecrypted = 0 ∧
      (cli.OutputsApart → (∀ index, Program.Stamped (env.readings index)) → cli.output ≠ ['-'] →
        ∀ path ∈ program.world.disk.created, ¬ (PathPrefix.ofText cli.output).Names path) := by
  obtain ⟨keylog, lua, source, rotateBy, before, hopened, -, -, hran, rfl⟩ :=
    ran_of_finished hmain
  -- a keylog without a file is empty, and is never reloaded
  have hkeyless : keylog.Keyless := by
    unfold openKeylog at hopened
    rw [hkeylog] at hopened
    obtain rfl := Except.ok.inj hopened
    exact keyless_fromParsed env.keylogOpened
  obtain ⟨horchestrator, -, hmessages, -⟩ := hran.counts
  set begun := Orchestrator.new keylog lua cli.config env.sweepNow env.gcNow with hbegun
  set segments := Program.segments etherparse env.readings
    (PcapSource.numbered 0 source.packets) with hsegments
  obtain ⟨hnone, hdecrypted⟩ := Program.lines_keyless crypto vm hexEncode (.ofCli cli)
    (show begun.shared.keylog.Keyless from hkeyless) segments
  refine ⟨?_, ?_, fun hapart hstamps hfiles path hpath hnames => ?_⟩
  · rw [hmessages, Program.countP_isMessage, hnone]
    rfl
  · rw [horchestrator, hdecrypted]
    rfl
  · -- chunks hold messages, and there are none
    have hheld := (hran.wrote hapart hstamps).files false cli.output rfl hfiles
    rw [← hbegun, ← hsegments, hnone] at hheld
    have hnil := List.map_eq_nil_iff.mp hheld.decoded
    exact List.filter_eq_nil_iff.mp hnil path hpath (by simpa using hnames)

end Surroundings

namespace SmallRun

open Capture

/-- With the keylog the request of the small run is decrypted, without it nothing is. -/
theorem nothing_decrypts_small : ∃ program keyless,
    env.main RecordedSession.recording.crypto plainVm etherparse FieldValue.hexEncode cli =
        .finished program ∧ program.messagesWritten = 1 ∧
      env.main RecordedSession.recording.crypto plainVm etherparse FieldValue.hexEncode
          { cli with keylog := none } = .finished keyless ∧ keyless.messagesWritten = 0 ∧
      ∀ path ∈ keyless.world.disk.created,
        ¬ (PathPrefix.ofText "/tmp/out".toList).Names path := by
  obtain ⟨program, hmain, hone⟩ := finished_env
  obtain ⟨keyless, hkeyless, -⟩ := finished_of_opened
    (show { cli with keylog := none }.refusal = none by decide +kernel)
    (show env.openKeylog Recording.hexDecode { cli with keylog := none } = .ok _ from rfl) rfl
  obtain ⟨hnone, -, hfiles⟩ := Surroundings.nothing_decrypts rfl hkeyless
  exact ⟨program, keyless, hmain, hone, hkeyless, hnone,
    hfiles apart_cli stamped_env (by decide)⟩

end SmallRun

end Tlscap
