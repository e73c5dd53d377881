import Tlscap.Orchestrator.Capture
import Tlscap.Orchestrator.Close
import Tlscap.Program.Outputs

/-!
# What a run of the program writes

A run handles the TCP segments of the capture one by one.  The lines it writes are fixed by
them (`Program.lines`): for each segment the line of its event, and then the lines of the
messages it completed.  The outputs take these lines up in that order, each to its own files
or to the standard output (`Surroundings.finished_outputs`), and the branches that the source
calls unreachable are (`Surroundings.main_finishes`).

The argument follows the loop:

* writing an event or a message is one call of one output (`writeEvent_eq`,
  `writeMessage_eq`), and leaves the writer and the selection as they are (`SameSetup`);
* a packet is handled by its segment, if it has one (`handlePacket_eq`), and the loop by
  those of all packets up to the end of the capture or its first error (`loop_eq`).  What
  is kept along the way is `Handled`;
* the outputs are those of one shared disk from the start on (`shares_start`), so what was
  put to them is cut greedily into chunks once they are finished (`wrote_of_puts`);
* a command line is refused, or what it asks for cannot be opened, or the capture is handled
  to its end (`main_cases`).

Writing does not fail here, and a plugin's call returns: what the outputs and the plugins do
otherwise is outside of the model.
-/

namespace Tlscap

namespace Program

variable {σ : Type} {gzip : Gzip}

/-! ## The lines of a frame -/

/-- The outputs of the program, by name. -/
def outputs (program : Program σ gzip) : Outputs gzip where
  byName name := if name then program.packetOutput else some program.output
  world := program.world

/-- The line of a packet event, where there is such. -/
def eventLine (writer : MessageWriter) (event : PacketEvent) (readings : WriteReadings) :
    Bool × Written :=
  (true, ⟨utf8 ((writer.writePacketEvent [] event).getD []), readings⟩)

/-- The lines of a message. -/
def messageLine (hexEncode : Bytes → Text) (writer : MessageWriter) (msg : DecodedMessage)
    (readings : WriteReadings) : Bool × Written :=
  (false, ⟨utf8 (writer.writeTlsRecord hexEncode [] msg), readings⟩)

/-- The lines of some messages, the `index`-th of a frame and those behind it. -/
def messageLines (hexEncode : Bytes → Text) (writer : MessageWriter)
    (readings : ℕ → WriteReadings) : ℕ → List DecodedMessage → List (Bool × Written)
  | _, [] => []
  | index, msg :: rest =>
      messageLine hexEncode writer msg (readings index) ::
        messageLines hexEncode writer readings (index + 1) rest

/-- Packet events are only written in a format that has them. -/
def Ready (program : Program σ gzip) : Prop :=
  program.packetOutput.isSome → ∃ writer, program.writer = .ndjson writer

/-- What else of the state a step leaves. -/
structure SameSetup (program next : Program σ gzip) : Prop where
  writer : next.writer = program.writer
  packetLog : next.packetOutput.isSome = program.packetOutput.isSome

theorem SameSetup.trans {program next last : Program σ gzip} (hfirst : program.SameSetup next)
    (hsecond : next.SameSetup last) : program.SameSetup last :=
  ⟨hsecond.writer.trans hfirst.writer, hsecond.packetLog.trans hfirst.packetLog⟩

theorem Ready.sameSetup {program next : Program σ gzip} (hready : program.Ready)
    (hsame : program.SameSetup next) : next.Ready := by
  intro hlog
  rw [hsame.packetLog] at hlog
  rw [hsame.writer]
  exact hready hlog

theorem writeEvent_eq {program : Program σ gzip} (hready : program.Ready) (event : PacketEvent)
    (readings : WriteReadings) :
    ∃ next, program.writeEvent event readings = some next ∧ program.SameSetup next ∧
      next.outputs = program.outputs.put (eventLine program.writer event readings) ∧
      next.orchestrator = program.orchestrator ∧ next.packetIndex = program.packetIndex ∧
      next.messagesWritten = program.messagesWritten ∧
      next.packetEventsWritten =
        program.packetEventsWritten + if program.packetOutput.isSome then 1 else 0 := by
  unfold writeEvent
  cases hlog : program.packetOutput with
  | none =>
      refine ⟨program, rfl, ⟨rfl, rfl⟩, ?_, rfl, rfl, rfl, rfl⟩
      have hnone : program.outputs.byName true = none := hlog
      rw [Outputs.put, eventLine, hnone]
  | some packetOutput =>
      obtain ⟨writer, hwriter⟩ := hready (by rw [hlog]; rfl)
      have hsome : program.outputs.byName true = some packetOutput := hlog
      rw [hwriter]
      refine ⟨_, rfl, ⟨hwriter.symm, by rw [hlog]; rfl⟩, ?_, rfl, rfl, rfl, rfl⟩
      unfold Outputs.put eventLine
      rw [hsome]
      refine congrArg (Outputs.mk · _) (funext fun name => ?_)
      cases name <;> rfl

theorem writeMessage_eq (hexEncode : Bytes → Text) (program : Program σ gzip)
    (msg : DecodedMessage) (readings : WriteReadings) :
    (program.writeMessage hexEncode msg readings).outputs =
      program.outputs.put (messageLine hexEncode program.writer msg readings) := by
  have hsome : program.outputs.byName false = some program.output := rfl
  unfold Outputs.put messageLine
  rw [hsome]
  refine congrArg (Outputs.mk · _) (funext fun name => ?_)
  cases name <;> rfl

theorem writeMessages_eq (hexEncode : Bytes → Text) (readings : ℕ → WriteReadings) (index : ℕ)
    (program : Program σ gzip) (messages : List DecodedMessage) :
    let next := writeMessages hexEncode readings index program messages
    program.SameSetup next ∧
      next.outputs = (messageLines hexEncode program.writer readings index messages).foldl
        Outputs.put program.outputs ∧
      next.orchestrator = program.orchestrator ∧ next.packetIndex = program.packetIndex ∧
      next.messagesWritten = program.messagesWritten + messages.length ∧
      next.packetEventsWritten = program.packetEventsWritten := by
  induction messages generalizing index program with
  | nil => exact ⟨⟨rfl, rfl⟩, rfl, rfl, rfl, rfl, rfl⟩
  | cons msg rest ih =>
      obtain ⟨hsame, houtputs, horchestrator, hindex, hmessages, hevents⟩ :=
        ih (index + 1) (program.writeMessage hexEncode msg (readings index))
      rw [writeMessage_eq] at houtputs
      refine ⟨⟨hsame.writer, hsame.packetLog⟩, houtputs, horchestrator, hindex, ?_, hevents⟩
      rw [List.length_cons, Nat.add_comm rest.length, ← Nat.add_assoc]
      exact hmessages

/-! ## A run over the segments -/

section Segments

variable (crypto : Crypto) (vm : LuaVm σ) (etherparse : Etherparse) (hexEncode : Bytes → Text)

/-- The TCP segments of some packets, each with what is read while it is handled. -/
def segments (readings : ℕ → PacketReadings) (packets : List (RawPacket × DataLink)) :
    List (FrameInput × PacketReadings) :=
  packets.filterMap fun packet =>
    (frameInput? etherparse packet (readings packet.1.index)).map fun input =>
      (input, readings packet.1.index)

/-- The lines of a segment: that of its event, and those of the messages it completed. -/
def segmentLines (writer : MessageWriter) (orchestrator : Orchestrator σ)
    (segment : FrameInput × PacketReadings) : List (Bool × Written) :=
  let handled := orchestrator.processFrame crypto vm segment.1
  eventLine writer handled.2.1 segment.2.eventWrite ::
    messageLines hexEncode writer segment.2.messageWrites 0 handled.2.2

/-- The lines of some segments. -/
def lines (writer : MessageWriter) :
    Orchestrator σ → List (FrameInput × PacketReadings) → List (Bool × Written)
  | _, [] => []
  | orchestrator, segment :: rest =>
      segmentLines crypto vm hexEncode writer orchestrator segment ++
        lines writer (orchestrator.processFrame crypto vm segment.1).1 rest

theorem lines_append (writer : MessageWriter) (orchestrator : Orchestrator σ)
    (first second : List (FrameInput × PacketReadings)) :
    lines crypto vm hexEncode writer orchestrator (first ++ second) =
      lines crypto vm hexEncode writer orchestrator first ++
        lines crypto vm hexEncode writer
          (orchestrator.after crypto vm (first.map Prod.fst)) second := by
  induction first generalizing orchestrator with
  | nil => rfl
  | cons segment rest ih =>
      rw [List.cons_append, lines, ih, ← List.append_assoc]
      rfl

variable {crypto vm hexEncode}

/-- A line of a message, not of an event. -/
def isMessage (line : Bool × Written) : Bool := !line.1

/-- The readings of the clock give stamps. -/
structure Stamped (readings : PacketReadings) : Prop where
  eventWrite : IsStamp readings.eventWrite.stamp
  messageWrites : ∀ index, IsStamp (readings.messageWrites index).stamp

theorem stamped_messageLines (writer : MessageWriter) {readings : ℕ → WriteReadings}
    (hstamps : ∀ index, IsStamp (readings index).stamp) {index : ℕ}
    {messages : List DecodedMessage} :
    ∀ line ∈ messageLines hexEncode writer readings index messages,
      IsStamp line.2.readings.stamp := by
  induction messages generalizing index with
  | nil => exact fun _ hline => absurd hline List.not_mem_nil
  | cons msg rest ih => exact List.forall_mem_cons.mpr ⟨hstamps index, ih⟩

theorem stamped_lines (writer : MessageWriter) (orchestrator : Orchestrator σ)
    {segments : List (FrameInput × PacketReadings)}
    (hstamps : ∀ segment ∈ segments, Stamped segment.2) :
    ∀ line ∈ lines crypto vm hexEncode writer orchestrator segments,
      IsStamp line.2.readings.stamp := by
  induction segments generalizing orchestrator with
  | nil => exact fun _ hline => absurd hline List.not_mem_nil
  | cons segment rest ih =>
      obtain ⟨hnow, hlater⟩ := List.forall_mem_cons.mp hstamps
      intro line hline
      rcases List.mem_append.mp hline with hhere | hthere
      · rcases List.mem_cons.mp hhere with rfl | hmessage
        · exact hnow.eventWrite
        · exact stamped_messageLines writer hnow.messageWrites line hmessage
      · exact ih _ hlater line hthere

theorem stamped_segments {readings : ℕ → PacketReadings}
    (hstamps : ∀ index, Stamped (readings index)) {packets : List (RawPacket × DataLink)} :
    ∀ segment ∈ segments etherparse readings packets, Stamped segment.2 := by
  intro segment hsegment
  obtain ⟨packet, -, hpacket⟩ := List.mem_filterMap.mp hsegment
  obtain ⟨input, -, rfl⟩ := Option.map_eq_some_iff.mp hpacket
  exact hstamps packet.1.index

theorem countP_messageLines (writer : MessageWriter) (readings : ℕ → WriteReadings) (index : ℕ)
    (messages : List DecodedMessage) :
    (messageLines hexEncode writer readings index messages).countP isMessage =
      messages.length := by
  induction messages generalizing index with
  | nil => rfl
  | cons msg rest ih =>
      rw [messageLines, List.countP_cons_of_pos rfl, ih, List.length_cons]

/-- From one state of the program to another, some segments were handled. -/
structure Handled (crypto : Crypto) (vm : LuaVm σ) (hexEncode : Bytes → Text)
    (program next : Program σ gzip) (segments : List (FrameInput × PacketReadings)) : Prop where
  setup : program.SameSetup next
  orchestrator : next.orchestrator =
    program.orchestrator.after crypto vm (segments.map Prod.fst)
  outputs : next.outputs =
    (lines crypto vm hexEncode program.writer program.orchestrator segments).foldl Outputs.put
      program.outputs
  messages : next.messagesWritten = program.messagesWritten +
    (lines crypto vm hexEncode program.writer program.orchestrator segments).countP isMessage
  events : next.packetEventsWritten = program.packetEventsWritten +
    if program.packetOutput.isSome then segments.length else 0

theorem handled_nil (program : Program σ gzip) :
    Handled crypto vm hexEncode program program [] := by
  refine ⟨⟨rfl, rfl⟩, rfl, rfl, rfl, ?_⟩
  split_ifs <;> rfl

theorem Handled.trans {program next last : Program σ gzip}
    {first second : List (FrameInput × PacketReadings)}
    (hfirst : Handled crypto vm hexEncode program next first)
    (hsecond : Handled crypto vm hexEncode next last second) :
    Handled crypto vm hexEncode program last (first ++ second) := by
  have hlines := lines_append crypto vm hexEncode program.writer program.orchestrator first second
  obtain ⟨hsetup, horchestrator, houtputs, hmessages, hevents⟩ := hsecond
  rw [hfirst.setup.writer, hfirst.orchestrator] at houtputs hmessages
  refine ⟨hfirst.setup.trans hsetup, ?_, ?_, ?_, ?_⟩
  · rw [List.map_append, Orchestrator.after_append, ← hfirst.orchestrator, horchestrator]
  · rw [hlines, List.foldl_append, ← hfirst.outputs, houtputs]
  · rw [hlines, List.countP_append, ← Nat.add_assoc, ← hfirst.messages, hmessages]
  · rw [hevents, hfirst.events, hfirst.setup.packetLog, List.length_append]
    split_ifs
    · rw [Nat.add_assoc]
    · rfl

theorem handlePacket_of_none {program : Program σ gzip} {packet : RawPacket × DataLink}
    {readings : PacketReadings} (hinput : frameInput? etherparse packet readings = none) :
    program.handlePacket crypto vm etherparse hexEncode packet readings =
      some { program with packetIndex := program.packetIndex + 1 } := by
  unfold handlePacket
  simp only [hinput]

theorem handlePacket_of_some {program logged : Program σ gzip} {packet : RawPacket × DataLink}
    {readings : PacketReadings} {input : FrameInput}
    (hinput : frameInput? etherparse packet readings = some input)
    (hlogged : writeEvent
      { program with
        packetIndex := program.packetIndex + 1
        orchestrator := (program.orchestrator.processFrame crypto vm input).1 }
      (program.orchestrator.processFrame crypto vm input).2.1 readings.eventWrite = some logged) :
    program.handlePacket crypto vm etherparse hexEncode packet readings =
      some (logged.writeMessages hexEncode readings.messageWrites 0
        (program.orchestrator.processFrame crypto vm input).2.2) := by
  unfold handlePacket
  simp only [hinput, hlogged]

variable (crypto vm hexEncode) in
/-- A packet is handled by its segment, if it has one. -/
theorem handlePacket_eq {program : Program σ gzip} (hready : program.Ready)
    (readings : ℕ → PacketReadings) (packet : RawPacket × DataLink) :
    ∃ next, program.handlePacket crypto vm etherparse hexEncode packet
        (readings packet.1.index) = some next ∧
      Handled crypto vm hexEncode program next (segments etherparse readings [packet]) ∧
      next.packetIndex = program.packetIndex + 1 := by
  unfold segments
  cases hinput : frameInput? etherparse packet (readings packet.1.index) with
  | none =>
      refine ⟨_, handlePacket_of_none etherparse hinput, ?_, rfl⟩
      rw [List.filterMap_cons_none (by rw [hinput]; rfl)]
      refine ⟨⟨rfl, rfl⟩, rfl, rfl, rfl, ?_⟩
      split_ifs <;> rfl
  | some input =>
      rw [List.filterMap_cons_some (by rw [hinput]; rfl), List.filterMap_nil]
      set handled := program.orchestrator.processFrame crypto vm input with hhandled
      let moved : Program σ gzip :=
        { program with packetIndex := program.packetIndex + 1, orchestrator := handled.1 }
      have hmoved : moved.Ready := hready
      obtain ⟨logged, hlogged, hsame, houtputs, horchestrator, hindex, hmessages, hevents⟩ :=
        writeEvent_eq hmoved handled.2.1 (readings packet.1.index).eventWrite
      obtain ⟨hsameLater, houtputsLater, horchestratorLater, hindexLater, hmessagesLater,
        heventsLater⟩ := writeMessages_eq hexEncode (readings packet.1.index).messageWrites 0
          logged handled.2.2
      refine ⟨writeMessages hexEncode (readings packet.1.index).messageWrites 0 logged handled.2.2,
        handlePacket_of_some etherparse hinput hlogged, ?_, ?_⟩
      · have hwriter : logged.writer = program.writer := hsame.writer
        rw [hwriter] at houtputsLater
        have hstart : program.SameSetup moved := ⟨rfl, rfl⟩
        refine ⟨(hstart.trans hsame).trans hsameLater, ?_, ?_, ?_, ?_⟩
        · rw [horchestratorLater, horchestrator]
          rfl
        · rw [houtputsLater, houtputs, lines, lines, List.append_nil]
          rfl
        · rw [hmessagesLater, hmessages, lines, lines, List.append_nil, segmentLines,
            List.countP_cons_of_neg Bool.false_ne_true, countP_messageLines]
        · rw [heventsLater, hevents]
          rfl
      · rw [hindexLater, hindex]

theorem segments_cons (readings : ℕ → PacketReadings) (packet : RawPacket × DataLink)
    (rest : List (RawPacket × DataLink)) :
    segments etherparse readings (packet :: rest) =
      segments etherparse readings [packet] ++ segments etherparse readings rest := by
  unfold segments
  rw [← List.filterMap_append]
  rfl

variable (crypto vm hexEncode) in
/-- The loop handles the segments of the capture, and never panics. -/
theorem loop_eq (readings : ℕ → PacketReadings) {fuel : ℕ} {program : Program σ gzip}
    {source : PcapSource} (hfuel : source.remaining ≤ fuel) (hready : program.Ready) :
    ∃ next, program.loop crypto vm etherparse hexEncode readings fuel source = some next ∧
      Handled crypto vm hexEncode program next (segments etherparse readings
        (PcapSource.numbered program.packetIndex source.packets)) ∧
      next.packetIndex = program.packetIndex + source.packets.length := by
  induction fuel generalizing program source with
  | zero =>
      rcases source.nextPacket_cases program.packetIndex with ⟨_, _, _, _, hlt⟩ | ⟨hpackets, -⟩
      · omega
      · rw [hpackets]
        exact ⟨program, rfl, handled_nil program, rfl⟩
  | succ fuel ih =>
      unfold loop
      rcases source.nextPacket_cases program.packetIndex with ⟨packet, rest, hpackets, hnext, hlt⟩ |
        ⟨hpackets, rest, hnext | ⟨error, hnext⟩⟩
      · have hindex : (packet program.packetIndex).1.index = program.packetIndex :=
          PcapSource.index_packets (by rw [hpackets]; exact List.mem_cons_self) _
        obtain ⟨next, hhandle, hhandled, hmoved⟩ :=
          handlePacket_eq crypto vm etherparse hexEncode hready readings
            (packet program.packetIndex)
        rw [hindex] at hhandle
        obtain ⟨last, hloop, hrest, hlast⟩ :=
          ih (show rest.remaining ≤ fuel by omega) (hready.sameSetup hhandled.setup)
        rw [hmoved] at hrest hlast
        refine ⟨last, ?_, ?_, ?_⟩
        · rw [hnext]
          dsimp only
          rw [hhandle]
          exact hloop
        · rw [hpackets, PcapSource.numbered_cons, segments_cons]
          exact hhandled.trans hrest
        · rw [hlast, hpackets, List.length_cons]
          omega
      · rw [hnext, hpackets]
        exact ⟨program, rfl, handled_nil program, rfl⟩
      · rw [hnext, hpackets]
        exact ⟨program, rfl, handled_nil program, rfl⟩

end Segments

/-! ## The end of a run -/

theorem outputs_finish (program : Program σ gzip) :
    program.finish.outputs = (program.outputs.close false).close true := by
  obtain ⟨orchestrator, writer, output, packetOutput, world, -, -, -⟩ := program
  cases packetOutput with
  | none =>
      refine congrArg (Outputs.mk · _) (funext fun name => ?_)
      cases name <;> rfl
  | some packetOutput =>
      refine congrArg (Outputs.mk · _) (funext fun name => ?_)
      cases name <;> rfl

theorem counts_finish (program : Program σ gzip) :
    program.finish.orchestrator = program.orchestrator ∧
      program.finish.packetIndex = program.packetIndex ∧
      program.finish.messagesWritten = program.messagesWritten ∧
      program.finish.packetEventsWritten = program.packetEventsWritten := by
  unfold finish
  cases program.packetOutput <;> exact ⟨rfl, rfl, rfl, rfl⟩

end Program

/-! ## The whole program -/

namespace Cli

/-- What the paths of an output begin with, or that it is the standard output. -/
def outputPrefix (cli : Cli) : Bool → Option Text
  | false => some cli.output
  | true => cli.packetLog

/-- Outputs to files have paths that begin differently. -/
def OutputsApart (cli : Cli) : Prop :=
  ∀ packetLog ∈ cli.packetLog, packetLog ≠ ['-'] → cli.output ≠ ['-'] →
    (PathPrefix.ofText cli.output).front ≠ (PathPrefix.ofText packetLog).front

/-- The paths of two outputs to files begin differently. -/
theorem OutputsApart.front_ne {cli : Cli} (hapart : cli.OutputsApart) {name other : Bool}
    {pathPrefix otherPrefix : Text} (hpath : cli.outputPrefix name = some pathPrefix)
    (hother : cli.outputPrefix other = some otherPrefix) (hfiles : pathPrefix ≠ ['-'])
    (hotherFiles : otherPrefix ≠ ['-']) (hne : other ≠ name) :
    (PathPrefix.ofText otherPrefix).front ≠ (PathPrefix.ofText pathPrefix).front := by
  cases name <;> cases other
  · exact absurd rfl hne
  · obtain rfl := Option.some.inj hpath
    exact (hapart otherPrefix hother hotherFiles hfiles).symm
  · obtain rfl := Option.some.inj hother
    exact hapart pathPrefix hpath hfiles hotherFiles
  · exact absurd rfl hne

end Cli

namespace Surroundings

variable {σ : Type} {gzip : Gzip} (env : Surroundings σ gzip) (crypto : Crypto) (vm : LuaVm σ)
  (etherparse : Etherparse) (hexEncode : Bytes → Text)

/-- How an output is set up; one to the standard output needs no set-up. -/
def setups (cli : Cli) (rotateBy : RotateBy) (name : Bool) : SharedDisk.OutputSetup gzip :=
  ⟨.ofText ((cli.outputPrefix name).getD []), rotateBy, env.newCompression cli.compressLevel⟩

theorem kind_start (cli : Cli) (keylog : KeylogSource) (lua : σ) (rotateBy : RotateBy)
    (name : Bool) :
    (env.start cli keylog lua rotateBy).outputs.kind name =
      (cli.outputPrefix name).map fun pathPrefix => decide (pathPrefix ≠ ['-']) := by
  have hnew : ∀ pathPrefix, (Output.new pathPrefix rotateBy
      (env.newCompression cli.compressLevel)).rotates = decide (pathPrefix ≠ ['-']) := by
    intro pathPrefix
    unfold Output.new
    by_cases hstdout : pathPrefix = ['-']
    · rw [if_pos hstdout, decide_eq_false (not_not_intro hstdout)]
      rfl
    · rw [if_neg hstdout, decide_eq_true hstdout]
      rfl
  unfold Outputs.kind Program.outputs start Cli.outputPrefix
  cases name with
  | false => exact congrArg some (hnew cli.output)
  | true =>
      cases cli.packetLog with
      | none => rfl
      | some pathPrefix => exact congrArg some (hnew pathPrefix)

theorem shares_start (cli : Cli) (keylog : KeylogSource) (lua : σ) (rotateBy : RotateBy) :
    (env.start cli keylog lua rotateBy).outputs.Shares
      (SharedDisk.start (env.setups cli rotateBy) env.files) := by
  have hnew : ∀ pathPrefix writer, Output.new pathPrefix rotateBy
      (env.newCompression cli.compressLevel) = .rotating writer →
        .withCompression (.ofText pathPrefix) rotateBy
          (env.newCompression cli.compressLevel) = writer := by
    intro pathPrefix writer hwriter
    unfold Output.new at hwriter
    split_ifs at hwriter
    exact Output.rotating.inj hwriter
  refine ⟨rfl, fun name writer hwriter => ?_⟩
  unfold setups SharedDisk.start Cli.outputPrefix
  cases name with
  | false => exact hnew cli.output writer (Option.some.inj hwriter)
  | true =>
      change cli.packetLog.map _ = _ at hwriter
      obtain ⟨pathPrefix, hpath, hrotating⟩ := Option.map_eq_some_iff.mp hwriter
      dsimp only
      rw [hpath]
      exact hnew pathPrefix writer hrotating

open scoped Classical in
/-- What was written of some lines: the standard output has those for it, and each output to
files has its own, cut greedily into chunks. -/
structure Wrote (gzip : Gzip) (cli : Cli) (rotateBy : RotateBy) (lines : List (Bool × Written))
    (world : World) : Prop where
  stdout : world.stdout = (lines.filter fun line => cli.outputPrefix line.1 = some ['-']).flatMap
    fun line => line.2.data
  files : ∀ name pathPrefix, cli.outputPrefix name = some pathPrefix → pathPrefix ≠ ['-'] →
    HoldsGreedily gzip (.ofText pathPrefix) rotateBy world.disk
      (world.disk.created.filter (PathPrefix.ofText pathPrefix).Names)
      (SharedDisk.messagesOf name lines)

variable {env} {cli : Cli} {keylog : KeylogSource} {lua : σ} {rotateBy : RotateBy}

/-- The messages of an output to files are among those for the files. -/
theorem messagesOf_toFiles {outputs : Outputs gzip} {name : Bool}
    (hkind : outputs.kind name = some true) (lines : List (Bool × Written)) :
    SharedDisk.messagesOf name (outputs.toFiles lines) = SharedDisk.messagesOf name lines := by
  unfold SharedDisk.messagesOf Outputs.toFiles
  rw [List.filter_filter]
  congr 1
  apply List.filter_congr
  intro line _
  by_cases hname : line.1 = name
  · simp [hname, hkind]
  · simp [hname]

/-- Lines that were put to the outputs are written once these are finished. -/
theorem wrote_of_puts (hapart : cli.OutputsApart) {lines : List (Bool × Written)}
    (hstamps : ∀ line ∈ lines, IsStamp line.2.readings.stamp) {program : Program σ gzip}
    (houtputs : program.outputs =
      lines.foldl Outputs.put (env.start cli keylog lua rotateBy).outputs) :
    Wrote gzip cli rotateBy lines program.finish.world := by
  set begun := (env.start cli keylog lua rotateBy).outputs with hbegun
  obtain ⟨hputs, hprinted⟩ := (env.shares_start cli keylog lua rotateBy).puts lines
  rw [← hbegun] at hputs hprinted
  obtain ⟨hclosed, hstdout⟩ := hputs.closes
  rw [Outputs.kind_foldl_put, ← houtputs, ← Program.outputs_finish] at hclosed
  rw [← houtputs, ← Program.outputs_finish] at hstdout
  rw [← houtputs] at hprinted
  have hkind := env.kind_start cli keylog lua rotateBy
  rw [← hbegun] at hkind
  -- finishing the outputs writes to files only
  refine ⟨?_, fun name pathPrefix hpath hfiles => ?_⟩
  · change program.finish.outputs.world.stdout = _
    rw [hstdout, hprinted]
    change [] ++ _ = _
    rw [List.nil_append, Outputs.printed]
    congr 1
    apply List.filter_congr
    intro line _
    rw [hkind]
    cases cli.outputPrefix line.1 <;> simp
  · -- only outputs to files are written or finished on the shared disk
    have hfilesKind : begun.kind name = some true := by
      rw [hkind, hpath, Option.map_some, decide_eq_true hfiles]
    set finished := [false, true].filter fun other => begun.kind other = some true with hfinished
    have hmem : name ∈ finished :=
      List.mem_filter.mpr ⟨by cases name <;> simp, decide_eq_true hfilesKind⟩
    have hothers : ∀ other ∈ (begun.toFiles lines).map Prod.fst ++ finished,
        begun.kind other = some true := by
      intro other hother
      rcases List.mem_append.mp hother with hline | hclose
      · obtain ⟨line, hmem, rfl⟩ := List.mem_map.mp hline
        exact of_decide_eq_true (List.mem_filter.mp hmem).2
      · exact of_decide_eq_true (List.mem_filter.mp hclose).2
    -- so the chunks of one output have other paths than those of another
    have hfronts : ∀ other ∈ (begun.toFiles lines).map Prod.fst ++ finished, other ≠ name →
        (env.setups cli rotateBy other).pathPrefix.front ≠
          (env.setups cli rotateBy name).pathPrefix.front := by
      intro other hother hne
      have hotherKind := hothers other hother
      rw [hkind] at hotherKind
      obtain ⟨otherPrefix, hotherPrefix, hotherFiles⟩ := Option.map_eq_some_iff.mp hotherKind
      unfold setups
      rw [hpath, hotherPrefix]
      exact hapart.front_ne hpath hotherPrefix hfiles (of_decide_eq_true hotherFiles) hne
    -- the files of one output are as if it were the only writer
    have hcut := SharedDisk.outputs_cut_greedily (env.setups cli rotateBy) env.files
      (begun.toFiles lines) finished hmem
      hfronts
      (fun line hline => hstamps line (List.mem_filter.mp hline).1)
    have hdisk : program.finish.world.disk =
        ((SharedDisk.start (env.setups cli rotateBy) env.files).run
          (SharedDisk.calls (begun.toFiles lines) finished)).disk := by
      rw [SharedDisk.calls, SharedDisk.run, List.foldl_append]
      exact hclosed.disk
    rw [messagesOf_toFiles hfilesKind, ← hdisk] at hcut
    have hsetup : (env.setups cli rotateBy name).pathPrefix = .ofText pathPrefix := by
      unfold setups
      rw [hpath]
      rfl
    rw [hsetup] at hcut
    exact hcut

/-! ## From the command line to the files -/

/-- Options that are not refused say how the outputs rotate. -/
theorem rotateBy_of_refusal (hrefusal : cli.refusal = none) :
    ∃ rotateBy, cli.rotateBy = some rotateBy := by
  unfold Cli.refusal at hrefusal
  split_ifs at hrefusal with hrotate
  unfold Cli.rotateBy
  cases hcount : cli.rotateCount <;> cases hseconds : cli.rotateSeconds
  case some.some => exact absurd (by rw [hcount, hseconds]; exact ⟨rfl, rfl⟩) hrotate
  all_goals exact ⟨_, rfl⟩

variable (env) in
/-- With options that are not refused, packet events are only asked for in a format that has
them. -/
theorem ready_of_refusal (hrefusal : cli.refusal = none) (keylog : KeylogSource) (lua : σ)
    (rotateBy : RotateBy) : (env.start cli keylog lua rotateBy).Ready := by
  intro hsome
  unfold Cli.refusal at hrefusal
  split_ifs at hrefusal with hrotate hformat hlog
  have hpacketLog : cli.packetLog.isSome := by
    change (cli.packetLog.map _).isSome = true at hsome
    rwa [Option.isSome_map] at hsome
  have hndjson : cli.format = "ndjson".toList := by
    by_contra hother
    exact hlog ⟨hpacketLog, hother⟩
  exact ⟨_, if_pos hndjson⟩

/-- A run over the segments of a capture: what came of them before the outputs were finished. -/
structure Ran (env : Surroundings σ gzip) (crypto : Crypto) (vm : LuaVm σ)
    (etherparse : Etherparse) (hexEncode : Bytes → Text) (cli : Cli) (keylog : KeylogSource)
    (lua : σ) (source : PcapSource) (rotateBy : RotateBy) (program : Program σ gzip) : Prop where
  finished : env.main crypto vm etherparse hexEncode cli = .finished program.finish
  rotates : cli.rotateBy = some rotateBy
  handled : Program.Handled crypto vm hexEncode (env.start cli keylog lua rotateBy) program
    (Program.segments etherparse env.readings (PcapSource.numbered 0 source.packets))
  packets : program.packetIndex = source.packets.length

/-- With everything opened, the whole capture is handled. -/
theorem ran_of_opened (hrefusal : cli.refusal = none)
    (hkeylog : env.openKeylog crypto.hexDecode cli = .ok keylog)
    (hlua : env.loadPlugins cli = some lua) {source : PcapSource}
    (hsource : openSource env.crate env.stdin = .ok source) :
    ∃ rotateBy program,
      Ran env crypto vm etherparse hexEncode cli keylog lua source rotateBy program := by
  obtain ⟨rotateBy, hrotateBy⟩ := rotateBy_of_refusal hrefusal
  obtain ⟨program, hloop, hhandled, hindex⟩ :=
    Program.loop_eq crypto vm etherparse hexEncode env.readings le_rfl
      (env.ready_of_refusal hrefusal keylog lua rotateBy)
  refine ⟨rotateBy, program, ?_, hrotateBy, hhandled, hindex.trans (Nat.zero_add _)⟩
  unfold main run
  rw [hrefusal, hkeylog, hlua, hrotateBy, hsource]
  dsimp only
  rw [hloop]

variable (env cli) in
/-- How a run comes out. -/
theorem main_cases :
    (∃ message, env.main crypto vm etherparse hexEncode cli = .refused message ∧
        cli.refusal = some message) ∨
      env.main crypto vm etherparse hexEncode cli = .fatal ∧
        ((env.openKeylog crypto.hexDecode cli).isOk = false ∨ env.loadPlugins cli = none ∨
          (openSource env.crate env.stdin).isOk = false) ∨
      cli.refusal = none ∧ ∃ keylog lua source rotateBy program,
        env.openKeylog crypto.hexDecode cli = .ok keylog ∧ env.loadPlugins cli = some lua ∧
          openSource env.crate env.stdin = .ok source ∧
          Ran env crypto vm etherparse hexEncode cli keylog lua source rotateBy program := by
  cases hrefusal : cli.refusal with
  | some message =>
      refine .inl ⟨message, ?_, rfl⟩
      unfold main
      rw [hrefusal]
  | none =>
      have hmain : env.main crypto vm etherparse hexEncode cli =
          env.run crypto vm etherparse hexEncode cli := by
        unfold main
        rw [hrefusal]
      -- what is opened first fails first: the keylog, the plugins, then the capture
      obtain ⟨rotateBy, hrotateBy⟩ := rotateBy_of_refusal hrefusal
      refine .inr ?_
      cases hkeylog : env.openKeylog crypto.hexDecode cli with
      | error _ =>
          refine .inl ⟨?_, .inl rfl⟩
          rw [hmain, run, hkeylog]
      | ok keylog =>
          cases hlua : env.loadPlugins cli with
          | none =>
              refine .inl ⟨?_, .inr (.inl rfl)⟩
              rw [hmain, run, hkeylog, hlua]
          | some lua =>
              cases hsource : openSource env.crate env.stdin with
              | error _ =>
                  refine .inl ⟨?_, .inr (.inr rfl)⟩
                  rw [hmain, run, hkeylog, hlua, hrotateBy, hsource]
              | ok source =>
                  obtain ⟨rotateBy, program, hran⟩ :=
                    ran_of_opened crypto vm etherparse hexEncode hrefusal hkeylog hlua hsource
                  exact .inr ⟨rfl, keylog, lua, source, rotateBy, program, rfl, rfl, rfl, hran⟩

variable {crypto vm etherparse hexEncode}

/-- A finished run is one over the segments of its capture. -/
theorem ran_of_finished {program : Program σ gzip}
    (hmain : env.main crypto vm etherparse hexEncode cli = .finished program) :
    ∃ keylog lua source rotateBy before, env.openKeylog crypto.hexDecode cli = .ok keylog ∧
      env.loadPlugins cli = some lua ∧ openSource env.crate env.stdin = .ok source ∧
      Ran env crypto vm etherparse hexEncode cli keylog lua source rotateBy before ∧
      program = before.finish := by
  rcases env.main_cases crypto vm etherparse hexEncode cli with
    ⟨message, hother, -⟩ | ⟨hother, -⟩ |
    ⟨-, keylog, lua, source, rotateBy, before, hkeylog, hlua, hsource, hran⟩
  · rw [hother] at hmain
    cases hmain
  · rw [hother] at hmain
    cases hmain
  · exact ⟨keylog, lua, source, rotateBy, before, hkeylog, hlua, hsource, hran,
      Outcome.finished.inj (hmain.symm.trans hran.finished)⟩

/-- The lines of a run's segments are written once the outputs are finished. -/
theorem Ran.wrote {source : PcapSource} {before : Program σ gzip}
    (hran : Ran env crypto vm etherparse hexEncode cli keylog lua source rotateBy before)
    (hapart : cli.OutputsApart) (hstamps : ∀ index, Program.Stamped (env.readings index)) :
    Wrote gzip cli rotateBy
      (Program.lines crypto vm hexEncode (.ofCli cli)
        (.new keylog lua cli.config env.sweepNow env.gcNow)
        (Program.segments etherparse env.readings (PcapSource.numbered 0 source.packets)))
      before.finish.world :=
  wrote_of_puts hapart
    (Program.stamped_lines (.ofCli cli) _ (Program.stamped_segments etherparse hstamps))
    hran.handled.outputs

/-- What is counted of a run. -/
theorem Ran.counts {source : PcapSource} {before : Program σ gzip}
    (hran : Ran env crypto vm etherparse hexEncode cli keylog lua source rotateBy before) :
    let begun := Orchestrator.new keylog lua cli.config env.sweepNow env.gcNow
    let segments := Program.segments etherparse env.readings (PcapSource.numbered 0 source.packets)
    before.finish.orchestrator = begun.after crypto vm (segments.map Prod.fst) ∧
      before.finish.packetIndex = source.packets.length ∧
      before.finish.messagesWritten =
        (Program.lines crypto vm hexEncode (.ofCli cli) begun segments).countP
          Program.isMessage ∧
      before.finish.packetEventsWritten =
        if cli.packetLog.isSome then segments.length else 0 := by
  intro begun segments
  obtain ⟨horchestrator, hindex, hmessages, hevents⟩ := Program.counts_finish before
  refine ⟨?_, ?_, ?_, ?_⟩
  · rw [horchestrator, hran.handled.orchestrator]
    rfl
  · rw [hindex, hran.packets]
  · rw [hmessages, hran.handled.messages]
    exact Nat.zero_add _
  · rw [hevents, hran.handled.events]
    change 0 + (if (cli.packetLog.map _).isSome then _ else 0) = _
    rw [Nat.zero_add, Option.isSome_map]

/-- **Arrival and listing.**  Neither how the bytes of the capture are cut into reads nor the
order in which the file system lists the plugins matters to a run, whatever the plugins do and
however it ends. -/
theorem main_congr (env : Surroundings σ gzip) {stdin : ByteStream} {listing : Text → Listing}
    (hbytes : stdin.bytes = env.stdin.bytes) (hfails : stdin.fails = env.stdin.fails)
    (hlisting : ∀ dir, SameListing (dir, listing dir) (dir, env.listing dir)) :
    { env with stdin, listing }.main crypto vm etherparse hexEncode cli =
      env.main crypto vm etherparse hexEncode cli := by
  have hdirs : List.Forall₂ SameListing (cli.pluginDirs.map fun dir => (dir, listing dir))
      (cli.pluginDirs.map fun dir => (dir, env.listing dir)) := by
    rw [List.forall₂_map_left_iff, List.forall₂_map_right_iff]
    exact List.forall₂_same.mpr fun dir _ => hlisting dir
  have hplugins : { env with stdin, listing }.loadPlugins cli = env.loadPlugins cli := by
    unfold loadPlugins
    dsimp only
    cases env.loader.new with
    | error _ => rfl
    | ok heap =>
        dsimp only
        rw [loadDirectories_of_perm env.loader hdirs heap]
  unfold main run
  rw [hplugins, openSource_congr env.crate hbytes hfails]
  rfl

end Surroundings

/-! ## A small run -/

namespace SmallRun

open Capture

/-- An Ethernet frame with a segment from 10.0.0.1:40000 to 10.0.0.99:443. -/
def packet (totalLen sumHigh sumLow seqHigh seqLow flags : UInt8) (payload : Bytes) : Bytes :=
  [0x02, 0, 0, 0, 0, 0x02, 0x02, 0, 0, 0, 0, 0x01, 0x08, 0x00,
    0x45, 0, 0, totalLen, 0, 0, 0x40, 0, 0x40, 0x06, sumHigh, sumLow, 10, 0, 0, 1, 10, 0, 0, 99,
    0x9c, 0x40, 0x01, 0xbb, 0, 0, seqHigh, seqLow, 0, 0, 0, 0, 0x50, flags, 0xff, 0xff, 0, 0, 0,
    0] ++ payload

/-- The client's SYN, its hello and its request. -/
def packets : List Bytes :=
  [packet 40 0x26 0x6d 0x03 0xe7 0x02 [], packet 83 0x26 0x42 0x03 0xe8 0x10 hello,
    packet 68 0x26 0x51 0x04 0x13 0x10 Capture.request]

/-- A capture with these frames, all of them one second in. -/
def capture : Bytes :=
  [0xd4, 0xc3, 0xb2, 0xa1, 2, 0, 4, 0, 0, 0, 0, 0, 0, 0, 0, 0, 0xff, 0xff, 0, 0, 1, 0, 0, 0] ++
    packets.flatMap fun data =>
      let length := UInt8.ofNat data.length
      [1, 0, 0, 0, 0, 0, 0, 0, length, 0, 0, 0, length, 0, 0, 0] ++ data

/-- A field of a header. -/
def field (data : Bytes) (start length : ℕ) : ℕ :=
  (slice data start length).foldl (fun value byte => 256 * value + byte.toNat) 0

/-- The slices of frames whose headers have no options. -/
def etherparse : Etherparse where
  fromEthernet data :=
    if h : field data 12 3 = 0x080045 ∧ field data 23 1 = 6 ∧ 54 ≤ data.length then
      let flag (bit : ℕ) : Bool := (field data 47 1).testBit bit
      some {
        net := some (.ipv4 (.ofNat (field data 26 4)) (.ofNat (field data 30 4)))
        transport := some (.tcp ⟨.ofNat (field data 34 2), .ofNat (field data 36 2),
          .ofNat (field data 38 4), .ofNat (field data 42 4),
          ⟨flag 1, flag 0, flag 2, flag 4, flag 3⟩, ⟨54, data.length⟩⟩)
        payload_within := by
          rintro tcp ⟨⟩ slice ⟨⟩
          exact ⟨h.2.2, le_rfl⟩ }
    else none
  fromIp _ := none

/-- The capture crate, which knows the capture. -/
def crate : PcapFile where
  pcap bytes _ :=
    if bytes = capture then .ok (packets.map fun data => .ok (data, 10 ^ 9), .ethernet)
    else .error "Invalid field value".toList
  pcapNg _ _ := .error "Invalid field value".toList

/-- Readings for a message written at `now`. -/
def written (now : Instant) : WriteReadings := ⟨now, "20260101000000".toList, now⟩

/-- The surroundings of the run: the keylog of the recorded session, and the capture in two
reads. -/
def env : Surroundings Unit TwoPerChunk.stored where
  keylogContents := .ok RecordedSession.keylogText
  keylogSignature := ⟨none, none⟩
  keylogOpened := 0
  loader := ⟨.ok (), fun _ _ => .ok ()⟩
  listing _ := none
  newCompression _ := ()
  files := ∅
  sweepNow := 0
  gcNow := 0
  crate
  stdin := ⟨[capture.take 2, capture.drop 2], false, by decide⟩
  readings index :=
    ⟨⟨index, index, index, index, index, index, index, index⟩, fun _ => noReadings,
      written index, fun _ => written index⟩

/-- The options of a run with the keylog. -/
def cli : Cli where
  keylog := some "/tmp/keys".toList
  keylogReloadInterval := 5
  pluginDirs := ["/usr/lib/tlscap/plugins".toList]
  luaScripts := []
  fields := ["tcp".toList, "tls".toList]
  format := "ndjson".toList
  ekIndexPrefix := "packets".toList
  output := "/tmp/out".toList
  packetLog := some "/tmp/events".toList
  ndjsonExplode := none
  ndjsonMap := []
  rotateCount := some 100
  rotateSeconds := none
  compress := some "gzip".toList
  compressLevel := 6
  idleTimeoutSeconds := 0
  maxPendingBytes := 16 * 1024 * 1024
  maxPendingPackets := 4096
  maxPendingAgeSeconds := 30
  maxTailBytes := 1024 * 1024
  luaGcIntervalSeconds := 5

/-- What the capture crate yields of the capture. -/
def source : PcapSource := .pcap (packets.map fun data => .ok (data, 10 ^ 9)) .ethernet

theorem openSource_capture {input : ByteStream} (hinput : input.bytes = capture) :
    openSource crate input = .ok source := by
  obtain ⟨reader, hreader, -, hopened⟩ := openCapture_eq input
  have hformat : openedFormat capture = .ok .pcap := by decide +kernel
  have hyields : ∀ fails, crate.pcap capture fails =
      .ok (packets.map fun data => .ok (data, 10 ^ 9), .ethernet) := by
    intro fails
    unfold crate
    dsimp only
    rw [if_pos rfl]
  rw [hinput, hformat] at hopened
  unfold openSource
  rw [hopened]
  dsimp only [Except.map]
  rw [hreader, hinput, hyields]
  rfl

theorem openSource_env : openSource env.crate env.stdin = .ok source :=
  openSource_capture (by decide +kernel)

theorem apart_cli : cli.OutputsApart := by
  rintro packetLog ⟨⟩ _ _
  decide +kernel

theorem stamped_env (index : ℕ) : Program.Stamped (env.readings index) := by
  have hstamp : IsStamp "20260101000000".toList := by decide
  exact ⟨hstamp, fun _ => hstamp⟩

/-- With some options that are not refused, the run finishes. -/
theorem finished_of_opened {cli : Cli} (hrefusal : cli.refusal = none) {keylog : KeylogSource}
    (hkeylog : env.openKeylog Recording.hexDecode cli = .ok keylog)
    (hlua : env.loadPlugins cli = some ()) : ∃ program,
    env.main RecordedSession.recording.crypto plainVm etherparse FieldValue.hexEncode cli =
        .finished program ∧
      program.messagesWritten = (Program.lines RecordedSession.recording.crypto plainVm
        FieldValue.hexEncode (.ofCli cli) (.new keylog () cli.config 0 0)
        (Program.segments etherparse env.readings
          (PcapSource.numbered 0 source.packets))).countP Program.isMessage := by
  obtain ⟨_, program, hran⟩ := Surroundings.ran_of_opened RecordedSession.recording.crypto plainVm
    etherparse FieldValue.hexEncode hrefusal hkeylog hlua openSource_env
  obtain ⟨-, -, hmessages, -⟩ := hran.counts
  exact ⟨_, hran.finished, hmessages⟩

/-- With the keylog, one message is decrypted. -/
theorem finished_env : ∃ program,
    env.main RecordedSession.recording.crypto plainVm etherparse FieldValue.hexEncode cli =
      .finished program ∧ program.messagesWritten = 1 := by
  obtain ⟨program, hmain, hmessages⟩ := finished_of_opened
    (show cli.refusal = none by decide +kernel)
    (show env.openKeylog Recording.hexDecode cli = .ok _ from rfl) rfl
  exact ⟨program, hmain, hmessages.trans (by decide +kernel)⟩

/-- The small run with two plugins, in some order. -/
def listed (entries : List (Except Text Text)) : Surroundings Unit TwoPerChunk.stored :=
  { env with listing := fun _ => some (.ok entries) }

/-- The capture in one piece, and the plugins in another order. -/
theorem main_congr_small :
    { listed [.ok "b.lua".toList, .ok "a.lua".toList] with
        stdin := ⟨[capture], false, by decide⟩ }.main RecordedSession.recording.crypto plainVm
          etherparse FieldValue.hexEncode cli =
      (listed [.ok "a.lua".toList, .ok "b.lua".toList]).main RecordedSession.recording.crypto
        plainVm etherparse FieldValue.hexEncode cli :=
  Surroundings.main_congr (listed [.ok "a.lua".toList, .ok "b.lua".toList])
    (by decide +kernel) rfl fun dir => .entries dir (.swap _ _ [])

end SmallRun

end Tlscap
