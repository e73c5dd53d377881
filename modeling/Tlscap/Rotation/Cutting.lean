import Tlscap.Library.Greedy
import Tlscap.Rotation.Shared

/-!
# Where the chunks are cut

A message goes to another chunk when the open one is full for it: when it has its number of
messages, or when its time is up (`RotateBy.isFull`).  The files of a writer are the greedy
chunks of its messages by that rule, in every mode (`rotation_cuts_greedily`), and writers
that share a disk each keep to it (`SharedDisk.outputs_cut_greedily`).

The rule speaks of messages with the readings of their calls, whereas the writer only has the
number of messages in its chunk and the time it was opened at.  `RepresentsWritten` ties the
two together: a chunk was opened with its first message, so its time runs from the reading of
that call.  A writer decides before it opens a chunk, so one message decides as greedy cutting
does (`RepresentsWritten.write`), and so does a run of them.

Finishing a writer once more changes nothing, so an output may be finished by the program and
again when it is dropped.
-/

namespace Tlscap

/-! ## One writer -/

/-- A message that is written, with the clock readings of its call. -/
structure Written where
  data : Bytes
  readings : WriteReadings
  deriving DecidableEq, Repr

/-- The call that writes it. -/
def Written.call (message : Written) : RotationCall := .writeMessage message.data message.readings

/-- When a chunk was opened: with its first message. -/
def openedAt (chunk : List Written) : Option Instant :=
  chunk.head?.map fun first => first.readings.openedAt

/-- Whether a chunk is full for the next message. -/
def RotateBy.isFull (rotateBy : RotateBy) (chunk : List Written) (next : Written) : Bool :=
  match rotateBy with
  | .never => false
  | .count n => n ≤ chunk.length
  | .seconds d => (openedAt chunk).all fun opened => d ≤ elapsed opened next.readings.checkedAt

section Writer

variable {gzip : Gzip} {writer : RotatingGzWriter gzip} {disk : Disk}

/-- The writer and the disk hold some chunks of messages, and the writer knows when the
last one was opened. -/
structure RepresentsWritten (state : RotatingGzWriter gzip × Disk) (chunks : Chunks Written) :
    Prop where
  data : Represents state (chunks.map Written.data)
  opened : ∀ chunk ∈ state.1.current, chunks.current.bind openedAt = some chunk.openedAt

theorem RepresentsWritten.shouldRotate {chunks : Chunks Written}
    (hrep : RepresentsWritten (writer, disk) chunks) (message : Written) :
    writer.shouldRotate message.readings.checkedAt =
      chunks.current.elim true fun chunk => writer.rotateBy.isFull chunk message := by
  have hcurrent := hrep.data.current
  change writer.current.map _ = (chunks.current.map (List.map Written.data)).map _ at hcurrent
  unfold RotatingGzWriter.shouldRotate
  cases hopen : writer.current with
  | none =>
      rw [hopen, Option.map_none, Option.map_map] at hcurrent
      rw [Option.map_eq_none_iff.mp hcurrent.symm, Option.elim_none]
  | some chunk =>
      rw [hopen, Option.map_some, Option.map_map] at hcurrent
      obtain ⟨messages, hmessages, hpair⟩ := Option.map_eq_some_iff.mp hcurrent.symm
      obtain ⟨-, hlength⟩ := Prod.mk.inj hpair
      have hopened := hrep.opened chunk hopen
      rw [hmessages, Option.bind_some] at hopened
      rw [List.length_map] at hlength
      rw [hmessages, Option.elim_some]
      unfold RotateBy.isFull
      cases writer.rotateBy with
      | never => rfl
      | count n =>
          change decide (n ≤ chunk.messagesWritten) = decide (n ≤ messages.length)
          rw [hlength]
      | seconds d =>
          rw [hopened]
          rfl

theorem openedAt_concat {chunk : List Written} (hchunk : chunk ≠ []) (message : Written) :
    openedAt (chunk ++ [message]) = openedAt chunk := by
  rw [openedAt, openedAt, List.head?_append_of_ne_nil _ hchunk]

/-- A message goes where greedy cutting puts it. -/
theorem RepresentsWritten.write {chunks : Chunks Written}
    (hrep : RepresentsWritten (writer, disk) chunks) (message : Written) :
    RepresentsWritten (rotationStep (writer, disk) message.call)
      (chunks.fill writer.rotateBy.isFull message) := by
  have hrotate := hrep.shouldRotate message
  refine ⟨?_, fun chunk hchunk => ?_⟩
  · unfold Chunks.fill
    rw [Chunks.map_push, ← hrotate]
    exact Represents.writeMessage hrep.data message.data message.readings
  · unfold Chunks.fill
    rw [← hrotate]
    change chunk ∈ (writer.writeMessage disk message.data message.readings).1.current at hchunk
    unfold RotatingGzWriter.writeMessage RotatingGzWriter.rotateIfNeeded at hchunk
    by_cases hcut : writer.shouldRotate message.readings.checkedAt = true
    · rw [if_pos hcut] at hchunk
      obtain rfl := Option.some.inj hchunk
      rw [Chunks.push, if_pos hcut]
      rfl
    · rw [if_neg hcut] at hchunk
      obtain ⟨before, hbefore, rfl⟩ := Option.map_eq_some_iff.mp hchunk
      have hopened := hrep.opened before hbefore
      obtain ⟨messages, hmessages, hat⟩ := Option.bind_eq_some_iff.mp hopened
      have hnonempty : messages ≠ [] := by
        rintro rfl
        cases hat
      rw [Chunks.push, if_neg hcut]
      change openedAt (chunks.current.getD [] ++ [message]) = some before.openedAt
      rw [hmessages, Option.getD_some, openedAt_concat hnonempty, hat]

theorem rotateBy_rotationStep (state : RotatingGzWriter gzip × Disk) (call : RotationCall) :
    (rotationStep state call).1.rotateBy = state.1.rotateBy := by
  cases call with
  | writeMessage data readings => exact (setup_writeMessage state.1 state.2 data readings).2
  | finishCurrent => exact (setup_finishCurrent state.1 state.2).2

theorem RepresentsWritten.run {state : RotatingGzWriter gzip × Disk} {rotateBy : RotateBy}
    (hrotateBy : state.1.rotateBy = rotateBy) {chunks : Chunks Written}
    (hrep : RepresentsWritten state chunks) (messages : List Written) :
    RepresentsWritten (rotationRun state (messages.map Written.call))
      (messages.foldl (Chunks.fill rotateBy.isFull) chunks) := by
  induction messages generalizing state chunks with
  | nil => exact hrep
  | cons message rest ih =>
      subst hrotateBy
      exact ih (rotateBy_rotationStep state message.call) (hrep.write message)

/-- The files of a finished writer, in the order of their counters, are the greedy chunks of
some messages. -/
structure HoldsGreedily (gzip : Gzip) (pathPrefix : PathPrefix) (rotateBy : RotateBy)
    (disk : Disk) (paths : List Text) (messages : List Written) : Prop where
  numbered : Numbered pathPrefix paths
  decoded : paths.map (disk.decoded gzip) =
    (Chunks.greedy rotateBy.isFull messages).all.map fun chunk =>
      some (chunk.map Written.data).flatten

theorem RepresentsWritten.holdsGreedily {state : RotatingGzWriter gzip × Disk}
    {rotateBy : RotateBy} {messages : List Written}
    (hrep : RepresentsWritten state (Chunks.greedy rotateBy.isFull messages)) :
    HoldsGreedily gzip state.1.pathPrefix rotateBy (state.1.finishCurrent state.2).2
      (state.1.finishCurrent state.2).2.created messages := by
  refine ⟨?_, ?_⟩
  · rw [created_finishCurrent]
    exact hrep.data.numbered
  · have hdecoded := hrep.data.decoded
    rw [Chunks.all_map, List.map_map] at hdecoded
    exact hdecoded

/-- A finished writer holds the messages it was given. -/
theorem holdsGreedily_run (pathPrefix : PathPrefix) (rotateBy : RotateBy)
    (compression : gzip.Compression) (files : AList fun _ : Text => Bytes)
    (messages : List Written) {state : RotatingGzWriter gzip × Disk}
    (hstate : state = rotationRun (.withCompression pathPrefix rotateBy compression, ⟨files, []⟩)
      (messages.map Written.call)) :
    HoldsGreedily gzip pathPrefix rotateBy (state.1.finishCurrent state.2).2
      (state.1.finishCurrent state.2).2.created messages := by
  subst hstate
  have hstart : RepresentsWritten
      ((RotatingGzWriter.withCompression pathPrefix rotateBy compression : RotatingGzWriter gzip),
        ⟨files, []⟩) Chunks.empty :=
    ⟨represents_withCompression pathPrefix rotateBy compression files, fun _ hopen => nomatch hopen⟩
  have hholds := (hstart.run rfl messages).holdsGreedily
  rw [pathPrefix_rotationRun] at hholds
  exact hholds

/-- **Greedy chunks.**  Whatever the mode and the clock, the files of a writer are the greedy
chunks of its messages: each message but the first of a chunk came before the chunk was full,
and each chunk but the last was full when the next message came. -/
theorem rotation_cuts_greedily (pathPrefix : PathPrefix) (rotateBy : RotateBy)
    (compression : gzip.Compression) (files : AList fun _ : Text => Bytes)
    (messages : List Written) :
    let state := rotationRun (.withCompression pathPrefix rotateBy compression, ⟨files, []⟩)
      (messages.map Written.call)
    let chunks := (Chunks.greedy rotateBy.isFull messages).all
    HoldsGreedily gzip pathPrefix rotateBy (state.1.drop state.2) state.2.created messages ∧
      chunks.flatten = messages ∧ [] ∉ chunks ∧ Chunks.Greedy rotateBy.isFull chunks := by
  intro state chunks
  have hholds := holdsGreedily_run pathPrefix rotateBy compression files messages rfl
  rw [created_finishCurrent] at hholds
  exact ⟨hholds, Chunks.flatten_all_greedy _ _, Chunks.nil_not_mem _,
    (Chunks.greedy_spec _ _).greedy⟩

end Writer

/-! ## Writers that share a disk -/

namespace SharedDisk

variable {ι : Type} [DecidableEq ι] {gzip : Gzip}

/-- How an output is set up. -/
structure OutputSetup (gzip : Gzip) where
  pathPrefix : PathPrefix
  rotateBy : RotateBy
  compression : gzip.Compression

/-- The writers before the first message. -/
def start (setups : ι → OutputSetup gzip) (files : AList fun _ : Text => Bytes) :
    SharedDisk ι gzip where
  writers name := .withCompression (setups name).pathPrefix (setups name).rotateBy
    (setups name).compression
  disk := ⟨files, []⟩

/-- The messages of one writer. -/
def messagesOf (name : ι) (messages : List (ι × Written)) : List Written :=
  (messages.filter fun message => message.1 = name).map Prod.snd

/-- Every message is written by its writer, and then the writers are finished. -/
def calls (messages : List (ι × Written)) (finished : List ι) : List (ι × RotationCall) :=
  messages.map (fun message => (message.1, message.2.call)) ++
    finished.map fun name => (name, .finishCurrent)

theorem callsOf_calls (name : ι) (messages : List (ι × Written)) (finished : List ι) :
    callsOf name (calls messages finished) =
      (messagesOf name messages).map Written.call ++
        List.replicate (finished.count name) .finishCurrent := by
  have hfinished : ((finished.map fun other => (other, RotationCall.finishCurrent)).filter
      fun call => call.1 = name).map Prod.snd =
        List.replicate (finished.count name) RotationCall.finishCurrent := by
    induction finished with
    | nil => rfl
    | cons other rest ih =>
        by_cases hother : other = name
        · subst hother
          simp [ih, List.replicate_succ]
        · simp [hother, ih]
  unfold callsOf calls messagesOf
  rw [List.filter_append, List.map_append, hfinished, List.filter_map, List.map_map, List.map_map]
  rfl

/-- Finishing once more changes nothing. -/
theorem rotationRun_finish (state : RotatingGzWriter gzip × Disk) (times : ℕ) :
    rotationRun state (List.replicate (times + 1) .finishCurrent) =
      state.1.finishCurrent state.2 := by
  induction times with
  | zero => rfl
  | succ times ih =>
      rw [List.replicate_succ', rotationRun, List.foldl_append]
      change rotationStep (rotationRun state (List.replicate (times + 1) .finishCurrent))
        .finishCurrent = _
      rw [ih]
      exact finishCurrent_of_none _ (current_finishCurrent state.1 state.2)

open scoped Classical in
/-- **Outputs that share a disk.**  Where the paths of the outputs begin differently, each
output holds its own messages, cut greedily by its own mode, however the messages of the
outputs are interleaved and in whatever order the outputs are finished. -/
theorem outputs_cut_greedily (setups : ι → OutputSetup gzip)
    (files : AList fun _ : Text => Bytes) (messages : List (ι × Written)) (finished : List ι)
    {name : ι} (hfinished : name ∈ finished)
    (hapart : ∀ other ∈ messages.map Prod.fst ++ finished, other ≠ name →
      (setups other).pathPrefix.front ≠ (setups name).pathPrefix.front)
    (hstamps : ∀ message ∈ messages, IsStamp message.2.readings.stamp) :
    let disk := ((start setups files).run (calls messages finished)).disk
    HoldsGreedily gzip (setups name).pathPrefix (setups name).rotateBy disk
      (disk.created.filter (setups name).pathPrefix.Names) (messagesOf name messages) := by
  intro disk
  have howned : (start setups files).Owned fun name => (setups name).pathPrefix :=
    fun name => ⟨rfl, fun _ hopen => nomatch hopen⟩
  have hcalls : ∀ call ∈ calls messages finished,
      call.2.Stamped ∧ call.1 ∈ messages.map Prod.fst ++ finished := by
    intro call hcall
    rcases List.mem_append.mp hcall with hwrite | hfinish
    · obtain ⟨message, hmessage, rfl⟩ := List.mem_map.mp hwrite
      exact ⟨hstamps message hmessage,
        List.mem_append_left _ (List.mem_map_of_mem hmessage)⟩
    · obtain ⟨other, hother, rfl⟩ := List.mem_map.mp hfinish
      exact ⟨trivial, List.mem_append_right _ hother⟩
  have hstamped : ∀ call ∈ calls messages finished, call.2.Stamped := fun call hcall =>
    (hcalls call hcall).1
  have hstart : Isolated (fun name => (setups name).pathPrefix) name (start setups files)
      ((start setups files).writers name, (start setups files).disk) :=
    ⟨rfl, fun _ _ => rfl, rfl⟩
  obtain ⟨-, halike⟩ :=
    run_alone (fun call hcall => hapart call.1 (hcalls call hcall).2) hstamped howned hstart
  -- alone, the output is cut greedily
  set alone := rotationRun ((start setups files).writers name, (start setups files).disk)
    (callsOf name (calls messages finished)) with halone
  have hholds : HoldsGreedily gzip (setups name).pathPrefix (setups name).rotateBy alone.2
      alone.2.created (messagesOf name messages) := by
    obtain ⟨times, htimes⟩ : ∃ times, finished.count name = times + 1 :=
      Nat.exists_eq_succ_of_ne_zero (List.count_pos_iff.mpr hfinished).ne'
    rw [halone, callsOf_calls, htimes, rotationRun, List.foldl_append]
    change HoldsGreedily _ _ _ (rotationRun _ (List.replicate (times + 1) .finishCurrent)).2
      (rotationRun _ (List.replicate (times + 1) .finishCurrent)).2.created _
    rw [rotationRun_finish]
    exact holdsGreedily_run (setups name).pathPrefix (setups name).rotateBy
      (setups name).compression files (messagesOf name messages) rfl
  -- all that it creates alone is its own
  have hown : ∀ path ∈ alone.2.created, (setups name).pathPrefix.Names path := by
    have hstampedOwn : ∀ call ∈ callsOf name (calls messages finished), call.Stamped := by
      intro call hcall
      obtain ⟨tagged, htagged, rfl⟩ := List.mem_map.mp hcall
      exact hstamped tagged (List.mem_of_mem_filter htagged)
    obtain ⟨paths, hcreated, hpaths⟩ :=
      (@rotationRun_own gzip ((start setups files).writers name, (start setups files).disk)
        (howned name).2 _ hstampedOwn).created
    rw [halone, hcreated]
    exact hpaths
  have hsame : disk.created.filter (setups name).pathPrefix.Names = alone.2.created := by
    have hcreated := halike.created
    rw [List.filter_eq_self.mpr fun path hpath => decide_eq_true (hown path hpath)] at hcreated
    exact hcreated
  refine ⟨hsame ▸ hholds.numbered, ?_⟩
  rw [hsame, ← hholds.decoded]
  apply List.map_congr_left
  intro path hpath
  unfold Disk.decoded
  rw [← halike.files path (hown path hpath)]

/-! ## Messages and packet events -/

namespace TwoOutputs

/-- A prefix in the directory of the outputs. -/
def pathPrefix (name : Text) : PathPrefix := ⟨some name, some "/tmp".toList⟩

/-- Messages in chunks of two, packet events for at most five nanoseconds. -/
def setups (isPacketLog : Bool) : OutputSetup TwoPerChunk.stored :=
  if isPacketLog then ⟨pathPrefix "events".toList, .seconds 5, ()⟩
  else ⟨pathPrefix "out".toList, .count 2, ()⟩

/-- A message that comes at `now`. -/
def written (data : Bytes) (now : Instant) : Written :=
  ⟨data, ⟨now, "20260101000000".toList, now⟩⟩

/-- The messages of both outputs, in the order they are written. -/
def messages : List (Bool × Written) :=
  [(true, written [0x31] 0), (false, written [0x61] 1), (true, written [0x32] 2),
    (false, written [0x62] 3), (false, written [0x63] 4), (true, written [0x33] 6)]

/-- The disk behind the last message and the closing of both outputs. -/
def disk : Disk := ((start setups ∅).run (calls messages [false, true])).disk

/-- Each output has its own messages in its own chunks. -/
example : disk.created.map (disk.decoded TwoPerChunk.stored) =
    [some [0x31, 0x32], some [0x61, 0x62], some [0x63], some [0x33]] := by decide +kernel

end TwoOutputs

end SharedDisk

end Tlscap
