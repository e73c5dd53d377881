import Tlscap.Rotation.Model
import Tlscap.Library.Chunks

/-!
# The chunks make up the output

The writer refines the cutting of the messages into chunks: the finished files decompress to
the finished chunks, and the encoder has been given the open one.  Once the writer is finished
or dropped, its files hold the messages, each once and in order (`rotation_partitions`).

## Strategy

* **Names.**  Every path carries the number of its chunk.  It can be read off, as the digits
  end at the first underscore behind the prefix and padding does not change the number
  (`chunkPath_injective`); so no chunk overwrites another, whatever the stamps are.
* **The representation.**  `Represents` relates the writer and the disk to some chunks: one
  file for each finished chunk, an empty file for the open one, and the paths numbered in the
  order of creation.  Finishing, opening and writing keep it (`Represents.finishCurrent`,
  `Represents.openNew`, `Represents.writeAll`).
* **A message** goes to a new chunk exactly when `shouldRotate` says so
  (`Represents.writeMessage`), and a run of calls takes up its messages in order
  (`Represents.run`).
* **The cuts.**  Where nothing else closes a chunk, the mode decides: one chunk without
  rotation, chunks of `n` messages under a count (`KeepsMode.run`).  The open chunk is never
  empty, so a count of zero cuts as one of one does.
-/

namespace Tlscap

/-! ## Chunk names -/

theorem underscore_not_mem_digits (counter : ℕ) :
    '_' ∉ (decimal counter).leftpad 6 '0' := by
  intro hmem
  rcases List.mem_append.mp hmem with hzero | hdigit
  · exact absurd (List.eq_of_mem_replicate hzero) (by decide)
  · exact absurd (Nat.isDigit_of_mem_toDigits (by decide) (by decide) hdigit) (by decide)

/-- Padding does not change the number. -/
theorem leftpad_decimal_injective {first second : ℕ}
    (h : (decimal first).leftpad 6 '0' = (decimal second).leftpad 6 '0') : first = second := by
  have hvalue : ∀ n, Nat.ofDigitChars 10 ((decimal n).leftpad 6 '0') 0 = n := by
    intro n
    rw [List.leftpad, Nat.ofDigitChars_append, Nat.ofDigitChars_replicate_zero, Nat.mul_zero]
    exact Nat.ofDigitChars_ten_toDigits
  rw [← hvalue first, h, hvalue]

/-- The counter can be read off a path, whatever the stamp is. -/
theorem chunkPath_injective {pathPrefix : PathPrefix} {first second : ℕ} {stamp other : Text}
    (h : chunkPath pathPrefix first stamp = chunkPath pathPrefix second other) :
    first = second := by
  have hname : ('_' :: (decimal first).leftpad 6 '0' ++ ('_' :: stamp ++ ".gz".toList)) =
      '_' :: (decimal second).leftpad 6 '0' ++ ('_' :: other ++ ".gz".toList) := by
    unfold chunkPath joinPath at h
    split at h
    · split_ifs at h
      · exact List.append_cancel_left h
      · exact List.append_cancel_left (List.append_cancel_left h)
      · exact List.append_cancel_left (List.cons.inj (List.append_cancel_left h)).2
    · exact List.append_cancel_left h
  simp only [List.cons_append, List.cons.injEq, true_and] at hname
  -- the digits end at the first underscore
  have hdigits : ∀ (counter : ℕ) (rest : Text),
      ((decimal counter).leftpad 6 '0' ++ '_' :: rest).takeWhile (· ≠ '_') =
        (decimal counter).leftpad 6 '0' := by
    intro counter rest
    rw [List.takeWhile_append_of_pos, List.takeWhile_cons_of_neg (by decide), List.append_nil]
    intro c hc
    refine decide_eq_true fun heq => ?_
    subst heq
    exact underscore_not_mem_digits counter hc
  apply leftpad_decimal_injective
  rw [← hdigits first (stamp ++ ".gz".toList), hname, hdigits]

/-! ## What the disk holds -/

section Partition

variable {gzip : Gzip}

/-- The decompressed contents of a file. -/
def Disk.decoded (gzip : Gzip) (disk : Disk) (path : Text) : Option Bytes :=
  (disk.files.lookup path).bind gzip.decompress

/-- The paths are those of the chunks 1, 2 and so on. -/
def Numbered (pathPrefix : PathPrefix) (paths : List Text) : Prop :=
  ∀ i (hi : i < paths.length), ∃ stamp, paths[i] = chunkPath pathPrefix (i + 1) stamp

theorem Numbered.nodup {pathPrefix : PathPrefix} {paths : List Text}
    (hpaths : Numbered pathPrefix paths) : paths.Nodup := by
  rw [List.nodup_iff_injective_get]
  intro i j heq
  obtain ⟨stamp, hi⟩ := hpaths i.1 i.2
  obtain ⟨other, hj⟩ := hpaths j.1 j.2
  have hpath : chunkPath pathPrefix (i.1 + 1) stamp = chunkPath pathPrefix (j.1 + 1) other :=
    hi.symm.trans (heq.trans hj)
  exact Fin.ext (Nat.succ_injective (chunkPath_injective hpath))

theorem Numbered.concat {pathPrefix : PathPrefix} {paths : List Text}
    (hpaths : Numbered pathPrefix paths) (stamp : Text) :
    Numbered pathPrefix (paths ++ [chunkPath pathPrefix (paths.length + 1) stamp]) := by
  intro i hi
  rw [List.length_append, List.length_singleton] at hi
  obtain hlt | rfl : i < paths.length ∨ i = paths.length := by omega
  · obtain ⟨old, hold⟩ := hpaths i hlt
    exact ⟨old, by rw [List.getElem_append_left hlt, hold]⟩
  · exact ⟨stamp, List.getElem_concat_length rfl _⟩

/-- The writer and the disk hold some chunks of messages. -/
structure Represents (state : RotatingGzWriter gzip × Disk) (chunks : Chunks Bytes) : Prop where
  numbered : Numbered state.1.pathPrefix state.2.created
  counter : state.1.chunkCounter = state.2.created.length
  /-- The files of the finished chunks, before the one that is open. -/
  closed : ∃ finished, state.2.created =
      finished ++ (state.1.current.map CurrentChunk.path).toList ∧
    finished.map (state.2.decoded gzip) = chunks.closed.map fun chunk => some chunk.flatten
  current : state.1.current.map (fun chunk => (chunk.encoder, chunk.messagesWritten)) =
    chunks.current.map fun chunk => (chunk.flatten, chunk.length)

/-- Writing to a path leaves what other files decompress to. -/
theorem decoded_insert_of_not_mem (disk : Disk) {paths : List Text} {path : Text}
    (hpath : path ∉ paths) (contents : Bytes) (created : List Text) :
    paths.map (Disk.decoded gzip ⟨disk.files.insert path contents, created⟩) =
      paths.map (disk.decoded gzip) := by
  apply List.map_congr_left
  intro other hother
  have hne : other ≠ path := fun heq => hpath (heq ▸ hother)
  unfold Disk.decoded
  rw [AList.lookup_insert_ne hne]

theorem represents_withCompression (pathPrefix : PathPrefix) (rotateBy : RotateBy)
    (compression : gzip.Compression) (files : AList fun _ : Text => Bytes) :
    Represents (.withCompression pathPrefix rotateBy compression, ⟨files, []⟩) Chunks.empty where
  numbered i hi := absurd hi (Nat.not_lt_zero i)
  counter := rfl
  closed := ⟨[], rfl, rfl⟩
  current := rfl

variable {writer : RotatingGzWriter gzip} {disk : Disk} {chunks : Chunks Bytes}

/-- Finishing the open chunk. -/
theorem Represents.finishCurrent (hrep : Represents (writer, disk) chunks) :
    Represents (writer.finishCurrent disk) chunks.close := by
  obtain ⟨finished, hcreated, hdecoded⟩ := hrep.closed
  have hcurrent := hrep.current
  unfold RotatingGzWriter.finishCurrent
  cases hopen : writer.current with
  | none =>
      simp only [hopen, Option.map_none, Option.toList_none, List.append_nil] at hcurrent hcreated
      have hnone : chunks.current = none := Option.map_eq_none_iff.mp hcurrent.symm
      refine ⟨hrep.numbered, hrep.counter, ⟨finished, ?_, ?_⟩, ?_⟩
      · simpa [hopen] using hcreated
      · change _ = chunks.all.map _
        rw [hdecoded, Chunks.all, hnone, Option.toList_none, List.append_nil]
      · simp [hopen, Chunks.close]
  | some chunk =>
      simp only [hopen, Option.map_some, Option.toList_some] at hcurrent hcreated
      obtain ⟨messages, hmessages, hpair⟩ := Option.map_eq_some_iff.mp hcurrent.symm
      obtain ⟨hflatten, -⟩ := Prod.mk.inj hpair
      have hnodup := hrep.numbered.nodup
      rw [hcreated, List.nodup_append_comm, List.singleton_append, List.nodup_cons] at hnodup
      refine ⟨hrep.numbered, hrep.counter, ⟨disk.created, ?_, ?_⟩, rfl⟩
      · exact (List.append_nil _).symm
      · change disk.created.map _ = chunks.all.map _
        rw [hcreated, List.map_append]
        dsimp only [Disk.write]
        rw [decoded_insert_of_not_mem disk hnodup.1, hdecoded, Chunks.all, hmessages,
          Option.toList_some, List.map_append]
        simp [Disk.decoded, AList.lookup_insert, gzip.decompress_compress, hflatten]

/-- The first message of a new chunk. -/
theorem Represents.openNew (hrep : Represents (writer, disk) chunks)
    (hclosed : writer.current = none) (readings : WriteReadings) (data : Bytes) :
    Represents ((writer.openNew disk readings).1.writeAll data, (writer.openNew disk readings).2)
      (chunks.add data) := by
  obtain ⟨finished, hcreated, hdecoded⟩ := hrep.closed
  have hcurrent := hrep.current
  have hcounter : writer.chunkCounter = disk.created.length := hrep.counter
  simp only [hclosed, Option.map_none, Option.toList_none, List.append_nil] at hcurrent hcreated
  have hnone : chunks.current = none := Option.map_eq_none_iff.mp hcurrent.symm
  have hpaths := hrep.numbered.concat readings.stamp
  have hnodup := hpaths.nodup
  dsimp only at hpaths hnodup hdecoded
  rw [List.nodup_append_comm, List.singleton_append, List.nodup_cons] at hnodup
  rw [← hcounter] at hpaths hnodup
  refine ⟨hpaths, ?_, ⟨disk.created, rfl, ?_⟩, ?_⟩
  · change writer.chunkCounter + 1 = (disk.created ++ [_]).length
    rw [hcounter, List.length_append, List.length_singleton]
  · change disk.created.map (Disk.decoded gzip ⟨disk.files.insert _ [], _⟩) = _
    rw [decoded_insert_of_not_mem disk hnodup.1, hcreated, hdecoded]
    rfl
  · change some (data, 1) = (chunks.add data).current.map _
    simp [Chunks.add, hnone]

/-- One more message for the open chunk. -/
theorem Represents.writeAll (hrep : Represents (writer, disk) chunks) {chunk : CurrentChunk}
    (hopen : writer.current = some chunk) (data : Bytes) :
    Represents (writer.writeAll data, disk) (chunks.add data) := by
  have hcurrent := hrep.current
  rw [hopen, Option.map_some] at hcurrent
  obtain ⟨messages, hmessages, hpair⟩ := Option.map_eq_some_iff.mp hcurrent.symm
  obtain ⟨hflatten, hlength⟩ := Prod.mk.inj hpair
  refine ⟨hrep.numbered, hrep.counter, ?_, ?_⟩
  · obtain ⟨finished, hcreated, hdecoded⟩ := hrep.closed
    refine ⟨finished, ?_, hdecoded⟩
    rw [hcreated]
    simp [RotatingGzWriter.writeAll, hopen]
  · simp [RotatingGzWriter.writeAll, Chunks.add, hopen, hmessages, hflatten, hlength]

theorem current_finishCurrent (writer : RotatingGzWriter gzip) (disk : Disk) :
    (writer.finishCurrent disk).1.current = none := by
  unfold RotatingGzWriter.finishCurrent
  split
  · assumption
  · rfl

theorem created_finishCurrent (writer : RotatingGzWriter gzip) (disk : Disk) :
    (writer.finishCurrent disk).2.created = disk.created := by
  unfold RotatingGzWriter.finishCurrent
  split <;> rfl

/-- What a writer is set up with stays. -/
theorem setup_finishCurrent (writer : RotatingGzWriter gzip) (disk : Disk) :
    (writer.finishCurrent disk).1.pathPrefix = writer.pathPrefix ∧
      (writer.finishCurrent disk).1.rotateBy = writer.rotateBy := by
  unfold RotatingGzWriter.finishCurrent
  split <;> exact ⟨rfl, rfl⟩

/-- Finishing twice is finishing once. -/
theorem finishCurrent_of_none (disk : Disk) (hclosed : writer.current = none) :
    writer.finishCurrent disk = (writer, disk) := by
  rw [RotatingGzWriter.finishCurrent, hclosed]

theorem setup_writeMessage (writer : RotatingGzWriter gzip) (disk : Disk) (data : Bytes)
    (readings : WriteReadings) :
    (writer.writeMessage disk data readings).1.pathPrefix = writer.pathPrefix ∧
      (writer.writeMessage disk data readings).1.rotateBy = writer.rotateBy := by
  unfold RotatingGzWriter.writeMessage RotatingGzWriter.rotateIfNeeded
  by_cases hrotate : writer.shouldRotate readings.checkedAt = true
  · rw [if_pos hrotate]
    exact setup_finishCurrent writer disk
  · rw [if_neg hrotate]
    exact ⟨rfl, rfl⟩

theorem pathPrefix_rotationRun (state : RotatingGzWriter gzip × Disk)
    (calls : List RotationCall) :
    (rotationRun state calls).1.pathPrefix = state.1.pathPrefix := by
  induction calls generalizing state with
  | nil => rfl
  | cons call rest ih =>
      apply (ih (rotationStep state call)).trans
      cases call with
      | writeMessage data readings => exact (setup_writeMessage state.1 state.2 data readings).1
      | finishCurrent => exact (setup_finishCurrent state.1 state.2).1

/-- A message goes to a new chunk exactly when `shouldRotate` says so. -/
theorem Represents.writeMessage (hrep : Represents (writer, disk) chunks) (data : Bytes)
    (readings : WriteReadings) :
    Represents (writer.writeMessage disk data readings)
      (chunks.push (writer.shouldRotate readings.checkedAt) data) := by
  unfold RotatingGzWriter.writeMessage RotatingGzWriter.rotateIfNeeded Chunks.push
  by_cases hrotate : writer.shouldRotate readings.checkedAt = true
  · rw [if_pos hrotate, if_pos hrotate]
    exact hrep.finishCurrent.openNew (current_finishCurrent writer disk) readings data
  · rw [if_neg hrotate, if_neg hrotate]
    cases hopen : writer.current with
    | none =>
        rw [RotatingGzWriter.shouldRotate, hopen] at hrotate
        exact absurd rfl hrotate
    | some chunk => exact hrep.writeAll hopen data

/-- The chunks after one more call. -/
theorem Represents.step {state : RotatingGzWriter gzip × Disk} (hrep : Represents state chunks)
    (call : RotationCall) :
    ∃ next, Represents (rotationStep state call) next ∧
      next.all.flatten = chunks.all.flatten ++ call.message?.toList := by
  cases call with
  | writeMessage data readings =>
      exact ⟨_, Represents.writeMessage hrep data readings, chunks.flatten_all_push _ data⟩
  | finishCurrent =>
      refine ⟨chunks.close, Represents.finishCurrent hrep, ?_⟩
      rw [chunks.all_close]
      exact (List.append_nil _).symm

/-- Over a run, the chunks take up the messages in order. -/
theorem Represents.run {state : RotatingGzWriter gzip × Disk} (hrep : Represents state chunks)
    (calls : List RotationCall) :
    ∃ next, Represents (rotationRun state calls) next ∧
      next.all.flatten = chunks.all.flatten ++ calls.filterMap RotationCall.message? := by
  induction calls generalizing state chunks with
  | nil => exact ⟨chunks, hrep, (List.append_nil _).symm⟩
  | cons call rest ih =>
      obtain ⟨next, hnext, hstep⟩ := hrep.step call
      obtain ⟨last, hlast, hrun⟩ := ih hnext
      refine ⟨last, hlast, ?_⟩
      rw [hrun, hstep, List.append_assoc]
      cases call <;> rfl

/-! ## Where the cuts are -/

/-- What the rotation mode says about the chunks while nothing else closes them. -/
structure KeepsMode (rotateBy : RotateBy) (chunks : Chunks Bytes) : Prop where
  count : ∀ n, rotateBy = .count n → chunks.Full (max n 1)
  never : rotateBy = .never → chunks.closed = []

theorem KeepsMode.writeMessage (hrep : Represents (writer, disk) chunks)
    (hmode : KeepsMode writer.rotateBy chunks) (data : Bytes) (checkedAt : Instant) :
    KeepsMode writer.rotateBy (chunks.push (writer.shouldRotate checkedAt) data) := by
  have hcurrent := hrep.current
  refine ⟨fun n hn => ?_, fun hnever => ?_⟩
  · apply (hmode.count n hn).push (by omega)
    intro messages hmessages
    -- the open chunk is not empty, so a threshold of zero cuts as one of one does
    have hpos : messages ≠ [] := by
      rintro rfl
      apply chunks.nil_not_mem
      rw [Option.mem_def.mp hmessages]
      exact List.mem_append_right _ List.mem_cons_self
    have hlength := List.length_pos_iff.mpr hpos
    rw [Option.mem_def.mp hmessages, Option.map_some] at hcurrent
    obtain ⟨chunk, hopen, hpair⟩ := Option.map_eq_some_iff.mp hcurrent
    obtain ⟨-, hwritten⟩ := Prod.mk.inj hpair
    have hrotate : writer.shouldRotate checkedAt = decide (n ≤ chunk.messagesWritten) := by
      rw [RotatingGzWriter.shouldRotate, hopen, hn]
    rw [hrotate, decide_eq_true_eq, hwritten]
    omega
  · have hclosed := hmode.never hnever
    unfold Chunks.push
    cases hopen : writer.current with
    | none =>
        rw [hopen, Option.map_none] at hcurrent
        have hnone : chunks.current = none := Option.map_eq_none_iff.mp hcurrent.symm
        simp [RotatingGzWriter.shouldRotate, hopen, Chunks.add, Chunks.close, Chunks.all, hclosed,
          hnone]
    | some chunk =>
        simp [RotatingGzWriter.shouldRotate, hopen, hnever, Chunks.add, hclosed]

/-- Over writes alone, the mode alone decides where the cuts are. -/
theorem KeepsMode.run {rotateBy : RotateBy} {state : RotatingGzWriter gzip × Disk}
    (hrotateBy : state.1.rotateBy = rotateBy) (hrep : Represents state chunks)
    (hmode : KeepsMode rotateBy chunks) {calls : List RotationCall}
    (hwrites : RotationCall.finishCurrent ∉ calls) :
    ∃ next, Represents (rotationRun state calls) next ∧ KeepsMode rotateBy next ∧
      next.all.flatten = chunks.all.flatten ++ calls.filterMap RotationCall.message? := by
  induction calls generalizing state chunks with
  | nil => exact ⟨chunks, hrep, hmode, (List.append_nil _).symm⟩
  | cons call rest ih =>
      rw [List.mem_cons, not_or] at hwrites
      cases call with
      | finishCurrent => exact absurd rfl hwrites.1
      | writeMessage data readings =>
          subst hrotateBy
          obtain ⟨last, hlast, hkept, hrun⟩ :=
            ih (setup_writeMessage state.1 state.2 data readings).2
              (Represents.writeMessage hrep data readings)
              (KeepsMode.writeMessage hrep hmode data readings.checkedAt) hwrites.2
          refine ⟨last, hlast, hkept, ?_⟩
          rw [hrun, chunks.flatten_all_push, List.append_assoc]
          rfl

/-- Once the open chunk is finished, every file holds its chunk. -/
theorem Represents.decoded (hrep : Represents (writer, disk) chunks) :
    (writer.drop disk).created.map ((writer.drop disk).decoded gzip) =
      chunks.all.map fun chunk => some chunk.flatten := by
  obtain ⟨finished, hcreated, hdecoded⟩ := hrep.finishCurrent.closed
  rw [current_finishCurrent, Option.map_none, Option.toList_none, List.append_nil] at hcreated
  rw [RotatingGzWriter.drop, hcreated, hdecoded]
  rfl

/-- Rotation partitions the output: once the writer is finished or dropped, the files
in the order of their counters decompress to chunks of messages, none of them empty,
which make up the messages written, whatever the mode, the clock and the calls that
finish a chunk.  No path is used twice, finishing again changes nothing, and where
only messages are written the mode decides how many a chunk has. -/
theorem rotation_partitions (pathPrefix : PathPrefix) (rotateBy : RotateBy)
    (compression : gzip.Compression) (files : AList fun _ : Text => Bytes)
    (calls : List RotationCall) (state : RotatingGzWriter gzip × Disk)
    (hstate : state =
      rotationRun (.withCompression pathPrefix rotateBy compression, ⟨files, []⟩) calls)
    (finished : RotatingGzWriter gzip × Disk)
    (hfinished : finished = state.1.finishCurrent state.2) :
    (∃ chunks : List (List Bytes),
        finished.2.created.map (finished.2.decoded gzip) =
            chunks.map (fun chunk => some chunk.flatten) ∧
          chunks.flatten = calls.filterMap RotationCall.message? ∧ [] ∉ chunks ∧
          (RotationCall.finishCurrent ∉ calls →
            (∀ n, rotateBy = .count n → ∀ chunk ∈ chunks.dropLast, chunk.length = max n 1) ∧
              (rotateBy = .never → chunks.length ≤ 1))) ∧
      Numbered pathPrefix finished.2.created ∧ finished.2.created.Nodup ∧
      finished.2 = state.1.drop state.2 ∧ finished.1.finishCurrent finished.2 = finished := by
  subst hfinished
  let start : RotatingGzWriter gzip × Disk :=
    (.withCompression pathPrefix rotateBy compression, ⟨files, []⟩)
  have hstart : Represents start Chunks.empty :=
    represents_withCompression pathPrefix rotateBy compression files
  -- every chunk has its own number, so no path comes twice, whatever the stamps are
  have hnumbered : Numbered pathPrefix (state.1.finishCurrent state.2).2.created := by
    obtain ⟨chunks, hrep, -⟩ := hstart.run calls
    have hpaths := hrep.numbered
    rw [pathPrefix_rotationRun, ← hstate] at hpaths
    rw [created_finishCurrent]
    exact hpaths
  refine ⟨?_, hnumbered, hnumbered.nodup, rfl, finishCurrent_of_none _ (current_finishCurrent _ _)⟩
  by_cases hwrites : RotationCall.finishCurrent ∉ calls
  · -- only messages: the mode decides where a chunk ends
    have hmode : KeepsMode rotateBy Chunks.empty :=
      ⟨fun n _ => Chunks.full_empty (max n 1), fun _ => rfl⟩
    obtain ⟨chunks, hrep, hkept, hflatten⟩ := KeepsMode.run rfl hstart hmode hwrites
    rw [← hstate] at hrep
    refine ⟨chunks.all, hrep.decoded, hflatten, chunks.nil_not_mem, fun _ => ⟨fun n hn => ?_,
      fun hnever => ?_⟩⟩
    · exact (hkept.count n hn).length_eq
    · rw [Chunks.all, hkept.never hnever, List.nil_append]
      exact Option.length_toList_le
  · -- a call may finish a chunk before the mode does
    obtain ⟨chunks, hrep, hflatten⟩ := hstart.run calls
    rw [← hstate] at hrep
    exact ⟨chunks.all, hrep.decoded, hflatten, chunks.nil_not_mem, fun hnot => absurd hnot hwrites⟩

end Partition

/-! ## Three messages, two for each chunk -/

namespace TwoPerChunk

/-- Compression that puts a magic number in front. -/
def stored : Gzip where
  Compression := Unit
  compress _ data := 0x1f :: 0x8b :: data
  decompress file := if file.take 2 = [0x1f, 0x8b] then some (file.drop 2) else none
  decompress_compress _ _ := rfl

/-- The prefix of the chunks. -/
def pathPrefix : PathPrefix := ⟨some "out".toList, some "/tmp".toList⟩

/-- A message; the clock plays no part in this rotation. -/
def write (data : Bytes) : RotationCall :=
  .writeMessage data ⟨0, "20260101000000".toList, 0⟩

/-- Three messages. -/
def calls : List RotationCall := [write [0x61], write [0x62], write [0x63]]

/-- The writer and the disk behind them, with two messages to a chunk. -/
def state : RotatingGzWriter stored × Disk :=
  rotationRun (.withCompression pathPrefix (.count 2) (), ⟨∅, []⟩) calls

/-- Each file but the last has two messages; the third goes to the second file. -/
theorem third_message_rotates :
    (state.1.drop state.2).created.map ((state.1.drop state.2).decoded stored) =
        [some [0x61, 0x62], some [0x63]] ∧
      (state.1.drop state.2).created.Nodup := by
  obtain ⟨-, -, hnodup, hdrop, -⟩ :=
    rotation_partitions pathPrefix (.count 2) () ∅ calls state (by rw [state]) _ rfl
  rw [hdrop] at hnodup
  refine ⟨?_, hnodup⟩
  decide +kernel

end TwoPerChunk

end Tlscap
