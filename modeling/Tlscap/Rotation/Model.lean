import Tlscap.Output.Format
import Mathlib.Data.List.AList

/-!
# Rotated output

The writer of gzip chunks.  Compression comes from another crate and is a parameter;
the disk and the clock readings of each call are arguments.  A chunk's file is empty
from its creation until the encoder is finished, and then holds what the encoder was
given, compressed.

A message is written in two steps.  First `rotateIfNeeded` sees to it that a chunk is
open:

* **Full.**  The open chunk has its messages or its age: it is finished, and the next
  one is opened under the next number and another time stamp.
* **Not full.**  It stays open.
* **None open.**  One is opened: the first at the first message, not before.

Then the message goes to the encoder of the open chunk.  Finishing the writer and
dropping it both finish the open chunk, and only the first to come does something.
-/

namespace Tlscap

/-- What the writer uses of the gzip crate: what is compressed comes back. -/
structure Gzip where
  Compression : Type
  compress : Compression → Bytes → Bytes
  decompress : Bytes → Option Bytes
  decompress_compress : ∀ compression data, decompress (compress compression data) = some data

/-- When to start another chunk: after some messages, after some time or never. -/
inductive RotateBy
  | count (n : ℕ)
  | seconds (d : Duration)
  | never
  deriving DecidableEq, Repr

/-- A path prefix, as `file_name` and `parent` read it. -/
structure PathPrefix where
  fileName : Option Text
  parent : Option Text
  deriving DecidableEq, Repr

/-- `join` of a directory and a file name. -/
def joinPath (dir name : Text) : Text :=
  if dir.getLast? = some '/' then dir ++ name else dir ++ '/' :: name

/-- The path of a chunk: counter and time stamp behind the file name of the prefix. -/
def chunkPath (pathPrefix : PathPrefix) (counter : ℕ) (stamp : Text) : Text :=
  let name := pathPrefix.fileName.getD [] ++
    ('_' :: (decimal counter).leftpad 6 '0' ++ ('_' :: stamp ++ ".gz".toList))
  match pathPrefix.parent with
  | some dir => if dir.isEmpty then name else joinPath dir name
  | none => name

/-- The files by path, and the paths in the order they were created in.  Creating and writing
files does not fail here; in the source such an error ends the program. -/
structure Disk where
  files : AList fun _ : Text => Bytes
  created : List Text

namespace Disk

/-- `File::create` where it succeeds: an existing file is emptied. -/
def create (disk : Disk) (path : Text) : Disk :=
  ⟨disk.files.insert path [], disk.created ++ [path]⟩

/-- What an encoder that finishes leaves at the path. -/
def write (disk : Disk) (path : Text) (contents : Bytes) : Disk :=
  ⟨disk.files.insert path contents, disk.created⟩

end Disk

/-! ## The writer -/

/-- The chunk being written; `encoder` is what its encoder has been given. -/
structure CurrentChunk where
  encoder : Bytes
  path : Text
  messagesWritten : ℕ
  openedAt : Instant
  deriving DecidableEq, Repr

/-- `RotatingGzWriter`: the open chunk, if any, and how many were opened. -/
structure RotatingGzWriter (gzip : Gzip) where
  pathPrefix : PathPrefix
  rotateBy : RotateBy
  compression : gzip.Compression
  current : Option CurrentChunk
  chunkCounter : ℕ

/-- The clock readings of one `write_message`: whether to rotate is decided at
`checkedAt`, and a new chunk is stamped and opened after that. -/
structure WriteReadings where
  checkedAt : Instant
  stamp : Text
  openedAt : Instant
  deriving DecidableEq, Repr

namespace RotatingGzWriter

variable {gzip : Gzip}

/-- No chunk is opened before the first message. -/
def withCompression (pathPrefix : PathPrefix) (rotateBy : RotateBy)
    (compression : gzip.Compression) : RotatingGzWriter gzip :=
  ⟨pathPrefix, rotateBy, compression, none, 0⟩

/-- Whether the next message goes to a new chunk. -/
def shouldRotate (writer : RotatingGzWriter gzip) (checkedAt : Instant) : Bool :=
  match writer.current, writer.rotateBy with
  | none, _ => true
  | some _, .never => false
  | some chunk, .count n => n ≤ chunk.messagesWritten
  | some chunk, .seconds d => d ≤ elapsed chunk.openedAt checkedAt

/-- Closes the open chunk, which is compressed only then. -/
def finishCurrent (writer : RotatingGzWriter gzip) (disk : Disk) :
    RotatingGzWriter gzip × Disk :=
  match writer.current with
  | none => (writer, disk)
  | some chunk =>
      ({ writer with current := none },
        disk.write chunk.path (gzip.compress writer.compression chunk.encoder))

/-- Opens the next chunk; its number starts at one. -/
def openNew (writer : RotatingGzWriter gzip) (disk : Disk) (readings : WriteReadings) :
    RotatingGzWriter gzip × Disk :=
  let chunkCounter := writer.chunkCounter + 1
  let path := chunkPath writer.pathPrefix chunkCounter readings.stamp
  ({ writer with
      chunkCounter := chunkCounter
      current := some ⟨[], path, 0, readings.openedAt⟩ },
    disk.create path)

/-- Closes a chunk that is full, and opens one wherever none is left open. -/
def rotateIfNeeded (writer : RotatingGzWriter gzip) (disk : Disk) (readings : WriteReadings) :
    RotatingGzWriter gzip × Disk :=
  if writer.shouldRotate readings.checkedAt then
    let (writer, disk) := writer.finishCurrent disk
    writer.openNew disk readings
  else (writer, disk)

/-- Hands a message to the encoder of the open chunk. -/
def writeAll (writer : RotatingGzWriter gzip) (data : Bytes) : RotatingGzWriter gzip :=
  { writer with
    current := writer.current.map fun chunk =>
      { chunk with
        encoder := chunk.encoder ++ data
        messagesWritten := chunk.messagesWritten + 1 } }

/-- Writes one message; `rotateIfNeeded` leaves a chunk open. -/
def writeMessage (writer : RotatingGzWriter gzip) (disk : Disk) (data : Bytes)
    (readings : WriteReadings) : RotatingGzWriter gzip × Disk :=
  let (writer, disk) := writer.rotateIfNeeded disk readings
  (writer.writeAll data, disk)

/-- Dropping the writer finishes the open chunk. -/
def drop (writer : RotatingGzWriter gzip) (disk : Disk) : Disk := (writer.finishCurrent disk).2

end RotatingGzWriter

/-! ## Runs of the writer -/

/-- A call of the writer. -/
inductive RotationCall
  | writeMessage (data : Bytes) (readings : WriteReadings)
  | finishCurrent
  deriving DecidableEq, Repr

namespace RotationCall

/-- The message a call writes. -/
def message? : RotationCall → Option Bytes
  | writeMessage data _ => some data
  | finishCurrent => none

end RotationCall

/-- The writer and the disk after one more call. -/
def rotationStep {gzip : Gzip} (state : RotatingGzWriter gzip × Disk) (call : RotationCall) :
    RotatingGzWriter gzip × Disk :=
  match call with
  | .writeMessage data readings => state.1.writeMessage state.2 data readings
  | .finishCurrent => state.1.finishCurrent state.2

/-- The writer and the disk after some calls. -/
def rotationRun {gzip : Gzip} (state : RotatingGzWriter gzip × Disk) (calls : List RotationCall) :
    RotatingGzWriter gzip × Disk :=
  calls.foldl rotationStep state

end Tlscap
