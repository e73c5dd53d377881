import Mathlib.Data.List.Basic
import Mathlib.Order.Basic
import Mathlib.Order.Nat
import Mathlib.Data.UInt

/-!
# Bytes, text, clock readings and ranges

The plain data every module of the model shares.  A clock reading is a number
of nanoseconds; `elapsed` saturates at `0`, as a truncated subtraction does.
-/

namespace Tlscap

/-- A byte buffer. -/
abbrev Bytes := List UInt8

/-- Text, as its characters. -/
abbrev Text := List Char

/-- A reading of the monotonic clock, in nanoseconds. -/
abbrev Instant := ℕ

/-- A length of time, in nanoseconds. -/
abbrev Duration := ℕ

/-- A range of byte positions, `start` included and `stop` excluded. -/
structure ByteRange where
  start : ℕ
  stop : ℕ
  deriving DecidableEq, Repr

/-- `since.elapsed()` at the reading `now`. -/
def elapsed (since now : Instant) : Duration := now - since

/-- The `length` bytes of a stream that start at `offset`. -/
def slice (stream : Bytes) (offset length : ℕ) : Bytes := (stream.drop offset).take length

theorem length_slice {stream : Bytes} {offset length : ℕ}
    (h : offset + length ≤ stream.length) : (slice stream offset length).length = length := by
  rw [slice, List.length_take, List.length_drop]
  omega

theorem take_append_slice (stream : Bytes) (offset length : ℕ) :
    stream.take offset ++ slice stream offset length = stream.take (offset + length) := by
  rw [slice, List.take_add]

theorem drop_slice (stream : Bytes) (offset length trim : ℕ) :
    (slice stream offset length).drop trim = slice stream (offset + trim) (length - trim) := by
  rw [slice, slice, List.drop_take, List.drop_drop]

end Tlscap
