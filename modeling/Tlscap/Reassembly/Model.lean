import Tlscap.Basic
import Tlscap.Library.OrderedMap

/-!
# The stream reassembler

`StreamReassembler` rebuilds one direction of a TCP stream.  Delivered bytes
wait in `contiguous`; segments that start past the next expected byte wait in
`pending`, keyed by their offset from `baseSeq`.  The loops of the source pop
the first entry of `pending` per iteration, so each is run here with the number
of entries as its fuel.

A push places its payload by the offset of its first byte (`pushRelative`):

* **Behind the cursor.**  All of it was delivered before and it is dropped, or its new
  tail is delivered (`deliver`).
* **At the cursor.**  It is delivered, and so is every pending segment that it closes the
  gap to (`drainPending`).
* **Past the cursor.**  It is buffered, and the limits may drop pending segments
  (`bufferPending`).

`bufferPending` reads the clock twice, once when it opens a gap and once when it
measures the age of the open gap; both readings are arguments.
-/

namespace Tlscap

/-- One consumed slice of reassembled bytes and the captured packet it came from. -/
structure SourcePiece where
  packetIndex : ℕ
  range : ByteRange
  deriving DecidableEq, Repr

/-- Bytes of one packet, and where they sat in it. -/
structure Segment where
  packetIndex : ℕ
  range : ByteRange
  data : Bytes
  deriving DecidableEq, Repr

/-- A segment without its first `trim` bytes. -/
def Segment.trimmed (seg : Segment) (trim : ℕ) : Segment where
  packetIndex := seg.packetIndex
  range := ⟨seg.range.start + trim, seg.range.stop⟩
  data := seg.data.drop trim

/-! ## Outcomes and limits -/

/-- The result of pushing one packet's payload. -/
inductive PushOutcome
  | delivered
  | duplicateDiscarded
  | bufferedOutOfOrder
  | gapAbandoned (bytes : ℕ)
  deriving DecidableEq, Repr

/-- Whether bytes were lost for good. -/
def PushOutcome.isGapAbandoned : PushOutcome → Bool
  | .gapAbandoned _ => true
  | _ => false

/-- The three caps on buffered out-of-order data. -/
structure PendingLimits where
  maxBytes : ℕ
  maxPackets : ℕ
  maxAge : Duration
  deriving DecidableEq, Repr

/-- Reassembles one direction of a TCP stream. -/
structure StreamReassembler where
  baseSeq : Option UInt32
  nextExpectedRelative : ℕ
  contiguous : List Segment
  contiguousLen : ℕ
  pending : OrderedMap ℕ Segment
  pendingLen : ℕ
  limits : PendingLimits
  pendingSince : Option Instant
  deriving DecidableEq

namespace StreamReassembler

/-- A reassembler that has seen nothing. -/
def withPendingLimits (limits : PendingLimits) : StreamReassembler where
  baseSeq := none
  nextExpectedRelative := 0
  contiguous := []
  contiguousLen := 0
  pending := OrderedMap.empty
  pendingLen := 0
  limits := limits
  pendingSince := none

/-- Anchors the sequence arithmetic; the first call wins. -/
def setIsn (r : StreamReassembler) (firstByteSeq : UInt32) : StreamReassembler :=
  match r.baseSeq with
  | none => { r with baseSeq := some firstByteSeq }
  | some _ => r

/-- The offset of `seq` from the base, which the first call fixes if no SYN did.
The subtraction wraps around at `2 ^ 32`. -/
def relativeSeq (r : StreamReassembler) (seq : UInt32) : ℕ × StreamReassembler :=
  let base := r.baseSeq.getD seq
  ((seq - base).toNat, { r with baseSeq := some base })

/-! ## Pushing -/

/-- Appends a segment that starts at the next expected byte. -/
def deliver (r : StreamReassembler) (seg : Segment) : StreamReassembler :=
  { r with
    nextExpectedRelative := r.nextExpectedRelative + seg.data.length
    contiguousLen := r.contiguousLen + seg.data.length
    contiguous := r.contiguous ++ [seg] }

/-- The state after the first pending segment `seg` was removed. -/
def removeFirst (r : StreamReassembler) (seg : Segment) (rest : OrderedMap ℕ Segment) :
    StreamReassembler :=
  { r with pending := rest, pendingLen := r.pendingLen - seg.data.length }

/-- The loop of `drain_pending`. -/
def drainLoop : ℕ → StreamReassembler → StreamReassembler
  | 0, r => r
  | fuel + 1, r =>
      match r.pending.popFirst? with
      | none => r
      | some ((key, seg), rest) =>
          if key < r.nextExpectedRelative then
            if key + seg.data.length ≤ r.nextExpectedRelative then
              -- overtaken by the segment that closed the gap
              drainLoop fuel (r.removeFirst seg rest)
            else
              drainLoop fuel
                ((r.removeFirst seg rest).deliver (seg.trimmed (r.nextExpectedRelative - key)))
          else if key ≠ r.nextExpectedRelative then r
          else drainLoop fuel ((r.removeFirst seg rest).deliver seg)

/-- Stops the clock of the gap when nothing is pending. -/
def stopClock (r : StreamReassembler) : StreamReassembler :=
  if r.pending.isEmpty then { r with pendingSince := none } else r

/-- Moves every pending segment that is no longer behind a gap into `contiguous`. -/
def drainPending (r : StreamReassembler) : StreamReassembler :=
  (drainLoop r.pending.length r).stopClock

/-- The eviction loop of `buffer_pending`: drops the oldest pending segments until
both caps hold, and counts their bytes. -/
def evictLoop : ℕ → ℕ → StreamReassembler → ℕ × StreamReassembler
  | 0, evictedBytes, r => (evictedBytes, r)
  | fuel + 1, evictedBytes, r =>
      if r.limits.maxBytes < r.pendingLen ∨ r.limits.maxPackets < r.pending.length then
        match r.pending.popFirst? with
        | none => (evictedBytes, r)
        | some ((_, removed), rest) =>
            evictLoop fuel (evictedBytes + removed.data.length) (r.removeFirst removed rest)
      else (evictedBytes, r)

/-- Whether the open gap is older than `max_age` at the reading `checked`. -/
def ageExceeded (r : StreamReassembler) (checked : Instant) : Bool :=
  match r.pendingSince with
  | none => false
  | some since => decide (r.limits.maxAge < elapsed since checked)

/-- The state with `seg` stored at `rel`; the first pending segment starts the
clock of the gap. -/
def store (r : StreamReassembler) (rel : ℕ) (seg : Segment) (opened : Instant) :
    StreamReassembler :=
  { r with
    pendingSince := if r.pending.isEmpty then some opened else r.pendingSince
    pending := r.pending.insert rel seg
    pendingLen := r.pendingLen + seg.data.length }

/-- `buffer_pending` once the segment is stored: enforces the three caps. -/
def enforceLimits (r : StreamReassembler) (checked : Instant) : PushOutcome × StreamReassembler :=
  if r.pendingLen ≤ r.limits.maxBytes ∧ r.pending.length ≤ r.limits.maxPackets ∧
      r.ageExceeded checked = false then
    (.bufferedOutOfOrder, r)
  else if r.ageExceeded checked then
    (.gapAbandoned r.pendingLen,
      { r with pending := OrderedMap.empty, pendingLen := 0, pendingSince := none })
  else
    let (evictedBytes, r) := evictLoop r.pending.length 0 r
    (.gapAbandoned evictedBytes, r.stopClock)

/-- Buffers an out-of-order segment, keeping the longer one of two that start at
the same offset. -/
def bufferPending (r : StreamReassembler) (rel : ℕ) (seg : Segment) (opened checked : Instant) :
    PushOutcome × StreamReassembler :=
  match r.pending.find? rel with
  | some existing =>
      if seg.data.length ≤ existing.data.length then (.duplicateDiscarded, r)
      else
        (({ r with pendingLen := r.pendingLen - existing.data.length }).store
          rel seg opened).enforceLimits checked
  | none => (r.store rel seg opened).enforceLimits checked

/-- Places a payload that starts `rel` bytes after the base. -/
def pushRelative (r : StreamReassembler) (packetIndex : ℕ) (range : ByteRange) (payload : Bytes)
    (rel : ℕ) (opened checked : Instant) : PushOutcome × StreamReassembler :=
  let seg : Segment := ⟨packetIndex, range, payload⟩
  if rel + payload.length ≤ r.nextExpectedRelative then (.duplicateDiscarded, r)
  else if rel < r.nextExpectedRelative then
    -- a partial retransmit: its new tail starts at the next expected byte
    (.delivered, (r.deliver (seg.trimmed (r.nextExpectedRelative - rel))).drainPending)
  else if rel = r.nextExpectedRelative then (.delivered, (r.deliver seg).drainPending)
  else r.bufferPending rel seg opened checked

/-- Feeds one packet's TCP payload in. -/
def push (r : StreamReassembler) (packetIndex : ℕ) (seq : UInt32) (range : ByteRange)
    (payload : Bytes) (opened checked : Instant) : PushOutcome × StreamReassembler :=
  if payload.isEmpty then (.duplicateDiscarded, r)
  else
    let (rel, r) := r.relativeSeq seq
    r.pushRelative packetIndex range payload rel opened checked

/-! ## Reading -/

/-- The loop of `peek`, with the number of bytes still wanted. -/
def peekLoop : List Segment → ℕ → Bytes
  | [], _ => []
  | seg :: rest, wanted =>
      if wanted = 0 then []
      else
        let take := min wanted seg.data.length
        seg.data.take take ++ peekLoop rest (wanted - take)

/-- Up to `n` contiguous bytes from the front, without consuming them. -/
def peek (r : StreamReassembler) (n : ℕ) : Bytes := peekLoop r.contiguous n

/-- The loop of `take_bytes`: the bytes, their provenance and the segments left.
`none` is the `expect` on an empty queue. -/
def takeLoop : List Segment → ℕ → Option (Bytes × List SourcePiece × List Segment)
  | segs, 0 => some ([], [], segs)
  | [], _ + 1 => none
  | seg :: rest, remaining + 1 =>
      let take := min (remaining + 1) seg.data.length
      let piece : SourcePiece := ⟨seg.packetIndex, ⟨seg.range.start, seg.range.start + take⟩⟩
      if take = seg.data.length then
        match takeLoop rest (remaining + 1 - take) with
        | none => none
        | some (out, pieces, left) => some (seg.data.take take ++ out, piece :: pieces, left)
      else
        -- the segment outlasts the request, so nothing remains to take
        some (seg.data.take take, [piece], seg.trimmed take :: rest)

/-- Consumes exactly `n` contiguous bytes; `none` where the source panics. -/
def takeBytes (r : StreamReassembler) (n : ℕ) :
    Option ((Bytes × List SourcePiece) × StreamReassembler) :=
  if n ≤ r.contiguousLen then
    match takeLoop r.contiguous n with
    | none => none
    | some (out, pieces, left) =>
        some ((out, pieces), { r with contiguous := left, contiguousLen := r.contiguousLen - n })
  else none

end StreamReassembler

end Tlscap
