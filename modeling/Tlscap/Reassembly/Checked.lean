import Tlscap.Reassembly.Operations
import Mathlib.Data.Nat.PSub

/-!
# Checked counters

The counters of the reassembler are machine words, and a subtraction below zero ends
the program or wraps around.  Here the operations are written once more with
subtractions that fail instead, and with the per-segment update of `contiguous_len`
that `take_bytes` makes.

On a reassembler whose counters are right (`Sized`) none of them fails, and each does
what the operation itself does.  There are three places where something is subtracted:

* **A pending segment is removed**: the counter covers it, as it is the sum of all their
  lengths (`Sized.removeFirstChecked`), and the loops that drain and evict remove one
  after the other.
* **A pending segment is replaced** by a longer one: the shorter one was counted
  (`Sized.bufferPendingChecked`).
* **Bytes are taken**: the loop takes off the counter what it takes out of the queue,
  and the source asks for no more than there is (`Sized.takeBytesChecked`).
-/

namespace Tlscap

namespace StreamReassembler

/-! ## The operations -/

/-- `removeFirst`, if the counter allows it. -/
def removeFirstChecked (r : StreamReassembler) (seg : Segment) (rest : OrderedMap ℕ Segment) :
    Option StreamReassembler :=
  (r.pendingLen.psub seg.data.length).map fun pendingLen =>
    { r with pending := rest, pendingLen := pendingLen }

/-- The loop of `drain_pending`, with checked counters. -/
def drainLoopChecked : ℕ → StreamReassembler → Option StreamReassembler
  | 0, r => some r
  | fuel + 1, r =>
      match r.pending.popFirst? with
      | none => some r
      | some ((key, seg), rest) =>
          if key < r.nextExpectedRelative then
            (r.removeFirstChecked seg rest).bind fun removed =>
              if key + seg.data.length ≤ r.nextExpectedRelative then drainLoopChecked fuel removed
              else
                drainLoopChecked fuel
                  (removed.deliver (seg.trimmed (r.nextExpectedRelative - key)))
          else if key ≠ r.nextExpectedRelative then some r
          else
            (r.removeFirstChecked seg rest).bind fun removed =>
              drainLoopChecked fuel (removed.deliver seg)

/-- The eviction loop of `buffer_pending`, with checked counters. -/
def evictLoopChecked : ℕ → ℕ → StreamReassembler → Option (ℕ × StreamReassembler)
  | 0, evictedBytes, r => some (evictedBytes, r)
  | fuel + 1, evictedBytes, r =>
      if r.limits.maxBytes < r.pendingLen ∨ r.limits.maxPackets < r.pending.length then
        match r.pending.popFirst? with
        | none => some (evictedBytes, r)
        | some ((_, removed), rest) =>
            (r.removeFirstChecked removed rest).bind
              (evictLoopChecked fuel (evictedBytes + removed.data.length))
      else some (evictedBytes, r)

/-- `enforceLimits`, with checked counters. -/
def enforceLimitsChecked (r : StreamReassembler) (checked : Instant) :
    Option (PushOutcome × StreamReassembler) :=
  if r.pendingLen ≤ r.limits.maxBytes ∧ r.pending.length ≤ r.limits.maxPackets ∧
      r.ageExceeded checked = false then
    some (.bufferedOutOfOrder, r)
  else if r.ageExceeded checked then
    some (.gapAbandoned r.pendingLen,
      { r with pending := OrderedMap.empty, pendingLen := 0, pendingSince := none })
  else
    (evictLoopChecked r.pending.length 0 r).map fun evicted =>
      (.gapAbandoned evicted.1, evicted.2.stopClock)

/-- `buffer_pending`, with checked counters. -/
def bufferPendingChecked (r : StreamReassembler) (rel : ℕ) (seg : Segment)
    (opened checked : Instant) : Option (PushOutcome × StreamReassembler) :=
  match r.pending.find? rel with
  | some existing =>
      if seg.data.length ≤ existing.data.length then some (.duplicateDiscarded, r)
      else
        (r.pendingLen.psub existing.data.length).bind fun pendingLen =>
          (({ r with pendingLen := pendingLen }).store rel seg opened).enforceLimitsChecked checked
  | none => (r.store rel seg opened).enforceLimitsChecked checked

/-- `push_relative`, with checked counters. -/
def pushRelativeChecked (r : StreamReassembler) (packetIndex : ℕ) (range : ByteRange)
    (payload : Bytes) (rel : ℕ) (opened checked : Instant) :
    Option (PushOutcome × StreamReassembler) :=
  let seg : Segment := ⟨packetIndex, range, payload⟩
  let drained (r : StreamReassembler) : Option (PushOutcome × StreamReassembler) :=
    (drainLoopChecked r.pending.length r).map fun r => (.delivered, r.stopClock)
  if rel + payload.length ≤ r.nextExpectedRelative then some (.duplicateDiscarded, r)
  else if rel < r.nextExpectedRelative then
    drained (r.deliver (seg.trimmed (r.nextExpectedRelative - rel)))
  else if rel = r.nextExpectedRelative then drained (r.deliver seg)
  else r.bufferPendingChecked rel seg opened checked

/-- `push`, with checked counters. -/
def pushChecked (r : StreamReassembler) (packetIndex : ℕ) (seq : UInt32) (range : ByteRange)
    (payload : Bytes) (opened checked : Instant) : Option (PushOutcome × StreamReassembler) :=
  if payload.isEmpty then some (.duplicateDiscarded, r)
  else
    let (rel, r) := r.relativeSeq seq
    r.pushRelativeChecked packetIndex range payload rel opened checked

/-- The loop of `take_bytes` with the counter it updates for every segment; `none` is the
`expect` on an empty queue as well. -/
def takeLoopChecked : List Segment → ℕ → ℕ →
    Option (Bytes × List SourcePiece × List Segment × ℕ)
  | segs, 0, contiguousLen => some ([], [], segs, contiguousLen)
  | [], _ + 1, _ => none
  | seg :: rest, remaining + 1, contiguousLen =>
      let take := min (remaining + 1) seg.data.length
      let piece : SourcePiece := ⟨seg.packetIndex, ⟨seg.range.start, seg.range.start + take⟩⟩
      (contiguousLen.psub take).bind fun contiguousLen =>
        if take = seg.data.length then
          (takeLoopChecked rest (remaining + 1 - take) contiguousLen).map fun taken =>
            (seg.data.take take ++ taken.1, piece :: taken.2.1, taken.2.2)
        else some (seg.data.take take, [piece], seg.trimmed take :: rest, contiguousLen)

/-- `take_bytes`, with checked counters. -/
def takeBytesChecked (r : StreamReassembler) (n : ℕ) :
    Option ((Bytes × List SourcePiece) × StreamReassembler) :=
  if n ≤ r.contiguousLen then
    (takeLoopChecked r.contiguous n r.contiguousLen).map fun taken =>
      ((taken.1, taken.2.1),
        { r with contiguous := taken.2.2.1, contiguousLen := taken.2.2.2 })
  else none

/-! ## Nothing fails -/

theorem psub_of_le {m n : ℕ} (h : n ≤ m) : m.psub n = some (m - n) :=
  Nat.psub_eq_some.mpr (Nat.sub_add_cancel h)

variable {r : StreamReassembler}

/-- The counter covers the first pending segment. -/
theorem Sized.removeFirstChecked (h : r.Sized) {key : ℕ} {seg : Segment}
    {rest : OrderedMap ℕ Segment} (hpop : r.pending.popFirst? = some ((key, seg), rest)) :
    r.removeFirstChecked seg rest = some (r.removeFirst seg rest) := by
  have htotal := OrderedMap.popFirst?_total (fun seg : Segment => seg.data.length) hpop
  have hlen := h.pendingLen_eq
  simp only at htotal
  unfold StreamReassembler.removeFirstChecked
  rw [psub_of_le (by omega)]
  rfl

theorem Sized.drainLoopChecked (h : r.Sized) (fuel : ℕ) :
    StreamReassembler.drainLoopChecked fuel r = some (StreamReassembler.drainLoop fuel r) := by
  induction fuel generalizing r with
  | zero => rfl
  | succ fuel ih =>
      unfold StreamReassembler.drainLoopChecked StreamReassembler.drainLoop
      cases hpop : r.pending.popFirst? with
      | none => rfl
      | some popped =>
          obtain ⟨⟨key, seg⟩, rest⟩ := popped
          have hremoved := h.removeFirst hpop
          dsimp only
          rw [h.removeFirstChecked hpop]
          simp only [Option.bind_some]
          split_ifs
          · exact ih hremoved
          · exact ih (hremoved.deliver _)
          · rfl
          · exact ih (hremoved.deliver _)

theorem Sized.evictLoopChecked (h : r.Sized) (fuel evictedBytes : ℕ) :
    StreamReassembler.evictLoopChecked fuel evictedBytes r =
      some (evictLoop fuel evictedBytes r) := by
  induction fuel generalizing evictedBytes r with
  | zero => rfl
  | succ fuel ih =>
      unfold StreamReassembler.evictLoopChecked evictLoop
      split_ifs
      · cases hpop : r.pending.popFirst? with
        | none => rfl
        | some popped =>
            obtain ⟨⟨key, removed⟩, rest⟩ := popped
            dsimp only
            rw [h.removeFirstChecked hpop, Option.bind_some]
            exact ih (h.removeFirst hpop) _
      · rfl

theorem Sized.enforceLimitsChecked (h : r.Sized) (checked : Instant) :
    r.enforceLimitsChecked checked = some (r.enforceLimits checked) := by
  unfold StreamReassembler.enforceLimitsChecked enforceLimits
  rw [h.evictLoopChecked]
  split_ifs <;> rfl

theorem Sized.bufferPendingChecked (h : r.Sized) {rel : ℕ} {seg : Segment}
    (hseg : 0 < seg.data.length) (opened checked : Instant) :
    r.bufferPendingChecked rel seg opened checked =
      some (r.bufferPending rel seg opened checked) := by
  unfold StreamReassembler.bufferPendingChecked StreamReassembler.bufferPending
  cases hfind : r.pending.find? rel with
  | some existing =>
      dsimp only
      split_ifs
      · rfl
      · -- the segment that is replaced was counted
        have hle : existing.data.length ≤ r.pending.total fun seg => seg.data.length :=
          OrderedMap.le_total (fun seg : Segment => seg.data.length)
            (OrderedMap.find?_eq_some_iff.mp hfind)
        rw [psub_of_le (h.pendingLen_eq ▸ hle), Option.bind_some]
        exact (h.replace hseg hfind opened).enforceLimitsChecked checked
  | none => exact (h.store hseg hfind opened).enforceLimitsChecked checked

theorem Sized.pushRelativeChecked (h : r.Sized) (packetIndex : ℕ) (range : ByteRange)
    {payload : Bytes} (hpayload : 0 < payload.length) (rel : ℕ) (opened checked : Instant) :
    r.pushRelativeChecked packetIndex range payload rel opened checked =
      some (r.pushRelative packetIndex range payload rel opened checked) := by
  have hdrained : ∀ r' : StreamReassembler, r'.Sized →
      (StreamReassembler.drainLoopChecked r'.pending.length r').map
        (fun r => (PushOutcome.delivered, r.stopClock)) = some (.delivered, r'.drainPending) := by
    intro r' h'
    rw [h'.drainLoopChecked]
    rfl
  unfold StreamReassembler.pushRelativeChecked pushRelative
  dsimp only
  split_ifs
  · rfl
  · exact hdrained _ (h.deliver _)
  · exact hdrained _ (h.deliver _)
  · exact h.bufferPendingChecked hpayload opened checked

/-- No subtraction of a push fails. -/
theorem Sized.pushChecked (h : r.Sized) (packetIndex : ℕ) (seq : UInt32) (range : ByteRange)
    (payload : Bytes) (opened checked : Instant) :
    r.pushChecked packetIndex seq range payload opened checked =
      some (r.push packetIndex seq range payload opened checked) := by
  unfold StreamReassembler.pushChecked StreamReassembler.push
  split_ifs with hempty
  · rfl
  · have hpayload : 0 < payload.length :=
      List.length_pos_iff.mpr fun hnil => hempty (List.isEmpty_iff.mpr hnil)
    have hrebased : (r.relativeSeq seq).2.Sized :=
      ⟨h.contiguousLen_eq, h.pendingLen_eq, h.pending_pos⟩
    exact hrebased.pushRelativeChecked packetIndex range hpayload _ opened checked

/-- The loop of `take_bytes` takes off the counter what it takes out of the queue. -/
theorem takeLoopChecked_eq (segs : List Segment) (n : ℕ) {contiguousLen : ℕ}
    (hn : n ≤ contiguousLen) :
    takeLoopChecked segs n contiguousLen =
      (takeLoop segs n).map fun taken => (taken.1, taken.2.1, taken.2.2, contiguousLen - n) := by
  induction segs generalizing n contiguousLen with
  | nil =>
      cases n with
      | zero => rfl
      | succ n => rfl
  | cons seg rest ih =>
      cases n with
      | zero => rfl
      | succ n =>
          have hle : min (n + 1) seg.data.length ≤ n + 1 := min_le_left _ _
          unfold takeLoopChecked takeLoop
          dsimp only
          rw [psub_of_le (hle.trans hn), Option.bind_some]
          split_ifs with hwhole
          · rw [ih _ (by omega)]
            cases takeLoop rest (n + 1 - min (n + 1) seg.data.length) with
            | none => rfl
            | some taken =>
                have hleft : contiguousLen - min (n + 1) seg.data.length -
                    (n + 1 - min (n + 1) seg.data.length) = contiguousLen - (n + 1) := by
                  omega
                simp only [Option.map_some, hleft]
          · have hall : min (n + 1) seg.data.length = n + 1 := by omega
            rw [hall]
            rfl

/-- No subtraction of `take_bytes` fails, nor does it run out of segments. -/
theorem Sized.takeBytesChecked (h : r.Sized) {n : ℕ} (hn : n ≤ r.contiguousLen) :
    r.takeBytesChecked n = r.takeBytes n ∧ (r.takeBytes n).isSome := by
  refine ⟨?_, (h.takeBytes_isSome n).mpr hn⟩
  unfold StreamReassembler.takeBytesChecked StreamReassembler.takeBytes
  rw [if_pos hn, if_pos hn, takeLoopChecked_eq r.contiguous n hn]
  cases takeLoop r.contiguous n with
  | none => rfl
  | some taken => rfl

end StreamReassembler

end Tlscap
