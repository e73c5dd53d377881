import Tlscap.Reassembly.Model

/-!
# Packet numbers decide nothing

A segment keeps the number of the packet it came from, so that taken bytes can name
their packets.  Nothing else looks at these numbers: a reassembler whose packets are
numbered otherwise does the same, and its packets stay numbered otherwise.

Renumbering is applied to the state before an operation or to the state after it, and
the lemmas say that this is the same, one for each operation and each of its loops
(`push_renumber`, `takeBytes_renumber`).  Outcomes carry no number; the pieces that are
taken do, and are renumbered like the segments.
-/

namespace Tlscap

/-- The segment of a packet with another number. -/
def Segment.renumber (number : ℕ → ℕ) (seg : Segment) : Segment :=
  { seg with packetIndex := number seg.packetIndex }

/-- The piece of a packet with another number. -/
def SourcePiece.renumber (number : ℕ → ℕ) (piece : SourcePiece) : SourcePiece :=
  { piece with packetIndex := number piece.packetIndex }

/-- The result of an operation, with the state changed by a function. -/
def onState {α : Type} (f : StreamReassembler → StreamReassembler)
    (result : α × StreamReassembler) : α × StreamReassembler :=
  (result.1, f result.2)

namespace StreamReassembler

variable (number : ℕ → ℕ)

/-- The same bytes, from packets with other numbers. -/
def renumber (r : StreamReassembler) : StreamReassembler :=
  { r with
    contiguous := r.contiguous.map (Segment.renumber number)
    pending := r.pending.map (Segment.renumber number) }

/-! ## Pushing -/

theorem setIsn_renumber (r : StreamReassembler) (seq : UInt32) :
    (r.renumber number).setIsn seq = (r.setIsn seq).renumber number := by
  have hbase : (r.renumber number).baseSeq = r.baseSeq := rfl
  unfold setIsn
  rw [hbase]
  cases r.baseSeq with
  | none => rfl
  | some base => rfl

theorem deliver_renumber (r : StreamReassembler) (seg : Segment) :
    (r.renumber number).deliver (seg.renumber number) = (r.deliver seg).renumber number := by
  unfold deliver renumber
  simp only [List.map_append, List.map_cons, List.map_nil]
  rfl

theorem removeFirst_renumber (r : StreamReassembler) (seg : Segment)
    (rest : OrderedMap ℕ Segment) :
    (r.renumber number).removeFirst (seg.renumber number) (rest.map (Segment.renumber number)) =
      (r.removeFirst seg rest).renumber number := rfl

theorem drainLoop_renumber (fuel : ℕ) (r : StreamReassembler) :
    drainLoop fuel (r.renumber number) = (drainLoop fuel r).renumber number := by
  induction fuel generalizing r with
  | zero => rfl
  | succ fuel ih =>
      have hpopped : (r.renumber number).pending.popFirst? = _ :=
        OrderedMap.popFirst?_map (Segment.renumber number) r.pending
      have hexpected : (r.renumber number).nextExpectedRelative = r.nextExpectedRelative := rfl
      unfold drainLoop
      rw [hpopped]
      rcases r.pending.popFirst? with _ | ⟨⟨key, seg⟩, rest⟩
      · rfl
      · simp only [Option.map_some, hexpected, removeFirst_renumber]
        have hlength : (seg.renumber number).data.length = seg.data.length := rfl
        have htrimmed : ∀ trim, (seg.renumber number).trimmed trim =
            (seg.trimmed trim).renumber number := fun _ => rfl
        rw [hlength]
        split_ifs
        · exact ih _
        · rw [htrimmed, deliver_renumber]
          exact ih _
        · rfl
        · rw [deliver_renumber]
          exact ih _

theorem stopClock_renumber (r : StreamReassembler) :
    (r.renumber number).stopClock = r.stopClock.renumber number := by
  have hempty : (r.renumber number).pending.isEmpty = r.pending.isEmpty :=
    OrderedMap.isEmpty_map _ _
  unfold stopClock
  rw [hempty]
  split
  · rfl
  · rfl

theorem drainPending_renumber (r : StreamReassembler) :
    (r.renumber number).drainPending = r.drainPending.renumber number := by
  have hlength : (r.renumber number).pending.length = r.pending.length :=
    OrderedMap.length_map _ _
  unfold drainPending
  rw [hlength, drainLoop_renumber, stopClock_renumber]

theorem evictLoop_renumber (fuel evictedBytes : ℕ) (r : StreamReassembler) :
    evictLoop fuel evictedBytes (r.renumber number) =
      onState (renumber number) (evictLoop fuel evictedBytes r) := by
  induction fuel generalizing evictedBytes r with
  | zero => rfl
  | succ fuel ih =>
      have hpopped : (r.renumber number).pending.popFirst? = _ :=
        OrderedMap.popFirst?_map (Segment.renumber number) r.pending
      have hlength : (r.renumber number).pending.length = r.pending.length :=
        OrderedMap.length_map _ _
      have hheld : (r.renumber number).pendingLen = r.pendingLen := rfl
      have hlimits : (r.renumber number).limits = r.limits := rfl
      unfold evictLoop
      rw [hpopped, hlength, hheld, hlimits]
      split
      · rcases r.pending.popFirst? with _ | ⟨⟨key, seg⟩, rest⟩
        · rfl
        · exact ih (evictedBytes + seg.data.length) (r.removeFirst seg rest)
      · rfl

theorem store_renumber (r : StreamReassembler) (rel : ℕ) (seg : Segment) (opened : Instant) :
    (r.renumber number).store rel (seg.renumber number) opened =
      (r.store rel seg opened).renumber number := by
  have hinsert : (r.renumber number).pending.insert rel (seg.renumber number) = _ :=
    OrderedMap.insert_map (Segment.renumber number) r.pending rel seg
  have hempty : (r.renumber number).pending.isEmpty = r.pending.isEmpty :=
    OrderedMap.isEmpty_map _ _
  unfold store
  rw [hinsert, hempty]
  rfl

theorem enforceLimits_renumber (r : StreamReassembler) (checked : Instant) :
    (r.renumber number).enforceLimits checked =
      onState (renumber number) (r.enforceLimits checked) := by
  have hlength : (r.renumber number).pending.length = r.pending.length :=
    OrderedMap.length_map _ _
  have hheld : (r.renumber number).pendingLen = r.pendingLen := rfl
  have hlimits : (r.renumber number).limits = r.limits := rfl
  have hage : (r.renumber number).ageExceeded checked = r.ageExceeded checked := rfl
  unfold enforceLimits
  rw [hlength, hheld, hlimits, hage, evictLoop_renumber]
  split_ifs
  · rfl
  · rfl
  · simp only [onState, stopClock_renumber]

theorem bufferPending_renumber (r : StreamReassembler) (rel : ℕ) (seg : Segment)
    (opened checked : Instant) :
    (r.renumber number).bufferPending rel (seg.renumber number) opened checked =
      onState (renumber number) (r.bufferPending rel seg opened checked) := by
  have hfound : (r.renumber number).pending.find? rel =
      (r.pending.find? rel).map (Segment.renumber number) :=
    OrderedMap.find?_map _ _ _
  unfold bufferPending
  rw [hfound]
  cases r.pending.find? rel with
  | none =>
      simp only [Option.map_none]
      rw [store_renumber, enforceLimits_renumber]
  | some existing =>
      -- the longer of two segments at one offset is kept, whatever their packets
      have hreplaced : ({ r.renumber number with
            pendingLen := (r.renumber number).pendingLen -
              (existing.renumber number).data.length } : StreamReassembler) =
          ({ r with pendingLen := r.pendingLen - existing.data.length }).renumber number := rfl
      simp only [Option.map_some, hreplaced, store_renumber, enforceLimits_renumber]
      change (if seg.data.length ≤ existing.data.length then _ else _) = _
      split_ifs
      · rfl
      · rfl

theorem pushRelative_renumber (r : StreamReassembler) (packetIndex : ℕ) (range : ByteRange)
    (payload : Bytes) (rel : ℕ) (opened checked : Instant) :
    (r.renumber number).pushRelative (number packetIndex) range payload rel opened checked =
      onState (renumber number) (r.pushRelative packetIndex range payload rel opened checked) := by
  have hexpected : (r.renumber number).nextExpectedRelative = r.nextExpectedRelative := rfl
  have hseg : (⟨number packetIndex, range, payload⟩ : Segment) =
      (⟨packetIndex, range, payload⟩ : Segment).renumber number := rfl
  have htrimmed : ∀ trim, ((⟨packetIndex, range, payload⟩ : Segment).renumber number).trimmed trim =
      ((⟨packetIndex, range, payload⟩ : Segment).trimmed trim).renumber number := fun _ => rfl
  unfold pushRelative
  simp only [hexpected, hseg, htrimmed, deliver_renumber, drainPending_renumber,
    bufferPending_renumber]
  split_ifs
  · rfl
  · rfl
  · rfl
  · rfl

/-- **A push** does the same, whatever the packets are numbered. -/
theorem push_renumber (r : StreamReassembler) (packetIndex : ℕ) (seq : UInt32)
    (range : ByteRange) (payload : Bytes) (opened checked : Instant) :
    (r.renumber number).push (number packetIndex) seq range payload opened checked =
      onState (renumber number) (r.push packetIndex seq range payload opened checked) := by
  unfold push
  split
  · rfl
  · exact pushRelative_renumber number (r.relativeSeq seq).2 packetIndex range payload
      (r.relativeSeq seq).1 opened checked

/-! ## Taking -/

theorem peekLoop_renumber (segs : List Segment) (wanted : ℕ) :
    peekLoop (segs.map (Segment.renumber number)) wanted = peekLoop segs wanted := by
  induction segs generalizing wanted with
  | nil => rfl
  | cons seg rest ih =>
      rw [List.map_cons, peekLoop, peekLoop]
      split
      · rfl
      · exact congrArg (_ ++ ·) (ih _)

theorem peek_renumber (r : StreamReassembler) (n : ℕ) : (r.renumber number).peek n = r.peek n :=
  peekLoop_renumber number r.contiguous n

theorem takeLoop_renumber (segs : List Segment) (wanted : ℕ) :
    takeLoop (segs.map (Segment.renumber number)) wanted =
      (takeLoop segs wanted).map fun result =>
        (result.1, result.2.1.map (SourcePiece.renumber number),
          result.2.2.map (Segment.renumber number)) := by
  induction segs generalizing wanted with
  | nil => cases wanted <;> rfl
  | cons seg rest ih =>
      cases wanted with
      | zero => rfl
      | succ remaining =>
          have hlength : (seg.renumber number).data.length = seg.data.length := rfl
          rw [List.map_cons, takeLoop, takeLoop]
          simp only [hlength]
          split_ifs
          · -- the whole segment is taken, and more from the rest
            rw [ih]
            cases takeLoop rest (remaining + 1 - min (remaining + 1) seg.data.length) with
            | none => rfl
            | some result => rfl
          · rfl

/-- **Taking bytes** yields the same bytes and pieces, up to the numbers of the packets. -/
theorem takeBytes_renumber (r : StreamReassembler) (n : ℕ) :
    (r.renumber number).takeBytes n =
      (r.takeBytes n).map fun result =>
        ((result.1.1, result.1.2.map (SourcePiece.renumber number)),
          result.2.renumber number) := by
  unfold takeBytes
  change (if n ≤ r.contiguousLen then _ else _ : Option _) = _
  split
  · have hsegs : (r.renumber number).contiguous = r.contiguous.map (Segment.renumber number) := rfl
    rw [hsegs, takeLoop_renumber]
    cases takeLoop r.contiguous n with
    | none => rfl
    | some result => rfl
  · rfl

end StreamReassembler

end Tlscap
