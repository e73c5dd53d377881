import Tlscap.Reassembly.Renumber

/-!
# The clock decides only whether a gap is given up

A reassembler remembers when its gap was opened, and a push that buffers a segment
compares that reading with another one.  If it finds the gap too old, it gives the gap
up.  That is all the clock does: two reassemblers that agree apart from the reading
(`unclock`) still agree after the same push at two times, as long as neither push gives
up a gap (`push_unclock`).

The cases are those of the push.  A duplicate changes nothing; what is delivered, and
what it closes the gap to (`drainPending_unclock`), does not look at the reading; and a
segment that is buffered is stored the same way, and stays stored where no limit is
exceeded (`enforceLimits_of_kept`).  Taking bytes does not look at the reading either.
-/

namespace Tlscap

namespace StreamReassembler

variable {r r' : StreamReassembler}

/-- The reassembler without the reading that opened its gap. -/
def unclock (r : StreamReassembler) : StreamReassembler := { r with pendingSince := none }

/-- Two reassemblers that agree apart from the reading differ in nothing else. -/
theorem eq_of_unclock (h : r.unclock = r'.unclock) :
    ∃ since, r' = { r with pendingSince := since } := by
  refine ⟨r'.pendingSince, ?_⟩
  cases r
  cases r'
  simp only [unclock, mk.injEq] at h ⊢
  tauto

theorem setIsn_unclock (r : StreamReassembler) (seq : UInt32) :
    (r.setIsn seq).unclock = r.unclock.setIsn seq := by
  have hbase : r.unclock.baseSeq = r.baseSeq := rfl
  unfold setIsn
  rw [hbase]
  cases r.baseSeq with
  | none => rfl
  | some base => rfl

/-! ## Pushing -/

theorem drainLoop_unclock (fuel : ℕ) (r : StreamReassembler) :
    (drainLoop fuel r).unclock = drainLoop fuel r.unclock := by
  induction fuel generalizing r with
  | zero => rfl
  | succ fuel ih =>
      have hpending : r.unclock.pending = r.pending := rfl
      have hexpected : r.unclock.nextExpectedRelative = r.nextExpectedRelative := rfl
      unfold drainLoop
      rw [hpending, hexpected]
      cases r.pending.popFirst? with
      | none => rfl
      | some popped =>
          obtain ⟨⟨key, seg⟩, rest⟩ := popped
          simp only
          split_ifs
          · exact ih _
          · exact ih _
          · rfl
          · exact ih _

theorem stopClock_unclock (r : StreamReassembler) : r.stopClock.unclock = r.unclock := by
  unfold stopClock
  split
  · rfl
  · rfl

theorem drainPending_unclock (h : r.unclock = r'.unclock) :
    r.drainPending.unclock = r'.drainPending.unclock := by
  obtain ⟨since, rfl⟩ := eq_of_unclock h
  unfold drainPending
  rw [stopClock_unclock, stopClock_unclock, drainLoop_unclock, drainLoop_unclock, h]

theorem deliver_unclock (h : r.unclock = r'.unclock) (seg : Segment) :
    (r.deliver seg).unclock = (r'.deliver seg).unclock := by
  obtain ⟨since, rfl⟩ := eq_of_unclock h
  rfl

theorem store_unclock (h : r.unclock = r'.unclock) (rel : ℕ) (seg : Segment)
    (opened opened' : Instant) :
    (r.store rel seg opened).unclock = (r'.store rel seg opened').unclock := by
  obtain ⟨since, rfl⟩ := eq_of_unclock h
  rfl

/-- Where no gap is given up, the limits change nothing. -/
theorem enforceLimits_of_kept {checked : Instant}
    (hkept : (r.enforceLimits checked).1.isGapAbandoned = false) :
    (r.enforceLimits checked).2 = r := by
  unfold enforceLimits at hkept ⊢
  split_ifs at hkept ⊢
  · rfl
  · cases hkept
  · cases hkept

variable {opened checked opened' checked' : Instant}

theorem bufferPending_unclock (h : r.unclock = r'.unclock) (rel : ℕ) (seg : Segment)
    (hkept : (r.bufferPending rel seg opened checked).1.isGapAbandoned = false)
    (hkept' : (r'.bufferPending rel seg opened' checked').1.isGapAbandoned = false) :
    (r.bufferPending rel seg opened checked).2.unclock =
      (r'.bufferPending rel seg opened' checked').2.unclock := by
  obtain ⟨since, rfl⟩ := eq_of_unclock h
  unfold bufferPending at hkept hkept' ⊢
  cases hfound : r.pending.find? rel with
  | none =>
      rw [hfound] at hkept hkept'
      simp only at hkept hkept' ⊢
      rw [enforceLimits_of_kept hkept, enforceLimits_of_kept hkept']
      exact store_unclock h rel seg opened opened'
  | some existing =>
      rw [hfound] at hkept hkept'
      simp only at hkept hkept' ⊢
      split_ifs at hkept hkept' ⊢
      · exact h
      · rw [enforceLimits_of_kept hkept, enforceLimits_of_kept hkept']
        exact store_unclock rfl rel seg opened opened'

theorem pushRelative_unclock (h : r.unclock = r'.unclock) (packetIndex : ℕ) (range : ByteRange)
    (payload : Bytes) (rel : ℕ)
    (hkept :
      (r.pushRelative packetIndex range payload rel opened checked).1.isGapAbandoned = false)
    (hkept' :
      (r'.pushRelative packetIndex range payload rel opened' checked').1.isGapAbandoned = false) :
    (r.pushRelative packetIndex range payload rel opened checked).2.unclock =
      (r'.pushRelative packetIndex range payload rel opened' checked').2.unclock := by
  obtain ⟨since, rfl⟩ := eq_of_unclock h
  unfold pushRelative at hkept hkept' ⊢
  simp only at hkept hkept' ⊢
  split_ifs at hkept hkept' ⊢
  · exact h
  · exact drainPending_unclock (deliver_unclock h _)
  · exact drainPending_unclock (deliver_unclock h _)
  · exact bufferPending_unclock h rel _ hkept hkept'

/-- **A push that gives up no gap** leaves the same, whatever time it is. -/
theorem push_unclock (h : r.unclock = r'.unclock) (packetIndex : ℕ) (seq : UInt32)
    (range : ByteRange) (payload : Bytes)
    (hkept : (r.push packetIndex seq range payload opened checked).1.isGapAbandoned = false)
    (hkept' : (r'.push packetIndex seq range payload opened' checked').1.isGapAbandoned = false) :
    (r.push packetIndex seq range payload opened checked).2.unclock =
      (r'.push packetIndex seq range payload opened' checked').2.unclock := by
  obtain ⟨since, rfl⟩ := eq_of_unclock h
  have hplaced : (r.relativeSeq seq).2.unclock =
      (relativeSeq { r with pendingSince := since } seq).2.unclock := rfl
  unfold push at hkept hkept' ⊢
  split_ifs at hkept hkept' ⊢
  · exact h
  · exact pushRelative_unclock hplaced packetIndex range payload (r.relativeSeq seq).1 hkept hkept'

/-! ## Taking -/

theorem peek_unclock (r : StreamReassembler) (n : ℕ) : r.unclock.peek n = r.peek n := rfl

theorem takeBytes_unclock (r : StreamReassembler) (n : ℕ) :
    r.unclock.takeBytes n = (r.takeBytes n).map (onState unclock) := by
  have hcontiguous : r.unclock.contiguous = r.contiguous := rfl
  have hlength : r.unclock.contiguousLen = r.contiguousLen := rfl
  unfold takeBytes
  rw [hcontiguous, hlength]
  split_ifs
  · cases takeLoop r.contiguous n with
    | none => rfl
    | some taken => rfl
  · rfl

end StreamReassembler

end Tlscap
