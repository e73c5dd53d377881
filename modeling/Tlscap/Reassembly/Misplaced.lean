import Tlscap.Reassembly.Early

/-!
# A stream that starts too early

The first `first` bytes of a stream are pushed one sequence number before the base, and
the others, in order, where they belong.  The first ones wait at offset `2 ^ 32 - 1`, so
the cursor stays at the base, and every later segment waits behind it.  Past `2 ^ 32` the
offsets start again from the base, but what is delivered then always falls short of what
was pushed: `FallsBehind` is the invariant, for `first = 0` also that of a stream whose
offsets have started again.
-/

namespace Tlscap

namespace StreamReassembler

variable {r : StreamReassembler} {isn : UInt32} {first offset next start stop : ℕ}

/-! ## Offsets -/

/-- Where a segment waits once `offset` bytes have been pushed: with the first bytes, at its
place after them, or a wrap before its place. -/
def Misplaced (first offset start stop : ℕ) : Prop :=
  start = 2 ^ 32 - 1 ∧ stop ≤ 2 ^ 32 - 1 + first ∨ first ≤ start ∧ stop ≤ offset ∨
    stop + 2 ^ 32 ≤ offset

/-- The cursor is at the base, or well behind the bytes pushed. -/
def CursorBehind (first offset next : ℕ) : Prop :=
  next = 0 ∧ 0 < first ∨ 2 ^ 32 + first ≤ offset ∧ next < offset ∨ next + 2 ^ 32 ≤ offset

theorem Misplaced.mono {later : ℕ} (h : Misplaced first offset start stop)
    (hle : offset ≤ later) : Misplaced first later start stop := by
  unfold Misplaced at h ⊢
  omega

theorem CursorBehind.mono {later : ℕ} (h : CursorBehind first offset next)
    (hle : offset ≤ later) : CursorBehind first later next := by
  unfold CursorBehind at h ⊢
  omega

/-- The cursor stays behind when it takes over a segment that waited before. -/
theorem CursorBehind.advance {later : ℕ} (h : CursorBehind first later next)
    (hfirst : first < 2 ^ 32) (hold : Misplaced first offset start stop) (hlt : offset < later)
    (hstart : start ≤ next) : CursorBehind first later stop := by
  unfold Misplaced at hold
  unfold CursorBehind at h ⊢
  omega

theorem CursorBehind.lt (h : CursorBehind first offset next) (hle : first ≤ offset) :
    next < offset := by
  unfold CursorBehind at h
  omega

/-! ## Pushes -/

/-- After `offset` bytes of the stream have been pushed. -/
structure FallsBehind (first : ℕ) (isn : UInt32) (offset : ℕ) (r : StreamReassembler) :
    Prop where
  base : r.baseSeq = some isn
  cursor : CursorBehind first offset r.nextExpectedRelative
  pending : ∀ entry ∈ r.pending.entries,
    Misplaced first offset entry.1 (entry.1 + entry.2.data.length)

/-- Draining takes over segments that waited before. -/
theorem cursorBehind_drainPending {later : ℕ} (hfirst : first < 2 ^ 32) (hlt : offset < later)
    (hcursor : CursorBehind first later r.nextExpectedRelative)
    (hpending : ∀ entry ∈ r.pending.entries,
      Misplaced first offset entry.1 (entry.1 + entry.2.data.length)) :
    CursorBehind first later r.drainPending.nextExpectedRelative := by
  have hloop : CursorBehind first later
        (drainLoop r.pending.length r).nextExpectedRelative ∧
      ∀ entry ∈ (drainLoop r.pending.length r).pending.entries,
        Misplaced first offset entry.1 (entry.1 + entry.2.data.length) := by
    refine drainLoop_induction (P := fun r' => CursorBehind first later r'.nextExpectedRelative ∧
      ∀ entry ∈ r'.pending.entries, Misplaced first offset entry.1
        (entry.1 + entry.2.data.length)) ?_ ?_ _ _ ⟨hcursor, hpending⟩
    · rintro r' key seg rest hpop - ⟨hcursor, hpending⟩
      exact ⟨hcursor, fun entry hentry =>
        hpending entry (OrderedMap.popFirst?_subset hpop hentry)⟩
    · rintro r' key seg rest hpop hkey hpast ⟨hcursor, hpending⟩
      refine ⟨?_, fun entry hentry => hpending entry (OrderedMap.popFirst?_subset hpop hentry)⟩
      have hseg := hpending (key, seg) (OrderedMap.popFirst?_mem hpop)
      have hnext : ((r'.removeFirst seg rest).deliver
          (seg.trimmed (r'.nextExpectedRelative - key))).nextExpectedRelative =
            key + seg.data.length := by
        simp only [deliver, removeFirst, Segment.trimmed, List.length_drop]
        omega
      rw [hnext]
      exact hcursor.advance hfirst hseg hlt hkey
  rw [drainPending, stopClock_nextExpectedRelative]
  exact hloop.1

/-- The next segment of the stream, pushed where it belongs. -/
theorem fallsBehind_push (hbase : r.baseSeq = some isn) (hfirst : first < 2 ^ 32)
    {payload : Bytes} (hpayload : payload ≠ [])
    (hcursor : CursorBehind first (offset + payload.length) r.nextExpectedRelative)
    (hpending : ∀ entry ∈ r.pending.entries,
      Misplaced first offset entry.1 (entry.1 + entry.2.data.length))
    (hahead : offset < 2 ^ 32 → r.nextExpectedRelative < offset ∧ first ≤ offset)
    (packetIndex : ℕ) (range : ByteRange) (opened checked : Instant) :
    FallsBehind first isn (offset + payload.length)
      (r.push packetIndex (isn + UInt32.ofNat offset) range payload opened checked).2 := by
  have hpos := List.length_pos_iff.mpr hpayload
  have hlt : offset < offset + payload.length := Nat.lt_add_of_pos_right hpos
  have hrel : (isn + UInt32.ofNat offset - isn).toNat = offset % 2 ^ 32 := by
    rw [add_sub_cancel_left, UInt32.toNat_ofNat']
  have hkept : ∀ entry ∈ r.pending.entries, Misplaced first (offset + payload.length) entry.1
      (entry.1 + entry.2.data.length) := fun entry hentry => (hpending entry hentry).mono hlt.le
  have hplace : Misplaced first (offset + payload.length) (offset % 2 ^ 32)
      (offset % 2 ^ 32 + payload.length) := by
    unfold Misplaced
    omega
  refine ⟨(sameAnchor_push hbase _ _ _ _ _ _).1.trans hbase, ?_, ?_⟩
  · rw [push_of_ne_nil r packetIndex _ range hpayload, relativeSeq_of_base hbase, hrel]
    unfold StreamReassembler.pushRelative
    dsimp only
    -- a segment that reaches the cursor has wrapped
    have htaken : offset % 2 ^ 32 ≤ r.nextExpectedRelative →
        CursorBehind first (offset + payload.length) (offset % 2 ^ 32 + payload.length) := by
      intro hreached
      unfold CursorBehind
      omega
    split_ifs with hduplicate hbehind hexact
    · exact hcursor
    · refine cursorBehind_drainPending hfirst hlt ?_ hpending
      have hnext : (r.deliver ((Segment.mk packetIndex range payload).trimmed
          (r.nextExpectedRelative - offset % 2 ^ 32))).nextExpectedRelative =
            offset % 2 ^ 32 + payload.length := by
        simp only [deliver, Segment.trimmed, List.length_drop]
        omega
      rw [hnext]
      exact htaken hbehind.le
    · refine cursorBehind_drainPending hfirst hlt ?_ hpending
      have hnext : (r.deliver (Segment.mk packetIndex range payload)).nextExpectedRelative =
          offset % 2 ^ 32 + payload.length := by
        simp only [deliver]
        omega
      rw [hnext]
      exact htaken hexact.le
    · rcases r.bufferPending_cases (offset % 2 ^ 32) ⟨packetIndex, range, payload⟩ opened
        checked with ⟨-, hbuffer⟩ | ⟨-, stored, -, hnext, hbuffer⟩
      · rw [hbuffer]
        exact hcursor
      · rw [hbuffer, (enforceLimits_clock stored checked).1, hnext]
        exact hcursor
  · intro entry hentry
    rcases pending_push r packetIndex _ range payload opened checked hentry with
      hold | ⟨-, rfl, -⟩
    · exact hkept entry hold
    · rw [relativeSeq_of_base hbase, hrel]
      exact hplace

end StreamReassembler

end Tlscap
