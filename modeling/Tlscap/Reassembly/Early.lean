import Tlscap.Reassembly.Age

/-!
# Segments from before the base

A capture that starts in the middle of a connection takes its first segment for the start of
the stream.  A retransmission or a reordered segment may still come from before it.  Its
distance from the base wraps to almost `2 ^ 32`, so no byte of it counts as a duplicate: the
whole segment is buffered behind a gap that no later byte closes.  The one such segment that
does no harm is the empty one (`early_trimmed_iff`).

## Strategy

* **One push.**  A nonempty segment from before the base is buffered (`Early.push`), whereas
  what is trimmed as it should be is delivered or discarded (`push_base`), and the outcomes
  differ.  There is one exception: a segment at least as long waits already at the offset it
  wraps to, and then it is discarded (`Repeats`).
* **Runs.**  That exception takes an earlier segment of the same kind.  As long as all early
  segments are empty, nothing waits further ahead than a new byte can be (`NearPending`), so
  the first nonempty one repeats nothing (`NearPending.not_repeats`).
-/

namespace Tlscap

namespace StreamReassembler

variable {r : StreamReassembler} {packetIndex k : ℕ} {seq base : UInt32} {range : ByteRange}
  {payload : Bytes} {opened checked : Instant}

/-- The sequence number `seq` is `k` before the base, and the cursor is still so close to
the base that `seq` is no new byte. -/
structure Early (r : StreamReassembler) (seq : UInt32) (k : ℕ) : Prop where
  base : r.baseSeq = some (seq + UInt32.ofNat k)
  next_lt : r.nextExpectedRelative < 2 ^ 31
  pos : 0 < k
  lt : k < 2 ^ 31

/-- An early push keeps only what is not before the base, and nothing of it waits at the
offset it wraps to. -/
def TrimsEarly (r : StreamReassembler) (k packetIndex : ℕ) (seq : UInt32) (range : ByteRange)
    (payload : Bytes) (opened checked : Instant) : Prop :=
  (if payload.length ≤ k then
    r.push packetIndex seq range payload opened checked = (.duplicateDiscarded, r)
  else
    r.push packetIndex seq range payload opened checked =
      r.push packetIndex (seq + UInt32.ofNat k) ⟨range.start + k, range.stop⟩ (payload.drop k)
        opened checked) ∧
    (r.push packetIndex seq range payload opened checked).2.pending.find? (2 ^ 32 - k) =
      r.pending.find? (2 ^ 32 - k)

/-! ## One push -/

theorem relativeSeq_of_base (hbase : r.baseSeq = some base) (seq : UInt32) :
    r.relativeSeq seq = ((seq - base).toNat, r) := by
  unfold relativeSeq
  rw [hbase, Option.getD_some]
  cases r
  cases hbase
  rfl

theorem Early.relativeSeq (h : r.Early seq k) : r.relativeSeq seq = (2 ^ 32 - k, r) := by
  rw [relativeSeq_of_base h.base]
  have hpos := h.pos
  have hlt := h.lt
  have hseq := seq.toNat_lt
  congr 1
  rw [UInt32.toNat_sub, UInt32.toNat_add, UInt32.toNat_ofNat']
  omega

/-- A nonempty early segment is buffered. -/
theorem Early.push (h : r.Early seq k) (packetIndex : ℕ) (range : ByteRange)
    (hpayload : payload ≠ []) (opened checked : Instant) :
    r.push packetIndex seq range payload opened checked =
      r.bufferPending (2 ^ 32 - k) ⟨packetIndex, range, payload⟩ opened checked := by
  have hlt := h.lt
  have hnext := h.next_lt
  rw [push_of_ne_nil r packetIndex seq range hpayload, h.relativeSeq]
  unfold StreamReassembler.pushRelative
  dsimp only
  rw [if_neg (by omega), if_neg (by omega), if_neg (by omega)]

theorem enforceLimits_outcome (r : StreamReassembler) (checked : Instant) :
    (r.enforceLimits checked).1 ≠ .duplicateDiscarded ∧
      (r.enforceLimits checked).1 ≠ .delivered := by
  unfold enforceLimits
  split_ifs <;> exact ⟨PushOutcome.noConfusion, PushOutcome.noConfusion⟩

/-- The part of a segment at the base is a duplicate or is delivered. -/
theorem push_base (hbase : r.baseSeq = some base) (packetIndex : ℕ) (range : ByteRange)
    (payload : Bytes) (opened checked : Instant) :
    r.push packetIndex base range payload opened checked = (.duplicateDiscarded, r) ∧
        payload.length ≤ r.nextExpectedRelative ∨
      (r.push packetIndex base range payload opened checked).1 = .delivered ∧
        r.nextExpectedRelative < payload.length := by
  by_cases hempty : payload = []
  · subst hempty
    exact .inl ⟨rfl, Nat.zero_le _⟩
  have hrel : (base - base).toNat = 0 := by
    rw [sub_self]
    rfl
  rw [push_of_ne_nil r packetIndex base range hempty, relativeSeq_of_base hbase, hrel]
  unfold StreamReassembler.pushRelative
  dsimp only
  split_ifs with hduplicate hbehind hexact
  · exact .inl ⟨rfl, by omega⟩
  · exact .inr ⟨rfl, by omega⟩
  · exact .inr ⟨rfl, by omega⟩
  · omega

/-- A segment waits at its offset already, or it is stored. -/
theorem bufferPending_cases (r : StreamReassembler) (rel : ℕ) (seg : Segment)
    (opened checked : Instant) :
    (∃ existing, r.pending.find? rel = some existing ∧
        seg.data.length ≤ existing.data.length) ∧
        r.bufferPending rel seg opened checked = (.duplicateDiscarded, r) ∨
      (¬ ∃ existing, r.pending.find? rel = some existing ∧
          seg.data.length ≤ existing.data.length) ∧
        ∃ stored : StreamReassembler, stored.pending = r.pending.insert rel seg ∧
          stored.nextExpectedRelative = r.nextExpectedRelative ∧
          r.bufferPending rel seg opened checked = stored.enforceLimits checked := by
  unfold StreamReassembler.bufferPending
  cases hfind : r.pending.find? rel with
  | none => exact .inr ⟨by simp, r.store rel seg opened, rfl, rfl, rfl⟩
  | some existing =>
      by_cases hlonger : seg.data.length ≤ existing.data.length
      · exact .inl ⟨⟨existing, rfl, hlonger⟩, if_pos hlonger⟩
      · refine .inr ⟨?_, ({ r with pendingLen := r.pendingLen - existing.data.length }).store
          rel seg opened, rfl, rfl, if_neg hlonger⟩
        rintro ⟨other, hother, hle⟩
        exact hlonger (Option.some.inj hother ▸ hle)

/-- What is stored comes back with an outcome that no trimmed segment has. -/
theorem Early.not_trimsEarly (h : r.Early seq k) {stored : StreamReassembler}
    (hpush : r.push packetIndex seq range payload opened checked = stored.enforceLimits checked) :
    ¬ r.TrimsEarly k packetIndex seq range payload opened checked := by
  obtain ⟨hnotDuplicate, hnotDelivered⟩ := enforceLimits_outcome stored checked
  rintro ⟨htrims, -⟩
  rw [hpush] at htrims
  split_ifs at htrims with hshort
  · exact hnotDuplicate (congrArg Prod.fst htrims)
  · rcases r.push_base h.base packetIndex ⟨range.start + k, range.stop⟩ (payload.drop k) opened
      checked with ⟨hduplicate, -⟩ | ⟨hdelivered, -⟩
    · exact hnotDuplicate (congrArg Prod.fst (htrims.trans hduplicate))
    · exact hnotDelivered ((congrArg Prod.fst htrims).trans hdelivered)

/-- A segment at least as long already waits at the offset the push wraps to, and no byte
of the payload is past the cursor. -/
def Repeats (r : StreamReassembler) (k : ℕ) (payload : Bytes) : Prop :=
  (∃ existing, r.pending.find? (2 ^ 32 - k) = some existing ∧
    payload.length ≤ existing.data.length) ∧ payload.length ≤ k + r.nextExpectedRelative

theorem Early.trimsEarly_iff (h : r.Early seq k) :
    r.TrimsEarly k packetIndex seq range payload opened checked ↔
      payload = [] ∨ r.Repeats k payload := by
  by_cases hempty : payload = []
  · subst hempty
    have hpush : r.push packetIndex seq range [] opened checked = (.duplicateDiscarded, r) := rfl
    refine iff_of_true ⟨?_, by rw [hpush]⟩ (.inl rfl)
    rwa [if_pos (show ([] : Bytes).length ≤ k from Nat.zero_le k)]
  rw [or_iff_right hempty]
  have hpush := h.push packetIndex range hempty opened checked
  rcases r.bufferPending_cases (2 ^ 32 - k) ⟨packetIndex, range, payload⟩ opened checked with
    ⟨hexisting, hbuffer⟩ | ⟨hnone, stored, -, -, hbuffer⟩
  · -- a pending segment at this offset covers the payload, so it is dropped
    rw [hbuffer] at hpush
    have hbase := r.push_base h.base packetIndex ⟨range.start + k, range.stop⟩ (payload.drop k)
      opened checked
    rw [List.length_drop] at hbase
    unfold TrimsEarly
    rw [hpush]
    constructor
    · rintro ⟨htrims, -⟩
      refine ⟨hexisting, ?_⟩
      split_ifs at htrims with hshort
      · omega
      · rw [← htrims] at hbase
        rcases hbase with ⟨-, hle⟩ | ⟨hdelivered, -⟩
        · omega
        · cases hdelivered
    · rintro ⟨-, hle⟩
      refine ⟨?_, rfl⟩
      split_ifs with hshort
      · rfl
      · rcases hbase with ⟨hduplicate, -⟩ | ⟨-, hlt⟩
        · exact hduplicate.symm
        · omega
  · -- it is stored past the wrap of the sequence numbers
    exact iff_of_false (h.not_trimsEarly (hpush.trans hbuffer)) fun hrepeats => hnone hrepeats.1

/-! ## Runs -/

/-- `P` holds of a call if it is an early push. -/
def AtEarlyPushes (P : StreamReassembler → (k packetIndex : ℕ) → (seq : UInt32) →
      (range : ByteRange) → (payload : Bytes) → (opened checked : Instant) → Prop)
    (r : StreamReassembler) : Operation → Prop
  | .push packetIndex seq range payload opened checked =>
      ∀ k, r.Early seq k → P r k packetIndex seq range payload opened checked
  | _ => True

/-- Nothing waits further ahead than a new byte can be. -/
def NearPending (r : StreamReassembler) : Prop :=
  r.nextExpectedRelative < 2 ^ 31 → ∀ entry ∈ r.pending.entries, entry.1 ≤ 2 ^ 31

theorem pending_drainPending_subset (r : StreamReassembler) :
    r.drainPending.pending.entries ⊆ r.pending.entries := by
  have hloop : (drainLoop r.pending.length r).pending.entries ⊆ r.pending.entries := by
    refine drainLoop_induction (P := fun r' => r'.pending.entries ⊆ r.pending.entries) ?_ ?_ _ _
      (List.Subset.refl _)
    · intro r' key seg rest hpop _ hsubset
      exact List.Subset.trans (OrderedMap.popFirst?_subset hpop) hsubset
    · intro r' key seg rest hpop _ _ hsubset
      exact List.Subset.trans (OrderedMap.popFirst?_subset hpop) hsubset
  rwa [drainPending, stopClock_pending]

theorem pending_enforceLimits_subset (r : StreamReassembler) (checked : Instant) :
    (r.enforceLimits checked).2.pending.entries ⊆ r.pending.entries := by
  unfold enforceLimits
  split_ifs
  · exact List.Subset.refl _
  · exact List.nil_subset _
  · rw [stopClock_pending]
    exact (evictLoop_evicts r.pending.length 0 r).suffix.subset

/-- A push leaves nothing pending but what was, and its own payload if that is ahead of
the cursor. -/
theorem pending_push (r : StreamReassembler) (packetIndex : ℕ) (seq : UInt32)
    (range : ByteRange) (payload : Bytes) (opened checked : Instant) {entry : ℕ × Segment}
    (hentry : entry ∈ (r.push packetIndex seq range payload opened checked).2.pending.entries) :
    entry ∈ r.pending.entries ∨ payload ≠ [] ∧
      entry = ((r.relativeSeq seq).1, ⟨packetIndex, range, payload⟩) ∧
        r.nextExpectedRelative < (r.relativeSeq seq).1 := by
  by_cases hempty : payload = []
  · subst hempty
    exact .inl hentry
  rw [push_of_ne_nil r packetIndex seq range hempty] at hentry
  unfold StreamReassembler.pushRelative at hentry
  dsimp only at hentry
  have hcursor : (r.relativeSeq seq).2.nextExpectedRelative = r.nextExpectedRelative := rfl
  rw [hcursor] at hentry
  split_ifs at hentry with hduplicate hbehind hexact
  · exact .inl hentry
  · have hkept := pending_drainPending_subset _ hentry
    exact .inl hkept
  · have hkept := pending_drainPending_subset _ hentry
    exact .inl hkept
  · rcases (r.relativeSeq seq).2.bufferPending_cases (r.relativeSeq seq).1
      ⟨packetIndex, range, payload⟩ opened checked with
      ⟨-, hbuffer⟩ | ⟨-, stored, hstored, -, hbuffer⟩
    · rw [hbuffer] at hentry
      exact .inl hentry
    · rw [hbuffer] at hentry
      have hkept := pending_enforceLimits_subset stored checked hentry
      rw [hstored, OrderedMap.mem_insert] at hkept
      rcases hkept with rfl | ⟨hold, -⟩
      · exact .inr ⟨hempty, rfl, by omega⟩
      · exact .inl hold

theorem PushEffect.next_le {after : PushOutcome × StreamReassembler}
    (h : r.PushEffect seq payload opened checked after) :
    r.nextExpectedRelative ≤ after.2.nextExpectedRelative := by
  cases h with
  | discards _ hnext _ _ => exact hnext.ge
  | delivers _ hnext _ => exact hnext.le
  | buffers _ hnext _ _ => exact hnext.ge

/-- An offset further ahead is that of an early segment. -/
theorem early_of_far (hnext : r.nextExpectedRelative < 2 ^ 31)
    (hfar : 2 ^ 31 < (r.relativeSeq seq).1) :
    r.Early seq (2 ^ 32 - (r.relativeSeq seq).1) := by
  cases hbase : r.baseSeq with
  | none =>
      -- the first segment fixes the base, so it is at offset 0
      unfold StreamReassembler.relativeSeq at hfar
      rw [hbase, Option.getD_none] at hfar
      simp at hfar
  | some base =>
      rw [relativeSeq_of_base hbase] at hfar ⊢
      have hlt := (seq - base).toNat_lt
      refine ⟨?_, hnext, by omega, by omega⟩
      rw [hbase]
      congr 1
      apply UInt32.toNat_inj.mp
      rw [UInt32.toNat_sub] at hfar hlt ⊢
      rw [UInt32.toNat_add, UInt32.toNat_ofNat']
      have hseq := seq.toNat_lt
      have hbaseLt := base.toNat_lt
      omega

theorem NearPending.perform (h : r.NearPending) (hinvariant : r.Invariant)
    {operation : Operation}
    (hearly : r.AtEarlyPushes (fun _ _ _ _ _ payload _ _ => payload = []) operation) :
    (r.perform operation).1.NearPending := by
  cases operation with
  | setIsn firstByteSeq =>
      simp only [StreamReassembler.perform, StreamReassembler.setIsn]
      split <;> exact h
  | push packetIndex seq range payload opened checked =>
      intro hnext entry hentry
      have hmono := (hinvariant.pushEffect packetIndex seq range payload opened checked).next_le
      have hbefore := lt_of_le_of_lt hmono hnext
      rcases pending_push r packetIndex seq range payload opened checked hentry with
        hold | ⟨hpayload, rfl, -⟩
      · exact h hbefore entry hold
      · by_contra hfar
        exact hpayload (hearly _ (early_of_far hbefore (by omega)))
  | takeBytes n =>
      simp only [StreamReassembler.perform]
      split
      · exact h
      · rename_i out pieces r' htake
        obtain ⟨-, -, hframe⟩ := hinvariant.toSized.takeBytes_cases htake
        rw [hframe]
        exact h

theorem NearPending.not_repeats (h : r.NearPending) (hearly : r.Early seq k) :
    ¬ r.Repeats k payload := by
  rintro ⟨⟨existing, hfind, -⟩, -⟩
  have hkey := h hearly.next_lt _ (OrderedMap.find?_eq_some_iff.mp hfind)
  have hlt := hearly.lt
  dsimp only at hkey
  omega

/-- In a run, all early segments are trimmed exactly if all are empty. -/
theorem throughout_trimsEarly_iff (hinvariant : r.Invariant) (hnear : r.NearPending)
    (operations : List Operation) :
    Machine.Throughout perform (AtEarlyPushes TrimsEarly) r operations ↔
      Machine.Throughout perform (AtEarlyPushes fun _ _ _ _ _ payload _ _ => payload = []) r
        operations := by
  induction operations generalizing r with
  | nil => exact Iff.rfl
  | cons operation rest ih =>
      have hstep : AtEarlyPushes TrimsEarly r operation ↔
          AtEarlyPushes (fun _ _ _ _ _ payload _ _ => payload = []) r operation := by
        cases operation with
        | setIsn firstByteSeq => exact Iff.rfl
        | push packetIndex seq range payload opened checked =>
            refine forall₂_congr fun k hearly => ?_
            rw [hearly.trimsEarly_iff]
            exact or_iff_left (hnear.not_repeats hearly)
        | takeBytes n => exact Iff.rfl
      unfold Machine.Throughout
      rw [hstep]
      exact and_congr_right fun hempty =>
        ih (hinvariant.perform operation) (hnear.perform hinvariant hempty)

/-- A segment from before the base is trimmed exactly if it is empty or repeats one that
waits already; in a run from the start, exactly if it is empty. -/
theorem early_trimmed_iff (limits : PendingLimits) (operations : List Operation) :
    (∀ (r : StreamReassembler) (seq : UInt32) (k : ℕ), r.Early seq k →
      ∀ (packetIndex : ℕ) (range : ByteRange) (payload : Bytes) (opened checked : Instant),
        r.TrimsEarly k packetIndex seq range payload opened checked ↔
          payload = [] ∨ r.Repeats k payload) ∧
    (Machine.Throughout perform (AtEarlyPushes TrimsEarly) (withPendingLimits limits)
        operations ↔
      Machine.Throughout perform (AtEarlyPushes fun _ _ _ _ _ payload _ _ => payload = [])
        (withPendingLimits limits) operations) := by
  refine ⟨fun r seq k hearly packetIndex range payload opened checked => hearly.trimsEarly_iff,
    ?_⟩
  have hnear : (withPendingLimits limits).NearPending := fun _ _ hentry =>
    absurd hentry List.not_mem_nil
  exact throughout_trimsEarly_iff (invariant_withPendingLimits limits) hnear operations

/-- Four bytes are captured first; then comes the segment of five bytes before them. -/
def afterFirstSegment : StreamReassembler :=
  (Machine.run perform (withPendingLimits ⟨4194304, 50, 30⟩)
    [.push 0 1000 ⟨0, 4⟩ [5, 6, 7, 8] 0 0]).1

/-- The segment before the base waits for ever, instead of being discarded. -/
theorem early_segment_buffered :
    afterFirstSegment.Early 995 5 ∧
      (afterFirstSegment.push 1 995 ⟨0, 5⟩ [0, 1, 2, 3, 4] 1 1).1 = .bufferedOutOfOrder ∧
      ¬ afterFirstSegment.TrimsEarly 5 1 995 ⟨0, 5⟩ [0, 1, 2, 3, 4] 1 1 := by
  refine ⟨⟨by decide, by decide, by decide, by decide⟩, by decide, ?_⟩
  rintro ⟨-, hoffset⟩
  exact absurd hoffset (by decide)

end StreamReassembler

end Tlscap
