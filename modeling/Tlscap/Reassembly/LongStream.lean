import Tlscap.Reassembly.Lossless

/-!
# Streams past four gigabytes

`relativeSeq` is a wrapping 32-bit distance, while the cursor it is compared with
counts every byte of the stream.  Here a client pushes a stream in order, in
segments of at most 65535 bytes, and consumes everything after each push.  A
segment is delivered exactly when it starts less than `2 ^ 32` bytes into the
stream.

## Strategy

Between two pushes everything so far is delivered and consumed, so the cursor is at the
offset of the next segment (`CaughtUp`).  The distance that is computed for that segment
is its offset modulo `2 ^ 32` (`CaughtUp.relativeSeq`), and there are two cases:

* **Early.**  The segment starts below `2 ^ 32`: the distance is its offset, where the
  cursor is, and it is delivered whole (`push_inOrder_early`).
* **Late.**  It starts at `2 ^ 32` or later: the distance falls short of the cursor by
  more than the segment's length, and it is taken for a retransmission
  (`push_inOrder_late`).

Offsets only grow, so every segment is early if the last one is, and the stream is
reassembled exactly then (`consumeInOrder_lossless_iff`).
-/

namespace Tlscap

namespace StreamReassembler

/-- A segment together with the clock readings of its push. -/
structure Arrival where
  segment : Segment
  opened : Instant
  checked : Instant

/-- The bytes a list of arrivals carries. -/
def carried (arrivals : List Arrival) : Bytes :=
  arrivals.flatMap fun arrival => arrival.segment.data

/-- Pushes consecutive segments in stream order, the first one at `offset`, and
consumes all that is delivered after each: the outcomes and the consumed bytes. -/
def consumeInOrder (isn : UInt32) :
    ℕ → List Arrival → StreamReassembler → List PushOutcome × Bytes
  | _, [], _ => ([], [])
  | offset, arrival :: rest, r =>
      let (outcome, r) := r.push arrival.segment.packetIndex (isn + UInt32.ofNat offset)
        arrival.segment.range arrival.segment.data arrival.opened arrival.checked
      match r.takeBytes r.contiguousLen with
      | none => ([outcome], [])
      | some ((out, _), r) =>
          let (outcomes, bytes) :=
            consumeInOrder isn (offset + arrival.segment.data.length) rest r
          (outcome :: outcomes, out ++ bytes)

/-- What a TCP stack puts on the wire: no empty segment, none over 65535 bytes. -/
def WireSized (arrivals : List Arrival) : Prop :=
  ∀ arrival ∈ arrivals,
    0 < arrival.segment.data.length ∧ arrival.segment.data.length ≤ 65535

/-- The state between two pushes of `consumeInOrder`: everything so far was
delivered and consumed, so the cursor is at the offset of the next segment. -/
structure CaughtUp (isn : UInt32) (offset : ℕ) (r : StreamReassembler) : Prop where
  sized : r.Sized
  base : r.baseSeq = some isn ∨ r.baseSeq = none ∧ offset = 0
  next_eq : r.nextExpectedRelative = offset
  contiguousLen_eq : r.contiguousLen = 0
  pending_eq : r.pending = OrderedMap.empty

theorem caughtUp_start (isn : UInt32) (limits : PendingLimits) :
    CaughtUp isn 0 (withPendingLimits limits) where
  sized := (invariant_withPendingLimits limits).toSized
  base := Or.inr ⟨rfl, rfl⟩
  next_eq := rfl
  contiguousLen_eq := rfl
  pending_eq := rfl

/-! ## One segment -/

/-- The distance computed for the next segment, whether or not the base was
already fixed. -/
theorem CaughtUp.relativeSeq {isn : UInt32} {offset : ℕ} {r : StreamReassembler}
    (h : CaughtUp isn offset r) :
    r.relativeSeq (isn + UInt32.ofNat offset) =
      (offset % 2 ^ 32, { r with baseSeq := some isn }) := by
  unfold StreamReassembler.relativeSeq
  rcases h.base with hbase | ⟨hbase, hzero⟩
  · simp only [hbase, Option.getD_some, add_sub_cancel_left, UInt32.toNat_ofNat']
  · subst hzero
    simp [hbase]

/-- With nothing pending, draining does nothing but stop the clock. -/
theorem drainPending_of_pending_empty {r : StreamReassembler}
    (h : r.pending = OrderedMap.empty) : r.drainPending = r.stopClock := by
  simp [drainPending, h, drainLoop]

/-- With nothing pending, a segment at the cursor is delivered. -/
theorem push_at_cursor {r : StreamReassembler} {seq : UInt32}
    (hrel : (r.relativeSeq seq).1 = r.nextExpectedRelative)
    (hpending : r.pending = OrderedMap.empty) (packetIndex : ℕ) (range : ByteRange)
    {payload : Bytes} (hpayload : payload ≠ []) (opened checked : Instant) :
    r.push packetIndex seq range payload opened checked =
      (.delivered, ((r.relativeSeq seq).2.deliver ⟨packetIndex, range, payload⟩).stopClock) := by
  have hpos := List.length_pos_iff.mpr hpayload
  have hnext : (r.relativeSeq seq).2.nextExpectedRelative = r.nextExpectedRelative := rfl
  unfold push
  rw [if_neg (List.isEmpty_iff.not.mpr hpayload)]
  dsimp only
  unfold pushRelative
  rw [hrel, hnext, if_neg (by omega), if_neg (lt_irrefl _), if_pos rfl,
    drainPending_of_pending_empty (r := (r.relativeSeq seq).2.deliver _) hpending]

/-- A segment that starts below `2 ^ 32` is delivered and consumed whole. -/
theorem push_inOrder_early {isn : UInt32} {offset : ℕ} {r : StreamReassembler}
    (h : CaughtUp isn offset r) (arrival : Arrival) (hpos : 0 < arrival.segment.data.length)
    (hoffset : offset < 2 ^ 32) :
    ∃ pieces r₁ r₂, r.push arrival.segment.packetIndex (isn + UInt32.ofNat offset)
        arrival.segment.range arrival.segment.data arrival.opened arrival.checked =
          (.delivered, r₁) ∧
      r₁.takeBytes r₁.contiguousLen = some ((arrival.segment.data, pieces), r₂) ∧
      CaughtUp isn (offset + arrival.segment.data.length) r₂ := by
  set anchored : StreamReassembler := { r with baseSeq := some isn } with hanchored
  set delivered := (anchored.deliver arrival.segment).stopClock with hdelivered
  -- its relative number is its offset, which is where the cursor stands
  have hpush : r.push arrival.segment.packetIndex (isn + UInt32.ofNat offset)
      arrival.segment.range arrival.segment.data arrival.opened arrival.checked =
        (.delivered, delivered) := by
    have hrel := h.relativeSeq
    rw [Nat.mod_eq_of_lt hoffset] at hrel
    have hcursor : (r.relativeSeq (isn + UInt32.ofNat offset)).1 = r.nextExpectedRelative := by
      rw [hrel, h.next_eq]
    rw [push_at_cursor hcursor h.pending_eq _ _ (List.ne_nil_of_length_pos hpos), hrel]
  have hbytes : delivered.contiguousBytes = arrival.segment.data := by
    have hnil := h.sized.contiguousBytes_eq_nil h.contiguousLen_eq
    simp only [contiguousBytes] at hnil
    simp [hdelivered, hanchored, contiguousBytes, StreamReassembler.deliver, hnil]
  have hsized : delivered.Sized := by
    have hanchoredSized : anchored.Sized := ⟨h.sized.1, h.sized.2, h.sized.3⟩
    exact (hanchoredSized.deliver arrival.segment).stopClock
  obtain ⟨pieces, r₂, htake, hleft, hframe⟩ := hsized.takeBytes le_rfl
  rw [hsized.contiguousLen_eq, List.take_length, hbytes] at htake
  rw [hsized.contiguousLen_eq, List.drop_length] at hleft
  refine ⟨pieces, delivered, r₂, hpush, ?_, ?_⟩
  · rw [hsized.contiguousLen_eq, hbytes]
    exact htake
  · -- everything was taken, so the next segment finds the reassembler caught up
    have hlen : r₂.contiguousLen = 0 := by rw [hframe]; simp
    have hpending : delivered.pending = OrderedMap.empty := by
      rw [hdelivered, stopClock_pending]
      exact h.pending_eq
    refine ⟨⟨by rw [hlen, hleft]; rfl, ?_, ?_⟩, Or.inl ?_, ?_, hlen, ?_⟩
    · rw [hframe]
      exact hsized.pendingLen_eq
    · rw [hframe]
      exact hsized.pending_pos
    · rw [hframe]
      simp [hdelivered, hanchored, StreamReassembler.deliver]
    · rw [hframe]
      simp [hdelivered, hanchored, StreamReassembler.deliver, h.next_eq]
    · rw [hframe]
      exact hpending

/-- A segment that starts at or past `2 ^ 32` is discarded as a duplicate. -/
theorem push_inOrder_late {isn : UInt32} {offset : ℕ} {r : StreamReassembler}
    (h : CaughtUp isn offset r) (arrival : Arrival)
    (hsize : arrival.segment.data.length ≤ 65535) (hoffset : 2 ^ 32 ≤ offset) :
    (r.push arrival.segment.packetIndex (isn + UInt32.ofNat offset) arrival.segment.range
      arrival.segment.data arrival.opened arrival.checked).1 = .duplicateDiscarded := by
  unfold push
  split_ifs with hempty
  · rfl
  · have hnext : ({ r with baseSeq := some isn } : StreamReassembler).nextExpectedRelative =
        offset := h.next_eq
    rw [h.relativeSeq]
    simp only
    unfold pushRelative
    -- the distance falls short of the cursor by more than the segment's length
    rw [hnext, if_pos (by omega)]

theorem head_mem_consumeInOrder (isn : UInt32) (offset : ℕ) (arrival : Arrival)
    (rest : List Arrival) (r : StreamReassembler) :
    (r.push arrival.segment.packetIndex (isn + UInt32.ofNat offset) arrival.segment.range
      arrival.segment.data arrival.opened arrival.checked).1 ∈
      (consumeInOrder isn offset (arrival :: rest) r).1 := by
  unfold consumeInOrder
  simp only
  split <;> simp

/-! ## Whole streams -/

/-- The characterisation from the middle of a stream on. -/
theorem consumeInOrder_iff_of_caughtUp (isn : UInt32) (arrivals : List Arrival) :
    ∀ (offset : ℕ) (r : StreamReassembler), CaughtUp isn offset r → WireSized arrivals →
      (((∀ outcome ∈ (consumeInOrder isn offset arrivals r).1, outcome = .delivered) ∧
          (consumeInOrder isn offset arrivals r).2 = carried arrivals) ↔
        arrivals = [] ∨ offset + (carried arrivals.dropLast).length < 2 ^ 32) := by
  induction arrivals with
  | nil => intro offset r _ _; simp [consumeInOrder, carried]
  | cons arrival rest ih =>
      intro offset r h hsized
      obtain ⟨hpos, hsize⟩ := hsized arrival List.mem_cons_self
      have hrest : WireSized rest := by
        intro other hother
        exact hsized other (List.mem_cons_of_mem _ hother)
      by_cases hoffset : offset < 2 ^ 32
      · obtain ⟨pieces, r₁, r₂, hpush, htake, hcaughtUp⟩ :=
          push_inOrder_early h arrival hpos hoffset
        have hstep := ih (offset + arrival.segment.data.length) r₂ hcaughtUp hrest
        have hcarried : carried (arrival :: rest) = arrival.segment.data ++ carried rest := rfl
        unfold consumeInOrder
        simp only [hpush, htake, List.forall_mem_cons, true_and, hcarried,
          List.append_cancel_left_eq]
        rw [hstep]
        cases rest with
        | nil => simpa [carried] using hoffset
        | cons next more =>
            simp only [carried, List.dropLast_cons_cons, List.flatMap_cons,
              List.length_append, reduceCtorEq, false_or]
            rw [Nat.add_assoc]
      · have hlate := push_inOrder_late h arrival hsize (not_lt.mp hoffset)
        refine iff_of_false ?_ ?_
        · rintro ⟨houtcomes, -⟩
          have hdelivered := houtcomes _ (head_mem_consumeInOrder isn offset arrival rest r)
          rw [hlate] at hdelivered
          cases hdelivered
        · rintro (hnil | hlt)
          · cases hnil
          · omega

/-- **When an in-order stream is reassembled.**  Every push is delivered and the
consumed bytes are the stream if and only if the last segment starts less than
`2 ^ 32` bytes into it. -/
theorem consumeInOrder_lossless_iff (isn : UInt32) (limits : PendingLimits)
    (arrivals : List Arrival) (hsized : WireSized arrivals) :
    ((∀ outcome ∈ (consumeInOrder isn 0 arrivals (withPendingLimits limits)).1,
        outcome = .delivered) ∧
      (consumeInOrder isn 0 arrivals (withPendingLimits limits)).2 = carried arrivals) ↔
    (carried arrivals.dropLast).length < 2 ^ 32 := by
  rw [consumeInOrder_iff_of_caughtUp isn arrivals 0 _ (caughtUp_start isn limits) hsized,
    Nat.zero_add]
  refine ⟨?_, Or.inr⟩
  rintro (rfl | hlt)
  · simp [carried]
  · exact hlt

/-- The condition is met by a stream of five bytes that crosses the end of the
sequence space. -/
theorem consumeInOrder_lossless_iff_wraparound :
    (∀ outcome ∈ (consumeInOrder 4294967294 0
        [⟨⟨0, ⟨54, 56⟩, [65, 66]⟩, 0, 0⟩, ⟨⟨1, ⟨54, 57⟩, [67, 68, 69]⟩, 0, 0⟩]
        (withPendingLimits ⟨4194304, 50, 30⟩)).1, outcome = .delivered) ∧
      (consumeInOrder 4294967294 0
        [⟨⟨0, ⟨54, 56⟩, [65, 66]⟩, 0, 0⟩, ⟨⟨1, ⟨54, 57⟩, [67, 68, 69]⟩, 0, 0⟩]
        (withPendingLimits ⟨4194304, 50, 30⟩)).2 = [65, 66, 67, 68, 69] := by
  refine (consumeInOrder_lossless_iff 4294967294 ⟨4194304, 50, 30⟩
    [⟨⟨0, ⟨54, 56⟩, [65, 66]⟩, 0, 0⟩, ⟨⟨1, ⟨54, 57⟩, [67, 68, 69]⟩, 0, 0⟩] ?_).mpr ?_
  · simp [WireSized]
  · simp [carried]

/-- A stream of `2 ^ 32 + 1` bytes, one byte per segment: the last byte starts at
`2 ^ 32`, and its push is not delivered. -/
theorem consumeInOrder_loses_byte_past_four_gigabytes :
    ¬ ∀ (isn : UInt32) (limits : PendingLimits) (arrivals : List Arrival),
      WireSized arrivals →
      (∀ outcome ∈ (consumeInOrder isn 0 arrivals (withPendingLimits limits)).1,
        outcome = .delivered) ∧
      (consumeInOrder isn 0 arrivals (withPendingLimits limits)).2 = carried arrivals := by
  intro hlossless
  obtain ⟨count, hcount⟩ : ∃ count, count = 2 ^ 32 := ⟨_, rfl⟩
  set byte : Arrival := ⟨⟨0, ⟨0, 1⟩, [0]⟩, 0, 0⟩
  have hsized : WireSized (List.replicate (count + 1) byte) := by
    intro arrival harrival
    rw [List.eq_of_mem_replicate harrival]
    exact ⟨by decide, by decide⟩
  have hcarried : (carried (List.replicate count byte)).length = count := by
    simp [carried, List.flatMap_replicate, byte]
  have hiff := consumeInOrder_iff_of_caughtUp 0 (List.replicate (count + 1) byte) 0 _
    (caughtUp_start 0 ⟨0, 0, 0⟩) hsized
  rcases hiff.mp (hlossless 0 ⟨0, 0, 0⟩ _ hsized) with hnil | hlt
  · simp at hnil
  · rw [List.dropLast_replicate, Nat.add_sub_cancel, hcarried] at hlt
    omega

end StreamReassembler

end Tlscap
