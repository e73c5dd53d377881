import Tlscap.Library.Coverage
import Tlscap.Reassembly.Invariant

/-!
# Lossless, order-independent reassembly

The reassembler is compared with a receiver that knows nothing but which positions of the
stream it has got.  `Holds r p` says that position `p` is delivered or pending in `r`;
`Reassembles stream taken r` says that what `r` delivered and buffers are bytes of `stream`.

## Strategy

What a push has to achieve is `Receives`: it keeps to the stream and adds exactly the positions
of its payload.

* **Draining** keeps the held positions as they are (`holds_drainLoop`): a segment that the
  cursor has overtaken is thrown away only when its positions are all delivered.
* **A push that delivers**, trims or discards a duplicate adds the positions past the cursor;
  those before it were held already (`receives_deliver`).
* **A push that buffers** adds the positions of its segment.  A pending segment with the same
  start is replaced by a longer one only, whose positions include its own (`holds_store`).
* **The limits** either abandon a gap, which the push reports, or leave the state alone
  (`enforceLimits_kept`).

Since every pending segment starts behind a gap, the cursor is then the length of the longest
prefix covered by the pushed slices, which does not depend on the order of the pushes
(`run_lossless`).  Taking bytes moves them to the client and changes no position.

A push is given its place by a sequence number.  The wrapping distance from the base recovers
the offset below `2 ^ 32` (`toNat_seq_sub`), so the streams here are no longer than that.
-/

namespace Tlscap

namespace StreamReassembler

/-- The delivered and pending bytes are bytes of the stream; `taken` are the
delivered bytes that were consumed. -/
structure Reassembles (stream taken : Bytes) (r : StreamReassembler) : Prop where
  delivered : taken ++ r.contiguousBytes = stream.take r.nextExpectedRelative
  next_le : r.nextExpectedRelative ≤ stream.length
  pending_slice : ∀ entry ∈ r.pending.entries,
    entry.2.data = slice stream entry.1 entry.2.data.length ∧
      entry.1 + entry.2.data.length ≤ stream.length

/-- The position was received: it is delivered or pending. -/
def Holds (r : StreamReassembler) (position : ℕ) : Prop :=
  position < r.nextExpectedRelative ∨ ∃ entry ∈ r.pending.entries,
    entry.1 ≤ position ∧ position < entry.1 + entry.2.data.length

/-- The position at the cursor is not held: every pending segment starts behind it. -/
theorem Ahead.not_holds {r : StreamReassembler} (h : r.Ahead) :
    ¬ r.Holds r.nextExpectedRelative := by
  rintro (hlt | ⟨entry, hentry, hle, -⟩)
  · exact lt_irrefl _ hlt
  · exact absurd hle (not_le.mpr (h entry hentry))

variable {stream taken : Bytes}

/-! ## Delivering and draining -/

/-- Delivering the next bytes of the stream. -/
theorem Reassembles.deliver {r : StreamReassembler} (h : Reassembles stream taken r)
    {seg : Segment} (hdata : seg.data = slice stream r.nextExpectedRelative seg.data.length)
    (hle : r.nextExpectedRelative + seg.data.length ≤ stream.length) :
    Reassembles stream taken (r.deliver seg) where
  delivered := by
    rw [contiguousBytes_deliver, ← List.append_assoc, h.delivered, hdata, take_append_slice]
    rfl
  next_le := hle
  pending_slice := h.pending_slice

theorem Reassembles.removeFirst {r : StreamReassembler} (h : Reassembles stream taken r)
    {key : ℕ} {seg : Segment} {rest : OrderedMap ℕ Segment}
    (hpop : r.pending.popFirst? = some ((key, seg), rest)) :
    Reassembles stream taken (r.removeFirst seg rest) where
  delivered := h.delivered
  next_le := h.next_le
  pending_slice := fun entry hentry =>
    h.pending_slice entry (OrderedMap.popFirst?_subset hpop hentry)

/-- A trimmed slice is the slice of the positions that are left. -/
theorem trimmed_slice {seg : Segment} {offset : ℕ}
    (hdata : seg.data = slice stream offset seg.data.length) (trim : ℕ) :
    (seg.trimmed trim).data = slice stream (offset + trim) (seg.trimmed trim).data.length := by
  have hlength : (seg.trimmed trim).data.length = seg.data.length - trim := List.length_drop
  rw [hlength, ← drop_slice, ← hdata]
  rfl

theorem Reassembles.drainLoop {r : StreamReassembler} (h : Reassembles stream taken r)
    (fuel : ℕ) : Reassembles stream taken (drainLoop fuel r) := by
  refine drainLoop_induction (P := Reassembles stream taken)
    (fun _ _ _ _ hpop _ h => h.removeFirst hpop) ?_ fuel r h
  intro r key seg rest hpop hkey hend h
  obtain ⟨hdata, hle⟩ := h.pending_slice (key, seg) (OrderedMap.popFirst?_mem hpop)
  have hlength : (seg.trimmed (r.nextExpectedRelative - key)).data.length =
      seg.data.length - (r.nextExpectedRelative - key) := List.length_drop
  have hstart : key + (r.nextExpectedRelative - key) = r.nextExpectedRelative := by omega
  have htrim := trimmed_slice hdata (r.nextExpectedRelative - key)
  simp only at hle
  rw [hstart] at htrim
  exact (h.removeFirst hpop).deliver htrim
    (by simp only [StreamReassembler.removeFirst]; omega)

/-- Removing the first pending segment gives its positions up. -/
theorem holds_popFirst {r : StreamReassembler} {key : ℕ} {seg : Segment}
    {rest : OrderedMap ℕ Segment} (hpop : r.pending.popFirst? = some ((key, seg), rest))
    (position : ℕ) : r.Holds position ↔ (r.removeFirst seg rest).Holds position ∨
      key ≤ position ∧ position < key + seg.data.length := by
  simp only [Holds, (OrderedMap.popFirst?_spec hpop).1, List.exists_mem_cons_iff,
    StreamReassembler.removeFirst]
  rw [or_right_comm, or_assoc]

/-- Delivering a segment adds the positions from the cursor on. -/
theorem holds_deliver (r : StreamReassembler) (seg : Segment) (position : ℕ) :
    (r.deliver seg).Holds position ↔ r.Holds position ∨
      r.nextExpectedRelative ≤ position ∧
        position < r.nextExpectedRelative + seg.data.length := by
  simp only [Holds, StreamReassembler.deliver]
  constructor
  · rintro (hlt | hpending)
    · by_cases hbefore : position < r.nextExpectedRelative
      · exact Or.inl (Or.inl hbefore)
      · exact Or.inr ⟨not_lt.mp hbefore, hlt⟩
    · exact Or.inl (Or.inr hpending)
  · rintro ((hlt | hpending) | hnew)
    · exact Or.inl (by omega)
    · exact Or.inr hpending
    · exact Or.inl hnew.2

/-- Draining moves bytes from pending to delivered and loses none. -/
theorem holds_drainLoop (r : StreamReassembler) (fuel position : ℕ) :
    (drainLoop fuel r).Holds position ↔ r.Holds position := by
  refine drainLoop_induction (P := fun r' => r'.Holds position ↔ r.Holds position)
    ?_ ?_ fuel r Iff.rfl
  · -- an overtaken segment has no position that is not delivered
    intro r' key seg rest hpop hend h
    rw [← h, holds_popFirst hpop]
    refine ⟨Or.inl, ?_⟩
    rintro (h | ⟨-, hlt⟩)
    · exact h
    · exact Or.inl (hlt.trans_le hend)
  · -- what is trimmed off a delivered segment was delivered before
    intro r' key seg rest hpop hkey hend h
    have hlength : (seg.trimmed (r'.nextExpectedRelative - key)).data.length =
        seg.data.length - (r'.nextExpectedRelative - key) := List.length_drop
    rw [← h, holds_popFirst hpop, holds_deliver]
    have hsame : (r'.removeFirst seg rest).nextExpectedRelative = r'.nextExpectedRelative := rfl
    rw [hsame, hlength]
    constructor
    · rintro (h | hnew)
      · exact Or.inl h
      · exact Or.inr (by omega)
    · rintro (h | hold)
      · exact Or.inl h
      · by_cases hbefore : position < r'.nextExpectedRelative
        · exact Or.inl (Or.inl hbefore)
        · exact Or.inr (by omega)

theorem holds_stopClock (r : StreamReassembler) (position : ℕ) :
    r.stopClock.Holds position ↔ r.Holds position := by
  simp [Holds]

theorem Reassembles.stopClock {r : StreamReassembler} (h : Reassembles stream taken r) :
    Reassembles stream taken r.stopClock where
  delivered := by simpa [contiguousBytes] using h.delivered
  next_le := by simpa using h.next_le
  pending_slice := by simpa using h.pending_slice

/-! ## One push -/

/-- What a push that abandons nothing achieves: it keeps to the stream and adds
exactly the positions of its payload. -/
structure Receives (stream taken : Bytes) (offset length : ℕ) (r r' : StreamReassembler) :
    Prop where
  reassembles : Reassembles stream taken r'
  holds : ∀ position, r'.Holds position ↔
    r.Holds position ∨ offset ≤ position ∧ position < offset + length

theorem receives_deliver {r : StreamReassembler} (h : Reassembles stream taken r)
    {seg : Segment} {offset length : ℕ}
    (hdata : seg.data = slice stream r.nextExpectedRelative seg.data.length)
    (hle : r.nextExpectedRelative + seg.data.length ≤ stream.length)
    (hoffset : offset ≤ r.nextExpectedRelative)
    (hend : r.nextExpectedRelative + seg.data.length = offset + length) :
    Receives stream taken offset length r (r.deliver seg).drainPending where
  reassembles := ((h.deliver hdata hle).drainLoop _).stopClock
  holds := by
    intro position
    rw [drainPending, holds_stopClock, holds_drainLoop, holds_deliver, hend]
    constructor
    · rintro (h | ⟨hfrom, hto⟩)
      · exact Or.inl h
      · exact Or.inr ⟨hoffset.trans hfrom, hto⟩
    · rintro (h | ⟨hfrom, hto⟩)
      · exact Or.inl h
      · by_cases hbefore : position < r.nextExpectedRelative
        · exact Or.inl (Or.inl hbefore)
        · exact Or.inr ⟨not_lt.mp hbefore, hto⟩

/-- `enforceLimits` leaves a state alone unless it abandons a gap. -/
theorem enforceLimits_kept {r : StreamReassembler} {checked : Instant}
    (hkept : (r.enforceLimits checked).1.isGapAbandoned = false) :
    (r.enforceLimits checked).2 = r := by
  unfold enforceLimits at hkept ⊢
  split_ifs at hkept ⊢ with hfits hage
  · rfl
  · cases hkept
  · cases hkept

theorem reassembles_store {r : StreamReassembler} (h : Reassembles stream taken r) {rel : ℕ}
    {seg : Segment} (opened : Instant) (hdata : seg.data = slice stream rel seg.data.length)
    (hle : rel + seg.data.length ≤ stream.length) :
    Reassembles stream taken (r.store rel seg opened) where
  delivered := h.delivered
  next_le := h.next_le
  pending_slice := by
    intro entry hentry
    rcases OrderedMap.mem_insert.mp hentry with rfl | ⟨hentry, _⟩
    · exact ⟨hdata, hle⟩
    · exact h.pending_slice entry hentry

/-- Storing a segment adds its positions; a segment it replaces must be shorter. -/
theorem holds_store {r : StreamReassembler} {rel : ℕ} {seg : Segment} (opened : Instant)
    (hshorter : ∀ existing, r.pending.find? rel = some existing →
      existing.data.length ≤ seg.data.length) (position : ℕ) :
    (r.store rel seg opened).Holds position ↔
      r.Holds position ∨ rel ≤ position ∧ position < rel + seg.data.length := by
  simp only [Holds, store, OrderedMap.mem_insert]
  constructor
  · rintro (hlt | ⟨entry, rfl | ⟨hentry, _⟩, hposition⟩)
    · exact Or.inl (Or.inl hlt)
    · exact Or.inr hposition
    · exact Or.inl (Or.inr ⟨entry, hentry, hposition⟩)
  · rintro ((hlt | ⟨entry, hentry, hposition⟩) | hnew)
    · exact Or.inl hlt
    · by_cases hkey : entry.1 = rel
      · have hfind : r.pending.find? rel = some entry.2 :=
          OrderedMap.find?_eq_some_iff.mpr (hkey ▸ hentry)
        have := hshorter entry.2 hfind
        exact Or.inr ⟨(rel, seg), Or.inl rfl, by simp only; omega⟩
      · exact Or.inr ⟨entry, Or.inr ⟨hentry, hkey⟩, hposition⟩
    · exact Or.inr ⟨(rel, seg), Or.inl rfl, hnew⟩

theorem receives_bufferPending {r : StreamReassembler} (h : Reassembles stream taken r)
    {rel : ℕ} {seg : Segment} (hdata : seg.data = slice stream rel seg.data.length)
    (hle : rel + seg.data.length ≤ stream.length) {opened checked : Instant}
    (hkept : (r.bufferPending rel seg opened checked).1.isGapAbandoned = false) :
    Receives stream taken rel seg.data.length r
      (r.bufferPending rel seg opened checked).2 := by
  unfold bufferPending at hkept ⊢
  split at hkept
  · rename_i existing hfind
    split_ifs at hkept ⊢ with hlong
    · -- the pending segment has all positions of the new one
      refine ⟨h, ?_⟩
      intro position
      refine ⟨Or.inl, ?_⟩
      rintro (hold | hnew)
      · exact hold
      · have hmem : (rel, existing) ∈ r.pending.entries := OrderedMap.find?_eq_some_iff.mp hfind
        exact Or.inr ⟨(rel, existing), hmem, hnew.1, by simp only; omega⟩
    · -- the new segment has all positions of the pending one
      set shrunk : StreamReassembler :=
        { r with pendingLen := r.pendingLen - existing.data.length }
      have hshrunk : Reassembles stream taken shrunk := ⟨h.1, h.2, h.3⟩
      rw [enforceLimits_kept hkept]
      refine ⟨reassembles_store hshrunk opened hdata hle, ?_⟩
      apply holds_store (r := shrunk) opened
      intro other hother
      have hsame : other = existing := Option.some.inj (hother.symm.trans hfind)
      rw [hsame]
      omega
  · rename_i hfind
    rw [enforceLimits_kept hkept]
    refine ⟨reassembles_store h opened hdata hle, ?_⟩
    apply holds_store opened
    intro other hother
    rw [hfind] at hother
    cases hother

/-- **One push.**  It keeps to the stream and adds the positions of its payload. -/
theorem receives_pushRelative {r : StreamReassembler} (h : Reassembles stream taken r)
    (packetIndex : ℕ) (range : ByteRange) {offset length : ℕ}
    (hle : offset + length ≤ stream.length) {opened checked : Instant}
    (hkept : (r.pushRelative packetIndex range (slice stream offset length) offset
      opened checked).1.isGapAbandoned = false) :
    Receives stream taken offset length r
      (r.pushRelative packetIndex range (slice stream offset length) offset
        opened checked).2 := by
  have hlength := length_slice hle
  have hdata : (⟨packetIndex, range, slice stream offset length⟩ : Segment).data =
      slice stream offset (slice stream offset length).length := by rw [hlength]
  unfold pushRelative at hkept ⊢
  simp only [hlength] at hkept ⊢
  split_ifs at hkept ⊢ with hduplicate hbehind hexact
  · -- a duplicate: its positions are delivered already
    refine ⟨h, ?_⟩
    intro position
    refine ⟨Or.inl, ?_⟩
    rintro (hold | ⟨-, hlt⟩)
    · exact hold
    · exact Or.inl (hlt.trans_le hduplicate)
  · -- a partial retransmit: its new tail starts at the cursor
    have hstart : offset + (r.nextExpectedRelative - offset) = r.nextExpectedRelative := by omega
    have htrim := trimmed_slice hdata (r.nextExpectedRelative - offset)
    have hrest : (slice stream offset length).length - (r.nextExpectedRelative - offset) =
        length - (r.nextExpectedRelative - offset) := by rw [hlength]
    rw [hstart] at htrim
    refine receives_deliver h htrim ?_ hbehind.le ?_ <;>
      simp only [Segment.trimmed, List.length_drop, hrest] <;> omega
  · -- the next bytes
    subst hexact
    exact receives_deliver h hdata (by simpa only [hlength] using hle) le_rfl
      (by simp only [hlength])
  · -- a segment behind a gap
    have hbuffered := receives_bufferPending h hdata (by simpa only [hlength] using hle) hkept
    simpa only [hlength] using hbuffered

/-- The wrapping distance from the base recovers an offset below `2 ^ 32`. -/
theorem toNat_seq_sub (isn : UInt32) {offset : ℕ} (hoffset : offset < 2 ^ 32) :
    (isn + UInt32.ofNat offset - isn).toNat = offset := by
  rw [add_sub_cancel_left, UInt32.toNat_ofNat_of_lt' hoffset]

theorem relativeSeq_eq {r : StreamReassembler} {isn : UInt32} (hbase : r.baseSeq = some isn)
    {offset : ℕ} (hoffset : offset < 2 ^ 32) :
    r.relativeSeq (isn + UInt32.ofNat offset) = (offset, r) := by
  unfold relativeSeq
  simp only [hbase, Option.getD_some]
  rw [toNat_seq_sub isn hoffset, ← hbase]

/-- A payload that leaves no gap before it abandons none. -/
theorem push_kept_of_le {r : StreamReassembler} {isn : UInt32} (hbase : r.baseSeq = some isn)
    {offset : ℕ} (hoffset : offset < 2 ^ 32) (hle : offset ≤ r.nextExpectedRelative)
    (packetIndex : ℕ) (range : ByteRange) (payload : Bytes) (opened checked : Instant) :
    (r.push packetIndex (isn + UInt32.ofNat offset) range payload opened
      checked).1.isGapAbandoned = false := by
  unfold push
  rw [relativeSeq_eq hbase hoffset]
  split_ifs
  · rfl
  · simp only [pushRelative]
    split_ifs
    · rfl
    · rfl
    · rfl
    · omega

/-- A push of a slice of the stream under its wire sequence number. -/
theorem receives_push {r : StreamReassembler} (h : Reassembles stream taken r) {isn : UInt32}
    (hbase : r.baseSeq = some isn) (hstream : stream.length < 2 ^ 32) (packetIndex : ℕ)
    (range : ByteRange) {offset length : ℕ} (hle : offset + length ≤ stream.length)
    {opened checked : Instant}
    (hkept : (r.push packetIndex (isn + UInt32.ofNat offset) range
      (slice stream offset length) opened checked).1.isGapAbandoned = false) :
    Receives stream taken offset length r
      (r.push packetIndex (isn + UInt32.ofNat offset) range
        (slice stream offset length) opened checked).2 := by
  unfold push at hkept ⊢
  split_ifs at hkept ⊢ with hempty
  · have hzero : length = 0 := by
      have hlength := length_slice hle
      rw [List.isEmpty_iff.mp hempty] at hlength
      exact hlength.symm
    refine ⟨h, ?_⟩
    intro position
    refine ⟨Or.inl, ?_⟩
    rintro (hold | hnew)
    · exact hold
    · omega
  · rw [relativeSeq_eq hbase (by omega)] at hkept ⊢
    exact receives_pushRelative h packetIndex range hle hkept

/-! ## Runs -/

/-- One call of a client that carries slices of a stream. -/
inductive Call
  | push (packetIndex : ℕ) (range : ByteRange) (offset length : ℕ) (opened checked : Instant)
  | peek (n : ℕ)
  | takeBytes (n : ℕ)
  deriving DecidableEq, Repr

/-- A reassembler together with what its client did and got so far. -/
structure Transcript where
  reassembler : StreamReassembler
  taken : Bytes
  pushed : List (ℕ × ℕ)
  outcomes : List PushOutcome
  deriving DecidableEq

/-- The transcript after one more call; `none` for a call that is not valid. -/
def Transcript.call (stream : Bytes) (isn : UInt32) (t : Transcript) : Call → Option Transcript
  | .push packetIndex range offset length opened checked =>
      if offset + length ≤ stream.length then
        let (outcome, r) := t.reassembler.push packetIndex (isn + UInt32.ofNat offset) range
          (slice stream offset length) opened checked
        some ⟨r, t.taken, t.pushed ++ [(offset, length)], t.outcomes ++ [outcome]⟩
      else none
  | .peek _ => some t
  | .takeBytes n =>
      match t.reassembler.takeBytes n with
      | none => none
      | some ((out, _), r) => some { t with reassembler := r, taken := t.taken ++ out }

/-- The calls from first to last on a reassembler anchored at `isn`. -/
def run (stream : Bytes) (isn : UInt32) (limits : PendingLimits) (calls : List Call) :
    Option Transcript :=
  calls.foldlM (Transcript.call stream isn)
    ⟨(withPendingLimits limits).setIsn isn, [], [], []⟩

/-- Everything the client can have: the bytes it took and those it can take. -/
def Transcript.deliveredBytes (t : Transcript) : Bytes :=
  t.taken ++ t.reassembler.contiguousBytes

/-- No push has abandoned a gap. -/
def Transcript.Kept (t : Transcript) : Prop :=
  ∀ outcome ∈ t.outcomes, outcome.isGapAbandoned = false

/-- The invariant of a run: the positions held are those of the pushed slices. -/
structure Transcript.Faithful (stream : Bytes) (isn : UInt32) (t : Transcript) : Prop where
  base : t.reassembler.baseSeq = some isn
  invariant : t.reassembler.Invariant
  reassembles : Reassembles stream t.taken t.reassembler
  holds : ∀ position, t.reassembler.Holds position ↔ Coverage.Covered t.pushed position

theorem faithful_start (stream : Bytes) (isn : UInt32) (limits : PendingLimits) :
    Transcript.Faithful stream isn ⟨(withPendingLimits limits).setIsn isn, [], [], []⟩ where
  base := rfl
  invariant := (invariant_withPendingLimits limits).setIsn isn
  reassembles := ⟨rfl, Nat.zero_le _, by simp [setIsn, withPendingLimits]⟩
  holds := by simp [Holds, setIsn, withPendingLimits]

/-- Calls only append outcomes, so an abandoned gap stays on the record. -/
theorem Transcript.Kept.of_call {isn : UInt32} {t t' : Transcript} {call : Call}
    (hcall : t.call stream isn call = some t') (hkept : t'.Kept) : t.Kept := by
  cases call with
  | push packetIndex range offset length opened checked =>
      simp only [Transcript.call] at hcall
      split_ifs at hcall
      cases hcall
      intro outcome houtcome
      exact hkept outcome (List.mem_append_left _ houtcome)
  | peek n =>
      cases hcall
      exact hkept
  | takeBytes n =>
      simp only [Transcript.call] at hcall
      split at hcall
      · cases hcall
      · cases hcall
        exact hkept

/-- Consuming bytes moves them from the queue to the client. -/
theorem Transcript.Faithful.takeBytes {isn : UInt32} {t : Transcript}
    (h : t.Faithful stream isn) {n : ℕ} {out : Bytes} {pieces : List SourcePiece}
    {r : StreamReassembler} (htake : t.reassembler.takeBytes n = some ((out, pieces), r)) :
    Transcript.Faithful stream isn { t with reassembler := r, taken := t.taken ++ out } := by
  obtain ⟨hout, hleft, hframe⟩ := h.invariant.toSized.takeBytes_cases htake
  have hinvariant := h.invariant.takeBytes htake
  have hbytes : t.taken ++ out ++ r.contiguousBytes =
      stream.take t.reassembler.nextExpectedRelative := by
    calc t.taken ++ out ++ r.contiguousBytes
        = t.taken ++ (out ++ r.contiguousBytes) := List.append_assoc _ _ _
      _ = t.taken ++ t.reassembler.contiguousBytes := by
          rw [hout, hleft, List.take_append_drop]
      _ = stream.take t.reassembler.nextExpectedRelative := h.reassembles.delivered
  rw [hframe] at hinvariant hbytes ⊢
  exact ⟨h.base, hinvariant, ⟨hbytes, h.reassembles.next_le, h.reassembles.pending_slice⟩,
    h.holds⟩

/-- One call keeps the invariant of the run. -/
theorem Transcript.Faithful.call {isn : UInt32} (hstream : stream.length < 2 ^ 32)
    {t t' : Transcript} (h : t.Faithful stream isn) {call : Call}
    (hcall : t.call stream isn call = some t') (hkept : t'.Kept) : t'.Faithful stream isn := by
  cases call with
  | push packetIndex range offset length opened checked =>
      simp only [Transcript.call] at hcall
      split_ifs at hcall with hle
      cases hcall
      have hreceives := receives_push h.reassembles h.base hstream packetIndex range hle
        (hkept _ (List.mem_append_right _ (List.mem_singleton_self _)))
      refine ⟨?_, h.invariant.push _ _ _ _ _ _, hreceives.reassembles, ?_⟩
      · exact (sameAnchor_push h.base _ _ _ _ _ _).1.trans h.base
      · intro position
        rw [Coverage.covered_append_singleton, ← h.holds]
        exact hreceives.holds position
  | peek n =>
      cases hcall
      exact h
  | takeBytes n =>
      simp only [Transcript.call] at hcall
      split at hcall
      · cases hcall
      · rename_i out pieces r htake
        cases hcall
        exact h.takeBytes htake

theorem Transcript.Kept.of_calls {isn : UInt32} (calls : List Call) {t t' : Transcript}
    (hrun : calls.foldlM (Transcript.call stream isn) t = some t') (hkept : t'.Kept) :
    t.Kept := by
  induction calls generalizing t with
  | nil =>
      cases hrun
      exact hkept
  | cons call rest ih =>
      rw [List.foldlM_cons, Option.bind_eq_bind, Option.bind_eq_some_iff] at hrun
      obtain ⟨middle, hcall, hrest⟩ := hrun
      exact (ih hrest).of_call hcall

/-- The invariant along a run that abandons nothing. -/
theorem Transcript.Faithful.calls {isn : UInt32} (hstream : stream.length < 2 ^ 32)
    (calls : List Call) {t t' : Transcript} (h : t.Faithful stream isn)
    (hrun : calls.foldlM (Transcript.call stream isn) t = some t') (hkept : t'.Kept) :
    t'.Faithful stream isn := by
  induction calls generalizing t with
  | nil =>
      cases hrun
      exact h
  | cons call rest ih =>
      rw [List.foldlM_cons, Option.bind_eq_bind, Option.bind_eq_some_iff] at hrun
      obtain ⟨middle, hcall, hrest⟩ := hrun
      -- the outcome of this call is on the final record, so it abandoned nothing
      exact ih (h.call hstream hcall (Transcript.Kept.of_calls rest hrest hkept)) hrest

/-- The positions below the cursor are the longest prefix covered by the pushes. -/
theorem Transcript.Faithful.isCoveredPrefix {isn : UInt32} {t : Transcript}
    (h : t.Faithful stream isn) :
    Coverage.IsCoveredPrefix t.pushed t.reassembler.nextExpectedRelative := by
  apply Coverage.isCoveredPrefix_of_not_covered
  · intro position hposition
    exact (h.holds position).mp (Or.inl hposition)
  · rw [← h.holds]
    exact h.invariant.ahead.not_holds

theorem faithful_run {isn : UInt32} {limits : PendingLimits} {calls : List Call} {t : Transcript}
    (hstream : stream.length < 2 ^ 32) (hrun : run stream isn limits calls = some t)
    (hkept : t.Kept) : t.Faithful stream isn :=
  (faithful_start stream isn limits).calls hstream calls hrun hkept

/-- **Lossless, order-independent reassembly.**  After any valid calls of which no
push abandoned a gap, the client has exactly the longest prefix of the stream
that the pushed slices cover, and whatever is pending starts behind it.  Another
run over the same slices ends with the same bytes. -/
theorem run_lossless (stream : Bytes) (hstream : stream.length < 2 ^ 32) (isn : UInt32)
    (limits : PendingLimits) (calls : List Call) (t : Transcript)
    (hrun : run stream isn limits calls = some t) (hkept : t.Kept) :
    (t.deliveredBytes = stream.take t.reassembler.nextExpectedRelative ∧
      t.reassembler.nextExpectedRelative ≤ stream.length ∧
      Coverage.IsCoveredPrefix t.pushed t.reassembler.nextExpectedRelative ∧
      ∀ entry ∈ t.reassembler.pending.entries,
        t.reassembler.nextExpectedRelative < entry.1) ∧
    ∀ (isn' : UInt32) (limits' : PendingLimits) (calls' : List Call) (t' : Transcript),
      run stream isn' limits' calls' = some t' → t'.Kept →
      (∀ slice, slice ∈ t.pushed ↔ slice ∈ t'.pushed) →
      t.deliveredBytes = t'.deliveredBytes := by
  have h := faithful_run hstream hrun hkept
  refine ⟨⟨h.reassembles.delivered, h.reassembles.next_le, h.isCoveredPrefix,
    h.invariant.ahead⟩, ?_⟩
  intro isn' limits' calls' t' hrun' hkept' hsame
  have h' := faithful_run hstream hrun' hkept'
  have hnext := h.isCoveredPrefix.unique h'.isCoveredPrefix hsame
  calc t.deliveredBytes
      = stream.take t.reassembler.nextExpectedRelative := h.reassembles.delivered
    _ = stream.take t'.reassembler.nextExpectedRelative := by rw [hnext]
    _ = t'.deliveredBytes := h'.reassembles.delivered.symm

/-- Two overlapping segments, the later one first, with a partial take between. -/
theorem run_lossless_reordered :
    ∃ t, run [1, 2, 3, 4, 5] 4294967294 ⟨100, 10, 1000⟩
        [.push 0 ⟨54, 57⟩ 2 3 0 0, .push 1 ⟨54, 57⟩ 0 3 5 5, .takeBytes 2, .peek 9] = some t ∧
      t.deliveredBytes = [1, 2, 3, 4, 5] := by
  refine ⟨_, rfl, ?_⟩
  refine (run_lossless [1, 2, 3, 4, 5] (by decide) 4294967294 ⟨100, 10, 1000⟩
    [.push 0 ⟨54, 57⟩ 2 3 0 0, .push 1 ⟨54, 57⟩ 0 3 5 5, .takeBytes 2, .peek 9] _ rfl ?_).1.1
  unfold Transcript.Kept
  decide

end StreamReassembler

end Tlscap
