import Tlscap.Orchestrator.Capture
import Tlscap.Orchestrator.Lanes
import Tlscap.Reassembly.LongStream
import Tlscap.Reassembly.Misplaced

/-!
# Data on a SYN

A SYN takes one sequence number, so a direction is anchored one past the sequence number of
its SYN.  A payload on the SYN itself starts there, but it is pushed under the sequence number
of the SYN: one before the base, where it waits for ever, and everything after it waits
behind the gap it leaves.  So a direction whose SYN is its first frame receives the stream
that follows in order exactly if the SYN carries no data (`Orchestrator.syn_received_iff`).

## Strategy

A direction of a tracked pair is what its own frames make of it (`Orchestrator.lane_run`), so
it is followed as a `Lane`, apart from the other direction and from all other connections.
The lane is in one of two states, and never comes back from the second:

* **It has received the stream whole** (`WholeLane`): some records were cut off its front,
  the rest is contiguous, and nothing waits behind a gap.  The next segment extends this
  (`WholeLane.push`) as long as it starts less than `2 ^ 32` bytes into the stream, where
  its relative sequence number is the number of bytes before it.
* **It has received less than was sent** (`ShortLane`).  Draining makes no bytes
  (`takenBytes_drain`) and a push adds no more than its payload, so it stays behind
  (`ShortLane.run`).

A SYN without data starts a lane in the first state, one with data in the second; the first
segment past the wrap of the sequence numbers takes it from one to the other
(`WholeLane.falls`).
-/

namespace Tlscap

/-- The bytes of some records, with their headers. -/
def takenBytes (records : List (UInt8 × Bytes)) : ℕ :=
  (records.map fun record => 5 + record.2.length).sum

/-- Whole records. -/
def Whole (units : List Bytes) : Prop :=
  ∀ unit ∈ units, recordFormat.Complete unit ∧ recordFormat.size unit = unit.length

theorem takenBytes_append (first second : List (UInt8 × Bytes)) :
    takenBytes (first ++ second) = takenBytes first + takenBytes second := by
  rw [takenBytes, List.map_append, List.sum_append]
  rfl

theorem Whole.takenBytes {units : List Bytes} (h : Whole units) :
    takenBytes (units.map recordOf) = units.flatten.length := by
  induction units with
  | nil => rfl
  | cons unit rest ih =>
      have hheader : 5 ≤ unit.length := (h unit List.mem_cons_self).1.1
      have hrest := ih fun other hother => h other (List.mem_cons_of_mem unit hother)
      unfold Tlscap.takenBytes at hrest ⊢
      rw [List.map_cons, List.map_cons, List.sum_cons, hrest, List.flatten_cons,
        List.length_append, recordOf, List.length_drop]
      omega

theorem StreamReassembler.Invariant.takeRecords {r : StreamReassembler} (h : r.Invariant) :
    (takeRecords r.contiguousLen r).2.Invariant := by
  obtain ⟨-, -, hframe, hsized⟩ := h.toSized.takeRecords_eq le_rfl
  have hahead := h.ahead
  have hwithin := h.within
  have hclock := h.clock
  refine ⟨hsized, ?_, ?_, ?_⟩
  · rw [hframe]
    exact hahead
  · rw [hframe]
    exact hwithin
  · rw [hframe]
    exact hclock

/-! ## One direction -/

/-- Cuts the complete records off a stream. -/
def Lane.drain (lane : Lane) : Lane × List (UInt8 × Bytes) :=
  let taken := takeRecords lane.reassembler.contiguousLen lane.reassembler
  (⟨taken.2, lane.desynced⟩, taken.1)

/-- The direction has received all of `stream` and nothing else: some records were cut off
its front, the rest is contiguous, and nothing waits behind a gap. -/
structure WholeLane (isn : UInt32) (stream : Bytes) (records : List (UInt8 × Bytes))
    (lane : Lane) : Prop where
  synced : lane.desynced = false
  base : lane.reassembler.baseSeq = some isn
  invariant : lane.reassembler.Invariant
  next_eq : lane.reassembler.nextExpectedRelative = stream.length
  pending_eq : lane.reassembler.pending = OrderedMap.empty
  framed : ∃ units, Whole units ∧ records = units.map recordOf ∧
    stream = units.flatten ++ lane.reassembler.contiguousBytes

/-- The direction has received less than the `offset` bytes that were sent, and will stay
behind. -/
structure ShortLane (first : ℕ) (isn : UInt32) (offset : ℕ) (records : List (UInt8 × Bytes))
    (lane : Lane) : Prop where
  first_le : first ≤ offset
  invariant : lane.reassembler.Invariant
  received_lt : takenBytes records + lane.reassembler.contiguousLen < offset
  behind : lane.desynced = false → lane.reassembler.FallsBehind first isn offset ∧
    takenBytes records + lane.reassembler.contiguousLen = lane.reassembler.nextExpectedRelative

section Lane

variable {config : OrchestratorConfig} {lane : Lane} {isn : UInt32} {stream : Bytes}
  {records : List (UInt8 × Bytes)} {first offset : ℕ} {input : FrameInput}

theorem Lane.feed_eq (config : OrchestratorConfig) (lane : Lane) (input : FrameInput) :
    lane.feed config input = ((lane.anchor input).push config input).drain := rfl

theorem Lane.anchor_of_no_syn (lane : Lane) (hsyn : input.frame.flags.syn = false) :
    lane.anchor input = lane := by
  unfold Lane.anchor
  rw [hsyn, if_neg Bool.false_ne_true]

/-- The push of a payload, where no bytes were lost before. -/
theorem Lane.push_of_synced (config : OrchestratorConfig) (hsynced : lane.desynced = false)
    (hpayload : input.payload ≠ []) :
    let pushed := lane.reassembler.push 0 input.frame.seq input.frame.payloadRange input.payload
      input.clock.gapOpened input.clock.gapChecked
    lane.push config input =
      if pushed.1.isGapAbandoned then ⟨.withPendingLimits config.pendingLimits, true⟩
      else ⟨pushed.2, false⟩ := by
  unfold Lane.push
  rw [if_neg (by rw [hsynced]; exact not_or.mpr ⟨hpayload, Bool.false_ne_true⟩), hsynced]

theorem Lane.push_of_nil (config : OrchestratorConfig) (lane : Lane)
    (hpayload : input.payload = []) : lane.push config input = lane := by
  unfold Lane.push
  rw [if_pos (.inl hpayload)]

/-! ### Everything received -/

/-- Draining moves whole records from the contiguous bytes to those taken. -/
theorem WholeLane.drain (h : WholeLane isn stream records lane) :
    WholeLane isn stream (records ++ lane.drain.2) lane.drain.1 := by
  obtain ⟨hrecords, hleft, hframe, -⟩ := h.invariant.toSized.takeRecords_eq le_rfl
  obtain ⟨units, hunits, hshown, hstream⟩ := h.framed
  have hbase := h.base
  have hnext := h.next_eq
  have hpending := h.pending_eq
  have hparse := recordFormat.flatten_parse lane.reassembler.contiguousBytes
  refine ⟨h.synced, ?_, h.invariant.takeRecords, ?_, ?_,
    units ++ (recordFormat.parse lane.reassembler.contiguousBytes).1, ?_, ?_, ?_⟩
  · rw [Lane.drain, hframe]
    exact hbase
  · rw [Lane.drain, hframe]
    exact hnext
  · rw [Lane.drain, hframe]
    exact hpending
  · intro unit hunit
    rcases List.mem_append.mp hunit with hbefore | hnow
    · exact hunits unit hbefore
    · exact recordFormat.mem_parse _ unit hnow
  · rw [List.map_append, ← hshown]
    exact congrArg (records ++ ·) hrecords
  · calc stream = units.flatten ++ lane.reassembler.contiguousBytes := hstream
      _ = (units ++ (recordFormat.parse lane.reassembler.contiguousBytes).1).flatten ++
            (recordFormat.parse lane.reassembler.contiguousBytes).2 := by
          rw [List.flatten_append, List.append_assoc, hparse]
      _ = _ := by
          rw [← hleft]
          rfl

/-- The next segment of the stream is delivered. -/
theorem WholeLane.push (config : OrchestratorConfig) (h : WholeLane isn stream records lane)
    (hseq : input.frame.seq = isn + UInt32.ofNat stream.length)
    (hlow : input.payload ≠ [] → stream.length < 2 ^ 32) :
    WholeLane isn (stream ++ input.payload) records (lane.push config input) := by
  by_cases hpayload : input.payload = []
  · rw [lane.push_of_nil config hpayload, hpayload, List.append_nil]
    exact h
  -- below the wrap, the relative number is the length of what came before
  have hrel : (lane.reassembler.relativeSeq input.frame.seq).1 =
      lane.reassembler.nextExpectedRelative := by
    rw [StreamReassembler.relativeSeq_of_base h.base, hseq, add_sub_cancel_left,
      UInt32.toNat_ofNat', Nat.mod_eq_of_lt (hlow hpayload), h.next_eq]
  have hpush := StreamReassembler.push_at_cursor hrel h.pending_eq 0 input.frame.payloadRange
    hpayload input.clock.gapOpened input.clock.gapChecked
  have hinvariant := h.invariant.push 0 input.frame.seq input.frame.payloadRange input.payload
    input.clock.gapOpened input.clock.gapChecked
  rw [StreamReassembler.relativeSeq_of_base h.base] at hpush
  rw [hpush] at hinvariant
  rw [Lane.push_of_synced config h.synced hpayload, hpush]
  obtain ⟨units, hunits, hshown, hstream⟩ := h.framed
  refine ⟨rfl, ?_, hinvariant, ?_, ?_, units, hunits, hshown, ?_⟩
  · exact (StreamReassembler.stopClock_baseSeq _).trans h.base
  · refine (StreamReassembler.stopClock_nextExpectedRelative _).trans ?_
    rw [List.length_append, ← h.next_eq]
    rfl
  · exact (StreamReassembler.stopClock_pending _).trans h.pending_eq
  · rw [hstream, List.append_assoc]
    congr 1
    change _ = StreamReassembler.contiguousBytes (StreamReassembler.stopClock _)
    unfold StreamReassembler.contiguousBytes
    rw [StreamReassembler.stopClock_contiguous]
    exact (StreamReassembler.contiguousBytes_deliver lane.reassembler
      ⟨0, input.frame.payloadRange, input.payload⟩).symm

theorem WholeLane.takenBytes_add (h : WholeLane isn stream records lane) :
    takenBytes records + lane.reassembler.contiguousLen = stream.length := by
  obtain ⟨units, hunits, hshown, hstream⟩ := h.framed
  rw [hshown, hunits.takenBytes, h.invariant.toSized.contiguousLen_eq, hstream,
    List.length_append]

/-! ### Falling behind -/

/-- Draining moves bytes, but makes none. -/
theorem takenBytes_drain (hinvariant : lane.reassembler.Invariant) :
    takenBytes lane.drain.2 + lane.drain.1.reassembler.contiguousLen =
      lane.reassembler.contiguousLen := by
  obtain ⟨hrecords, hleft, -, hsized⟩ := hinvariant.toSized.takeRecords_eq le_rfl
  have hbytes := congrArg List.length
    (recordFormat.flatten_parse lane.reassembler.contiguousBytes)
  rw [List.length_append] at hbytes
  calc takenBytes lane.drain.2 + lane.drain.1.reassembler.contiguousLen
      = (recordFormat.parse lane.reassembler.contiguousBytes).1.flatten.length +
          (recordFormat.parse lane.reassembler.contiguousBytes).2.length := by
        rw [Lane.drain, hsized.contiguousLen_eq, hrecords, hleft,
          Whole.takenBytes (recordFormat.mem_parse lane.reassembler.contiguousBytes)]
    _ = lane.reassembler.contiguousLen := by
        rw [hbytes, hinvariant.toSized.contiguousLen_eq]

theorem ShortLane.drain (h : ShortLane first isn offset records lane) :
    ShortLane first isn offset (records ++ lane.drain.2) lane.drain.1 := by
  have hbytes := takenBytes_drain h.invariant
  obtain ⟨-, -, hframe, -⟩ := h.invariant.toSized.takeRecords_eq le_rfl
  have hlt := h.received_lt
  refine ⟨h.first_le, h.invariant.takeRecords, ?_, fun hsynced => ?_⟩
  · rw [takenBytes_append]
    omega
  · obtain ⟨hbehind, hreceived⟩ := h.behind hsynced
    rw [takenBytes_append]
    constructor
    · rw [Lane.drain, hframe]
      exact ⟨hbehind.base, hbehind.cursor, hbehind.pending⟩
    · have hnext : lane.drain.1.reassembler.nextExpectedRelative =
          lane.reassembler.nextExpectedRelative := by
        rw [Lane.drain, hframe]
      omega

/-- A push after which the cursor is behind leaves the direction short, whether or not it
gives up the gap. -/
theorem shortLane_push (hsynced : lane.desynced = false) (hpayload : input.payload ≠ [])
    (hinvariant : lane.reassembler.Invariant)
    (hreceived : takenBytes records + lane.reassembler.contiguousLen =
      lane.reassembler.nextExpectedRelative)
    (hbefore : lane.reassembler.nextExpectedRelative < offset) (hfirst : first ≤ offset)
    (hbehind : (lane.reassembler.push 0 input.frame.seq input.frame.payloadRange input.payload
      input.clock.gapOpened input.clock.gapChecked).2.FallsBehind first isn offset) :
    ShortLane first isn offset records (lane.push config input) := by
  have hafter := hinvariant.push 0 input.frame.seq input.frame.payloadRange input.payload
    input.clock.gapOpened input.clock.gapChecked
  have htaken := StreamReassembler.sameTaken_push lane.reassembler 0 input.frame.seq
    input.frame.payloadRange input.payload input.clock.gapOpened input.clock.gapChecked
  have hcursor := hbehind.cursor.lt hfirst
  unfold StreamReassembler.SameTaken at htaken
  have hsum : takenBytes records + (lane.reassembler.push 0 input.frame.seq
        input.frame.payloadRange input.payload input.clock.gapOpened
        input.clock.gapChecked).2.contiguousLen =
      (lane.reassembler.push 0 input.frame.seq input.frame.payloadRange input.payload
        input.clock.gapOpened input.clock.gapChecked).2.nextExpectedRelative := by
    omega
  rw [Lane.push_of_synced config hsynced hpayload]
  split_ifs with hgap
  · -- bytes are lost: the direction starts over and is never fed again
    refine ⟨hfirst, StreamReassembler.invariant_withPendingLimits _, ?_,
      fun hlost => absurd hlost Bool.true_eq_false.mp⟩
    exact Nat.lt_of_le_of_lt (Nat.le_add_right _ lane.reassembler.contiguousLen)
      (hreceived ▸ hbefore)
  · exact ⟨hfirst, hafter, hsum.trans_lt hcursor, fun _ => ⟨hbehind, hsum⟩⟩

theorem ShortLane.push (config : OrchestratorConfig)
    (h : ShortLane first isn offset records lane) (hsmall : first < 2 ^ 32)
    (hseq : input.frame.seq = isn + UInt32.ofNat offset) :
    ShortLane first isn (offset + input.payload.length) records (lane.push config input) := by
  have hle := h.first_le
  have hlt := h.received_lt
  by_cases hpayload : input.payload = []
  · rw [lane.push_of_nil config hpayload, hpayload, List.length_nil, Nat.add_zero]
    exact h
  cases hsynced : lane.desynced with
  | true =>
      have hkept : lane.push config input = lane := by
        unfold Lane.push
        rw [if_pos (.inr hsynced)]
      rw [hkept]
      refine ⟨by omega, h.invariant, by omega, fun hlost => ?_⟩
      rw [hsynced] at hlost
      cases hlost
  | false =>
      obtain ⟨hbehind, hreceived⟩ := h.behind hsynced
      have hcursor := hbehind.cursor.lt hle
      refine shortLane_push hsynced hpayload h.invariant hreceived (by omega) (by omega) ?_
      rw [hseq]
      exact StreamReassembler.fallsBehind_push hbehind.base hsmall hpayload
        (hbehind.cursor.mono (Nat.le_add_right _ _)) hbehind.pending (fun _ => ⟨hcursor, hle⟩)
        0 _ _ _

/-- The first segment past `2 ^ 32` falls behind. -/
theorem WholeLane.falls (config : OrchestratorConfig) (h : WholeLane isn stream records lane)
    (hseq : input.frame.seq = isn + UInt32.ofNat stream.length)
    (hpayload : input.payload ≠ []) (hhigh : 2 ^ 32 ≤ stream.length) :
    ShortLane 0 isn (stream.length + input.payload.length) records
      (lane.push config input) := by
  have hpos := List.length_pos_iff.mpr hpayload
  have hnext := h.next_eq
  have hreceived := h.takenBytes_add
  refine shortLane_push h.synced hpayload h.invariant (by omega) (by omega) (Nat.zero_le _) ?_
  rw [hseq]
  refine StreamReassembler.fallsBehind_push h.base (by decide) hpayload ?_ ?_ ?_ 0 _ _ _
  · exact .inr (.inl ⟨by omega, by omega⟩)
  · rw [h.pending_eq]
    exact fun _ hentry => absurd hentry List.not_mem_nil
  · intro hlow
    omega

/-! ### The SYN -/

/-- A direction that nothing was received on. -/
def Lane.fresh (config : OrchestratorConfig) : Lane :=
  ⟨.withPendingLimits config.pendingLimits, false⟩

theorem anchor_fresh (hsyn : input.frame.flags.syn = true) :
    ((Lane.fresh config).anchor input) =
      ⟨{ StreamReassembler.withPendingLimits config.pendingLimits with
        baseSeq := some (input.frame.seq + 1) }, false⟩ := by
  unfold Lane.anchor
  rw [if_pos hsyn]
  rfl

/-- A SYN without data anchors the direction. -/
theorem wholeLane_syn (config : OrchestratorConfig) (hsyn : input.frame.flags.syn = true)
    (hpayload : input.payload = []) :
    WholeLane (input.frame.seq + 1) [] []
      (((Lane.fresh config).anchor input).push config input) := by
  rw [Lane.push_of_nil config _ hpayload, anchor_fresh hsyn]
  have hinvariant := (StreamReassembler.invariant_withPendingLimits config.pendingLimits).rebase
    (some (input.frame.seq + 1))
  exact ⟨rfl, rfl, hinvariant, rfl, rfl, [], fun _ hunit => absurd hunit List.not_mem_nil,
    rfl, rfl⟩

/-- A SYN with data puts it one byte before the base. -/
theorem shortLane_syn (config : OrchestratorConfig) (hsyn : input.frame.flags.syn = true)
    (hpayload : input.payload ≠ []) :
    ShortLane input.payload.length (input.frame.seq + 1) input.payload.length []
      (((Lane.fresh config).anchor input).push config input) := by
  have hpos := List.length_pos_iff.mpr hpayload
  have hinvariant := (StreamReassembler.invariant_withPendingLimits config.pendingLimits).rebase
    (some (input.frame.seq + 1))
  rw [anchor_fresh hsyn]
  set r : StreamReassembler := { StreamReassembler.withPendingLimits config.pendingLimits with
    baseSeq := some (input.frame.seq + 1) } with hr
  have hearly : r.Early input.frame.seq 1 := ⟨rfl, show 0 < 2 ^ 31 by decide, by decide, by decide⟩
  refine shortLane_push rfl hpayload hinvariant rfl hpos le_rfl ⟨?_, ?_, ?_⟩
  · exact (StreamReassembler.sameAnchor_push rfl _ _ _ _ _ _).1
  · refine .inl ⟨?_, hpos⟩
    rw [hearly.push 0 input.frame.payloadRange hpayload]
    rcases r.bufferPending_cases (2 ^ 32 - 1) ⟨0, input.frame.payloadRange, input.payload⟩
      input.clock.gapOpened input.clock.gapChecked with
      ⟨-, hbuffer⟩ | ⟨-, stored, -, hnext, hbuffer⟩
    · rw [hbuffer]
      rfl
    · rw [hbuffer, (StreamReassembler.enforceLimits_clock stored _).1, hnext]
      rfl
  · intro entry hentry
    rcases StreamReassembler.pending_push r 0 _ _ _ _ _ hentry with hold | ⟨-, rfl, -⟩
    · exact absurd hold List.not_mem_nil
    · rw [hearly.relativeSeq]
      exact .inl ⟨rfl, le_rfl⟩

/-! ### In-order frames -/

/-- The frames carry a stream on, in order, from `offset` bytes behind its start. -/
def Continues (isn : UInt32) : ℕ → List FrameInput → Prop
  | _, [] => True
  | offset, input :: rest =>
      input.frame.flags.syn = false ∧ input.frame.seq = isn + UInt32.ofNat offset ∧
        Continues isn (offset + input.payload.length) rest

instance decidableContinues (isn : UInt32) :
    ∀ offset inputs, Decidable (Continues isn offset inputs)
  | _, [] => isTrue trivial
  | offset, input :: rest =>
      have := decidableContinues isn (offset + input.payload.length) rest
      inferInstanceAs (Decidable (_ ∧ _ ∧ _))

/-- Every payload among the frames starts less than `2 ^ 32` bytes into the stream. -/
def StartsBelow : ℕ → List FrameInput → Prop
  | _, [] => True
  | offset, input :: rest =>
      (input.payload ≠ [] → offset < 2 ^ 32) ∧ StartsBelow (offset + input.payload.length) rest

instance decidableStartsBelow : ∀ offset inputs, Decidable (StartsBelow offset inputs)
  | _, [] => isTrue trivial
  | offset, input :: rest =>
      have := decidableStartsBelow (offset + input.payload.length) rest
      inferInstanceAs (Decidable (_ ∧ _))

/-- The bytes the frames carry. -/
def payloads (inputs : List FrameInput) : Bytes := inputs.flatMap FrameInput.payload

/-- The direction after some frames. -/
def Lane.after (config : OrchestratorConfig) (lane : Lane) (inputs : List FrameInput) : Lane :=
  (Machine.run (Lane.feed config) lane inputs).1

/-- The records some frames complete. -/
def Lane.taken (config : OrchestratorConfig) (lane : Lane) (inputs : List FrameInput) :
    List (UInt8 × Bytes) :=
  Machine.collect (Lane.feed config) (fun lane input => (lane.feed config input).2) lane inputs

theorem length_payloads_cons (input : FrameInput) (rest : List FrameInput) :
    (payloads (input :: rest)).length = input.payload.length + (payloads rest).length := by
  rw [payloads, List.flatMap_cons, List.length_append]
  rfl

theorem ShortLane.run (config : OrchestratorConfig)
    (h : ShortLane first isn offset records lane) (hsmall : first < 2 ^ 32)
    {inputs : List FrameInput} (hcontinues : Continues isn offset inputs) :
    ShortLane first isn (offset + (payloads inputs).length)
      (records ++ lane.taken config inputs) (lane.after config inputs) := by
  induction inputs generalizing lane offset records with
  | nil =>
      rw [Lane.taken, Machine.collect, List.append_nil]
      exact h
  | cons input rest ih =>
      obtain ⟨hsyn, hseq, hrest⟩ := hcontinues
      have hpushed := (h.push config hsmall hseq).drain
      rw [← lane.anchor_of_no_syn hsyn, ← Lane.feed_eq] at hpushed
      have hlast := ih hpushed hrest
      rwa [List.append_assoc, Nat.add_assoc, ← length_payloads_cons] at hlast

theorem WholeLane.run (config : OrchestratorConfig) (h : WholeLane isn stream records lane)
    {inputs : List FrameInput}
    (hcontinues : Continues isn stream.length inputs) :
    (StartsBelow stream.length inputs → WholeLane isn (stream ++ payloads inputs)
      (records ++ lane.taken config inputs) (lane.after config inputs)) ∧
    (¬ StartsBelow stream.length inputs →
      ShortLane 0 isn (stream.length + (payloads inputs).length)
        (records ++ lane.taken config inputs) (lane.after config inputs)) := by
  -- by induction on the frames, the stream growing by what each of them carries
  induction inputs generalizing lane stream records with
  | nil =>
      refine ⟨fun _ => ?_, fun hnot => absurd trivial hnot⟩
      rw [Lane.taken, Machine.collect, List.append_nil, payloads, List.flatMap_nil,
        List.append_nil]
      exact h
  | cons input rest ih =>
      obtain ⟨hsyn, hseq, hrest⟩ := hcontinues
      by_cases hlow : input.payload ≠ [] → stream.length < 2 ^ 32
      · -- delivered: the stream goes on
        have hpushed := (h.push config hseq hlow).drain
        rw [← lane.anchor_of_no_syn hsyn, ← Lane.feed_eq] at hpushed
        rw [← List.length_append] at hrest
        obtain ⟨hwhole, hshort⟩ := ih hpushed hrest
        constructor
        · rintro ⟨-, hbelow⟩
          rw [← List.length_append] at hbelow
          have hlast := hwhole hbelow
          rwa [List.append_assoc, List.append_assoc] at hlast
        · intro hnot
          have hlater : ¬ StartsBelow (stream ++ input.payload).length rest := by
            rw [List.length_append]
            exact fun hbelow => hnot ⟨hlow, hbelow⟩
          have hlast := hshort hlater
          rwa [List.append_assoc, List.length_append, Nat.add_assoc,
            ← length_payloads_cons] at hlast
      · -- past `2 ^ 32`: short from here on
        refine ⟨fun hbelow => absurd hbelow.1 hlow, fun _ => ?_⟩
        push Not at hlow
        have hpushed := (h.falls config hseq hlow.1 hlow.2).drain
        rw [← lane.anchor_of_no_syn hsyn, ← Lane.feed_eq] at hpushed
        have hlast := hpushed.run config (by decide) hrest
        rwa [List.append_assoc, Nat.add_assoc, ← length_payloads_cons] at hlast

/-- The direction holds what is left of the stream, after the records that were taken. -/
def Lane.HasReceived (lane : Lane) (records : List (UInt8 × Bytes)) (stream : Bytes) : Prop :=
  lane.reassembler.pending.entries = [] ∧ ∃ units, Whole units ∧
    records = units.map recordOf ∧ stream = units.flatten ++ lane.reassembler.contiguousBytes

theorem WholeLane.hasReceived (h : WholeLane isn stream records lane) :
    lane.HasReceived records stream :=
  ⟨congrArg OrderedMap.entries h.pending_eq, h.framed⟩

theorem ShortLane.not_hasReceived (h : ShortLane first isn stream.length records lane) :
    ¬ lane.HasReceived records stream := by
  rintro ⟨-, units, hunits, hshown, hstream⟩
  have hlt := h.received_lt
  rw [hshown, hunits.takenBytes, h.invariant.toSized.contiguousLen_eq, ← List.length_append,
    ← hstream] at hlt
  exact lt_irrefl _ hlt

/-- A direction receives its stream exactly if no data rides on the SYN, and none starts
past `2 ^ 32`. -/
theorem fresh_hasReceived_iff (config : OrchestratorConfig)
    (hsyn : input.frame.flags.syn = true) (hsmall : input.payload.length < 2 ^ 32)
    {inputs : List FrameInput}
    (hcontinues : Continues (input.frame.seq + 1) input.payload.length inputs) :
    ((Lane.fresh config).after config (input :: inputs)).HasReceived
        ((Lane.fresh config).taken config (input :: inputs)) (payloads (input :: inputs)) ↔
      input.payload = [] ∧ StartsBelow 0 inputs := by
  by_cases hpayload : input.payload = []
  · rw [hpayload] at hcontinues
    have hstart := (wholeLane_syn config hsyn hpayload).drain
    rw [← Lane.feed_eq] at hstart
    obtain ⟨hwhole, hshort⟩ := hstart.run config hcontinues
    rw [and_iff_right hpayload]
    have hbytes : payloads (input :: inputs) = payloads inputs := by
      rw [payloads, List.flatMap_cons, hpayload, List.nil_append]
      rfl
    rw [hbytes]
    constructor
    · intro hreceived
      by_contra hnot
      have hlast := hshort hnot
      rw [List.length_nil, Nat.zero_add] at hlast
      exact hlast.not_hasReceived hreceived
    · intro hbelow
      exact (hwhole hbelow).hasReceived
  · have hstart := (shortLane_syn config hsyn hpayload).drain
    rw [← Lane.feed_eq] at hstart
    have hlast := hstart.run config hsmall hcontinues
    rw [← length_payloads_cons] at hlast
    exact iff_of_false hlast.not_hasReceived fun h => hpayload h.1

end Lane

/-! ## The frames of a direction in a run -/

theorem StreamReassembler.contiguousBytes_renumber (number : ℕ → ℕ) (r : StreamReassembler) :
    (r.renumber number).contiguousBytes = r.contiguousBytes := by
  unfold StreamReassembler.contiguousBytes StreamReassembler.renumber
  rw [List.flatMap_map]
  rfl

/-- Whether a frame is one of this direction of the pair. -/
def FrameInput.travels (key : ConnKey) (client : Endpoint) (isClientToServer : Bool)
    (input : FrameInput) : Bool :=
  decide (input.key = key) && (decide (input.src = client) == isClientToServer)

namespace Orchestrator

variable {σ : Type} (crypto : Crypto) (vm : LuaVm σ)

/-- The records one call takes off a direction of a pair. -/
def takenOf (key : ConnKey) (client : Endpoint) (isClientToServer : Bool)
    (orchestrator : Orchestrator σ) (input : FrameInput) : List (UInt8 × Bytes) :=
  if input.travels key client isClientToServer then
    (orchestrator.recordSteps crypto vm input).map fun step => (step.contentType, step.body)
  else []

/-- The records a run takes off a direction of a pair. -/
def taken (key : ConnKey) (client : Endpoint) (isClientToServer : Bool)
    (start : Orchestrator σ) (inputs : List FrameInput) : List (UInt8 × Bytes) :=
  Machine.collect (processFrame crypto vm) (takenOf crypto vm key client isClientToServer) start
    inputs

/-- The frame leaves the pair tracked. -/
def KeepsEntry (key : ConnKey) (orchestrator : Orchestrator σ) (input : FrameInput) : Prop :=
  ((orchestrator.processFrame crypto vm input).1.connections.lookup key).isSome = true

instance (key : ConnKey) (orchestrator : Orchestrator σ) (input : FrameInput) :
    Decidable (KeepsEntry crypto vm key orchestrator input) :=
  inferInstanceAs (Decidable (_ = true))

variable {crypto vm} {key : ConnKey} {orchestrator : Orchestrator σ} {conn last : Connection}
  {input : FrameInput} {isClientToServer : Bool}

/-- A frame of a pair that stays tracked feeds its own direction. -/
theorem lane_processFrame (hkey : input.key = key)
    (hlast : (orchestrator.processFrame crypto vm input).1.connections.lookup key = some last)
    (isClientToServer : Bool) :
    let opened := openConnection orchestrator.config (orchestrator.connections.lookup key) input
    let fed := (opened.lane isClientToServer).feed orchestrator.config input
    last.clientEndpoint = opened.clientEndpoint ∧
      last.lane isClientToServer =
        (if input.travels key opened.clientEndpoint isClientToServer then fed.1
          else opened.lane isClientToServer) ∧
      takenOf crypto vm key opened.clientEndpoint isClientToServer orchestrator input =
        if input.travels key opened.clientEndpoint isClientToServer then fed.2 else [] := by
  subst hkey
  intro opened fed
  have htravels : input.travels input.key opened.clientEndpoint isClientToServer = true ↔
      isClientToServer = direction orchestrator.config
        (orchestrator.connections.lookup input.key) input := by
    unfold FrameInput.travels
    rw [decide_eq_true (Eq.refl input.key), Bool.true_and, beq_iff_eq]
    exact eq_comm
  obtain ⟨hlanes, hrecords⟩ := handleFrame_lane orchestrator.config crypto vm
    (orchestrator.connections.lookup input.key) orchestrator.shared input
  rcases lookup_processFrame hlast with ⟨-, hother⟩ | ⟨-, -, rfl⟩
  · exact absurd rfl hother
  refine ⟨clientEndpoint_handleFrame crypto vm _ _ _ _, ?_, ?_⟩
  · rw [hlanes isClientToServer]
    by_cases hown : isClientToServer = direction orchestrator.config
        (orchestrator.connections.lookup input.key) input
    · rw [if_pos hown, if_pos (htravels.mpr hown)]
      subst hown
      rfl
    · rw [if_neg hown, if_neg fun h => hown (htravels.mp h)]
  · unfold takenOf
    by_cases hown : isClientToServer = direction orchestrator.config
        (orchestrator.connections.lookup input.key) input
    · rw [if_pos (htravels.mpr hown), if_pos (htravels.mpr hown)]
      subst hown
      exact hrecords
    · rw [if_neg fun h => hown (htravels.mp h), if_neg fun h => hown (htravels.mp h)]

/-- **A direction of a tracked pair** is what its own frames make of it. -/
theorem lane_run (hentry : orchestrator.connections.lookup key = some conn)
    (isClientToServer : Bool) {inputs : List FrameInput}
    (htracked : Machine.Throughout (Orchestrator.processFrame crypto vm)
      (KeepsEntry crypto vm key) orchestrator inputs) :
    let own := inputs.filter (FrameInput.travels key conn.clientEndpoint isClientToServer)
    ∃ last, (Machine.run (Orchestrator.processFrame crypto vm) orchestrator
        inputs).1.connections.lookup key = some last ∧
      last.lane isClientToServer = (conn.lane isClientToServer).after orchestrator.config own ∧
      taken crypto vm key conn.clientEndpoint isClientToServer orchestrator inputs =
        (conn.lane isClientToServer).taken orchestrator.config own := by
  -- by induction on the frames, from whatever state they find the entry in
  induction inputs generalizing orchestrator conn with
  | nil => exact ⟨conn, hentry, rfl, rfl⟩
  | cons input rest ih =>
      intro own
      obtain ⟨hnow, hrest⟩ := htracked
      obtain ⟨next, hnext⟩ := Option.isSome_iff_exists.mp hnow
      obtain ⟨last, hlast, hlane, htaken⟩ := ih hnext hrest
      have hconfig := config_processFrame crypto vm orchestrator input
      rw [hconfig] at hlane htaken
      refine ⟨last, hlast, ?_⟩
      unfold taken
      rw [Machine.collect]
      change _ ∧ _ ++ taken crypto vm key conn.clientEndpoint isClientToServer _ rest = _
      by_cases hkey : input.key = key
      · obtain ⟨hclient, hfed, hrecords⟩ := lane_processFrame hkey hnext isClientToServer
        have hopened : openConnection orchestrator.config
            (orchestrator.connections.lookup key) input = conn := by
          rw [hentry]
          rfl
        rw [hopened] at hclient hfed hrecords
        rw [hclient] at hlane htaken
        rw [hrecords, htaken, hlane, hfed]
        -- a frame of this direction is one of its own; the other direction's feeds nothing to it
        cases htravels : input.travels key conn.clientEndpoint isClientToServer with
        | true =>
            have hown : own = input :: rest.filter
                (FrameInput.travels key conn.clientEndpoint isClientToServer) :=
              List.filter_cons_of_pos htravels
            rw [hown]
            exact ⟨rfl, rfl⟩
        | false =>
            have hown : own = rest.filter
                (FrameInput.travels key conn.clientEndpoint isClientToServer) :=
              List.filter_cons_of_neg (by rw [htravels]; exact Bool.false_ne_true)
            rw [hown]
            exact ⟨rfl, rfl⟩
      · -- a frame of another pair
        have htravels : input.travels key conn.clientEndpoint isClientToServer = false := by
          unfold FrameInput.travels
          rw [decide_eq_false hkey, Bool.false_and]
        have hsame : next = conn := by
          rcases lookup_processFrame hnext with ⟨hold, -⟩ | ⟨hsame, -⟩
          · exact Option.some.inj (hold.symm.trans hentry)
          · exact absurd hsame.symm hkey
        have hown : own = rest.filter
            (FrameInput.travels key conn.clientEndpoint isClientToServer) :=
          List.filter_cons_of_neg (by rw [htravels]; exact Bool.false_ne_true)
        rw [hsame] at hlane htaken
        rw [hown, hlane, htaken, takenOf, htravels]
        exact ⟨rfl, rfl⟩

/-! ## A SYN and what follows it -/

/-- After a run, this direction of the pair has received exactly `stream`: the records
taken, then the contiguous bytes, and nothing waits behind a gap. -/
def HasReceived (crypto : Crypto) (vm : LuaVm σ) (key : ConnKey) (client : Endpoint)
    (isClientToServer : Bool) (start : Orchestrator σ) (inputs : List FrameInput)
    (stream : Bytes) : Prop :=
  ∃ conn, (Machine.run (Orchestrator.processFrame crypto vm) start
      inputs).1.connections.lookup key = some conn ∧
    (conn.reassemblerFor isClientToServer).pending.entries = [] ∧ ∃ units, Whole units ∧
      taken crypto vm key client isClientToServer start inputs = units.map recordOf ∧
        stream = units.flatten ++ (conn.reassemblerFor isClientToServer).contiguousBytes

/-- The connection a frame meets. -/
def met (orchestrator : Orchestrator σ) (input : FrameInput) : Connection :=
  openConnection orchestrator.config (orchestrator.connections.lookup input.key) input

/-- The direction of a frame. -/
def directionOf (orchestrator : Orchestrator σ) (input : FrameInput) : Bool :=
  direction orchestrator.config (orchestrator.connections.lookup input.key) input

/-- The frames that travel the way of `input`, from here on. -/
def alongside (orchestrator : Orchestrator σ) (input : FrameInput) (inputs : List FrameInput) :
    List FrameInput :=
  inputs.filter (FrameInput.travels input.key (orchestrator.met input).clientEndpoint
    (orchestrator.directionOf input))

/-- A SYN is the first frame of its direction, and the other frames of the direction carry
its stream on in order. -/
structure OpensWith (crypto : Crypto) (vm : LuaVm σ) (start : Orchestrator σ)
    (syn : FrameInput) (later : List FrameInput) : Prop where
  flag : syn.frame.flags.syn = true
  fresh : (start.met syn).lane (start.directionOf syn) = Lane.fresh start.config
  small : syn.payload.length < 2 ^ 32
  tracked : Machine.Throughout (Orchestrator.processFrame crypto vm)
    (KeepsEntry crypto vm syn.key) start (syn :: later)
  continues : Continues (syn.frame.seq + 1) syn.payload.length (start.alongside syn later)

/-- After a SYN and the rest of its stream, the direction has received exactly the stream
if and only if no data rides on the SYN (and none starts past `2 ^ 32`). -/
theorem syn_received_iff {start : Orchestrator σ} {syn : FrameInput} {later : List FrameInput}
    (h : OpensWith crypto vm start syn later) :
    HasReceived crypto vm syn.key (start.met syn).clientEndpoint (start.directionOf syn) start
        (syn :: later) (payloads (syn :: start.alongside syn later)) ↔
      syn.payload = [] ∧ StartsBelow 0 (start.alongside syn later) := by
  obtain ⟨hnow, hlater⟩ := h.tracked
  obtain ⟨next, hnext⟩ := Option.isSome_iff_exists.mp hnow
  have htravels : syn.travels syn.key (start.met syn).clientEndpoint (start.directionOf syn) =
      true := by
    unfold FrameInput.travels
    rw [decide_eq_true (Eq.refl syn.key), Bool.true_and]
    exact beq_self_eq_true _
  obtain ⟨hclient, hfed, hrecords⟩ := lane_processFrame rfl hnext (start.directionOf syn)
  change next.clientEndpoint = (start.met syn).clientEndpoint at hclient
  change _ = if syn.travels syn.key (start.met syn).clientEndpoint _ then _ else _ at hfed
  change takenOf crypto vm syn.key (start.met syn).clientEndpoint _ start syn = if
    syn.travels syn.key (start.met syn).clientEndpoint _ then _ else _ at hrecords
  rw [if_pos htravels] at hfed hrecords
  -- the SYN makes the lane, and the rest of the stream continues it
  obtain ⟨last, hlast, hlane, htaken⟩ := lane_run hnext (start.directionOf syn) hlater
  rw [hclient, config_processFrame, hfed] at hlane htaken
  have hall : taken crypto vm syn.key (start.met syn).clientEndpoint (start.directionOf syn) start
      (syn :: later) =
        ((start.met syn).lane (start.directionOf syn)).taken start.config
          (syn :: start.alongside syn later) := by
    unfold taken
    rw [Machine.collect, hrecords]
    exact congrArg (_ ++ ·) htaken
  have hend : last.lane (start.directionOf syn) =
      ((start.met syn).lane (start.directionOf syn)).after start.config
        (syn :: start.alongside syn later) := hlane
  rw [h.fresh] at hall hend
  rw [← fresh_hasReceived_iff start.config h.flag h.small h.continues, ← hend, ← hall]
  have hpending : (last.lane (start.directionOf syn)).reassembler.pending.entries = [] ↔
      (last.reassemblerFor (start.directionOf syn)).pending.entries = [] :=
    List.map_eq_nil_iff
  unfold HasReceived Lane.HasReceived
  rw [hpending]
  change _ ↔ _ ∧ ∃ units, _ ∧ _ ∧ _ = _ ++
    ((last.reassemblerFor (start.directionOf syn)).renumber fun _ => 0).contiguousBytes
  rw [StreamReassembler.contiguousBytes_renumber]
  constructor
  · rintro ⟨conn, hconn, hreceived⟩
    obtain rfl := Option.some.inj (hconn.symm.trans hlast)
    exact hreceived
  · exact fun hreceived => ⟨last, hlast, hreceived⟩

open Capture

/-- The program before the first frame. -/
def idle : Orchestrator Unit := .new source () .default 0 0

/-- A SYN, and the client's ClientHello and request behind it. -/
def plainOpening : List FrameInput :=
  [segment client server 0 999 syn [] 0, segment server client 1 4999 synAck [] 0,
    segment client server 2 1000 ack (hello.take 20) 0,
    segment client server 3 1020 ack (hello.drop 20 ++ request) 0]

/-- Without data on the SYN the client's stream is received. -/
theorem syn_received_plain :
    HasReceived RecordedSession.recording.crypto plainVm (connKey client server) client true idle
      plainOpening (hello ++ request) := by
  have hopens : OpensWith RecordedSession.recording.crypto plainVm idle
      (segment client server 0 999 syn [] 0) plainOpening.tail :=
    ⟨rfl, rfl, by decide, by decide +kernel, by decide +kernel⟩
  have hreceived := (syn_received_iff hopens).mpr ⟨by decide +kernel, by decide +kernel⟩
  have hstream : payloads (segment client server 0 999 syn [] 0 ::
      idle.alongside (segment client server 0 999 syn [] 0) plainOpening.tail) =
        hello ++ request := by
    decide +kernel
  rwa [hstream] at hreceived

/-- The first 20 bytes of the ClientHello ride on the SYN, as with TCP Fast Open. -/
def fastOpen : List FrameInput :=
  [segment client server 0 999 syn (hello.take 20) 0,
    segment client server 1 1020 ack (hello.drop 20) 0]

/-- Both segments wait behind a gap that nothing closes. -/
theorem syn_data_stuck :
    OpensWith RecordedSession.recording.crypto plainVm idle
        (segment client server 0 999 syn (hello.take 20) 0) fastOpen.tail ∧
      payloads fastOpen = hello ∧
      ¬ HasReceived RecordedSession.recording.crypto plainVm (connKey client server) client true
          idle fastOpen (payloads fastOpen) := by
  refine ⟨⟨rfl, rfl, by decide, by decide +kernel, by decide +kernel⟩, by decide +kernel, ?_⟩
  have hstuck : ((Machine.run (Orchestrator.processFrame RecordedSession.recording.crypto plainVm)
      idle fastOpen).1.connections.lookup (connKey client server)).map
        (fun conn => (conn.reassemblerFor true).pending.entries.map Prod.fst) =
          some [20, 2 ^ 32 - 1] := by
    decide +kernel
  rintro ⟨conn, hconn, hnil, -⟩
  rw [hconn, Option.map_some, hnil] at hstuck
  cases hstuck

end Orchestrator

end Tlscap
