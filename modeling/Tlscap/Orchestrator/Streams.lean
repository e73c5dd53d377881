import Tlscap.Orchestrator.Delivery
import Tlscap.Orchestrator.SynData

/-!
# A byte stream on its lane

The frames of one direction carry a byte stream: cut, reordered, repeated and overlapped on
the way, and perhaps with a SYN before it.  As long as no gap is given up, the lane holds the
positions the frames carried (`Lane.Received`), and once they carried all of the stream it has
yielded the records the stream is made of (`Lane.yields_stream`).

* **The anchor.**  The stream is anchored by its SYN, or by the first payload where that comes
  from its front; either sets the base where the stream starts (`Received.setIsn`), and a SYN
  that comes once more sets it there again.
* **A payload** adds its positions, and the records it completes are cut off
  (`Received.feed`).
* **At the end** every position was carried, so none is missing at the cursor and nothing
  waits behind a gap: what was cut off is the framing of the stream.
-/

namespace Tlscap

namespace Lane

/-- A frame of a direction, with the offset of what it carries: a SYN is numbered one before
the stream and carries nothing, and a payload is a slice of the stream under its sequence
number. -/
structure Carries (isn : UInt32) (stream : Bytes) (part : ℕ × FrameInput) : Prop where
  syn : part.2.frame.flags.syn = true → part.1 = 0 ∧ part.2.frame.seq + 1 = isn ∧
    part.2.payload = []
  seq : part.2.payload ≠ [] → part.2.frame.seq = isn + UInt32.ofNat part.1
  within : part.2.payload ≠ [] → part.1 + part.2.payload.length ≤ stream.length
  payload : part.2.payload = slice stream part.1 part.2.payload.length

instance (isn : UInt32) (stream : Bytes) (part : ℕ × FrameInput) :
    Decidable (Carries isn stream part) :=
  decidable_of_iff ((part.2.frame.flags.syn = true → part.1 = 0 ∧ part.2.frame.seq + 1 = isn ∧
        part.2.payload = []) ∧
      (part.2.payload ≠ [] → part.2.frame.seq = isn + UInt32.ofNat part.1) ∧
      (part.2.payload ≠ [] → part.1 + part.2.payload.length ≤ stream.length) ∧
      part.2.payload = slice stream part.1 part.2.payload.length)
    ⟨fun ⟨hsyn, hseq, hwithin, hpayload⟩ => ⟨hsyn, hseq, hwithin, hpayload⟩,
      fun h => ⟨h.syn, h.seq, h.within, h.payload⟩⟩

/-- Whether a frame anchors the direction. -/
def anchors (input : FrameInput) : Bool := input.frame.flags.syn || decide (input.payload ≠ [])

/-- The frame that anchors the direction starts at the front of the stream. -/
def Opens (parts : List (ℕ × FrameInput)) : Prop :=
  ∀ part ∈ parts.find? fun part => anchors part.2, part.1 = 0

instance (parts : List (ℕ × FrameInput)) : Decidable (Opens parts) :=
  inferInstanceAs (Decidable (∀ part ∈ List.find? _ _, _))

/-- The lane has received what the frames carried: it is anchored where the stream starts,
whole records were cut off its front, and it holds the other positions. -/
structure Received (isn : UInt32) (stream : Bytes) (parts : List (ℕ × FrameInput))
    (records : List (UInt8 × Bytes)) (lane : Lane) : Prop where
  synced : lane.desynced = false
  base : lane.reassembler.baseSeq = some isn ∨
    lane.reassembler.baseSeq = none ∧ ∀ part ∈ parts, anchors part.2 = false
  invariant : lane.reassembler.Invariant
  drained : ¬ recordFormat.Complete lane.reassembler.contiguousBytes
  framed : ∃ units, Whole units ∧ records = units.map recordOf ∧
    StreamReassembler.Reassembles stream units.flatten lane.reassembler
  holds : ∀ position, lane.reassembler.Holds position ↔
    Coverage.Covered (Delivery.slices parts) position

variable {config : OrchestratorConfig} {isn : UInt32} {stream : Bytes}
  {parts : List (ℕ × FrameInput)} {records : List (UInt8 × Bytes)} {lane : Lane}
  {part : ℕ × FrameInput}

theorem received_fresh (config : OrchestratorConfig) (isn : UInt32) (stream : Bytes) :
    Received isn stream [] [] (fresh config) where
  synced := rfl
  base := .inr ⟨rfl, nofun⟩
  invariant := StreamReassembler.invariant_withPendingLimits _
  drained := fun hcomplete => Nat.not_succ_le_zero 4 hcomplete.1
  framed := ⟨[], nofun, rfl, rfl, Nat.zero_le _, nofun⟩
  holds := by
    intro position
    refine iff_of_false ?_ (Coverage.not_covered_nil position)
    rintro (hlt | ⟨entry, hentry, -⟩)
    · exact absurd hlt (Nat.not_lt_zero position)
    · exact absurd hentry List.not_mem_nil

/-- A direction that lost bytes stays lost. -/
theorem desynced_feed (config : OrchestratorConfig) (input : FrameInput)
    (hlost : lane.desynced = true) : (lane.feed config input).1.desynced = true := by
  have hanchor : (lane.anchor input).desynced = true := by
    unfold anchor
    split
    · exact hlost
    · exact hlost
  unfold feed push
  simp only
  rw [if_pos (.inr hanchor)]
  exact hanchor

/-- The first payload anchors the stream as a SYN before it would have. -/
theorem push_of_noBase {r : StreamReassembler} (hbase : r.baseSeq = none) (packetIndex : ℕ)
    (seq : UInt32) (range : ByteRange) {payload : Bytes} (hpayload : payload ≠ [])
    (opened checked : Instant) :
    r.push packetIndex seq range payload opened checked =
      (r.setIsn seq).push packetIndex seq range payload opened checked := by
  have hnonempty : payload.isEmpty = false := by
    rw [Bool.eq_false_iff]
    exact fun hempty => hpayload (List.isEmpty_iff.mp hempty)
  unfold StreamReassembler.push StreamReassembler.setIsn StreamReassembler.relativeSeq
  rw [hnonempty, hbase]
  rfl

/-- Setting the base changes nothing else. -/
theorem reassembles_setIsn (stream taken : Bytes) (r : StreamReassembler) (firstByteSeq : UInt32) :
    (StreamReassembler.Reassembles stream taken (r.setIsn firstByteSeq) ↔
        StreamReassembler.Reassembles stream taken r) ∧
      (r.setIsn firstByteSeq).contiguousBytes = r.contiguousBytes ∧
      ∀ position, (r.setIsn firstByteSeq).Holds position ↔ r.Holds position := by
  unfold StreamReassembler.setIsn
  split
  · exact ⟨⟨fun h => ⟨h.delivered, h.next_le, h.pending_slice⟩,
      fun h => ⟨h.delivered, h.next_le, h.pending_slice⟩⟩, rfl, fun _ => Iff.rfl⟩
  · exact ⟨Iff.rfl, rfl, fun _ => Iff.rfl⟩

theorem baseSeq_setIsn {r : StreamReassembler}
    (hbase : r.baseSeq = some isn ∨ r.baseSeq = none) : (r.setIsn isn).baseSeq = some isn := by
  unfold StreamReassembler.setIsn
  rcases hbase with hsome | hnone
  · rw [hsome]
    exact hsome
  · rw [hnone]

/-- Setting the base where the stream starts leaves what was received. -/
theorem Received.setIsn (h : Received isn stream parts records lane) :
    Received isn stream parts records { lane with reassembler := lane.reassembler.setIsn isn } := by
  obtain ⟨units, hunits, hrecords, hreassembles⟩ := h.framed
  obtain ⟨hsame, hbytes, hholds⟩ :=
    reassembles_setIsn stream units.flatten lane.reassembler isn
  refine ⟨h.synced, .inl (baseSeq_setIsn ?_), h.invariant.setIsn isn, ?_,
    ⟨units, hunits, hrecords, hsame.mpr hreassembles⟩, fun position => ?_⟩
  · exact h.base.imp_right And.left
  · change ¬ recordFormat.Complete (lane.reassembler.setIsn isn).contiguousBytes
    rw [hbytes]
    exact h.drained
  · exact (hholds position).trans (h.holds position)

/-- A frame without a payload carries no position. -/
theorem covered_silent (parts : List (ℕ × FrameInput)) (hpayload : part.2.payload = [])
    (position : ℕ) :
    Coverage.Covered (Delivery.slices (parts ++ [part])) position ↔
      Coverage.Covered (Delivery.slices parts) position := by
  have hslices : Delivery.slices (parts ++ [part]) = Delivery.slices parts ++ [(part.1, 0)] := by
    simp [Delivery.slices, hpayload]
  have hnone : ¬ (part.1 ≤ position ∧ position < part.1 + 0) := by omega
  rw [hslices, Coverage.covered_append_singleton, or_iff_left hnone]

/-- What the reassembler holds once the payload of the frame was pushed. -/
theorem covered_concat (parts : List (ℕ × FrameInput)) (part : ℕ × FrameInput) (position : ℕ) :
    Coverage.Covered (Delivery.slices (parts ++ [part])) position ↔
      Coverage.Covered (Delivery.slices parts) position ∨
        part.1 ≤ position ∧ position < part.1 + part.2.payload.length := by
  have hslices : Delivery.slices (parts ++ [part]) =
      Delivery.slices parts ++ [(part.1, part.2.payload.length)] := by
    simp [Delivery.slices]
  rw [hslices, Coverage.covered_append_singleton]

/-! ## One frame -/

/-- **The SYN** anchors the direction. -/
theorem Received.anchor (h : Received isn stream parts records lane)
    (hcarries : Carries isn stream part) :
    Received isn stream parts records (lane.anchor part.2) ∧
      (part.2.frame.flags.syn = true →
        (lane.anchor part.2).reassembler.baseSeq = some isn) := by
  unfold Lane.anchor
  cases hsyn : part.2.frame.flags.syn with
  | true =>
      rw [if_pos rfl, (hcarries.syn hsyn).2.1]
      exact ⟨h.setIsn, fun _ => baseSeq_setIsn (h.base.imp_right And.left)⟩
  | false => exact ⟨h, nofun⟩

/-- **The payload** is received, whether the direction is anchored or it anchors it. -/
theorem Received.push (config : OrchestratorConfig)
    (h : Received isn stream parts records lane) (hshort : stream.length < 2 ^ 32)
    (hcarries : Carries isn stream part) (hopens : Opens (parts ++ [part]))
    (hpayload : part.2.payload ≠ []) (hkept : (lane.push config part.2).desynced = false) :
    (lane.push config part.2).reassembler.baseSeq = some isn ∧
      (lane.push config part.2).reassembler.Invariant ∧
      ∃ units, Whole units ∧ records = units.map recordOf ∧
        StreamReassembler.Receives stream units.flatten part.1 part.2.payload.length
          lane.reassembler (lane.push config part.2).reassembler := by
  obtain ⟨units, hunits, hrecords, hreassembles⟩ := h.framed
  obtain ⟨hsame, -, hholds⟩ :=
    reassembles_setIsn stream units.flatten lane.reassembler isn
  set anchored := lane.reassembler.setIsn isn with hanchored
  have hbase : anchored.baseSeq = some isn := baseSeq_setIsn (h.base.imp_right And.left)
  -- a direction without an anchor is anchored by this payload, where the stream starts
  have hpush : lane.reassembler.push 0 part.2.frame.seq part.2.frame.payloadRange part.2.payload
        part.2.clock.gapOpened part.2.clock.gapChecked =
      anchored.push 0 part.2.frame.seq part.2.frame.payloadRange part.2.payload
        part.2.clock.gapOpened part.2.clock.gapChecked := by
    rcases h.base with hsome | ⟨hnone, hsilent⟩
    · rw [hanchored, StreamReassembler.setIsn, hsome]
    · have hfirst : part.1 = 0 := by
        apply hopens
        rw [List.find?_append, List.find?_eq_none.mpr fun other hother => by
          rw [hsilent other hother]
          exact Bool.false_ne_true]
        simp [anchors, hpayload]
      have hseq : part.2.frame.seq = isn := by
        rw [hcarries.seq hpayload, hfirst]
        exact add_zero isn
      rw [push_of_noBase hnone _ _ _ hpayload, hseq]
  rw [Lane.push_of_synced config h.synced hpayload, hpush] at hkept ⊢
  split_ifs at hkept ⊢ with hgap
  have hgap' := Bool.eq_false_iff.mpr hgap
  have hinvariant := h.invariant.setIsn isn
  have hreceives : StreamReassembler.Receives stream units.flatten part.1
      part.2.payload.length anchored
      (anchored.push 0 part.2.frame.seq part.2.frame.payloadRange part.2.payload
        part.2.clock.gapOpened part.2.clock.gapChecked).2 := by
    have hdata := hcarries.payload
    have hwithin := hcarries.within hpayload
    set length := part.2.payload.length
    rw [hcarries.seq hpayload, hdata] at hgap' ⊢
    exact StreamReassembler.receives_push (hsame.mpr hreassembles) hbase hshort _ _ hwithin hgap'
  refine ⟨?_, hinvariant.push _ _ _ _ _ _, units, hunits, hrecords, hreceives.reassembles, ?_⟩
  · exact (StreamReassembler.sameAnchor_push hbase _ _ _ _ _ _).1.trans hbase
  · intro position
    rw [hreceives.holds, hholds]

/-- **One frame** that gives up no gap: what it carries is received, and the records it
completes are cut off. -/
theorem Received.feed (h : Received isn stream parts records lane)
    (hshort : stream.length < 2 ^ 32) (hcarries : Carries isn stream part)
    (hopens : Opens (parts ++ [part])) (hkept : (lane.feed config part.2).1.desynced = false) :
    Received isn stream (parts ++ [part]) (records ++ (lane.feed config part.2).2)
      (lane.feed config part.2).1 := by
  obtain ⟨hanchored, hsyn⟩ := h.anchor hcarries
  rw [Lane.feed_eq] at hkept ⊢
  set anchored := lane.anchor part.2
  have hpushed : anchored.push config part.2 = anchored ∧ part.2.payload = [] ∨
      part.2.payload ≠ [] := by
    by_cases hpayload : part.2.payload = []
    · exact .inl ⟨anchored.push_of_nil config hpayload, hpayload⟩
    · exact .inr hpayload
  set pushed := anchored.push config part.2
  have hreceived : (pushed.reassembler.baseSeq = some isn ∨ pushed.reassembler.baseSeq = none ∧
        ∀ other ∈ parts ++ [part], anchors other.2 = false) ∧
      pushed.reassembler.Invariant ∧
      (∃ units, Whole units ∧ records = units.map recordOf ∧
        StreamReassembler.Reassembles stream units.flatten pushed.reassembler) ∧
      ∀ position, pushed.reassembler.Holds position ↔
        Coverage.Covered (Delivery.slices (parts ++ [part])) position := by
    -- a frame without payload only anchors the stream, and a SYN does so at its number
    rcases hpushed with ⟨hsame, hpayload⟩ | hpayload
    · rw [hsame]
      refine ⟨?_, hanchored.invariant, hanchored.framed, fun position => ?_⟩
      · refine hanchored.base.imp_right fun hnone => ⟨hnone.1, fun other hother => ?_⟩
        rcases List.mem_append.mp hother with hold | hnew
        · exact hnone.2 other hold
        · rw [List.mem_singleton.mp hnew, Lane.anchors, hpayload]
          cases hflag : part.2.frame.flags.syn with
          | true => cases hnone.1.symm.trans (hsyn hflag)
          | false => rfl
      · rw [covered_silent parts hpayload]
        exact hanchored.holds position
    · obtain ⟨hbase, hinvariant, units, hunits, hrecords, hreceives⟩ :=
        hanchored.push config hshort hcarries hopens hpayload hkept
      refine ⟨.inl hbase, hinvariant, ⟨units, hunits, hrecords, hreceives.reassembles⟩,
        fun position => ?_⟩
      rw [covered_concat, ← hanchored.holds]
      exact hreceives.holds position
  obtain ⟨hbase, hinvariant, ⟨units, hunits, hrecords, hreassembles⟩, hholds⟩ := hreceived
  obtain ⟨htaken, hleft, hframe, -⟩ := hinvariant.toSized.takeRecords_eq le_rfl
  -- what is cut off is whole records, and what is left is less than one
  have hcut := Delivery.reassembles_takeRecords hinvariant.toSized
    (show StreamReassembler.Reassembles stream ([] ++ units.flatten) _ from hreassembles)
  refine ⟨hkept, ?_, hinvariant.takeRecords, ?_,
    ⟨units ++ (recordFormat.parse pushed.reassembler.contiguousBytes).1, ?_, ?_, hcut.1⟩,
    fun position => (hcut.2 position).trans (hholds position)⟩
  · have hsame : pushed.drain.1.reassembler.baseSeq = pushed.reassembler.baseSeq := by
      rw [Lane.drain, hframe]
    rw [hsame]
    exact hbase
  · change ¬ recordFormat.Complete (takeRecords _ pushed.reassembler).2.contiguousBytes
    rw [hleft]
    exact recordFormat.not_complete_parse _
  · intro unit hunit
    rcases List.mem_append.mp hunit with hold | hnew
    · exact hunits unit hold
    · exact recordFormat.mem_parse _ unit hnew
  · rw [List.map_append, hrecords]
    exact congrArg (units.map recordOf ++ ·) htaken

/-! ## All frames -/

/-- No frame of the direction gives up a gap. -/
def Keeps (config : OrchestratorConfig) (inputs : List FrameInput) : Prop :=
  ((fresh config).after config inputs).desynced = false

instance (config : OrchestratorConfig) (inputs : List FrameInput) :
    Decidable (Keeps config inputs) :=
  inferInstanceAs (Decidable (_ = false))

theorem after_concat (config : OrchestratorConfig) (lane : Lane) (inputs : List FrameInput)
    (input : FrameInput) :
    lane.after config (inputs ++ [input]) = ((lane.after config inputs).feed config input).1 := by
  unfold after
  rw [Machine.run_append]
  rfl

/-- **Any frames** of a stream that give up no gap. -/
theorem received_run (hshort : stream.length < 2 ^ 32)
    (hcarries : ∀ part ∈ parts, Carries isn stream part) (hopens : Opens parts)
    (hkeeps : Keeps config (parts.map Prod.snd)) :
    Received isn stream parts ((fresh config).taken config (parts.map Prod.snd))
      ((fresh config).after config (parts.map Prod.snd)) := by
  induction parts using List.reverseRecOn with
  | nil => exact received_fresh config isn stream
  | append_singleton parts part ih =>
      have hlast := hcarries part (List.mem_append_right parts (List.mem_singleton_self part))
      unfold Keeps at hkeeps
      rw [List.map_append, List.map_singleton, after_concat] at hkeeps
      have hbefore : Keeps config (parts.map Prod.snd) := by
        refine Bool.eq_false_iff.mpr fun hlost => ?_
        rw [desynced_feed config part.2 hlost] at hkeeps
        cases hkeeps
      have hopened : Opens parts := by
        intro other hother
        apply hopens
        rw [List.find?_append, hother]
        rfl
      have hreceived := ih (fun other hother => hcarries other (List.mem_append_left _ hother))
        hopened hbefore
      rw [List.map_append, List.map_singleton, after_concat]
      unfold Lane.taken
      rw [Machine.collect_concat]
      exact hreceived.feed hshort hlast hopens hkeeps

/-- **The records of the stream.**  Frames that carry all of a stream of whole records, in
any order, and give up no gap, yield its records. -/
theorem yields_stream {units : List Bytes} (hunits : Whole units)
    (hshort : units.flatten.length < 2 ^ 32)
    (hcarries : ∀ part ∈ parts, Carries isn units.flatten part) (hopens : Opens parts)
    (hkeeps : Keeps config (parts.map Prod.snd))
    (hcomplete : ∀ position < units.flatten.length,
      Coverage.Covered (Delivery.slices parts) position) :
    (fresh config).taken config (parts.map Prod.snd) = units.map recordOf := by
  have h := received_run hshort hcarries hopens hkeeps
  set r := ((fresh config).after config (parts.map Prod.snd)).reassembler
  obtain ⟨taken, htaken, hrecords, hreassembles⟩ := h.framed
  have hnext : r.nextExpectedRelative = units.flatten.length := by
    have hle := hreassembles.next_le
    by_contra hbefore
    -- a position that was carried is held, but the one at the cursor is not
    exact h.invariant.ahead.not_holds
      ((h.holds _).mpr (hcomplete _ (lt_of_le_of_ne hle hbefore)))
  have hbytes : taken.flatten ++ r.contiguousBytes = units.flatten ++ [] := by
    rw [hreassembles.delivered, hnext, List.take_length, List.append_nil]
  have hparse := congrArg recordFormat.parse hbytes
  rw [Framing.Format.parse_flatten_append htaken, Framing.Format.parse_flatten_append hunits,
    Framing.Format.parse_of_not_complete h.drained] at hparse
  have hsame := congrArg Prod.fst hparse
  simp only [List.append_nil] at hsame
  rw [hrecords, hsame]
  change (units ++ []).map recordOf = _
  rw [List.append_nil]

end Lane

end Tlscap
