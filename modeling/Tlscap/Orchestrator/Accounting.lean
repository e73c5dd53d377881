import Tlscap.Orchestrator.Capture
import Tlscap.Orchestrator.Desync
import Tlscap.Reassembly.Disjoint

/-!
# Where the bytes of a direction go

The bytes pushed for a direction are taken out as records, still held by the reassembler, or
counted as lost; where no two segments overlap, nothing else can happen to them while the
connection is tracked and the direction is in order (`Orchestrator.balance_processFrame`).

Two frames can break the balance.  The frame that desyncs the direction drops the whole
reassembler but counts what the push reported, and the frame that closes the connection drops
the reassembler with the entry and counts nothing.  `Orchestrator.SparesBytes` is the
condition under which they lose nothing, and `Orchestrator.lost_bytes_counted_iff` says that
all bytes are accounted for after every frame of a run exactly if every frame meets it.

## Strategy

A stream is known by the segments it was fed (`StreamReassembler.Fed`), and what it holds is
then the bytes of these but for the ones that were taken out.  Cutting records off the front
does not change what was fed (`LeftOf.fed`).  A frame is one of three kinds:

* **It abandons no gap.**  The push keeps what it is given and the records are cut off after
  it, so all bytes are there (`handleFrame_keeps`); they are lost only where the frame closes
  the connection and its stream does not end whole (`Keeps.lost`).
* **It abandons a gap.**  No record comes out and nothing is held afterwards
  (`handleFrame_abandons`); what is lost besides the reported bytes is the part of a record
  in front of the gap, and what the report leaves out.
* **It travels the other way.**  Then it can only close the connection
  (`handleFrame_keeps_other`).

The balance of a run is the sum of these.  It holds after every frame only if no frame loses
a byte, as lost bytes never come back.
-/

namespace Tlscap

/-! ## One frame -/

/-- Nothing is left of a stream once the payload is in place: no gap, and no part of a
record. -/
def StreamReassembler.EndsWhole (r : StreamReassembler) (seq : UInt32) (payload : Bytes) : Prop :=
  r.ClosesGaps seq payload ∧ (recordFormat.parse (r.bytesInOrder payload)).2 = []

instance (r : StreamReassembler) (seq : UInt32) (payload : Bytes) :
    Decidable (r.EndsWhole seq payload) :=
  inferInstanceAs (Decidable (_ ∧ _))

section Frame

variable {config : OrchestratorConfig} {conn : Connection} {isClientToServer : Bool}
  {segments : List (UInt32 × ℕ)}

theorem StreamReassembler.heldLen_setIsn (r : StreamReassembler) (seq : UInt32) :
    (r.setIsn seq).heldLen = r.heldLen := by
  unfold StreamReassembler.setIsn
  split <;> rfl

/-- The stream a frame finds: as the connection has it, and empty in a new one. -/
theorem noted_stream (config : OrchestratorConfig) {found : Option Connection}
    (hfound : ∀ conn, found = some conn → (conn.reassemblerFor isClientToServer).Fed segments ∧
      conn.isDesynced isClientToServer = false)
    (hnew : found = none → segments = []) (input : FrameInput) :
    ((noted config found input).reassemblerFor isClientToServer).Fed segments ∧
      ((noted config found input).reassemblerFor isClientToServer).heldLen =
        (found.map fun conn => (conn.reassemblerFor isClientToServer).heldLen).getD 0 ∧
      (noted config found input).isDesynced isClientToServer = false := by
  have hopen : ((openConnection config found input).reassemblerFor isClientToServer).Fed
        segments ∧
      ((openConnection config found input).reassemblerFor isClientToServer).heldLen =
        (found.map fun conn => (conn.reassemblerFor isClientToServer).heldLen).getD 0 ∧
      (openConnection config found input).isDesynced isClientToServer = false := by
    cases found with
    | some conn => exact ⟨(hfound conn rfl).1, rfl, (hfound conn rfl).2⟩
    | none =>
        have hempty : ∀ conn : Connection, conn.reassemblerFor isClientToServer =
              StreamReassembler.withPendingLimits config.pendingLimits →
            conn.isDesynced isClientToServer = false →
              (conn.reassemblerFor isClientToServer).Fed segments ∧
              (conn.reassemblerFor isClientToServer).heldLen = 0 ∧
              conn.isDesynced isClientToServer = false := by
          intro conn hconn hsynced
          rw [hconn, hnew rfl]
          exact ⟨StreamReassembler.fed_withPendingLimits _, rfl, hsynced⟩
        apply hempty
        · unfold openConnection
          simp only
          split <;> cases isClientToServer <;> rfl
        · unfold openConnection
          simp only
          split <;> cases isClientToServer <;> rfl
  obtain ⟨hfed, hheld, hsynced⟩ := hopen
  unfold noted
  rw [reassemblerFor_noteFlags, isDesynced_noteFlags]
  split
  · exact ⟨hfed.setIsn _, (StreamReassembler.heldLen_setIsn _ _).trans hheld, hsynced⟩
  · exact ⟨hfed, hheld, hsynced⟩

/-! ### The stream behind the records -/

/-- The bytes of the complete records at the front, with their headers. -/
def recordBytes (bytes : Bytes) : ℕ :=
  (((recordFormat.parse bytes).1.map recordOf).map fun record => 5 + record.2.length).sum

/-- The bytes of the records and of the rest are the bytes there were. -/
theorem recordBytes_add (bytes : Bytes) :
    recordBytes bytes + (recordFormat.parse bytes).2.length = bytes.length := by
  have hunits :
      ((recordFormat.parse bytes).1.map recordOf).map (fun record => 5 + record.2.length) =
      (recordFormat.parse bytes).1.map List.length := by
    rw [List.map_map]
    apply List.map_congr_left
    intro unit hunit
    have hheader : 5 ≤ unit.length := ((recordFormat.mem_parse bytes) unit hunit).1.1
    simp only [Function.comp_apply, recordOf, List.length_drop]
    omega
  calc recordBytes bytes + (recordFormat.parse bytes).2.length
      = (recordFormat.parse bytes).1.flatten.length + (recordFormat.parse bytes).2.length := by
        rw [recordBytes, hunits, List.length_flatten]
    _ = bytes.length := by
        rw [← List.length_append, Framing.Format.flatten_parse]

namespace StreamReassembler

variable {r left : StreamReassembler}

/-- What is left of a stream once its records are cut off. -/
structure LeftOf (r left : StreamReassembler) : Prop where
  bytes : left.contiguousBytes = (recordFormat.parse r.contiguousBytes).2
  frame : left =
    { r with contiguous := left.contiguous, contiguousLen := left.contiguousLen }
  invariant : left.Invariant

/-- Cutting records off does not change what was fed. -/
theorem LeftOf.fed (h : r.LeftOf left) (hfed : r.Fed segments) : left.Fed segments := by
  have hbase := congrArg StreamReassembler.baseSeq h.frame
  have hnext := congrArg StreamReassembler.nextExpectedRelative h.frame
  have hpending : left.pending.entries ⊆ r.pending.entries := by
    rw [h.frame]
    exact List.Subset.refl _
  refine ⟨h.invariant, hfed.apart.of_subset hnext hpending, ?_, ?_⟩
  · intro base hleft position hposition
    exact hfed.held base (hbase.symm.trans hleft) position (hposition.of_subset hnext hpending)
  · intro hleft position hposition
    exact hfed.unanchored (hbase.symm.trans hleft) position (hposition.of_subset hnext hpending)

/-- The bytes held before are those of the records and those left. -/
theorem LeftOf.heldLen (h : r.LeftOf left) (hsized : r.Sized) :
    recordBytes r.contiguousBytes + left.heldLen = r.heldLen := by
  have hbytes := recordBytes_add r.contiguousBytes
  have hpending : left.pendingLen = r.pendingLen :=
    (congrArg StreamReassembler.pendingLen h.frame).trans rfl
  have hleft := h.invariant.contiguousLen_eq
  rw [h.bytes] at hleft
  have hbefore := hsized.contiguousLen_eq
  unfold StreamReassembler.heldLen
  omega

/-- Nothing is left where no gap and no part of a record is. -/
theorem LeftOf.heldLen_eq_zero_iff (h : r.LeftOf left) :
    left.heldLen = 0 ↔ r.pending.entries = [] ∧ (recordFormat.parse r.contiguousBytes).2 = [] := by
  have hpending := congrArg StreamReassembler.pending h.frame
  unfold StreamReassembler.heldLen
  rw [Nat.add_eq_zero_iff, and_comm, h.invariant.contiguousLen_eq, h.bytes,
    List.length_eq_zero_iff, ← hpending]
  refine and_congr_left fun _ => ⟨fun hzero => ?_, fun hnil => ?_⟩
  · rw [h.invariant.toSized.pending_eq_empty hzero]
    rfl
  · rw [h.invariant.pendingLen_eq, OrderedMap.total, hnil]
    rfl

/-- A stream without a whole record is left as it is. -/
theorem leftOf_drained (h : r.Invariant) (hdrained : r.Drained) : r.LeftOf r := by
  refine ⟨?_, rfl, h⟩
  rw [Framing.Format.parse_of_not_complete (h.toSized.drained_iff.mp hdrained)]

/-- Without a payload nothing closes a gap. -/
theorem closesGaps_nil_iff (hahead : r.Ahead) (seq : UInt32) :
    r.pending.entries = [] ↔ r.ClosesGaps seq [] := by
  unfold ClosesGaps
  rw [and_iff_right fun hne => absurd rfl hne]
  change _ ↔ Chained r.nextExpectedRelative r.pending.entries
  cases hentries : r.pending.entries with
  | nil => exact iff_of_true rfl trivial
  | cons entry rest =>
      refine iff_of_false (List.cons_ne_nil _ _) fun hchained => ?_
      have hbehind := hahead entry (hentries ▸ List.mem_cons_self)
      exact absurd hchained.1 hbehind.ne'

end StreamReassembler

/-! ### The balance of a frame -/

variable {σ : Type} (crypto : Crypto) (vm : LuaVm σ)

/-- The bytes a frame takes out of its direction as records, with their headers. -/
def frameTaken (config : OrchestratorConfig) (found : Option Connection) (shared : Shared σ)
    (input : FrameInput) : ℕ :=
  ((frameSteps crypto vm config found shared input).map fun step => 5 + step.body.length).sum

variable {found : Option Connection}

/-- A frame cuts the records off the stream of its direction. -/
theorem leftOf_handleFrame (hfound : ∀ conn, found = some conn → conn.Bounded config)
    (shared : Shared σ) (input : FrameInput) :
    ((receive config found input).1.reassemblerFor (direction config found input)).LeftOf
      ((handleFrame crypto vm config found shared input).1.reassemblerFor
        (direction config found input)) := by
  have hdraining : (receive config found input).1.Draining config (direction config found input) :=
    draining_receivePayload (draining_noteFlags (bounded_openConnection hfound input) _ input) 0
      input
  have hleft : (handleFrame crypto vm config found shared input).1.reassemblerFor
        (direction config found input) =
      (takeRecords ((receive config found input).1.reassemblerFor
          (direction config found input)).contiguousLen
        ((receive config found input).1.reassemblerFor (direction config found input))).2 := by
    unfold handleFrame
    simp only
    rw [receivePayload_add]
    exact drainLoop_left crypto vm config _ _ _ _ _ _ _
  obtain ⟨-, hbytes, hframe, -⟩ := hdraining.invariant.toSized.takeRecords_eq le_rfl
  refine ⟨?_, ?_, (bounded_handleFrame hfound shared input _).invariant⟩
  · rw [hleft]
    exact hbytes
  · rw [hleft]
    exact hframe

variable {crypto vm}

/-- The records of a frame are those its stream is cut into. -/
theorem frameTaken_eq (hfound : ∀ conn, found = some conn → conn.Bounded config)
    (shared : Shared σ) (input : FrameInput) :
    frameTaken crypto vm config found shared input =
      recordBytes ((receive config found input).1.reassemblerFor
        (direction config found input)).contiguousBytes := by
  rw [recordBytes, ← frameSteps_records crypto vm config hfound shared input, List.map_map]
  rfl

/-- A frame leaves the stream of the other direction as the flags left it. -/
theorem handleFrame_otherStream (shared : Shared σ) (input : FrameInput)
    (hother : isClientToServer ≠ direction config found input) :
    (handleFrame crypto vm config found shared input).1.reassemblerFor isClientToServer =
      (noted config found input).reassemblerFor isClientToServer := by
  have hdrains := (handleFrame_drains crypto vm config found shared input).1
  rw [(hdrains.otherStream hother).1]
  change (receivePayload config (noted config found input) 0 (direction config found input)
    input).1.reassemblerFor isClientToServer = _
  rcases receivePayload_cases (noted config found input) (direction config found input) input with
    ⟨-, hreceived⟩ | ⟨-, -, -, hreceived⟩ | ⟨-, hreceived⟩
  · rw [hreceived]
  · rw [hreceived, Connection.reassemblerFor_setReassembler, if_neg hother]
  · rw [hreceived, Connection.reassemblerFor_markDesynced, if_neg hother]

/-- What a frame makes of a stream in order: it takes `taken` bytes out as records, adds
the payload, and leaves nothing where the stream ends whole. -/
structure Keeps (segments : List (UInt32 × ℕ)) (r : StreamReassembler) (seq : UInt32)
    (payload : Bytes) (taken : ℕ) (left : StreamReassembler) : Prop where
  balance : taken + left.heldLen = r.heldLen + payload.length
  fed : left.Fed segments
  settles : left.heldLen = 0 ↔ r.EndsWhole seq payload

/-- Without a payload for the direction. -/
theorem keeps_nil {r left : StreamReassembler} (hfed : r.Fed segments) (hleft : r.LeftOf left)
    (seq : UInt32) : Keeps segments r seq [] (recordBytes r.contiguousBytes) left := by
  refine ⟨hleft.heldLen hfed.invariant.toSized, hleft.fed hfed, ?_⟩
  have hnil := StreamReassembler.closesGaps_nil_iff hfed.invariant.ahead seq
  rw [hleft.heldLen_eq_zero_iff, hnil]
  refine and_congr_right fun hcloses => ?_
  unfold StreamReassembler.bytesInOrder
  rw [hnil.mpr hcloses, List.flatMap_nil, List.append_nil, List.append_nil]

/-- What is left is lost where the frame closes the connection. -/
theorem Keeps.lost {r left : StreamReassembler} {seq : UInt32} {payload : Bytes} {taken : ℕ}
    (h : Keeps segments r seq payload taken left) (closed : Bool) :
    ∃ lost, r.heldLen + payload.length =
        taken + (if closed = true then 0 else left.heldLen) + lost ∧
      (lost = 0 ↔ (closed = true → r.EndsWhole seq payload)) := by
  have hbalance := h.balance
  cases closed with
  | true =>
      refine ⟨left.heldLen, ?_, ?_⟩
      · rw [if_pos rfl]
        omega
      · exact h.settles.trans ⟨fun hwhole _ => hwhole, fun hwhole => hwhole rfl⟩
  | false =>
      refine ⟨0, ?_, iff_of_true rfl nofun⟩
      rw [if_neg Bool.false_ne_true]
      omega

/-- A push that keeps what it is given, and the records cut off after it. -/
theorem keeps_push {r left : StreamReassembler} (hfed : r.Fed segments) (packetIndex : ℕ)
    {seq : UInt32} (range : ByteRange) {payload : Bytes} (hpayload : payload ≠ [])
    (hdisjoint : ∀ segment ∈ segments, StreamReassembler.SeqDisjoint segment (seq, payload.length))
    {opened checked : Instant}
    (hkept : (r.push packetIndex seq range payload opened checked).1.isGapAbandoned = false)
    (hleft : (r.push packetIndex seq range payload opened checked).2.LeftOf left) :
    Keeps (segments ++ [(seq, payload.length)]) r seq payload
      (recordBytes (r.push packetIndex seq range payload opened checked).2.contiguousBytes)
      left := by
  have hfree := hfed.free hdisjoint
  have htakes := StreamReassembler.push_takes packetIndex range opened checked hfed.invariant
    hfed.apart hpayload hfree
  have hpushed := hfed.push packetIndex range hpayload hdisjoint opened checked
  obtain ⟨hempty, hbytes⟩ := StreamReassembler.push_settles_iff packetIndex range opened checked
    hfed.invariant hfed.apart hpayload hfree hkept
  refine ⟨?_, hleft.fed hpushed, ?_⟩
  · have hheld := htakes.held
    have hnone : (r.push packetIndex seq range payload opened checked).1.abandonedBytes = 0 := by
      revert hkept
      cases (r.push packetIndex seq range payload opened checked).1 with
      | gapAbandoned bytes => exact fun hkept => absurd hkept Bool.noConfusion
      | delivered => exact fun _ => rfl
      | duplicateDiscarded => exact fun _ => rfl
      | bufferedOutOfOrder => exact fun _ => rfl
    rw [hnone, Nat.add_zero] at hheld
    exact (hleft.heldLen hpushed.invariant.toSized).trans hheld
  · rw [hleft.heldLen_eq_zero_iff, hempty]
    exact and_congr_right fun hcloses => by rw [hbytes hcloses]

/-- **A frame of the direction** that abandons no gap. -/
theorem handleFrame_keeps (crypto : Crypto) (vm : LuaVm σ)
    (hfound : ∀ conn, found = some conn → conn.Bounded config)
    (shared : Shared σ) (input : FrameInput)
    (hfed : ((noted config found input).reassemblerFor (direction config found input)).Fed
      segments)
    (hsynced : (noted config found input).isDesynced (direction config found input) = false)
    (hdisjoint : ∀ segment ∈ segments,
      StreamReassembler.SeqDisjoint segment (input.frame.seq, input.payload.length))
    (hkept : ¬ AbandonsGap (noted config found input) (direction config found input) input) :
    Keeps (segments ++ [(input.frame.seq, input.payload.length)])
        ((noted config found input).reassemblerFor (direction config found input))
        input.frame.seq input.payload (frameTaken crypto vm config found shared input)
        ((handleFrame crypto vm config found shared input).1.reassemblerFor
          (direction config found input)) ∧
      (receive config found input).2.gapAbandonedBytes = 0 := by
  have hleft := leftOf_handleFrame crypto vm hfound shared input
  have hreceive : receive config found input =
    receivePayload config (noted config found input) 0 (direction config found input) input := rfl
  rw [frameTaken_eq hfound]
  rcases receivePayload_cases (noted config found input) (direction config found input) input with
    ⟨hignored, hreceived⟩ | ⟨hpayload, -, hpushed, hreceived⟩ | ⟨hgap, -⟩
  · -- there is no payload
    have hnil : input.payload = [] := by
      refine hignored.resolve_right fun hdesynced => ?_
      exact absurd (hsynced.symm.trans hdesynced) Bool.false_ne_true
    rw [hreceive, hreceived] at hleft ⊢
    rw [hnil]
    exact ⟨keeps_nil (hfed.mono (List.subset_append_left _ _)) hleft _, rfl⟩
  · rw [hreceive, hreceived, Connection.reassemblerFor_setReassembler, if_pos rfl] at hleft ⊢
    exact ⟨keeps_push hfed input.packetIndex input.frame.payloadRange hpayload hdisjoint hpushed
      hleft, rfl⟩
  · exact absurd hgap hkept

/-- **A frame of the other direction.** -/
theorem handleFrame_keeps_other (crypto : Crypto) (vm : LuaVm σ)
    (hfound : ∀ conn, found = some conn → conn.Bounded config)
    (shared : Shared σ) (input : FrameInput)
    (hfed : ((noted config found input).reassemblerFor isClientToServer).Fed segments)
    (hother : isClientToServer ≠ direction config found input) :
    Keeps segments ((noted config found input).reassemblerFor isClientToServer)
      input.frame.seq [] 0
      ((handleFrame crypto vm config found shared input).1.reassemblerFor isClientToServer) := by
  have hdrained : ((noted config found input).reassemblerFor isClientToServer).Drained := by
    have hopen := bounded_openConnection hfound input isClientToServer
    unfold noted
    rw [reassemblerFor_noteFlags, if_neg fun h => hother h.2]
    exact hopen.drained
  rw [handleFrame_otherStream shared input hother]
  have hkeeps := keeps_nil hfed (StreamReassembler.leftOf_drained hfed.invariant hdrained)
    input.frame.seq
  have hnone := hfed.invariant.toSized.drained_iff.mp hdrained
  rw [recordBytes, Framing.Format.parse_of_not_complete hnone] at hkeeps
  exact hkeeps

/-- **A frame that abandons a gap.**  It takes no record out and leaves nothing; what the
push reports is counted, and nothing else is lost where the push left nothing. -/
theorem handleFrame_abandons (crypto : Crypto) (vm : LuaVm σ)
    (hfound : ∀ conn, found = some conn → conn.Bounded config)
    (shared : Shared σ) (input : FrameInput)
    (hfed : ((noted config found input).reassemblerFor (direction config found input)).Fed
      segments)
    (hdisjoint : ∀ segment ∈ segments,
      StreamReassembler.SeqDisjoint segment (input.frame.seq, input.payload.length))
    (hgap : AbandonsGap (noted config found input) (direction config found input) input) :
    let r := (noted config found input).reassemblerFor (direction config found input)
    frameTaken crypto vm config found shared input = 0 ∧
      ((handleFrame crypto vm config found shared input).1.reassemblerFor
        (direction config found input)).heldLen = 0 ∧
      ∃ lost, r.heldLen + input.payload.length =
          (receive config found input).2.gapAbandonedBytes + lost ∧
        (lost = 0 ↔ r.contiguousLen = 0 ∧ r.DropsAllPending input.packetIndex input.frame.seq
          input.frame.payloadRange input.payload input.clock.gapOpened input.clock.gapChecked) := by
  intro r
  obtain ⟨hpayload, -, habandoned⟩ := id hgap
  have hleft := leftOf_handleFrame crypto vm hfound shared input
  have hreceived : receive config found input =
      ((noted config found input).markDesynced (direction config found input)
          config.pendingLimits,
        { gapAbandonedBytes := (r.push input.packetIndex input.frame.seq
            input.frame.payloadRange input.payload input.clock.gapOpened
            input.clock.gapChecked).1.abandonedBytes
          connectionsDesynced := 1 }) := receivePayload_abandons hgap
  rw [frameTaken_eq hfound]
  rw [hreceived, Connection.reassemblerFor_markDesynced, if_pos rfl] at hleft ⊢
  have htakes := StreamReassembler.push_takes input.packetIndex input.frame.payloadRange
    input.clock.gapOpened input.clock.gapChecked hfed.invariant hfed.apart hpayload
    (hfed.free hdisjoint)
  refine ⟨rfl, ?_, _, ?_, StreamReassembler.push_empties_iff input.packetIndex
    input.frame.payloadRange input.clock.gapOpened input.clock.gapChecked hfed.invariant hpayload
    (hfed.free hdisjoint) habandoned⟩
  · rw [hleft.heldLen_eq_zero_iff]
    exact ⟨rfl, rfl⟩
  · exact htakes.held.symm.trans (Nat.add_comm _ _)

end Frame

/-! ## Runs -/

namespace Orchestrator

variable {σ : Type} (crypto : Crypto) (vm : LuaVm σ)

/-- The frame travels in the direction of the pair. -/
def Carries (key : ConnKey) (isClientToServer : Bool) (orchestrator : Orchestrator σ)
    (input : FrameInput) : Prop :=
  input.key = key ∧
    direction orchestrator.config (orchestrator.connections.lookup key) input = isClientToServer

instance (key : ConnKey) (isClientToServer : Bool) (orchestrator : Orchestrator σ)
    (input : FrameInput) : Decidable (orchestrator.Carries key isClientToServer input) :=
  inferInstanceAs (Decidable (_ ∧ _))

/-- What is seen of the frames of a direction, in a run. -/
def seenOf {α : Type} (key : ConnKey) (isClientToServer : Bool)
    (see : Orchestrator σ → FrameInput → α) (start : Orchestrator σ) (inputs : List FrameInput) :
    List α :=
  Machine.collect (processFrame crypto vm) (fun orchestrator input =>
    if orchestrator.Carries key isClientToServer input then [see orchestrator input] else [])
    start inputs

/-- The sequence numbers and lengths of the payloads of a direction. -/
def segmentsOf (key : ConnKey) (isClientToServer : Bool) (start : Orchestrator σ)
    (inputs : List FrameInput) : List (UInt32 × ℕ) :=
  seenOf crypto vm key isClientToServer (fun _ input => (input.frame.seq, input.payload.length))
    start inputs

/-- The payload bytes pushed for a direction. -/
def pushedBytes (key : ConnKey) (isClientToServer : Bool) (start : Orchestrator σ)
    (inputs : List FrameInput) : ℕ :=
  (seenOf crypto vm key isClientToServer (fun _ input => input.payload.length) start inputs).sum

/-- The bytes taken out of a direction as records. -/
def takenBytes (key : ConnKey) (isClientToServer : Bool) (start : Orchestrator σ)
    (inputs : List FrameInput) : ℕ :=
  (seenOf crypto vm key isClientToServer (fun orchestrator input =>
    frameTaken crypto vm orchestrator.config (orchestrator.connections.lookup key)
      orchestrator.shared input) start inputs).sum

/-- What the frames of a direction add to `gap_abandoned_bytes`. -/
def countedBytes (key : ConnKey) (isClientToServer : Bool) (start : Orchestrator σ)
    (inputs : List FrameInput) : ℕ :=
  (seenOf crypto vm key isClientToServer (fun orchestrator input =>
    (orchestrator.processFrame crypto vm input).1.shared.counters.gapAbandonedBytes -
      orchestrator.shared.counters.gapAbandonedBytes) start inputs).sum

/-- The bytes the reassembler of a direction holds; none where the pair is not tracked. -/
def heldBytes (key : ConnKey) (isClientToServer : Bool) (orchestrator : Orchestrator σ) : ℕ :=
  ((orchestrator.connections.lookup key).map fun conn =>
    (conn.reassemblerFor isClientToServer).heldLen).getD 0

/-- No byte of the direction is unaccounted for. -/
def Balanced (key : ConnKey) (isClientToServer : Bool) (start : Orchestrator σ)
    (inputs : List FrameInput) : Prop :=
  pushedBytes crypto vm key isClientToServer start inputs =
    takenBytes crypto vm key isClientToServer start inputs +
      heldBytes key isClientToServer (after crypto vm start inputs) +
      countedBytes crypto vm key isClientToServer start inputs

instance (key : ConnKey) (isClientToServer : Bool) (start : Orchestrator σ)
    (inputs : List FrameInput) : Decidable (Balanced crypto vm key isClientToServer start inputs) :=
  inferInstanceAs (Decidable (_ = _))

/-- The frame loses no byte of the direction without counting it: if it abandons a gap,
no part of a record was waiting and everything pending is reported; if it closes the
connection otherwise, the stream of the direction ends whole. -/
def SparesBytes (key : ConnKey) (isClientToServer : Bool) (orchestrator : Orchestrator σ)
    (input : FrameInput) : Prop :=
  input.key = key →
    let found := orchestrator.connections.lookup key
    let conn := noted orchestrator.config found input
    let r := conn.reassemblerFor isClientToServer
    if direction orchestrator.config found input = isClientToServer then
      if AbandonsGap conn isClientToServer input then
        r.contiguousLen = 0 ∧ r.DropsAllPending input.packetIndex input.frame.seq
          input.frame.payloadRange input.payload input.clock.gapOpened input.clock.gapChecked
      else conn.info.isClosed = true → r.EndsWhole input.frame.seq input.payload
    else conn.info.isClosed = true → r.EndsWhole input.frame.seq []

variable {crypto vm} {orchestrator : Orchestrator σ} {key : ConnKey} {isClientToServer : Bool}
  {input : FrameInput}

/-- A call adds to `gap_abandoned_bytes` what its push reports. -/
theorem gapAbandonedBytes_processFrame (crypto : Crypto) (vm : LuaVm σ)
    (orchestrator : Orchestrator σ) (input : FrameInput) :
    (orchestrator.processFrame crypto vm input).1.shared.counters.gapAbandonedBytes =
      orchestrator.shared.counters.gapAbandonedBytes +
        (receive orchestrator.config (orchestrator.connections.lookup input.key)
          input).2.gapAbandonedBytes := by
  set found := orchestrator.connections.lookup input.key
  have hdrains := (handleFrame_drains crypto vm orchestrator.config found orchestrator.shared
    input).1
  have hapart := congrArg Counters.gapAbandonedBytes
    (counters_processFrame crypto vm orchestrator input)
  calc (orchestrator.processFrame crypto vm input).1.shared.counters.gapAbandonedBytes
      = (handleFrame crypto vm orchestrator.config found
          orchestrator.shared input).2.1.counters.gapAbandonedBytes := hapart
    _ = (orchestrator.shared.counters +
          (receive orchestrator.config found input).2).gapAbandonedBytes +
          ((frameSteps crypto vm orchestrator.config found orchestrator.shared input).map
            fun _ => 0).sum :=
        hdrains.counter fun step _ => step.gapAbandonedBytes_after crypto vm orchestrator.config
    _ = orchestrator.shared.counters.gapAbandonedBytes +
          (receive orchestrator.config found input).2.gapAbandonedBytes := by
        rw [List.map_const', List.sum_replicate_nat, Nat.mul_zero]
        rfl

theorem seenOf_concat {α : Type} (see : Orchestrator σ → FrameInput → α)
    (start : Orchestrator σ) (inputs : List FrameInput) (input : FrameInput) :
    seenOf crypto vm key isClientToServer see start (inputs ++ [input]) =
      seenOf crypto vm key isClientToServer see start inputs ++
        if (after crypto vm start inputs).Carries key isClientToServer input then
          [see (after crypto vm start inputs) input] else [] :=
  Machine.collect_concat start inputs input

theorem sum_seenOf_concat (see : Orchestrator σ → FrameInput → ℕ) (start : Orchestrator σ)
    (inputs : List FrameInput) (input : FrameInput) :
    (seenOf crypto vm key isClientToServer see start (inputs ++ [input])).sum =
      (seenOf crypto vm key isClientToServer see start inputs).sum +
        if (after crypto vm start inputs).Carries key isClientToServer input then
          see (after crypto vm start inputs) input else 0 := by
  rw [seenOf_concat, List.sum_append]
  split
  · rw [List.sum_singleton]
  · rfl

/-- The direction as the frames so far have left it: fed with their segments, and in
order. -/
def InOrder (key : ConnKey) (isClientToServer : Bool) (segments : List (UInt32 × ℕ))
    (orchestrator : Orchestrator σ) : Prop :=
  ∀ conn, orchestrator.connections.lookup key = some conn →
    conn.isDesynced isClientToServer = false →
      (conn.reassemblerFor isClientToServer).Fed segments

/-- A frame leaves its connection, or closes it. -/
theorem lookup_own (crypto : Crypto) (vm : LuaVm σ)
    (hidle : orchestrator.config.idleTimeout = none) (input : FrameInput) :
    let found := orchestrator.connections.lookup input.key
    (orchestrator.processFrame crypto vm input).1.connections.lookup input.key =
      if (noted orchestrator.config found input).info.isClosed = true then none
      else some (handleFrame crypto vm orchestrator.config found orchestrator.shared input).1 := by
  intro found
  rw [lookup_processFrame_of_no_idle hidle, if_pos rfl]
  simp only [info_handleFrame]
  rfl

theorem heldBytes_own (crypto : Crypto) (vm : LuaVm σ)
    (hidle : orchestrator.config.idleTimeout = none) (isClientToServer : Bool)
    (input : FrameInput) :
    let found := orchestrator.connections.lookup input.key
    heldBytes input.key isClientToServer (orchestrator.processFrame crypto vm input).1 =
      if (noted orchestrator.config found input).info.isClosed = true then 0
      else ((handleFrame crypto vm orchestrator.config found orchestrator.shared
        input).1.reassemblerFor isClientToServer).heldLen := by
  intro found
  unfold heldBytes
  rw [lookup_own crypto vm hidle]
  split
  · rfl
  · rfl

/-- What a frame leaves is in order, if the stream of its entry was fed so. -/
theorem inOrder_own (crypto : Crypto) (vm : LuaVm σ)
    (hidle : orchestrator.config.idleTimeout = none) {segments : List (UInt32 × ℕ)}
    (hfed : ((handleFrame crypto vm orchestrator.config
      (orchestrator.connections.lookup input.key) orchestrator.shared
        input).1.reassemblerFor isClientToServer).Fed segments) :
    (orchestrator.processFrame crypto vm input).1.InOrder input.key isClientToServer segments := by
  intro conn hconn _
  rw [lookup_own crypto vm hidle] at hconn
  split at hconn
  · cases hconn
  · rw [← Option.some.inj hconn]
    exact hfed

/-- A frame that carries bytes of the direction. -/
theorem balance_carried (crypto : Crypto) (vm : LuaVm σ)
    (hidle : orchestrator.config.idleTimeout = none)
    (hbounded : orchestrator.Bounded) {segments : List (UInt32 × ℕ)}
    (hsynced : ∀ conn, orchestrator.connections.lookup key = some conn →
      conn.isDesynced isClientToServer = false)
    (horder : orchestrator.InOrder key isClientToServer segments)
    (hnew : orchestrator.connections.lookup key = none → segments = [])
    (hcarried : orchestrator.Carries key isClientToServer input)
    (hdisjoint : ∀ segment ∈ segments,
      StreamReassembler.SeqDisjoint segment (input.frame.seq, input.payload.length)) :
    let next := (orchestrator.processFrame crypto vm input).1
    (∃ lost, heldBytes key isClientToServer orchestrator + input.payload.length =
        frameTaken crypto vm orchestrator.config (orchestrator.connections.lookup key)
            orchestrator.shared input + heldBytes key isClientToServer next +
          (next.shared.counters.gapAbandonedBytes -
            orchestrator.shared.counters.gapAbandonedBytes) + lost ∧
        (lost = 0 ↔ orchestrator.SparesBytes key isClientToServer input)) ∧
      next.InOrder key isClientToServer
        (segments ++ [(input.frame.seq, input.payload.length)]) := by
  intro next
  obtain ⟨hkey, hown⟩ := hcarried
  subst hkey
  have hfound : ∀ conn, orchestrator.connections.lookup input.key = some conn →
      conn.Bounded orchestrator.config := fun conn hconn => hbounded _ conn hconn
  obtain ⟨hfed, hheld, hsynced'⟩ := noted_stream orchestrator.config
    (fun conn hconn => ⟨horder conn hconn (hsynced conn hconn), hsynced conn hconn⟩) hnew input
  have hnext := heldBytes_own crypto vm hidle isClientToServer input
  have hcounted := gapAbandonedBytes_processFrame crypto vm orchestrator input
  set found := orchestrator.connections.lookup input.key
  change _ = heldBytes input.key isClientToServer orchestrator at hheld
  simp only [SparesBytes, forall_true_left]
  rw [if_pos hown]
  subst hown
  by_cases hgap : AbandonsGap (noted orchestrator.config found input)
    (direction orchestrator.config found input) input
  · -- the direction is desynced
    obtain ⟨htaken, hleft, lost, hlost, hspares⟩ := handleFrame_abandons crypto vm
      hfound orchestrator.shared input hfed hdisjoint hgap
    refine ⟨⟨lost, ?_, ?_⟩, ?_⟩
    · rw [htaken, hnext, hleft, ite_self, hcounted, ← hheld, hlost]
      omega
    · rw [if_pos hgap]
      exact hspares
    · intro conn hconn hconnSynced
      have hsilent := (Desyncs.silent crypto vm (id hgap : orchestrator.Desyncs input)).2.2
        conn hconn
      exact absurd (hconnSynced.symm.trans hsilent.1.desynced) Bool.false_ne_true
  · -- the stream takes the segment in, and only the close can lose bytes
    obtain ⟨hkeeps, hnone⟩ := handleFrame_keeps crypto vm hfound
      orchestrator.shared input hfed hsynced' hdisjoint hgap
    obtain ⟨lost, hlost, hspares⟩ :=
      hkeeps.lost (noted orchestrator.config found input).info.isClosed
    refine ⟨⟨lost, ?_, ?_⟩, inOrder_own crypto vm hidle hkeeps.fed⟩
    · rw [hnext, hcounted, hnone, ← hheld, hlost]
      omega
    · rw [if_neg hgap]
      exact hspares

/-- A frame that carries none: one of the other direction can close the connection, and one of
another pair does nothing. -/
theorem balance_not_carried (crypto : Crypto) (vm : LuaVm σ)
    (hidle : orchestrator.config.idleTimeout = none)
    (hbounded : orchestrator.Bounded) {segments : List (UInt32 × ℕ)}
    (hsynced : ∀ conn, orchestrator.connections.lookup key = some conn →
      conn.isDesynced isClientToServer = false)
    (horder : orchestrator.InOrder key isClientToServer segments)
    (hnew : orchestrator.connections.lookup key = none → segments = [])
    (hnot : ¬ orchestrator.Carries key isClientToServer input) :
    let next := (orchestrator.processFrame crypto vm input).1
    (∃ lost, heldBytes key isClientToServer orchestrator =
        heldBytes key isClientToServer next + lost ∧
        (lost = 0 ↔ orchestrator.SparesBytes key isClientToServer input)) ∧
      next.InOrder key isClientToServer segments := by
  intro next
  by_cases hkey : input.key = key
  · -- the other direction's frame feeds this stream nothing
    subst hkey
    have hown : direction orchestrator.config (orchestrator.connections.lookup input.key) input ≠
        isClientToServer := fun hown => hnot ⟨rfl, hown⟩
    have hfound : ∀ conn, orchestrator.connections.lookup input.key = some conn →
        conn.Bounded orchestrator.config := fun conn hconn => hbounded _ conn hconn
    obtain ⟨hfed, hheld, -⟩ := noted_stream orchestrator.config
      (fun conn hconn => ⟨horder conn hconn (hsynced conn hconn), hsynced conn hconn⟩) hnew input
    change _ = heldBytes input.key isClientToServer orchestrator at hheld
    have hkeeps := handleFrame_keeps_other crypto vm hfound
      orchestrator.shared input hfed (Ne.symm hown)
    obtain ⟨lost, hlost, hspares⟩ := hkeeps.lost (noted orchestrator.config
      (orchestrator.connections.lookup input.key) input).info.isClosed
    simp only [SparesBytes, forall_true_left]
    rw [if_neg hown]
    refine ⟨⟨lost, ?_, hspares⟩, inOrder_own crypto vm hidle hkeeps.fed⟩
    rw [heldBytes_own crypto vm hidle isClientToServer input, ← hheld]
    rw [List.length_nil] at hlost
    omega
  · have hlookup : next.connections.lookup key = orchestrator.connections.lookup key := by
      rw [lookup_processFrame_of_no_idle hidle, if_neg (Ne.symm hkey)]
    refine ⟨⟨0, ?_, iff_of_true rfl fun h => absurd h hkey⟩,
      fun conn hconn => horder conn (hlookup.symm.trans hconn)⟩
    unfold heldBytes
    rw [hlookup, Nat.add_zero]

/-- **One frame.**  The bytes it pushes and those held before are taken out, held or
counted afterwards, but for some that are lost; none is lost where the frame spares
them. -/
theorem balance_processFrame (crypto : Crypto) (vm : LuaVm σ)
    (hidle : orchestrator.config.idleTimeout = none)
    (hbounded : orchestrator.Bounded) {segments : List (UInt32 × ℕ)}
    (hsynced : ∀ conn, orchestrator.connections.lookup key = some conn →
      conn.isDesynced isClientToServer = false)
    (horder : orchestrator.InOrder key isClientToServer segments)
    (hnew : orchestrator.connections.lookup key = none → segments = [])
    (input : FrameInput)
    (hdisjoint : orchestrator.Carries key isClientToServer input → ∀ segment ∈ segments,
      StreamReassembler.SeqDisjoint segment (input.frame.seq, input.payload.length)) :
    let next := (orchestrator.processFrame crypto vm input).1
    let amount (bytes : ℕ) := if orchestrator.Carries key isClientToServer input then bytes else 0
    (∃ lost, heldBytes key isClientToServer orchestrator + amount input.payload.length =
        amount (frameTaken crypto vm orchestrator.config (orchestrator.connections.lookup key)
            orchestrator.shared input) + heldBytes key isClientToServer next +
          amount (next.shared.counters.gapAbandonedBytes -
            orchestrator.shared.counters.gapAbandonedBytes) + lost ∧
        (lost = 0 ↔ orchestrator.SparesBytes key isClientToServer input)) ∧
      next.InOrder key isClientToServer (segments ++
        if orchestrator.Carries key isClientToServer input then
          [(input.frame.seq, input.payload.length)] else []) := by
  intro next amount
  by_cases hcarried : orchestrator.Carries key isClientToServer input
  · simp only [amount, if_pos hcarried]
    exact balance_carried crypto vm hidle hbounded hsynced horder hnew hcarried
      (hdisjoint hcarried)
  · obtain ⟨⟨lost, hlost, hspares⟩, horder'⟩ :=
      balance_not_carried crypto vm hidle hbounded hsynced horder hnew hcarried
    simp only [amount, if_neg hcarried, List.append_nil]
    refine ⟨⟨lost, ?_, hspares⟩, horder'⟩
    rw [hlost, Nat.add_zero, Nat.zero_add, Nat.add_zero]

/-- The direction is in order before every frame. -/
def SyncedBetween (crypto : Crypto) (vm : LuaVm σ) (key : ConnKey) (isClientToServer : Bool)
    (start : Orchestrator σ) (inputs : List FrameInput) : Prop :=
  ∀ n < inputs.length, ∀ conn,
    (after crypto vm start (inputs.take n)).connections.lookup key = some conn →
      conn.isDesynced isClientToServer = false

section Run

variable {start : Orchestrator σ} {inputs : List FrameInput}

/-- What is known before a frame: the direction is in order, a pair that is not tracked has
seen no frame, and the frame overlaps none before it. -/
theorem before_frame (htracked : TrackedBetween crypto vm key start inputs)
    (hsynced : SyncedBetween crypto vm key isClientToServer start inputs)
    (hdisjoint : (segmentsOf crypto vm key isClientToServer start inputs).Pairwise
      StreamReassembler.SeqDisjoint)
    {first second : List FrameInput} {input : FrameInput}
    (hsplit : inputs = first ++ input :: second) :
    let segments := segmentsOf crypto vm key isClientToServer start first
    let reached := after crypto vm start first
    (∀ conn, reached.connections.lookup key = some conn →
        conn.isDesynced isClientToServer = false) ∧
      (reached.connections.lookup key = none → segments = []) ∧
      (reached.Carries key isClientToServer input → ∀ segment ∈ segments,
        StreamReassembler.SeqDisjoint segment (input.frame.seq, input.payload.length)) := by
  intro segments reached
  have hlength : first.length < inputs.length := by
    rw [hsplit, List.length_append, List.length_cons]
    omega
  have htake : inputs.take first.length = first := by
    rw [hsplit, List.take_left]
  refine ⟨?_, ?_, ?_⟩
  · intro conn hconn
    apply hsynced first.length hlength
    rw [htake]
    exact hconn
  · intro hnone
    rcases List.eq_nil_or_concat first with rfl | ⟨before, last, rfl⟩
    · rfl
    · have hsome := htracked _ hlength (by simp)
      rw [htake, hnone] at hsome
      cases hsome
  · intro hcarries segment hsegment
    -- the segment of the frame is the last of those up to it
    have happend : inputs = (first ++ [input]) ++ second := by
      rw [hsplit, List.append_assoc, List.singleton_append]
    rw [happend, segmentsOf, seenOf, Machine.collect_append] at hdisjoint
    have hfront := (List.pairwise_append.mp hdisjoint).1
    rw [Machine.collect_concat] at hfront
    refine (List.pairwise_append.mp hfront).2.2 segment hsegment _ ?_
    rw [show (Machine.run (processFrame crypto vm) start first).1 = reached from rfl,
      if_pos hcarries]
    exact List.mem_singleton_self _

/-- **One frame of a run.**  It keeps the balance where it spares the bytes, and leaves
the direction as the frames so far have fed it. -/
theorem frame_of_run (hidle : start.config.idleTimeout = none) (hbounded : start.Bounded)
    (htracked : TrackedBetween crypto vm key start inputs)
    (hsynced : SyncedBetween crypto vm key isClientToServer start inputs)
    (hdisjoint : (segmentsOf crypto vm key isClientToServer start inputs).Pairwise
      StreamReassembler.SeqDisjoint)
    {first second : List FrameInput} {input : FrameInput}
    (hsplit : inputs = first ++ input :: second)
    (horder : (after crypto vm start first).InOrder key isClientToServer
      (segmentsOf crypto vm key isClientToServer start first)) :
    (Balanced crypto vm key isClientToServer start first →
        (Balanced crypto vm key isClientToServer start (first ++ [input]) ↔
          (after crypto vm start first).SparesBytes key isClientToServer input)) ∧
      (after crypto vm start (first ++ [input])).InOrder key isClientToServer
        (segmentsOf crypto vm key isClientToServer start (first ++ [input])) := by
  obtain ⟨hnow, hnew, hfree⟩ := before_frame htracked hsynced hdisjoint hsplit
  have hidle' : (after crypto vm start first).config.idleTimeout = none := by
    rw [config_after]
    exact hidle
  obtain ⟨⟨lost, hlost, hspares⟩, hafter⟩ := balance_processFrame crypto vm
    hidle' (hbounded.run crypto vm first) hnow horder hnew input hfree
  rw [← after_concat] at hlost hafter
  simp only at hlost
  refine ⟨fun hbalanced => ?_, ?_⟩
  · rw [← hspares]
    unfold Balanced pushedBytes takenBytes countedBytes at hbalanced ⊢
    rw [sum_seenOf_concat, sum_seenOf_concat, sum_seenOf_concat, ← after_concat]
    omega
  · rw [segmentsOf, seenOf_concat]
    exact hafter

/-- Before every frame the direction is as the frames before have fed it. -/
theorem inOrder_before (hidle : start.config.idleTimeout = none) (hbounded : start.Bounded)
    (huntracked : start.connections.lookup key = none)
    (htracked : TrackedBetween crypto vm key start inputs)
    (hsynced : SyncedBetween crypto vm key isClientToServer start inputs)
    (hdisjoint : (segmentsOf crypto vm key isClientToServer start inputs).Pairwise
      StreamReassembler.SeqDisjoint)
    {first second : List FrameInput} (hsplit : inputs = first ++ second) :
    (after crypto vm start first).InOrder key isClientToServer
      (segmentsOf crypto vm key isClientToServer start first) := by
  induction first using List.reverseRecOn generalizing second with
  | nil =>
      intro conn hconn
      exact absurd (huntracked.symm.trans hconn) nofun
  | append_singleton before last ih =>
      rw [List.append_assoc] at hsplit
      exact (frame_of_run hidle hbounded htracked hsynced hdisjoint hsplit (ih hsplit)).2

end Run

/-- **Lost bytes are counted** where no frame loses others.  For a connection from its
first frame to the one that desyncs the direction or closes it. -/
theorem lost_bytes_counted_iff (crypto : Crypto) (vm : LuaVm σ) (source : KeylogSource) (lua : σ)
    (config : OrchestratorConfig) (sweepNow gcNow : Instant) (earlier inputs : List FrameInput)
    (key : ConnKey) (isClientToServer : Bool) (hidle : config.idleTimeout = none)
    (huntracked : (after crypto vm (new source lua config sweepNow gcNow)
      earlier).connections.lookup key = none)
    (htracked : TrackedBetween crypto vm key
      (after crypto vm (new source lua config sweepNow gcNow) earlier) inputs)
    (hsynced : SyncedBetween crypto vm key isClientToServer
      (after crypto vm (new source lua config sweepNow gcNow) earlier) inputs)
    (hdisjoint : (segmentsOf crypto vm key isClientToServer
      (after crypto vm (new source lua config sweepNow gcNow) earlier) inputs).Pairwise
        StreamReassembler.SeqDisjoint) :
    let start := after crypto vm (new source lua config sweepNow gcNow) earlier
    (∀ first second, inputs = first ++ second →
        Balanced crypto vm key isClientToServer start first) ↔
      ∀ first input second, inputs = first ++ input :: second →
        (after crypto vm start first).SparesBytes key isClientToServer input := by
  intro start
  have hidle' : start.config.idleTimeout = none := by
    rw [config_after]
    exact hidle
  have hbounded : start.Bounded :=
    (bounded_new source lua config sweepNow gcNow).run crypto vm earlier
  have hframe : ∀ {first second input}, inputs = first ++ input :: second →
      Balanced crypto vm key isClientToServer start first →
        (Balanced crypto vm key isClientToServer start (first ++ [input]) ↔
          (after crypto vm start first).SparesBytes key isClientToServer input) :=
    fun hsplit => (frame_of_run hidle' hbounded htracked hsynced hdisjoint hsplit
      (inOrder_before hidle' hbounded huntracked htracked hsynced hdisjoint hsplit)).1
  constructor
  · -- balanced before and after a frame, the frame lost nothing
    intro hbalanced first input second hsplit
    refine (hframe hsplit (hbalanced first _ hsplit)).mp (hbalanced (first ++ [input]) second ?_)
    rw [hsplit, List.append_assoc, List.singleton_append]
  · -- by induction on the frames so far: one that spares its bytes keeps the balance
    intro hspares first
    induction first using List.reverseRecOn with
    | nil =>
        intro _ _
        have hnone : heldBytes key isClientToServer start = 0 := by
          rw [heldBytes, huntracked]
          rfl
        change 0 = 0 + heldBytes key isClientToServer start + 0
        rw [hnone]
    | append_singleton before last ih =>
        intro second hsplit
        rw [List.append_assoc, List.singleton_append] at hsplit
        exact (hframe hsplit (ih _ hsplit)).mpr (hspares before last second hsplit)

theorem syncedBetween_of_all {crypto : Crypto} {vm : LuaVm σ} {key : ConnKey}
    {isClientToServer : Bool} {start : Orchestrator σ} {inputs : List FrameInput}
    (hall : ∀ n < inputs.length,
      ((after crypto vm start (inputs.take n)).connections.lookup key).all
        (fun conn => !conn.isDesynced isClientToServer) = true) :
    SyncedBetween crypto vm key isClientToServer start inputs := by
  intro n hn conn hconn
  have hnow := hall n hn
  rw [hconn] at hnow
  simpa using hnow

open Capture

/-- A client whose hello is lost: its request waits behind the gap until it resets the
connection. -/
def resetBehindGap : List FrameInput :=
  [segment client server 0 999 syn [] 0, segment client server 1 1043 ack Capture.request 1,
    segment client server 2 1071 ⟨false, false, true, false, false⟩ [] 2]

/-- With all its segments captured, no byte of the client's is lost. -/
theorem lost_bytes_counted_request :
    let start := new source () .default 0 0
    let inputs := [segment client server 0 999 syn [] 0, segment client server 1 1000 ack hello 1,
      segment client server 2 1043 ack Capture.request 2]
    ((∀ first second, inputs = first ++ second → Balanced RecordedSession.recording.crypto plainVm
          (connKey client server) true start first) ↔
      ∀ first input second, inputs = first ++ input :: second →
        (after RecordedSession.recording.crypto plainVm start first).SparesBytes
          (connKey client server) true input) ∧
      Balanced RecordedSession.recording.crypto plainVm (connKey client server) true start
        inputs := by
  refine ⟨lost_bytes_counted_iff RecordedSession.recording.crypto plainVm source () .default 0 0
    [] _ (connKey client server) true rfl rfl ?_ (syncedBetween_of_all ?_) ?_, ?_⟩
  · unfold TrackedBetween
    decide +kernel
  · decide +kernel
  · decide +kernel
  · decide +kernel

/-- What waits behind a gap when the connection is closed is lost, and not counted. -/
theorem pending_bytes_lost_with_entry :
    ¬ ∀ (crypto : Crypto) (vm : LuaVm Unit) (source : KeylogSource) (config : OrchestratorConfig)
      (sweepNow gcNow : Instant) (earlier inputs : List FrameInput) (key : ConnKey)
      (isClientToServer : Bool),
      let start := after crypto vm (new source () config sweepNow gcNow) earlier
      config.idleTimeout = none → start.connections.lookup key = none →
        TrackedBetween crypto vm key start inputs →
        SyncedBetween crypto vm key isClientToServer start inputs →
        (segmentsOf crypto vm key isClientToServer start inputs).Pairwise
          StreamReassembler.SeqDisjoint →
        Balanced crypto vm key isClientToServer start inputs := by
  intro hclaim
  have hbalanced := hclaim RecordedSession.recording.crypto plainVm source .default 0 0 []
    resetBehindGap (connKey client server) true rfl rfl
    (by unfold TrackedBetween; decide +kernel)
    (syncedBetween_of_all (by decide +kernel)) (by decide +kernel)
  revert hbalanced
  decide +kernel

end Orchestrator

end Tlscap
