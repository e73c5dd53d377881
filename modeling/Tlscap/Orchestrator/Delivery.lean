import Tlscap.Orchestrator.Capture
import Tlscap.Orchestrator.Drain
import Tlscap.Orchestrator.Memory
import Tlscap.Reassembly.Lossless

/-!
# Segmentation and order independence

A byte string is carried by frames of one direction of a connection: cut, ordered, repeated
and overlapping as the network pleases.  However it was carried, decoding its framing by the
record headers is what the frames have done together (`Carriage.delivered`), so two ways of
carrying it end alike (`carried_alike`).

## Strategy

The invariant (`Receiving`) says how far the frames have come: some whole records were cut
off the front of the byte string and decoded, the reassembler holds the rest of what came so
far, and the positions it holds are those of the payloads.

* **A frame with a payload** adds its positions to those that are held, and what has become
  complete is cut off and decoded (`Receiving.push`).  Which bytes stand at a position does
  not depend on which frame brought them, as all are slices of one byte string.
* **A frame without one** completes nothing: the loop that drains the direction has come to
  its end before (`Receiving.silent`).
* **The last frame** may be one that closes the connection.  So the invariant speaks of the
  connection as a frame left it, and not of the entry in the table.
* **When all has come**, no position is missing, so nothing waits behind a gap, and what was
  cut off is the framing of the whole byte string (`Receiving.framing`).

Decoding is a fold over the records (`decoded`), which the reassembler has no part in.  The
condition that the connection stays tracked is needed: an idle sweep between two halves of a
record throws the first one away (`idle_sweep_splits_record`).
-/

namespace Tlscap

/-! ## What is carried -/

/-- A byte string that one direction of a connection carries next. -/
structure Delivery where
  key : ConnKey
  conn : Connection
  isClientToServer : Bool
  isn : UInt32
  bytes : Bytes

namespace Delivery

variable {σ : Type} (d : Delivery)

/-- Where the byte string starts, from the first byte of the direction on. -/
def base : ℕ := (d.conn.reassemblerFor d.isClientToServer).nextExpectedRelative

/-- Before the byte string: the connection is tracked, and the direction is anchored,
has lost nothing and holds nothing. -/
structure Awaited (orchestrator : Orchestrator σ) : Prop where
  tracked : orchestrator.connections.lookup d.key = some d.conn
  anchored : (d.conn.reassemblerFor d.isClientToServer).baseSeq = some d.isn
  synced : d.conn.isDesynced d.isClientToServer = false
  contiguous : (d.conn.reassemblerFor d.isClientToServer).contiguousLen = 0
  pending : (d.conn.reassemblerFor d.isClientToServer).pendingLen = 0
  short : d.base + d.bytes.length < 2 ^ 32

/-- A frame of the connection, with the offset of what it carries: a slice of the byte
string under its sequence number.  A frame without a payload may go either way. -/
structure Carries (part : ℕ × FrameInput) : Prop where
  key : part.2.key = d.key
  noSyn : part.2.frame.flags.syn = false
  direction : part.2.payload ≠ [] →
    decide (part.2.src = d.conn.clientEndpoint) = d.isClientToServer
  seq : part.2.payload ≠ [] → part.2.frame.seq = d.isn + UInt32.ofNat (d.base + part.1)
  within : part.2.payload ≠ [] → part.1 + part.2.payload.length ≤ d.bytes.length
  payload : part.2.payload = slice d.bytes part.1 part.2.payload.length

instance (part : ℕ × FrameInput) : Decidable (d.Carries part) :=
  decidable_of_iff (part.2.key = d.key ∧ part.2.frame.flags.syn = false ∧
      (part.2.payload ≠ [] → decide (part.2.src = d.conn.clientEndpoint) = d.isClientToServer) ∧
      (part.2.payload ≠ [] → part.2.frame.seq = d.isn + UInt32.ofNat (d.base + part.1)) ∧
      (part.2.payload ≠ [] → part.1 + part.2.payload.length ≤ d.bytes.length) ∧
      part.2.payload = slice d.bytes part.1 part.2.payload.length)
    ⟨fun ⟨hkey, hsyn, hdirection, hseq, hwithin, hpayload⟩ =>
      ⟨hkey, hsyn, hdirection, hseq, hwithin, hpayload⟩,
    fun h => ⟨h.key, h.noSyn, h.direction, h.seq, h.within, h.payload⟩⟩

/-- The positions of the byte string that the frames carry. -/
def slices (parts : List (ℕ × FrameInput)) : List (ℕ × ℕ) :=
  parts.map fun part => (part.1, part.2.payload.length)

/-- Pushing the payload of the frame abandons no gap. -/
def KeepsGap (orchestrator : Orchestrator σ) (input : FrameInput) : Prop :=
  ∀ conn, orchestrator.connections.lookup d.key = some conn →
    ((conn.reassemblerFor d.isClientToServer).push input.packetIndex input.frame.seq
      input.frame.payloadRange input.payload input.clock.gapOpened
      input.clock.gapChecked).1.isGapAbandoned = false

instance (orchestrator : Orchestrator σ) (input : FrameInput) :
    Decidable (d.KeepsGap orchestrator input) :=
  decidable_of_iff ((orchestrator.connections.lookup d.key).all fun conn =>
      !((conn.reassemblerFor d.isClientToServer).push input.packetIndex input.frame.seq
        input.frame.payloadRange input.payload input.clock.gapOpened
        input.clock.gapChecked).1.isGapAbandoned)
    (by simp only [Option.all_eq_true, Bool.not_eq_true', KeepsGap])

/-- The frame leaves its connection tracked. -/
def StaysTracked (crypto : Crypto) (vm : LuaVm σ) (orchestrator : Orchestrator σ)
    (input : FrameInput) : Prop :=
  ((orchestrator.processFrame crypto vm input).1.connections.lookup d.key).isSome = true

instance (crypto : Crypto) (vm : LuaVm σ) (orchestrator : Orchestrator σ) (input : FrameInput) :
    Decidable (d.StaysTracked crypto vm orchestrator input) :=
  inferInstanceAs (Decidable (_ = true))

/-- What decoding some units does after the connection's past. -/
def decoded (crypto : Crypto) (dissector : Dissector) (keylog : Keylog)
    (config : OrchestratorConfig) (units : List Bytes) : Decoded :=
  (d.conn.decoder d.isClientToServer).records crypto dissector keylog config.maxTailBytes
    d.isClientToServer (units.map recordOf)

/-- The direction from its first byte on, as far as it matters: what came before the
byte string is gone. -/
def stream : Bytes := List.replicate d.base 0 ++ d.bytes

/-! ## The invariant -/

/-- How far the frames have come: `units` were cut off and decoded.  `conn` is the
connection as the last frame left it; that frame may have closed it. -/
structure Receiving (crypto : Crypto) (dissector : Dissector) (config : OrchestratorConfig)
    (hasPath : Bool) (keylog : Keylog) (start : Orchestrator σ) (parts : List (ℕ × FrameInput))
    (final : Orchestrator σ × List (PacketEvent × List DecodedMessage)) (units : List Bytes)
    (conn : Connection) : Prop where
  steady : final.1.Steady config hasPath keylog
  entry : ∀ other, final.1.connections.lookup d.key = some other → other = conn
  bounded : conn.Bounded config
  clientEndpoint : conn.clientEndpoint = d.conn.clientEndpoint
  anchored : (conn.reassemblerFor d.isClientToServer).baseSeq = some d.isn
  synced : conn.isDesynced d.isClientToServer = false
  reassembles : StreamReassembler.Reassembles d.stream
    (List.replicate d.base 0 ++ units.flatten) (conn.reassemblerFor d.isClientToServer)
  holds : ∀ position, (conn.reassemblerFor d.isClientToServer).Holds position ↔
    position < d.base ∨ d.base ≤ position ∧
      Coverage.Covered (slices parts) (position - d.base)
  units_whole : ∀ unit ∈ units, recordFormat.Complete unit ∧ recordFormat.size unit = unit.length
  decoder : conn.decoder d.isClientToServer =
    (d.decoded crypto dissector keylog config units).decoder
  messages : (final.2.flatMap Prod.snd).map (DecodedMessage.stamp 0) =
    (d.decoded crypto dissector keylog config units).messages.map (DecodedMessage.stamp 0)
  counters : final.1.shared.counters.apartFromEvictions =
    (start.shared.counters +
      (d.decoded crypto dissector keylog config units).counters).apartFromEvictions

variable {crypto : Crypto} {vm : LuaVm σ} {dissector : Dissector} {config : OrchestratorConfig}
  {hasPath : Bool} {keylog : Keylog} {start : Orchestrator σ} {d : Delivery}

/-- Before the first frame nothing has been cut off. -/
theorem receiving_start (hsteady : start.Steady config hasPath keylog)
    (hbounded : start.Bounded) (hawaited : d.Awaited start) :
    d.Receiving crypto dissector config hasPath keylog start [] (start, []) [] d.conn := by
  have hconn := hbounded d.key d.conn hawaited.tracked
  rw [hsteady.config_eq] at hconn
  have hsized := (hconn d.isClientToServer).invariant.toSized
  have hpending := hsized.pending_eq_empty hawaited.pending
  have hcontiguous := hsized.contiguousBytes_eq_nil hawaited.contiguous
  refine ⟨hsteady, ?_, hconn, rfl, hawaited.anchored, hawaited.synced, ⟨?_, ?_, ?_⟩, ?_, nofun,
    rfl, rfl, ?_⟩
  · intro other hother
    rw [hawaited.tracked] at hother
    exact (Option.some.inj hother).symm
  · rw [hcontiguous, stream]
    simp [base]
  · simp [stream, base]
  · rw [hpending]
    exact nofun
  · intro position
    simp only [StreamReassembler.Holds, hpending, base]
    simp [slices]
  · exact congrArg Counters.apartFromEvictions (add_zero start.shared.counters).symm

/-! ## One frame -/

section Step

variable {parts : List (ℕ × FrameInput)}
  {final : Orchestrator σ × List (PacketEvent × List DecodedMessage)} {units : List Bytes}
  {conn : Connection} {part : ℕ × FrameInput}

/-- What a frame does while its connection is tracked. -/
theorem Receiving.handled (crypto : Crypto) (vm : LuaVm σ)
    (h : d.Receiving crypto dissector config hasPath keylog start parts final units conn)
    (htracked : final.1.connections.lookup d.key = some conn) (hcarries : d.Carries part) :
    let handled := handleFrame crypto vm config (some conn) final.1.shared part.2
    handled.1.Bounded config ∧
      (∀ other, (final.1.processFrame crypto vm part.2).1.connections.lookup d.key = some other →
        other = handled.1) ∧
      (final.1.processFrame crypto vm part.2).1.shared.counters.apartFromEvictions =
        handled.2.1.counters.apartFromEvictions ∧
      (final.1.processFrame crypto vm part.2).2.2 = handled.2.2 := by
  rw [← hcarries.key] at htracked
  refine ⟨?_, ?_, ?_, ?_⟩
  · apply bounded_handleFrame
    intro found hfound
    rw [← Option.some.inj hfound]
    exact h.bounded
  · intro other hother
    rcases Orchestrator.lookup_processFrame hother with ⟨-, hkey⟩ | ⟨-, -, hhandled⟩
    · exact absurd hcarries.key.symm hkey
    · rw [hhandled, htracked, h.steady.config_eq]
  · rw [Orchestrator.counters_processFrame, htracked, h.steady.config_eq]
  · simp only [Orchestrator.processFrame]
    rw [htracked, h.steady.config_eq]

/-- A frame without a payload completes nothing. -/
theorem Receiving.silent (hpure : vm.IsPure dissector)
    (h : d.Receiving crypto dissector config hasPath keylog start parts final units conn)
    (htracked : final.1.connections.lookup d.key = some conn) (hcarries : d.Carries part)
    (hsteady : ∀ index, (part.2.keylogReadings index).Steady crypto.hexDecode hasPath keylog)
    (hpayload : part.2.payload = []) :
    ∃ conn', d.Receiving crypto dissector config hasPath keylog start (parts ++ [part])
      ((final.1.processFrame crypto vm part.2).1,
        final.2 ++ [(final.1.processFrame crypto vm part.2).2]) units conn' := by
  obtain ⟨hbounded, hentry, hcounters, hmessages⟩ := h.handled crypto vm htracked hcarries
  obtain ⟨⟨info, hconn⟩, hkept, hnone⟩ := handleFrame_of_nil crypto config hpure h.steady.reads
    hsteady hcarries.noSyn hpayload (some conn) fun other => (h.bounded other).drained
  have hreassembler : (conn.withInfo info).reassemblerFor d.isClientToServer =
      conn.reassemblerFor d.isClientToServer := rfl
  have hcovered : slices (parts ++ [part]) = slices parts ++ [(part.1, 0)] := by
    simp [slices, hpayload]
  rw [hconn] at hentry hbounded
  refine ⟨conn.withInfo info, h.steady.processFrame hpure hsteady, hentry, hbounded,
    h.clientEndpoint, h.anchored, h.synced, h.reassembles, ?_, h.units_whole, h.decoder, ?_, ?_⟩
  · intro position
    have hnone : ¬ (part.1 ≤ position - d.base ∧ position - d.base < part.1 + 0) := by omega
    rw [hreassembler, h.holds, hcovered, Coverage.covered_append_singleton, or_iff_left hnone]
  · rw [List.flatMap_append, List.map_append, h.messages]
    simp [hmessages, hnone]
  · rw [hcounters, hkept, h.counters]

/-- The byte string is a part of the stream. -/
theorem slice_stream (offset length : ℕ) :
    Tlscap.slice d.stream (d.base + offset) length = Tlscap.slice d.bytes offset length := by
  have hfront : (List.replicate d.base (0 : UInt8)).length = d.base := List.length_replicate
  unfold Tlscap.slice stream
  rw [← List.drop_drop, List.drop_left' hfront]

/-- Cutting the records off moves them to what was taken. -/
theorem reassembles_takeRecords {stream front : Bytes} {units : List Bytes}
    {r : StreamReassembler} (hsized : r.Sized)
    (h : StreamReassembler.Reassembles stream (front ++ units.flatten) r) :
    let left := (takeRecords r.contiguousLen r).2
    StreamReassembler.Reassembles stream
        (front ++ (units ++ (recordFormat.parse r.contiguousBytes).1).flatten) left ∧
      ∀ position, left.Holds position ↔ r.Holds position := by
  intro left
  obtain ⟨-, hrest, hframe, -⟩ := hsized.takeRecords_eq le_rfl
  change left.contiguousBytes = _ at hrest
  change left = _ at hframe
  have hnext : left.nextExpectedRelative = r.nextExpectedRelative := by rw [hframe]
  have hpending : left.pending = r.pending := by rw [hframe]
  refine ⟨⟨?_, ?_, ?_⟩, ?_⟩
  · rw [hrest, hnext, ← h.delivered, List.flatten_append, List.append_assoc, List.append_assoc,
      List.append_assoc, Framing.Format.flatten_parse]
  · rw [hnext]
    exact h.next_le
  · rw [hpending]
    exact h.pending_slice
  · intro position
    unfold StreamReassembler.Holds
    rw [hnext, hpending]

theorem decoded_append (crypto : Crypto) (dissector : Dissector) (keylog : Keylog)
    (config : OrchestratorConfig) (units more : List Bytes) :
    let now := d.decoded crypto dissector keylog config units
    let later := now.decoder.records crypto dissector keylog config.maxTailBytes
      d.isClientToServer (more.map recordOf)
    d.decoded crypto dissector keylog config (units ++ more) =
      ⟨later.decoder, now.counters + later.counters, now.messages ++ later.messages⟩ := by
  unfold decoded
  rw [List.map_append]
  exact Decoder.records_append crypto dissector keylog config.maxTailBytes d.isClientToServer
    _ _ _

/-- **A frame with a payload.**  The reassembler receives it, and what has become
complete is cut off and decoded. -/
theorem Receiving.push (hpure : vm.IsPure dissector)
    (h : d.Receiving crypto dissector config hasPath keylog start parts final units conn)
    (hshort : d.base + d.bytes.length < 2 ^ 32)
    (htracked : final.1.connections.lookup d.key = some conn) (hcarries : d.Carries part)
    (hsteady : ∀ index, (part.2.keylogReadings index).Steady crypto.hexDecode hasPath keylog)
    (hkept : ((conn.reassemblerFor d.isClientToServer).push part.2.packetIndex
      part.2.frame.seq part.2.frame.payloadRange part.2.payload part.2.clock.gapOpened
      part.2.clock.gapChecked).1.isGapAbandoned = false) (hpayload : part.2.payload ≠ []) :
    ∃ more conn', d.Receiving crypto dissector config hasPath keylog start (parts ++ [part])
      ((final.1.processFrame crypto vm part.2).1,
        final.2 ++ [(final.1.processFrame crypto vm part.2).2]) (units ++ more) conn' := by
  obtain ⟨hbounded, hentry, hcounters, hmessages⟩ := h.handled crypto vm htracked hcarries
  have hshown := handleFrame_decodes crypto config hpure h.steady.reads hsteady (some conn)
  set handled := handleFrame crypto vm config (some conn) final.1.shared part.2
  have hdirection : direction config (some conn) part.2 = d.isClientToServer := by
    rw [← hcarries.direction hpayload, ← h.clientEndpoint]
    rfl
  obtain ⟨info, hreceive⟩ := receive_of_kept config hcarries.noSyn hpayload conn hdirection
    h.synced hkept
  have hinvariant := (h.bounded d.isClientToServer).invariant
  have hlength : (d.stream).length = d.base + d.bytes.length := by
    simp [stream]
  have hpushed := hinvariant.push part.2.packetIndex part.2.frame.seq part.2.frame.payloadRange
    part.2.payload part.2.clock.gapOpened part.2.clock.gapChecked
  have hanchor := (StreamReassembler.sameAnchor_push h.anchored part.2.packetIndex
    part.2.frame.seq part.2.frame.payloadRange part.2.payload part.2.clock.gapOpened
    part.2.clock.gapChecked).1
  have hwithin := hcarries.within hpayload
  have hreceives : StreamReassembler.Receives d.stream
      (List.replicate d.base 0 ++ units.flatten) (d.base + part.1) part.2.payload.length
      (conn.reassemblerFor d.isClientToServer)
      ((conn.reassemblerFor d.isClientToServer).push part.2.packetIndex part.2.frame.seq
        part.2.frame.payloadRange part.2.payload part.2.clock.gapOpened
        part.2.clock.gapChecked).2 := by
    have hgap := hkept
    have hpart := hcarries.payload
    set length := part.2.payload.length
    rw [← slice_stream] at hpart
    rw [hcarries.seq hpayload, hpart] at hgap ⊢
    exact StreamReassembler.receives_push h.reassembles h.anchored (hlength.trans_lt hshort) _ _
      (by omega) hgap
  set pushed := ((conn.reassemblerFor d.isClientToServer).push part.2.packetIndex
    part.2.frame.seq part.2.frame.payloadRange part.2.payload part.2.clock.gapOpened
    part.2.clock.gapChecked).2
  -- what the loop cuts off the stream, and what it leaves
  obtain ⟨hrecords, hrest, hframe, hsized⟩ := hpushed.toSized.takeRecords_eq le_rfl
  have hcompleted : completed config (some conn) part.2 =
      takeRecords pushed.contiguousLen pushed := by
    unfold completed
    rw [hreceive, hdirection]
    simp only [Connection.reassemblerFor_setReassembler, if_pos]
  have hdecoded : frameDecoded crypto config dissector keylog (some conn) part.2 =
      (conn.decoder d.isClientToServer).records crypto dissector keylog config.maxTailBytes
        d.isClientToServer ((recordFormat.parse pushed.contiguousBytes).1.map recordOf) := by
    unfold frameDecoded
    rw [hcompleted, hrecords, hreceive, hdirection, Connection.decoder_setReassembler]
    rfl
  rw [hdecoded, hcompleted, hreceive, hdirection] at hshown
  set more := (recordFormat.parse pushed.contiguousBytes).1
  set left := (takeRecords pushed.contiguousLen pushed).2
  simp only [Connection.setReassembler_setReassembler, add_zero] at hshown
  have hcut := reassembles_takeRecords hpushed.toSized hreceives.reassembles
  have hdecode := d.decoded_append crypto dissector keylog config units more
  have hcovered : slices (parts ++ [part]) =
      slices parts ++ [(part.1, part.2.payload.length)] := by
    simp [slices]
  have hleft : handled.1.reassemblerFor d.isClientToServer = left := by
    rw [hshown.conn, Connection.reassemblerFor_withDecoder,
      Connection.reassemblerFor_setReassembler, if_pos rfl]
  refine ⟨more, handled.1, h.steady.processFrame hpure hsteady, hentry, hbounded, ?_, ?_, ?_, ?_,
    ?_, ?_, ?_, ?_, ?_⟩
  · rw [hshown.conn, Connection.clientEndpoint_withDecoder,
      Connection.clientEndpoint_setReassembler]
    exact h.clientEndpoint
  · rw [hleft, hframe]
    exact hanchor.trans h.anchored
  · rw [hshown.conn, Connection.isDesynced_withDecoder, Connection.isDesynced_setReassembler]
    exact h.synced
  · rw [hleft]
    exact hcut.1
  · intro position
    rw [hleft, hcut.2, hreceives.holds, h.holds, hcovered, Coverage.covered_append_singleton]
    constructor
    · rintro ((hbefore | ⟨hfrom, hcovered⟩) | hnew)
      · exact .inl hbefore
      · exact .inr ⟨hfrom, .inl hcovered⟩
      · exact .inr ⟨by omega, .inr (by omega)⟩
    · rintro (hbefore | ⟨hfrom, hcovered | hnew⟩)
      · exact .inl (.inl hbefore)
      · exact .inl (.inr ⟨hfrom, hcovered⟩)
      · exact .inr (by omega)
  · intro unit hunit
    rcases List.mem_append.mp hunit with hold | hnew
    · exact h.units_whole unit hold
    · exact recordFormat.mem_parse _ unit hnew
  · obtain ⟨hclient, hserver⟩ := Decoder.records_endpoints crypto dissector keylog
      config.maxTailBytes d.isClientToServer (conn.decoder d.isClientToServer)
      (more.map recordOf)
    rw [hdecode, hshown.conn, ← h.decoder]
    apply Connection.decoder_withDecoder
    · rw [hclient, Connection.clientEndpoint_setReassembler]
      rfl
    · rw [hserver, Connection.serverEndpoint_setReassembler]
      rfl
  · rw [List.flatMap_append, List.map_append, h.messages, hdecode, List.map_append, ← h.decoder]
    simp [hmessages, hshown.messages, DecodedMessage.stamp]
  · rw [hcounters, hshown.counters, hdecode, Counters.apartFromEvictions_add, h.counters,
      ← Counters.apartFromEvictions_add, add_assoc, h.decoder]

end Step

/-! ## All frames -/

/-- The run of the frames. -/
def run (crypto : Crypto) (vm : LuaVm σ) (start : Orchestrator σ)
    (parts : List (ℕ × FrameInput)) :
    Orchestrator σ × List (PacketEvent × List DecodedMessage) :=
  Machine.run (Orchestrator.processFrame crypto vm) start (parts.map Prod.snd)

theorem run_concat (crypto : Crypto) (vm : LuaVm σ) (start : Orchestrator σ)
    (parts : List (ℕ × FrameInput)) (part : ℕ × FrameInput) :
    run crypto vm start (parts ++ [part]) =
      (((run crypto vm start parts).1.processFrame crypto vm part.2).1,
        (run crypto vm start parts).2 ++
          [((run crypto vm start parts).1.processFrame crypto vm part.2).2]) := by
  unfold run
  rw [List.map_append, Machine.run_append]
  rfl

/-- The frames keep the invariant, if the connection is tracked before each of them and
none abandons a gap. -/
theorem receiving_run (hpure : vm.IsPure dissector) (hsteady : start.Steady config hasPath keylog)
    (hbounded : start.Bounded) (hawaited : d.Awaited start) {parts : List (ℕ × FrameInput)}
    (hcarries : ∀ part ∈ parts, d.Carries part)
    (hreadings : ∀ part ∈ parts, ∀ index,
      (part.2.keylogReadings index).Steady crypto.hexDecode hasPath keylog)
    (htracked : ∀ first part rest, parts = first ++ part :: rest →
      ((run crypto vm start first).1.connections.lookup d.key).isSome = true)
    (hgap : ∀ first part rest units conn, parts = first ++ part :: rest →
      part.2.payload ≠ [] →
      (run crypto vm start first).1.connections.lookup d.key = some conn →
      d.Receiving crypto dissector config hasPath keylog start first (run crypto vm start first)
        units conn →
      ((conn.reassemblerFor d.isClientToServer).push part.2.packetIndex part.2.frame.seq
        part.2.frame.payloadRange part.2.payload part.2.clock.gapOpened
        part.2.clock.gapChecked).1.isGapAbandoned = false) :
    ∃ units conn, d.Receiving crypto dissector config hasPath keylog start parts
      (run crypto vm start parts) units conn := by
  induction parts using List.reverseRecOn with
  | nil => exact ⟨[], d.conn, receiving_start hsteady hbounded hawaited⟩
  | append_singleton parts part ih =>
      have hextend : ∀ {first rest : List (ℕ × FrameInput)} {other : ℕ × FrameInput},
          parts = first ++ other :: rest →
            parts ++ [part] = first ++ other :: (rest ++ [part]) := by
        rintro first rest other rfl
        simp
      -- the entry before the last frame is the one the invariant speaks of
      obtain ⟨units, conn, h⟩ := ih
        (fun other hother => hcarries other (List.mem_append_left _ hother))
        (fun other hother => hreadings other (List.mem_append_left _ hother))
        (fun first other rest hsplit => htracked first other _ (hextend hsplit))
        (fun first other rest units conn hsplit => hgap first other _ units conn (hextend hsplit))
      have hlast := List.mem_append_right parts (List.mem_singleton_self part)
      obtain ⟨other, hother⟩ := Option.isSome_iff_exists.mp (htracked parts part [] rfl)
      have hfound := hother
      rw [h.entry other hother] at hfound
      rw [run_concat]
      by_cases hpayload : part.2.payload = []
      · obtain ⟨conn', h'⟩ := h.silent hpure hfound (hcarries part hlast) (hreadings part hlast)
          hpayload
        exact ⟨units, conn', h'⟩
      · obtain ⟨more, conn', h'⟩ := h.push hpure hawaited.short hfound (hcarries part hlast)
          (hreadings part hlast) (hgap parts part [] units conn rfl hpayload hfound h) hpayload
        exact ⟨units ++ more, conn', h'⟩

/-- Once all of the byte string has come, what was cut off is its framing. -/
theorem Receiving.framing {parts : List (ℕ × FrameInput)}
    {final : Orchestrator σ × List (PacketEvent × List DecodedMessage)} {units : List Bytes}
    {conn : Connection}
    (h : d.Receiving crypto dissector config hasPath keylog start parts final units conn)
    (hcomplete : ∀ position < d.bytes.length, Coverage.Covered (slices parts) position) :
    recordFormat.parse d.bytes =
      (units, (conn.reassemblerFor d.isClientToServer).contiguousBytes) := by
  obtain ⟨hinvariant, -, hdrained, -⟩ := h.bounded d.isClientToServer
  set r := conn.reassemblerFor d.isClientToServer
  have hlength : (d.stream).length = d.base + d.bytes.length := by
    simp [stream]
  have hnext : r.nextExpectedRelative = d.stream.length := by
    have hle : r.nextExpectedRelative ≤ d.stream.length := h.reassembles.next_le
    by_contra hshort
    -- a position that was carried is held, but the one at the cursor is not
    apply hinvariant.ahead.not_holds
    apply (h.holds _).mpr
    by_cases hbefore : r.nextExpectedRelative < d.base
    · exact .inl hbefore
    · exact .inr ⟨not_lt.mp hbefore, hcomplete _ (by omega)⟩
  have hbytes : units.flatten ++ r.contiguousBytes = d.bytes := by
    have hdelivered := h.reassembles.delivered
    rw [hnext, List.take_length, stream, List.append_assoc] at hdelivered
    exact List.append_cancel_left hdelivered
  have hrest := Framing.Format.parse_of_not_complete (hinvariant.toSized.drained_iff.mp hdrained)
  rw [← hbytes, Framing.Format.parse_flatten_append h.units_whole, hrest, List.append_nil]

/-- One way of carrying the byte string: the frames carry all of it, and none abandons
a gap. -/
structure Carriage (crypto : Crypto) (vm : LuaVm σ) (hasPath : Bool) (keylog : Keylog)
    (d : Delivery) (start : Orchestrator σ) (parts : List (ℕ × FrameInput)) : Prop where
  carries : ∀ part ∈ parts, d.Carries part
  steady : ∀ part ∈ parts, ∀ index,
    (part.2.keylogReadings index).Steady crypto.hexDecode hasPath keylog
  complete : ∀ position < d.bytes.length, Coverage.Covered (slices parts) position
  keepsGap : Machine.Throughout (Orchestrator.processFrame crypto vm) d.KeepsGap start
    (parts.map Prod.snd)

/-- What holds throughout a run holds before each of its frames. -/
theorem holds_of_throughout {holds : Orchestrator σ → FrameInput → Prop}
    {parts first rest : List (ℕ × FrameInput)} {part : ℕ × FrameInput}
    (h : Machine.Throughout (Orchestrator.processFrame crypto vm) holds start
      (parts.map Prod.snd)) (hsplit : parts = first ++ part :: rest) :
    holds (run crypto vm start first).1 part.2 := by
  rw [hsplit, List.map_append, Machine.throughout_append] at h
  exact h.2.1

/-- What a run from `start` has done: it decoded some records, and holds `rest`. -/
structure Delivered (d : Delivery) (start : Orchestrator σ) (decoded : Decoded) (rest : Bytes)
    (final : Orchestrator σ × List (PacketEvent × List DecodedMessage)) : Prop where
  messages : (final.2.flatMap Prod.snd).map (DecodedMessage.stamp 0) =
    decoded.messages.map (DecodedMessage.stamp 0)
  counters : final.1.shared.counters.apartFromEvictions =
    (start.shared.counters + decoded.counters).apartFromEvictions
  entry : ∃ conn, final.1.connections.lookup d.key = some conn ∧
    conn.decoder d.isClientToServer = decoded.decoder ∧
    (conn.reassemblerFor d.isClientToServer).contiguousBytes = rest

/-- Whatever way the byte string is carried, the records of its framing are decoded. -/
theorem Carriage.delivered (hpure : vm.IsPure dissector)
    (hsteady : start.Steady config hasPath keylog) (hbounded : start.Bounded)
    (hawaited : d.Awaited start) {parts : List (ℕ × FrameInput)}
    (h : Carriage crypto vm hasPath keylog d start parts)
    (htracked : Machine.Throughout (Orchestrator.processFrame crypto vm)
      (d.StaysTracked crypto vm) start (parts.map Prod.snd)) :
    d.Delivered start (d.decoded crypto dissector keylog config (recordFormat.parse d.bytes).1)
      (recordFormat.parse d.bytes).2 (run crypto vm start parts) := by
  have hstays : ∀ parts' : List (ℕ × FrameInput), (∃ rest, parts = parts' ++ rest) →
      ((run crypto vm start parts').1.connections.lookup d.key).isSome = true := by
    rintro parts' ⟨rest, hsplit⟩
    cases parts' using List.reverseRecOn with
    | nil =>
        rw [show run crypto vm start [] = (start, []) from rfl, hawaited.tracked]
        rfl
    | append_singleton parts' part =>
        rw [run_concat]
        exact holds_of_throughout htracked
          (show parts = parts' ++ part :: rest by rw [hsplit, List.append_assoc]; rfl)
  obtain ⟨units, conn, hreceiving⟩ := receiving_run hpure hsteady hbounded hawaited h.carries
    h.steady (fun first part rest hsplit => hstays first ⟨part :: rest, hsplit⟩)
    (fun first part rest units conn hsplit _ hfound _ =>
      holds_of_throughout h.keepsGap hsplit conn hfound)
  obtain ⟨other, hother⟩ := Option.isSome_iff_exists.mp
    (hstays parts ⟨[], (List.append_nil parts).symm⟩)
  rw [hreceiving.framing h.complete]
  refine ⟨hreceiving.messages, hreceiving.counters, conn, ?_, hreceiving.decoder, rfl⟩
  rw [← hreceiving.entry other hother]
  exact hother

/-- Two runs end alike, timestamps apart. -/
structure Agree (d : Delivery)
    (first second : Orchestrator σ × List (PacketEvent × List DecodedMessage)) : Prop where
  messages : (first.2.flatMap Prod.snd).map (DecodedMessage.stamp 0) =
    (second.2.flatMap Prod.snd).map (DecodedMessage.stamp 0)
  state : (first.1.connections.lookup d.key).map Connection.state =
    (second.1.connections.lookup d.key).map Connection.state
  tail : (first.1.connections.lookup d.key).map (Connection.tail · d.isClientToServer) =
    (second.1.connections.lookup d.key).map (Connection.tail · d.isClientToServer)
  tlsRecords : first.1.shared.counters.tlsRecords = second.1.shared.counters.tlsRecords

theorem Delivered.agree {decoded : Decoded} {rest : Bytes}
    {first second : Orchestrator σ × List (PacketEvent × List DecodedMessage)}
    (hfirst : d.Delivered start decoded rest first)
    (hsecond : d.Delivered start decoded rest second) : d.Agree first second := by
  obtain ⟨conn, hlookup, hdecoder, -⟩ := hfirst.entry
  obtain ⟨conn', hlookup', hdecoder', -⟩ := hsecond.entry
  have hsame := hdecoder.trans hdecoder'.symm
  refine ⟨hfirst.messages.trans hsecond.messages.symm, ?_, ?_, ?_⟩
  · rw [hlookup, hlookup']
    exact congrArg (fun decoder => some decoder.state) hsame
  · rw [hlookup, hlookup']
    exact congrArg (fun decoder => some decoder.tail) hsame
  · have hcounters := hfirst.counters.trans hsecond.counters.symm
    exact (congrArg Counters.tlsRecords hcounters : _)

/-- **Segmentation and order independence.**  Let the keylog be steady, the dissectors
compute a function, and a connection of some run await a byte string.  Carried in any
two ways in which the connection stays tracked, it yields the same messages, timestamps
apart, and leaves the same decrypt state, tail and counts of records.  These are what
decoding its framing by the record headers gives.  Draining ends by itself on every
stream. -/
theorem carried_alike (crypto : Crypto) {vm : LuaVm σ} {dissector : Dissector}
    (hpure : vm.IsPure dissector) (source : KeylogSource) (lua : σ) (config : OrchestratorConfig)
    (sweepNow gcNow : Instant) (before : List FrameInput)
    (hbefore : ∀ input ∈ before, ∀ index,
      (input.keylogReadings index).Steady crypto.hexDecode source.hasPath source.current)
    {start : Orchestrator σ}
    (hstart : start = (Machine.run (Orchestrator.processFrame crypto vm)
      (Orchestrator.new source lua config sweepNow gcNow) before).1)
    {d : Delivery} (hawaited : d.Awaited start) {first second : List (ℕ × FrameInput)}
    (hfirst : Carriage crypto vm source.hasPath source.current d start first)
    (hsecond : Carriage crypto vm source.hasPath source.current d start second)
    (htracked : ∀ parts, parts = first ∨ parts = second →
      Machine.Throughout (Orchestrator.processFrame crypto vm) (d.StaysTracked crypto vm) start
        (parts.map Prod.snd)) :
    d.Agree (run crypto vm start first) (run crypto vm start second) ∧
      d.Delivered start
        (d.decoded crypto dissector source.current config (recordFormat.parse d.bytes).1)
        (recordFormat.parse d.bytes).2 (run crypto vm start first) ∧
      ∀ (conn : Connection) (shared : Shared σ) (isClientToServer : Bool) (timestamp : Duration)
        (readings : ℕ → KeylogReadings), (conn.reassemblerFor isClientToServer).Sized →
        ((drainRecords crypto vm config conn shared isClientToServer timestamp
          readings).1.reassemblerFor isClientToServer).Drained := by
  have hsteady : start.Steady config source.hasPath source.current := by
    rw [hstart]
    exact (Orchestrator.steady_new source lua config sweepNow gcNow).run hpure hbefore
  have hbounded : start.Bounded := by
    rw [hstart]
    exact (Orchestrator.bounded_new source lua config sweepNow gcNow).run crypto vm before
  have hdelivered := hfirst.delivered hpure hsteady hbounded hawaited (htracked _ (.inl rfl))
  have hdelivered' := hsecond.delivered hpure hsteady hbounded hawaited (htracked _ (.inr rfl))
  refine ⟨hdelivered.agree hdelivered', hdelivered, ?_⟩
  intro conn shared isClientToServer timestamp readings hsized
  exact drainRecords_complete crypto vm config shared timestamp readings hsized

open Capture

/-- The program once the client's SYN has come. -/
def opened (config : OrchestratorConfig) : Orchestrator Unit :=
  (Machine.run (Orchestrator.processFrame RecordedSession.recording.crypto plainVm)
    (Orchestrator.new source () config 0 0) [segment client server 0 999 syn [] 0]).1

/-- What the client sends first. -/
def fromClient (config : OrchestratorConfig) (bytes : Bytes)
    (htracked : ((opened config).connections.lookup (connKey client server)).isSome = true) :
    Delivery :=
  ⟨connKey client server,
    ((opened config).connections.lookup (connKey client server)).get htracked, true, 1000, bytes⟩

/-- A slice of it in a segment. -/
def part (bytes : Bytes) (packetIndex offset length : ℕ) : ℕ × FrameInput :=
  (offset, segment client server packetIndex (1000 + UInt32.ofNat offset) ack
    (Tlscap.slice bytes offset length) 1)

/-- A ClientHello and a request. -/
def helloAndRequest : Bytes := hello ++ Capture.request

/-- Both in one segment. -/
def whole : List (ℕ × FrameInput) := [part helloAndRequest 1 0 71]

/-- Both in three segments that overlap, the first bytes second. -/
def reordered : List (ℕ × FrameInput) :=
  [part helloAndRequest 1 20 51, part helloAndRequest 2 0 30, part helloAndRequest 3 43 28]

theorem isTracked_opened :
    ((opened .default).connections.lookup (connKey client server)).isSome = true := by
  decide +kernel

/-- The request is decrypted either way. -/
theorem carried_alike_reordered :
    let decode := run RecordedSession.recording.crypto plainVm (opened .default)
    (fromClient .default helloAndRequest isTracked_opened).Agree (decode whole)
        (decode reordered) ∧
      ((decode whole).2.flatMap Prod.snd).map DecodedMessage.tlsAppData =
        [[0x47, 0x45, 0x54]] := by
  intro decode
  have hsteady : ∀ part ∈ whole ++ reordered, ∀ index,
      (part.2.keylogReadings index).Steady Recording.hexDecode source.hasPath
        source.current :=
    steady_of_noReadings rfl _ _ _
  have hawaited : (fromClient .default helloAndRequest isTracked_opened).Awaited
      (opened .default) :=
    ⟨(Option.some_get isTracked_opened).symm, by decide +kernel, by decide +kernel,
      by decide +kernel, by decide +kernel, by decide +kernel⟩
  have hwhole : Carriage RecordedSession.recording.crypto plainVm source.hasPath source.current
      (fromClient .default helloAndRequest isTracked_opened) (opened .default) whole :=
    ⟨by decide +kernel, fun part hpart => hsteady part (List.mem_append_left _ hpart),
      by decide +kernel, by decide +kernel⟩
  have hreordered : Carriage RecordedSession.recording.crypto plainVm source.hasPath
      source.current (fromClient .default helloAndRequest isTracked_opened) (opened .default)
      reordered :=
    ⟨by decide +kernel, fun part hpart => hsteady part (List.mem_append_right _ hpart),
      by decide +kernel, by decide +kernel⟩
  refine ⟨(carried_alike RecordedSession.recording.crypto plainVm_isPure source () .default 0 0
    [segment client server 0 999 syn [] 0] ?_ rfl hawaited hwhole hreordered ?_).1,
    by decide +kernel⟩
  · exact steady_of_noReadings rfl _ _ _
  · rintro parts (rfl | rfl)
    · decide +kernel
    · decide +kernel

/-- A configuration with an idle timeout of one second. -/
def idleConfig : OrchestratorConfig :=
  { OrchestratorConfig.default with idleTimeout := some (10 ^ 9) }

theorem isTracked_opened_idle :
    ((opened idleConfig).connections.lookup (connKey client server)).isSome = true := by
  decide +kernel

/-- A ChangeCipherSpec in one segment. -/
def record : List (ℕ × FrameInput) := [part changeCipherSpec 1 0 6]

/-- The same in two.  The first comes 100 seconds later and takes two to process. -/
def halves : List (ℕ × FrameInput) :=
  [(0, { (part changeCipherSpec 1 0 3).2 with
      clock := ⟨100 * 10 ^ 9, 100 * 10 ^ 9, 100 * 10 ^ 9, 102 * 10 ^ 9, 102 * 10 ^ 9, 102 * 10 ^ 9,
        102 * 10 ^ 9, 102 * 10 ^ 9⟩ }),
    part changeCipherSpec 2 3 3]

/-- The idle sweep of a call that takes longer than the timeout evicts the connection
between two halves of a record. -/
theorem idle_sweep_splits_record :
    ¬ ∀ (crypto : Crypto) (vm : LuaVm Unit) (dissector : Dissector) (source : KeylogSource)
      (config : OrchestratorConfig) (sweepNow gcNow : Instant) (before : List FrameInput)
      (d : Delivery) (first second : List (ℕ × FrameInput)), vm.IsPure dissector →
      (∀ input ∈ before, ∀ index,
        (input.keylogReadings index).Steady crypto.hexDecode source.hasPath source.current) →
      let start := (Machine.run (Orchestrator.processFrame crypto vm)
        (Orchestrator.new source () config sweepNow gcNow) before).1
      d.Awaited start → Carriage crypto vm source.hasPath source.current d start first →
      Carriage crypto vm source.hasPath source.current d start second →
      (∀ part ∈ first ++ second,
        decide (part.2.src = d.conn.clientEndpoint) = d.isClientToServer ∧
          part.2.frame.flags.fin = false ∧ part.2.frame.flags.rst = false) →
      d.Agree (run crypto vm start first) (run crypto vm start second) := by
  intro hclaim
  have hsteady : ∀ part ∈ record ++ halves, ∀ index,
      (part.2.keylogReadings index).Steady Recording.hexDecode source.hasPath
        source.current :=
    steady_of_noReadings rfl _ _ _
  have hawaited : (fromClient idleConfig changeCipherSpec isTracked_opened_idle).Awaited
      (opened idleConfig) :=
    ⟨(Option.some_get isTracked_opened_idle).symm, by decide +kernel, by decide +kernel,
      by decide +kernel, by decide +kernel, by decide +kernel⟩
  have hrecord : Carriage RecordedSession.recording.crypto plainVm source.hasPath source.current
      (fromClient idleConfig changeCipherSpec isTracked_opened_idle) (opened idleConfig) record :=
    ⟨by decide +kernel, fun part hpart => hsteady part (List.mem_append_left _ hpart),
      by decide +kernel, by decide +kernel⟩
  have hhalves : Carriage RecordedSession.recording.crypto plainVm source.hasPath source.current
      (fromClient idleConfig changeCipherSpec isTracked_opened_idle) (opened idleConfig) halves :=
    ⟨by decide +kernel, fun part hpart => hsteady part (List.mem_append_right _ hpart),
      by decide +kernel, by decide +kernel⟩
  have hagree := hclaim RecordedSession.recording.crypto plainVm plainDissector source idleConfig
    0 0 [segment client server 0 999 syn [] 0]
    (fromClient idleConfig changeCipherSpec isTracked_opened_idle) record halves plainVm_isPure
    (steady_of_noReadings rfl _ _ _)
    hawaited hrecord hhalves (by decide +kernel)
  have hcounts := hagree.tlsRecords
  revert hcounts
  decide +kernel

end Delivery

end Tlscap
