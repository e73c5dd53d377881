import Tlscap.Orchestrator.Entries

/-!
# Per-connection memory

Every frame leaves its connection with less than one record of contiguous bytes, with pending
data within the caps and with a tail within its cap, whatever the keylog, the dissectors and
the frames are (`memory_bounded`).  The direction of a frame is drained before the call
returns; the other direction is as the last call left it.

## Strategy

`Bounded` is the invariant between calls.  Within one call it does not hold: a frame that
closes a gap makes all that was buffered behind it contiguous at once, which may be many
records.  `Draining` is what is left of it there, with no bound on the contiguous bytes of
the frame's own direction.

* **The push** turns `Bounded` into `Draining` (`draining_receivePayload`).  The caps on
  pending data are those the reassembler keeps itself, and a direction that a gap was given
  up for is desynced and holds nothing (`Draining.markDesynced`).
* **The drain** keeps `Draining` from one iteration to the next (`draining_drainStep`), and
  stops only where no record is complete: with fewer than five bytes, or with fewer than
  those a header announces.  A length has sixteen bits, so this is `Bounded` again
  (`bounded_drainRecords`).
* **The rest** of a call opens, notes and evicts connections, and drops those that are idle;
  none of this makes a direction longer (`Bounded.processFrame`).

The bytes reported for all connections are then bounded by the number of these
(`Bounded.bufferedBytes_le`).
-/

namespace Tlscap

/-! ## The bounds -/

/-- One direction of a connection is within its bounds. -/
structure Connection.DirectionBounded (config : OrchestratorConfig) (conn : Connection)
    (isClientToServer : Bool) : Prop where
  invariant : (conn.reassemblerFor isClientToServer).Invariant
  limits : (conn.reassemblerFor isClientToServer).limits = config.pendingLimits
  drained : (conn.reassemblerFor isClientToServer).Drained
  tail : (conn.tail isClientToServer).length ≤ config.maxTailBytes

/-- Both directions are within their bounds. -/
def Connection.Bounded (config : OrchestratorConfig) (conn : Connection) : Prop :=
  ∀ isClientToServer, conn.DirectionBounded config isClientToServer

/-- The bounds but for the contiguous bytes of one direction: what holds between the
push of a frame and the end of the drain. -/
structure Connection.Draining (config : OrchestratorConfig) (isClientToServer : Bool)
    (conn : Connection) : Prop where
  other : ∀ other, other ≠ isClientToServer → conn.DirectionBounded config other
  invariant : (conn.reassemblerFor isClientToServer).Invariant
  limits : (conn.reassemblerFor isClientToServer).limits = config.pendingLimits
  tail : (conn.tail isClientToServer).length ≤ config.maxTailBytes

namespace Connection

theorem bounded_new (config : OrchestratorConfig) (clientEndpoint serverEndpoint : Endpoint) :
    (new clientEndpoint serverEndpoint config.pendingLimits).Bounded config := by
  intro isClientToServer
  have hinvariant := StreamReassembler.invariant_withPendingLimits config.pendingLimits
  have hdrained : (StreamReassembler.withPendingLimits config.pendingLimits).Drained := by
    left
    show 0 < 5
    omega
  cases isClientToServer <;> exact ⟨hinvariant, rfl, hdrained, Nat.zero_le _⟩

variable {config : OrchestratorConfig} {conn conn' : Connection} {isClientToServer : Bool}

theorem DirectionBounded.congr (h : conn.DirectionBounded config isClientToServer)
    (hreassembler : conn'.reassemblerFor isClientToServer = conn.reassemblerFor isClientToServer)
    (htail : (conn'.tail isClientToServer).length ≤ config.maxTailBytes) :
    conn'.DirectionBounded config isClientToServer := by
  refine ⟨?_, ?_, ?_, htail⟩
  · rw [hreassembler]
    exact h.invariant
  · rw [hreassembler]
    exact h.limits
  · rw [hreassembler]
    exact h.drained

theorem Bounded.draining (h : conn.Bounded config) (isClientToServer : Bool) :
    conn.Draining config isClientToServer :=
  ⟨fun other _ => h other, (h isClientToServer).invariant, (h isClientToServer).limits,
    (h isClientToServer).tail⟩

/-- Replacing the reassembler that is being filled. -/
theorem Draining.setReassembler (h : conn.Draining config isClientToServer)
    {r : StreamReassembler} (hinvariant : r.Invariant)
    (hlimits : r.limits = config.pendingLimits) :
    (conn.setReassembler isClientToServer r).Draining config isClientToServer := by
  refine ⟨?_, ?_, ?_, ?_⟩
  · intro other hother
    apply (h.other other hother).congr
    · rw [reassemblerFor_setReassembler, if_neg hother]
    · rw [tail_setReassembler]
      exact (h.other other hother).tail
  · rwa [reassemblerFor_setReassembler, if_pos rfl]
  · rwa [reassemblerFor_setReassembler, if_pos rfl]
  · rw [tail_setReassembler]
    exact h.tail

/-- A desynced direction holds nothing. -/
theorem Draining.markDesynced (h : conn.Draining config isClientToServer) :
    (conn.markDesynced isClientToServer config.pendingLimits).Draining config
      isClientToServer := by
  refine ⟨?_, ?_, ?_, ?_⟩
  · intro other hother
    apply (h.other other hother).congr
    · rw [reassemblerFor_markDesynced, if_neg hother]
    · rw [tail_markDesynced]
      exact (h.other other hother).tail
  · rw [reassemblerFor_markDesynced, if_pos rfl]
    exact StreamReassembler.invariant_withPendingLimits config.pendingLimits
  · rw [reassemblerFor_markDesynced, if_pos rfl]
    rfl
  · rw [tail_markDesynced]
    exact h.tail

end Connection

/-! ## One frame -/

section Frame

variable {σ : Type} {crypto : Crypto} {vm : LuaVm σ} {config : OrchestratorConfig}
  {conn : Connection} {isClientToServer : Bool}

theorem bounded_openConnection {found : Option Connection}
    (hfound : ∀ conn, found = some conn → conn.Bounded config) (input : FrameInput) :
    (openConnection config found input).Bounded config := by
  unfold openConnection
  cases found with
  | some conn => exact hfound conn rfl
  | none =>
      have hnew := Connection.bounded_new config input.src input.dst
      simp only
      split
      · exact hnew
      · exact hnew

theorem draining_noteFlags (h : conn.Bounded config) (isClientToServer : Bool)
    (input : FrameInput) :
    (noteFlags conn isClientToServer input).Draining config isClientToServer := by
  have hanchored : ∀ conn : Connection, conn.Draining config isClientToServer →
      ∀ info : ConnectionMeta, ({ conn with info } : Connection).Draining config
        isClientToServer := by
    intro conn hconn info
    exact ⟨fun other hother => ⟨(hconn.other other hother).invariant,
      (hconn.other other hother).limits, (hconn.other other hother).drained,
      (hconn.other other hother).tail⟩, hconn.invariant, hconn.limits, hconn.tail⟩
  unfold noteFlags
  apply hanchored
  split
  · have hdirection := h isClientToServer
    apply (h.draining isClientToServer).setReassembler
    · exact hdirection.invariant.setIsn _
    · rw [StreamReassembler.limits_setIsn]
      exact hdirection.limits
  · exact h.draining isClientToServer

theorem draining_receivePayload (h : conn.Draining config isClientToServer)
    (counters : Counters) (input : FrameInput) :
    (receivePayload config conn counters isClientToServer input).1.Draining config
      isClientToServer := by
  unfold receivePayload
  split
  · have hinvariant := h.invariant.push input.packetIndex input.frame.seq
      input.frame.payloadRange input.payload input.clock.gapOpened input.clock.gapChecked
    have hlimits := (conn.reassemblerFor isClientToServer).limits_push input.packetIndex
      input.frame.seq input.frame.payloadRange input.payload input.clock.gapOpened
      input.clock.gapChecked
    split
    · exact h.markDesynced
    · rename_i outcome r _ hpush
      rw [hpush] at hinvariant hlimits
      exact h.setReassembler hinvariant (hlimits.trans h.limits)
  · exact h

/-- One iteration of the drain loop. -/
theorem draining_drainStep {shared : Shared σ} {timestamp : Duration}
    {readings : KeylogReadings} {after : Connection × Shared σ × List DecodedMessage}
    (h : conn.Draining config isClientToServer)
    (hstep : drainStep crypto vm config conn shared isClientToServer timestamp readings =
      some after) : after.1.Draining config isClientToServer := by
  obtain ⟨record, pieces, htake, hother, -, -, -, -, htail⟩ :=
    drainStep_reassembler crypto vm config hstep
  have hframe := (h.invariant.toSized.takeBytes_cases htake).2.2
  refine ⟨?_, h.invariant.takeBytes htake, ?_, ?_⟩
  · intro other hne
    apply (h.other other hne).congr (hother other hne)
    rcases htail other with hkept | hcapped
    · rw [hkept]
      exact (h.other other hne).tail
    · exact hcapped
  · rw [hframe]
    exact h.limits
  · rcases htail isClientToServer with hkept | hcapped
    · rw [hkept]
      exact h.tail
    · exact hcapped

/-- Draining ends with less than one record. -/
theorem bounded_drainRecords (h : conn.Draining config isClientToServer) (shared : Shared σ)
    (timestamp : Duration) (readings : ℕ → KeylogReadings) :
    (drainRecords crypto vm config conn shared isClientToServer timestamp
      readings).1.Bounded config := by
  have hdrained : (drainRecords crypto vm config conn shared isClientToServer timestamp
      readings).1.Draining config isClientToServer :=
    drainLoop_induction crypto vm config
      (P := fun conn _ => conn.Draining config isClientToServer)
      (fun _ _ _ _ hstep hconn => draining_drainStep hconn hstep) _ 0 h
  have hcomplete := drainRecords_complete crypto vm config shared timestamp readings
    h.invariant.toSized
  intro other
  by_cases hother : other = isClientToServer
  · subst hother
    exact ⟨hdrained.invariant, hdrained.limits, hcomplete, hdrained.tail⟩
  · exact hdrained.other other hother

/-- **One frame.**  It leaves its connection within the bounds. -/
theorem bounded_handleFrame {found : Option Connection}
    (hfound : ∀ conn, found = some conn → conn.Bounded config) (shared : Shared σ)
    (input : FrameInput) :
    (handleFrame crypto vm config found shared input).1.Bounded config := by
  unfold handleFrame
  apply bounded_drainRecords
  apply draining_receivePayload
  apply draining_noteFlags
  exact bounded_openConnection hfound input

end Frame

/-! ## Runs -/

namespace Orchestrator

variable {σ : Type} {crypto : Crypto} {vm : LuaVm σ} {orchestrator : Orchestrator σ}

/-- Every tracked connection is within its bounds. -/
def Bounded (orchestrator : Orchestrator σ) : Prop :=
  ∀ key conn, orchestrator.connections.lookup key = some conn →
    conn.Bounded orchestrator.config

theorem bounded_new (keylog : KeylogSource) (lua : σ) (config : OrchestratorConfig)
    (sweepNow gcNow : Instant) : (new keylog lua config sweepNow gcNow).Bounded := by
  intro key conn hlookup
  rw [show (new keylog lua config sweepNow gcNow).connections = ∅ from rfl,
    AList.lookup_empty] at hlookup
  cases hlookup

theorem Bounded.processFrame (h : orchestrator.Bounded) (input : FrameInput) :
    (orchestrator.processFrame crypto vm input).1.Bounded := by
  intro key conn hlookup
  rw [config_processFrame]
  rcases lookup_processFrame hlookup with ⟨hold, -⟩ | ⟨-, -, rfl⟩
  · exact h key conn hold
  · exact bounded_handleFrame (fun found hfound => h _ found hfound) _ input

theorem connectionBytes_le {config : OrchestratorConfig} {conn : Connection}
    (h : conn.Bounded config) :
    connectionBytes conn ≤ 2 * (65539 + config.maxPendingBytes) := by
  have hdirection : ∀ isClientToServer,
      (conn.reassemblerFor isClientToServer).contiguousLen ≤ 65539 ∧
        (conn.reassemblerFor isClientToServer).pendingLen ≤ config.maxPendingBytes := by
    intro isClientToServer
    have hbounded := h isClientToServer
    have hwithin := hbounded.invariant.within.1
    rw [hbounded.limits] at hwithin
    exact ⟨Nat.lt_succ_iff.mp hbounded.drained.contiguousLen_lt, hwithin⟩
  have hc2s := hdirection true
  have hs2c := hdirection false
  simp only [Connection.reassemblerFor, if_true, Bool.false_eq_true, if_false] at hc2s hs2c
  unfold connectionBytes
  omega

/-- The bytes of all connections are bounded by their number. -/
theorem Bounded.bufferedBytes_le (h : orchestrator.Bounded) :
    orchestrator.bufferedBytes ≤
      orchestrator.activeConnections * (2 * (65539 + orchestrator.config.maxPendingBytes)) := by
  unfold bufferedBytes activeConnections
  rw [← List.length_map (fun entry => connectionBytes entry.2)]
  apply List.sum_le_card_nsmul
  intro bytes hbytes
  obtain ⟨entry, hentry, rfl⟩ := List.mem_map.mp hbytes
  exact connectionBytes_le (h entry.1 entry.2 (AList.mem_lookup_iff.mpr hentry))

/-- A run keeps the bounds. -/
theorem Bounded.run (crypto : Crypto) (vm : LuaVm σ) (h : orchestrator.Bounded)
    (inputs : List FrameInput) :
    (Machine.run (Orchestrator.processFrame crypto vm) orchestrator inputs).1.Bounded :=
  Machine.run_preserves (P := Bounded) (fun _ input hbounded => hbounded.processFrame input) h
    inputs

/-- **Per-connection memory is bounded.**  After every run of frames, with any
keylog, dissectors and configuration, each direction of each tracked connection has
less than one record of contiguous bytes, pending data within the caps and a tail
within its cap; so all reassemblers together hold at most a fixed number of bytes
for each connection. -/
theorem memory_bounded (crypto : Crypto) (vm : LuaVm σ) (keylog : KeylogSource) (lua : σ)
    (config : OrchestratorConfig) (sweepNow gcNow : Instant) (inputs : List FrameInput) :
    let orchestrator := (Machine.run (processFrame crypto vm)
      (new keylog lua config sweepNow gcNow) inputs).1
    (∀ key conn, orchestrator.connections.lookup key = some conn → ∀ isClientToServer,
        (conn.reassemblerFor isClientToServer).contiguousLen < 5 + 65535 ∧
          (conn.reassemblerFor isClientToServer).pendingLen ≤ config.maxPendingBytes ∧
          (conn.reassemblerFor isClientToServer).pending.length ≤ config.maxPendingPackets ∧
          (conn.tail isClientToServer).length ≤ config.maxTailBytes) ∧
      orchestrator.bufferedBytes ≤
        orchestrator.activeConnections * 2 * (65539 + config.maxPendingBytes) := by
  have hconfig := config_run crypto vm (new keylog lua config sweepNow gcNow) inputs
  have hbounded := (bounded_new keylog lua config sweepNow gcNow).run crypto vm inputs
  refine ⟨?_, ?_⟩
  · intro key conn hlookup isClientToServer
    have hdirection := hbounded key conn hlookup isClientToServer
    rw [hconfig] at hdirection
    obtain ⟨hbytes, hpackets⟩ := hdirection.invariant.within
    rw [hdirection.limits] at hbytes hpackets
    exact ⟨hdirection.drained.contiguousLen_lt, hbytes, hpackets, hdirection.tail⟩
  · have htotal := hbounded.bufferedBytes_le
    rwa [hconfig, ← Nat.mul_assoc] at htotal

end Orchestrator

end Tlscap
