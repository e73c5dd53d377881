import Tlscap.Orchestrator.Delivery

/-!
# The opening of a connection

SYN and SYN-ACK of an endpoint pair that is not tracked make a connection in which both
directions are anchored and nothing has been received (`Opening.lookup`), so what either
endpoint sends next is awaited (`FollowsOpening.awaited`).

The two frames are followed field by field: neither has a payload, so each leaves its flags in
a connection that buffers nothing (`handleFrame_of_empty`).  The SYN opens the entry, which
makes its sender the client, and anchors that direction one past its number; the SYN-ACK finds
the entry and anchors the other one.
-/

namespace Tlscap

namespace Delivery

variable {σ : Type} {d : Delivery} {crypto : Crypto} {vm : LuaVm σ}

/-! ## SYN and SYN-ACK -/

/-- SYN and SYN-ACK of a connection that is not tracked. -/
structure Opening (state : Orchestrator σ) (syn synAck : FrameInput) : Prop where
  untracked : state.connections.lookup syn.key = none
  synSet : syn.frame.flags.syn = true ∧ synAck.frame.flags.syn = true
  ackSet : syn.frame.flags.ack = false ∧ synAck.frame.flags.ack = true
  finClear : syn.frame.flags.fin = false ∧ synAck.frame.flags.fin = false
  rstClear : syn.frame.flags.rst = false ∧ synAck.frame.flags.rst = false
  noPayload : syn.payload = [] ∧ synAck.payload = []
  answers : synAck.src = syn.dst ∧ synAck.dst = syn.src
  distinct : syn.src ≠ syn.dst

/-- The byte string is what a direction sends after SYN and SYN-ACK. -/
structure FollowsOpening (d : Delivery) (start : Orchestrator σ) (syn synAck : FrameInput) :
    Prop where
  key : d.key = syn.key
  tracked : start.connections.lookup d.key = some d.conn
  isn : d.isn = (if d.isClientToServer then syn else synAck).frame.seq + 1
  short : d.bytes.length < 2 ^ 32

/-- A frame without a payload leaves its flags only, where nothing is buffered. -/
theorem handleFrame_of_empty (crypto : Crypto) (vm : LuaVm σ) (config : OrchestratorConfig)
    {found : Option Connection} (shared : Shared σ) {input : FrameInput}
    (hpayload : input.payload = [])
    (hempty : ((noteFlags (openConnection config found input) (direction config found input)
      input).reassemblerFor (direction config found input)).contiguousLen = 0) :
    (handleFrame crypto vm config found shared input).1 =
      noteFlags (openConnection config found input) (direction config found input) input := by
  unfold direction at hempty ⊢
  unfold handleFrame receivePayload drainRecords
  rw [hpayload]
  simp only [List.isEmpty_nil, Bool.not_true, Bool.false_and, Bool.false_eq_true, if_false]
  rw [hempty]
  rfl

/-! ## The connection they open -/

/-- The connection that SYN and SYN-ACK open. -/
def openedConnection (config : OrchestratorConfig) (syn synAck : FrameInput) : Connection :=
  { Connection.new syn.src syn.dst config.pendingLimits with
    reassemblerC2s :=
      (StreamReassembler.withPendingLimits config.pendingLimits).setIsn (syn.frame.seq + 1)
    reassemblerS2c :=
      (StreamReassembler.withPendingLimits config.pendingLimits).setIsn (synAck.frame.seq + 1)
    info := { lastActivity := some synAck.clock.activity } }

theorem Opening.key_eq {state : Orchestrator σ} {syn synAck : FrameInput}
    (h : Opening state syn synAck) : synAck.key = syn.key := by
  unfold FrameInput.key
  rw [h.answers.1, h.answers.2, connKey_comm]

theorem Opening.lookup {state : Orchestrator σ} {syn synAck : FrameInput}
    (h : Opening state syn synAck) (hidle : state.config.idleTimeout = none) :
    (Machine.run (Orchestrator.processFrame crypto vm) state [syn, synAck]).1.connections.lookup
      syn.key = some (openedConnection state.config syn synAck) := by
  set config := state.config with hconfig
  set afterSyn : Connection :=
    { Connection.new syn.src syn.dst config.pendingLimits with
      reassemblerC2s :=
        (StreamReassembler.withPendingLimits config.pendingLimits).setIsn (syn.frame.seq + 1)
      info := { lastActivity := some syn.clock.activity } }
  -- the SYN: its sender is the client, and its number anchors the client
  have hdirection : direction config none syn = true := by
    unfold direction openConnection
    simp [h.synSet.1, h.ackSet.1]
  have hnoted : noteFlags (openConnection config none syn) (direction config none syn) syn =
      afterSyn := by
    rw [hdirection]
    unfold noteFlags openConnection
    rw [h.synSet.1, h.ackSet.1, h.finClear.1, h.rstClear.1]
    rfl
  have hfirst : (state.processFrame crypto vm syn).1.connections.lookup syn.key =
      some afterSyn := by
    rw [Orchestrator.lookup_processFrame_of_no_idle hidle, if_pos rfl, h.untracked,
      handleFrame_of_empty crypto vm state.config _ h.noPayload.1
        (by rw [hnoted, hdirection]; rfl), hnoted]
    rfl
  -- the SYN-ACK: it comes from the server, and its number anchors the server
  have hdirection' : direction config (some afterSyn) synAck = false := by
    unfold direction openConnection
    rw [h.answers.1]
    exact decide_eq_false h.distinct.symm
  have hnoted' : noteFlags (openConnection config (some afterSyn) synAck)
      (direction config (some afterSyn) synAck) synAck =
        openedConnection config syn synAck := by
    rw [hdirection']
    unfold noteFlags openConnection
    rw [h.synSet.2, h.finClear.2, h.rstClear.2]
    rfl
  have hconfig' : (state.processFrame crypto vm syn).1.config = config :=
    Orchestrator.config_processFrame crypto vm state syn
  change ((state.processFrame crypto vm syn).1.processFrame crypto vm synAck).1.connections.lookup
    syn.key = _
  rw [Orchestrator.lookup_processFrame_of_no_idle (by rw [hconfig']; exact hidle),
    if_pos h.key_eq.symm, h.key_eq, hfirst, hconfig',
    handleFrame_of_empty crypto vm config _ h.noPayload.2 (by rw [hnoted', hdirection']; rfl),
    hnoted']
  rfl

/-- After SYN and SYN-ACK, either direction is awaited. -/
theorem FollowsOpening.awaited {state start : Orchestrator σ} {syn synAck : FrameInput}
    (h : d.FollowsOpening start syn synAck) (hopening : Opening state syn synAck)
    (hidle : state.config.idleTimeout = none)
    (hstart : start = (Machine.run (Orchestrator.processFrame crypto vm) state [syn, synAck]).1) :
    d.Awaited start ∧ d.conn.info.finSeenC2s = false ∧ d.conn.info.finSeenS2c = false := by
  have hconn : d.conn = openedConnection state.config syn synAck := by
    have htracked := h.tracked
    rw [hstart, h.key, hopening.lookup hidle] at htracked
    exact (Option.some.inj htracked).symm
  have hbase : d.base = 0 := by
    unfold base
    rw [hconn]
    cases d.isClientToServer <;> rfl
  refine ⟨⟨h.tracked, ?_, ?_, ?_, ?_, ?_⟩, ?_, ?_⟩
  · rw [hconn, h.isn]
    cases d.isClientToServer <;> rfl
  · rw [hconn]
    cases d.isClientToServer <;> rfl
  · rw [hconn]
    cases d.isClientToServer <;> rfl
  · rw [hconn]
    cases d.isClientToServer <;> rfl
  · rw [hbase, Nat.zero_add]
    exact h.short
  · rw [hconn]
    rfl
  · rw [hconn]
    rfl

end Delivery

end Tlscap
