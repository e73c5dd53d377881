import Tlscap.Library.Run
import Tlscap.Orchestrator.Frame

/-!
# What one call does to the entries

An entry is found under the key of an endpoint pair, which names the pair whichever endpoint
comes first (`connKey_eq_iff`).  A call of `process_frame` stores or evicts the entry of its
own pair.  The entries of other pairs it can only sweep, and without an idle timeout it leaves
them as they are (`Orchestrator.lookup_processFrame_of_no_idle`).

The lemmas follow the call.  Only the flags of a frame touch the lifecycle of its connection
(`info_handleFrame`), and nothing changes who its client is.  What is stored is looked up
again (`lookup_store`), the sweep only removes entries (`lookup_maybeSweepIdle`), and the
garbage collection leaves them alone.  Each of these also says what it does to the
configuration, the keylog reader and the counters, so that the whole call is known field by
field.

From this come the two invariants used everywhere: the configuration never changes, and no
tracked connection is closed (`Orchestrator.Live.run`).
-/

namespace Tlscap

/-! ## Endpoint pairs -/

theorem IpAddr.rank_injective : Function.Injective IpAddr.rank := by
  intro a b hrank
  cases a with
  | v4 a =>
      cases b with
      | v4 b =>
          simp only [rank] at hrank
          rw [UInt32.toNat_inj.mp hrank]
      | v6 b =>
          have := a.toNat_lt
          simp only [rank] at hrank
          omega
  | v6 a =>
      cases b with
      | v4 b =>
          have := b.toNat_lt
          simp only [rank] at hrank
          omega
      | v6 b =>
          simp only [rank] at hrank
          rw [BitVec.eq_of_toNat_eq (Nat.add_left_cancel hrank)]

namespace Endpoint

theorem le_iff {a b : Endpoint} :
    a.le b = true ↔
      a.ip.rank < b.ip.rank ∨ a.ip.rank = b.ip.rank ∧ a.port.toNat ≤ b.port.toNat := by
  simp [le, UInt16.le_iff_toNat_le]

theorem le_or_le (a b : Endpoint) : a.le b = true ∨ b.le a = true := by
  rw [le_iff, le_iff]
  omega

theorem eq_of_le_of_le {a b : Endpoint} (hab : a.le b = true) (hba : b.le a = true) : a = b := by
  rw [le_iff] at hab hba
  have hip : a.ip = b.ip := IpAddr.rank_injective (by omega)
  have hport : a.port = b.port := UInt16.toNat_inj.mp (by omega)
  cases a
  cases b
  simp_all

end Endpoint

/-- A pair has one key, whichever endpoint is named first. -/
theorem connKey_comm (a b : Endpoint) : connKey a b = connKey b a := by
  unfold connKey
  split_ifs with hab hba hba
  · rw [Endpoint.eq_of_le_of_le hab hba]
  · rfl
  · rfl
  · exact absurd (Endpoint.le_or_le a b) (by simp [hab, hba])

/-- The key names the pair: its endpoints are these two. -/
theorem connKey_eq_or (a b : Endpoint) : connKey a b = ⟨a, b⟩ ∨ connKey a b = ⟨b, a⟩ := by
  unfold connKey
  split_ifs
  · exact .inl rfl
  · exact .inr rfl

/-- Different unordered pairs have different keys. -/
theorem connKey_eq_iff {a b c d : Endpoint} :
    connKey a b = connKey c d ↔ a = c ∧ b = d ∨ a = d ∧ b = c := by
  constructor
  · intro hkey
    rcases connKey_eq_or a b with hab | hab <;> rcases connKey_eq_or c d with hcd | hcd
    all_goals
      rw [hab, hcd, ConnKey.mk.injEq] at hkey
      tauto
  · rintro (⟨rfl, rfl⟩ | ⟨rfl, rfl⟩)
    · rfl
    · exact connKey_comm a b

/-- The frame goes from one of the two endpoints to the other. -/
def FrameInput.isBetween (input : FrameInput) (a b : Endpoint) : Bool :=
  decide (input.src = a ∧ input.dst = b ∨ input.src = b ∧ input.dst = a)

theorem FrameInput.isBetween_iff {input : FrameInput} {a b : Endpoint} :
    input.isBetween a b = true ↔ input.key = connKey a b := by
  rw [isBetween, decide_eq_true_iff, key, connKey_eq_iff]

/-! ## The lifecycle -/

section Frame

variable {σ : Type} (crypto : Crypto) (vm : LuaVm σ) (config : OrchestratorConfig)

/-- What the flags of a frame add to the lifecycle. -/
theorem info_noteFlags (conn : Connection) (isClientToServer : Bool) (input : FrameInput) :
    (noteFlags conn isClientToServer input).info =
      { finSeenC2s := conn.info.finSeenC2s || input.frame.flags.fin && isClientToServer
        finSeenS2c := conn.info.finSeenS2c || input.frame.flags.fin && !isClientToServer
        rstSeen := conn.info.rstSeen || input.frame.flags.rst
        lastActivity := some input.clock.activity } := by
  unfold noteFlags
  cases input.frame.flags.syn <;> cases input.frame.flags.fin <;>
    cases input.frame.flags.rst <;> cases isClientToServer <;> simp

theorem info_receivePayload (conn : Connection) (counters : Counters) (isClientToServer : Bool)
    (input : FrameInput) :
    (receivePayload config conn counters isClientToServer input).1.info = conn.info := by
  unfold receivePayload
  split
  · split
    · exact Connection.info_markDesynced conn isClientToServer _
    · exact Connection.info_setReassembler conn isClientToServer _
  · rfl

theorem info_drainRecords (conn : Connection) (shared : Shared σ) (isClientToServer : Bool)
    (timestamp : Duration) (readings : ℕ → KeylogReadings) :
    (drainRecords crypto vm config conn shared isClientToServer timestamp readings).1.info =
      conn.info := by
  apply drainLoop_induction crypto vm config (P := fun after _ => after.info = conn.info)
  · intro index before shared after hstep hinfo
    obtain ⟨_, _, _, _, hkept, _⟩ := drainStep_reassembler crypto vm config hstep
    exact hkept.trans hinfo
  · rfl

/-- The direction of a frame. -/
def direction (config : OrchestratorConfig) (found : Option Connection) (input : FrameInput) :
    Bool :=
  decide (input.src = (openConnection config found input).clientEndpoint)

/-- Only the flags of a frame touch the lifecycle. -/
theorem info_handleFrame (found : Option Connection) (shared : Shared σ) (input : FrameInput) :
    (handleFrame crypto vm config found shared input).1.info =
      (noteFlags (openConnection config found input) (direction config found input)
        input).info := by
  unfold handleFrame direction
  simp only
  rw [info_drainRecords, info_receivePayload]

/-- A frame leaves the client of its connection as it is. -/
theorem clientEndpoint_handleFrame (found : Option Connection) (shared : Shared σ)
    (input : FrameInput) :
    (handleFrame crypto vm config found shared input).1.clientEndpoint =
      (openConnection config found input).clientEndpoint := by
  have hdrain : ∀ (conn : Connection) (shared : Shared σ) (isClientToServer : Bool),
      (drainRecords crypto vm config conn shared isClientToServer input.timestamp
        input.keylogReadings).1.clientEndpoint = conn.clientEndpoint := by
    intro conn shared isClientToServer
    apply drainLoop_induction crypto vm config
      (P := fun after _ => after.clientEndpoint = conn.clientEndpoint)
    · intro index before shared after hstep hclient
      obtain ⟨_, _, _, _, _, hkept, _⟩ := drainStep_reassembler crypto vm config hstep
      exact hkept.trans hclient
    · rfl
  have hreceive : ∀ (conn : Connection) (counters : Counters) (isClientToServer : Bool),
      (receivePayload config conn counters isClientToServer input).1.clientEndpoint =
        conn.clientEndpoint := by
    intro conn counters isClientToServer
    unfold receivePayload
    split
    · split
      · exact Connection.clientEndpoint_markDesynced conn isClientToServer _
      · exact Connection.clientEndpoint_setReassembler conn isClientToServer _
    · rfl
  unfold handleFrame
  simp only
  rw [hdrain, hreceive]
  unfold noteFlags
  split
  · exact Connection.clientEndpoint_setReassembler _ _ _
  · rfl

/-- A frame without an entry starts with nothing seen. -/
theorem info_openConnection_none (input : FrameInput) :
    (openConnection config none input).info = {} := by
  unfold openConnection
  simp only
  split <;> rfl

/-- A frame without an entry closes its connection only by RST. -/
theorem isClosed_handleFrame_none (shared : Shared σ) (input : FrameInput) :
    (handleFrame crypto vm config none shared input).1.info.isClosed =
      input.frame.flags.rst := by
  rw [info_handleFrame, info_noteFlags, info_openConnection_none]
  unfold ConnectionMeta.isClosed
  cases input.frame.flags.fin <;> cases input.frame.flags.rst <;>
    cases direction config none input <;> rfl

end Frame

/-- The counters but for the evicted connections, which any frame may add to. -/
def Counters.apartFromEvictions (counters : Counters) : Counters :=
  { counters with evictedConnections := 0 }

/-- The counters of TLS records. -/
def Counters.tlsRecords (counters : Counters) : List ℕ :=
  [counters.tlsRecordsSeen, counters.tlsRecordsDecrypted, counters.tlsRecordsAuthfailed,
    counters.tlsRecordsNokey, counters.tlsRecordsNoClientHello,
    counters.tlsRecordsPlaintextHandshake]

/-! ## The entries -/

namespace Orchestrator

variable {σ : Type} {crypto : Crypto} {vm : LuaVm σ} {orchestrator : Orchestrator σ}

@[simp] theorem connections_maybeGcLua (vm : LuaVm σ) (orchestrator : Orchestrator σ)
    (clock : FrameClock) :
    (orchestrator.maybeGcLua vm clock).connections = orchestrator.connections := by
  unfold maybeGcLua
  split <;> rfl

@[simp] theorem config_maybeGcLua (vm : LuaVm σ) (orchestrator : Orchestrator σ)
    (clock : FrameClock) : (orchestrator.maybeGcLua vm clock).config = orchestrator.config := by
  unfold maybeGcLua
  split <;> rfl

@[simp] theorem keylog_maybeGcLua (vm : LuaVm σ) (orchestrator : Orchestrator σ)
    (clock : FrameClock) :
    (orchestrator.maybeGcLua vm clock).shared.keylog = orchestrator.shared.keylog := by
  unfold maybeGcLua
  split <;> rfl

@[simp] theorem config_maybeSweepIdle (orchestrator : Orchestrator σ) (clock : FrameClock) :
    (orchestrator.maybeSweepIdle clock).config = orchestrator.config := by
  unfold maybeSweepIdle
  split
  · rfl
  · split <;> rfl

@[simp] theorem keylog_maybeSweepIdle (orchestrator : Orchestrator σ) (clock : FrameClock) :
    (orchestrator.maybeSweepIdle clock).shared.keylog = orchestrator.shared.keylog := by
  unfold maybeSweepIdle
  split
  · rfl
  · split <;> rfl

@[simp] theorem config_store (orchestrator : Orchestrator σ) (key : ConnKey) (conn : Connection)
    (shared : Shared σ) : (orchestrator.store key conn shared).config = orchestrator.config := by
  unfold store
  split <;> rfl

@[simp] theorem keylog_store (orchestrator : Orchestrator σ) (key : ConnKey) (conn : Connection)
    (shared : Shared σ) :
    (orchestrator.store key conn shared).shared.keylog = shared.keylog := by
  unfold store
  split <;> rfl

/-- Sweeping only removes entries. -/
theorem lookup_maybeSweepIdle {clock : FrameClock} {key : ConnKey} {conn : Connection}
    (h : (orchestrator.maybeSweepIdle clock).connections.lookup key = some conn) :
    orchestrator.connections.lookup key = some conn := by
  unfold maybeSweepIdle at h
  split at h
  · exact h
  · split at h
    · exact h
    · rw [AList.lookup_retain] at h
      exact (Option.filter_eq_some_iff.mp h).1

/-- Without an idle timeout nothing is swept. -/
theorem maybeSweepIdle_of_no_idle (hidle : orchestrator.config.idleTimeout = none)
    (clock : FrameClock) : orchestrator.maybeSweepIdle clock = orchestrator := by
  unfold maybeSweepIdle
  rw [hidle]

/-- The entries once a frame's connection has been handled. -/
theorem lookup_store (orchestrator : Orchestrator σ) (key : ConnKey) (conn : Connection)
    (shared : Shared σ) (other : ConnKey) :
    (orchestrator.store key conn shared).connections.lookup other =
      if other = key then (if conn.info.isClosed then none else some conn)
      else orchestrator.connections.lookup other := by
  unfold store
  by_cases hother : other = key
  · subst hother
    rw [if_pos rfl]
    split
    · exact AList.lookup_erase other orchestrator.connections
    · exact AList.lookup_insert orchestrator.connections
  · rw [if_neg hother]
    split
    · exact AList.lookup_erase_ne hother
    · exact AList.lookup_insert_ne hother

/-- Processing frames keeps the configuration. -/
theorem config_processFrame (crypto : Crypto) (vm : LuaVm σ) (orchestrator : Orchestrator σ)
    (input : FrameInput) :
    (orchestrator.processFrame crypto vm input).1.config = orchestrator.config := by
  simp [processFrame]

/-- The keylog reader is left as the frame's records leave it. -/
theorem keylog_processFrame (crypto : Crypto) (vm : LuaVm σ) (orchestrator : Orchestrator σ)
    (input : FrameInput) :
    (orchestrator.processFrame crypto vm input).1.shared.keylog =
      (handleFrame crypto vm orchestrator.config (orchestrator.connections.lookup input.key)
        orchestrator.shared input).2.1.keylog := by
  simp [processFrame]

theorem counters_store (orchestrator : Orchestrator σ) (key : ConnKey) (conn : Connection)
    (shared : Shared σ) :
    (orchestrator.store key conn shared).shared.counters.apartFromEvictions =
      shared.counters.apartFromEvictions := by
  unfold store
  split <;> rfl

theorem counters_maybeSweepIdle (orchestrator : Orchestrator σ) (clock : FrameClock) :
    (orchestrator.maybeSweepIdle clock).shared.counters.apartFromEvictions =
      orchestrator.shared.counters.apartFromEvictions := by
  unfold maybeSweepIdle
  split
  · rfl
  · split <;> rfl

@[simp] theorem counters_maybeGcLua (vm : LuaVm σ) (orchestrator : Orchestrator σ)
    (clock : FrameClock) :
    (orchestrator.maybeGcLua vm clock).shared.counters = orchestrator.shared.counters := by
  unfold maybeGcLua
  split <;> rfl

/-- Apart from evictions, the counters are as the frame's records leave them. -/
theorem counters_processFrame (crypto : Crypto) (vm : LuaVm σ) (orchestrator : Orchestrator σ)
    (input : FrameInput) :
    (orchestrator.processFrame crypto vm input).1.shared.counters.apartFromEvictions =
      (handleFrame crypto vm orchestrator.config (orchestrator.connections.lookup input.key)
        orchestrator.shared input).2.1.counters.apartFromEvictions := by
  simp only [processFrame, counters_maybeGcLua]
  rw [counters_maybeSweepIdle, counters_store]

/-- What a call leaves tracked was tracked before, or is the frame's connection. -/
theorem lookup_processFrame {input : FrameInput} {key : ConnKey} {conn : Connection}
    (h : (orchestrator.processFrame crypto vm input).1.connections.lookup key = some conn) :
    orchestrator.connections.lookup key = some conn ∧ key ≠ input.key ∨
      key = input.key ∧ conn.info.isClosed = false ∧
        conn = (handleFrame crypto vm orchestrator.config
          (orchestrator.connections.lookup input.key) orchestrator.shared input).1 := by
  simp only [processFrame, connections_maybeGcLua] at h
  replace h := lookup_maybeSweepIdle h
  rw [lookup_store] at h
  split_ifs at h with hkey hclosed
  · have hconn := (Option.some.inj h).symm
    rw [Bool.not_eq_true, ← hconn] at hclosed
    exact .inr ⟨hkey, hclosed, hconn⟩
  · exact .inl ⟨h, hkey⟩

/-- No tracked connection is closed. -/
def Live (orchestrator : Orchestrator σ) : Prop :=
  ∀ key conn, orchestrator.connections.lookup key = some conn → conn.info.isClosed = false

theorem live_new (keylog : KeylogSource) (lua : σ) (config : OrchestratorConfig)
    (sweepNow gcNow : Instant) : (new keylog lua config sweepNow gcNow).Live := by
  intro key conn hlookup
  rw [show (new keylog lua config sweepNow gcNow).connections = ∅ from rfl,
    AList.lookup_empty] at hlookup
  cases hlookup

theorem Live.processFrame (h : orchestrator.Live) (input : FrameInput) :
    (orchestrator.processFrame crypto vm input).1.Live := by
  intro key conn hlookup
  rcases lookup_processFrame hlookup with ⟨hold, -⟩ | ⟨-, hopen, -⟩
  · exact h key conn hold
  · exact hopen

/-- Without an idle timeout, a call changes the entry of its own pair only. -/
theorem lookup_processFrame_of_no_idle (hidle : orchestrator.config.idleTimeout = none)
    (input : FrameInput) (key : ConnKey) :
    (orchestrator.processFrame crypto vm input).1.connections.lookup key =
      if key = input.key then
        let conn := (handleFrame crypto vm orchestrator.config
          (orchestrator.connections.lookup input.key) orchestrator.shared input).1
        if conn.info.isClosed then none else some conn
      else orchestrator.connections.lookup key := by
  simp only [processFrame, connections_maybeGcLua]
  rw [maybeSweepIdle_of_no_idle (by rw [config_store]; exact hidle), lookup_store]

/-! ## Runs -/

/-- A run keeps the configuration. -/
theorem config_run (crypto : Crypto) (vm : LuaVm σ) (orchestrator : Orchestrator σ)
    (inputs : List FrameInput) :
    (Machine.run (Orchestrator.processFrame crypto vm) orchestrator inputs).1.config =
      orchestrator.config := by
  apply Machine.run_preserves (P := fun o : Orchestrator σ => o.config = orchestrator.config)
  · exact fun o input hconfig => (config_processFrame crypto vm o input).trans hconfig
  · rfl

/-- After a run no tracked connection is closed. -/
theorem Live.run (crypto : Crypto) (vm : LuaVm σ) (h : orchestrator.Live)
    (inputs : List FrameInput) :
    (Machine.run (Orchestrator.processFrame crypto vm) orchestrator inputs).1.Live :=
  Machine.run_preserves (P := Live) (fun _ input hlive => hlive.processFrame input) h inputs

end Orchestrator

end Tlscap
