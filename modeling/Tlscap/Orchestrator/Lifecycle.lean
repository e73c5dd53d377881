import Tlscap.Orchestrator.Close
import Tlscap.Orchestrator.Drain

/-!
# The lifecycle does not show

Which FINs a connection has seen decides when its entry goes, and nothing else: the streams,
the decryption and the messages of a frame are the same whatever the lifecycle is
(`handleFrame_withInfo`).  So a half-closed connection goes on as if no FIN had been seen
(`run_unfinished`).

## Strategy

The first is one lemma for each function on the way of a frame, from the fields of a connection
to `handleFrame`: with another lifecycle it does the same, but for the lifecycle (`relabel`).

The second compares two runs whose states differ in the lifecycle of one entry, which has fewer
marks in the one than in the other (`SameButMarks`).

* **A frame of the pair** sets the same marks in both.  If the entry with more marks is still
  open behind it, so is the other (`Within.isClosed`), and both are stored.
* **A frame of another pair** meets the same entry in both runs, and closes it in both or in
  neither.
* **As long as the pair is tracked** where it has more marks, the relation is kept
  (`SameButMarks.run`).
-/

namespace Tlscap

namespace Connection

variable (conn : Connection) (info : ConnectionMeta) (isClientToServer : Bool)

@[simp] theorem reassemblerFor_withInfo :
    (conn.withInfo info).reassemblerFor isClientToServer =
      conn.reassemblerFor isClientToServer := by
  cases isClientToServer <;> rfl

@[simp] theorem isDesynced_withInfo :
    (conn.withInfo info).isDesynced isClientToServer = conn.isDesynced isClientToServer := by
  cases isClientToServer <;> rfl

@[simp] theorem tail_withInfo :
    (conn.withInfo info).tail isClientToServer = conn.tail isClientToServer := by
  cases isClientToServer <;> rfl

@[simp] theorem endpoints_withInfo :
    (conn.withInfo info).endpoints isClientToServer = conn.endpoints isClientToServer := by
  cases isClientToServer <;> rfl

@[simp] theorem setReassembler_withInfo (r : StreamReassembler) :
    (conn.withInfo info).setReassembler isClientToServer r =
      (conn.setReassembler isClientToServer r).withInfo info := by
  cases isClientToServer <;> rfl

@[simp] theorem setTail_withInfo (bytes : Bytes) :
    (conn.withInfo info).setTail isClientToServer bytes =
      (conn.setTail isClientToServer bytes).withInfo info := by
  cases isClientToServer <;> rfl

@[simp] theorem markDesynced_withInfo (limits : PendingLimits) :
    (conn.withInfo info).markDesynced isClientToServer limits =
      (conn.markDesynced isClientToServer limits).withInfo info := by
  cases isClientToServer <;> rfl

end Connection

/-! ## A frame under another lifecycle -/

/-- The result of a step, with another lifecycle on its connection. -/
def relabel {α : Type} (info : ConnectionMeta) (result : Connection × α) : Connection × α :=
  (result.1.withInfo info, result.2)

section Frame

variable {σ : Type} (crypto : Crypto) (vm : LuaVm σ) (config : OrchestratorConfig)
  (conn : Connection) (info : ConnectionMeta) (shared : Shared σ) (isClientToServer : Bool)

theorem setTailCapped_withInfo (counters : Counters) (bytes : Bytes) :
    setTailCapped config (conn.withInfo info) counters isClientToServer bytes =
      relabel info (setTailCapped config conn counters isClientToServer bytes) := by
  unfold setTailCapped
  split_ifs <;> simp [relabel]

theorem dissectAndEmit_withInfo (plaintext : Bytes) (timestamp : Duration) :
    dissectAndEmit vm config (conn.withInfo info) shared isClientToServer plaintext timestamp =
      relabel info (dissectAndEmit vm config conn shared isClientToServer plaintext timestamp) := by
  have hserver : (conn.withInfo info).serverEndpoint = conn.serverEndpoint := rfl
  unfold dissectAndEmit
  simp only [Connection.tail_withInfo, Connection.setTail_withInfo,
    Connection.endpoints_withInfo, setTailCapped_withInfo]
  rw [show ((conn.setTail isClientToServer []).withInfo info).serverEndpoint =
    (conn.setTail isClientToServer []).serverEndpoint from rfl]
  split <;> rfl

theorem learnHello_withInfo (body : Bytes) :
    learnHello (conn.withInfo info) isClientToServer body =
      (learnHello conn isClientToServer body).map (·.withInfo info) := by
  have hstate : (conn.withInfo info).state = conn.state := rfl
  unfold learnHello
  rw [hstate]
  cases isClientToServer with
  | true =>
      simp only [if_true]
      split <;> rfl
  | false =>
      simp only [Bool.false_eq_true, if_false]
      split
      · split <;> rfl
      · rfl

theorem processRecord_withInfo (outerContentType : UInt8) (body : Bytes) (timestamp : Duration)
    (readings : KeylogReadings) :
    processRecord crypto vm config (conn.withInfo info) shared isClientToServer outerContentType
        body timestamp readings =
      relabel info (processRecord crypto vm config conn shared isClientToServer outerContentType
        body timestamp readings) := by
  have hstate : (conn.withInfo info).state = conn.state := rfl
  unfold processRecord
  simp only [learnHello_withInfo, hstate]
  split_ifs with hspec
  · rfl
  · cases learnHello conn isClientToServer body with
    | some learned => rfl
    | none =>
        cases conn.state with
        | none => rfl
        | some state =>
            simp only [Option.map_none]
            have hconn : ∀ state, ({ conn.withInfo info with state := some state } : Connection) =
                ({ conn with state := some state } : Connection).withInfo info := fun _ => rfl
            generalize attemptDecrypt crypto shared.keylog state readings isClientToServer
              outerContentType body = attempt
            obtain ⟨keylog, state, result⟩ := attempt
            simp only [hconn]
            split
            · split_ifs
              · rw [dissectAndEmit_withInfo]
                rfl
              · rfl
            · rfl
            · rfl

theorem drainStep_withInfo (timestamp : Duration) (readings : KeylogReadings) :
    drainStep crypto vm config (conn.withInfo info) shared isClientToServer timestamp readings =
      (drainStep crypto vm config conn shared isClientToServer timestamp readings).map
        (relabel info) := by
  unfold drainStep
  simp only [Connection.reassemblerFor_withInfo, Connection.setReassembler_withInfo]
  split_ifs
  · rfl
  · rfl
  · split
    · rfl
    · rw [processRecord_withInfo]
      rfl

theorem drainLoop_withInfo (timestamp : Duration) (readings : ℕ → KeylogReadings)
    (fuel index : ℕ) :
    drainLoop crypto vm config isClientToServer timestamp readings fuel index
        (conn.withInfo info) shared =
      relabel info (drainLoop crypto vm config isClientToServer timestamp readings fuel index conn
        shared) := by
  induction fuel generalizing index conn shared with
  | zero => rfl
  | succ fuel ih =>
      unfold drainLoop
      rw [drainStep_withInfo]
      cases drainStep crypto vm config conn shared isClientToServer timestamp (readings index) with
      | none => rfl
      | some result =>
          obtain ⟨next, shared, messages⟩ := result
          simp only [Option.map_some, relabel]
          have hlater := ih next shared (index + 1)
          rw [hlater]
          rfl

theorem receivePayload_withInfo (counters : Counters) (input : FrameInput) :
    receivePayload config (conn.withInfo info) counters isClientToServer input =
      relabel info (receivePayload config conn counters isClientToServer input) := by
  unfold receivePayload
  simp only [Connection.isDesynced_withInfo, Connection.reassemblerFor_withInfo,
    Connection.setReassembler_withInfo, Connection.markDesynced_withInfo]
  split
  · split <;> rfl
  · rfl

theorem noteFlags_withInfo (input : FrameInput) :
    ∃ noted, noteFlags (conn.withInfo info) isClientToServer input =
      (noteFlags conn isClientToServer input).withInfo noted := by
  unfold noteFlags
  rw [Connection.reassemblerFor_withInfo, Connection.setReassembler_withInfo]
  split <;> exact ⟨_, rfl⟩

/-- **A frame of a connection with another lifecycle** does the same, but for the
lifecycle. -/
theorem handleFrame_withInfo (input : FrameInput) :
    handleFrame crypto vm config (some (conn.withInfo info)) shared input =
      relabel (handleFrame crypto vm config (some (conn.withInfo info)) shared input).1.info
        (handleFrame crypto vm config (some conn) shared input) := by
  obtain ⟨noted, hnoted⟩ := noteFlags_withInfo conn info
    (decide (input.src = conn.clientEndpoint)) input
  have hclient : (conn.withInfo info).clientEndpoint = conn.clientEndpoint := rfl
  have hframe : handleFrame crypto vm config (some (conn.withInfo info)) shared input =
      relabel noted (handleFrame crypto vm config (some conn) shared input) := by
    unfold handleFrame openConnection
    simp only [hclient, hnoted, receivePayload_withInfo, relabel]
    unfold drainRecords
    rw [Connection.reassemblerFor_withInfo, drainLoop_withInfo]
    rfl
  rw [hframe]
  rfl

end Frame

/-! ## Two runs that differ in a lifecycle -/

/-- Every mark of the first lifecycle is one of the second. -/
structure ConnectionMeta.Within (info other : ConnectionMeta) : Prop where
  finSeenC2s : info.finSeenC2s = true → other.finSeenC2s = true
  finSeenS2c : info.finSeenS2c = true → other.finSeenS2c = true
  rstSeen : info.rstSeen = true → other.rstSeen = true

/-- The lifecycle in which no FIN has been seen. -/
def ConnectionMeta.unfinished (info : ConnectionMeta) : ConnectionMeta :=
  { info with finSeenC2s := false, finSeenS2c := false }

theorem ConnectionMeta.Within.isClosed {info other : ConnectionMeta} (h : info.Within other)
    (hopen : other.isClosed = false) : info.isClosed = false := by
  cases hinfo : info.isClosed with
  | false => rfl
  | true =>
      have hother : other.isClosed = true := by
        unfold ConnectionMeta.isClosed at hinfo ⊢
        rw [Bool.or_eq_true, Bool.and_eq_true] at hinfo ⊢
        exact hinfo.imp h.rstSeen fun ⟨hc2s, hs2c⟩ => ⟨h.finSeenC2s hc2s, h.finSeenS2c hs2c⟩
      exact absurd (hopen.symm.trans hother) Bool.false_ne_true

/-- The flags of a frame are marked in both. -/
theorem ConnectionMeta.Within.noteFlags {conn : Connection} {info : ConnectionMeta}
    (h : info.Within conn.info) (isClientToServer : Bool) (input : FrameInput) :
    (Tlscap.noteFlags (conn.withInfo info) isClientToServer input).info.Within
      (Tlscap.noteFlags conn isClientToServer input).info := by
  rw [info_noteFlags, info_noteFlags]
  refine ⟨?_, ?_, ?_⟩
  · simp only [Bool.or_eq_true]
    exact Or.imp_left h.finSeenC2s
  · simp only [Bool.or_eq_true]
    exact Or.imp_left h.finSeenS2c
  · simp only [Bool.or_eq_true]
    exact Or.imp_left h.rstSeen

namespace Orchestrator

variable {σ : Type} {crypto : Crypto} {vm : LuaVm σ} {key : ConnKey}
  {orchestrator other : Orchestrator σ}

/-- The states differ in the lifecycle of one entry, which has fewer marks in the second. -/
structure SameButMarks (key : ConnKey) (orchestrator other : Orchestrator σ) : Prop where
  config : other.config = orchestrator.config
  shared : other.shared = orchestrator.shared
  lastLuaGc : other.lastLuaGc = orchestrator.lastLuaGc
  apart : ∀ elsewhere, elsewhere ≠ key →
    other.connections.lookup elsewhere = orchestrator.connections.lookup elsewhere
  entry : ∃ conn info, orchestrator.connections.lookup key = some conn ∧
    other.connections.lookup key = some (conn.withInfo info) ∧ info.Within conn.info

/-- The next frame does the same in both, but for the lifecycle. -/
theorem SameButMarks.handleFrame (h : SameButMarks key orchestrator other)
    (crypto : Crypto) (vm : LuaVm σ) (input : FrameInput) :
    ∃ info, Tlscap.handleFrame crypto vm other.config (other.connections.lookup input.key)
        other.shared input =
          relabel info (Tlscap.handleFrame crypto vm orchestrator.config
            (orchestrator.connections.lookup input.key) orchestrator.shared input) ∧
      info.Within (Tlscap.handleFrame crypto vm orchestrator.config
        (orchestrator.connections.lookup input.key) orchestrator.shared input).1.info := by
  rw [h.config, h.shared]
  by_cases hkey : input.key = key
  · subst hkey
    obtain ⟨conn, info, hconn, hother, hwithin⟩ := h.entry
    rw [hconn, hother]
    refine ⟨_, handleFrame_withInfo crypto vm orchestrator.config conn info orchestrator.shared
      input, ?_⟩
    rw [info_handleFrame, info_handleFrame]
    exact hwithin.noteFlags _ input
  · rw [h.apart input.key hkey]
    exact ⟨_, rfl, id, id, id⟩

/-- The next frame shows the same in both. -/
theorem SameButMarks.outputs (h : SameButMarks key orchestrator other) (input : FrameInput) :
    (other.processFrame crypto vm input).2 = (orchestrator.processFrame crypto vm input).2 := by
  obtain ⟨info, hhandled, -⟩ := h.handleFrame crypto vm input
  have hmessages := congrArg (fun handled => (packetEvent input, handled.2.2)) hhandled
  exact hmessages

theorem maybeGcLua_congr (hshared : other.shared = orchestrator.shared)
    (hgc : other.lastLuaGc = orchestrator.lastLuaGc)
    (hconfig : other.config = orchestrator.config) (clock : FrameClock) :
    (other.maybeGcLua vm clock).shared = (orchestrator.maybeGcLua vm clock).shared ∧
      (other.maybeGcLua vm clock).lastLuaGc =
        (orchestrator.maybeGcLua vm clock).lastLuaGc := by
  unfold maybeGcLua
  rw [hshared, hgc, hconfig]
  split
  · exact ⟨hshared, hgc⟩
  · exact ⟨rfl, rfl⟩

theorem store_shared (orchestrator : Orchestrator σ) (elsewhere : ConnKey) (conn : Connection)
    (shared : Shared σ) :
    (orchestrator.store elsewhere conn shared).shared =
        (if conn.info.isClosed then
          { shared with
            counters :=
              { shared.counters with
                evictedConnections := shared.counters.evictedConnections + 1 } }
        else shared) ∧
      (orchestrator.store elsewhere conn shared).lastLuaGc = orchestrator.lastLuaGc := by
  unfold store
  split <;> exact ⟨rfl, rfl⟩

theorem processFrame_of_no_idle (hidle : orchestrator.config.idleTimeout = none)
    (input : FrameInput) :
    (orchestrator.processFrame crypto vm input).1 =
      (orchestrator.store input.key
        (Tlscap.handleFrame crypto vm orchestrator.config
          (orchestrator.connections.lookup input.key) orchestrator.shared input).1
        (Tlscap.handleFrame crypto vm orchestrator.config
          (orchestrator.connections.lookup input.key) orchestrator.shared
          input).2.1).maybeGcLua vm input.clock := by
  have hstored : ∀ conn shared, (orchestrator.store input.key conn shared).maybeSweepIdle
      input.clock = orchestrator.store input.key conn shared := by
    intro conn shared
    apply maybeSweepIdle_of_no_idle
    rw [config_store]
    exact hidle
  simp only [Orchestrator.processFrame, hstored]

/-- Storing a connection that is closed or open in both leaves the same shared state. -/
theorem shared_processFrame_alike (hidle : orchestrator.config.idleTimeout = none)
    (hconfig : other.config = orchestrator.config)
    (hgc : other.lastLuaGc = orchestrator.lastLuaGc) {input : FrameInput}
    {handled : Connection × Shared σ × List DecodedMessage} {info : ConnectionMeta}
    (hhandled : Tlscap.handleFrame crypto vm orchestrator.config
      (orchestrator.connections.lookup input.key) orchestrator.shared input = handled)
    (hhandled' : Tlscap.handleFrame crypto vm other.config (other.connections.lookup input.key)
      other.shared input = relabel info handled)
    (hclosed : info.isClosed = handled.1.info.isClosed) :
    (other.processFrame crypto vm input).1.shared =
        (orchestrator.processFrame crypto vm input).1.shared ∧
      (other.processFrame crypto vm input).1.lastLuaGc =
        (orchestrator.processFrame crypto vm input).1.lastLuaGc := by
  have hidle' : other.config.idleTimeout = none := by
    rw [hconfig]
    exact hidle
  obtain ⟨hshared, hlast⟩ :=
    store_shared orchestrator input.key handled.1 handled.2.1
  obtain ⟨hshared', hlast'⟩ :=
    store_shared other input.key (handled.1.withInfo info) handled.2.1
  rw [processFrame_of_no_idle hidle, processFrame_of_no_idle hidle', hhandled, hhandled']
  apply maybeGcLua_congr
  · rw [hshared]
    refine hshared'.trans ?_
    rw [show (handled.1.withInfo info).info.isClosed = handled.1.info.isClosed from hclosed]
  · exact hlast'.trans (hgc.trans hlast.symm)
  · rw [config_store, config_store, hconfig]

/-- If the pair stays tracked, the states still differ in its lifecycle only. -/
theorem SameButMarks.processFrame (h : SameButMarks key orchestrator other)
    (hidle : orchestrator.config.idleTimeout = none) {input : FrameInput} {last : Connection}
    (hlast : (orchestrator.processFrame crypto vm input).1.connections.lookup key =
      some last) :
    SameButMarks key (orchestrator.processFrame crypto vm input).1
      (other.processFrame crypto vm input).1 := by
  have hidle' : other.config.idleTimeout = none := by
    rw [h.config]
    exact hidle
  have hconfig : (other.processFrame crypto vm input).1.config =
      (orchestrator.processFrame crypto vm input).1.config := by
    rw [config_processFrame, config_processFrame, h.config]
  by_cases hkey : input.key = key
  · subst hkey
    -- the frame finds and leaves the same but for the marks, which decide only about the close
    obtain ⟨info, hhandled, hwithin⟩ := h.handleFrame crypto vm input
    rcases lookup_processFrame hlast with ⟨-, hother⟩ | ⟨-, hopen, hconn⟩
    · exact absurd rfl hother
    rw [hconn] at hopen
    have hopen' := hwithin.isClosed hopen
    obtain ⟨hshared, hgc⟩ := shared_processFrame_alike hidle h.config h.lastLuaGc rfl hhandled
      (hopen'.trans hopen.symm)
    refine ⟨hconfig, hshared, hgc, fun elsewhere hne => ?_, last, info, hlast, ?_, ?_⟩
    · rw [lookup_processFrame_of_ne hidle' hne, lookup_processFrame_of_ne hidle hne]
      exact h.apart elsewhere hne
    · rw [lookup_processFrame_of_no_idle hidle', if_pos rfl, hhandled, hconn]
      exact if_neg (by rw [show (relabel info _).1.info = info from rfl, hopen']
                       exact Bool.false_ne_true)
    · rw [hconn]
      exact hwithin
  · -- the same entry in both
    have hfound := h.apart input.key hkey
    have hhandled : Tlscap.handleFrame crypto vm other.config
        (other.connections.lookup input.key) other.shared input =
          Tlscap.handleFrame crypto vm orchestrator.config
            (orchestrator.connections.lookup input.key) orchestrator.shared input := by
      rw [h.config, h.shared, hfound]
    obtain ⟨hshared, hgc⟩ := shared_processFrame_alike hidle h.config h.lastLuaGc rfl hhandled rfl
    refine ⟨hconfig, hshared, hgc, fun elsewhere hne => ?_, ?_⟩
    · rw [lookup_processFrame_of_no_idle hidle', lookup_processFrame_of_no_idle hidle, hhandled,
        h.apart elsewhere hne]
    · rw [lookup_processFrame_of_ne hidle' (Ne.symm hkey),
        lookup_processFrame_of_ne hidle (Ne.symm hkey)]
      exact h.entry

/-- The pair is tracked before every frame of a run. -/
def TrackedThroughout (crypto : Crypto) (vm : LuaVm σ) (key : ConnKey)
    (start : Orchestrator σ) (inputs : List FrameInput) : Prop :=
  Machine.Throughout (Orchestrator.processFrame crypto vm)
    (fun orchestrator _ => (orchestrator.connections.lookup key).isSome = true) start inputs

/-- **A run** shows the same from both states as long as the pair is tracked. -/
theorem SameButMarks.run (h : SameButMarks key orchestrator other)
    (hidle : orchestrator.config.idleTimeout = none) {inputs : List FrameInput}
    (htracked : TrackedThroughout crypto vm key orchestrator inputs) :
    (Machine.run (Orchestrator.processFrame crypto vm) other inputs).2 =
      (Machine.run (Orchestrator.processFrame crypto vm) orchestrator inputs).2 := by
  induction inputs generalizing orchestrator other with
  | nil => rw [Machine.run_nil, Machine.run_nil]
  | cons input rest ih =>
      have hlater : (Machine.run (Orchestrator.processFrame crypto vm)
            (other.processFrame crypto vm input).1 rest).2 =
          (Machine.run (Orchestrator.processFrame crypto vm)
            (orchestrator.processFrame crypto vm input).1 rest).2 := by
        cases rest with
        | nil => rw [Machine.run_nil, Machine.run_nil]
        | cons next rest =>
            -- the pair is still tracked, since it is before the next frame
            obtain ⟨-, hrest⟩ := htracked
            obtain ⟨last, hlast⟩ := Option.isSome_iff_exists.mp hrest.1
            refine ih (h.processFrame hidle hlast) ?_ hrest
            rw [config_processFrame]
            exact hidle
      rw [Machine.run_cons, Machine.run_cons, hlater, h.outputs input]

/-- The state in which no FIN of the pair's connection has been seen. -/
def unfinished (key : ConnKey) (orchestrator : Orchestrator σ) : Orchestrator σ :=
  { orchestrator with
    connections := (orchestrator.connections.lookup key).elim orchestrator.connections fun conn =>
      orchestrator.connections.insert key
        (conn.withInfo conn.info.unfinished) }

/-- A half-closed connection goes on as if no FIN had been seen. -/
theorem run_unfinished (hidle : orchestrator.config.idleTimeout = none)
    {inputs : List FrameInput} (htracked : TrackedThroughout crypto vm key orchestrator inputs) :
    (Machine.run (Orchestrator.processFrame crypto vm) (orchestrator.unfinished key) inputs).2 =
      (Machine.run (Orchestrator.processFrame crypto vm) orchestrator inputs).2 := by
  cases inputs with
  | nil => rfl
  | cons input rest =>
      obtain ⟨conn, hconn⟩ := Option.isSome_iff_exists.mp htracked.1
      have hsame : SameButMarks key orchestrator (orchestrator.unfinished key) := by
        refine ⟨rfl, rfl, rfl, ?_, conn, conn.info.unfinished, hconn, ?_, ?_⟩
        · intro elsewhere hne
          unfold unfinished
          rw [hconn]
          exact AList.lookup_insert_ne hne
        · unfold unfinished
          rw [hconn]
          exact AList.lookup_insert _
        · exact ⟨fun h => absurd h Bool.false_ne_true, fun h => absurd h Bool.false_ne_true, id⟩
      exact hsame.run hidle htracked

end Orchestrator

end Tlscap
