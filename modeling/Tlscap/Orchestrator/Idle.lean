import Tlscap.Orchestrator.Lifecycle
import Tlscap.Orchestrator.StaleGap

/-!
# Idle connections

With an idle timeout a call may sweep the entries: those without activity for the timeout go,
whatever their connections have sent.  A swept connection shows only if it goes on: where the
frames of open connections come less than the timeout apart, a run shows what it would show
without one (`Orchestrator.idle_timeout_transparent`).  On the other hand no entry outlives
its last frame by more than the timeout and the interval between sweeps
(`Orchestrator.tracked_recently`).

## Strategy

The first is a simulation of the run without sweeps (`Unswept`).  The swept state may lack
entries, but no frame that is still to come asks for one of these; the shared state is the
same but for the number of evictions, which decides nothing (`handleFrame_recount`).

* **A frame** finds the same entry in both runs, so it does the same.
* **The sweep behind it** removes entries whose last activity is the timeout ago.  The next
  frame of a connection comes in time, and the clock does not run backwards, so a connection
  that goes on is not among them (`Unswept.processFrame`).
* **The garbage collection** is due in both runs or in neither, as sweeps do not move its
  clock (`maybeGcLua_recount`).

The second is an invariant (`Recent`): every entry is that of a frame that came no longer
before the last sweep than the timeout.  A call either sweeps, and what is left has been
active since, or the last sweep was less than an interval ago (`maybeSweepIdle_cases`).
-/

namespace Tlscap

/-! ## Configurations with and without a timeout -/

/-- The shared state with another number of evictions. -/
def Shared.withEvicted {σ : Type} (shared : Shared σ) (evicted : ℕ) : Shared σ :=
  { shared with counters := { shared.counters with evictedConnections := evicted } }

/-- The configuration with another idle timeout. -/
def OrchestratorConfig.withIdle (config : OrchestratorConfig) (idleTimeout : Option Duration) :
    OrchestratorConfig :=
  { config with idleTimeout }

/-- The result of a step, with another number of evictions. -/
def recount {σ α : Type} (evicted : ℕ) (result : Connection × Shared σ × α) :
    Connection × Shared σ × α :=
  (result.1, result.2.1.withEvicted evicted, result.2.2)

/-! ## Frames and evictions -/

section Frame

variable {σ : Type} (crypto : Crypto) (vm : LuaVm σ) (config : OrchestratorConfig)
  (idleTimeout : Option Duration) (evicted : ℕ) (conn : Connection) (shared : Shared σ)
  (isClientToServer : Bool)

theorem dissectAndEmit_recount (plaintext : Bytes) (timestamp : Duration) :
    dissectAndEmit vm (config.withIdle idleTimeout) conn (shared.withEvicted evicted)
        isClientToServer plaintext timestamp =
      recount evicted (dissectAndEmit vm config conn shared isClientToServer plaintext
        timestamp) := by
  have hcapped : ∀ conn bytes, setTailCapped (config.withIdle idleTimeout) conn
      (shared.withEvicted evicted).counters isClientToServer bytes =
        let capped := setTailCapped config conn shared.counters isClientToServer bytes
        (capped.1, { capped.2 with evictedConnections := evicted }) := by
    intro conn bytes
    unfold setTailCapped
    change (if config.maxTailBytes < bytes.length then _ else _) = _
    split_ifs <;> rfl
  have hlua : (shared.withEvicted evicted).lua = shared.lua := rfl
  unfold dissectAndEmit
  simp only [hcapped, hlua]
  split <;> rfl

theorem processRecord_recount (outerContentType : UInt8) (body : Bytes) (timestamp : Duration)
    (readings : KeylogReadings) :
    processRecord crypto vm (config.withIdle idleTimeout) conn (shared.withEvicted evicted)
        isClientToServer outerContentType body timestamp readings =
      recount evicted (processRecord crypto vm config conn shared isClientToServer
        outerContentType body timestamp readings) := by
  have hkeylog : (shared.withEvicted evicted).keylog = shared.keylog := rfl
  unfold processRecord
  simp only [hkeylog]
  split_ifs
  · rfl
  · cases learnHello conn isClientToServer body with
    | some learned => rfl
    | none =>
        cases conn.state with
        | none => rfl
        | some state =>
            dsimp only
            generalize attemptDecrypt crypto shared.keylog state readings isClientToServer
              outerContentType body = attempt
            obtain ⟨keylog, state, result⟩ := attempt
            dsimp only
            split
            · split_ifs
              · exact congrArg (fun emitted => (emitted.1, emitted.2.1, [emitted.2.2]))
                  (dissectAndEmit_recount vm config idleTimeout evicted
                    { conn with state := some state }
                    ({ shared with keylog } |>.count
                      { tlsRecordsSeen := 1, tlsRecordsDecrypted := 1 })
                    isClientToServer _ timestamp)
              · rfl
            · rfl
            · rfl

theorem drainLoop_recount (timestamp : Duration) (readings : ℕ → KeylogReadings)
    (fuel index : ℕ) :
    drainLoop crypto vm (config.withIdle idleTimeout) isClientToServer timestamp readings fuel
        index conn (shared.withEvicted evicted) =
      recount evicted (drainLoop crypto vm config isClientToServer timestamp readings fuel index
        conn shared) := by
  induction fuel generalizing index conn shared with
  | zero => rfl
  | succ fuel ih =>
      have hstep : drainStep crypto vm (config.withIdle idleTimeout) conn
          (shared.withEvicted evicted) isClientToServer timestamp (readings index) =
            (drainStep crypto vm config conn shared isClientToServer timestamp
              (readings index)).map (recount evicted) := by
        unfold drainStep
        simp only [processRecord_recount]
        split_ifs
        · rfl
        · rfl
        · split <;> rfl
      unfold drainLoop
      rw [hstep]
      cases drainStep crypto vm config conn shared isClientToServer timestamp (readings index) with
      | none => rfl
      | some result =>
          obtain ⟨next, later, messages⟩ := result
          have hlater := ih next later (index + 1)
          simp only [Option.map_some, recount]
          rw [hlater]
          rfl

/-- **A frame** does the same whatever the idle timeout is and however many connections have
been evicted. -/
theorem handleFrame_recount (found : Option Connection) (input : FrameInput) :
    handleFrame crypto vm (config.withIdle idleTimeout) found (shared.withEvicted evicted) input =
      recount evicted (handleFrame crypto vm config found shared input) := by
  have hreceived : ∀ conn isClientToServer,
      receivePayload (config.withIdle idleTimeout) conn (shared.withEvicted evicted).counters
          isClientToServer input =
        let received := receivePayload config conn shared.counters isClientToServer input
        (received.1, { received.2 with evictedConnections := evicted }) := by
    intro conn isClientToServer
    unfold receivePayload
    split
    · split <;> rfl
    · rfl
  have hopened : openConnection (config.withIdle idleTimeout) found input =
      openConnection config found input := rfl
  unfold handleFrame
  simp only [hreceived, hopened]
  unfold drainRecords
  exact drainLoop_recount crypto vm config idleTimeout evicted _
    { shared with counters := (receivePayload config _ shared.counters _ input).2 } _ _ _ _ _

end Frame

/-! ## Runs whose connections do not idle -/

namespace Orchestrator

section Run

variable {σ : Type} {crypto : Crypto} {vm : LuaVm σ} {plain swept : Orchestrator σ}

/-- The next frame of a pair. -/
def nextOf (key : ConnKey) (inputs : List FrameInput) : Option FrameInput :=
  inputs.find? fun input => input.key = key

variable (crypto vm) in
/-- The frames of a connection come less than the timeout apart, as long as it is open. -/
def Busy (idleTimeout : Duration) : Orchestrator σ → List FrameInput → Prop
  | _, [] => True
  | orchestrator, input :: rest =>
      let after := (orchestrator.processFrame crypto vm input).1
      ((after.connections.lookup input.key).isSome → ∀ next ∈ nextOf input.key rest,
        next.clock.activity - input.clock.activity < idleTimeout) ∧ Busy idleTimeout after rest

instance decidableBusy (crypto : Crypto) (vm : LuaVm σ) (idleTimeout : Duration) :
    ∀ orchestrator inputs, Decidable (Busy crypto vm idleTimeout orchestrator inputs)
  | _, [] => .isTrue trivial
  | orchestrator, input :: rest =>
      have := decidableBusy crypto vm idleTimeout (orchestrator.processFrame crypto vm input).1 rest
      inferInstanceAs (Decidable (_ ∧ _))

/-- The next frame of every tracked connection comes in time. -/
def InTime (idleTimeout : Duration) (inputs : List FrameInput) (orchestrator : Orchestrator σ) :
    Prop :=
  ∀ key conn, orchestrator.connections.lookup key = some conn → ∀ next ∈ nextOf key inputs,
    ∃ activity, conn.info.lastActivity = some activity ∧
      next.clock.activity - activity < idleTimeout

/-- The second state has an idle timeout, and all entries that the frames will ask for. -/
structure Unswept (inputs : List FrameInput) (plain swept : Orchestrator σ) : Prop where
  config : swept.config = plain.config.withIdle swept.config.idleTimeout
  shared : ∃ evicted, swept.shared = plain.shared.withEvicted evicted
  lastLuaGc : swept.lastLuaGc = plain.lastLuaGc
  entries : ∀ input ∈ inputs,
    swept.connections.lookup input.key = plain.connections.lookup input.key

theorem InTime.processFrame {idleTimeout : Duration} {input : FrameInput}
    {rest : List FrameInput} (h : InTime idleTimeout (input :: rest) plain)
    (hbusy : ((plain.processFrame crypto vm input).1.connections.lookup input.key).isSome →
      ∀ next ∈ nextOf input.key rest,
        next.clock.activity - input.clock.activity < idleTimeout) :
    InTime idleTimeout rest (plain.processFrame crypto vm input).1 := by
  intro key conn hconn next hnext
  rcases lookup_processFrame hconn with ⟨hold, hother⟩ | ⟨rfl, -, rfl⟩
  · refine h key conn hold next ?_
    unfold nextOf
    rw [List.find?_cons_of_neg (by simpa using Ne.symm hother)]
    exact hnext
  · refine ⟨input.clock.activity, ?_, hbusy (by rw [hconn]; rfl) next hnext⟩
    rw [info_handleFrame, info_noteFlags]

/-- A sweep keeps the entry of a connection that is not idle. -/
theorem lookup_maybeSweepIdle_of_active {orchestrator : Orchestrator σ} {clock : FrameClock}
    {key : ConnKey} {conn : Connection}
    (hconn : orchestrator.connections.lookup key = some conn) {activity : Instant}
    (hactivity : conn.info.lastActivity = some activity)
    (hactive : ∀ idleTimeout, orchestrator.config.idleTimeout = some idleTimeout →
      clock.sweepNow - activity < idleTimeout) :
    (orchestrator.maybeSweepIdle clock).connections.lookup key = some conn := by
  cases hswept : (orchestrator.maybeSweepIdle clock).connections.lookup key with
  | some left => rw [← hconn, lookup_maybeSweepIdle hswept]
  | none =>
      obtain ⟨idleTimeout, hidle, -, hexpired⟩ :=
        (lookup_maybeSweepIdle_iff hconn hactivity).mp hswept
      exact absurd hexpired (not_le.mpr (hactive idleTimeout hidle))

/-- What a sweep or the storing of a connection leaves of the shared state. -/
theorem shared_swept {stored other : Orchestrator σ} {evicted : ℕ}
    (hshared : other.shared = stored.shared.withEvicted evicted) (clock : FrameClock) :
    ∃ evicted, (other.maybeSweepIdle clock).shared = stored.shared.withEvicted evicted := by
  unfold maybeSweepIdle
  split
  · exact ⟨evicted, hshared⟩
  · split
    · exact ⟨evicted, hshared⟩
    · dsimp only
      rw [hshared]
      exact ⟨_, rfl⟩

theorem lastLuaGc_maybeSweepIdle (orchestrator : Orchestrator σ) (clock : FrameClock) :
    (orchestrator.maybeSweepIdle clock).lastLuaGc = orchestrator.lastLuaGc := by
  unfold maybeSweepIdle
  split
  · rfl
  · split <;> rfl

/-- A garbage collection is due in both or in neither. -/
theorem maybeGcLua_recount {first second : Orchestrator σ} {evicted : ℕ}
    (hshared : second.shared = first.shared.withEvicted evicted)
    (hgc : second.lastLuaGc = first.lastLuaGc)
    (hinterval : second.config.luaGcInterval = first.config.luaGcInterval) (clock : FrameClock) :
    (second.maybeGcLua vm clock).shared =
        (first.maybeGcLua vm clock).shared.withEvicted evicted ∧
      (second.maybeGcLua vm clock).lastLuaGc = (first.maybeGcLua vm clock).lastLuaGc := by
  unfold maybeGcLua
  rw [hgc, hinterval]
  split_ifs
  · exact ⟨hshared, hgc⟩
  · dsimp only
    rw [hshared]
    exact ⟨rfl, rfl⟩

variable (crypto vm) in
/-- **A frame** shows the same with the sweeps and without, and sweeps nothing that is asked
for later. -/
theorem Unswept.processFrame (hidle : plain.config.idleTimeout = none) {input : FrameInput}
    {rest : List FrameInput} (h : Unswept (input :: rest) plain swept)
    (hkept : ∀ later ∈ rest, ∀ conn,
      (plain.processFrame crypto vm input).1.connections.lookup later.key = some conn →
        ∃ activity, conn.info.lastActivity = some activity ∧
          ∀ idleTimeout, swept.config.idleTimeout = some idleTimeout →
            input.clock.sweepNow - activity < idleTimeout) :
    (swept.processFrame crypto vm input).2 = (plain.processFrame crypto vm input).2 ∧
      Unswept rest (plain.processFrame crypto vm input).1
        (swept.processFrame crypto vm input).1 := by
  obtain ⟨evicted, hshared⟩ := h.shared
  set handled := handleFrame crypto vm plain.config (plain.connections.lookup input.key)
    plain.shared input with hhandled
  -- both handle the frame alike, up to the count of evicted entries
  have hsame : handleFrame crypto vm swept.config (swept.connections.lookup input.key)
      swept.shared input = recount evicted handled := by
    rw [h.config, hshared, h.entries input List.mem_cons_self, handleFrame_recount]
  set stored := plain.store input.key handled.1 handled.2.1 with hstored
  set other := swept.store input.key handled.1 (handled.2.1.withEvicted evicted) with hother
  have hplain : (plain.processFrame crypto vm input).1 = stored.maybeGcLua vm input.clock :=
    processFrame_of_no_idle hidle input
  have hswept : swept.processFrame crypto vm input =
      ((other.maybeSweepIdle input.clock).maybeGcLua vm input.clock, packetEvent input,
        handled.2.2) := by
    unfold Orchestrator.processFrame
    rw [hsame]
    rfl
  have hotherConfig : other.config = swept.config := config_store _ _ _ _
  have hstoredConfig : stored.config = plain.config := config_store _ _ _ _
  obtain ⟨hotherShared, hotherGc⟩ := store_shared swept input.key handled.1
    (handled.2.1.withEvicted evicted)
  obtain ⟨hstoredShared, hstoredGc⟩ := store_shared plain input.key handled.1 handled.2.1
  -- storing and sweeping change nothing else of what connections share
  obtain ⟨again, hagain⟩ : ∃ again, other.shared = stored.shared.withEvicted again := by
    rw [hother, hotherShared, hstored, hstoredShared]
    split_ifs
    · exact ⟨_, rfl⟩
    · exact ⟨_, rfl⟩
  obtain ⟨last, hlast⟩ := shared_swept hagain input.clock
  have hgc : (other.maybeSweepIdle input.clock).lastLuaGc = stored.lastLuaGc := by
    rw [lastLuaGc_maybeSweepIdle, hother, hotherGc, hstored, hstoredGc, h.lastLuaGc]
  have hinterval : (other.maybeSweepIdle input.clock).config.luaGcInterval =
      stored.config.luaGcInterval := by
    rw [config_maybeSweepIdle, hotherConfig, hstoredConfig, h.config]
    rfl
  obtain ⟨hcollected, hcollectedGc⟩ := maybeGcLua_recount hlast hgc hinterval input.clock
  refine ⟨?_, ?_, ⟨last, ?_⟩, ?_, fun later hlater => ?_⟩
  · rw [hswept]
    rfl
  · rw [hswept, hplain, config_maybeGcLua, config_maybeGcLua, config_maybeSweepIdle,
      hotherConfig, hstoredConfig]
    exact h.config
  · rw [hswept, hplain]
    exact hcollected
  · rw [hswept, hplain]
    exact hcollectedGc
  · have hentries : other.connections.lookup later.key =
        stored.connections.lookup later.key := by
      rw [hother, hstored, lookup_store, lookup_store,
        h.entries later (List.mem_cons_of_mem input hlater)]
    rw [hplain, connections_maybeGcLua] at hkept
    rw [hswept, hplain, connections_maybeGcLua, connections_maybeGcLua]
    -- the sweep removes entries only, and this one was active within the timeout
    cases hfound : stored.connections.lookup later.key with
    | none =>
        cases hleft : (other.maybeSweepIdle input.clock).connections.lookup later.key with
        | none => rfl
        | some conn => rw [← hfound, ← hentries, lookup_maybeSweepIdle hleft]
    | some conn =>
        obtain ⟨activity, hactivity, hactive⟩ := hkept later hlater conn hfound
        refine lookup_maybeSweepIdle_of_active (hentries.trans hfound) hactivity ?_
        rw [hotherConfig]
        exact hactive

/-- A run shows the same with the sweeps and without. -/
theorem Unswept.run {idleTimeout : Duration} (hidle : plain.config.idleTimeout = none)
    (htimeout : swept.config.idleTimeout = some idleTimeout) {inputs : List FrameInput}
    (h : Unswept inputs plain swept) (hintime : InTime idleTimeout inputs plain)
    (hbusy : Busy crypto vm idleTimeout plain inputs)
    (hclock : inputs.Pairwise fun earlier later =>
      earlier.clock.sweepNow ≤ later.clock.activity) :
    (Machine.run (Orchestrator.processFrame crypto vm) swept inputs).2 =
        (Machine.run (Orchestrator.processFrame crypto vm) plain inputs).2 ∧
      ∃ evicted, (after crypto vm swept inputs).shared =
        (after crypto vm plain inputs).shared.withEvicted evicted := by
  induction inputs generalizing plain swept with
  | nil => exact ⟨rfl, h.shared⟩
  | cons input rest ih =>
      obtain ⟨hnow, hlater⟩ := hbusy
      obtain ⟨hfirst, hrest⟩ := List.pairwise_cons.mp hclock
      have hnext := hintime.processFrame hnow
      obtain ⟨houtput, hunswept⟩ := h.processFrame crypto vm hidle
        fun later hmem conn hconn => by
          -- the sweep comes before the next frame, and that one is in time
          obtain ⟨next, hfound⟩ := Option.isSome_iff_exists.mp
            (show (nextOf later.key rest).isSome from
              List.find?_isSome.mpr ⟨later, hmem, decide_eq_true rfl⟩)
          obtain ⟨activity, hactivity, hintime⟩ := hnext later.key conn hconn next hfound
          have hsweep := hfirst next (List.mem_of_find?_eq_some hfound)
          refine ⟨activity, hactivity, fun timeout hsome => ?_⟩
          obtain rfl := Option.some.inj (htimeout.symm.trans hsome)
          exact lt_of_le_of_lt (Nat.sub_le_sub_right hsweep activity) hintime
      obtain ⟨hshown, hshared⟩ := ih (by rw [config_processFrame]; exact hidle)
        (by rw [config_processFrame]; exact htimeout) hunswept hnext hlater hrest
      refine ⟨?_, hshared⟩
      rw [Machine.run_cons, Machine.run_cons, houtput, hshown]

/-- **The idle timeout does not show.**  Where the clock does not run backwards and the frames
of every open connection come less than the timeout apart, a run with the timeout shows what it
shows without one, whatever the dissectors and the keylog do, and ends in the same shared
state but for the number of evictions. -/
theorem idle_timeout_transparent (crypto : Crypto) (vm : LuaVm σ) (source : KeylogSource) (lua : σ)
    (config : OrchestratorConfig) (idleTimeout : Duration) (sweepNow gcNow : Instant)
    (inputs : List FrameInput)
    (hclock : inputs.Pairwise fun earlier later =>
      earlier.clock.sweepNow ≤ later.clock.activity)
    (hbusy : Busy crypto vm idleTimeout
      (new source lua (config.withIdle none) sweepNow gcNow) inputs) :
    let plain := new source lua (config.withIdle none) sweepNow gcNow
    let swept := new source lua (config.withIdle (some idleTimeout)) sweepNow gcNow
    (Machine.run (Orchestrator.processFrame crypto vm) swept inputs).2 =
        (Machine.run (Orchestrator.processFrame crypto vm) plain inputs).2 ∧
      ∃ evicted, (after crypto vm swept inputs).shared =
        (after crypto vm plain inputs).shared.withEvicted evicted := by
  intro plain swept
  have hstart : Unswept inputs plain swept := ⟨rfl, ⟨0, rfl⟩, rfl, fun _ _ => rfl⟩
  have hintime : InTime idleTimeout inputs plain := by
    intro key conn hconn
    cases (AList.lookup_empty key).symm.trans hconn
  exact hstart.run rfl rfl hintime hbusy hclock

end Run

/-! ## How long an entry stays -/

section Recent

variable {σ : Type} {crypto : Crypto} {vm : LuaVm σ} {orchestrator : Orchestrator σ}
  {idleTimeout : Duration}

theorem lt_of_elapsed {since now limit : ℕ} (h : elapsed since now < limit) :
    now < since + limit := by
  have hlt : now - since < limit := h
  omega

/-- The readings of a call that the sweeps depend on. -/
def idleReadings (input : FrameInput) : List Instant :=
  [input.clock.activity, input.clock.sweepChecked, input.clock.sweepStarted, input.clock.sweepNow]

/-- Every entry is that of a frame that came no longer before the last sweep than the
timeout. -/
def Recent (idleTimeout : Duration) (before : List FrameInput) (orchestrator : Orchestrator σ) :
    Prop :=
  ∀ key conn, orchestrator.connections.lookup key = some conn → ∃ frame ∈ before,
    frame.key = key ∧ conn.info.lastActivity = some frame.clock.activity ∧
      orchestrator.lastSweep ≤ frame.clock.activity + idleTimeout

theorem maybeSweepIdle_cases (hidle : orchestrator.config.idleTimeout = some idleTimeout)
    (clock : FrameClock) :
    (elapsed orchestrator.lastSweep clock.sweepChecked < orchestrator.config.sweepInterval ∧
        orchestrator.maybeSweepIdle clock = orchestrator) ∨
      (orchestrator.maybeSweepIdle clock).lastSweep = clock.sweepStarted ∧
        ∀ key conn activity,
          (orchestrator.maybeSweepIdle clock).connections.lookup key = some conn →
            conn.info.lastActivity = some activity → clock.sweepNow - activity < idleTimeout := by
  by_cases hearly : elapsed orchestrator.lastSweep clock.sweepChecked <
      orchestrator.config.sweepInterval
  · refine .inl ⟨hearly, ?_⟩
    unfold maybeSweepIdle
    rw [hidle]
    exact if_pos hearly
  · refine .inr ⟨?_, fun key conn activity hconn hactivity => ?_⟩
    · unfold maybeSweepIdle
      rw [hidle]
      dsimp only
      rw [if_neg hearly]
    · by_contra hexpired
      have hnone := (lookup_maybeSweepIdle_iff (lookup_maybeSweepIdle hconn) hactivity).mpr
        ⟨idleTimeout, hidle, not_lt.mp hearly, not_lt.mp hexpired⟩
      rw [hnone] at hconn
      cases hconn

variable (crypto vm) in
/-- A frame leaves recent entries, and entries of frames that are not long past. -/
theorem Recent.processFrame (hidle : orchestrator.config.idleTimeout = some idleTimeout)
    {before : List FrameInput} (h : Recent idleTimeout before orchestrator) {input : FrameInput}
    (hclock : (orchestrator.lastSweep :: idleReadings input).Pairwise (· ≤ ·)) :
    Recent idleTimeout (before ++ [input]) (orchestrator.processFrame crypto vm input).1 ∧
      (orchestrator.processFrame crypto vm input).1.lastSweep ≤ input.clock.sweepNow ∧
      ∀ key conn,
        (orchestrator.processFrame crypto vm input).1.connections.lookup key = some conn →
          ∃ frame ∈ before ++ [input], frame.key = key ∧ input.clock.sweepChecked <
            frame.clock.activity + idleTimeout + orchestrator.config.sweepInterval := by
  obtain ⟨hfirst, hwithin⟩ := List.pairwise_cons.mp hclock
  have hactivity : orchestrator.lastSweep ≤ input.clock.activity :=
    hfirst _ List.mem_cons_self
  have hchecked : input.clock.sweepChecked ≤ input.clock.sweepNow :=
    List.rel_of_pairwise_cons (List.pairwise_cons.mp hwithin).2 (by simp)
  have hstarted : input.clock.sweepStarted ≤ input.clock.sweepNow :=
    List.rel_of_pairwise_cons (List.pairwise_cons.mp (List.pairwise_cons.mp hwithin).2).2 (by simp)
  have hlast : orchestrator.lastSweep ≤ input.clock.sweepNow := hfirst _ (by simp [idleReadings])
  set handled := handleFrame crypto vm orchestrator.config
    (orchestrator.connections.lookup input.key) orchestrator.shared input with hhandled
  set stored := orchestrator.store input.key handled.1 handled.2.1 with hstored
  have hafter : (orchestrator.processFrame crypto vm input).1 =
      (stored.maybeSweepIdle input.clock).maybeGcLua vm input.clock := rfl
  have hconfig : stored.config = orchestrator.config := config_store _ _ _ _
  have hsame : stored.lastSweep = orchestrator.lastSweep := by
    rw [hstored]
    unfold store
    split_ifs <;> rfl
  -- before the sweep: the frame's own entry is as recent as the frame, the others as before
  have hentry : ∀ key conn, stored.connections.lookup key = some conn →
      ∃ frame ∈ before ++ [input], frame.key = key ∧
        conn.info.lastActivity = some frame.clock.activity ∧
          orchestrator.lastSweep ≤ frame.clock.activity + idleTimeout := by
    intro key conn hconn
    rw [hstored, lookup_store] at hconn
    split_ifs at hconn with hkey hclosed
    · obtain rfl := Option.some.inj hconn
      refine ⟨input, by simp, hkey.symm, ?_, le_add_right hactivity⟩
      rw [hhandled, info_handleFrame, info_noteFlags]
    · obtain ⟨frame, hframe, hrest⟩ := h key conn hconn
      exact ⟨frame, List.mem_append_left _ hframe, hrest⟩
  have hgc : ∀ other : Orchestrator σ,
      (other.maybeGcLua vm input.clock).lastSweep = other.lastSweep := by
    intro other
    unfold maybeGcLua
    split_ifs <;> rfl
  unfold Recent
  rw [hafter, connections_maybeGcLua, hgc]
  rcases maybeSweepIdle_cases (hconfig ▸ hidle) input.clock with ⟨hearly, hunswept⟩ |
    ⟨hsweep, hactive⟩
  · -- too early for a sweep, so the last one was less than an interval ago
    rw [hunswept, hsame]
    rw [hsame, hconfig] at hearly
    refine ⟨hentry, hlast, fun key conn hconn => ?_⟩
    obtain ⟨frame, hframe, hkey, -, hrecent⟩ := hentry key conn hconn
    exact ⟨frame, hframe, hkey,
      (lt_of_elapsed hearly).trans_le (Nat.add_le_add_right hrecent _)⟩
  · -- what a sweep leaves was active within the timeout
    have hswept : ∀ key conn,
        (stored.maybeSweepIdle input.clock).connections.lookup key = some conn →
          ∃ frame ∈ before ++ [input], frame.key = key ∧
            conn.info.lastActivity = some frame.clock.activity ∧
              input.clock.sweepNow < frame.clock.activity + idleTimeout := by
      intro key conn hconn
      obtain ⟨frame, hframe, hkey, hseen, -⟩ := hentry key conn (lookup_maybeSweepIdle hconn)
      have hlt := hactive key conn frame.clock.activity hconn hseen
      exact ⟨frame, hframe, hkey, hseen, lt_of_elapsed hlt⟩
    rw [hsweep]
    refine ⟨fun key conn hconn => ?_, hstarted, fun key conn hconn => ?_⟩
    · obtain ⟨frame, hframe, hkey, hseen, hlt⟩ := hswept key conn hconn
      exact ⟨frame, hframe, hkey, hseen, hstarted.trans hlt.le⟩
    · obtain ⟨frame, hframe, hkey, -, hlt⟩ := hswept key conn hconn
      exact ⟨frame, hframe, hkey, (hchecked.trans_lt hlt).trans_le (Nat.le_add_right _ _)⟩

variable (crypto vm) in
/-- Every entry after a run is recent, and the last sweep is past. -/
theorem Recent.after {before inputs : List FrameInput}
    (hidle : orchestrator.config.idleTimeout = some idleTimeout)
    (h : Recent idleTimeout before orchestrator)
    (hclock : (orchestrator.lastSweep :: inputs.flatMap idleReadings).Pairwise (· ≤ ·)) :
    Recent idleTimeout (before ++ inputs) (Orchestrator.after crypto vm orchestrator inputs) ∧
      ∀ time, (∀ reading ∈ orchestrator.lastSweep :: inputs.flatMap idleReadings,
        reading ≤ time) → (Orchestrator.after crypto vm orchestrator inputs).lastSweep ≤ time := by
  induction inputs generalizing before orchestrator with
  | nil =>
      rw [List.append_nil]
      exact ⟨h, fun time htime => htime _ List.mem_cons_self⟩
  | cons input rest ih =>
      rw [List.flatMap_cons, ← List.cons_append] at hclock
      obtain ⟨hnow, hlater, hacross⟩ := List.pairwise_append.mp hclock
      obtain ⟨hrecent, hlast, -⟩ := h.processFrame crypto vm hidle hnow
      have hreading : input.clock.sweepNow ∈ orchestrator.lastSweep :: idleReadings input := by
        simp [idleReadings]
      have hnext : ((orchestrator.processFrame crypto vm input).1.lastSweep ::
          rest.flatMap idleReadings).Pairwise (· ≤ ·) :=
        List.pairwise_cons.mpr
          ⟨fun reading hmem => hlast.trans (hacross _ hreading reading hmem), hlater⟩
      obtain ⟨hrun, htimes⟩ := ih (by rw [config_processFrame]; exact hidle) hrecent hnext
      rw [List.append_assoc] at hrun
      refine ⟨hrun, fun time htime => htimes time fun reading hmem => ?_⟩
      rw [List.flatMap_cons, ← List.cons_append] at htime
      rcases List.mem_cons.mp hmem with rfl | hmem
      · exact hlast.trans (htime _ (List.mem_append_left _ hreading))
      · exact htime reading (List.mem_append_right _ hmem)

/-- The frames that came no longer before some time than a limit. -/
def since (time : Instant) (limit : Duration) (inputs : List FrameInput) : List FrameInput :=
  inputs.filter fun input => time < input.clock.activity + limit

/-- **No entry outlives its connection by much.**  With an idle timeout and a clock that does
not run backwards, the tracked pairs after any frame had a frame less than the timeout and the
interval between sweeps ago, so that there are no more of them than such pairs. -/
theorem tracked_recently (crypto : Crypto) (vm : LuaVm σ) (source : KeylogSource) (lua : σ)
    (config : OrchestratorConfig) {idleTimeout : Duration} (sweepNow gcNow : Instant)
    (hidle : config.idleTimeout = some idleTimeout) (before : List FrameInput) (input : FrameInput)
    (hclock : (sweepNow :: (before ++ [input]).flatMap idleReadings).Pairwise (· ≤ ·)) :
    let last := Orchestrator.after crypto vm (new source lua config sweepNow gcNow)
      (before ++ [input])
    let recent := (since input.clock.sweepChecked (idleTimeout + config.sweepInterval)
      (before ++ [input])).map FrameInput.key
    (∀ key, (last.connections.lookup key).isSome → key ∈ recent) ∧
      last.activeConnections ≤ recent.dedup.length := by
  intro last recent
  have hstart : Recent idleTimeout [] (new source lua config sweepNow gcNow) := by
    intro key conn hconn
    cases (AList.lookup_empty key).symm.trans hconn
  rw [List.flatMap_append, ← List.cons_append] at hclock
  obtain ⟨hpast, hnow, hacross⟩ := List.pairwise_append.mp hclock
  obtain ⟨hrecent, htimes⟩ := hstart.after crypto vm hidle hpast
  set middle := Orchestrator.after crypto vm (new source lua config sweepNow gcNow) before
    with hmiddle
  have hconfig : middle.config = config :=
    config_after (new source lua config sweepNow gcNow) before
  have hlast : last = (middle.processFrame crypto vm input).1 := after_concat _ before input
  rw [List.flatMap_singleton] at hnow hacross
  -- the last sweep was at a reading of the frames before, so the clock has not run back
  have hreadings : (middle.lastSweep :: idleReadings input).Pairwise (· ≤ ·) :=
    List.pairwise_cons.mpr ⟨fun reading hmem =>
      htimes reading fun earlier hearlier => hacross earlier hearlier reading hmem, hnow⟩
  obtain ⟨-, -, hentries⟩ :=
    hrecent.processFrame crypto vm (show middle.config.idleTimeout = _ from hconfig ▸ hidle)
      hreadings
  have hmem : ∀ key, (last.connections.lookup key).isSome → key ∈ recent := by
    intro key hkey
    obtain ⟨conn, hconn⟩ := Option.isSome_iff_exists.mp hkey
    rw [hlast] at hconn
    obtain ⟨frame, hframe, rfl, hlt⟩ := hentries key conn hconn
    rw [hconfig, Nat.add_assoc] at hlt
    rw [List.nil_append] at hframe
    exact List.mem_map_of_mem (List.mem_filter.mpr ⟨hframe, decide_eq_true hlt⟩)
  refine ⟨hmem, ?_⟩
  -- no key is tracked twice, so the entries are no more than the recent pairs
  have hkeys : last.connections.keys ⊆ recent.dedup := by
    intro key hkey
    rw [List.mem_dedup]
    exact hmem key (AList.lookup_isSome.mpr (AList.mem_keys.mpr hkey))
  have hlength := (last.connections.nodupKeys.subperm hkeys).length_le
  exact (List.length_map Sigma.fst).symm.le.trans hlength

end Recent

/-! ## A client that leaves -/

namespace IdleCapture

open Capture

/-- Ten seconds. -/
def timeout : Duration := 10 * 10 ^ 9

/-- A client opens a session and sends a request within two seconds. -/
def before : List FrameInput :=
  [segment client server 0 999 syn [] 0, segment client server 1 1000 ack hello (10 ^ 9),
    segment client server 2 1043 ack request (2 * 10 ^ 9)]

/-- Another client comes when the first is long gone. -/
def late : FrameInput := segment otherClient server 3 999 syn [] (100 * 10 ^ 9)

/-- The program before its first frame. -/
def start (idleTimeout : Option Duration) : Orchestrator Unit :=
  new source () (OrchestratorConfig.default.withIdle idleTimeout) 0 0

/-- The first client is swept, and its request is shown nevertheless. -/
theorem idle_timeout_transparent_swept :
    let run := fun idleTimeout => Machine.run (Orchestrator.processFrame
      RecordedSession.recording.crypto plainVm) (start idleTimeout) (before ++ [late])
    (run (some timeout)).2 = (run none).2 ∧ ((run none).2.flatMap Prod.snd).length = 1 ∧
      (run (some timeout)).1.activeConnections = 1 ∧ (run none).1.activeConnections = 2 :=
  ⟨(idle_timeout_transparent RecordedSession.recording.crypto plainVm source ()
    OrchestratorConfig.default timeout 0 0 (before ++ [late]) (by decide +kernel)
    (by decide +kernel)).1, by decide +kernel, by decide +kernel, by decide +kernel⟩

/-- The other client is the only one that is tracked then. -/
theorem tracked_recently_late :
    (Orchestrator.after RecordedSession.recording.crypto plainVm (start (some timeout))
      (before ++ [late])).activeConnections ≤ 1 :=
  (tracked_recently RecordedSession.recording.crypto plainVm source ()
    (OrchestratorConfig.default.withIdle (some timeout)) 0 0 rfl before late
    (by decide +kernel)).2

end IdleCapture

end Orchestrator

end Tlscap
