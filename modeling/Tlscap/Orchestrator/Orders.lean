import Tlscap.Orchestrator.Capture
import Tlscap.Orchestrator.Directions
import Tlscap.Orchestrator.Hello
import Tlscap.Orchestrator.Lanes

/-!
# Both directions, in any order

A connection is two streams that are cut into records, and the exchange the records
make (`Pair`).  Feeding a frame to it is all that `process_frame` does to the
connection (`handleFrame_pair`), so the messages of a run are those of its exchange,
and each direction's records depend on its own frames only.  Where no record is drained
before the hello it needs, the order of the two directions does not matter.

Two orders are compared in three steps:

* each direction yields the same records in both (`Pair.filter_records`,
  `Lane.collect_retimed`), as its frames are the same and come in the same order.  The
  clock may read otherwise: all it can do is tell that a gap is too old, so the same
  frames have to give up a gap (`PairRun.gapsGivenUp_eq`);
* two mixtures of the same records leave the same exchange and messages, if neither has
  a record that comes too early (`Exchange.messages_of_orders`);
* the messages and randoms of the run are those of the exchange (`PairRun.emitted_eq`,
  `PairRun.randoms_after`).

A record that is drained too early is lost, and the later ones of its direction with it
where it was counted on the other side: the server's records before the ClientHello's
last byte, and under TLS 1.2 the client's before the ServerHello's.
-/

namespace Tlscap

/-! ## One connection -/

/-- A connection without its lifecycle and its caches. -/
structure Pair where
  lanes : (isClientToServer : Bool) → Lane
  exchange : Exchange

namespace Pair

variable (config : OrchestratorConfig) (setting : ExchangeSetting) (pair : Pair)
  (input : FrameInput)

/-- The direction of a frame. -/
def fromClient : Bool := decide (input.src = setting.clientEndpoint)

/-- Whether a frame travels in this direction. -/
def travels (isClientToServer : Bool) (input : FrameInput) : Bool :=
  fromClient setting input == isClientToServer

/-- The records a frame completes. -/
def records : List TakenRecord :=
  ((pair.lanes (fromClient setting input)).feed config input).2.map fun record =>
    ⟨fromClient setting input, record.1, record.2⟩

/-- Feeds a frame to its stream, and receives the records it completes. -/
def step : Pair × List Exchange.Reception :=
  (⟨Function.update pair.lanes (fromClient setting input)
      ((pair.lanes (fromClient setting input)).feed config input).1,
    pair.exchange.receiveAll setting none (pair.records config setting input)⟩,
    pair.exchange.receptions setting none (pair.records config setting input))

/-- A frame feeds the stream of its direction. -/
theorem lanes_step_of_travels {isClientToServer : Bool} {input : FrameInput}
    (hown : travels setting isClientToServer input = true) :
    (pair.step config setting input).1.lanes isClientToServer =
      ((pair.lanes isClientToServer).feed config input).1 := by
  obtain rfl : fromClient setting input = isClientToServer := eq_of_beq hown
  exact Function.update_self _ _ _

/-- And leaves the other stream alone. -/
theorem lanes_step_of_not_travels {isClientToServer : Bool} {input : FrameInput}
    (hother : travels setting isClientToServer input = false) :
    (pair.step config setting input).1.lanes isClientToServer = pair.lanes isClientToServer :=
  Function.update_of_ne (beq_eq_false_iff_ne.mp hother).symm _ _

/-- The receptions of a run are those of its records. -/
theorem collect_receptions (inputs : List FrameInput) :
    Machine.collect (step config setting) (fun pair input => (pair.step config setting input).2)
        pair inputs =
      pair.exchange.receptions setting none
        (Machine.collect (step config setting) (records config setting) pair inputs) := by
  induction inputs generalizing pair with
  | nil => rfl
  | cons input rest ih =>
      rw [Machine.collect, Machine.collect, Exchange.receptions_append, ih]
      rfl

/-- The exchange a run leaves is the one its records leave. -/
theorem exchange_run (inputs : List FrameInput) :
    (Machine.run (step config setting) pair inputs).1.exchange =
      pair.exchange.receiveAll setting none
        (Machine.collect (step config setting) (records config setting) pair inputs) := by
  induction inputs generalizing pair with
  | nil => rfl
  | cons input rest ih =>
      rw [Machine.collect, Exchange.receiveAll_append]
      exact ih (pair.step config setting input).1

/-- **The records of a direction** are those its stream yields for its own frames. -/
theorem filter_records (isClientToServer : Bool) (inputs : List FrameInput) :
    (Machine.collect (step config setting) (records config setting) pair inputs).filter
        (TakenRecord.travels isClientToServer) =
      (Machine.collect (Lane.feed config) (fun lane input => (lane.feed config input).2)
        (pair.lanes isClientToServer)
        (inputs.filter (travels setting isClientToServer))).map
          fun record => ⟨isClientToServer, record.1, record.2⟩ := by
  induction inputs generalizing pair with
  | nil => rfl
  | cons input rest ih =>
      rw [Machine.collect, List.filter_append, ih]
      cases hown : travels setting isClientToServer input with
      | true =>
          obtain rfl : fromClient setting input = isClientToServer := eq_of_beq hown
          rw [List.filter_cons_of_pos hown, Machine.collect, List.map_append,
            lanes_step_of_travels config setting pair hown]
          congr 1
          apply List.filter_eq_self.mpr
          intro record hrecord
          obtain ⟨taken, -, rfl⟩ := List.mem_map.mp hrecord
          exact beq_self_eq_true _
      | false =>
          have hnone : (pair.records config setting input).filter
              (TakenRecord.travels isClientToServer) = [] := by
            apply List.filter_eq_nil_iff.mpr
            intro record hrecord
            obtain ⟨taken, -, rfl⟩ := List.mem_map.mp hrecord
            exact ne_true_of_eq_false hown
          rw [List.filter_cons_of_neg (by rw [hown]; exact Bool.false_ne_true),
            lanes_step_of_not_travels config setting pair hown, hnone, List.nil_append]

end Pair

/-- Whether a frame gives up a gap of its stream. -/
def Lane.seeGap (lane : Lane) (input : FrameInput) : List Bool :=
  [decide ((lane.anchor input).GivesUpGap input)]

/-- The records of a stream do not depend on where its frames sit, nor on the time, as
long as the same frames give up a gap. -/
theorem Lane.collect_retimed (config : OrchestratorConfig) {inputs inputs' : List FrameInput}
    (h : List.Forall₂ FrameInput.Retimed inputs inputs') {lane lane' : Lane}
    (hlane : lane.unclock = lane'.unclock)
    (hgaps : Machine.collect (Lane.feed config) Lane.seeGap lane inputs =
      Machine.collect (Lane.feed config) Lane.seeGap lane' inputs') :
    Machine.collect (Lane.feed config) (fun lane input => (lane.feed config input).2) lane
        inputs =
      Machine.collect (Lane.feed config) (fun lane input => (lane.feed config input).2) lane'
        inputs' := by
  induction h generalizing lane lane' with
  | nil => rfl
  | cons hnow _ ih =>
      rw [Machine.collect, Machine.collect] at hgaps
      obtain ⟨hgap, hlater⟩ := List.cons.inj hgaps
      have hgave := decide_eq_decide.mp hgap
      obtain ⟨hfed, hrecords⟩ : (lane.feed config _).1.unclock = (lane'.feed config _).1.unclock ∧
          (lane.feed config _).2 = (lane'.feed config _).2 := Lane.feed_retimed hlane hnow hgave
      rw [Machine.collect, Machine.collect, hrecords, ih hfed hlater]

/-- The connection without its lifecycle and its caches. -/
def Connection.pair (conn : Connection) : Pair := ⟨conn.lane, conn.exchange⟩

section Frame

variable {σ : Type} {setting : ExchangeSetting} {vm : LuaVm σ} {config : OrchestratorConfig}
  {hasPath : Bool}

/-- Receiving a payload does nothing to the exchange. -/
theorem exchange_receive (config : OrchestratorConfig) (found : Option Connection)
    (input : FrameInput) :
    (receive config found input).1.exchange = (openConnection config found input).exchange ∧
      (receive config found input).1.state = (openConnection config found input).state := by
  have hkept := receive_keeps config (fun conn => (conn.exchange, conn.state))
    (fun conn direction r => Prod.ext (by cases direction <;> rfl) (by cases direction <;> rfl))
    (fun conn direction limits =>
      Prod.ext (by cases direction <;> rfl) (by cases direction <;> rfl))
    (fun _ _ => rfl) found input
  exact Prod.ext_iff.mp hkept

/-- **One frame** of a connection is a step of the pair. -/
theorem handleFrame_pair (hpure : vm.IsPure setting.dissector)
    (htail : config.maxTailBytes = setting.maxTailBytes) (found : Option Connection)
    (shared : Shared σ) (input : FrameInput)
    (hreads : shared.keylog.Reads hasPath setting.keylog)
    (hsteady : ∀ index,
      (input.keylogReadings index).Steady setting.crypto.hexDecode hasPath setting.keylog)
    (hfits : (openConnection config found input).Fits setting) :
    (openConnection config found input).pair.step config setting input =
        ((handleFrame setting.crypto vm config found shared input).1.pair,
          (frameSteps setting.crypto vm config found shared input).map
            (RecordStep.reception setting.crypto vm config)) ∧
      (handleFrame setting.crypto vm config found shared input).1.Fits setting := by
  set opened := openConnection config found input with hopened
  set steps := frameSteps setting.crypto vm config found shared input with hsteps
  have hdirection : direction config found input = Pair.fromClient setting input := by
    unfold direction Pair.fromClient
    rw [← hopened, hfits.plays.1]
  obtain ⟨hlanes, hrecords⟩ := handleFrame_lane config setting.crypto vm found shared input
  obtain ⟨hdrains, -, -⟩ := handleFrame_drains setting.crypto vm config found shared input
  obtain ⟨hroles, -⟩ := frameSteps_sameRoles setting.crypto vm config found shared input
  obtain ⟨hexchange, hstate⟩ := exchange_receive config found input
  -- the records taken are those the own lane yields, each from the direction of the frame
  have htaken : steps.map RecordStep.record = opened.pair.records config setting input := by
    have hsame : ∀ step ∈ steps, step.record =
        ⟨Pair.fromClient setting input, step.contentType, step.body⟩ := by
      intro step hstep
      unfold RecordStep.record
      rw [(hroles step hstep).2, hdirection]
    unfold Pair.records
    rw [List.map_congr_left hsame, ← hdirection]
    change _ = List.map _ ((opened.lane _).feed config input).2
    rw [← hrecords, List.map_map]
    rfl
  have hplays := receive_sameRoles config found input
  have hreceived : (receive config found input).1.Fits setting := by
    refine ⟨fun state hsome => ?_, hplays.1.trans hfits.plays.1, hplays.2.trans hfits.plays.2⟩
    rw [hstate] at hsome
    exact hfits.caches state hsome
  obtain ⟨hreceptions, hlast, hfits'⟩ := hdrains.refines_exchange hpure htail hreads
    (by
      intro step hstep
      obtain ⟨position, hreadings⟩ := drainSteps_readings setting.crypto vm config _ _ _ _ _ _ _
        step hstep
      rw [hreadings]
      exact hsteady position) hreceived
  rw [← hsteps, htaken, hexchange] at hreceptions hlast
  refine ⟨?_, hfits'⟩
  unfold Pair.step
  refine Prod.ext ?_ hreceptions.symm
  refine congrArg₂ Pair.mk (funext fun other => ?_) hlast.symm
  rw [hlanes other, hdirection]
  by_cases hother : other = Pair.fromClient setting input
  · rw [hother, Function.update_self, if_pos rfl]
    rfl
  · rw [Function.update_of_ne hother, if_neg hother]
    rfl

end Frame

/-! ## The frames of a pair -/

namespace Orchestrator

variable {σ : Type} (crypto : Crypto) (vm : LuaVm σ)

/-- The receptions of one call's records, where its frame is one of the pair. -/
def receptionsOf (key : ConnKey) (orchestrator : Orchestrator σ) (input : FrameInput) :
    List Exchange.Reception :=
  if input.key = key then
    (orchestrator.recordSteps crypto vm input).map
      (RecordStep.reception crypto vm orchestrator.config)
  else []

/-- The receptions of a pair's records in a run. -/
def receptions (key : ConnKey) (start : Orchestrator σ) (inputs : List FrameInput) :
    List Exchange.Reception :=
  Machine.collect (processFrame crypto vm) (receptionsOf crypto vm key) start inputs

/-- The messages of one call, stamped zero, where its frame travels in this direction of
the pair. -/
def emittedOf (key : ConnKey) (client : Endpoint) (isClientToServer : Bool)
    (orchestrator : Orchestrator σ) (input : FrameInput) : List DecodedMessage :=
  if input.key = key ∧ decide (input.src = client) = isClientToServer then
    (orchestrator.processFrame crypto vm input).2.2.map (DecodedMessage.stamp 0)
  else []

/-- The messages of a direction of a pair in a run, apart from their timestamps. -/
def emitted (key : ConnKey) (client : Endpoint) (isClientToServer : Bool)
    (start : Orchestrator σ) (inputs : List FrameInput) : List DecodedMessage :=
  Machine.collect (processFrame crypto vm) (emittedOf crypto vm key client isClientToServer) start
    inputs

/-- Whether the frame of one call gives up a gap, where it travels in this direction of
the pair. -/
def seeGapOf (key : ConnKey) (client : Endpoint) (isClientToServer : Bool)
    (orchestrator : Orchestrator σ) (input : FrameInput) : List Bool :=
  if input.key = key ∧ decide (input.src = client) = isClientToServer then
    [decide (AbandonsGap (noted orchestrator.config (orchestrator.connections.lookup key) input)
      isClientToServer input)]
  else []

/-- Which frames of a direction of a pair give up a gap in a run. -/
def gapsGivenUp (key : ConnKey) (client : Endpoint) (isClientToServer : Bool)
    (start : Orchestrator σ) (inputs : List FrameInput) : List Bool :=
  Machine.collect (processFrame crypto vm) (seeGapOf key client isClientToServer) start inputs

/-- What receiving the records of a connection from this client depends on. -/
def settingOf (dissector : Dissector) (keylog : Keylog) (config : OrchestratorConfig)
    (opening : FrameInput) : ExchangeSetting where
  crypto := crypto
  dissector := dissector
  keylog := keylog
  maxTailBytes := config.maxTailBytes
  clientEndpoint := opening.src
  serverEndpoint := opening.dst

section Run

variable {setting : ExchangeSetting} {vm : LuaVm σ} {config : OrchestratorConfig} {hasPath : Bool}
  {key : ConnKey} {orchestrator : Orchestrator σ}

/-- The entry of the pair, where there is one, is this pair. -/
structure Holds (setting : ExchangeSetting) (config : OrchestratorConfig) (hasPath : Bool)
    (key : ConnKey) (orchestrator : Orchestrator σ) (pair : Pair) : Prop where
  steady : orchestrator.Steady config hasPath setting.keylog
  entry : ∀ conn, orchestrator.connections.lookup key = some conn →
    conn.Fits setting ∧ conn.pair = pair

/-- **One frame of the pair** is a step of it. -/
theorem processFrame_pair (hpure : vm.IsPure setting.dissector)
    (htail : config.maxTailBytes = setting.maxTailBytes)
    (hsteady : orchestrator.Steady config hasPath setting.keylog) {input : FrameInput}
    (hkey : input.key = key)
    (hreadings : ∀ index,
      (input.keylogReadings index).Steady setting.crypto.hexDecode hasPath setting.keylog)
    {opened : Connection}
    (hopened : openConnection config (orchestrator.connections.lookup key) input = opened)
    (hfits : opened.Fits setting) :
    let stepped := opened.pair.step config setting input
    Holds setting config hasPath key (orchestrator.processFrame setting.crypto vm input).1
        stepped.1 ∧
      orchestrator.receptionsOf setting.crypto vm key input = stepped.2 ∧
      ∀ isClientToServer, orchestrator.emittedOf setting.crypto vm key setting.clientEndpoint
        isClientToServer input =
          stepped.2.flatMap (Exchange.Reception.messagesOf isClientToServer) := by
  subst hkey hopened
  have hconfig := hsteady.config_eq
  obtain ⟨hstep, hfits'⟩ := handleFrame_pair hpure htail
    (orchestrator.connections.lookup input.key) orchestrator.shared input hsteady.reads hreadings
    hfits
  intro stepped
  have hreceptions : orchestrator.receptionsOf setting.crypto vm input.key input = stepped.2 := by
    change (if input.key = input.key then _ else _) = _
    rw [if_pos rfl, recordSteps, hconfig]
    exact (congrArg Prod.snd hstep).symm
  refine ⟨⟨hsteady.processFrame hpure hreadings, fun conn hlookup => ?_⟩, hreceptions,
    fun isClientToServer => ?_⟩
  · rcases lookup_processFrame hlookup with ⟨-, hother⟩ | ⟨-, -, hconn⟩
    · exact absurd rfl hother
    · rw [hconn, hconfig]
      exact ⟨hfits', (congrArg Prod.fst hstep).symm⟩
  · obtain ⟨hroles, -⟩ := frameSteps_sameRoles setting.crypto vm orchestrator.config
      (orchestrator.connections.lookup input.key) orchestrator.shared input
    have hdirection : ∀ step ∈ orchestrator.recordSteps setting.crypto vm input,
        step.isClientToServer = decide (input.src = setting.clientEndpoint) := by
      intro step hstep
      rw [(hroles step hstep).2, direction, hconfig, hfits.plays.1]
    rw [← hreceptions, receptionsOf, if_pos rfl, List.flatMap_map, emittedOf]
    -- all records of a frame travel the way the frame does
    by_cases hown : decide (input.src = setting.clientEndpoint) = isClientToServer
    · rw [if_pos ⟨rfl, hown⟩, messages_processFrame, List.map_flatMap]
      apply List.flatMap_congr
      intro step hstep
      exact (if_pos (beq_iff_eq.mpr ((hdirection step hstep).trans hown))).symm
    · rw [if_neg fun h => hown h.2]
      symm
      rw [List.flatMap_eq_nil_iff]
      intro step hstep
      exact if_neg fun h => hown ((hdirection step hstep).symm.trans (eq_of_beq h))

/-- A frame of another pair leaves the entry alone. -/
theorem Holds.other {pair : Pair} (h : Holds setting config hasPath key orchestrator pair)
    (hpure : vm.IsPure setting.dissector) {input : FrameInput} (hkey : input.key ≠ key)
    (hreadings : ∀ index,
      (input.keylogReadings index).Steady setting.crypto.hexDecode hasPath setting.keylog) :
    Holds setting config hasPath key
      (orchestrator.processFrame setting.crypto vm input).1 pair where
  steady := h.steady.processFrame hpure hreadings
  entry conn hlookup := by
    rcases lookup_processFrame hlookup with ⟨hold, -⟩ | ⟨hsame, -, -⟩
    · exact h.entry conn hold
    · exact absurd hsame.symm hkey

/-- From the second frame on the pair is tracked before every frame. -/
theorem TrackedBetween.throughout {crypto : Crypto} {opening : FrameInput}
    {inputs : List FrameInput}
    (h : TrackedBetween crypto vm key orchestrator (opening :: inputs)) :
    Machine.Throughout (Orchestrator.processFrame crypto vm)
      (fun orchestrator _ => (orchestrator.connections.lookup key).isSome)
      (orchestrator.processFrame crypto vm opening).1 inputs := by
  induction inputs generalizing opening orchestrator with
  | nil => trivial
  | cons input rest ih =>
      refine ⟨h 1 (Nat.succ_lt_succ (Nat.succ_pos _)) Nat.one_pos, ih ?_⟩
      exact h.tail

/-- A run of a pair from the frame that opens it on, under a keylog that stays as it is:
the pair is not tracked before, and not closed before the end. -/
structure PairRun (setting : ExchangeSetting) (vm : LuaVm σ) (config : OrchestratorConfig)
    (hasPath : Bool) (start : Orchestrator σ) (opening : FrameInput) (inputs : List FrameInput) :
    Prop where
  client : opening.src = setting.clientEndpoint
  server : opening.dst = setting.serverEndpoint
  steady : start.Steady config hasPath setting.keylog
  readings : ∀ input ∈ opening :: inputs, ∀ index,
    (input.keylogReadings index).Steady setting.crypto.hexDecode hasPath setting.keylog
  untracked : start.connections.lookup opening.key = none
  tracked : TrackedBetween setting.crypto vm opening.key start (opening :: inputs)

section PairRun

variable {opening : FrameInput} {inputs : List FrameInput}

/-- The pair before the frame that opens it. -/
def openedPair (config : OrchestratorConfig) (opening : FrameInput) : Pair :=
  (Connection.new opening.src opening.dst config.pendingLimits).pair

/-- The frames of the pair. -/
def framesOf (opening : FrameInput) (inputs : List FrameInput) : List FrameInput :=
  (opening :: inputs).filter fun input => decide (input.key = opening.key)

theorem framesOf_eq (opening : FrameInput) (inputs : List FrameInput) :
    framesOf opening inputs =
      opening :: inputs.filter fun input => decide (input.key = opening.key) :=
  List.filter_cons_of_pos (decide_eq_true rfl)

theorem PairRun.opened (h : PairRun setting vm config hasPath orchestrator opening inputs) :
    openConnection config (orchestrator.connections.lookup opening.key) opening =
        Connection.new opening.src opening.dst config.pendingLimits ∧
      (Connection.new opening.src opening.dst config.pendingLimits).Fits setting := by
  refine ⟨?_, nofun, h.client, h.server⟩
  rw [h.untracked]
  unfold openConnection
  simp only
  split <;> rfl

/-- After the opening frame: the entry is the pair, before every frame that follows. -/
theorem PairRun.holds (h : PairRun setting vm config hasPath orchestrator opening inputs)
    (hpure : vm.IsPure setting.dissector) (htail : config.maxTailBytes = setting.maxTailBytes) :
    Holds setting config hasPath opening.key
        (orchestrator.processFrame setting.crypto vm opening).1
        ((openedPair config opening).step config setting opening).1 ∧
      Machine.Throughout (Orchestrator.processFrame setting.crypto vm)
        (fun orchestrator input => (orchestrator.connections.lookup opening.key).isSome ∧
          ∀ index,
            (input.keylogReadings index).Steady setting.crypto.hexDecode hasPath setting.keylog)
        (orchestrator.processFrame setting.crypto vm opening).1 inputs := by
  obtain ⟨hnow, hlater⟩ := List.forall_mem_cons.mp h.readings
  obtain ⟨hopened, hfits⟩ := h.opened
  exact ⟨(processFrame_pair hpure htail h.steady rfl hnow hopened hfits).1,
    h.tracked.throughout.and (Machine.throughout_of_inputs hlater)⟩

/-- What holds of a frame of the pair that is processed where the entry is the pair. -/
theorem Holds.own {pair : Pair} (h : Holds setting config hasPath key orchestrator pair)
    (hpure : vm.IsPure setting.dissector) (htail : config.maxTailBytes = setting.maxTailBytes)
    {input : FrameInput} (hkey : input.key = key)
    (htracked : (orchestrator.connections.lookup key).isSome)
    (hreadings : ∀ index,
      (input.keylogReadings index).Steady setting.crypto.hexDecode hasPath setting.keylog) :
    let stepped := pair.step config setting input
    Holds setting config hasPath key (orchestrator.processFrame setting.crypto vm input).1
        stepped.1 ∧
      orchestrator.receptionsOf setting.crypto vm key input = stepped.2 ∧
      ∀ isClientToServer, orchestrator.emittedOf setting.crypto vm key setting.clientEndpoint
        isClientToServer input =
          stepped.2.flatMap (Exchange.Reception.messagesOf isClientToServer) := by
  obtain ⟨conn, hconn⟩ := Option.isSome_iff_exists.mp htracked
  obtain ⟨hfits, rfl⟩ := h.entry conn hconn
  refine processFrame_pair hpure htail h.steady hkey hreadings ?_ hfits
  rw [hconn]
  rfl

/-- **The receptions of a run** are those of the pair alone. -/
theorem PairRun.receptions_eq
    (h : PairRun setting vm config hasPath orchestrator opening inputs)
    (hpure : vm.IsPure setting.dissector) (htail : config.maxTailBytes = setting.maxTailBytes) :
    receptions setting.crypto vm opening.key orchestrator (opening :: inputs) =
      Machine.collect (Pair.step config setting)
        (fun pair input => (pair.step config setting input).2)
        (openedPair config opening) (framesOf opening inputs) := by
  obtain ⟨hopened, hfits⟩ := h.opened
  obtain ⟨hstart, hthroughout⟩ := h.holds hpure htail
  have hfirst := (processFrame_pair hpure htail h.steady rfl
    (List.forall_mem_cons.mp h.readings).1 hopened hfits).2.1
  unfold receptions
  rw [framesOf_eq, Machine.collect, Machine.collect, hfirst]
  congr 1
  refine Machine.collect_filter (R := Holds setting config hasPath opening.key) ?_ ?_ hstart
    hthroughout
  · rintro state pair input hpair ⟨htracked, hinput⟩ hkey
    obtain ⟨hnext, hsee, -⟩ := hpair.own hpure htail (of_decide_eq_true hkey) htracked hinput
    exact ⟨hnext, hsee⟩
  · rintro state pair input hpair ⟨-, hinput⟩ hkey
    exact ⟨hpair.other hpure (of_decide_eq_false hkey) hinput, if_neg (of_decide_eq_false hkey)⟩

/-- **The messages of a direction** are those of the pair alone. -/
theorem PairRun.emitted_eq
    (h : PairRun setting vm config hasPath orchestrator opening inputs)
    (hpure : vm.IsPure setting.dissector) (htail : config.maxTailBytes = setting.maxTailBytes)
    (isClientToServer : Bool) :
    emitted setting.crypto vm opening.key setting.clientEndpoint isClientToServer orchestrator
        (opening :: inputs) =
      (receptions setting.crypto vm opening.key orchestrator (opening :: inputs)).flatMap
        (Exchange.Reception.messagesOf isClientToServer) := by
  obtain ⟨hopened, hfits⟩ := h.opened
  obtain ⟨hstart, hthroughout⟩ := h.holds hpure htail
  have hfirst := (processFrame_pair hpure htail h.steady rfl
    (List.forall_mem_cons.mp h.readings).1 hopened hfits).2.2 isClientToServer
  rw [h.receptions_eq hpure htail, Machine.flatMap_collect]
  unfold emitted
  rw [framesOf_eq, Machine.collect, Machine.collect, hfirst]
  congr 1
  refine Machine.collect_filter (R := Holds setting config hasPath opening.key) ?_ ?_ hstart
    hthroughout
  · rintro state pair input hpair ⟨htracked, hinput⟩ hkey
    obtain ⟨hnext, -, hsee⟩ := hpair.own hpure htail (of_decide_eq_true hkey) htracked hinput
    exact ⟨hnext, hsee isClientToServer⟩
  · rintro state pair input hpair ⟨-, hinput⟩ hkey
    exact ⟨hpair.other hpure (of_decide_eq_false hkey) hinput,
      if_neg fun hown => of_decide_eq_false hkey hown.1⟩

/-- **The entry at the end** is the pair. -/
theorem PairRun.holds_after
    (h : PairRun setting vm config hasPath orchestrator opening inputs)
    (hpure : vm.IsPure setting.dissector) (htail : config.maxTailBytes = setting.maxTailBytes) :
    Holds setting config hasPath opening.key
      (after setting.crypto vm orchestrator (opening :: inputs))
      (Machine.run (Pair.step config setting) (openedPair config opening)
        (framesOf opening inputs)).1 := by
  obtain ⟨hstart, hthroughout⟩ := h.holds hpure htail
  rw [framesOf_eq]
  refine Machine.run_filter (R := Holds setting config hasPath opening.key) ?_ ?_ hstart
    hthroughout
  · rintro state pair input hpair ⟨htracked, hinput⟩ hkey
    exact (hpair.own hpure htail (of_decide_eq_true hkey) htracked hinput).1
  · rintro state pair input hpair ⟨-, hinput⟩ hkey
    exact hpair.other hpure (of_decide_eq_false hkey) hinput

/-- The records of the pair's frames. -/
def pairRecords (config : OrchestratorConfig) (setting : ExchangeSetting) (opening : FrameInput)
    (inputs : List FrameInput) : List TakenRecord :=
  Machine.collect (Pair.step config setting) (Pair.records config setting)
    (openedPair config opening) (framesOf opening inputs)

theorem exchange_openedPair (config : OrchestratorConfig) (opening : FrameInput) :
    (openedPair config opening).exchange = Exchange.start := by
  refine congrArg (Exchange.mk none) (funext fun isClientToServer => ?_)
  cases isClientToServer <;> rfl

theorem PairRun.receptions_pairRecords
    (h : PairRun setting vm config hasPath orchestrator opening inputs)
    (hpure : vm.IsPure setting.dissector) (htail : config.maxTailBytes = setting.maxTailBytes) :
    receptions setting.crypto vm opening.key orchestrator (opening :: inputs) =
      Exchange.start.receptions setting none (pairRecords config setting opening inputs) := by
  rw [h.receptions_eq hpure htail, Pair.collect_receptions, exchange_openedPair]
  rfl

/-- The entry at the end knows the randoms that the records left. -/
theorem PairRun.randoms_after
    (h : PairRun setting vm config hasPath orchestrator opening inputs)
    (hpure : vm.IsPure setting.dissector) (htail : config.maxTailBytes = setting.maxTailBytes)
    {conn : Connection}
    (hconn : (after setting.crypto vm orchestrator (opening :: inputs)).connections.lookup
      opening.key = some conn) :
    conn.randoms = (Exchange.start.receiveAll setting none
      (pairRecords config setting opening inputs)).randoms := by
  obtain ⟨-, hpair⟩ := (h.holds_after hpure htail).entry conn hconn
  have hexchange : conn.exchange = _ := congrArg Pair.exchange hpair
  rw [Pair.exchange_run, exchange_openedPair] at hexchange
  unfold pairRecords
  rw [← hexchange]
  unfold Connection.randoms Exchange.randoms Connection.exchange
  rw [Option.map_map]
  rfl

end PairRun

end Run

/-! ## Two orders -/

/-- The frame is one of the pair, and travels in this direction. -/
def sent (key : ConnKey) (client : Endpoint) (isClientToServer : Bool) (input : FrameInput) :
    Bool :=
  (decide (input.src = client) == isClientToServer) && decide (input.key = key)

/-- The frames of the pair that travel in this direction. -/
theorem filter_framesOf (setting : ExchangeSetting) {opening : FrameInput}
    (hclient : opening.src = setting.clientEndpoint) (isClientToServer : Bool)
    (inputs : List FrameInput) :
    (framesOf opening inputs).filter (Pair.travels setting isClientToServer) =
      (opening :: inputs).filter (sent opening.key opening.src isClientToServer) := by
  unfold framesOf
  rw [List.filter_filter, hclient]
  rfl

section Gaps

variable {vm : LuaVm σ} {setting : ExchangeSetting} {config : OrchestratorConfig} {hasPath : Bool}
  {key : ConnKey} {orchestrator : Orchestrator σ}

/-- A frame of a direction gives up a gap where its stream does. -/
theorem seeGapOf_eq {client : Endpoint} {isClientToServer : Bool} {input : FrameInput}
    (hsent : sent key client isClientToServer input = true) {opened : Connection}
    (hopened : openConnection orchestrator.config (orchestrator.connections.lookup key) input =
      opened) (hclient : opened.clientEndpoint = client) :
    orchestrator.seeGapOf key client isClientToServer input =
      (opened.lane isClientToServer).seeGap input := by
  obtain ⟨hsource, hkey⟩ := Bool.and_eq_true_iff.mp hsent
  have hdirection : direction orchestrator.config (orchestrator.connections.lookup key) input =
      isClientToServer := by
    unfold direction
    rw [hopened, hclient]
    exact eq_of_beq hsource
  unfold seeGapOf Lane.seeGap noted
  rw [if_pos ⟨of_decide_eq_true hkey, eq_of_beq hsource⟩, hopened, hdirection]
  refine congrArg (fun gap => [gap]) (decide_eq_decide.mpr ?_)
  rw [abandonsGap_iff, lane_noteFlags, if_pos rfl]

theorem seeGapOf_of_not_sent {client : Endpoint} {isClientToServer : Bool} {input : FrameInput}
    (hother : sent key client isClientToServer input = false) :
    orchestrator.seeGapOf key client isClientToServer input = [] := by
  refine if_neg fun hown => ?_
  unfold sent at hother
  rw [hown.2, decide_eq_true hown.1, beq_self_eq_true, Bool.and_true] at hother
  cases hother

theorem PairRun.sent_eq {opening : FrameInput} {inputs : List FrameInput}
    (h : PairRun setting vm config hasPath orchestrator opening inputs) (isClientToServer : Bool)
    (input : FrameInput) : sent opening.key opening.src isClientToServer input =
      (Pair.travels setting isClientToServer input && decide (input.key = opening.key)) := by
  rw [sent, h.client]
  rfl

/-- Behind the opening frame, the frames that give up a gap are those whose stream does. -/
theorem PairRun.laterGaps_eq {opening : FrameInput} {inputs : List FrameInput}
    (h : PairRun setting vm config hasPath orchestrator opening inputs)
    (hpure : vm.IsPure setting.dissector) (htail : config.maxTailBytes = setting.maxTailBytes)
    (isClientToServer : Bool) {lane : Lane}
    (hlane : ((openedPair config opening).step config setting opening).1.lanes isClientToServer =
      lane) :
    Machine.collect (processFrame setting.crypto vm)
        (seeGapOf opening.key opening.src isClientToServer)
        (orchestrator.processFrame setting.crypto vm opening).1 inputs =
      Machine.collect (Lane.feed config) Lane.seeGap lane
        (inputs.filter (sent opening.key opening.src isClientToServer)) := by
  obtain ⟨hstart, hthroughout⟩ := h.holds hpure htail
  -- both runs go by the streams of one pair
  refine Machine.collect_filter (R := fun state lane => ∃ pair,
    Holds setting config hasPath opening.key state pair ∧ pair.lanes isClientToServer = lane)
    ?_ ?_ ⟨_, hstart, hlane⟩ hthroughout
  · rintro state _ input ⟨pair, hpair, rfl⟩ ⟨htracked, hinput⟩ hinputs
    have htravels := hinputs
    rw [h.sent_eq, Bool.and_eq_true_iff] at htravels
    obtain ⟨hnext, -, -⟩ := hpair.own hpure htail (of_decide_eq_true htravels.2) htracked hinput
    obtain ⟨conn, hconn⟩ := Option.isSome_iff_exists.mp htracked
    -- a frame of the stream gives up a gap of the entry, which is one of the stream
    obtain ⟨hconnFits, rfl⟩ := hpair.entry conn hconn
    refine ⟨⟨_, hnext, conn.pair.lanes_step_of_travels config setting htravels.1⟩,
      seeGapOf_eq hinputs (by rw [hconn]; rfl) ?_⟩
    rw [h.client]
    exact hconnFits.plays.1
  · rintro state _ input ⟨pair, hpair, rfl⟩ ⟨htracked, hinput⟩ hinputs
    -- a frame of the other direction, or of another pair, leaves the stream alone
    refine ⟨?_, seeGapOf_of_not_sent hinputs⟩
    by_cases hkey : input.key = opening.key
    · rw [h.sent_eq, decide_eq_true hkey, Bool.and_true] at hinputs
      obtain ⟨hnext, -, -⟩ := hpair.own hpure htail hkey htracked hinput
      exact ⟨_, hnext, pair.lanes_step_of_not_travels config setting hinputs⟩
    · exact ⟨pair, hpair.other hpure hkey hinput, rfl⟩

/-- The frames of the pair that give up a gap are those whose stream does. -/
theorem PairRun.gapsGivenUp_eq {opening : FrameInput} {inputs : List FrameInput}
    (h : PairRun setting vm config hasPath orchestrator opening inputs)
    (hpure : vm.IsPure setting.dissector) (htail : config.maxTailBytes = setting.maxTailBytes)
    (isClientToServer : Bool) :
    gapsGivenUp setting.crypto vm opening.key opening.src isClientToServer orchestrator
        (opening :: inputs) =
      Machine.collect (Lane.feed config) Lane.seeGap
        ((openedPair config opening).lanes isClientToServer)
        ((opening :: inputs).filter (sent opening.key opening.src isClientToServer)) := by
  obtain ⟨hopened, hfits⟩ := h.opened
  unfold gapsGivenUp
  rw [Machine.collect]
  -- the opening frame may travel either way
  cases hfirst : sent opening.key opening.src isClientToServer opening with
  | true =>
      have htravels := hfirst
      rw [h.sent_eq, Bool.and_eq_true_iff] at htravels
      rw [← h.steady.config_eq] at hopened
      rw [List.filter_cons_of_pos hfirst, Machine.collect, seeGapOf_eq hfirst hopened rfl,
        h.laterGaps_eq hpure htail isClientToServer
          (Pair.lanes_step_of_travels config setting _ htravels.1), h.steady.config_eq]
      rfl
  | false =>
      have htravels := hfirst
      rw [h.sent_eq, decide_eq_true rfl, Bool.and_true] at htravels
      rw [List.filter_cons_of_neg (by rw [hfirst]; exact Bool.false_ne_true),
        seeGapOf_of_not_sent hfirst, List.nil_append,
        h.laterGaps_eq hpure htail isClientToServer
          (Pair.lanes_step_of_not_travels config setting _ htravels)]

end Gaps

/-- Two runs agree on a pair: they emit the same messages in each direction, and the entries
they leave know the same randoms. -/
structure AgreeOn (key : ConnKey) (client : Endpoint) (start : Orchestrator σ)
    (inputs inputs' : List FrameInput) : Prop where
  messages : ∀ isClientToServer,
    emitted crypto vm key client isClientToServer start inputs =
      emitted crypto vm key client isClientToServer start inputs'
  randoms : ∀ conn conn', (after crypto vm start inputs).connections.lookup key = some conn →
    (after crypto vm start inputs').connections.lookup key = some conn' →
      conn.randoms = conn'.randoms

/-- **The order of the directions** does not matter where no record is drained before the
hello it needs: two orders of a connection's frames, each direction's own order kept and
the same frames giving up a gap, emit the same messages in each direction. -/
theorem orders_alike {vm : LuaVm σ} {dissector : Dissector} (hpure : vm.IsPure dissector)
    (source : KeylogSource) (lua : σ) (config : OrchestratorConfig) (sweepNow gcNow : Instant)
    (earlier inputs inputs' : List FrameInput) (syn : FrameInput)
    (hsteady : ∀ input ∈ earlier ++ syn :: (inputs ++ inputs'), ∀ index,
      (input.keylogReadings index).Steady crypto.hexDecode source.hasPath source.current) :
    let start := after crypto vm (new source lua config sweepNow gcNow) earlier
    let setting := settingOf crypto dissector source.current config syn
    start.connections.lookup syn.key = none →
    TrackedBetween crypto vm syn.key start (syn :: inputs) →
    TrackedBetween crypto vm syn.key start (syn :: inputs') →
    (∀ isClientToServer, List.Forall₂ FrameInput.Retimed
      (inputs.filter (sent syn.key syn.src isClientToServer))
      (inputs'.filter (sent syn.key syn.src isClientToServer))) →
    (∀ isClientToServer,
      gapsGivenUp crypto vm syn.key syn.src isClientToServer start (syn :: inputs) =
        gapsGivenUp crypto vm syn.key syn.src isClientToServer start (syn :: inputs')) →
    Exchange.NothingMissed setting (receptions crypto vm syn.key start (syn :: inputs)) →
    Exchange.NothingMissed setting (receptions crypto vm syn.key start (syn :: inputs')) →
    AgreeOn crypto vm syn.key syn.src start (syn :: inputs) (syn :: inputs') := by
  intro start setting huntracked htracked htracked' hretimed hgaps hmissed hmissed'
  obtain ⟨hbefore, hlater⟩ := List.forall_mem_append.mp hsteady
  obtain ⟨hsyn, hboth⟩ := List.forall_mem_cons.mp hlater
  obtain ⟨hinputs, hinputs'⟩ := List.forall_mem_append.mp hboth
  have hstart : start.Steady config source.hasPath source.current :=
    (steady_new source lua config sweepNow gcNow).run hpure hbefore
  have hrun : PairRun setting vm config source.hasPath start syn inputs :=
    ⟨rfl, rfl, hstart, List.forall_mem_cons.mpr ⟨hsyn, hinputs⟩, huntracked, htracked⟩
  have hrun' : PairRun setting vm config source.hasPath start syn inputs' :=
    ⟨rfl, rfl, hstart, List.forall_mem_cons.mpr ⟨hsyn, hinputs'⟩, huntracked, htracked'⟩
  have hreceptions := hrun.receptions_pairRecords hpure rfl
  have hreceptions' := hrun'.receptions_pairRecords hpure rfl
  -- each direction yields the records of its own frames, in either order
  have hsame : ∀ isClientToServer,
      (pairRecords config setting syn inputs).filter (TakenRecord.travels isClientToServer) =
        (pairRecords config setting syn inputs').filter
          (TakenRecord.travels isClientToServer) := by
    intro isClientToServer
    have hframes : List.Forall₂ FrameInput.Retimed
        ((syn :: inputs).filter (sent syn.key syn.src isClientToServer))
        ((syn :: inputs').filter (sent syn.key syn.src isClientToServer)) := by
      rw [List.filter_cons, List.filter_cons]
      split
      · exact .cons (.refl syn) (hretimed isClientToServer)
      · exact hretimed isClientToServer
    have hgap := hgaps isClientToServer
    change gapsGivenUp setting.crypto vm syn.key syn.src isClientToServer start (syn :: inputs) =
      gapsGivenUp setting.crypto vm syn.key syn.src isClientToServer start (syn :: inputs') at hgap
    rw [hrun.gapsGivenUp_eq hpure rfl, hrun'.gapsGivenUp_eq hpure rfl] at hgap
    unfold pairRecords
    rw [Pair.filter_records, Pair.filter_records, filter_framesOf setting rfl,
      filter_framesOf setting rfl, Lane.collect_retimed config hframes rfl hgap]
  change Exchange.NothingMissed setting
    (receptions setting.crypto vm syn.key start (syn :: inputs)) at hmissed
  change Exchange.NothingMissed setting
    (receptions setting.crypto vm syn.key start (syn :: inputs')) at hmissed'
  rw [hreceptions] at hmissed
  rw [hreceptions'] at hmissed'
  obtain ⟨hmessages, hrandoms⟩ := Exchange.messages_of_orders setting hsame hmissed hmissed'
  refine ⟨fun isClientToServer => ?_, fun conn conn' hconn hconn' => ?_⟩
  · calc emitted crypto vm syn.key syn.src isClientToServer start (syn :: inputs)
        = (Exchange.start.receptions setting none (pairRecords config setting syn inputs)).flatMap
            (Exchange.Reception.messagesOf isClientToServer) := by
          rw [← hreceptions]
          exact hrun.emitted_eq hpure rfl isClientToServer
      _ = (Exchange.start.receptions setting none
            (pairRecords config setting syn inputs')).flatMap
            (Exchange.Reception.messagesOf isClientToServer) := hmessages isClientToServer
      _ = emitted crypto vm syn.key syn.src isClientToServer start (syn :: inputs') := by
          rw [← hreceptions']
          exact (hrun'.emitted_eq hpure rfl isClientToServer).symm
  · calc conn.randoms
        = (Exchange.start.receiveAll setting none
            (pairRecords config setting syn inputs)).randoms :=
          hrun.randoms_after hpure rfl hconn
      _ = (Exchange.start.receiveAll setting none
            (pairRecords config setting syn inputs')).randoms := hrandoms
      _ = conn'.randoms := (hrun'.randoms_after hpure rfl hconn').symm

open Capture

/-- A SYN from the client. -/
def openingSyn : FrameInput := segment client server 0 999 syn [] 0

/-- The client's hello. -/
def helloFrame : FrameInput := segment client server 1 1000 ack hello 1

/-- The client's request. -/
def requestFrame : FrameInput := segment client server 2 1043 ack Capture.request 2

/-- The server's hello. -/
def serverHelloFrame : FrameInput := segment server client 3 5000 ack serverHello 3

/-- The server's response. -/
def responseFrame : FrameInput := segment server client 4 5043 ack Capture.response 4

theorem steady_frames {inputs : List FrameInput}
    (h : inputs ⊆ [openingSyn, helloFrame, requestFrame, serverHelloFrame, responseFrame])
    (hexDecode : Text → Option Bytes) (hasPath : Bool) (keylog : Keylog) :
    ∀ input ∈ inputs, ∀ index,
      (input.keylogReadings index).Steady hexDecode hasPath keylog := by
  intro input hinput index
  have hframes := h hinput
  simp only [List.mem_cons, List.not_mem_nil, or_false] at hframes
  rcases hframes with rfl | rfl | rfl | rfl | rfl <;>
    exact steady_noReadings hexDecode hasPath keylog

/-- The request may be captured before the server's hello: it is decrypted under TLS 1.3. -/
theorem orders_alike_request :
    AgreeOn RecordedSession.recording.crypto plainVm openingSyn.key openingSyn.src
      (after RecordedSession.recording.crypto plainVm (new source () .default 0 0) [])
      (openingSyn :: [helloFrame, serverHelloFrame, requestFrame, responseFrame])
      (openingSyn :: [helloFrame, requestFrame, serverHelloFrame, responseFrame]) := by
  refine orders_alike RecordedSession.recording.crypto plainVm_isPure source () .default 0 0 []
    [helloFrame, serverHelloFrame, requestFrame, responseFrame]
    [helloFrame, requestFrame, serverHelloFrame, responseFrame] openingSyn
    (steady_frames (by simp) _ _ _) rfl ?_ ?_ ?_ ?_ ?_ ?_
  · unfold TrackedBetween
    decide +kernel
  · unfold TrackedBetween
    decide +kernel
  · rintro (_ | _)
    · exact .cons (.refl _) (.cons (.refl _) .nil)
    · exact .cons (.refl _) (.cons (.refl _) .nil)
  · decide +kernel
  · decide +kernel
  · decide +kernel

/-- A server whose hello and response are captured before the ClientHello is not decrypted. -/
theorem server_records_lost_before_hello :
    ¬ ∀ (crypto : Crypto) (vm : LuaVm Unit) (dissector : Dissector) (source : KeylogSource)
      (config : OrchestratorConfig) (sweepNow gcNow : Instant)
      (earlier inputs inputs' : List FrameInput) (syn : FrameInput),
      vm.IsPure dissector →
      (∀ input ∈ earlier ++ syn :: (inputs ++ inputs'), ∀ index,
        (input.keylogReadings index).Steady crypto.hexDecode source.hasPath source.current) →
      syn.frame.flags.syn = true → syn.frame.flags.ack = false →
      let start := after crypto vm (new source () config sweepNow gcNow) earlier
      let records (inputs : List FrameInput) := (receptions crypto vm syn.key start
        (syn :: inputs)).map Exchange.Reception.record
      start.connections.lookup syn.key = none →
      TrackedBetween crypto vm syn.key start (syn :: inputs) →
      TrackedBetween crypto vm syn.key start (syn :: inputs') →
      (∀ isClientToServer, List.Forall₂ FrameInput.Retimed
        (inputs.filter (sent syn.key syn.src isClientToServer))
        (inputs'.filter (sent syn.key syn.src isClientToServer))) →
      (∀ isClientToServer,
        gapsGivenUp crypto vm syn.key syn.src isClientToServer start (syn :: inputs) =
          gapsGivenUp crypto vm syn.key syn.src isClientToServer start (syn :: inputs')) →
      (∀ isClientToServer, (helloRandom isClientToServer (records inputs)).isSome) →
      (∀ clientRandom, helloRandom true (records inputs) = some clientRandom →
        ∀ g isClient, (source.current.secretFor clientRandom (trafficLabel g isClient)).isSome) →
      AgreeOn crypto vm syn.key syn.src start (syn :: inputs) (syn :: inputs') := by
  intro hclaim
  have hagree := hclaim RecordedSession.recording.crypto plainVm plainDissector source .default 0 0
    [] [helloFrame, serverHelloFrame, responseFrame] [serverHelloFrame, responseFrame, helloFrame]
    openingSyn plainVm_isPure (steady_frames (by simp) _ _ _) rfl rfl rfl
    (by unfold TrackedBetween; decide +kernel) (by unfold TrackedBetween; decide +kernel)
    (by
      rintro (_ | _)
      · exact .cons (.refl _) (.cons (.refl _) .nil)
      · exact .cons (.refl _) .nil)
    (by decide +kernel) (by decide +kernel)
    (by
      intro clientRandom hrandom g isClient
      have hknown : clientRandom = List.replicate 32 0xaa := by
        rw [← Option.some.injEq, ← hrandom]
        decide +kernel
      subst hknown
      cases g <;> cases isClient <;> decide +kernel)
  have hmessages := congrArg (List.map DecodedMessage.tlsAppData) (hagree.messages false)
  revert hmessages
  decide +kernel

end Orchestrator

end Tlscap
