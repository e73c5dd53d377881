import Tlscap.Orchestrator.Close
import Tlscap.Orchestrator.Trace

/-!
# One message for each application record

A record that decrypts to application data is dissected, and dissecting emits one
message whatever the dissector does; no other record emits any (`RecordStep.emits`).

The message names the endpoints of its connection in the order of its direction.  Two
facts make these the endpoints of the frame:

* **The steps of a frame** keep the roles of its connection, and each travels the way the
  frame does (`frameSteps_sameRoles`).
* **A connection is tracked under the key of its two endpoints** (`Orchestrator.Paired`),
  which every frame preserves (`Paired.processFrame`), so a frame of the pair goes from one
  of them to the other (`Paired.endpoints`).

The records are those that the received stream is cut into, in their order; putting this
together frame by frame gives `one_message_per_record`.
-/

namespace Tlscap

/-! ## The endpoints of a connection -/

section Endpoints

variable {σ : Type} {crypto : Crypto} {vm : LuaVm σ} {config : OrchestratorConfig}

/-- The two connections have the same client and the same server. -/
def Connection.SameRoles (before after : Connection) : Prop :=
  after.clientEndpoint = before.clientEndpoint ∧ after.serverEndpoint = before.serverEndpoint

theorem Connection.SameRoles.trans {before middle after : Connection}
    (hfirst : before.SameRoles middle) (hsecond : middle.SameRoles after) :
    before.SameRoles after :=
  ⟨hsecond.1.trans hfirst.1, hsecond.2.trans hfirst.2⟩

theorem receive_sameRoles (config : OrchestratorConfig) (found : Option Connection)
    (input : FrameInput) :
    (openConnection config found input).SameRoles (receive config found input).1 := by
  have hroles := receive_keeps config
    (fun conn => (conn.clientEndpoint, conn.serverEndpoint))
    (by
      intro conn direction r
      cases direction <;> rfl)
    (by
      intro conn direction limits
      cases direction <;> rfl)
    (fun _ _ => rfl) found input
  exact Prod.ext_iff.mp hroles

/-- A step has the roles of the connection it takes its record off. -/
theorem RecordStep.Takes.sameRoles {step : RecordStep σ} {isClientToServer : Bool}
    {conn : Connection} {shared : Shared σ} (h : step.Takes isClientToServer conn shared) :
    conn.SameRoles step.conn := by
  obtain ⟨rest, -, hconn⟩ := h.record
  rw [hconn]
  exact ⟨conn.clientEndpoint_setReassembler _ _, conn.serverEndpoint_setReassembler _ _⟩

/-- A step leaves the roles as they are. -/
theorem RecordStep.sameRoles_after (step : RecordStep σ) :
    step.conn.SameRoles (step.after crypto vm config).1 :=
  ⟨(step.sameStreams crypto vm config).clientEndpoint,
    (step.sameStreams crypto vm config).serverEndpoint⟩

/-- The steps of a frame have the roles and the direction of the frame's connection, and the
connection that is left has them too. -/
theorem frameSteps_sameRoles (crypto : Crypto) (vm : LuaVm σ) (config : OrchestratorConfig)
    (found : Option Connection) (shared : Shared σ) (input : FrameInput) :
    (∀ step ∈ frameSteps crypto vm config found shared input,
        (openConnection config found input).SameRoles step.conn ∧
          step.isClientToServer = direction config found input) ∧
      (openConnection config found input).SameRoles
        (handleFrame crypto vm config found shared input).1 := by
  obtain ⟨hdrains, -, -⟩ := handleFrame_drains crypto vm config found shared input
  obtain ⟨hlast, hsteps⟩ := hdrains.invariant
    (P := fun conn _ => (openConnection config found input).SameRoles conn)
    (fun conn shared step htakes hroles =>
      hroles.trans (htakes.sameRoles.trans step.sameRoles_after))
    (receive_sameRoles config found input)
  refine ⟨?_, hlast⟩
  intro step hstep
  obtain ⟨conn, htakes, hroles⟩ := hsteps step hstep
  exact ⟨hroles.trans htakes.sameRoles, htakes.direction⟩

end Endpoints

/-! ## The message of a record -/

/-- What a dissection recorded. -/
def dissectedFields : Except Text (Option (FrameFields × ℕ)) → FrameFields
  | .ok (some (fields, _)) => fields
  | .ok none => .empty
  | .error _ => .empty

section Message

variable {σ : Type} (crypto : Crypto) (vm : LuaVm σ) (config : OrchestratorConfig)

theorem dissectAndEmit_message (conn : Connection) (shared : Shared σ) (isClientToServer : Bool)
    (plaintext : Bytes) (timestamp : Duration) :
    (dissectAndEmit vm config conn shared isClientToServer plaintext timestamp).2.2 =
      { srcIp := (conn.endpoints isClientToServer).1.ip
        dstIp := (conn.endpoints isClientToServer).2.ip
        srcPort := (conn.endpoints isClientToServer).1.port
        dstPort := (conn.endpoints isClientToServer).2.port
        tlsAppData := plaintext
        fields := dissectedFields (vm.dissect shared.lua conn.serverEndpoint.port
          (conn.tail isClientToServer ++ plaintext)).2
        timestamp } := by
  have hendpoints : (conn.setTail isClientToServer []).endpoints isClientToServer =
      conn.endpoints isClientToServer := by
    cases isClientToServer <;> rfl
  have hserver : (conn.setTail isClientToServer []).serverEndpoint = conn.serverEndpoint := by
    cases isClientToServer <;> rfl
  unfold dissectAndEmit
  simp only [hendpoints, hserver]
  rcases vm.dissect shared.lua conn.serverEndpoint.port (conn.tail isClientToServer ++ plaintext)
    with ⟨lua, _ | (_ | ⟨fields, consumed⟩)⟩
  · rfl
  · rfl
  · rfl

/-- The message of an application record of a frame: the record's own plaintext, the
frame's own source and destination, and what the dissector of the server's port makes
of the plaintext that was kept and the record's. -/
structure RecordStep.Labels (step : RecordStep σ) (input : FrameInput)
    (message : DecodedMessage) : Prop where
  data : step.applicationData crypto = some message.tlsAppData
  source : (⟨message.srcIp, message.srcPort⟩ : Endpoint) = input.src
  destination : (⟨message.dstIp, message.dstPort⟩ : Endpoint) = input.dst
  fields : message.fields = dissectedFields (vm.dissect step.shared.lua
    step.conn.serverEndpoint.port (step.conn.tail step.isClientToServer ++ message.tlsAppData)).2
  timestamp : message.timestamp = input.timestamp

/-- **One record.**  Application data yields one message, labelled by the endpoints of
the connection; other records yield none. -/
theorem RecordStep.emits (step : RecordStep σ) {input : FrameInput}
    (hendpoints : step.conn.endpoints step.isClientToServer = (input.src, input.dst))
    (htimestamp : step.timestamp = input.timestamp) :
    if (step.applicationData crypto).isSome then
      ∃ message, (step.after crypto vm config).2.2 = [message] ∧
        step.Labels crypto vm input message
    else (step.after crypto vm config).2.2 = [] := by
  cases step.fate crypto vm config with
  | changeCipherSpec htype hattempt hdata hafter =>
      rw [hdata, hafter]
      rfl
  | hello state htype hhello hattempt hdata hafter =>
      rw [hdata, hafter]
      rfl
  | noClientHello htype hhello hstate hattempt hdata hafter =>
      rw [hdata, hafter]
      rfl
  | attempted state keylog newState result hstate hattempt hdecrypt hother hdata hafter =>
      rw [hdata, hafter]
      rfl
  | application state keylog newState decrypted hstate hattempt hdecrypt happlication hdata
      hafter =>
      have hkept : ({ step.conn with state := some newState } : Connection).endpoints
          step.isClientToServer = (input.src, input.dst) := by
        rw [← hendpoints]
        rfl
      rw [hdata, Option.isSome_some, if_pos rfl, hafter]
      simp only [dissectAndEmit_message, hkept]
      exact ⟨_, rfl, hdata, rfl, rfl, rfl, htimestamp⟩

/-- Where each of the things chosen emits one and the others nothing, what is emitted
goes through the chosen ones in order. -/
theorem forall₂_filter_flatMap {α β : Type*} {chosen : α → Bool} {emit : α → List β}
    {R : α → β → Prop} {things : List α}
    (h : ∀ a ∈ things, if chosen a then ∃ b, emit a = [b] ∧ R a b else emit a = []) :
    List.Forall₂ R (things.filter chosen) (things.flatMap emit) := by
  induction things with
  | nil => exact .nil
  | cons a rest ih =>
      have hnow := h a List.mem_cons_self
      have hlater := ih fun other hother => h other (List.mem_cons_of_mem a hother)
      rw [List.flatMap_cons]
      split at hnow
      · rename_i hchosen
        obtain ⟨b, hemit, hrelated⟩ := hnow
        rw [List.filter_cons_of_pos hchosen, hemit]
        exact .cons hrelated hlater
      · rename_i hchosen
        rw [List.filter_cons_of_neg hchosen, hnow]
        exact hlater

end Message

namespace Orchestrator

variable {σ : Type} {crypto : Crypto} {vm : LuaVm σ} {orchestrator : Orchestrator σ}

/-- Every connection is tracked under the key of its two endpoints. -/
def Paired (orchestrator : Orchestrator σ) : Prop :=
  ∀ key conn, orchestrator.connections.lookup key = some conn →
    connKey conn.clientEndpoint conn.serverEndpoint = key

theorem paired_new (keylog : KeylogSource) (lua : σ) (config : OrchestratorConfig)
    (sweepNow gcNow : Instant) : (new keylog lua config sweepNow gcNow).Paired := by
  intro key conn hlookup
  rw [show (new keylog lua config sweepNow gcNow).connections = ∅ from rfl,
    AList.lookup_empty] at hlookup
  cases hlookup

/-- A frame goes from one endpoint of its connection to the other. -/
theorem Paired.openConnection (h : orchestrator.Paired) (input : FrameInput) :
    let conn := openConnection orchestrator.config
      (orchestrator.connections.lookup input.key) input
    connKey conn.clientEndpoint conn.serverEndpoint = input.key := by
  cases hfound : orchestrator.connections.lookup input.key with
  | some conn => exact h input.key conn hfound
  | none =>
      unfold Tlscap.openConnection
      simp only
      split <;> rfl

theorem Paired.processFrame (h : orchestrator.Paired) (input : FrameInput) :
    (orchestrator.processFrame crypto vm input).1.Paired := by
  intro key conn hlookup
  rcases lookup_processFrame hlookup with ⟨hold, -⟩ | ⟨hkey, -, hconn⟩
  · exact h key conn hold
  · obtain ⟨-, hclient, hserver⟩ := frameSteps_sameRoles crypto vm orchestrator.config
      (orchestrator.connections.lookup input.key) orchestrator.shared input
    rw [hkey, hconn, hclient, hserver]
    exact h.openConnection input

theorem Paired.after (h : orchestrator.Paired) (inputs : List FrameInput) :
    (after crypto vm orchestrator inputs).Paired :=
  Machine.run_preserves (P := Paired) (fun _ input hpaired => hpaired.processFrame input) h inputs

/-- The endpoints in the order of the frame's direction are the frame's own. -/
theorem Paired.endpoints (h : orchestrator.Paired) (input : FrameInput) :
    (Tlscap.openConnection orchestrator.config (orchestrator.connections.lookup input.key)
        input).endpoints
        (direction orchestrator.config (orchestrator.connections.lookup input.key) input) =
      (input.src, input.dst) := by
  have hkey := h.openConnection input
  simp only [FrameInput.key] at hkey
  rw [connKey_eq_iff] at hkey
  unfold direction Connection.endpoints FrameInput.key
  by_cases hclient : input.src = (Tlscap.openConnection orchestrator.config
    (orchestrator.connections.lookup (connKey input.src input.dst)) input).clientEndpoint
  · rw [decide_eq_true hclient, if_pos rfl, ← hclient]
    rcases hkey with ⟨-, hserver⟩ | ⟨hdst, hserver⟩
    · rw [hserver]
    · rw [hserver, ← hdst, ← hclient]
  · rw [decide_eq_false hclient, if_neg (by decide)]
    rcases hkey with ⟨hsrc, -⟩ | ⟨hdst, hserver⟩
    · exact absurd hsrc.symm hclient
    · rw [hserver, hdst]

/-- **One message for each application record.**  After any run, a frame yields one
message for each of its records that decrypts to application data, in their order and
none for any other: the record's own plaintext, from the frame's source to its
destination, dissected under the port of the tracked server.  The records are those
that the received stream is cut into. -/
theorem one_message_per_record (crypto : Crypto) (vm : LuaVm σ) (source : KeylogSource) (lua : σ)
    (config : OrchestratorConfig) (sweepNow gcNow : Instant) (inputs : List FrameInput)
    (input : FrameInput) :
    let orchestrator := after crypto vm (new source lua config sweepNow gcNow) inputs
    let steps := orchestrator.recordSteps crypto vm input
    let found := orchestrator.connections.lookup input.key
    let isClientToServer := direction config found input
    List.Forall₂ (fun step message => step.Labels crypto vm input message)
        (steps.filter fun step => (step.applicationData crypto).isSome)
        (orchestrator.processFrame crypto vm input).2.2 ∧
      (∀ step ∈ steps, (Tlscap.openConnection config found input).SameRoles step.conn ∧
        step.isClientToServer = isClientToServer) ∧
      steps.map (fun step => (step.contentType, step.body)) =
        (recordFormat.parse ((receive config found input).1.reassemblerFor
          isClientToServer).contiguousBytes).1.map recordOf := by
  intro orchestrator steps found isClientToServer
  have hconfig : orchestrator.config = config := config_after _ inputs
  have hpaired : orchestrator.Paired := (paired_new source lua config sweepNow gcNow).after inputs
  have hbounded : orchestrator.Bounded :=
    (bounded_new source lua config sweepNow gcNow).run crypto vm inputs
  obtain ⟨hroles, -⟩ := frameSteps_sameRoles crypto vm config found orchestrator.shared input
  obtain ⟨-, -, htimestamps⟩ := handleFrame_drains crypto vm config found orchestrator.shared input
  have hsteps : steps = frameSteps crypto vm config found orchestrator.shared input := by
    rw [← hconfig]
    rfl
  rw [← hsteps] at hroles htimestamps
  refine ⟨?_, hroles, ?_⟩
  · rw [messages_processFrame]
    apply forall₂_filter_flatMap
    intro step hstep
    obtain ⟨⟨hclient, hserver⟩, hdirection⟩ := hroles step hstep
    apply RecordStep.emits
    · -- the endpoints are the frame's, as the entry is tracked under the key of the two
      have hendpoints := hpaired.endpoints input
      rw [hconfig] at hendpoints
      rw [← hendpoints, hdirection]
      unfold Connection.endpoints
      rw [hclient, hserver]
    · exact htimestamps step hstep
  · rw [hsteps]
    apply frameSteps_records
    intro conn hfound
    rw [← hconfig]
    exact hbounded input.key conn hfound

end Orchestrator

end Tlscap
