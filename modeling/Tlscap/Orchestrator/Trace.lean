import Tlscap.Orchestrator.Memory
import Tlscap.Orchestrator.Drain

/-!
# The records of a run

The loop of `drain_records` takes one record after another off a stream.  A `RecordStep` is
one iteration of it: the connection, what is shared, and the record.  `frameSteps` lists the
iterations of one frame and `Orchestrator.runSteps` those of a whole run, so that every record
a run drains can be spoken about.

## How to use it

* **One iteration.**  `RecordStep.Fate` says once what an iteration can do: drop a
  ChangeCipherSpec, learn a hello, drop a record for want of a ClientHello, or attempt it,
  with or without application data.  Whatever is claimed of an iteration is a case split on
  `RecordStep.fate`.
* **One loop.**  `Drains` relates the iterations to the states before and after them; it
  forgets the fuel and the numbering of the loop, and inductions go over it.  What every
  step preserves holds before each of the steps and after the last (`Drains.invariant`).
* **One frame** receives its payload and drains its direction (`handleFrame_drains`); its
  messages are those of its steps, and its records are those the stream is cut into
  (`frameSteps_records`).
* **A run.**  The counters of the TLS records move with the records and with nothing else,
  so after a run each is what the iterations added to it
  (`Orchestrator.counter_run`, `Orchestrator.counter_run_count`).

An iteration leaves the streams of its connection alone (`RecordStep.sameStreams`): taking the
record off is done before it.
-/

namespace Tlscap

/-! ## One iteration -/

/-- The record at the front of a stream and the stream behind it, where the loop goes on. -/
def nextRecord (r : StreamReassembler) : Option ((UInt8 × Bytes) × StreamReassembler) :=
  if r.contiguousLen < 5 then none
  else if r.contiguousLen < recordLength (r.peek 5) then none
  else
    match r.takeBytes (recordLength (r.peek 5)) with
    | none => none
    | some ((record, _), rest) => some (((r.peek 5).getD 0 0, record.drop 5), rest)

/-- One iteration of the loop: the connection with the record taken off, what is
shared then, and the record. -/
structure RecordStep (σ : Type) where
  conn : Connection
  shared : Shared σ
  isClientToServer : Bool
  contentType : UInt8
  body : Bytes
  timestamp : Duration
  readings : KeylogReadings

/-- Adds to the counters. -/
def Shared.count {σ : Type} (shared : Shared σ) (counters : Counters) : Shared σ :=
  { shared with counters := shared.counters + counters }

/-- What a decrypt attempt adds to the counters. -/
def attemptCounters : Except ProcessError DecryptedRecord → Counters
  | .ok _ => { tlsRecordsSeen := 1, tlsRecordsDecrypted := 1 }
  | .error .noKey => { tlsRecordsSeen := 1, tlsRecordsNokey := 1 }
  | .error .authFailed => { tlsRecordsSeen := 1, tlsRecordsAuthfailed := 1 }

/-- The result is application data. -/
def IsApplicationData (result : Except ProcessError DecryptedRecord) : Prop :=
  ∃ decrypted, result = .ok decrypted ∧ decrypted.contentType = 0x17

namespace RecordStep

variable {σ : Type} (crypto : Crypto) (vm : LuaVm σ) (config : OrchestratorConfig)
  (step : RecordStep σ)

/-- What the iteration leaves. -/
def after : Connection × Shared σ × List DecodedMessage :=
  processRecord crypto vm config step.conn step.shared step.isClientToServer step.contentType
    step.body step.timestamp step.readings

/-- The decrypt attempt at the record, if there is one: it is no ChangeCipherSpec and
not a hello that is waited for, and the connection's ClientHello is known. -/
def attempt : Option (KeylogSource × ConnectionState × Except ProcessError DecryptedRecord) :=
  if step.contentType = 0x14 then none
  else
    match learnHello step.conn step.isClientToServer step.body with
    | some _ => none
    | none =>
        step.conn.state.map fun state =>
          attemptDecrypt crypto step.shared.keylog state step.readings step.isClientToServer
            step.contentType step.body

/-- The plaintext of the record, if it decrypts to application data. -/
def applicationData : Option Bytes :=
  match step.attempt crypto with
  | some (_, _, .ok decrypted) =>
      if decrypted.contentType = 0x17 then some decrypted.plaintext else none
  | _ => none

/-- What an iteration can do with its record. -/
inductive Fate : Prop
  | changeCipherSpec (htype : step.contentType = 0x14) (hattempt : step.attempt crypto = none)
      (hdata : step.applicationData crypto = none)
      (hafter : step.after crypto vm config =
        (step.conn,
          step.shared.count { tlsRecordsSeen := 1, tlsRecordsPlaintextHandshake := 1 }, []))
  | hello (state : ConnectionState) (htype : step.contentType ≠ 0x14)
      (hhello : learnHello step.conn step.isClientToServer step.body =
        some { step.conn with state := some state })
      (hattempt : step.attempt crypto = none)
      (hdata : step.applicationData crypto = none)
      (hafter : step.after crypto vm config =
        ({ step.conn with state := some state },
          step.shared.count { tlsRecordsSeen := 1, tlsRecordsPlaintextHandshake := 1 }, []))
  | noClientHello (htype : step.contentType ≠ 0x14)
      (hhello : learnHello step.conn step.isClientToServer step.body = none)
      (hstate : step.conn.state = none) (hattempt : step.attempt crypto = none)
      (hdata : step.applicationData crypto = none)
      (hafter : step.after crypto vm config =
        (step.conn,
          step.shared.count { tlsRecordsSeen := 1, tlsRecordsNoClientHello := 1 }, []))
  | attempted (state : ConnectionState) (keylog : KeylogSource) (newState : ConnectionState)
      (result : Except ProcessError DecryptedRecord) (hstate : step.conn.state = some state)
      (hattempt : step.attempt crypto = some (keylog, newState, result))
      (hdecrypt : attemptDecrypt crypto step.shared.keylog state step.readings
        step.isClientToServer step.contentType step.body = (keylog, newState, result))
      (hother : ¬ IsApplicationData result) (hdata : step.applicationData crypto = none)
      (hafter : step.after crypto vm config =
        ({ step.conn with state := some newState },
          { step.shared.count (attemptCounters result) with keylog }, []))
  | application (state : ConnectionState) (keylog : KeylogSource) (newState : ConnectionState)
      (decrypted : DecryptedRecord) (hstate : step.conn.state = some state)
      (hattempt : step.attempt crypto = some (keylog, newState, .ok decrypted))
      (hdecrypt : attemptDecrypt crypto step.shared.keylog state step.readings
        step.isClientToServer step.contentType step.body = (keylog, newState, .ok decrypted))
      (happlication : decrypted.contentType = 0x17)
      (hdata : step.applicationData crypto = some decrypted.plaintext)
      (hafter : step.after crypto vm config =
        let dissected := dissectAndEmit vm config { step.conn with state := some newState }
          { step.shared.count (attemptCounters (.ok decrypted)) with keylog }
          step.isClientToServer decrypted.plaintext step.timestamp
        (dissected.1, dissected.2.1, [dissected.2.2]))

/-- A record that is attempted is no ChangeCipherSpec, and not a hello that is waited
for. -/
theorem attempt_isSome (hattempt : (step.attempt crypto).isSome) :
    step.contentType ≠ 0x14 ∧ learnHello step.conn step.isClientToServer step.body = none := by
  unfold attempt at hattempt
  split at hattempt
  · cases hattempt
  · rename_i htype
    split at hattempt
    · cases hattempt
    · exact ⟨htype, ‹_›⟩

theorem applicationData_of_no_attempt (hattempt : step.attempt crypto = none) :
    step.applicationData crypto = none := by
  rw [applicationData, hattempt]

theorem applicationData_of_attempt {keylog : KeylogSource} {state : ConnectionState}
    {result : Except ProcessError DecryptedRecord}
    (hattempt : step.attempt crypto = some (keylog, state, result))
    (hother : ¬ IsApplicationData result) : step.applicationData crypto = none := by
  rw [applicationData, hattempt]
  cases result with
  | error _ => rfl
  | ok decrypted => exact if_neg fun htype => hother ⟨decrypted, rfl, htype⟩

/-- **One iteration.**  The branches of the loop's body. -/
theorem fate : step.Fate crypto vm config := by
  by_cases htype : step.contentType = 0x14
  · have hattempt : step.attempt crypto = none := if_pos htype
    refine .changeCipherSpec htype hattempt (step.applicationData_of_no_attempt crypto hattempt) ?_
    unfold after processRecord
    simp only [if_pos htype]
    rfl
  · cases hhello : learnHello step.conn step.isClientToServer step.body with
    | some conn =>
        have hattempt : step.attempt crypto = none := by
          rw [attempt, if_neg htype, hhello]
        obtain ⟨state, rfl⟩ := learnHello_eq_some hhello
        refine .hello state htype hhello hattempt
          (step.applicationData_of_no_attempt crypto hattempt) ?_
        unfold after processRecord
        simp only [if_neg htype, hhello]
        rfl
    | none =>
        cases hstate : step.conn.state with
        | none =>
            have hattempt : step.attempt crypto = none := by
              rw [attempt, if_neg htype, hhello, hstate]
              rfl
            refine .noClientHello htype hhello hstate hattempt
              (step.applicationData_of_no_attempt crypto hattempt) ?_
            unfold after processRecord
            simp only [if_neg htype, hhello, hstate]
            rfl
        | some state =>
            have hattempt : step.attempt crypto = some (attemptDecrypt crypto step.shared.keylog
                state step.readings step.isClientToServer step.contentType step.body) := by
              rw [attempt, if_neg htype, hhello, hstate]
              rfl
            have hafter := rfl (a := step.after crypto vm config)
            conv_rhs at hafter => unfold after processRecord
            simp only [if_neg htype, hhello, hstate] at hafter
            -- an attempt that gives no application data only leaves its state and its reader
            have hattempted : ∀ keylog newState result, attemptDecrypt crypto step.shared.keylog
                  state step.readings step.isClientToServer step.contentType step.body =
                    (keylog, newState, result) → ¬ IsApplicationData result →
                step.after crypto vm config = ({ step.conn with state := some newState },
                  { step.shared.count (attemptCounters result) with keylog }, []) →
                step.Fate crypto vm config := by
              intro keylog newState result hdecrypt hother hafter
              rw [hdecrypt] at hattempt
              exact .attempted state keylog newState result hstate hattempt hdecrypt hother
                (step.applicationData_of_attempt crypto hattempt hother) hafter
            rcases hdecrypt : attemptDecrypt crypto step.shared.keylog state step.readings
              step.isClientToServer step.contentType step.body with
              ⟨keylog, newState, (_ | _) | decrypted⟩
            · rw [hdecrypt] at hafter
              exact hattempted keylog newState _ hdecrypt (by rintro ⟨_, hok, -⟩; cases hok) hafter
            · rw [hdecrypt] at hafter
              exact hattempted keylog newState _ hdecrypt (by rintro ⟨_, hok, -⟩; cases hok) hafter
            · rw [hdecrypt] at hafter
              simp only at hafter
              split at hafter
              · rename_i happlication
                have hdata : step.applicationData crypto = some decrypted.plaintext := by
                  rw [applicationData, hattempt, hdecrypt]
                  exact if_pos happlication
                exact .application state keylog newState decrypted hstate (hattempt.trans
                  (congrArg some hdecrypt)) hdecrypt happlication hdata hafter
              · exact hattempted keylog newState _ hdecrypt
                  (by rintro ⟨_, hok, hdata⟩; cases hok; contradiction) hafter

/-- What the iteration adds to the counters of the TLS records. -/
def tally : Counters :=
  match step.attempt crypto with
  | some (_, _, result) => attemptCounters result
  | none =>
      if step.contentType = 0x14 ∨
          (learnHello step.conn step.isClientToServer step.body).isSome then
        { tlsRecordsSeen := 1, tlsRecordsPlaintextHandshake := 1 }
      else { tlsRecordsSeen := 1, tlsRecordsNoClientHello := 1 }

/-- Dissection moves no counter but that of the discarded tails. -/
theorem dissectAndEmit_counters {α : Type} (view : Counters → α)
    (hview : ∀ (counters : Counters) (bytes : ℕ),
      view { counters with tailBytesDiscarded := bytes } = view counters)
    (conn : Connection) (shared : Shared σ) (isClientToServer : Bool) (plaintext : Bytes)
    (timestamp : Duration) :
    view (dissectAndEmit vm config conn shared isClientToServer plaintext
      timestamp).2.1.counters = view shared.counters := by
  have hcapped : ∀ conn counters bytes,
      view (setTailCapped config conn counters isClientToServer bytes).2 = view counters := by
    intro conn counters bytes
    unfold setTailCapped
    split
    · exact hview counters _
    · rfl
  unfold dissectAndEmit
  simp only
  rcases vm.dissect shared.lua (conn.setTail isClientToServer []).serverEndpoint.port
    (conn.tail isClientToServer ++ plaintext) with ⟨lua, _ | (_ | ⟨fields, consumed⟩)⟩
  · exact hcapped _ _ _
  · rfl
  · exact hcapped _ _ _

/-- The counters of the TLS records move by the tally. -/
theorem tlsRecords_after :
    (step.after crypto vm config).2.1.counters.tlsRecords =
      (step.shared.counters + step.tally crypto).tlsRecords := by
  cases step.fate crypto vm config with
  | changeCipherSpec htype hattempt _ hafter =>
      rw [tally, hattempt, hafter, if_pos (.inl htype)]
      rfl
  | hello state _ hhello hattempt _ hafter =>
      rw [tally, hattempt, hafter, if_pos (.inr (by rw [hhello]; rfl))]
      rfl
  | noClientHello htype hhello _ hattempt _ hafter =>
      have hneither : ¬ (step.contentType = 0x14 ∨
          (learnHello step.conn step.isClientToServer step.body).isSome) := by
        rw [hhello]
        exact not_or.mpr ⟨htype, Bool.false_ne_true⟩
      rw [tally, hattempt, hafter, if_neg hneither]
      rfl
  | attempted _ _ _ result _ hattempt _ _ _ hafter =>
      rw [tally, hattempt, hafter]
      rfl
  | application _ _ _ decrypted _ hattempt _ _ _ hafter =>
      rw [tally, hattempt, hafter,
        dissectAndEmit_counters vm config Counters.tlsRecords fun _ _ => rfl]
      rfl

/-- The counters that no record moves: those of the evictions and of the lost bytes. -/
def frameCounters (counters : Counters) : ℕ × ℕ :=
  (counters.evictedConnections, counters.gapAbandonedBytes)

theorem frameCounters_after :
    frameCounters (step.after crypto vm config).2.1.counters =
      frameCounters step.shared.counters := by
  have hattempted : ∀ result,
      frameCounters (step.shared.counters + attemptCounters result) =
        frameCounters step.shared.counters := by
    rintro ((_ | _) | _) <;> rfl
  cases step.fate crypto vm config with
  | changeCipherSpec _ _ _ hafter =>
      rw [hafter]
      rfl
  | hello _ _ _ _ _ hafter =>
      rw [hafter]
      rfl
  | noClientHello _ _ _ _ _ hafter =>
      rw [hafter]
      rfl
  | attempted _ _ _ result _ _ _ _ _ hafter =>
      rw [hafter]
      exact hattempted result
  | application _ _ _ decrypted _ _ _ _ _ hafter =>
      rw [hafter]
      exact dissectAndEmit_counters vm config frameCounters (fun _ _ => rfl) _ _ _ _ _

theorem gapAbandonedBytes_after :
    (step.after crypto vm config).2.1.counters.gapAbandonedBytes =
      step.shared.counters.gapAbandonedBytes :=
  congrArg Prod.snd (step.frameCounters_after crypto vm config)

theorem evictedConnections_after :
    (step.after crypto vm config).2.1.counters.evictedConnections =
      step.shared.counters.evictedConnections :=
  congrArg Prod.fst (step.frameCounters_after crypto vm config)

/-- A record leaves the streams of its connection alone. -/
theorem sameStreams :
    step.conn.SameStreams step.isClientToServer (step.after crypto vm config).1 :=
  (processRecord_conn crypto vm config step.conn step.shared step.isClientToServer
    step.contentType step.body step.timestamp step.readings).1

end RecordStep

/-! ## The loop -/

section Loop

variable {σ : Type} (crypto : Crypto) (vm : LuaVm σ) (config : OrchestratorConfig)

/-- The iterations of the loop, from the `index`-th record of the call on. -/
def drainSteps (isClientToServer : Bool) (timestamp : Duration)
    (readings : ℕ → KeylogReadings) : ℕ → ℕ → Connection → Shared σ → List (RecordStep σ)
  | 0, _, _, _ => []
  | fuel + 1, index, conn, shared =>
      match nextRecord (conn.reassemblerFor isClientToServer) with
      | none => []
      | some ((contentType, body), rest) =>
          let step : RecordStep σ :=
            { conn := conn.setReassembler isClientToServer rest
              shared, isClientToServer, contentType, body, timestamp
              readings := readings index }
          let after := step.after crypto vm config
          step :: drainSteps isClientToServer timestamp readings fuel (index + 1) after.1 after.2.1

/-- The step takes the record at the front of its direction. -/
structure RecordStep.Takes (step : RecordStep σ) (isClientToServer : Bool) (conn : Connection)
    (shared : Shared σ) : Prop where
  direction : step.isClientToServer = isClientToServer
  shared : step.shared = shared
  record : ∃ rest, nextRecord (conn.reassemblerFor isClientToServer) =
    some ((step.contentType, step.body), rest) ∧
      step.conn = conn.setReassembler isClientToServer rest

/-- The steps lead from one state to another, each going on where the one before
stopped. -/
inductive Drains (isClientToServer : Bool) :
    Connection → Shared σ → List (RecordStep σ) → Connection → Shared σ → Prop
  | stop (conn : Connection) (shared : Shared σ) :
      Drains isClientToServer conn shared [] conn shared
  | take {conn : Connection} {shared : Shared σ} {step : RecordStep σ}
      {steps : List (RecordStep σ)} {last : Connection} {lastShared : Shared σ}
      (htakes : step.Takes isClientToServer conn shared)
      (hlater : Drains isClientToServer (step.after crypto vm config).1
        (step.after crypto vm config).2.1 steps last lastShared) :
      Drains isClientToServer conn shared (step :: steps) last lastShared

theorem drainStep_eq (conn : Connection) (shared : Shared σ) (isClientToServer : Bool)
    (timestamp : Duration) (readings : KeylogReadings) :
    drainStep crypto vm config conn shared isClientToServer timestamp readings =
      (nextRecord (conn.reassemblerFor isClientToServer)).map fun next =>
        processRecord crypto vm config (conn.setReassembler isClientToServer next.2) shared
          isClientToServer next.1.1 next.1.2 timestamp readings := by
  unfold drainStep nextRecord
  simp only
  split
  · rfl
  · split
    · rfl
    · cases (conn.reassemblerFor isClientToServer).takeBytes
          (recordLength ((conn.reassemblerFor isClientToServer).peek 5)) with
      | none => rfl
      | some taken => rfl

/-- The steps listed are those of the loop, and the messages are theirs. -/
theorem drainLoop_drains (isClientToServer : Bool) (timestamp : Duration)
    (readings : ℕ → KeylogReadings) (fuel index : ℕ) (conn : Connection) (shared : Shared σ) :
    let steps := drainSteps crypto vm config isClientToServer timestamp readings fuel index conn
      shared
    let after := drainLoop crypto vm config isClientToServer timestamp readings fuel index conn
      shared
    Drains crypto vm config isClientToServer conn shared steps after.1 after.2.1 ∧
      after.2.2 = steps.flatMap (fun step => (step.after crypto vm config).2.2) ∧
      ∀ step ∈ steps, step.timestamp = timestamp := by
  induction fuel generalizing index conn shared with
  | zero => exact ⟨.stop conn shared, rfl, fun _ hnone => absurd hnone List.not_mem_nil⟩
  | succ fuel ih =>
      unfold drainSteps drainLoop
      rw [drainStep_eq]
      cases hnext : nextRecord (conn.reassemblerFor isClientToServer) with
      | none => exact ⟨.stop conn shared, rfl, fun _ hnone => absurd hnone List.not_mem_nil⟩
      | some next =>
          obtain ⟨⟨contentType, body⟩, rest⟩ := next
          simp only [Option.map_some]
          set step : RecordStep σ :=
            ⟨conn.setReassembler isClientToServer rest, shared, isClientToServer, contentType,
              body, timestamp, readings index⟩ with hstep
          -- the later steps start from what this one leaves
          obtain ⟨hdrains, hmessages, htimestamps⟩ := ih (index + 1)
            (step.after crypto vm config).1 (step.after crypto vm config).2.1
          refine ⟨.take ⟨rfl, rfl, rest, hnext, rfl⟩ hdrains, ?_, ?_⟩
          · rw [List.flatMap_cons, ← hmessages]
            rfl
          · intro other hother
            rcases List.mem_cons.mp hother with rfl | hlater
            · rfl
            · exact htimestamps other hlater

/-- The records of the steps are those that are cut off the stream. -/
theorem drainSteps_records (isClientToServer : Bool) (timestamp : Duration)
    (readings : ℕ → KeylogReadings) (fuel index : ℕ) (conn : Connection) (shared : Shared σ) :
    (drainSteps crypto vm config isClientToServer timestamp readings fuel index conn shared).map
        (fun step => (step.contentType, step.body)) =
      (takeRecords fuel (conn.reassemblerFor isClientToServer)).1 := by
  induction fuel generalizing index conn shared with
  | zero => rfl
  | succ fuel ih =>
      unfold drainSteps takeRecords nextRecord
      split_ifs
      · rfl
      · rfl
      · cases (conn.reassemblerFor isClientToServer).takeBytes
            (recordLength ((conn.reassemblerFor isClientToServer).peek 5)) with
        | none => rfl
        | some taken =>
            obtain ⟨⟨record, pieces⟩, rest⟩ := taken
            simp only [List.map_cons, ih]
            congr 3
            rw [(RecordStep.sameStreams crypto vm config _).reassembler,
              Connection.reassemblerFor_setReassembler, if_pos rfl]

/-- The loop leaves the stream behind the records that are cut off. -/
theorem drainLoop_left (isClientToServer : Bool) (timestamp : Duration)
    (readings : ℕ → KeylogReadings) (fuel index : ℕ) (conn : Connection) (shared : Shared σ) :
    (drainLoop crypto vm config isClientToServer timestamp readings fuel index conn
        shared).1.reassemblerFor isClientToServer =
      (takeRecords fuel (conn.reassemblerFor isClientToServer)).2 := by
  induction fuel generalizing index conn shared with
  | zero => rfl
  | succ fuel ih =>
      unfold drainLoop takeRecords drainStep
      simp only
      split_ifs
      · rfl
      · rfl
      · cases (conn.reassemblerFor isClientToServer).takeBytes
            (recordLength ((conn.reassemblerFor isClientToServer).peek 5)) with
        | none => rfl
        | some taken =>
            obtain ⟨⟨record, pieces⟩, rest⟩ := taken
            simp only
            rw [ih, (processRecord_conn crypto vm config _ _ _ _ _ _ _).1.reassembler,
              Connection.reassemblerFor_setReassembler, if_pos rfl]

variable {crypto vm config}

/-- **A drained direction.**  What every step preserves holds before each of the
steps and after the last one. -/
theorem Drains.invariant {P : Connection → Shared σ → Prop} {isClientToServer : Bool}
    {conn last : Connection} {shared lastShared : Shared σ} {steps : List (RecordStep σ)}
    (h : Drains crypto vm config isClientToServer conn shared steps last lastShared)
    (hstep : ∀ conn shared (step : RecordStep σ), step.Takes isClientToServer conn shared →
      P conn shared → P (step.after crypto vm config).1 (step.after crypto vm config).2.1)
    (hstart : P conn shared) :
    P last lastShared ∧ ∀ step ∈ steps, ∃ conn, step.Takes isClientToServer conn step.shared ∧
      P conn step.shared := by
  induction h with
  | stop conn shared => exact ⟨hstart, fun _ hnone => absurd hnone List.not_mem_nil⟩
  | @take conn shared step steps last lastShared htakes hlater ih =>
      obtain ⟨hlast, hsteps⟩ := ih (hstep conn shared step htakes hstart)
      refine ⟨hlast, ?_⟩
      intro other hother
      rcases List.mem_cons.mp hother with rfl | hmem
      · have hshared := htakes.shared
        subst hshared
        exact ⟨conn, htakes, hstart⟩
      · exact hsteps other hmem

/-- Draining a direction leaves the stream of the other one alone, and the marks. -/
theorem Drains.otherStream {isClientToServer other : Bool} {conn last : Connection}
    {shared lastShared : Shared σ} {steps : List (RecordStep σ)}
    (h : Drains crypto vm config isClientToServer conn shared steps last lastShared)
    (hother : other ≠ isClientToServer) :
    last.reassemblerFor other = conn.reassemblerFor other ∧
      last.isDesynced other = conn.isDesynced other := by
  apply (h.invariant (P := fun middle _ => middle.reassemblerFor other =
    conn.reassemblerFor other ∧ middle.isDesynced other = conn.isDesynced other) _ ⟨rfl, rfl⟩).1
  intro middle shared step htakes hkept
  obtain ⟨rest, -, hconn⟩ := htakes.record
  have hsame := step.sameStreams crypto vm config
  rw [hsame.reassembler, hsame.desynced, hconn, Connection.reassemblerFor_setReassembler,
    if_neg hother, Connection.isDesynced_setReassembler]
  exact hkept

end Loop

/-! ## Frames and runs -/

section Frame

variable {σ : Type} (crypto : Crypto) (vm : LuaVm σ) (config : OrchestratorConfig)

/-- The iterations of one frame. -/
def frameSteps (found : Option Connection) (shared : Shared σ) (input : FrameInput) :
    List (RecordStep σ) :=
  let received := receive config found input
  let isClientToServer := direction config found input
  drainSteps crypto vm config isClientToServer input.timestamp input.keylogReadings
    (received.1.reassemblerFor isClientToServer).contiguousLen 0 received.1
    (shared.count received.2)

/-- **One frame.**  Its payload is received, the steps drain it, and its messages are
those of the steps. -/
theorem handleFrame_drains (found : Option Connection) (shared : Shared σ) (input : FrameInput) :
    let steps := frameSteps crypto vm config found shared input
    let after := handleFrame crypto vm config found shared input
    Drains crypto vm config (direction config found input) (receive config found input).1
        (shared.count (receive config found input).2) steps after.1 after.2.1 ∧
      after.2.2 = steps.flatMap (fun step => (step.after crypto vm config).2.2) ∧
      ∀ step ∈ steps, step.timestamp = input.timestamp := by
  unfold handleFrame
  simp only
  rw [receivePayload_add]
  exact drainLoop_drains crypto vm config (direction config found input) input.timestamp
    input.keylogReadings _ 0 (receive config found input).1
    (shared.count (receive config found input).2)

/-- The records of a frame are those its stream is cut into. -/
theorem frameSteps_records {found : Option Connection}
    (hfound : ∀ conn, found = some conn → conn.Bounded config) (shared : Shared σ)
    (input : FrameInput) :
    (frameSteps crypto vm config found shared input).map
        (fun step => (step.contentType, step.body)) =
      (recordFormat.parse ((receive config found input).1.reassemblerFor
        (direction config found input)).contiguousBytes).1.map recordOf := by
  have hdraining : (receive config found input).1.Draining config (direction config found input) :=
    draining_receivePayload (draining_noteFlags (bounded_openConnection hfound input) _ input) 0
      input
  unfold frameSteps
  simp only
  rw [drainSteps_records]
  exact (hdraining.invariant.toSized.takeRecords_eq le_rfl).1

end Frame

namespace Orchestrator

variable {σ : Type} (crypto : Crypto) (vm : LuaVm σ)

/-- The iterations of one call. -/
def recordSteps (orchestrator : Orchestrator σ) (input : FrameInput) : List (RecordStep σ) :=
  frameSteps crypto vm orchestrator.config (orchestrator.connections.lookup input.key)
    orchestrator.shared input

/-- The iterations of a run. -/
def runSteps (start : Orchestrator σ) (inputs : List FrameInput) : List (RecordStep σ) :=
  Machine.collect (processFrame crypto vm) (recordSteps crypto vm) start inputs

variable {crypto vm}

/-- The messages of a call are those of its iterations. -/
theorem messages_processFrame (orchestrator : Orchestrator σ) (input : FrameInput) :
    (orchestrator.processFrame crypto vm input).2.2 =
      (orchestrator.recordSteps crypto vm input).flatMap
        (fun step => (step.after crypto vm orchestrator.config).2.2) :=
  (handleFrame_drains crypto vm orchestrator.config (orchestrator.connections.lookup input.key)
    orchestrator.shared input).2.1

end Orchestrator

/-! ## Counters -/

section Counters

variable {σ : Type} {crypto : Crypto} {vm : LuaVm σ} {config : OrchestratorConfig}

/-- The counter belongs to the TLS records: no other event moves it. -/
def IsRecordCounter (counter : Counters → ℕ) : Prop :=
  ∀ a b : Counters, a.tlsRecords = b.tlsRecords → counter a = counter b

theorem receive_tlsRecords (found : Option Connection) (input : FrameInput)
    (counters : Counters) :
    (counters + (receive config found input).2).tlsRecords = counters.tlsRecords := by
  unfold receive receivePayload
  split
  · split
    · rfl
    · rfl
  · rfl

theorem Drains.counter {counter : Counters → ℕ} {adds : RecordStep σ → ℕ}
    {isClientToServer : Bool} {conn last : Connection} {shared lastShared : Shared σ}
    {steps : List (RecordStep σ)}
    (h : Drains crypto vm config isClientToServer conn shared steps last lastShared)
    (hadds : ∀ step ∈ steps, counter (step.after crypto vm config).2.1.counters =
      counter step.shared.counters + adds step) :
    counter lastShared.counters = counter shared.counters + (steps.map adds).sum := by
  induction h with
  | stop conn shared => rfl
  | @take conn shared step steps last lastShared htakes hlater ih =>
      calc counter lastShared.counters
          = counter (step.after crypto vm config).2.1.counters + (steps.map adds).sum :=
            ih fun other hother => hadds other (List.mem_cons_of_mem step hother)
        _ = counter shared.counters + adds step + (steps.map adds).sum := by
            rw [hadds step List.mem_cons_self, htakes.shared]
        _ = counter shared.counters + ((step :: steps).map adds).sum := by
            rw [List.map_cons, List.sum_cons, Nat.add_assoc]

namespace Orchestrator

/-- A call adds to the counter what its iterations add. -/
theorem counter_processFrame {counter : Counters → ℕ} (hcounter : IsRecordCounter counter)
    {adds : RecordStep σ → ℕ} (orchestrator : Orchestrator σ) (input : FrameInput)
    (hadds : ∀ step ∈ orchestrator.recordSteps crypto vm input,
      counter (step.after crypto vm orchestrator.config).2.1.counters =
        counter step.shared.counters + adds step) :
    counter (orchestrator.processFrame crypto vm input).1.shared.counters =
      counter orchestrator.shared.counters +
        ((orchestrator.recordSteps crypto vm input).map adds).sum := by
  set found := orchestrator.connections.lookup input.key
  obtain ⟨hdrains, -, -⟩ := handleFrame_drains crypto vm orchestrator.config found
    orchestrator.shared input
  have hapart := congrArg Counters.tlsRecords (counters_processFrame crypto vm orchestrator input)
  calc counter (orchestrator.processFrame crypto vm input).1.shared.counters
      = counter (handleFrame crypto vm orchestrator.config found
          orchestrator.shared input).2.1.counters := hcounter _ _ hapart
    _ = counter (orchestrator.shared.counters +
          (receive orchestrator.config found input).2) +
          ((orchestrator.recordSteps crypto vm input).map adds).sum := hdrains.counter hadds
    _ = counter orchestrator.shared.counters +
          ((orchestrator.recordSteps crypto vm input).map adds).sum := by
        rw [hcounter _ _ (receive_tlsRecords found input orchestrator.shared.counters)]

/-- **A counter of the TLS records.**  After a run it is what the iterations added. -/
theorem counter_run {counter : Counters → ℕ} (hcounter : IsRecordCounter counter)
    {adds : RecordStep σ → ℕ} (start : Orchestrator σ) (inputs : List FrameInput)
    (hadds : ∀ step ∈ runSteps crypto vm start inputs,
      counter (step.after crypto vm start.config).2.1.counters =
        counter step.shared.counters + adds step) :
    counter (Machine.run (processFrame crypto vm) start inputs).1.shared.counters =
      counter start.shared.counters + ((runSteps crypto vm start inputs).map adds).sum := by
  induction inputs generalizing start with
  | nil => rfl
  | cons input rest ih =>
      set next := (start.processFrame crypto vm input).1
      have hconfig : next.config = start.config := config_processFrame crypto vm start input
      have hnow := counter_processFrame hcounter start input
        fun step hstep => hadds step (List.mem_append_left _ hstep)
      have hlater := ih next fun step hstep => by
        rw [hconfig]
        exact hadds step (List.mem_append_right _ hstep)
      calc counter (Machine.run (processFrame crypto vm) start (input :: rest)).1.shared.counters
          = counter next.shared.counters + ((runSteps crypto vm next rest).map adds).sum := hlater
        _ = counter start.shared.counters + ((start.recordSteps crypto vm input).map adds).sum +
              ((runSteps crypto vm next rest).map adds).sum := by rw [hnow]
        _ = counter start.shared.counters +
              ((runSteps crypto vm start (input :: rest)).map adds).sum := by
            rw [Nat.add_assoc, ← List.sum_append, ← List.map_append]
            rfl

/-- After a run a counter is the number of iterations that moved it by one. -/
theorem counter_run_count {counter : Counters → ℕ} (hcounter : IsRecordCounter counter)
    {moves : RecordStep σ → Bool} (start : Orchestrator σ) (inputs : List FrameInput)
    (hmoves : ∀ step ∈ runSteps crypto vm start inputs,
      counter (step.after crypto vm start.config).2.1.counters =
        counter step.shared.counters + if moves step then 1 else 0) :
    counter (Machine.run (processFrame crypto vm) start inputs).1.shared.counters =
      counter start.shared.counters + (runSteps crypto vm start inputs).countP moves := by
  have hcount : ∀ steps : List (RecordStep σ),
      (steps.map fun step => if moves step then 1 else 0).sum = steps.countP moves := by
    intro steps
    induction steps with
    | nil => rfl
    | cons step rest ih => rw [List.map_cons, List.sum_cons, ih, List.countP_cons, Nat.add_comm]
  rw [counter_run hcounter start inputs hmoves, hcount]

end Orchestrator

end Counters

end Tlscap
