import Tlscap.Orchestrator.Model
import Tlscap.Reassembly.Invariant

/-!
# What one frame can do

The step lemmas of the orchestrator.  They say what each function can do, so that the
functions need not be unfolded again:

* **A record** changes the decrypt state and the tail of its own direction, and nothing else
  of the connection (`processRecord_conn`).
* **An iteration** of the drain loop takes exactly one complete record off the front of the
  stream (`drainStep_eq_some`), and there is none only where no complete record is left
  (`drainStep_eq_none`).
* **The loop** keeps what every iteration keeps (`drainLoop_induction`).
* **Its end.**  Every iteration takes at least the five bytes of a header, and the fuel is the
  number of buffered bytes, so the loop ends by itself before its fuel does
  (`drainLoop_complete`).
-/

namespace Tlscap

namespace Connection

variable (conn : Connection) (c d : Bool)

@[simp] theorem reassemblerFor_setReassembler (r : StreamReassembler) :
    (conn.setReassembler c r).reassemblerFor d = if d = c then r else conn.reassemblerFor d := by
  cases c <;> cases d <;> rfl

@[simp] theorem tail_setReassembler (r : StreamReassembler) :
    (conn.setReassembler c r).tail d = conn.tail d := by
  cases c <;> cases d <;> rfl

@[simp] theorem isDesynced_setReassembler (r : StreamReassembler) :
    (conn.setReassembler c r).isDesynced d = conn.isDesynced d := by
  cases c <;> cases d <;> rfl

@[simp] theorem info_setReassembler (r : StreamReassembler) :
    (conn.setReassembler c r).info = conn.info := by
  cases c <;> rfl

@[simp] theorem clientEndpoint_setReassembler (r : StreamReassembler) :
    (conn.setReassembler c r).clientEndpoint = conn.clientEndpoint := by
  cases c <;> rfl

@[simp] theorem serverEndpoint_setReassembler (r : StreamReassembler) :
    (conn.setReassembler c r).serverEndpoint = conn.serverEndpoint := by
  cases c <;> rfl

@[simp] theorem tail_setTail (bytes : Bytes) :
    (conn.setTail c bytes).tail d = if d = c then bytes else conn.tail d := by
  cases c <;> cases d <;> rfl

@[simp] theorem setTail_setTail (first second : Bytes) :
    (conn.setTail c first).setTail c second = conn.setTail c second := by
  cases c <;> rfl

@[simp] theorem reassemblerFor_setTail (bytes : Bytes) :
    (conn.setTail c bytes).reassemblerFor d = conn.reassemblerFor d := by
  cases c <;> cases d <;> rfl

@[simp] theorem reassemblerFor_markDesynced (limits : PendingLimits) :
    (conn.markDesynced c limits).reassemblerFor d =
      if d = c then StreamReassembler.withPendingLimits limits else conn.reassemblerFor d := by
  cases c <;> cases d <;> rfl

@[simp] theorem tail_markDesynced (limits : PendingLimits) :
    (conn.markDesynced c limits).tail d = conn.tail d := by
  cases c <;> cases d <;> rfl

@[simp] theorem info_markDesynced (limits : PendingLimits) :
    (conn.markDesynced c limits).info = conn.info := by
  cases c <;> rfl

@[simp] theorem clientEndpoint_markDesynced (limits : PendingLimits) :
    (conn.markDesynced c limits).clientEndpoint = conn.clientEndpoint := by
  cases c <;> rfl

/-- The two connections differ at most in the decrypt state and in the tail of one
direction. -/
structure SameStreams (isClientToServer : Bool) (before after : Connection) : Prop where
  clientEndpoint : after.clientEndpoint = before.clientEndpoint
  serverEndpoint : after.serverEndpoint = before.serverEndpoint
  reassembler : ∀ other, after.reassemblerFor other = before.reassemblerFor other
  desynced : ∀ other, after.isDesynced other = before.isDesynced other
  info : after.info = before.info
  otherTail : ∀ other, other ≠ isClientToServer → after.tail other = before.tail other

theorem SameStreams.refl : SameStreams d conn conn :=
  ⟨rfl, rfl, fun _ => rfl, fun _ => rfl, rfl, fun _ _ => rfl⟩

theorem sameStreams_state (state : Option ConnectionState) :
    SameStreams d conn { conn with state } :=
  ⟨rfl, rfl, fun _ => rfl, fun _ => rfl, rfl, fun _ _ => rfl⟩

theorem sameStreams_setTail (bytes : Bytes) : SameStreams d conn (conn.setTail d bytes) := by
  refine ⟨?_, ?_, ?_, ?_, ?_, ?_⟩
  · cases d <;> rfl
  · cases d <;> rfl
  · exact fun other => reassemblerFor_setTail conn d other bytes
  · rintro (_ | _) <;> cases d <;> rfl
  · cases d <;> rfl
  · intro other hother
    rw [tail_setTail, if_neg hother]

variable {conn d}

theorem SameStreams.trans {before middle after : Connection}
    (hfirst : SameStreams d before middle) (hsecond : SameStreams d middle after) :
    SameStreams d before after where
  clientEndpoint := hsecond.clientEndpoint.trans hfirst.clientEndpoint
  serverEndpoint := hsecond.serverEndpoint.trans hfirst.serverEndpoint
  reassembler other := (hsecond.reassembler other).trans (hfirst.reassembler other)
  desynced other := (hsecond.desynced other).trans (hfirst.desynced other)
  info := hsecond.info.trans hfirst.info
  otherTail other hother := (hsecond.otherTail other hother).trans (hfirst.otherTail other hother)

end Connection

section Record

variable {σ : Type} (crypto : Crypto) (vm : LuaVm σ) (config : OrchestratorConfig)

/-! ## One record -/

theorem setTailCapped_fst (conn : Connection) (counters : Counters) (isClientToServer : Bool)
    (bytes : Bytes) :
    (setTailCapped config conn counters isClientToServer bytes).1 =
      conn.setTail isClientToServer (bytes.drop (bytes.length - config.maxTailBytes)) := by
  unfold setTailCapped
  split
  · rfl
  · rename_i hfits
    rw [Nat.sub_eq_zero_of_le (by omega), List.drop_zero]

/-- What dissecting leaves: a tail for its direction, within the cap. -/
theorem dissectAndEmit_conn (conn : Connection) (shared : Shared σ) (isClientToServer : Bool)
    (plaintext : Bytes) (timestamp : Duration) :
    ∃ bytes : Bytes, bytes.length ≤ config.maxTailBytes ∧
      (dissectAndEmit vm config conn shared isClientToServer plaintext timestamp).1 =
        conn.setTail isClientToServer bytes := by
  have hcapped : ∀ bytes : Bytes,
      (bytes.drop (bytes.length - config.maxTailBytes)).length ≤ config.maxTailBytes := by
    intro bytes
    rw [List.length_drop]
    omega
  unfold dissectAndEmit
  simp only
  rcases hdissect : vm.dissect shared.lua (conn.setTail isClientToServer []).serverEndpoint.port
    (conn.tail isClientToServer ++ plaintext) with ⟨lua, _ | (_ | ⟨dissected, consumed⟩)⟩
  · refine ⟨_, hcapped (conn.tail isClientToServer ++ plaintext), ?_⟩
    simp only [setTailCapped_fst, Connection.setTail_setTail]
  · exact ⟨[], Nat.zero_le _, rfl⟩
  · refine ⟨_, hcapped ((conn.tail isClientToServer ++ plaintext).drop
      (min consumed (conn.tail isClientToServer ++ plaintext).length)), ?_⟩
    simp only [setTailCapped_fst, Connection.setTail_setTail]

/-- **An attempt** decrypts with the polled keylog, and leaves a reader that may have
polled once more after a miss. -/
theorem attemptDecrypt_spec (crypto : Crypto) (source : KeylogSource) (state : ConnectionState)
    (readings : KeylogReadings) (isClientToServer : Bool) (outerContentType : UInt8)
    (body : Bytes) :
    let polled := source.poll crypto.hexDecode readings.pollClock readings.pollReload
    let attempt := attemptDecrypt crypto source state readings isClientToServer outerContentType
      body
    (attempt.1 = polled ∨
        attempt.1 = polled.pollAfterMiss crypto.hexDecode readings.missSignature
          readings.missReload) ∧
      attempt.2 = state.decrypt crypto polled.current isClientToServer outerContentType body := by
  intro polled attempt
  unfold attempt attemptDecrypt
  simp only
  rcases state.decrypt crypto
    (source.poll crypto.hexDecode readings.pollClock readings.pollReload).current
    isClientToServer outerContentType body with ⟨state, (_ | _) | record⟩
  · exact ⟨.inr rfl, rfl⟩
  · exact ⟨.inl rfl, rfl⟩
  · exact ⟨.inl rfl, rfl⟩

/-- Recognizing a hello only sets the decrypt state. -/
theorem learnHello_eq_some {conn conn' : Connection} {isClientToServer : Bool} {body : Bytes}
    (h : learnHello conn isClientToServer body = some conn') :
    ∃ state, conn' = { conn with state := some state } := by
  unfold learnHello at h
  split at h
  · split at h
    · cases h
      exact ⟨_, rfl⟩
    · cases h
  · split at h
    · split at h
      · cases h
        exact ⟨_, rfl⟩
      · cases h
    · cases h

/-- **One record.**  It leaves the streams, the endpoints and the lifecycle of the
connection alone, and what it leaves as the tail of its direction is the old tail
or within the cap. -/
theorem processRecord_conn (conn : Connection) (shared : Shared σ) (isClientToServer : Bool)
    (outerContentType : UInt8) (body : Bytes) (timestamp : Duration)
    (readings : KeylogReadings) :
    let after := (processRecord crypto vm config conn shared isClientToServer outerContentType
      body timestamp readings).1
    conn.SameStreams isClientToServer after ∧
      (after.tail isClientToServer = conn.tail isClientToServer ∨
        (after.tail isClientToServer).length ≤ config.maxTailBytes) := by
  have hstate : ∀ state : Option ConnectionState,
      ({ conn with state } : Connection).tail isClientToServer = conn.tail isClientToServer :=
    fun _ => rfl
  unfold processRecord
  simp only
  split
  · exact ⟨Connection.SameStreams.refl conn isClientToServer, .inl rfl⟩
  · split
    · rename_i conn' hhello
      obtain ⟨state, rfl⟩ := learnHello_eq_some hhello
      exact ⟨conn.sameStreams_state isClientToServer _, .inl (hstate _)⟩
    · split
      · exact ⟨Connection.SameStreams.refl conn isClientToServer, .inl rfl⟩
      · -- only application data is dissected, and only that touches a tail
        rename_i state hknown
        rcases attemptDecrypt crypto shared.keylog state readings isClientToServer
          outerContentType body with ⟨keylog, state, (_ | _) | decrypted⟩
        · exact ⟨conn.sameStreams_state isClientToServer _, .inl (hstate _)⟩
        · exact ⟨conn.sameStreams_state isClientToServer _, .inl (hstate _)⟩
        · simp only
          split
          · obtain ⟨bytes, hbytes, hafter⟩ := dissectAndEmit_conn vm config
              { conn with state := some state } _ isClientToServer decrypted.plaintext timestamp
            rw [hafter]
            refine ⟨(conn.sameStreams_state isClientToServer _).trans
              (Connection.sameStreams_setTail _ isClientToServer bytes), .inr ?_⟩
            rw [Connection.tail_setTail, if_pos rfl]
            exact hbytes
          · exact ⟨conn.sameStreams_state isClientToServer _, .inl (hstate _)⟩

/-! ## The drain loop -/

theorem recordLength_le (header : Bytes) : recordLength header ≤ 5 + 65535 := by
  have hhigh := (header.getD 3 0).toNat_lt
  have hlow := (header.getD 4 0).toNat_lt
  unfold recordLength u16FromBeBytes
  omega

/-- The stream does not start with a complete record: the loop ends there. -/
def StreamReassembler.Drained (r : StreamReassembler) : Prop :=
  r.contiguousLen < 5 ∨ r.contiguousLen < recordLength (r.peek 5)

theorem StreamReassembler.Drained.contiguousLen_lt {r : StreamReassembler} (h : r.Drained) :
    r.contiguousLen < 5 + 65535 := by
  have hlength := recordLength_le (r.peek 5)
  rcases h with hheader | hrecord <;> omega

/-- What an iteration of the loop does: one complete record is taken off the front
and processed. -/
theorem drainStep_eq_some {conn : Connection} {shared : Shared σ} {isClientToServer : Bool}
    {timestamp : Duration} {readings : KeylogReadings}
    {after : Connection × Shared σ × List DecodedMessage}
    (h : drainStep crypto vm config conn shared isClientToServer timestamp readings =
      some after) :
    ∃ record pieces r,
      5 ≤ (conn.reassemblerFor isClientToServer).contiguousLen ∧
      recordLength ((conn.reassemblerFor isClientToServer).peek 5) ≤
        (conn.reassemblerFor isClientToServer).contiguousLen ∧
      (conn.reassemblerFor isClientToServer).takeBytes
          (recordLength ((conn.reassemblerFor isClientToServer).peek 5)) =
        some ((record, pieces), r) ∧
      after = processRecord crypto vm config (conn.setReassembler isClientToServer r) shared
        isClientToServer (((conn.reassemblerFor isClientToServer).peek 5).getD 0 0)
        (record.drop 5) timestamp readings := by
  unfold drainStep at h
  simp only at h
  split at h
  · cases h
  · rename_i hheader
    split at h
    · cases h
    · rename_i hrecord
      split at h
      · cases h
      · rename_i record pieces r htake
        cases h
        exact ⟨record, pieces, r, by omega, by omega, htake, rfl⟩

/-- The loop ends only where no complete record is left. -/
theorem drainStep_eq_none {conn : Connection} {shared : Shared σ} {isClientToServer : Bool}
    {timestamp : Duration} {readings : KeylogReadings}
    (hsized : (conn.reassemblerFor isClientToServer).Sized)
    (h : drainStep crypto vm config conn shared isClientToServer timestamp readings = none) :
    (conn.reassemblerFor isClientToServer).Drained := by
  unfold drainStep at h
  simp only at h
  split at h
  · exact .inl ‹_›
  · split at h
    · exact .inr ‹_›
    · rename_i hrecord
      obtain ⟨pieces, r, htake, -⟩ := hsized.takeBytes (Nat.le_of_not_lt hrecord)
      rw [htake] at h
      cases h

/-- The reassembler an iteration leaves: its contiguous bytes without the record. -/
theorem drainStep_reassembler {conn : Connection} {shared : Shared σ} {isClientToServer : Bool}
    {timestamp : Duration} {readings : KeylogReadings}
    {after : Connection × Shared σ × List DecodedMessage}
    (h : drainStep crypto vm config conn shared isClientToServer timestamp readings =
      some after) :
    ∃ record pieces, (conn.reassemblerFor isClientToServer).takeBytes
        (recordLength ((conn.reassemblerFor isClientToServer).peek 5)) =
          some ((record, pieces), after.1.reassemblerFor isClientToServer) ∧
      (∀ other, other ≠ isClientToServer →
        after.1.reassemblerFor other = conn.reassemblerFor other) ∧
      after.1.info = conn.info ∧ after.1.clientEndpoint = conn.clientEndpoint ∧
      after.1.serverEndpoint = conn.serverEndpoint ∧
      (∀ other, after.1.isDesynced other = conn.isDesynced other) ∧
      ∀ other, after.1.tail other = conn.tail other ∨
        (after.1.tail other).length ≤ config.maxTailBytes := by
  obtain ⟨record, pieces, r, -, -, htake, rfl⟩ := drainStep_eq_some crypto vm config h
  obtain ⟨hsame, htail⟩ := processRecord_conn crypto vm config
    (conn.setReassembler isClientToServer r) shared isClientToServer
    (((conn.reassemblerFor isClientToServer).peek 5).getD 0 0) (record.drop 5) timestamp readings
  -- taking the record off changes one reassembler, and the record itself no stream
  refine ⟨record, pieces, ?_, ?_, ?_, ?_, ?_, ?_, ?_⟩
  · rw [hsame.reassembler, Connection.reassemblerFor_setReassembler, if_pos rfl]
    exact htake
  · intro other hother
    rw [hsame.reassembler, Connection.reassemblerFor_setReassembler, if_neg hother]
  · rw [hsame.info, Connection.info_setReassembler]
  · rw [hsame.clientEndpoint, Connection.clientEndpoint_setReassembler]
  · rw [hsame.serverEndpoint, Connection.serverEndpoint_setReassembler]
  · intro other
    rw [hsame.desynced, Connection.isDesynced_setReassembler]
  · intro other
    by_cases hother : other = isClientToServer
    · subst hother
      rcases htail with hkept | hcapped
      · left
        rw [hkept, Connection.tail_setReassembler]
      · exact .inr hcapped
    · left
      rw [hsame.otherTail other hother, Connection.tail_setReassembler]

/-- Induction over the drain loop: what every iteration preserves holds at the end. -/
theorem drainLoop_induction {P : Connection → Shared σ → Prop} {isClientToServer : Bool}
    {timestamp : Duration} {readings : ℕ → KeylogReadings}
    (hstep : ∀ index conn shared after,
      drainStep crypto vm config conn shared isClientToServer timestamp (readings index) =
        some after → P conn shared → P after.1 after.2.1)
    (fuel index : ℕ) {conn : Connection} {shared : Shared σ} (hstart : P conn shared) :
    P (drainLoop crypto vm config isClientToServer timestamp readings fuel index conn shared).1
      (drainLoop crypto vm config isClientToServer timestamp readings fuel index conn
        shared).2.1 := by
  induction fuel generalizing index conn shared with
  | zero => exact hstart
  | succ fuel ih =>
      rw [drainLoop]
      cases hdrain : drainStep crypto vm config conn shared isClientToServer timestamp
          (readings index) with
      | none => exact hstart
      | some after => exact ih (index + 1) (hstep index conn shared after hdrain hstart)

/-- With the buffered bytes as its fuel, the loop runs until it ends by itself. -/
theorem drainLoop_complete {isClientToServer : Bool} (timestamp : Duration)
    (readings : ℕ → KeylogReadings) (fuel index : ℕ) {conn : Connection} (shared : Shared σ)
    (hsized : (conn.reassemblerFor isClientToServer).Sized)
    (hfuel : (conn.reassemblerFor isClientToServer).contiguousLen ≤ fuel) :
    ((drainLoop crypto vm config isClientToServer timestamp readings fuel index conn
      shared).1.reassemblerFor isClientToServer).Drained := by
  induction fuel generalizing index conn shared with
  | zero =>
      have hempty : (conn.reassemblerFor isClientToServer).contiguousLen < 5 := by omega
      exact .inl hempty
  | succ fuel ih =>
      rw [drainLoop]
      cases hdrain : drainStep crypto vm config conn shared isClientToServer timestamp
          (readings index) with
      | none => exact drainStep_eq_none crypto vm config hsized hdrain
      | some after =>
          obtain ⟨record, pieces, htake, -⟩ := drainStep_reassembler crypto vm config hdrain
          obtain ⟨_, _, _, hheader, hrecord, -⟩ := drainStep_eq_some crypto vm config hdrain
          obtain ⟨hrecordBytes, hleft, hframe⟩ := hsized.takeBytes_cases htake
          have hlength := congrArg StreamReassembler.contiguousLen hframe
          simp only [recordLength] at hlength hrecord
          apply ih (index + 1) after.2.1
          · refine ⟨?_, ?_, ?_⟩
            · rw [hleft, List.length_drop, hlength, hsized.contiguousLen_eq]
              rfl
            · rw [hframe]
              exact hsized.pendingLen_eq
            · rw [hframe]
              exact hsized.pending_pos
          · omega

/-- After draining, less than one complete record is left. -/
theorem drainRecords_complete {conn : Connection} (shared : Shared σ) {isClientToServer : Bool}
    (timestamp : Duration) (readings : ℕ → KeylogReadings)
    (hsized : (conn.reassemblerFor isClientToServer).Sized) :
    ((drainRecords crypto vm config conn shared isClientToServer timestamp
      readings).1.reassemblerFor isClientToServer).Drained :=
  drainLoop_complete crypto vm config timestamp readings
    (conn.reassemblerFor isClientToServer).contiguousLen 0 shared hsized (Nat.le_refl _)

end Record

end Tlscap
