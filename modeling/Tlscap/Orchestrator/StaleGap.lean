import Tlscap.Orchestrator.Accounting
import Tlscap.Orchestrator.Close
import Tlscap.Reassembly.Age

/-!
# Gaps older than the age limit

The age of a gap is looked at where a segment of its direction is buffered behind it, and
nowhere else.  A call at which the gap is too old leaves it open unless its frame reaches the
gap (`Connection.ReachesGap`) or takes the whole entry away: a pure ACK, a retransmission or
a frame of the other direction does not (`stale_gaps_iff`).

## Strategy

A gap is known by its cursor: the position of the byte that is missing.  `SameGap` says that a
state has the cursor, the pending data and the clock of another.

* **A frame that does not reach the gap** leaves the same gap (`handleFrame_sameGap`), be it
  of the other direction, without a payload, or a retransmission of what was delivered.
* **A frame that reaches it** brings the missing byte, which moves the cursor, or is
  buffered, and then the age is looked at; a gap that is too old is given up
  (`handleFrame_ends`).
* **The entry** goes if the frame closes its connection, or if the sweep of the call finds it
  idle (`lookup_own_iff`); that is the only other way for a gap to end.

That a gap has been open for long is a statement about the frames since, and the age is that
of the clock.  Both agree where the clock does not run backwards: the clock of a gap that
stays open at one cursor was started before any frame that found it open (`since_gapSince`),
as nothing but an empty buffer stops it.  So a segment buffered behind a gap that has been
open for too long finds it too old.
-/

namespace Tlscap

/-! ## The gap of a reassembler -/

namespace StreamReassembler

variable {r : StreamReassembler}

/-- The second state has the cursor, the pending data and the clock of the first. -/
structure SameGap (r r' : StreamReassembler) : Prop where
  next : r'.nextExpectedRelative = r.nextExpectedRelative
  pending : r'.pending = r.pending
  since : r'.pendingSince = r.pendingSince

theorem SameGap.trans {r' last : StreamReassembler} (h : r.SameGap r') (hlast : r'.SameGap last) :
    r.SameGap last :=
  ⟨hlast.next.trans h.next, hlast.pending.trans h.pending, hlast.since.trans h.since⟩

theorem sameGap_setIsn (r : StreamReassembler) (seq : UInt32) : r.SameGap (r.setIsn seq) := by
  unfold setIsn
  split <;> exact ⟨rfl, rfl, rfl⟩

theorem LeftOf.sameGap {left : StreamReassembler} (h : r.LeftOf left) : r.SameGap left := by
  have hnext := congrArg nextExpectedRelative h.frame
  have hpending := congrArg StreamReassembler.pending h.frame
  have hsince := congrArg pendingSince h.frame
  exact ⟨hnext, hpending, hsince⟩

/-- The payload holds the byte at the cursor, or has to wait behind the gap there. -/
def Reaches (r : StreamReassembler) (seq : UInt32) (payload : Bytes) : Prop :=
  r.Advances seq payload ∨ r.Buffers seq payload

instance (r : StreamReassembler) (seq : UInt32) (payload : Bytes) :
    Decidable (r.Reaches seq payload) :=
  inferInstanceAs (Decidable (_ ∨ _))

theorem Reaches.ne_nil {seq : UInt32} {payload : Bytes} (h : r.Reaches seq payload) :
    payload ≠ [] := by
  rcases h with ⟨hle, hlt⟩ | hbuffers
  · rintro rfl
    exact absurd (lt_of_le_of_lt hle hlt) (lt_irrefl _)
  · exact hbuffers.1

section Push

variable {seq : UInt32} {payload : Bytes} {opened checked : Instant}
  {after : PushOutcome × StreamReassembler}

/-- A payload that does not reach the gap leaves it as it is. -/
theorem PushEffect.sameGap (h : r.PushEffect seq payload opened checked after)
    (hdelivered : after.1 = .delivered ↔ r.Advances seq payload)
    (hreaches : ¬r.Reaches seq payload) : r.SameGap after.2 := by
  cases h with
  | discards _ hnext hpending hsince => exact ⟨hnext, hpending, hsince⟩
  | delivers => exact absurd (.inl (hdelivered.mp rfl)) hreaches
  | buffers hbuffers => exact absurd (.inr hbuffers) hreaches

theorem PushEffect.reaches_of_abandons (h : r.PushEffect seq payload opened checked after)
    (hgap : after.1.isGapAbandoned = true) : r.Reaches seq payload := by
  cases h with
  | discards => cases hgap
  | delivers => cases hgap
  | buffers hbuffers => exact .inr hbuffers

/-- A payload that reaches a gap which is too old moves the cursor or gives up the gap. -/
theorem PushEffect.ends (h : r.PushEffect seq payload opened checked after)
    (hdelivered : after.1 = .delivered ↔ r.Advances seq payload)
    (hreaches : r.Reaches seq payload) (hexpired : r.gapExpired opened checked = true) :
    r.nextExpectedRelative < after.2.nextExpectedRelative ∨ after.1.isGapAbandoned = true := by
  cases h with
  | discards hbuffers =>
      rcases hreaches with hadvances | hreaches
      · cases hdelivered.mpr hadvances
      · exact absurd hreaches hbuffers
  | delivers _ hnext => exact .inl hnext
  | buffers _ _ hold => exact .inr (hold hexpired).1

end Push

end StreamReassembler

/-! ## One frame -/

/-- The payload is pushed into the direction, and reaches its gap. -/
def Connection.ReachesGap (conn : Connection) (isClientToServer : Bool) (input : FrameInput) :
    Prop :=
  conn.isDesynced isClientToServer = false ∧
    (conn.reassemblerFor isClientToServer).Reaches input.frame.seq input.payload

instance (conn : Connection) (isClientToServer : Bool) (input : FrameInput) :
    Decidable (conn.ReachesGap isClientToServer input) :=
  inferInstanceAs (Decidable (_ ∧ _))

section Frame

variable {σ : Type} (crypto : Crypto) (vm : LuaVm σ) {config : OrchestratorConfig}
  {found : Option Connection} {isClientToServer : Bool}

theorem sameGap_noted (config : OrchestratorConfig) (found : Option Connection)
    (input : FrameInput) (isClientToServer : Bool) :
    ((openConnection config found input).reassemblerFor isClientToServer).SameGap
      ((noted config found input).reassemblerFor isClientToServer) := by
  unfold noted
  rw [reassemblerFor_noteFlags]
  split
  · exact StreamReassembler.sameGap_setIsn _ _
  · exact ⟨rfl, rfl, rfl⟩

theorem pendingSince_openConnection_none (config : OrchestratorConfig) (input : FrameInput)
    (isClientToServer : Bool) :
    ((openConnection config none input).reassemblerFor isClientToServer).pendingSince = none := by
  unfold openConnection
  dsimp only
  split <;> cases isClientToServer <;> rfl

/-- **The direction of a frame.**  Its gap is as it was, or the payload reaches it: then the
push decides, and if it abandons the gap nothing is pending any more. -/
theorem handleFrame_ownGap (hfound : ∀ conn, found = some conn → conn.Bounded config)
    (shared : Shared σ) (input : FrameInput) :
    let d := direction config found input
    let r := (noted config found input).reassemblerFor d
    let left := (handleFrame crypto vm config found shared input).1.reassemblerFor d
    ¬(noted config found input).ReachesGap d input ∧ r.SameGap left ∨
      (noted config found input).ReachesGap d input ∧ ∃ after,
        r.PushEffect input.frame.seq input.payload input.clock.gapOpened input.clock.gapChecked
          after ∧
        (after.1 = .delivered ↔ r.Advances input.frame.seq input.payload) ∧
        (after.1.isGapAbandoned = false ∧ after.2.SameGap left ∨
          after.1.isGapAbandoned = true ∧ left.pending.entries = [] ∧
            left.pendingSince = none) := by
  intro d r left
  have hleft := leftOf_handleFrame crypto vm hfound shared input
  have hreceive : receive config found input =
    receivePayload config (noted config found input) 0 d input := rfl
  have hinvariant : r.Invariant :=
    (draining_noteFlags (bounded_openConnection hfound input) d input).invariant
  have heffect := hinvariant.pushEffect input.packetIndex input.frame.seq
    input.frame.payloadRange input.payload input.clock.gapOpened input.clock.gapChecked
  have hdelivered := r.push_eq_delivered_iff input.packetIndex input.frame.seq
    input.frame.payloadRange input.payload input.clock.gapOpened input.clock.gapChecked
  rcases receivePayload_cases (noted config found input) d input with
    ⟨hignored, hreceived⟩ | ⟨-, hsynced, hkept, hreceived⟩ | ⟨⟨-, hsynced, hgap⟩, hreceived⟩
  · -- an empty payload, or one for a desynced direction, is not pushed
    rw [hreceive, hreceived] at hleft
    refine .inl ⟨fun hreaches => ?_, hleft.sameGap⟩
    rcases hignored with hempty | hdesynced
    · exact hreaches.2.ne_nil hempty
    · exact absurd (hreaches.1.symm.trans hdesynced) Bool.false_ne_true
  · -- pushed and kept: the gap is as it was unless the payload reaches it
    rw [hreceive, hreceived, Connection.reassemblerFor_setReassembler, if_pos rfl] at hleft
    by_cases hreaches : r.Reaches input.frame.seq input.payload
    · exact .inr ⟨⟨hsynced, hreaches⟩, _, heffect, hdelivered, .inl ⟨hkept, hleft.sameGap⟩⟩
    · exact .inl ⟨fun h => hreaches h.2, (heffect.sameGap hdelivered hreaches).trans hleft.sameGap⟩
  · -- a gap that is abandoned was reached, and the reassembler is a new one
    rw [hreceive, hreceived, Connection.reassemblerFor_markDesynced, if_pos rfl] at hleft
    refine .inr ⟨⟨hsynced, heffect.reaches_of_abandons hgap⟩, _, heffect, hdelivered,
      .inr ⟨hgap, ?_, hleft.sameGap.since⟩⟩
    rw [hleft.sameGap.pending]
    rfl

/-- A frame that does not reach the gap of a direction leaves it as it is. -/
theorem handleFrame_sameGap (hfound : ∀ conn, found = some conn → conn.Bounded config)
    (shared : Shared σ) (input : FrameInput)
    (hreaches : ¬(direction config found input = isClientToServer ∧
      (noted config found input).ReachesGap isClientToServer input)) :
    ((noted config found input).reassemblerFor isClientToServer).SameGap
      ((handleFrame crypto vm config found shared input).1.reassemblerFor isClientToServer) := by
  by_cases hown : direction config found input = isClientToServer
  · subst hown
    rcases handleFrame_ownGap crypto vm hfound shared input with ⟨-, hsame⟩ | ⟨hreaches', -⟩
    · exact hsame
    · exact absurd ⟨rfl, hreaches'⟩ hreaches
  · rw [handleFrame_otherStream shared input (Ne.symm hown)]
    exact ⟨rfl, rfl, rfl⟩

/-- A running clock was running before the frame, or was started by it. -/
theorem handleFrame_since (hfound : ∀ conn, found = some conn → conn.Bounded config)
    (shared : Shared σ) (input : FrameInput) {since : Instant}
    (hsince : ((handleFrame crypto vm config found shared input).1.reassemblerFor
      isClientToServer).pendingSince = some since) :
    let before := ((noted config found input).reassemblerFor isClientToServer).pendingSince
    before = some since ∨ before = none ∧ since = input.clock.gapOpened := by
  intro before
  by_cases hown : direction config found input = isClientToServer
  · subst hown
    rcases handleFrame_ownGap crypto vm hfound shared input with
      ⟨-, hsame⟩ | ⟨-, after, heffect, -, ⟨-, hsame⟩ | ⟨-, -, hnone⟩⟩
    · exact .inl (hsame.since.symm.trans hsince)
    · exact heffect.since (hsame.since.symm.trans hsince)
    · cases hnone.symm.trans hsince
  · rw [handleFrame_otherStream shared input (Ne.symm hown)] at hsince
    exact .inl hsince

/-- A frame that reaches a gap which is too old moves the cursor or gives up the gap. -/
theorem handleFrame_ends (hfound : ∀ conn, found = some conn → conn.Bounded config)
    (shared : Shared σ) (input : FrameInput)
    (hown : direction config found input = isClientToServer)
    (hreaches : (noted config found input).ReachesGap isClientToServer input)
    (hexpired : ((noted config found input).reassemblerFor isClientToServer).gapExpired
      input.clock.gapOpened input.clock.gapChecked = true) :
    let left := (handleFrame crypto vm config found shared input).1.reassemblerFor isClientToServer
    ((noted config found input).reassemblerFor isClientToServer).nextExpectedRelative <
        left.nextExpectedRelative ∨
      left.pending.entries = [] := by
  intro left
  subst hown
  rcases handleFrame_ownGap crypto vm hfound shared input with
    ⟨hneither, -⟩ | ⟨-, after, heffect, hdelivered, ⟨hkept, hsame⟩ | ⟨-, hnil, -⟩⟩
  · exact absurd hreaches hneither
  · refine .inl ?_
    rw [hsame.next]
    exact (heffect.ends hdelivered hreaches.2 hexpired).resolve_right (by rw [hkept]; decide)
  · exact .inr hnil

end Frame

/-! ## The entry of the frame -/

/-- The readings of a call that tell how long a gap has been open. -/
def FrameInput.gapReadings (input : FrameInput) : List Instant :=
  [input.clock.gapOpened, input.clock.gapChecked]

namespace Orchestrator

variable {σ : Type} {crypto : Crypto} {vm : LuaVm σ} {orchestrator start : Orchestrator σ}

/-- The sweep of the call finds the frame's own connection idle. -/
def SweepsOwn (orchestrator : Orchestrator σ) (input : FrameInput) : Prop :=
  ∃ idleTimeout, orchestrator.config.idleTimeout = some idleTimeout ∧
    orchestrator.config.sweepInterval ≤
      elapsed orchestrator.lastSweep input.clock.sweepChecked ∧
    idleTimeout ≤ input.clock.sweepNow - input.clock.activity

instance (orchestrator : Orchestrator σ) (input : FrameInput) :
    Decidable (orchestrator.SweepsOwn input) :=
  decidable_of_iff (orchestrator.config.idleTimeout.any fun idleTimeout =>
      decide (orchestrator.config.sweepInterval ≤
          elapsed orchestrator.lastSweep input.clock.sweepChecked ∧
        idleTimeout ≤ input.clock.sweepNow - input.clock.activity))
    (by simp only [Option.any_eq_true, decide_eq_true_eq, SweepsOwn])

/-- What a sweep does to an entry that was last active at `activity`. -/
theorem lookup_maybeSweepIdle_iff {clock : FrameClock} {key : ConnKey} {conn : Connection}
    (hconn : orchestrator.connections.lookup key = some conn) {activity : Instant}
    (hactivity : conn.info.lastActivity = some activity) :
    (orchestrator.maybeSweepIdle clock).connections.lookup key = none ↔
      ∃ idleTimeout, orchestrator.config.idleTimeout = some idleTimeout ∧
        orchestrator.config.sweepInterval ≤ elapsed orchestrator.lastSweep clock.sweepChecked ∧
        idleTimeout ≤ clock.sweepNow - activity := by
  unfold maybeSweepIdle
  cases hidle : orchestrator.config.idleTimeout with
  | none => simp [hconn]
  | some idleTimeout =>
      dsimp only
      split_ifs with hearly
      · simp [hconn, hearly]
      · rw [AList.lookup_retain, hconn]
        simp [hactivity, Option.filter, not_lt.mp hearly]

/-- **The entry of the frame**: it is stored unless it is closed or swept. -/
theorem lookup_own_iff (crypto : Crypto) (vm : LuaVm σ) (orchestrator : Orchestrator σ)
    (input : FrameInput) :
    (orchestrator.processFrame crypto vm input).1.connections.lookup input.key = none ↔
      (handleFrame crypto vm orchestrator.config (orchestrator.connections.lookup input.key)
        orchestrator.shared input).1.info.isClosed = true ∨ orchestrator.SweepsOwn input := by
  set handled := handleFrame crypto vm orchestrator.config
    (orchestrator.connections.lookup input.key) orchestrator.shared input with hhandled
  have hentry : (orchestrator.processFrame crypto vm input).1.connections =
      ((orchestrator.store input.key handled.1 handled.2.1).maybeSweepIdle
        input.clock).connections := by
    simp only [processFrame, connections_maybeGcLua, hhandled]
  have hstored := lookup_store orchestrator input.key handled.1 handled.2.1 input.key
  rw [if_pos rfl] at hstored
  rw [hentry]
  cases hclosed : handled.1.info.isClosed with
  | true =>
      rw [hclosed, if_pos rfl] at hstored
      refine iff_of_true (Option.eq_none_iff_forall_ne_some.mpr fun conn hconn => ?_) (.inl rfl)
      cases hstored.symm.trans (lookup_maybeSweepIdle hconn)
  | false =>
      rw [hclosed, if_neg Bool.false_ne_true] at hstored
      have hactivity : handled.1.info.lastActivity = some input.clock.activity := by
        rw [hhandled, info_handleFrame, info_noteFlags]
      have hlastSweep : (orchestrator.store input.key handled.1 handled.2.1).lastSweep =
          orchestrator.lastSweep := by
        unfold store
        split <;> rfl
      rw [lookup_maybeSweepIdle_iff hstored hactivity, config_store, hlastSweep]
      exact ⟨.inr, fun h => h.resolve_left Bool.false_ne_true⟩

/-! ## Open gaps -/

/-- The pair's connection holds data of the direction behind a gap at the cursor. -/
def GapAt (key : ConnKey) (isClientToServer : Bool) (cursor : ℕ)
    (orchestrator : Orchestrator σ) : Prop :=
  ∃ conn, orchestrator.connections.lookup key = some conn ∧
    (conn.reassemblerFor isClientToServer).pending.entries ≠ [] ∧
      (conn.reassemblerFor isClientToServer).nextExpectedRelative = cursor

/-- The call moves the cursor, gives the gap up or takes the entry away, if the gap is too
old: the frame closes its connection, or the sweep finds that idle, or the payload reaches
the gap. -/
def EndsGap (orchestrator : Orchestrator σ) (input : FrameInput) (isClientToServer : Bool) :
    Prop :=
  let found := orchestrator.connections.lookup input.key
  orchestrator.CompletesClose input ∨ orchestrator.SweepsOwn input ∨
    direction orchestrator.config found input = isClientToServer ∧
      (noted orchestrator.config found input).ReachesGap isClientToServer input

instance (key : ConnKey) (isClientToServer : Bool) (cursor : ℕ)
    (orchestrator : Orchestrator σ) :
    Decidable (orchestrator.GapAt key isClientToServer cursor) :=
  decidable_of_iff ((orchestrator.connections.lookup key).any fun conn =>
      decide ((conn.reassemblerFor isClientToServer).pending.entries ≠ [] ∧
        (conn.reassemblerFor isClientToServer).nextExpectedRelative = cursor))
    (by simp only [Option.any_eq_true, decide_eq_true_eq, GapAt])

instance (orchestrator : Orchestrator σ) (input : FrameInput) (isClientToServer : Bool) :
    Decidable (orchestrator.EndsGap input isClientToServer) :=
  inferInstanceAs (Decidable (_ ∨ _ ∨ _ ∧ _))

variable {isClientToServer : Bool} {cursor : ℕ} {input : FrameInput}

theorem bounded_lookup (h : orchestrator.Bounded) (key : ConnKey) :
    ∀ conn, orchestrator.connections.lookup key = some conn → conn.Bounded orchestrator.config :=
  fun conn hconn => h key conn hconn

/-- A call that does not end the gap leaves it open. -/
theorem GapAt.kept (h : orchestrator.GapAt input.key isClientToServer cursor)
    (hbounded : orchestrator.Bounded) (hlive : orchestrator.Live)
    (hends : ¬orchestrator.EndsGap input isClientToServer) :
    (orchestrator.processFrame crypto vm input).1.GapAt input.key isClientToServer cursor := by
  obtain ⟨conn, hconn, hpending, hcursor⟩ := h
  obtain ⟨hopen, hkept, hreaches⟩ : ¬orchestrator.CompletesClose input ∧
      ¬orchestrator.SweepsOwn input ∧ ¬_ := by
    simpa only [EndsGap, not_or] using hends
  rw [completesClose_iff crypto vm orchestrator.config orchestrator.shared hconn
    (hlive _ _ hconn), ← hconn] at hopen
  have hstays := (lookup_own_iff crypto vm orchestrator input).not.mpr
    (not_or.mpr ⟨hopen, hkept⟩)
  obtain ⟨last, hlast⟩ := Option.ne_none_iff_exists'.mp hstays
  refine ⟨last, hlast, ?_⟩
  rcases lookup_processFrame hlast with ⟨-, hother⟩ | ⟨-, -, rfl⟩
  · exact absurd rfl hother
  have hsame := handleFrame_sameGap crypto vm (bounded_lookup hbounded input.key)
    orchestrator.shared input hreaches
  rw [hconn] at hsame ⊢
  have hnoted := sameGap_noted orchestrator.config (some conn) input isClientToServer
  rw [openConnection] at hnoted
  rw [(hnoted.trans hsame).pending, (hnoted.trans hsame).next]
  exact ⟨hpending, hcursor⟩

/-- A call that ends a gap which is too old does not leave it open. -/
theorem GapAt.ended (hbounded : orchestrator.Bounded) (hlive : orchestrator.Live)
    {conn : Connection} (hconn : orchestrator.connections.lookup input.key = some conn)
    (hcursor : (conn.reassemblerFor isClientToServer).nextExpectedRelative = cursor)
    {since : Instant}
    (hsince : (conn.reassemblerFor isClientToServer).pendingSince = some since)
    (hold : since + orchestrator.config.maxPendingAge < input.clock.gapChecked)
    (hends : orchestrator.EndsGap input isClientToServer) :
    ¬(orchestrator.processFrame crypto vm input).1.GapAt input.key isClientToServer cursor := by
  rintro ⟨last, hlast, hpending, hlastCursor⟩
  have hstays : ¬(orchestrator.processFrame crypto vm input).1.connections.lookup input.key =
      none := by
    rw [hlast]
    exact Option.some_ne_none last
  rw [lookup_own_iff, not_or] at hstays
  rcases hends with hcloses | hsweeps | ⟨hown, hreaches⟩
  · -- the entry is evicted
    rw [completesClose_iff crypto vm orchestrator.config orchestrator.shared hconn
      (hlive _ _ hconn), ← hconn] at hcloses
    exact hstays.1 hcloses
  · exact hstays.2 hsweeps
  · -- the payload finds the gap too old
    rcases lookup_processFrame hlast with ⟨-, hother⟩ | ⟨-, -, rfl⟩
    · exact absurd rfl hother
    have hfound := bounded_lookup hbounded input.key
    have hnoted := sameGap_noted orchestrator.config (some conn) input isClientToServer
    rw [openConnection, ← hconn] at hnoted
    have hlimits := (draining_noteFlags (bounded_openConnection hfound input)
      isClientToServer input).limits
    have hexpired : ((noted orchestrator.config (orchestrator.connections.lookup input.key)
        input).reassemblerFor isClientToServer).gapExpired input.clock.gapOpened
          input.clock.gapChecked = true := by
      rw [StreamReassembler.gapExpired_iff, hnoted.since, hsince, noted, hown, hlimits]
      exact hold
    rcases handleFrame_ends crypto vm hfound orchestrator.shared input hown hreaches hexpired with
      hmoved | hnil
    · rw [hnoted.next, hcursor, hlastCursor] at hmoved
      exact absurd hmoved (lt_irrefl cursor)
    · exact hpending hnil

/-! ## Runs -/

variable (crypto vm)

/-- The gap was open after `opening`, and has been since. -/
def GapSince (start : Orchestrator σ) (before : List FrameInput) (opening : FrameInput)
    (since : List FrameInput) (key : ConnKey) (isClientToServer : Bool) (cursor : ℕ) : Prop :=
  Machine.Always (processFrame crypto vm) (GapAt key isClientToServer cursor)
    (after crypto vm start (before ++ [opening])) since

/-- No call leaves a gap of its connection open that has been open for longer than the age
limit. -/
def NoStaleGaps (start : Orchestrator σ) (inputs : List FrameInput) : Prop :=
  ∀ before opening since last rest isClientToServer cursor,
    inputs = before ++ opening :: (since ++ last :: rest) →
    opening.clock.gapOpened + start.config.maxPendingAge < last.clock.gapChecked →
      ¬GapSince crypto vm start before opening (since ++ [last]) last.key isClientToServer cursor

/-- Every call ends the gaps of its connection that have been open for longer than the age
limit. -/
def EndsStaleGaps (start : Orchestrator σ) (inputs : List FrameInput) : Prop :=
  ∀ before opening since last rest isClientToServer cursor,
    inputs = before ++ opening :: (since ++ last :: rest) →
    opening.clock.gapOpened + start.config.maxPendingAge < last.clock.gapChecked →
      GapSince crypto vm start before opening since last.key isClientToServer cursor →
        (after crypto vm start (before ++ opening :: since)).EndsGap last isClientToServer

variable {crypto vm}

theorem gapSince_concat {before since : List FrameInput} {opening : FrameInput} {key : ConnKey} :
    GapSince crypto vm start before opening (since ++ [input]) key isClientToServer cursor ↔
      GapSince crypto vm start before opening since key isClientToServer cursor ∧
        (after crypto vm start (before ++ opening :: since ++ [input])).GapAt key
          isClientToServer cursor := by
  rw [List.append_assoc, List.cons_append, after_cons]
  exact Machine.always_concat

theorem GapSince.gapAt {before since : List FrameInput} {opening : FrameInput} {key : ConnKey}
    (h : GapSince crypto vm start before opening since key isClientToServer cursor) :
    (after crypto vm start (before ++ opening :: since)).GapAt key isClientToServer cursor := by
  rw [after_cons]
  exact h.last

/-- Every running clock was started by this time. -/
def ClocksBy (time : Instant) (orchestrator : Orchestrator σ) : Prop :=
  ∀ key conn, orchestrator.connections.lookup key = some conn → ∀ isClientToServer since,
    (conn.reassemblerFor isClientToServer).pendingSince = some since → since ≤ time

theorem ClocksBy.processFrame {time : Instant} (h : orchestrator.ClocksBy time)
    (hbounded : orchestrator.Bounded) (input : FrameInput)
    (htime : time ≤ input.clock.gapOpened) :
    (orchestrator.processFrame crypto vm input).1.ClocksBy input.clock.gapOpened := by
  intro key conn hconn isClientToServer since hsince
  rcases lookup_processFrame hconn with ⟨hold, -⟩ | ⟨rfl, -, rfl⟩
  · exact (h key conn hold isClientToServer since hsince).trans htime
  · rcases handleFrame_since crypto vm (bounded_lookup hbounded input.key) orchestrator.shared
      input hsince with hbefore | ⟨-, rfl⟩
    · rw [(sameGap_noted orchestrator.config _ input isClientToServer).since] at hbefore
      cases hfound : orchestrator.connections.lookup input.key with
      | none =>
          -- a new connection has no running clock
          rw [hfound, pendingSince_openConnection_none] at hbefore
          cases hbefore
      | some found =>
          rw [hfound] at hbefore
          exact (h _ found hfound isClientToServer since hbefore).trans htime
    · exact le_rfl

theorem gapReadings_sublist (before : List FrameInput) (opening : FrameInput)
    (rest : List FrameInput) :
    (before.flatMap FrameInput.gapReadings ++ [opening.clock.gapOpened]).Sublist
      ((before ++ opening :: rest).flatMap FrameInput.gapReadings) := by
  rw [List.flatMap_append, List.flatMap_cons]
  refine (List.Sublist.refl _).append (List.singleton_sublist.mpr ?_)
  exact List.mem_append_left _ List.mem_cons_self

/-- All clocks that run after some frames were started by any later reading. -/
theorem clocksBy_after (hbounded : start.Bounded) (hstart : start.ClocksBy 0)
    {inputs : List FrameInput} {time : Instant}
    (hclock : (inputs.flatMap FrameInput.gapReadings ++ [time]).Pairwise (· ≤ ·)) :
    (after crypto vm start inputs).ClocksBy time := by
  induction inputs using List.reverseRecOn generalizing time with
  | nil =>
      intro key conn hconn isClientToServer since hsince
      exact (hstart key conn hconn isClientToServer since hsince).trans (Nat.zero_le time)
  | append_singleton inputs input ih =>
      have hopened := hclock.sublist
        ((gapReadings_sublist inputs input []).trans (List.sublist_append_left _ [time]))
      have hlater : input.clock.gapOpened ≤ time := by
        refine (List.pairwise_append.mp hclock).2.2 _ ?_ time (List.mem_singleton_self time)
        exact List.mem_flatMap.mpr ⟨input, by simp, List.mem_cons_self⟩
      rw [after_concat]
      have hclocks : ((after crypto vm start inputs).processFrame crypto vm input).1.ClocksBy
          input.clock.gapOpened :=
        (ih hopened).processFrame (hbounded.run crypto vm inputs) input le_rfl
      intro key conn hconn isClientToServer since hsince
      exact (hclocks key conn hconn isClientToServer since hsince).trans hlater

/-- **The clock of an open gap** was started before any frame that left the gap open. -/
theorem since_gapSince (hbounded : start.Bounded) {before since : List FrameInput}
    {opening : FrameInput} {key : ConnKey}
    (hclocks : (after crypto vm start (before ++ [opening])).ClocksBy opening.clock.gapOpened)
    (h : GapSince crypto vm start before opening since key isClientToServer cursor) :
    ∃ conn started, (after crypto vm start (before ++ opening :: since)).connections.lookup key =
        some conn ∧ (conn.reassemblerFor isClientToServer).pendingSince = some started ∧
      (conn.reassemblerFor isClientToServer).nextExpectedRelative = cursor ∧
        started ≤ opening.clock.gapOpened := by
  have hruns : ∀ inputs, (after crypto vm start inputs).Bounded :=
    fun inputs => hbounded.run crypto vm inputs
  have hstarted : ∀ {orchestrator : Orchestrator σ}, orchestrator.Bounded →
      orchestrator.GapAt key isClientToServer cursor → ∃ conn started,
        orchestrator.connections.lookup key = some conn ∧
          (conn.reassemblerFor isClientToServer).pendingSince = some started ∧
            (conn.reassemblerFor isClientToServer).nextExpectedRelative = cursor := by
    rintro orchestrator hbounded ⟨conn, hconn, hpending, hcursor⟩
    have hclock := (hbounded key conn hconn isClientToServer).invariant.clock
    obtain ⟨started, hsome⟩ := Option.ne_none_iff_exists'.mp (mt hclock.mp hpending)
    exact ⟨conn, started, hconn, hsome, hcursor⟩
  induction since using List.reverseRecOn with
  | nil =>
      obtain ⟨conn, started, hconn, hsome, hcursor⟩ := hstarted (hruns _) h.gapAt
      exact ⟨conn, started, hconn, hsome, hcursor, hclocks key conn hconn _ started hsome⟩
  | append_singleton since input ih =>
      obtain ⟨hbefore, hlast⟩ := gapSince_concat.mp h
      obtain ⟨conn, started, hconn, hsome, hcursor, hle⟩ := ih hbefore
      obtain ⟨last, restarted, hlast, hresumed, hlastCursor⟩ := hstarted (hruns _) hlast
      rw [← List.cons_append, ← List.append_assoc]
      refine ⟨last, restarted, hlast, hresumed, hlastCursor, ?_⟩
      -- the clock has not been stopped, so it has not been started again
      rw [after_concat] at hlast
      rcases lookup_processFrame hlast with ⟨hold, -⟩ | ⟨rfl, -, rfl⟩
      · obtain rfl := Option.some.inj (hconn.symm.trans hold)
        obtain rfl := Option.some.inj (hsome.symm.trans hresumed)
        exact hle
      · have hnoted := sameGap_noted (after crypto vm start (before ++ opening :: since)).config
          (some conn) input isClientToServer
        rw [openConnection] at hnoted
        have hfound := bounded_lookup (hruns (before ++ opening :: since)) input.key
        rcases handleFrame_since crypto vm hfound _ input hresumed with hkept | ⟨hnone, -⟩
        · rw [hconn, hnoted.since, hsome] at hkept
          obtain rfl := Option.some.inj hkept
          exact hle
        · rw [hconn, hnoted.since, hsome] at hnone
          cases hnone

/-- **Stale gaps.**  With a clock that does not run backwards, no call leaves a gap of its
connection open that has been open at one cursor for longer than the age limit, if and only
if the frame of every call that meets such a gap closes the connection, reaches the gap with
its payload, or comes with a sweep that finds the connection idle. -/
theorem stale_gaps_iff (crypto : Crypto) (vm : LuaVm σ) (source : KeylogSource) (lua : σ)
    (config : OrchestratorConfig) (sweepNow gcNow : Instant) (inputs : List FrameInput)
    (hclock : (inputs.flatMap FrameInput.gapReadings).Pairwise (· ≤ ·)) :
    let start := new source lua config sweepNow gcNow
    NoStaleGaps crypto vm start inputs ↔ EndsStaleGaps crypto vm start inputs := by
  intro start
  have hbounded : start.Bounded := bounded_new source lua config sweepNow gcNow
  have hlive : start.Live := live_new source lua config sweepNow gcNow
  constructor
  · -- a frame that did not end the old gap would leave it behind
    intro hnone before opening since last rest isClientToServer cursor hsplit hold hsince
    by_contra hends
    refine hnone before opening since last rest isClientToServer cursor hsplit hold
      (gapSince_concat.mpr ⟨hsince, ?_⟩)
    rw [after_concat]
    exact hsince.gapAt.kept (hbounded.run crypto vm _) (hlive.run crypto vm _) hends
  · intro hends before opening since last rest isClientToServer cursor hsplit hold hsince
    obtain ⟨hbefore, hstale⟩ := gapSince_concat.mp hsince
    -- the clock of a gap started no later than the frame that opened it came
    have hstart : start.ClocksBy 0 := by
      intro key conn hconn
      rw [show start.connections = ∅ from rfl, AList.lookup_empty] at hconn
      cases hconn
    have hclocks : (after crypto vm start (before ++ [opening])).ClocksBy
        opening.clock.gapOpened := by
      rw [hsplit] at hclock
      have hopened := hclock.sublist (gapReadings_sublist before opening (since ++ last :: rest))
      rw [after_concat]
      exact (clocksBy_after hbounded hstart hopened).processFrame (hbounded.run crypto vm before)
        opening le_rfl
    obtain ⟨conn, started, hconn, hsome, hcursor, hle⟩ := since_gapSince hbounded hclocks hbefore
    rw [after_concat] at hstale
    refine GapAt.ended (hbounded.run crypto vm _) (hlive.run crypto vm _) hconn hcursor hsome ?_
      (hends before opening since last rest isClientToServer cursor hsplit hold hbefore) hstale
    rw [config_run]
    exact lt_of_le_of_lt (Nat.add_le_add_right hle _) hold

/-- It is enough that every frame that meets an open gap of its connection ends it. -/
theorem endsStaleGaps_of_throughout {inputs : List FrameInput}
    (h : Machine.Throughout (processFrame crypto vm) (fun orchestrator input =>
      ∀ conn ∈ orchestrator.connections.lookup input.key, ∀ isClientToServer,
        (conn.reassemblerFor isClientToServer).pending.entries ≠ [] →
          orchestrator.EndsGap input isClientToServer) start inputs) :
    EndsStaleGaps crypto vm start inputs := by
  intro before opening since last rest isClientToServer cursor hsplit _ hsince
  have hlast : inputs = before ++ opening :: since ++ last :: rest := by
    rw [hsplit, List.append_assoc, List.cons_append]
  rw [hlast, Machine.throughout_append] at h
  obtain ⟨conn, hconn, hpending, -⟩ := hsince.gapAt
  exact h.2.1 conn hconn isClientToServer hpending

open Capture

/-- A segment waits behind a gap of nine bytes from second 0 on; 31 seconds later the server
sends an ACK. -/
def lateAck : List FrameInput :=
  [segment client server 0 999 syn [] 0, segment client server 1 1010 ack [0xaa] 0,
    segment server client 2 5000 ack [] (31 * 10 ^ 9)]

/-- The ACK leaves the gap open. -/
theorem late_ack_leaves_gap :
    (lateAck.flatMap FrameInput.gapReadings).Pairwise (· ≤ ·) ∧
      ¬NoStaleGaps RecordedSession.recording.crypto plainVm (new source () .default 0 0)
        lateAck := by
  refine ⟨by decide +kernel, fun hnone => ?_⟩
  refine hnone [segment client server 0 999 syn [] 0] (segment client server 1 1010 ack [0xaa] 0)
    [] (segment server client 2 5000 ack [] (31 * 10 ^ 9)) [] true 0 rfl (by decide) ⟨?_, ?_⟩
  · decide +kernel
  · change GapAt _ _ _ _
    decide +kernel

/-- A segment waits behind a gap of nine bytes; 31 seconds later another one comes. -/
def lateSegment : List FrameInput :=
  [segment client server 0 999 syn [] 0, segment client server 1 1010 ack [0xaa] 0,
    segment client server 2 1020 ack [0xbb] (31 * 10 ^ 9)]

/-- The second segment makes the reassembler give up the gap. -/
theorem late_segment_ends_gap :
    NoStaleGaps RecordedSession.recording.crypto plainVm (new source () .default 0 0)
      lateSegment := by
  refine (stale_gaps_iff RecordedSession.recording.crypto plainVm source () .default 0 0
    lateSegment (by decide +kernel)).mpr (endsStaleGaps_of_throughout ?_)
  decide +kernel

end Orchestrator

end Tlscap
