import Tlscap.Orchestrator.Eviction
import Tlscap.Orchestrator.Hello

/-!
# Where the records are counted

Every record that is drained adds one to the records seen and to exactly one of five buckets,
so the buckets always sum to the records seen (`Orchestrator.records_bucketed`).  Among the
plaintext handshake records of a connection's entry, besides the ChangeCipherSpecs, there is
at most one of the client and one of the server.

## Strategy

* **One record** adds one of five lists of counters (`RecordStep.tally_mem_buckets`), each of
  which has the records seen and one bucket.  So whatever all five agree on can be counted
  over a run: the buckets in sum move as the records seen do, and none decreases.
* **The hellos.**  A record is counted as the hello of a side exactly when it makes that
  side's random known (`RecordStep.knows_after`).  A random that is set stays set for as long
  as the entry lives, so this happens once at most (`Orchestrator.hellos_of_entry`).
* **The entries of a run.**  `Serves` are the frames of one entry: the one that created it,
  and those behind it up to the one that may remove it.  Every frame of a run is one of an
  entry (`Orchestrator.exists_serves`).
-/

namespace Tlscap

/-! ## One record -/

/-- What a record can add to the counters: one bucket, besides the records seen. -/
def buckets : List Counters :=
  [{ tlsRecordsSeen := 1, tlsRecordsDecrypted := 1 }, { tlsRecordsSeen := 1, tlsRecordsNokey := 1 },
    { tlsRecordsSeen := 1, tlsRecordsAuthfailed := 1 },
    { tlsRecordsSeen := 1, tlsRecordsNoClientHello := 1 },
    { tlsRecordsSeen := 1, tlsRecordsPlaintextHandshake := 1 }]

namespace Counters

/-- The records in one of the five buckets. -/
def bucketed (counters : Counters) : ℕ :=
  counters.tlsRecordsDecrypted + counters.tlsRecordsNokey + counters.tlsRecordsAuthfailed +
    counters.tlsRecordsNoClientHello + counters.tlsRecordsPlaintextHandshake

/-- No counter of the TLS records is smaller later. -/
structure NoneDecreased (earlier later : Counters) : Prop where
  seen : earlier.tlsRecordsSeen ≤ later.tlsRecordsSeen
  decrypted : earlier.tlsRecordsDecrypted ≤ later.tlsRecordsDecrypted
  nokey : earlier.tlsRecordsNokey ≤ later.tlsRecordsNokey
  authfailed : earlier.tlsRecordsAuthfailed ≤ later.tlsRecordsAuthfailed
  noClientHello : earlier.tlsRecordsNoClientHello ≤ later.tlsRecordsNoClientHello
  plaintextHandshake :
    earlier.tlsRecordsPlaintextHandshake ≤ later.tlsRecordsPlaintextHandshake

end Counters

namespace RecordStep

variable {σ : Type} (crypto : Crypto) (vm : LuaVm σ) (config : OrchestratorConfig)
  (step : RecordStep σ)

theorem tally_mem_buckets : step.tally crypto ∈ buckets := by
  unfold tally
  cases step.attempt crypto with
  | none =>
      dsimp only
      split
      · decide
      · decide
  | some attempt =>
      obtain ⟨_, _, (_ | _) | _⟩ := attempt
      · exact List.mem_cons_of_mem _ List.mem_cons_self
      · exact List.mem_cons_of_mem _ (List.mem_cons_of_mem _ List.mem_cons_self)
      · exact List.mem_cons_self

/-- A counter of the TLS records moves by what it is in the tally. -/
theorem counter_after {counter : Counters → ℕ} (hcounter : IsRecordCounter counter)
    (hadd : ∀ a b : Counters, counter (a + b) = counter a + counter b) :
    counter (step.after crypto vm config).2.1.counters =
      counter step.shared.counters + counter (step.tally crypto) :=
  (hcounter _ _ (step.tlsRecords_after crypto vm config)).trans (hadd _ _)

/-- The record is counted as a plaintext handshake record, as the hello of a side: it is no
ChangeCipherSpec. -/
def countsHello (isClientToServer : Bool) : Bool :=
  decide (step.contentType ≠ 0x14 ∧ step.isClientToServer = isClientToServer ∧
    (step.after crypto vm config).2.1.counters.tlsRecordsPlaintextHandshake =
      step.shared.counters.tlsRecordsPlaintextHandshake + 1)

variable {crypto vm config step}

theorem countsHello_iff {isClientToServer : Bool} :
    step.countsHello crypto vm config isClientToServer = true ↔
      step.contentType ≠ 0x14 ∧ step.isClientToServer = isClientToServer ∧
        (learnHello step.conn step.isClientToServer step.body).isSome := by
  rw [countsHello, decide_eq_true_iff, plaintextHandshake_after]
  refine and_congr_right fun htype => and_congr_right fun _ => ?_
  by_cases hhello : (learnHello step.conn step.isClientToServer step.body).isSome
  · rw [if_pos (.inr hhello)]
    exact iff_of_true rfl hhello
  · rw [if_neg (not_or.mpr ⟨htype, hhello⟩)]
    exact iff_of_false (by omega) hhello

end RecordStep

/-! ## The hellos a connection knows -/

/-- The connection knows the random of a side. -/
def Connection.knows (conn : Connection) (isClientToServer : Bool) : Bool :=
  if isClientToServer then conn.randoms.isSome else conn.serverRandom.isSome

theorem Connection.knows_of_randoms {conn conn' : Connection} (h : conn'.randoms = conn.randoms)
    (isClientToServer : Bool) : conn'.knows isClientToServer = conn.knows isClientToServer := by
  rw [Connection.knows, Connection.knows, Connection.serverRandom, Connection.serverRandom, h]

section Knows

variable {σ : Type} {crypto : Crypto} {vm : LuaVm σ} {config : OrchestratorConfig}

/-- **One record.**  It is counted as the hello of a side exactly if it makes that side's
random known. -/
theorem RecordStep.knows_after (step : RecordStep σ) (isClientToServer : Bool) :
    ((step.after crypto vm config).1.knows isClientToServer).toNat =
      (step.conn.knows isClientToServer).toNat +
        if step.countsHello crypto vm config isClientToServer then 1 else 0 := by
  cases step.binds crypto vm config with
  | client random hdirection htype hbefore hhello hafter =>
      have hlearned : (learnHello step.conn step.isClientToServer step.body).isSome := by
        rw [learnHello_isSome_iff, LooksAwaited, if_pos hdirection, ← clientHello_isSome_iff,
          hhello]
        exact ⟨Option.map_eq_none_iff.mp hbefore, rfl⟩
      cases isClientToServer with
      | true =>
          rw [if_pos (countsHello_iff.mpr ⟨htype, hdirection, hlearned⟩)]
          simp [Connection.knows, hbefore, hafter]
      | false =>
          have hother : step.countsHello crypto vm config false ≠ true := fun hcounted =>
            Bool.false_ne_true ((countsHello_iff.mp hcounted).2.1.symm.trans hdirection)
          rw [if_neg hother]
          simp [Connection.knows, Connection.serverRandom, hbefore, hafter]
  | server client random hdirection htype hbefore hhello hafter =>
      have hlearned : (learnHello step.conn step.isClientToServer step.body).isSome := by
        obtain ⟨state, hstate, hrandoms⟩ := Option.map_eq_some_iff.mp hbefore
        rw [learnHello_isSome_iff, LooksAwaited, if_neg (by rw [hdirection]; decide),
          ← serverHello_isSome_iff, hhello, hstate, Option.any_some, (Prod.mk.inj hrandoms).2]
        exact ⟨rfl, rfl⟩
      cases isClientToServer with
      | true =>
          have hother : step.countsHello crypto vm config true ≠ true := fun hcounted =>
            Bool.false_ne_true (hdirection.symm.trans (countsHello_iff.mp hcounted).2.1)
          rw [if_neg hother]
          simp [Connection.knows, hbefore, hafter]
      | false =>
          rw [if_pos (countsHello_iff.mpr ⟨htype, hdirection, hlearned⟩)]
          simp [Connection.knows, Connection.serverRandom, hbefore, hafter]
  -- the randoms stay, so no hello of either side was taken
  | nothing hneither hafter =>
      have hother : step.countsHello crypto vm config isClientToServer ≠ true := by
        intro hcounted
        obtain ⟨htype, -, hlearned⟩ := countsHello_iff.mp hcounted
        rw [hneither.resolve_right htype] at hlearned
        cases hlearned
      rw [if_neg hother, Connection.knows_of_randoms hafter]
      rfl

theorem Drains.knows {isClientToServer : Bool} {conn last : Connection}
    {shared lastShared : Shared σ} {steps : List (RecordStep σ)}
    (h : Drains crypto vm config isClientToServer conn shared steps last lastShared)
    (side : Bool) :
    (last.knows side).toNat = (conn.knows side).toNat +
      steps.countP (fun step => step.countsHello crypto vm config side) := by
  induction h with
  | stop conn shared => rfl
  | @take conn shared step steps last lastShared htakes hlater ih =>
      obtain ⟨rest, -, hconn⟩ := htakes.record
      have hrandoms : step.conn.randoms = conn.randoms := by
        rw [hconn]
        cases isClientToServer <;> rfl
      calc (last.knows side).toNat
          = ((step.after crypto vm config).1.knows side).toNat +
              steps.countP (fun step => step.countsHello crypto vm config side) := ih
        _ = (step.conn.knows side).toNat +
              (if step.countsHello crypto vm config side then 1 else 0) +
              steps.countP (fun step => step.countsHello crypto vm config side) := by
            rw [step.knows_after]
        _ = (conn.knows side).toNat +
              (step :: steps).countP (fun step => step.countsHello crypto vm config side) := by
            rw [Connection.knows_of_randoms hrandoms, List.countP_cons]
            omega

/-- **One frame.**  The hellos it adds are those the connection knows behind it and did not
know before. -/
theorem knows_handleFrame (found : Option Connection) (shared : Shared σ) (input : FrameInput)
    (side : Bool) :
    ((handleFrame crypto vm config found shared input).1.knows side).toNat =
      (found.any fun conn => conn.knows side).toNat +
        (frameSteps crypto vm config found shared input).countP
          (fun step => step.countsHello crypto vm config side) := by
  obtain ⟨hdrains, -, -⟩ := handleFrame_drains crypto vm config found shared input
  have hreceived : (receive config found input).1.knows side =
      found.any fun conn => conn.knows side := by
    have hrandoms := randoms_receive config found input
    cases found with
    | some conn => exact Connection.knows_of_randoms hrandoms side
    | none =>
        rw [Connection.knows, Connection.serverRandom, hrandoms]
        cases side <;> rfl
  rw [hdrains.knows side, hreceived]

end Knows

namespace Orchestrator

variable {σ : Type} (crypto : Crypto) (vm : LuaVm σ)

/-! ## The records of an entry -/

/-- The frames of an entry: `opening` met none of its pair and created it, and the frames
behind it, up to the one that may remove it, met the entry. -/
structure Serves (start : Orchestrator σ) (before : List FrameInput) (opening : FrameInput)
    (since : List FrameInput) : Prop where
  untracked : (after crypto vm start before).connections.lookup opening.key = none
  tracked : Machine.Throughout (processFrame crypto vm)
    (fun orchestrator _ => (orchestrator.connections.lookup opening.key).isSome = true)
    (after crypto vm start (before ++ [opening])) since

/-- The records of one call, if its frame belongs to the pair. -/
def stepsOf (key : ConnKey) (orchestrator : Orchestrator σ) (input : FrameInput) :
    List (RecordStep σ) :=
  if input.key = key then orchestrator.recordSteps crypto vm input else []

/-- The records of a pair in a run. -/
def pairSteps (key : ConnKey) (start : Orchestrator σ) (inputs : List FrameInput) :
    List (RecordStep σ) :=
  Machine.collect (processFrame crypto vm) (stepsOf crypto vm key) start inputs

variable {crypto vm} {start : Orchestrator σ} {before since : List FrameInput}
  {opening : FrameInput}

theorem Serves.concat {input : FrameInput}
    (h : Serves crypto vm start before opening (since ++ [input])) :
    Serves crypto vm start before opening since ∧
      ((after crypto vm start (before ++ opening :: since)).connections.lookup
        opening.key).isSome = true := by
  obtain ⟨hsince, hlast, -⟩ := Machine.throughout_append.mp h.tracked
  refine ⟨⟨h.untracked, hsince⟩, ?_⟩
  rw [after_cons]
  exact hlast

/-- The frames of a tracked entry meet it, and so does the next one. -/
theorem TrackedSince.serves (h : TrackedSince crypto vm start before opening since)
    (input : FrameInput) : Serves crypto vm start before opening (since ++ [input]) :=
  ⟨h.untracked, h.tracked.throughout_concat input⟩

theorem pairSteps_singleton {key : ConnKey} (orchestrator : Orchestrator σ)
    (input : FrameInput) :
    pairSteps crypto vm key orchestrator [input] = stepsOf crypto vm key orchestrator input :=
  List.append_nil _

theorem stepsOf_eq {orchestrator : Orchestrator σ} {input : FrameInput} {key : ConnKey}
    (hkey : input.key = key) :
    stepsOf crypto vm key orchestrator input = orchestrator.recordSteps crypto vm input :=
  if_pos hkey

/-- One more frame of a pair: its hellos are added to those that were counted, and what the
connection knows is their number. -/
theorem hellos_of_frame (crypto : Crypto) (vm : LuaVm σ) {orchestrator : Orchestrator σ}
    {input : FrameInput} {side : Bool} {count : ℕ}
    (hcount : ((orchestrator.connections.lookup input.key).any fun conn =>
      conn.knows side).toNat = count) :
    ((handleFrame crypto vm orchestrator.config (orchestrator.connections.lookup input.key)
        orchestrator.shared input).1.knows side).toNat =
      count + (orchestrator.recordSteps crypto vm input).countP
        (fun step => step.countsHello crypto vm orchestrator.config side) := by
  rw [knows_handleFrame, hcount]
  rfl

/-- **The hellos of an entry.**  As many are counted as the connection knows. -/
theorem hellos_of_entry (h : Serves crypto vm start before opening since) (side : Bool) :
    (pairSteps crypto vm opening.key (after crypto vm start before) (opening :: since)).countP
        (fun step => step.countsHello crypto vm start.config side) ≤ 1 ∧
      ∀ conn, (after crypto vm start (before ++ opening :: since)).connections.lookup
          opening.key = some conn →
        (conn.knows side).toNat =
          (pairSteps crypto vm opening.key (after crypto vm start before)
            (opening :: since)).countP
              (fun step => step.countsHello crypto vm start.config side) := by
  -- by induction on the frames of the entry, the last one first: an entry knows what is counted
  induction since using List.reverseRecOn with
  | nil =>
      have hnone : (((after crypto vm start before).connections.lookup opening.key).any
          fun conn => conn.knows side).toNat = 0 := by
        rw [h.untracked]
        rfl
      have hframe := hellos_of_frame crypto vm hnone
      rw [config_after, Nat.zero_add] at hframe
      rw [pairSteps_singleton, stepsOf_eq rfl, ← hframe]
      refine ⟨Bool.toNat_le _, ?_⟩
      intro conn hconn
      rw [after_concat] at hconn
      rcases lookup_processFrame hconn with ⟨-, hother⟩ | ⟨-, -, rfl⟩
      · exact absurd rfl hother
      · rw [config_after]
  | append_singleton since input ih =>
      obtain ⟨hsince, hentry⟩ := h.concat
      obtain ⟨hle, hknown⟩ := ih hsince
      obtain ⟨conn, hconn⟩ := Option.isSome_iff_exists.mp hentry
      have hsteps : pairSteps crypto vm opening.key (after crypto vm start before)
            (opening :: (since ++ [input])) =
          pairSteps crypto vm opening.key (after crypto vm start before) (opening :: since) ++
            stepsOf crypto vm opening.key
              (after crypto vm start (before ++ opening :: since)) input := by
        rw [after_append]
        exact Machine.collect_concat _ (opening :: since) input
      rw [hsteps, List.countP_append, ← hknown conn hconn, ← List.cons_append,
        ← List.append_assoc, after_concat]
      by_cases hkey : input.key = opening.key
      · rw [stepsOf_eq hkey]
        have hfound : (((after crypto vm start (before ++ opening :: since)).connections.lookup
            input.key).any fun conn => conn.knows side).toNat = (conn.knows side).toNat := by
          rw [hkey, hconn]
          rfl
        have hframe := hellos_of_frame crypto vm hfound
        rw [config_after] at hframe
        rw [← hframe]
        refine ⟨Bool.toNat_le _, ?_⟩
        intro last hlast
        rcases lookup_processFrame hlast with ⟨-, hother⟩ | ⟨-, -, rfl⟩
        · exact absurd hkey.symm hother
        · rw [config_after]
      · -- a frame of another pair
        rw [stepsOf, if_neg hkey, List.countP_nil, Nat.add_zero]
        refine ⟨Bool.toNat_le _, ?_⟩
        intro last hlast
        rcases lookup_processFrame hlast with ⟨hsame, -⟩ | ⟨hsame, -⟩
        · rw [Option.some.inj (hsame.symm.trans hconn)]
        · exact absurd hsame.symm hkey

/-- Every frame of a run is one of an entry. -/
theorem exists_serves (hstart : ∀ key, start.connections.lookup key = none)
    (inputs : List FrameInput) (input : FrameInput) :
    ∃ before opening since, inputs ++ [input] = before ++ opening :: since ∧
      opening.key = input.key ∧ Serves crypto vm start before opening since := by
  cases hentry : (after crypto vm start inputs).connections.lookup input.key with
  | none => exact ⟨inputs, input, [], rfl, rfl, hentry, trivial⟩
  | some conn =>
      obtain ⟨before, opening, since, rfl, hkey, hsince⟩ :=
        exists_trackedSince (hstart input.key) inputs (by rw [hentry]; rfl)
      exact ⟨before, opening, since ++ [input], by simp, hkey, hsince.serves input⟩

/-! ## The buckets of a run -/

theorem isRecordCounter_of_list (f : List ℕ → ℕ) :
    IsRecordCounter fun counters => f counters.tlsRecords :=
  fun _ _ h => congrArg f h

theorem noneDecreased_processFrame (orchestrator : Orchestrator σ) (input : FrameInput) :
    orchestrator.shared.counters.NoneDecreased
      (orchestrator.processFrame crypto vm input).1.shared.counters := by
  have hle : ∀ {counter : Counters → ℕ}, IsRecordCounter counter →
      (∀ a b : Counters, counter (a + b) = counter a + counter b) →
      counter orchestrator.shared.counters ≤
        counter (orchestrator.processFrame crypto vm input).1.shared.counters := by
    intro counter hcounter hadd
    rw [counter_processFrame hcounter orchestrator input fun step _ =>
      step.counter_after crypto vm orchestrator.config hcounter hadd]
    exact Nat.le_add_right _ _
  constructor
  · exact hle (isRecordCounter_of_list fun records => records.getD 0 0) fun _ _ => rfl
  · exact hle (isRecordCounter_of_list fun records => records.getD 1 0) fun _ _ => rfl
  · exact hle (isRecordCounter_of_list fun records => records.getD 3 0) fun _ _ => rfl
  · exact hle (isRecordCounter_of_list fun records => records.getD 2 0) fun _ _ => rfl
  · exact hle (isRecordCounter_of_list fun records => records.getD 4 0) fun _ _ => rfl
  · exact hle (isRecordCounter_of_list fun records => records.getD 5 0) fun _ _ => rfl

/-- A counter every bucket moves by one counts the records of a run. -/
theorem counter_run_length {counter : Counters → ℕ} (hcounter : IsRecordCounter counter)
    (hadd : ∀ a b : Counters, counter (a + b) = counter a + counter b)
    (hone : ∀ bucket ∈ buckets, counter bucket = 1) (start : Orchestrator σ)
    (inputs : List FrameInput) :
    counter (after crypto vm start inputs).shared.counters =
      counter start.shared.counters + (runSteps crypto vm start inputs).length := by
  have hmoves : ∀ step ∈ runSteps crypto vm start inputs,
      counter (step.after crypto vm start.config).2.1.counters =
        counter step.shared.counters + if true then 1 else 0 := by
    intro step _
    rw [step.counter_after crypto vm start.config hcounter hadd,
      hone _ (step.tally_mem_buckets crypto)]
    rfl
  have hcount := counter_run_count hcounter start inputs hmoves
  rwa [List.countP_true] at hcount

/-- **Every record is in one bucket.**  After a run the buckets sum to the records seen:
every record drained added one to the records seen and to one bucket.  No call decreases any
of the counters.  Every frame meets the entry of its pair or creates one, and among the
records of an entry at most one of each side is counted as a hello. -/
theorem records_bucketed (crypto : Crypto) (vm : LuaVm σ) (source : KeylogSource) (lua : σ)
    (config : OrchestratorConfig) (sweepNow gcNow : Instant) (inputs : List FrameInput) :
    let start := new source lua config sweepNow gcNow
    let counters := (after crypto vm start inputs).shared.counters
    counters.tlsRecordsSeen = counters.bucketed ∧
      (∀ step ∈ runSteps crypto vm start inputs, ∃ bucket ∈ buckets,
        (step.after crypto vm config).2.1.counters.tlsRecords =
          (step.shared.counters + bucket).tlsRecords) ∧
      (∀ input, counters.NoneDecreased
        (after crypto vm start (inputs ++ [input])).shared.counters) ∧
      (∀ input, ∃ before opening since, inputs ++ [input] = before ++ opening :: since ∧
        opening.key = input.key ∧ Serves crypto vm start before opening since) ∧
      ∀ before opening since, Serves crypto vm start before opening since → ∀ side,
        (pairSteps crypto vm opening.key (after crypto vm start before)
          (opening :: since)).countP (fun step => step.countsHello crypto vm config side) ≤
            1 := by
  intro start counters
  have hseen : counters.tlsRecordsSeen = 0 + (runSteps crypto vm start inputs).length :=
    counter_run_length (isRecordCounter_of_list fun records => records.getD 0 0)
      (fun _ _ => rfl) (by decide) start inputs
  -- the sum of the buckets is a record counter like the records seen
  have hbucketed : counters.bucketed = 0 + (runSteps crypto vm start inputs).length := by
    refine counter_run_length ?_ ?_ ?_ start inputs
    · exact isRecordCounter_of_list fun records => records.getD 1 0 + records.getD 3 0 +
        records.getD 2 0 + records.getD 4 0 + records.getD 5 0
    · intro a b
      show (a.tlsRecordsDecrypted + b.tlsRecordsDecrypted) +
          (a.tlsRecordsNokey + b.tlsRecordsNokey) +
          (a.tlsRecordsAuthfailed + b.tlsRecordsAuthfailed) +
          (a.tlsRecordsNoClientHello + b.tlsRecordsNoClientHello) +
          (a.tlsRecordsPlaintextHandshake + b.tlsRecordsPlaintextHandshake) = _
      unfold Counters.bucketed
      omega
    · decide
  refine ⟨hseen.trans hbucketed.symm, ?_, ?_, ?_, ?_⟩
  · intro step _
    exact ⟨_, step.tally_mem_buckets crypto, step.tlsRecords_after crypto vm config⟩
  · intro input
    rw [after_concat]
    exact noneDecreased_processFrame _ input
  · exact fun input => exists_serves AList.lookup_empty inputs input
  · exact fun before opening since h side => (hellos_of_entry h side).1

end Orchestrator

end Tlscap
