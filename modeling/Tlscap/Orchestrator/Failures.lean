import Tlscap.Connection.Failures
import Tlscap.Orchestrator.Capture
import Tlscap.Orchestrator.Trace

/-!
# What the failure counters count

`tls_records_authfailed` and `tls_records_nokey` count the results of the decrypt attempts of
a run.  They count the failed records with and without a key if and only if every attempt of
the run is classified truthfully, which is a condition on the decrypt state and the keylog
that the attempt meets (`ConnectionState.Classifiable`).

The equivalence for runs (`failures_classified_iff`) comes from one for records.  An attempt
counts with the failures that its error stands for (`RecordStep.failedBy_cases`), and it is
misplaced in one way only: a record with a key that none of the keys opens is counted as one
without a key.  So `nokey` counts no fewer records than it should, and `authfailed` no more,
record by record.  Sums of such counts agree only if the counts agree everywhere
(`countP_eq_iff_of_imp`): a misplaced record cannot be made up for by another one.
-/

namespace Tlscap

/-! ## One record -/

namespace RecordStep

variable {σ : Type} (crypto : Crypto) (step : RecordStep σ)

/-- The keylog of the decrypt attempt: the reader polls before it. -/
def keylog : Keylog :=
  (step.shared.keylog.poll crypto.hexDecode step.readings.pollClock
    step.readings.pollReload).current

/-- The record was attempted, and was not decrypted for this reason. -/
def failedBy (error : ProcessError) : Bool :=
  match step.attempt crypto with
  | some (_, _, .error other) => other == error
  | _ => false

/-- The record was attempted and not decrypted. -/
def failed : Bool :=
  match step.attempt crypto with
  | some (_, _, .error _) => true
  | _ => false

/-- There is a usable secret for the record's connection and direction. -/
def keyed : Bool :=
  step.conn.state.any fun state => state.hasKey crypto (step.keylog crypto) step.isClientToServer

/-- Where the record is attempted, its failure can be told. -/
def Classifiable : Prop :=
  ∀ state, step.conn.state = some state → (step.attempt crypto).isSome →
    ConnectionState.Classifiable crypto state (step.keylog crypto) step.isClientToServer
      step.contentType step.body

/-- The result of an attempt is that of `decrypt`. -/
theorem attempt_result {keylog : KeylogSource} {newState : ConnectionState}
    {result : Except ProcessError DecryptedRecord}
    (hattempt : step.attempt crypto = some (keylog, newState, result)) :
    ∃ state, step.conn.state = some state ∧
      (state.decrypt crypto (step.keylog crypto) step.isClientToServer step.contentType
        step.body).2 = result := by
  unfold attempt at hattempt
  split at hattempt
  · cases hattempt
  · split at hattempt
    · cases hattempt
    · obtain ⟨state, hstate, hattempted⟩ := Option.map_eq_some_iff.mp hattempt
      have hdecrypt := (attemptDecrypt_spec crypto step.shared.keylog state step.readings
        step.isClientToServer step.contentType step.body).2
      rw [hattempted] at hdecrypt
      exact ⟨state, hstate, congrArg Prod.snd hdecrypt.symm⟩

variable {step crypto}

/-- **One record.**  What an attempt at it counts, by the keys there are. -/
theorem failedBy_cases (hattempt : (step.attempt crypto).isSome) :
    step.failed crypto = false ∧ step.failedBy crypto .authFailed = false ∧
        step.failedBy crypto .noKey = false ∧ step.Classifiable crypto ∨
      step.failed crypto = true ∧ step.failedBy crypto .authFailed = true ∧
        step.failedBy crypto .noKey = false ∧ step.keyed crypto = true ∧
        step.Classifiable crypto ∨
      step.failed crypto = true ∧ step.failedBy crypto .authFailed = false ∧
        step.failedBy crypto .noKey = true ∧
        (step.Classifiable crypto ↔ step.keyed crypto = false) := by
  obtain ⟨⟨keylog, newState, result⟩, hattempt⟩ := Option.isSome_iff_exists.mp hattempt
  obtain ⟨state, hstate, hresult⟩ := step.attempt_result crypto hattempt
  have hclassified := state.decrypt_classified crypto (step.keylog crypto) step.isClientToServer
    step.contentType step.body
  have hkeyed : step.keyed crypto =
      state.hasKey crypto (step.keylog crypto) step.isClientToServer := by
    rw [keyed, hstate]
    rfl
  have hclassifiable : step.Classifiable crypto ↔
      ConnectionState.Classifiable crypto state (step.keylog crypto) step.isClientToServer
        step.contentType step.body := by
    constructor
    · intro h
      exact h state hstate (by rw [hattempt]; rfl)
    · intro h other hother _
      rwa [Option.some.inj (hother.symm.trans hstate)]
  rw [hclassifiable, hkeyed, failed, failedBy, failedBy, hattempt]
  rw [hresult] at hclassified
  -- the cases are those of the decryption itself, with the secrets that are there
  rcases hclassified with ⟨⟨record, rfl⟩, hopened⟩ | ⟨rfl, -, hshort⟩ | ⟨rfl, hclosed, hlong⟩
  · -- decrypted
    exact .inl ⟨rfl, rfl, rfl, .inl hopened⟩
  · -- too short for TLS 1.2 with its secret there: an authentication failure
    rw [Bool.and_eq_true, decide_eq_true_eq] at hshort
    refine .inr (.inl ⟨rfl, rfl, rfl, ?_, .inr (.inr hshort)⟩)
    have husable := hshort.1
    rw [ConnectionState.tls12Usable, Bool.and_eq_true] at husable
    rw [ConnectionState.hasKey, husable.1, Bool.or_true]
  · -- opened by no candidate: counted as a missing key
    refine .inr (.inr ⟨rfl, rfl, rfl, ?_⟩)
    rw [← ConnectionState.truthful_iff]
    constructor
    · intro h
      exact h.noKey hresult
    · intro hnone
      refine ⟨fun _ => hnone, ?_⟩
      intro hkey
      cases hnone.symm.trans hkey

theorem failed_of_not_attempted (hattempt : step.attempt crypto = none) (error : ProcessError) :
    step.failed crypto = false ∧ step.failedBy crypto error = false := by
  rw [failed, failedBy, hattempt]
  exact ⟨rfl, rfl⟩

/-- **One record.**  Its failure is counted with the others of its kind exactly if it
can be told. -/
theorem classifiable_iff (crypto : Crypto) (step : RecordStep σ) :
    (step.failedBy crypto .authFailed = true →
        (step.failed crypto && step.keyed crypto) = true) ∧
      ((step.failed crypto && !step.keyed crypto) = true → step.failedBy crypto .noKey = true) ∧
      (step.Classifiable crypto ↔ ((step.failed crypto && step.keyed crypto) = true →
        step.failedBy crypto .authFailed = true)) ∧
      (step.Classifiable crypto ↔ (step.failedBy crypto .noKey = true →
        (step.failed crypto && !step.keyed crypto) = true)) := by
  cases hattempt : step.attempt crypto with
  | none =>
      have hclassifiable : step.Classifiable crypto := by
        intro state _ hsome
        rw [hattempt] at hsome
        cases hsome
      obtain ⟨hfailed, hauthFailed⟩ := failed_of_not_attempted hattempt .authFailed
      obtain ⟨-, hnoKey⟩ := failed_of_not_attempted hattempt .noKey
      simp [hfailed, hauthFailed, hnoKey, hclassifiable]
  | some attempt =>
      rcases failedBy_cases (by rw [hattempt]; rfl) with
        ⟨hfailed, hauthFailed, hnoKey, hclassifiable⟩ |
        ⟨hfailed, hauthFailed, hnoKey, hkeyed, hclassifiable⟩ |
        ⟨hfailed, hauthFailed, hnoKey, hclassifiable⟩
      · simp [hfailed, hauthFailed, hnoKey, hclassifiable]
      · simp [hfailed, hauthFailed, hnoKey, hkeyed, hclassifiable]
      · simp [hfailed, hauthFailed, hnoKey, hclassifiable]

/-- The failure counters move by the failures. -/
theorem tally_failures :
    (step.tally crypto).tlsRecordsAuthfailed =
        (if step.failedBy crypto .authFailed then 1 else 0) ∧
      (step.tally crypto).tlsRecordsNokey = if step.failedBy crypto .noKey then 1 else 0 := by
  unfold tally failedBy
  rcases step.attempt crypto with _ | ⟨_, _, (_ | _) | _⟩
  · simp only
    split
    · exact ⟨rfl, rfl⟩
    · exact ⟨rfl, rfl⟩
  · exact ⟨rfl, rfl⟩
  · exact ⟨rfl, rfl⟩
  · exact ⟨rfl, rfl⟩

end RecordStep

/-! ## Runs -/

/-- Of two properties one of which implies the other, as many things have the one as
the other only if the same things do. -/
theorem countP_eq_iff_of_imp {α : Type*} {p q : α → Bool} {l : List α}
    (h : ∀ a ∈ l, p a = true → q a = true) :
    l.countP p = l.countP q ↔ ∀ a ∈ l, q a = true → p a = true := by
  constructor
  · intro hcount a ha hq
    have hboth : (l.filter q).countP p = l.countP p := by
      rw [List.countP_filter]
      apply List.countP_congr
      intro b hb
      rw [Bool.and_eq_true]
      exact ⟨And.left, fun hp => ⟨hp, h b hb hp⟩⟩
    rw [hcount, List.countP_eq_length_filter, List.countP_eq_length_filter] at hboth
    rw [← List.countP_eq_length_filter, List.countP_eq_length] at hboth
    exact hboth a (List.mem_filter.mpr ⟨ha, hq⟩)
  · intro hback
    exact List.countP_congr fun a ha => ⟨h a ha, hback a ha⟩

namespace Orchestrator

variable {σ : Type}

/-- The failure counters after a run. -/
theorem failures_run (crypto : Crypto) (vm : LuaVm σ) (start : Orchestrator σ)
    (inputs : List FrameInput) :
    let counters := (Machine.run (processFrame crypto vm) start inputs).1.shared.counters
    let steps := runSteps crypto vm start inputs
    counters.tlsRecordsAuthfailed = start.shared.counters.tlsRecordsAuthfailed +
        steps.countP (fun step => step.failedBy crypto .authFailed) ∧
      counters.tlsRecordsNokey = start.shared.counters.tlsRecordsNokey +
        steps.countP (fun step => step.failedBy crypto .noKey) := by
  have hauthfailed : IsRecordCounter Counters.tlsRecordsAuthfailed := by
    intro a b htls
    simp only [Counters.tlsRecords, List.cons.injEq] at htls
    exact htls.2.2.1
  have hnokey : IsRecordCounter Counters.tlsRecordsNokey := by
    intro a b htls
    simp only [Counters.tlsRecords, List.cons.injEq] at htls
    exact htls.2.2.2.1
  refine ⟨counter_run_count hauthfailed start inputs ?_, counter_run_count hnokey start inputs ?_⟩
  · intro step _
    rw [hauthfailed _ _ (step.tlsRecords_after crypto vm start.config), ← step.tally_failures.1]
    rfl
  · intro step _
    rw [hnokey _ _ (step.tlsRecords_after crypto vm start.config), ← step.tally_failures.2]
    rfl

/-- **When failures are classified truthfully.**  For one record, exactly if some keys
open it, there is no usable secret, or TLS 1.2 has all it needs and the body is too
short for it.  The failure counters of a run count the failed records with and without
a key exactly if every attempt of the run is such a record. -/
theorem failures_classified_iff (crypto : Crypto) (vm : LuaVm σ) (source : KeylogSource) (lua : σ)
    (config : OrchestratorConfig) (sweepNow gcNow : Instant) (inputs : List FrameInput) :
    let start := new source lua config sweepNow gcNow
    let steps := runSteps crypto vm start inputs
    let counters := (Machine.run (processFrame crypto vm) start inputs).1.shared.counters
    (∀ (state : ConnectionState) (keylog : Keylog) (isClientToServer : Bool)
        (outerContentType : UInt8) (encryptedBody : Bytes),
        ConnectionState.Truthful crypto state keylog isClientToServer outerContentType
            encryptedBody ↔
          ConnectionState.Classifiable crypto state keylog isClientToServer outerContentType
            encryptedBody) ∧
      (counters.tlsRecordsAuthfailed =
            steps.countP (fun step => step.failed crypto && step.keyed crypto) ∧
          counters.tlsRecordsNokey =
            steps.countP (fun step => step.failed crypto && !step.keyed crypto) ↔
        ∀ step ∈ steps, step.Classifiable crypto) := by
  intro start steps counters
  refine ⟨fun _ _ _ _ _ => ConnectionState.truthful_iff, ?_⟩
  obtain ⟨hauthfailed, hnokey⟩ := failures_run crypto vm start inputs
  have hauthfailed : counters.tlsRecordsAuthfailed =
      steps.countP fun step => step.failedBy crypto .authFailed :=
    hauthfailed.trans (Nat.zero_add _)
  have hnokey : counters.tlsRecordsNokey =
      steps.countP fun step => step.failedBy crypto .noKey :=
    hnokey.trans (Nat.zero_add _)
  -- each counter counts no more than the failures it stands for, record by record
  have hwithKey := countP_eq_iff_of_imp (l := steps)
    fun step _ => (step.classifiable_iff crypto).1
  have hwithoutKey := countP_eq_iff_of_imp (l := steps)
    fun step _ => (step.classifiable_iff crypto).2.1
  rw [hauthfailed, hnokey, hwithKey, eq_comm (b := List.countP _ _), hwithoutKey]
  constructor
  · rintro ⟨hall, -⟩ step hstep
    exact (step.classifiable_iff crypto).2.2.1.mpr (hall step hstep)
  · intro hall
    refine ⟨?_, ?_⟩
    · intro step hstep
      exact (step.classifiable_iff crypto).2.2.1.mp (hall step hstep)
    · intro step hstep
      exact (step.classifiable_iff crypto).2.2.2.mp (hall step hstep)

open Capture

/-- A record body that no key opens. -/
def garbage : Bytes := List.replicate 30 0

/-- With all four TLS 1.3 secrets of its connection in the keylog, a corrupt record is
reported as one without a key. -/
theorem corrupt_record_noKey :
    ¬ ∀ (crypto : Crypto) (state : ConnectionState) (keylog : Keylog) (isClientToServer : Bool)
      (outerContentType : UInt8) (encryptedBody : Bytes),
      ConnectionState.Truthful crypto state keylog isClientToServer outerContentType
        encryptedBody := by
  intro hclaim
  have htruthful := hclaim RecordedSession.recording.crypto
    (ConnectionState.new (List.replicate 32 0xaa)) RecordedSession.keylog true 0x17 garbage
  have hresult : ((ConnectionState.new (List.replicate 32 0xaa)).decrypt
      RecordedSession.recording.crypto RecordedSession.keylog true 0x17 garbage).2 =
        .error .noKey := by decide +kernel
  have hkey : (ConnectionState.new (List.replicate 32 0xaa)).hasKey
      RecordedSession.recording.crypto RecordedSession.keylog true = true := by decide +kernel
  cases hkey.symm.trans (htruthful.noKey hresult)

end Orchestrator

end Tlscap
