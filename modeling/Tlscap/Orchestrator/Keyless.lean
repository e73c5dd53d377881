import Tlscap.Orchestrator.Close
import Tlscap.Orchestrator.Decoder
import Tlscap.Orchestrator.Trace

/-!
# Runs without keys

An orchestrator that was given no keylog file never reads one, and its keylog stays empty.  No
record decrypts then, so that no frame completes a message, whatever the capture and the
dissectors are (`Orchestrator.processFrame_keyless`).

An attempt without secrets passes over every candidate of TLS 1.3 and meets no master secret
for TLS 1.2.  It fails for want of a key and leaves the decrypt state as it was, so nothing is
cached either (`ConnectionState.decrypt_of_no_secret`).  The poll before it and the one behind
the miss find no path to read.
-/

namespace Tlscap

/-! ## Attempts without secrets -/

/-- Without a traffic secret every candidate is passed over, and nothing is cached. -/
theorem DirectionState.probe_of_no_secret (crypto : Crypto) (dir : DirectionState)
    {clientRandom : Bytes} {keylog : Keylog} {isClient : Bool}
    (hnone : ∀ label, keylog.secretFor clientRandom label = none) (encryptedBody : Bytes)
    (candidates : List (Generation × AeadAlgorithm)) :
    dir.probe crypto clientRandom keylog isClient encryptedBody candidates =
      (dir, .error .noKey) := by
  induction candidates with
  | nil => rfl
  | cons candidate rest ih =>
      obtain ⟨g, algorithm⟩ := candidate
      have hkeys : dir.keysFor crypto g clientRandom keylog isClient algorithm = (dir, none) := by
        unfold DirectionState.keysFor
        rw [hnone]
      unfold DirectionState.probe
      rw [hkeys]
      exact ih

/-- Without secrets an attempt fails for want of a key, and leaves the state as it was. -/
theorem ConnectionState.decrypt_of_no_secret (crypto : Crypto) (state : ConnectionState)
    {keylog : Keylog} (hnone : ∀ label, keylog.secretFor state.clientRandom label = none)
    (isClientToServer : Bool) (outerContentType : UInt8) (encryptedBody : Bytes) :
    state.decrypt crypto keylog isClientToServer outerContentType encryptedBody =
      (state, .error .noKey) := by
  have hsame : state.setDirection isClientToServer (state.direction isClientToServer) = state := by
    cases isClientToServer <;> rfl
  have htls13 : state.decryptTls13 crypto keylog isClientToServer encryptedBody =
      (state, .error .noKey) := by
    unfold ConnectionState.decryptTls13
    rw [DirectionState.probe_of_no_secret crypto _ hnone]
    dsimp only
    rw [hsame]
  unfold ConnectionState.decrypt
  rw [htls13]
  unfold ConnectionState.decryptTls12
  dsimp only
  split
  · rfl
  · rw [hnone]
    split_ifs <;> rfl

/-! ## Records, frames and runs -/

section Step

variable {σ : Type} {crypto : Crypto} {vm : LuaVm σ} {config : OrchestratorConfig}

/-- No keylog file, and nothing in the keylog. -/
def KeylogSource.Keyless (source : KeylogSource) : Prop := source.Reads false Keylog.empty

theorem keyless_fromParsed (now : Instant) :
    (KeylogSource.fromParsed (Keylog.parse crypto.hexDecode []) now).Keyless :=
  ⟨rfl, rfl⟩

variable (crypto vm config) in
/-- An iteration completes no message and decrypts nothing, and the keylog stays empty. -/
theorem RecordStep.keyless (step : RecordStep σ) (hkeyless : step.shared.keylog.Keyless) :
    (step.after crypto vm config).2.1.keylog.Keyless ∧ (step.after crypto vm config).2.2 = [] ∧
      (step.after crypto vm config).2.1.counters.tlsRecordsDecrypted =
        step.shared.counters.tlsRecordsDecrypted := by
  have hsteady : step.readings.Steady crypto.hexDecode false Keylog.empty :=
    fun hpath => nomatch hpath
  have hnone : ∀ clientRandom label, Keylog.empty.secretFor clientRandom label = none :=
    fun _ _ => AList.lookup_empty _
  cases step.fate crypto vm config with
  | changeCipherSpec _ _ _ hafter => rw [hafter]; exact ⟨hkeyless, rfl, rfl⟩
  | hello _ _ _ _ _ hafter => rw [hafter]; exact ⟨hkeyless, rfl, rfl⟩
  | noClientHello _ _ _ _ _ hafter => rw [hafter]; exact ⟨hkeyless, rfl, rfl⟩
  | attempted state keylog newState result _ _ hdecrypt _ _ hafter =>
      obtain ⟨hreads, hresult⟩ := attemptDecrypt_steady crypto hkeyless hsteady state
        step.isClientToServer step.contentType step.body
      rw [hdecrypt] at hreads hresult
      rw [state.decrypt_of_no_secret crypto (hnone _)] at hresult
      obtain rfl : result = .error .noKey := congrArg Prod.snd hresult
      rw [hafter]
      exact ⟨hreads, rfl, rfl⟩
  | application state keylog newState decrypted _ _ hdecrypt _ _ _ =>
      have hresult := (attemptDecrypt_steady crypto hkeyless hsteady state step.isClientToServer
        step.contentType step.body).2
      rw [hdecrypt, state.decrypt_of_no_secret crypto (hnone _)] at hresult
      cases congrArg Prod.snd hresult

theorem Drains.keyless {isClientToServer : Bool} {conn last : Connection}
    {shared lastShared : Shared σ} {steps : List (RecordStep σ)}
    (h : Drains crypto vm config isClientToServer conn shared steps last lastShared)
    (hkeyless : shared.keylog.Keyless) :
    lastShared.keylog.Keyless ∧ ∀ step ∈ steps, step.shared.keylog.Keyless := by
  obtain ⟨hlast, hsteps⟩ := h.invariant (P := fun _ shared => shared.keylog.Keyless)
    (fun _ _ step htakes hkept => (step.keyless crypto vm config (htakes.shared ▸ hkept)).1)
    hkeyless
  exact ⟨hlast, fun step hstep => (hsteps step hstep).choose_spec.2⟩

end Step

namespace Orchestrator

variable {σ : Type} (crypto : Crypto) (vm : LuaVm σ)

/-- A frame completes no message and decrypts nothing, and the keylog stays empty. -/
theorem processFrame_keyless {orchestrator : Orchestrator σ}
    (hkeyless : orchestrator.shared.keylog.Keyless) (input : FrameInput) :
    let next := orchestrator.processFrame crypto vm input
    next.1.shared.keylog.Keyless ∧ next.2.2 = [] ∧
      next.1.shared.counters.tlsRecordsDecrypted =
        orchestrator.shared.counters.tlsRecordsDecrypted := by
  intro next
  obtain ⟨hlast, hsteps⟩ := (handleFrame_drains crypto vm orchestrator.config
    (orchestrator.connections.lookup input.key) orchestrator.shared input).1.keyless hkeyless
  have hstep := fun step hstep =>
    RecordStep.keyless crypto vm orchestrator.config step (hsteps step hstep)
  refine ⟨?_, ?_, ?_⟩
  · change (orchestrator.processFrame crypto vm input).1.shared.keylog.Keyless
    rw [keylog_processFrame]
    exact hlast
  · change (orchestrator.processFrame crypto vm input).2.2 = []
    rw [messages_processFrame, List.flatMap_eq_nil_iff]
    exact fun step hmem => (hstep step hmem).2.1
  · have hcounter : IsRecordCounter Counters.tlsRecordsDecrypted := by
      intro a b hsame
      injection hsame with _ hsame
      injection hsame
    have hcount : next.1.shared.counters.tlsRecordsDecrypted =
        orchestrator.shared.counters.tlsRecordsDecrypted +
          ((orchestrator.recordSteps crypto vm input).map fun _ => 0).sum :=
      counter_processFrame hcounter orchestrator input fun step hmem => (hstep step hmem).2.2
    rw [hcount, List.map_const', List.sum_replicate_nat, Nat.mul_zero, Nat.add_zero]

end Orchestrator

end Tlscap
