import Tlscap.Connection.Uncached
import Tlscap.Orchestrator.Messages

/-!
# Which records bind a connection's randoms

A connection learns the client random from a record of its client that looks like a
ClientHello, as long as it knows none, and the server random from one of its server that looks
like a ServerHello, as long as it knows none.  What a record looks like is decided by its body
alone.  So in a capture that starts in the middle of a connection a record of application data
can be taken for a hello; where no such record is drained, the randoms come from handshake
records only (`Orchestrator.binds_genuinely_iff`).

## Strategy

* **What the parsers accept** is spelt out (`helloFormat_iff`): the type, and room for the
  random behind it.  Such a body begins a hello that carries the random
  (`beginsHello_of_clientHello`, `beginsHello_of_serverHello`).
* **One record** binds a random only if it looks like the hello that is waited for, and
  every such record that is no ChangeCipherSpec is taken for it (`RecordStep.binds`).  The
  counter of plaintext handshakes moves with these and with the ChangeCipherSpecs
  (`RecordStep.plaintextHandshake_after`), so the condition on a record is one on the record
  and the state before it (`RecordStep.bindsGenuinely_iff`).
* **A run.**  Whatever a tracked connection knows was bound by records that the run drained
  from it (`Orchestrator.learnedFrom_run`), so it is enough to look at the records one by one.
-/

namespace Tlscap

/-! ## Hello messages -/

/-- The record begins a hello message of this type that carries this random: a type
byte, three bytes of length, two of the version, and the random. -/
def BeginsHello (messageType : UInt8) (body random : Bytes) : Prop :=
  ∃ length version rest : Bytes, length.length = 3 ∧ version.length = 2 ∧
    random.length = 32 ∧ body = messageType :: (length ++ version ++ random ++ rest)

/-- A body with room for a random that starts with the type begins a hello. -/
theorem beginsHello_slice {messageType : UInt8} {body : Bytes} (hlength : 38 ≤ body.length)
    (htype : body[0]? = some messageType) : BeginsHello messageType body (slice body 6 32) := by
  refine ⟨slice body 1 3, slice body 4 2, body.drop 38, ?_, ?_, ?_, ?_⟩
  · exact length_slice (by omega)
  · exact length_slice (by omega)
  · exact length_slice (by omega)
  · cases body with
    | nil => cases htype
    | cons first body =>
        obtain rfl := Option.some.inj htype
        have hslice : ∀ offset length, slice (first :: body) (offset + 1) length =
            slice body offset length := fun _ _ => rfl
        rw [hslice, hslice, hslice, List.drop_succ_cons]
        calc first :: body
            = first :: (body.take 37 ++ body.drop 37) := by rw [List.take_append_drop]
          _ = first :: (body.take 0 ++ slice body 0 3 ++ slice body 3 2 ++ slice body 5 32 ++
                body.drop 37) := by
              rw [take_append_slice, take_append_slice, take_append_slice]
          _ = first :: (slice body 0 3 ++ slice body 3 2 ++ slice body 5 32 ++ body.drop 37) := by
              rw [List.take_zero, List.nil_append]

/-- What the two parsers of hellos do not turn down. -/
theorem helloFormat_iff {type : UInt8} {body : Bytes} :
    ¬ (body.length < 38 ∨ body[0]? ≠ some type) ↔ 38 ≤ body.length ∧ body[0]? = some type := by
  rw [not_or, Nat.not_lt, not_not]

theorem beginsHello_of_clientHello {body random : Bytes}
    (h : clientRandomFromClientHello body = some random) : BeginsHello 0x01 body random := by
  unfold clientRandomFromClientHello at h
  split at h
  · cases h
  · rename_i hformat
    obtain ⟨hlength, htype⟩ := helloFormat_iff.mp hformat
    cases h
    exact beginsHello_slice hlength htype

theorem beginsHello_of_serverHello {body random : Bytes}
    (h : Tls12.serverRandomFromServerHello body = some random) :
    BeginsHello 0x02 body random := by
  unfold Tls12.serverRandomFromServerHello at h
  split at h
  · cases h
  · rename_i hformat
    obtain ⟨hlength, htype⟩ := helloFormat_iff.mp hformat
    cases h
    exact beginsHello_slice hlength htype

/-! ## What one record binds -/

/-- The randoms a connection knows: the client's and perhaps the server's. -/
def Connection.randoms (conn : Connection) : Option (Bytes × Option Bytes) :=
  conn.state.map fun state => (state.clientRandom, state.serverRandom)

@[simp] theorem Connection.randoms_setTail (conn : Connection) (isClientToServer : Bool)
    (bytes : Bytes) : (conn.setTail isClientToServer bytes).randoms = conn.randoms := by
  cases isClientToServer <;> rfl

/-- The server random a connection knows. -/
def Connection.serverRandom (conn : Connection) : Option Bytes :=
  conn.randoms.bind Prod.snd

namespace RecordStep

variable {σ : Type} (crypto : Crypto) (vm : LuaVm σ) (config : OrchestratorConfig)
  (step : RecordStep σ)

/-- The record looks like the hello that is waited for: the client's as long as the
connection knows no random, then the server's. -/
def LooksAwaited : Prop :=
  if step.isClientToServer then
    step.conn.state = none ∧ 38 ≤ step.body.length ∧ step.body[0]? = some 0x01
  else
    (step.conn.state.any fun state => state.serverRandom.isNone) = true ∧
      38 ≤ step.body.length ∧ step.body[0]? = some 0x02

/-- The randoms are bound by genuine hello records only, and application data neither
binds one nor counts as a plaintext handshake. -/
structure BindsGenuinely : Prop where
  client : ∀ random server, step.conn.randoms = none →
    (step.after crypto vm config).1.randoms = some (random, server) →
    step.contentType = 0x16 ∧ BeginsHello 0x01 step.body random
  server : ∀ random, step.conn.serverRandom ≠ some random →
    (step.after crypto vm config).1.serverRandom = some random →
    step.contentType = 0x16 ∧ BeginsHello 0x02 step.body random
  applicationData : step.contentType = 0x17 →
    (step.after crypto vm config).1.randoms = step.conn.randoms ∧
      (step.after crypto vm config).2.1.counters.tlsRecordsPlaintextHandshake =
        step.shared.counters.tlsRecordsPlaintextHandshake

/-- What an iteration can do to the randoms. -/
inductive Binds : Prop
  | client (random : Bytes) (hdirection : step.isClientToServer = true)
      (htype : step.contentType ≠ 0x14) (hbefore : step.conn.randoms = none)
      (hhello : clientRandomFromClientHello step.body = some random)
      (hafter : (step.after crypto vm config).1.randoms = some (random, none))
  | server (client random : Bytes) (hdirection : step.isClientToServer = false)
      (htype : step.contentType ≠ 0x14) (hbefore : step.conn.randoms = some (client, none))
      (hhello : Tls12.serverRandomFromServerHello step.body = some random)
      (hafter : (step.after crypto vm config).1.randoms = some (client, some random))
  | nothing (hhello : learnHello step.conn step.isClientToServer step.body = none ∨
        step.contentType = 0x14)
      (hafter : (step.after crypto vm config).1.randoms = step.conn.randoms)

/-- The hello that was waited for sets one random. -/
theorem learnHello_randoms {conn : Connection} {isClientToServer : Bool} {body : Bytes}
    {state : ConnectionState}
    (h : learnHello conn isClientToServer body = some { conn with state := some state }) :
    (∃ random, isClientToServer = true ∧ conn.randoms = none ∧
        clientRandomFromClientHello body = some random ∧
        state.clientRandom = random ∧ state.serverRandom = none) ∨
      ∃ client random, isClientToServer = false ∧ conn.randoms = some (client, none) ∧
        Tls12.serverRandomFromServerHello body = some random ∧
        state.clientRandom = client ∧ state.serverRandom = some random := by
  unfold learnHello at h
  split at h
  · rename_i hdirection
    split at h
    · rename_i random hstate hhello
      have hnew := congrArg Connection.state (Option.some.inj h)
      left
      refine ⟨random, hdirection, ?_, hhello, ?_, ?_⟩
      · rw [Connection.randoms, hstate]
        rfl
      · rw [← Option.some.inj hnew]
        rfl
      · rw [← Option.some.inj hnew]
        rfl
    · cases h
  · rename_i hdirection
    split at h
    · rename_i random known hhello hstate
      unfold ConnectionState.setServerRandom at h
      cases hserver : known.serverRandom with
      | some _ =>
          rw [hserver] at h
          cases h
      | none =>
          rw [hserver] at h
          have hnew := congrArg Connection.state (Option.some.inj h)
          right
          refine ⟨known.clientRandom, random, Bool.not_eq_true _ ▸ hdirection, ?_, hhello, ?_, ?_⟩
          · rw [Connection.randoms, hstate, Option.map_some, hserver]
          · rw [← Option.some.inj hnew]
          · rw [← Option.some.inj hnew]
    · cases h

/-- **One record.** -/
theorem binds : step.Binds crypto vm config := by
  -- an attempt to decrypt keeps both randoms
  have hdecrypted : ∀ {state : ConnectionState} {keylog : KeylogSource}
      {newState : ConnectionState} {result : Except ProcessError DecryptedRecord},
      step.conn.state = some state →
      attemptDecrypt crypto step.shared.keylog state step.readings step.isClientToServer
        step.contentType step.body = (keylog, newState, result) →
      some (newState.clientRandom, newState.serverRandom) = step.conn.randoms := by
    intro state keylog newState result hstate hdecrypt
    have hdecrypted := (attemptDecrypt_spec crypto step.shared.keylog state step.readings
      step.isClientToServer step.contentType step.body).2
    rw [hdecrypt] at hdecrypted
    have hnew : newState = (state.decrypt crypto (step.shared.keylog.poll crypto.hexDecode
        step.readings.pollClock step.readings.pollReload).current step.isClientToServer
        step.contentType step.body).1 := congrArg Prod.fst hdecrypted
    rw [Connection.randoms, hstate, hnew, ConnectionState.clientRandom_decrypt,
      ConnectionState.serverRandom_decrypt]
    rfl
  cases step.fate crypto vm config with
  | changeCipherSpec htype _ _ hafter =>
      refine .nothing (.inr htype) ?_
      rw [hafter]
  | hello state htype hhello _ _ hafter =>
      rcases learnHello_randoms hhello with
        ⟨random, hdirection, hbefore, hclient, hrandom, hserver⟩ |
        ⟨client, random, hdirection, hbefore, hserverHello, hclient, hserver⟩
      · refine .client random hdirection htype hbefore hclient ?_
        rw [hafter, Connection.randoms, Option.map_some, hrandom, hserver]
      · refine .server client random hdirection htype hbefore hserverHello ?_
        rw [hafter, Connection.randoms, Option.map_some, hclient, hserver]
  | noClientHello _ hhello _ _ _ hafter =>
      refine .nothing (.inl hhello) ?_
      rw [hafter]
  | attempted state keylog newState result hstate hattempt hdecrypt _ _ hafter =>
      refine .nothing (.inl (step.attempt_isSome crypto (by rw [hattempt]; rfl)).2) ?_
      rw [hafter]
      exact hdecrypted hstate hdecrypt
  | application state keylog newState decrypted hstate hattempt hdecrypt _ _ hafter =>
      refine .nothing (.inl (step.attempt_isSome crypto (by rw [hattempt]; rfl)).2) ?_
      obtain ⟨bytes, -, hdissected⟩ := dissectAndEmit_conn vm config
        { step.conn with state := some newState }
        { step.shared.count (attemptCounters (.ok decrypted)) with keylog }
        step.isClientToServer decrypted.plaintext step.timestamp
      rw [hafter]
      simp only [hdissected, Connection.randoms_setTail]
      exact hdecrypted hstate hdecrypt

theorem clientHello_isSome_iff {body : Bytes} :
    (clientRandomFromClientHello body).isSome ↔ 38 ≤ body.length ∧ body[0]? = some 0x01 := by
  unfold clientRandomFromClientHello
  split
  · rename_i hformat
    exact iff_of_false Bool.false_ne_true fun hhello => helloFormat_iff.mpr hhello hformat
  · rename_i hformat
    exact iff_of_true rfl (helloFormat_iff.mp hformat)

theorem serverHello_isSome_iff {body : Bytes} :
    (Tls12.serverRandomFromServerHello body).isSome ↔
      38 ≤ body.length ∧ body[0]? = some 0x02 := by
  unfold Tls12.serverRandomFromServerHello
  split
  · rename_i hformat
    exact iff_of_false Bool.false_ne_true fun hhello => helloFormat_iff.mpr hhello hformat
  · rename_i hformat
    exact iff_of_true rfl (helloFormat_iff.mp hformat)

/-- What looks like the awaited hello is taken for it. -/
theorem learnHello_isSome_iff :
    (learnHello step.conn step.isClientToServer step.body).isSome ↔ step.LooksAwaited := by
  unfold learnHello LooksAwaited
  split
  · rw [← clientHello_isSome_iff]
    cases step.conn.state <;> cases clientRandomFromClientHello step.body <;> simp
  · rw [← serverHello_isSome_iff]
    cases Tls12.serverRandomFromServerHello step.body with
    | none => simp
    | some serverRandom =>
        cases step.conn.state with
        | none => simp
        | some state =>
            cases hserver : state.serverRandom with
            | none => simp [ConnectionState.setServerRandom, hserver]
            | some _ => simp [ConnectionState.setServerRandom, hserver]

/-- Plaintext handshake records are the ChangeCipherSpecs and what is taken for an awaited
hello. -/
theorem plaintextHandshake_after :
    (step.after crypto vm config).2.1.counters.tlsRecordsPlaintextHandshake =
      step.shared.counters.tlsRecordsPlaintextHandshake +
        if step.contentType = 0x14 ∨
          (learnHello step.conn step.isClientToServer step.body).isSome then 1 else 0 := by
  have hcounters := step.tlsRecords_after crypto vm config
  simp only [Counters.tlsRecords, List.cons.injEq] at hcounters
  rw [hcounters.2.2.2.2.2.1]
  have htally : (step.tally crypto).tlsRecordsPlaintextHandshake =
      if step.contentType = 0x14 ∨
        (learnHello step.conn step.isClientToServer step.body).isSome then 1 else 0 := by
    unfold tally
    cases hattempt : step.attempt crypto with
    | none =>
        simp only
        split
        · rfl
        · rfl
    | some attempt =>
        obtain ⟨htype, hhello⟩ := step.attempt_isSome crypto (by rw [hattempt]; rfl)
        have hneither : ¬ (step.contentType = 0x14 ∨
            (learnHello step.conn step.isClientToServer step.body).isSome) := by
          rw [hhello]
          exact not_or.mpr ⟨htype, Bool.false_ne_true⟩
        obtain ⟨_, _, (_ | _) | _⟩ := attempt
        · exact (if_neg hneither).symm
        · exact (if_neg hneither).symm
        · exact (if_neg hneither).symm
  rw [← htally]
  rfl

/-- **One record.**  It binds randoms genuinely unless it is neither a handshake record
nor a ChangeCipherSpec and looks like the hello that is waited for. -/
theorem bindsGenuinely_iff :
    step.BindsGenuinely crypto vm config ↔
      (step.LooksAwaited → step.contentType = 0x14 ∨ step.contentType = 0x16) := by
  constructor
  · intro hgenuine hlooks
    cases step.binds crypto vm config with
    | client random _ _ hbefore _ hafter =>
        exact .inr (hgenuine.client random none hbefore hafter).1
    | server client random _ _ hbefore _ hafter =>
        refine .inr (hgenuine.server random ?_ ?_).1
        · rw [Connection.serverRandom, hbefore]
          exact (Option.some_ne_none random).symm
        · rw [Connection.serverRandom, hafter]
          rfl
    | nothing hhello _ =>
        rcases hhello with hnone | htype
        · rw [← learnHello_isSome_iff, hnone] at hlooks
          cases hlooks
        · exact .inl htype
  · intro hallowed
    cases step.binds crypto vm config with
    | client random hdirection htype hbefore hhello hafter =>
        have hstate : step.conn.state = none := by
          rw [Connection.randoms, Option.map_eq_none_iff] at hbefore
          exact hbefore
        have hlooks : step.LooksAwaited := by
          rw [LooksAwaited, if_pos hdirection, ← clientHello_isSome_iff, hhello]
          exact ⟨hstate, rfl⟩
        have hhandshake := (hallowed hlooks).resolve_left htype
        refine ⟨?_, ?_, ?_⟩
        · intro other server _ hother
          have hsame := hafter.symm.trans hother
          cases hsame
          exact ⟨hhandshake, beginsHello_of_clientHello hhello⟩
        · intro other _ hother
          rw [Connection.serverRandom, hafter] at hother
          cases hother
        · intro hdata
          rw [hhandshake] at hdata
          exact absurd hdata (by decide)
    | server client random hdirection htype hbefore hhello hafter =>
        have hlooks : step.LooksAwaited := by
          rw [LooksAwaited, if_neg (by rw [hdirection]; exact Bool.false_ne_true),
            ← serverHello_isSome_iff, hhello]
          refine ⟨?_, rfl⟩
          rw [Connection.randoms, Option.map_eq_some_iff] at hbefore
          obtain ⟨state, hstate, hrandoms⟩ := hbefore
          rw [hstate]
          exact Option.isNone_iff_eq_none.mpr (congrArg Prod.snd hrandoms)
        have hhandshake := (hallowed hlooks).resolve_left htype
        refine ⟨?_, ?_, ?_⟩
        · intro other server hnone _
          cases hbefore.symm.trans hnone
        · intro other _ hother
          rw [Connection.serverRandom, hafter] at hother
          cases hother
          exact ⟨hhandshake, beginsHello_of_serverHello hhello⟩
        · intro hdata
          rw [hhandshake] at hdata
          exact absurd hdata (by decide)
    -- the randoms stay, so only the count of a record of application data is in question
    | nothing hhello hafter =>
        refine ⟨?_, ?_, ?_⟩
        · intro random server hnone hsome
          cases hnone.symm.trans (hafter.symm.trans hsome)
        · intro random hbefore hsome
          rw [Connection.serverRandom, hafter] at hsome
          exact absurd hsome hbefore
        · intro hdata
          have htype : step.contentType ≠ 0x14 := by
            rw [hdata]
            decide
          refine ⟨hafter, ?_⟩
          rw [plaintextHandshake_after, hhello.resolve_right htype, if_neg, Nat.add_zero]
          exact not_or.mpr ⟨htype, Bool.false_ne_true⟩

end RecordStep

/-! ## Where the randoms come from -/

section Origin

variable {σ : Type} (crypto : Crypto) (vm : LuaVm σ) (config : OrchestratorConfig)

/-- Every random the connection knows was bound by one of the records, drained from a
connection with the same client and server that knew none before. -/
structure Connection.LearnedFrom (conn : Connection) (steps : List (RecordStep σ)) : Prop where
  client : ∀ random server, conn.randoms = some (random, server) →
    ∃ step ∈ steps, conn.SameRoles step.conn ∧ step.conn.randoms = none ∧
      ∃ learned, (step.after crypto vm config).1.randoms = some (random, learned)
  server : ∀ random, conn.serverRandom = some random →
    ∃ step ∈ steps, conn.SameRoles step.conn ∧ step.conn.serverRandom = none ∧
      (step.after crypto vm config).1.serverRandom = some random

variable {crypto vm config} {conn conn' : Connection} {steps steps' : List (RecordStep σ)}

theorem Connection.SameRoles.symm (h : conn.SameRoles conn') : conn'.SameRoles conn :=
  ⟨h.1.symm, h.2.symm⟩

theorem Connection.LearnedFrom.congr (h : conn.LearnedFrom crypto vm config steps)
    (hroles : conn.SameRoles conn') (hrandoms : conn'.randoms = conn.randoms)
    (hsteps : steps ⊆ steps') : conn'.LearnedFrom crypto vm config steps' := by
  refine ⟨?_, ?_⟩
  · intro random server hknown
    rw [hrandoms] at hknown
    obtain ⟨step, hstep, hsame, hlearned⟩ := h.client random server hknown
    exact ⟨step, hsteps hstep, hroles.symm.trans hsame, hlearned⟩
  · intro random hknown
    rw [Connection.serverRandom, hrandoms] at hknown
    obtain ⟨step, hstep, hsame, hlearned⟩ := h.server random hknown
    exact ⟨step, hsteps hstep, hroles.symm.trans hsame, hlearned⟩

/-- **One record.**  What it binds it is the origin of. -/
theorem RecordStep.learnedFrom_after {step : RecordStep σ}
    (h : step.conn.LearnedFrom crypto vm config steps) :
    (step.after crypto vm config).1.LearnedFrom crypto vm config (steps ++ [step]) := by
  have hroles : step.conn.SameRoles (step.after crypto vm config).1 := step.sameRoles_after
  have hself : step ∈ steps ++ [step] := List.mem_append_right _ (List.mem_singleton_self step)
  have hkept := fun hrandoms => h.congr hroles hrandoms (List.subset_append_left steps [step])
  cases step.binds crypto vm config with
  | client random _ _ hbefore _ hafter =>
      refine ⟨?_, ?_⟩
      · intro other server hknown
        cases hafter.symm.trans hknown
        exact ⟨step, hself, hroles.symm, hbefore, none, hafter⟩
      · intro other hknown
        rw [Connection.serverRandom, hafter] at hknown
        cases hknown
  | server client random _ _ hbefore _ hafter =>
      refine ⟨?_, ?_⟩
      · intro other server hknown
        cases hafter.symm.trans hknown
        obtain ⟨origin, horigin, hsame, hlearned⟩ := h.client client none hbefore
        exact ⟨origin, List.mem_append_left _ horigin, hroles.symm.trans hsame, hlearned⟩
      · intro other hknown
        have hknown' := hknown
        rw [Connection.serverRandom, hafter] at hknown'
        cases hknown'
        refine ⟨step, hself, hroles.symm, ?_, hknown⟩
        rw [Connection.serverRandom, hbefore]
        rfl
  | nothing _ hafter => exact hkept hafter

theorem Drains.learnedFrom {isClientToServer : Bool} {last : Connection}
    {shared lastShared : Shared σ} {later : List (RecordStep σ)}
    (hdrains : Drains crypto vm config isClientToServer conn shared later last lastShared)
    (h : conn.LearnedFrom crypto vm config steps) :
    last.LearnedFrom crypto vm config (steps ++ later) := by
  induction hdrains generalizing steps with
  | stop conn shared =>
      rw [List.append_nil]
      exact h
  | @take conn shared step later last lastShared htakes _ ih =>
      obtain ⟨rest, -, hconn⟩ := htakes.record
      have hrandoms : step.conn.randoms = conn.randoms := by
        rw [hconn]
        cases isClientToServer <;> rfl
      have hbefore := h.congr htakes.sameRoles hrandoms (List.Subset.refl steps)
      rw [List.append_cons]
      exact ih (RecordStep.learnedFrom_after hbefore)

theorem randoms_receive (config : OrchestratorConfig) (found : Option Connection)
    (input : FrameInput) :
    (receive config found input).1.randoms = found.bind Connection.randoms := by
  have hopened : (openConnection config found input).randoms =
      found.bind Connection.randoms := by
    unfold openConnection
    cases found with
    | some conn => rfl
    | none =>
        simp only
        split <;> rfl
  refine (receive_keeps config Connection.randoms ?_ ?_ ?_ found input).trans hopened
  · intro conn direction r
    cases direction <;> rfl
  · intro conn direction limits
    cases direction <;> rfl
  · exact fun _ _ => rfl

/-- **One frame.** -/
theorem handleFrame_learnedFrom {found : Option Connection}
    (hfound : ∀ conn, found = some conn → conn.LearnedFrom crypto vm config steps)
    (shared : Shared σ) (input : FrameInput) :
    (handleFrame crypto vm config found shared input).1.LearnedFrom crypto vm config
      (steps ++ frameSteps crypto vm config found shared input) := by
  obtain ⟨hdrains, -, -⟩ := handleFrame_drains crypto vm config found shared input
  apply hdrains.learnedFrom
  have hrandoms := randoms_receive config found input
  cases found with
  | some conn =>
      exact (hfound conn rfl).congr (receive_sameRoles config (some conn) input) hrandoms
        (List.Subset.refl steps)
  | none =>
      refine ⟨?_, ?_⟩
      · intro random server hknown
        cases hrandoms.symm.trans hknown
      · intro random hknown
        rw [Connection.serverRandom, hrandoms] at hknown
        cases hknown

end Origin

namespace Orchestrator

variable {σ : Type} {crypto : Crypto} {vm : LuaVm σ}

/-- **A run.**  What a tracked connection knows was bound by records of the run. -/
theorem learnedFrom_run (source : KeylogSource) (lua : σ) (config : OrchestratorConfig)
    (sweepNow gcNow : Instant) (inputs : List FrameInput) :
    let start := new source lua config sweepNow gcNow
    ∀ key conn, (after crypto vm start inputs).connections.lookup key = some conn →
      conn.LearnedFrom crypto vm config (runSteps crypto vm start inputs) := by
  intro start
  induction inputs using List.reverseRecOn with
  | nil =>
      intro key conn hlookup
      cases (AList.lookup_empty key).symm.trans hlookup
  | append_singleton inputs input ih =>
      intro key conn hlookup
      have hconfig : (after crypto vm start inputs).config = config := config_after start inputs
      rw [after_concat] at hlookup
      have hsteps : runSteps crypto vm start (inputs ++ [input]) =
          runSteps crypto vm start inputs ++
            (after crypto vm start inputs).recordSteps crypto vm input :=
        Machine.collect_concat start inputs input
      rw [hsteps]
      rcases lookup_processFrame hlookup with ⟨hold, -⟩ | ⟨-, -, hconn⟩
      · exact (ih key conn hold).congr ⟨rfl, rfl⟩ rfl (List.subset_append_left _ _)
      · rw [hconn, recordSteps, hconfig]
        exact handleFrame_learnedFrom (fun conn hfound => ih input.key conn hfound) _ input

/-- **When only hello records bind randoms.**  In a run every record binds randoms
genuinely if and only if those that look like an awaited hello are handshake records
or ChangeCipherSpecs.  All that the tracked connections know comes from records of the run. -/
theorem binds_genuinely_iff (crypto : Crypto) (vm : LuaVm σ) (source : KeylogSource) (lua : σ)
    (config : OrchestratorConfig) (sweepNow gcNow : Instant) (inputs : List FrameInput) :
    let start := new source lua config sweepNow gcNow
    let steps := runSteps crypto vm start inputs
    ((∀ step ∈ steps, step.BindsGenuinely crypto vm config) ↔
        ∀ step ∈ steps, step.LooksAwaited →
          step.contentType = 0x14 ∨ step.contentType = 0x16) ∧
      ∀ key conn, (after crypto vm start inputs).connections.lookup key = some conn →
        conn.LearnedFrom crypto vm config steps := by
  intro start steps
  refine ⟨forall₂_congr fun step _ => step.bindsGenuinely_iff crypto vm config, ?_⟩
  exact learnedFrom_run source lua config sweepNow gcNow inputs

open Capture

/-- A record of application data whose ciphertext starts with `0x01`. -/
def unluckyRecord : Bytes := [0x17, 0x03, 0x03, 0x00, 0x26, 0x01] ++ List.replicate 37 0x5a

/-- In a capture that starts in the middle of a connection, application data is taken
for the ClientHello. -/
theorem application_data_taken_for_hello :
    ¬ ∀ (crypto : Crypto) (vm : LuaVm Unit) (source : KeylogSource) (config : OrchestratorConfig)
      (sweepNow gcNow : Instant) (inputs : List FrameInput),
      ∀ step ∈ runSteps crypto vm (new source () config sweepNow gcNow) inputs,
        step.BindsGenuinely crypto vm config := by
  intro hclaim
  have hgenuine := hclaim RecordedSession.recording.crypto plainVm source .default 0 0
    [segment client server 0 1000 ack unluckyRecord 0]
  have hstep : ∃ step ∈ runSteps RecordedSession.recording.crypto plainVm
      (new source () .default 0 0) [segment client server 0 1000 ack unluckyRecord 0],
      step.contentType = 0x17 ∧ (step.after RecordedSession.recording.crypto plainVm
        .default).1.randoms ≠ step.conn.randoms := by
    decide +kernel
  obtain ⟨step, hmem, htype, hbound⟩ := hstep
  exact hbound ((hgenuine step hmem).applicationData htype).1

end Orchestrator

end Tlscap
