import Tlscap.Connection.Session
import Tlscap.Keylog.Growth
import Tlscap.Orchestrator.Buckets
import Tlscap.Orchestrator.Conversation

/-!
# Nothing is shown that was not sent

A capture may hold anything: lost, repeated, injected and replayed segments, frames of other
connections, a keylog that is written late or never.  What a connection shows in a direction
is nevertheless the beginning of the application data its peer sealed, each record once and
in order (`Orchestrator.shows_only_sent`).  A connection is one entry of the table here, from
the frame that opens it to its eviction, which knows no other randoms than the session's.

## Strategy

Under an ideal AEAD a record opens only with the counter it was numbered by, and the counter
moves when a record opens.  So what was opened in a lane (a generation of TLS 1.3, or
TLS 1.2) is a prefix of what was sealed in it, which is the invariant (`Ledger.Covers`):
after a record that is lost, nothing of its lane opens any more.

* **One attempt.**  What opens was sealed in the same direction, and the counter is its
  number (`opens_sent`); so it is the one behind the prefix (`Covers.next`).  The counters
  are tied to the prefixes by `Ledger.Vouches`.
* **One iteration** learns a hello, which starts the counters or leaves them, or attempts a
  record under a keylog that binds the session's secrets only (`RecordStep.vouched`).  Its
  messages are those of the application data it opens (`RecordStep.shows`).
* **One frame** drains the records of its direction (`Drains.vouched`), and a frame of
  another pair leaves the entry alone.  What is left in a direction's tail plays no part:
  messages carry the plaintext of their record.
* **A run** keeps `ShowsSent` while the pair is tracked.

Application data is sealed in one lane of a direction only, so what was opened in a
direction, of whatever lanes, is the beginning of its application data
(`Ledger.Covers.shownIn`).
-/

namespace Tlscap

/-! ## What was sent and what was opened -/

/-- All that was sealed under the keys of a session, by direction and lane, in the order of
the numbers.  Application data is sealed in one lane of a direction only. -/
structure Ledger (crypto : Crypto) (log : Bytes → Option Sealing) where
  session : Session
  sent : (isClient : Bool) → (lane : Option Generation) → List SessionRecord
  dataLane : (isClient : Bool) → Option Generation
  distinct : session.KeysDistinct crypto
  short : ∀ isClient lane, (sent isClient lane).length < 2 ^ 64
  complete : ∀ isClient body, session.Foreign crypto log isClient body ∨
    ∃ record number wireType, record.isClient = isClient ∧
      (sent isClient record.version.lane)[number]? = some record ∧
      session.Seals crypto log record number wireType body
  data : ∀ isClient lane, lane ≠ dataLane isClient →
    ∀ record ∈ sent isClient lane, record.contentType ≠ 0x17

/-- A record that was opened, with its direction. -/
abbrev OpenedRecord := Bool × DecryptedRecord

/-- What was opened in a lane. -/
def laneOf (opened : List OpenedRecord) (isClient : Bool) (lane : Option Generation) :
    List DecryptedRecord :=
  (opened.filter fun record => record.1 == isClient && decide (record.2.version.lane = lane)).map
    Prod.snd

/-- The application data that was opened in a direction. -/
def shownIn (opened : List OpenedRecord) (isClient : Bool) : List Bytes :=
  (opened.filter fun record => record.1 == isClient && decide (record.2.contentType = 0x17)).map
    fun record => record.2.plaintext

theorem laneOf_append (first second : List OpenedRecord) (isClient : Bool)
    (lane : Option Generation) :
    laneOf (first ++ second) isClient lane =
      laneOf first isClient lane ++ laneOf second isClient lane := by
  unfold laneOf
  rw [List.filter_append, List.map_append]

theorem shownIn_append (first second : List OpenedRecord) (isClient : Bool) :
    shownIn (first ++ second) isClient = shownIn first isClient ++ shownIn second isClient := by
  unfold shownIn
  rw [List.filter_append, List.map_append]

theorem laneOf_singleton (record : OpenedRecord) (isClient : Bool) (lane : Option Generation) :
    laneOf [record] isClient lane =
      if record.1 = isClient ∧ record.2.version.lane = lane then [record.2] else [] := by
  unfold laneOf
  by_cases hlane : record.1 = isClient ∧ record.2.version.lane = lane
  · rw [if_pos hlane, List.filter_cons_of_pos (by simp [hlane])]
    rfl
  · rw [if_neg hlane, List.filter_cons_of_neg (by simpa using hlane)]
    rfl

namespace Ledger

variable {crypto : Crypto} {log : Bytes → Option Sealing} (ledger : Ledger crypto log)

/-- The application data that was sealed in a direction. -/
def applicationData (isClient : Bool) : List Bytes :=
  ((ledger.sent isClient (ledger.dataLane isClient)).filter fun record =>
    decide (record.contentType = 0x17)).map SessionRecord.content

/-- What was opened in each lane is the beginning of what was sealed in it. -/
def Covers (opened : List OpenedRecord) : Prop :=
  ∀ isClient lane, laneOf opened isClient lane <+:
    (ledger.sent isClient lane).map ledger.session.opened

/-- The decrypt state counts what was opened, and its keys are the session's. -/
structure Vouches (opened : List OpenedRecord) (state : Option ConnectionState) : Prop where
  untouched : state = none → opened = []
  caches : ∀ known, state = some known → known.CachesFrom crypto ledger.session.secrets
  counters : ∀ known, state = some known → ∀ isClient lane,
    known.uncached.counter isClient lane = UInt64.ofNat (laneOf opened isClient lane).length

variable {ledger} {opened : List OpenedRecord} {isClient : Bool} {keylog : Keylog}

/-- What was opened in a direction is the beginning of its application data. -/
theorem Covers.shownIn (h : ledger.Covers opened) (isClient : Bool) :
    shownIn opened isClient <+: ledger.applicationData isClient := by
  have hlane := h isClient (ledger.dataLane isClient)
  have hshown : Tlscap.shownIn opened isClient =
      ((laneOf opened isClient (ledger.dataLane isClient)).filter fun record =>
        decide (record.contentType = 0x17)).map DecryptedRecord.plaintext := by
    unfold Tlscap.shownIn laneOf
    rw [List.filter_map, List.map_map, List.filter_filter]
    -- application data is opened in its own lane only, as it is sealed in no other
    have hsame : ∀ record ∈ opened,
        (record.1 == isClient && decide (record.2.contentType = 0x17)) =
          (decide (record.2.contentType = 0x17) && (record.1 == isClient &&
            decide (record.2.version.lane = ledger.dataLane isClient))) := by
      intro record hrecord
      by_cases hown : record.1 = isClient
      · by_cases hdata : record.2.contentType = 0x17
        · have hopened : record.2 ∈ laneOf opened isClient record.2.version.lane := by
            unfold laneOf
            exact List.mem_map_of_mem (List.mem_filter.mpr ⟨hrecord, by simp [hown]⟩)
          obtain ⟨sealed, hsealed, hsame⟩ :=
            List.mem_map.mp ((h isClient record.2.version.lane).subset hopened)
          have hdataLane : record.2.version.lane = ledger.dataLane isClient := by
            by_contra hother
            apply ledger.data isClient _ hother sealed hsealed
            rw [← hdata, ← hsame]
            rfl
          simp [hown, hdata, hdataLane]
        · simp [hdata]
      · have hother : (record.1 == isClient) = false := beq_eq_false_iff_ne.mpr hown
        rw [hother, Bool.false_and, Bool.false_and, Bool.and_false]
    rw [List.filter_congr hsame]
    rfl
  have hsent : ledger.applicationData isClient =
      (((ledger.sent isClient (ledger.dataLane isClient)).map ledger.session.opened).filter
        fun record => decide (record.contentType = 0x17)).map DecryptedRecord.plaintext := by
    unfold applicationData
    rw [List.filter_map, List.map_map]
    rfl
  rw [hshown, hsent]
  exact (hlane.filter _).map _

/-! ## One attempt -/

/-- A record that opens is shown with the content type it was sealed with, under TLS 1.2. -/
theorem seals_shown (hideal : IdealAead crypto log) {session : Session} {state : Uncached}
    (htracks : session.Tracks state)
    (hbinds : keylog.BindsOnly session.clientRandom session.secrets)
    {record : SessionRecord} {number : ℕ} {sealedType wireType : UInt8} {body : Bytes}
    (hseals : session.Seals crypto log record number sealedType body)
    {decrypted : DecryptedRecord}
    (h : state.attempt crypto keylog record.isClient wireType body = .ok decrypted) :
    session.Seals crypto log record number wireType body := by
  obtain ⟨isClient, version, contentType, content, padding⟩ := record
  cases version with
  | tls13 g => exact hseals
  | tls12 explicitNonce =>
      obtain ⟨hnumber, hwire, hexplicit, halgorithms, masterSecret, ciphertext, hmaster, hbody,
        hlog⟩ := hseals
      have hdrop : body.drop 8 = ciphertext := by
        rw [hbody, List.drop_left' hexplicit]
      unfold Uncached.attempt at h
      cases h13 : state.attempt13 crypto keylog isClient body with
      | ok opened =>
          -- TLS 1.3 would need a traffic secret of the session
          obtain ⟨g, _, _, _, _, hsome, _⟩ := attempt13_sealed hideal htracks hbinds h13
          rw [Session.noTraffic_of_master hmaster] at hsome
          cases hsome
      | error _ =>
          rw [h13] at h
          obtain ⟨_, -, -, -, -, hsealed⟩ := attempt12_sealed hideal htracks hbinds h
          rw [hdrop, hlog, Option.some.injEq, Sealing.mk.injEq] at hsealed
          obtain ⟨-, -, -, haad, -⟩ := hsealed
          exact ⟨hnumber, (Tls12.aad_inj haad).2.symm, hexplicit, halgorithms, masterSecret,
            ciphertext, hmaster, hbody, hlog⟩

/-- **What opens was sealed** in the same direction, and the counter is its number. -/
theorem opens_sent (hideal : IdealAead crypto log) {state : Uncached}
    (htracks : ledger.session.Tracks state)
    (hbinds : keylog.BindsOnly ledger.session.clientRandom ledger.session.secrets)
    {wireType : UInt8} {body : Bytes} {decrypted : DecryptedRecord}
    (h : state.attempt crypto keylog isClient wireType body = .ok decrypted) :
    ∃ record number, decrypted = ledger.session.opened record ∧ number < 2 ^ 64 ∧
      (ledger.sent isClient decrypted.version.lane)[number]? = some record ∧
      state.counter isClient decrypted.version.lane = UInt64.ofNat number := by
  rcases ledger.complete isClient body with
    hforeign | ⟨record, number, sealedType, rfl, hsent, hseals⟩
  · obtain ⟨error, hfailed⟩ := attempt_foreign hideal htracks hbinds hforeign wireType
    cases h.symm.trans hfailed
  · have hshown := seals_shown hideal htracks hbinds hseals h
    obtain ⟨hopened, hcounter, -⟩ :=
      attempt_seals hideal ledger.distinct htracks hbinds hshown h
    refine ⟨record, number, hopened, hseals.1, ?_, ?_⟩
    · rw [hopened]
      exact hsent
    · rw [hopened]
      exact hcounter

/-- Lists as long as a counter says are as long as each other, below the wrap. -/
theorem eq_of_ofNat_eq {m n : ℕ} (hm : m < 2 ^ 64) (hn : n < 2 ^ 64)
    (h : UInt64.ofNat m = UInt64.ofNat n) : m = n := by
  have hnat := congrArg UInt64.toNat h
  rwa [UInt64.toNat_ofNat_of_lt' hm, UInt64.toNat_ofNat_of_lt' hn] at hnat

/-- One more record is opened: the next one of its lane. -/
theorem Covers.next (h : ledger.Covers opened) {decrypted : DecryptedRecord}
    {record : SessionRecord} {number : ℕ} (hopened : decrypted = ledger.session.opened record)
    (hnumber : number < 2 ^ 64)
    (hsent : (ledger.sent isClient decrypted.version.lane)[number]? = some record)
    (hcounter : UInt64.ofNat (laneOf opened isClient decrypted.version.lane).length =
      UInt64.ofNat number) :
    ledger.Covers (opened ++ [(isClient, decrypted)]) := by
  have hshort := ledger.short isClient decrypted.version.lane
  have hlength := (h isClient decrypted.version.lane).length_le
  rw [List.length_map] at hlength
  have hnext := eq_of_ofNat_eq (hlength.trans_lt hshort) hnumber hcounter
  intro other lane
  rw [laneOf_append, laneOf_singleton]
  by_cases hlane : isClient = other ∧ decrypted.version.lane = lane
  · obtain ⟨rfl, rfl⟩ := hlane
    rw [if_pos ⟨rfl, rfl⟩]
    obtain ⟨rest, hrest⟩ := h isClient decrypted.version.lane
    -- the record at the end of the prefix is the one the counter names
    have hat := congrArg (·[number]?) hrest
    simp only [← hnext, List.getElem?_append_right le_rfl, Nat.sub_self] at hat
    rw [List.getElem?_map, hnext, hsent, Option.map_some, ← hopened] at hat
    cases rest with
    | nil => cases hat
    | cons first rest =>
        rw [List.getElem?_cons_zero, Option.some.injEq] at hat
        exact ⟨rest, by rw [← hrest, hat, List.append_assoc, List.singleton_append]⟩
  · rw [if_neg hlane, List.append_nil]
    exact h other lane

/-- The record of an outcome, if it is one. -/
def openedBy (isClient : Bool) : Except ProcessError DecryptedRecord → List OpenedRecord
  | .ok decrypted => [(isClient, decrypted)]
  | .error _ => []

/-- **One decryption**: what it opens is the next record of its lane. -/
theorem Vouches.decrypt (hideal : IdealAead crypto log) {state newState : ConnectionState}
    (hcovers : ledger.Covers opened) (h : ledger.Vouches opened (some state))
    (htracks : ledger.session.Tracks state.uncached)
    (hbinds : keylog.BindsOnly ledger.session.clientRandom ledger.session.secrets)
    {wireType : UInt8} {body : Bytes} {result : Except ProcessError DecryptedRecord}
    (hdecrypt : state.decrypt crypto keylog isClient wireType body = (newState, result)) :
    ledger.Covers (opened ++ openedBy isClient result) ∧
      ledger.Vouches (opened ++ openedBy isClient result) (some newState) := by
  have hclient : state.clientRandom = ledger.session.clientRandom := htracks.clientRandom
  rw [← hclient] at hbinds
  have hcaches := h.caches state rfl
  have hlater := hcaches.decrypt hbinds isClient wireType body
  have hagrees := ConnectionState.decrypt_agrees (hcaches.agree hbinds isClient) wireType body
  rw [hdecrypt] at hlater hagrees
  obtain ⟨hafter, hresult⟩ := Prod.ext_iff.mp hagrees
  change state.uncached.attempt crypto keylog isClient wireType body = result at hresult
  change state.uncached.after isClient _ = newState.uncached at hafter
  rw [hresult] at hafter
  have hcounters := h.counters state rfl
  rw [hclient] at hbinds
  -- a failed attempt opens nothing and moves no counter
  cases result with
  | error error =>
      rw [openedBy, List.append_nil]
      refine ⟨hcovers, nofun, ?_, ?_⟩
      · rintro _ ⟨⟩
        exact hlater
      · rintro _ ⟨⟩
        rw [← hafter]
        exact hcounters
  | ok decrypted =>
      obtain ⟨record, number, hopened, hnumber, hsent, hcounter⟩ :=
        opens_sent hideal htracks hbinds hresult
      rw [hcounters] at hcounter
      refine ⟨hcovers.next hopened hnumber hsent hcounter, nofun, ?_, ?_⟩
      · rintro _ ⟨⟩
        exact hlater
      · rintro _ ⟨⟩ other lane
        rw [← hafter, Uncached.after, Uncached.counter_advance, openedBy, laneOf_append,
          laneOf_singleton, hcounters]
        -- only the counter of the record's own lane moves, by the one record
        by_cases hlane : other = isClient ∧ lane = decrypted.version.lane
        · rw [if_pos hlane, if_pos ⟨hlane.1.symm, hlane.2.symm⟩, List.length_append,
            UInt64.ofNat_add]
          rfl
        · rw [if_neg hlane, if_neg fun h => hlane ⟨h.1.symm, h.2.symm⟩, List.append_nil]

end Ledger

/-! ## One iteration -/

/-! ### The keylog -/

/-- Whatever is read of the keylog file binds only these secrets to the client random. -/
def KeylogReadings.BindsOnly (readings : KeylogReadings) (hexDecode : Text → Option Bytes)
    (clientRandom : Bytes) (secrets : Secrets) : Prop :=
  ∀ text, readings.pollReload.contents = some text ∨ readings.missReload.contents = some text →
    (Keylog.parse hexDecode text).BindsOnly clientRandom secrets

section Step

variable {σ : Type} {crypto : Crypto} {vm : LuaVm σ} {config : OrchestratorConfig}
  {log : Bytes → Option Sealing} {ledger : Ledger crypto log} {opened : List OpenedRecord}
  {clientRandom : Bytes} {secrets : Secrets}

/-- An attempt is made under a keylog that binds the secrets only, and leaves one. -/
theorem attemptDecrypt_binds {source after : KeylogSource} {readings : KeylogReadings}
    (hsource : source.current.BindsOnly clientRandom secrets)
    (hreadings : readings.BindsOnly crypto.hexDecode clientRandom secrets)
    {state newState : ConnectionState}
    {isClientToServer : Bool} {contentType : UInt8} {body : Bytes}
    {result : Except ProcessError DecryptedRecord}
    (h : attemptDecrypt crypto source state readings isClientToServer contentType body =
      (after, newState, result)) :
    after.current.BindsOnly clientRandom secrets ∧
      ∃ keylog : Keylog, keylog.BindsOnly clientRandom secrets ∧
        state.decrypt crypto keylog isClientToServer contentType body = (newState, result) := by
  set polled := source.poll crypto.hexDecode readings.pollClock readings.pollReload with hpolled
  have hpolledBinds : polled.current.BindsOnly clientRandom secrets := by
    rcases source.poll_current crypto.hexDecode readings.pollClock readings.pollReload with
      hsame | ⟨text, htext, hcurrent⟩
    · rw [hpolled, hsame]
      exact hsource
    · rw [hpolled, hcurrent]
      exact hreadings text (.inl htext)
  have hmissBinds : (polled.pollAfterMiss crypto.hexDecode readings.missSignature
      readings.missReload).current.BindsOnly clientRandom secrets := by
    rcases polled.pollAfterMiss_current crypto.hexDecode readings.missSignature
      readings.missReload with hsame | ⟨text, htext, hcurrent⟩
    · rw [hsame]
      exact hpolledBinds
    · rw [hcurrent]
      exact hreadings text (.inr htext)
  unfold attemptDecrypt at h
  simp only at h
  rw [← hpolled] at h
  -- only after a missing key is the keylog read once more, when the attempt is over
  rcases hdecrypt : state.decrypt crypto polled.current isClientToServer contentType body with
    ⟨later, (_ | _) | decrypted⟩
  · rw [hdecrypt, Prod.mk.injEq, Prod.mk.injEq] at h
    obtain ⟨hafter, rfl, rfl⟩ := h
    rw [← hafter]
    exact ⟨hmissBinds, polled.current, hpolledBinds, hdecrypt⟩
  · rw [hdecrypt, Prod.mk.injEq, Prod.mk.injEq] at h
    obtain ⟨hafter, rfl, rfl⟩ := h
    rw [← hafter]
    exact ⟨hpolledBinds, polled.current, hpolledBinds, hdecrypt⟩
  · rw [hdecrypt, Prod.mk.injEq, Prod.mk.injEq] at h
    obtain ⟨hafter, rfl, rfl⟩ := h
    rw [← hafter]
    exact ⟨hpolledBinds, polled.current, hpolledBinds, hdecrypt⟩

/-- A dissection leaves the decrypt state and the keylog alone. -/
theorem dissectAndEmit_keeps (vm : LuaVm σ) (config : OrchestratorConfig) (conn : Connection)
    (shared : Shared σ) (isClientToServer : Bool) (plaintext : Bytes) (timestamp : Duration) :
    let after := dissectAndEmit vm config conn shared isClientToServer plaintext timestamp
    after.1.state = conn.state ∧ after.2.1.keylog = shared.keylog := by
  intro after
  constructor
  · obtain ⟨bytes, -, hconn⟩ :=
      dissectAndEmit_conn vm config conn shared isClientToServer plaintext timestamp
    have hafter : after.1 = conn.setTail isClientToServer bytes := hconn
    rw [hafter]
    cases isClientToServer <;> rfl
  · unfold after dissectAndEmit
    simp only
    split <;> rfl

/-- The record that an iteration decrypts, if it does. -/
def RecordStep.decrypted (crypto : Crypto) (step : RecordStep σ) : List OpenedRecord :=
  match step.attempt crypto with
  | some (_, _, result) => Ledger.openedBy step.isClientToServer result
  | none => []

/-- An iteration leaves a keylog that binds the secrets only. -/
theorem RecordStep.keylog_binds (step : RecordStep σ)
    (hkeylog : step.shared.keylog.current.BindsOnly clientRandom secrets)
    (hreadings : step.readings.BindsOnly crypto.hexDecode clientRandom secrets) :
    (step.after crypto vm config).2.1.keylog.current.BindsOnly clientRandom secrets := by
  cases step.fate crypto vm config with
  | changeCipherSpec _ _ _ hafter => rw [hafter]; exact hkeylog
  | hello _ _ _ _ _ hafter => rw [hafter]; exact hkeylog
  | noClientHello _ _ _ _ _ hafter => rw [hafter]; exact hkeylog
  | attempted state keylog newState result _ _ hdecrypt _ _ hafter =>
      rw [hafter]
      exact (attemptDecrypt_binds hkeylog hreadings hdecrypt).1
  | application state keylog newState decrypted _ _ hdecrypt _ _ hafter =>
      rw [hafter]
      simp only [(dissectAndEmit_keeps vm config _ _ step.isClientToServer decrypted.plaintext
        step.timestamp).2]
      exact (attemptDecrypt_binds hkeylog hreadings hdecrypt).1

/-- A hello starts the counters or leaves them. -/
theorem Ledger.Vouches.hello {conn learned : Connection}
    (h : ledger.Vouches opened conn.state) {isClientToServer : Bool} {body : Bytes}
    (hhello : learnHello conn isClientToServer body = some learned) :
    ledger.Vouches opened learned.state := by
  unfold learnHello at hhello
  cases isClientToServer with
  | true =>
      simp only [if_true] at hhello
      split at hhello
      · rename_i clientRandom hnone _
        cases hhello
        -- without a state nothing was opened yet, and the new one counts from zero
        obtain rfl := h.untouched hnone
        refine ⟨nofun, ?_, ?_⟩
        · rintro _ ⟨⟩
          exact ConnectionState.cachesFrom_new _ _ _
        · rintro _ ⟨⟩ (_ | _) (_ | _ | _) <;> rfl
      · cases hhello
  | false =>
      simp only [Bool.false_eq_true, if_false] at hhello
      split at hhello
      · rename_i serverRandom state hserver hstate
        have hcaches := (h.caches state hstate).setServerRandom serverRandom
        have hcounters := h.counters state hstate
        -- the server random is no counter
        have hsame : ∀ isClient lane,
            (state.setServerRandom serverRandom).1.uncached.counter isClient lane =
              state.uncached.counter isClient lane := by
          intro isClient lane
          unfold ConnectionState.setServerRandom
          split
          · rfl
          · cases lane <;> rfl
        split at hhello
        · rename_i later hset
          cases hhello
          rw [hset] at hcaches hsame
          refine ⟨nofun, ?_, ?_⟩
          · rintro _ ⟨⟩
            exact hcaches
          · rintro _ ⟨⟩ isClient lane
            exact (hsame isClient lane).trans (hcounters isClient lane)
        · cases hhello
      · cases hhello

/-- **One iteration**: what it opens is the next record of its lane. -/
theorem RecordStep.vouched (hideal : IdealAead crypto log) (vm : LuaVm σ)
    (config : OrchestratorConfig) (step : RecordStep σ)
    (hkeylog : step.shared.keylog.current.BindsOnly ledger.session.clientRandom
      ledger.session.secrets)
    (hreadings : step.readings.BindsOnly crypto.hexDecode ledger.session.clientRandom
      ledger.session.secrets)
    (htracks : ∀ state, step.conn.state = some state → ledger.session.Tracks state.uncached)
    (hcovers : ledger.Covers opened) (h : ledger.Vouches opened step.conn.state) :
    ledger.Covers (opened ++ step.decrypted crypto) ∧
      ledger.Vouches (opened ++ step.decrypted crypto) (step.after crypto vm config).1.state := by
  have hnothing : step.attempt crypto = none → opened ++ step.decrypted crypto = opened := by
    intro hnone
    rw [RecordStep.decrypted, hnone, List.append_nil]
  cases step.fate crypto vm config with
  | changeCipherSpec _ hattempt _ hafter =>
      rw [hnothing hattempt, hafter]
      exact ⟨hcovers, h⟩
  | hello state _ hhello hattempt _ hafter =>
      rw [hnothing hattempt, hafter]
      exact ⟨hcovers, h.hello hhello⟩
  | noClientHello _ _ _ hattempt _ hafter =>
      rw [hnothing hattempt, hafter]
      exact ⟨hcovers, h⟩
  | attempted state keylog newState result hstate hattempt hdecrypt _ _ hafter =>
      obtain ⟨-, used, hbinds, hused⟩ := attemptDecrypt_binds hkeylog hreadings hdecrypt
      rw [hstate] at h
      rw [hafter, RecordStep.decrypted, hattempt]
      exact h.decrypt hideal hcovers (htracks state hstate) hbinds hused
  | application state keylog newState decrypted hstate hattempt hdecrypt _ _ hafter =>
      obtain ⟨-, used, hbinds, hused⟩ := attemptDecrypt_binds hkeylog hreadings hdecrypt
      rw [hstate] at h
      rw [hafter, RecordStep.decrypted, hattempt]
      simp only [(dissectAndEmit_keeps vm config _ _ step.isClientToServer decrypted.plaintext
        step.timestamp).1]
      exact h.decrypt hideal hcovers (htracks state hstate) hbinds hused

/-- The messages of an iteration are those of the application data it opens. -/
theorem RecordStep.shows (vm : LuaVm σ) (config : OrchestratorConfig) (step : RecordStep σ) :
    (step.after crypto vm config).2.2.map DecodedMessage.tlsAppData =
      shownIn (step.decrypted crypto) step.isClientToServer := by
  cases step.fate crypto vm config with
  | changeCipherSpec _ hattempt _ hafter => rw [hafter, RecordStep.decrypted, hattempt]; rfl
  | hello _ _ _ hattempt _ hafter => rw [hafter, RecordStep.decrypted, hattempt]; rfl
  | noClientHello _ _ _ hattempt _ hafter => rw [hafter, RecordStep.decrypted, hattempt]; rfl
  | attempted state keylog newState result _ hattempt _ hother _ hafter =>
      rw [hafter, RecordStep.decrypted, hattempt]
      cases result with
      | error _ => rfl
      | ok decrypted =>
          have hdata : decrypted.contentType ≠ 0x17 := fun hdata => hother ⟨decrypted, rfl, hdata⟩
          unfold shownIn Ledger.openedBy
          simp only
          rw [List.filter_cons_of_neg (by simp [hdata])]
          rfl
  | application state keylog newState decrypted _ hattempt _ hdata _ hafter =>
      rw [hafter, RecordStep.decrypted, hattempt]
      unfold shownIn Ledger.openedBy
      simp only
      rw [List.filter_cons_of_pos (by simp [hdata])]
      simp only [dissectAndEmit_message]
      rfl

/-! ## The records of a frame -/

/-- The records of a frame leave a keylog that binds the secrets only. -/
theorem Drains.keylog_binds {isClientToServer : Bool} {conn last : Connection}
    {shared lastShared : Shared σ} {steps : List (RecordStep σ)}
    (h : Drains crypto vm config isClientToServer conn shared steps last lastShared)
    (hreadings : ∀ step ∈ steps, step.readings.BindsOnly crypto.hexDecode clientRandom secrets)
    (hkeylog : shared.keylog.current.BindsOnly clientRandom secrets) :
    lastShared.keylog.current.BindsOnly clientRandom secrets := by
  induction h with
  | stop conn shared => exact hkeylog
  | @take conn shared step steps last lastShared htakes hlater ih =>
      obtain ⟨hnow, hrest⟩ := List.forall_mem_cons.mp hreadings
      rw [← htakes.shared] at hkeylog
      exact ih hrest (step.keylog_binds hkeylog hnow)

/-- **The records of a frame**: what they open follows what was opened before. -/
theorem Drains.vouched (hideal : IdealAead crypto log) {isClientToServer : Bool}
    {conn last : Connection} {shared lastShared : Shared σ} {steps : List (RecordStep σ)}
    (h : Drains crypto vm config isClientToServer conn shared steps last lastShared)
    (hreadings : ∀ step ∈ steps, step.readings.BindsOnly crypto.hexDecode
      ledger.session.clientRandom ledger.session.secrets)
    (hkeylog : shared.keylog.current.BindsOnly ledger.session.clientRandom ledger.session.secrets)
    (htracks : ∀ step ∈ steps, ∀ state, step.conn.state = some state →
      ledger.session.Tracks state.uncached)
    (hcovers : ledger.Covers opened) (hvouches : ledger.Vouches opened conn.state) :
    ledger.Covers (opened ++ steps.flatMap (RecordStep.decrypted crypto)) ∧
      ledger.Vouches (opened ++ steps.flatMap (RecordStep.decrypted crypto)) last.state := by
  induction h generalizing opened with
  | stop conn shared =>
      rw [List.flatMap_nil, List.append_nil]
      exact ⟨hcovers, hvouches⟩
  | @take conn shared step steps last lastShared htakes hlater ih =>
      obtain ⟨hnow, hrest⟩ := List.forall_mem_cons.mp hreadings
      obtain ⟨htracksNow, htracksRest⟩ := List.forall_mem_cons.mp htracks
      obtain ⟨rest, -, hconn⟩ := htakes.record
      have hstate : step.conn.state = conn.state := by
        rw [hconn]
        cases isClientToServer <;> rfl
      rw [← htakes.shared] at hkeylog
      rw [← hstate] at hvouches
      obtain ⟨hcovers', hvouches'⟩ :=
        step.vouched hideal vm config hkeylog hnow htracksNow hcovers hvouches
      rw [List.flatMap_cons, ← List.append_assoc]
      exact ih hrest (step.keylog_binds hkeylog hnow) htracksRest hcovers' hvouches'

end Step

/-! ## Runs -/

namespace Orchestrator

section Run

variable {σ : Type} {crypto : Crypto} {vm : LuaVm σ} {log : Bytes → Option Sealing}
  {ledger : Ledger crypto log} {client : Endpoint} {key : ConnKey} {shown : List OpenedRecord}
  {orchestrator : Orchestrator σ}

/-- What was decrypted of the pair is the beginning of what was sent, and the entry of the
pair, where there is one, counts it. -/
structure ShowsSent (ledger : Ledger crypto log) (client : Endpoint) (key : ConnKey)
    (shown : List OpenedRecord) (orchestrator : Orchestrator σ) : Prop where
  keylog : orchestrator.shared.keylog.current.BindsOnly ledger.session.clientRandom
    ledger.session.secrets
  covers : ledger.Covers shown
  entry : ∀ conn, orchestrator.connections.lookup key = some conn →
    conn.clientEndpoint = client ∧ ledger.Vouches shown conn.state

theorem readings_frameSteps {config : OrchestratorConfig} {found : Option Connection}
    {shared : Shared σ} {input : FrameInput} {clientRandom : Bytes} {secrets : Secrets}
    (hreadings : ∀ index,
      (input.keylogReadings index).BindsOnly crypto.hexDecode clientRandom secrets) :
    ∀ step ∈ frameSteps crypto vm config found shared input,
      step.readings.BindsOnly crypto.hexDecode clientRandom secrets := by
  intro step hstep
  obtain ⟨position, hposition⟩ :=
    drainSteps_readings crypto vm config _ _ _ _ _ _ _ step hstep
  rw [hposition]
  exact hreadings position

/-- Any frame leaves a keylog that binds the secrets only. -/
theorem keylog_processFrame_binds {input : FrameInput} {clientRandom : Bytes} {secrets : Secrets}
    (hkeylog : orchestrator.shared.keylog.current.BindsOnly clientRandom secrets)
    (hreadings : ∀ index,
      (input.keylogReadings index).BindsOnly crypto.hexDecode clientRandom secrets) :
    (orchestrator.processFrame crypto vm input).1.shared.keylog.current.BindsOnly clientRandom
      secrets := by
  rw [keylog_processFrame]
  exact (handleFrame_drains crypto vm orchestrator.config
    (orchestrator.connections.lookup input.key) orchestrator.shared input).1.keylog_binds
      (readings_frameSteps hreadings) hkeylog

/-- So does a run. -/
theorem keylog_after_binds {inputs : List FrameInput} {clientRandom : Bytes} {secrets : Secrets}
    (hkeylog : orchestrator.shared.keylog.current.BindsOnly clientRandom secrets)
    (hreadings : ∀ input ∈ inputs, ∀ index,
      (input.keylogReadings index).BindsOnly crypto.hexDecode clientRandom secrets) :
    (after crypto vm orchestrator inputs).shared.keylog.current.BindsOnly clientRandom
      secrets := by
  apply Machine.run_preserves_on
    (P := fun orchestrator : Orchestrator σ =>
      orchestrator.shared.keylog.current.BindsOnly clientRandom secrets)
    (Q := fun input : FrameInput => ∀ index,
      (input.keylogReadings index).BindsOnly crypto.hexDecode clientRandom secrets)
  · exact fun state input hbinds hinput => keylog_processFrame_binds hbinds hinput
  · exact hkeylog
  · exact hreadings

/-- **A frame of the pair**: what it decrypts is sent next, and its messages show it. -/
theorem ShowsSent.own (hideal : IdealAead crypto log)
    (h : ShowsSent ledger client key shown orchestrator) {input : FrameInput}
    (hkey : input.key = key)
    (hreadings : ∀ index, (input.keylogReadings index).BindsOnly crypto.hexDecode
      ledger.session.clientRandom ledger.session.secrets)
    {opened : Connection} (hopened : openConnection orchestrator.config
      (orchestrator.connections.lookup key) input = opened)
    (hclient : opened.clientEndpoint = client) (hvouches : ledger.Vouches shown opened.state)
    (htracks : ∀ step ∈ orchestrator.recordSteps crypto vm input, ∀ state,
      step.conn.state = some state → ledger.session.Tracks state.uncached) :
    let decrypted := (orchestrator.recordSteps crypto vm input).flatMap
      (RecordStep.decrypted crypto)
    ShowsSent ledger client key (shown ++ decrypted)
        (orchestrator.processFrame crypto vm input).1 ∧
      ∀ isClientToServer, (orchestrator.emittedOf crypto vm key client isClientToServer
        input).map DecodedMessage.tlsAppData = shownIn decrypted isClientToServer := by
  subst hkey
  intro decrypted
  obtain ⟨hdrains, -, -⟩ := handleFrame_drains crypto vm orchestrator.config
    (orchestrator.connections.lookup input.key) orchestrator.shared input
  have hstate := (exchange_receive orchestrator.config
    (orchestrator.connections.lookup input.key) input).2
  rw [hopened] at hstate
  -- receiving a payload leaves the decrypt state; only its records change that
  rw [← hstate] at hvouches
  obtain ⟨hcovers, hvouches'⟩ := hdrains.vouched hideal (readings_frameSteps hreadings) h.keylog
    htracks h.covers hvouches
  obtain ⟨hroles, hclient'⟩ := frameSteps_sameRoles crypto vm orchestrator.config
    (orchestrator.connections.lookup input.key) orchestrator.shared input
  rw [hopened] at hclient'
  have hdirection : ∀ step ∈ orchestrator.recordSteps crypto vm input,
      step.isClientToServer = decide (input.src = client) := by
    intro step hstep
    rw [(hroles step hstep).2, direction, hopened, hclient]
  refine ⟨⟨keylog_processFrame_binds h.keylog hreadings, hcovers, fun conn hlookup => ?_⟩,
    fun isClientToServer => ?_⟩
  · rcases lookup_processFrame hlookup with ⟨-, hother⟩ | ⟨-, -, hconn⟩
    · exact absurd rfl hother
    · rw [hconn]
      exact ⟨hclient'.1.trans hclient, hvouches'⟩
  · have hown : ∀ step ∈ orchestrator.recordSteps crypto vm input,
        shownIn (step.decrypted crypto) isClientToServer =
          if decide (input.src = client) = isClientToServer then
            (step.after crypto vm orchestrator.config).2.2.map DecodedMessage.tlsAppData
          else [] := by
      intro step hstep
      rw [RecordStep.shows, hdirection step hstep]
      split
      · rename_i hsame
        rw [hsame]
      · rename_i hother
        unfold RecordStep.decrypted shownIn
        split
        · rename_i result _
          cases result with
          | error _ => rfl
          | ok record =>
              have hapart : (step.isClientToServer == isClientToServer) = false := by
                rw [hdirection step hstep]
                exact beq_eq_false_iff_ne.mpr hother
              unfold Ledger.openedBy
              simp only
              rw [List.filter_cons_of_neg (by simp [hapart])]
              rfl
        · rfl
    have hshown : shownIn decrypted isClientToServer =
        (orchestrator.recordSteps crypto vm input).flatMap fun step =>
          shownIn (step.decrypted crypto) isClientToServer := by
      unfold shownIn decrypted
      rw [List.filter_flatMap, List.map_flatMap]
    rw [hshown, List.flatMap_congr hown, emittedOf]
    by_cases hsame : decide (input.src = client) = isClientToServer
    · rw [if_pos ⟨rfl, hsame⟩, messages_processFrame, List.map_map, List.map_flatMap]
      simp only [if_pos hsame]
      rfl
    · rw [if_neg fun hboth => hsame hboth.2]
      simp only [if_neg hsame]
      exact (List.flatMap_eq_nil_iff.mpr fun _ _ => rfl).symm

/-- **A run** while the pair is tracked. -/
theorem ShowsSent.run (hideal : IdealAead crypto log)
    (h : ShowsSent ledger client key shown orchestrator) {inputs : List FrameInput}
    (hreadings : ∀ input ∈ inputs, ∀ index,
      (input.keylogReadings index).BindsOnly crypto.hexDecode ledger.session.clientRandom
        ledger.session.secrets)
    (htracked : Machine.Throughout (Orchestrator.processFrame crypto vm)
      (fun orchestrator _ => (orchestrator.connections.lookup key).isSome) orchestrator inputs)
    (htracks : ∀ step ∈ pairSteps crypto vm key orchestrator inputs, ∀ state,
      step.conn.state = some state → ledger.session.Tracks state.uncached) :
    let decrypted := (pairSteps crypto vm key orchestrator inputs).flatMap
      (RecordStep.decrypted crypto)
    ledger.Covers (shown ++ decrypted) ∧ ∀ isClientToServer,
      (emitted crypto vm key client isClientToServer orchestrator inputs).map
        DecodedMessage.tlsAppData = shownIn decrypted isClientToServer := by
  induction inputs generalizing shown orchestrator with
  | nil =>
      refine ⟨?_, fun _ => rfl⟩
      rw [pairSteps, Machine.collect, List.flatMap_nil, List.append_nil]
      exact h.covers
  | cons input rest ih =>
      obtain ⟨hnow, hlater⟩ := List.forall_mem_cons.mp hreadings
      obtain ⟨htrackedNow, htrackedLater⟩ := htracked
      unfold pairSteps emitted at *
      rw [Machine.collect] at htracks
      obtain ⟨htracksNow, htracksLater⟩ := List.forall_mem_append.mp htracks
      simp only [Machine.collect, List.flatMap_append, List.map_append, shownIn_append]
      -- a frame of another pair shows nothing for this one, and leaves its entry
      by_cases hkey : input.key = key
      · obtain ⟨conn, hconn⟩ := Option.isSome_iff_exists.mp htrackedNow
        obtain ⟨hclient, hvouches⟩ := h.entry conn hconn
        rw [stepsOf, if_pos hkey] at htracksNow ⊢
        obtain ⟨hnext, hshows⟩ := h.own hideal hkey hnow (by rw [hconn]; rfl) hclient hvouches
          htracksNow
        obtain ⟨hcovers, hmessages⟩ := ih hnext hlater htrackedLater htracksLater
        rw [List.append_assoc] at hcovers
        exact ⟨hcovers, fun isClientToServer => by
          rw [hshows isClientToServer, hmessages isClientToServer]⟩
      · have hnext : ShowsSent ledger client key shown
            (orchestrator.processFrame crypto vm input).1 := by
          refine ⟨keylog_processFrame_binds h.keylog hnow, h.covers, fun conn hlookup => ?_⟩
          rcases lookup_processFrame hlookup with ⟨hold, -⟩ | ⟨hsame, -, -⟩
          · exact h.entry conn hold
          · exact absurd hsame.symm hkey
        obtain ⟨hcovers, hmessages⟩ := ih hnext hlater htrackedLater htracksLater
        rw [stepsOf, if_neg hkey, List.flatMap_nil, List.nil_append]
        refine ⟨hcovers, fun isClientToServer => ?_⟩
        rw [emittedOf, if_neg fun hboth => hkey hboth.1, hmessages isClientToServer]
        rfl

/-- **Nothing is shown that was not sent.**  Under an ideal AEAD and a keylog that never
binds anything but the session's secrets to its client random: in any capture, whatever is
lost, repeated, reordered, injected or replayed, and whenever the secrets are written, the
application data that a connection of the session shows in a direction is the beginning of
what its peer sealed, in order and each record once. -/
theorem shows_only_sent (hideal : IdealAead crypto log) (ledger : Ledger crypto log)
    (vm : LuaVm σ) (source : KeylogSource) (lua : σ) (config : OrchestratorConfig)
    (sweepNow gcNow : Instant) (earlier inputs : List FrameInput) (opening : FrameInput)
    (hsource : source.current.BindsOnly ledger.session.clientRandom ledger.session.secrets)
    (hreadings : ∀ input ∈ earlier ++ opening :: inputs, ∀ index,
      (input.keylogReadings index).BindsOnly crypto.hexDecode ledger.session.clientRandom
        ledger.session.secrets) :
    let start := after crypto vm (new source lua config sweepNow gcNow) earlier
    let steps := pairSteps crypto vm opening.key start (opening :: inputs)
    start.connections.lookup opening.key = none →
    TrackedBetween crypto vm opening.key start (opening :: inputs) →
    (∀ step ∈ steps, ∀ state, step.conn.state = some state →
      ledger.session.Tracks state.uncached) →
    ledger.Covers (steps.flatMap (RecordStep.decrypted crypto)) ∧
      ∀ isClientToServer,
        (emitted crypto vm opening.key opening.src isClientToServer start (opening :: inputs)).map
          DecodedMessage.tlsAppData <+: ledger.applicationData isClientToServer := by
  intro start steps huntracked htracked htracks
  obtain ⟨hbefore, hlater⟩ := List.forall_mem_append.mp hreadings
  obtain ⟨hnow, hrest⟩ := List.forall_mem_cons.mp hlater
  have hkeylog : start.shared.keylog.current.BindsOnly ledger.session.clientRandom
      ledger.session.secrets :=
    keylog_after_binds hsource hbefore
  have hcovers : ledger.Covers [] := fun _ _ => List.nil_prefix
  have hstart : ShowsSent ledger opening.src opening.key [] start := by
    refine ⟨hkeylog, hcovers, fun conn hlookup => ?_⟩
    rw [huntracked] at hlookup
    cases hlookup
  -- the opening frame opens a connection that knows no random yet
  have hopened : openConnection start.config (start.connections.lookup opening.key) opening =
      Connection.new opening.src opening.dst start.config.pendingLimits := by
    rw [huntracked]
    unfold openConnection
    simp only
    split <;> rfl
  have hnew : ledger.Vouches [] (Connection.new opening.src opening.dst
      start.config.pendingLimits).state := ⟨fun _ => rfl, nofun, nofun⟩
  have hsteps : steps = start.recordSteps crypto vm opening ++
      pairSteps crypto vm opening.key (start.processFrame crypto vm opening).1 inputs := by
    unfold steps pairSteps
    rw [Machine.collect, stepsOf, if_pos rfl]
  rw [hsteps] at htracks ⊢
  obtain ⟨htracksNow, htracksLater⟩ := List.forall_mem_append.mp htracks
  obtain ⟨hnext, hshows⟩ := hstart.own hideal rfl hnow hopened rfl hnew htracksNow
  obtain ⟨hrun, hmessages⟩ := hnext.run hideal hrest htracked.throughout htracksLater
  rw [List.flatMap_append]
  refine ⟨hrun, fun isClientToServer => ?_⟩
  have hshown := hrun.shownIn isClientToServer
  rw [List.nil_append, shownIn_append] at hshown
  unfold emitted at hmessages ⊢
  rw [Machine.collect, List.map_append, hshows isClientToServer, hmessages isClientToServer]
  exact hshown

end Run

/-! ## The recorded session, with a record replayed -/

namespace ReplayedSession

open Capture RecordedSession

/-- What the peers of the recorded session sealed. -/
def sent (isClient : Bool) : Option Generation → List SessionRecord
  | some .handshake =>
      if isClient then
        [⟨true, .tls13 .handshake, 0x16, [0x14, 0x00, 0x00, 0x20] ++ List.replicate 32 0x77, 0⟩]
      else [⟨false, .tls13 .handshake, 0x16, [0x08, 0x00, 0x00, 0x02, 0x00, 0x00], 0⟩]
  | some .application =>
      if isClient then
        [⟨true, .tls13 .application, 0x17, [0x47, 0x45, 0x54], 3⟩,
          ⟨true, .tls13 .application, 0x17, [0x50, 0x4f, 0x53, 0x54], 0⟩]
      else [⟨false, .tls13 .application, 0x17, [0x6f, 0x6b], 0⟩]
  | none => []

/-- Only five ciphertexts were made. -/
theorem log_cases {body : Bytes} {made : Sealing} (hlog : recording.log body = some made) :
    body = extensions ∨ body = finished ∨ body = RecordedSession.request ∨
      body = secondRequest ∨ body = RecordedSession.response := by
  by_contra hother
  simp only [not_or] at hother
  have hnone : recording.sealed.lookup body = none := by
    rw [List.lookup_eq_none_iff]
    intro entry hentry
    simp only [recording, List.mem_cons, List.not_mem_nil, or_false] at hentry
    obtain ⟨h₁, h₂, h₃, h₄, h₅⟩ := hother
    rcases hentry with rfl | rfl | rfl | rfl | rfl <;> simpa using ‹_›
  rw [Recording.log, hnone] at hlog
  cases hlog

/-- A ciphertext that was made under no key of the direction is foreign to it. -/
theorem foreign_of_key {isClient : Bool} {body : Bytes}
    (hkeys : (tls13Candidates.all fun candidate =>
      (session.keys13 recording.crypto isClient candidate.1 candidate.2).all fun keys =>
        (recording.log body).all fun made => decide (made.key ≠ keys.key)) = true) :
    session.Foreign recording.crypto recording.log isClient body := by
  refine ⟨fun g algorithm recordKeys nonce aad plaintext hsome hlog => ?_, nofun⟩
  have hcandidate : (g, algorithm) ∈ tls13Candidates := by
    cases g <;> cases algorithm <;> decide
  have hdiffer := List.all_eq_true.mp hkeys _ hcandidate
  rw [hsome, hlog] at hdiffer
  exact of_decide_eq_true hdiffer rfl

/-- Everything that was sealed in the recorded session. -/
def ledger : Ledger recording.crypto recording.log where
  session := session
  sent := sent
  dataLane _ := some .application
  distinct := keysDistinct
  short isClient lane := by
    cases isClient <;> rcases lane with _ | _ | _ <;> decide
  complete isClient body := by
    cases hlog : recording.log body with
    | none => exact .inl (foreign_of_log_eq_none hlog)
    | some made =>
        have htraffic := sends_traffic
        rcases log_cases hlog with rfl | rfl | rfl | rfl | rfl
        · cases isClient with
          | true => exact .inl (foreign_of_key (by decide +kernel))
          | false => exact .inr ⟨_, 0, _, rfl, rfl, htraffic.1⟩
        · cases isClient with
          | true => exact .inr ⟨_, 0, _, rfl, rfl, htraffic.2.2.1⟩
          | false => exact .inl (foreign_of_key (by decide +kernel))
        · cases isClient with
          | true => exact .inr ⟨_, 0, _, rfl, rfl, htraffic.2.2.2.1⟩
          | false => exact .inl (foreign_of_key (by decide +kernel))
        · cases isClient with
          | true => exact .inr ⟨_, 1, _, rfl, rfl, htraffic.2.2.2.2.1⟩
          | false => exact .inl (foreign_of_key (by decide +kernel))
        · cases isClient with
          | true => exact .inl (foreign_of_key (by decide +kernel))
          | false => exact .inr ⟨_, 0, _, rfl, rfl, htraffic.2.2.2.2.2.2.1⟩
  data isClient lane hlane := by
    rcases lane with _ | _ | _
    · exact nofun
    · cases isClient <;> simp [sent]
    · exact absurd rfl hlane

/-- The client's frames: the request is replayed before the second one. -/
def inputs : List FrameInput :=
  [helloFrame, requestFrame, segment client server 3 1071 ack Capture.request 3,
    segment client server 4 1099 ack
      ([0x17, 0x03, 0x03, 0x00, 0x15] ++ RecordedSession.secondRequest) 4]

theorem tracks_of_all {state : ConnectionState}
    (h : (decide (state.clientRandom = session.clientRandom) &&
      state.serverRandom.all fun random => decide (random = session.serverRandom)) = true) :
    session.Tracks state.uncached := by
  obtain ⟨hclient, hserver⟩ := Bool.and_eq_true_iff.mp h
  refine ⟨of_decide_eq_true hclient, fun random hrandom => ?_⟩
  have hknown : state.serverRandom = some random := hrandom
  rw [hknown] at hserver
  exact of_decide_eq_true hserver

/-- The replayed request is not shown again. -/
theorem shows_only_sent_replayed :
    (emitted recording.crypto plainVm openingSyn.key openingSyn.src true
        (after recording.crypto plainVm (new source () .default 0 0) [])
        (openingSyn :: inputs)).map DecodedMessage.tlsAppData <+:
      ledger.applicationData true := by
  have hcurrent : source.current = keylog := RecordedConversation.current_fromParsed _ 0
  refine (shows_only_sent recording.idealAead_crypto ledger plainVm source () .default 0 0 []
    inputs openingSyn ?_ ?_ rfl ?_ ?_).2 true
  · rw [hcurrent]
    intro label secret hsecret
    exact (secretFor_keylog label).symm.trans hsecret
  · intro input hinput index text htext
    have hreadings : (input.keylogReadings index) = noReadings := by
      simp only [inputs, List.nil_append, List.mem_cons, List.not_mem_nil, or_false] at hinput
      rcases hinput with rfl | rfl | rfl | rfl | rfl <;> rfl
    rw [hreadings] at htext
    rcases htext with htext | htext <;> cases htext
  · unfold TrackedBetween
    decide +kernel
  · have hall : ((pairSteps recording.crypto plainVm openingSyn.key
        (after recording.crypto plainVm (new source () .default 0 0) [])
        (openingSyn :: inputs)).all fun step => step.conn.state.all fun state =>
          decide (state.clientRandom = session.clientRandom) &&
            state.serverRandom.all fun random => decide (random = session.serverRandom)) =
              true := by
      decide +kernel
    intro step hstep state hstate
    apply tracks_of_all
    have hone := List.all_eq_true.mp hall step hstep
    rw [hstate] at hone
    exact hone

end ReplayedSession

end Orchestrator

end Tlscap
