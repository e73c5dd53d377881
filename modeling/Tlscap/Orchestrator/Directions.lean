import Tlscap.Orchestrator.Exchange

/-!
# What the records of one direction do alone

The two directions share the randoms of the hellos and nothing else: counters, keys and
undissected plaintext are kept apart.  So a direction's messages do not depend on when the
other direction's records came in between, as long as no record was received too early
(`Exchange.misses`): one that the hello of the other direction, had it been there, would have
let decrypt or would have let be recognised as a ServerHello.

## Strategy

A list of records is compared with the records of one direction on their own, received with
the other hello known from the start (`Exchange.alone`).  As the latter depends on that
direction only, two orders that mix the same records agree with each other
(`Exchange.messages_of_orders`).

First, what is learned does not depend on the order.  Where no record is too early, the
records teach the randoms of the first hello of either direction, wherever these stand
(`Awaits.throughout`).  Then four cases compare the exchange with the one alone:

* **A client record among the client's** opens as it would with the ServerHello known, or
  opens in neither (`attempt_of_not_missed`): without that random TLS 1.3 alone decides.
* **A server record among the client's** moves no counter of theirs; the random it may teach
  is the one they were received with (`AgreesOnClient.serverRecord`).
* **A server record among the server's** before the ClientHello does nothing.  Not being too
  early it is no hello and does not open, so it does nothing alone either
  (`AgreesOnServer.serverRecord`).
* **A client record among the server's** can only teach the client random
  (`AgreesOnServer.clientRecord`).
-/

namespace Tlscap

/-! ## The hellos among records -/

/-- The random of a hello, if the record is one of this direction. -/
def TakenRecord.hello (isClientToServer : Bool) (record : TakenRecord) : Option Bytes :=
  if record.isClientToServer = isClientToServer ∧ record.contentType ≠ 0x14 then
    if isClientToServer then clientRandomFromClientHello record.body
    else Tls12.serverRandomFromServerHello record.body
  else none

/-- The random of the first hello of a direction. -/
def helloRandom (isClientToServer : Bool) (records : List TakenRecord) : Option Bytes :=
  records.findSome? (TakenRecord.hello isClientToServer)

/-- Whether a record is one of this direction. -/
def TakenRecord.travels (isClientToServer : Bool) (record : TakenRecord) : Bool :=
  record.isClientToServer == isClientToServer

theorem helloRandom_filter (isClientToServer : Bool) (records : List TakenRecord) :
    helloRandom isClientToServer (records.filter (TakenRecord.travels isClientToServer)) =
      helloRandom isClientToServer records := by
  unfold helloRandom
  induction records with
  | nil => rfl
  | cons record rest ih =>
      cases howned : record.travels isClientToServer with
      | true => rw [List.filter_cons_of_pos howned, List.findSome?_cons, List.findSome?_cons, ih]
      | false =>
          have hnone : record.hello isClientToServer = none :=
            if_neg fun h => by simp [TakenRecord.travels, h.1] at howned
          rw [List.filter_cons_of_neg (by simp [howned]), List.findSome?_cons, hnone, ih]

/-! ## Decrypt states that agree on one direction -/

namespace Uncached

/-- The states agree on all a direction needs of them but the server random. -/
structure SameLane (isClientToServer : Bool) (state other : Uncached) : Prop where
  clientRandom : state.clientRandom = other.clientRandom
  seq : state.seq isClientToServer = other.seq isClientToServer
  tls12Seq : state.tls12Seq isClientToServer = other.tls12Seq isClientToServer

variable {isClientToServer : Bool} {state other : Uncached} {crypto : Crypto} {keylog : Keylog}
  {outcome outcome' : Except ProcessError DecryptedRecord}

theorem SameLane.attempt13 (h : SameLane isClientToServer state other) (body : Bytes) :
    state.attempt13 crypto keylog isClientToServer body =
      other.attempt13 crypto keylog isClientToServer body := by
  unfold Uncached.attempt13
  rw [h.clientRandom, h.seq]

/-- With the same server random an attempt has the same outcome. -/
theorem SameLane.attempt (h : SameLane isClientToServer state other)
    (hserver : state.serverRandom = other.serverRandom) (contentType : UInt8) (body : Bytes) :
    state.attempt crypto keylog isClientToServer contentType body =
      other.attempt crypto keylog isClientToServer contentType body := by
  unfold Uncached.attempt Uncached.attempt12
  rw [h.attempt13, hserver, h.clientRandom, h.tls12Seq]

/-- Without a server random, TLS 1.3 decides. -/
theorem SameLane.attempt_of_unknown (h : SameLane isClientToServer state other)
    (hserver : state.serverRandom = none) (contentType : UInt8) (body : Bytes)
    (hopened : (other.attempt crypto keylog isClientToServer contentType body).toBool = true →
      (state.attempt crypto keylog isClientToServer contentType body).toBool = true) :
    (state.attempt crypto keylog isClientToServer contentType body).toOption =
      (other.attempt crypto keylog isClientToServer contentType body).toOption := by
  unfold Uncached.attempt at hopened ⊢
  rw [h.attempt13] at hopened ⊢
  have hfails : state.attempt12 crypto keylog isClientToServer contentType body =
      .error .noKey := by
    unfold Uncached.attempt12
    rw [hserver]
  rw [hfails] at hopened ⊢
  cases hfirst : other.attempt13 crypto keylog isClientToServer body with
  | ok record => rfl
  | error _ =>
      rw [hfirst] at hopened
      simp only at hopened ⊢
      cases hother : other.attempt12 crypto keylog isClientToServer contentType body with
      | ok record =>
          rw [hother] at hopened
          exact absurd (hopened rfl) Bool.false_ne_true
      | error _ => rfl

/-- Outcomes that agree up to their errors move the same counters. -/
theorem SameLane.after (h : SameLane isClientToServer state other)
    (hsame : outcome.toOption = outcome'.toOption) :
    SameLane isClientToServer (state.after isClientToServer outcome)
      (other.after isClientToServer outcome') := by
  rcases outcome with _ | ⟨plaintext, contentType, algorithm, version⟩ <;>
    rcases outcome' with _ | record'
  · exact h
  · cases hsame
  · cases hsame
  · cases hsame
    refine ⟨by simp [h.clientRandom], ?_, ?_⟩
    · cases version with
      | tls13 g =>
          simp only [Uncached.after, Uncached.advance, Function.update_self, h.seq]
      | tls12 _ => exact h.seq
    · cases version with
      | tls13 g => exact h.tls12Seq
      | tls12 _ =>
          simp only [Uncached.after, Uncached.advance, Function.update_self, h.tls12Seq]

/-- The other direction's outcomes do not matter. -/
theorem SameLane.after_other (h : SameLane isClientToServer state other) {direction : Bool}
    (hother : isClientToServer ≠ direction) (outcome : Except ProcessError DecryptedRecord) :
    SameLane isClientToServer (state.after direction outcome) other := by
  rcases outcome with _ | ⟨plaintext, contentType, algorithm, version⟩
  · exact h
  · refine ⟨by simp [h.clientRandom], ?_, ?_⟩
    · cases version with
      | tls13 g =>
          simp only [Uncached.after, Uncached.advance, Function.update_of_ne hother, h.seq]
      | tls12 _ => exact h.seq
    · cases version with
      | tls13 g => exact h.tls12Seq
      | tls12 _ =>
          simp only [Uncached.after, Uncached.advance, Function.update_of_ne hother, h.tls12Seq]

end Uncached

namespace Exchange

variable {setting : ExchangeSetting} {known : Option Bytes} {exchange other : Exchange}
  {record : TakenRecord} {state : Uncached}

/-! ## What a record can do -/

theorem receive_cases (setting : ExchangeSetting) (known : Option Bytes) (exchange : Exchange)
    (record : TakenRecord) :
    (record.contentType = 0x14 ∧ exchange.receive setting known record = (exchange, [])) ∨
      (record.contentType ≠ 0x14 ∧ ∃ state, exchange.learn known record = some state ∧
        exchange.receive setting known record = ({ exchange with state := some state }, [])) ∨
      (record.contentType ≠ 0x14 ∧ exchange.learn known record = none ∧ exchange.state = none ∧
        exchange.receive setting known record = (exchange, [])) ∨
      (record.contentType ≠ 0x14 ∧ exchange.learn known record = none ∧
        ∃ state, exchange.state = some state ∧ exchange.receive setting known record =
          exchange.settle setting state record.isClientToServer
            (attempt setting state record)) := by
  by_cases htype : record.contentType = 0x14
  · exact .inl ⟨htype, receive_changeCipherSpec htype⟩
  · cases hlearn : exchange.learn known record with
    | some state => exact .inr (.inl ⟨htype, state, rfl, receive_hello htype hlearn⟩)
    | none =>
        cases hstate : exchange.state with
        | none =>
            exact .inr (.inr (.inl ⟨htype, rfl, rfl, receive_unknown htype hlearn hstate⟩))
        | some state =>
            exact .inr (.inr (.inr ⟨htype, rfl, state, rfl,
              receive_attempted htype hlearn hstate⟩))

/-- A client record is learned from once. -/
theorem learn_client (hdirection : record.isClientToServer = true) :
    exchange.learn known record = if exchange.state = none then
      (clientRandomFromClientHello record.body).map fun random => .opened random known
    else none := by
  unfold learn
  rw [if_pos hdirection]
  cases exchange.state with
  | none =>
      rw [if_pos rfl]
      cases clientRandomFromClientHello record.body <;> rfl
  | some state => exact (if_neg (Option.some_ne_none state)).symm

/-- A server record is learned from once the ClientHello is known, and once. -/
theorem learn_server (hdirection : record.isClientToServer = false) :
    exchange.learn known record = exchange.state.bind fun state =>
      if state.serverRandom = none then
        (Tls12.serverRandomFromServerHello record.body).map fun random =>
          { state with serverRandom := some random }
      else none := by
  unfold learn
  rw [if_neg (by rw [hdirection]; exact Bool.false_ne_true)]
  cases Tls12.serverRandomFromServerHello record.body with
  | none =>
      cases exchange.state with
      | none => rfl
      | some state => exact (ite_self none).symm
  | some random =>
      cases exchange.state with
      | none => rfl
      | some state =>
          simp only [Option.bind_some, Uncached.setServerRandom]
          cases hserver : state.serverRandom with
          | none => rfl
          | some known => rfl

/-- Settling in two exchanges that agree on the direction, with outcomes that agree up to
their errors. -/
theorem settle_alike (setting : ExchangeSetting) {isClientToServer : Bool}
    (htail : exchange.tail isClientToServer = other.tail isClientToServer)
    (state state' : Uncached) {outcome outcome' : Except ProcessError DecryptedRecord}
    (hsame : outcome.toOption = outcome'.toOption) :
    let settled := exchange.settle setting state isClientToServer outcome
    let settled' := other.settle setting state' isClientToServer outcome'
    settled.2 = settled'.2 ∧
      settled.1.tail isClientToServer = settled'.1.tail isClientToServer := by
  rcases outcome with _ | decrypted <;> rcases outcome' with _ | decrypted'
  · exact ⟨rfl, htail⟩
  · cases hsame
  · cases hsame
  · cases hsame
    unfold settle
    simp only
    split
    · simp only [dissect, htail, Function.update_self]
      exact ⟨trivial, trivial⟩
    · exact ⟨rfl, htail⟩

theorem state_settle (setting : ExchangeSetting) (exchange : Exchange) (state : Uncached)
    (isClientToServer : Bool) (outcome : Except ProcessError DecryptedRecord) :
    (exchange.settle setting state isClientToServer outcome).1.state =
      some (state.after isClientToServer outcome) := by
  unfold settle
  split
  · split
    · rfl
    · rfl
  · rfl

/-- Settling leaves the plaintext of the other direction alone. -/
theorem tail_settle (setting : ExchangeSetting) (exchange : Exchange) (state : Uncached)
    {isClientToServer direction : Bool} (hother : isClientToServer ≠ direction)
    (outcome : Except ProcessError DecryptedRecord) :
    (exchange.settle setting state direction outcome).1.tail isClientToServer =
      exchange.tail isClientToServer := by
  unfold settle
  split
  · split
    · exact Function.update_of_ne hother _ _
    · rfl
  · rfl

/-! ## Records that come too early -/

/-- An attempt at the record succeeds. -/
def opens (setting : ExchangeSetting) (state : Uncached) (record : TakenRecord) : Bool :=
  (attempt setting state record).toBool

/-- The record comes too early: with the hello of the other direction it would be
decrypted, or be recognised as the ServerHello, and without it is not. -/
def misses (setting : ExchangeSetting) (clientRandom serverRandom : Option Bytes)
    (exchange : Exchange) (record : TakenRecord) : Bool :=
  decide (record.contentType ≠ 0x14) &&
    match record.isClientToServer, exchange.state with
    | true, some state =>
        state.serverRandom.isNone && opens setting { state with serverRandom } record &&
          !opens setting state record
    | false, none =>
        clientRandom.any fun random =>
          (Tls12.serverRandomFromServerHello record.body).isSome ||
            opens setting (.opened random none) record
    | _, _ => false

/-- What is learned from the record are these randoms. -/
def LearnsOnly (clientRandom serverRandom : Option Bytes) (exchange : Exchange)
    (record : TakenRecord) : Prop :=
  record.contentType ≠ 0x14 → ∀ learned, exchange.learn none record = some learned →
    if record.isClientToServer then clientRandom = some learned.clientRandom
    else learned.serverRandom = serverRandom

variable {clientRandom serverRandom : Option Bytes}

theorem hello_of_travels {isClientToServer : Bool} (htype : record.contentType ≠ 0x14)
    (hdirection : record.isClientToServer = isClientToServer) :
    record.hello isClientToServer = if isClientToServer then clientRandomFromClientHello record.body
      else Tls12.serverRandomFromServerHello record.body :=
  if_pos ⟨hdirection, htype⟩

theorem hello_of_other {isClientToServer : Bool}
    (hother : record.isClientToServer ≠ isClientToServer) : record.hello isClientToServer = none :=
  if_neg fun hello => hother hello.1

/-- What is left to learn is what the records to come say first. -/
structure Awaits (clientRandom serverRandom : Option Bytes) (records : List TakenRecord)
    (exchange : Exchange) : Prop where
  learned : ∀ state, exchange.state = some state → clientRandom = some state.clientRandom ∧
    (state.serverRandom = none ∨ state.serverRandom = serverRandom)
  client : exchange.state = none → helloRandom true records = clientRandom
  server : clientRandom.isSome →
    (∀ state, exchange.state = some state → state.serverRandom = none) →
      helloRandom false records = serverRandom

/-- A client record that teaches nothing where nothing is known is no hello. -/
theorem hello_client_of_learn (htype : record.contentType ≠ 0x14)
    (hlearn : exchange.learn none record = none) (hstate : exchange.state = none) :
    record.hello true = none := by
  cases hdirection : record.isClientToServer with
  | true =>
      rw [learn_client hdirection, if_pos hstate, Option.map_eq_none_iff] at hlearn
      rw [hello_of_travels htype hdirection, if_pos rfl]
      exact hlearn
  | false => exact hello_of_other (by rw [hdirection]; exact Bool.false_ne_true)

/-- A server record that teaches nothing where its random is not known is no hello. -/
theorem hello_server_of_learn (htype : record.contentType ≠ 0x14)
    (hlearn : exchange.learn none record = none) (hstate : exchange.state = some state)
    (hunknown : state.serverRandom = none) : record.hello false = none := by
  cases hdirection : record.isClientToServer with
  | true => exact hello_of_other (by rw [hdirection]; exact Bool.false_ne_true.symm)
  | false =>
      rw [learn_server hdirection, hstate, Option.bind_some, if_pos hunknown,
        Option.map_eq_none_iff] at hlearn
      rw [hello_of_travels htype hdirection, if_neg Bool.false_ne_true]
      exact hlearn

/-- A server record that is not too early before the ClientHello is no hello. -/
theorem hello_server_of_misses (htype : record.contentType ≠ 0x14)
    (hstate : exchange.state = none) (hsome : clientRandom.isSome)
    (hmisses : exchange.misses setting clientRandom serverRandom record = false) :
    record.hello false = none := by
  cases hdirection : record.isClientToServer with
  | true => exact hello_of_other (by rw [hdirection]; exact Bool.false_ne_true.symm)
  | false =>
      obtain ⟨random, rfl⟩ := Option.isSome_iff_exists.mp hsome
      unfold misses at hmisses
      rw [decide_eq_true htype, hdirection, hstate] at hmisses
      simp only [Bool.true_and, Option.any_some, Bool.or_eq_false_iff] at hmisses
      rw [hello_of_travels htype hdirection, if_neg Bool.false_ne_true]
      exact Option.isSome_eq_false_iff.mp hmisses.1 |> Option.isNone_iff_eq_none.mp

theorem helloRandom_cons (isClientToServer : Bool) (record : TakenRecord)
    (rest : List TakenRecord) :
    helloRandom isClientToServer (record :: rest) =
      (record.hello isClientToServer).or (helloRandom isClientToServer rest) := by
  unfold helloRandom
  rw [List.findSome?_cons]
  cases record.hello isClientToServer <;> rfl

/-- **The ClientHello** is the one that was awaited, and begins the state. -/
theorem Awaits.clientHello {rest : List TakenRecord} {learned : Uncached}
    (h : exchange.Awaits clientRandom serverRandom (record :: rest))
    (htype : record.contentType ≠ 0x14) (hdirection : record.isClientToServer = true)
    (hlearn : exchange.learn none record = some learned) :
    clientRandom = some learned.clientRandom ∧
      Awaits clientRandom serverRandom rest { exchange with state := some learned } := by
  have hclient := h.client
  have hserver := h.server
  rw [helloRandom_cons] at hclient hserver
  have hothers : record.hello false = none :=
    hello_of_other (by rw [hdirection]; exact Bool.false_ne_true.symm)
  rw [learn_client hdirection] at hlearn
  split at hlearn
  · -- no state yet, so no ServerHello was learned before it
    rename_i hstate
    obtain ⟨random, hrandom, rfl⟩ := Option.map_eq_some_iff.mp hlearn
    rw [hello_of_travels htype hdirection, if_pos rfl, hrandom] at hclient
    have hfound : clientRandom = some random := (hclient hstate).symm
    refine ⟨hfound, fun state hsome => ?_, nofun, fun hsome _ => ?_⟩
    · cases hsome
      exact ⟨hfound, .inl rfl⟩
    · rw [hothers] at hserver
      exact hserver hsome fun state hstate' => by
        rw [hstate] at hstate'
        cases hstate'
  · cases hlearn

/-- **The ServerHello** is the one that was awaited, and sets the random that was not known. -/
theorem Awaits.serverHello {rest : List TakenRecord} {learned : Uncached}
    (h : exchange.Awaits clientRandom serverRandom (record :: rest))
    (htype : record.contentType ≠ 0x14) (hdirection : record.isClientToServer = false)
    (hlearn : exchange.learn none record = some learned) :
    learned.serverRandom = serverRandom ∧
      Awaits clientRandom serverRandom rest { exchange with state := some learned } := by
  have hserver := h.server
  rw [helloRandom_cons] at hserver
  rw [learn_server hdirection] at hlearn
  obtain ⟨state, hstate, hlearn⟩ := Option.bind_eq_some_iff.mp hlearn
  split at hlearn
  · rename_i hunknown
    obtain ⟨random, hrandom, rfl⟩ := Option.map_eq_some_iff.mp hlearn
    rw [hello_of_travels htype hdirection, if_neg Bool.false_ne_true, hrandom] at hserver
    have hfound : serverRandom = some random := by
      refine (hserver ?_ ?_).symm
      · rw [(h.learned state hstate).1]
        rfl
      · intro other hother
        rw [hstate] at hother
        cases hother
        exact hunknown
    refine ⟨hfound.symm, fun later hsome => ?_, nofun, fun _ hnone => ?_⟩
    · cases hsome
      exact ⟨(h.learned state hstate).1, .inr hfound.symm⟩
    · exact absurd (hnone _ rfl) (Option.some_ne_none random)
  · cases hlearn

/-- **One record**, where none is too early: what it teaches is what was awaited, and the
rest is awaited still. -/
theorem Awaits.receive {rest : List TakenRecord}
    (h : exchange.Awaits clientRandom serverRandom (record :: rest))
    (hmisses : exchange.misses setting clientRandom serverRandom record = false) :
    exchange.LearnsOnly clientRandom serverRandom record ∧
      (exchange.receive setting none record).1.Awaits clientRandom serverRandom rest := by
  have hclient := h.client
  have hserver := h.server
  rw [helloRandom_cons] at hclient hserver
  rcases receive_cases setting none exchange record with
    ⟨htype, hreceive⟩ | ⟨htype, learned, hlearn, hreceive⟩ | ⟨htype, hlearn, hstate, hreceive⟩ |
      ⟨htype, hlearn, state, hstate, hreceive⟩
  · -- a ChangeCipherSpec teaches nothing
    have hnone : ∀ isClientToServer, record.hello isClientToServer = none :=
      fun _ => if_neg fun hello => hello.2 htype
    rw [hnone] at hclient hserver
    rw [hreceive]
    exact ⟨fun hother => absurd htype hother, h.learned, hclient, hserver⟩
  · -- a hello: it is the one its direction awaits, as the first that parses is
    rw [hreceive]
    cases hdirection : record.isClientToServer with
    | true =>
        obtain ⟨hfound, hrest⟩ := h.clientHello htype hdirection hlearn
        refine ⟨fun _ other hother => ?_, hrest⟩
        rw [if_pos hdirection, hfound, Option.some.inj (hother.symm.trans hlearn)]
    | false =>
        obtain ⟨hfound, hrest⟩ := h.serverHello htype hdirection hlearn
        refine ⟨fun _ other hother => ?_, hrest⟩
        rw [if_neg (by rw [hdirection]; exact Bool.false_ne_true),
          Option.some.inj (hother.symm.trans hlearn), hfound]
  · -- the ClientHello is not there yet, and no ServerHello is missed for it
    rw [hreceive]
    refine ⟨fun _ learned hsome => ?_, h.learned, fun _ => ?_, fun hsome hnone => ?_⟩
    · cases hlearn.symm.trans hsome
    · rw [hello_client_of_learn htype hlearn hstate] at hclient
      exact hclient hstate
    · rw [hello_server_of_misses htype hstate hsome hmisses] at hserver
      exact hserver hsome hnone
  · -- an attempt to decrypt moves counters, not the randoms
    rw [hreceive]
    refine ⟨fun _ learned hsome => ?_, fun later hlater => ?_, fun hnone => ?_,
      fun hsome hnone => ?_⟩
    · cases hlearn.symm.trans hsome
    · rw [state_settle] at hlater
      cases hlater
      rw [Uncached.clientRandom_after, Uncached.serverRandom_after]
      exact h.learned state hstate
    · rw [state_settle] at hnone
      cases hnone
    · have hunknown : state.serverRandom = none := by
        rw [← Uncached.serverRandom_after state record.isClientToServer]
        exact hnone _ (state_settle setting exchange state _ _)
      rw [hello_server_of_learn htype hlearn hstate hunknown] at hserver
      refine hserver hsome fun other hother => ?_
      rw [hstate] at hother
      cases hother
      exact hunknown

/-- Where no record of a list is too early, what they teach is the random of the first
hello of either direction, and in the end nothing is awaited. -/
theorem Awaits.throughout {records : List TakenRecord}
    (h : exchange.Awaits clientRandom serverRandom records)
    (hmisses : Machine.Throughout (Exchange.receive setting none)
      (fun exchange record => exchange.misses setting clientRandom serverRandom record = false)
      exchange records) :
    Machine.Throughout (Exchange.receive setting none) (LearnsOnly clientRandom serverRandom)
        exchange records ∧
      (exchange.receiveAll setting none records).Awaits clientRandom serverRandom [] := by
  induction records generalizing exchange with
  | nil => exact ⟨trivial, h⟩
  | cons record rest ih =>
      obtain ⟨hnow, hlater⟩ := hmisses
      obtain ⟨hlearns, hnext⟩ := h.receive hnow
      obtain ⟨hrest, hlast⟩ := ih hnext hlater
      exact ⟨⟨hlearns, hrest⟩, hlast⟩

/-- The randoms that are known: the client's and perhaps the server's. -/
def randoms (exchange : Exchange) : Option (Bytes × Option Bytes) :=
  exchange.state.map fun state => (state.clientRandom, state.serverRandom)

/-- Where nothing is awaited, the hellos are learned. -/
theorem Awaits.randoms_eq (h : exchange.Awaits clientRandom serverRandom []) :
    exchange.randoms = clientRandom.map fun random => (random, serverRandom) := by
  unfold randoms
  cases hstate : exchange.state with
  | none =>
      have hnone : none = clientRandom := h.client hstate
      rw [← hnone]
      rfl
  | some state =>
      obtain ⟨hclient, hserver⟩ := h.learned state hstate
      have hknown : state.serverRandom = serverRandom := by
        rcases hserver with hunknown | hknown
        · have hnone : none = serverRandom := by
            refine h.server (by rw [hclient]; rfl) fun other hother => ?_
            rw [← Option.some.inj (hstate.symm.trans hother)]
            exact hunknown
          exact hunknown.trans hnone
        · exact hknown
      rw [hclient, Option.map_some, Option.map_some, hknown]

/-! ## A direction alone -/

/-- The exchange of one direction's records alone: the client's are received with the
server random known, the server's with the client random known. -/
def alone (isClientToServer : Bool) (clientRandom : Option Bytes) : Exchange where
  state := if isClientToServer then none else clientRandom.map fun random => .opened random none
  tail := fun _ => []

/-- What is known from the start when a direction's records are received alone. -/
def knownAlone (isClientToServer : Bool) (serverRandom : Option Bytes) : Option Bytes :=
  if isClientToServer then serverRandom else none

/-- The exchange agrees with that of the client's records alone. -/
structure AgreesOnClient (serverRandom : Option Bytes) (exchange lane : Exchange) : Prop where
  tail : exchange.tail true = lane.tail true
  untouched : exchange.state = none → lane.state = none
  state : ∀ state, exchange.state = some state → ∃ own, lane.state = some own ∧
    state.SameLane true own ∧ own.serverRandom = serverRandom ∧
      (state.serverRandom = none ∨ state.serverRandom = serverRandom)

/-- The exchange agrees with that of the server's records alone. -/
structure AgreesOnServer (clientRandom : Option Bytes) (exchange lane : Exchange) : Prop where
  tail : exchange.tail false = lane.tail false
  untouched : exchange.state = none →
    lane.state = clientRandom.map fun random => .opened random none
  state : ∀ state, exchange.state = some state → ∃ own, lane.state = some own ∧
    state.SameLane false own ∧ state.serverRandom = own.serverRandom

variable {lane : Exchange}

/-- A client record that is not too early opens as it does with the ServerHello known. -/
theorem attempt_of_not_missed (htype : record.contentType ≠ 0x14)
    (hdirection : record.isClientToServer = true) (hstate : exchange.state = some state)
    (hmisses : exchange.misses setting clientRandom serverRandom record = false)
    {own : Uncached} (hsame : state.SameLane true own) (hown : own.serverRandom = serverRandom)
    (hserver : state.serverRandom = none ∨ state.serverRandom = serverRandom) :
    (attempt setting state record).toOption = (attempt setting own record).toOption := by
  unfold attempt
  rw [hdirection]
  rcases hserver with hunknown | hknown
  · apply hsame.attempt_of_unknown hunknown
    intro hopened
    unfold misses at hmisses
    rw [decide_eq_true htype, hdirection, hstate] at hmisses
    simp only [hunknown, Option.isNone_none, Bool.true_and, Bool.and_eq_false_iff,
      Bool.not_eq_false'] at hmisses
    have hlane : Uncached.SameLane true { state with serverRandom } own :=
      ⟨hsame.clientRandom, hsame.seq, hsame.tls12Seq⟩
    have hwith : opens setting { state with serverRandom } record =
        (own.attempt setting.crypto setting.keylog true record.contentType record.body).toBool := by
      unfold opens attempt
      rw [hdirection, hlane.attempt hown.symm]
    have hwithout : opens setting state record =
        (state.attempt setting.crypto setting.keylog true record.contentType
          record.body).toBool := by
      unfold opens attempt
      rw [hdirection]
    rw [hwith, hopened, hwithout] at hmisses
    rcases hmisses with hfalse | htrue
    · cases hfalse
    · exact htrue
  · rw [hsame.attempt (hknown.trans hown.symm)]

/-- **A client record** does what it does among the client's records alone. -/
theorem AgreesOnClient.clientRecord (h : AgreesOnClient serverRandom exchange lane)
    (hdirection : record.isClientToServer = true)
    (hmisses : exchange.misses setting clientRandom serverRandom record = false) :
    AgreesOnClient serverRandom (exchange.receive setting none record).1
        (lane.receive setting serverRandom record).1 ∧
      (exchange.receive setting none record).2 = (lane.receive setting serverRandom record).2 := by
  rcases receive_cases setting none exchange record with
    ⟨htype, hreceive⟩ | ⟨htype, learned, hlearn, hreceive⟩ | ⟨htype, hlearn, hstate, hreceive⟩ |
      ⟨htype, hlearn, state, hstate, hreceive⟩
  · rw [hreceive, receive_changeCipherSpec htype]
    exact ⟨h, rfl⟩
  · -- the ClientHello, which is met with the server random here and without it there
    rw [learn_client hdirection] at hlearn
    split at hlearn
    · rename_i hstate
      obtain ⟨random, hrandom, rfl⟩ := Option.map_eq_some_iff.mp hlearn
      have hlane : lane.learn serverRandom record = some (.opened random serverRandom) := by
        rw [learn_client hdirection, if_pos (h.untouched hstate), hrandom]
        rfl
      rw [hreceive, receive_hello htype hlane]
      refine ⟨⟨h.tail, nofun, ?_⟩, rfl⟩
      rintro _ ⟨⟩
      exact ⟨_, rfl, ⟨rfl, rfl, rfl⟩, rfl, .inl rfl⟩
    · cases hlearn
  · -- no ClientHello yet, and this record is none: it is dropped either way
    have hlane : lane.learn serverRandom record = none := by
      rw [learn_client hdirection, if_pos hstate, Option.map_eq_none_iff] at hlearn
      rw [learn_client hdirection, hlearn, Option.map_none, ite_self]
    rw [hreceive, receive_unknown htype hlane (h.untouched hstate)]
    exact ⟨h, rfl⟩
  · -- not too early, so the server random that is still unknown makes no difference
    obtain ⟨own, hown, hsame, hownServer, hserver⟩ := h.state state hstate
    have hlane : lane.learn serverRandom record = none := by
      rw [learn_client hdirection, if_neg (by rw [hown]; exact Option.some_ne_none own)]
    have hattempt := attempt_of_not_missed htype hdirection hstate hmisses hsame hownServer hserver
    rw [hreceive, receive_attempted htype hlane hown, hdirection]
    obtain ⟨hmessages, htail⟩ := settle_alike setting h.tail state own
      hattempt
    refine ⟨⟨htail, fun hnone => ?_, fun later hlater => ?_⟩, hmessages⟩
    · rw [state_settle] at hnone
      cases hnone
    · rw [state_settle] at hlater
      cases hlater
      refine ⟨_, state_settle setting lane own true _, hsame.after hattempt, ?_, ?_⟩
      · rw [Uncached.serverRandom_after]
        exact hownServer
      · rw [Uncached.serverRandom_after]
        exact hserver

/-- A server record leaves the client's records alone. -/
theorem AgreesOnClient.serverRecord (h : AgreesOnClient serverRandom exchange lane)
    (hdirection : record.isClientToServer = false)
    (hlearns : exchange.LearnsOnly clientRandom serverRandom record) :
    AgreesOnClient serverRandom (exchange.receive setting none record).1 lane := by
  rcases receive_cases setting none exchange record with
    ⟨-, hreceive⟩ | ⟨htype, learned, hlearn, hreceive⟩ | ⟨-, -, -, hreceive⟩ |
      ⟨-, -, state, hstate, hreceive⟩
  · rw [hreceive]
    exact h
  · -- the ServerHello: the random is learned that the client's records alone know
    have hfound := hlearns htype learned hlearn
    rw [if_neg (by rw [hdirection]; exact Bool.false_ne_true)] at hfound
    rw [learn_server hdirection] at hlearn
    obtain ⟨state, hstate, hlearn⟩ := Option.bind_eq_some_iff.mp hlearn
    split at hlearn
    · obtain ⟨random, -, rfl⟩ := Option.map_eq_some_iff.mp hlearn
      obtain ⟨own, hown, hsame, hownServer, -⟩ := h.state state hstate
      rw [hreceive]
      refine ⟨h.tail, nofun, ?_⟩
      rintro _ ⟨⟩
      exact ⟨own, hown, ⟨hsame.clientRandom, hsame.seq, hsame.tls12Seq⟩, hownServer, .inr hfound⟩
    · cases hlearn
  · rw [hreceive]
    exact h
  · obtain ⟨own, hown, hsame, hownServer, hserver⟩ := h.state state hstate
    have hother : true ≠ record.isClientToServer := by
      rw [hdirection]
      exact Bool.false_ne_true.symm
    rw [hreceive]
    refine ⟨(tail_settle setting exchange state hother _).trans h.tail, fun hnone => ?_,
      fun later hlater => ?_⟩
    · rw [state_settle] at hnone
      cases hnone
    · rw [state_settle] at hlater
      cases hlater
      refine ⟨own, hown, hsame.after_other hother _, hownServer, ?_⟩
      rw [Uncached.serverRandom_after]
      exact hserver

/-- What a server record teaches depends on the server random alone. -/
theorem learn_server_alike {state own : Uncached} (hdirection : record.isClientToServer = false)
    (hstate : exchange.state = some state) (hown : lane.state = some own)
    (hserver : state.serverRandom = own.serverRandom) :
    lane.learn none record = (exchange.learn none record).map fun learned =>
      { own with serverRandom := learned.serverRandom } := by
  rw [learn_server hdirection, learn_server hdirection, hstate, hown, Option.bind_some,
    Option.bind_some, hserver]
  split
  · rw [Option.map_map]
    rfl
  · rfl

/-- **A server record before the ClientHello** does nothing, among the server's records alone
either if it is not too early. -/
theorem AgreesOnServer.beforeClientHello (h : AgreesOnServer clientRandom exchange lane)
    (htype : record.contentType ≠ 0x14) (hdirection : record.isClientToServer = false)
    (hstate : exchange.state = none)
    (hmisses : exchange.misses setting clientRandom serverRandom record = false) :
    AgreesOnServer clientRandom exchange (lane.receive setting none record).1 ∧
      [] = (lane.receive setting none record).2 := by
  have hlaneState := h.untouched hstate
  cases hknown : clientRandom with
  | none =>
      rw [hknown] at hlaneState
      have hlaneLearn : lane.learn none record = none := by
        rw [learn_server hdirection, hlaneState]
        rfl
      rw [receive_unknown htype hlaneLearn hlaneState, ← hknown]
      exact ⟨h, rfl⟩
  | some random =>
      rw [hknown] at hlaneState hmisses
      unfold misses at hmisses
      rw [decide_eq_true htype, hdirection, hstate] at hmisses
      simp only [Bool.true_and, Option.any_some, Bool.or_eq_false_iff] at hmisses
      obtain ⟨hhello, hopens⟩ := hmisses
      have hlaneLearn : lane.learn none record = none := by
        rw [learn_server hdirection, hlaneState, Option.isNone_iff_eq_none.mp
          (Option.isSome_eq_false_iff.mp hhello)]
        rfl
      -- alone it is tried, and fails as it would have been too early otherwise
      rw [receive_attempted htype hlaneLearn hlaneState, hdirection]
      unfold opens at hopens
      cases hattempt : attempt setting (.opened random none) record with
      | ok decrypted =>
          rw [hattempt] at hopens
          cases hopens
      | error error =>
          refine ⟨⟨h.tail, fun _ => ?_, fun state hsome => ?_⟩, rfl⟩
          · rw [state_settle]
            rfl
          · cases hstate.symm.trans hsome

/-- **A server record** does what it does among the server's records alone. -/
theorem AgreesOnServer.serverRecord (h : AgreesOnServer clientRandom exchange lane)
    (hdirection : record.isClientToServer = false)
    (hmisses : exchange.misses setting clientRandom serverRandom record = false) :
    AgreesOnServer clientRandom (exchange.receive setting none record).1
        (lane.receive setting none record).1 ∧
      (exchange.receive setting none record).2 = (lane.receive setting none record).2 := by
  rcases receive_cases setting none exchange record with
    ⟨htype, hreceive⟩ | ⟨htype, learned, hlearn, hreceive⟩ | ⟨htype, hlearn, hstate, hreceive⟩ |
      ⟨htype, hlearn, state, hstate, hreceive⟩
  · rw [hreceive, receive_changeCipherSpec htype]
    exact ⟨h, rfl⟩
  · -- the ServerHello
    have hstate := hlearn
    rw [learn_server hdirection] at hstate
    obtain ⟨state, hstate, hset⟩ := Option.bind_eq_some_iff.mp hstate
    obtain ⟨own, hown, hsame, hserver⟩ := h.state state hstate
    have hlaneLearn := learn_server_alike hdirection hstate hown hserver
    rw [hlearn, Option.map_some] at hlaneLearn
    split at hset
    · obtain ⟨random, -, rfl⟩ := Option.map_eq_some_iff.mp hset
      rw [hreceive, receive_hello htype hlaneLearn]
      refine ⟨⟨h.tail, nofun, ?_⟩, rfl⟩
      rintro _ ⟨⟩
      exact ⟨_, rfl, ⟨hsame.clientRandom, hsame.seq, hsame.tls12Seq⟩, rfl⟩
    · cases hset
  · -- the ClientHello is not there yet, and alone the record does nothing either
    rw [hreceive]
    exact h.beforeClientHello htype hdirection hstate hmisses
  · -- both have a state, which agree on all that an attempt on a server record reads
    obtain ⟨own, hown, hsame, hserver⟩ := h.state state hstate
    have hlaneLearn := learn_server_alike hdirection hstate hown hserver
    rw [hlearn, Option.map_none] at hlaneLearn
    have hattempt : attempt setting state record = attempt setting own record := by
      unfold attempt
      rw [hdirection]
      exact hsame.attempt hserver _ _
    rw [hreceive, receive_attempted htype hlaneLearn hown, hdirection]
    obtain ⟨hmessages, htail⟩ := settle_alike setting h.tail state own
      (congrArg Except.toOption hattempt)
    refine ⟨⟨htail, fun hnone => ?_, fun later hlater => ?_⟩, hmessages⟩
    · rw [state_settle] at hnone
      cases hnone
    · rw [state_settle] at hlater
      cases hlater
      refine ⟨_, state_settle setting lane own false _,
        hsame.after (congrArg Except.toOption hattempt), ?_⟩
      rw [Uncached.serverRandom_after, Uncached.serverRandom_after]
      exact hserver

/-- A client record leaves the server's records alone. -/
theorem AgreesOnServer.clientRecord (h : AgreesOnServer clientRandom exchange lane)
    (hdirection : record.isClientToServer = true)
    (hlearns : exchange.LearnsOnly clientRandom serverRandom record) :
    AgreesOnServer clientRandom (exchange.receive setting none record).1 lane := by
  rcases receive_cases setting none exchange record with
    ⟨-, hreceive⟩ | ⟨htype, learned, hlearn, hreceive⟩ | ⟨-, -, -, hreceive⟩ |
      ⟨-, -, state, hstate, hreceive⟩
  · rw [hreceive]
    exact h
  · -- the ClientHello: the random is learned that the server's records alone know
    have hfound := hlearns htype learned hlearn
    rw [if_pos hdirection] at hfound
    rw [learn_client hdirection] at hlearn
    split at hlearn
    · rename_i hstate
      obtain ⟨random, -, rfl⟩ := Option.map_eq_some_iff.mp hlearn
      have hlane := h.untouched hstate
      rw [hfound] at hlane
      rw [hreceive]
      refine ⟨h.tail, nofun, ?_⟩
      rintro _ ⟨⟩
      exact ⟨_, hlane, ⟨rfl, rfl, rfl⟩, rfl⟩
    · cases hlearn
  · rw [hreceive]
    exact h
  · obtain ⟨own, hown, hsame, hserver⟩ := h.state state hstate
    have hother : false ≠ record.isClientToServer := by
      rw [hdirection]
      exact Bool.false_ne_true
    rw [hreceive]
    refine ⟨(tail_settle setting exchange state hother _).trans h.tail, fun hnone => ?_,
      fun later hlater => ?_⟩
    · rw [state_settle] at hnone
      cases hnone
    · rw [state_settle] at hlater
      cases hlater
      refine ⟨own, hown, hsame.after_other hother _, ?_⟩
      rw [Uncached.serverRandom_after]
      exact hserver

/-! ## Any order of two directions -/

/-- The exchange before the first record. -/
def start : Exchange := ⟨none, fun _ => []⟩

/-- The messages of a reception in a direction. -/
def Reception.messagesOf (isClientToServer : Bool) (reception : Reception) : List DecodedMessage :=
  if reception.record.travels isClientToServer then reception.messages else []

/-- No record of the receptions is too early. -/
def NothingMissed (setting : ExchangeSetting) (receptions : List Reception) : Prop :=
  let records := receptions.map Reception.record
  ∀ reception ∈ receptions, reception.before.misses setting (helloRandom true records)
    (helloRandom false records) reception.record = false

instance (setting : ExchangeSetting) (receptions : List Reception) :
    Decidable (NothingMissed setting receptions) :=
  inferInstanceAs (Decidable (∀ reception ∈ receptions, _))

theorem records_receptions (setting : ExchangeSetting) (known : Option Bytes)
    (exchange : Exchange) (records : List TakenRecord) :
    (exchange.receptions setting known records).map Reception.record = records := by
  induction records generalizing exchange with
  | nil => rfl
  | cons record rest ih => exact congrArg (record :: ·) (ih _)

/-- **A direction alone.**  Where no record is too early, the messages of a direction are
those of its records alone, received with the hello of the other direction known. -/
theorem messages_alone (setting : ExchangeSetting) (records : List TakenRecord)
    (h : NothingMissed setting (start.receptions setting none records))
    (isClientToServer : Bool) :
    (start.receptions setting none records).flatMap (Reception.messagesOf isClientToServer) =
      ((alone isClientToServer (helloRandom true records)).receptions setting
        (knownAlone isClientToServer (helloRandom false records))
        (records.filter (TakenRecord.travels isClientToServer))).flatMap Reception.messages := by
  unfold NothingMissed receptions at h
  rw [← receptions, records_receptions] at h
  set clientRandom := helloRandom true records with hclientRandom
  set serverRandom := helloRandom false records with hserverRandom
  have hnone : Machine.Throughout (receive setting none)
      (fun exchange record => exchange.misses setting clientRandom serverRandom record = false)
      start records := Machine.throughout_of_collect h
  have hawaits : start.Awaits clientRandom serverRandom records :=
    ⟨nofun, fun _ => rfl, fun _ _ => rfl⟩
  have hboth := hnone.and (hawaits.throughout hnone).1
  have hmessages : ∀ (exchange : Exchange) (record : TakenRecord),
      (exchange.reception setting none record).messagesOf isClientToServer =
        if record.travels isClientToServer then (exchange.receive setting none record).2 else [] :=
    fun _ _ => rfl
  have hown : ∀ {record : TakenRecord}, record.travels isClientToServer = true →
      record.isClientToServer = isClientToServer := eq_of_beq
  -- there are two directions, so a record that does not travel in one travels in the other
  have hother : ∀ {record : TakenRecord}, record.travels isClientToServer = false →
      record.isClientToServer = !isClientToServer := by
    intro record htravels
    rw [Bool.eq_not]
    exact beq_eq_false_iff_ne.mp htravels
  unfold receptions
  rw [Machine.flatMap_collect, Machine.flatMap_collect]
  simp only [List.flatMap_cons, List.flatMap_nil, List.append_nil, hmessages]
  cases isClientToServer with
  | true =>
      refine Machine.collect_filter (R := AgreesOnClient serverRandom) ?_ ?_ ?_ hboth
      · intro exchange lane record hagrees hholds htravels
        obtain ⟨hnext, hsame⟩ := hagrees.clientRecord (hown htravels) hholds.1
        exact ⟨hnext, (if_pos htravels).trans hsame⟩
      · intro exchange lane record hagrees hholds htravels
        exact ⟨hagrees.serverRecord (hother htravels) hholds.2,
          if_neg (by rw [htravels]; exact Bool.false_ne_true)⟩
      · exact ⟨rfl, fun _ => rfl, nofun⟩
  | false =>
      refine Machine.collect_filter (R := AgreesOnServer clientRandom) ?_ ?_ ?_ hboth
      · intro exchange lane record hagrees hholds htravels
        obtain ⟨hnext, hsame⟩ := hagrees.serverRecord (hown htravels) hholds.1
        exact ⟨hnext, (if_pos htravels).trans hsame⟩
      · intro exchange lane record hagrees hholds htravels
        exact ⟨hagrees.clientRecord (hother htravels) hholds.2,
          if_neg (by rw [htravels]; exact Bool.false_ne_true)⟩
      · exact ⟨rfl, fun _ => rfl, nofun⟩

/-- In the end the hellos are learned. -/
theorem randoms_receiveAll (setting : ExchangeSetting) (records : List TakenRecord)
    (h : NothingMissed setting (start.receptions setting none records)) :
    (start.receiveAll setting none records).randoms =
      (helloRandom true records).map fun random => (random, helloRandom false records) := by
  unfold NothingMissed receptions at h
  rw [← receptions, records_receptions] at h
  have hawaits : start.Awaits (helloRandom true records) (helloRandom false records) records :=
    ⟨nofun, fun _ => rfl, fun _ _ => rfl⟩
  exact (hawaits.throughout (Machine.throughout_of_collect h)).2.randoms_eq

/-- **Any order.**  Two orders of the same records of either direction, none of them too
early in either, yield the same messages in each direction, and the same randoms. -/
theorem messages_of_orders (setting : ExchangeSetting) {records records' : List TakenRecord}
    (hsame : ∀ isClientToServer, records.filter (TakenRecord.travels isClientToServer) =
      records'.filter (TakenRecord.travels isClientToServer))
    (h : NothingMissed setting (start.receptions setting none records))
    (h' : NothingMissed setting (start.receptions setting none records')) :
    (∀ isClientToServer,
      (start.receptions setting none records).flatMap (Reception.messagesOf isClientToServer) =
        (start.receptions setting none records').flatMap
          (Reception.messagesOf isClientToServer)) ∧
      (start.receiveAll setting none records).randoms =
        (start.receiveAll setting none records').randoms := by
  have hhello : ∀ direction, helloRandom direction records = helloRandom direction records' := by
    intro direction
    rw [← helloRandom_filter, hsame, helloRandom_filter]
  refine ⟨fun isClientToServer => ?_, ?_⟩
  · rw [messages_alone setting records h, messages_alone setting records' h', hhello, hhello,
      hsame]
  · rw [randoms_receiveAll setting records h, randoms_receiveAll setting records' h', hhello,
      hhello]

end Exchange

end Tlscap
