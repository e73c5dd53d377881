import Tlscap.Orchestrator.Messages

/-!
# Who is the client

The roles of a connection are fixed by the frame that opens its entry: the sender of that
frame is the client, whether it is a SYN or not, and no later frame changes it.  So the client
is the sender of the SYN wherever the first frame that is processed was sent by it, in
particular where this is the SYN (`Orchestrator.roles_follow_first_frame`).

Where the SYN was not captured, a SYN-ACK does not name the client: its sender is taken for
it, as that of any first frame is (`Orchestrator.synAck_sender_taken_for_client`).

The proof looks at the life of one entry.  Between its opening and its eviction every frame of
the pair finds it (`lookup_of_trackedBetween`), and handling a frame leaves its client
(`clientEndpoint_after`).
-/

namespace Tlscap

/-! ## Captured handshakes -/

/-- The endpoint that opens the connection, by a SYN or SYN-ACK: the sender of the one
and the receiver of the other. -/
def FrameInput.opener (input : FrameInput) : Endpoint :=
  if input.frame.flags.ack then input.dst else input.src

namespace Orchestrator

variable {σ : Type} (crypto : Crypto) (vm : LuaVm σ)

/-- The frames carry payload of the pair. -/
def PayloadSeen (key : ConnKey) (inputs : List FrameInput) : Prop :=
  ∃ input ∈ inputs, input.key = key ∧ input.payload ≠ []

/-- A SYN or SYN-ACK of the pair comes before any of its payload, and all of them are
of connections that `client` opens. -/
structure HandshakeCaptured (key : ConnKey) (client : Endpoint) (inputs : List FrameInput) :
    Prop where
  opener : ∀ input ∈ inputs, input.key = key → input.frame.flags.syn = true →
    input.opener = client
  precedes : ∀ n < inputs.length, PayloadSeen key (inputs.take (n + 1)) →
    ∃ input ∈ inputs.take n, input.key = key ∧ input.frame.flags.syn = true

/-- From the first payload of the pair on, the connection that handles a frame of it, and
the one that is tracked, have this client. -/
structure RolesFollow (key : ConnKey) (client : Endpoint) (start : Orchestrator σ)
    (inputs : List FrameInput) : Prop where
  handled : ∀ before input later, inputs = before ++ input :: later → input.key = key →
    PayloadSeen key (before ++ [input]) →
    (handleFrame crypto vm (after crypto vm start before).config
      ((after crypto vm start before).connections.lookup key)
      (after crypto vm start before).shared input).1.clientEndpoint = client
  tracked : ∀ before later, inputs = before ++ later → PayloadSeen key before →
    ∀ conn, (after crypto vm start before).connections.lookup key = some conn →
      conn.clientEndpoint = client

variable {crypto vm}

/-- The sender of the frame that opens an entry is the client. -/
theorem clientEndpoint_openConnection_none (config : OrchestratorConfig) (input : FrameInput) :
    (openConnection config none input).clientEndpoint = input.src := by
  unfold openConnection
  simp only
  split <;> rfl

/-! ## The life of an entry -/

section Lifetime

variable {key : ConnKey} {client : Endpoint} {start : Orchestrator σ} {opening : FrameInput}
  {rest before later : List FrameInput}

/-- Every frame of the pair after the first finds the pair tracked. -/
theorem lookup_of_trackedBetween {input : FrameInput}
    (htracked : TrackedBetween crypto vm key start (opening :: rest))
    (hsplit : opening :: rest = before ++ input :: later) (hbefore : before ≠ []) :
    ∃ conn, (after crypto vm start before).connections.lookup key = some conn := by
  have hlength : before.length < (opening :: rest).length := by
    rw [hsplit, List.length_append, List.length_cons]
    omega
  have hsome := htracked before.length hlength (List.length_pos_iff.mpr hbefore)
  rw [hsplit, List.take_left] at hsome
  exact Option.isSome_iff_exists.mp hsome

/-- A frame of the pair is handled with the sender of the first frame as the client, if
that is the client of the entry it finds. -/
theorem clientEndpoint_handleFrame_of {input : FrameInput}
    (huntracked : start.connections.lookup key = none)
    (htracked : TrackedBetween crypto vm key start (opening :: rest))
    (hsplit : opening :: rest = before ++ input :: later)
    (hfound : before ≠ [] → ∀ conn,
      (after crypto vm start before).connections.lookup key = some conn →
        conn.clientEndpoint = opening.src) :
    (handleFrame crypto vm (after crypto vm start before).config
      ((after crypto vm start before).connections.lookup key)
      (after crypto vm start before).shared input).1.clientEndpoint = opening.src := by
  rw [clientEndpoint_handleFrame]
  cases before with
  | nil =>
      cases hsplit
      rw [show (after crypto vm start []).connections.lookup key = none from huntracked]
      exact clientEndpoint_openConnection_none _ _
  | cons first before =>
      have hbefore := List.cons_ne_nil first before
      obtain ⟨known, hknown⟩ := lookup_of_trackedBetween htracked hsplit hbefore
      rw [hknown]
      exact hfound hbefore known hknown

/-- While the pair stays tracked, the client is the sender of the first frame. -/
theorem clientEndpoint_after (huntracked : start.connections.lookup key = none)
    (hopening : opening.key = key)
    (htracked : TrackedBetween crypto vm key start (opening :: rest))
    (hsplit : opening :: rest = before ++ later) (hbefore : before ≠ []) {conn : Connection}
    (hlookup : (after crypto vm start before).connections.lookup key = some conn) :
    conn.clientEndpoint = opening.src := by
  induction before using List.reverseRecOn generalizing later conn with
  | nil => exact absurd rfl hbefore
  | append_singleton before input ih =>
      rw [after_concat] at hlookup
      have hsplit' : opening :: rest = before ++ input :: later := by
        rw [hsplit, List.append_assoc]
        rfl
      rcases lookup_processFrame hlookup with ⟨hold, hother⟩ | ⟨hkey, -, hconn⟩
      · -- a frame of another pair leaves the entry alone, and is not the first
        refine ih hsplit' ?_ hold
        rintro rfl
        cases hsplit'
        exact hother hopening.symm
      · rw [hconn, ← hkey]
        exact clientEndpoint_handleFrame_of huntracked htracked hsplit'
          fun hne conn hknown => ih hsplit' hne hknown

/-- **Roles follow the first frame.**  Of a connection whose SYN or SYN-ACK comes before
any payload, and whose first frame is the SYN or was sent by the endpoint that sends it:
from its first payload on, until it is evicted, the client is that endpoint. -/
theorem roles_follow_first_frame (crypto : Crypto) (vm : LuaVm σ) (source : KeylogSource)
    (lua : σ) (config : OrchestratorConfig) (sweepNow gcNow : Instant)
    (earlier rest : List FrameInput) (opening : FrameInput) (client : Endpoint)
    (huntracked : (after crypto vm (new source lua config sweepNow gcNow)
      earlier).connections.lookup opening.key = none)
    (htracked : TrackedBetween crypto vm opening.key
      (after crypto vm (new source lua config sweepNow gcNow) earlier) (opening :: rest))
    (hhandshake : HandshakeCaptured opening.key client (opening :: rest))
    (hfirst : (opening.frame.flags.syn = true ∧ opening.frame.flags.ack = false) ∨
      opening.src = client) :
    RolesFollow crypto vm opening.key client
      (after crypto vm (new source lua config sweepNow gcNow) earlier) (opening :: rest) := by
  -- either way the first frame comes from the client
  have hclient : opening.src = client := by
    rcases hfirst with ⟨hsyn, hack⟩ | hclient
    · have hopener := hhandshake.opener opening List.mem_cons_self rfl hsyn
      rw [FrameInput.opener, if_neg (by rw [hack]; exact Bool.false_ne_true)] at hopener
      exact hopener
    · exact hclient
  rw [← hclient]
  refine ⟨?_, ?_⟩
  · intro before input later hsplit _ _
    refine clientEndpoint_handleFrame_of huntracked htracked hsplit ?_
    intro hbefore conn hlookup
    exact clientEndpoint_after huntracked rfl htracked hsplit hbefore hlookup
  · intro before later hsplit hseen conn hlookup
    refine clientEndpoint_after huntracked rfl htracked hsplit ?_ hlookup
    rintro rfl
    obtain ⟨input, hmem, -⟩ := hseen
    exact List.not_mem_nil hmem

end Lifetime

open Capture

/-! ## Two handshakes -/

/-- A handshake in order, with the client's hello. -/
def handshake : List FrameInput :=
  [segment client server 0 999 syn [] 0, segment server client 1 4999 synAck [] 1,
    segment client server 2 1000 ack hello 2]

/-- The pair of `handshake`. -/
def handshakeKey : ConnKey := connKey client server

theorem handshakeCaptured_of_decide {inputs : List FrameInput}
    (hopener : ∀ input ∈ inputs, input.key = handshakeKey → input.frame.flags.syn = true →
      input.opener = client)
    (hprecedes : ∀ n < inputs.length,
      (∃ input ∈ inputs.take (n + 1), input.key = handshakeKey ∧ input.payload ≠ []) →
        ∃ input ∈ inputs.take n, input.key = handshakeKey ∧ input.frame.flags.syn = true) :
    HandshakeCaptured handshakeKey client inputs :=
  ⟨hopener, hprecedes⟩

/-- The client of a handshake in order is the sender of the SYN. -/
theorem roles_follow_handshake :
    RolesFollow RecordedSession.recording.crypto plainVm handshakeKey client
        (new source () .default 0 0) handshake ∧
      ((after RecordedSession.recording.crypto plainVm (new source () .default 0 0)
        handshake).connections.lookup handshakeKey).map Connection.clientEndpoint =
          some client := by
  refine ⟨roles_follow_first_frame RecordedSession.recording.crypto plainVm source () .default 0 0
    [] handshake.tail (segment client server 0 999 syn [] 0) client ?_ ?_ ?_ ?_, ?_⟩
  · decide +kernel
  · unfold TrackedBetween
    decide +kernel
  · exact handshakeCaptured_of_decide (by decide +kernel) (by decide +kernel)
  · exact .inl ⟨rfl, rfl⟩
  · decide +kernel

/-- Where the SYN was not captured, the sender of the SYN-ACK is taken for the client. -/
theorem synAck_sender_taken_for_client :
    ¬ ∀ (crypto : Crypto) (vm : LuaVm Unit) (source : KeylogSource) (config : OrchestratorConfig)
      (sweepNow gcNow : Instant) (earlier inputs : List FrameInput) (key : ConnKey)
      (client : Endpoint),
      let start := after crypto vm (new source () config sweepNow gcNow) earlier
      start.connections.lookup key = none → TrackedBetween crypto vm key start inputs →
        HandshakeCaptured key client inputs → RolesFollow crypto vm key client start inputs := by
  intro hclaim
  have hroles := hclaim RecordedSession.recording.crypto plainVm source .default 0 0 []
    handshake.tail handshakeKey client (by decide +kernel)
    (by unfold TrackedBetween; decide +kernel)
    (handshakeCaptured_of_decide (by decide +kernel) (by decide +kernel))
  have hlookup : ((after RecordedSession.recording.crypto plainVm (new source () .default 0 0)
      handshake.tail).connections.lookup handshakeKey).map Connection.clientEndpoint =
        some server := by decide +kernel
  obtain ⟨conn, hconn, hserver⟩ := Option.map_eq_some_iff.mp hlookup
  have hclient := hroles.tracked handshake.tail [] (List.append_nil _).symm
    ⟨segment client server 2 1000 ack hello 2, by simp [handshake], by decide +kernel,
      by decide +kernel⟩ conn hconn
  cases hserver.symm.trans hclient

end Orchestrator

end Tlscap
