import Tlscap.Orchestrator.Close
import Tlscap.Orchestrator.Isolation
import Tlscap.Orchestrator.Opening

/-!
# A second connection on an endpoint pair

A SYN is trusted to name the client only where it opens the entry of its pair.  The frames
that trail behind the close of a connection open one, too: a later SYN finds that entry, with
the roles, the sequence bases and the FIN flags these frames left.

`remnant` lists the trailing frames such an entry was made of.  Where there are none, or where
they come from the later client first and carry neither payload nor FIN (`Harmless`), the SYN
leaves the entry it leaves in a fresh orchestrator, and what follows is the same
(`Orchestrator.reused_pair_starts_fresh`).

## Strategy

* **The remnant.**  The entry a pair has behind its close is described by frames alone:
  whoever sent the first is taken for the client, and it is closed by an RST, or by a FIN from
  either side (`MadeBy`).  A trailing frame joins the remnant, or closes it and leaves none
  (`Leaves.processFrame`); then the next one starts another.
* **The SYN.**  A harmless entry is bare: only its activity was recorded.  The SYN anchors
  its direction and overwrites the activity, which is all that it would have set in a new
  entry (`Leaves.handle_syn`).
* **What follows.**  From there on two programs have the same entry for the pair.  One has a
  history and sees other pairs, the other is fresh and sees the frames of this pair only.
  With a steady keylog and dissectors that compute a function neither matters
  (`observe_own`).

The last ACK of a connection that the client closed is harmless; that of one the server closed
is not, and makes the server the next client (`server_taken_for_next_client`).
-/

namespace Tlscap

/-! ## The frames of an entry -/

/-- One of the frames carries RST, or two of them FIN, one from the sender of the first
frame and one from the other endpoint. -/
def closes (frames : List FrameInput) : Bool :=
  match frames with
  | [] => false
  | first :: _ =>
      frames.any (fun input => input.frame.flags.rst) ||
        frames.any (fun input => input.frame.flags.fin && decide (input.src = first.src)) &&
          frames.any (fun input => input.frame.flags.fin && !decide (input.src = first.src))

/-- One more frame: frames of other pairs leave the entry alone, and a frame that closes
it removes it. -/
def remnantStep (key : ConnKey) (left : List FrameInput) (input : FrameInput) :
    List FrameInput :=
  if input.key = key then if closes (left ++ [input]) then [] else left ++ [input] else left

/-- The frames the entry of the pair was made of, where it was not there before. -/
def remnant (key : ConnKey) (inputs : List FrameInput) : List FrameInput :=
  inputs.foldl (remnantStep key) []

/-- There is no entry, or one that the client opened and nothing but flags other than
FIN was seen of. -/
def Harmless (client : Endpoint) (left : List FrameInput) : Prop :=
  (∀ first ∈ left.head?, first.src = client) ∧
    ∀ input ∈ left, input.payload = [] ∧ input.frame.flags.fin = false

instance (client : Endpoint) (left : List FrameInput) : Decidable (Harmless client left) :=
  inferInstanceAs (Decidable ((∀ first ∈ left.head?, first.src = client) ∧ _))

/-- An entry between two endpoints in which nothing but activity was recorded. -/
def bareConnection (config : OrchestratorConfig) (client server : Endpoint)
    (activity : Option Instant) : Connection :=
  { Connection.new client server config.pendingLimits with info := { lastActivity := activity } }

/-- The entry was made by these frames. -/
structure MadeBy (config : OrchestratorConfig) (first : FrameInput) (left : List FrameInput)
    (conn : Connection) : Prop where
  client : conn.clientEndpoint = first.src
  finSeenC2s : conn.info.finSeenC2s =
    left.any fun input => input.frame.flags.fin && decide (input.src = first.src)
  finSeenS2c : conn.info.finSeenS2c =
    left.any fun input => input.frame.flags.fin && !decide (input.src = first.src)
  rstSeen : conn.info.rstSeen = left.any fun input => input.frame.flags.rst
  bare : (∀ input ∈ left, input.payload = [] ∧ input.frame.flags.fin = false ∧
      input.frame.flags.rst = false) →
    ∃ activity, conn = bareConnection config first.src first.dst activity

section Frame

variable {σ : Type} (crypto : Crypto) (vm : LuaVm σ) (config : OrchestratorConfig)

/-- The activity of an entry is overwritten. -/
theorem noteFlags_bare (client server : Endpoint) (activity : Option Instant)
    (isClientToServer : Bool) (input : FrameInput) :
    noteFlags (bareConnection config client server activity) isClientToServer input =
      noteFlags (bareConnection config client server none) isClientToServer input := by
  unfold noteFlags
  cases input.frame.flags.syn <;> cases input.frame.flags.fin <;>
    cases input.frame.flags.rst <;> cases isClientToServer <;> rfl

/-- A frame with nothing but an ACK leaves its activity in a bare entry. -/
theorem handleFrame_bare {client server : Endpoint} {activity : Option Instant}
    {found : Option Connection} (shared : Shared σ) {input : FrameInput}
    (hopen : openConnection config found input = bareConnection config client server activity)
    (hsyn : input.frame.flags.syn = false) (hpayload : input.payload = [])
    (hfin : input.frame.flags.fin = false) (hrst : input.frame.flags.rst = false) :
    (handleFrame crypto vm config found shared input).1 =
      bareConnection config client server (some input.clock.activity) := by
  have hdirection : direction config found input = decide (input.src = client) := by
    rw [direction, hopen]
    rfl
  have hempty : ((noteFlags (openConnection config found input) (direction config found input)
      input).reassemblerFor (direction config found input)).contiguousLen = 0 := by
    rw [hopen]
    unfold noteFlags
    rw [hsyn]
    cases direction config found input <;> rfl
  rw [Delivery.handleFrame_of_empty crypto vm config shared hpayload hempty, hopen]
  unfold noteFlags
  rw [hsyn, hfin, hrst]
  rfl

/-- A frame without an entry opens one that no frame has made yet. -/
theorem madeBy_nil {input : FrameInput} (hsyn : input.frame.flags.syn = false) :
    MadeBy config input [] (openConnection config none input) := by
  have hnew : openConnection config none input =
      bareConnection config input.src input.dst none := by
    unfold openConnection
    simp only
    rw [hsyn]
    rfl
  rw [hnew]
  exact ⟨rfl, rfl, rfl, rfl, fun _ => ⟨none, rfl⟩⟩

/-- **One more frame** of an entry. -/
theorem MadeBy.handleFrame {found : Option Connection} {first : FrameInput}
    {left : List FrameInput} {input : FrameInput}
    (h : MadeBy config first left (openConnection config found input))
    (hsyn : input.frame.flags.syn = false) (shared : Shared σ) :
    MadeBy config first (left ++ [input]) (handleFrame crypto vm config found shared input).1 := by
  have hdirection : direction config found input = decide (input.src = first.src) := by
    rw [direction, h.client]
  have hinfo := info_handleFrame crypto vm config found shared input
  rw [info_noteFlags, hdirection] at hinfo
  refine ⟨?_, ?_, ?_, ?_, ?_⟩
  · rw [clientEndpoint_handleFrame]
    exact h.client
  · rw [hinfo, List.any_append, List.any_cons, List.any_nil, Bool.or_false]
    exact congrArg (· || _) h.finSeenC2s
  · rw [hinfo, List.any_append, List.any_cons, List.any_nil, Bool.or_false]
    exact congrArg (· || _) h.finSeenS2c
  · rw [hinfo, List.any_append, List.any_cons, List.any_nil, Bool.or_false]
    exact congrArg (· || _) h.rstSeen
  · intro hbare
    obtain ⟨activity, hopen⟩ := h.bare fun other hother =>
      hbare other (List.mem_append_left _ hother)
    obtain ⟨hpayload, hfin, hrst⟩ := hbare input (List.mem_append_right _ List.mem_cons_self)
    exact ⟨_, handleFrame_bare crypto vm config shared hopen hsyn hpayload hfin hrst⟩

theorem MadeBy.isClosed_eq {first : FrameInput} {left : List FrameInput} {conn : Connection}
    (h : MadeBy config first left conn) (hfirst : left.head? = some first) :
    conn.info.isClosed = closes left := by
  obtain ⟨rest, rfl⟩ : ∃ rest, left = first :: rest := by
    cases left with
    | nil => cases hfirst
    | cons head rest => exact ⟨rest, by rw [Option.some.inj hfirst]⟩
  unfold ConnectionMeta.isClosed closes
  rw [h.finSeenC2s, h.finSeenS2c, h.rstSeen]

end Frame

/-! ## The trailing frames -/

namespace Orchestrator

variable {σ : Type} {crypto : Crypto} {vm : LuaVm σ} {start orchestrator : Orchestrator σ}
  {key : ConnKey}

/-- The entry of the pair is what the frames made of it. -/
structure Leaves (key : ConnKey) (left : List FrameInput) (orchestrator : Orchestrator σ) :
    Prop where
  keys : ∀ input ∈ left, input.key = key
  notClosed : closes left = false
  untracked : orchestrator.connections.lookup key = none → left = []
  tracked : ∀ conn, orchestrator.connections.lookup key = some conn →
    ∃ first, left.head? = some first ∧ MadeBy orchestrator.config first left conn

/-- **One trailing frame.** -/
theorem Leaves.processFrame {left : List FrameInput} (h : orchestrator.Leaves key left)
    (hidle : orchestrator.config.idleTimeout = none) {input : FrameInput}
    (hsyn : input.key = key → input.frame.flags.syn = false) :
    (orchestrator.processFrame crypto vm input).1.Leaves key (remnantStep key left input) := by
  have hconfig := config_processFrame crypto vm orchestrator input
  have hlookup : (orchestrator.processFrame crypto vm input).1.connections.lookup key = _ :=
    lookup_processFrame_of_no_idle hidle input key
  unfold remnantStep
  by_cases hkey : input.key = key
  · subst hkey
    obtain ⟨first, hfirst, hmade⟩ : ∃ first, (left ++ [input]).head? = some first ∧
        MadeBy orchestrator.config first left (openConnection orchestrator.config
          (orchestrator.connections.lookup input.key) input) := by
      cases hfound : orchestrator.connections.lookup input.key with
      | none =>
          rw [h.untracked hfound]
          exact ⟨input, rfl, madeBy_nil orchestrator.config (hsyn rfl)⟩
      | some conn =>
          obtain ⟨first, hfirst, hmade⟩ := h.tracked conn hfound
          exact ⟨first, by rw [List.head?_append, hfirst]; rfl, hmade⟩
    have hhandled := hmade.handleFrame crypto vm orchestrator.config (hsyn rfl)
      orchestrator.shared
    rw [if_pos rfl] at hlookup ⊢
    simp only [hhandled.isClosed_eq orchestrator.config hfirst] at hlookup
    cases hcloses : closes (left ++ [input]) with
    | true =>
        -- the frame closes the remnant: nothing is left of it
        rw [hcloses, if_pos rfl] at hlookup
        refine ⟨nofun, rfl, fun _ => rfl, fun conn hconn => ?_⟩
        cases hlookup.symm.trans hconn
    | false =>
        -- the frame joins the remnant
        rw [hcloses, if_neg Bool.false_ne_true] at hlookup
        rw [if_neg Bool.false_ne_true]
        refine ⟨?_, hcloses, fun hnone => ?_, fun conn hconn => ?_⟩
        · intro other hother
          rcases List.mem_append.mp hother with hold | hnew
          · exact h.keys other hold
          · rw [List.mem_singleton.mp hnew]
        · cases hlookup.symm.trans hnone
        · rw [hconfig, ← Option.some.inj (hlookup.symm.trans hconn)]
          exact ⟨first, hfirst, hhandled⟩
  · rw [if_neg (Ne.symm hkey)] at hlookup
    rw [if_neg hkey]
    refine ⟨h.keys, h.notClosed, fun hnone => h.untracked (hlookup.symm.trans hnone),
      fun conn hconn => ?_⟩
    rw [hconfig]
    exact h.tracked conn (hlookup.symm.trans hconn)

/-- **The trailing frames.**  The entry of a pair that was not tracked is what they made
of it. -/
theorem leaves_remnant (hidle : start.config.idleTimeout = none)
    (huntracked : start.connections.lookup key = none) {trailing : List FrameInput}
    (hsyn : ∀ input ∈ trailing, input.key = key → input.frame.flags.syn = false) :
    (after crypto vm start trailing).Leaves key (remnant key trailing) := by
  induction trailing using List.reverseRecOn with
  | nil =>
      refine ⟨nofun, rfl, fun _ => rfl, fun conn hconn => ?_⟩
      cases huntracked.symm.trans hconn
  | append_singleton trailing input ih =>
      rw [after_concat, remnant, List.foldl_append]
      apply (ih fun other hother => hsyn other (List.mem_append_left _ hother)).processFrame
      · rw [config_after]
        exact hidle
      · exact hsyn input (List.mem_append_right _ List.mem_cons_self)

/-! ## The SYN -/

/-- **The SYN of the next connection.**  Where the entry it finds is harmless, it makes
the connection it would make without one. -/
theorem Leaves.handle_syn {left : List FrameInput} (h : orchestrator.Leaves key left)
    {syn : FrameInput} (hkey : syn.key = key) (hsyn : syn.frame.flags.syn = true)
    (hack : syn.frame.flags.ack = false) (hharmless : Harmless syn.src left)
    (crypto : Crypto) (vm : LuaVm σ) (shared : Shared σ) :
    handleFrame crypto vm orchestrator.config (orchestrator.connections.lookup key) shared syn =
      handleFrame crypto vm orchestrator.config none shared syn := by
  cases hfound : orchestrator.connections.lookup key with
  | none => rfl
  | some conn =>
      obtain ⟨first, hfirst, hmade⟩ := h.tracked conn hfound
      have hmem : first ∈ left := List.mem_of_mem_head? hfirst
      have hsrc : first.src = syn.src := hharmless.1 first hfirst
      -- one pair and one source, so one destination, also where the two coincide
      have hdst : first.dst = syn.dst := by
        have hpair := (h.keys first hmem).trans hkey.symm
        rw [FrameInput.key, FrameInput.key, hsrc] at hpair
        rcases connKey_eq_iff.mp hpair with ⟨-, hdst⟩ | ⟨hsame, hdst⟩
        · exact hdst
        · exact hdst.trans hsame
      -- an entry that is left was not closed, so no RST is among its frames
      have hnone : ∀ input ∈ left, input.frame.flags.rst = false := by
        intro input hinput
        have hcloses := h.notClosed
        unfold closes at hcloses
        split at hcloses
        · cases hinput
        · simpa using List.any_eq_false.mp (Bool.or_eq_false_iff.mp hcloses).1 input hinput
      obtain ⟨activity, rfl⟩ := hmade.bare fun input hinput =>
        ⟨(hharmless.2 input hinput).1, (hharmless.2 input hinput).2, hnone input hinput⟩
      rw [hsrc, hdst]
      have hopen : openConnection orchestrator.config none syn =
          bareConnection orchestrator.config syn.src syn.dst none := by
        unfold openConnection
        simp only
        rw [hsyn, hack]
        rfl
      unfold handleFrame
      rw [hopen, show ∀ conn, openConnection orchestrator.config (some conn) syn = conn
        from fun _ => rfl]
      simp only
      rw [noteFlags_bare]
      rfl

/-- The trailing frames of a closed connection make the entry that is left. -/
theorem FollowsClose.leaves (hidle : start.config.idleTimeout = none)
    {earlier trailing : List FrameInput} {closing : FrameInput}
    (h : FollowsClose crypto vm start earlier closing trailing) :
    (after crypto vm start (earlier ++ closing :: trailing)).Leaves closing.key
      (remnant closing.key trailing) := by
  have hidle' : ∀ inputs, (after crypto vm start inputs).config.idleTimeout = none := by
    intro inputs
    rw [config_after]
    exact hidle
  have hevicted : (after crypto vm start (earlier ++ [closing])).connections.lookup closing.key =
      none := by
    rw [after_concat]
    exact h.closes.evicts (hidle' earlier)
  rw [List.append_cons, after_append]
  exact leaves_remnant (hidle' _) hevicted h.noSyn

section Later

variable {dissector : Dissector} {hasPath : Bool} {keylog : Keylog} {config : OrchestratorConfig}

/-- The frames of a pair yield the same and leave the same entries where the entries they
start with are the same. -/
theorem observe_own (crypto : Crypto) (hpure : vm.IsPure dissector)
    (hidle : config.idleTimeout = none) {orchestrator orchestrator' : Orchestrator σ}
    (h : orchestrator.Steady config hasPath keylog)
    (h' : orchestrator'.Steady config hasPath keylog) {inputs : List FrameInput}
    (hsteady : ∀ input ∈ inputs, ∀ index,
      (input.keylogReadings index).Steady crypto.hexDecode hasPath keylog)
    (hentry : orchestrator.connections.lookup key = orchestrator'.connections.lookup key) :
    Machine.observe (processFrame crypto vm) (fun input => decide (input.key = key))
        (fun orchestrator => orchestrator.connections.lookup key) orchestrator inputs =
      Machine.observe (processFrame crypto vm) (fun input => decide (input.key = key))
        (fun orchestrator => orchestrator.connections.lookup key) orchestrator'
        (inputs.filter fun input => decide (input.key = key)) := by
  apply Machine.observe_filter
    (P := fun orchestrator => orchestrator.Steady config hasPath keylog)
    (Q := fun input => ∀ index, (input.keylogReadings index).Steady crypto.hexDecode hasPath keylog)
  · exact fun state input hstate hinput => hstate.processFrame hpure hinput
  · intro state input hstate _ hother
    rw [lookup_processFrame_of_no_idle (by rw [hstate.config_eq]; exact hidle),
      if_neg fun hkey => of_decide_eq_false hother hkey.symm]
  · intro state state' input hstate hstate' hinput hown hentry
    obtain rfl : input.key = key := of_decide_eq_true hown
    exact processFrame_eq crypto hpure hidle hstate hstate' hinput hentry
  · exact hsteady
  · exact h
  · exact h'
  · exact hentry

/-- **The SYN**, in a state with a harmless entry and in one without an entry. -/
theorem Leaves.processFrame_syn (crypto : Crypto) (hpure : vm.IsPure dissector)
    (hidle : config.idleTimeout = none) {fresh : Orchestrator σ}
    (horchestrator : orchestrator.Steady config hasPath keylog)
    (hfresh : fresh.Steady config hasPath keylog) {syn : FrameInput}
    (huntracked : fresh.connections.lookup syn.key = none)
    {left : List FrameInput} (h : orchestrator.Leaves syn.key left)
    (hsyn : syn.frame.flags.syn = true) (hack : syn.frame.flags.ack = false)
    (hharmless : Harmless syn.src left)
    (hsteady : ∀ index, (syn.keylogReadings index).Steady crypto.hexDecode hasPath keylog) :
    (orchestrator.processFrame crypto vm syn).2 = (fresh.processFrame crypto vm syn).2 ∧
      (orchestrator.processFrame crypto vm syn).1.connections.lookup syn.key =
        (fresh.processFrame crypto vm syn).1.connections.lookup syn.key := by
  obtain ⟨hconn, hmessages⟩ := handleFrame_eq crypto config hpure horchestrator.reads
    hfresh.reads hsteady none
  have hhandled := h.handle_syn rfl hsyn hack hharmless crypto vm orchestrator.shared
  rw [horchestrator.config_eq] at hhandled
  refine ⟨?_, ?_⟩
  · unfold Orchestrator.processFrame
    rw [horchestrator.config_eq, hfresh.config_eq, huntracked, hhandled]
    simp only
    rw [hmessages]
  · rw [lookup_processFrame_of_no_idle (by rw [horchestrator.config_eq]; exact hidle),
      lookup_processFrame_of_no_idle (by rw [hfresh.config_eq]; exact hidle), if_pos rfl,
      if_pos rfl, horchestrator.config_eq, hfresh.config_eq, huntracked, hhandled, hconn]

end Later

/-- What the frames of a pair yield, and the roles after each of them. -/
def rolesAndMessages (crypto : Crypto) (vm : LuaVm σ) (key : ConnKey) (start : Orchestrator σ)
    (inputs : List FrameInput) :
    List ((PacketEvent × List DecodedMessage) × Option (Endpoint × Endpoint)) :=
  Machine.observe (processFrame crypto vm) (fun input => decide (input.key = key))
    (fun orchestrator => (orchestrator.connections.lookup key).map fun conn =>
      (conn.clientEndpoint, conn.serverEndpoint)) start inputs

/-- **A reused pair starts fresh** where the trailing frames left nothing, or a harmless
entry.  The roles and messages of the next connection are those of a fresh orchestrator
that sees its frames only. -/
theorem reused_pair_starts_fresh (crypto : Crypto) {dissector : Dissector}
    (hpure : vm.IsPure dissector) (source : KeylogSource) (lua lua' : σ)
    (config : OrchestratorConfig) (hidle : config.idleTimeout = none)
    (sweepNow gcNow sweepNow' gcNow' : Instant) (earlier trailing later : List FrameInput)
    (closing syn : FrameInput)
    (hsteady : ∀ input ∈ (earlier ++ closing :: trailing) ++ syn :: later, ∀ index,
      (input.keylogReadings index).Steady crypto.hexDecode source.hasPath source.current)
    (hfollows : FollowsClose crypto vm (new source lua config sweepNow gcNow) earlier closing
      trailing)
    (hkey : syn.key = closing.key) (hsyn : syn.frame.flags.syn = true)
    (hack : syn.frame.flags.ack = false)
    (hharmless : Harmless syn.src (remnant closing.key trailing)) :
    rolesAndMessages crypto vm syn.key
        (after crypto vm (new source lua config sweepNow gcNow)
          (earlier ++ closing :: trailing)) (syn :: later) =
      rolesAndMessages crypto vm syn.key (new source lua' config sweepNow' gcNow')
        ((syn :: later).filter fun input => decide (input.key = syn.key)) := by
  have hleaves := hfollows.leaves hidle
  rw [← hkey] at hleaves hharmless
  obtain ⟨hbefore, hlater⟩ := List.forall_mem_append.mp hsteady
  obtain ⟨hsynSteady, hlater⟩ := List.forall_mem_cons.mp hlater
  have hreused : (after crypto vm (new source lua config sweepNow gcNow)
      (earlier ++ closing :: trailing)).Steady config source.hasPath source.current :=
    (steady_new source lua config sweepNow gcNow).run hpure hbefore
  have hfresh := steady_new source lua' config sweepNow' gcNow'
  set reused := after crypto vm (new source lua config sweepNow gcNow)
    (earlier ++ closing :: trailing)
  set fresh := new source lua' config sweepNow' gcNow'
  -- from the SYN on, the two programs have the same entry
  obtain ⟨houtput, hentry⟩ := hleaves.processFrame_syn crypto hpure hidle hreused hfresh
    (AList.lookup_empty _) hsyn hack hharmless hsynSteady
  have hrest := observe_own crypto hpure hidle
    (hreused.processFrame hpure hsynSteady) (hfresh.processFrame hpure hsynSteady) hlater hentry
  have hseen : Machine.observe (processFrame crypto vm) (fun input => decide (input.key = syn.key))
        (fun orchestrator => orchestrator.connections.lookup syn.key) reused (syn :: later) =
      Machine.observe (processFrame crypto vm) (fun input => decide (input.key = syn.key))
        (fun orchestrator => orchestrator.connections.lookup syn.key) fresh
        ((syn :: later).filter fun input => decide (input.key = syn.key)) := by
    have hown : (syn :: later).filter (fun input => decide (input.key = syn.key)) =
        syn :: later.filter fun input => decide (input.key = syn.key) :=
      List.filter_cons_of_pos (decide_eq_true rfl)
    rw [hown, Machine.observe, Machine.observe]
    simp only [decide_true, if_true]
    rw [houtput, hentry, hrest]
  have hroles := Machine.observe_map (processFrame crypto vm)
    (fun input => decide (input.key = syn.key))
    (fun orchestrator : Orchestrator σ => orchestrator.connections.lookup syn.key)
    (Option.map fun conn => (conn.clientEndpoint, conn.serverEndpoint))
  unfold rolesAndMessages
  rw [hroles, hroles, hseen]

open Capture

/-- The SYN of another connection from the client's port. -/
def nextSyn : FrameInput := segment client server 5 999 syn [] 5

/-- What its client sends up to the request. -/
def nextConnection : List FrameInput :=
  [segment client server 6 1000 ack hello 6, segment client server 7 1043 ack Capture.request 7]

/-- The client's last ACK is harmless: the next request is decrypted. -/
theorem reused_pair_starts_fresh_finalAck :
    rolesAndMessages RecordedSession.recording.crypto plainVm nextSyn.key
        (after RecordedSession.recording.crypto plainVm (new source () .default 0 0)
          (closedConnection.take 3 ++ segment server client 3 5000 finAck [] 3 :: [finalAck]))
        (nextSyn :: nextConnection) =
      rolesAndMessages RecordedSession.recording.crypto plainVm nextSyn.key
        (new source () .default 0 0)
        ((nextSyn :: nextConnection).filter fun input => decide (input.key = nextSyn.key)) := by
  refine reused_pair_starts_fresh RecordedSession.recording.crypto plainVm_isPure source () ()
    .default rfl 0 0 0 0 (closedConnection.take 3) [finalAck] nextConnection
    (segment server client 3 5000 finAck [] 3) nextSyn ?_ followsClose_finalAck ?_ rfl rfl ?_
  · exact steady_of_noReadings rfl _ _ _
  · decide +kernel
  · decide +kernel

/-- A connection that the server closes first. -/
def serverCloses : List FrameInput :=
  [segment client server 0 999 syn [] 0, segment server client 1 4999 synAck [] 1,
    segment server client 2 5000 finAck [] 2]

/-- The FIN of the client, which completes the close. -/
def clientFin : FrameInput := segment client server 3 1000 finAck [] 3

/-- The server's last ACK. -/
def serverAck : FrameInput := segment server client 4 5001 ack [] 4

/-- After the server's last ACK the server is taken for the client of the next connection,
and its messages are lost. -/
theorem server_taken_for_next_client :
    ¬ ∀ (crypto : Crypto) (vm : LuaVm Unit) (dissector : Dissector) (source : KeylogSource)
      (config : OrchestratorConfig) (sweepNow gcNow : Instant)
      (earlier trailing later : List FrameInput) (closing syn : FrameInput),
      vm.IsPure dissector → config.idleTimeout = none →
      (∀ input ∈ (earlier ++ closing :: trailing) ++ syn :: later, ∀ index,
        (input.keylogReadings index).Steady crypto.hexDecode source.hasPath source.current) →
      FollowsClose crypto vm (new source () config sweepNow gcNow) earlier closing trailing →
      syn.key = closing.key → syn.frame.flags.syn = true → syn.frame.flags.ack = false →
      rolesAndMessages crypto vm syn.key
          (after crypto vm (new source () config sweepNow gcNow)
            (earlier ++ closing :: trailing)) (syn :: later) =
        rolesAndMessages crypto vm syn.key (new source () config sweepNow gcNow)
          ((syn :: later).filter fun input => decide (input.key = syn.key)) := by
  intro hclaim
  have hsame := hclaim RecordedSession.recording.crypto plainVm plainDissector source .default 0 0
    serverCloses [serverAck] nextConnection clientFin nextSyn plainVm_isPure rfl
    (steady_of_noReadings rfl _ _ _)
    ⟨by decide +kernel, by simp [serverAck, Capture.segment, Capture.ack]⟩ (by decide +kernel)
    rfl rfl
  have hmessages := congrArg (List.map fun seen => (seen.1.2.map DecodedMessage.tlsAppData,
    seen.2)) hsame
  revert hmessages
  decide +kernel

end Orchestrator

end Tlscap
