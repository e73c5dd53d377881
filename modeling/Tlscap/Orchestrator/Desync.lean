import Tlscap.Orchestrator.Capture
import Tlscap.Orchestrator.Messages
import Tlscap.Reassembly.Disjoint

/-!
# A direction that has lost bytes

Once a push abandons a gap, its direction is marked and its reassembler emptied.  From then on
the payloads of the direction do not matter any more, until the connection is evicted:
whatever they are, it emits nothing, the other direction is as it would be, and the direction
is counted once (`Orchestrator.desync_contained`).

## Strategy

The invariant is `Connection.Silent`: the direction is marked and its reassembler holds
nothing.

* **A frame of the direction** leaves its flags and nothing else (`handleFrame_of_silent`).
  The mark keeps its payload out of the reassembler, so the drain after it finds nothing, and
  a SYN among its flags moves the base but no byte (`Connection.Silent.noteFlags`).
* **A frame of the other direction** keeps the mark and the empty reassembler, as do the
  records it completes (`Connection.Silent.handleFrame`).
* **A frame of another connection** leaves the entry alone, but a sweep may evict it; the
  statements end there.

That payloads do not matter is a statement about two runs that differ in these only
(`SilentAt.run_eq`): their states are equal after every frame, so the induction needs no
relation between them.  The frame that desyncs the direction is the first of them, and the
one that is counted (`Desyncs.silent`).
-/

namespace Tlscap

/-- The direction has lost bytes, and its reassembler holds none. -/
structure Connection.Silent (conn : Connection) (isClientToServer : Bool) : Prop where
  desynced : conn.isDesynced isClientToServer = true
  contiguousLen : (conn.reassemblerFor isClientToServer).contiguousLen = 0
  pendingLen : (conn.reassemblerFor isClientToServer).pendingLen = 0

/-- The frame goes from the same endpoint to the same endpoint. -/
def FrameInput.SameFlow (input other : FrameInput) : Prop :=
  input.src = other.src ∧ input.dst = other.dst

instance (input other : FrameInput) : Decidable (input.SameFlow other) :=
  inferInstanceAs (Decidable (_ ∧ _))

theorem FrameInput.SameFlow.key {input other : FrameInput} (h : input.SameFlow other) :
    input.key = other.key := by
  rw [FrameInput.key, FrameInput.key, h.1, h.2]

/-- The frames have the same addresses, flags, numbers and readings; their payloads and
the packets around them may differ. -/
structure FrameInput.SameButPayload (input other : FrameInput) : Prop where
  frame : other.frame = { input.frame with payloadRange := other.frame.payloadRange }
  packetIndex : other.packetIndex = input.packetIndex
  timestamp : other.timestamp = input.timestamp
  clock : other.clock = input.clock
  keylogReadings : other.keylogReadings = input.keylogReadings

namespace FrameInput.SameButPayload

variable {input other : FrameInput}

theorem src (h : input.SameButPayload other) : other.src = input.src := by
  rw [FrameInput.src, FrameInput.src, h.frame]

theorem key (h : input.SameButPayload other) : other.key = input.key := by
  rw [FrameInput.key, FrameInput.key, FrameInput.src, FrameInput.dst, h.frame]
  rfl

theorem noteFlags (h : input.SameButPayload other) (conn : Connection)
    (isClientToServer : Bool) :
    Tlscap.noteFlags conn isClientToServer other =
      Tlscap.noteFlags conn isClientToServer input := by
  unfold Tlscap.noteFlags
  rw [h.frame, h.clock]

end FrameInput.SameButPayload

/-! ## One frame -/

/-- The connection of a frame with the frame's flags noted. -/
def noted (config : OrchestratorConfig) (found : Option Connection) (input : FrameInput) :
    Connection :=
  noteFlags (openConnection config found input) (direction config found input) input

/-- The frame's payload is pushed, and the push abandons a gap. -/
def AbandonsGap (conn : Connection) (isClientToServer : Bool) (input : FrameInput) : Prop :=
  input.payload ≠ [] ∧ conn.isDesynced isClientToServer = false ∧
    ((conn.reassemblerFor isClientToServer).push input.packetIndex input.frame.seq
      input.frame.payloadRange input.payload input.clock.gapOpened
      input.clock.gapChecked).1.isGapAbandoned = true

instance (conn : Connection) (isClientToServer : Bool) (input : FrameInput) :
    Decidable (AbandonsGap conn isClientToServer input) :=
  inferInstanceAs (Decidable (_ ∧ _))

section Frame

variable {σ : Type} {crypto : Crypto} {vm : LuaVm σ} {config : OrchestratorConfig}
  {conn : Connection} {isClientToServer : Bool}

theorem reassemblerFor_noteFlags (conn : Connection) (direction : Bool) (input : FrameInput)
    (other : Bool) :
    (noteFlags conn direction input).reassemblerFor other =
      if input.frame.flags.syn = true ∧ other = direction then
        (conn.reassemblerFor other).setIsn (input.frame.seq + 1)
      else conn.reassemblerFor other := by
  unfold noteFlags
  cases input.frame.flags.syn with
  | true =>
      change (conn.setReassembler direction _).reassemblerFor other = _
      rw [Connection.reassemblerFor_setReassembler]
      by_cases hother : other = direction
      · rw [if_pos hother, if_pos ⟨rfl, hother⟩, hother]
      · rw [if_neg hother, if_neg fun h => hother h.2]
  | false => exact (if_neg fun h => Bool.false_ne_true h.1).symm

theorem isDesynced_noteFlags (conn : Connection) (direction : Bool) (input : FrameInput)
    (other : Bool) :
    (noteFlags conn direction input).isDesynced other = conn.isDesynced other := by
  unfold noteFlags
  cases input.frame.flags.syn with
  | true => exact Connection.isDesynced_setReassembler conn direction other _
  | false => rfl

/-- What the payload of a frame does to its connection: nothing, a push that keeps what
it is given, or a push that abandons a gap. -/
theorem receivePayload_cases (conn : Connection) (isClientToServer : Bool)
    (input : FrameInput) :
    let pushed := (conn.reassemblerFor isClientToServer).push input.packetIndex input.frame.seq
      input.frame.payloadRange input.payload input.clock.gapOpened input.clock.gapChecked
    let received := receivePayload config conn 0 isClientToServer input
    ((input.payload = [] ∨ conn.isDesynced isClientToServer = true) ∧ received = (conn, 0)) ∨
      (input.payload ≠ [] ∧ conn.isDesynced isClientToServer = false ∧
        pushed.1.isGapAbandoned = false ∧
        received = (conn.setReassembler isClientToServer pushed.2, 0)) ∨
      (AbandonsGap conn isClientToServer input ∧
        received = (conn.markDesynced isClientToServer config.pendingLimits,
          { gapAbandonedBytes := pushed.1.abandonedBytes, connectionsDesynced := 1 })) := by
  intro pushed received
  by_cases hpush : input.payload ≠ [] ∧ conn.isDesynced isClientToServer = false
  · obtain ⟨hpayload, hsynced⟩ := hpush
    have hreceived : ∀ outcome r, pushed = (outcome, r) →
        received = if outcome.isGapAbandoned then
          (conn.markDesynced isClientToServer config.pendingLimits,
            { gapAbandonedBytes := outcome.abandonedBytes, connectionsDesynced := 1 })
        else (conn.setReassembler isClientToServer r, 0) := by
      intro outcome r hpushed
      have hnonempty : input.payload.isEmpty = false := List.isEmpty_eq_false_iff.mpr hpayload
      change receivePayload config conn 0 isClientToServer input = _
      unfold receivePayload
      rw [hsynced, hnonempty, show (conn.reassemblerFor isClientToServer).push input.packetIndex
        input.frame.seq input.frame.payloadRange input.payload input.clock.gapOpened
        input.clock.gapChecked = (outcome, r) from hpushed]
      cases outcome with
      | gapAbandoned bytes =>
          have hzero : (0 : Counters).gapAbandonedBytes + bytes = bytes := Nat.zero_add bytes
          simp only [Bool.not_false, Bool.and_self, if_true, hzero]
          rfl
      | delivered => rfl
      | duplicateDiscarded => rfl
      | bufferedOutOfOrder => rfl
    -- the outcome of the push decides between the last two cases
    have hgap : pushed.1.isGapAbandoned = true → AbandonsGap conn isClientToServer input :=
      fun hgap => ⟨hpayload, hsynced, hgap⟩
    have houtcome := hreceived pushed.1 pushed.2 rfl
    cases habandoned : pushed.1.isGapAbandoned with
    | false =>
        rw [habandoned, if_neg Bool.false_ne_true] at houtcome
        exact .inr (.inl ⟨hpayload, hsynced, rfl, houtcome⟩)
    | true =>
        rw [habandoned, if_pos rfl] at houtcome
        exact .inr (.inr ⟨hgap habandoned, houtcome⟩)
  · refine .inl ⟨?_, ?_⟩
    · by_contra hneither
      obtain ⟨hpayload, hsynced⟩ := not_or.mp hneither
      exact hpush ⟨hpayload, Bool.not_eq_true _ ▸ hsynced⟩
    · change receivePayload config conn 0 isClientToServer input = _
      unfold receivePayload
      apply if_neg
      intro hboth
      obtain ⟨hpayload, hsynced⟩ := Bool.and_eq_true_iff.mp hboth
      exact hpush ⟨by simpa using hpayload, by simpa using hsynced⟩

/-- A frame that abandons a gap desyncs its direction and reports what the push does. -/
theorem receivePayload_abandons {conn : Connection} {isClientToServer : Bool}
    (hgap : AbandonsGap conn isClientToServer input) :
    receivePayload config conn 0 isClientToServer input =
      (conn.markDesynced isClientToServer config.pendingLimits,
        { gapAbandonedBytes := ((conn.reassemblerFor isClientToServer).push input.packetIndex
            input.frame.seq input.frame.payloadRange input.payload input.clock.gapOpened
            input.clock.gapChecked).1.abandonedBytes
          connectionsDesynced := 1 }) := by
  obtain ⟨hpayload, hsynced, habandoned⟩ := hgap
  rcases receivePayload_cases conn isClientToServer input with
    ⟨hempty | hdesynced, -⟩ | ⟨-, -, hkept, -⟩ | ⟨-, hreceived⟩
  · exact absurd hempty hpayload
  · exact absurd (hsynced.symm.trans hdesynced) Bool.false_ne_true
  · exact absurd (hkept.symm.trans habandoned) Bool.false_ne_true
  · exact hreceived

theorem silent_markDesynced (conn : Connection) (isClientToServer : Bool)
    (limits : PendingLimits) :
    (conn.markDesynced isClientToServer limits).Silent isClientToServer := by
  cases isClientToServer <;> exact ⟨rfl, rfl, rfl⟩

/-- Flags leave a silent direction silent: a SYN moves no byte. -/
theorem Connection.Silent.noteFlags (h : conn.Silent isClientToServer) (direction : Bool)
    (input : FrameInput) : (noteFlags conn direction input).Silent isClientToServer := by
  have hanchored : ∀ seq, ((conn.reassemblerFor isClientToServer).setIsn seq).contiguousLen = 0 ∧
      ((conn.reassemblerFor isClientToServer).setIsn seq).pendingLen = 0 := by
    intro seq
    unfold StreamReassembler.setIsn
    split
    · exact ⟨h.contiguousLen, h.pendingLen⟩
    · exact ⟨h.contiguousLen, h.pendingLen⟩
  refine ⟨(isDesynced_noteFlags conn direction input _).trans h.desynced, ?_, ?_⟩
  · rw [reassemblerFor_noteFlags]
    split
    · exact (hanchored _).1
    · exact h.contiguousLen
  · rw [reassemblerFor_noteFlags]
    split
    · exact (hanchored _).2
    · exact h.pendingLen

/-- A direction without contiguous bytes has no records. -/
theorem drainRecords_of_empty (crypto : Crypto) (vm : LuaVm σ) (config : OrchestratorConfig)
    (hempty : (conn.reassemblerFor isClientToServer).contiguousLen = 0) (shared : Shared σ)
    (timestamp : Duration) (readings : ℕ → KeylogReadings) :
    drainRecords crypto vm config conn shared isClientToServer timestamp readings =
      (conn, shared, []) := by
  unfold drainRecords
  rw [hempty]
  rfl

/-- **A frame of a silent direction.**  It leaves its flags, and nothing else. -/
theorem handleFrame_of_silent (crypto : Crypto) (vm : LuaVm σ) (config : OrchestratorConfig)
    (shared : Shared σ) {input : FrameInput}
    (h : conn.Silent (decide (input.src = conn.clientEndpoint))) :
    handleFrame crypto vm config (some conn) shared input =
      (noteFlags conn (decide (input.src = conn.clientEndpoint)) input, shared, []) := by
  have hnoted := h.noteFlags (decide (input.src = conn.clientEndpoint)) input
  have hignored : ∀ counters, receivePayload config
      (noteFlags conn (decide (input.src = conn.clientEndpoint)) input) counters
        (decide (input.src = conn.clientEndpoint)) input =
      (noteFlags conn (decide (input.src = conn.clientEndpoint)) input, counters) := by
    intro counters
    unfold receivePayload
    rw [hnoted.desynced, Bool.not_true, Bool.and_false, if_neg Bool.false_ne_true]
  unfold handleFrame openConnection
  simp only [hignored]
  exact drainRecords_of_empty crypto vm config hnoted.contiguousLen shared input.timestamp
    input.keylogReadings

/-- Records of one direction leave the other direction silent. -/
theorem Connection.Silent.drains {direction : Bool} {last : Connection}
    {shared lastShared : Shared σ} {steps : List (RecordStep σ)}
    (h : conn.Silent isClientToServer) (hother : isClientToServer ≠ direction)
    (hdrains : Drains crypto vm config direction conn shared steps last lastShared) :
    last.Silent isClientToServer := by
  obtain ⟨hreassembler, hdesynced⟩ := hdrains.otherStream hother
  refine ⟨hdesynced.trans h.desynced, ?_, ?_⟩
  · rw [hreassembler]
    exact h.contiguousLen
  · rw [hreassembler]
    exact h.pendingLen

/-- Payload of one direction leaves the other direction silent. -/
theorem Connection.Silent.receivePayload (h : conn.Silent isClientToServer) {direction : Bool}
    (hother : isClientToServer ≠ direction) (input : FrameInput) :
    (receivePayload config conn 0 direction input).1.Silent isClientToServer := by
  rcases receivePayload_cases conn direction input with
    ⟨-, hreceived⟩ | ⟨-, -, -, hreceived⟩ | ⟨-, hreceived⟩
  · rw [hreceived]
    exact h
  · rw [hreceived]
    refine ⟨(conn.isDesynced_setReassembler _ _ _).trans h.desynced, ?_, ?_⟩
    · rw [reassemblerFor_setReassembler, if_neg hother]
      exact h.contiguousLen
    · rw [reassemblerFor_setReassembler, if_neg hother]
      exact h.pendingLen
  · -- the direction of the frame loses bytes itself
    rw [hreceived]
    refine ⟨?_, ?_, ?_⟩
    · cases isClientToServer <;> cases direction <;>
        first | exact h.desynced | exact absurd rfl hother
    · rw [reassemblerFor_markDesynced, if_neg hother]
      exact h.contiguousLen
    · rw [reassemblerFor_markDesynced, if_neg hother]
      exact h.pendingLen

/-- **Any frame of the connection** leaves a silent direction silent. -/
theorem Connection.Silent.handleFrame (h : conn.Silent isClientToServer) (shared : Shared σ)
    (input : FrameInput) :
    (handleFrame crypto vm config (some conn) shared input).1.Silent isClientToServer := by
  by_cases hown : isClientToServer = decide (input.src = conn.clientEndpoint)
  · rw [hown] at h ⊢
    rw [handleFrame_of_silent crypto vm config shared h]
    exact h.noteFlags _ input
  · have hdrains := (handleFrame_drains crypto vm config (some conn) shared input).1
    exact ((h.noteFlags _ input).receivePayload hown input).drains hown hdrains

end Frame

/-! ## Runs -/

namespace Orchestrator

variable {σ : Type} (crypto : Crypto) (vm : LuaVm σ)

/-- The frame desyncs the direction it travels in. -/
def Desyncs (orchestrator : Orchestrator σ) (input : FrameInput) : Prop :=
  let found := orchestrator.connections.lookup input.key
  AbandonsGap (noted orchestrator.config found input)
    (direction orchestrator.config found input) input

/-- The pair is tracked with this client, and the direction is silent. -/
def SilentAt (key : ConnKey) (client : Endpoint) (isClientToServer : Bool)
    (orchestrator : Orchestrator σ) : Prop :=
  ∃ conn, orchestrator.connections.lookup key = some conn ∧ conn.Silent isClientToServer ∧
    conn.clientEndpoint = client

section SilentAt

variable {crypto vm} {orchestrator : Orchestrator σ} {key : ConnKey} {client : Endpoint}
  {isClientToServer : Bool} {input other : FrameInput}

/-- A frame leaves a silent direction silent, or evicts its connection. -/
theorem SilentAt.processFrame (h : orchestrator.SilentAt key client isClientToServer)
    (input : FrameInput) {conn : Connection}
    (hlookup : (orchestrator.processFrame crypto vm input).1.connections.lookup key =
      some conn) : conn.Silent isClientToServer ∧ conn.clientEndpoint = client := by
  obtain ⟨known, hknown, hsilent, hclient⟩ := h
  rcases lookup_processFrame hlookup with ⟨hold, -⟩ | ⟨hkey, -, hconn⟩
  · rw [← Option.some.inj (hknown.symm.trans hold)]
    exact ⟨hsilent, hclient⟩
  · rw [hconn, ← hkey, hknown]
    exact ⟨hsilent.handleFrame _ input, (clientEndpoint_handleFrame crypto vm _ _ _ input).trans
      hclient⟩

/-- A frame of the silent direction leaves its flags and nothing else. -/
theorem SilentAt.handleFrame (crypto : Crypto) (vm : LuaVm σ)
    (h : orchestrator.SilentAt key client isClientToServer) (hkey : input.key = key)
    (hdirection : decide (input.src = client) = isClientToServer) :
    ∃ conn, conn.clientEndpoint = client ∧
      handleFrame crypto vm orchestrator.config (orchestrator.connections.lookup input.key)
        orchestrator.shared input =
      (noteFlags conn isClientToServer input, orchestrator.shared, []) ∧
      orchestrator.connections.lookup input.key = some conn := by
  obtain ⟨conn, hconn, hsilent, hclient⟩ := h
  rw [← hclient] at hdirection
  rw [← hdirection] at hsilent ⊢
  refine ⟨conn, hclient, ?_, ?_⟩
  · rw [hkey, hconn]
    exact handleFrame_of_silent crypto vm _ _ hsilent
  · rw [hkey]
    exact hconn

/-- Such a frame emits nothing, and no direction is marked. -/
theorem SilentAt.emits_nothing (h : orchestrator.SilentAt key client isClientToServer)
    (hkey : input.key = key) (hdirection : decide (input.src = client) = isClientToServer) :
    (orchestrator.processFrame crypto vm input).2.2 = [] ∧
      (orchestrator.processFrame crypto vm input).1.shared.counters.connectionsDesynced =
        orchestrator.shared.counters.connectionsDesynced := by
  obtain ⟨conn, -, hhandled, -⟩ := h.handleFrame crypto vm hkey hdirection
  have hcounters := congrArg Counters.connectionsDesynced
    (counters_processFrame crypto vm orchestrator input)
  rw [hhandled] at hcounters
  refine ⟨?_, hcounters⟩
  unfold Orchestrator.processFrame
  rw [hhandled]

/-- Its payload does not matter. -/
theorem SilentAt.processFrame_eq (h : orchestrator.SilentAt key client isClientToServer)
    (hkey : input.key = key) (hdirection : decide (input.src = client) = isClientToServer)
    (hsame : input.SameButPayload other) :
    (orchestrator.processFrame crypto vm other).1 =
        (orchestrator.processFrame crypto vm input).1 ∧
      (orchestrator.processFrame crypto vm other).2.2 =
        (orchestrator.processFrame crypto vm input).2.2 := by
  obtain ⟨conn, hclient, hhandled, hconn⟩ := h.handleFrame crypto vm hkey hdirection
  obtain ⟨conn', hclient', hhandled', hconn'⟩ := SilentAt.handleFrame crypto vm h
    (hsame.key.trans hkey : other.key = key) (by rw [hsame.src]; exact hdirection)
  rw [hsame.key] at hconn'
  obtain rfl := Option.some.inj (hconn.symm.trans hconn')
  unfold Orchestrator.processFrame
  rw [hhandled, hhandled', hsame.noteFlags, hsame.key, hsame.clock]
  exact ⟨rfl, rfl⟩

/-- **The frame that desyncs a direction.**  It emits nothing, counts the direction and
leaves it silent, or evicts its connection. -/
theorem Desyncs.silent (crypto : Crypto) (vm : LuaVm σ) (hdesyncs : orchestrator.Desyncs input) :
    let found := orchestrator.connections.lookup input.key
    (orchestrator.processFrame crypto vm input).2.2 = [] ∧
      (orchestrator.processFrame crypto vm input).1.shared.counters.connectionsDesynced =
        orchestrator.shared.counters.connectionsDesynced + 1 ∧
      ∀ conn, (orchestrator.processFrame crypto vm input).1.connections.lookup input.key =
          some conn →
        conn.Silent (direction orchestrator.config found input) ∧
          conn.clientEndpoint =
            (openConnection orchestrator.config found input).clientEndpoint := by
  intro found
  have hreceived : (receive orchestrator.config found input).1.Silent
      (direction orchestrator.config found input) ∧
      (receive orchestrator.config found input).2.connectionsDesynced = 1 := by
    have hreceive : receive orchestrator.config found input =
      receivePayload orchestrator.config (noted orchestrator.config found input) 0
        (direction orchestrator.config found input) input := rfl
    rw [hreceive, receivePayload_abandons hdesyncs]
    exact ⟨silent_markDesynced _ _ _, rfl⟩
  -- the desynced stream is empty, so no record is taken off it
  have hhandled : handleFrame crypto vm orchestrator.config found orchestrator.shared input =
      ((receive orchestrator.config found input).1,
        orchestrator.shared.count (receive orchestrator.config found input).2, []) := by
    unfold handleFrame
    simp only
    rw [receivePayload_add]
    exact drainRecords_of_empty crypto vm _ hreceived.1.contiguousLen _ input.timestamp
      input.keylogReadings
  have hcounters := congrArg Counters.connectionsDesynced
    (counters_processFrame crypto vm orchestrator input)
  rw [hhandled] at hcounters
  refine ⟨?_, hcounters.trans (congrArg (_ + ·) hreceived.2), ?_⟩
  · unfold Orchestrator.processFrame
    rw [hhandled]
  · intro conn hlookup
    rcases lookup_processFrame hlookup with ⟨-, hother⟩ | ⟨-, -, hconn⟩
    · exact absurd rfl hother
    · rw [hconn]
      refine ⟨?_, clientEndpoint_handleFrame crypto vm _ _ _ input⟩
      rw [hhandled]
      exact hreceived.1

theorem TrackedBetween.tail {inputs : List FrameInput}
    (h : TrackedBetween crypto vm key orchestrator (input :: inputs)) :
    TrackedBetween crypto vm key (orchestrator.processFrame crypto vm input).1 inputs := by
  intro n hn _
  exact h (n + 1) (Nat.succ_lt_succ hn) (Nat.succ_pos n)

/-- While the pair stays tracked, the direction stays silent. -/
theorem SilentAt.after (h : orchestrator.SilentAt key client isClientToServer)
    {inputs first second : List FrameInput}
    (htracked : TrackedBetween crypto vm key orchestrator inputs)
    (hsplit : inputs = first ++ second) (hsecond : second ≠ []) :
    (after crypto vm orchestrator first).SilentAt key client isClientToServer := by
  induction first using List.reverseRecOn generalizing second with
  | nil => exact h
  | append_singleton first input ih =>
      have hbefore := ih (hsplit.trans (List.append_assoc first [input] second))
        (List.cons_ne_nil _ _)
      have hlength : (first ++ [input]).length < inputs.length := by
        have hpos := List.length_pos_iff.mpr hsecond
        simp only [hsplit, List.length_append]
        omega
      have hsome := htracked (first ++ [input]).length hlength (by simp)
      rw [hsplit, List.take_left] at hsome
      obtain ⟨conn, hconn⟩ := Option.isSome_iff_exists.mp hsome
      refine ⟨conn, hconn, ?_⟩
      rw [after_concat] at hconn
      exact hbefore.processFrame input hconn

/-- **Two runs.**  Runs that differ only in payloads of the silent direction lead to the
same state, by the same messages. -/
theorem SilentAt.run_eq {inputs inputs' : List FrameInput}
    (hinputs : List.Forall₂ (fun input other => other = input ∨
      input.key = key ∧ decide (input.src = client) = isClientToServer ∧
        input.SameButPayload other) inputs inputs')
    (h : orchestrator.SilentAt key client isClientToServer)
    (htracked : TrackedBetween crypto vm key orchestrator inputs) :
    (Machine.run (Orchestrator.processFrame crypto vm) orchestrator inputs').1 =
        (Machine.run (Orchestrator.processFrame crypto vm) orchestrator inputs).1 ∧
      (Machine.run (Orchestrator.processFrame crypto vm) orchestrator inputs').2.map Prod.snd =
        (Machine.run (Orchestrator.processFrame crypto vm) orchestrator inputs).2.map Prod.snd := by
  induction hinputs generalizing orchestrator with
  | nil => exact ⟨rfl, rfl⟩
  | @cons input other inputs inputs' hinput hrest ih =>
      have hstep : (orchestrator.processFrame crypto vm other).1 =
            (orchestrator.processFrame crypto vm input).1 ∧
          (orchestrator.processFrame crypto vm other).2.2 =
            (orchestrator.processFrame crypto vm input).2.2 := by
        rcases hinput with rfl | ⟨hkey, hdirection, hsame⟩
        · exact ⟨rfl, rfl⟩
        · exact h.processFrame_eq hkey hdirection hsame
      set next := (orchestrator.processFrame crypto vm input).1 with hnext
      have hlater : (Machine.run (Orchestrator.processFrame crypto vm) next inputs').1 =
            (Machine.run (Orchestrator.processFrame crypto vm) next inputs).1 ∧
          (Machine.run (Orchestrator.processFrame crypto vm) next inputs').2.map Prod.snd =
            (Machine.run (Orchestrator.processFrame crypto vm) next inputs).2.map Prod.snd := by
        -- the silence is known only while the connection is tracked, so not after the last frame
        by_cases hlast : inputs = []
        · subst hlast
          cases hrest
          exact ⟨rfl, rfl⟩
        · apply ih
          · exact h.after htracked (List.singleton_append).symm hlast
          · exact htracked.tail
      simp only [Machine.run_cons, List.map_cons, hstep]
      rw [← hnext, hlater.2]
      exact ⟨hlater.1, rfl⟩

end SilentAt

/-! ## Permanent, contained, counted once -/

/-- What holds from the frame on that desyncs a direction, while its connection stays
tracked: `later` are the frames after it, `later'` the same frames with other payloads in
that direction. -/
structure DesyncContained (crypto : Crypto) (vm : LuaVm σ) (reached : Orchestrator σ)
    (desyncing : FrameInput) (later later' : List FrameInput) : Prop where
  /-- The direction is counted by the frame that desyncs it. -/
  counted : (reached.processFrame crypto vm desyncing).1.shared.counters.connectionsDesynced =
    reached.shared.counters.connectionsDesynced + 1
  /-- No frame of the direction emits a message. -/
  emits_nothing : ∀ first input second, desyncing :: later = first ++ input :: second →
    input.SameFlow desyncing →
      ((after crypto vm reached first).processFrame crypto vm input).2.2 = []
  /-- No later frame of the direction counts it again. -/
  counted_once : ∀ first input second, later = first ++ input :: second →
    input.SameFlow desyncing →
      (after crypto vm reached
          (desyncing :: first ++ [input])).shared.counters.connectionsDesynced =
        (after crypto vm reached (desyncing :: first)).shared.counters.connectionsDesynced
  /-- After every frame the direction stays marked and holds nothing. -/
  silent : ∀ first second, later = first ++ second → ∀ conn,
    (after crypto vm reached (desyncing :: first)).connections.lookup desyncing.key =
        some conn →
      conn.Silent (direction reached.config (reached.connections.lookup desyncing.key) desyncing)
  /-- The two runs end in the same state. -/
  contained : ∀ rest, after crypto vm reached (desyncing :: later' ++ rest) =
    after crypto vm reached (desyncing :: later ++ rest)
  /-- The two runs emit the same messages, frame by frame. -/
  messages : ∀ rest, (Machine.run (Orchestrator.processFrame crypto vm) reached
      (desyncing :: later' ++ rest)).2.map Prod.snd =
    (Machine.run (Orchestrator.processFrame crypto vm) reached
      (desyncing :: later ++ rest)).2.map Prod.snd

/-- **Desync is permanent, contained and counted once.**  From the frame whose push
abandons a gap until the eviction of its connection. -/
theorem desync_contained (crypto : Crypto) (vm : LuaVm σ) (source : KeylogSource) (lua : σ)
    (config : OrchestratorConfig) (sweepNow gcNow : Instant)
    (earlier later later' : List FrameInput) (desyncing : FrameInput)
    (hdesyncs : (after crypto vm (new source lua config sweepNow gcNow) earlier).Desyncs desyncing)
    (htracked : TrackedBetween crypto vm desyncing.key
      (after crypto vm (new source lua config sweepNow gcNow) earlier) (desyncing :: later))
    (hreplaced : List.Forall₂ (fun input other => other = input ∨
      input.SameFlow desyncing ∧ input.SameButPayload other) later later') :
    DesyncContained crypto vm (after crypto vm (new source lua config sweepNow gcNow) earlier)
      desyncing later later' := by
  generalize after crypto vm (new source lua config sweepNow gcNow) earlier = reached
    at hdesyncs htracked ⊢
  set found := reached.connections.lookup desyncing.key with hfound
  set client := (openConnection reached.config found desyncing).clientEndpoint with hclient
  obtain ⟨hnothing, hcounted, hsilent⟩ := hdesyncs.silent crypto vm
  set next := (reached.processFrame crypto vm desyncing).1 with hnext
  have hflow : ∀ {input : FrameInput}, input.SameFlow desyncing → input.key = desyncing.key ∧
      decide (input.src = client) = direction reached.config found desyncing := by
    intro input hsame
    refine ⟨hsame.key, ?_⟩
    rw [hsame.1]
    rfl
  -- the frame leaves the direction silent where another frame follows
  have hstart : later ≠ [] → next.SilentAt desyncing.key client
      (direction reached.config found desyncing) := by
    intro hlater
    have hsome := htracked 1 (Nat.succ_lt_succ (List.length_pos_iff.mpr hlater)) Nat.one_pos
    obtain ⟨conn, hconn⟩ := Option.isSome_iff_exists.mp hsome
    exact ⟨conn, hconn, hsilent conn hconn⟩
  have hreached : ∀ {first second : List FrameInput}, later = first ++ second → second ≠ [] →
      (after crypto vm next first).SilentAt desyncing.key client
        (direction reached.config found desyncing) := by
    intro first second hsplit hsecond
    refine (hstart ?_).after htracked.tail hsplit hsecond
    rw [hsplit]
    exact List.append_ne_nil_of_right_ne_nil first hsecond
  have hruns : after crypto vm next later' = after crypto vm next later ∧
      (Machine.run (Orchestrator.processFrame crypto vm) next later').2.map Prod.snd =
        (Machine.run (Orchestrator.processFrame crypto vm) next later).2.map Prod.snd := by
    by_cases hlater : later = []
    · subst hlater
      cases hreplaced
      exact ⟨rfl, rfl⟩
    · refine SilentAt.run_eq (hreplaced.imp ?_) (hstart hlater) htracked.tail
      intro input other hinput
      refine hinput.imp id fun hpayload => ?_
      exact ⟨(hflow hpayload.1).1, (hflow hpayload.1).2, hpayload.2⟩
  refine ⟨hcounted, ?_, ?_, ?_, ?_, ?_⟩
  · intro first input second hsplit hsame
    rcases first with _ | ⟨head, first⟩
    · obtain ⟨rfl, -⟩ := List.cons_eq_cons.mp hsplit
      exact hnothing
    · obtain ⟨rfl, hlater⟩ := List.cons_eq_cons.mp hsplit
      obtain ⟨hkey, hdirection⟩ := hflow hsame
      exact ((hreached hlater (List.cons_ne_nil _ _)).emits_nothing hkey hdirection).1
  · intro first input second hsplit hsame
    obtain ⟨hkey, hdirection⟩ := hflow hsame
    rw [after_concat]
    exact ((hreached hsplit (List.cons_ne_nil _ _)).emits_nothing hkey hdirection).2
  · intro first second hsplit conn hconn
    induction first using List.reverseRecOn with
    | nil => exact (hsilent conn hconn).1
    | append_singleton first input _ =>
        have hbefore := hreached (hsplit.trans (List.append_assoc first [input] second))
          (List.cons_ne_nil _ _)
        rw [← List.cons_append, after_concat] at hconn
        exact (hbefore.processFrame input hconn).1
  · intro rest
    change (Machine.run _ _ _).1 = (Machine.run _ _ _).1
    rw [Machine.run_append, Machine.run_append]
    exact congrArg (fun state => after crypto vm state rest) hruns.1
  · intro rest
    rw [Machine.run_append, Machine.run_append, List.map_append, List.map_append]
    congr 1
    · exact congrArg (_ :: ·) hruns.2
    · exact congrArg (fun state => (Machine.run (Orchestrator.processFrame crypto vm) state
        rest).2.map Prod.snd) hruns.1

open Capture

/-- The client's hello is lost; its later segments do not matter, whatever they carry. -/
theorem desync_contained_after_gap :
    DesyncContained RecordedSession.recording.crypto plainVm
      (after RecordedSession.recording.crypto plainVm
        (new source () { OrchestratorConfig.default with maxPendingPackets := 0 } 0 0)
        [segment client server 0 999 syn [] 0])
      (segment client server 1 1043 ack Capture.request 1)
      [segment client server 2 1071 ack hello 2, segment server client 3 5000 ack hello 3]
      [segment client server 2 1071 ack Capture.request 2,
        segment server client 3 5000 ack hello 3] := by
  refine desync_contained RecordedSession.recording.crypto plainVm source () _ 0 0 _ _ _ _ ?_ ?_ ?_
  · unfold Desyncs
    decide +kernel
  · unfold TrackedBetween
    decide +kernel
  · refine .cons (.inr ⟨⟨rfl, rfl⟩, ?_⟩) (.cons (.inl rfl) .nil)
    exact ⟨rfl, rfl, rfl, rfl, rfl⟩

end Orchestrator

end Tlscap
