import Tlscap.Orchestrator.Capture
import Tlscap.Orchestrator.Entries

/-!
# What follows a close

The frame that completes the close of a connection evicts its entry.  A frame without an entry
opens a new one, whatever its flags are, and only RST closes that one again within the same
call.  So the closing handshake's final ACK, a retransmitted FIN or late data leave an entry
behind that nothing will close.

Nothing is left of closed connections if and only if every frame that follows a close carries
RST, and then a run that closed all connections it opened ends with none
(`Orchestrator.nothing_left_iff`).

## Strategy

The state after a run is `after`; a run is looked at up to each of its frames.

* **A close** is completed by the frame that leaves its connection closed, be it found or
  opened by that very frame (`completesClose_iff`).  The entry is gone behind it
  (`CompletesClose.evicts`).
* **A frame without an entry** leaves none exactly if it carries RST
  (`lookup_eq_none_iff_rst`), and frames of other pairs change nothing.  Behind a close this
  is an induction over the frames that follow.
* **Other pairs** without frames have no entry (`lookup_after_of_untouched`), so a table in
  which each touched pair is gone is empty.
-/

namespace Tlscap

namespace Orchestrator

variable {σ : Type} (crypto : Crypto) (vm : LuaVm σ)

/-- The state after some frames. -/
def after (start : Orchestrator σ) (inputs : List FrameInput) : Orchestrator σ :=
  (Machine.run (processFrame crypto vm) start inputs).1

/-- The pair is tracked between any two frames of the run. -/
def TrackedBetween (key : ConnKey) (start : Orchestrator σ) (inputs : List FrameInput) : Prop :=
  ∀ n < inputs.length, 0 < n →
    ((after crypto vm start (inputs.take n)).connections.lookup key).isSome

/-- The frame completes the close of its connection, found or new: it carries RST, or
FIN where the other direction has sent one before. -/
def CompletesClose (orchestrator : Orchestrator σ) (input : FrameInput) : Prop :=
  let conn := openConnection orchestrator.config (orchestrator.connections.lookup input.key) input
  input.frame.flags.rst = true ∨ input.frame.flags.fin = true ∧
    (if input.src = conn.clientEndpoint then conn.info.finSeenS2c
      else conn.info.finSeenC2s) = true

instance (orchestrator : Orchestrator σ) (input : FrameInput) :
    Decidable (orchestrator.CompletesClose input) :=
  inferInstanceAs (Decidable (_ ∨ _ ∧ _))

/-- `later` are frames after the close of a connection, none of which opens a new
connection of the pair. -/
structure FollowsClose (start : Orchestrator σ) (before : List FrameInput) (closing : FrameInput)
    (later : List FrameInput) : Prop where
  closes : (after crypto vm start before).CompletesClose closing
  noSyn : ∀ input ∈ later, input.key = closing.key → input.frame.flags.syn = false

/-- Nothing of a closed connection is left, after any of the frames that follow. -/
def NothingLeft (start : Orchestrator σ) (inputs : List FrameInput) : Prop :=
  ∀ before closing later rest, inputs = before ++ closing :: later ++ rest →
    FollowsClose crypto vm start before closing later →
    (after crypto vm start (before ++ closing :: later)).connections.lookup closing.key = none

/-- Every frame that follows the close of its connection carries RST. -/
def OnlyResetsFollow (start : Orchestrator σ) (inputs : List FrameInput) : Prop :=
  ∀ before closing later input rest, inputs = before ++ closing :: (later ++ input :: rest) →
    FollowsClose crypto vm start before closing (later ++ [input]) → input.key = closing.key →
    input.frame.flags.rst = true

/-- Every connection the run opened was closed, and not opened again. -/
def AllClosed (start : Orchestrator σ) (inputs : List FrameInput) : Prop :=
  ∀ input ∈ inputs, ∃ before closing later, inputs = before ++ closing :: later ∧
    closing.key = input.key ∧ FollowsClose crypto vm start before closing later

variable {crypto vm} {start orchestrator : Orchestrator σ}

theorem after_concat (start : Orchestrator σ) (inputs : List FrameInput) (input : FrameInput) :
    after crypto vm start (inputs ++ [input]) =
      ((after crypto vm start inputs).processFrame crypto vm input).1 := by
  unfold after
  rw [Machine.run_append]
  rfl

theorem after_append (start : Orchestrator σ) (first second : List FrameInput) :
    after crypto vm start (first ++ second) =
      after crypto vm (after crypto vm start first) second := by
  unfold after
  rw [Machine.run_append]

/-- The state after a run, from its middle on. -/
theorem after_cons (start : Orchestrator σ) (before : List FrameInput) (input : FrameInput)
    (rest : List FrameInput) :
    after crypto vm start (before ++ input :: rest) =
      after crypto vm (after crypto vm start (before ++ [input])) rest := by
  rw [← after_append, List.append_assoc]
  rfl

theorem config_after (start : Orchestrator σ) (inputs : List FrameInput) :
    (after crypto vm start inputs).config = start.config :=
  config_run crypto vm start inputs

/-! ## One frame -/

/-- What completes the close of a tracked connection. -/
theorem completesClose_of_found {input : FrameInput} {conn : Connection}
    (hfound : orchestrator.connections.lookup input.key = some conn) :
    orchestrator.CompletesClose input ↔ input.frame.flags.rst = true ∨
      input.frame.flags.fin = true ∧ (if input.src = conn.clientEndpoint then
        conn.info.finSeenS2c else conn.info.finSeenC2s) = true := by
  unfold CompletesClose
  rw [hfound]
  rfl

/-- A frame completes the close of an open connection exactly if it leaves it closed. -/
theorem completesClose_iff (crypto : Crypto) (vm : LuaVm σ) (config : OrchestratorConfig)
    (shared : Shared σ) {input : FrameInput} {conn : Connection}
    (hfound : orchestrator.connections.lookup input.key = some conn)
    (hopen : conn.info.isClosed = false) :
    orchestrator.CompletesClose input ↔
      (handleFrame crypto vm config (some conn) shared input).1.info.isClosed = true := by
  rw [ConnectionMeta.isClosed, Bool.or_eq_false_iff, Bool.and_eq_false_iff] at hopen
  rw [completesClose_of_found hfound, info_handleFrame, info_noteFlags]
  simp only [openConnection, direction, ConnectionMeta.isClosed, hopen.1]
  by_cases hclient : input.src = conn.clientEndpoint
  · rw [if_pos hclient]
    grind
  · rw [if_neg hclient]
    grind

/-- The frame that completes the close evicts the entry, also the one it has opened. -/
theorem CompletesClose.evicts (hidle : orchestrator.config.idleTimeout = none)
    {closing : FrameInput} (h : orchestrator.CompletesClose closing) :
    (orchestrator.processFrame crypto vm closing).1.connections.lookup closing.key = none := by
  have hclosed : (handleFrame crypto vm orchestrator.config
      (orchestrator.connections.lookup closing.key) orchestrator.shared
      closing).1.info.isClosed = true := by
    rw [info_handleFrame, info_noteFlags, direction, ConnectionMeta.isClosed]
    rcases h with hrst | ⟨hfin, hother⟩
    · rw [hrst, Bool.or_true, Bool.true_or]
    · -- the other direction's FIN was there, and the frame's own joins it
      split at hother
      · rename_i hclient
        simp [hfin, hother, hclient]
      · rename_i hclient
        simp [hfin, hother, hclient]
  rw [lookup_processFrame_of_no_idle hidle, if_pos rfl]
  exact if_pos hclosed

/-- **A frame of a pair without an entry.**  It leaves none exactly if it carries RST. -/
theorem lookup_eq_none_iff_rst (hidle : orchestrator.config.idleTimeout = none)
    {input : FrameInput} (hnone : orchestrator.connections.lookup input.key = none) :
    (orchestrator.processFrame crypto vm input).1.connections.lookup input.key = none ↔
      input.frame.flags.rst = true := by
  rw [lookup_processFrame_of_no_idle hidle, if_pos rfl, hnone]
  simp only
  rw [isClosed_handleFrame_none]
  split
  · rename_i hrst
    exact iff_of_true rfl hrst
  · rename_i hrst
    exact iff_of_false nofun hrst

/-- A frame of another pair changes nothing. -/
theorem lookup_processFrame_of_ne (hidle : orchestrator.config.idleTimeout = none)
    {input : FrameInput} {key : ConnKey} (hkey : key ≠ input.key) :
    (orchestrator.processFrame crypto vm input).1.connections.lookup key =
      orchestrator.connections.lookup key := by
  rw [lookup_processFrame_of_no_idle hidle, if_neg hkey]

/-! ## Runs -/

theorem FollowsClose.shorten {before : List FrameInput} {closing : FrameInput}
    {first second : List FrameInput}
    (h : FollowsClose crypto vm start before closing (first ++ second)) :
    FollowsClose crypto vm start before closing first :=
  ⟨h.closes, fun input hinput => h.noSyn input (List.mem_append_left _ hinput)⟩

/-- If only resets follow, nothing is left at any point. -/
theorem OnlyResetsFollow.nothingLeft (hidle : start.config.idleTimeout = none)
    {inputs : List FrameInput} (h : OnlyResetsFollow crypto vm start inputs) :
    NothingLeft crypto vm start inputs := by
  intro before closing later rest hinputs hfollows
  induction later using List.reverseRecOn generalizing rest with
  | nil =>
      rw [after_concat]
      apply hfollows.closes.evicts
      rw [config_after]
      exact hidle
  | append_singleton later input ih =>
      have hsplit : inputs = before ++ closing :: later ++ input :: rest := by
        rw [hinputs]
        simp
      have hnone := ih (input :: rest) hsplit hfollows.shorten
      have hidle' : (after crypto vm start (before ++ closing :: later)).config.idleTimeout =
          none := by
        rw [config_after]
        exact hidle
      rw [← List.cons_append, ← List.append_assoc, after_concat]
      by_cases hkey : closing.key = input.key
      · rw [hkey] at hnone ⊢
        refine (lookup_eq_none_iff_rst hidle' hnone).mpr ?_
        exact h before closing later input rest (by rw [hsplit]; simp) hfollows hkey.symm
      · rw [lookup_processFrame_of_ne hidle' hkey]
        exact hnone

/-- If nothing is left at any point, only resets follow. -/
theorem NothingLeft.onlyResetsFollow (hidle : start.config.idleTimeout = none)
    {inputs : List FrameInput} (h : NothingLeft crypto vm start inputs) :
    OnlyResetsFollow crypto vm start inputs := by
  intro before closing later input rest hinputs hfollows hkey
  have hbefore := h before closing later (input :: rest) (by rw [hinputs]; simp) hfollows.shorten
  have hafter := h before closing (later ++ [input]) rest (by rw [hinputs]; simp) hfollows
  rw [← List.cons_append, ← List.append_assoc, after_concat] at hafter
  rw [← hkey] at hbefore hafter
  refine (lookup_eq_none_iff_rst ?_ hbefore).mp hafter
  rw [config_after]
  exact hidle

/-- A pair without frames has no entry. -/
theorem lookup_after_of_untouched (hidle : start.config.idleTimeout = none) {key : ConnKey}
    (hstart : start.connections.lookup key = none) {inputs : List FrameInput}
    (huntouched : ∀ input ∈ inputs, input.key ≠ key) :
    (after crypto vm start inputs).connections.lookup key = none := by
  induction inputs using List.reverseRecOn with
  | nil => exact hstart
  | append_singleton inputs input ih =>
      have hlast := huntouched input (List.mem_append_right _ (List.mem_singleton_self input))
      rw [after_concat, lookup_processFrame_of_ne (by rw [config_after]; exact hidle) hlast.symm]
      exact ih fun other hother => huntouched other (List.mem_append_left _ hother)

theorem activeConnections_eq_zero (h : ∀ key, orchestrator.connections.lookup key = none) :
    orchestrator.activeConnections = 0 := by
  unfold activeConnections
  rw [List.length_eq_zero_iff, List.eq_nil_iff_forall_not_mem]
  rintro ⟨key, conn⟩ hentry
  have hfound := AList.mem_lookup_iff.mpr hentry
  rw [h key] at hfound
  cases hfound

/-- **What a close leaves behind.**  In a run without an idle timeout nothing of a
closed connection is left, after any of the frames that follow its close, if and only
if all of these carry RST; and then a run that closed every connection it opened ends
with none. -/
theorem nothing_left_iff (crypto : Crypto) (vm : LuaVm σ) (source : KeylogSource) (lua : σ)
    (config : OrchestratorConfig) (hidle : config.idleTimeout = none) (sweepNow gcNow : Instant)
    (inputs : List FrameInput) :
    let start := new source lua config sweepNow gcNow
    (NothingLeft crypto vm start inputs ↔ OnlyResetsFollow crypto vm start inputs) ∧
      (OnlyResetsFollow crypto vm start inputs → AllClosed crypto vm start inputs →
        (after crypto vm start inputs).activeConnections = 0) := by
  intro start
  have hstart : start.config.idleTimeout = none := hidle
  refine ⟨⟨fun h => h.onlyResetsFollow hstart, fun h => h.nothingLeft hstart⟩, ?_⟩
  intro hresets hclosed
  apply activeConnections_eq_zero
  intro key
  by_cases htouched : ∃ input ∈ inputs, input.key = key
  · obtain ⟨input, hinput, rfl⟩ := htouched
    obtain ⟨before, closing, later, hsplit, hkey, hfollows⟩ := hclosed input hinput
    have hnone := hresets.nothingLeft hstart before closing later [] (by rw [hsplit]; simp)
      hfollows
    rw [← hkey, hsplit]
    exact hnone
  · apply lookup_after_of_untouched hstart (AList.lookup_empty key)
    exact fun input hinput hkey => htouched ⟨input, hinput, hkey⟩

open Capture

/-- A handshake, and FIN from both sides. -/
def closedConnection : List FrameInput :=
  [segment client server 0 999 syn [] 0, segment server client 1 4999 synAck [] 1,
    segment client server 2 1000 finAck [] 2, segment server client 3 5000 finAck [] 3]

/-- The client's last ACK, which completes the closing handshake. -/
def finalAck : FrameInput := segment client server 4 1001 ack [] 4

theorem followsClose_finalAck :
    FollowsClose RecordedSession.recording.crypto plainVm (new source () .default 0 0)
      (closedConnection.take 3) (segment server client 3 5000 finAck [] 3) [finalAck] where
  closes := by decide +kernel
  noSyn := by
    intro input hinput _
    rw [List.mem_singleton.mp hinput]
    rfl

/-- A run that ends with the close leaves nothing. -/
theorem nothing_left_after_reset :
    let start := new source () .default 0 0
    let inputs := [segment client server 0 999 syn [] 0,
      segment server client 1 4999 ⟨false, false, true, false, false⟩ [] 1]
    (NothingLeft RecordedSession.recording.crypto plainVm start inputs ↔
        OnlyResetsFollow RecordedSession.recording.crypto plainVm start inputs) ∧
      (OnlyResetsFollow RecordedSession.recording.crypto plainVm start inputs →
        AllClosed RecordedSession.recording.crypto plainVm start inputs →
        (after RecordedSession.recording.crypto plainVm start inputs).activeConnections = 0) :=
  nothing_left_iff RecordedSession.recording.crypto plainVm source () .default rfl 0 0 _

/-- The final ACK of an ordinary close opens an entry again, and it stays. -/
theorem final_ack_leaves_entry :
    ¬ ∀ (crypto : Crypto) (vm : LuaVm Unit) (source : KeylogSource) (config : OrchestratorConfig)
      (sweepNow gcNow : Instant) (inputs : List FrameInput), config.idleTimeout = none →
      let start := new source () config sweepNow gcNow
      NothingLeft crypto vm start inputs ∧
        (AllClosed crypto vm start inputs →
          (after crypto vm start inputs).activeConnections = 0) := by
  intro hclaim
  have hnone := (hclaim RecordedSession.recording.crypto plainVm source .default 0 0
    (closedConnection ++ [finalAck]) rfl).1 (closedConnection.take 3)
    (segment server client 3 5000 finAck [] 3) [finalAck] [] rfl followsClose_finalAck
  have hopen : ((after RecordedSession.recording.crypto plainVm (new source () .default 0 0)
      (closedConnection ++ [finalAck])).connections.lookup finalAck.key).isSome = true := by
    decide +kernel
  rw [show finalAck.key = (segment server client 3 5000 finAck [] 3).key by decide +kernel] at hopen
  rw [show closedConnection ++ [finalAck] = closedConnection.take 3 ++
    segment server client 3 5000 finAck [] 3 :: [finalAck] from rfl, hnone] at hopen
  cases hopen

end Orchestrator

end Tlscap
