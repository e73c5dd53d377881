import Tlscap.Orchestrator.Lifecycle
import Tlscap.Orchestrator.Trace

/-!
# Eviction at the close

Without an idle timeout, an entry goes exactly with the frame that closes its connection: RST,
or FIN after a FIN of the other endpoint since the entry was created
(`Orchestrator.eviction_at_close`).

## Strategy

* **The marks of the lifecycle are the history** of the entry (`marks_since`).  The endpoint
  that created it stays its client, so a FIN is marked on its own side for as long as the
  entry lives; a frame of another pair leaves the marks.
* **The frame an entry goes with** closes its connection as it is marked then, which is
  closing its history (`isClosed_handleFrame_iff`).  The frame that creates the entry has no
  history, so only RST takes it away at once.
* **The balance.**  A call creates an entry or finds one, and keeps it or counts an eviction
  (`entries_store`).  So after a run the entries that were created are those that are tracked
  and those that were evicted (`entries_run`).
-/

namespace Tlscap

/-- Two frames of a pair with different senders: any other frame of it has one of them. -/
theorem FrameInput.src_eq_or {input first second : FrameInput} (hfirst : input.key = first.key)
    (hsecond : input.key = second.key) (hne : first.src ≠ second.src) :
    input.src = first.src ∨ input.src = second.src := by
  rcases connKey_eq_iff.mp hfirst with ⟨hsrc, -⟩ | ⟨-, hdst⟩
  · exact .inl hsrc
  · rcases connKey_eq_iff.mp hsecond with ⟨hsrc, -⟩ | ⟨-, hdst'⟩
    · exact .inr hsrc
    · exact absurd (hdst.symm.trans hdst') hne

/-- The frame closes a connection with this history: it carries RST, or FIN after a FIN of
the other endpoint. -/
def FrameInput.Closes (input : FrameInput) (history : List FrameInput) : Prop :=
  input.frame.flags.rst = true ∨ input.frame.flags.fin = true ∧
    ∃ earlier ∈ history, earlier.key = input.key ∧ earlier.frame.flags.fin = true ∧
      earlier.src ≠ input.src

namespace Orchestrator

variable {σ : Type} (crypto : Crypto) (vm : LuaVm σ)

/-- `opening` created the entry of its pair, and the pair has been tracked since. -/
structure TrackedSince (start : Orchestrator σ) (before : List FrameInput)
    (opening : FrameInput) (since : List FrameInput) : Prop where
  untracked : (after crypto vm start before).connections.lookup opening.key = none
  tracked : Machine.Always (processFrame crypto vm)
    (fun orchestrator => (orchestrator.connections.lookup opening.key).isSome = true)
    (after crypto vm start (before ++ [opening])) since

/-- The frame meets no entry of its pair, so it creates one. -/
def opensEntry (orchestrator : Orchestrator σ) (input : FrameInput) : List FrameInput :=
  if (orchestrator.connections.lookup input.key).isNone then [input] else []

/-- The frames of a run that created an entry. -/
def openings (start : Orchestrator σ) (inputs : List FrameInput) : List FrameInput :=
  Machine.collect (processFrame crypto vm) opensEntry start inputs

variable {crypto vm} {start orchestrator : Orchestrator σ} {before since : List FrameInput}
  {opening : FrameInput}

/-! ## The history of an entry -/

theorem TrackedSince.shorten {input : FrameInput}
    (h : TrackedSince crypto vm start before opening (since ++ [input])) :
    TrackedSince crypto vm start before opening since :=
  ⟨h.untracked, (Machine.always_concat.mp h.tracked).1⟩

theorem TrackedSince.entry (h : TrackedSince crypto vm start before opening since) :
    ((after crypto vm start (before ++ opening :: since)).connections.lookup
      opening.key).isSome = true := by
  rw [after_cons]
  exact h.tracked.last

/-- Every entry was created by some frame and has been tracked since. -/
theorem exists_trackedSince {key : ConnKey} (hstart : start.connections.lookup key = none)
    (inputs : List FrameInput)
    (hentry : ((after crypto vm start inputs).connections.lookup key).isSome = true) :
    ∃ before opening since, inputs = before ++ opening :: since ∧ opening.key = key ∧
      TrackedSince crypto vm start before opening since := by
  -- the last frame that found the pair untracked is the one that created the entry
  induction inputs using List.reverseRecOn with
  | nil =>
      change (start.connections.lookup key).isSome = true at hentry
      rw [hstart] at hentry
      cases hentry
  | append_singleton inputs input ih =>
      cases hbefore : (after crypto vm start inputs).connections.lookup key with
      | none =>
          have hkey : input.key = key := by
            rw [after_concat] at hentry
            obtain ⟨conn, hconn⟩ := Option.isSome_iff_exists.mp hentry
            rcases lookup_processFrame hconn with ⟨hold, -⟩ | ⟨hsame, -⟩
            · rw [hbefore] at hold
              cases hold
            · exact hsame.symm
          refine ⟨inputs, input, [], rfl, hkey, hkey ▸ hbefore, ?_⟩
          rw [hkey]
          exact hentry
      | some conn =>
          obtain ⟨before, opening, since, rfl, hkey, hsince⟩ := ih (by rw [hbefore]; rfl)
          refine ⟨before, opening, since ++ [input], by simp, hkey, hsince.untracked,
            Machine.always_concat.mpr ⟨hsince.tracked, ?_⟩⟩
          rw [List.append_assoc, List.cons_append, after_cons] at hentry
          rw [hkey]
          exact hentry

/-- **The marks of an entry** are the FINs since its creation, by their sender. -/
theorem marks_since (h : TrackedSince crypto vm start before opening since) :
    ∃ conn, (after crypto vm start (before ++ opening :: since)).connections.lookup
        opening.key = some conn ∧ conn.clientEndpoint = opening.src ∧
      (conn.info.finSeenC2s = true ↔ ∃ earlier ∈ opening :: since,
        earlier.key = opening.key ∧ earlier.frame.flags.fin = true ∧
          earlier.src = opening.src) ∧
      (conn.info.finSeenS2c = true ↔ ∃ earlier ∈ opening :: since,
        earlier.key = opening.key ∧ earlier.frame.flags.fin = true ∧
          earlier.src ≠ opening.src) := by
  induction since using List.reverseRecOn with
  | nil =>
      obtain ⟨conn, hconn⟩ := Option.isSome_iff_exists.mp h.entry
      refine ⟨conn, hconn, ?_⟩
      rw [after_concat] at hconn
      rcases lookup_processFrame hconn with ⟨-, hother⟩ | ⟨-, -, rfl⟩
      · exact absurd rfl hother
      have hclient : ∀ config, (openConnection config none opening).clientEndpoint =
          opening.src := by
        intro config
        unfold openConnection
        dsimp only
        split <;> rfl
      have hdirection : ∀ config, direction config none opening = true := by
        intro config
        rw [direction, hclient]
        exact decide_eq_true rfl
      rw [h.untracked, clientEndpoint_handleFrame, info_handleFrame, info_noteFlags,
        info_openConnection_none, hclient, hdirection]
      simp
  | append_singleton since input ih =>
      obtain ⟨conn, hconn, hclient, hc2s, hs2c⟩ := ih h.shorten
      obtain ⟨last, hlast⟩ := Option.isSome_iff_exists.mp h.entry
      refine ⟨last, hlast, ?_⟩
      rw [← List.cons_append, ← List.append_assoc, after_concat] at hlast
      rw [← List.cons_append]
      simp only [List.mem_append, List.mem_singleton, or_and_right, exists_or,
        exists_eq_left]
      rw [← hc2s, ← hs2c]
      -- a frame of another connection leaves the marks; one of its own adds its FIN
      rcases lookup_processFrame hlast with ⟨hsame, hother⟩ | ⟨hkey, -, rfl⟩
      · obtain rfl := Option.some.inj (hsame.symm.trans hconn)
        have hne : ¬ input.key = opening.key := fun hkey => hother hkey.symm
        simp [hclient, hne]
      · rw [← hkey, hconn, clientEndpoint_handleFrame, info_handleFrame, info_noteFlags]
        have hdirection : ∀ config, direction config (some conn) input =
            decide (input.src = opening.src) := by
          intro config
          rw [direction, ← hclient]
          rfl
        rw [hdirection]
        refine ⟨hclient, ?_, ?_⟩ <;> simp [openConnection]

/-! ## The frame an entry goes with -/

/-- A frame closes a tracked connection exactly if it closes its history. -/
theorem isClosed_handleFrame_iff (h : TrackedSince crypto vm start before opening since)
    (hlive : start.Live) {input : FrameInput} (hkey : input.key = opening.key)
    (config : OrchestratorConfig) (shared : Shared σ) :
    (handleFrame crypto vm config
        ((after crypto vm start (before ++ opening :: since)).connections.lookup opening.key)
        shared input).1.info.isClosed = true ↔
      input.Closes (opening :: since) := by
  obtain ⟨conn, hconn, hclient, hc2s, hs2c⟩ := marks_since h
  have hopen : conn.info.isClosed = false := hlive.run crypto vm _ _ _ hconn
  have hfound := hkey ▸ hconn
  rw [hconn, ← completesClose_iff crypto vm config shared hfound hopen,
    completesClose_of_found hfound, FrameInput.Closes]
  refine or_congr_right (and_congr_right fun _ => ?_)
  by_cases hsrc : input.src = opening.src
  · -- a frame of the client: the server's FINs count
    rw [if_pos (hsrc.trans hclient.symm), hs2c, hkey, hsrc]
  · -- a frame of the server: the client's FINs count
    rw [if_neg fun hsame => hsrc (hsame.trans hclient), hc2s, hkey]
    refine exists_congr fun earlier => and_congr_right fun _ => and_congr_right fun hpair =>
      and_congr_right fun _ => ⟨fun hsame => hsame ▸ Ne.symm hsrc, fun hne => ?_⟩
    have hends := FrameInput.src_eq_or (hpair.trans hkey.symm) hpair hsrc
    exact hends.resolve_left hne

/-- **An entry goes exactly with the frame that closes its history.** -/
theorem lookup_eq_none_iff_closes (hidle : start.config.idleTimeout = none) (hlive : start.Live)
    (h : TrackedSince crypto vm start before opening since) (input : FrameInput) :
    (after crypto vm start (before ++ opening :: since ++ [input])).connections.lookup
        opening.key = none ↔
      input.key = opening.key ∧ input.Closes (opening :: since) := by
  have hidle' : (after crypto vm start (before ++ opening :: since)).config.idleTimeout =
      none := by
    rw [config_after]
    exact hidle
  rw [after_concat]
  by_cases hkey : input.key = opening.key
  · rw [← isClosed_handleFrame_iff h hlive hkey
      (after crypto vm start (before ++ opening :: since)).config
      (after crypto vm start (before ++ opening :: since)).shared,
      lookup_processFrame_of_no_idle hidle', if_pos hkey.symm, hkey]
    dsimp only
    split
    · rename_i hclosed
      exact iff_of_true rfl ⟨rfl, hclosed⟩
    · rename_i hopen
      exact iff_of_false (Option.some_ne_none _) fun hcloses => hopen hcloses.2
  · rw [lookup_processFrame_of_ne hidle' (Ne.symm hkey)]
    obtain ⟨conn, hconn⟩ := Option.isSome_iff_exists.mp h.entry
    rw [hconn]
    exact iff_of_false (Option.some_ne_none conn) fun hcloses => hkey hcloses.1

/-! ## The balance of the entries -/

/-- Handling a frame leaves the number of evicted connections alone. -/
theorem evictedConnections_handleFrame (config : OrchestratorConfig) (found : Option Connection)
    (shared : Shared σ) (input : FrameInput) :
    (handleFrame crypto vm config found shared input).2.1.counters.evictedConnections =
      shared.counters.evictedConnections := by
  obtain ⟨hdrains, -, -⟩ := handleFrame_drains crypto vm config found shared input
  have hreceive : (shared.count (receive config found input).2).counters.evictedConnections =
      shared.counters.evictedConnections := by
    unfold receive receivePayload
    split
    · split <;> rfl
    · rfl
  apply (hdrains.invariant (P := fun _ after => after.counters.evictedConnections =
    shared.counters.evictedConnections) _ hreceive).1
  intro conn before step htakes hkept
  rw [step.evictedConnections_after crypto vm config, htakes.shared]
  exact hkept

/-- Storing a connection adds an entry where there was none, or counts an eviction. -/
theorem entries_store (orchestrator : Orchestrator σ) (key : ConnKey) (conn : Connection)
    (shared : Shared σ) :
    (orchestrator.store key conn shared).activeConnections +
        (orchestrator.store key conn shared).shared.counters.evictedConnections =
      orchestrator.activeConnections + shared.counters.evictedConnections +
        if (orchestrator.connections.lookup key).isNone then 1 else 0 := by
  have herased : (orchestrator.connections.erase key).entries.length + 1 =
      orchestrator.connections.entries.length +
        if (orchestrator.connections.lookup key).isNone then 1 else 0 := by
    cases hfound : orchestrator.connections.lookup key with
    | none => rw [AList.erase_of_lookup_eq_none hfound]; rfl
    | some conn => exact AList.length_erase_of_lookup_eq_some hfound
  unfold store activeConnections
  split
  · calc (orchestrator.connections.erase key).entries.length +
          (shared.counters.evictedConnections + 1)
        = (orchestrator.connections.erase key).entries.length + 1 +
            shared.counters.evictedConnections := by omega
      _ = _ := by rw [herased, Nat.add_right_comm]
  · calc (orchestrator.connections.insert key conn).entries.length +
          shared.counters.evictedConnections
        = (orchestrator.connections.erase key).entries.length + 1 +
            shared.counters.evictedConnections := by rw [AList.length_insert]
      _ = _ := by rw [herased, Nat.add_right_comm]

/-- **One call**: the entry it creates is tracked or evicted after it. -/
theorem entries_processFrame (hidle : orchestrator.config.idleTimeout = none)
    (input : FrameInput) :
    (orchestrator.processFrame crypto vm input).1.activeConnections +
        (orchestrator.processFrame crypto vm input).1.shared.counters.evictedConnections =
      orchestrator.activeConnections + orchestrator.shared.counters.evictedConnections +
        (orchestrator.opensEntry input).length := by
  have hopens : (orchestrator.opensEntry input).length =
      if (orchestrator.connections.lookup input.key).isNone then 1 else 0 := by
    unfold opensEntry
    split <;> rfl
  rw [processFrame_of_no_idle hidle, counters_maybeGcLua, activeConnections,
    connections_maybeGcLua, hopens]
  refine (entries_store _ _ _ _).trans ?_
  rw [evictedConnections_handleFrame]

theorem openings_concat (start : Orchestrator σ) (inputs : List FrameInput)
    (input : FrameInput) :
    openings crypto vm start (inputs ++ [input]) =
      openings crypto vm start inputs ++ (after crypto vm start inputs).opensEntry input :=
  Machine.collect_concat start inputs input

/-- **A run**: every entry it created is tracked or evicted after it. -/
theorem entries_run (hidle : start.config.idleTimeout = none) (inputs : List FrameInput) :
    (after crypto vm start inputs).activeConnections +
        (after crypto vm start inputs).shared.counters.evictedConnections =
      start.activeConnections + start.shared.counters.evictedConnections +
        (openings crypto vm start inputs).length := by
  induction inputs using List.reverseRecOn with
  | nil => rfl
  | append_singleton inputs input ih =>
      have hidle' : (after crypto vm start inputs).config.idleTimeout = none := by
        rw [config_after]
        exact hidle
      rw [after_concat, entries_processFrame hidle', ih, openings_concat, List.length_append,
        Nat.add_assoc]

/-! ## Eviction -/

/-- **Eviction happens exactly at the close.**  After a run without an idle timeout no
tracked connection is closed.  The frame that creates an entry loses it again exactly if it
carries RST, and a later one exactly if it closes the history of the entry; the history of
every entry reaches back to the frame that created it.  Frames of a half-closed connection
do what they would do had no FIN been seen.  The entries created are those still tracked and
those evicted. -/
theorem eviction_at_close (crypto : Crypto) (vm : LuaVm σ) (source : KeylogSource) (lua : σ)
    (config : OrchestratorConfig) (hidle : config.idleTimeout = none) (sweepNow gcNow : Instant)
    (inputs : List FrameInput) :
    let start := new source lua config sweepNow gcNow
    (after crypto vm start inputs).Live ∧
      (∀ input, (after crypto vm start inputs).connections.lookup input.key = none →
        ((after crypto vm start (inputs ++ [input])).connections.lookup input.key = none ↔
          input.frame.flags.rst = true)) ∧
      (∀ key, ((after crypto vm start inputs).connections.lookup key).isSome = true →
        ∃ before opening since, inputs = before ++ opening :: since ∧ opening.key = key ∧
          TrackedSince crypto vm start before opening since ∧
          ∀ input, (after crypto vm start (inputs ++ [input])).connections.lookup key = none ↔
            input.key = key ∧ input.Closes (opening :: since)) ∧
      (∀ key later, TrackedThroughout crypto vm key (after crypto vm start inputs) later →
        (Machine.run (processFrame crypto vm) ((after crypto vm start inputs).unfinished key)
            later).2 =
          (Machine.run (processFrame crypto vm) (after crypto vm start inputs) later).2) ∧
      (openings crypto vm start inputs).length =
        (after crypto vm start inputs).activeConnections +
          (after crypto vm start inputs).shared.counters.evictedConnections := by
  intro start
  have hstart : start.config.idleTimeout = none := hidle
  have hidle' : (after crypto vm start inputs).config.idleTimeout = none := by
    rw [config_after]
    exact hidle
  have hlive : start.Live := live_new source lua config sweepNow gcNow
  refine ⟨hlive.run crypto vm inputs, fun input hnone => ?_, fun key hentry => ?_,
    fun key later htracked => run_unfinished hidle' htracked, ?_⟩
  · rw [after_concat]
    exact lookup_eq_none_iff_rst hidle' hnone
  · obtain ⟨before, opening, since, rfl, rfl, hsince⟩ :=
      exists_trackedSince (AList.lookup_empty key) inputs hentry
    exact ⟨before, opening, since, rfl, rfl, hsince,
      fun input => lookup_eq_none_iff_closes hstart hlive hsince input⟩
  · rw [entries_run hstart inputs]
    exact (Nat.zero_add _).symm

open Capture

/-- The handshake and the final ACK create an entry each, the second one after the close. -/
theorem eviction_of_closed_connection :
    (after RecordedSession.recording.crypto plainVm (new source () .default 0 0)
        (closedConnection ++ [finalAck])).Live ∧
      (openings RecordedSession.recording.crypto plainVm (new source () .default 0 0)
        (closedConnection ++ [finalAck])).length = 2 ∧
      (openings RecordedSession.recording.crypto plainVm (new source () .default 0 0)
        (closedConnection ++ [finalAck])).length =
        (after RecordedSession.recording.crypto plainVm (new source () .default 0 0)
          (closedConnection ++ [finalAck])).activeConnections +
        (after RecordedSession.recording.crypto plainVm (new source () .default 0 0)
          (closedConnection ++ [finalAck])).shared.counters.evictedConnections := by
  have hevicted := eviction_at_close RecordedSession.recording.crypto plainVm source () .default
    rfl 0 0 (closedConnection ++ [finalAck])
  dsimp only at hevicted
  obtain ⟨hlive, -, -, -, hbalance⟩ := hevicted
  exact ⟨hlive, by decide +kernel, hbalance⟩

end Orchestrator

end Tlscap
