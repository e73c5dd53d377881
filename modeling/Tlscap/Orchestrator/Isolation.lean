import Tlscap.Library.Run
import Tlscap.Orchestrator.Capture
import Tlscap.Orchestrator.Drain
import Tlscap.Orchestrator.Entries

/-!
# Connections do not interfere

A frame reads and writes the entry of its own endpoint pair.  What it shares with the frames
of other pairs is the keylog reader, the Lua heap and the counters; with a steady keylog and
dissectors that compute a function, neither its messages nor its entry depend on these
(`handleFrame_decodes`).

So two programs that have the same entry for a pair show the same for its next frame, and have
the same entry behind it (`processFrame_eq`).  Of a run and the run of one pair's frames alone
this is a simulation that skips the other frames, each of which has another key and leaves the
entry (`Orchestrator.connections_isolated`).
-/

namespace Tlscap

/-! ## One frame -/

namespace Orchestrator

variable {σ : Type} (crypto : Crypto) {vm : LuaVm σ} {dissector : Dissector} {hasPath : Bool}
  {keylog : Keylog}

variable {config : OrchestratorConfig} {orchestrator orchestrator' : Orchestrator σ}
  {input : FrameInput}

/-- What a frame does to its connection, and its messages, depend on its entry only. -/
theorem handleFrame_eq (config : OrchestratorConfig) (hpure : vm.IsPure dissector)
    {shared shared' : Shared σ}
    (hreads : shared.keylog.Reads hasPath keylog) (hreads' : shared'.keylog.Reads hasPath keylog)
    (hsteady : ∀ index, (input.keylogReadings index).Steady crypto.hexDecode hasPath keylog)
    (found : Option Connection) :
    (handleFrame crypto vm config found shared input).1 =
        (handleFrame crypto vm config found shared' input).1 ∧
      (handleFrame crypto vm config found shared input).2.2 =
        (handleFrame crypto vm config found shared' input).2.2 := by
  have hfirst := handleFrame_decodes crypto config hpure hreads hsteady found
  have hsecond := handleFrame_decodes crypto config hpure hreads' hsteady found
  exact ⟨hfirst.conn.trans hsecond.conn.symm, hfirst.messages.trans hsecond.messages.symm⟩

/-- **One frame in two states.**  With the same entry for its pair it yields the same
and leaves the same entry. -/
theorem processFrame_eq (hpure : vm.IsPure dissector) (hidle : config.idleTimeout = none)
    (h : orchestrator.Steady config hasPath keylog)
    (h' : orchestrator'.Steady config hasPath keylog)
    (hsteady : ∀ index, (input.keylogReadings index).Steady crypto.hexDecode hasPath keylog)
    (hentry : orchestrator.connections.lookup input.key =
      orchestrator'.connections.lookup input.key) :
    (orchestrator.processFrame crypto vm input).2 =
        (orchestrator'.processFrame crypto vm input).2 ∧
      (orchestrator.processFrame crypto vm input).1.connections.lookup input.key =
        (orchestrator'.processFrame crypto vm input).1.connections.lookup input.key := by
  obtain ⟨hconn, hmessages⟩ := handleFrame_eq crypto config hpure h.reads h'.reads hsteady
    (orchestrator'.connections.lookup input.key)
  refine ⟨?_, ?_⟩
  · simp only [Orchestrator.processFrame]
    rw [hentry, h.config_eq, h'.config_eq, hmessages]
  · rw [lookup_processFrame_of_no_idle (by rw [h.config_eq]; exact hidle),
      lookup_processFrame_of_no_idle (by rw [h'.config_eq]; exact hidle), if_pos rfl, if_pos rfl,
      hentry, h.config_eq, h'.config_eq, hconn]

/-- **Connections do not interfere.**  With a steady keylog, dissectors that compute a
function and no idle timeout, what the frames between two endpoints yield in a run,
and the entry after each of them, is what they yield and leave in the run of these
frames alone; and the key of an entry names the unordered pair of its endpoints. -/
theorem connections_isolated (hpure : vm.IsPure dissector) (source : KeylogSource) (lua : σ)
    (config : OrchestratorConfig) (hidle : config.idleTimeout = none) (sweepNow gcNow : Instant)
    (inputs : List FrameInput)
    (hsteady : ∀ input ∈ inputs, ∀ index,
      (input.keylogReadings index).Steady crypto.hexDecode source.hasPath source.current)
    (a b : Endpoint) :
    let observed := Machine.observe (processFrame crypto vm) (FrameInput.isBetween · a b)
      (fun orchestrator => orchestrator.connections.lookup (connKey a b))
      (new source lua config sweepNow gcNow)
    observed inputs = observed (inputs.filter (FrameInput.isBetween · a b)) ∧
      ∀ c d, connKey c d = connKey a b ↔ c = a ∧ d = b ∨ c = b ∧ d = a := by
  refine ⟨?_, fun c d => connKey_eq_iff⟩
  have hnew := steady_new source lua config sweepNow gcNow
  apply Machine.observe_filter
    (P := fun orchestrator => orchestrator.Steady config source.hasPath source.current)
    (Q := fun input => ∀ index,
      (input.keylogReadings index).Steady crypto.hexDecode source.hasPath source.current)
  · intro orchestrator input h hinput
    exact h.processFrame hpure hinput
  · intro orchestrator input h hinput hother
    -- a frame between other endpoints has another key
    have hkey : connKey a b ≠ input.key := by
      intro hkey
      rw [FrameInput.isBetween_iff.mpr hkey.symm] at hother
      cases hother
    rw [lookup_processFrame_of_no_idle (by rw [h.config_eq]; exact hidle), if_neg hkey]
  · intro orchestrator orchestrator' input h h' hinput hown hentry
    rw [← FrameInput.isBetween_iff.mp hown] at hentry ⊢
    exact processFrame_eq crypto hpure hidle h h' hinput hentry
  · exact hsteady
  · exact hnew
  · exact hnew
  · rfl

open Capture

/-- Two clients with the same session, frame by frame in turn. -/
def interleaved : List FrameInput :=
  [segment client server 0 999 syn [] 0, segment otherClient server 1 4999 syn [] 1,
    segment client server 2 1000 ack hello 2, segment otherClient server 3 5000 ack hello 3,
    segment otherClient server 4 5043 ack Capture.request 4,
    segment client server 5 1043 ack Capture.request 5]

/-- The first client's request is decrypted as if it were alone. -/
theorem connections_isolated_interleaved :
    let observed := Machine.observe (processFrame RecordedSession.recording.crypto plainVm)
      (FrameInput.isBetween · server client)
      (fun orchestrator => orchestrator.connections.lookup (connKey server client))
      (new source () .default 0 0)
    observed interleaved = observed (interleaved.filter (FrameInput.isBetween · server client)) ∧
      (observed interleaved).map (fun seen => seen.1.2.map DecodedMessage.tlsAppData) =
        [[], [], [[0x47, 0x45, 0x54]]] := by
  have hsteady : ∀ input ∈ interleaved, ∀ index,
      (input.keylogReadings index).Steady Recording.hexDecode source.hasPath source.current :=
    steady_of_noReadings rfl _ _ _
  refine ⟨(connections_isolated RecordedSession.recording.crypto plainVm_isPure
    source () .default rfl 0 0 interleaved hsteady server client).1, ?_⟩
  decide +kernel

end Orchestrator

end Tlscap
