import Tlscap.Keylog.Model

/-!
# A keylog that does not change

The reader is steady if it was opened on parsed contents, or if every reread of
its file parses to the same keylog.  Polling it then makes no difference.
-/

namespace Tlscap

/-- Rereading the file yields this keylog again, where a reread succeeds. -/
def KeylogReadings.Yield (readings : KeylogReadings) (hexDecode : Text → Option Bytes)
    (keylog : Keylog) : Prop :=
  ∀ text, readings.pollReload.contents = some text ∨ readings.missReload.contents = some text →
    Keylog.parse hexDecode text = keylog

/-- The reader can only see this keylog: there is no file, or it has not changed. -/
def KeylogReadings.Steady (readings : KeylogReadings) (hexDecode : Text → Option Bytes)
    (hasPath : Bool) (keylog : Keylog) : Prop :=
  hasPath = true → readings.Yield hexDecode keylog

namespace KeylogSource

/-- The reader has this keylog. -/
structure Reads (source : KeylogSource) (hasPath : Bool) (keylog : Keylog) : Prop where
  hasPath_eq : source.hasPath = hasPath
  current_eq : source.current = keylog

variable {hexDecode : Text → Option Bytes} {source : KeylogSource} {hasPath : Bool}
  {keylog : Keylog} {readings : KeylogReadings}

theorem Reads.reloadIfChanged (h : source.Reads hasPath keylog) {readings : ReloadReadings}
    (hyield : hasPath = true → ∀ text, readings.contents = some text →
      Keylog.parse hexDecode text = keylog) :
    (source.reloadIfChanged hexDecode readings).Reads hasPath keylog := by
  unfold KeylogSource.reloadIfChanged
  split
  · rename_i hpath
    rw [h.hasPath_eq] at hpath
    cases hcontents : readings.contents with
    | none => exact ⟨h.hasPath_eq, h.current_eq⟩
    | some text => exact ⟨h.hasPath_eq, hyield hpath text hcontents⟩
  · exact h

theorem Reads.poll (h : source.Reads hasPath keylog)
    (hsteady : readings.Steady hexDecode hasPath keylog) :
    (source.poll hexDecode readings.pollClock readings.pollReload).Reads hasPath keylog := by
  unfold KeylogSource.poll
  split
  · apply h.reloadIfChanged
    intro hpath text htext
    exact hsteady hpath text (.inl htext)
  · exact h

theorem Reads.pollAfterMiss (h : source.Reads hasPath keylog)
    (hsteady : readings.Steady hexDecode hasPath keylog) :
    (source.pollAfterMiss hexDecode readings.missSignature readings.missReload).Reads hasPath
      keylog := by
  unfold KeylogSource.pollAfterMiss
  split
  · apply h.reloadIfChanged
    intro hpath text htext
    exact hsteady hpath text (.inr htext)
  · exact h

end KeylogSource

end Tlscap
