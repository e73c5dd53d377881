import Tlscap.Library.Run
import Tlscap.Reassembly.Invariant

/-!
# Runs of the reassembler

The calls a client makes, in any order and at any clock readings.  `peek` changes
nothing and is left out.  `take_bytes` panics when it is asked for more bytes than
there are; the state is then left as it was.
-/

namespace Tlscap

namespace StreamReassembler

/-- One call. -/
inductive Operation
  | setIsn (firstByteSeq : UInt32)
  | push (packetIndex : ℕ) (seq : UInt32) (range : ByteRange) (payload : Bytes)
      (opened checked : Instant)
  | takeBytes (n : ℕ)
  deriving DecidableEq, Repr

/-- What a call returns. -/
inductive Reply
  | done
  | pushed (outcome : PushOutcome)
  | taken (out : Bytes) (pieces : List SourcePiece)
  | panicked
  deriving DecidableEq, Repr

/-- The state after a call, and its reply. -/
def perform (r : StreamReassembler) : Operation → StreamReassembler × Reply
  | .setIsn firstByteSeq => (r.setIsn firstByteSeq, .done)
  | .push packetIndex seq range payload opened checked =>
      let (outcome, r) := r.push packetIndex seq range payload opened checked
      (r, .pushed outcome)
  | .takeBytes n =>
      match r.takeBytes n with
      | none => (r, .panicked)
      | some ((out, pieces), r) => (r, .taken out pieces)

/-! ## What every call preserves -/

variable {r : StreamReassembler}

theorem Invariant.perform (h : r.Invariant) (operation : Operation) :
    (r.perform operation).1.Invariant := by
  cases operation with
  | setIsn firstByteSeq => exact h.setIsn firstByteSeq
  | push packetIndex seq range payload opened checked => exact h.push _ _ _ _ _ _
  | takeBytes n =>
      rw [StreamReassembler.perform]
      split
      · exact h
      · rename_i out pieces r' htake
        exact h.takeBytes htake

theorem Sized.takeBytes_isSome (h : r.Sized) (n : ℕ) :
    (r.takeBytes n).isSome ↔ n ≤ r.contiguousLen := by
  constructor
  · intro hsome
    by_contra hlt
    simp [StreamReassembler.takeBytes, hlt] at hsome
  · intro hn
    obtain ⟨pieces, r', htake, -⟩ := h.takeBytes hn
    rw [htake]
    rfl

theorem limits_perform (r : StreamReassembler) (operation : Operation) :
    (r.perform operation).1.limits = r.limits := by
  cases operation with
  | setIsn firstByteSeq => exact limits_setIsn r firstByteSeq
  | push packetIndex seq range payload opened checked => exact limits_push r _ _ _ _ _ _
  | takeBytes n =>
      rw [perform]
      split
      · rfl
      · rename_i out pieces r' htake
        unfold takeBytes at htake
        split_ifs at htake
        split at htake
        · cases htake
        · cases htake
          rfl

theorem invariant_run (limits : PendingLimits) (operations : List Operation) :
    (Machine.run perform (withPendingLimits limits) operations).1.Invariant :=
  Machine.run_preserves (P := Invariant) (fun _ operation h => h.perform operation)
    (invariant_withPendingLimits limits) operations

theorem limits_run (limits : PendingLimits) (operations : List Operation) :
    (Machine.run perform (withPendingLimits limits) operations).1.limits = limits :=
  Machine.run_preserves (P := fun r => r.limits = limits)
    (fun r operation h => (limits_perform r operation).trans h) rfl operations

end StreamReassembler

end Tlscap
