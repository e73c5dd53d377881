import Mathlib.Data.List.Basic

/-!
# A sequence cut into chunks

Elements arrive one at a time and go to the chunk that is open, or to a new one.  That no
chunk is empty is a field of the structure, so a chunk is only opened by an element.

## Strategy

To add an element, with or without a cut before it, appends it to the flattened chunks
(`flatten_all_add`, `flatten_all_push`).  So wherever the cuts are, the chunks make up
the sequence.

What the chunks look like depends on where the cuts are.  When one is made as soon as
the open chunk has `n` elements, two facts are kept (`Full`):

* **Finished chunks** have exactly `n` elements, as each was full when it was closed.
* **The open chunk** has at most `n`, and closing it leaves the only chunk that may be
  shorter (`Full.length_eq`).
-/

/-- Finished chunks and the open one, if there is one.  None is empty. -/
@[ext] structure Chunks (α : Type*) where
  closed : List (List α)
  current : Option (List α)
  nil_not_mem : [] ∉ closed ++ current.toList

namespace Chunks

variable {α : Type*}

/-- No chunk, and none open. -/
def empty : Chunks α := ⟨[], none, List.not_mem_nil⟩

/-- All chunks, in order. -/
def all (chunks : Chunks α) : List (List α) := chunks.closed ++ chunks.current.toList

/-- The open chunk is finished. -/
def close (chunks : Chunks α) : Chunks α where
  closed := chunks.all
  current := none
  nil_not_mem := by
    rw [Option.toList_none, List.append_nil]
    exact chunks.nil_not_mem

/-- One more element for the open chunk, or for a new one. -/
def add (chunks : Chunks α) (element : α) : Chunks α where
  closed := chunks.closed
  current := some (chunks.current.getD [] ++ [element])
  nil_not_mem := by
    intro hmem
    rcases List.mem_append.mp hmem with hclosed | hlast
    · exact chunks.nil_not_mem (List.mem_append_left _ hclosed)
    · simp at hlast

/-- One more element, in a new chunk if there is to be a cut. -/
def push (chunks : Chunks α) (cut : Bool) (element : α) : Chunks α :=
  (if cut then chunks.close else chunks).add element

theorem all_close (chunks : Chunks α) : chunks.close.all = chunks.all :=
  List.append_nil _

theorem all_add (chunks : Chunks α) (element : α) :
    (chunks.add element).all = chunks.closed ++ [chunks.current.getD [] ++ [element]] := rfl

theorem flatten_all_add (chunks : Chunks α) (element : α) :
    (chunks.add element).all.flatten = chunks.all.flatten ++ [element] := by
  rw [all_add, all]
  cases chunks.current with
  | none => simp
  | some chunk => simp

theorem flatten_all_push (chunks : Chunks α) (cut : Bool) (element : α) :
    (chunks.push cut element).all.flatten = chunks.all.flatten ++ [element] := by
  unfold push
  cases cut with
  | false => exact flatten_all_add chunks element
  | true => exact (flatten_all_add chunks.close element).trans (by rw [all_close])

/-! ## Chunks of one length -/

/-- Finished chunks have `n` elements and the open one no more. -/
structure Full (n : ℕ) (chunks : Chunks α) : Prop where
  closed : ∀ chunk ∈ chunks.closed, chunk.length = n
  current : ∀ chunk ∈ chunks.current, chunk.length ≤ n

theorem full_empty (n : ℕ) : Full n (empty : Chunks α) where
  closed _ hmem := absurd hmem List.not_mem_nil
  current _ hmem := nomatch hmem

/-- A chunk is cut exactly when it is full. -/
theorem Full.push {n : ℕ} (hn : 0 < n) {chunks : Chunks α} (hfull : Full n chunks) {cut : Bool}
    (hcut : ∀ chunk ∈ chunks.current, cut = true ↔ n ≤ chunk.length) (element : α) :
    Full n (chunks.push cut element) := by
  cases cut with
  | true =>
      refine ⟨fun chunk hmem => ?_, fun chunk hmem => ?_⟩
      · rcases List.mem_append.mp hmem with hclosed | hopen
        · exact hfull.closed chunk hclosed
        · rw [Option.mem_toList] at hopen
          exact Nat.le_antisymm (hfull.current chunk hopen) ((hcut chunk hopen).mp rfl)
      · cases hmem
        exact hn
  | false =>
      refine ⟨hfull.closed, fun chunk hmem => ?_⟩
      cases hmem
      change (chunks.current.getD [] ++ [element]).length ≤ n
      cases hcurrent : chunks.current with
      | none => exact hn
      | some chunk =>
          -- => not full, so there is room for one more
          have hlt : ¬ n ≤ chunk.length := fun hle =>
            Bool.false_ne_true ((hcut chunk hcurrent).mpr hle)
          rw [Option.getD_some, List.length_append, List.length_singleton]
          omega

/-- All chunks but the last are full. -/
theorem Full.length_eq {n : ℕ} {chunks : Chunks α} (hfull : Full n chunks) :
    ∀ chunk ∈ chunks.all.dropLast, chunk.length = n := by
  unfold all
  intro chunk hmem
  cases hcurrent : chunks.current with
  | none =>
      rw [hcurrent, Option.toList_none, List.append_nil] at hmem
      exact hfull.closed chunk (List.dropLast_subset _ hmem)
  | some last =>
      rw [hcurrent, Option.toList_some, List.dropLast_concat] at hmem
      exact hfull.closed chunk hmem

end Chunks
