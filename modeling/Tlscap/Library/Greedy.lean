import Tlscap.Library.Chunks
import Mathlib.Data.List.Chain

/-!
# Greedy cutting

Where the cuts are is decided as the elements arrive: an element goes to the open chunk
unless that is full for it.  So no element of a chunk found it full, and every chunk but the
last was full for the element that begins the next (`greedy_spec`).

The rule speaks of a chunk and the first element of the next, so it is kept as a relation
on the list of all chunks, the open one at its end (`Greedy`).  One more element makes one
of two changes:

* **A cut.**  The open chunk was full for the element, which is what the rule asks for
  where two chunks meet (`Greedy.open`).
* **No cut.**  The element goes behind the others of the last chunk, which was not full
  for it; where that chunk meets the one before it nothing changes (`Greedy.extend`).

At the end, chunks of elements that carry something more are those of what they carry
(`map_push`), when fullness depends on that alone.
-/

namespace Chunks

variable {α : Type*} (full : List α → α → Bool)

/-- One more element, in a new chunk if there is none open or the open one is full for it. -/
def fill (chunks : Chunks α) (element : α) : Chunks α :=
  chunks.push (chunks.current.elim true fun chunk => full chunk element) element

/-- The chunks of some elements. -/
def greedy (elements : List α) : Chunks α := elements.foldl (fill full) empty

/-- Each chunk but the last was full for the element that begins the next, and no element
behind the first of a chunk found it full. -/
structure Greedy (chunks : List (List α)) : Prop where
  kept : ∀ before element after, before ++ element :: after ∈ chunks → before ≠ [] →
    full before element = false
  cut : chunks.IsChain fun chunk next => ∀ first ∈ next.head?, full chunk first = true

variable {full}

theorem Greedy.open (closed : List (List α)) {element : α} (h : Greedy full closed)
    (hcut : ∀ chunk ∈ closed.getLast?, full chunk element = true) :
    Greedy full (closed ++ [[element]]) := by
  refine ⟨fun before other after hmem hbefore => ?_, ?_⟩
  · rcases List.mem_append.mp hmem with hold | hnew
    · exact h.kept before other after hold hbefore
    · cases before with
      | nil => exact absurd rfl hbefore
      | cons head tail =>
          -- a chunk of one element has nothing before it
          have hlength := congrArg List.length (List.mem_singleton.mp hnew)
          simp at hlength
  · rw [List.isChain_append]
    refine ⟨h.cut, List.isChain_singleton _, fun chunk hchunk next hnext first hfirst => ?_⟩
    obtain rfl : [element] = next := Option.some.inj hnext
    obtain rfl : element = first := Option.some.inj hfirst
    exact hcut chunk hchunk

theorem Greedy.extend {closed : List (List α)} {chunk : List α} {element : α}
    (h : Greedy full (closed ++ [chunk])) (hchunk : chunk ≠ [])
    (hkept : full chunk element = false) : Greedy full (closed ++ [chunk ++ [element]]) := by
  refine ⟨fun before other after hmem hbefore => ?_, ?_⟩
  · rcases List.mem_append.mp hmem with hold | hnew
    · exact h.kept before other after (List.mem_append_left _ hold) hbefore
    · have heq := List.mem_singleton.mp hnew
      -- either the new element itself, or one that was there
      rcases List.eq_nil_or_concat after with rfl | ⟨rest, last, rfl⟩
      · obtain ⟨rfl, hlast⟩ := List.append_inj' heq rfl
        obtain rfl : other = element := List.singleton_inj.mp hlast
        exact hkept
      · rw [List.concat_eq_append, ← List.cons_append, ← List.append_assoc] at heq
        obtain ⟨rfl, -⟩ := List.append_inj' heq rfl
        exact h.kept before other rest (List.mem_append_right _ (List.mem_singleton_self _)) hbefore
  · have hcut := h.cut
    rw [List.isChain_append] at hcut ⊢
    refine ⟨hcut.1, List.isChain_singleton _, fun last hlast next hnext first hfirst => ?_⟩
    obtain rfl : chunk ++ [element] = next := Option.some.inj hnext
    rw [List.head?_append_of_ne_nil _ hchunk] at hfirst
    exact hcut.2.2 last hlast chunk rfl first hfirst

/-! ## Filling keeps to the rule -/

/-- What filling keeps: only an empty sequence has no chunk open. -/
structure Filled (full : List α → α → Bool) (chunks : Chunks α) : Prop where
  greedy : Greedy full chunks.all
  started : chunks.current = none → chunks.closed = []

theorem filled_empty : Filled full empty :=
  ⟨⟨fun _ _ _ hmem _ => absurd hmem List.not_mem_nil, List.isChain_nil⟩, fun _ => rfl⟩

theorem Filled.fill {chunks : Chunks α} (h : Filled full chunks) (element : α) :
    Filled full (chunks.fill full element) := by
  refine ⟨?_, fun hnone => ?_⟩
  · unfold Chunks.fill
    have hgreedy := h.greedy
    cases hcurrent : chunks.current with
    | none =>
        have hall : chunks.all = [] := by
          rw [Chunks.all, h.started hcurrent, hcurrent]
          rfl
        rw [Option.elim_none, push, if_pos rfl, all_add]
        change Greedy full (chunks.all ++ [[] ++ [element]])
        refine hgreedy.open _ ?_
        rw [hall]
        intro last hlast
        cases hlast
    | some chunk =>
        have hall : chunks.all = chunks.closed ++ [chunk] := by
          rw [Chunks.all, hcurrent, Option.toList_some]
        rw [Option.elim_some]
        cases hfull : full chunk element with
        | true =>
            rw [push, if_pos rfl, all_add]
            change Greedy full (chunks.all ++ [[] ++ [element]])
            refine hgreedy.open _ ?_
            rw [hall, List.getLast?_concat]
            rintro last ⟨⟩
            exact hfull
        | false =>
            rw [push, if_neg Bool.false_ne_true, all_add, hcurrent, Option.getD_some]
            rw [hall] at hgreedy
            refine hgreedy.extend ?_ hfull
            rintro rfl
            apply chunks.nil_not_mem
            rw [hcurrent]
            exact List.mem_append_right _ List.mem_cons_self
  · exact absurd hnone (by simp [Chunks.fill, push, Chunks.add])

/-- Greedy cutting keeps to its rule, whatever arrives. -/
theorem greedy_spec (full : List α → α → Bool) (elements : List α) :
    Filled full (greedy full elements) := by
  unfold greedy
  induction elements using List.reverseRecOn with
  | nil => exact filled_empty
  | append_singleton elements element ih =>
      rw [List.foldl_append]
      exact ih.fill element

theorem flatten_all_greedy (full : List α → α → Bool) (elements : List α) :
    (greedy full elements).all.flatten = elements := by
  unfold greedy
  induction elements using List.reverseRecOn with
  | nil => rfl
  | append_singleton elements element ih =>
      rw [List.foldl_append]
      change (Chunks.fill full _ element).all.flatten = _
      rw [Chunks.fill, flatten_all_push, ih]

/-! ## Chunks of something else -/

variable {β : Type*} (f : α → β)

/-- The chunks of the images. -/
def map (chunks : Chunks α) : Chunks β where
  closed := chunks.closed.map (List.map f)
  current := chunks.current.map (List.map f)
  nil_not_mem := by
    intro hmem
    apply chunks.nil_not_mem
    rcases List.mem_append.mp hmem with hclosed | hlast
    · obtain ⟨chunk, hchunk, hnil⟩ := List.mem_map.mp hclosed
      rw [← List.map_eq_nil_iff.mp hnil]
      exact List.mem_append_left _ hchunk
    · rw [Option.mem_toList, Option.map_eq_some_iff] at hlast
      obtain ⟨chunk, hchunk, hnil⟩ := hlast
      rw [← List.map_eq_nil_iff.mp hnil, hchunk]
      exact List.mem_append_right _ List.mem_cons_self

theorem all_map (chunks : Chunks α) : (chunks.map f).all = chunks.all.map (List.map f) := by
  change chunks.closed.map (List.map f) ++ (chunks.current.map (List.map f)).toList =
    (chunks.closed ++ chunks.current.toList).map (List.map f)
  rw [List.map_append, Option.toList_map]

theorem map_push (chunks : Chunks α) (cut : Bool) (element : α) :
    (chunks.push cut element).map f = (chunks.map f).push cut (f element) := by
  ext1
  · cases cut with
    | true => exact (all_map f chunks).symm
    | false => rfl
  · cases cut with
    | true => rfl
    | false =>
        change Option.map (List.map f) (some (chunks.current.getD [] ++ [element])) =
          some ((chunks.current.map (List.map f)).getD [] ++ [f element])
        cases chunks.current <;> simp

end Chunks
