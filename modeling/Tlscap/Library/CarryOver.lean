import Mathlib.Algebra.Order.BigOperators.Group.List
import Mathlib.Algebra.Order.Ring.Nat
import Mathlib.Data.List.Infix

/-!
# Carrying over what is left

A consumer is handed a stream in parts.  Each time it sees what was left over before
it and the new part behind, and drops some elements from the front.  What is left is
a suffix of the stream, and its length is what was handed over and not dropped.
-/

namespace CarryOver

variable {α : Type*}

/-- What is left after some parts, each with the number of elements that are dropped
from the front once it has been appended. -/
def left : List α → List (List α × ℕ) → List α
  | tail, [] => tail
  | tail, (part, dropped) :: rest => left ((tail ++ part).drop dropped) rest

/-- No more is dropped than there is. -/
def Within : List α → List (List α × ℕ) → Prop
  | _, [] => True
  | tail, (part, dropped) :: rest =>
      dropped ≤ (tail ++ part).length ∧ Within ((tail ++ part).drop dropped) rest

/-- What is left is a suffix of the stream. -/
theorem left_suffix (tail : List α) (parts : List (List α × ℕ)) :
    left tail parts <:+ tail ++ parts.flatMap Prod.fst := by
  induction parts generalizing tail with
  | nil =>
      rw [List.flatMap_nil, List.append_nil]
      exact List.suffix_rfl
  | cons part rest ih =>
      obtain ⟨part, dropped⟩ := part
      have hdrop := List.drop_suffix dropped (tail ++ part)
      rw [List.flatMap_cons, ← List.append_assoc]
      exact (ih _).trans (List.suffix_append_self_iff.mpr hdrop)

/-- Every element was dropped or is left. -/
theorem length_left {tail : List α} {parts : List (List α × ℕ)} (h : Within tail parts) :
    tail.length + (parts.map fun part => part.1.length).sum =
      (parts.map Prod.snd).sum + (left tail parts).length := by
  induction parts generalizing tail with
  | nil => rw [List.map_nil, List.map_nil, List.sum_nil, left, Nat.add_comm]
  | cons part rest ih =>
      obtain ⟨part, dropped⟩ := part
      have hrest := ih h.2
      have hdropped := h.1
      rw [List.length_drop] at hrest
      rw [List.length_append] at hrest hdropped
      simp only [List.map_cons, List.sum_cons, left]
      omega

end CarryOver
