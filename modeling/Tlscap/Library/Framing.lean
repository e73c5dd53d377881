import Mathlib.Data.List.Basic
import Mathlib.Order.Basic
import Mathlib.Order.Nat
import Mathlib.Tactic.Common

/-!
# Length-prefixed framing

A format says how long a unit is by its header.  `Format.parse` splits a list
into the complete units at its front and the rest, which is less than a unit.

## Strategy

Every unit that is taken off shortens what is left (`Complete.length_drop_lt`), so the
length of the list is fuel enough and any other fuel that is enough gives the same units
(`split_eq_parse`).  From there on nothing mentions the fuel: a parse is taken apart by
`parse_induction`, whose two cases are

* **Complete.**  The list starts with a complete unit, which is the first one, and the
  parse goes on behind it (`parse_of_complete`).
* **Short.**  It does not, and all of it is left (`parse_of_not_complete`).

So the units and the rest make up the list (`flatten_parse`), each unit is as long as its
header says (`mem_parse`), and units put in front of a list are parsed as they are
(`parse_flatten_append`): to parse more of a stream is to parse what is left with the new
bytes behind it.
-/

namespace Framing

/-- Units of at least `header` elements, whose length can be read off these. -/
structure Format (α : Type*) where
  header : ℕ
  size : List α → ℕ
  header_pos : 0 < header
  header_le_size : ∀ unit, header ≤ size unit
  size_append : ∀ front rest, header ≤ front.length → size (front ++ rest) = size front

namespace Format

variable {α : Type*} (format : Format α)

/-- The list starts with a complete unit. -/
def Complete (elements : List α) : Prop :=
  format.header ≤ elements.length ∧ format.size elements ≤ elements.length

instance (elements : List α) : Decidable (format.Complete elements) :=
  inferInstanceAs (Decidable (_ ∧ _))

/-- Takes up to `fuel` complete units off the front. -/
def split : ℕ → List α → List (List α) × List α
  | 0, elements => ([], elements)
  | fuel + 1, elements =>
      if format.Complete elements then
        let (units, rest) := split fuel (elements.drop (format.size elements))
        (elements.take (format.size elements) :: units, rest)
      else ([], elements)

/-- All complete units at the front, and the rest. -/
def parse (elements : List α) : List (List α) × List α :=
  format.split elements.length elements

variable {format} {elements : List α}

theorem Complete.length_drop_lt (h : format.Complete elements) :
    (elements.drop (format.size elements)).length < elements.length := by
  have hheader := format.header_pos
  have hsize := format.header_le_size elements
  have hlength := h.2
  rw [List.length_drop]
  omega

/-! ## Any fuel that is enough -/

/-- Any fuel that is enough gives the same units. -/
theorem split_eq_parse {fuel : ℕ} (hfuel : elements.length ≤ fuel) :
    format.split fuel elements = format.parse elements := by
  have hstable : ∀ (fuel fuel' : ℕ) (elements : List α), elements.length ≤ fuel →
      elements.length ≤ fuel' → format.split fuel elements = format.split fuel' elements := by
    intro fuel
    induction fuel with
    | zero =>
        intro fuel' elements hfuel hfuel'
        have hheader := format.header_pos
        have hincomplete : ¬ format.Complete elements := fun h => by have := h.1; omega
        cases fuel' with
        | zero => rfl
        | succ fuel' => rw [split, split, if_neg hincomplete]
    | succ fuel ih =>
        intro fuel' elements hfuel hfuel'
        by_cases hcomplete : format.Complete elements
        · have hshorter := hcomplete.length_drop_lt
          cases fuel' with
          | zero => omega
          | succ fuel' =>
              rw [split, split, if_pos hcomplete, if_pos hcomplete,
                ih fuel' _ (by omega) (by omega)]
        · cases fuel' with
          | zero => rw [split, split, if_neg hcomplete]
          | succ fuel' => rw [split, split, if_neg hcomplete, if_neg hcomplete]
  exact hstable fuel elements.length elements hfuel le_rfl

theorem parse_of_not_complete (h : ¬ format.Complete elements) :
    format.parse elements = ([], elements) := by
  rw [← split_eq_parse (Nat.le_succ _), split, if_neg h]

theorem parse_of_complete (h : format.Complete elements) :
    format.parse elements =
      (elements.take (format.size elements) ::
          (format.parse (elements.drop (format.size elements))).1,
        (format.parse (elements.drop (format.size elements))).2) := by
  rw [← split_eq_parse (Nat.le_succ _), split, if_pos h]
  simp only [split_eq_parse h.length_drop_lt.le]

/-- Induction along a parse. -/
theorem parse_induction (format : Format α) {P : List α → Prop}
    (hlast : ∀ elements, ¬ format.Complete elements → P elements)
    (hunit : ∀ elements, format.Complete elements →
      P (elements.drop (format.size elements)) → P elements) (elements : List α) :
    P elements := by
  induction hlength : elements.length using Nat.strongRecOn generalizing elements with
  | _ length ih =>
      by_cases hcomplete : format.Complete elements
      · have hshorter := hcomplete.length_drop_lt
        exact hunit elements hcomplete (ih _ (hlength ▸ hshorter) _ rfl)
      · exact hlast elements hcomplete

/-! ## What a parse cuts out -/

/-- The units and the rest make up the list. -/
theorem flatten_parse (format : Format α) (elements : List α) :
    (format.parse elements).1.flatten ++ (format.parse elements).2 = elements := by
  induction elements using parse_induction format with
  | hlast elements h => rw [parse_of_not_complete h]; rfl
  | hunit elements h ih =>
      rw [parse_of_complete h, List.flatten_cons, List.append_assoc, ih, List.take_append_drop]

/-- What a parse leaves is less than a unit. -/
theorem not_complete_parse (format : Format α) (elements : List α) :
    ¬ format.Complete (format.parse elements).2 := by
  induction elements using parse_induction format with
  | hlast elements h => rw [parse_of_not_complete h]; exact h
  | hunit elements h ih => rw [parse_of_complete h]; exact ih

theorem Complete.size_append (h : format.Complete elements) (rest : List α) :
    format.size (elements ++ rest) = format.size elements :=
  format.size_append elements rest h.1

theorem Complete.append (h : format.Complete elements) (rest : List α) :
    format.Complete (elements ++ rest) := by
  refine ⟨?_, ?_⟩
  · exact h.1.trans (by simp)
  · rw [h.size_append]
    exact h.2.trans (by simp)

/-- A parse cuts out whole units. -/
theorem mem_parse (format : Format α) (elements : List α) :
    ∀ unit ∈ (format.parse elements).1,
      format.Complete unit ∧ format.size unit = unit.length := by
  induction elements using parse_induction format with
  | hlast elements h =>
      rw [parse_of_not_complete h]
      exact nofun
  | hunit elements h ih =>
      have hlength : (elements.take (format.size elements)).length = format.size elements := by
        rw [List.length_take]
        exact Nat.min_eq_left h.2
      have hheader : format.header ≤ (elements.take (format.size elements)).length := by
        rw [hlength]
        exact format.header_le_size elements
      have hsize : format.size (elements.take (format.size elements)) = format.size elements := by
        have happend := format.size_append _ (elements.drop (format.size elements)) hheader
        rw [List.take_append_drop] at happend
        exact happend.symm
      rw [parse_of_complete h]
      intro unit hunit
      rcases List.mem_cons.mp hunit with rfl | hrest
      · exact ⟨⟨hheader, (hsize.trans hlength.symm).le⟩, hsize.trans hlength.symm⟩
      · exact ih unit hrest

/-- Whole units in front of a list are parsed as they are. -/
theorem parse_flatten_append {units : List (List α)}
    (hunits : ∀ unit ∈ units, format.Complete unit ∧ format.size unit = unit.length)
    (rest : List α) :
    format.parse (units.flatten ++ rest) =
      (units ++ (format.parse rest).1, (format.parse rest).2) := by
  induction units with
  | nil => rfl
  | cons unit units ih =>
      obtain ⟨hcomplete, hsize⟩ := hunits unit List.mem_cons_self
      have hothers := ih fun other hother => hunits other (List.mem_cons_of_mem unit hother)
      rw [List.flatten_cons, List.append_assoc, parse_of_complete (hcomplete.append _),
        hcomplete.size_append, hsize, List.drop_left, List.take_left, hothers]
      rfl

end Format

end Framing
