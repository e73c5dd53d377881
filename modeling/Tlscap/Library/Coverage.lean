import Mathlib.Order.Bounds.Basic
import Mathlib.Data.List.Basic

/-!
# Coverage of a stream by slices

A slice is a pair `(offset, length)` and covers the positions
`offset, …, offset + length - 1`.  A receiver that has got some slices of a
stream, in any order and with any overlaps, can hand out exactly the longest
prefix they cover; `IsCoveredPrefix` names that length.  It depends on the set
of slices only, which is why two receivers of the same slices agree.
-/

namespace Coverage

/-- The position lies in one of the slices. -/
def Covered (slices : List (ℕ × ℕ)) (position : ℕ) : Prop :=
  ∃ slice ∈ slices, slice.1 ≤ position ∧ position < slice.1 + slice.2

/-- `length` is the length of the longest prefix covered by the slices. -/
def IsCoveredPrefix (slices : List (ℕ × ℕ)) (length : ℕ) : Prop :=
  IsGreatest {prefixLength | ∀ position < prefixLength, Covered slices position} length

instance (slices : List (ℕ × ℕ)) (position : ℕ) : Decidable (Covered slices position) :=
  inferInstanceAs (Decidable (∃ slice ∈ slices, _))

@[simp] theorem not_covered_nil (position : ℕ) : ¬ Covered [] position := by
  simp [Covered]

theorem covered_append_singleton {slices : List (ℕ × ℕ)} {offset length position : ℕ} :
    Covered (slices ++ [(offset, length)]) position ↔
      Covered slices position ∨ offset ≤ position ∧ position < offset + length := by
  simp only [Covered, List.mem_append, List.mem_singleton]
  constructor
  · rintro ⟨slice, hslice | rfl, hmem⟩
    · exact Or.inl ⟨slice, hslice, hmem⟩
    · exact Or.inr hmem
  · rintro (⟨slice, hslice, hmem⟩ | hmem)
    · exact ⟨slice, Or.inl hslice, hmem⟩
    · exact ⟨_, Or.inr rfl, hmem⟩

theorem covered_congr {first second : List (ℕ × ℕ)}
    (hsame : ∀ slice, slice ∈ first ↔ slice ∈ second) (position : ℕ) :
    Covered first position ↔ Covered second position := by
  simp only [Covered, hsame]

/-- A prefix is the longest covered one when its positions are covered and the
next one is not. -/
theorem isCoveredPrefix_of_not_covered {slices : List (ℕ × ℕ)} {length : ℕ}
    (hcovered : ∀ position < length, Covered slices position)
    (hnext : ¬ Covered slices length) : IsCoveredPrefix slices length := by
  refine ⟨hcovered, fun longer hlonger => ?_⟩
  by_contra hlt
  exact hnext (hlonger length (not_le.mp hlt))

/-- The same slices, in whatever order and multiplicity, cover the same prefix. -/
theorem IsCoveredPrefix.unique {first second : List (ℕ × ℕ)} {m n : ℕ}
    (hfirst : IsCoveredPrefix first m) (hsecond : IsCoveredPrefix second n)
    (hsame : ∀ slice, slice ∈ first ↔ slice ∈ second) : m = n := by
  have hset : {length | ∀ position < length, Covered first position} =
      {length | ∀ position < length, Covered second position} := by
    simp only [covered_congr hsame]
  unfold IsCoveredPrefix at hfirst
  rw [hset] at hfirst
  exact IsGreatest.unique hfirst hsecond

end Coverage
