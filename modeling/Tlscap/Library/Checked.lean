import Mathlib.Data.Int.Notation
import Mathlib.Tactic.Common
import Mathlib.Tactic.NormNum.Basic

/-!
# Checked machine arithmetic

A computation on machine integers is followed operation by operation in `Option`:
each result is checked against its type, and the computation fails at the first one
that does not fit.  A computation that succeeds overflows nowhere.
-/

namespace Checked

/-- A value, if an `i64` holds it. -/
def i64? (n : ℤ) : Option ℤ := if -2 ^ 63 ≤ n ∧ n < 2 ^ 63 then some n else none

/-- A value, if an unsigned integer of the width holds it. -/
def unsigned? (width : ℕ) (n : ℤ) : Option ℕ :=
  if 0 ≤ n ∧ n < 2 ^ width then some n.toNat else none

theorem i64?_eq {n : ℤ} (hlow : -2 ^ 63 ≤ n) (hhigh : n < 2 ^ 63) : i64? n = some n :=
  if_pos ⟨hlow, hhigh⟩

theorem unsigned?_eq {width : ℕ} {n : ℤ} {m : ℕ} (hn : n = m) (hm : m < 2 ^ width) :
    unsigned? width n = some m := by
  subst hn
  have hbound : (m : ℤ) < 2 ^ width := by exact_mod_cast hm
  rw [unsigned?, if_pos ⟨Int.natCast_nonneg m, hbound⟩, Int.toNat_natCast]

/-- The next operation after one that succeeds. -/
theorem bind_of_eq_some {α β : Type} {value : Option α} {a : α} (hvalue : value = some a)
    (next : α → Option β) : (value >>= next) = next a := by
  rw [hvalue]
  rfl

end Checked
