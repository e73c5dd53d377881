import Mathlib.Algebra.BigOperators.Intervals
import Mathlib.Algebra.Order.BigOperators.Group.Finset
import Mathlib.Algebra.Order.Group.Int
import Mathlib.Data.Int.ConditionallyCompleteOrder
import Mathlib.Data.Prod.Lex
import Mathlib.Order.Interval.Finset.Nat
import Mathlib.Order.Monotone.Basic

/-!
# The proleptic Gregorian calendar

Dates of the Gregorian calendar, extended to all years, in both directions.
`Date.dayNumber` counts days from 1970-01-01: it goes up by one from each date to
the next (`dayNumber_next`) and is strictly increasing (`dayNumber_strictMono`),
so a date is determined by its number.
-/

namespace Gregorian

/-- Every fourth year, except the centuries that 400 does not divide. -/
def IsLeapYear (year : ℤ) : Prop := year % 4 = 0 ∧ (year % 100 ≠ 0 ∨ year % 400 = 0)

instance : DecidablePred IsLeapYear := fun _ => inferInstanceAs (Decidable (_ ∧ _))

/-- Thirty or thirty-one days, and February by the leap year. -/
def daysInMonth (year : ℤ) (month : ℕ) : ℕ :=
  if month = 2 then if IsLeapYear year then 29 else 28
  else if month = 4 ∨ month = 6 ∨ month = 9 ∨ month = 11 then 30
  else 31

/-- The days of a year, by the leap year. -/
def daysInYear (year : ℤ) : ℕ := if IsLeapYear year then 366 else 365

theorem daysInYear_le (year : ℤ) : daysInYear year ≤ 366 := by
  unfold daysInYear
  split_ifs <;> omega

/-- A date that exists. -/
@[ext] structure Date where
  year : ℤ
  month : ℕ
  day : ℕ
  one_le_month : 1 ≤ month
  month_le : month ≤ 12
  one_le_day : 1 ≤ day
  day_le : day ≤ daysInMonth year month
  deriving DecidableEq

theorem one_le_daysInMonth (year : ℤ) (month : ℕ) : 1 ≤ daysInMonth year month := by
  unfold daysInMonth
  split_ifs <;> omega

/-! ## Days before a year and before a month -/

/-- Days from 0001-01-01 to the first day of a year. -/
def daysBeforeYear (year : ℤ) : ℤ :=
  365 * (year - 1) + (year - 1) / 4 - (year - 1) / 100 + (year - 1) / 400

/-- Days from the first day of a year to the first day of a month. -/
def daysBeforeMonth (year : ℤ) (month : ℕ) : ℕ := ∑ m ∈ Finset.Ico 1 month, daysInMonth year m

theorem daysBeforeYear_succ (year : ℤ) :
    daysBeforeYear (year + 1) = daysBeforeYear year + daysInYear year := by
  unfold daysBeforeYear daysInYear
  by_cases hleap : IsLeapYear year
  · rw [if_pos hleap]
    unfold IsLeapYear at hleap
    omega
  · rw [if_neg hleap]
    unfold IsLeapYear at hleap
    omega

theorem daysBeforeYear_mono : Monotone daysBeforeYear := by
  refine monotone_int_of_le_succ fun year => ?_
  rw [daysBeforeYear_succ]
  omega

theorem daysBeforeMonth_one (year : ℤ) : daysBeforeMonth year 1 = 0 := by
  rw [daysBeforeMonth, Finset.Ico_self, Finset.sum_empty]

theorem daysBeforeMonth_succ (year : ℤ) {month : ℕ} (hmonth : 1 ≤ month) :
    daysBeforeMonth year (month + 1) = daysBeforeMonth year month + daysInMonth year month :=
  Finset.sum_Ico_succ_top hmonth _

theorem daysBeforeMonth_mono (year : ℤ) : Monotone (daysBeforeMonth year) := fun _ _ hle =>
  Finset.sum_le_sum_of_subset (Finset.Ico_subset_Ico_right hle)

/-- The months of a year make up the year. -/
theorem daysBeforeMonth_thirteen (year : ℤ) : daysBeforeMonth year 13 = daysInYear year := by
  unfold daysInYear
  by_cases hleap : IsLeapYear year <;>
    simp [daysBeforeMonth, Finset.sum_Ico_succ_top, daysInMonth, hleap]

/-! ## Dates -/

namespace Date

/-- The day after a date. -/
def next (date : Date) : Date :=
  if hday : date.day < daysInMonth date.year date.month then
    { date with day := date.day + 1, one_le_day := by omega, day_le := hday }
  else if hmonth : date.month < 12 then
    { year := date.year, month := date.month + 1, day := 1
      one_le_month := by omega, month_le := hmonth
      one_le_day := le_rfl, day_le := one_le_daysInMonth _ _ }
  else
    { year := date.year + 1, month := 1, day := 1
      one_le_month := le_rfl, month_le := by omega
      one_le_day := le_rfl, day_le := one_le_daysInMonth _ _ }

/-- Dates are compared by year, then month, then day. -/
def key (date : Date) : ℤ ×ₗ ℕ ×ₗ ℕ := toLex (date.year, toLex (date.month, date.day))

theorem key_injective : Function.Injective key := by
  intro first second hkey
  simp only [key, EmbeddingLike.apply_eq_iff_eq, Prod.mk.injEq] at hkey
  exact Date.ext hkey.1 hkey.2.1 hkey.2.2

instance : LinearOrder Date := LinearOrder.lift' key key_injective

theorem lt_iff {first second : Date} : first < second ↔
    first.year < second.year ∨ first.year = second.year ∧
      (first.month < second.month ∨ first.month = second.month ∧ first.day < second.day) := by
  change first.key < second.key ↔ _
  simp [key, Prod.Lex.toLex_lt_toLex]

/-- The day of the year, starting from one. -/
def dayOfYear (date : Date) : ℕ := daysBeforeMonth date.year date.month + date.day

/-- Days since 1970-01-01. -/
def dayNumber (date : Date) : ℤ := daysBeforeYear date.year + date.dayOfYear - 719163

theorem dayOfYear_le_month (date : Date) :
    date.dayOfYear ≤ daysBeforeMonth date.year (date.month + 1) := by
  have hday := date.day_le
  rw [daysBeforeMonth_succ _ date.one_le_month]
  unfold dayOfYear
  omega

theorem dayOfYear_le (date : Date) : date.dayOfYear ≤ daysInYear date.year := by
  have hmonth : date.month + 1 ≤ 13 := by have := date.month_le; omega
  calc date.dayOfYear
      ≤ daysBeforeMonth date.year (date.month + 1) := date.dayOfYear_le_month
    _ ≤ daysBeforeMonth date.year 13 := daysBeforeMonth_mono date.year hmonth
    _ = daysInYear date.year := daysBeforeMonth_thirteen date.year

/-- The next date has the next number. -/
theorem dayNumber_next (date : Date) : date.next.dayNumber = date.dayNumber + 1 := by
  have hday := date.day_le
  have hsucc := daysBeforeMonth_succ date.year date.one_le_month
  unfold next
  split_ifs with hlast hmonth
  · simp only [dayNumber, dayOfYear]
    omega
  · -- the last day of a month
    simp only [dayNumber, dayOfYear]
    omega
  · -- the last day of a year
    have hdecember : date.month = 12 := by have := date.month_le; omega
    have hyear := daysBeforeYear_succ date.year
    have hmonths := daysBeforeMonth_thirteen date.year
    rw [hdecember, hmonths] at hsucc
    rw [hdecember] at hday hlast
    simp only [dayNumber, dayOfYear, daysBeforeMonth_one, hdecember]
    omega

theorem dayNumber_strictMono : StrictMono dayNumber := by
  intro first second hlt
  have hpos := second.one_le_day
  rcases lt_iff.mp hlt with hyear | ⟨hyear, hmonth | ⟨hmonth, hday⟩⟩
  · have hfirst := first.dayOfYear_le
    have hsucc := daysBeforeYear_succ first.year
    have hmono := daysBeforeYear_mono (show first.year + 1 ≤ second.year from hyear)
    simp only [dayNumber, dayOfYear] at hfirst ⊢
    omega
  · have hfirst := first.dayOfYear_le_month
    have hmono := daysBeforeMonth_mono first.year (show first.month + 1 ≤ second.month from hmonth)
    simp only [dayNumber, dayOfYear, ← hyear] at hfirst ⊢
    omega
  · simp only [dayNumber, dayOfYear, ← hyear, ← hmonth]
    omega

/-- The first day that is counted. -/
def epoch : Date where
  year := 1970
  month := 1
  day := 1
  one_le_month := le_rfl
  month_le := by decide
  one_le_day := le_rfl
  day_le := by decide

theorem dayNumber_epoch : epoch.dayNumber = 0 := by decide

end Date

end Gregorian
