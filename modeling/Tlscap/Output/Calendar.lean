import Tlscap.Output.Format
import Tlscap.Library.Calendar
import Tlscap.Library.Checked
import Mathlib.Tactic.IntervalCases
import Mathlib.Tactic.Ring

/-!
# Dates of messages

`civilFromDays` splits the day number into eras of 400 years that start on a first of March
and reads year, month and day off the offset into the era.  The result is the date of the
proleptic Gregorian calendar with that day number (`civilDate_dayNumber`), and no operation on
the way leaves its integer type (`civilFromDays_gregorian`).

## Strategy

A year that starts in March has its leap day at the end, so that the days before a year, and
before a month, are given by one formula each; the divisions of the source invert these.

* **The year of an era.**  The days before a year are `daysBeforeYearOfEra`.  The division is
  monotone, and hits every year at its first and at its last day, which is checked for the
  400 years; so it hits it in between (`yearOfEra_spec`).
* **The month of a year** lies between the days before it and those before the next one, by
  the arithmetic of the two divisions alone.
* **From March to January.**  January and February belong to the civil year that follows
  (`daysBeforeMonth_of_january`); February ends with the year, be it a leap year or not.
* **The types.**  `checkedCivilFromDays` is the source's function with every operation
  checked.  It never fails below the last day to which the first addition can be applied
  (`checkedCivilFromDays_eq`), and the days of messages are far from it.

What a date is, and the number it has, is the calendar's and not the function's
(`Gregorian.Date`): the inverse, the order and the successor are derived from these.
-/

namespace Tlscap

open Gregorian Checked

/-! ## The year of an era -/

/-- `yoe`, by the day of the era. -/
def yearOfEra (doe : ℕ) : ℕ := (doe - doe / 1460 + doe / 36524 - doe / 146096) / 365

/-- Days of an era before one of its years. -/
def daysBeforeYearOfEra (yoe : ℕ) : ℕ := 365 * yoe + yoe / 4 - yoe / 100 + yoe / 400

theorem yearOfEra_mono : Monotone yearOfEra := by
  refine monotone_nat_of_le_succ fun doe => Nat.div_le_div_right ?_
  omega

theorem yearOfEra_first (yoe : ℕ) (hyoe : yoe < 400) :
    yearOfEra (daysBeforeYearOfEra yoe) = yoe := by
  have hall : ∀ yoe < 400, yearOfEra (daysBeforeYearOfEra yoe) = yoe := by decide +kernel
  exact hall yoe hyoe

theorem yearOfEra_last (yoe : ℕ) (hyoe : yoe < 400) :
    yearOfEra (daysBeforeYearOfEra (yoe + 1) - 1) = yoe := by
  have hall : ∀ yoe < 400, yearOfEra (daysBeforeYearOfEra (yoe + 1) - 1) = yoe := by
    decide +kernel
  exact hall yoe hyoe

theorem yearOfEra_lt {doe : ℕ} (hdoe : doe < 146097) : yearOfEra doe < 400 := by
  calc yearOfEra doe
      ≤ yearOfEra (daysBeforeYearOfEra 400 - 1) := yearOfEra_mono (Nat.le_of_lt_succ hdoe)
    _ = 399 := yearOfEra_last 399 (by decide)
    _ < 400 := by decide

/-- A day of an era is in the year the division finds. -/
theorem yearOfEra_spec {doe : ℕ} (hdoe : doe < 146097) :
    daysBeforeYearOfEra (yearOfEra doe) ≤ doe ∧
      doe < daysBeforeYearOfEra (yearOfEra doe + 1) := by
  have hlt := yearOfEra_lt hdoe
  constructor
  · by_contra hbefore
    -- the last day of the year before is in the year before
    obtain hzero | ⟨yoe, hyoe⟩ : yearOfEra doe = 0 ∨ ∃ yoe, yearOfEra doe = yoe + 1 := by
      cases yearOfEra doe with
      | zero => exact .inl rfl
      | succ yoe => exact .inr ⟨yoe, rfl⟩
    · rw [hzero] at hbefore
      exact hbefore (Nat.zero_le doe)
    · rw [hyoe] at hbefore hlt
      have hle : yearOfEra doe ≤ yearOfEra (daysBeforeYearOfEra (yoe + 1) - 1) :=
        yearOfEra_mono (by omega)
      rw [yearOfEra_last yoe (by omega)] at hle
      omega
  · by_contra hafter
    obtain hlast | hnext : yearOfEra doe = 399 ∨ yearOfEra doe + 1 < 400 := by omega
    · rw [hlast] at hafter
      exact hafter hdoe
    · have hle : yearOfEra (daysBeforeYearOfEra (yearOfEra doe + 1)) ≤ yearOfEra doe :=
        yearOfEra_mono (by omega)
      rw [yearOfEra_first _ hnext] at hle
      omega

/-! ## The month of a year that starts in March -/

/-- `mp`, by the day of the year. -/
def marchMonth (doy : ℕ) : ℕ := (5 * doy + 2) / 153

/-- Days of a year that starts in March before one of its months. -/
def daysBeforeMarchMonth (mp : ℕ) : ℕ := (153 * mp + 2) / 5

theorem daysBeforeMarchMonth_le (doy : ℕ) : daysBeforeMarchMonth (marchMonth doy) ≤ doy := by
  unfold daysBeforeMarchMonth marchMonth
  omega

theorem lt_daysBeforeMarchMonth (doy : ℕ) :
    doy < daysBeforeMarchMonth (marchMonth doy + 1) := by
  unfold daysBeforeMarchMonth marchMonth
  omega

/-- The months from March to December. -/
theorem daysBeforeMonth_of_march (year : ℤ) {mp : ℕ} (hmp : mp < 10) :
    daysBeforeMonth year (mp + 3) + 306 = daysInYear year + daysBeforeMarchMonth mp := by
  unfold daysInYear daysBeforeMarchMonth
  by_cases hleap : IsLeapYear year <;> interval_cases mp <;>
    simp [daysBeforeMonth, Finset.sum_Ico_succ_top, daysInMonth, hleap]

/-- January and February. -/
theorem daysBeforeMonth_of_january (year : ℤ) {mp : ℕ} (hlow : 10 ≤ mp) (hhigh : mp < 12) :
    daysBeforeMonth year (mp - 9) + 306 = daysBeforeMarchMonth mp := by
  unfold daysBeforeMarchMonth
  interval_cases mp <;> simp [daysBeforeMonth, daysInMonth]

theorem daysBeforeMarchMonth_succ_le (year : ℤ) {mp : ℕ} (hmp : mp < 10) :
    daysBeforeMarchMonth (mp + 1) ≤ daysBeforeMarchMonth mp + daysInMonth year (mp + 3) := by
  unfold daysBeforeMarchMonth
  interval_cases mp <;> simp [daysInMonth]

/-- February ends with the year. -/
theorem lt_daysBeforeMonth_of_january (year : ℤ) {doy : ℕ} (hlow : 10 ≤ marchMonth doy)
    (hdoy : doy < daysInYear year) :
    doy < daysBeforeMarchMonth (marchMonth doy) + daysInMonth year (marchMonth doy - 9) := by
  have hlt := lt_daysBeforeMarchMonth doy
  have hbound := daysInYear_le year
  obtain hjanuary | hfebruary : marchMonth doy = 10 ∨ marchMonth doy = 11 := by
    unfold marchMonth at hlow ⊢
    omega
  · rw [hjanuary] at hlt ⊢
    exact hlt
  · rw [hfebruary] at hlt ⊢
    simp only [daysBeforeMarchMonth, daysInMonth, daysInYear] at hdoy ⊢
    split_ifs at hdoy ⊢ <;> omega

/-! ## The date of a day number -/

/-- The truncating division of the source rounds down. -/
theorem era_eq (z : ℤ) : (if 0 ≤ z then z else z - 146096).tdiv 146097 = z / 146097 := by
  have hsign : Int.sign 146097 = 1 := rfl
  rw [Int.tdiv_eq_ediv, hsign]
  split_ifs with hz hexact hexact
  · omega
  · exact absurd (.inl hz) hexact
  · rcases hexact with hpos | hdvd <;> omega
  · omega

/-- The day of the era, from the first of March on which the era starts. -/
def dayOfEra (z : ℤ) : ℕ := ((z + 719468) % 146097).toNat

/-- The year, from March to February. -/
def marchYear (z : ℤ) : ℤ := yearOfEra (dayOfEra z) + (z + 719468) / 146097 * 400

/-- `doy`, by the day of the era. -/
def dayOfMarchYear (doe : ℕ) : ℕ := doe - daysBeforeYearOfEra (yearOfEra doe)

theorem dayOfEra_lt (z : ℤ) : dayOfEra z < 146097 := by
  unfold dayOfEra
  omega

theorem civilFromDays_eq (z : ℤ) : civilFromDays z =
    let doy := dayOfMarchYear (dayOfEra z)
    let mp := marchMonth doy
    let m := if mp < 10 then mp + 3 else mp - 9
    (if m ≤ 2 then marchYear z + 1 else marchYear z, m, doy - daysBeforeMarchMonth mp + 1) := by
  have hdoe : (z + 719468 - (z + 719468) / 146097 * 146097).toNat = dayOfEra z := by
    unfold dayOfEra
    omega
  have hdoy : dayOfEra z - (365 * yearOfEra (dayOfEra z) + yearOfEra (dayOfEra z) / 4 -
      yearOfEra (dayOfEra z) / 100) = dayOfMarchYear (dayOfEra z) := by
    have hlt := yearOfEra_lt (dayOfEra_lt z)
    unfold dayOfMarchYear daysBeforeYearOfEra
    omega
  have hyoe : (dayOfEra z - dayOfEra z / 1460 + dayOfEra z / 36524 - dayOfEra z / 146096) / 365 =
      yearOfEra (dayOfEra z) := rfl
  simp only [civilFromDays, era_eq, hdoe, hyoe, hdoy]
  rfl

/-- The first of January within a year that starts in March. -/
theorem daysBeforeYear_marchYear (yoe : ℕ) (era : ℤ) :
    daysBeforeYear (yoe + era * 400 + 1) = 146097 * era + daysBeforeYearOfEra yoe := by
  unfold daysBeforeYear daysBeforeYearOfEra
  omega

/-- The day is within its year, and its number counts from the first of January in it. -/
theorem dayOfMarchYear_spec (z : ℤ) :
    dayOfMarchYear (dayOfEra z) < daysInYear (marchYear z + 1) ∧
      z = daysBeforeYear (marchYear z + 1) + dayOfMarchYear (dayOfEra z) - 719468 := by
  obtain ⟨hle, hlt⟩ := yearOfEra_spec (dayOfEra_lt z)
  have hfirst := daysBeforeYear_marchYear (yearOfEra (dayOfEra z)) ((z + 719468) / 146097)
  have hnext := daysBeforeYear_marchYear (yearOfEra (dayOfEra z) + 1) ((z + 719468) / 146097)
  have hsucc := daysBeforeYear_succ (marchYear z + 1)
  have hyear : marchYear z + 1 + 1 =
      (yearOfEra (dayOfEra z) + 1 : ℕ) + (z + 719468) / 146097 * 400 + 1 := by
    unfold marchYear
    push_cast
    ring
  have hdoe : (dayOfEra z : ℤ) = z + 719468 - 146097 * ((z + 719468) / 146097) := by
    unfold dayOfEra
    omega
  rw [hyear, hnext] at hsucc
  rw [← marchYear] at hfirst
  unfold dayOfMarchYear
  omega

/-- What is computed is the date with the given number. -/
theorem exists_date (z : ℤ) : ∃ date : Date,
    civilFromDays z = (date.year, date.month, date.day) ∧ date.dayNumber = z := by
  obtain ⟨hdoy, hz⟩ := dayOfMarchYear_spec z
  have heq := civilFromDays_eq z
  generalize dayOfMarchYear (dayOfEra z) = doy at *
  have hle := daysBeforeMarchMonth_le doy
  have hlt := lt_daysBeforeMarchMonth doy
  dsimp only at heq
  by_cases hmarch : marchMonth doy < 10
  · -- March to December: the year that counts from March is the civil year
    have hmonth := daysBeforeMonth_of_march (marchYear z) hmarch
    have hlength := daysBeforeMarchMonth_succ_le (marchYear z) hmarch
    have hsucc := daysBeforeYear_succ (marchYear z)
    rw [if_pos hmarch, if_neg (by omega)] at heq
    refine ⟨⟨marchYear z, marchMonth doy + 3, doy - daysBeforeMarchMonth (marchMonth doy) + 1,
      by omega, by omega, by omega, by omega⟩, heq, ?_⟩
    simp only [Date.dayNumber, Date.dayOfYear]
    omega
  · -- January and February belong to the next civil year
    have hlow : 10 ≤ marchMonth doy := by omega
    have hlength := lt_daysBeforeMonth_of_january (marchYear z + 1) hlow hdoy
    have hmp : marchMonth doy < 12 := by
      have hbound := daysInYear_le (marchYear z + 1)
      unfold marchMonth
      omega
    have hmonth := daysBeforeMonth_of_january (marchYear z + 1) hlow hmp
    rw [if_neg hmarch, if_pos (by omega)] at heq
    refine ⟨⟨marchYear z + 1, marchMonth doy - 9, doy - daysBeforeMarchMonth (marchMonth doy) + 1,
      by omega, by omega, by omega, by omega⟩, heq, ?_⟩
    simp only [Date.dayNumber, Date.dayOfYear]
    omega

/-- The date of a day number. -/
def civilDate (z : ℤ) : Date where
  year := (civilFromDays z).1
  month := (civilFromDays z).2.1
  day := (civilFromDays z).2.2
  one_le_month := by
    obtain ⟨date, heq, -⟩ := exists_date z
    rw [heq]
    exact date.one_le_month
  month_le := by
    obtain ⟨date, heq, -⟩ := exists_date z
    rw [heq]
    exact date.month_le
  one_le_day := by
    obtain ⟨date, heq, -⟩ := exists_date z
    rw [heq]
    exact date.one_le_day
  day_le := by
    obtain ⟨date, heq, -⟩ := exists_date z
    rw [heq]
    exact date.day_le

theorem civilDate_dayNumber (z : ℤ) : (civilDate z).dayNumber = z := by
  obtain ⟨date, heq, hnumber⟩ := exists_date z
  have hdate : civilDate z = date := by
    apply Date.ext
    · exact congrArg Prod.fst heq
    · exact congrArg (fun civil => civil.2.1) heq
    · exact congrArg (fun civil => civil.2.2) heq
  rw [hdate, hnumber]

theorem civilDate_of_dayNumber (date : Date) : civilDate date.dayNumber = date :=
  Date.dayNumber_strictMono.injective (civilDate_dayNumber date.dayNumber)

theorem civilDate_succ (z : ℤ) : civilDate (z + 1) = (civilDate z).next := by
  apply Date.dayNumber_strictMono.injective
  rw [civilDate_dayNumber, Date.dayNumber_next, civilDate_dayNumber]

theorem civilDate_strictMono : StrictMono civilDate := by
  intro first second hlt
  rw [← Date.dayNumber_strictMono.lt_iff_lt, civilDate_dayNumber, civilDate_dayNumber]
  exact hlt

/-! ## The operations stay within their types -/

/-- The era and the day in it, operation by operation. -/
def checkedEra (z : ℤ) : Option (ℤ × ℕ) := do
  let z ← i64? (z + 719468)
  let base ← (if 0 ≤ z then some z else i64? (z - 146096))
  let era := base.tdiv 146097
  let start ← i64? (era * 146097)
  let offset ← i64? (z - start)
  let doe ← unsigned? 64 offset
  some (era, doe)

/-- The year of the era and the day in it. -/
def checkedYear (doe : ℕ) : Option (ℕ × ℕ) := do
  let days ← unsigned? 64 (doe - (doe / 1460 : ℕ))
  let days ← unsigned? 64 (days + (doe / 36524 : ℕ))
  let days ← unsigned? 64 (days - (doe / 146096 : ℕ))
  let yoe := days / 365
  let before ← unsigned? 64 ((365 * yoe : ℕ) + (yoe / 4 : ℕ))
  let before ← unsigned? 64 (before - (yoe / 100 : ℕ))
  let doy ← unsigned? 64 (doe - before)
  some (yoe, doy)

/-- The month and the day in it. -/
def checkedMonth (doy : ℕ) : Option (ℕ × ℕ) := do
  let scaled ← unsigned? 64 (5 * doy + 2)
  let mp := scaled / 153
  let scaled ← unsigned? 64 (153 * mp + 2)
  let day ← unsigned? 64 (doy - (scaled / 5 : ℕ))
  let day ← unsigned? 64 (day + 1)
  let d ← unsigned? 32 day
  let month ← (if mp < 10 then unsigned? 64 (mp + 3) else unsigned? 64 (mp - 9))
  let m ← unsigned? 32 month
  some (m, d)

/-- `civil_from_days`, failing where an operation overflows, goes below zero or a
cast changes the value. -/
def checkedCivilFromDays (z : ℤ) : Option (ℤ × ℕ × ℕ) := do
  let (era, doe) ← checkedEra z
  let (yoe, doy) ← checkedYear doe
  let years ← i64? (era * 400)
  let y ← i64? (yoe + years)
  let (m, d) ← checkedMonth doy
  let year ← (if m ≤ 2 then i64? (y + 1) else some y)
  some (year, m, d)

theorem checkedEra_eq {z : ℤ} (hlow : -2 ^ 63 ≤ z) (hhigh : z + 719468 < 2 ^ 63) :
    checkedEra z = some ((z + 719468) / 146097, dayOfEra z) := by
  have hbase : (if 0 ≤ z + 719468 then some (z + 719468) else i64? (z + 719468 - 146096)) =
      some (if 0 ≤ z + 719468 then z + 719468 else z + 719468 - 146096) := by
    split_ifs with hz
    · rfl
    · exact if_pos (by omega)
  have hdoe : z + 719468 - (z + 719468) / 146097 * 146097 = dayOfEra z := by
    unfold dayOfEra
    omega
  have hlt := dayOfEra_lt z
  unfold checkedEra
  rw [bind_of_eq_some (i64?_eq (by omega) hhigh), bind_of_eq_some hbase]
  dsimp only
  rw [era_eq, bind_of_eq_some (i64?_eq (by omega) (by omega)),
    bind_of_eq_some (i64?_eq (by omega) (by omega)),
    bind_of_eq_some (unsigned?_eq hdoe (by omega))]

theorem checkedYear_eq {doe : ℕ} (hdoe : doe < 146097) :
    checkedYear doe = some (yearOfEra doe, dayOfMarchYear doe) := by
  have hyoe := yearOfEra_lt hdoe
  obtain ⟨hle, -⟩ := yearOfEra_spec hdoe
  unfold checkedYear
  rw [bind_of_eq_some (unsigned?_eq (m := doe - doe / 1460) (by omega) (by omega)),
    bind_of_eq_some (unsigned?_eq (m := doe - doe / 1460 + doe / 36524) (by omega) (by omega)),
    bind_of_eq_some (unsigned?_eq (m := doe - doe / 1460 + doe / 36524 - doe / 146096)
      (by omega) (by omega)), ← yearOfEra]
  dsimp only
  unfold daysBeforeYearOfEra at hle
  rw [bind_of_eq_some (unsigned?_eq (m := 365 * yearOfEra doe + yearOfEra doe / 4)
      (by omega) (by omega)),
    bind_of_eq_some (unsigned?_eq
      (m := 365 * yearOfEra doe + yearOfEra doe / 4 - yearOfEra doe / 100) (by omega) (by omega)),
    bind_of_eq_some (unsigned?_eq (m := dayOfMarchYear doe)
      (by unfold dayOfMarchYear daysBeforeYearOfEra; omega)
      (by unfold dayOfMarchYear; omega))]

/-- The month of the civil year. -/
def civilMonth (mp : ℕ) : ℕ := if mp < 10 then mp + 3 else mp - 9

theorem checkedMonth_eq {doy : ℕ} (hdoy : doy < 366) :
    checkedMonth doy = some (civilMonth (marchMonth doy),
      doy - daysBeforeMarchMonth (marchMonth doy) + 1) := by
  have hle := daysBeforeMarchMonth_le doy
  have hmp : marchMonth doy < 12 := by
    unfold marchMonth
    omega
  have hmonth : (if marchMonth doy < 10 then unsigned? 64 (marchMonth doy + 3)
      else unsigned? 64 (marchMonth doy - 9)) = some (civilMonth (marchMonth doy)) := by
    unfold civilMonth
    split_ifs with hmarch
    · exact unsigned?_eq (by omega) (by omega)
    · exact unsigned?_eq (by omega) (by omega)
  have hm : civilMonth (marchMonth doy) ≤ 12 := by
    unfold civilMonth
    split_ifs <;> omega
  unfold checkedMonth
  rw [bind_of_eq_some (unsigned?_eq (m := 5 * doy + 2) (by omega) (by omega))]
  dsimp only
  rw [← marchMonth,
    bind_of_eq_some (unsigned?_eq (m := 153 * marchMonth doy + 2) (by omega) (by omega)),
    ← daysBeforeMarchMonth,
    bind_of_eq_some (unsigned?_eq (m := doy - daysBeforeMarchMonth (marchMonth doy))
      (by omega) (by omega)),
    bind_of_eq_some (unsigned?_eq (m := doy - daysBeforeMarchMonth (marchMonth doy) + 1)
      (by omega) (by omega)),
    bind_of_eq_some (unsigned?_eq rfl (by omega)), bind_of_eq_some hmonth,
    bind_of_eq_some (unsigned?_eq rfl (by omega))]

/-- No operation fails on a day number for which the first addition does not overflow. -/
theorem checkedCivilFromDays_eq {z : ℤ} (hlow : -2 ^ 63 ≤ z) (hhigh : z + 719468 < 2 ^ 63) :
    checkedCivilFromDays z = some (civilFromDays z) := by
  have hdoe := dayOfEra_lt z
  have hyoe := yearOfEra_lt hdoe
  have hdoy : dayOfMarchYear (dayOfEra z) < 366 :=
    lt_of_lt_of_le (dayOfMarchYear_spec z).1 (daysInYear_le _)
  have hyears : i64? ((z + 719468) / 146097 * 400) = some ((z + 719468) / 146097 * 400) :=
    i64?_eq (by omega) (by omega)
  have hyear : i64? ((yearOfEra (dayOfEra z) : ℤ) + (z + 719468) / 146097 * 400) =
      some (marchYear z) := by
    unfold marchYear
    exact i64?_eq (by omega) (by omega)
  have hcivil : (if civilMonth (marchMonth (dayOfMarchYear (dayOfEra z))) ≤ 2
      then i64? (marchYear z + 1) else some (marchYear z)) =
        some (if civilMonth (marchMonth (dayOfMarchYear (dayOfEra z))) ≤ 2
          then marchYear z + 1 else marchYear z) := by
    split_ifs
    · unfold marchYear
      exact i64?_eq (by omega) (by omega)
    · rfl
  unfold checkedCivilFromDays
  rw [bind_of_eq_some (checkedEra_eq hlow hhigh)]
  dsimp only
  rw [bind_of_eq_some (checkedYear_eq hdoe)]
  dsimp only
  rw [bind_of_eq_some hyears, bind_of_eq_some hyear, bind_of_eq_some (checkedMonth_eq hdoy)]
  dsimp only
  rw [bind_of_eq_some hcivil, civilFromDays_eq]
  rfl

/-- The day of a message is far below the first one that overflows. -/
theorem messageDay_lt {timestamp : Duration} (htimestamp : timestamp < 2 ^ 64 * 10 ^ 9) :
    ((timestamp / 1000000000 / 86400 : ℕ) : ℤ) + 719468 < 2 ^ 63 := by
  have hday : ∀ seconds : ℕ, seconds < 2 ^ 64 →
      ((seconds / 86400 : ℕ) : ℤ) + 719468 < 2 ^ 63 := by
    intro seconds hseconds
    omega
  apply hday
  rw [Nat.div_lt_iff_lt_mul (by decide)]
  exact htimestamp

/-- `civil_from_days` is the calendar: no operation on the way fails, the result is
the date with the given number, day 0 is 1970-01-01, the next number yields the next
date, later numbers yield later dates, no other date has the number, and the day of
every message is within the bounds. -/
theorem civilFromDays_gregorian (z : ℤ) (hlow : -2 ^ 63 ≤ z) (hhigh : z + 719468 < 2 ^ 63) :
    checkedCivilFromDays z = some (civilFromDays z) ∧
      civilFromDays z = ((civilDate z).year, (civilDate z).month, (civilDate z).day) ∧
      civilDate 0 = Date.epoch ∧
      civilDate (z + 1) = (civilDate z).next ∧
      (∀ later, z < later → civilDate z < civilDate later) ∧
      (civilDate z).dayNumber = z ∧
      (∀ date : Date, civilDate date.dayNumber = date) ∧
      ∀ timestamp : Duration, timestamp < 2 ^ 64 * 10 ^ 9 →
        ((timestamp / 1000000000 / 86400 : ℕ) : ℤ) + 719468 < 2 ^ 63 :=
  ⟨checkedCivilFromDays_eq hlow hhigh, rfl,
    Date.dayNumber_epoch ▸ civilDate_of_dayNumber Date.epoch, civilDate_succ z,
    fun _ hlt => civilDate_strictMono hlt, civilDate_dayNumber z, civilDate_of_dayNumber,
    fun _ htimestamp => messageDay_lt htimestamp⟩

/-- 2000 is a leap year and 1900 is not. -/
theorem civilFromDays_centuries :
    civilFromDays 11016 = (2000, 2, 29) ∧
      civilDate (11016 + 1) = (civilDate 11016).next ∧
      civilFromDays (-25509) = (1900, 2, 28) ∧
      civilDate (-25509 + 1) = (civilDate (-25509)).next ∧
      civilFromDays (-25509 + 1) = (1900, 3, 1) :=
  ⟨by decide, (civilFromDays_gregorian 11016 (by decide) (by decide)).2.2.2.1, by decide,
    (civilFromDays_gregorian (-25509) (by decide) (by decide)).2.2.2.1, by decide⟩

end Tlscap
