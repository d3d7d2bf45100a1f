import Mathlib.Tactic.Common
import Mathlib.Tactic.IntervalCases

/-!
# Civil times

Days and seconds of the proleptic Gregorian calendar from the Unix epoch.
-/
namespace CivilTimes

def isLeap (year : Int) : Bool := year % 4 == 0 && (year % 100 != 0 || year % 400 == 0)

/-- The days of a common year before the month. -/
def daysBeforeMonth (month : Int) : Int :=
  if month ≤ 1 then 0 else if month = 2 then 31 else if month = 3 then 59 else if month = 4 then 90
  else if month = 5 then 120 else if month = 6 then 151 else if month = 7 then 181
  else if month = 8 then 212 else if month = 9 then 243 else if month = 10 then 273
  else if month = 11 then 304 else 334

def daysIn (month year : Int) : Int :=
  if month = 2 then if isLeap year = true then 29 else 28
  else if month = 4 ∨ month = 6 ∨ month = 9 ∨ month = 11 then 30 else 31

/-- The days from the first day of year 1 to that of the year. -/
def daysBeforeYear (year : Int) : Int :=
  365 * (year - 1) + (year - 1) / 4 - (year - 1) / 100 + (year - 1) / 400

/-- The first day of 1970 is day 0. -/
def unixDay (year month day : Int) : Int :=
  daysBeforeYear year - daysBeforeYear 1970 + daysBeforeMonth month +
    (if isLeap year = true ∧ 2 < month then 1 else 0) + (day - 1)

example : unixDay 2000 3 1 = 11017 := by decide

theorem daysBeforeMonth_bounds (month : Int) : 0 ≤ daysBeforeMonth month ∧ daysBeforeMonth month ≤ 334 := by
  simp only [daysBeforeMonth]
  omega

theorem daysIn_le (month year : Int) : daysIn month year ≤ 31 := by
  simp only [daysIn]
  split_ifs
  all_goals omega

theorem unixDay_bounds {year month day : Int} (hlow : 0 ≤ year) (hhigh : year ≤ 9999) (hday : 1 ≤ day)
    (hdays : day ≤ daysIn month year) : -719528 ≤ unixDay year month day ∧ unixDay year month day ≤ 2932897 := by
  have hle := daysIn_le month year
  obtain ⟨hm, hm'⟩ := daysBeforeMonth_bounds month
  have hleap : (if isLeap year = true ∧ 2 < month then (1 : Int) else 0) ≤ 1 ∧
      0 ≤ (if isLeap year = true ∧ 2 < month then (1 : Int) else 0) := by
    split_ifs
    all_goals omega
  simp only [unixDay, daysBeforeYear]
  omega

/-- The days of the year before the month. -/
def monthStart (year month : Int) : Int :=
  daysBeforeMonth month + if isLeap year = true ∧ 2 < month then 1 else 0

theorem unixDay_eq (year month day : Int) : unixDay year month day =
    daysBeforeYear year - daysBeforeYear 1970 + monthStart year month + (day - 1) := by
  rw [unixDay, monthStart, ← Int.add_assoc]

theorem daysBeforeYear_succ (year : Int) :
    daysBeforeYear (year + 1) = daysBeforeYear year + if isLeap year = true then 366 else 365 := by
  simp only [daysBeforeYear, isLeap, Bool.and_eq_true, Bool.or_eq_true, beq_iff_eq, bne_iff_ne]
  split_ifs with h
  · omega
  · omega

theorem monthStart_succ {month : Int} (hlow : 1 ≤ month) (hhigh : month ≤ 11) (year : Int) :
    monthStart year (month + 1) = monthStart year month + daysIn month year := by
  rw [monthStart, monthStart, daysIn]
  generalize isLeap year = leap
  interval_cases month <;> revert leap <;> decide

/-- The year of a day: 400 years have 146097 days, and the guess is off by one at most. -/
def yearOf (day : Int) : Int :=
  let elapsed := day + daysBeforeYear 1970
  let guess := elapsed * 400 / 146097 + 1
  if elapsed < daysBeforeYear guess then guess - 1
  else if daysBeforeYear (guess + 1) ≤ elapsed then guess + 1 else guess

/-- The last of the months, from `month` on, that starts by the day. -/
def monthFrom (year dayOfYear month : Int) : Nat → Int
  | 0 => month
  | n + 1 => if dayOfYear < monthStart year (month + 1) then month else monthFrom year dayOfYear (month + 1) n

/-- The month of a day of the year, that is counted from 0. -/
def monthOf (year dayOfYear : Int) : Int := monthFrom year dayOfYear 1 11

structure CivilDay where
  year : Int
  month : Int
  day : Int
  deriving DecidableEq, Repr

def civilDay (day : Int) : CivilDay :=
  let year := yearOf day
  let dayOfYear := day + daysBeforeYear 1970 - daysBeforeYear year
  let month := monthOf year dayOfYear
  ⟨year, month, dayOfYear - monthStart year month + 1⟩

example : civilDay 11017 = ⟨2000, 3, 1⟩ := by decide

theorem yearOf_spec (day : Int) : daysBeforeYear (yearOf day) ≤ day + daysBeforeYear 1970 ∧
    day + daysBeforeYear 1970 < daysBeforeYear (yearOf day + 1) := by
  simp only [yearOf]
  generalize day + daysBeforeYear 1970 = elapsed
  split_ifs with hbefore hafter
  · simp only [daysBeforeYear] at *
    omega
  · simp only [daysBeforeYear] at *
    omega
  · omega

theorem monthFrom_spec {year dayOfYear month : Int} {n : Nat} (hmonth : 1 ≤ month) (hn : month + n = 12)
    (hstart : monthStart year month ≤ dayOfYear) (hend : dayOfYear < monthStart year 12 + 31) :
    let found := monthFrom year dayOfYear month n
    (1 ≤ found ∧ found ≤ 12) ∧ monthStart year found ≤ dayOfYear ∧
      dayOfYear < monthStart year found + daysIn found year := by
  induction n generalizing month with
  | zero =>
    obtain rfl : month = 12 := by omega
    exact ⟨⟨hmonth, Int.le_refl 12⟩, hstart, hend⟩
  | succ n ih =>
    rw [monthFrom]
    split_ifs with hnext
    · rw [monthStart_succ hmonth (by omega)] at hnext
      exact ⟨by omega, hstart, hnext⟩
    · exact ih (by omega) (by omega) (by omega)

theorem monthOf_spec {year dayOfYear : Int} (hlow : 0 ≤ dayOfYear)
    (hhigh : dayOfYear < if isLeap year = true then 366 else 365) :
    let month := monthOf year dayOfYear
    (1 ≤ month ∧ month ≤ 12) ∧ monthStart year month ≤ dayOfYear ∧
      dayOfYear < monthStart year month + daysIn month year := by
  apply monthFrom_spec
  · exact Int.le_refl 1
  · rfl
  · simpa [monthStart, daysBeforeMonth] using hlow
  · cases hleap : isLeap year <;> simp [monthStart, daysBeforeMonth, hleap] at hhigh ⊢ <;> omega

/-- The civil day of a day is a day of the calendar, and it is that day. -/
theorem civilDay_spec (day : Int) :
    let civil := civilDay day
    (1 ≤ civil.month ∧ civil.month ≤ 12) ∧ (1 ≤ civil.day ∧ civil.day ≤ daysIn civil.month civil.year) ∧
      unixDay civil.year civil.month civil.day = day := by
  obtain ⟨hlow, hhigh⟩ := yearOf_spec day
  rw [daysBeforeYear_succ] at hhigh
  obtain ⟨hmonth, hstart, hend⟩ := @monthOf_spec (yearOf day) (day + daysBeforeYear 1970 - daysBeforeYear (yearOf day))
    (by omega) (by omega)
  refine ⟨hmonth, ?_, ?_⟩
  · simp only [civilDay]
    omega
  · simp only [civilDay, unixDay_eq]
    omega

theorem civilDay_year {day : Int} (hlow : -719528 ≤ day) (hhigh : day < 2932897) :
    0 ≤ (civilDay day).year ∧ (civilDay day).year ≤ 9999 := by
  obtain ⟨hfrom, hto⟩ := yearOf_spec day
  change 0 ≤ yearOf day ∧ yearOf day ≤ 9999
  generalize yearOf day = year at *
  simp only [daysBeforeYear] at *
  constructor <;> omega

end CivilTimes
