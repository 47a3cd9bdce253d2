import Mathlib.Tactic.IntervalCases
import DuckLake.Stats.Temporal

/- `days_from_civil` and `civil_from_days` (`stats_encode.rs`) are inverse to each other,
   before year 0 and across leap centuries as well, and the day counts are in the order
   of the dates.

   Both count from the first of March of year 0 in eras of 146097 days. What the source
   computes stays within its integers when the count from there and the days of the whole
   eras before it do (`NoOverflow`): days of an era, months and years are far smaller. -/

namespace DuckLake.StatsCompare

open Gregorian

/-- A date of the proleptic Gregorian calendar. -/
structure IsDate (year month day : Int) : Prop where
  monthExists : 1 ≤ month ∧ month ≤ 12
  dayExists : 1 ≤ day ∧ day ≤ monthDays year month

/-- Earlier by year, month and day. -/
def DateBefore (year month day year' month' day' : Int) : Prop :=
  year < year' ∨ year = year' ∧ (month < month' ∨ month = month' ∧ day < day')

def InI64 (n : Int) : Prop := -2 ^ 63 ≤ n ∧ n ≤ 2 ^ 63 - 1

/-- A day count whose conversions stay within the source's integers. -/
structure NoOverflow (days : Int) : Prop where
  count : InI64 days
  shifted : InI64 (days + 719468)
  eras : InI64 ((days + 719468) / 146097 * 146097)

/-! ## Order -/

theorem marchDay_le {a b : Int} (h : a ≤ b) : marchDay a ≤ marchDay b := by
  unfold marchDay
  omega

theorem marchDay_pred (year : Int) : marchDay year = marchDay (year - 1) + if isLeap year then 366 else 365 := by
  have hleap : isLeap year = true ↔ year % 4 = 0 ∧ (year % 100 ≠ 0 ∨ year % 400 = 0) := by simp [isLeap]
  unfold marchDay
  by_cases h : isLeap year = true
  · have h' := hleap.mp h
    rw [if_pos h]
    omega
  · have h' := mt hleap.mpr h
    rw [if_neg h]
    omega

/-- The days of a year before a month. -/
def daysBefore (leap : Bool) (month : Int) : Int :=
  if month ≤ 2 then 31 * (month - 1) else (153 * (month - 3) + 2) / 5 + if leap then 60 else 59

theorem dayOfCivil_eq (year month day : Int) (hmonth : 1 ≤ month ∧ month ≤ 12) :
    dayOfCivil year month day = dayOfCivil year 1 1 + daysBefore (isLeap year) month + (day - 1) := by
  unfold dayOfCivil daysBefore
  have hyear := marchDay_pred year
  by_cases h : month ≤ 2
  · simp only [if_pos h]
    norm_num
    omega
  · simp only [if_neg h]
    norm_num
    rw [hyear]
    cases isLeap year
    · simp only [Bool.false_eq_true, if_false]
      omega
    · simp only [if_true]
      omega

theorem daysBefore_le (leap : Bool) {month month' : Int} (h₁ : 1 ≤ month) (h : month ≤ month') :
    daysBefore leap month ≤ daysBefore leap month' := by
  unfold daysBefore
  cases leap
  · split <;> split <;> norm_num <;> omega
  · split <;> split <;> norm_num <;> omega

/-- A month begins when the one before it has ended, and the year ends with December. -/
theorem daysBefore_add_monthDays (year : Int) {month : Int} (h : 1 ≤ month ∧ month ≤ 12) :
    daysBefore (isLeap year) month + monthDays year month =
      if month = 12 then (if isLeap year then 366 else 365) else daysBefore (isLeap year) (month + 1) := by
  obtain ⟨h₁, h₂⟩ := h
  unfold monthDays
  cases isLeap year
  · interval_cases month <;> rfl
  · interval_cases month <;> rfl

theorem dayOfCivil_next_year (year : Int) :
    dayOfCivil (year + 1) 1 1 = dayOfCivil year 1 1 + if isLeap year then 366 else 365 := by
  have hpred := marchDay_pred year
  unfold dayOfCivil
  norm_num
  rw [hpred]
  omega

variable {year month day : Int}

/-- The days of a year up to the end of a month are before each later month and the next year. -/
theorem dayOfMonth_lt (hdate : IsDate year month day) :
    (∀ month', month < month' → month' ≤ 12 →
        daysBefore (isLeap year) month + (day - 1) < daysBefore (isLeap year) month') ∧
      dayOfCivil year 1 1 + daysBefore (isLeap year) month + (day - 1) < dayOfCivil (year + 1) 1 1 := by
  obtain ⟨hmonth, hday⟩ := hdate
  have hend := daysBefore_add_monthDays year hmonth
  constructor
  · intro month' hlt hle
    have hnext := daysBefore_le (isLeap year) (show 1 ≤ month + 1 by omega) (show month + 1 ≤ month' from hlt)
    rw [if_neg (show month ≠ 12 by omega)] at hend
    omega
  · rw [dayOfCivil_next_year]
    by_cases hlast : month = 12
    · rw [if_pos hlast] at hend
      omega
    · have hnext := daysBefore_le (isLeap year) (show 1 ≤ month + 1 by omega) (show month + 1 ≤ 12 by omega)
      have hdecember := daysBefore_add_monthDays year (show (1 : Int) ≤ 12 ∧ (12 : Int) ≤ 12 by omega)
      rw [if_neg hlast] at hend
      rw [if_pos rfl, show monthDays year 12 = 31 from rfl] at hdecember
      omega

theorem dayOfCivil_first_le {a b : Int} (h : a ≤ b) : dayOfCivil a 1 1 ≤ dayOfCivil b 1 1 := by
  have hmarch := marchDay_le (show a - 1 ≤ b - 1 by omega)
  unfold dayOfCivil
  norm_num
  omega

/-- A later date has a larger count. -/
theorem dayOfCivil_lt {year month day year' month' day' : Int} (hdate : IsDate year month day)
    (hdate' : IsDate year' month' day') (h : DateBefore year month day year' month' day') :
    dayOfCivil year month day < dayOfCivil year' month' day' := by
  have hend := dayOfMonth_lt hdate
  obtain ⟨hmonth, hday⟩ := hdate
  obtain ⟨hmonth', hday'⟩ := hdate'
  rw [dayOfCivil_eq year month day hmonth, dayOfCivil_eq year' month' day' hmonth']
  rcases h with hyear | ⟨rfl, hmonths | ⟨rfl, hdays⟩⟩
  · have hyears := dayOfCivil_first_le (show year + 1 ≤ year' from hyear)
    have hnonneg : 0 ≤ daysBefore (isLeap year') month' := daysBefore_le _ le_rfl hmonth'.1
    omega
  · have hbefore := hend.1 month' hmonths hmonth'.2
    omega
  · omega

theorem dateBefore_or_eq (year month day year' month' day' : Int) :
    DateBefore year month day year' month' day' ∨ (year = year' ∧ month = month' ∧ day = day') ∨
      DateBefore year' month' day' year month day := by
  unfold DateBefore
  omega

theorem dayOfCivil_injective {year month day year' month' day' : Int} (hdate : IsDate year month day)
    (hdate' : IsDate year' month' day') (h : dayOfCivil year month day = dayOfCivil year' month' day') :
    year = year' ∧ month = month' ∧ day = day' := by
  rcases dateBefore_or_eq year month day year' month' day' with hbefore | heq | hafter
  · exact absurd h (dayOfCivil_lt hdate hdate' hbefore).ne
  · exact heq
  · exact absurd h (dayOfCivil_lt hdate' hdate hafter).ne'

/-! ## Both ways -/

theorem isDate_civilFromDays (days : Int) :
    IsDate (civilFromDays days).1 (civilFromDays days).2.1 (civilFromDays days).2.2 :=
  ⟨(civilFromDays_range days).1, (civilFromDays_range days).2.1, civilFromDays_le_monthDays days⟩

theorem civilFromDays_dayOfCivil (h : IsDate year month day) :
    civilFromDays (dayOfCivil year month day) = (year, month, day) := by
  obtain ⟨hyear, hmonth, hday⟩ := dayOfCivil_injective (isDate_civilFromDays (dayOfCivil year month day)) h
    (dayOfCivil_civilFromDays _)
  exact Prod.ext hyear (Prod.ext hmonth hday)

theorem checkedI64_eq_some {n m : Int} : checkedI64 n = some m ↔ InI64 n ∧ n = m := by
  unfold checkedI64 InI64
  rw [Option.ite_none_right_eq_some, Option.some.injEq]

theorem marchDay_eq (year : Int) :
    marchDay year = year / 400 * 146097 + (year % 400 * 365 + year % 400 / 4 - year % 400 / 100) := by
  unfold marchDay
  omega

theorem dayOfYear_le (h : IsDate year month day) :
    0 ≤ (153 * ((month + 9) % 12) + 2) / 5 + day - 1 ∧ (153 * ((month + 9) % 12) + 2) / 5 + day - 1 ≤ 365 := by
  obtain ⟨⟨h₁, h₂⟩, hday⟩ := h
  have hlength : monthDays year month ≤ if month = 2 then 29 else 31 := by
    unfold monthDays
    split
    · split <;> omega
    · split <;> omega
  split at hlength <;> omega

/-- The steps of the count: the days of the whole eras, the days from the first of March of year 0, and the count. -/
theorem daysFromCivil_checked (h : IsDate year month day) :
    daysFromCivil year month day =
      (checkedI64 ((dayOfCivil year month day + 719468) / 146097 * 146097)).bind fun _ =>
        (checkedI64 (dayOfCivil year month day + 719468)).bind fun _ =>
          checkedI64 (dayOfCivil year month day) := by
  have hdayOfYear := dayOfYear_le h
  obtain ⟨⟨h₁, h₂⟩, hday⟩ := h
  obtain ⟨y, hy⟩ : ∃ y, y = if month ≤ 2 then year - 1 else year := ⟨_, rfl⟩
  obtain ⟨t, ht⟩ : ∃ t, t = (153 * ((month + 9) % 12) + 2) / 5 + day - 1 := ⟨_, rfl⟩
  have hmarch : (if month ≤ 2 then month + 9 else month - 3) = (month + 9) % 12 := by
    split <;> omega
  have hcount : dayOfCivil year month day = marchDay y + t - 719468 := by
    unfold dayOfCivil
    dsimp only
    rw [← hy, hmarch, ht]
    omega
  have hera : (marchDay y + t) / 146097 = y / 400 := by
    rw [marchDay_eq]
    omega
  unfold daysFromCivil
  rw [if_neg (not_not.mpr ⟨h₁, h₂⟩), if_neg (not_not.mpr hday)]
  dsimp only
  rw [← hy, ← ht, hcount, Int.sub_add_cancel, hera]
  cases hchecked : checkedI64 (y / 400 * 146097) with
  | none => rfl
  | some eraDays =>
    obtain ⟨-, rfl⟩ := checkedI64_eq_some.mp hchecked
    have hsum : y / 400 * 146097 + (y % 400 * 365 + y % 400 / 4 - y % 400 / 100 + t) = marchDay y + t := by
      rw [marchDay_eq]
      omega
    dsimp only [bind, Option.bind]
    rw [hsum]
    cases hshifted : checkedI64 (marchDay y + t) with
    | none => rfl
    | some shifted =>
      obtain ⟨-, rfl⟩ := checkedI64_eq_some.mp hshifted
      rfl

/-- The count of a date, where it stays within the integers. -/
theorem daysFromCivil_eq_some {year month day days : Int} :
    daysFromCivil year month day = some days ↔
      IsDate year month day ∧ NoOverflow (dayOfCivil year month day) ∧ dayOfCivil year month day = days := by
  by_cases h : IsDate year month day
  · rw [daysFromCivil_checked h]
    simp only [Option.bind_eq_some_iff, checkedI64_eq_some]
    constructor
    · rintro ⟨-, ⟨heras, -⟩, -, ⟨hshifted, -⟩, hcount, hdays⟩
      exact ⟨h, ⟨hcount, hshifted, heras⟩, hdays⟩
    · rintro ⟨-, ⟨hcount, hshifted, heras⟩, hdays⟩
      exact ⟨_, ⟨heras, rfl⟩, _, ⟨hshifted, rfl⟩, hcount, hdays⟩
  · refine ⟨fun hsome => ?_, fun hdate => absurd hdate.1 h⟩
    unfold daysFromCivil at hsome
    split at hsome
    · cases hsome
    next hmonth =>
    split at hsome
    · cases hsome
    next hday => exact absurd ⟨not_not.mp hmonth, not_not.mp hday⟩ h

/-- Every date of a year of up to sixteen digits is in range. -/
theorem noOverflow_of_year (h : IsDate year month day)
    (hyear : -25 * 10 ^ 15 ≤ year ∧ year ≤ 25 * 10 ^ 15) : NoOverflow (dayOfCivil year month day) := by
  have hmarch : (if month ≤ 2 then month + 9 else month - 3) = (month + 9) % 12 := by
    have := h.monthExists
    split <;> omega
  have hdayOfYear := dayOfYear_le h
  obtain ⟨y, hy⟩ : ∃ y, y = if month ≤ 2 then year - 1 else year := ⟨_, rfl⟩
  have hy' : -25 * 10 ^ 15 - 1 ≤ y ∧ y ≤ 25 * 10 ^ 15 := by
    rw [hy]
    split <;> omega
  have hcount : -9131062500000000000 - 10 ^ 6 ≤ dayOfCivil year month day ∧
      dayOfCivil year month day ≤ 9131062500000000000 := by
    unfold dayOfCivil
    dsimp only
    rw [← hy, hmarch]
    unfold marchDay
    omega
  exact ⟨by unfold InI64; omega, by unfold InI64; omega, by unfold InI64; omega⟩

/-- The conversions between dates and day counts are inverse, and keep the order of dates. -/
theorem calendar_conversions_inverse :
    (∀ days, NoOverflow days → IsDate (civilFromDays days).1 (civilFromDays days).2.1 (civilFromDays days).2.2 ∧
      daysFromCivil (civilFromDays days).1 (civilFromDays days).2.1 (civilFromDays days).2.2 = some days) ∧
    (∀ year month day, IsDate year month day → NoOverflow (dayOfCivil year month day) →
      ∃ days, daysFromCivil year month day = some days ∧ civilFromDays days = (year, month, day)) ∧
    ∀ year month day days year' month' day' days', daysFromCivil year month day = some days →
      daysFromCivil year' month' day' = some days' → (DateBefore year month day year' month' day' ↔ days < days') := by
  refine ⟨fun days h => ⟨isDate_civilFromDays days, ?_⟩, fun year month day hdate h => ?_, ?_⟩
  · have hback := dayOfCivil_civilFromDays days
    exact daysFromCivil_eq_some.mpr ⟨isDate_civilFromDays days, hback.symm ▸ h, hback⟩
  · exact ⟨_, daysFromCivil_eq_some.mpr ⟨hdate, h, rfl⟩, civilFromDays_dayOfCivil hdate⟩
  · intro year month day days year' month' day' days' hdays hdays'
    obtain ⟨hdate, -, rfl⟩ := daysFromCivil_eq_some.mp hdays
    obtain ⟨hdate', -, rfl⟩ := daysFromCivil_eq_some.mp hdays'
    refine ⟨dayOfCivil_lt hdate hdate', fun hlt => ?_⟩
    rcases dateBefore_or_eq year month day year' month' day' with hbefore | ⟨rfl, rfl, rfl⟩ | hafter
    · exact hbefore
    · exact absurd hlt (lt_irrefl _)
    · exact absurd hlt (dayOfCivil_lt hdate' hdate hafter).asymm

/-- The last day of a leap century before year 0, and the days around it. -/
theorem leap_century_inverse :
    (IsDate (-400) 2 29 ∧ NoOverflow (dayOfCivil (-400) 2 29)) ∧
    (∃ days, daysFromCivil (-400) 2 29 = some days ∧ civilFromDays days = (-400, 2, 29)) ∧
    (NoOverflow (-865566) ∧ daysFromCivil (civilFromDays (-865566)).1 (civilFromDays (-865566)).2.1
      (civilFromDays (-865566)).2.2 = some (-865566)) ∧
    (DateBefore (-400) 2 29 (-400) 3 1 ↔ dayOfCivil (-400) 2 29 < dayOfCivil (-400) 3 1) := by
  obtain ⟨hdays, hdates, horder⟩ := calendar_conversions_inverse
  have hdate : IsDate (-400) 2 29 := ⟨by decide, by decide⟩
  have hmarch : IsDate (-400) 3 1 := ⟨by decide, by decide⟩
  have hrange : NoOverflow (dayOfCivil (-400) 2 29) := noOverflow_of_year hdate (by decide)
  have hrange' : NoOverflow (dayOfCivil (-400) 3 1) := noOverflow_of_year hmarch (by decide)
  have hcount : NoOverflow (-865566) := ⟨by unfold InI64; decide, by unfold InI64; decide, by unfold InI64; decide⟩
  refine ⟨⟨hdate, hrange⟩, hdates (-400) 2 29 hdate hrange, ⟨hcount, (hdays _ hcount).2⟩, ?_⟩
  exact horder _ _ _ _ _ _ _ _ (daysFromCivil_eq_some.mpr ⟨hdate, hrange, rfl⟩)
    (daysFromCivil_eq_some.mpr ⟨hmarch, hrange', rfl⟩)

end DuckLake.StatsCompare
