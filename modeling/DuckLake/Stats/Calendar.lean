import DuckLake.Lib.Gregorian
import DuckLake.Stats.Encode

/- The dates `civil_from_days` gives (`stats_encode.rs`), for days before 1970 and before
   year 1 as well: the date tells the day. -/

namespace DuckLake

open Gregorian

/-- The date that many days after the first of March. -/
def civilOf (year dayOfYear : Int) : Int × Int × Int :=
  let monthFromMarch := (5 * dayOfYear + 2) / 153
  let month := if monthFromMarch < 10 then monthFromMarch + 3 else monthFromMarch - 9
  (year + (if month ≤ 2 then 1 else 0), month, dayOfYear - (153 * monthFromMarch + 2) / 5 + 1)

theorem exists_civilOf (days : Int) : ∃ year t, 0 ≤ t ∧ t ≤ 365 ∧ days + 719468 < marchDay (year + 1) ∧
    days + 719468 = marchDay year + t ∧ civilFromDays days = civilOf year t := by
  obtain ⟨t, h₀, h₁, hnext, hday, ht⟩ := exists_marchDay (days + 719468)
  refine ⟨_, t, h₀, h₁, hnext, hday, ?_⟩
  rw [ht]
  rfl

/-- The day a date names. -/
def dayOfCivil (year month day : Int) : Int :=
  let monthFromMarch := if month ≤ 2 then month + 9 else month - 3
  marchDay (if month ≤ 2 then year - 1 else year) + (153 * monthFromMarch + 2) / 5 + day - 1 - 719468

theorem dayOfCivil_civilFromDays (days : Int) :
    dayOfCivil (civilFromDays days).1 (civilFromDays days).2.1 (civilFromDays days).2.2 = days := by
  obtain ⟨year, t, h₀, h₁, -, hday, hcivil⟩ := exists_civilOf days
  obtain ⟨q, hq⟩ : ∃ q, q = (5 * t + 2) / 153 := ⟨_, rfl⟩
  have hq₁ : 0 ≤ q ∧ q ≤ 11 := by omega
  simp only [hcivil, civilOf, dayOfCivil, ← hq]
  by_cases h : q < 10
  · have hmonth : ¬ q + 3 ≤ 2 := by omega
    simp only [if_pos h, if_neg hmonth, Int.add_zero, Int.add_sub_cancel]
    omega
  · have hmonth : q - 9 ≤ 2 := by omega
    simp only [if_neg h, if_pos hmonth, Int.add_sub_cancel, Int.sub_add_cancel]
    omega

theorem civilFromDays_injective : Function.Injective civilFromDays := by
  intro a b h
  rw [← dayOfCivil_civilFromDays a, ← dayOfCivil_civilFromDays b, h]

theorem civilFromDays_range (days : Int) : (1 ≤ (civilFromDays days).2.1 ∧ (civilFromDays days).2.1 ≤ 12) ∧
    1 ≤ (civilFromDays days).2.2 ∧ (civilFromDays days).2.2 ≤ 31 := by
  obtain ⟨year, t, h₀, h₁, -, -, hcivil⟩ := exists_civilOf days
  rw [hcivil]
  unfold civilOf
  dsimp only
  obtain ⟨q, hq⟩ : ∃ q, q = (5 * t + 2) / 153 := ⟨_, rfl⟩
  have hq₁ : 0 ≤ q ∧ q ≤ 11 := by omega
  have hday : 1 ≤ t - (153 * q + 2) / 5 + 1 ∧ t - (153 * q + 2) / 5 + 1 ≤ 31 := by omega
  rw [← hq]
  refine ⟨?_, hday⟩
  split <;> omega

end DuckLake
