import Mathlib.Tactic.Common

/- Years of the proleptic Gregorian calendar counted from March, so that a leap day is the
   last day of its year. An era is 400 years, 146097 days. The quotient that finds the
   year of a day of the era is right (`yearOfEra_eq`), and a day is a year and the days
   since its first of March (`exists_marchDay`). -/

namespace Gregorian

/-- The year of the era a day of the era falls in. -/
def yearOfEra (dayOfEra : Int) : Int := (dayOfEra - dayOfEra / 1460 + dayOfEra / 36524 - dayOfEra / 146096) / 365

/-- The first of March of a year, counted from that of year 0. -/
def marchDay (year : Int) : Int := 365 * year + year / 4 - year / 100 + year / 400

/-- A day of an era by centuries, four-year cycles, years and days. The last year of a
    cycle has 366 days, unless its cycle ends a century that does not end the era. -/
structure Cycles (e q p s t : Int) : Prop where
  century : 0 ≤ q ∧ q ≤ 3
  cycle : 0 ≤ p ∧ p ≤ 24
  year : 0 ≤ s ∧ s ≤ 3
  day : 0 ≤ t ∧ t ≤ 365
  leap : t = 365 → s = 3 ∧ (p < 24 ∨ q = 3)
  eq : e = 36524 * q + 1461 * p + 365 * s + t

theorem exists_capped {n : Int} (hn : 0 ≤ n) (d cap : Int) (hd : 0 < d) (hcap : 0 ≤ cap) :
    ∃ q r, n = d * q + r ∧ 0 ≤ q ∧ q ≤ cap ∧ 0 ≤ r ∧ (r < d ∨ q = cap) := by
  have hdiv := Int.mul_ediv_add_emod n d
  have hmod := Int.emod_nonneg n (by omega : d ≠ 0)
  have hlt := Int.emod_lt_of_pos n hd
  have hq := Int.ediv_nonneg hn (by omega : 0 ≤ d)
  by_cases h : n / d ≤ cap
  · exact ⟨n / d, n % d, hdiv.symm, hq, h, hmod, .inl hlt⟩
  · refine ⟨cap, n - d * cap, by omega, hcap, Int.le_refl _, ?_, .inr rfl⟩
    have hmul : d * cap ≤ d * (n / d) := Int.mul_le_mul_of_nonneg_left (by omega) (by omega)
    omega

theorem exists_cycles {e : Int} (h₀ : 0 ≤ e) (h₁ : e < 146097) : ∃ q p s t, Cycles e q p s t := by
  obtain ⟨q, c, he, hq₀, hq₁, hc₀, hc₁⟩ := exists_capped h₀ 36524 3 (by decide) (by decide)
  have hc : c ≤ 36523 ∨ q = 3 ∧ c ≤ 36524 := by omega
  obtain ⟨p, r, hcp, hp₀, hp₁, hr₀, hr₁⟩ := exists_capped hc₀ 1461 24 (by decide) (by decide)
  have hr : r ≤ 1460 := by omega
  obtain ⟨s, t, hrs, hs₀, hs₁, ht₀, ht₁⟩ := exists_capped hr₀ 365 3 (by decide) (by decide)
  have ht : t ≤ 365 := by omega
  refine ⟨q, p, s, t, ⟨hq₀, hq₁⟩, ⟨hp₀, hp₁⟩, ⟨hs₀, hs₁⟩, ⟨ht₀, ht⟩, fun h365 => ?_, by omega⟩
  have hs : s = 3 := ht₁.resolve_left (by omega)
  refine ⟨hs, ?_⟩
  rcases hc with hc | hc
  · exact .inl (by omega)
  · exact .inr hc.1

theorem yearOfEra_eq {e q p s t : Int} (h : Cycles e q p s t) : yearOfEra e = 100 * q + 4 * p + s := by
  obtain ⟨hq, hp, hs, ht, hleap, he⟩ := h
  have hcentury : e / 36524 - e / 146096 = q := by
    obtain ⟨r, hr⟩ : ∃ r, r = 1461 * p + 365 * s + t := ⟨_, rfl⟩
    have hrest : 0 ≤ r ∧ (r < 36524 ∨ r = 36524 ∧ q = 3) := by omega
    have her : e = 36524 * q + r := by omega
    clear hr hleap he ht hs hp
    rcases hrest with ⟨hr₀, hr₁ | ⟨rfl, rfl⟩⟩
    · omega
    · subst her
      decide
  have hcycle : e / 1460 = 25 * q + p + (24 * q + p + 365 * s + t) / 1460 := by
    have hsplit : e = (24 * q + p + 365 * s + t) + 1460 * (25 * q + p) := by omega
    rw [hsplit, Int.add_mul_ediv_left _ _ (by decide)]
    exact Int.add_comm _ _
  -- the days of the cycles drop out of the numerator, but for the last days of a long one
  obtain ⟨x, hx⟩ : ∃ x, x = (24 * q + p + 365 * s + t) / 1460 := ⟨_, rfl⟩
  have hlast : 0 ≤ t - x ∧ t - x ≤ 364 := by
    obtain ⟨y, hy⟩ : ∃ y, y = 24 * q + p + 365 * s + t := ⟨_, rfl⟩
    have hy₁ : 0 ≤ y ∧ y ≤ 1556 := by omega
    rw [← hy] at hx
    clear hcycle hcentury he
    rcases Int.lt_or_le y 1460 with h | h
    · have hx₀ : x = 0 := by omega
      rw [hx₀]
      omega
    · have hx₁ : x = 1 := by omega
      rw [hx₁]
      omega
  have hnum : e - e / 1460 + e / 36524 - e / 146096 = (t - x) + 365 * (100 * q + 4 * p + s) := by
    rw [← hx] at hcycle
    clear hx hlast
    generalize e / 1460 = a, e / 36524 = b, e / 146096 = c at *
    omega
  unfold yearOfEra
  rw [hnum, Int.add_mul_ediv_left _ _ (by decide),
    Int.ediv_eq_zero_of_lt hlast.1 (show t - x < 365 from Int.lt_add_one_of_le hlast.2), Int.zero_add]

theorem marchDay_add_le (year : Int) : marchDay year + 365 ≤ marchDay (year + 1) := by
  unfold marchDay
  omega

/-- A day is a year and the days since its first of March. -/
theorem exists_marchDay (z : Int) : ∃ t, 0 ≤ t ∧ t ≤ 365 ∧
    z < marchDay (yearOfEra (z % 146097) + z / 146097 * 400 + 1) ∧
    z = marchDay (yearOfEra (z % 146097) + z / 146097 * 400) + t ∧
    t = z % 146097 - (365 * yearOfEra (z % 146097) + yearOfEra (z % 146097) / 4 - yearOfEra (z % 146097) / 100) := by
  obtain ⟨q, p, s, t, h⟩ := exists_cycles (Int.emod_nonneg z (by decide))
    (Int.emod_lt_of_pos z (by decide : (0 : Int) < 146097))
  have hyear := yearOfEra_eq h
  obtain ⟨hq, hp, hs, ht, hleap, he⟩ := h
  have hz := Int.mul_ediv_add_emod z 146097
  rw [hyear]
  obtain ⟨era, hera⟩ : ∃ era, era = z / 146097 := ⟨_, rfl⟩
  obtain ⟨e, hee⟩ : ∃ e, e = z % 146097 := ⟨_, rfl⟩
  rw [← hera, ← hee] at hz ⊢
  rw [← hee] at he
  have hfour : (100 * q + 4 * p + s) / 4 = 25 * q + p := by omega
  have hhundred : (100 * q + 4 * p + s) / 100 = q := by omega
  clear hyear hera hee
  have hdays : (100 * q + 4 * p + s + era * 400) / 4 = 25 * q + p + 100 * era ∧
      (100 * q + 4 * p + s + era * 400) / 100 = q + 4 * era ∧ (100 * q + 4 * p + s + era * 400) / 400 = era := by
    omega
  obtain ⟨h₄, h₁₀₀, h₄₀₀⟩ := hdays
  refine ⟨t, ht.1, ht.2, ?_, ?_, ?_⟩
  · have hnext := marchDay_add_le (100 * q + 4 * p + s + era * 400)
    have hmarch : marchDay (100 * q + 4 * p + s + era * 400) + t = z := by
      rw [marchDay, h₄, h₁₀₀, h₄₀₀]
      omega
    rcases Int.lt_or_le t 365 with hlt | hge
    · omega
    · -- the 366th day: the year ends a cycle
      obtain ⟨rfl, hlast⟩ := hleap (by omega)
      have hfour' : (100 * q + 4 * p + 3 + era * 400 + 1) / 4 = 25 * q + p + 100 * era + 1 := by omega
      have hcentury : (100 * q + 4 * p + 3 + era * 400 + 1) / 100 = q + 4 * era ∧
          (100 * q + 4 * p + 3 + era * 400 + 1) / 400 = era ∨
          (100 * q + 4 * p + 3 + era * 400 + 1) / 100 = q + 4 * era + 1 ∧
            (100 * q + 4 * p + 3 + era * 400 + 1) / 400 = era + 1 := by
        clear hmarch hnext h₄ h₁₀₀ h₄₀₀ hfour hhundred hfour' hz he hleap
        rcases Int.lt_or_le p 24 with hp' | hp'
        · exact .inl ⟨by omega, by omega⟩
        · exact .inr ⟨by omega, by omega⟩
      unfold marchDay at hmarch ⊢
      rw [h₄, h₁₀₀, h₄₀₀] at hmarch
      rw [hfour']
      omega
  · rw [marchDay, h₄, h₁₀₀, h₄₀₀]
    omega
  · rw [hfour, hhundred]
    omega

end Gregorian
