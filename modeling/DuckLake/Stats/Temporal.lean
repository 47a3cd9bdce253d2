import DuckLake.Stats.Instant

/- What `encode_date32` and `encode_timestamp` write (`stats_encode.rs`) are moments
   (`exists_moment`, `exists_clock`), so the comparison and the value parser read them as
   the values they were written from. Arrow's parser is asked first and is only assumed
   to return, when it takes a text, what the text denotes (`ReadsDenoted`). -/

namespace DuckLake.StatsCompare

/-! ## The calendar of the encoder -/

theorem civilFromDays_le_monthDays (days : Int) :
    (civilFromDays days).2.2 ≤ monthDays (civilFromDays days).1 (civilFromDays days).2.1 := by
  obtain ⟨year, t, h₀, h₁, hnext, hday, hcivil⟩ := exists_civilOf days
  have hlen : t < Gregorian.marchDay (year + 1) - Gregorian.marchDay year := by omega
  obtain ⟨q, hq⟩ : ∃ q, q = (5 * t + 2) / 153 := ⟨_, rfl⟩
  have hq₁ : 0 ≤ q ∧ q ≤ 11 := by omega
  have hyear : isLeap (year + 1) = false → t ≤ 364 := by
    intro hleap
    have hcommon : ¬ ((year + 1) % 4 = 0 ∧ ((year + 1) % 100 ≠ 0 ∨ (year + 1) % 400 = 0)) := by
      intro h
      have : isLeap (year + 1) = true := by
        simpa [isLeap] using h
      rw [hleap] at this
      cases this
    unfold Gregorian.marchDay at hlen
    omega
  rw [hcivil]
  unfold civilOf
  dsimp only
  rw [← hq]
  clear hnext hday hcivil hlen
  -- January and February end a year from March
  obtain h | rfl | rfl : q < 10 ∨ q = 10 ∨ q = 11 := by omega
  · rw [if_pos h, if_neg (by omega), Int.add_zero, monthDays, if_neg (by omega)]
    split <;> omega
  · show _ ≤ (31 : Int)
    omega
  · show _ ≤ if isLeap (year + 1) then (29 : Int) else 28
    split
    · omega
    · next hleap =>
      have := hyear (Bool.eq_false_iff.mpr hleap)
      omega

theorem civilFromDays_year {days : Int} (h : -2 ^ 50 ≤ days ∧ days ≤ 2 ^ 50) :
    -10 ^ 14 ≤ (civilFromDays days).1 ∧ (civilFromDays days).1 ≤ 10 ^ 14 := by
  obtain ⟨year, t, h₀, h₁, -, hday, hcivil⟩ := exists_civilOf days
  have hyear : -10 ^ 14 < year ∧ year < 10 ^ 14 := by
    unfold Gregorian.marchDay at hday
    omega
  rw [hcivil]
  unfold civilOf
  dsimp only
  split <;> omega

/-! ## The encoders write moments -/

theorem length_padded_le {w k n : Nat} (hw : w ≤ k) (hk : 0 < k) (h : n < 10 ^ k) : (padded w n).length ≤ k := by
  have hle : (digits n).length ≤ k := (Nat.length_toDigits_le_iff (by decide) hk).mpr h
  unfold padded
  rw [List.length_append, List.length_replicate]
  omega

theorem isField_padded {w k n : Nat} (hw : w ≤ k) (hk : 0 < k) (hk' : k ≤ 18) (h : n < 10 ^ k) :
    IsField (padded w n) := by
  obtain ⟨c, t, hcons, -⟩ := exists_cons_padded w n
  refine ⟨?_, (length_padded_le hw hk h).trans hk', ?_⟩
  · rw [hcons]
    exact List.cons_ne_nil _ _
  · exact List.all_eq_true.mpr fun c hc => isDigit_of_mem_padded hc

theorem exists_moment (days : Int) (hdays : -2 ^ 50 ≤ days ∧ days ≤ 2 ^ 50) (clock : Option Clock) :
    ∃ m : Moment, m.clock = clock ∧ m.days = days ∧
      m.text = duckdbDateText days ++ clock.elim [] (fun c => ' ' :: c.text) := by
  obtain ⟨⟨hm₁, hm₂⟩, hd₁, -⟩ := civilFromDays_range days
  have hmonthDays := civilFromDays_le_monthDays days
  obtain ⟨hy₁, hy₂⟩ := civilFromDays_year hdays
  have hback := dayOfCivil_civilFromDays days
  obtain ⟨year, month, day, hdate⟩ : ∃ y m d, civilFromDays days = (y, m, d) := ⟨_, _, _, rfl⟩
  rw [duckdbDateText_eq]
  rw [hdate] at hm₁ hm₂ hd₁ hmonthDays hy₁ hy₂ hback ⊢
  dsimp only at hm₁ hm₂ hd₁ hmonthDays hy₁ hy₂ hback ⊢
  obtain ⟨n, hn⟩ : ∃ n : Nat, n = (if year ≤ 0 then 1 - year else year).toNat := ⟨_, rfl⟩
  have hn₁ : n < 10 ^ 15 := by
    rw [hn]
    split <;> omega
  have hday31 : day ≤ 31 := by
    refine hmonthDays.trans ?_
    unfold monthDays
    split <;> split <;> omega
  have hyear : (if decide (year ≤ 0) = true then 1 - (n : Int) else n) = year := by
    by_cases h : year ≤ 0
    · rw [if_pos h] at hn
      rw [if_pos (decide_eq_true h)]
      omega
    · rw [if_neg h] at hn
      rw [if_neg (by simpa using h)]
      omega
  have hmonth : (month.toNat : Int) = month := Int.toNat_of_nonneg (by omega)
  have hday : (day.toNat : Int) = day := Int.toNat_of_nonneg (by omega)
  refine ⟨{ year := padded 4 n, month := padded 2 month.toNat, day := padded 2 day.toNat, bc := decide (year ≤ 0),
            clock := clock, yearField := isField_padded (by decide) (by decide) (by decide) hn₁,
            yearShort := length_padded_le (by decide) (by decide) hn₁,
            monthField := isField_padded (Nat.le_refl 2) (by decide) (by decide) (by omega),
            dayField := isField_padded (Nat.le_refl 2) (by decide) (by decide) (by omega),
            monthExists := ?_, dayExists := ?_ }, rfl, ?_, ?_⟩
  · rw [value_padded]
    omega
  · rw [value_padded, value_padded, value_padded, hyear, hmonth, hday]
    exact ⟨hd₁, hmonthDays⟩
  · simp only [Moment.days, Moment.yearNumber, value_padded, hyear, hmonth, hday, hback]
  · unfold Moment.text Moment.date Moment.clockSuffix ymd
    by_cases h : year ≤ 0
    · rw [if_pos h] at hn ⊢
      dsimp only
      rw [if_pos (decide_eq_true h), hn]
      simp
    · rw [if_neg h] at hn ⊢
      dsimp only
      rw [if_neg (by simpa using h), hn]
      simp

theorem perSecond_mul_nanosPerUnit (unit : TimeUnit) : unit.perSecond * nanosPerUnit unit = 1000000000 := by
  cases unit <;> rfl

variable {t : Text} {unit : TimeUnit} {v : ScalarValue}

/-- A trimmed fraction padded again is the fraction in nanoseconds. -/
theorem value_fraction {sub : Int} (h : 0 ≤ sub ∧ sub < unit.perSecond) :
    ((Numeral.value (padRight 9 (trimZeros (padded unit.width sub.toNat))) : Nat) : Int) = sub * nanosPerUnit unit := by
  have hpow : ((10 ^ (9 - unit.width) : Nat) : Int) = nanosPerUnit unit := by cases unit <;> rfl
  by_cases hunit : unit = .second
  · subst hunit
    have hsub : sub = 0 := by
      have : TimeUnit.second.perSecond = 1 := rfl
      omega
    subst hsub
    rfl
  · obtain ⟨k, hk⟩ := exists_trimZeros (padded unit.width sub.toNat)
    have hwidth : 0 < unit.width ∧ unit.width ≤ 9 := by
      cases unit with
      | second => exact absurd rfl hunit
      | _ => decide
    have hlen : (padded unit.width sub.toNat).length = unit.width := by
      refine length_padded hwidth.1 ?_
      rw [perSecond_eq] at h
      have hcast : ((10 ^ unit.width : Nat) : Int) = 10 ^ unit.width := by norm_cast
      omega
    have hpadded : padRight 9 (trimZeros (padded unit.width sub.toNat)) =
        padded unit.width sub.toNat ++ List.replicate (9 - unit.width) '0' := by
      have hsum := congrArg List.length hk
      rw [List.length_append, List.length_replicate, hlen] at hsum
      conv_rhs => rw [hk]
      rw [padRight, List.append_assoc, List.replicate_append_replicate]
      congr 2
      omega
    rw [hpadded, Numeral.value_append, Numeral.value_zeros, List.length_replicate, value_padded, Nat.add_zero,
      Nat.cast_mul, hpow, Int.toNat_of_nonneg h.1]

theorem exists_clock (secs : Int) {sub : Int} (hsecs : 0 ≤ secs ∧ secs ≤ 86400)
    (hsub : 0 ≤ sub ∧ sub < unit.perSecond) (utc : Bool) :
    ∃ c : Clock, c.utc = utc ∧ c.nanos = secs * 1000000000 + sub * nanosPerUnit unit ∧
      c.text = clockText secs ++ fractionText unit sub ++ (if utc then "+00".toList else []) := by
  have hfield : ∀ {n : Int}, n < 100 → IsField (padded 2 n.toNat) := fun h =>
    isField_padded (Nat.le_refl 2) (by decide) (by decide) (by omega)
  have hfraction : fractionText unit sub =
      if trimZeros (padded unit.width sub.toNat) = [] then [] else '.' :: trimZeros (padded unit.width sub.toNat) := by
    unfold fractionText
    split
    · next hunit =>
      subst hunit
      have : sub = 0 := by
        have : TimeUnit.second.perSecond = 1 := rfl
        omega
      subst this
      rfl
    · rfl
  obtain ⟨k, hk⟩ := exists_trimZeros (padded unit.width sub.toNat)
  have hshort : (padded unit.width sub.toNat).length ≤ 9 := by
    refine length_padded_le (by cases unit <;> decide) (by decide) ?_
    have : unit.perSecond ≤ 10 ^ 9 := by cases unit <;> decide
    omega
  refine ⟨{ hours := padded 2 (secs / 3600).toNat, minutes := padded 2 (secs / 60 % 60).toNat,
            seconds := padded 2 (secs % 60).toNat, fraction := trimZeros (padded unit.width sub.toNat), utc := utc,
            hoursField := hfield (by omega), minutesField := hfield (by omega), secondsField := hfield (by omega),
            fractionDigits := ?_, fractionShort := ?_ }, rfl, ?_, ?_⟩
  · refine List.all_eq_true.mpr fun c hc => ?_
    have hmem : c ∈ padded unit.width sub.toNat := by
      rw [hk]
      exact List.mem_append_left _ hc
    exact isDigit_of_mem_padded hmem
  · have := congrArg List.length hk
    rw [List.length_append] at this
    omega
  · unfold Clock.nanos Clock.wholeSeconds Clock.subNanos
    dsimp only
    rw [value_fraction hsub, value_padded, value_padded, value_padded]
    omega
  · unfold Clock.text Clock.hms Clock.fractionSuffix Clock.zoneSuffix
    rw [hfraction, clockText]
    simp

/-! ## Instants -/

/-- How a text of one of the encoders stands for a number of units of `scale` nanoseconds. -/
inductive Written (infinity scale : Int) (shape : Moment → Prop) (v : Int) (t : Text) : Prop
  | infinite (hv : v = infinity) (ht : t = "infinity".toList)
  | negative (hv : v = -infinity) (ht : t = "-infinity".toList)
  | finite (m : Moment) (hv : -infinity < v ∧ v < infinity) (ht : t = m.text) (hm : m.nanos = v * scale) (h : shape m)

theorem written_date32 {v : Int} (hv : -2 ^ 31 ≤ v ∧ v ≤ 2 ^ 31 - 1) (h : encodeDate32 v = some t) :
    Written dateInfinity nanosPerDay (·.clock = none) v t := by
  unfold encodeDate32 at h
  split at h
  · next hinf => exact .infinite hinf (Option.some.inj h).symm
  split at h
  · next hinf => exact .negative hinf (Option.some.inj h).symm
  split at h
  · cases h
  · next hne hne' hmin =>
    unfold dateInfinity at hne hne'
    obtain ⟨m, hclock, hdays, htext⟩ := exists_moment v (by omega) none
    rw [Option.elim_none, List.append_nil] at htext
    refine .finite m (by unfold dateInfinity; omega) ((Option.some.inj h).symm.trans htext.symm) ?_ hclock
    rw [Moment.nanos, hclock, hdays, Option.elim_none, Int.add_zero]

/-- A timestamp has a clock, with an offset if its type has a zone. -/
def TimestampShape (timezone : Bool) (m : Moment) : Prop := ∃ c, m.clock = some c ∧ c.utc = timezone

theorem written_timestamp {timezone : Bool} {v : Int}
    (hv : -2 ^ 63 ≤ v ∧ v ≤ 2 ^ 63 - 1) (h : encodeTimestamp v unit timezone = some t) :
    Written timestampInfinity (nanosPerUnit unit) (TimestampShape timezone) v t := by
  unfold encodeTimestamp at h
  split at h
  · next hinf => exact .infinite hinf (Option.some.inj h).symm
  split at h
  · next hinf => exact .negative hinf (Option.some.inj h).symm
  split at h
  · cases h
  split at h
  · next hne hne' hmin _ =>
    unfold timestampInfinity at hne hne'
    have hunit : 0 < unit.perSecond := by cases unit <;> decide
    obtain ⟨secs, hsecs⟩ : ∃ secs, secs = v / unit.perSecond := ⟨_, rfl⟩
    have hrange : -2 ^ 63 ≤ secs ∧ secs ≤ 2 ^ 63 := by
      rw [hsecs]
      cases unit <;> dsimp only [TimeUnit.perSecond] <;> omega
    have hv' := Int.mul_ediv_add_emod v unit.perSecond
    rw [← hsecs] at h hv'
    obtain ⟨c, hutc, hnanos, hclock⟩ := exists_clock (secs % 86400) (by omega)
      ⟨Int.emod_nonneg v (Int.ne_of_gt hunit), Int.emod_lt_of_pos v hunit⟩ timezone
    obtain ⟨m, hm, hdays, htext⟩ := exists_moment (secs / 86400) (by omega) (some c)
    refine .finite m (by unfold timestampInfinity; omega) ?_ ?_ ⟨c, hm, hutc⟩
    · rw [htext, Option.elim_some, hclock, ← Option.some.inj h]
      simp
    · rw [Moment.nanos, hm, hdays, Option.elim_some, hnanos, nanosPerDay]
      calc _ = secs * 1000000000 + v % unit.perSecond * nanosPerUnit unit := by omega
        _ = (unit.perSecond * secs + v % unit.perSecond) * nanosPerUnit unit := by
          rw [← perSecond_mul_nanosPerUnit unit]
          ring
        _ = v * nanosPerUnit unit := by rw [hv']
  · cases h

/-- The instant `parse_stat_instant` gives a number of units. -/
def instantOf (infinity scale v : Int) : Int × Int :=
  if v = infinity then (1, 0) else if v = -infinity then (-1, 0) else (0, v * scale)

theorem Written.parseStatInstant {infinity scale v : Int} {shape : Moment → Prop} (hinf : 0 < infinity)
    (h : Written infinity scale shape v t) : StatsCompare.parseStatInstant t = some (instantOf infinity scale v) := by
  unfold instantOf
  cases h with
  | infinite hv ht =>
    rw [if_pos hv, ht]
    rfl
  | negative hv ht =>
    rw [if_neg (by omega), if_pos hv, ht]
    rfl
  | finite m hv ht hm _ => rw [if_neg (by omega), if_neg (by omega), ht, m.parseStatInstant_text, hm]

theorem Written.range {infinity scale v : Int} {shape : Moment → Prop} (hinf : 0 < infinity)
    (h : Written infinity scale shape v t) : -infinity ≤ v ∧ v ≤ infinity := by
  cases h with
  | infinite hv _ => omega
  | negative hv _ => omega
  | finite m hv _ _ _ => omega

/-- Instants are ordered as the numbers, the infinities at the ends. -/
theorem cmpInstants_instantOf {infinity scale a b : Int} (hscale : 0 < scale)
    (ha : -infinity ≤ a ∧ a ≤ infinity) (hb : -infinity ≤ b ∧ b ≤ infinity) :
    cmpInstants (instantOf infinity scale a) (instantOf infinity scale b) = compare a b := by
  have hlt : ∀ {a b : Int}, -infinity ≤ a ∧ a ≤ infinity → -infinity ≤ b ∧ b ≤ infinity → a < b →
      cmpInstants (instantOf infinity scale a) (instantOf infinity scale b) = .lt := by
    intro a b ha hb hab
    unfold instantOf
    rw [if_neg (show ¬ a = infinity by omega), if_neg (show ¬ b = -infinity by omega)]
    by_cases ha' : a = -infinity
    · rw [if_pos ha']
      by_cases hb' : b = infinity
      · rw [if_pos hb']
        rfl
      · rw [if_neg hb']
        rfl
    · rw [if_neg ha']
      by_cases hb' : b = infinity
      · rw [if_pos hb']
        rfl
      · rw [if_neg hb']
        exact compare_lt_iff_lt.mpr (Int.mul_lt_mul_of_pos_right hab hscale)
  have hswap : ∀ x y : Int × Int, cmpInstants x y = (cmpInstants y x).swap := by
    intro x y
    unfold cmpInstants
    rw [Ordering.swap_then, ← Std.OrientedOrd.eq_swap, ← Std.OrientedOrd.eq_swap]
  rcases lt_trichotomy a b with h | h | h
  · rw [hlt ha hb h, compare_lt_iff_lt.mpr h]
  · rw [h, compare_eq_iff_eq.mpr rfl, cmpInstants, compare_eq_iff_eq.mpr rfl, compare_eq_iff_eq.mpr rfl]
    rfl
  · rw [hswap, hlt hb ha h, compare_gt_iff_gt.mpr h]
    rfl

/-! ## Values -/

/-- A date of 32 bits or a timestamp of 64. -/
inductive IsTemporal : ScalarValue → Prop
  | date32 {days : Int} (h : -2 ^ 31 ≤ days ∧ days ≤ 2 ^ 31 - 1) : IsTemporal (.date32 days)
  | timestamp {unit : TimeUnit} {timezone : Option Text} {v : Int} (h : -2 ^ 63 ≤ v ∧ v ≤ 2 ^ 63 - 1) :
    IsTemporal (.timestamp unit timezone v)

/-- The value a text denotes at its type. -/
inductive Spells : Text → ScalarValue → Prop
  | infinite {v : ScalarValue} (h : infiniteValue false v.dataType = some v) : Spells "infinity".toList v
  | negative {v : ScalarValue} (h : infiniteValue true v.dataType = some v) : Spells "-infinity".toList v
  | date32 (m : Moment) (h : m.clock = none) : Spells m.text (.date32 m.days)
  | timestamp (m : Moment) (unit : TimeUnit) (timezone : Option Text) (v : Int) (h : TimestampShape timezone.isSome m)
    (hv : m.nanos = v * nanosPerUnit unit) : Spells m.text (.timestamp unit timezone v)

/-- A parser that returns, when it takes a text, what the text denotes. -/
def ReadsDenoted (arrow : Text → DataType → Option ScalarValue) : Prop :=
  ∀ t v w, IsTemporal v → Spells t v → arrow t v.dataType = some w → w = v

/-- The encoders write texts that denote their values. -/
theorem spells_encodeScalar {fmt : FloatText} (hv : IsTemporal v) (h : encodeScalar fmt v = some t) : Spells t v := by
  cases hv with
  | @date32 days hdays =>
    cases written_date32 hdays h with
    | infinite hinf ht =>
      rw [ht, hinf]
      exact .infinite rfl
    | negative hinf ht =>
      rw [ht, hinf]
      exact .negative rfl
    | finite m _ ht hm hclock =>
      have hday : m.days = days := by
        rw [Moment.nanos, hclock, Option.elim_none, nanosPerDay] at hm
        omega
      rw [ht, ← hday]
      exact .date32 m hclock
  | @timestamp unit timezone n hn =>
    cases written_timestamp hn h with
    | infinite hinf ht =>
      rw [ht, hinf]
      exact .infinite rfl
    | negative hinf ht =>
      rw [ht, hinf]
      exact .negative rfl
    | finite m _ ht hm hshape =>
      rw [ht]
      exact .timestamp m unit timezone n hshape hm

theorem timestampOf_eq {timezone : Option Text} {days seconds v : Int} {nanos : Nat} (hv : -2 ^ 63 ≤ v ∧ v ≤ 2 ^ 63 - 1)
    (h : days * nanosPerDay + (seconds * 1000000000 + nanos) = v * nanosPerUnit unit) :
    timestampOf unit timezone days (seconds, nanos, 0) = some (.timestamp unit timezone v) := by
  have hsub : (nanos : Int) % nanosPerUnit unit = 0 := by
    unfold nanosPerDay at h
    cases unit <;> dsimp only [nanosPerUnit] at h ⊢ <;> omega
  have hvalue : (days * 86400 + seconds - 0) * unit.perSecond + (nanos : Int) / nanosPerUnit unit = v := by
    unfold nanosPerDay at h
    cases unit <;> dsimp only [nanosPerUnit, TimeUnit.perSecond] at h hsub ⊢ <;> omega
  unfold timestampOf
  dsimp only [Option.bind_eq_bind]
  rw [if_neg (not_not_intro hsub), hvalue, checkedI64, if_pos hv]
  rfl

/-- DuckDB's spelling is read as what it denotes. -/
theorem Spells.parseDuckdbTemporal (h : Spells t v) (hv : IsTemporal v) :
    parseDuckdbTemporal t v.dataType = some v := by
  cases h with
  | infinite hinf => exact hinf
  | negative hinf => exact hinf
  | date32 m hclock =>
    cases hv with
    | date32 hrange =>
      rw [m.parseDuckdbTemporal_text]
      show (checkedI32 m.days).map ScalarValue.date32 = _
      rw [checkedI32, if_pos hrange]
      rfl
  | timestamp m unit timezone n hshape hn =>
    cases hv with
    | timestamp hrange =>
      obtain ⟨c, hclock, -⟩ := hshape
      rw [Moment.nanos, hclock, Option.elim_some] at hn
      rw [m.parseDuckdbTemporal_text, hclock]
      exact timestampOf_eq hrange hn

/-- A text that denotes a timestamp is not a number. -/
theorem Spells.parseIntIn_timestamp {timezone : Option Text} {v lo hi : Int}
    (h : Spells t (.timestamp unit timezone v)) : Numeral.parseIntIn lo hi t = none := by
  have hnone : Numeral.parseInt t = none := by
    generalize hw : ScalarValue.timestamp unit timezone v = w at h
    cases h with
    | infinite _ => rfl
    | negative _ => rfl
    | date32 _ _ => cases hw
    | timestamp m _ _ _ hshape _ =>
      obtain ⟨c, hclock, -⟩ := hshape
      have hmem : ':' ∈ m.text := by
        simp [Moment.text, Moment.clockSuffix, hclock, Clock.text, Clock.hms]
      exact Numeral.parseInt_eq_none_of_mem hmem (by decide) (by decide) (by decide)
  rw [Numeral.parseIntIn, hnone]
  rfl

theorem Spells.parseDucklakeTemporal {arrow : Text → DataType → Option ScalarValue} (harrow : ReadsDenoted arrow)
    (h : Spells t v) (hv : IsTemporal v) :
    parseDucklakeTemporal arrow t v.dataType = some v := by
  have hread : (arrow t v.dataType).or (StatsCompare.parseDuckdbTemporal t v.dataType) = some v := by
    cases hw : arrow t v.dataType with
    | none => exact h.parseDuckdbTemporal hv
    | some w =>
      rw [harrow t v w hv h hw]
      rfl
  cases hv with
  | date32 _ => exact hread
  | @timestamp unit timezone n _ =>
    cases unit with
    | nanosecond =>
      show ((Numeral.parseIntIn (-2 ^ 63) (2 ^ 63 - 1) t).map _).or _ = _
      rw [h.parseIntIn_timestamp]
      exact hread
    | _ => exact hread

theorem cmpTemporal_encodeScalar {fmt : FloatText} {v w : ScalarValue} {s t : Text} (hv : IsTemporal v)
    (hw : IsTemporal w) (htype : v.dataType = w.dataType) (hs : encodeScalar fmt v = some s)
    (ht : encodeScalar fmt w = some t) :
    ∃ ord, compareScalars v w = some ord ∧ cmpTemporal s t = some ord := by
  have hread : ∀ {infinity scale a b : Int} {shape : Moment → Prop}, 0 < infinity → 0 < scale →
      Written infinity scale shape a s →
      Written infinity scale shape b t → cmpTemporal s t = some (order a b) := by
    intro infinity scale a b shape hinf hscale hsa htb
    unfold cmpTemporal
    rw [hsa.parseStatInstant hinf, htb.parseStatInstant hinf]
    dsimp only
    rw [cmpInstants_instantOf hscale (hsa.range hinf) (htb.range hinf), order, cmp_eq_compare]
  cases hv with
  | @date32 a ha =>
    cases hw with
    | @date32 b hb =>
      exact ⟨_, rfl, hread (by decide) (by decide) (written_date32 ha hs) (written_date32 hb ht)⟩
    | timestamp _ => cases htype
  | @timestamp unit timezone a ha =>
    cases hw with
    | date32 _ => cases htype
    | @timestamp unit' timezone' b hb =>
      obtain ⟨rfl, rfl⟩ : unit = unit' ∧ timezone = timezone' := by simpa [ScalarValue.dataType] using htype
      have hscale : 0 < nanosPerUnit unit := by cases unit <;> decide
      exact ⟨_, if_pos ⟨rfl, rfl⟩, hread (by decide) hscale (written_timestamp ha hs) (written_timestamp hb ht)⟩

/-- Temporal statistics are exact and ordered: the text of a date or timestamp is read back
    as the value, and the texts of two values of one type compare as the values. -/
theorem temporal_texts_exact (fmt : FloatText) (parseF64 : Text → Option F64)
    (arrow : Text → DataType → Option ScalarValue) (harrow : ReadsDenoted arrow) :
    (∀ v t, IsTemporal v → encodeScalar fmt v = some t →
      parseDuckdbTemporal t v.dataType = some v ∧ parseDucklakeTemporal arrow t v.dataType = some v) ∧
    ∀ v w s t, IsTemporal v → IsTemporal w → v.dataType = w.dataType → encodeScalar fmt v = some s →
      encodeScalar fmt w = some t → compareScalars v w = some (statCmpKind parseF64 s t .temporal) := by
  refine ⟨?_, ?_⟩
  · intro v t hv ht
    have hspells := spells_encodeScalar hv ht
    exact ⟨hspells.parseDuckdbTemporal hv, hspells.parseDucklakeTemporal harrow hv⟩
  · intro v w s t hv hw htype hs ht
    obtain ⟨ord, hvalues, htexts⟩ := cmpTemporal_encodeScalar hv hw htype hs ht
    rw [hvalues, statCmpKind, htexts]
    rfl

/-- A stand-in for Arrow's parser, which takes no years before 1. -/
def arrowReader (t : Text) (dataType : DataType) : Option ScalarValue :=
  if contains t "(BC)".toList then none else parseDuckdbTemporal t dataType

theorem readsDenoted_arrowReader : ReadsDenoted arrowReader := by
  intro t v w hv h hw
  unfold arrowReader at hw
  split at hw
  · cases hw
  · rw [h.parseDuckdbTemporal hv] at hw
    exact (Option.some.inj hw).symm

/-- The Ides of March of 44 BC, and a timestamp before it against the infinity. -/
theorem ides_text_exact :
    (encodeScalar ⟨fun _ => none, fun _ => none⟩ (.date32 (-735160)) = some "0044-03-15 (BC)".toList ∧
      parseDucklakeTemporal arrowReader "0044-03-15 (BC)".toList .date32 = some (.date32 (-735160))) ∧
    compareScalars (.timestamp .millisecond none (-63517824000001)) (.timestamp .millisecond none timestampInfinity) =
      some (statCmpKind (fun _ => none) "0044-03-14 (BC) 23:59:59.999".toList "infinity".toList .temporal) := by
  obtain ⟨hread, hcmp⟩ := temporal_texts_exact ⟨fun _ => none, fun _ => none⟩ (fun _ => none) arrowReader
    readsDenoted_arrowReader
  have hdate : encodeScalar ⟨fun _ => none, fun _ => none⟩ (.date32 (-735160)) = some "0044-03-15 (BC)".toList := by
    decide +kernel
  refine ⟨⟨hdate, (hread _ _ (.date32 (by decide)) hdate).2⟩, ?_⟩
  exact hcmp _ _ _ _ (.timestamp (by decide)) (.timestamp (by decide)) rfl (by decide +kernel) (by decide +kernel)

end DuckLake.StatsCompare
