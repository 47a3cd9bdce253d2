import DuckLake.Lib.Fraction
import DuckLake.Stats.Canonical
import DuckLake.Stats.Civil

/- Checked texts of dates and timestamps sort as the instants they denote.

   What a text denotes is stated apart from the checks and the encoders: a date of the
   calendar, a clock within its day, any number of fraction digits. The first field in which
   two checked texts differ decides both orders. A zone sorts below a point and below every
   digit, so an absent or shorter fraction stays the smaller one with a zone behind it. -/

namespace DuckLake.StatsCompare

open Split Numeral

/-! ## What a text denotes -/

instance (year month day : Int) : Decidable (IsDate year month day) :=
  decidable_of_iff ((1 ≤ month ∧ month ≤ 12) ∧ (1 ≤ day ∧ day ≤ monthDays year month))
    ⟨fun h => ⟨h.1, h.2⟩, fun h => ⟨h.1, h.2⟩⟩

/-- The day of a date text, from 1970-01-01. -/
def dayDenoted (t : Text) : Option Int := do
  let (year, month, day) ← splitDate t
  let year ← parseNat year
  let month ← parseNat month
  let day ← parseNat day
  if IsDate year month day then some (dayOfCivil year month day) else none

/-- Fraction digits after a point, or none. -/
def fractionDenoted (t : Text) : Option (Text × ℚ) :=
  match splitOnce '.' t with
  | none => some (t, 0)
  | some (hms, digits) => (parseNat digits).map fun _ => (hms, fraction digits)

/-- The seconds of a day of a clock text. -/
def clockDenoted (t : Text) : Option ℚ := do
  let (hms, fraction) ← fractionDenoted t
  match hms.splitOn ':' with
  | [hours, minutes, seconds] =>
    let hours ← parseNat hours
    let minutes ← parseNat minutes
    let seconds ← parseNat seconds
    if hours < 24 ∧ minutes < 60 ∧ seconds < 60 then some (hours * 3600 + minutes * 60 + seconds + fraction) else none
  | _ => none

/-- The seconds of a timestamp text, from 1970-01-01. -/
def instantDenoted (t : Text) : Option ℚ := do
  let (date, clock) ← splitOnce ' ' t
  let day ← dayDenoted date
  let seconds ← clockDenoted clock
  return day * 86400 + seconds

/-- The same in UTC. -/
def utcInstantDenoted (t : Text) : Option ℚ := (Types.stripSuffixOf "+00".toList t).bind instantDenoted

/-! ## What the fields denote -/

/-- The day of a date, whether or not it exists. -/
def DateFields.dayNumber (f : DateFields) : Int := dayOfCivil (value f.year) (value f.month) (value f.day)

variable {a b : Text} {zone : Text} {t : Text}

theorem Digits.parseNat {width : Nat} (h : Digits width t) (hwidth : 0 < width) :
    parseNat t = some (value t) := by
  refine parseNat_of_isDigit (fun hnil => ?_) h.digits
  have hlength := h.length
  rw [hnil, List.length_nil] at hlength
  omega

theorem dayDenoted_text (f : DateFields) : dayDenoted f.text =
    if IsDate (value f.year) (value f.month) (value f.day) then some f.dayNumber else none := by
  have hsplit : splitDate f.text = some (f.year, f.month, f.day) := by
    unfold splitDate DateFields.text
    rw [splitOnce_append (f.yearDigits.notMem (by decide))]
    dsimp only [Option.bind_eq_bind, Option.bind_some]
    rw [splitOnce_append (f.monthDigits.notMem (by decide))]
    rfl
  unfold dayDenoted
  rw [hsplit]
  dsimp only [Option.bind_eq_bind, Option.bind_some]
  rw [f.yearDigits.parseNat (by decide), f.monthDigits.parseNat (by decide), f.dayDigits.parseNat (by decide)]
  rfl

theorem dayDenoted_eq_some {f : DateFields} {x : Int} (h : dayDenoted f.text = some x) :
    IsDate (value f.year) (value f.month) (value f.day) ∧ x = f.dayNumber := by
  rw [dayDenoted_text] at h
  split at h
  · next hdate => exact ⟨hdate, (Option.some.inj h).symm⟩
  · cases h

namespace ClockFields

/-- A clock within its day. -/
def WithinDay (f : ClockFields) : Prop := value f.hours < 24 ∧ value f.minutes < 60 ∧ value f.seconds < 60

instance (f : ClockFields) : Decidable f.WithinDay := inferInstanceAs (Decidable (_ ∧ _))

def wholeSeconds (f : ClockFields) : Nat := value f.hours * 3600 + value f.minutes * 60 + value f.seconds

def secondsOfDay (f : ClockFields) : ℚ := f.wholeSeconds + Numeral.fraction f.fraction

theorem wholeSeconds_lt {f : ClockFields} (h : f.WithinDay) : f.wholeSeconds < 86400 := by
  obtain ⟨hhours, hminutes, hseconds⟩ := h
  unfold wholeSeconds
  omega

theorem secondsOfDay_nonneg (f : ClockFields) : 0 ≤ f.secondsOfDay :=
  add_nonneg (Nat.cast_nonneg _) (fraction_nonneg _)

theorem secondsOfDay_lt {f : ClockFields} (h : f.WithinDay) : f.secondsOfDay < 86400 := by
  have hwhole : (f.wholeSeconds : ℚ) + 1 ≤ 86400 := by exact_mod_cast wholeSeconds_lt h
  have hfraction := fraction_lt_one f.fractionDigits
  unfold secondsOfDay
  linarith

theorem notMem_hms (f : ClockFields) {c : Char} (hdigit : c.isDigit = false) (hcolon : c ≠ ':') : c ∉ f.hms := by
  unfold hms
  simp only [List.mem_append, List.mem_cons, not_or]
  exact ⟨f.hoursDigits.notMem hdigit, hcolon, f.minutesDigits.notMem hdigit, hcolon, f.secondsDigits.notMem hdigit⟩

theorem fractionDenoted_text (f : ClockFields) :
    fractionDenoted f.text = some (f.hms, Numeral.fraction f.fraction) := by
  have hpoint : '.' ∉ f.hms := f.notMem_hms (by decide) (by decide)
  unfold fractionDenoted text suffix
  by_cases hnil : f.fraction = []
  · rw [if_pos hnil, List.append_nil, splitOnce_eq_none hpoint, hnil, fraction_nil]
  · rw [if_neg hnil, splitOnce_append hpoint]
    dsimp only
    rw [parseNat_of_isDigit hnil f.fractionDigits]
    rfl

end ClockFields

theorem clockDenoted_text (f : ClockFields) :
    clockDenoted f.text = if f.WithinDay then some f.secondsOfDay else none := by
  have hsplit : f.hms.splitOn ':' = [f.hours, f.minutes, f.seconds] :=
    splitOn_three (f.hoursDigits.notMem (by decide)) (f.minutesDigits.notMem (by decide))
      (f.secondsDigits.notMem (by decide))
  unfold clockDenoted
  rw [f.fractionDenoted_text]
  dsimp only [Option.bind_eq_bind, Option.bind_some]
  rw [hsplit]
  dsimp only
  rw [f.hoursDigits.parseNat (by decide), f.minutesDigits.parseNat (by decide), f.secondsDigits.parseNat (by decide)]
  dsimp only [Option.bind_some]
  unfold ClockFields.WithinDay ClockFields.secondsOfDay ClockFields.wholeSeconds
  push_cast
  rfl

theorem instantDenoted_eq_some {f : DateFields} {g : ClockFields} {x : ℚ}
    (h : instantDenoted (f.text ++ ' ' :: g.text) = some x) :
    IsDate (value f.year) (value f.month) (value f.day) ∧ g.WithinDay ∧ x = f.dayNumber * 86400 + g.secondsOfDay := by
  have hspace : ' ' ∉ f.text := by
    unfold DateFields.text
    simp only [List.mem_append, List.mem_cons, not_or]
    exact ⟨f.yearDigits.notMem (by decide), by decide, f.monthDigits.notMem (by decide), by decide,
      f.dayDigits.notMem (by decide)⟩
  unfold instantDenoted at h
  rw [splitOnce_append hspace] at h
  dsimp only [Option.bind_eq_bind, Option.bind_some] at h
  rw [dayDenoted_text, clockDenoted_text] at h
  split at h
  · next hdate =>
    split at h
    · next hclock => exact ⟨hdate, hclock, (Option.some.inj h).symm⟩
    · cases h
  · cases h

/-! ## Order -/

theorem lt_of_cons_lt_cons {c : Char} {s t : Text} (h : c :: s < c :: t) : s < t := by
  rcases List.cons_lt_cons_iff.mp h with hlt | ⟨-, hlt⟩
  · exact absurd hlt (lt_irrefl c)
  · exact hlt

theorem Digits.lt_or_eq {width : Nat} {a b s t : Text} (ha : Digits width a) (hb : Digits width b)
    (h : a ++ s < b ++ t) : value a < value b ∨ a = b ∧ s < t :=
  value_lt_or_eq (ha.length.trans hb.length.symm) ha.digits hb.digits h

theorem DateFields.lt_or_eq {f g : DateFields} {s t : Text} (hf : IsDate (value f.year) (value f.month) (value f.day))
    (hg : IsDate (value g.year) (value g.month) (value g.day)) (h : f.text ++ s < g.text ++ t) :
    f.dayNumber < g.dayNumber ∨ f.text = g.text ∧ f.dayNumber = g.dayNumber ∧ s < t := by
  unfold DateFields.text at h
  simp only [List.append_assoc, List.cons_append] at h
  rcases f.yearDigits.lt_or_eq g.yearDigits h with hyear | ⟨hyear, h⟩
  · exact .inl (dayOfCivil_lt hf hg (.inl (by exact_mod_cast hyear)))
  rcases f.monthDigits.lt_or_eq g.monthDigits (lt_of_cons_lt_cons h) with hmonth | ⟨hmonth, h⟩
  · exact .inl (dayOfCivil_lt hf hg (.inr ⟨by rw [hyear], .inl (by exact_mod_cast hmonth)⟩))
  rcases f.dayDigits.lt_or_eq g.dayDigits (lt_of_cons_lt_cons h) with hday | ⟨hday, h⟩
  · exact .inl (dayOfCivil_lt hf hg (.inr ⟨by rw [hyear], .inr ⟨by rw [hmonth], by exact_mod_cast hday⟩⟩))
  · refine .inr ⟨?_, ?_, h⟩
    · unfold DateFields.text
      rw [hyear, hmonth, hday]
    · unfold DateFields.dayNumber
      rw [hyear, hmonth, hday]

/-- A text that may follow a fraction: it sorts below every digit and below a point. -/
def Low (zone : Text) : Prop := ∀ c : Char, '+' < c → ∀ t, ¬ c :: t < zone

theorem low_nil : Low [] := fun _ _ _ h => absurd h (List.not_lt_nil _)

theorem low_utc : Low "+00".toList := by
  intro c hc t h
  rcases List.cons_lt_cons_iff.mp h with hlt | ⟨rfl, -⟩
  · exact absurd hlt hc.asymm
  · exact absurd hc (lt_irrefl _)

theorem plus_lt_of_isDigit {c : Char} (h : c.isDigit = true) : '+' < c := by
  have hle := (Char.isDigit_iff_toNat.mp h).1
  have h0 : '0'.toNat = 48 := rfl
  show '+'.toNat < c.toNat
  have hplus : '+'.toNat = 43 := rfl
  omega

theorem ClockFields.suffix_lt {f g : ClockFields} (hzone : Low zone)
    (h : f.suffix ++ zone < g.suffix ++ zone) : Numeral.fraction f.fraction < Numeral.fraction g.fraction := by
  unfold suffix at h
  by_cases hf : f.fraction = []
  · by_cases hg : g.fraction = []
    · rw [if_pos hf, if_pos hg] at h
      exact absurd h (List.lt_irrefl _)
    · rw [hf, fraction_nil]
      exact fraction_pos g.fractionDigits hg g.fractionEnd
  · by_cases hg : g.fraction = []
    · rw [if_neg hf, if_pos hg] at h
      exact absurd h (hzone '.' (by decide) _)
    · rw [if_neg hf, if_neg hg] at h
      exact fraction_lt (fun c hc => hzone c (plus_lt_of_isDigit hc)) f.fractionDigits g.fractionDigits g.fractionEnd
        (lt_of_cons_lt_cons h)

theorem ClockFields.secondsOfDay_lt_of_lt {f g : ClockFields} (hzone : Low zone) (hf : f.WithinDay)
    (hg : g.WithinDay) (h : f.text ++ zone < g.text ++ zone) : f.secondsOfDay < g.secondsOfDay := by
  obtain ⟨hfh, hfm, hfs⟩ := hf
  obtain ⟨hgh, hgm, hgs⟩ := hg
  have hwhole : f.wholeSeconds < g.wholeSeconds ∨
      f.wholeSeconds = g.wholeSeconds ∧ f.suffix ++ zone < g.suffix ++ zone := by
    unfold text hms at h
    simp only [List.append_assoc, List.cons_append] at h
    unfold wholeSeconds
    rcases f.hoursDigits.lt_or_eq g.hoursDigits h with hhours | ⟨hhours, h⟩
    · exact .inl (by omega)
    rcases f.minutesDigits.lt_or_eq g.minutesDigits (lt_of_cons_lt_cons h) with hminutes | ⟨hminutes, h⟩
    · rw [hhours]
      exact .inl (by omega)
    rcases f.secondsDigits.lt_or_eq g.secondsDigits (lt_of_cons_lt_cons h) with hseconds | ⟨hseconds, h⟩
    · rw [hhours, hminutes]
      exact .inl (by omega)
    · exact .inr ⟨by rw [hhours, hminutes, hseconds], h⟩
  unfold secondsOfDay
  rcases hwhole with hlt | ⟨heq, hsuffix⟩
  · have hstep : (f.wholeSeconds : ℚ) + 1 ≤ g.wholeSeconds := by exact_mod_cast hlt
    have hone := fraction_lt_one f.fractionDigits
    have hzero := fraction_nonneg g.fraction
    linarith
  · rw [heq]
    exact add_lt_add_right (suffix_lt hzone hsuffix) _

theorem instant_lt {f f' : DateFields} {g g' : ClockFields} {x x' : ℚ} (hzone : Low zone)
    (hx : instantDenoted (f.text ++ ' ' :: g.text) = some x)
    (hx' : instantDenoted (f'.text ++ ' ' :: g'.text) = some x')
    (h : f.text ++ ' ' :: g.text ++ zone < f'.text ++ ' ' :: g'.text ++ zone) : x < x' := by
  obtain ⟨hdate, hclock, rfl⟩ := instantDenoted_eq_some hx
  obtain ⟨hdate', hclock', rfl⟩ := instantDenoted_eq_some hx'
  rw [List.append_assoc, List.append_assoc] at h
  rcases DateFields.lt_or_eq hdate hdate' h with hday | ⟨-, hday, hrest⟩
  · have hstep : (f.dayNumber : ℚ) + 1 ≤ f'.dayNumber := by exact_mod_cast hday
    have hlt := ClockFields.secondsOfDay_lt hclock
    have hzero := g'.secondsOfDay_nonneg
    linarith
  · rw [hday]
    exact add_lt_add_right (ClockFields.secondsOfDay_lt_of_lt hzone hclock hclock' (lt_of_cons_lt_cons hrest)) _

theorem cmpText_of_lt {α : Type} [LinearOrder α] {check : Text → Bool} {denoted : Text → Option α}
    (hlt : ∀ {a b : Text} {x y : α}, check a = true → check b = true → denoted a = some x → denoted b = some y →
      a < b → x < y) {x y : α} (ha : check a = true) (hb : check b = true) (hx : denoted a = some x)
    (hy : denoted b = some y) : cmpText a b = cmp x y := by
  refine cmpText_eq_cmp (fun h => ?_) (hlt ha hb hx hy) (hlt hb ha hy hx)
  rw [h, hy] at hx
  exact (Option.some.inj hx).symm

theorem day_lt {x y : Int} (ha : isCanonicalDate a = true) (hb : isCanonicalDate b = true)
    (hx : dayDenoted a = some x) (hy : dayDenoted b = some y) (h : a < b) : x < y := by
  obtain ⟨f, rfl⟩ := isCanonicalDate_iff.mp ha
  obtain ⟨g, rfl⟩ := isCanonicalDate_iff.mp hb
  obtain ⟨hf, rfl⟩ := dayDenoted_eq_some hx
  obtain ⟨hg, rfl⟩ := dayDenoted_eq_some hy
  rw [← List.append_nil f.text, ← List.append_nil g.text] at h
  rcases DateFields.lt_or_eq hf hg h with hday | ⟨-, -, hnil⟩
  · exact hday
  · exact absurd hnil (List.lt_irrefl _)

theorem timestamp_lt {x y : ℚ} (ha : isCanonicalTimestamp a = true) (hb : isCanonicalTimestamp b = true)
    (hx : instantDenoted a = some x) (hy : instantDenoted b = some y) (h : a < b) : x < y := by
  obtain ⟨f, g, rfl⟩ := isCanonicalTimestamp_iff.mp ha
  obtain ⟨f', g', rfl⟩ := isCanonicalTimestamp_iff.mp hb
  rw [← List.append_nil (f.text ++ _), ← List.append_nil (f'.text ++ _)] at h
  exact instant_lt low_nil hx hy h

theorem timestamptz_lt {x y : ℚ} (ha : isCanonicalTimestamptz a = true)
    (hb : isCanonicalTimestamptz b = true) (hx : utcInstantDenoted a = some x) (hy : utcInstantDenoted b = some y)
    (h : a < b) : x < y := by
  obtain ⟨f, g, rfl⟩ := isCanonicalTimestamptz_iff.mp ha
  obtain ⟨f', g', rfl⟩ := isCanonicalTimestamptz_iff.mp hb
  rw [utcInstantDenoted, stripSuffixOf_eq_some.mpr rfl, Option.bind_some] at hx hy
  exact instant_lt low_utc hx hy h

/-! ## The encoders -/

/-- The year of a date or timestamp. What DuckDB reads as infinite has none. -/
def yearOf : ScalarValue → Option Int
  | .date32 days => if days = dateInfinity ∨ days = -dateInfinity then none else some (civilFromDays days).1
  | .timestamp unit _ v =>
    if v = timestampInfinity ∨ v = -timestampInfinity then none
    else some (civilFromDays (v / unit.perSecond / 86400)).1
  | _ => none

/-- The check of a value's kind. -/
def isCanonicalText : ScalarValue → Text → Bool
  | .date32 _, t => isCanonicalDate t
  | .timestamp _ none _, t => isCanonicalTimestamp t
  | .timestamp _ (some _) _, t => isCanonicalTimestamptz t
  | _, _ => false

theorem digits_padded {width n : Nat} (hwidth : 0 < width) (h : n < 10 ^ width) : Digits width (padded width n) :=
  ⟨length_padded hwidth h, List.all_eq_true.mpr fun _ hc => isDigit_of_mem_padded hc⟩

theorem exists_dateFields {days : Int} (h : 1 ≤ (civilFromDays days).1 ∧ (civilFromDays days).1 ≤ 9999) :
    ∃ f : DateFields, duckdbDateText days = f.text := by
  obtain ⟨hmonth, hday⟩ := civilFromDays_range days
  rw [duckdbDateText_eq, if_neg (by omega)]
  refine ⟨⟨padded 4 (civilFromDays days).1.toNat, padded 2 (civilFromDays days).2.1.toNat,
    padded 2 (civilFromDays days).2.2.toNat, digits_padded (by decide) (by omega), digits_padded (by decide) (by omega),
    digits_padded (by decide) (by omega)⟩, ?_⟩
  rw [ymd, List.append_assoc]
  rfl

theorem getLast?_trimZeros (t : Text) : (trimZeros t).getLast? ≠ some '0' := by
  intro h
  rw [trimZeros, List.getLast?_reverse] at h
  have hhead := List.head?_dropWhile_not (· == '0') t.reverse
  rw [h] at hhead
  cases hhead

theorem exists_clockFields (secs sub : Int) (unit : TimeUnit) (hsecs : 0 ≤ secs ∧ secs < 86400) :
    ∃ g : ClockFields, clockText secs ++ fractionText unit sub = g.text := by
  obtain ⟨digits, hdigits, hlast, htext⟩ : ∃ digits : Text, digits.all Char.isDigit = true ∧
    digits.getLast? ≠ some '0' ∧
      fractionText unit sub = if digits = [] then [] else '.' :: digits := by
    by_cases hunit : unit = .second
    · exact ⟨[], rfl, nofun, if_pos hunit⟩
    · refine ⟨trimZeros (padded unit.width sub.toNat), ?_, getLast?_trimZeros _, if_neg hunit⟩
      obtain ⟨k, hk⟩ := exists_trimZeros (padded unit.width sub.toNat)
      refine List.all_eq_true.mpr fun c hc => isDigit_of_mem_padded (w := unit.width) (n := sub.toNat) ?_
      rw [hk]
      exact List.mem_append_left _ hc
  refine ⟨⟨padded 2 (secs / 3600).toNat, padded 2 (secs / 60 % 60).toNat, padded 2 (secs % 60).toNat, digits,
    digits_padded (by decide) (by omega), digits_padded (by decide) (by omega), digits_padded (by decide) (by omega),
    hdigits, hlast⟩, ?_⟩
  rw [htext, clockText, List.append_assoc (padded 2 (secs / 3600).toNat)]
  rfl

theorem encodeTimestamp_eq {v : Int} {unit : TimeUnit} {timezone : Bool}
    (h : encodeTimestamp v unit timezone = some t) (hfinite : ¬ (v = timestampInfinity ∨ v = -timestampInfinity))
    (hyear : 1 ≤ (civilFromDays (v / unit.perSecond / 86400)).1 ∧
      (civilFromDays (v / unit.perSecond / 86400)).1 ≤ 9999) :
    ∃ (f : DateFields) (g : ClockFields), t = f.text ++ ' ' :: g.text ++ if timezone then "+00".toList else [] := by
  rw [not_or] at hfinite
  obtain ⟨f, hf⟩ := exists_dateFields hyear
  obtain ⟨g, hg⟩ := exists_clockFields (v / unit.perSecond % 86400) (v % unit.perSecond) unit (by omega)
  refine ⟨f, g, ?_⟩
  unfold encodeTimestamp at h
  rw [if_neg hfinite.1, if_neg hfinite.2] at h
  split at h
  · cases h
  split at h
  · dsimp only at h
    rw [← Option.some.inj h, ← hf, ← hg, List.append_assoc (duckdbDateText _)]
    rfl
  · cases h

theorem isCanonicalText_encodeScalar {fmt : FloatText} {value : ScalarValue} {year : Int}
    (h : encodeScalar fmt value = some t) (hyear : yearOf value = some year) (hrange : 1 ≤ year ∧ year ≤ 9999) :
    isCanonicalText value t = true := by
  cases value with
  | date32 days =>
    rw [yearOf] at hyear
    split at hyear
    · cases hyear
    next hfinite =>
    cases hyear
    rw [not_or] at hfinite
    obtain ⟨f, hf⟩ := exists_dateFields hrange
    rw [encodeScalar, encodeDate32, if_neg hfinite.1, if_neg hfinite.2] at h
    split at h
    · cases h
    · cases h
      exact isCanonicalDate_iff.mpr ⟨f, hf⟩
  | timestamp unit timezone v =>
    rw [yearOf] at hyear
    split at hyear
    · cases hyear
    next hfinite =>
    cases hyear
    rw [encodeScalar] at h
    obtain ⟨f, g, rfl⟩ := encodeTimestamp_eq h hfinite hrange
    cases timezone with
    | none => exact isCanonicalTimestamp_iff.mpr ⟨f, g, List.append_nil _⟩
    | some zone => exact isCanonicalTimestamptz_iff.mpr ⟨f, g, rfl⟩
  | _ => cases hyear

/-- Comparing checked texts compares the instants they denote, and the texts written for the years of four digits
    pass the check of their kind. -/
theorem canonical_texts_chronological :
    (∀ a b x y, isCanonicalDate a = true → isCanonicalDate b = true → dayDenoted a = some x → dayDenoted b = some y →
      cmpText a b = cmp x y) ∧
    (∀ a b x y, isCanonicalTimestamp a = true → isCanonicalTimestamp b = true → instantDenoted a = some x →
      instantDenoted b = some y → cmpText a b = cmp x y) ∧
    (∀ a b x y, isCanonicalTimestamptz a = true → isCanonicalTimestamptz b = true → utcInstantDenoted a = some x →
      utcInstantDenoted b = some y → cmpText a b = cmp x y) ∧
    ∀ (fmt : FloatText) value t year, encodeScalar fmt value = some t → yearOf value = some year →
      1 ≤ year ∧ year ≤ 9999 → isCanonicalText value t = true := by
  refine ⟨?_, ?_, ?_, ?_⟩
  · intro a b x y
    exact cmpText_of_lt day_lt
  · intro a b x y
    exact cmpText_of_lt timestamp_lt
  · intro a b x y
    exact cmpText_of_lt timestamptz_lt
  · intro fmt value t year h hyear hrange
    exact isCanonicalText_encodeScalar h hyear hrange

/-- Days around a leap day, fractions of thirteen and of no digits, and the text of a microsecond. -/
theorem leap_day_texts_chronological :
    cmpText "2024-02-29".toList "2024-03-01".toList = cmp (19782 : Int) 19783 ∧
    cmpText "2024-02-29 23:59:59".toList "2024-02-29 23:59:59.5".toList = cmp (1709251199 : ℚ) (1709251199 + 5 / 10) ∧
    cmpText "2024-02-29 23:59:59.0000000000001+00".toList "2024-02-29 23:59:59+00".toList =
      cmp (1709251199 + 1 / 10 ^ 13 : ℚ) 1709251199 ∧
    isCanonicalText (.timestamp .microsecond none 1709251199000001) "2024-02-29 23:59:59.000001".toList = true := by
  obtain ⟨hdate, htimestamp, htimestamptz, hencoded⟩ := canonical_texts_chronological
  refine ⟨hdate _ _ _ _ ?_ ?_ ?_ ?_, htimestamp _ _ _ _ ?_ ?_ ?_ ?_, htimestamptz _ _ _ _ ?_ ?_ ?_ ?_,
    hencoded ⟨fun _ => none, fun _ => none⟩ _ _ 2024 ?_ ?_ ?_⟩
  all_goals first | rfl | decide +kernel

end DuckLake.StatsCompare
