import Mathlib.Data.List.TakeWhile
import Mathlib.Data.List.Infix
import DuckLake.Nested.Text
import DuckLake.Stats.Compare
import DuckLake.Stats.Spelling

/- Temporal statistics are exact and ordered: the texts of `encode_date32` and
   `encode_timestamp` (`stats_encode.rs`) against the two parsers that read them,
   `parse_stat_instant` for the comparison and `parse_duckdb_temporal` (`types.rs`) for
   the value.

   Correspondence (Rust ↔ Lean):
     `parse_duckdb_temporal`                        ↔ `parseDuckdbTemporal`
     `parse_field`, `clock_seconds`                 ↔ `parseField`, `clockSeconds`
     the dates and timestamps of
       `parse_ducklake_scalar_leaf`                 ↔ `parseDucklakeTemporal`
     `ScalarValue::try_from_string` (Arrow's parser) ↔ the parameter `arrow`

   A `Moment` is a date and a time of day as DuckDB spells them, by its digits. Both
   parsers read every moment as the instant it spells (`parseStatInstant_text`,
   `parseDuckdbTemporal_text`), and the encoders write moments (`exists_moment`). -/

namespace DuckLake.StatsCompare

open Split
open Nested (trimText isUnicodeSpace isUnicodeSpace_digit Trimmed trimmed_of_forall)

/-! ## Reading a value -/

/-- `str::replace(pattern, "")`; `skip` characters belong to a match. -/
def removeFrom (pattern : Text) : Nat → Text → Text
  | _, [] => []
  | skip + 1, _ :: t => removeFrom pattern skip t
  | 0, c :: t =>
    if pattern.isPrefixOf (c :: t) then removeFrom pattern (pattern.length - 1) t else c :: removeFrom pattern 0 t

def contains (t pattern : Text) : Bool := t.tails.any (pattern.isPrefixOf ·)

def isDateEnd (c : Char) : Bool := c == ' ' || c == 'T'

/-- The date ends at the first space or `T` after its first character. -/
def splitMoment : Text → Text × Option Text
  | [] => ([], none)
  | c :: t => match t.dropWhile (!isDateEnd ·) with
    | [] => (c :: t, none)
    | _ :: time => (c :: t.takeWhile (!isDateEnd ·), some (trimText time))

/-- `date.rsplitn(3, '-')`, in the order of the text. -/
def rsplitDate (date : Text) : Option (Text × Text × Text) := do
  let (rest, day) ← rsplitOnce '-' date
  let (year, month) ← rsplitOnce '-' rest
  return (year, month, day)

def parseField (t : Text) : Option Nat := parseDigits t

def clockSeconds (hours minutes seconds : Nat) : Int := hours * 3600 + minutes * 60 + seconds

def optionalField : Option Text → Option Nat
  | none => some 0
  | some t => parseField t

def isOffsetStart (c : Char) : Bool := c == '+' || c == '-' || c == 'Z'

def offsetSeconds (offset : Text) : Option Int :=
  match offset with
  | [] => some 0
  | ['Z'] => some 0
  | sign :: fields => do
    let fields := fields.splitOn ':'
    let hours ← fields.head?.bind parseField
    let minutes ← optionalField fields[1]?
    let seconds ← optionalField fields[2]?
    let magnitude := clockSeconds hours minutes seconds
    return if sign = '-' then -magnitude else magnitude

def nanosPerUnit : TimeUnit → Int
  | .second => 1000000000
  | .millisecond => 1000000
  | .microsecond => 1000
  | .nanosecond => 1

/-- Seconds and nanoseconds of the clock, and the seconds of the offset. -/
def parseClock : Option Text → Option (Int × Nat × Int)
  | none => some (0, 0, 0)
  | some time => do
    let offset ← offsetSeconds (time.dropWhile (!isOffsetStart ·))
    let clock := trimText (time.takeWhile (!isOffsetStart ·))
    let (whole, fraction) := (splitOnce '.' clock).getD (clock, [])
    match whole.splitOn ':' with
    | [hours, minutes, seconds] =>
      let hours ← parseField hours
      let minutes ← parseField minutes
      let seconds ← parseField seconds
      if 9 < fraction.length ∨ !fraction.all Char.isDigit then none
      else
        let nanos ← Numeral.parseNat (padRight 9 fraction)
        return (clockSeconds hours minutes seconds, nanos, offset)
    | _ => none

def checkedI32 (n : Int) : Option Int := if -2 ^ 31 ≤ n ∧ n ≤ 2 ^ 31 - 1 then some n else none

/-- DuckDB's sentinels. -/
def infiniteValue (negative : Bool) : DataType → Option ScalarValue
  | .date32 => some (.date32 (if negative then -(2 ^ 31 - 1) else 2 ^ 31 - 1))
  | .timestamp unit timezone => some (.timestamp unit timezone (if negative then -(2 ^ 63 - 1) else 2 ^ 63 - 1))
  | _ => none

def timestampOf (unit : TimeUnit) (timezone : Option Text) (days : Int) (clock : Int × Nat × Int) :
    Option ScalarValue := do
  let (seconds, nanos, offset) := clock
  let totalSeconds := days * 86400 + seconds - offset
  if (nanos : Int) % nanosPerUnit unit ≠ 0 then none
  else
    let value ← checkedI64 (totalSeconds * unit.perSecond + (nanos : Int) / nanosPerUnit unit)
    return .timestamp unit timezone value

/-- The finite dates and timestamps. -/
def parseFiniteTemporal (t : Text) (dataType : DataType) : Option ScalarValue := do
  let bc := contains t "(BC)".toList
  let t := trimText (removeFrom "(BC)".toList 0 (removeFrom " (BC)".toList 0 t))
  let (date, time) := splitMoment t
  let (year, month, day) ← rsplitDate date
  let day ← parseField day
  let month ← parseField month
  let year ← parseField year
  let days ← daysFromCivil (if bc then 1 - (year : Int) else year) month day
  match dataType with
  | .date32 => return .date32 (← checkedI32 days)
  | .timestamp unit timezone => timestampOf unit timezone days (← parseClock time)
  | _ => none

def parseDuckdbTemporal (t : Text) (dataType : DataType) : Option ScalarValue :=
  let t := trimText t
  if t = "infinity".toList then infiniteValue false dataType
  else if t = "-infinity".toList then infiniteValue true dataType
  else parseFiniteTemporal t dataType

def parseDucklakeTemporal (arrow : Text → DataType → Option ScalarValue) (t : Text) (dataType : DataType) :
    Option ScalarValue :=
  match dataType with
  | .timestamp .nanosecond timezone =>
    ((Numeral.parseIntIn (-2 ^ 63) (2 ^ 63 - 1) t).map (.timestamp .nanosecond timezone)).or
      ((arrow t dataType).or (parseDuckdbTemporal t dataType))
  | .date32 | .timestamp _ _ => (arrow t dataType).or (parseDuckdbTemporal t dataType)
  | _ => none

/-! ## Moments -/

/-- A run of one to eighteen digits. -/
structure IsField (t : Text) : Prop where
  nonempty : t ≠ []
  short : t.length ≤ 18
  digits : t.all Char.isDigit = true

structure Clock where
  hours : Text
  minutes : Text
  seconds : Text
  fraction : Text
  utc : Bool
  hoursField : IsField hours
  minutesField : IsField minutes
  secondsField : IsField seconds
  fractionDigits : fraction.all Char.isDigit = true
  fractionShort : fraction.length ≤ 9

namespace Clock

def fractionSuffix (c : Clock) : Text := if c.fraction = [] then [] else '.' :: c.fraction

def zoneSuffix (c : Clock) : Text := if c.utc then "+00".toList else []

/-- The clock before its fraction. -/
def hms (c : Clock) : Text := c.hours ++ ':' :: (c.minutes ++ ':' :: c.seconds)

def text (c : Clock) : Text := c.hms ++ c.fractionSuffix ++ c.zoneSuffix

def wholeSeconds (c : Clock) : Int :=
  Numeral.value c.hours * 3600 + Numeral.value c.minutes * 60 + Numeral.value c.seconds

/-- The fraction in nanoseconds. -/
def subNanos (c : Clock) : Nat := Numeral.value (padRight 9 c.fraction)

def nanos (c : Clock) : Int := c.wholeSeconds * 1000000000 + c.subNanos

end Clock

/-- A date that exists, and a time of day. Fifteen digits of a year keep its days within
    64 bits. -/
structure Moment where
  year : Text
  month : Text
  day : Text
  bc : Bool
  clock : Option Clock
  yearField : IsField year
  yearShort : year.length ≤ 15
  monthField : IsField month
  dayField : IsField day
  monthExists : 1 ≤ Numeral.value month ∧ Numeral.value month ≤ 12
  dayExists : 1 ≤ (Numeral.value day : Int) ∧
    (Numeral.value day : Int) ≤ monthDays (if bc then 1 - (Numeral.value year : Int) else Numeral.value year)
      (Numeral.value month)

namespace Moment

/-- The year, counted through year 0 to years before. -/
def yearNumber (m : Moment) : Int := if m.bc then 1 - (Numeral.value m.year : Int) else Numeral.value m.year

def date (m : Moment) : Text := m.year ++ '-' :: (m.month ++ '-' :: m.day)

def clockSuffix (m : Moment) : Text := m.clock.elim [] fun c => ' ' :: c.text

def text (m : Moment) : Text := m.date ++ ((if m.bc then " (BC)".toList else []) ++ m.clockSuffix)

def days (m : Moment) : Int := dayOfCivil m.yearNumber (Numeral.value m.month) (Numeral.value m.day)

def nanos (m : Moment) : Int := m.days * nanosPerDay + m.clock.elim 0 Clock.nanos

end Moment

/-! ## Fields -/

theorem IsField.notMem {t : Text} (h : IsField t) {c : Char} (hc : c.isDigit = false) : c ∉ t := by
  intro hm
  rw [List.all_eq_true.mp h.digits c hm] at hc
  cases hc

theorem IsField.parseDigits {t : Text} (h : IsField t) : parseDigits t = some (Numeral.value t) := by
  unfold StatsCompare.parseDigits
  rw [if_pos h.short, Numeral.parseNat_of_isDigit h.nonempty h.digits]

theorem splitOn_three {a b c : Text} {s : Char} (ha : s ∉ a) (hb : s ∉ b) (hc : s ∉ c) :
    (a ++ s :: (b ++ s :: c)).splitOn s = [a, b, c] := by
  rw [List.splitOn_append_cons_self, List.splitOn_append_cons_self, List.splitOn_eq_singleton ha,
    List.splitOn_eq_singleton hb,
    List.splitOn_eq_singleton hc]
  rfl

theorem noSpace_of_all {t : Text} (h : t.all (!isUnicodeSpace ·) = true) : ∀ c ∈ t, isUnicodeSpace c = false := by
  intro c hc
  have := List.all_eq_true.mp h c hc
  simpa using this

/-! ## The clock -/

namespace Clock

variable (c : Clock)

theorem notMem_hms {x : Char} (hd : x.isDigit = false) (hcolon : x ≠ ':') : x ∉ c.hms := by
  unfold hms
  simp only [List.mem_append, List.mem_cons, not_or]
  exact ⟨c.hoursField.notMem hd, hcolon, c.minutesField.notMem hd, hcolon, c.secondsField.notMem hd⟩

theorem notMem_fractionSuffix {x : Char} (hd : x.isDigit = false) (hpoint : x ≠ '.') :
    x ∉ c.fractionSuffix := by
  unfold fractionSuffix
  split
  · exact List.not_mem_nil
  · rw [List.mem_cons, not_or]
    refine ⟨hpoint, fun hm => ?_⟩
    rw [List.all_eq_true.mp c.fractionDigits x hm] at hd
    cases hd

theorem notMem_text {x : Char} (hd : x.isDigit = false) (hcolon : x ≠ ':') (hpoint : x ≠ '.')
    (hplus : x ≠ '+') : x ∉ c.text := by
  unfold text
  rw [List.mem_append, List.mem_append, not_or, not_or]
  refine ⟨⟨c.notMem_hms hd hcolon, c.notMem_fractionSuffix hd hpoint⟩, ?_⟩
  unfold zoneSuffix
  split
  · intro hm
    rcases List.mem_cons.mp hm with h | h
    · exact hplus h
    · have hzero : ['0', '0'].all Char.isDigit = true := rfl
      rw [List.all_eq_true.mp hzero x h] at hd
      cases hd
  · exact List.not_mem_nil

theorem cut_text {p : Char → Bool} (hplus : p '+' = true)
    (hclock : ∀ x ∈ c.hms ++ c.fractionSuffix, p x = false) :
    c.text.takeWhile (!p ·) = c.hms ++ c.fractionSuffix ∧ c.text.dropWhile (!p ·) = c.zoneSuffix := by
  have hall : ∀ x ∈ c.hms ++ c.fractionSuffix, (!p x) = true := fun x hx => by rw [hclock x hx]; rfl
  have hzone : (c.zoneSuffix.takeWhile (!p ·) = []) ∧ c.zoneSuffix.dropWhile (!p ·) = c.zoneSuffix := by
    unfold zoneSuffix
    split
    · have hcons : "+00".toList = '+' :: ['0', '0'] := rfl
      rw [hcons, List.takeWhile_cons, List.dropWhile_cons, hplus]
      exact ⟨rfl, rfl⟩
    · exact ⟨rfl, rfl⟩
  unfold text
  rw [List.takeWhile_append_of_pos hall, List.dropWhile_append_of_pos hall, hzone.1, hzone.2, List.append_nil]
  exact ⟨rfl, rfl⟩

theorem cut_fraction : (splitOnce '.' (c.hms ++ c.fractionSuffix)).getD (c.hms ++ c.fractionSuffix, []) =
    (c.hms, c.fraction) := by
  have hpoint : '.' ∉ c.hms := c.notMem_hms (by decide) (by decide)
  unfold fractionSuffix
  by_cases h : c.fraction = []
  · rw [if_pos h, List.append_nil, splitOnce_eq_none hpoint, h]
    rfl
  · rw [if_neg h, splitOnce_append hpoint]
    rfl

theorem splitOn_hms : c.hms.splitOn ':' = [c.hours, c.minutes, c.seconds] :=
  splitOn_three (c.hoursField.notMem (by decide)) (c.minutesField.notMem (by decide))
    (c.secondsField.notMem (by decide))

theorem parseNat_fraction : Numeral.parseNat (padRight 9 c.fraction) = some c.subNanos := by
  have hzeros : (List.replicate (9 - c.fraction.length) '0').all Char.isDigit = true := by
    rw [List.all_eq_true]
    intro x hx
    rw [List.eq_of_mem_replicate hx]
    rfl
  refine Numeral.parseNat_of_isDigit ?_ ?_
  · intro hnil
    have := congrArg List.length hnil
    rw [padRight, List.length_append, List.length_replicate, List.length_nil] at this
    have := c.fractionShort
    omega
  · rw [padRight, List.all_append, c.fractionDigits, hzeros]
    rfl

theorem fractionNanos_fraction : fractionNanos c.fraction = some c.subNanos := by
  unfold fractionNanos
  rw [if_neg (by rw [c.fractionDigits]; simpa using c.fractionShort)]
  by_cases h : c.fraction = []
  · rw [if_pos h, subNanos, h]
    rfl
  · rw [if_neg h, c.parseNat_fraction]

theorem isSign_clock : ∀ x ∈ c.hms ++ c.fractionSuffix, isSign x = false := by
  intro x hx
  have hne : ∀ y : Char, y.isDigit = false → y ≠ ':' → y ≠ '.' → x ≠ y := by
    intro y hd hcolon hpoint heq
    rw [heq, List.mem_append] at hx
    rcases hx with hx | hx
    · exact c.notMem_hms hd hcolon hx
    · exact c.notMem_fractionSuffix hd hpoint hx
  have hplus := hne '+' (by decide) (by decide) (by decide)
  have hminus := hne '-' (by decide) (by decide) (by decide)
  simp [isSign, hplus, hminus]

theorem isOffsetStart_clock : ∀ x ∈ c.hms ++ c.fractionSuffix, isOffsetStart x = false := by
  intro x hx
  have hsign := c.isSign_clock x hx
  have hz : x ≠ 'Z' := by
    intro heq
    rw [heq, List.mem_append] at hx
    rcases hx with hx | hx
    · exact c.notMem_hms (by decide) (by decide) hx
    · exact c.notMem_fractionSuffix (by decide) (by decide) hx
  unfold isSign at hsign
  unfold isOffsetStart
  rw [hsign]
  simpa using hz

theorem parseTimeOfDay_text : parseTimeOfDay c.text = some c.nanos := by
  obtain ⟨hclock, hzone⟩ := c.cut_text (p := isSign) rfl c.isSign_clock
  have hoffset : offsetNanos c.zoneSuffix = some 0 := by
    unfold zoneSuffix
    split
    · decide
    · rfl
  unfold parseTimeOfDay
  dsimp only
  rw [hclock, hzone, c.cut_fraction]
  dsimp only
  rw [c.splitOn_hms]
  dsimp only [Option.bind_eq_bind]
  rw [c.hoursField.parseDigits, c.minutesField.parseDigits, c.secondsField.parseDigits, c.fractionNanos_fraction,
    hoffset]
  simp only [Option.bind_some, Option.pure_def, Option.some.injEq, nanos, wholeSeconds, secondsOfDay, nanosPerSecond]
  omega


theorem noSpace_hms : ∀ x ∈ c.hms ++ c.fractionSuffix, isUnicodeSpace x = false := by
  intro x hx
  have hdigit : ∀ {y : Char}, y.isDigit = true → isUnicodeSpace y = false := isUnicodeSpace_digit
  have hfield : ∀ {t : Text}, IsField t → x ∈ t → isUnicodeSpace x = false := fun ht hm =>
    hdigit (List.all_eq_true.mp ht.digits x hm)
  rw [List.mem_append] at hx
  rcases hx with hx | hx
  · unfold hms at hx
    simp only [List.mem_append, List.mem_cons] at hx
    rcases hx with hx | rfl | hx | rfl | hx
    · exact hfield c.hoursField hx
    · decide
    · exact hfield c.minutesField hx
    · decide
    · exact hfield c.secondsField hx
  · unfold fractionSuffix at hx
    split at hx
    · cases hx
    · rcases List.mem_cons.mp hx with rfl | hx
      · decide
      · exact hdigit (List.all_eq_true.mp c.fractionDigits x hx)

theorem hms_ne_nil : c.hms ≠ [] := by
  unfold hms
  simp [c.hoursField.nonempty]

theorem trimmed_hms : Trimmed (c.hms ++ c.fractionSuffix) :=
  trimmed_of_forall (by simp [c.hms_ne_nil]) c.noSpace_hms

theorem noSpace_text : ∀ x ∈ c.text, isUnicodeSpace x = false := by
  intro x hx
  unfold text at hx
  rcases List.mem_append.mp hx with hx | hx
  · exact c.noSpace_hms x hx
  · have hzone : ∀ y ∈ "+00".toList, isUnicodeSpace y = false := noSpace_of_all (by decide)
    unfold zoneSuffix at hx
    split at hx
    · exact hzone x hx
    · cases hx

theorem trimmed_text : Trimmed c.text :=
  trimmed_of_forall (by simp [text, c.hms_ne_nil]) c.noSpace_text

theorem parseClock_text : parseClock (some c.text) = some (c.wholeSeconds, c.subNanos, 0) := by
  obtain ⟨hclock, hzone⟩ := c.cut_text (p := isOffsetStart) rfl c.isOffsetStart_clock
  have hoffset : offsetSeconds c.zoneSuffix = some 0 := by
    unfold zoneSuffix
    split
    · decide
    · rfl
  unfold parseClock
  dsimp only
  rw [hclock, hzone, hoffset, c.trimmed_hms.eq, c.cut_fraction]
  dsimp only [Option.bind_eq_bind, Option.bind_some]
  rw [c.splitOn_hms]
  dsimp only [parseField]
  rw [c.hoursField.parseDigits, c.minutesField.parseDigits, c.secondsField.parseDigits]
  dsimp only [Option.bind_some]
  rw [if_neg (by rw [c.fractionDigits]; simpa using c.fractionShort), c.parseNat_fraction]
  rfl

end Clock

/-! ## The date -/

theorem daysFromCivil_eq {year month day : Int} (hmonth : 1 ≤ month ∧ month ≤ 12)
    (hday : 1 ≤ day ∧ day ≤ monthDays year month) (hyear : -10 ^ 15 ≤ year ∧ year ≤ 10 ^ 15) :
    daysFromCivil year month day = some (dayOfCivil year month day) := by
  have hday31 : day ≤ 31 := by
    refine hday.2.trans ?_
    unfold monthDays
    split
    · split <;> omega
    · split <;> omega
  have hmarch : (month + 9) % 12 = if month ≤ 2 then month + 9 else month - 3 := by
    split <;> omega
  obtain ⟨y, hy⟩ : ∃ y, y = if month ≤ 2 then year - 1 else year := ⟨_, rfl⟩
  obtain ⟨k, hk⟩ : ∃ k, k = if month ≤ 2 then month + 9 else month - 3 := ⟨_, rfl⟩
  have hy' : -10 ^ 15 - 1 ≤ y ∧ y ≤ 10 ^ 15 := by
    rw [hy]
    split <;> omega
  have hk' : 0 ≤ k ∧ k ≤ 11 := by
    rw [hk]
    split <;> omega
  unfold daysFromCivil dayOfCivil Gregorian.marchDay
  rw [if_neg (by simpa using hmonth), if_neg (by simpa using hday)]
  dsimp only [Option.bind_eq_bind]
  rw [hmarch, ← hy, ← hk]
  have hchecked : ∀ {n : Int}, -2 ^ 63 ≤ n ∧ n ≤ 2 ^ 63 - 1 → checkedI64 n = some n := fun h => if_pos h
  have hday₁ := hday.1
  clear hy hk hmarch hday
  obtain ⟨era, hera⟩ : ∃ era, era = y / 400 := ⟨_, rfl⟩
  obtain ⟨yoe, hyoe⟩ : ∃ yoe, yoe = y % 400 := ⟨_, rfl⟩
  have hsplit : y = 400 * era + yoe := by
    have := Int.mul_ediv_add_emod y 400
    omega
  have hyoe' : 0 ≤ yoe ∧ yoe < 400 := by omega
  rw [← hera, ← hyoe]
  rw [hchecked (by omega), Option.bind_some, hchecked (by omega), Option.bind_some, hchecked (by omega)]
  congr 1
  have hfour : y / 4 = 100 * era + yoe / 4 := by omega
  have hhundred : y / 100 = 4 * era + yoe / 100 := by omega
  omega

namespace Moment

variable (m : Moment)

theorem notMem_date {x : Char} (hd : x.isDigit = false) (hminus : x ≠ '-') : x ∉ m.date := by
  unfold date
  simp only [List.mem_append, List.mem_cons, not_or]
  exact ⟨m.yearField.notMem hd, hminus, m.monthField.notMem hd, hminus, m.dayField.notMem hd⟩

theorem splitDate_date : splitDate m.date = some (m.year, m.month, m.day) := by
  unfold splitDate date
  rw [splitOnce_append (m.yearField.notMem (by decide))]
  dsimp only [Option.bind_eq_bind, Option.bind_some]
  rw [splitOnce_append (m.monthField.notMem (by decide))]
  rfl

theorem rsplitDate_date : rsplitDate m.date = some (m.year, m.month, m.day) := by
  have hassoc : m.date = (m.year ++ '-' :: m.month) ++ '-' :: m.day := by simp [date]
  unfold rsplitDate
  rw [hassoc, rsplitOnce_append (m.dayField.notMem (by decide))]
  dsimp only [Option.bind_eq_bind, Option.bind_some]
  rw [rsplitOnce_append (m.monthField.notMem (by decide))]
  rfl

theorem daysFromCivil_date :
    daysFromCivil m.yearNumber (Numeral.value m.month) (Numeral.value m.day) = some m.days := by
  refine daysFromCivil_eq ?_ m.dayExists ?_
  · have := m.monthExists
    omega
  · have hlt : Numeral.value m.year < 10 ^ 15 :=
      (Numeral.value_lt_pow m.yearField.digits).trans_le (Nat.pow_le_pow_right (by decide) m.yearShort)
    unfold yearNumber
    split <;> omega

theorem splitRest_text : splitRest m.text =
    (m.date, if m.bc then some ("(BC)".toList ++ m.clockSuffix) else m.clock.map Clock.text) := by
  have hspace : ' ' ∉ m.date := m.notMem_date (by decide) (by decide)
  unfold splitRest text
  cases hbc : m.bc with
  | true =>
    have hcons : " (BC)".toList ++ m.clockSuffix = ' ' :: ("(BC)".toList ++ m.clockSuffix) := rfl
    rw [if_pos rfl, hcons, splitOnce_append hspace]
    rfl
  | false =>
    rw [if_neg (by decide), List.nil_append]
    unfold clockSuffix
    cases m.clock with
    | none =>
      dsimp only [Option.elim_none]
      rw [List.append_nil, splitOnce_eq_none hspace]
      rfl
    | some c =>
      dsimp only [Option.elim_some]
      rw [splitOnce_append hspace]
      rfl

theorem splitEra_text :
    splitEra (if m.bc then some ("(BC)".toList ++ m.clockSuffix) else m.clock.map Clock.text) =
      (m.bc, m.clock.map Clock.text) := by
  cases hbc : m.bc with
  | true =>
    rw [if_pos rfl]
    unfold clockSuffix
    cases m.clock with
    | none => rfl
    | some c =>
      have hne : "(BC)".toList ++ ' ' :: c.text ≠ "(BC)".toList := fun h => by
        have := congrArg List.length h
        simp at this
      unfold splitEra
      dsimp only [Option.elim_some]
      rw [if_neg hne]
      rfl
  | false =>
    rw [if_neg (by decide)]
    cases m.clock with
    | none => rfl
    | some c =>
      have hpar : '(' ∉ c.text := c.notMem_text (by decide) (by decide) (by decide) (by decide)
      have hne : c.text ≠ "(BC)".toList := fun h => hpar (by rw [h]; decide)
      have hpre : ¬ "(BC) ".toList.isPrefixOf c.text = true := fun h =>
        hpar ((List.isPrefixOf_iff_prefix.mp h).subset (by decide))
      unfold splitEra
      dsimp only [Option.map_some]
      rw [if_neg hne, if_neg hpre]

theorem isTimeOfDay_text : isTimeOfDay m.text = false := by
  have hascii : ∀ c ∈ m.date, c.toNat < 0x80 := by
    intro c hc
    have hdigit : ∀ {t : Text}, IsField t → c ∈ t → c.toNat < 0x80 := fun ht hm =>
      Numeral.ascii_of_isDigit (List.all_eq_true.mp ht.digits c hm)
    unfold date at hc
    simp only [List.mem_append, List.mem_cons] at hc
    rcases hc with hc | rfl | hc | rfl | hc
    · exact hdigit m.yearField hc
    · decide
    · exact hdigit m.monthField hc
    · decide
    · exact hdigit m.dayField hc
  have hlen : 2 < m.date.length := by
    have h₁ := List.length_pos_iff.mpr m.yearField.nonempty
    unfold date
    simp only [List.length_append, List.length_cons]
    omega
  have hthird : (Utf8.encode m.text)[2]? = some (m.date.get ⟨2, hlen⟩).toUInt8 := by
    unfold text
    rw [Utf8.encode_append, Utf8.encode_ascii hascii, List.getElem?_append_left (by simpa using hlen),
      List.getElem?_map, List.getElem?_eq_getElem hlen]
    rfl
  have hmem : m.date.get ⟨2, hlen⟩ ∈ m.date := List.get_mem ..
  have hne : (m.date.get ⟨2, hlen⟩).toUInt8 ≠ 0x3a := by
    intro heq
    have hcolon : m.date.get ⟨2, hlen⟩ = ':' := (Utf8.toUInt8_inj (hascii _ hmem) (by decide)).mp heq
    exact m.notMem_date (by decide) (by decide) (hcolon ▸ hmem)
  unfold isTimeOfDay
  rw [hthird, Bool.and_eq_false_iff]
  right
  rw [beq_eq_false_iff_ne]
  simpa using hne

theorem text_ne {t : Text} {x : Char} (hx : t.head? = some x) (hd : x.isDigit = false) : m.text ≠ t := by
  obtain ⟨c, u, hc⟩ := List.exists_cons_of_ne_nil m.yearField.nonempty
  intro h
  have hhead : m.text.head? = some c := by
    unfold text date
    rw [hc]
    rfl
  rw [h, hx, Option.some.injEq] at hhead
  have := List.all_eq_true.mp m.yearField.digits c (by rw [hc]; simp)
  rw [← hhead, hd] at this
  cases this

theorem parseStatInstant_text : parseStatInstant m.text = some (0, m.nanos) := by
  have hdays := m.daysFromCivil_date
  unfold yearNumber at hdays
  unfold parseStatInstant
  rw [if_neg (m.text_ne rfl (by decide)), if_neg (m.text_ne rfl (by decide)), m.isTimeOfDay_text,
    if_neg (by decide)]
  dsimp only
  rw [m.splitRest_text]
  dsimp only
  rw [m.splitEra_text]
  dsimp only [Option.bind_eq_bind]
  rw [m.splitDate_date]
  dsimp only [Option.bind_some]
  rw [m.yearField.parseDigits, m.monthField.parseDigits, m.dayField.parseDigits]
  dsimp only [Option.bind_some]
  rw [hdays]
  unfold nanos
  cases m.clock with
  | none => rfl
  | some c =>
    dsimp only [Option.map_some, Option.elim_some, Option.bind_some]
    rw [c.parseTimeOfDay_text]
    rfl

end Moment

/-! ## Removing the era -/

theorem removeFrom_skip (pattern : Text) {skip : Text} (t : Text) :
    removeFrom pattern skip.length (skip ++ t) = removeFrom pattern 0 t := by
  induction skip with
  | nil => rfl
  | cons c skip ih => exact ih

theorem removeFrom_append {x : Char} {pattern a : Text} (h : x ∉ a) (b : Text) :
    removeFrom (x :: pattern) 0 (a ++ b) = a ++ removeFrom (x :: pattern) 0 b := by
  induction a with
  | nil => rfl
  | cons c a ih =>
    rw [List.mem_cons, not_or] at h
    have hno : ¬ (x :: pattern).isPrefixOf (c :: (a ++ b)) = true := by
      simp [h.1]
    rw [List.cons_append, removeFrom, if_neg hno, ih h.2, List.cons_append]

theorem removeFrom_self (x : Char) (pattern b : Text) :
    removeFrom (x :: pattern) 0 (x :: pattern ++ b) = removeFrom (x :: pattern) 0 b := by
  have hyes : (x :: pattern).isPrefixOf (x :: (pattern ++ b)) = true :=
    List.isPrefixOf_iff_prefix.mpr (List.prefix_append (x :: pattern) b)
  rw [List.cons_append, removeFrom, if_pos hyes, List.length_cons, Nat.add_sub_cancel, removeFrom_skip]

theorem removeFrom_of_notMem {pattern t : Text} {y : Char} (hy : y ∈ pattern) (ht : y ∉ t) :
    removeFrom pattern 0 t = t := by
  induction t with
  | nil => rfl
  | cons c t ih =>
    have hno : ¬ pattern.isPrefixOf (c :: t) = true := fun h => ht ((List.isPrefixOf_iff_prefix.mp h).subset hy)
    rw [removeFrom, if_neg hno, ih fun h => ht (List.mem_cons_of_mem _ h)]

namespace Moment

variable (m : Moment)

theorem parenthesis_notMem : '(' ∉ m.date ++ m.clockSuffix := by
  rw [List.mem_append, not_or]
  refine ⟨m.notMem_date (by decide) (by decide), ?_⟩
  unfold clockSuffix
  cases m.clock with
  | none => exact List.not_mem_nil
  | some c =>
    rw [Option.elim_some, List.mem_cons, not_or]
    exact ⟨by decide, c.notMem_text (by decide) (by decide) (by decide) (by decide)⟩

theorem removeFrom_text :
    removeFrom "(BC)".toList 0 (removeFrom " (BC)".toList 0 m.text) = m.date ++ m.clockSuffix := by
  have hpar := m.parenthesis_notMem
  have hfirst : removeFrom " (BC)".toList 0 m.text = m.date ++ m.clockSuffix := by
    have hpattern : " (BC)".toList = ' ' :: "(BC)".toList := rfl
    unfold text
    cases m.bc with
    | true =>
      have hclock : '(' ∉ m.clockSuffix := fun h => hpar (List.mem_append_right _ h)
      rw [if_pos rfl, hpattern, removeFrom_append (m.notMem_date (by decide) (by decide)), removeFrom_self,
        removeFrom_of_notMem (y := '(') (by decide) hclock]
    | false =>
      rw [if_neg (by decide), List.nil_append]
      exact removeFrom_of_notMem (y := '(') (by decide) hpar
  rw [hfirst]
  exact removeFrom_of_notMem (y := '(') (by decide) hpar

theorem contains_text : contains m.text "(BC)".toList = m.bc := by
  unfold contains text
  cases m.bc with
  | true =>
    rw [if_pos rfl, List.any_eq_true]
    refine ⟨"(BC)".toList ++ m.clockSuffix, ?_, List.isPrefixOf_iff_prefix.mpr (List.prefix_append ..)⟩
    rw [List.mem_tails]
    exact ⟨m.date ++ [' '], by simp⟩
  | false =>
    rw [if_neg (by decide), List.nil_append, List.any_eq_false]
    intro piece hpiece hpre
    have hmem : '(' ∈ piece := (List.isPrefixOf_iff_prefix.mp hpre).subset (by decide)
    exact m.parenthesis_notMem ((List.mem_tails .. |>.mp hpiece).subset hmem)

theorem trimmed_date : Trimmed m.date := by
  have hfield : ∀ {t : Text}, IsField t → Trimmed t := fun ht =>
    trimmed_of_forall ht.nonempty fun c hc => isUnicodeSpace_digit (List.all_eq_true.mp ht.digits c hc)
  have := Trimmed.append (m := '-' :: (m.month ++ ['-'])) (hfield m.yearField) (hfield m.dayField)
  simpa [date] using this

theorem trimmed_withClock : Trimmed (m.date ++ m.clockSuffix) := by
  unfold clockSuffix
  cases m.clock with
  | none =>
    rw [Option.elim_none, List.append_nil]
    exact m.trimmed_date
  | some c =>
    have := Trimmed.append (m := [' ']) m.trimmed_date c.trimmed_text
    rwa [List.append_assoc] at this

theorem trimmed_text : Trimmed m.text := by
  unfold text
  cases m.bc with
  | false =>
    rw [if_neg (by decide), List.nil_append]
    exact m.trimmed_withClock
  | true =>
    rw [if_pos rfl]
    unfold clockSuffix
    cases m.clock with
    | none =>
      have hera : Trimmed "(BC)".toList := trimmed_of_forall (by decide) (noSpace_of_all (by decide))
      have := Trimmed.append (m := [' ']) m.trimmed_date hera
      rwa [List.append_assoc] at this
    | some c =>
      have := Trimmed.append (m := " (BC) ".toList) m.trimmed_date c.trimmed_text
      rw [List.append_assoc] at this
      exact this

theorem splitMoment_text : splitMoment (m.date ++ m.clockSuffix) = (m.date, m.clock.map Clock.text) := by
  obtain ⟨x, y, hxy⟩ := List.exists_cons_of_ne_nil m.yearField.nonempty
  have hdate : m.date = x :: (y ++ '-' :: (m.month ++ '-' :: m.day)) := by
    unfold date
    rw [hxy, List.cons_append]
  have hkeep : ∀ c ∈ y ++ '-' :: (m.month ++ '-' :: m.day), (!isDateEnd c) = true := by
    intro c hc
    have hmem : c ∈ m.date := by
      rw [hdate]
      exact List.mem_cons_of_mem _ hc
    have hspace : c ≠ ' ' := fun h => m.notMem_date (by decide) (by decide) (h ▸ hmem)
    have htee : c ≠ 'T' := fun h => m.notMem_date (by decide) (by decide) (h ▸ hmem)
    simp [isDateEnd, hspace, htee]
  have hnil : (y ++ '-' :: (m.month ++ '-' :: m.day)).dropWhile (fun c => !isDateEnd c) = [] :=
    List.dropWhile_eq_nil_iff.mpr hkeep
  rw [hdate]
  unfold clockSuffix
  cases m.clock with
  | none =>
    rw [Option.elim_none, List.append_nil, splitMoment, hnil]
    rfl
  | some c =>
    have hend : (!isDateEnd ' ') = false := by decide
    rw [Option.elim_some, List.cons_append, splitMoment, List.dropWhile_append_of_pos hkeep,
      List.takeWhile_append_of_pos hkeep, List.dropWhile_cons, List.takeWhile_cons, hend, if_neg Bool.false_ne_true,
      if_neg Bool.false_ne_true]
    dsimp only
    rw [List.append_nil, c.trimmed_text.eq]
    rfl

theorem parseDuckdbTemporal_text (dataType : DataType) :
    parseDuckdbTemporal m.text dataType = match dataType with
      | .date32 => (checkedI32 m.days).map .date32
      | .timestamp unit timezone =>
        timestampOf unit timezone m.days (m.clock.elim (0, 0, 0) fun c => (c.wholeSeconds, c.subNanos, 0))
      | _ => none := by
  have hdays := m.daysFromCivil_date
  unfold yearNumber at hdays
  have hclock : parseClock (m.clock.map Clock.text) =
      some (m.clock.elim (0, 0, 0) fun c => (c.wholeSeconds, c.subNanos, 0)) := by
    cases m.clock with
    | none => rfl
    | some c => exact c.parseClock_text
  unfold parseDuckdbTemporal
  rw [m.trimmed_text.eq, if_neg (m.text_ne rfl (by decide)), if_neg (m.text_ne rfl (by decide))]
  unfold parseFiniteTemporal
  dsimp only
  rw [m.removeFrom_text, m.trimmed_withClock.eq, m.splitMoment_text, m.contains_text]
  dsimp only [Option.bind_eq_bind]
  rw [m.rsplitDate_date]
  dsimp only [Option.bind_some, parseField]
  rw [m.dayField.parseDigits, m.monthField.parseDigits, m.yearField.parseDigits]
  dsimp only [Option.bind_some]
  rw [hdays, hclock]
  dsimp only [Option.bind_some]
  cases dataType <;> first | rfl | (cases checkedI32 m.days <;> rfl)

end Moment

end DuckLake.StatsCompare
