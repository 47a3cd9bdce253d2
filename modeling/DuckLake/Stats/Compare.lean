import DuckLake.Lib.Split
import DuckLake.Lib.Utf8
import DuckLake.Stats.Encode

/- How two statistics texts are ordered (`stats_encode.rs`).

   Correspondence (Rust ↔ Lean):
     `StatKind`, `stat_cmp_kind`              ↔ `StatKind`, `statCmpKind`
     `cmp_fixed_point`, its `split`, `scaled` ↔ `cmpFixedPoint`, `splitFixedPoint`, `scaledDigits`
     `parse_stat_instant`, `parse_time_of_day` ↔ `parseStatInstant`, `parseTimeOfDay`
     `parse_digits`, `days_from_civil`        ↔ `parseDigits`, `daysFromCivil`
     `str::parse::<f64>`                      ↔ the parameter `parseF64`
   The checked operations on `i128` have fields of at most 18 digits as operands and do
   not overflow; those on `i64` may. -/

namespace DuckLake.StatsCompare

open Split

inductive StatKind where
  | numeric
  | boolean
  | temporal
  | text
deriving DecidableEq, Repr

/-! ## Numbers -/

def parseI128 (t : Text) : Option Int := Numeral.parseIntIn (-2 ^ 127) (2 ^ 127 - 1) t

def stripMinus : Text → Bool × Text
  | '-' :: t => (true, t)
  | t => (false, t)

/-- The sign, the digits before the point and those after it. -/
def splitFixedPoint (t : Text) : Option (Bool × Text × Text) :=
  let (neg, rest) := stripMinus t
  let (intPart, fracPart) := (splitOnce '.' rest).getD (rest, [])
  if intPart = [] ∧ fracPart = [] then none
  else if intPart.all Char.isDigit && fracPart.all Char.isDigit then some (neg, intPart, fracPart)
  else none

/-- `{t:0<w$}`. -/
def padRight (w : Nat) (t : Text) : Text := t ++ List.replicate (w - t.length) '0'

def scaledDigits (scale : Nat) (intPart fracPart : Text) : Option Int := parseI128 (intPart ++ padRight scale fracPart)

def cmpFixedPoint (a b : Text) : Option Ordering := do
  let (negA, intA, fracA) ← splitFixedPoint a
  let (negB, intB, fracB) ← splitFixedPoint b
  let scale := max fracA.length fracB.length
  let x ← scaledDigits scale intA fracA
  let y ← scaledDigits scale intB fracB
  return compare (if negA then -x else x) (if negB then -y else y)

/-- Floats with NaN greatest. -/
def cmpFloats (x y : F64) : Ordering :=
  match x.isNaN, y.isNaN with
  | true, true => .eq
  | true, false => .gt
  | false, true => .lt
  | false, false => compare x.num y.num

/-! ## Instants -/

/-- A run of at most 18 digits. -/
def parseDigits (t : Text) : Option Nat := if t.length ≤ 18 then Numeral.parseNat t else none

def checkedI64 (n : Int) : Option Int := if -2 ^ 63 ≤ n ∧ n ≤ 2 ^ 63 - 1 then some n else none

def isLeap (year : Int) : Bool := year % 4 == 0 && (year % 100 != 0 || year % 400 == 0)

def monthDays (year month : Int) : Int :=
  if month = 2 then (if isLeap year then 29 else 28)
  else if month = 4 ∨ month = 6 ∨ month = 9 ∨ month = 11 then 30 else 31

def daysFromCivil (year month day : Int) : Option Int :=
  if ¬ (1 ≤ month ∧ month ≤ 12) then none
  else if ¬ (1 ≤ day ∧ day ≤ monthDays year month) then none
  else do
    let year := if month ≤ 2 then year - 1 else year
    let era := year / 400
    let yearOfEra := year % 400
    let monthFromMarch := (month + 9) % 12
    let dayOfYear := (153 * monthFromMarch + 2) / 5 + day - 1
    let dayOfEra := yearOfEra * 365 + yearOfEra / 4 - yearOfEra / 100 + dayOfYear
    let eraDays ← checkedI64 (era * 146097)
    let days ← checkedI64 (eraDays + dayOfEra)
    checkedI64 (days - 719468)

def nanosPerSecond : Int := 1000000000

def secondsOfDay (hours minutes seconds : Nat) : Int := (hours * 60 + minutes) * 60 + seconds

def isSign (c : Char) : Bool := c == '+' || c == '-'

/-- A missing field is zero. -/
def optionalDigits : Option Text → Option Nat
  | none => some 0
  | some t => parseDigits t

/-- The shift of a zone offset, its sign included, in nanoseconds. -/
def offsetNanos : Text → Option Int
  | [] => some 0
  | sign :: fields => do
    let fields := fields.splitOn ':'
    let hours ← fields.head?.bind parseDigits
    let minutes ← optionalDigits fields[1]?
    let seconds ← optionalDigits fields[2]?
    let shift := secondsOfDay hours minutes seconds * nanosPerSecond
    return if sign = '-' then shift else -shift

def fractionNanos (fraction : Text) : Option Nat :=
  if 9 < fraction.length ∨ !fraction.all Char.isDigit then none
  else if fraction = [] then some 0 else Numeral.parseNat (padRight 9 fraction)

def parseTimeOfDay (t : Text) : Option Int := do
  let clock := t.takeWhile (!isSign ·)
  let offset := t.dropWhile (!isSign ·)
  let (hms, fraction) := (splitOnce '.' clock).getD (clock, [])
  match hms.splitOn ':' with
  | [hours, minutes, seconds] =>
    let hours ← parseDigits hours
    let minutes ← parseDigits minutes
    let seconds ← parseDigits seconds
    let fraction ← fractionNanos fraction
    let shift ← offsetNanos offset
    return secondsOfDay hours minutes seconds * nanosPerSecond + fraction + shift
  | _ => none

def nanosPerDay : Int := 86400000000000

/-- `date.splitn(3, '-')`. -/
def splitDate (date : Text) : Option (Text × Text × Text) := do
  let (year, rest) ← splitOnce '-' date
  let (month, day) ← splitOnce '-' rest
  return (year, month, day)

/-- The date, and what follows it after a space. -/
def splitRest (t : Text) : Text × Option Text :=
  match splitOnce ' ' t with
  | some (date, rest) => (date, some rest)
  | none => (t, none)

/-- Whether ` (BC)` follows the date, and the time after it. -/
def splitEra : Option Text → Bool × Option Text
  | none => (false, none)
  | some rest =>
    if rest = "(BC)".toList then (true, none)
    else if "(BC) ".toList.isPrefixOf rest then (true, some (rest.drop 5))
    else (false, some rest)

/-- The bytes of `HH:`, of a text of eight bytes at least. -/
def isTimeOfDay (t : Text) : Bool := 8 ≤ (Utf8.encode t).length && (Utf8.encode t)[2]? == some 0x3a

def parseStatInstant (t : Text) : Option (Int × Int) :=
  if t = "infinity".toList then some (1, 0)
  else if t = "-infinity".toList then some (-1, 0)
  else if isTimeOfDay t then (parseTimeOfDay t).map fun nanos => (0, nanos)
  else do
    let (date, rest) := splitRest t
    let (bc, time) := splitEra rest
    let (year, month, day) ← splitDate date
    let year ← parseDigits year
    let month ← parseDigits month
    let day ← parseDigits day
    let year : Int := if bc then 1 - (year : Int) else year
    let days ← daysFromCivil year month day
    let nanos ← time.elim (some 0) parseTimeOfDay
    return (0, days * nanosPerDay + nanos)

/-! ## The comparison -/

def parseStatBool (t : Text) : Option Bool :=
  if t = "true".toList ∨ t = "1".toList then some true
  else if t = "false".toList ∨ t = "0".toList then some false
  else none

/-- `str::cmp`: by bytes. -/
def cmpText (a b : Text) : Ordering :=
  compareOfLessAndEq ((Utf8.encode a).map UInt8.toNat) ((Utf8.encode b).map UInt8.toNat)

theorem cmpText_eq_cmp {α : Type} [LinearOrder α] {a b : Text} {x y : α} (heq : a = b → x = y) (hlt : a < b → x < y)
    (hgt : b < a → y < x) : cmpText a b = cmp x y := by
  have hbytes := Utf8.strictMono_encode
  unfold cmpText compareOfLessAndEq
  rcases lt_trichotomy a b with h | h | h
  · rw [if_pos (hbytes h), (cmp_eq_lt_iff x y).mpr (hlt h)]
  · rw [h, if_neg (lt_irrefl _), if_pos rfl, (cmp_eq_eq_iff x y).mpr (heq h)]
  · rw [if_neg (hbytes h).asymm, if_neg (hbytes h).ne', (cmp_eq_gt_iff x y).mpr (hgt h)]

/-- Lexicographic, as tuples compare. -/
def cmpInstants (x y : Int × Int) : Ordering := (compare x.1 y.1).then (compare x.2 y.2)

variable (parseF64 : Text → Option F64)

def cmpNumeric (a b : Text) : Option Ordering :=
  match parseI128 a, parseI128 b with
  | some x, some y => some (compare x y)
  | _, _ => match cmpFixedPoint a b with
    | some ord => some ord
    | none => match parseF64 a, parseF64 b with
      | some x, some y => some (cmpFloats x y)
      | _, _ => none

def cmpBooleans (a b : Text) : Option Ordering :=
  match parseStatBool a, parseStatBool b with
  | some x, some y => some (compare x y)
  | _, _ => none

def cmpTemporal (a b : Text) : Option Ordering :=
  match parseStatInstant a, parseStatInstant b with
  | some x, some y => some (cmpInstants x y)
  | _, _ => none

def statCmpKind (a b : Text) : StatKind → Ordering
  | .numeric => (cmpNumeric parseF64 a b).getD (cmpText a b)
  | .boolean => (cmpBooleans a b).getD (cmpText a b)
  | .temporal => (cmpTemporal a b).getD (cmpText a b)
  | .text => cmpText a b

end DuckLake.StatsCompare
