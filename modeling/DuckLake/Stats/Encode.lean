import DuckLake.Scalar
import DuckLake.Lib.Numeral

/- The texts statistics are stored as (`stats_encode.rs`).

   Every minimum and maximum the catalog keeps is text in DuckDB's spelling. The
   integer, boolean, decimal, date, time, timestamp and string encoders are
   translated here; `FloatText` stands for the shortest-digits float printer of
   the Rust standard library, which this development never looks inside.

   Correspondence (Rust ↔ Lean):
     `encode_scalar`        ↔ `encodeScalar`
     `encode_file_stat`     ↔ `encodeFileStat`
     `inline_stat_text`     ↔ `inlineStatText`
     `encode_decimal128`    ↔ `encodeDecimal128`
     `civil_from_days`      ↔ `civilFromDays`
     `duckdb_date_text`     ↔ `duckdbDateText`
     `encode_timestamp`     ↔ `encodeTimestamp`
     `encode_time`          ↔ `encodeTime`
   `div_euclid` and `rem_euclid` are Lean's integer `/` and `%`; the plain `/` of
   the source is only applied to non-negative numbers. -/

namespace DuckLake

/-- Decimal digits of a natural number. -/
def digits (n : Nat) : Text := Nat.toDigits 10 n

/-- `{n:0w$}`: at least `w` digits, zero-padded on the left. -/
def padded (w n : Nat) : Text := List.replicate (w - (digits n).length) '0' ++ digits n

/-- `to_string` of a signed integer. -/
def intText (v : Int) : Text := if v < 0 then '-' :: digits v.natAbs else digits v.natAbs

theorem parseInt_intText (v : Int) : Numeral.parseInt (intText v) = some v := by
  unfold intText digits
  split
  · rename_i h
    rw [Numeral.parseInt_neg, Numeral.parseNat_toDigits]
    exact congrArg some (show -(v.natAbs : Int) = v by omega)
  · rename_i h
    rw [Numeral.parseInt_unsigned (Numeral.all_isDigit_toDigits _), Numeral.parseNat_toDigits]
    exact congrArg some (Int.natAbs_of_nonneg (by omega))

/-- `trim_end_matches('0')`. -/
def trimZeros (t : Text) : Text := (t.reverse.dropWhile (· == '0')).reverse

/-- Length in UTF-8 bytes. -/
def utf8Len (t : Text) : Nat := (t.map Char.utf8Size).sum

def maxStringStatBytes : Nat := 2048

/-- The float printer: the text of a float, `none` for a NaN. -/
structure FloatText where
  encodeF32 : F32 → Option Text
  encodeF64 : F64 → Option Text

def encodeBool (v : Bool) : Text := if v then "true".toList else "false".toList

def encodeDecimal128 (value : Int) (scale : Int) : Text :=
  if scale ≤ 0 then intText value
  else
    let scale := scale.toNat
    let digs := digits value.natAbs
    let body :=
      if scale < digs.length then
        digs.take (digs.length - scale) ++ '.' :: digs.drop (digs.length - scale)
      else "0.".toList ++ (List.replicate (scale - digs.length) '0' ++ digs)
    if value < 0 then '-' :: body else body

theorem point_mem_encodeDecimal128 (value : Int) {scale : Int} (h : 0 < scale) :
    '.' ∈ encodeDecimal128 value scale := by
  unfold encodeDecimal128
  rw [if_neg (by omega)]
  simp only
  split <;> split <;> simp

/-! Dates and timestamps. -/

def dateInfinity : Int := 2 ^ 31 - 1
def timestampInfinity : Int := 2 ^ 63 - 1
def timestampMinMicros : Int := -9223372022400000000
def timestampMaxMicros : Int := 9223372036854775806
def timestampNsMin : Int := -9223286400000000000

/-- The proleptic Gregorian date `days` after 1970-01-01. -/
def civilFromDays (days : Int) : Int × Int × Int :=
  let z := days + 719468
  let era := z / 146097
  let dayOfEra := z % 146097
  let yearOfEra := (dayOfEra - dayOfEra / 1460 + dayOfEra / 36524 - dayOfEra / 146096) / 365
  let dayOfYear := dayOfEra - (365 * yearOfEra + yearOfEra / 4 - yearOfEra / 100)
  let monthFromMarch := (5 * dayOfYear + 2) / 153
  let day := dayOfYear - (153 * monthFromMarch + 2) / 5 + 1
  let month := if monthFromMarch < 10 then monthFromMarch + 3 else monthFromMarch - 9
  let year := yearOfEra + era * 400 + (if month ≤ 2 then 1 else 0)
  (year, month, day)

/-- `YYYY-MM-DD`, with ` (BC)` after a date before year 1. -/
def duckdbDateText (days : Int) : Text :=
  let (year, month, day) := civilFromDays days
  let date (y : Int) : Text :=
    padded 4 y.toNat ++ '-' :: padded 2 month.toNat ++ '-' :: padded 2 day.toNat
  if year ≤ 0 then date (1 - year) ++ " (BC)".toList else date year

def encodeDate32 (days : Int) : Option Text :=
  if days = dateInfinity then some "infinity".toList
  else if days = -dateInfinity then some "-infinity".toList
  else if days = -(2 ^ 31) then none
  else some (duckdbDateText days)

def TimeUnit.perSecond : TimeUnit → Int
  | .second => 1
  | .millisecond => 1000
  | .microsecond => 1000000
  | .nanosecond => 1000000000

/-- Digits of a fraction of a second at the unit's own precision. -/
def TimeUnit.width : TimeUnit → Nat
  | .second => 0
  | .millisecond => 3
  | .microsecond => 6
  | .nanosecond => 9

/-- `HH:MM:SS` of a number of seconds. -/
def clockText (secs : Int) : Text :=
  padded 2 (secs / 3600).toNat ++ ':' :: padded 2 (secs / 60 % 60).toNat ++ ':' ::
    padded 2 (secs % 60).toNat

/-- The fraction after the seconds, trailing zeros trimmed, nothing when zero. -/
def fractionText (unit : TimeUnit) (sub : Int) : Text :=
  if unit = .second then [] else
    let frac := trimZeros (padded unit.width sub.toNat)
    if frac = [] then [] else '.' :: frac

/-- Whether DuckDB has a finite timestamp for `value`. -/
def timestampInRange (value : Int) (unit : TimeUnit) : Bool :=
  if unit.perSecond ≤ 1000000 then
    let micros := value * (1000000 / unit.perSecond)
    decide (timestampMinMicros ≤ micros) && decide (micros ≤ timestampMaxMicros)
  else decide (timestampNsMin ≤ value)

def encodeTimestamp (value : Int) (unit : TimeUnit) (timezone : Bool) : Option Text :=
  if value = timestampInfinity then some "infinity".toList
  else if value = -timestampInfinity then some "-infinity".toList
  else if value = -(2 ^ 63) then none
  else if timestampInRange value unit then
    let secs := value / unit.perSecond
    let sub := value % unit.perSecond
    let base := duckdbDateText (secs / 86400) ++ ' ' :: clockText (secs % 86400)
    some (base ++ fractionText unit sub ++ (if timezone then "+00".toList else []))
  else none

/-- DuckDB's `TIME` runs from `00:00:00` to `24:00:00` inclusive. -/
def encodeTime (value : Int) (unit : TimeUnit) : Option Text :=
  if value < 0 ∨ 86400 * unit.perSecond < value then none
  else some (clockText (value / unit.perSecond) ++ fractionText unit (value % unit.perSecond))

/-! The encoders by type. -/

variable (fmt : FloatText)

def encodeScalar : ScalarValue → Option Text
  | .integer _ v => some (intText v)
  | .boolean v => some (encodeBool v)
  | .float32 v => fmt.encodeF32 v
  | .float64 v => fmt.encodeF64 v
  | .decimal128 v _ s => some (encodeDecimal128 v s)
  | .date32 days => encodeDate32 days
  | .timestamp u tz v => encodeTimestamp v u tz.isSome
  | .string _ s => if utf8Len s ≤ maxStringStatBytes then some s else none
  | _ => none

/-- Two upper-case hex digits. -/
def hexByte (b : UInt8) : Text :=
  let digit (n : Nat) : Char := if n < 10 then Char.ofNat (48 + n) else Char.ofNat (55 + n)
  [digit (b.toNat / 16), digit (b.toNat % 16)]

/-- Printable ASCII other than the quotes and the backslash as is, every other byte as `\xHH`. -/
def blobText (bytes : List UInt8) : Text :=
  bytes.flatMap fun b =>
    if 32 ≤ b.toNat ∧ b.toNat ≤ 126 ∧ b.toNat ≠ 39 ∧ b.toNat ≠ 34 ∧ b.toNat ≠ 92
    then [Char.ofNat b.toNat] else '\\' :: 'x' :: hexByte b

/-- The text of a file's own bound: as `encodeScalar`, with booleans as `0` and `1`,
blobs in hex and `TIME` in DuckDB's spelling. -/
def encodeFileStat : ScalarValue → Option Text
  | .boolean v => some (if v then ['1'] else ['0'])
  | .binary (.fixedSizeBinary _) _ => none
  | .binary _ bytes => some (bytes.flatMap hexByte)
  | .time u v => encodeTime v u
  | v => encodeScalar fmt v

def nanText (negative : Bool) : Text := if negative then "-nan".toList else "nan".toList

/-- The text of a value written inline, `CAST(value AS VARCHAR)`; `blob` tells a blob
column's fixed-size value from a `UUID`. -/
def inlineStatText (blob : Bool) : ScalarValue → Option Text
  | .float32 v => if v.isNaN then some (nanText v.neg) else encodeScalar fmt (.float32 v)
  | .float64 v => if v.isNaN then some (nanText v.neg) else encodeScalar fmt (.float64 v)
  | .string _ s => some s
  | .time u v => encodeTime v u
  | .binary (.fixedSizeBinary _) bytes => if blob then some (blobText bytes) else none
  | .binary _ bytes => some (blobText bytes)
  | v => encodeScalar fmt v

end DuckLake
