import DuckLake.Scalar

/- DuckDB's casts of `VARCHAR` to integers (`duckdb_cast.rs`), which the values of stored
   options go through.

   A cast reads the text twice: as a plain integer, and if that fails again with a fraction
   or an exponent, accumulated in a wider type. Digits past the precision of that type are
   read and dropped. Failing anywhere is failing altogether, so a step is a function to
   `Option State`. The bytes the source compares are ASCII and stand for themselves: no byte
   of another character is a digit, a space, a sign or a mark.

   Correspondence (Rust ↔ Lean):
     `IntType`, `State`, `Op`, `Cast`             ↔ the types of the same names
     `handle_digit`, `handle_decimal`, `finalize` ↔ `handleDigit`, `handleDecimal`, `finalize`
     `handle_exponent`                            ↔ `handleExponent`
     `cast_loop`                                  ↔ `castLoop`: `digitLoop`, `fractionLoop` and `endLoop`
     `radix_loop`, `try_cast`                     ↔ `radixLoop`, `tryCast`
     `varchar_to_ubigint`, `varchar_to_tinyint`   ↔ `varcharToUbigint`, `varcharToTinyint`
   `/` and `%` of the source truncate: `Int.tdiv` and `Int.tmod`. -/

namespace DuckLake.DuckdbCast

structure IntType where
  min : Int
  max : Int
  digits : Nat

def uint64 : IntType := ⟨0, 2 ^ 64 - 1, 20⟩
def int8 : IntType := ⟨-2 ^ 7, 2 ^ 7 - 1, 3⟩
def int64 : IntType := ⟨-2 ^ 63, 2 ^ 63 - 1, 19⟩
def int16 : IntType := ⟨-2 ^ 15, 2 ^ 15 - 1, 5⟩

namespace IntType

def signed (t : IntType) : Bool := t.min < 0

def fits (t : IntType) (value : Int) : Bool := t.min ≤ value && value ≤ t.max

end IntType

def isSpace (c : Char) : Bool :=
  c == ' ' || c == '\t' || c == '\n' || c == '\x0b' || c == '\x0c' || c == '\r'

/-- What has been read. `decimalDigits` is 16 bits wide. -/
structure State where
  result : Int := 0
  decimal : Int := 0
  decimalDigits : Nat := 0
  deriving DecidableEq, Repr

inductive Op where
  | simple
  | decimal
  deriving DecidableEq, Repr

structure Cast where
  op : Op
  store : IntType
  result : IntType

def wrapU16 (n : Int) : Nat := (n % 2 ^ 16).toNat

namespace Cast

variable (cast : Cast)

def handleDigit (negative : Bool) (state : State) (digit : Nat) : Option State :=
  if negative then
    if state.result < (cast.store.min + digit).tdiv 10 then none
    else some { state with result := state.result * 10 - digit }
  else if (cast.store.max - digit).tdiv 10 < state.result then none
  else some { state with result := state.result * 10 + digit }

def handleRadixDigit (radix : Nat) (state : State) (digit : Nat) : Option State :=
  if (cast.store.max - digit).tdiv radix < state.result then none
  else some { state with result := state.result * radix + digit }

def handleDecimal (state : State) (digit : Nat) : Option State :=
  if cast.op = .simple then none
  else if (cast.store.max - digit).tdiv 10 < state.decimal then some state
  else some { state with
    decimalDigits := wrapU16 (state.decimalDigits + 1), decimal := state.decimal * 10 + digit }

def checked (value : Int) : Option Int := if cast.store.fits value then some value else none

/-- `10^n` in the store type, wrapping. -/
def powerOfTen (n : Nat) : Int :=
  (List.range n).foldl
    (fun power _ => if cast.store.signed then Int.bmod (power * 10) (2 ^ 64) else power * 10 % 2 ^ 64) 1

/-- The loop of `finalize`, which divides the fraction down to ten at most. -/
def leadingDigit : Nat → State → State
  | 0, state => state
  | fuel + 1, state =>
    if 10 < state.decimal then
      leadingDigit fuel { state with
        decimal := state.decimal.tdiv 10, decimalDigits := wrapU16 (state.decimalDigits - 1) }
    else state

def finalize (negative : Bool) (state : State) : Option State :=
  if cast.op = .simple then some state
  else if !cast.result.fits state.result then none
  else
    let state := leadingDigit state.decimal.toNat state
    if state.decimalDigits = 1 ∧ 5 ≤ state.decimal then
      let rounded := if negative then state.result - 1 else state.result + 1
      if cast.result.fits rounded then some { state with result := rounded } else none
    else some state

/-- The result divided by ten, `n` times or until nothing is left. -/
def shiftDown : Nat → State → State
  | 0, state => state
  | n + 1, state =>
    let state := { state with decimal := state.result.tmod 10, result := state.result.tdiv 10 }
    if state.result = 0 ∧ state.decimal = 0 then state else shiftDown n state

/-- The result times ten, `n` times or while it is zero. -/
def shiftUp : Nat → State → Option State
  | 0, state => some state
  | n + 1, state =>
    if state.result = 0 then some state
    else (cast.checked (state.result * 10)).bind fun result => shiftUp n { state with result }

def scaleDecimal : Nat → Int → Option Int
  | 0, decimal => some decimal
  | n + 1, decimal => (cast.checked (decimal * 10)).bind (scaleDecimal n)

/-- The digits of a fraction that an exponent moves before the point, and the rest. -/
def splitDecimal (state : State) (exponent : Int) : Option (Int × Int) :=
  let e := Int.bmod (exponent - state.decimalDigits) (2 ^ 16)
  if e < 0 then
    if e.natAbs ≤ cast.store.digits then
      let power := cast.powerOfTen e.natAbs
      some (state.decimal.tdiv power, state.decimal.tmod power)
    else some (0, 0)
  else (cast.scaleDecimal e.toNat state.decimal).map fun decimal => (decimal, 0)

def handleExponent (negative : Bool) (state : State) (exponent : Int) : Option State :=
  if cast.op = .simple then none
  else if exponent < 0 then
    let state := shiftDown exponent.natAbs state
    cast.finalize negative { state with decimal := state.decimal.natAbs, decimalDigits := 1 }
  else do
    let state ← cast.shiftUp exponent.toNat state
    if state.decimal = 0 then cast.finalize negative state
    else do
      let (decimal, remainder) ← cast.splitDecimal state exponent
      let combined ← cast.checked (if negative then state.result - decimal else state.result + decimal)
      cast.finalize negative
        { result := combined, decimal := remainder, decimalDigits := wrapU16 (state.decimalDigits - exponent) }

/-! ## The loops -/

def digitValue (c : Char) : Nat := c.toNat - '0'.toNat

def startsWithDigit : Text → Bool
  | c :: _ => c.isDigit
  | [] => false

/-- The digits of a fraction, and what follows them. -/
def fractionLoop : Text → State → Option (State × Text)
  | [], state => some (state, [])
  | c :: rest, state =>
    if c.isDigit then
      (cast.handleDecimal state (digitValue c)).bind fun state =>
        match rest with
        | '_' :: rest => if startsWithDigit rest then fractionLoop rest state else none
        | rest => fractionLoop rest state
    else some (state, c :: rest)

/-- `finalize`, once something has been read. -/
def done (negative consumed : Bool) (state : State) : Option State :=
  (cast.finalize negative state).filter fun _ => consumed

/-- Spaces or an exponent behind the digits. `readExponent` gives nothing where no exponent is allowed. -/
def endLoop (readExponent : Text → Option Int) (negative consumed : Bool) (state : State) : Text → Option State
  | [] => cast.done negative consumed state
  | c :: rest =>
    if isSpace c then if rest.all isSpace then cast.done negative true state else none
    else if c = 'e' ∨ c = 'E' then
      if consumed then (readExponent rest).bind (cast.handleExponent negative state) else none
    else none

/-- `consumed` says whether anything has been read behind the sign. -/
def digitLoop (readExponent : Text → Option Int) (negative : Bool) : Bool → Text → State → Option State
  | consumed, [], state => cast.done negative consumed state
  | consumed, c :: rest, state =>
    if c.isDigit then
      (cast.handleDigit negative state (digitValue c)).bind fun state =>
        match rest with
        | '_' :: rest => if startsWithDigit rest then digitLoop readExponent negative true rest state else none
        | rest => digitLoop readExponent negative true rest state
    else if c = '.' then
      (cast.fractionLoop rest state).bind fun (state, after) =>
        if consumed || startsWithDigit rest then cast.endLoop readExponent negative true state after else none
    else cast.endLoop readExponent negative consumed state (c :: rest)

def castLoop (readExponent : Text → Option Int) (negative : Bool) (buf : Text) : Option State :=
  cast.digitLoop readExponent negative false (if negative || buf.head? == some '+' then buf.tail else buf) {}

/-- `char::to_digit`. -/
def toDigit (radix : Nat) (c : Char) : Option Nat :=
  let value :=
    if c.isDigit then some (digitValue c)
    else if 'a' ≤ c ∧ c ≤ 'f' then some (c.toNat - 'a'.toNat + 10)
    else if 'A' ≤ c ∧ c ≤ 'F' then some (c.toNat - 'A'.toNat + 10)
    else none
  value.filter (· < radix)

def startsWithRadixDigit (radix : Nat) : Text → Bool
  | c :: _ => (toDigit radix c).isSome
  | [] => false

/-- The digits after the `x` or `b` of a radix. -/
def radixLoop (radix : Nat) : Bool → Text → State → Option State
  | consumed, [], state => cast.done false consumed state
  | _, c :: rest, state =>
    ((toDigit radix c).bind (cast.handleRadixDigit radix state)).bind fun state =>
      match rest with
      | '_' :: rest => if startsWithRadixDigit radix rest then radixLoop radix true rest state else none
      | rest => radixLoop radix true rest state

/-- The radix of a text that starts with `0x` or `0b`. -/
def radixOf : Text → Option Nat
  | '0' :: c :: _ => if c = 'x' ∨ c = 'X' then some 16 else if c = 'b' ∨ c = 'B' then some 2 else none
  | _ => none

def tryCastWith (readExponent : Text → Option Int) (input : Text) : Option Int :=
  let buf := input.dropWhile isSpace
  let state := match buf with
    | [] => none
    | '-' :: rest =>
      if !cast.store.signed && rest.any (· != '0') then none else cast.castLoop readExponent true buf
    | buf => match radixOf buf with
      | some radix => cast.radixLoop radix false (buf.drop 2) {}
      | none => cast.castLoop readExponent false buf
  state.map State.result

/-- An exponent: a plain integer of 16 bits, no exponent within it. -/
def exponentOf (t : Text) : Option Int :=
  if t = [] then none
  else ((⟨.simple, int16, int16⟩ : Cast).castLoop (fun _ => none) (t.head? == some '-') t).map State.result

def tryCast (input : Text) (allowExponent : Bool) : Option Int :=
  cast.tryCastWith (if allowExponent then exponentOf else fun _ => none) input

end Cast

def varcharToUbigint (input : Text) : Option Nat :=
  (((⟨.simple, uint64, uint64⟩ : Cast).tryCast input false).or
    ((⟨.decimal, uint64, uint64⟩ : Cast).tryCast input true)).map fun value => (value % 2 ^ 64).toNat

def varcharToTinyint (input : Text) : Option Int :=
  (((⟨.simple, int8, int8⟩ : Cast).tryCast input false).or
    ((⟨.decimal, int64, int8⟩ : Cast).tryCast input true)).map fun value => Int.bmod value (2 ^ 8)

end DuckLake.DuckdbCast
