import DuckLake.Lib.Ieee
import Mathlib.Data.Char
import Mathlib.Data.List.Lex
import Mathlib.Order.Compare

/- Arrow types and scalar values, as far as the statistics code tells them apart.

   Correspondence (Rust ↔ Lean):
     `arrow::datatypes::DataType`     ↔ `DataType` (the integer, string and blob
                                        widths each under one constructor)
     `datafusion::common::ScalarValue` ↔ `ScalarValue`, a NULL keeping its type
     arrow's comparison kernels        ↔ `compareScalars`

   Types the statistics code never looks inside (`UUID`, `INTERVAL`, `DECIMAL256`,
   nested types) are `DataType.other`, and a value of one is known by its rank in
   arrow's order of that type. -/

namespace DuckLake

/-- Text as the catalog stores it, by characters. Byte order on UTF-8 is the
lexicographic order of the code points. -/
abbrev Text := List Char

/-- Three-way comparison in a linear order. -/
def order {α : Type} [LinearOrder α] (a b : α) : Ordering := cmp a b

section Order
variable {α : Type} [LinearOrder α] {a b : α}

theorem order_lt : order a b = .lt ↔ a < b := cmp_eq_lt_iff a b
theorem order_eq : order a b = .eq ↔ a = b := cmp_eq_eq_iff a b
theorem order_gt : order a b = .gt ↔ b < a := cmp_eq_gt_iff a b
theorem order_swap (a b : α) : (order a b).swap = order b a := cmp_swap a b

end Order

inductive TimeUnit where
  | second | millisecond | microsecond | nanosecond
  deriving DecidableEq, Repr

inductive IntType where
  | int8 | int16 | int32 | int64 | uint8 | uint16 | uint32 | uint64
  deriving DecidableEq, Repr

inductive StringType where
  | utf8 | largeUtf8 | utf8View
  deriving DecidableEq, Repr

inductive BinaryType where
  | binary | largeBinary | binaryView
  | fixedSizeBinary (size : Nat)
  deriving DecidableEq, Repr

inductive DataType where
  | boolean
  | integer (t : IntType)
  | float16 | float32 | float64
  | decimal128 (precision : Nat) (scale : Int)
  | date32
  | time (unit : TimeUnit)
  | timestamp (unit : TimeUnit) (timezone : Option Text)
  | string (t : StringType)
  | binary (t : BinaryType)
  | other (name : Text)
  deriving DecidableEq, Repr

/-- Half precision; no statistics text exists for it. -/
def binary16 : Ieee.Format := ⟨10, 5⟩

abbrev F16 := Ieee.Fp binary16
abbrev F32 := Ieee.Fp Ieee.binary32
abbrev F64 := Ieee.Fp Ieee.binary64

inductive ScalarValue where
  | null (t : DataType)
  | boolean (v : Bool)
  | integer (t : IntType) (v : Int)
  | float16 (v : F16)
  | float32 (v : F32)
  | float64 (v : F64)
  | decimal128 (v : Int) (precision : Nat) (scale : Int)
  | date32 (days : Int)
  | time (unit : TimeUnit) (v : Int)
  | timestamp (unit : TimeUnit) (timezone : Option Text) (v : Int)
  | string (t : StringType) (s : Text)
  | binary (t : BinaryType) (bytes : List UInt8)
  | other (name : Text) (rank : Int)
  deriving DecidableEq, Repr

/-- What the scalar functions of a query return, by name. -/
abbrev Functions := Text → List ScalarValue → ScalarValue

namespace ScalarValue

def dataType : ScalarValue → DataType
  | null t => t
  | boolean _ => .boolean
  | integer t _ => .integer t
  | float16 _ => .float16
  | float32 _ => .float32
  | float64 _ => .float64
  | decimal128 _ p s => .decimal128 p s
  | date32 _ => .date32
  | time u _ => .time u
  | timestamp u tz _ => .timestamp u tz
  | string t _ => .string t
  | binary t _ => .binary t
  | other n _ => .other n

def isNull : ScalarValue → Bool
  | null _ => true
  | _ => false

def isNaN : ScalarValue → Bool
  | float16 x => x.isNaN
  | float32 x => x.isNaN
  | float64 x => x.isNaN
  | _ => false

end ScalarValue

namespace DataType

def isFloat : DataType → Bool
  | float16 | float32 | float64 => true
  | _ => false

def isNumeric : DataType → Bool
  | integer _ | float16 | float32 | float64 | decimal128 _ _ => true
  | _ => false

def isTemporal : DataType → Bool
  | date32 | time _ | timestamp _ _ => true
  | _ => false

end DataType

/-- How a query orders two non-NULL values: floats by the total order, integers
of any width and decimals of any non-negative scale by their value, two values
of one type by that type's order. `none` for two types no kernel compares. -/
def compareScalars : ScalarValue → ScalarValue → Option Ordering
  | .boolean a, .boolean b => some (order a b)
  | .integer _ a, .integer _ b => some (order a b)
  | .integer _ a, .decimal128 b _ s =>
    if 0 ≤ s then some (order (a * 10 ^ s.toNat) b) else none
  | .decimal128 a _ s, .integer _ b =>
    if 0 ≤ s then some (order a (b * 10 ^ s.toNat)) else none
  | .decimal128 a p s, .decimal128 b q r =>
    if p = q ∧ s = r then some (order a b)
    else if 0 ≤ s ∧ 0 ≤ r then some (order (a * 10 ^ r.toNat) (b * 10 ^ s.toNat))
    else none
  | .float16 a, .float16 b => some (order a.key b.key)
  | .float32 a, .float32 b => some (order a.key b.key)
  | .float64 a, .float64 b => some (order a.key b.key)
  | .date32 a, .date32 b => some (order a b)
  | .time u a, .time w b => if u = w then some (order a b) else none
  | .timestamp u tz a, .timestamp w tz' b =>
    if u = w ∧ tz = tz' then some (order a b) else none
  | .string _ a, .string _ b => some (order a b)
  | .binary _ a, .binary _ b =>
    some (order (a.map UInt8.toNat) (b.map UInt8.toNat))
  | .other n a, .other m b => if n = m then some (order a b) else none
  | _, _ => none

end DuckLake
