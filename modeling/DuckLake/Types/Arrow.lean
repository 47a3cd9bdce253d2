import DuckLake.Nested.Types

/- Arrow's data types as `arrow_to_ducklake_type` and `ducklake_to_arrow_type` (`types.rs`)
   tell them apart: every width and layout, dictionaries, and the names and nullability of
   fields. Types that have no DuckLake equivalent are known by the name Arrow prints. -/

namespace DuckLake.Types

open Nested (ListKind)

inductive IntervalUnit where
  | yearMonth | dayTime | monthDayNano
  deriving DecidableEq, Repr

inductive Leaf where
  | null
  | boolean
  | integer (t : IntType)
  | float32 | float64
  | date32 | date64
  | time32 (unit : TimeUnit)
  | time64 (unit : TimeUnit)
  | timestamp (unit : TimeUnit) (timezone : Option Text)
  | interval (unit : IntervalUnit)
  | string (t : StringType)
  | binary (t : BinaryType)
  | decimal128 (precision : UInt8) (scale : Int8)
  | decimal256 (precision : UInt8) (scale : Int8)
  | other (name : Text)
  deriving DecidableEq, Repr

mutual

inductive ArrowType where
  | leaf (type : Leaf)
  | dictionary (key : IntType) (value : ArrowType)
  | list (kind : ListKind) (name : Text) (element : ArrowType) (nullable : Bool)
  | struct (fields : Fields)
  | map (name : Text) (entries : ArrowType) (nullable sorted : Bool)

inductive Fields where
  | nil
  | cons (name : Text) (type : ArrowType) (nullable : Bool) (rest : Fields)

end

deriving instance DecidableEq for ArrowType, Fields
deriving instance Repr for ArrowType, Fields

/-- The two fields of a map's entries. -/
def mapEntries (key value : ArrowType) (valueNullable : Bool) : ArrowType :=
  .map "entries".toList
    (.struct (.cons "key".toList key false (.cons "value".toList value valueNullable .nil))) false false

end DuckLake.Types
