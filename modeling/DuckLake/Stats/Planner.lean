import DuckLake.Stats.Order
import Mathlib.Data.List.Basic

/- The statistics handed to the planner (`table.rs`, `build_datafusion_statistics`), from
   the counts and bounds the catalog records for each file and for the table.

   Rust                                   Lean
   Precision, ColumnStatistics, Statistics the same
   parse_ducklake_scalar                  Parser
   parse_statistic_scalar                 parseStatisticScalar
   float_bound_is_usable                  floatBoundIsUsable
   scalar_precision                       scalarPrecision
   file_row_count                         fileRowCount
   build_datafusion_statistics            buildFileStatistics, buildTableStatistics

   The rows of `ducklake_file_column_stats` are a list: the source groups them in hash
   maps, whose order is not known, and a later row of a file and column replaces an
   earlier one. The minimum and the maximum are read the same way, so the source's two
   copies of that code are one definition over `Side`. Byte sizes are left out. -/

namespace DuckLake.Planner

/-! ## What the catalog records -/

/-- A column of the table with the type of its field. -/
structure Column where
  columnId : Nat
  columnType : Text
  dataType : DataType
deriving DecidableEq, Repr

structure FileColumnStatistics where
  dataFileId : Nat
  columnId : Nat
  valueCount : Option Int
  nullCount : Option Int
  minValue : Option Text
  maxValue : Option Text
  containsNan : Option Bool
deriving DecidableEq, Repr

structure TableColumnStatistics where
  columnId : Nat
  containsNull : Option Bool
  containsNan : Option Bool
  minValue : Option Text
  maxValue : Option Text
deriving DecidableEq, Repr

structure DuckLakeStatistics where
  recordCount : Option Int
  columns : List TableColumnStatistics
  files : List FileColumnStatistics
deriving DecidableEq, Repr

/-- A listed file: `deleteFile` says whether a delete file is joined to it. -/
structure TableFile where
  dataFileId : Nat
  maxRowCount : Option Int
  deleteFile : Bool
  deleteCount : Option Int
  partitionValues : List (Nat × Option Text)
deriving DecidableEq, Repr

/-! ## What the planner gets -/

inductive Precision (α : Type) where
  | exact (value : α)
  | inexact (value : α)
  | absent
deriving DecidableEq, Repr

def Precision.getValue {α : Type} : Precision α → Option α
  | exact v | inexact v => some v
  | absent => none

/-- A known value, exact or not. -/
def Precision.known {α : Type} (isExact : Bool) : Option α → Precision α
  | some v => if isExact then .exact v else .inexact v
  | none => .absent

structure ColumnStatistics where
  nullCount : Precision Nat
  minValue : Precision ScalarValue
  maxValue : Precision ScalarValue
deriving DecidableEq, Repr

def ColumnStatistics.unknown : ColumnStatistics := ⟨.absent, .absent, .absent⟩

structure Statistics where
  numRows : Precision Nat
  columnStatistics : List ColumnStatistics
deriving DecidableEq, Repr

/-! ## Bounds -/

/-- Arrow's reading of a text as a value of a type. -/
structure Parser where
  parse : Text → DataType → Option ScalarValue
  typed : ∀ {t type v}, parse t type = some v → v.dataType = type ∧ v.isNull = false

def lower (t : Text) : Text := t.map Char.toLower

def trim (t : Text) : Text := ((t.dropWhile Char.isWhitespace).reverse.dropWhile Char.isWhitespace).reverse

/-- The types that have no scalar bounds. -/
def hasNoScalarBounds (columnType : Text) : Bool :=
  let t := lower (trim columnType)
  ["list", "array", "struct", "map"].any (fun nested => nested.toList.isPrefixOf t) ||
    (["geometry", "point", "linestring", "polygon", "multipoint", "multilinestring", "multipolygon",
      "geometrycollection", "linestring z", "timetz", "time with time zone", "interval"].map String.toList).contains t

variable (parser : Parser)

def parseStatisticScalar (column : Column) (value : Text) : Option ScalarValue :=
  if hasNoScalarBounds column.columnType then none
  else if (["infinity", "-infinity"].map String.toList).contains (lower value) then none
  else parser.parse value column.dataType

def floatBoundIsUsable (type : DataType) (containsNan : Option Bool) : Bool :=
  !type.isFloat || containsNan == some false

/-- Either zero of a float type. -/
def signedZero : ScalarValue → Bool
  | .float16 v => v.isZero
  | .float32 v => v.isZero
  | .float64 v => v.isZero
  | _ => false

/-- A recorded bound that may be used. -/
def usableBound (column : Column) (containsNan : Option Bool) (value : Option Text) :
    Option ScalarValue :=
  if floatBoundIsUsable column.dataType containsNan then value.bind (parseStatisticScalar parser column) else none

/-- `scalar_precision` of a usable bound. -/
def scalarPrecision (isExact : Bool) : Option ScalarValue → Precision ScalarValue
  | some v => if isExact && !signedZero v then .exact v else .inexact v
  | none => .absent

/-! ## Counts -/

def statisticUsize (value : Int) : Option Nat := if 0 ≤ value then some value.toNat else none

def checkedAdd (a b : Nat) : Option Nat := if a + b < 2 ^ 64 then some (a + b) else none

/-- A total with one more count; unknown once a count is. -/
def addCount (total n : Option Nat) : Option Nat :=
  match total, n with
  | some total, some n => checkedAdd total n
  | _, _ => none

def fileColumns (catalog : DuckLakeStatistics) (dataFileId : Nat) : List FileColumnStatistics :=
  catalog.files.filter (·.dataFileId == dataFileId)

def fileColumn (catalog : DuckLakeStatistics) (dataFileId columnId : Nat) : Option FileColumnStatistics :=
  ((fileColumns catalog dataFileId).filter (·.columnId == columnId)).getLast?

/-- `columns` is in the order of the source's map: the first value count it yields is taken. -/
def fileRowCount (file : TableFile) (columns : List FileColumnStatistics) : Precision Nat :=
  match (file.maxRowCount.or (columns.findSome? (·.valueCount))).bind statisticUsize with
  | none => .absent
  | some gross =>
    if file.deleteFile then
      match file.deleteCount.bind statisticUsize with
      | none => .absent
      | some deleted => if deleted ≤ gross then .exact (gross - deleted) else .absent
    else .exact gross

/-! ## One file -/

def fileColumnStatistics (hasDeletes : Bool) (column : Column) (raw : FileColumnStatistics) :
    ColumnStatistics where
  nullCount := .known (!hasDeletes) (raw.nullCount.bind statisticUsize)
  minValue := scalarPrecision (!hasDeletes) (usableBound parser column raw.containsNan raw.minValue)
  maxValue := scalarPrecision (!hasDeletes) (usableBound parser column raw.containsNan raw.maxValue)

def buildFileStatistics (columns : List Column) (catalog : DuckLakeStatistics) (file : TableFile) :
    Statistics where
  numRows := fileRowCount file (fileColumns catalog file.dataFileId)
  columnStatistics := columns.map fun column =>
    (fileColumn catalog file.dataFileId column.columnId).elim .unknown
      (fileColumnStatistics parser file.deleteFile column)

/-! ## The table -/

namespace Side

def text : Side → FileColumnStatistics → Option Text
  | min, raw => raw.minValue
  | max, raw => raw.maxValue

/-- Whether the bound so far stays. -/
def keeps : Side → Ordering → Bool
  | min, o => o.isLE
  | max, o => o.isGE

def bound (side : Side) (parser : Parser) (column : Column) (raw : FileColumnStatistics) : Option ScalarValue :=
  usableBound parser column raw.containsNan (side.text raw)

end Side

/-- Where as many values as NULLs are recorded. -/
def allNull (raw : FileColumnStatistics) : Bool :=
  match raw.valueCount, raw.nullCount with
  | some v, some n => v == n
  | _, _ => false

/-- A bound over the files so far, and whether it is one for all of them. -/
structure FoldedBound where
  value : Option ScalarValue
  complete : Bool

def extendBound (side : Side) (current : Option ScalarValue) (value : ScalarValue) : Option ScalarValue :=
  match current with
  | some c => (compareScalars c value).map fun o => if side.keeps o then c else value
  | none => some value

def foldBound (side : Side) (column : Column) (b : FoldedBound) :
    Option FileColumnStatistics → FoldedBound
  | none => { b with complete := false }
  | some raw =>
    match side.bound parser column raw with
    | some v =>
      let value := extendBound side b.value v
      ⟨value, b.complete && value.isSome⟩
    | none => if allNull raw then b else { b with complete := false }

/-- The statistics rows of a column, file by file. -/
def columnRows (catalog : DuckLakeStatistics) (files : List TableFile) (columnId : Nat) :
    List (Option FileColumnStatistics) :=
  files.map fun file => fileColumn catalog file.dataFileId columnId

def nullTotal (rows : List (Option FileColumnStatistics)) : Option Nat :=
  rows.foldl (fun total raw => addCount total ((raw.bind (·.nullCount)).bind statisticUsize)) (some 0)

def rowTotal (catalog : DuckLakeStatistics) (files : List TableFile) : Option Nat :=
  files.foldl (fun total file =>
    addCount total (fileRowCount file (fileColumns catalog file.dataFileId)).getValue) (some 0)

/-- What the table's own row of a column gives. -/
def currentColumn (column : Column) (raw : TableColumnStatistics) : ColumnStatistics where
  nullCount := if raw.containsNull = some false then .exact 0 else .absent
  minValue := scalarPrecision false (usableBound parser column raw.containsNan raw.minValue)
  maxValue := scalarPrecision false (usableBound parser column raw.containsNan raw.maxValue)

/-- A total or a bound over all files takes the place of what was known. -/
def Precision.overwrite {α : Type} (isExact : Bool) (value : Option α) (known : Precision α) : Precision α :=
  match value with
  | some v => .known isExact (some v)
  | none => known

def foldedValue (side : Side) (column : Column) (rows : List (Option FileColumnStatistics)) :
    Option ScalarValue :=
  let b := rows.foldl (foldBound parser side column) ⟨none, true⟩
  if b.complete then b.value else none

def tableColumnStatistics (catalog : DuckLakeStatistics) (files : List TableFile)
    (useCurrentTableStatistics fileMetadataComplete : Bool) (column : Column) : ColumnStatistics :=
  let output := if useCurrentTableStatistics then
      ((catalog.columns.filter (·.columnId == column.columnId)).getLast?).elim .unknown (currentColumn parser column)
    else .unknown
  if !fileMetadataComplete then output
  else if files.isEmpty then { output with nullCount := .exact 0 }
  else
    let isExact := !files.any (·.deleteFile)
    let rows := columnRows catalog files column.columnId
    { nullCount := output.nullCount.overwrite isExact (nullTotal rows)
      minValue := output.minValue.overwrite isExact (foldedValue parser .min column rows)
      maxValue := output.maxValue.overwrite isExact (foldedValue parser .max column rows) }

def tableRowCount (catalog : DuckLakeStatistics) (files : List TableFile)
    (useCurrentTableStatistics fileMetadataComplete : Bool) : Precision Nat :=
  match rowTotal catalog files, fileMetadataComplete with
  | some rows, true => .exact rows
  | _, _ =>
    if useCurrentTableStatistics then .known false (catalog.recordCount.bind statisticUsize) else .absent

def buildTableStatistics (columns : List Column) (catalog : DuckLakeStatistics)
    (files : List TableFile) (useCurrentTableStatistics fileMetadataComplete : Bool) : Statistics where
  numRows := tableRowCount catalog files useCurrentTableStatistics fileMetadataComplete
  columnStatistics :=
    columns.map (tableColumnStatistics parser catalog files useCurrentTableStatistics fileMetadataComplete)

end DuckLake.Planner
