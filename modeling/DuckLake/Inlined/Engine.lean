import DuckLake.Inlined.Render
import DuckLake.Lib.Numeral

/- What the catalog does with a pushed condition: the values an inlined table's
   cells hold, how a condition is evaluated on them, and how a cell stores the
   value the scan decodes from it (the inlined writers and readers of the four
   backends). -/

namespace DuckLake.Inlined

open Kleene Prune

/-! ## Evaluation -/

/-- A value that is not NULL. `double` is a bound double in units of the smallest
subnormal. -/
inductive Cell where
  | boolean (v : Bool)
  | integer (v : Int)
  | float32 (v : F32)
  | float64 (v : F64)
  | double (units : Int)
  | text (v : Text)
  | bytes (v : List UInt8)
  deriving DecidableEq, Repr

section Evaluation
variable (fmt : FloatSpelling)

def compareBytes (a b : List UInt8) : Ordering := order (a.map UInt8.toNat) (b.map UInt8.toNat)

def compareFloat32 (x : F32) (units : Int) : Ordering := if x.isNaN then .gt else order (widen x) units

def compareFloat64 (x : F64) (units : Int) : Ordering := if x.isNaN then .gt else order x.num units

/-- How a backend orders a stored value and a bound one; `none` is unknown. -/
def compareCells : Cell → Cell → Option Ordering
  | .boolean a, .boolean b => some (order a b)
  | .integer a, .integer b => some (order a b)
  | .float32 x, .double d => some (compareFloat32 x d)
  | .float64 x, .double d => some (compareFloat64 x d)
  | .float32 x, .text t => (fmt.asNumber t).map (compareFloat32 x)
  | .float64 x, .text t => (fmt.asNumber t).map (compareFloat64 x)
  | .text a, .text b => some (order a b)
  | .bytes a, .bytes b => some (compareBytes a b)
  | .bytes a, .text b => some (compareBytes a (Utf8.encode b))
  | _, _ => none

def compareSqlCells (op : InlinedComparison) (a b : Option Cell) : Truth := do
  let a ← a
  let b ← b
  let o ← compareCells fmt a b
  return op.operator.admits o

/-- SQLite and MySQL bind a boolean as a number. -/
def InlinedSqlBind.cell (dialect : InlinedSqlDialect) : InlinedSqlBind → Cell
  | .bool b => if dialect = .sqlite ∨ dialect = .mySql then .integer b.toNat else .boolean b
  | .i64 v => .integer v
  | .u64 v => .integer v
  | .f64 neg units => .double (if neg then -(units : Int) else units)
  | .text t => .text t
  | .bytes b => .bytes b

def beforeNul (t : Text) : Text := t.takeWhile (· ≠ '\x00')

def lastTwentyOf (t : Text) : Text :=
  let all := List.replicate 20 '0' ++ t
  all.drop (all.length - 20)

def lpadTwenty (t : Text) : Text := (List.replicate (20 - t.length) '0' ++ t).take 20

def asBytes : Cell → Option (List UInt8)
  | .text t => some (Utf8.encode t)
  | .bytes b => some b
  | _ => none

def asText : Cell → Option Text
  | .text t => some t
  | _ => none

/-- `CAST` of decimal digits to an integer type. -/
def asInteger (t : Text) : Option Cell := (Numeral.parseNat t).map fun n => .integer n

variable (env : Nat → Option Cell) (cells : Text → Option Cell)

def SqlTerm.eval : SqlTerm → Option Cell
  | .column name => cells name
  | .placeholder index => env index
  | .collateBinary t => t.eval
  | .binary t | .convertTo t => (t.eval.bind asBytes).map .bytes
  | .lastTwenty t => (t.eval.bind asText).map fun s => .text (lastTwentyOf s)
  | .lpad t => (t.eval.bind asText).map fun s => .text (lpadTwenty s)
  | .castNumeric t | .castUnsigned t => (t.eval.bind asText).bind asInteger
  | .substrLength t n => do
    let s ← t.eval.bind asText
    let m ← n.eval.bind asText
    return .text ((beforeNul s).take (beforeNul m).length)
  | .substringOctets t n | .leftOctets t n => do
    let s ← t.eval.bind asBytes
    let m ← n.eval.bind asBytes
    return .bytes (s.take m.length)

mutual
def SqlCondition.eval : SqlCondition → Truth
  | .compare l op r => compareSqlCells fmt op (l.eval env cells) (r.eval env cells)
  | .startsWith t leading => do
    let s ← (t.eval env cells).bind asText
    let p ← (leading.eval env cells).bind asText
    return p.isPrefixOf s
  | .isNull c => some (cells c).isNone
  | .isNotNull c => some (cells c).isSome
  | .and parts => conj (evalConditions parts)
  | .or parts => disj (evalConditions parts)

def evalConditions : List SqlCondition → List Truth
  | [] => []
  | c :: cs => c.eval :: evalConditions cs
end

end Evaluation

/-! ## Stored values -/

/-- The floats the readers of a backend can return: SQLite's `REAL` columns keep no
NaN and no negative zero, PostgreSQL spells every NaN alike, MySQL stores finite
numbers only. -/
def readable {F : Ieee.Format} (dialect : InlinedSqlDialect) (x : Ieee.Fp F) : Prop :=
  match dialect with
  | .sqlite => x.isNaN = false ∧ ¬ (x.neg = true ∧ x.mag = 0)
  | .postgres => x.isNaN = true → x.neg = false
  | .duckDb => True
  | .mySql => x.isFinite = true

/-- `cell` of a column declared `physicalType` holds the value `v`, which is not NULL. -/
def StoresValue (fmt : FloatSpelling) (dialect : InlinedSqlDialect) (physicalType : Text) :
    ScalarValue → Cell → Prop
  | .boolean b, c => c = if dialect = .sqlite ∨ dialect = .mySql then .integer b.toNat else .boolean b
  | .integer .uint64 v, c =>
    ∃ n : Nat, v = n ∧ n < 2 ^ 64 ∧
      if u64UsesLegacyText dialect physicalType = false then c = .integer n
      -- SQLite tables hold digits with and without leading zeros
      else if dialect = .sqlite then ∃ k, k + (digits n).length ≤ 20 ∧ c = .text (List.replicate k '0' ++ digits n)
      else c = .text (digits n)
  | .integer _ v, c => c = .integer v
  | .float32 x, c =>
    readable dialect x ∧
      if dialect = .mySql ∧ isCharOrText (normalized physicalType) = true then
        ∃ t, fmt.read32 t = some x ∧ c = .text t
      else c = .float32 x
  | .float64 x, c =>
    readable dialect x ∧
      if dialect = .mySql ∧ isCharOrText (normalized physicalType) = true then
        ∃ t, fmt.read64 t = some x ∧ c = .text t
      else c = .float64 x
  | .string _ s, c => c = if dialect = .postgres then .bytes (Utf8.encode s) else .text s
  | .binary (.fixedSizeBinary _) _, _ => True
  | .binary _ b, c => c = .bytes b
  | .null _, _ => False
  | _, _ => True

def Stores (fmt : FloatSpelling) (dialect : InlinedSqlDialect) (physicalType : Text) (v : ScalarValue) :
    Option Cell → Prop
  | none => v.isNull = true
  | some c => StoresValue fmt dialect physicalType v c

/-! ## One inlined table -/

/-- A column of the scan, with the physical column that holds it in this table. -/
structure InlinedColumn where
  name : Text
  dataType : DataType
  physical : Option Text

/-- Where the columns of a scan live in one inlined table. -/
structure InlinedColumnMapping where
  columns : List InlinedColumn
  physicalTypes : Text → Option Text
  names_nodup : (columns.map (·.name)).Nodup
  physical_nodup : (columns.filterMap (·.physical)).Nodup

namespace InlinedColumnMapping

variable (mapping : InlinedColumnMapping)

def find (name : Text) : Option InlinedColumn := mapping.columns.find? (·.name == name)

def renames (name : Text) : Option Text := (mapping.find name).bind (·.physical)

/-- The scan's schema under the physical names. -/
def fields (physical : Text) : Option DataType :=
  (mapping.columns.find? (·.physical == some physical)).map (·.dataType)

def physicalFilter (filter : InlinedFilter) : Option InlinedFilter := renameColumns mapping.renames filter

end InlinedColumnMapping

section Pushing
variable (fmt : FloatSpelling) (dialect : InlinedSqlDialect) (mapping : InlinedColumnMapping)

/-- The row the scan decodes from the cells of one inlined row. A column the table
lacks reads as its default, which is any value. -/
structure Decodes (row : Text → ScalarValue) (cells : Text → Option Cell) : Prop where
  typed : ∀ c ∈ mapping.columns, (row c.name).dataType = c.dataType
  stored : ∀ c ∈ mapping.columns, ∀ p, c.physical = some p → ∀ t, mapping.physicalTypes p = some t →
    Stores fmt dialect t (row c.name) (cells p)

/-- The condition the reading query gets; its two snapshot bounds come first. -/
def pushed (filters : List Expr) : Option RenderedInlinedFilter := do
  let filter ← translateInlinedFilters filters
  let filter ← mapping.physicalFilter filter
  renderInlinedFilter fmt dialect mapping.fields mapping.physicalTypes 2 filter

/-- The value a placeholder of the pushed condition refers to. -/
def bound (binds : List InlinedSqlBind) (index : Nat) : Option Cell :=
  if 2 ≤ index then (binds[index - 2]?).map (·.cell dialect) else none

/-- The pushed condition numbers its bound values in order and keeps every row of
which all the filters are true. -/
def Pushes (fn : Functions) (filters : List Expr) : Prop :=
  ∀ rendered, pushed fmt dialect mapping filters = some rendered →
    rendered.sql.placeholders = List.range' 2 rendered.binds.length ∧
    ∀ row cells, Decodes fmt dialect mapping row cells → (∀ f ∈ filters, f.Satisfied fn row) →
      rendered.sql.eval fmt (bound dialect rendered.binds) cells = some true

end Pushing

end DuckLake.Inlined
