import DuckLake.Prune.Lower
import Mathlib.Data.Rat.Defs
import Mathlib.Algebra.Order.Ring.Rat

/- Rendering lowered conditions to the listing query's SQL
   (`stats_filter.rs`, `render_expr` and `render_column`).

   The SQL is kept as a syntax tree with three-valued evaluation over the
   statistics row the query joins to a file; a file with no row for the column
   joins to NULLs. Hoisting a conversion into the CTE changes where it is
   written, not what it evaluates to, so a converted statistic is a term of its
   own here.

   Correspondence (Rust ↔ Lean):
     `StatsSqlDialect::try_cast` ↔ `Dialect.tryCast`, the conversion as a function
                                   from the stored text to a value or NULL
     `StatsLiteral::convert`     ↔ `StatsLiteral.convert`
     `render_expr`               ↔ `renderExpr`
     `render_column`             ↔ `renderColumn`
     `StatsFilter::render` and the `WHERE` of the listing ↔ `listed` -/

namespace DuckLake.Prune

open Kleene

/-! ## SQL values and expressions -/

/-- A value the catalog engine compares. Doubles are counted in units of the
smallest subnormal double, with the infinities at their ends. -/
inductive SqlVal where
  | num (q : ℚ)
  | double (d : Int)
  | bool (b : Bool)
  | instant (v : Int)
  | text (s : Text)
  deriving DecidableEq

def compareSql : SqlVal → SqlVal → Option Ordering
  | .num a, .num b => some (order a b)
  | .double a, .double b => some (order a b)
  | .bool a, .bool b => some (order a b)
  | .instant a, .instant b => some (order a b)
  | .text a, .text b => some (order a b)
  | _, _ => none

inductive SqlOp where
  | eq | lt | ltEq | gt | gtEq
  deriving DecidableEq, Repr

def SqlOp.admits : SqlOp → Ordering → Bool
  | .eq, o => o == .eq
  | .lt, o => o == .lt
  | .ltEq, o => o != .gt
  | .gt, o => o == .gt
  | .gtEq, o => o != .lt

/-- A comparison; NULL when either side is. -/
def sqlCompare (op : SqlOp) (a b : Option SqlVal) : Truth :=
  a.bind fun a => b.bind fun b => (compareSql a b).map op.admits

/-- One row of `ducklake_file_column_stats`. -/
structure StatsRow where
  minValue : Option Text
  maxValue : Option Text
  nullCount : Option Int
  valueCount : Option Int
  containsNan : Option Bool
  deriving DecidableEq, Repr

def StatsRow.bound (r : StatsRow) : StatKind → Option Text
  | .minValue => r.minValue
  | .maxValue => r.maxValue
  | _ => none

def StatsRow.count (r : StatsRow) : StatKind → Option Int
  | .nullCount => r.nullCount
  | .valueCount => r.valueCount
  | _ => none

def StatsRow.isNull (r : StatsRow) : StatKind → Bool
  | .minValue => r.minValue.isNone
  | .maxValue => r.maxValue.isNone
  | .nullCount => r.nullCount.isNone
  | .valueCount => r.valueCount.isNone
  | .containsNan => r.containsNan.isNone

inductive SqlTerm where
  | converted (stat : StatKind) (conversion : Text → Option SqlVal)
  | value (v : SqlVal)

inductive SqlExpr where
  | and (parts : List SqlExpr)
  | or (parts : List SqlExpr)
  | not (e : SqlExpr)
  | compare (l : SqlTerm) (op : SqlOp) (r : SqlTerm)
  | between (x lo hi : SqlTerm)
  | statIsNull (stat : StatKind)
  | countPositive (stat : StatKind)
  | nanNotFalse
  | noRow

section Evaluation
variable (row : Option StatsRow)

def SqlTerm.eval : SqlTerm → Option SqlVal
  | .converted stat conversion => (row.bind (·.bound stat)).bind conversion
  | .value v => some v

mutual
def SqlExpr.eval : SqlExpr → Truth
  | .and parts => conj (evalParts parts)
  | .or parts => disj (evalParts parts)
  | .not e => Kleene.not e.eval
  | .compare l op r => sqlCompare op (l.eval row) (r.eval row)
  | .between x lo hi =>
    Kleene.and (sqlCompare .ltEq (lo.eval row) (x.eval row)) (sqlCompare .ltEq (x.eval row) (hi.eval row))
  | .statIsNull stat => some (row.elim true (·.isNull stat))
  | .countPositive stat => (row.bind (·.count stat)).map fun n => decide (0 < n)
  | .nanNotFalse => some (row.bind (·.containsNan) != some false)
  | .noRow => some row.isNone

def evalParts : List SqlExpr → List Truth
  | [] => []
  | e :: es => e.eval :: evalParts es
end

end Evaluation

theorem evalParts_eq_map (row : Option StatsRow) : ∀ es, evalParts row es = es.map (·.eval row)
  | [] => rfl
  | e :: es => by simp [evalParts, evalParts_eq_map row es]

/-! ## Rendering -/

/-- What a constant or a bound is to the catalog engine; `none` for NULL. -/
def sqlOf : ScalarValue → Option SqlVal
  | .null _ => none
  | .boolean b => some (.bool b)
  | .integer _ v => some (.num v)
  | .float16 x => some (.double x.num)
  | .float32 x => some (.double (widen x))
  | .float64 x => some (.double x.num)
  | .decimal128 v _ s => some (.num (v / 10 ^ s.toNat))
  | .date32 d => some (.instant d)
  | .time _ v => some (.instant v)
  | .timestamp _ _ v => some (.instant v)
  | .string _ s => some (.text s)
  | .binary _ bytes => some (.text (bytes.map fun b => Char.ofNat b.toNat))
  | .other _ r => some (.instant r)

/-- A catalog engine's SQL. `tryCast` declines a type with `none`; otherwise it is
the guarded conversion, which reads a stored text as a value or as NULL. -/
structure Dialect where
  tryCast : StatsLiteral → DataType → Option (Text → Option SqlVal)

variable (D : Dialect)

/-- A statistic as it is compared against the literal: cast, or as raw text. -/
def StatsLiteral.convert (literal : StatsLiteral) (stat : StatKind) : Option SqlTerm :=
  match literal.cast with
  | some type => (D.tryCast literal type).map (.converted stat ·)
  | none => some (.converted stat fun t => some (.text t))

def StatsLiteral.render (literal : StatsLiteral) : Option SqlTerm := (sqlOf literal.value).map .value

def edge (d : Int) : SqlTerm := .value (.double d)

def BoundOp.toSql : BoundOp → SqlOp
  | .lt => .lt
  | .ltEq => .ltEq
  | .gt => .gt
  | .gtEq => .gtEq

/-- The literal between the two bounds. -/
def renderWithin (literal : StatsLiteral) (min max : SqlTerm) : Option SqlExpr :=
  match literal.window with
  | some w => some (.and [.compare min .ltEq (edge w.hi), .compare max .gtEq (edge w.lo)])
  | none => literal.render.map fun value => .between value min max

/-- Not both bounds equal to the literal. -/
def renderNotEvery (literal : StatsLiteral) (min max : SqlTerm) : Option SqlExpr :=
  match literal.window with
  | some w =>
    -- both bounds strictly inside the window name the constant
    some (.not (.and [.compare min .gt (edge w.lo), .compare max .lt (edge w.hi)]))
  | none => literal.render.map fun value => .not (.and [.compare min .eq value, .compare max .eq value])

/-- One bound against the literal; against a zero a strict comparison keeps every zero. -/
def renderBound (literal : StatsLiteral) (op : BoundOp) (bound : SqlTerm) : Option SqlExpr :=
  match literal.window with
  | some w => some <| match op with
    | .lt => .compare bound .ltEq (edge (if w.zero then w.hi else w.lo))
    | .ltEq => .compare bound .ltEq (edge w.hi)
    | .gt => .compare bound .gtEq (edge (if w.zero then w.lo else w.hi))
    | .gtEq => .compare bound .gtEq (edge w.lo)
  | none => literal.render.map fun value => .compare bound op.toSql value

mutual
/-- A condition as SQL, or `none` if it cannot be expressed. An `AND` drops an
unrenderable child, an `OR` is abandoned by one. -/
def renderExpr : StatsExpr → Option SqlExpr
  | .and children =>
    let parts := renderSome children
    if parts.isEmpty then none else some (.and parts)
  | .or children =>
    match renderAll children with
    | some parts => if parts.isEmpty then none else some (.or parts)
    | none => none
  | .literalWithinBounds literal =>
    match literal.convert D .minValue, literal.convert D .maxValue with
    | some min, some max => renderWithin literal min max
    | _, _ => none
  | .notEveryRowEqual literal =>
    if literal.window.any (·.zero) then none
    else match literal.convert D .minValue, literal.convert D .maxValue with
      | some min, some max => renderNotEvery literal min max
      | _, _ => none
  | .boundCompare stat op literal => (literal.convert D stat).bind (renderBound literal op)
  | .countPositive stat => some (.countPositive stat)
  | .floatBoundsUnusable => some .nanNotFalse

def renderSome : List StatsExpr → List SqlExpr
  | [] => []
  | e :: es => (renderExpr e).toList ++ renderSome es

def renderAll : List StatsExpr → Option (List SqlExpr)
  | [] => some []
  | e :: es =>
    match renderExpr e, renderAll es with
    | some part, some parts => some (part :: parts)
    | _, _ => none
end

/-- One column's condition with its guards: a missing row and a missing statistic
keep the file, and a condition no NULL can meet needs some value. -/
def renderColumn (column : StatsColumnFilter) : Option (Nat × SqlExpr) :=
  (renderExpr D column.condition).map fun condition =>
    let nullChecks := (StatKind.all.filter (· ∈ column.referencedStats)).map SqlExpr.statIsNull
    let checked := SqlExpr.or (nullChecks ++ [condition])
    let body := if column.needsValueCountGuard then
        .and [.or [.statIsNull .valueCount, .countPositive .valueCount], checked]
      else checked
    (column.columnId, .or [.noRow, body])

/-- The statistics rows of one data file, by column id. -/
abbrev FileStats := Nat → Option StatsRow

/-- Every rendered condition holds of the file, unknown counted as holding. -/
def listed (filter : List StatsColumnFilter) (stats : FileStats) : Bool :=
  (filter.filterMap (renderColumn D)).all fun c => isNotFalse (c.2.eval (stats c.1))

end DuckLake.Prune
