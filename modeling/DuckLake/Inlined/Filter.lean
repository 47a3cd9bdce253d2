import DuckLake.Lib.Kleene
import DuckLake.Lib.Like
import DuckLake.Lib.Utf8
import DuckLake.Stats.Encode
import DuckLake.Prune.Lower

/- Pushing a scan's filters into the query that reads inlined rows
   (`inlined_filter.rs`, and `physical_filter` of `metadata_provider.rs`).

   The scan's filters are translated to `InlinedFilter`, renamed to the physical
   columns of one inlined table and rendered as an SQL condition with bound values.
   What cannot be translated, renamed or rendered is left out of an `AND` and drops
   an `OR` whole.

   Correspondence (Rust ↔ Lean):
     `translate_inlined_filters`, `translate_expr` ↔ `translateInlinedFilters`, `translateExpr`
     `parse_prefix_pattern`                        ↔ `parsePrefixPattern`
     `rename_columns`, `physical_filter`           ↔ `renameColumns`, `physicalFilter`
     `render_inlined_filter`, `render_node`        ↔ `renderInlinedFilter`, `renderNode`
     `sql_bind`, `physical_type_matches`           ↔ `sqlBind`, `physicalTypeMatches`
   The condition is kept as a syntax tree whose leaves are written in the order of
   the text; a node of `Expr` the translation does not look at is a function call. -/

namespace DuckLake.Inlined

open Kleene Prune

/-! ## The filters of the query -/

inductive Expr where
  | column (name : Text)
  | literal (value : ScalarValue)
  | binary (left : Expr) (op : Operator) (right : Expr)
  | isNull (arg : Expr)
  | isNotNull (arg : Expr)
  | like (negated caseInsensitive : Bool) (expr pattern : Expr) (escapeChar : Option Char)
  | scalarFunction (name : Text) (args : List Expr)

def startsWithName : Text := "starts_with".toList

/-- `expr LIKE pattern`; without an escape character a backslash escapes. -/
def likeValue (value pattern : ScalarValue) (escapeChar : Option Char) : Truth :=
  match value, pattern with
  | .string _ s, .string _ p => some (Like.like (escapeChar.getD '\\') p s)
  | _, _ => none

def startsWithValue : List ScalarValue → Truth
  | [.string _ s, .string _ p] => some (p.isPrefixOf s)
  | _ => none

section Evaluation
-- What the functions and operators outside the translated subset compute.
variable (fn : Functions) (row : Text → ScalarValue)

mutual
def Expr.eval : Expr → ScalarValue
  | .column name => row name
  | .literal v => v
  | .binary l op r => evalBinary fn l.eval op r.eval
  | .isNull e => .boolean e.eval.isNull
  | .isNotNull e => .boolean (!e.eval.isNull)
  | .like negated caseInsensitive e p escapeChar =>
    if caseInsensitive then fn "ilike".toList [e.eval, p.eval]
    else
      let found := likeValue e.eval p.eval escapeChar
      ofTruth (if negated then Kleene.not found else found)
  | .scalarFunction name args =>
    if name = startsWithName then ofTruth (startsWithValue (evalArgs args)) else fn name (evalArgs args)

def evalArgs : List Expr → List ScalarValue
  | [] => []
  | e :: es => e.eval :: evalArgs es
end

/-- The filter is true of the row. -/
def Expr.Satisfied (e : Expr) : Prop := truth (e.eval fn row) = some true

end Evaluation

/-! ## Translation -/

inductive InlinedComparison where
  | eq | notEq | lt | ltEq | gt | gtEq
  deriving DecidableEq, Repr

namespace InlinedComparison

def reversed : InlinedComparison → InlinedComparison
  | eq => eq
  | notEq => notEq
  | lt => gt
  | ltEq => gtEq
  | gt => lt
  | gtEq => ltEq

def isRange : InlinedComparison → Bool
  | lt | ltEq | gt | gtEq => true
  | _ => false

/-- The operator the comparison stands for, in the query and in SQL. -/
def operator : InlinedComparison → Operator
  | eq => .eq
  | notEq => .notEq
  | lt => .lt
  | ltEq => .ltEq
  | gt => .gt
  | gtEq => .gtEq

end InlinedComparison

/-- A constant. A finite double is its sign and its size in units of the smallest
subnormal. -/
inductive InlinedValue where
  | bool (v : Bool)
  | i64 (v : Int)
  | u64 (v : Nat)
  | f64 (neg : Bool) (units : Nat)
  | utf8 (v : Text)
  | binary (v : List UInt8)
  deriving DecidableEq, Repr

inductive InlinedFilter where
  | comparison (column : Text) (op : InlinedComparison) (value : InlinedValue)
  | isNull (column : Text)
  | isNotNull (column : Text)
  | prefixed (column : Text) (leading : Text)
  | and (children : List InlinedFilter)
  | or (children : List InlinedFilter)

def comparison : Operator → Option InlinedComparison
  | .eq => some .eq
  | .notEq => some .notEq
  | .lt => some .lt
  | .ltEq => some .ltEq
  | .gt => some .gt
  | .gtEq => some .gtEq
  | _ => none

def IntType.isSigned : IntType → Bool
  | .int8 | .int16 | .int32 | .int64 => true
  | _ => false

def scalar : ScalarValue → Option InlinedValue
  | .boolean b => some (.bool b)
  | .integer t v =>
    if IntType.isSigned t then some (.i64 v)
    -- the unsigned types hold nothing else
    else if 0 ≤ v ∧ v < 2 ^ 64 then some (.u64 v.toNat)
    else none
  | .float32 x => if x.isFinite then some (.f64 x.neg (Ieee.scaled Ieee.binary32 x.mag * 2 ^ 925)) else none
  | .float64 x => if x.isFinite then some (.f64 x.neg (Ieee.scaled Ieee.binary64 x.mag)) else none
  | .string _ s => some (.utf8 s)
  | .binary _ b => some (.binary b)
  | _ => none

def column : Expr → Option Text
  | .column name => some name
  | _ => none

def literal : Expr → Option InlinedValue
  | .literal v => scalar v
  | _ => none

def scalarString (v : ScalarValue) : Option Text :=
  match scalar v with
  | some (.utf8 s) => some s
  | _ => none

def literalString : Expr → Option Text
  | .literal v => scalarString v
  | _ => none

/-- The leading text a pattern asks for: plain characters, then one `%` at the end.
Nothing may follow the `%`, so the source's `wildcard` flag says how the loop ended. -/
def parsePrefixPattern (escape : Option Char) : Text → Option Text
  | [] => none
  | [c] =>
    if some c = escape then none
    else if c = '%' then some []
    else none
  | c :: d :: rest =>
    if some c = escape then (parsePrefixPattern escape rest).map (d :: ·)
    else if c = '_' then none
    else if c = '%' then none
    else (parsePrefixPattern escape (d :: rest)).map (c :: ·)

/-- One child stands for itself, several stand under one node. -/
def andOf : List InlinedFilter → Option InlinedFilter
  | [] => none
  | [f] => some f
  | fs => some (.and fs)

/-- A comparison of a column with a constant on either side. -/
def translateComparison (left : Expr) (op : InlinedComparison) (right : Expr) : Option InlinedFilter :=
  match column left, literal right with
  | some c, some v => some (.comparison c op v)
  | _, _ => do
    let c ← column right
    let v ← literal left
    return .comparison c op.reversed v

def translateExpr : Expr → Option InlinedFilter
  | .binary l .and r => andOf ((translateExpr l).toList ++ (translateExpr r).toList)
  | .binary l .or r => do
    let a ← translateExpr l
    let b ← translateExpr r
    return .or [a, b]
  | .binary l op r => do
    let op ← comparison op
    translateComparison l op r
  | .isNull e => (column e).map .isNull
  | .isNotNull e => (column e).map .isNotNull
  | .like false false e p escapeChar => do
    let pattern ← literalString p
    let c ← column e
    let leading ← parsePrefixPattern escapeChar pattern
    return .prefixed c leading
  | .scalarFunction name [e, p] =>
    if name = startsWithName then do
      let leading ← literalString p
      let c ← column e
      return .prefixed c leading
    else none
  | _ => none

def translateInlinedFilters (filters : List Expr) : Option InlinedFilter :=
  andOf (filters.filterMap translateExpr)

/-! ## Renaming to the physical columns of one inlined table -/

section Renaming
variable (rename : Text → Option Text)

mutual
def renameColumns : InlinedFilter → Option InlinedFilter
  | .comparison c op v => (rename c).map (.comparison · op v)
  | .isNull c => (rename c).map .isNull
  | .isNotNull c => (rename c).map .isNotNull
  | .prefixed c leading => (rename c).map (.prefixed · leading)
  | .and children => andOf (renameSome children)
  | .or children => (renameEach children).map .or

/-- The children that can be renamed. -/
def renameSome : List InlinedFilter → List InlinedFilter
  | [] => []
  | f :: fs => (renameColumns f).toList ++ renameSome fs

/-- Every child, or nothing. -/
def renameEach : List InlinedFilter → Option (List InlinedFilter)
  | [] => some []
  | f :: fs => do
    let f' ← renameColumns f
    let fs' ← renameEach fs
    return f' :: fs'
end

end Renaming

end DuckLake.Inlined
