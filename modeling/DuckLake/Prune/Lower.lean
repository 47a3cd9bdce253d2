import DuckLake.Lib.Kleene
import DuckLake.Stats.Encode
import Mathlib.Data.Finset.Insert
import Mathlib.Data.Finset.Lattice.Basic

/- Lowering a predicate to conditions over column statistics
   (`stats_filter.rs`, `lower_predicate` and what it calls).

   A scan's predicate is a tree of physical expressions. Lowering turns each
   top-level conjunct that concerns one column into a condition over that
   column's recorded statistics; what cannot be lowered contributes nothing. An
   `AND` may drop a child it cannot lower, an `OR` may not.

   Correspondence (Rust ↔ Lean):
     `StatsLiteral::new`, `for_column` ↔ `StatsLiteral.new`, `forColumn`
     `FloatWindow::of`                 ↔ `FloatWindow.of`
     `lower_node`, `lower_comparison`  ↔ `lowerNode`, `lowerComparison`
     `lower_conjunct`                  ↔ `lowerConjunct`
     `lower_predicate`                 ↔ `lowerPredicate`
     `BTreeSet<StatKind>`              ↔ `Finset StatKind`
   A `StatsLiteral` keeps the constant itself beside its text: every engine reads
   the literal it renders as that constant. Window edges are doubles, counted in
   units of the smallest subnormal double. -/

namespace DuckLake.Prune

open Kleene

/-! ## Predicates and the rows they select -/

inductive Operator where
  | and | or | eq | notEq | lt | ltEq | gt | gtEq
  | other (name : Text)
  deriving DecidableEq, Repr

inductive PhysicalExpr where
  | column (index : Nat)
  | literal (value : ScalarValue)
  | binary (left : PhysicalExpr) (op : Operator) (right : PhysicalExpr)
  | isNull (arg : PhysicalExpr)
  | isNotNull (arg : PhysicalExpr)
  | inList (expr : PhysicalExpr) (list : List PhysicalExpr) (negated : Bool)
  | call (name : Text) (args : List PhysicalExpr)

/-- A row, by column index. -/
abbrev Row := Nat → ScalarValue

def truth : ScalarValue → Truth
  | .boolean b => some b
  | _ => none

def ofTruth : Truth → ScalarValue
  | some b => .boolean b
  | none => .null .boolean

/-- Whether an ordering answers a comparison operator. -/
def Operator.admits : Operator → Ordering → Bool
  | .eq, o => o == .eq
  | .notEq, o => o != .eq
  | .lt, o => o == .lt
  | .ltEq, o => o != .gt
  | .gt, o => o == .gt
  | .gtEq, o => o != .lt
  | _, _ => false

/-- A comparison of two values. A NULL gives NULL; two types no kernel compares
fail the query, so no row passes. -/
def compareOp (op : Operator) (a b : ScalarValue) : Truth := (compareScalars a b).map op.admits

section Evaluation
-- What the functions and operators outside the statistics subset compute.
variable (fn : Functions) (row : Row)

def evalBinary (l : ScalarValue) (op : Operator) (r : ScalarValue) : ScalarValue :=
  match op with
  | .and => ofTruth (Kleene.and (truth l) (truth r))
  | .or => ofTruth (Kleene.or (truth l) (truth r))
  | .other name => fn name [l, r]
  | op => ofTruth (compareOp op l r)

mutual
def PhysicalExpr.eval : PhysicalExpr → ScalarValue
  | .column i => row i
  | .literal v => v
  | .binary l op r => evalBinary fn l.eval op r.eval
  | .isNull e => .boolean e.eval.isNull
  | .isNotNull e => .boolean (!e.eval.isNull)
  | .inList e l negated =>
    let found := disj ((evalList l).map (compareOp .eq e.eval))
    ofTruth (if negated then Kleene.not found else found)
  | .call name args => fn name (evalList args)

def evalList : List PhysicalExpr → List ScalarValue
  | [] => []
  | e :: es => e.eval :: evalList es
end

/-- The predicate is true of the row. -/
def PhysicalExpr.Satisfied (e : PhysicalExpr) : Prop := truth (e.eval fn row) = some true

end Evaluation

/-! ## Conditions over statistics -/

inductive StatKind where
  | minValue | maxValue | nullCount | valueCount | containsNan
  deriving DecidableEq, Repr

def StatKind.isBound : StatKind → Bool
  | .minValue | .maxValue => true
  | _ => false

/-- The statistics in the order the listing query names them. -/
def StatKind.all : List StatKind := [.minValue, .maxValue, .nullCount, .valueCount, .containsNan]

inductive BoundOp where
  | lt | ltEq | gt | gtEq
  deriving DecidableEq, Repr

/-- The doubles a stored bound can read as while naming the constant. -/
structure FloatWindow where
  lo : Int
  hi : Int
  zero : Bool
  deriving DecidableEq, Repr

/-- `f64::from` of a finite single-precision float, in double units. -/
def widen (v : F32) : Int := v.num * 2 ^ 925

def FloatWindow.of : ScalarValue → Option FloatWindow
  | .float32 v =>
    if v.isZero then
      let half := widen ⟨false, 1⟩ / 2
      some ⟨-half, half, true⟩
    else if v.isFinite then
      let here := widen v
      let below := widen v.nextDown
      let above := widen v.nextUp
      -- next to an infinity the rounding boundary is half an ulp past the value
      let lo := if v.nextDown.isFinite then (here + below) / 2 else here - (above - here) / 2
      let hi := if v.nextUp.isFinite then (here + above) / 2 else here + (here - below) / 2
      some ⟨lo, hi, false⟩
    else none
  | .float64 v => if v.isZero then some ⟨-1, 1, true⟩ else none
  | _ => none

inductive PartitionTextMatch where
  | exact | canonicalInteger
  deriving DecidableEq, Repr

def partitionTextFor : DataType → Option PartitionTextMatch
  | .string _ => some .exact
  | .integer _ => some .canonicalInteger
  | _ => none

structure StatsLiteral where
  value : ScalarValue
  text : Text
  cast : Option DataType
  unquoted : Bool
  partitionMatch : Option PartitionTextMatch
  window : Option FloatWindow
  deriving DecidableEq, Repr

inductive StatsExpr where
  | and (children : List StatsExpr)
  | or (children : List StatsExpr)
  | literalWithinBounds (literal : StatsLiteral)
  | notEveryRowEqual (literal : StatsLiteral)
  | boundCompare (stat : StatKind) (op : BoundOp) (literal : StatsLiteral)
  | countPositive (stat : StatKind)
  | floatBoundsUnusable

def requiresValueComparison (t : DataType) : Bool := t.isNumeric || t.isTemporal || t == .boolean

def rendersUnquoted (value : ScalarValue) : Bool :=
  value.dataType.isNumeric && match value with
    | .float16 v => v.isFinite
    | .float32 v => v.isFinite
    | .float64 v => v.isFinite
    | _ => true

def isFloatValue : ScalarValue → Bool
  | .float16 _ | .float32 _ | .float64 _ => true
  | _ => false

def isBinaryType : DataType → Bool
  | .binary _ => true
  | _ => false

/-- The type a stored bound is cast to: a single-precision constant is compared as a double. -/
def castTarget : DataType → DataType
  | .float32 => .float64
  | t => t

section Lowering
variable (fmt : FloatText)

def StatsLiteral.new (value : ScalarValue) : Option StatsLiteral :=
  if value.isNull then none
  else if isBinaryType value.dataType then none
  else if isFloatValue value && !rendersUnquoted value then none
  else match encodeScalar fmt value with
    | none => none
    | some text =>
      if Char.ofNat 0 ∈ text then none
      else some
        { value := value
          text := text
          cast := if requiresValueComparison value.dataType then some (castTarget value.dataType) else none
          unquoted := rendersUnquoted value
          partitionMatch := partitionTextFor value.dataType
          window := FloatWindow.of value }

/-- Whether a constant of one type is compared against bounds of another without rounding. -/
def comparableTypes (constantType columnType : DataType) : Bool :=
  constantType == columnType ||
    !(constantType.isFloat || columnType.isFloat) &&
      match constantType, columnType with
      | .decimal128 _ constantScale, .decimal128 _ columnScale => decide (columnScale ≤ constantScale)
      | _, _ => true

def StatsLiteral.forColumn (value : ScalarValue) (columnType : DataType) : Option StatsLiteral :=
  if comparableTypes value.dataType columnType then StatsLiteral.new fmt value else none

def flipOperator : Operator → Option Operator
  | .eq => some .eq
  | .notEq => some .notEq
  | .lt => some .gt
  | .ltEq => some .gtEq
  | .gt => some .lt
  | .gtEq => some .ltEq
  | _ => none

/-- A lowered condition and the statistics it reads. -/
abbrev Lowering := StatsExpr × Finset StatKind

/-- The condition for `column op literal`. -/
def lowerOperator (op : Operator) (literal : StatsLiteral) : Option Lowering :=
  match op with
  | .eq => some (.literalWithinBounds literal, {.minValue, .maxValue})
  | .notEq => some (.notEveryRowEqual literal, {.minValue, .maxValue})
  | .lt => some (.boundCompare .minValue .lt literal, {.minValue})
  | .ltEq => some (.boundCompare .minValue .ltEq literal, {.minValue})
  | .gt => some (.boundCompare .maxValue .gt literal, {.maxValue})
  | .gtEq => some (.boundCompare .maxValue .gtEq literal, {.maxValue})
  | _ => none

def isSubject (index : Nat) : PhysicalExpr → Bool
  | .column i => i == index
  | _ => false

def asLiteral : PhysicalExpr → Option ScalarValue
  | .literal v => some v
  | _ => none

/-- The constant and the operator of a comparison, the column read as its left side. -/
def comparisonParts (left : PhysicalExpr) (op : Operator) (right : PhysicalExpr) (index : Nat) :
    Option (ScalarValue × Operator) :=
  if isSubject index left then (asLiteral right).map (·, op)
  else if isSubject index right then
    match asLiteral left, flipOperator op with
    | some v, some op => some (v, op)
    | _, _ => none
  else none

def lowerComparison (left : PhysicalExpr) (op : Operator) (right : PhysicalExpr) (index : Nat)
    (columnType : DataType) : Option Lowering :=
  match comparisonParts left op right index with
  | none => none
  | some (value, op) =>
    match StatsLiteral.forColumn fmt value columnType with
    | none => none
    | some literal => lowerOperator op literal

/-- The equality conditions of an `IN` list; one unusable element abandons it. -/
def lowerElements (columnType : DataType) : List PhysicalExpr → Option (List StatsExpr)
  | [] => some []
  | e :: es =>
    match (asLiteral e).bind (StatsLiteral.forColumn fmt · columnType), lowerElements columnType es with
    | some literal, some parts => some (.literalWithinBounds literal :: parts)
    | _, _ => none

/-- A single part stands for itself. -/
def orOf : List StatsExpr → StatsExpr
  | [part] => part
  | parts => .or parts

def lowerNode (index : Nat) (columnType : DataType) : PhysicalExpr → Option Lowering
  | .binary l .and r =>
    match lowerNode index columnType l, lowerNode index columnType r with
    | some (a, sa), some (b, sb) => some (.and [a, b], sa ∪ sb)
    | some p, none => some p
    | none, q => q
  | .binary l .or r =>
    match lowerNode index columnType l, lowerNode index columnType r with
    | some (a, sa), some (b, sb) => some (.or [a, b], sa ∪ sb)
    | _, _ => none
  | .binary l op r => lowerComparison fmt l op r index columnType
  | .isNull e => if isSubject index e then some (.countPositive .nullCount, {.nullCount}) else none
  | .isNotNull e => if isSubject index e then some (.countPositive .valueCount, {.valueCount}) else none
  | .inList e list negated =>
    if negated || !isSubject index e || list.isEmpty then none
    else (lowerElements fmt columnType list).map fun parts => (orOf parts, {.minValue, .maxValue})
  | _ => none

mutual
/-- The column indices an expression mentions, in traversal order. -/
def PhysicalExpr.columns : PhysicalExpr → List Nat
  | .column i => [i]
  | .literal _ => []
  | .binary l _ r => l.columns ++ r.columns
  | .isNull e => e.columns
  | .isNotNull e => e.columns
  | .inList e l _ => e.columns ++ columnsList l
  | .call _ args => columnsList args

def columnsList : List PhysicalExpr → List Nat
  | [] => []
  | e :: es => e.columns ++ columnsList es
end

def soleColumnIndex (e : PhysicalExpr) : Option Nat :=
  match e.columns with
  | [] => none
  | i :: rest => if rest.all (· == i) then some i else none

mutual
/-- Whether a NaN outside the recorded bounds can satisfy the condition. -/
def needsFloatGate : StatsExpr → Bool
  | .and children => anyFloatGate children
  | .or children => anyFloatGate children
  | .boundCompare _ _ _ => true
  | .notEveryRowEqual _ => true
  | _ => false

def anyFloatGate : List StatsExpr → Bool
  | [] => false
  | e :: es => needsFloatGate e || anyFloatGate es
end

structure Lowered where
  condition : StatsExpr
  referencedStats : Finset StatKind
  partitionText : Option PartitionTextMatch

def lowerConjunct (schema : List DataType) (columns : List Nat) (e : PhysicalExpr) :
    Option (Nat × Lowered) :=
  match soleColumnIndex e with
  | none => none
  | some index =>
    match schema[index]?, columns[index]? with
    | some columnType, some columnId =>
      match lowerNode fmt index columnType e with
      | none => none
      | some (condition, stats) =>
        let gated := needsFloatGate condition && columnType.isFloat
        some (columnId,
          { condition := if gated then .or [.floatBoundsUnusable, condition] else condition
            referencedStats := if gated then insert .containsNan stats else stats
            partitionText := partitionTextFor columnType })
    | _, _ => none

/-- `split_conjunction`: the operands of the top-level `AND`s. -/
def splitConjunction : PhysicalExpr → List PhysicalExpr
  | .binary l .and r => splitConjunction l ++ splitConjunction r
  | e => [e]

/-- A second condition on the same column: the two intersect. -/
def Lowered.merge (existing new : Lowered) : Lowered :=
  { condition := match existing.condition with
      | .and parts => .and (parts ++ [new.condition])
      | other => .and [other, new.condition]
    referencedStats := existing.referencedStats ∪ new.referencedStats
    partitionText := if existing.partitionText = new.partitionText then existing.partitionText else none }

def addLowered (columnId : Nat) (new : Lowered) : List (Nat × Lowered) → List (Nat × Lowered)
  | [] => [(columnId, new)]
  | (id, existing) :: rest =>
    if id = columnId then (id, existing.merge new) :: rest
    else (id, existing) :: addLowered columnId new rest

structure StatsColumnFilter where
  columnId : Nat
  needsValueCountGuard : Bool
  referencedStats : Finset StatKind
  partitionText : Option PartitionTextMatch
  condition : StatsExpr

def StatsColumnFilter.ofLowered (columnId : Nat) (l : Lowered) : StatsColumnFilter :=
  { columnId := columnId
    needsValueCountGuard := decide (StatKind.nullCount ∉ l.referencedStats) &&
      StatKind.all.any fun s => s.isBound && decide (s ∈ l.referencedStats)
    referencedStats := l.referencedStats
    partitionText := l.partitionText
    condition := l.condition }

/-- The conditions by column, one per column id, as the conjuncts are met. -/
def lowerConjuncts (schema : List DataType) (columns : List Nat) (conjuncts : List PhysicalExpr) :
    List (Nat × Lowered) :=
  conjuncts.foldl (fun byColumn e =>
    match lowerConjunct fmt schema columns e with
    | none => byColumn
    | some (columnId, lowered) => addLowered columnId lowered byColumn) []

/-- `columns` gives the column id of each field of `schema`. -/
def lowerPredicate (schema : List DataType) (columns : List Nat) (predicate : PhysicalExpr) :
    Option (List StatsColumnFilter) :=
  let byColumn := lowerConjuncts fmt schema columns (splitConjunction predicate)
  if byColumn.isEmpty then none
  else some ((byColumn.mergeSort (fun a b => a.1 ≤ b.1)).map fun p => .ofLowered p.1 p.2)

/-! What holds of each conjunct's condition and of two merged ones holds of every column's. -/

section Collected
variable {P : Nat → Lowered → Prop} (hmerge : ∀ {id a b}, P id a → P id b → P id (a.merge b))
include hmerge

theorem addLowered_forall {id : Nat} {l : Lowered} (hl : P id l) : ∀ {byColumn : List (Nat × Lowered)},
    (∀ p ∈ byColumn, P p.1 p.2) → ∀ p ∈ addLowered id l byColumn, P p.1 p.2
  | [], _ => by
    intro p hp
    rw [addLowered, List.mem_singleton] at hp
    subst hp
    exact hl
  | (i, existing) :: rest, h => by
    rw [List.forall_mem_cons] at h
    unfold addLowered
    split
    · next hid =>
      subst hid
      rw [List.forall_mem_cons]
      exact ⟨hmerge h.1 hl, h.2⟩
    · rw [List.forall_mem_cons]
      exact ⟨h.1, addLowered_forall hl h.2⟩

variable {fmt} {schema : List DataType} {columns : List Nat}

theorem lowerConjuncts_forall {conjuncts : List PhysicalExpr}
    (h : ∀ e ∈ conjuncts, ∀ id l, lowerConjunct fmt schema columns e = some (id, l) → P id l) :
    ∀ p ∈ lowerConjuncts fmt schema columns conjuncts, P p.1 p.2 := by
  unfold lowerConjuncts
  -- over the conjuncts, for whatever has been collected before
  suffices hgen : ∀ (es : List PhysicalExpr) (byColumn : List (Nat × Lowered)), (∀ e ∈ es, e ∈ conjuncts) →
      (∀ p ∈ byColumn, P p.1 p.2) → ∀ p ∈ es.foldl (fun byColumn e =>
        match lowerConjunct fmt schema columns e with
        | none => byColumn
        | some (columnId, lowered) => addLowered columnId lowered byColumn) byColumn, P p.1 p.2 by
    exact hgen conjuncts [] (fun _ he => he) (by simp)
  intro es
  induction es with
  | nil => intro byColumn _ hb; exact hb
  | cons e es ih =>
    intro byColumn hes hb
    rw [List.foldl_cons]
    apply ih _ fun e' he' => hes e' (List.mem_cons_of_mem _ he')
    split
    · exact hb
    · next id l hl => exact addLowered_forall hmerge (h e (hes e (List.mem_cons_self ..)) id l hl) hb

theorem lowerPredicate_forall {predicate : PhysicalExpr} {filter : List StatsColumnFilter}
    (hfilter : lowerPredicate fmt schema columns predicate = some filter)
    (h : ∀ e ∈ splitConjunction predicate, ∀ id l, lowerConjunct fmt schema columns e = some (id, l) → P id l) :
    ∀ c ∈ filter, ∃ id l, c = .ofLowered id l ∧ P id l := by
  unfold lowerPredicate at hfilter
  simp only at hfilter
  split at hfilter
  · cases hfilter
  · cases hfilter
    intro c hc
    obtain ⟨p, hp, rfl⟩ := List.mem_map.mp hc
    exact ⟨p.1, p.2, rfl, lowerConjuncts_forall hmerge h p (List.mem_mergeSort.mp hp)⟩

end Collected

end Lowering

end DuckLake.Prune
