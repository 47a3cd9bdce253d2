import DuckLake.Lib.Lifetime
import DuckLake.Lib.Like
import DuckLake.Prune.Lower

/- Partitioned tables (`partition.rs`): the specification a table's rows are split by,
   the values the catalog records for each file, and the pre-filter a predicate's
   equalities put on those values (`stats_filter.rs`, `with_partition_prefilters`).

   A specification has generations. `SET PARTITIONED BY` ends the live one and starts
   the next, `RESET` only ends it, and nothing removes a generation while its table
   exists. A write is laid out by the live generation; its files keep their values when
   the generation ends.

   Correspondence (Rust ↔ Lean):
     `PartitionTransform`, `PartitionSpec`  ↔ the same, the catalog's transform text parsed
     `transform_array`, `calendar_parts`    ↔ `transformScalar`, `calendarPart`, value by value
     `split_batches_by_partition`           ↔ `splitBatchesByPartition`
     `set_partition_spec`, `reset_partition_spec`, `get_partition_spec` ↔ the same
     `enforce_partition_fence`              ↔ `enforcePartitionFence`
     `equality_values`                      ↔ `equalityValues`
     `with_partition_prefilters`            ↔ `withPartitionPrefilters`
     `render_partition_prefilters`, `conjunct` ↔ `excludes`, `passesPrefilters`
   A row is known by its columns' ids. The arrow kernel that takes a date part of a type
   other than a date or a timestamp, and arrow's parser, are parameters. -/

namespace DuckLake.Partition

open Prune Versioned

/-! ## Transforms -/

inductive PartitionTransform where
  | identity | year | month | day | hour
  | bucket (n : Nat)
  | unknown (text : Text)
  deriving DecidableEq, Repr

def perHour (unit : TimeUnit) : Int := 3600 * unit.perSecond

/-- A part of a day and an hour, as DuckDB's date-part functions give it. -/
def instantPart (transform : PartitionTransform) (zoned : Bool) (days hour : Int) : ScalarValue :=
  let (year, month, day) := civilFromDays days
  .integer .int64 <| match transform with
    -- a zoned timestamp's year counts the era
    | .year => if zoned && decide (year ≤ 0) then 1 - year else year
    | .month => month
    | .day => day
    | _ => hour

/-- The `year`, `month`, `day` or `hour` of a date or timestamp; NULL and the
infinities have none. `none` for another type. -/
def calendarPart (transform : PartitionTransform) : ScalarValue → Option ScalarValue
  | .date32 days =>
    some (if days = dateInfinity ∨ days = -dateInfinity then .null (.integer .int64)
      else instantPart transform false days 0)
  | .timestamp unit tz v =>
    some (if v = timestampInfinity ∨ v = -timestampInfinity then .null (.integer .int64)
      else
        let hours := v / perHour unit
        instantPart transform tz.isSome (hours / 24) (hours % 24))
  | .null .date32 => some (.null (.integer .int64))
  | .null (.timestamp _ _) => some (.null (.integer .int64))
  | _ => none

/-- Arrow's `date_part`, which may refuse a type. -/
abbrev DatePart := PartitionTransform → ScalarValue → Option ScalarValue

def transformScalar (datePart : DatePart) (transform : PartitionTransform) (v : ScalarValue) :
    Option ScalarValue :=
  match transform with
  | .identity => some v
  | .bucket _ | .unknown _ => none
  | part => match calendarPart part v with
    | some w => some w
    | none => datePart part v

/-- The text a partition value is recorded as: a string whole, another value as its
statistics text. -/
def keyText (fmt : FloatText) : ScalarValue → Option Text
  | .string _ s => some s
  | v => encodeScalar fmt v

/-- The recorded value of one key: `some none` for NULL, `none` where the write fails. -/
def partitionValue (fmt : FloatText) (datePart : DatePart) (transform : PartitionTransform) (v : ScalarValue) :
    Option (Option Text) := do
  let w ← transformScalar datePart transform v
  if w.isNull then return none
  else return some (← keyText fmt w)

/-! ## Splitting a write -/

/-- A row as it is written, by column id. -/
abbrev StoredRow := Nat → ScalarValue

structure PartitionWriteKey where
  columnId : Nat
  transform : PartitionTransform

/-- The recorded values of a row, in key order. -/
def rowValues (fmt : FloatText) (datePart : DatePart) (keys : List PartitionWriteKey) (row : StoredRow) :
    Option (List (Option Text)) :=
  keys.mapM fun key => partitionValue fmt datePart key.transform (row key.columnId)

/-- Groups by their values, in the order first seen. -/
abbrev Groups (α : Type) := List (List (Option Text) × List α)

def addToGroup {α : Type} (values : List (Option Text)) (item : α) : Groups α → Groups α
  | [] => [(values, [item])]
  | (v, items) :: rest =>
    if v = values then (v, items ++ [item]) :: rest else (v, items) :: addToGroup values item rest

section Split
variable (fmt : FloatText) (datePart : DatePart) (keys : List PartitionWriteKey)

def splitBatch (batch : List StoredRow) : Option (Groups StoredRow) :=
  batch.foldlM (fun groups row => (rowValues fmt datePart keys row).map (addToGroup · row groups)) []

/-- One batch per group for each input batch with rows of the group. -/
def splitBatchesByPartition (batches : List (List StoredRow)) : Option (Groups (List StoredRow)) :=
  batches.foldlM (fun groups batch =>
    (splitBatch fmt datePart keys batch).map fun perBatch =>
      perBatch.foldl (fun groups part => addToGroup part.1 part.2 groups) groups) []

end Split

/-! ## Specifications in the catalog -/

structure PartitionSpecColumn where
  partitionKeyIndex : Nat
  columnId : Nat
  transform : PartitionTransform

structure PartitionSpec where
  partitionId : Nat
  columns : List PartitionSpecColumn
  pruneSafe : Bool

/-- A row of `ducklake_partition_info`: one generation. -/
structure PartitionInfo extends Lifetime where
  partitionId : Nat

/-- A row of `ducklake_partition_column`. -/
structure PartitionColumn extends PartitionSpecColumn where
  partitionId : Nat

/-- A data file with the rows it was written with and its rows of
`ducklake_file_partition_value`. -/
structure PartitionedFile where
  partitionId : Option Nat
  partitionValues : List (Nat × Option Text)
  rows : List StoredRow

/-- What the catalog keeps of one table's partitioning. -/
structure PartitionCatalog where
  head : Nat
  nextCatalogId : Nat
  infos : List PartitionInfo
  columns : List PartitionColumn
  files : List PartitionedFile

namespace PartitionCatalog

def livePartitionId (cat : PartitionCatalog) : Option Nat :=
  (cat.infos.find? (·.live)).map (·.partitionId)

def endLive (snapshot : Nat) (infos : List PartitionInfo) : List PartitionInfo :=
  infos.map fun i => { i with toLifetime := i.toLifetime.close snapshot }

def setPartitionSpec (cat : PartitionCatalog) (columns : List (Nat × PartitionTransform)) :
    Option PartitionCatalog :=
  if columns.isEmpty then none
  else some
    { cat with
      head := cat.head + 1
      nextCatalogId := cat.nextCatalogId + 1
      infos := endLive (cat.head + 1) cat.infos ++ [⟨⟨cat.head + 1, none⟩, cat.nextCatalogId⟩]
      columns := cat.columns ++ columns.zipIdx.map fun c => ⟨⟨c.2, c.1.1, c.1.2⟩, cat.nextCatalogId⟩ }

/-- Nothing to reset makes no snapshot. -/
def resetPartitionSpec (cat : PartitionCatalog) : PartitionCatalog :=
  if cat.infos.any (·.live) then
    { cat with head := cat.head + 1, infos := endLive (cat.head + 1) cat.infos }
  else cat

/-- The rows the specification is read from: the generation visible at the snapshot
joined to its key columns, in key order. -/
def specRows (cat : PartitionCatalog) (snapshot : Nat) : List PartitionColumn :=
  ((cat.infos.filter fun i => i.visibleAt snapshot).flatMap fun i =>
    cat.columns.filter fun c => c.partitionId == i.partitionId).mergeSort
      fun a b => decide (a.partitionKeyIndex ≤ b.partitionKeyIndex)

/-- `from_rows`: no rows, no specification. Pruning may use the mapping while the table
has had one generation only. -/
def getPartitionSpec (cat : PartitionCatalog) (snapshot : Nat) : Option PartitionSpec :=
  match cat.specRows snapshot with
  | [] => none
  | row :: rows =>
    some ⟨row.partitionId, (row :: rows).map (·.toPartitionSpecColumn), cat.infos.length == 1⟩

end PartitionCatalog

/-- The partition invariant of a file being committed, against the live generation. -/
def enforcePartitionFence (livePartitionId : Option Nat) (file : PartitionedFile) : Bool :=
  match file.partitionId with
  | some pid => livePartitionId == some pid
  | none => file.rows.isEmpty || livePartitionId.isNone

/-! ## The pre-filter -/

mutual
/-- The constants a condition proves its column equal to one of. An `AND` needs one
child that names such a set, an `OR` needs all. -/
def equalityValues : StatsExpr → Option (List StatsLiteral)
  | .literalWithinBounds literal => some [literal]
  | .and children =>
    let values := equalitySome children
    if values.isEmpty then none else some values
  | .or children =>
    match equalityAll children with
    | some values => if values.isEmpty then none else some values
    | none => none
  | _ => none

def equalitySome : List StatsExpr → List StatsLiteral
  | [] => []
  | e :: es => (equalityValues e).getD [] ++ equalitySome es

def equalityAll : List StatsExpr → Option (List StatsLiteral)
  | [] => some []
  | e :: es =>
    match equalityValues e, equalityAll es with
    | some values, some rest => some (values ++ rest)
    | _, _ => none
end

structure PartitionPrefilter where
  partitionKeyIndex : Nat
  values : List StatsLiteral

/-- The pre-filter on one key, if the key and the predicate allow one. -/
def keyPrefilter (columns : List StatsColumnFilter) (key : PartitionSpecColumn) : Option PartitionPrefilter :=
  if key.transform = .identity then do
    let column ← columns.find? (·.columnId == key.columnId)
    let values ← equalityValues column.condition
    let kind ← column.partitionText
    -- the column's spelling and every constant's must be the same answer
    if values.all (·.partitionMatch == some kind) then some ⟨key.partitionKeyIndex, values⟩ else none
  else none

def withPartitionPrefilters (columns : List StatsColumnFilter) (spec : Option PartitionSpec) :
    List PartitionPrefilter :=
  match spec with
  | none => []
  | some spec => if spec.pruneSafe then spec.columns.filterMap (keyPrefilter columns) else []

/-- The catalog engines. -/
inductive Engine where
  | duckdb | postgres | mysql | sqlite
  deriving DecidableEq, Repr

/-- `-?[0-9]+` of the whole text. -/
def matchesInteger : Text → Bool
  | '-' :: t => !t.isEmpty && t.all Char.isDigit
  | t => !t.isEmpty && t.all Char.isDigit

/-- `CAST(... AS INTEGER)` in SQLite: the longest leading part that is an integer,
spaces before it skipped, clamped to 64 bits. -/
def sqliteInteger (t : Text) : Int :=
  let t := t.dropWhile Char.isWhitespace
  let n : Int := match t with
    | '-' :: t => -(Numeral.value (t.takeWhile Char.isDigit) : Int)
    | '+' :: t => Numeral.value (t.takeWhile Char.isDigit)
    | t => Numeral.value (t.takeWhile Char.isDigit)
  max (-(2 ^ 63)) (min n (2 ^ 63 - 1))

/-- The engine's test that a text is an integer spelled the way the encoder spells it. -/
def Engine.canonicalIntegerText : Engine → Text → Bool
  | .sqlite, t => t == intText (sqliteInteger t)
  | _, t => matchesInteger t && !Like.like '\\' "0_%".toList t && !Like.like '\\' "-0%".toList t

/-- The condition under which a recorded value removes its file. -/
def excludes (engine : Engine) (prefilter : PartitionPrefilter) : Option Text → Bool
  | none => false
  | some t =>
    !(prefilter.values.map (·.text)).contains t &&
      (!(prefilter.values.any fun l => l.partitionMatch == some .canonicalInteger) ||
        engine.canonicalIntegerText t)

/-- No pre-filter finds a recorded value of its key that removes the file. -/
def passesPrefilters (engine : Engine) (prefilters : List PartitionPrefilter)
    (partitionValues : List (Nat × Option Text)) : Bool :=
  (prefilters.filter fun p => !p.values.isEmpty).all fun p =>
    !(partitionValues.any fun v => v.1 == p.partitionKeyIndex && excludes engine p v.2)

end DuckLake.Partition
