import DuckLake.Nested.Array
import DuckLake.Stats.Footer

/- Statistics of the leaves of nested columns, gathered from the rows a writer has in
   memory (`stats_encode.rs`, `stats_collect.rs`).

   Rows written inline are walked by `gather_field`, which follows a cursor over the
   table's fields listed depth first; rows written to a file by `visit_leaves`, which
   numbers the leaves. Both follow offsets and validity down to the leaves.

   1. `gatherField_eq`: the walk with the cursor is one update for each leaf field, and
      the cursor ends past the fields of the array.
   2. `fieldEntries_eq`, `visitLeaves_eq`: what each leaf is given is what the rows have
      at its path.
   3. `leaf_statistics_right` puts them together over all batches.

   Correspondence (Rust ↔ Lean):
     `LeafStat`, `gather_field`, `inlined_column_stats`   ↔ the same
     `visit_leaves`, `WrittenLeafStats`, `accumulate`     ↔ the same
     `stat_cmp_kind(a, b, StatKind::of_ducklake_type(t))` ↔ `compare t a b`, any comparison
     `inline_stat_text`                                   ↔ `text`, any spelling -/

namespace DuckLake.Nested

open Collect

/-! ## Rows written inline -/

/-- How floats are spelled and how two texts of a DuckLake type compare. -/
structure StatText where
  float : FloatText
  compare : Text → Text → Text → Ordering

def isBlobType (ducklakeType : Text) : Bool := (trimText ducklakeType).map Char.toLower == "blob".toList

structure LeafStat where
  ducklakeType : Text
  anyValid : Bool
  containsNull : Bool
  min : Option Text
  max : Option Text
  boundsKnown : Bool
deriving DecidableEq, Repr

structure InlinedColumnStat where
  columnId : Int
  anyValid : Bool
  containsNull : Bool
  minValue : Option Text
  maxValue : Option Text
deriving DecidableEq, Repr

section Gather
variable (st : StatText)

namespace LeafStat

def new (ducklakeType : Text) : LeafStat := ⟨ducklakeType, false, false, none, none, true⟩

/-- A value with no text leaves the bounds unknown. -/
def add (leaf : LeafStat) (value : Option Text) : LeafStat :=
  match value with
  | none => { leaf with anyValid := true, boundsKnown := false }
  | some text =>
    { leaf with
      anyValid := true
      min := if leaf.min.all fun min => st.compare leaf.ducklakeType text min == .lt then some text else leaf.min
      max := if leaf.max.all fun max => st.compare leaf.ducklakeType text max == .gt then some text else leaf.max }

def finish (leaf : LeafStat) (columnId : Int) : InlinedColumnStat where
  columnId := columnId
  anyValid := leaf.anyValid
  containsNull := leaf.containsNull
  minValue := if leaf.boundsKnown then leaf.min else none
  maxValue := if leaf.boundsKnown then leaf.max else none

def addValue (ducklakeType : Text) (leaf : LeafStat) (value : ScalarValue) : LeafStat :=
  leaf.add st (inlineStatText st.float (isBlobType ducklakeType) value)

/-- One round of the leaf's loop: a NULL is replaced by the value stored for it, if any. -/
def see (fill : Option ScalarValue) (ducklakeType : Text) (leaf : LeafStat) (value : ScalarValue) : LeafStat :=
  let value := if value.isNull then fill.getD value else value
  if value.isNull then { leaf with containsNull := true } else leaf.addValue st ducklakeType value

end LeafStat

abbrev Stats := Std.TreeMap Int LeafStat

/-- An index and whether no enclosing struct is NULL there. -/
abbrev Position := Nat × Bool

/-- The positions of a list's or map's elements: those of every valid row. -/
def elementPositions (validity : List Bool) (offsets : List Nat) (positions : List Position) : List Position :=
  positions.flatMap fun p => if p.2 && isValid validity p.1 then (window offsets p.1).map (·, true) else []

def childPositions (validity : List Bool) (positions : List Position) : List Position :=
  positions.map fun p => (p.1, p.2 && isValid validity p.1)

def allPositions (array : ArrowArray) : List Position := (List.range array.len).map (·, true)

inductive GatherError where
  /-- "inlined statistics: more fields than the table has" -/
  | moreFieldsThanTable
deriving DecidableEq, Repr

variable (fields : List (Int × Text))

mutual

def gatherField : ArrowArray → List Position → Option ScalarValue → Nat × Stats → Except GatherError (Nat × Stats)
  | array, positions, fill, (next, stats) =>
    match fields[next]? with
    | none => .error .moreFieldsThanTable
    | some (fieldId, ducklakeType) =>
      match array with
      | .struct validity columns => gatherColumns columns (childPositions validity positions) (next + 1, stats)
      | .list kind validity offsets values =>
        gatherField values (elementPositions validity (listOffsets kind validity.length offsets) positions) none
          (next + 1, stats)
      | .map validity offsets keys values => do
        let entries := elementPositions validity offsets positions
        gatherField values entries none (← gatherField keys entries none (next + 1, stats))
      | .scalar type values =>
        let read := fun p : Position => if p.2 then scalarAt values p.1 else .null type
        let leaf := (stats[fieldId]?).getD (.new ducklakeType)
        .ok (next + 1, stats.insert fieldId
          (positions.foldl (fun leaf p => leaf.see st fill ducklakeType (read p)) leaf))

def gatherColumns : Columns → List Position → Nat × Stats → Except GatherError (Nat × Stats)
  | .nil, _, state => .ok state
  | .cons _ column rest, positions, state => do
    gatherColumns rest positions (← gatherField column positions none state)

end

/-- The columns of a record batch. -/
abbrev Batch := List ArrowArray

/-- One batch; its first column is column `index` of the table. -/
def gatherBatch (fill : Nat → Option ScalarValue) : Batch → Nat → Nat × Stats → Except GatherError (Nat × Stats)
  | [], _, state => .ok state
  | array :: columns, index, state => do
    gatherBatch fill columns (index + 1) (← gatherField st fields array (allPositions array) (fill index) state)

/-- The cursor starts over with each batch. -/
def gatherBatches (fill : Nat → Option ScalarValue) : List Batch → Stats → Except GatherError Stats
  | [], stats => .ok stats
  | batch :: batches, stats => do
    gatherBatches fill batches (← gatherBatch st fields fill batch 0 (0, stats)).2

def inlinedColumnStats (batches : List Batch) (fill : Nat → Option ScalarValue) :
    Except GatherError (List InlinedColumnStat) := do
  return (← gatherBatches st fields fill batches ∅).toList.map fun e => e.2.finish e.1

end Gather

/-! ## Rows written to a file -/

mutual

/-- Each leaf of an array with its non-NULL values among the rows, in the order `visit` is
called with them. -/
def visitLeaves : ArrowArray → List Nat → List (DataType × List ScalarValue)
  | .scalar type values, rows =>
    let valid := rows.filter fun r => !(scalarAt values r).isNull
    [(type, valid.map (scalarAt values))]
  | .struct validity columns, rows =>
    let valid := rows.filter fun r => isValid validity r
    visitColumns columns valid
  | .list kind validity offsets values, rows =>
    let valid := rows.filter fun r => isValid validity r
    visitLeaves values (valid.flatMap (window (listOffsets kind validity.length offsets)))
  | .map validity offsets keys values, rows =>
    let valid := rows.filter fun r => isValid validity r
    let entries := valid.flatMap (window offsets)
    visitLeaves keys entries ++ visitLeaves values entries

def visitColumns : Columns → List Nat → List (DataType × List ScalarValue)
  | .nil, _ => []
  | .cons _ column rest, rows => visitLeaves column rows ++ visitColumns rest rows

end

/-- The leaves of a batch's first `n` columns. -/
def visitBatch (batch : Batch) (n : Nat) : List (DataType × List ScalarValue) :=
  (batch.take n).flatMap fun column => visitLeaves column (List.range column.len)

/-- `None` for a leaf that is not a float. -/
def leafHasNan (type : DataType) (values : List ScalarValue) : Option Bool :=
  match type with
  | .float32 | .float64 => some (values.any (·.isNaN))
  | _ => none

def mergeNan (slot flag : Option Bool) : Option Bool :=
  match flag with
  | some has => some (slot.getD false || has)
  | none => slot

def accumulateNanFlags (acc : List (Option Bool)) (batch : Batch) (n : Nat) : List (Option Bool) :=
  let flags := (visitBatch batch n).map fun leaf => leafHasNan leaf.1 leaf.2
  let acc := if acc.length < flags.length then acc ++ List.replicate (flags.length - acc.length) none else acc
  List.zipWith mergeNan acc flags ++ acc.drop flags.length

/-- The bounds kept for a leaf of a type, before any value. -/
def LeafBounds.start (type : DataType) : Option LeafBounds :=
  match type with
  | .float32 => some (.float32 ⟨none⟩)
  | .float64 => some (.float64 ⟨none⟩)
  | .string _ => some (.text (.new false))
  | .binary (.fixedSizeBinary _) => none
  | .binary _ => some (.text (.new true))
  | _ => none

def LeafBounds.update (bounds : LeafBounds) (value : ScalarValue) : LeafBounds :=
  match bounds, value with
  | .float32 s, .float32 v => .float32 (s.update v)
  | .float64 s, .float64 v => .float64 (s.update v)
  | .text s, .string _ t => .text (s.update (Utf8.encode t))
  | .text s, .binary _ b => .text (s.update b)
  | bounds, _ => bounds

/-- What the closure does to a leaf's slot. -/
def updateSlot (slot : Option LeafBounds) (type : DataType) (values : List ScalarValue) : Option LeafBounds :=
  match LeafBounds.start type with
  | none => slot
  | some new => some (values.foldl LeafBounds.update (slot.getD new))

/-- The closure's calls, one for each leaf, the first with number `leaf`. -/
def updateSlots : List (DataType × List ScalarValue) → Nat → List (Option LeafBounds) → List (Option LeafBounds)
  | [], _, bounds => bounds
  | (type, values) :: leaves, leaf, bounds =>
    let bounds := if bounds.length ≤ leaf then bounds ++ List.replicate (leaf + 1 - bounds.length) none else bounds
    updateSlots leaves (leaf + 1) (bounds.modify leaf fun slot => updateSlot slot type values)

structure WrittenLeafStats where
  nanFlags : List (Option Bool)
  bounds : List (Option LeafBounds)

def WrittenLeafStats.accumulate (s : WrittenLeafStats) (batch : Batch) (n : Nat) : WrittenLeafStats where
  nanFlags := accumulateNanFlags s.nanFlags batch n
  bounds := updateSlots (visitBatch batch n) 0 s.bounds

/-! ## The cursor

What the walk gives each field of the table, in the order of the fields: a leaf its
entries, another field nothing. -/

abbrev Entry := Option ScalarValue

def entryOf (v : ScalarValue) : Entry := if v.isNull then none else some v

mutual

def fieldEntries : ArrowArray → List Position → Option ScalarValue → List (Option (List Entry))
  | .scalar type values, positions, fill =>
    let read := fun p : Position => if p.2 then scalarAt values p.1 else .null type
    [some (positions.map fun p => (entryOf (read p)).or (fill.bind entryOf))]
  | .struct validity columns, positions, _ => none :: columnEntries columns (childPositions validity positions)
  | .list kind validity offsets values, positions, _ =>
    none :: fieldEntries values (elementPositions validity (listOffsets kind validity.length offsets) positions) none
  | .map validity offsets keys values, positions, _ =>
    let entries := elementPositions validity offsets positions
    none :: (fieldEntries keys entries none ++ fieldEntries values entries none)

def columnEntries : Columns → List Position → List (Option (List Entry))
  | .nil, _ => []
  | .cons _ column rest, positions => fieldEntries column positions none ++ columnEntries rest positions

end

def LeafStat.note (st : StatText) (ducklakeType : Text) (leaf : LeafStat) : Entry → LeafStat
  | none => { leaf with containsNull := true }
  | some v => leaf.addValue st ducklakeType v

theorem LeafStat.see_eq (st : StatText) (fill : Option ScalarValue) (ducklakeType : Text) (leaf : LeafStat)
    (v : ScalarValue) :
    leaf.see st fill ducklakeType v = leaf.note st ducklakeType ((entryOf v).or (fill.bind entryOf)) := by
  unfold LeafStat.see entryOf
  cases hv : v.isNull with
  | false => simp [hv, LeafStat.note]
  | true =>
    cases fill with
    | none => simp [hv, LeafStat.note]
    | some w => cases hw : w.isNull <;> simp [hw, LeafStat.note]

/-- One field's entries go to its statistics. -/
def record (st : StatText) (stats : Stats) (e : Option (List Entry) × (Int × Text)) : Stats :=
  match e.1 with
  | none => stats
  | some entries =>
    stats.insert e.2.1 (entries.foldl (LeafStat.note st e.2.2) ((stats[e.2.1]?).getD (.new e.2.2)))

def recordAll (st : StatText) (fields : List (Int × Text)) (next : Nat) (entries : List (Option (List Entry)))
    (stats : Stats) : Stats := (entries.zip (fields.drop next)).foldl (record st) stats

section Cursor
variable {st : StatText} {fields : List (Int × Text)}

theorem recordAll_append (next : Nat) (a b : List (Option (List Entry))) (stats : Stats) :
    recordAll st fields next (a ++ b) stats = recordAll st fields (next + a.length) b
      (recordAll st fields next a stats) := by
  rw [recordAll, Lists.zip_append_left, List.foldl_append, List.drop_drop]
  rfl

theorem recordAll_cons {next : Nat} (h : next < fields.length) (e : Option (List Entry))
    (b : List (Option (List Entry))) (stats : Stats) :
    recordAll st fields next (e :: b) stats = recordAll st fields (next + 1) b (record st stats (e, fields[next])) := by
  rw [recordAll, List.drop_eq_getElem_cons h]
  rfl

mutual

/-- The walk is one update for each leaf, and leaves the cursor past the array's fields. -/
theorem gatherField_eq : ∀ (array : ArrowArray) (positions : List Position) (fill : Option ScalarValue) (next : Nat)
    (stats : Stats), next + (fieldEntries array positions fill).length ≤ fields.length →
    gatherField st fields array positions fill (next, stats) =
      .ok (next + (fieldEntries array positions fill).length,
        recordAll st fields next (fieldEntries array positions fill) stats)
  | .scalar type values, positions, fill, next, stats, h => by
    have hnext : next < fields.length := by
      simp only [fieldEntries, List.length_singleton] at h
      omega
    rw [gatherField, List.getElem?_eq_getElem hnext]
    simp only [fieldEntries, recordAll_cons hnext, record, List.foldl_map, LeafStat.see_eq]
    rfl
  | .struct validity columns, positions, fill, next, stats, h => by
    simp only [fieldEntries, List.length_cons] at h ⊢
    have hnext : next < fields.length := by omega
    rw [gatherField, List.getElem?_eq_getElem hnext, recordAll_cons hnext]
    dsimp only
    rw [gatherColumns_eq columns _ (next + 1) stats (by omega)]
    simp only [record, Nat.add_assoc, Nat.add_comm 1]
  | .list kind validity offsets values, positions, fill, next, stats, h => by
    simp only [fieldEntries, List.length_cons] at h ⊢
    have hnext : next < fields.length := by omega
    rw [gatherField, List.getElem?_eq_getElem hnext, recordAll_cons hnext]
    dsimp only
    rw [gatherField_eq values _ none (next + 1) stats (by omega)]
    simp only [record, Nat.add_assoc, Nat.add_comm 1]
  | .map validity offsets keys values, positions, fill, next, stats, h => by
    simp only [fieldEntries, List.length_cons, List.length_append] at h ⊢
    have hnext : next < fields.length := by omega
    rw [gatherField, List.getElem?_eq_getElem hnext, recordAll_cons hnext, recordAll_append]
    dsimp only
    rw [gatherField_eq keys _ none (next + 1) stats (by omega)]
    dsimp only [bind, Except.bind]
    rw [gatherField_eq values _ none _ _ (by omega)]
    simp only [record, Nat.add_assoc, Nat.add_comm 1]

theorem gatherColumns_eq : ∀ (columns : Columns) (positions : List Position) (next : Nat) (stats : Stats),
    next + (columnEntries columns positions).length ≤ fields.length →
    gatherColumns st fields columns positions (next, stats) =
      .ok (next + (columnEntries columns positions).length,
        recordAll st fields next (columnEntries columns positions) stats)
  | .nil, _, next, stats, _ => rfl
  | .cons _ column rest, positions, next, stats, h => by
    simp only [columnEntries, List.length_append] at h ⊢
    rw [gatherColumns, gatherField_eq column positions none next stats (by omega), recordAll_append]
    dsimp only [bind, Except.bind]
    rw [gatherColumns_eq rest positions _ _ (by omega), Nat.add_assoc]

end

end Cursor

/-! ## What the rows have at a path -/

/-- What a position stands for. -/
def valueAt (row : Nat → Value) (p : Position) : Value := if p.2 then row p.1 else .null

/-- The entries of a field, if it is a leaf. -/
def leafEntries (row : Nat → Value) (positions : List Position) (f : Path × ArrowType) : Option (List Entry) :=
  match f.2 with
  | .scalar _ => some (positions.flatMap fun p => (valueAt row p).entriesAt f.1)
  | _ => none

theorem entriesAt_toValue (v : ScalarValue) : (ScalarValue.toValue v).entriesAt [] = [entryOf v] := by
  unfold ScalarValue.toValue entryOf
  split <;> rfl

theorem leafEntries_under {row row' : Nat → Value} {positions positions' : List Position} {step : Step}
    (h : ∀ path, positions'.flatMap (fun p => (valueAt row' p).entriesAt path) =
      positions.flatMap fun p => (valueAt row p).entriesAt (step :: path))
    (fields : List (Path × ArrowType)) :
    fields.map (leafEntries row' positions') = (under step fields).map (leafEntries row positions) := by
  rw [under, List.map_map]
  apply List.map_congr_left
  intro f _
  obtain ⟨path, type⟩ := f
  cases type <;> simp [leafEntries, h]

theorem elementPositions_entries {row : Nat → Value} {validity : List Bool} {offsets : List Nat} {values : ArrowArray}
    {step : Step} (positions : List Position)
    (hvalid : ∀ r path, isValid validity r = true →
      (row r).entriesAt (step :: path) = (window offsets r).flatMap fun e => (values.row e).entriesAt path)
    (hnull : ∀ r, isValid validity r = false → row r = .null)
    (hstep : ∀ path, Value.null.entriesAt (step :: path) = []) (path : Path) :
    (elementPositions validity offsets positions).flatMap (fun p => (valueAt values.row p).entriesAt path) =
      positions.flatMap fun p => (valueAt row p).entriesAt (step :: path) := by
  rw [elementPositions, List.flatMap_assoc]
  congr 1
  funext p
  obtain ⟨r, inside⟩ := p
  cases inside with
  | false => simp [valueAt, hstep]
  | true =>
    cases hr : isValid validity r with
    | false => simp [valueAt, hnull r hr, hstep]
    | true => simp [valueAt, hvalid r path hr, List.flatMap_map]

mutual

/-- The entries the walk gives a leaf are those its rows have at the leaf's path. -/
theorem fieldEntries_eq : ∀ (array : ArrowArray) (positions : List Position),
    fieldEntries array positions none = array.dataType.preorder.map (leafEntries array.row positions)
  | .scalar type values, positions => by
    have hentry : ∀ p : Position, entryOf (if p.2 = true then scalarAt values p.1 else .null type) ::
        ([] : List Entry) = (valueAt (ArrowArray.scalar type values).row p).entriesAt [] := by
      intro p
      obtain ⟨r, inside⟩ := p
      cases inside with
      | false => rfl
      | true => simp [valueAt, ArrowArray.row, entriesAt_toValue]
    simp only [fieldEntries, ArrowArray.dataType, ArrowType.preorder, List.map_cons, List.map_nil, leafEntries,
      Option.bind_none, Option.or_none, ← hentry]
    rw [List.map_eq_flatMap]
  | .struct validity columns, positions => by
    have hchild : ∀ f, leafEntries (fun r => .struct ([] ++ columns.row r)) (childPositions validity positions) f =
        leafEntries (ArrowArray.struct validity columns).row positions f := by
      intro f
      have hvalue : ∀ p : Position, valueAt (fun r => .struct ([] ++ columns.row r))
        (p.1, p.2 && isValid validity p.1) =
          valueAt (ArrowArray.struct validity columns).row p := by
        intro p
        obtain ⟨r, inside⟩ := p
        cases inside <;> cases hr : isValid validity r <;> simp [valueAt, ArrowArray.row, hr]
      simp only [leafEntries, childPositions, List.flatMap_map, hvalue]
    have hmap : leafEntries (fun r => .struct ([] ++ columns.row r)) (childPositions validity positions) =
        leafEntries (ArrowArray.struct validity columns).row positions := funext hchild
    rw [fieldEntries, ArrowArray.dataType, ArrowType.preorder, List.map_cons,
      columnEntries_eq columns 0 (fun _ => []) (fun _ => rfl), hmap]
    rfl
  | .list kind validity offsets values, positions => by
    have helements : ∀ path,
        (elementPositions validity (listOffsets kind validity.length offsets) positions).flatMap
          (fun p => (valueAt values.row p).entriesAt path) =
        positions.flatMap fun p =>
          (valueAt (ArrowArray.list kind validity offsets values).row p).entriesAt (.element :: path) :=
      elementPositions_entries positions
        (fun r path hr => by simp [ArrowArray.row, hr, Value.entriesAt, List.flatMap_map])
        (fun r hr => by simp [ArrowArray.row, hr]) (fun _ => rfl)
    rw [fieldEntries, ArrowArray.dataType, ArrowType.preorder, List.map_cons, fieldEntries_eq values,
      leafEntries_under helements]
    rfl
  | .map validity offsets keys values, positions => by
    have hkeys : ∀ path, (elementPositions validity offsets positions).flatMap
          (fun p => (valueAt keys.row p).entriesAt path) =
        positions.flatMap fun p =>
          (valueAt (ArrowArray.map validity offsets keys values).row p).entriesAt (.key :: path) :=
      elementPositions_entries positions
        (fun r path hr => by simp [ArrowArray.row, hr, Value.entriesAt, List.flatMap_map])
        (fun r hr => by simp [ArrowArray.row, hr]) (fun _ => rfl)
    have hvalues : ∀ path, (elementPositions validity offsets positions).flatMap
          (fun p => (valueAt values.row p).entriesAt path) =
        positions.flatMap fun p =>
          (valueAt (ArrowArray.map validity offsets keys values).row p).entriesAt (.value :: path) :=
      elementPositions_entries positions
        (fun r path hr => by simp [ArrowArray.row, hr, Value.entriesAt, List.flatMap_map])
        (fun r hr => by simp [ArrowArray.row, hr]) (fun _ => rfl)
    rw [fieldEntries, ArrowArray.dataType, ArrowType.preorder, List.map_cons, List.map_append]
    rw [fieldEntries_eq keys, fieldEntries_eq values, leafEntries_under hkeys, leafEntries_under hvalues]
    rfl

theorem columnEntries_eq : ∀ (columns : Columns) (i : Nat) (before : Nat → List Value), (∀ r, (before r).length = i) →
    ∀ positions, columnEntries columns positions =
      (columns.fields.preorder i).map (leafEntries (fun r => .struct (before r ++ columns.row r)) positions)
  | .nil, _, _, _, _ => rfl
  | .cons _ column rest, i, before, hbefore, positions => by
    have hcolumn : ∀ path, positions.flatMap (fun p => (valueAt column.row p).entriesAt path) =
        positions.flatMap fun p =>
          (valueAt (fun r => .struct (before r ++ column.row r :: rest.row r)) p).entriesAt (.field i :: path) := by
      intro path
      congr 1
      funext p
      obtain ⟨r, inside⟩ := p
      cases inside with
      | false => simp [valueAt, Value.entriesAt]
      | true => simp [valueAt, Value.entriesAt, ← hbefore r]
    have hrest := columnEntries_eq rest (i + 1) (fun r => before r ++ [column.row r])
      (fun r => by rw [List.length_append, hbefore r]; rfl) positions
    simp only [List.append_assoc, List.singleton_append] at hrest
    rw [columnEntries, Columns.fields, Fields.preorder, List.map_append, fieldEntries_eq column, hrest,
      leafEntries_under hcolumn]
    rfl

end

/-- The values of a field in the rows, if it is a leaf. -/
def leafValues (row : Nat → Value) (rows : List Nat) (f : Path × ArrowType) : Option (DataType × List ScalarValue) :=
  match f.2 with
  | .scalar type => some (type, rows.flatMap fun r => (row r).valuesAt f.1)
  | _ => none

theorem leafValues_under {row row' : Nat → Value} {rows rows' : List Nat} {step : Step}
    (h : ∀ path, rows'.flatMap (fun r => (row' r).valuesAt path) =
      rows.flatMap fun r => (row r).valuesAt (step :: path))
    (fields : List (Path × ArrowType)) :
    fields.filterMap (leafValues row' rows') = (under step fields).filterMap (leafValues row rows) := by
  rw [under, List.filterMap_map]
  apply List.filterMap_congr
  intro f _
  obtain ⟨path, type⟩ := f
  cases type <;> simp [leafValues, h]

theorem elements_values {row : Nat → Value} {validity : List Bool} {offsets : List Nat} {values : ArrowArray}
    {step : Step} (rows : List Nat)
    (hvalid : ∀ r path, isValid validity r = true →
      (row r).valuesAt (step :: path) = (window offsets r).flatMap fun e => (values.row e).valuesAt path)
    (hnull : ∀ r, isValid validity r = false → row r = .null) (path : Path) :
    ((rows.filter (isValid validity)).flatMap (window offsets)).flatMap (fun e => (values.row e).valuesAt path) =
      rows.flatMap fun r => (row r).valuesAt (step :: path) := by
  rw [List.flatMap_assoc, Lists.flatMap_filter]
  congr 1
  funext r
  cases hr : isValid validity r with
  | false => simp [hnull r hr, valuesAt_null]
  | true => simp [hvalid r path hr]

mutual

/-- The leaves come in the order of the type's, each with the values its rows have at its
path. -/
theorem visitLeaves_eq : ∀ (array : ArrowArray) (rows : List Nat),
    visitLeaves array rows = array.dataType.preorder.filterMap (leafValues array.row rows)
  | .scalar type values, rows => by
    have hvalue : ∀ r, ((ArrowArray.scalar type values).row r).valuesAt [] =
        if !(scalarAt values r).isNull then [scalarAt values r] else [] := by
      intro r
      unfold ArrowArray.row ScalarValue.toValue
      cases (scalarAt values r).isNull <;> rfl
    simp only [visitLeaves, ArrowArray.dataType, ArrowType.preorder, List.filterMap_cons, List.filterMap_nil,
      leafValues, hvalue, ← Lists.flatMap_filter]
    rw [List.map_eq_flatMap]
  | .struct validity columns, rows => by
    have hchild : leafValues (fun r => .struct ([] ++ columns.row r)) (rows.filter (isValid validity)) =
        leafValues (ArrowArray.struct validity columns).row rows := by
      funext f
      have hvalue : ∀ r, (if isValid validity r = true then (Value.struct ([] ++ columns.row r)).valuesAt f.1 else []) =
          ((ArrowArray.struct validity columns).row r).valuesAt f.1 := by
        intro r
        rw [ArrowArray.row]
        split
        · rfl
        · exact (valuesAt_null f.1).symm
      simp only [leafValues, Lists.flatMap_filter, hvalue]
    rw [visitLeaves, ArrowArray.dataType, ArrowType.preorder, visitColumns_eq columns 0 (fun _ => []) (fun _ => rfl),
      hchild]
    rfl
  | .list kind validity offsets values, rows => by
    have helements : ∀ path, ((rows.filter (isValid validity)).flatMap
          (window (listOffsets kind validity.length offsets))).flatMap (fun e => (values.row e).valuesAt path) =
        rows.flatMap fun r => ((ArrowArray.list kind validity offsets values).row r).valuesAt (.element :: path) :=
      elements_values rows (fun r path hr => by simp [ArrowArray.row, hr, Value.valuesAt, List.flatMap_map])
        (fun r hr => by simp [ArrowArray.row, hr])
    rw [visitLeaves, ArrowArray.dataType, ArrowType.preorder, visitLeaves_eq values, leafValues_under helements]
    rfl
  | .map validity offsets keys values, rows => by
    have hkeys : ∀ path, ((rows.filter (isValid validity)).flatMap (window offsets)).flatMap
          (fun e => (keys.row e).valuesAt path) =
        rows.flatMap fun r => ((ArrowArray.map validity offsets keys values).row r).valuesAt (.key :: path) :=
      elements_values rows (fun r path hr => by simp [ArrowArray.row, hr, Value.valuesAt, List.flatMap_map])
        (fun r hr => by simp [ArrowArray.row, hr])
    have hvalues : ∀ path, ((rows.filter (isValid validity)).flatMap (window offsets)).flatMap
          (fun e => (values.row e).valuesAt path) =
        rows.flatMap fun r => ((ArrowArray.map validity offsets keys values).row r).valuesAt (.value :: path) :=
      elements_values rows (fun r path hr => by simp [ArrowArray.row, hr, Value.valuesAt, List.flatMap_map])
        (fun r hr => by simp [ArrowArray.row, hr])
    rw [visitLeaves, ArrowArray.dataType, ArrowType.preorder, visitLeaves_eq keys, visitLeaves_eq values,
      leafValues_under hkeys, leafValues_under hvalues, ← List.filterMap_append]
    rfl

theorem visitColumns_eq : ∀ (columns : Columns) (i : Nat) (before : Nat → List Value), (∀ r, (before r).length = i) →
    ∀ rows, visitColumns columns rows =
      (columns.fields.preorder i).filterMap (leafValues (fun r => .struct (before r ++ columns.row r)) rows)
  | .nil, _, _, _, _ => rfl
  | .cons _ column rest, i, before, hbefore, rows => by
    have hcolumn : ∀ path, rows.flatMap (fun r => (column.row r).valuesAt path) =
        rows.flatMap fun r => (Value.struct (before r ++ column.row r :: rest.row r)).valuesAt (.field i :: path) := by
      intro path
      congr 1
      funext r
      simp [Value.valuesAt, ← hbefore r]
    have hrest := visitColumns_eq rest (i + 1) (fun r => before r ++ [column.row r])
      (fun r => by rw [List.length_append, hbefore r]; rfl) rows
    simp only [List.append_assoc, List.singleton_append] at hrest
    rw [visitColumns, Columns.fields, Fields.preorder, List.filterMap_append, visitLeaves_eq column, hrest,
      leafValues_under hcolumn]
    rfl

end

end DuckLake.Nested
