import DuckLake.Nested.Statistics
import Mathlib.Data.Set.List

/- What the statistics of all batches are about: each leaf field of the table has seen
   exactly the values its rows have at its path.

   1. Inline, a batch is one update of each leaf's statistics, kept under its field id
      (`gatherBatch_leaves`); over the batches these add up (`inlinedColumnStats_eq`).
   2. In a file the leaves are numbered, and each slot is filled by its leaf alone
      (`accumulateNanFlags_eq`, `updateSlots_eq`, `written_eq`).
   3. The bounds of a slot are what `Collect.Footer.Sound` asks of a writer
      (`Leaf.bounds_saw`). -/

namespace DuckLake.Nested

open Collect

/-! ## The fields of a table -/

structure SchemaField where
  column : Nat
  path : Path
  type : ArrowType

/-- `catalog_column_defs`: every column, then the fields below it; the first is column `i`. -/
def schemaFields : List ArrowType → Nat → List SchemaField
  | [], _ => []
  | type :: types, i => type.preorder.map (fun f => ⟨i, f.1, f.2⟩) ++ schemaFields types (i + 1)

/-- A leaf field with its catalog id. -/
structure Leaf where
  fieldId : Int
  ducklakeType : Text
  column : Nat
  path : Path
  type : DataType

def tableLeaf (f : SchemaField × (Int × Text)) : Option Leaf :=
  match f.1.type with
  | .scalar type => some ⟨f.2.1, f.2.2, f.1.column, f.1.path, type⟩
  | _ => none

/-- The leaves of the table, in the order of its fields, which is Parquet's leaf order. -/
def tableLeaves (types : List ArrowType) (fields : List (Int × Text)) : List Leaf :=
  ((schemaFields types 0).zip fields).filterMap tableLeaf

/-! ## The rows of a batch -/

def Batch.rows (batch : Batch) (column : Nat) : List Value := (batch[column]?.map (·.rows)).getD []

/-- The value stored for a NULL of a scalar column. -/
def Value.fillNull (fill : Option ScalarValue) (v : Value) : Value :=
  if v.isNull then (fill.map ScalarValue.toValue).getD .null else v

def ArrowArray.storedRows (array : ArrowArray) (fill : Option ScalarValue) : List Value :=
  match array with
  | .scalar _ _ => array.rows.map (Value.fillNull fill)
  | _ => array.rows

/-- A column's rows as they are stored. -/
def Batch.storedRows (batch : Batch) (fill : Nat → Option ScalarValue) (column : Nat) : List Value :=
  (batch[column]?.map (·.storedRows (fill column))).getD []

/-- The entries of a field in a column's rows, if it is a leaf. -/
def rowEntries (rows : List Value) (f : Path × ArrowType) : Option (List Entry) :=
  match f.2 with
  | .scalar _ => some (rows.flatMap (·.entriesAt f.1))
  | _ => none

theorem leafEntries_all (array : ArrowArray) (f : Path × ArrowType) :
    leafEntries array.row (allPositions array) f = rowEntries array.rows f := by
  obtain ⟨path, type⟩ := f
  cases type <;> simp only [leafEntries, rowEntries, allPositions, ArrowArray.rows, List.flatMap_map, valueAt, if_true]

theorem entriesAt_fillNull (fill : Option ScalarValue) (v : ScalarValue) :
    (Value.fillNull fill (ScalarValue.toValue v)).entriesAt [] = [(entryOf v).or (fill.bind entryOf)] := by
  cases hv : v.isNull with
  | false => simp [Value.fillNull, ScalarValue.toValue, hv, Value.isNull, Value.entriesAt, entryOf]
  | true =>
    cases fill with
    | none => simp [Value.fillNull, ScalarValue.toValue, hv, Value.isNull, Value.entriesAt, entryOf]
    | some w =>
      have hw : (ScalarValue.toValue w).entriesAt [] = [entryOf w] := entriesAt_toValue w
      simpa [Value.fillNull, ScalarValue.toValue, hv, Value.isNull, entryOf] using hw

theorem fieldEntries_stored (array : ArrowArray) (fill : Option ScalarValue) :
    fieldEntries array (allPositions array) fill =
      array.dataType.preorder.map (rowEntries (array.storedRows fill)) := by
  cases array with
  | scalar type values =>
    simp only [fieldEntries, allPositions, ArrowArray.dataType, ArrowType.preorder, List.map_cons, List.map_nil,
      rowEntries, ArrowArray.storedRows, ArrowArray.rows, ArrowArray.row, List.map_map, List.flatMap_map, if_true,
      Function.comp_def, entriesAt_fillNull]
    rw [List.map_eq_flatMap]
  | struct validity columns =>
    have h := fieldEntries_eq (.struct validity columns) (allPositions (.struct validity columns))
    rw [funext (leafEntries_all _)] at h
    exact h
  | list kind validity offsets values =>
    have h := fieldEntries_eq (.list kind validity offsets values) (allPositions (.list kind validity offsets values))
    rw [funext (leafEntries_all _)] at h
    exact h
  | map validity offsets keys values =>
    have h := fieldEntries_eq (.map validity offsets keys values) (allPositions (.map validity offsets keys values))
    rw [funext (leafEntries_all _)] at h
    exact h

/-! ## One batch written inline -/

section Inlined
variable {st : StatText} {fields : List (Int × Text)} {fill : Nat → Option ScalarValue}

def schemaEntries (batch : Batch) (fill : Nat → Option ScalarValue) (f : SchemaField) : Option (List Entry) :=
  rowEntries (batch.storedRows fill f.column) (f.path, f.type)

theorem gatherBatch_eq (columns before : Batch) (next : Nat) (stats : Stats)
    (h : next + (schemaFields (columns.map (·.dataType)) before.length).length ≤ fields.length) :
    gatherBatch st fields fill columns before.length (next, stats) =
      .ok (next + (schemaFields (columns.map (·.dataType)) before.length).length,
        recordAll st fields next
          ((schemaFields (columns.map (·.dataType)) before.length).map (schemaEntries (before ++ columns) fill))
          stats) := by
  induction columns generalizing before next stats with
  | nil => rfl
  | cons array columns ih =>
    have hrest := ih (before ++ [array])
    simp only [List.length_append, List.length_singleton, List.append_assoc, List.singleton_append] at hrest
    have hentries : fieldEntries array (allPositions array) (fill before.length) =
        (array.dataType.preorder.map (fun f => (⟨before.length, f.1, f.2⟩ : SchemaField))).map
          (schemaEntries (before ++ array :: columns) fill) := by
      rw [fieldEntries_stored, List.map_map]
      apply List.map_congr_left
      intro f _
      simp [schemaEntries, Batch.storedRows]
    simp only [List.map_cons, schemaFields, List.length_append, List.length_map, List.map_append] at h ⊢
    have hlength : (fieldEntries array (allPositions array) (fill before.length)).length =
        array.dataType.preorder.length := by
      rw [fieldEntries_stored, List.length_map]
    rw [gatherBatch, gatherField_eq array _ _ next stats (by omega)]
    dsimp only [bind, Except.bind]
    rw [hrest _ _ (by omega), recordAll_append, ← hentries, hlength, Nat.add_assoc]

theorem foldl_zip_record (entries : SchemaField → Option (List Entry)) (g : Leaf → List Entry)
    (hleaf : ∀ f field, entries f = (tableLeaf (f, field)).map g) (schema : List SchemaField) (stats : Stats) :
    ((schema.map entries).zip fields).foldl (record st) stats = ((schema.zip fields).filterMap tableLeaf).foldl
      (fun stats leaf => stats.insert leaf.fieldId
        ((g leaf).foldl (LeafStat.note st leaf.ducklakeType) ((stats[leaf.fieldId]?).getD (.new leaf.ducklakeType))))
      stats := by
  rw [List.zip_map_left, List.foldl_map, List.foldl_filterMap]
  congr 1
  funext stats f
  obtain ⟨⟨column, path, type⟩, field⟩ := f
  have h := hleaf ⟨column, path, type⟩ field
  cases type <;> simp only [tableLeaf, Option.map_some, Option.map_none] at h <;>
    simp only [record, Prod.map, h, tableLeaf, id_eq]

/-- The entries of a leaf in a batch. -/
def Leaf.entries (leaf : Leaf) (batch : Batch) (fill : Nat → Option ScalarValue) : List Entry :=
  (batch.storedRows fill leaf.column).flatMap (·.entriesAt leaf.path)

/-- A leaf's statistics with the entries of one more batch. -/
def Leaf.gather (st : StatText) (leaf : Leaf) (entries : List Entry) (stats : Option LeafStat) : LeafStat :=
  entries.foldl (LeafStat.note st leaf.ducklakeType) (stats.getD (.new leaf.ducklakeType))

def gatherLeaves (st : StatText) (entries : Leaf → List Entry) (leaves : List Leaf) (stats : Stats) : Stats :=
  leaves.foldl (fun stats leaf => stats.insert leaf.fieldId (leaf.gather st (entries leaf) stats[leaf.fieldId]?)) stats

theorem gatherBatch_leaves {types : List ArrowType} (hfields : fields.length = (schemaFields types 0).length)
    {batch : Batch} (hbatch : batch.map (·.dataType) = types) (stats : Stats) :
    gatherBatch st fields fill batch 0 (0, stats) =
      .ok (fields.length, gatherLeaves st (·.entries batch fill) (tableLeaves types fields) stats) := by
  subst hbatch
  have hroom : 0 + (schemaFields (batch.map (·.dataType)) ([] : Batch).length).length ≤ fields.length := by
    rw [hfields, Nat.zero_add]
    exact Nat.le_refl _
  have h : gatherBatch st fields fill batch 0 (0, stats) = _ := gatherBatch_eq batch [] 0 stats hroom
  rw [Nat.zero_add, recordAll, List.drop_zero, List.nil_append,
    foldl_zip_record (schemaEntries batch fill) (·.entries batch fill)] at h
  · rw [hfields]
    exact h
  · intro f field
    obtain ⟨column, path, type⟩ := f
    cases type <;> rfl

/-- Each leaf's statistics take its own entries, and no others change. -/
def GathersLeaves (st : StatText) (entries : Leaf → List Entry) (leaves : List Leaf) (stats : Stats) : Prop :=
  (∀ leaf ∈ leaves, (gatherLeaves st entries leaves stats)[leaf.fieldId]? =
    some (leaf.gather st (entries leaf) stats[leaf.fieldId]?)) ∧
  ∀ id, id ∉ leaves.map (·.fieldId) → (gatherLeaves st entries leaves stats)[id]? = stats[id]?

theorem getElem?_gatherLeaves {entries : Leaf → List Entry} {leaves : List Leaf}
    (hids : (leaves.map (·.fieldId)).Nodup) (stats : Stats) : GathersLeaves st entries leaves stats := by
  induction leaves generalizing stats with
  | nil => exact ⟨(fun _ h => nomatch h), fun _ _ => rfl⟩
  | cons first leaves ih =>
    rw [List.map_cons, List.nodup_cons] at hids
    obtain ⟨hrest, hother⟩ := ih hids.2
      (stats.insert first.fieldId (first.gather st (entries first) stats[first.fieldId]?))
    refine ⟨?_, ?_⟩
    · intro leaf hleaf
      rcases List.mem_cons.mp hleaf with rfl | hleaf
      · have h := hother leaf.fieldId hids.1
        rw [Std.TreeMap.getElem?_insert_self] at h
        exact h
      · have hne : first.fieldId ≠ leaf.fieldId := by
          intro heq
          exact hids.1 (heq ▸ List.mem_map_of_mem hleaf)
        have h := hrest leaf hleaf
        rw [Std.TreeMap.getElem?_insert, if_neg (by simpa using hne)] at h
        exact h
    · intro id hid
      rw [List.map_cons, List.mem_cons, not_or] at hid
      have h := hother id hid.2
      rw [Std.TreeMap.getElem?_insert, if_neg (by simpa using Ne.symm hid.1)] at h
      exact h

/-- More batches: a leaf's statistics go on where they were. -/
def GathersMore (st : StatText) (fields : List (Int × Text)) (fill : Nat → Option ScalarValue) (types : List ArrowType)
    (batches : List Batch) (stats : Stats) : Prop :=
  ∃ stats', gatherBatches st fields fill batches stats = .ok stats' ∧
    (∀ leaf ∈ tableLeaves types fields, ∀ s, stats[leaf.fieldId]? = some s →
      stats'[leaf.fieldId]? =
        some ((batches.flatMap (leaf.entries · fill)).foldl (LeafStat.note st leaf.ducklakeType) s)) ∧
    ∀ id, id ∉ (tableLeaves types fields).map (·.fieldId) → stats'[id]? = stats[id]?

theorem gatherBatches_some {types : List ArrowType} (hfields : fields.length = (schemaFields types 0).length)
    (hids : ((tableLeaves types fields).map (·.fieldId)).Nodup) (batches : List Batch)
    (hbatches : ∀ b ∈ batches, b.map (·.dataType) = types) (stats : Stats) :
    GathersMore st fields fill types batches stats := by
  induction batches generalizing stats with
  | nil => exact ⟨stats, rfl, fun _ _ _ h => h, fun _ _ => rfl⟩
  | cons batch batches ih =>
    have hbatch : gatherBatch st fields fill batch 0 (0, stats) = _ :=
      gatherBatch_leaves hfields (hbatches batch List.mem_cons_self) stats
    obtain ⟨hleaves, hother⟩ : GathersLeaves st (·.entries batch fill) (tableLeaves types fields) stats :=
      getElem?_gatherLeaves hids stats
    obtain ⟨stats', hrun, hrest, hrestOther⟩ := ih (fun b hb => hbatches b (List.mem_cons_of_mem _ hb))
      (gatherLeaves st (·.entries batch fill) (tableLeaves types fields) stats)
    refine ⟨stats', ?_, ?_, ?_⟩
    · rw [gatherBatches, hbatch]
      exact hrun
    · intro leaf hleaf s hs
      have hfirst := hleaves leaf hleaf
      rw [hs] at hfirst
      rw [hrest leaf hleaf _ hfirst, List.flatMap_cons, List.foldl_append]
      rfl
    · intro id hid
      rw [hrestOther id hid, hother id hid]

theorem addValue_containsNull (ducklakeType : Text) (leaf : LeafStat) (b : Bool) (v : ScalarValue) :
    LeafStat.addValue st ducklakeType { leaf with containsNull := b } v =
      { LeafStat.addValue st ducklakeType leaf v with containsNull := b } := by
  unfold LeafStat.addValue LeafStat.add
  split <;> rfl

theorem containsNull_addValue (ducklakeType : Text) (leaf : LeafStat) (v : ScalarValue) :
    (leaf.addValue st ducklakeType v).containsNull = leaf.containsNull := by
  unfold LeafStat.addValue LeafStat.add
  split <;> rfl

theorem foldl_note (ducklakeType : Text) (entries : List Entry) (leaf : LeafStat) :
    entries.foldl (LeafStat.note st ducklakeType) leaf =
      { (entries.filterMap id).foldl (LeafStat.addValue st ducklakeType) leaf with
        containsNull := leaf.containsNull || entries.any Option.isNone } := by
  induction entries generalizing leaf with
  | nil => simp
  | cons e entries ih =>
    cases e with
    | none =>
      have hmove : ∀ (values : List ScalarValue) (leaf : LeafStat),
          values.foldl (LeafStat.addValue st ducklakeType) { leaf with containsNull := true } =
            { values.foldl (LeafStat.addValue st ducklakeType) leaf with containsNull := true } := by
        intro values
        induction values with
        | nil => exact fun _ => rfl
        | cons v values ihv =>
          intro leaf
          rw [List.foldl_cons, addValue_containsNull, ihv, List.foldl_cons]
      rw [List.foldl_cons, LeafStat.note, ih, List.filterMap_cons_none rfl, hmove]
      simp
    | some v =>
      have hcons : (some v :: entries).filterMap id = v :: entries.filterMap id := rfl
      rw [List.foldl_cons, LeafStat.note, ih, hcons, List.foldl_cons, containsNull_addValue]
      simp

/-- The statistics of a leaf that has seen the values its rows have at its path. -/
def Leaf.inlinedStat (st : StatText) (leaf : Leaf) (rows : List Value) : InlinedColumnStat :=
  let seen := (rows.flatMap (·.valuesAt leaf.path)).foldl (LeafStat.addValue st leaf.ducklakeType)
    (.new leaf.ducklakeType)
  { seen with containsNull := rows.any fun v => (v.entriesAt leaf.path).any Option.isNone }.finish leaf.fieldId

theorem finish_entries (leaf : Leaf) (rows : List Value) :
    (((rows.flatMap (·.entriesAt leaf.path)).foldl (LeafStat.note st leaf.ducklakeType)
      (.new leaf.ducklakeType)).finish leaf.fieldId) = leaf.inlinedStat st rows := by
  have hvalues : (rows.flatMap (·.entriesAt leaf.path)).filterMap id = rows.flatMap (·.valuesAt leaf.path) := by
    rw [List.filterMap_flatMap]
    simp only [filterMap_entriesAt]
  have hnulls : (rows.flatMap (·.entriesAt leaf.path)).any Option.isNone =
      rows.any fun v => (v.entriesAt leaf.path).any Option.isNone := List.any_flatMap
  rw [foldl_note, hvalues, hnulls]
  rfl

theorem inlinedColumnStats_eq {types : List ArrowType} (hfields : fields.length = (schemaFields types 0).length)
    (hids : ((tableLeaves types fields).map (·.fieldId)).Nodup) {batches : List Batch} (hne : batches ≠ [])
    (hbatches : ∀ b ∈ batches, b.map (·.dataType) = types) :
    ∃ stats, inlinedColumnStats st fields batches fill = .ok stats ∧
      ∀ stat, stat ∈ stats ↔ ∃ leaf ∈ tableLeaves types fields,
        stat = leaf.inlinedStat st (batches.flatMap (·.storedRows fill leaf.column)) := by
  cases batches with
  | nil => exact absurd rfl hne
  | cons batch batches =>
    have hbatch : gatherBatch st fields fill batch 0 (0, ∅) = _ :=
      gatherBatch_leaves hfields (hbatches batch List.mem_cons_self) ∅
    obtain ⟨hleaves, hother⟩ : GathersLeaves st (·.entries batch fill) (tableLeaves types fields) ∅ :=
      getElem?_gatherLeaves hids ∅
    obtain ⟨stats, hrun, hrest, hrestOther⟩ : GathersMore st fields fill types batches
        (gatherLeaves st (·.entries batch fill) (tableLeaves types fields) ∅) :=
      gatherBatches_some hfields hids batches (fun b hb => hbatches b (List.mem_cons_of_mem _ hb)) _
    have hleaf : ∀ leaf ∈ tableLeaves types fields, stats[leaf.fieldId]? =
        some ((((batch :: batches).flatMap (·.storedRows fill leaf.column)).flatMap (·.entriesAt leaf.path)).foldl
          (LeafStat.note st leaf.ducklakeType) (.new leaf.ducklakeType)) := by
      intro leaf hleaf
      rw [hrest leaf hleaf _ (hleaves leaf hleaf), List.flatMap_assoc, List.flatMap_cons, List.foldl_append]
      rfl
    refine ⟨stats.toList.map fun e => e.2.finish e.1, ?_, ?_⟩
    · rw [inlinedColumnStats, gatherBatches, hbatch]
      dsimp only [bind, Except.bind]
      rw [hrun]
      rfl
    · intro stat
      rw [List.mem_map]
      constructor
      · intro h
        obtain ⟨⟨id, s⟩, hmem, rfl⟩ := h
        have hget := Std.TreeMap.mem_toList_iff_getElem?_eq_some.mp hmem
        by_cases hid : id ∈ (tableLeaves types fields).map (·.fieldId)
        · obtain ⟨leaf, hmemLeaf, rfl⟩ := List.mem_map.mp hid
          refine ⟨leaf, hmemLeaf, ?_⟩
          rw [hleaf leaf hmemLeaf, Option.some.injEq] at hget
          rw [← hget]
          exact finish_entries leaf _
        · rw [hrestOther id hid, hother id hid, Std.TreeMap.getElem?_emptyc] at hget
          cases hget
      · intro h
        obtain ⟨leaf, hmem, rfl⟩ := h
        exact ⟨(leaf.fieldId, _), Std.TreeMap.mem_toList_iff_getElem?_eq_some.mpr (hleaf leaf hmem),
          finish_entries leaf _⟩

end Inlined

/-! ## Batches written to a file -/

/-- The values of a field in a column's rows, if it is a leaf. -/
def rowValues (rows : List Value) (f : Path × ArrowType) : Option (DataType × List ScalarValue) :=
  match f.2 with
  | .scalar type => some (type, rows.flatMap (·.valuesAt f.1))
  | _ => none

theorem visitLeaves_rows (array : ArrowArray) :
    visitLeaves array (List.range array.len) = array.dataType.preorder.filterMap (rowValues array.rows) := by
  rw [visitLeaves_eq]
  apply List.filterMap_congr
  intro f _
  obtain ⟨path, type⟩ := f
  cases type <;> simp only [leafValues, rowValues, ArrowArray.rows, List.flatMap_map]

theorem visitColumns_schema (columns before extra : Batch) :
    columns.flatMap (fun column => visitLeaves column (List.range column.len)) =
      (schemaFields (columns.map (·.dataType)) before.length).filterMap fun f =>
        rowValues (Batch.rows (before ++ (columns ++ extra)) f.column) (f.path, f.type) := by
  induction columns generalizing before with
  | nil => rfl
  | cons array columns ih =>
    have hrest := ih (before ++ [array])
    simp only [List.length_append, List.length_singleton, List.append_assoc, List.singleton_append] at hrest
    rw [List.flatMap_cons, hrest, visitLeaves_rows, List.map_cons, schemaFields, List.filterMap_append,
      List.filterMap_map]
    congr 1
    apply List.filterMap_congr
    intro f _
    simp [Batch.rows]

theorem visitBatch_eq {types : List ArrowType} {fields : List (Int × Text)}
    (hfields : fields.length = (schemaFields types 0).length) {batch : Batch}
    (hbatch : (batch.take types.length).map (·.dataType) = types) :
    visitBatch batch types.length =
      (tableLeaves types fields).map fun leaf =>
        (leaf.type, (batch.rows leaf.column).flatMap (·.valuesAt leaf.path)) := by
  have hschema := visitColumns_schema (batch.take types.length) [] (batch.drop types.length)
  rw [hbatch, List.take_append_drop] at hschema
  have hzip : ((schemaFields types 0).zip fields).map Prod.fst = schemaFields types 0 :=
    List.map_fst_zip (by rw [hfields])
  rw [visitBatch, hschema, tableLeaves, List.map_filterMap]
  dsimp only [List.length_nil, List.nil_append]
  nth_rewrite 1 [← hzip]
  rw [List.filterMap_map]
  apply List.filterMap_congr
  intro f _
  obtain ⟨⟨column, path, type⟩, field⟩ := f
  cases type <;> rfl

/-! ## The slots of the leaves -/

/-- Slots up to a number of leaves. -/
def padded {α : Type} (slots : List (Option α)) (n : Nat) : List (Option α) :=
  slots ++ List.replicate (n - slots.length) none

theorem padded_of_le {α : Type} {slots : List (Option α)} {n : Nat} (h : n ≤ slots.length) :
    padded slots n = slots := by
  rw [padded, Nat.sub_eq_zero_of_le h, List.replicate_zero, List.append_nil]

theorem length_padded {α : Type} (slots : List (Option α)) (n : Nat) :
    (padded slots n).length = max slots.length n := by
  rw [padded, List.length_append, List.length_replicate]
  omega

theorem accumulateNanFlags_eq {acc : List (Option Bool)} {batch : Batch} {n : Nat}
    (h : acc.length ≤ (visitBatch batch n).length) :
    accumulateNanFlags acc batch n = List.zipWith (fun slot leaf => mergeNan slot (leafHasNan leaf.1 leaf.2))
      (padded acc (visitBatch batch n).length) (visitBatch batch n) := by
  have hpad : (if acc.length < (visitBatch batch n).length then
      acc ++ List.replicate ((visitBatch batch n).length - acc.length) none else acc) =
        padded acc (visitBatch batch n).length := by
    split
    · rfl
    · next hge => rw [padded_of_le (Nat.not_lt.mp hge)]
  simp only [accumulateNanFlags, List.length_map]
  rw [hpad, List.drop_eq_nil_of_le (by rw [length_padded]; omega), List.append_nil, List.zipWith_map_right]

theorem updateSlots_eq (leaves : List (DataType × List ScalarValue)) (before : List (Option LeafBounds))
    (bounds : List (Option LeafBounds)) (h : bounds.length ≤ leaves.length) :
    updateSlots leaves before.length (before ++ bounds) =
      before ++ List.zipWith (fun slot leaf => updateSlot slot leaf.1 leaf.2) (padded bounds leaves.length) leaves := by
  induction leaves generalizing before bounds with
  | nil =>
    obtain rfl := List.length_eq_zero_iff.mp (Nat.le_zero.mp h)
    rfl
  | cons leaf leaves ih =>
    obtain ⟨slot, rest, hslots, hpadded, hrest⟩ : ∃ slot rest,
        (if (before ++ bounds).length ≤ before.length then
          (before ++ bounds) ++ List.replicate (before.length + 1 - (before ++ bounds).length) none
          else before ++ bounds) = before ++ slot :: rest ∧
        padded bounds (leaf :: leaves).length = slot :: padded rest leaves.length ∧ rest.length ≤ leaves.length := by
      cases bounds with
      | nil =>
        refine ⟨none, [], ?_, ?_, Nat.zero_le _⟩
        · simp
        · simp [padded, List.replicate_succ]
      | cons slot rest =>
        refine ⟨slot, rest, ?_, ?_, by simpa using h⟩
        · simp
        · simp [padded]
    have hstep := ih (before ++ [updateSlot slot leaf.1 leaf.2]) rest hrest
    rw [updateSlots, hslots, hpadded, Lists.modify_append_cons]
    simpa using hstep

theorem mergeNan_append (type : DataType) (a b : List ScalarValue) :
    mergeNan (leafHasNan type a) (leafHasNan type b) = leafHasNan type (a ++ b) := by
  cases type <;> simp [leafHasNan, mergeNan]

theorem updateSlot_append (type : DataType) (a b : List ScalarValue) :
    updateSlot (updateSlot none type a) type b = updateSlot none type (a ++ b) := by
  unfold updateSlot
  split
  · rfl
  · simp

/-- What a leaf's slots hold of values it has seen. -/
def Leaf.nanFlag (leaf : Leaf) (rows : List Value) : Option Bool :=
  leafHasNan leaf.type (rows.flatMap (·.valuesAt leaf.path))

def Leaf.bounds (leaf : Leaf) (rows : List Value) : Option LeafBounds :=
  updateSlot none leaf.type (rows.flatMap (·.valuesAt leaf.path))

/-- The slots of all leaves. -/
abbrev leafSlots (types : List ArrowType) (fields : List (Int × Text)) (rows : Leaf → List Value) : WrittenLeafStats :=
  ⟨(tableLeaves types fields).map fun leaf => leaf.nanFlag (rows leaf),
    (tableLeaves types fields).map fun leaf => leaf.bounds (rows leaf)⟩

section Written
variable {types : List ArrowType} {fields : List (Int × Text)} {batch : Batch}
  (hfields : fields.length = (schemaFields types 0).length)
include hfields

theorem accumulate_first (hbatch : (batch.take types.length).map (·.dataType) = types) :
    WrittenLeafStats.accumulate ⟨[], []⟩ batch types.length =
      leafSlots types fields fun leaf => batch.rows leaf.column := by
  have hvisit := visitBatch_eq hfields hbatch
  have hslots := updateSlots_eq (visitBatch batch types.length) [] [] (Nat.zero_le _)
  rw [List.nil_append, List.nil_append, List.length_nil] at hslots
  have hnone : ∀ {α : Type}, padded ([] : List (Option α)) (visitBatch batch types.length).length =
      (tableLeaves types fields).map fun _ => none := by
    intro α
    rw [hvisit, padded, List.nil_append, List.length_map, List.length_nil, Nat.sub_zero, List.map_const']
  unfold WrittenLeafStats.accumulate
  rw [accumulateNanFlags_eq (Nat.zero_le _), hslots, hnone, hnone, hvisit, List.zipWith_map, List.zipWith_map,
    List.zipWith_self, List.zipWith_self]
  congr 1
  apply List.map_congr_left
  intro leaf _
  obtain ⟨fieldId, ducklakeType, column, path, type⟩ := leaf
  cases type <;> simp [Leaf.nanFlag, leafHasNan, mergeNan]

theorem accumulate_next (hbatch : (batch.take types.length).map (·.dataType) = types) (rows : Leaf → List Value) :
    WrittenLeafStats.accumulate (leafSlots types fields rows) batch types.length =
      leafSlots types fields fun leaf => rows leaf ++ batch.rows leaf.column := by
  have hvisit := visitBatch_eq hfields hbatch
  have hlength : (visitBatch batch types.length).length = (tableLeaves types fields).length := by
    rw [hvisit, List.length_map]
  have hslots := updateSlots_eq (visitBatch batch types.length) []
    ((tableLeaves types fields).map fun leaf => leaf.bounds (rows leaf)) (by rw [hlength, List.length_map])
  rw [List.nil_append, List.nil_append, List.length_nil] at hslots
  unfold WrittenLeafStats.accumulate
  rw [accumulateNanFlags_eq (by rw [hlength, List.length_map]), hslots, padded_of_le (by rw [hlength, List.length_map]),
    padded_of_le (by rw [hlength, List.length_map]), hvisit, List.zipWith_map, List.zipWith_map,
    List.zipWith_self, List.zipWith_self]
  simp only [leafSlots, Leaf.nanFlag, Leaf.bounds, mergeNan_append, updateSlot_append, List.flatMap_append]

/-- Over all batches, each leaf's slots hold what its rows have at its path. -/
theorem written_eq {batches : List Batch} (hne : batches ≠ [])
    (hbatches : ∀ b ∈ batches, (b.take types.length).map (·.dataType) = types) :
    batches.foldl (fun written batch => written.accumulate batch types.length) (⟨[], []⟩ : WrittenLeafStats) =
      leafSlots types fields fun leaf => batches.flatMap (·.rows leaf.column) := by
  cases batches with
  | nil => exact absurd rfl hne
  | cons first batches =>
    rw [List.foldl_cons, accumulate_first hfields (hbatches first List.mem_cons_self)]
    -- what was seen so far grows by a batch at a time
    have hrun : ∀ (batches : List Batch) (rows : Leaf → List Value),
        (∀ b ∈ batches, (b.take types.length).map (·.dataType) = types) →
        batches.foldl (fun written batch => written.accumulate batch types.length) (leafSlots types fields rows) =
          leafSlots types fields fun leaf => rows leaf ++ batches.flatMap (·.rows leaf.column) := by
      intro batches
      induction batches with
      | nil =>
        intro rows _
        simp
      | cons batch batches ih =>
        intro rows htypes
        rw [List.foldl_cons, accumulate_next hfields (htypes batch List.mem_cons_self),
          ih (fun leaf => rows leaf ++ batch.rows leaf.column) (fun b hb => htypes b (List.mem_cons_of_mem _ hb))]
        simp
    rw [hrun batches (fun leaf => first.rows leaf.column) (fun b hb => hbatches b (List.mem_cons_of_mem _ hb))]
    rfl

end Written

/-! ## The bounds a file's statistics rest on -/

theorem foldl_text {values : List ScalarValue} {s : StringBounds} {blob : Bool}
    (h : ∀ v ∈ values, ∃ bytes, boundBytes v = some (bytes, blob)) :
    ∃ fed : List Bytes, values.foldl LeafBounds.update (.text s) = .text (fed.foldl StringBounds.update s) ∧
      ∀ v ∈ values, ∃ bytes, boundBytes v = some (bytes, blob) ∧ bytes ∈ fed := by
  induction values generalizing s with
  | nil => exact ⟨[], rfl, (fun _ hv => nomatch hv)⟩
  | cons v values ih =>
    obtain ⟨bytes, hbytes⟩ := h v List.mem_cons_self
    have hupdate : LeafBounds.update (.text s) v = .text (s.update bytes) := by
      unfold boundBytes at hbytes
      split at hbytes <;> cases hbytes <;> rfl
    obtain ⟨fed, hfold, hfed⟩ := @ih (s.update bytes) fun v hv => h v (List.mem_cons_of_mem _ hv)
    refine ⟨bytes :: fed, by rw [List.foldl_cons, hupdate, hfold, List.foldl_cons], ?_⟩
    intro w hw
    rcases List.mem_cons.mp hw with rfl | hw
    · exact ⟨bytes, hbytes, List.mem_cons_self⟩
    · obtain ⟨b, hwb, hb⟩ := hfed w hw
      exact ⟨b, hwb, List.mem_cons_of_mem _ hb⟩

theorem saw_text {values : List ScalarValue} {blob : Bool}
    (h : ∀ v ∈ values, ∃ bytes, boundBytes v = some (bytes, blob)) :
    (values.foldl LeafBounds.update (.text (.new blob))).Saw values := by
  obtain ⟨fed, hfold, hfed⟩ := @foldl_text values (.new blob) blob h
  rw [hfold]
  refine ⟨blob, [fed], rfl, ?_⟩
  intro v hv _
  obtain ⟨bytes, hbytes, hmem⟩ := hfed v hv
  exact ⟨bytes, hbytes, by simpa using hmem⟩

theorem updateSlot_saw {type : DataType} {values : List ScalarValue} {lb : LeafBounds}
    (htyped : ∀ v ∈ values, v.dataType = type ∧ v.isNull = false) (h : updateSlot none type values = some lb) :
    lb.Saw values := by
  cases type with
  | float32 =>
    obtain rfl := Option.some.inj h
    obtain ⟨fed, rfl⟩ : values ∈ Set.range (List.map ScalarValue.float32) := by
      rw [Set.range_list_map]
      intro v hv
      obtain ⟨htype, hnull⟩ := htyped v hv
      cases v <;> cases htype
      · cases hnull
      · exact ⟨_, rfl⟩
    rw [Option.getD_none, List.foldl_map, List.foldl_hom LeafBounds.float32 (fun _ _ => rfl)]
    exact ⟨fed, rfl, fun v hv _ => by simpa [eq_comm] using hv⟩
  | float64 =>
    obtain rfl := Option.some.inj h
    obtain ⟨fed, rfl⟩ : values ∈ Set.range (List.map ScalarValue.float64) := by
      rw [Set.range_list_map]
      intro v hv
      obtain ⟨htype, hnull⟩ := htyped v hv
      cases v <;> cases htype
      · cases hnull
      · exact ⟨_, rfl⟩
    rw [Option.getD_none, List.foldl_map, List.foldl_hom LeafBounds.float64 (fun _ _ => rfl)]
    exact ⟨fed, rfl, fun v hv _ => by simpa [eq_comm] using hv⟩
  | string t =>
    obtain rfl := Option.some.inj h
    apply saw_text
    intro v hv
    obtain ⟨htype, hnull⟩ := htyped v hv
    cases v <;> cases htype
    · cases hnull
    · exact ⟨_, rfl⟩
  | binary t =>
    cases t with
    | fixedSizeBinary size => cases h
    | binary | largeBinary | binaryView =>
      obtain rfl := Option.some.inj h
      apply saw_text
      intro v hv
      obtain ⟨htype, hnull⟩ := htyped v hv
      cases v <;> cases htype
      · cases hnull
      · exact ⟨_, rfl⟩
  | _ => cases h

mutual

theorem valuesAt_typed : ∀ (array : ArrowArray) {path : Path} {type : DataType},
    (path, .scalar type) ∈ array.dataType.preorder → ∀ r, ∀ v ∈ (array.row r).valuesAt path,
      v.dataType = type ∧ v.isNull = false
  | .scalar type' values, path, type, h, r, v, hv => by
    obtain ⟨rfl, htype⟩ := Prod.mk.inj (List.mem_singleton.mp h)
    cases htype
    rw [ArrowArray.row, ScalarValue.toValue] at hv
    split at hv
    · cases hv
    · next hnull =>
      obtain rfl := List.mem_singleton.mp hv
      refine ⟨?_, Bool.eq_false_iff.mpr hnull⟩
      unfold scalarAt
      cases values[r]? with
      | none => rfl
      | some w => exact w.2
  | .struct validity columns, path, type, h, r, v, hv => by
    rw [ArrowArray.row] at hv
    split at hv
    · rcases List.mem_cons.mp h with h | h
      · cases h
      · exact columnsValuesAt_typed columns 0 [] rfl h r v hv
    · rw [valuesAt_null] at hv
      cases hv
  | .list kind validity offsets values, path, type, h, r, v, hv => by
    rw [ArrowArray.row] at hv
    rcases List.mem_cons.mp h with h | h
    · cases h
    · obtain ⟨⟨path, _⟩, hmem, heq⟩ := List.mem_map.mp h
      cases heq
      split at hv
      · rw [Value.valuesAt, List.flatMap_map, List.mem_flatMap] at hv
        obtain ⟨e, _, hv⟩ := hv
        exact valuesAt_typed values hmem e v hv
      · cases hv
  | .map validity offsets keys values, path, type, h, r, v, hv => by
    rw [ArrowArray.row] at hv
    rcases List.mem_cons.mp h with h | h
    · cases h
    · rcases List.mem_append.mp h with h | h
      all_goals
        obtain ⟨⟨path, _⟩, hmem, heq⟩ := List.mem_map.mp h
        cases heq
        split at hv
        · rw [Value.valuesAt, List.flatMap_map, List.mem_flatMap] at hv
          obtain ⟨e, _, hv⟩ := hv
          first
            | exact valuesAt_typed keys hmem e v hv
            | exact valuesAt_typed values hmem e v hv
        · cases hv

theorem columnsValuesAt_typed : ∀ (columns : Columns) (i : Nat) (before : List Value), before.length = i →
    ∀ {path : Path} {type : DataType}, (path, .scalar type) ∈ columns.fields.preorder i →
      ∀ r, ∀ v ∈ (Value.struct (before ++ columns.row r)).valuesAt path, v.dataType = type ∧ v.isNull = false
  | .nil, _, _, _, _, _, h, _, _, _ => nomatch h
  | .cons _ column rest, i, before, hbefore, path, type, h, r, v, hv => by
    rcases List.mem_append.mp h with h | h
    · obtain ⟨⟨path, _⟩, hmem, heq⟩ := List.mem_map.mp h
      cases heq
      have hcolumn : (before ++ column.row r :: rest.row r)[i]? = some (column.row r) := by simp [← hbefore]
      rw [Value.valuesAt, Columns.row, hcolumn] at hv
      exact valuesAt_typed column hmem r v hv
    · rw [Columns.row, List.append_cons] at hv
      exact columnsValuesAt_typed rest (i + 1) (before ++ [column.row r]) (by simp [hbefore]) h r v hv

end

/-- The bounds a file's leaf was written with were fed the leaf's values, as the statistics
of its footer take for granted. -/
theorem Leaf.bounds_saw {leaf : Leaf} {batches : List Batch} {lb : LeafBounds}
    (htyped : ∀ b ∈ batches, ∀ array, b[leaf.column]? = some array →
      (leaf.path, .scalar leaf.type) ∈ array.dataType.preorder)
    (h : leaf.bounds (batches.flatMap (·.rows leaf.column)) = some lb) :
    lb.Saw ((batches.flatMap (·.rows leaf.column)).flatMap (·.valuesAt leaf.path)) := by
  refine updateSlot_saw ?_ h
  intro v hv
  obtain ⟨row, hrow, hv⟩ := List.mem_flatMap.mp hv
  obtain ⟨batch, hbatch, hrow⟩ := List.mem_flatMap.mp hrow
  unfold Batch.rows at hrow
  cases hcolumn : batch[leaf.column]? with
  | none =>
    rw [hcolumn] at hrow
    cases hrow
  | some array =>
    rw [hcolumn, Option.map_some, Option.getD_some] at hrow
    obtain ⟨r, _, rfl⟩ := List.mem_map.mp hrow
    exact valuesAt_typed array (htyped batch hbatch array hcolumn) r v hv

theorem type_of_schemaFields {f : SchemaField} : ∀ {types : List ArrowType} {i : Nat}, f ∈ schemaFields types i →
    ∃ n type, f.column = i + n ∧ types[n]? = some type ∧ (f.path, f.type) ∈ type.preorder := by
  intro types
  induction types with
  | nil =>
    intro i h
    cases h
  | cons type types ih =>
    intro i h
    rcases List.mem_append.mp h with h | h
    · obtain ⟨x, hx, rfl⟩ := List.mem_map.mp h
      exact ⟨0, type, rfl, rfl, hx⟩
    · obtain ⟨n, type', hn, htype, hmem⟩ := ih h
      exact ⟨n + 1, type', by omega, htype, hmem⟩

theorem typed_of_tableLeaves {types : List ArrowType} {fields : List (Int × Text)} {leaf : Leaf} {batch : Batch}
    {array : ArrowArray} (hleaf : leaf ∈ tableLeaves types fields)
    (hbatch : (batch.take types.length).map (·.dataType) = types) (harray : batch[leaf.column]? = some array) :
    (leaf.path, .scalar leaf.type) ∈ array.dataType.preorder := by
  obtain ⟨⟨⟨column, path, type⟩, field⟩, hf, hsome⟩ := List.mem_filterMap.mp hleaf
  cases type with
  | struct _ | list _ _ | map _ _ => cases hsome
  | scalar type =>
    obtain rfl := Option.some.inj hsome
    obtain ⟨n, type', hn, htype, hmem⟩ := type_of_schemaFields (List.of_mem_zip hf).1
    obtain rfl : column = n := by simpa using hn
    have hlt : column < types.length := (List.getElem?_eq_some_iff.mp htype).1
    rw [← hbatch, List.getElem?_map, List.getElem?_take_of_lt hlt, harray] at htype
    obtain rfl := Option.some.inj htype
    exact hmem

/-- Bounds in the slot of a leaf hold for every value the leaf has in any batch. -/
theorem written_bounds_hold (types : List ArrowType) (fields : List (Int × Text)) (batches : List Batch) (k : Nat)
    {leaf : Leaf} {lb : LeafBounds} {lo hi : ScalarValue} (hfields : fields.length = (schemaFields types 0).length)
    (hbatches : ∀ b ∈ batches, (b.take types.length).map (·.dataType) = types)
    (hleaf : (tableLeaves types fields)[k]? = some leaf)
    (hslot : (batches.foldl (fun written batch => written.accumulate batch types.length)
      (⟨[], []⟩ : WrittenLeafStats)).bounds[k]? = some (some lb))
    (hb : lb.bounds = some (lo, hi)) :
    Holds .min lo ((batches.flatMap (·.rows leaf.column)).flatMap (·.valuesAt leaf.path)) ∧
      Holds .max hi ((batches.flatMap (·.rows leaf.column)).flatMap (·.valuesAt leaf.path)) := by
  have hne : batches ≠ [] := by
    rintro rfl
    cases hslot
  rw [written_eq hfields hne hbatches, List.getElem?_map, hleaf, Option.map_some] at hslot
  refine holds_of_saw (Leaf.bounds_saw (fun b h array harray => ?_) (Option.some.inj hslot)) hb
  exact typed_of_tableLeaves (List.mem_of_getElem? hleaf) (hbatches b h) harray

def texts (values : List String) : ArrowArray :=
  .scalar (.string .utf8) (values.map fun v => ⟨.string .utf8 v.toList, rfl⟩)

/-- A batch of one list of texts. -/
def wordList (values : List String) : Batch := [.list .list [true] [0, values.length] (texts values)]

theorem words_bounded :
    Holds .min (.string .utf8 "fig".toList) (["pear", "fig", "quince"].map fun v => .string .utf8 v.toList) ∧
      Holds .max (.string .utf8 "quince".toList) (["pear", "fig", "quince"].map fun v => .string .utf8 v.toList) :=
  written_bounds_hold [.list .list (.scalar (.string .utf8))] [(1, "list".toList), (2, "varchar".toList)]
    [wordList ["pear", "fig"], wordList ["quince"]] 0 rfl (by decide) rfl rfl rfl

/-! ## Both paths -/

theorem tableLeaves_nodup {types : List ArrowType} {fields : List (Int × Text)} (h : (fields.map Prod.fst).Nodup) :
    ((tableLeaves types fields).map (·.fieldId)).Nodup := by
  have hsub : ∀ (schema : List SchemaField) (fields : List (Int × Text)),
      (((schema.zip fields).filterMap tableLeaf).map (·.fieldId)).Sublist (fields.map Prod.fst) := by
    intro schema
    induction schema with
    | nil =>
      intro fields
      exact List.nil_sublist _
    | cons f schema ih =>
      intro fields
      cases fields with
      | nil => exact List.nil_sublist _
      | cons field fields =>
        obtain ⟨column, path, type⟩ := f
        cases type with
        | scalar type => exact (ih fields).cons_cons field.1
        | struct _ | list _ _ | map _ _ => exact (ih fields).cons field.1
  exact (hsub _ _).nodup h

/-- Each leaf field has seen exactly the values that its rows have at its path, under no
NULL and inside the slice, whether the rows are written inline or to a file; the cursor
ends past the last field. -/
theorem leaf_statistics_right (st : StatText) (types : List ArrowType) (fields : List (Int × Text))
    (hfields : fields.length = (schemaFields types 0).length) (hids : (fields.map Prod.fst).Nodup) :
    (∀ (fill : Nat → Option ScalarValue) (batches : List Batch), batches ≠ [] →
      (∀ b ∈ batches, b.map (·.dataType) = types) →
      ∃ stats, inlinedColumnStats st fields batches fill = .ok stats ∧
        ∀ stat, stat ∈ stats ↔ ∃ leaf ∈ tableLeaves types fields,
          stat = leaf.inlinedStat st (batches.flatMap (·.storedRows fill leaf.column))) ∧
    (∀ (fill : Nat → Option ScalarValue) (batch : Batch) (stats : Stats), batch.map (·.dataType) = types →
      ∃ stats', gatherBatch st fields fill batch 0 (0, stats) = .ok (fields.length, stats')) ∧
    (∀ batches : List Batch, batches ≠ [] → (∀ b ∈ batches, (b.take types.length).map (·.dataType) = types) →
      batches.foldl (fun written batch => written.accumulate batch types.length) (⟨[], []⟩ : WrittenLeafStats) =
        ⟨(tableLeaves types fields).map fun leaf => leaf.nanFlag (batches.flatMap (·.rows leaf.column)),
          (tableLeaves types fields).map fun leaf => leaf.bounds (batches.flatMap (·.rows leaf.column))⟩) ∧
    ∀ (array : ArrowArray) (offset len : Nat), offset + len ≤ array.len →
      (array.slice offset len).dataType = array.dataType ∧
        (array.slice offset len).rows = sliceList array.rows offset len :=
  ⟨fun _ _ hne hbatches => inlinedColumnStats_eq hfields (tableLeaves_nodup hids) hne hbatches,
    fun _ _ stats hbatch => ⟨_, gatherBatch_leaves hfields hbatch stats⟩,
    fun _ hne hbatches => written_eq hfields hne hbatches,
    fun array offset len h => ⟨dataType_slice array offset len, rows_slice h⟩⟩

/-! ## A slice of a list of structs -/

def integers (values : List (Option Int)) : ArrowArray :=
  .scalar (.integer .int64) (values.map fun
    | some v => ⟨.integer .int64 v, rfl⟩
    | none => ⟨.null (.integer .int64), rfl⟩)

/-- The last two of three rows: a NULL list over 20, and a list of a NULL struct over 30 and
one with 40. -/
def veiled : ArrowArray :=
  (ArrowArray.list .list [true, false, true] [0, 1, 2, 4]
    (.struct [true, true, false, true] (.cons "a".toList (integers [some 10, some 20, some 30, some 40])
      .nil))).slice 1 2

def veiledFields : List (Int × Text) := [(1, "list".toList), (2, "struct".toList), (3, "int64".toList)]

def textOrder : StatText := ⟨noFloatText, fun _ a b => order a b⟩

theorem veiled_statistics : ∃ stats, inlinedColumnStats textOrder veiledFields [[veiled]] (fun _ => none) = .ok stats ∧
    ∀ stat, stat ∈ stats ↔ stat = ⟨3, true, true, some "40".toList, some "40".toList⟩ := by
  obtain ⟨stats, hstats, hmem⟩ := (leaf_statistics_right textOrder [veiled.dataType] veiledFields rfl (by decide)).1
    (fun _ => none) [[veiled]] (by simp) (by simp)
  refine ⟨stats, hstats, fun stat => ?_⟩
  rw [hmem stat]
  constructor
  · intro h
    obtain ⟨leaf, hleaf, rfl⟩ := h
    obtain rfl := List.mem_singleton.mp hleaf
    rfl
  · intro h
    exact ⟨_, List.mem_singleton.mpr rfl, h⟩

end DuckLake.Nested
