import DuckLake.Plan.Flush
import DuckLake.Partition.Split

/- Live rows of a partition value, from the catalog alone (`partition_counts.rs`).

   `partition_live_row_counts` reads facts about the table's files, the inlined deletions
   and the newest snapshot, and adds up the rows of the files of each value. It answers
   `unknown` for whatever the counters cannot account for.

   1. `spells_iff_of_records`: a value spelled as the writer spells it stands for one key.
   2. `liveRows_right`: what is counted of a file is what a scan returns of it.
   3. `countFiles_spec`: the loop adds the files of a value up, and `Accounted` says what
      an exact count rests on.
   4. `exact_count_right` puts them together, for reads that see one state of the catalog;
      `flush_between_reads` is what becomes of reads that do not.

   Correspondence (Rust ↔ Lean):
     `PartitionRowCount`, `PartitionCountUnknown`, `PartitionCountFacts`,
     `PartitionCountFile`, `CountRead`                  ↔ the same
     `live_rows`, `resolve_partition_counts`            ↔ the same
     `get_partition_count_facts`                        ↔ the same, as SQLite answers it
     `read_consistently`                                ↔ `readConsistently`: what each statement sees
     `parse_ducklake_scalar`                            ↔ `parseDucklakeScalar`, arrow's parser a parameter
   A column is read out of a row by `cell`, as a scan at the snapshot reads it. -/

namespace DuckLake.Partition

open Metadata Versioned

/-! ## Counts -/

inductive PartitionCountUnknown where
  | unsupported | notAPartitionKey | notIdentityKey | ambiguousKey | floatKey | nonCanonicalValue
  | snapshotMissing | unattributedFile | inlinedRows | missingRecordCount | partialFile
  | multipleDeleteFiles | invalidDeleteCount | partialDeleteFile | inlinedDeletesWithDeleteFile | overflow
deriving DecidableEq, Repr

inductive PartitionRowCount where
  | exact (rows : Nat)
  | unknown (reason : PartitionCountUnknown)
deriving DecidableEq, Repr

structure PartitionCountFile where
  dataFileId : Nat
  partitionId : Option Nat
  /-- How many rows of `ducklake_file_partition_value` the file has for the key. -/
  valueRows : Nat
  partitionValue : Option Text
  recordCount : Option Int
  partialMax : Option Nat
  deleteFiles : Nat
  deleteCount : Option Int
  deletePartialMax : Option Nat
deriving DecidableEq, Repr

structure PartitionCountFacts where
  snapshotExists : Bool
  inlinedRowsVisible : Bool
  storedValues : List Text
  files : List PartitionCountFile
deriving DecidableEq, Repr

structure CountRead where
  snapshotId : Nat
  atHead : Bool
  partitionId : Nat
  keyType : DataType

abbrev Counts := Std.TreeMap Text PartitionRowCount

section Resolve
variable (fmt : FloatText) (arrow : ArrowParser)

def isCanonicalPartitionValue (value : Text) (type : DataType) : Bool :=
  match type with
  | .string _ => true
  | _ => (parseDucklakeScalar arrow value type).bind (encodeScalar fmt) == some value

/-- Every deletion of the one delete file was made by the snapshot. -/
def PartitionCountFile.complete (file : PartitionCountFile) (read : CountRead) : Bool :=
  match file.deletePartialMax with
  | some max => decide (max ≤ read.snapshotId)
  | none => read.atHead

/-- The rows the visible delete files leave out. -/
def deletedRows (file : PartitionCountFile) (read : CountRead) (rows : Int) : Except PartitionCountUnknown Int :=
  match file.deleteFiles with
  | 0 => .ok 0
  | 1 =>
    if !file.complete read then .error .partialDeleteFile
    else
      match file.deleteCount with
      | some deleted => if 0 ≤ deleted ∧ deleted ≤ rows then .ok deleted else .error .invalidDeleteCount
      | none => .error .invalidDeleteCount
  | _ => .error .multipleDeleteFiles

/-- The live rows of a file, given the positions of its inlined deletions. -/
def liveRows (file : PartitionCountFile) (read : CountRead) (inlined : List Nat) :
    Except PartitionCountUnknown Nat :=
  match file.recordCount with
  | none => .error .missingRecordCount
  | some rows =>
    if rows < 0 then .error .missingRecordCount
    else if file.partialMax.any fun max => decide (read.snapshotId < max) then .error .partialFile
    else
      match deletedRows file read rows with
      | .error reason => .error reason
      | .ok deleted =>
        let inlined : Int := (inlined.filter fun position : Nat => decide ((position : Int) < rows)).length
        if 0 < inlined ∧ 0 < file.deleteFiles then .error .inlinedDeletesWithDeleteFile
        else .ok (rows - deleted - inlined).toNat

def collectCounts (count : Text → PartitionRowCount) (values : List Text) : Counts :=
  values.foldl (fun counts value => counts.insert value (count value)) ∅

/-- `inlined_by_file`: the positions recorded for a file, each once. -/
def inlinedByFile (inlinedDeletes : List InlinedDelete) (dataFileId : Nat) : List Nat :=
  ((inlinedDeletes.filter (·.fileId == dataFileId)).map (·.position)).dedup

def addRows (total : Nat) : Except PartitionCountUnknown Nat → PartitionRowCount
  | .ok live => if total + live < 2 ^ 64 then .exact (total + live) else .unknown .overflow
  | .error reason => .unknown reason

/-- One round of the loop over the files, after those `seen`. -/
def countFile (read : CountRead) (inlinedDeletes : List InlinedDelete) (state : List Nat × Counts)
    (file : PartitionCountFile) : List Nat × Counts :=
  match file.partitionValue with
  | none => state
  | some value =>
    match state.2[value]? with
    | none => state
    | some count =>
      if state.1.contains file.dataFileId then state
      else
        (file.dataFileId :: state.1, match count with
          | .unknown _ => state.2
          | .exact total =>
            state.2.insert value (addRows total (liveRows file read (inlinedByFile inlinedDeletes file.dataFileId))))

def resolvePartitionCounts (values : List Text) (read : CountRead) (facts : Option PartitionCountFacts)
    (inlinedDeletes : List InlinedDelete) : Counts :=
  match facts with
  | none => collectCounts (fun _ => .unknown .unsupported) values
  | some facts =>
    if !facts.snapshotExists then collectCounts (fun _ => .unknown .snapshotMissing) values
    else if facts.inlinedRowsVisible then collectCounts (fun _ => .unknown .inlinedRows) values
    else if (facts.files.any fun file => file.partitionId != some read.partitionId || file.valueRows != 1) ||
        facts.storedValues.any fun value => !isCanonicalPartitionValue fmt arrow value read.keyType then
      collectCounts (fun _ => .unknown .unattributedFile) values
    else
      let counts := collectCounts (fun value =>
        if isCanonicalPartitionValue fmt arrow value read.keyType then .exact 0 else .unknown .nonCanonicalValue) values
      (facts.files.foldl (countFile read inlinedDeletes) ([], counts)).2

end Resolve

/-! ## What the catalog answers -/

variable {V : Type}

/-- A row of `ducklake_file_partition_value`. -/
structure FilePartitionValue where
  tableId : Nat
  dataFileId : Nat
  partitionKeyIndex : Nat
  partitionValue : Option Text
deriving DecidableEq, Repr

/-- The catalog with the columns a count reads besides. -/
structure CountCatalog (V : Type) extends Catalog V where
  /-- The catalog has the partition tables and the `partial_max` columns. -/
  supported : Bool
  /-- `partition_id` and `record_count` of a data file, `delete_count` of a delete file. -/
  partitionId : Nat → Option Nat
  recordCount : Nat → Option Int
  deleteCount : Nat → Option Int
  filePartitionValues : List FilePartitionValue

namespace CountCatalog

def valuesOf (cat : CountCatalog V) (tableId keyIndex dataFileId : Nat) : List FilePartitionValue :=
  cat.filePartitionValues.filter fun v =>
    v.tableId == tableId && v.partitionKeyIndex == keyIndex && v.dataFileId == dataFileId

/-- A row of the files statement: a visible file with what the joins count for it. -/
def countFileRow (cat : CountCatalog V) (tableId snapshotId keyIndex : Nat) (f : DataFile V) : PartitionCountFile :=
  let values := cat.valuesOf tableId keyIndex f.id
  let deletes := (cat.storage tableId).deleteFilesAt f.id snapshotId
  { dataFileId := f.id
    partitionId := cat.partitionId f.id
    valueRows := values.length
    partitionValue := match values with
      | [v] => v.partitionValue
      | _ => none
    recordCount := cat.recordCount f.id
    partialMax := f.partialMax
    deleteFiles := deletes.length
    deleteCount := match deletes with
      | [d] => cat.deleteCount d.id
      | _ => none
    deletePartialMax := match deletes with
      | [d] => d.partialMax
      | _ => none }

def visibleCountFiles (cat : CountCatalog V) (tableId snapshotId keyIndex : Nat) : List PartitionCountFile :=
  ((cat.storage tableId).dataFiles.filter (·.visibleAt snapshotId)).map
    (cat.countFileRow tableId snapshotId keyIndex)

def snapshotExists (cat : CountCatalog V) (snapshotId : Nat) : Bool :=
  cat.snapshots.any (·.snapshotId == snapshotId)

/-- Whether a registered inlined table holds a visible row. -/
def inlinedRowsVisible (cat : CountCatalog V) (tableId snapshotId : Nat) : Bool :=
  (cat.storage tableId).inlinedTables.any fun table =>
    (cat.storage tableId).inlinedRows.any fun r => r.table == table && r.visibleAt snapshotId

def inlinedDeletes (cat : CountCatalog V) (tableId snapshotId : Nat) : List InlinedDelete :=
  (cat.storage tableId).inlinedDeletes.filter fun x => decide (x.beginSnapshot ≤ snapshotId)

end CountCatalog

/-- The statements a count reads the catalog with, in their order. -/
inductive Statement where
  | snapshotExists
  | inlinedRows
  | files
  | inlinedDeletes
  | currentSnapshot
deriving DecidableEq, Repr

/-- Attributed to one value of the key, under the specification. -/
def PartitionCountFile.attributable (file : PartitionCountFile) (partitionId : Nat) : Bool :=
  file.valueRows == 1 && file.partitionId == some partitionId

def getPartitionCountFacts (sees : Statement → CountCatalog V) (tableId snapshotId partitionId keyIndex : Nat)
    (values : List Text) : Option PartitionCountFacts :=
  if !(sees .snapshotExists).supported then none
  else if !(sees .snapshotExists).snapshotExists snapshotId then some ⟨false, false, [], []⟩
  else
    let rows := (sees .files).visibleCountFiles tableId snapshotId keyIndex
    some
      { snapshotExists := true
        inlinedRowsVisible := (sees .inlinedRows).inlinedRowsVisible tableId snapshotId
        storedValues := (rows.filterMap (·.partitionValue)).dedup
        files := rows.filter fun file =>
          file.partitionValue.any values.contains || !file.attributable partitionId }

/-- What each statement sees of a catalog that others commit to meanwhile: one state in a
consistent read, the one its first statement finds, and otherwise the state of its own
moment. -/
def readConsistently (beginsConsistentRead : Bool) (history : Nat → CountCatalog V) (moment : Statement → Nat) :
    Statement → CountCatalog V :=
  if beginsConsistentRead then fun _ => history (moment .snapshotExists) else fun s => history (moment s)

structure TableColumn where
  columnId : Nat
  columnName : Text
  /-- `data_type`, where the type is one the crate reads. -/
  dataType : Option DataType

/-- The table a count is asked of. -/
structure DuckLakeTable where
  tableId : Nat
  snapshotId : Nat
  columns : List TableColumn
  partitionSpec : Option PartitionSpec

inductive CountError where
  | unsupportedType
deriving DecidableEq, Repr

/-- The key a column is, or why it is none. -/
def DuckLakeTable.identityKey (table : DuckLakeTable) (column : Text) :
    Except PartitionCountUnknown (PartitionSpec × TableColumn × PartitionSpecColumn) :=
  match table.partitionSpec with
  | none => .error .notAPartitionKey
  | some spec =>
    match table.columns.find? (·.columnName == column) with
    | none => .error .notAPartitionKey
    | some keyColumn =>
      match spec.columns.filter (·.columnId == keyColumn.columnId) with
      | [] => .error .notAPartitionKey
      | [key] => if key.transform = .identity then .ok (spec, keyColumn, key) else .error .notIdentityKey
      | _ => .error .ambiguousKey

def partitionLiveRowCounts (fmt : FloatText) (arrow : ArrowParser) (sees : Statement → CountCatalog V)
    (table : DuckLakeTable) (column : Text) (values : List Text) : Except CountError Counts :=
  match table.identityKey column with
  | .error reason => .ok (collectCounts (fun _ => .unknown reason) values)
  | .ok (spec, keyColumn, key) =>
    match keyColumn.dataType with
    | none => .error .unsupportedType
    | some keyType =>
      if keyType.isFloat then .ok (collectCounts (fun _ => .unknown .floatKey) values)
      else
        let facts := getPartitionCountFacts sees table.tableId table.snapshotId spec.partitionId
          key.partitionKeyIndex values
        let inlinedDeletes := (sees .inlinedDeletes).inlinedDeletes table.tableId table.snapshotId
        let atHead := facts.isSome && (sees .currentSnapshot).head == table.snapshotId
        .ok (resolvePartitionCounts fmt arrow values ⟨table.snapshotId, atHead, spec.partitionId, keyType⟩ facts
          inlinedDeletes)

/-! ## Canonical values -/

section Canonical
variable {fmt : FloatText} {arrow : ArrowParser}

/-- The parser gives values of the type it is asked for. -/
def ArrowParser.Typed (arrow : ArrowParser) : Prop := ∀ type text v, arrow type text = some v → v.dataType = type

/-- The value is the one the text spells. -/
def spells (arrow : ArrowParser) (type : DataType) (text : Text) (v : ScalarValue) : Bool :=
  parseDucklakeScalar arrow text type == some v

variable {type : DataType} {text : Text}

theorem parseDucklakeScalar_typed (harrow : arrow.Typed) {v : ScalarValue}
    (h : parseDucklakeScalar arrow text type = some v) : v.dataType = type := by
  unfold parseDucklakeScalar at h
  split at h
  · cases h
    rfl
  · exact harrow _ _ _ h

theorem keyText_of_ne_string {v : ScalarValue} (h : ∀ t, v.dataType ≠ .string t) :
    keyText fmt v = encodeScalar fmt v := by
  unfold keyText
  split
  · exact absurd rfl (h _)
  · rfl

theorem exists_of_isCanonical (harrow : arrow.Typed)
    (h : isCanonicalPartitionValue fmt arrow text type = true) :
    ∃ v, parseDucklakeScalar arrow text type = some v ∧ v.dataType = type ∧ keyText fmt v = some text := by
  by_cases hstring : ∃ t, type = .string t
  · obtain ⟨t, rfl⟩ := hstring
    exact ⟨.string t text, rfl, rfl, rfl⟩
  · have hbind : (parseDucklakeScalar arrow text type).bind (encodeScalar fmt) = some text := by
      cases type with
      | string t => exact absurd ⟨t, rfl⟩ hstring
      | _ => exact beq_iff_eq.mp h
    obtain ⟨v, hparse, hencode⟩ := Option.bind_eq_some_iff.mp hbind
    have htype := parseDucklakeScalar_typed harrow hparse
    refine ⟨v, hparse, htype, ?_⟩
    rw [keyText_of_ne_string, hencode]
    intro t ht
    exact hstring ⟨t, htype.symm.trans ht⟩

theorem keyText_of_spells (harrow : arrow.Typed) {key : ScalarValue}
    (hcanonical : isCanonicalPartitionValue fmt arrow text type = true) (h : spells arrow type text key = true) :
    keyText fmt key = some text := by
  obtain ⟨v, hparse, -, htext⟩ := exists_of_isCanonical harrow hcanonical
  rw [spells, hparse, beq_iff_eq, Option.some.injEq] at h
  rw [← h, htext]

/-- A file whose recorded value is canonical holds the rows of that value and no others. -/
theorem spells_iff_of_records (harrow : arrow.Typed) (hfloat : type.isFloat = false)
    {key : ScalarValue} (htype : key.dataType = type)
    (hcanonical : isCanonicalPartitionValue fmt arrow text type = true) {recorded : Option Text}
    (hrecorded : ∀ t, recorded = some t → isCanonicalPartitionValue fmt arrow t type = true)
    (h : RecordsKey fmt arrow key recorded) : spells arrow type text key = true ↔ recorded = some text := by
  cases recorded with
  | none =>
    have hnull : key.isNull = true := h
    have hno : keyText fmt key = none := by
      cases key with
      | null t => rfl
      | _ => cases hnull
    constructor
    · intro hspells
      rw [keyText_of_spells harrow hcanonical hspells] at hno
      cases hno
    · intro heq
      cases heq
  | some t =>
    obtain ⟨w, hparse, hwtype, hwtext⟩ := exists_of_isCanonical harrow (hrecorded t rfl)
    have htext : keyText fmt key = some t := by
      rcases h.2 with htext | hread
      · exact htext
      · rw [htype, hparse, Option.some.injEq] at hread
        rw [← hread, hwtext]
    constructor
    · intro hspells
      rw [← htext, keyText_of_spells harrow hcanonical hspells]
    · intro heq
      obtain rfl := Option.some.inj heq
      have hkey : w = key :=
        keyText_injective (hwtype.trans htype.symm) (by rw [hwtype, hfloat]) hwtext htext
      rw [spells, hparse, hkey, beq_self_eq_true]

end Canonical

/-! ## One file -/

/-- The catalog's counters are right, and each file of the specification holds the rows of
the value recorded for it. -/
structure CountCatalog.Sound (fmt : FloatText) (arrow : ArrowParser) (cell : V → Nat → ScalarValue)
    (cat : CountCatalog V) (tableId partitionId keyIndex columnId : Nat) (keyType : DataType) : Prop where
  valid : (cat.storage tableId).Valid cat.head cat.nextFileId
  recordCount : ∀ f ∈ (cat.storage tableId).dataFiles, ∀ n, cat.recordCount f.id = some n → n = f.rows.length
  deleteCount : ∀ d ∈ (cat.storage tableId).deleteFiles, ∀ n, cat.deleteCount d.id = some n →
    ∀ f ∈ (cat.storage tableId).dataFiles, f.id = d.dataFileId → n = (List.range f.rows.length).countP d.holds
  dated : ∀ d ∈ (cat.storage tableId).deleteFiles, ∀ m, d.partialMax = some m →
    ∀ e ∈ d.entries, ∀ σ, e.snapshot = some σ → σ ≤ m
  typed : ∀ f ∈ (cat.storage tableId).dataFiles, ∀ row ∈ f.rows, (cell row.value columnId).dataType = keyType
  recorded : ∀ f ∈ (cat.storage tableId).dataFiles, cat.partitionId f.id = some partitionId →
    ∀ v ∈ cat.valuesOf tableId keyIndex f.id, ∀ row ∈ f.rows,
      RecordsKey fmt arrow (cell row.value columnId) v.partitionValue

theorem length_read (f : DataFile V) (keep : Nat → Bool) :
    (f.read fun p _ => keep p).length = (List.range f.rows.length).countP keep := by
  have hpositions : f.rows.zipIdx.map Prod.snd = List.range f.rows.length := by
    rw [List.zipIdx_map_snd, List.range_eq_range']
  rw [DataFile.read, List.length_map, ← List.countP_eq_length_filter, ← hpositions, List.countP_map]
  rfl

theorem length_inlinedByFile (T : TableStorage V) (s id n : Nat) :
    ((inlinedByFile (T.inlinedDeletes.filter fun x => decide (x.beginSnapshot ≤ s)) id).filter
      fun p : Nat => decide ((p : Int) < (n : Int))).length = (List.range n).countP (T.inlinedDeleted id s) := by
  rw [List.countP_eq_length_filter, inlinedByFile]
  apply List.Perm.length_eq
  rw [List.perm_ext_iff_of_nodup ((List.nodup_dedup _).filter _) (List.nodup_range.filter _)]
  intro p
  simp only [List.mem_filter, List.mem_dedup, List.mem_map, List.mem_range, decide_eq_true_eq,
    TableStorage.inlinedDeleted, List.any_eq_true, Bool.and_eq_true, beq_iff_eq, Int.ofNat_lt]
  constructor
  · intro h
    obtain ⟨⟨x, ⟨⟨hx, hs⟩, hid⟩, rfl⟩, hp⟩ := h
    exact ⟨hp, x, hx, ⟨hid, rfl⟩, hs⟩
  · intro h
    obtain ⟨hp, x, hx, ⟨hid, rfl⟩, hs⟩ := h
    exact ⟨⟨x, ⟨⟨hx, hs⟩, hid⟩, rfl⟩, hp⟩

theorem insertedLater_eq_false {f : DataFile V} {s : Nat} (h : (f.partialMax.any fun max => decide (s < max)) = false)
    (row : FileRow V) : f.insertedLater s row = false := by
  rw [DataFile.insertedLater, h, Bool.false_and]

section File
variable {fmt : FloatText} {arrow : ArrowParser} {cell : V → Nat → ScalarValue} {cat : CountCatalog V}
  {tableId partitionId keyIndex columnId : Nat} {keyType : DataType}

theorem deletedRows_right (hs : cat.Sound fmt arrow cell tableId partitionId keyIndex columnId keyType)
    {f : DataFile V} (hf : f ∈ (cat.storage tableId).dataFiles) {read : CountRead} {rows deleted : Int}
    (hhead : read.atHead = true → cat.head ≤ read.snapshotId)
    (h : deletedRows (cat.countFileRow tableId read.snapshotId keyIndex f) read rows = .ok deleted) :
    ∃ d, (cat.storage tableId).joinedDeleteFiles f.id read.snapshotId = [d] ∧
      deleted = (List.range f.rows.length).countP (fun p => d.any (·.deletes read.snapshotId p)) ∧
      (d.isSome = true → 0 < (cat.countFileRow tableId read.snapshotId keyIndex f).deleteFiles) := by
  cases hdeletes : (cat.storage tableId).deleteFilesAt f.id read.snapshotId with
  | nil =>
    simp only [deletedRows, CountCatalog.countFileRow, hdeletes, List.length_nil, Except.ok.injEq] at h
    subst h
    refine ⟨none, by simp only [TableStorage.joinedDeleteFiles, hdeletes], by simp, fun h => nomatch h⟩
  | cons d rest =>
    cases rest with
    | cons d' rest =>
      simp [deletedRows, CountCatalog.countFileRow, hdeletes] at h
    | nil =>
      have hmem : d ∈ (cat.storage tableId).deleteFilesAt f.id read.snapshotId := by
        rw [hdeletes]
        exact List.mem_singleton_self d
      obtain ⟨hd, hvisible⟩ := List.mem_filter.mp hmem
      rw [Bool.and_eq_true, beq_iff_eq] at hvisible
      have hone : (cat.countFileRow tableId read.snapshotId keyIndex f).deleteFiles = 1 := by
        simp only [CountCatalog.countFileRow, hdeletes, List.length_singleton]
      have hpartial : (cat.countFileRow tableId read.snapshotId keyIndex f).deletePartialMax = d.partialMax := by
        simp only [CountCatalog.countFileRow, hdeletes]
      have hcounter : (cat.countFileRow tableId read.snapshotId keyIndex f).deleteCount = cat.deleteCount d.id := by
        simp only [CountCatalog.countFileRow, hdeletes]
      simp only [deletedRows, hone, hcounter] at h
      split at h
      · cases h
      · next hcomplete =>
        -- every deletion of the file was made by the snapshot
        have hdated : ∀ e ∈ d.entries, ∀ σ, e.snapshot = some σ → σ ≤ read.snapshotId := by
          intro e he σ hσ
          rw [Bool.not_eq_true', Bool.not_eq_false, PartitionCountFile.complete, hpartial] at hcomplete
          cases hm : d.partialMax with
          | some m =>
            rw [hm] at hcomplete
            exact (hs.dated d hd m hm e he σ hσ).trans (of_decide_eq_true hcomplete)
          | none =>
            rw [hm] at hcomplete
            exact (hs.valid.dated d hd e he σ hσ).trans (hhead hcomplete)
        split at h
        · next n hcount =>
          split at h
          · obtain rfl := Except.ok.inj h
            refine ⟨some d, by simp only [TableStorage.joinedDeleteFiles, hdeletes, List.map_singleton], ?_, ?_⟩
            · rw [hs.deleteCount d hd _ hcount f hf hvisible.1.symm]
              congr 1
              apply List.countP_congr
              intro p _
              rw [Option.any_some, DeleteFile.deletes_eq_holds hdated]
            · intro _
              rw [hone]
              exact Nat.one_pos
          · cases h
        · cases h

/-- What is counted of a file is what a scan at the snapshot returns of it. -/
theorem liveRows_right (hs : cat.Sound fmt arrow cell tableId partitionId keyIndex columnId keyType)
    {f : DataFile V} (hf : f ∈ (cat.storage tableId).dataFiles) {read : CountRead} {live : Nat}
    (hhead : read.atHead = true → cat.head ≤ read.snapshotId)
    (h : liveRows (cat.countFileRow tableId read.snapshotId keyIndex f) read
      (inlinedByFile (cat.inlinedDeletes tableId read.snapshotId) f.id) = .ok live) :
    ((cat.storage tableId).scanFile read.snapshotId f).length = live := by
  unfold liveRows at h
  split at h
  · cases h
  · next rows hrows =>
    obtain rfl := hs.recordCount f hf rows hrows
    split at h
    · cases h
    · split at h
      · cases h
      · next hpartial =>
        split at h
        · cases h
        · next deleted hdeleted =>
          obtain ⟨d, hjoined, hcount, hsome⟩ := deletedRows_right hs hf hhead hdeleted
          rw [CountCatalog.inlinedDeletes, length_inlinedByFile] at h
          dsimp only at h
          split at h
          · cases h
          · next hapart =>
            obtain rfl := Except.ok.inj h
            have hread : (cat.storage tableId).readFile read.snapshotId f d =
                f.read fun p _ => !(d.any (·.deletes read.snapshotId p)) &&
                  !(cat.storage tableId).inlinedDeleted f.id read.snapshotId p := by
              apply DataFile.read_congr
              intro x _
              rw [insertedLater_eq_false (Bool.eq_false_iff.mpr hpartial), Bool.not_false, Bool.true_and]
            have hdisjoint : ∀ p < f.rows.length, d.any (·.deletes read.snapshotId p) = true →
                (cat.storage tableId).inlinedDeleted f.id read.snapshotId p = false := by
              intro p hp hd
              by_contra hin
              have hpos : 0 < (List.range f.rows.length).countP
                  ((cat.storage tableId).inlinedDeleted f.id read.snapshotId) :=
                List.countP_pos_iff.mpr ⟨p, List.mem_range.mpr hp, Bool.not_eq_false _ ▸ hin⟩
              have hd' : d.isSome = true := by
                cases d with
                | none => cases hd
                | some d => rfl
              exact hapart ⟨by exact_mod_cast hpos, hsome hd'⟩
            have hsum := Lists.countP_neither fun p hp => hdisjoint p (List.mem_range.mp hp)
            rw [List.length_range] at hsum
            rw [TableStorage.scanFile, hjoined, List.flatMap_singleton, hread,
              length_read f fun p => !(d.any (·.deletes read.snapshotId p)) &&
                !(cat.storage tableId).inlinedDeleted f.id read.snapshotId p, hcount]
            omega

end File

/-! ## The loop over the files -/

theorem getElem?_collectCounts (count : Text → PartitionRowCount) (values : List Text) (v : Text) :
    (collectCounts count values)[v]? = if v ∈ values then some (count v) else none := by
  have hfold : ∀ (values : List Text) (counts : Counts),
      (values.foldl (fun counts value => counts.insert value (count value)) counts)[v]? =
        if v ∈ values then some (count v) else counts[v]? := by
    intro values
    induction values with
    | nil =>
      intro counts
      simp
    | cons value values ih =>
      intro counts
      rw [List.foldl_cons, ih, Std.TreeMap.getElem?_insert]
      by_cases hmem : v ∈ values
      · rw [if_pos hmem, if_pos (List.mem_cons_of_mem _ hmem)]
      · rw [if_neg hmem]
        by_cases heq : value = v
        · subst heq
          simp
        · rw [if_neg (by simpa using heq), if_neg (by simp [hmem, Ne.symm heq])]
  rw [collectCounts, hfold, Std.TreeMap.getElem?_emptyc]

theorem not_exact_of_unknown {reason : PartitionCountUnknown} {values : List Text} {v : Text} {n : Nat} :
    (collectCounts (fun _ => .unknown reason) values)[v]? ≠ some (.exact n) := by
  rw [getElem?_collectCounts]
  split
  · exact fun h => nomatch h
  · exact fun h => nomatch h

section Loop
variable {read : CountRead} {inlinedDeletes : List InlinedDelete} {v : Text} {n : Nat}

/-- What a file adds to its value. -/
def fileRows (read : CountRead) (inlinedDeletes : List InlinedDelete) (file : PartitionCountFile) :
    Except PartitionCountUnknown Nat := liveRows file read (inlinedByFile inlinedDeletes file.dataFileId)

theorem addRows_eq_exact {total : Nat} {live : Except PartitionCountUnknown Nat} (h : addRows total live = .exact n) :
    ∃ m, live = .ok m ∧ n = total + m := by
  cases live with
  | error reason => cases h
  | ok m =>
    rw [addRows] at h
    split at h
    · cases h
      exact ⟨m, rfl, rfl⟩
    · cases h

theorem countFile_seen (state : List Nat × Counts) (file : PartitionCountFile) {id : Nat}
    (h : id ∈ (countFile read inlinedDeletes state file).1) : id = file.dataFileId ∨ id ∈ state.1 := by
  unfold countFile at h
  split at h
  · exact .inr h
  · split at h
    · exact .inr h
    · split at h
      · exact .inr h
      · exact List.mem_cons.mp h

/-- One file changes the count of its own value only, and keeps it exact by adding its rows. -/
theorem countFile_step {state : List Nat × Counts} {file : PartitionCountFile} (hseen : file.dataFileId ∉ state.1)
    (h : (countFile read inlinedDeletes state file).2[v]? = some (.exact n)) :
    if file.partitionValue = some v then
      ∃ m live, state.2[v]? = some (.exact m) ∧ fileRows read inlinedDeletes file = .ok live ∧ n = m + live
    else state.2[v]? = some (.exact n) := by
  unfold countFile at h
  split at h
  · next hnone =>
    rw [hnone, if_neg (fun h => nomatch h)]
    exact h
  · next value hvalue =>
    rw [hvalue]
    split at h
    · next hmissing =>
      rw [if_neg]
      · exact h
      · intro heq
        obtain rfl := Option.some.inj heq
        rw [hmissing] at h
        cases h
    · next count hcount =>
      rw [if_neg (by simpa using hseen)] at h
      cases count with
      | unknown reason =>
        rw [if_neg]
        · exact h
        · intro heq
          obtain rfl := Option.some.inj heq
          rw [hcount] at h
          cases h
      | exact total =>
        rw [Std.TreeMap.getElem?_insert] at h
        by_cases heq : value = v
        · subst heq
          rw [if_pos rfl]
          rw [if_pos (by simp), Option.some.injEq] at h
          obtain ⟨live, hlive, hn⟩ := addRows_eq_exact h
          exact ⟨total, live, hcount, hlive, hn⟩
        · rw [if_neg (by simpa using heq)] at h
          rw [if_neg (by simpa using heq)]
          exact h

theorem countFiles_spec {files : List PartitionCountFile} (hids : (files.map (·.dataFileId)).Nodup)
    {state : List Nat × Counts} (hseen : ∀ file ∈ files, file.dataFileId ∉ state.1)
    (h : (files.foldl (countFile read inlinedDeletes) state).2[v]? = some (.exact n)) :
    ∃ m, state.2[v]? = some (.exact m) ∧
      (∀ file ∈ files, file.partitionValue = some v → ∃ live, fileRows read inlinedDeletes file = .ok live) ∧
      n = m + (files.map fun file =>
        if file.partitionValue = some v then (fileRows read inlinedDeletes file).toOption.getD 0 else 0).sum := by
  induction files generalizing state with
  | nil => exact ⟨n, h, (fun _ h => nomatch h), rfl⟩
  | cons file files ih =>
    rw [List.map_cons, List.nodup_cons] at hids
    rw [List.foldl_cons] at h
    have hrestSeen : ∀ other ∈ files, other.dataFileId ∉ (countFile read inlinedDeletes state file).1 := by
      intro other hother hmem
      rcases countFile_seen state file hmem with heq | hmem
      · exact hids.1 (heq ▸ List.mem_map_of_mem hother)
      · exact hseen other (List.mem_cons_of_mem _ hother) hmem
    obtain ⟨m, hm, hall, hsum⟩ := ih hids.2 hrestSeen h
    have hstep := countFile_step (hseen file List.mem_cons_self) hm
    rw [List.map_cons, List.sum_cons]
    by_cases hvalue : file.partitionValue = some v
    · rw [if_pos hvalue] at hstep
      obtain ⟨m₀, live, hm₀, hlive, hadd⟩ := hstep
      refine ⟨m₀, hm₀, ?_, ?_⟩
      · intro other hother hother'
        rcases List.mem_cons.mp hother with rfl | hother
        · exact ⟨live, hlive⟩
        · exact hall other hother hother'
      · rw [if_pos hvalue, hlive, hsum, hadd]
        exact Nat.add_assoc _ _ _
    · rw [if_neg hvalue] at hstep
      refine ⟨m, hstep, ?_, ?_⟩
      · intro other hother hother'
        rcases List.mem_cons.mp hother with rfl | hother
        · exact absurd hother' hvalue
        · exact hall other hother hother'
      · rw [if_neg hvalue, hsum, Nat.zero_add]

end Loop

/-! ## The table -/

/-- The rows of a scan that stand for a value of the key. -/
def liveRowsOf (arrow : ArrowParser) (cell : V → Nat → ScalarValue) (T : TableStorage V) (snapshotId columnId : Nat)
    (keyType : DataType) (value : Text) : Nat :=
  (T.scan snapshotId).countP fun r => spells arrow keyType value (cell r.value columnId)

section Table
variable {fmt : FloatText} {arrow : ArrowParser} {cell : V → Nat → ScalarValue} {cat : CountCatalog V}
  {tableId partitionId keyIndex columnId : Nat} {keyType : DataType} {s : Nat} {v : Text}

theorem scanInlined_eq_nil (hv : (cat.storage tableId).Valid cat.head cat.nextFileId)
    (h : cat.inlinedRowsVisible tableId s = false) : (cat.storage tableId).scanInlined s = [] := by
  rw [TableStorage.scanInlined, List.map_eq_nil_iff, List.filter_eq_nil_iff]
  intro r hr hvisible
  have htable : r.table ∈ (cat.storage tableId).inlinedTables := by
    have hreg := hv.registered r hr
    rwa [List.contains_iff_mem] at hreg
  have htrue : cat.inlinedRowsVisible tableId s = true :=
    List.any_eq_true.mpr ⟨r.table, htable, List.any_eq_true.mpr ⟨r, hr, by rw [beq_self_eq_true, hvisible]; rfl⟩⟩
  rw [h] at htrue
  cases htrue

theorem exists_row_of_mem_scanFile {f : DataFile V} {T : TableStorage V} {r : ScanRow V} (h : r ∈ T.scanFile s f) :
    ∃ row ∈ f.rows, r.value = row.value := by
  obtain ⟨d, -, h⟩ := List.mem_flatMap.mp h
  obtain ⟨row, p, hrow, -, rfl⟩ := DataFile.mem_read.mp h
  exact ⟨row, (List.mem_zipIdx' hrow).2 ▸ List.getElem_mem _, rfl⟩

/-- A visible file of one canonical value: all its rows are of the value, or none. -/
theorem countP_scanFile (hs : cat.Sound fmt arrow cell tableId partitionId keyIndex columnId keyType)
    (harrow : arrow.Typed) (hfloat : keyType.isFloat = false) {f : DataFile V}
    (hf : f ∈ (cat.storage tableId).dataFiles)
    (hattributable : (cat.countFileRow tableId s keyIndex f).attributable partitionId = true)
    (hcanonical : isCanonicalPartitionValue fmt arrow v keyType = true)
    (hstored : ∀ t, (cat.countFileRow tableId s keyIndex f).partitionValue = some t →
      isCanonicalPartitionValue fmt arrow t keyType = true) :
    ((cat.storage tableId).scanFile s f).countP (fun r => spells arrow keyType v (cell r.value columnId)) =
      if (cat.countFileRow tableId s keyIndex f).partitionValue = some v then
        ((cat.storage tableId).scanFile s f).length else 0 := by
  rw [PartitionCountFile.attributable, Bool.and_eq_true, beq_iff_eq, beq_iff_eq] at hattributable
  obtain ⟨hone, hspec⟩ := hattributable
  obtain ⟨w, hw⟩ := List.length_eq_one_iff.mp hone
  have hvalue : (cat.countFileRow tableId s keyIndex f).partitionValue = w.partitionValue := by
    simp only [CountCatalog.countFileRow, hw]
  have hspells : ∀ r ∈ (cat.storage tableId).scanFile s f,
      (spells arrow keyType v (cell r.value columnId) = true ↔ w.partitionValue = some v) := by
    intro r hr
    obtain ⟨row, hrow, hrv⟩ := exists_row_of_mem_scanFile hr
    rw [hrv]
    have hrecords := hs.recorded f hf hspec w (hw ▸ List.mem_singleton_self w) row hrow
    exact spells_iff_of_records harrow hfloat (hs.typed f hf row hrow) hcanonical (hvalue ▸ hstored) hrecords
  rw [hvalue]
  split
  · next heq => exact List.countP_eq_length.mpr fun r hr => (hspells r hr).mpr heq
  · next hne => exact List.countP_eq_zero.mpr fun r hr h => hne ((hspells r hr).mp h)

/-- The files the facts leave out hold no row of a value asked for. -/
theorem sum_countFiles (values : List Text) (hv : v ∈ values) (g : PartitionCountFile → Nat)
    (rows : List PartitionCountFile) :
    ((rows.filter fun file => file.partitionValue.any values.contains || !file.attributable partitionId).map
      fun file => if file.partitionValue = some v then g file else 0).sum =
    (rows.map fun file => if file.partitionValue = some v then g file else 0).sum := by
  induction rows with
  | nil => rfl
  | cons file rows ih =>
    rw [List.filter_cons, List.map_cons, List.sum_cons]
    split
    · rw [List.map_cons, List.sum_cons, ih]
    · next hout =>
      rw [ih, if_neg, Nat.zero_add]
      intro hvalue
      apply hout
      rw [hvalue, Option.any_some, List.contains_iff_mem.mpr hv, Bool.true_or]

/-- What an exact count rests on. -/
structure Accounted (fmt : FloatText) (arrow : ArrowParser) (cat : CountCatalog V) (tableId keyIndex : Nat)
    (read : CountRead) (v : Text) (n : Nat) : Prop where
  inlined : cat.inlinedRowsVisible tableId read.snapshotId = false
  attributable : ∀ file ∈ cat.visibleCountFiles tableId read.snapshotId keyIndex,
    file.attributable read.partitionId = true
  stored : ∀ file ∈ cat.visibleCountFiles tableId read.snapshotId keyIndex, ∀ t, file.partitionValue = some t →
    isCanonicalPartitionValue fmt arrow t read.keyType = true
  canonical : isCanonicalPartitionValue fmt arrow v read.keyType = true
  counted : ∀ file ∈ cat.visibleCountFiles tableId read.snapshotId keyIndex, file.partitionValue = some v →
    ∃ live, fileRows read (cat.inlinedDeletes tableId read.snapshotId) file = .ok live
  sum : n = ((cat.visibleCountFiles tableId read.snapshotId keyIndex).map fun file =>
    if file.partitionValue = some v then
      (fileRows read (cat.inlinedDeletes tableId read.snapshotId) file).toOption.getD 0 else 0).sum

theorem accounted_of_exact {read : CountRead} {values : List Text} {n : Nat}
    (hdata : ((cat.storage tableId).dataFiles.map (·.id)).Nodup)
    (h : (resolvePartitionCounts fmt arrow values read
      (getPartitionCountFacts (fun _ => cat) tableId read.snapshotId read.partitionId keyIndex values)
      (cat.inlinedDeletes tableId read.snapshotId))[v]? = some (.exact n)) :
    Accounted fmt arrow cat tableId keyIndex read v n := by
  unfold resolvePartitionCounts getPartitionCountFacts at h
  split at h
  · exact absurd h not_exact_of_unknown
  · next facts hfacts =>
    split at hfacts
    · cases hfacts
    · split at hfacts
      · cases hfacts
        exact absurd h not_exact_of_unknown
      · obtain rfl := Option.some.inj hfacts
        dsimp only at h
        rw [if_neg (by simp)] at h
        split at h
        · exact absurd h not_exact_of_unknown
        · next hinlined =>
          split at h
          · exact absurd h not_exact_of_unknown
          · next hattributed =>
            rw [Bool.or_eq_true, not_or, List.any_eq_true, List.any_eq_true] at hattributed
            obtain ⟨hfiles, hstored⟩ := hattributed
            have hids : ((cat.visibleCountFiles tableId read.snapshotId keyIndex).map (·.dataFileId)).Nodup := by
              rw [CountCatalog.visibleCountFiles, List.map_map]
              exact hdata.sublist (List.filter_sublist.map _)
            obtain ⟨m, hm, hlive, hsum⟩ := countFiles_spec (hids.sublist (List.filter_sublist.map _))
              (fun _ _ => List.not_mem_nil) h
            rw [getElem?_collectCounts] at hm
            split at hm
            · next hv =>
              split at hm
              · next hcanonical =>
                obtain rfl : 0 = m := by simpa using hm
                rw [sum_countFiles values hv, Nat.zero_add] at hsum
                refine ⟨Bool.eq_false_iff.mpr hinlined, ?_, ?_, hcanonical, ?_, hsum⟩
                · intro file hfile
                  by_contra hnot
                  refine hfiles ⟨file, List.mem_filter.mpr ⟨hfile, ?_⟩, ?_⟩
                  · rw [Bool.eq_false_iff.mpr hnot, Bool.not_false, Bool.or_true]
                  · rw [PartitionCountFile.attributable, Bool.and_eq_true, beq_iff_eq, beq_iff_eq, not_and_or] at hnot
                    rcases hnot with hnot | hnot <;> simp [hnot]
                · intro file hfile t ht
                  by_contra hnot
                  exact hstored ⟨t, List.mem_dedup.mpr (List.mem_filterMap.mpr ⟨file, hfile, ht⟩),
                    by rw [Bool.eq_false_iff.mpr hnot]; rfl⟩
                · intro file hfile hvalue
                  refine hlive file (List.mem_filter.mpr ⟨hfile, ?_⟩) hvalue
                  rw [hvalue, Option.any_some, List.contains_iff_mem.mpr hv, Bool.true_or]
              · cases hm
            · cases hm

/-- Counted at one state of the catalog, the rows are those of a scan. -/
theorem Accounted.right {read : CountRead} {n : Nat} (h : Accounted fmt arrow cat tableId keyIndex read v n)
    (hs : cat.Sound fmt arrow cell tableId read.partitionId keyIndex columnId read.keyType) (harrow : arrow.Typed)
    (hfloat : read.keyType.isFloat = false) (hhead : read.atHead = true → cat.head ≤ read.snapshotId) :
    liveRowsOf arrow cell (cat.storage tableId) read.snapshotId columnId read.keyType v = n := by
  have hrows : ∀ f ∈ (cat.storage tableId).dataFiles.filter (·.visibleAt read.snapshotId),
      ((cat.storage tableId).scanFile read.snapshotId f).countP
        (fun r => spells arrow read.keyType v (cell r.value columnId)) =
      if (cat.countFileRow tableId read.snapshotId keyIndex f).partitionValue = some v then
        (fileRows read (cat.inlinedDeletes tableId read.snapshotId)
          (cat.countFileRow tableId read.snapshotId keyIndex f)).toOption.getD 0 else 0 := by
    intro f hf
    have hfmem := (List.mem_filter.mp hf).1
    have hrow : cat.countFileRow tableId read.snapshotId keyIndex f ∈
        cat.visibleCountFiles tableId read.snapshotId keyIndex := List.mem_map_of_mem hf
    rw [countP_scanFile hs harrow hfloat hfmem (h.attributable _ hrow) h.canonical (h.stored _ hrow)]
    split
    · next hvalue =>
      obtain ⟨live, hlive⟩ := h.counted _ hrow hvalue
      rw [hlive, liveRows_right hs hfmem hhead hlive]
      rfl
    · rfl
  rw [liveRowsOf, TableStorage.scan, scanInlined_eq_nil hs.valid h.inlined, List.append_nil, List.countP_flatMap, h.sum,
    CountCatalog.visibleCountFiles, List.map_map]
  congr 1
  exact List.map_congr_left hrows

end Table

/-- Whatever others commit between its statements, an exact count is the number of live
rows of the value at the table's snapshot, when the statements share a consistent read. -/
theorem exact_count_right (fmt : FloatText) {arrow : ArrowParser} (harrow : arrow.Typed)
    (cell : V → Nat → ScalarValue) (history : Nat → CountCatalog V) (moment : Statement → Nat)
    (table : DuckLakeTable) (column : Text) (values : List Text) {spec : PartitionSpec} {keyColumn : TableColumn}
    {key : PartitionSpecColumn} {keyType : DataType} (hkey : table.identityKey column = .ok (spec, keyColumn, key))
    (htype : keyColumn.dataType = some keyType)
    (hsound : ∀ t, (history t).Sound fmt arrow cell table.tableId spec.partitionId key.partitionKeyIndex
      keyColumn.columnId keyType) {counts : Counts}
    (hcounts : partitionLiveRowCounts fmt arrow (readConsistently true history moment) table column values = .ok counts)
    {v : Text} {n : Nat} (hv : counts[v]? = some (.exact n)) :
    liveRowsOf arrow cell ((history (moment .snapshotExists)).storage table.tableId) table.snapshotId
      keyColumn.columnId keyType v = n := by
  rw [partitionLiveRowCounts, hkey] at hcounts
  dsimp only at hcounts
  rw [htype] at hcounts
  dsimp only at hcounts
  split at hcounts
  · cases hcounts
    exact absurd hv not_exact_of_unknown
  · next hfloat =>
    obtain rfl := Except.ok.inj hcounts
    refine (accounted_of_exact (hsound _).valid.dataIds hv).right (hsound _) harrow (Bool.eq_false_iff.mpr hfloat) ?_
    intro hhead
    rw [Bool.and_eq_true, beq_iff_eq] at hhead
    exact hhead.2.le

/-! ## A flush between the reads

A file of two rows of one value, the first deleted in the catalog. -/

def integerReader : ArrowParser := fun type text =>
  match type with
  | .integer t => (Numeral.parseInt text).map (.integer t)
  | _ => none

theorem integerReader_typed : integerReader.Typed := by
  intro type text v h
  cases type with
  | integer t =>
    obtain ⟨n, -, rfl⟩ := Option.map_eq_some_iff.mp h
    rfl
  | _ => cases h

def noFloat : FloatText := ⟨fun _ => none, fun _ => none⟩

def integerCell (v : Int) (_ : Nat) : ScalarValue := .integer .int64 v

def countedStorage : TableStorage Int :=
  { dataFiles := [⟨⟨1, none⟩, 0, some 0, none, [], true, [⟨none, none, 5⟩, ⟨none, none, 5⟩]⟩]
    deleteFiles := [], inlinedRows := [], inlinedDeletes := [⟨0, 0, 2⟩], inlinedTables := [], nextRowId := 2 }

def countedLake : Catalog Int :=
  { snapshots := [⟨1, 0⟩, ⟨2, 0⟩], changes := [⟨1, [⟨.insertedIntoTable, 7⟩]⟩, ⟨2, [⟨.deletedFromTable, 7⟩]⟩]
    schemas := [⟨⟨0, none⟩, 1, [], true⟩], tables := [⟨⟨0, none⟩, 7, 1, [], true⟩], storage := fun _ => countedStorage
    scheduled := [], nextFileId := 1, clock := 0 }

/-- The flush that moves the deletion to a delete file. -/
def deletionFlush : InlinedFlushTable Int :=
  ⟨7, [], [], (Plan.planFileDeletes (Plan.inlinedFileDeletesForFlush countedStorage 2)).map (·.toFileDelete ⟨[], true⟩)⟩

def flushedLake : Catalog Int :=
  ((commitInlinedFlush 2 [deletionFlush] countedLake).toOption.map Prod.snd).getD countedLake

/-- Snapshot 2 of the table, partitioned by column 1. -/
def countedTable : DuckLakeTable :=
  ⟨7, 2, [⟨1, "k".toList, some (.integer .int64)⟩], some ⟨3, [⟨0, 1, .identity⟩], true⟩⟩

def withCounters (cat : Catalog Int) : CountCatalog Int :=
  ⟨cat, true, fun _ => some 3, fun _ => some 2, fun _ => some 1, [⟨7, 0, 0, some "5".toList⟩]⟩

def flushHistory (t : Nat) : CountCatalog Int := withCounters (if t = 0 then countedLake else flushedLake)

/-- The flush commits after the files are read. -/
def betweenReads : Statement → Nat
  | .inlinedDeletes | .currentSnapshot => 1
  | _ => 0

def flushedStorage : TableStorage Int :=
  { countedStorage with
    deleteFiles := [⟨⟨2, none⟩, 1, 0, some 2, [], true, [⟨0, some 2⟩]⟩]
    inlinedDeletes := [] }

theorem sound_of_storage {cat : Catalog Int} (hvalid : (cat.storage 7).Valid cat.head cat.nextFileId)
    (hdata : (cat.storage 7).dataFiles = countedStorage.dataFiles)
    (hdelete : ∀ d ∈ (cat.storage 7).deleteFiles, d ∈ flushedStorage.deleteFiles) :
    (withCounters cat).Sound noFloat integerReader integerCell 7 3 0 1 (.integer .int64) where
  valid := hvalid
  recordCount f hf n hn := by
    have hmem : f ∈ countedStorage.dataFiles := hdata ▸ hf
    obtain rfl := List.mem_singleton.mp hmem
    exact (Option.some.inj hn).symm
  deleteCount d hd n hn f hf _ := by
    have hmem : f ∈ countedStorage.dataFiles := hdata ▸ hf
    obtain rfl := List.mem_singleton.mp hmem
    obtain rfl := List.mem_singleton.mp (hdelete d hd)
    exact (Option.some.inj hn).symm
  dated d hd m hm e he σ hσ := by
    obtain rfl := List.mem_singleton.mp (hdelete d hd)
    obtain rfl := List.mem_singleton.mp he
    cases hm
    cases hσ
    exact Nat.le_refl _
  typed _ _ _ _ := rfl
  recorded f hf _ v hv row hrow := by
    have hmem : f ∈ countedStorage.dataFiles := hdata ▸ hf
    obtain rfl := List.mem_singleton.mp hmem
    obtain rfl := List.mem_singleton.mp hv
    refine ⟨rfl, .inl ?_⟩
    have hfive : row.value = 5 := by
      simp only [List.mem_cons, List.not_mem_nil, or_false, or_self] at hrow
      rw [hrow]
    rw [hfive]
    decide

theorem countedStorage_issued : countedStorage.IssuedRowIds where
  file f hf x hx i hi := by
    obtain rfl := List.mem_singleton.mp hf
    have hx : x = (⟨none, none, 5⟩, 0) ∨ x = (⟨none, none, 5⟩, 1) := by simpa using hx
    rcases hx with rfl | rfl
    · cases hi
      decide
    · cases hi
      decide
  inlined _ hr := nomatch hr

theorem countedStorage_valid : countedStorage.Valid 2 1 := by
  constructor <;> simp [countedStorage, DataFile.OriginsInRange]
  · exact ⟨by decide, by simp⟩
  · exact countedStorage_issued

theorem flushedStorage_valid : flushedStorage.Valid 3 2 := by
  constructor <;> simp [flushedStorage, countedStorage, DataFile.OriginsInRange]
  · exact ⟨by decide, by simp⟩
  · exact ⟨by decide, by simp⟩
  · exact ⟨countedStorage_issued.file, countedStorage_issued.inlined⟩

theorem flushHistory_sound (t : Nat) :
    (flushHistory t).Sound noFloat integerReader integerCell 7 3 0 1 (.integer .int64) := by
  unfold flushHistory
  split
  · exact sound_of_storage countedStorage_valid rfl (fun _ hd => nomatch hd)
  · exact sound_of_storage flushedStorage_valid rfl (fun _ hd => hd)

/-- Read apart, the file is counted without the deletion that the flush moves from the
catalog to a delete file in between. -/
theorem flush_between_reads :
    (commitInlinedFlush 2 [deletionFlush] countedLake = .ok (3, flushedLake) ∧
      ∀ t, (flushHistory t).Sound noFloat integerReader integerCell 7 3 0 1 (.integer .int64)) ∧
    (partitionLiveRowCounts noFloat integerReader (readConsistently false flushHistory betweenReads) countedTable
      "k".toList ["5".toList]).toOption.bind (·["5".toList]?) = some (.exact 2) ∧
    ∀ t, liveRowsOf integerReader integerCell ((flushHistory t).storage 7) 2 1 (.integer .int64) "5".toList = 1 := by
  refine ⟨⟨rfl, flushHistory_sound⟩, by decide +kernel, ?_⟩
  intro t
  unfold flushHistory
  split <;> decide +kernel

/-- In a consistent read the flush does not come in between. -/
theorem consistent_read_counts : ∃ counts,
    partitionLiveRowCounts noFloat integerReader (readConsistently true flushHistory betweenReads) countedTable
      "k".toList ["5".toList] = .ok counts ∧ counts["5".toList]? = some (.exact 1) ∧
    liveRowsOf integerReader integerCell ((flushHistory 0).storage 7) 2 1 (.integer .int64) "5".toList = 1 := by
  obtain ⟨counts, hcounts, hone⟩ : ∃ counts,
      partitionLiveRowCounts noFloat integerReader (readConsistently true flushHistory betweenReads) countedTable
        "k".toList ["5".toList] = .ok counts ∧ counts["5".toList]? = some (.exact 1) :=
    ⟨_, rfl, by decide +kernel⟩
  exact ⟨counts, hcounts, hone, exact_count_right noFloat integerReader_typed integerCell flushHistory betweenReads
    countedTable "k".toList ["5".toList] rfl rfl flushHistory_sound hcounts hone⟩

end DuckLake.Partition
