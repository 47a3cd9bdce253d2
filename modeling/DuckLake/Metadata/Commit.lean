import DuckLake.Metadata.Stage
import Mathlib.Data.List.Sort

/- The commits of `metadata_writer_sqlite.rs`, each one transaction over the
   catalog: `commit_multi_table` (staged inserts, deletes, updates and replaces),
   `commit_compaction` with both retirements, `commit_inlined_flush` and
   `commit_truncate`. Table creation, columns, partitions and statistics are left
   out: a write goes to a table that exists. -/

namespace DuckLake.Metadata

open Versioned Checked

variable {V : Type}

namespace Catalog

def tableLive (cat : Catalog V) (tableId : Nat) : Bool :=
  cat.tables.any fun t => t.tableId == tableId && t.live

/-- The versions of a table joined with their schemas. -/
def location (cat : Catalog V) (tableId : Nat) : List (TableRow × SchemaRow) :=
  (cat.tables.filter (·.tableId == tableId)).flatMap fun t =>
    (cat.schemas.filter (·.schemaId == t.schemaId)).map fun s => (t, s)

/-- Run an update of one table's rows. -/
def withTable (cat : Catalog V) (tableId : Nat) (update : TableTx V → Result (TableTx V)) :
    Result (Catalog V) := do
  let tx ← update ⟨cat.storage tableId, cat.nextFileId, cat.scheduled, cat.location tableId⟩
  return { cat with
    storage := Function.update cat.storage tableId tx.storage
    nextFileId := tx.nextFileId
    scheduled := tx.scheduled }

end Catalog

/-! ## Staged writes -/

section Staged
variable (write : StagedTableWrite V)

namespace StagedTableWrite

/-- The data files a stage names, once each. -/
def namedFiles : List Nat :=
  write.positionalDeletes.map (·.dataFileId) ++ write.rewrittenDeletes.map (·.dataFileId) ++
    write.inlinedFileDeletes.map (·.dataFileId) ++ write.droppedFiles.map (·.dataFileId)

def inlinedRowCount : Nat :=
  match write.data with
  | .inlined rows => rows.length
  | _ => 0

end StagedTableWrite

def validateRowMutationStage : Result Unit := do
  refuseIf (write.inlinedRowIds.any fun rowIds => write.inlinedRowCount ≠ rowIds.length)
    (.invalidConfig "staged write has another number of preserved row ids than of inlined rows")
  refuseIf (¬ write.namedFiles.Nodup)
    (.invalidConfig "staged write names a data file more than once")
  refuseIf (write.inlinedFileDeletes.any (·.positions.isEmpty))
    (.invalidConfig "an inlined file delete must name at least one position")
  refuseIf (write.rewrittenDeletes.any (·.expectedPrevDeleteFile.isNone))
    (.invalidConfig "a rewritten delete file must name the delete file it replaces")

/-- The snapshot a stage dates its deletions to in the delete files it rewrites. -/
def rewrittenDeletesSnapshot : Option Nat :=
  (write.rewrittenDeletes.filterMap (·.delete.partialMax)).max?

/-- The tokens a staged write leaves in `changes_made`. -/
def stagedTableWriteChanges (hadFiles hadInlinedRows : Bool) : List Change :=
  if write.inlinedFlush then [⟨.inlineFlush, write.tableId⟩]
  else
    let changes := TableChanges.ofStaged write
    (if changes.insertedInto then [⟨.insertedIntoTable, write.tableId⟩] else []) ++
    (if changes.deletedFrom || (write.mode = .replace && hadFiles) then
      [⟨.deletedFromTable, write.tableId⟩] else []) ++
    (if changes.insertedInlined then [⟨.inlinedInsert, write.tableId⟩] else []) ++
    (if changes.deletedInlined || (write.mode = .replace && hadInlinedRows) then
      [⟨.inlinedDelete, write.tableId⟩] else [])

end Staged

/-- The checks `commit_multi_table` makes for one stage before it writes. -/
def checkStagedTable (cat : Catalog V) (write : StagedTableWrite V) : Result Unit := do
  refuseWith (stagedConflict write (cat.changesAfter write.baseSnapshotId))
  refuseIf (!cat.tableLive write.tableId)
    (.conflict "staged table was dropped")
  detectNewInlinedDeletes (cat.storage write.tableId) write.tableId write.baseSnapshotId
    (rowMutationSourceFiles write)

/-- The checks of a write that expects the catalog at snapshot `expected`. -/
def checkExpectedBase (cat : Catalog V) (expected : Nat) (write : StagedTableWrite V) : Result Unit := do
  detectReplaceConflict (cat.storage write.tableId) write.tableId expected (!write.inlinedFlush)
  refuseIf (cat.tables.any fun t => t.tableId == write.tableId && decide (expected < t.beginSnapshot))
    (.conflict s!"table {write.tableId} was created by another transaction after snapshot {expected}; retry the write")

def checkExpectedBases (cat : Catalog V) (expected : Option Nat) (writes : List (StagedTableWrite V)) :
    Result Unit :=
  match expected with
  | some expected => writes.forM (checkExpectedBase cat expected)
  | none => .ok ()

/-- No snapshot was committed since the date of the stage's rewritten deletions. -/
def checkRewrittenDate (cat : Catalog V) (snapshot : Nat) (write : StagedTableWrite V) : Result Unit :=
  refuseWith ((rewrittenDeletesSnapshot write).bind fun dated =>
    if cat.snapshots.any fun s => decide (dated ≤ s.snapshotId) && decide (s.snapshotId < snapshot) then
      some (.conflict (s!"table {write.tableId}: the catalog committed a snapshot at or after snapshot {dated}, " ++
        "the snapshot the rewritten delete file dates its deletions to"))
    else none)

/-- `finalize_table_snapshot` for a table whose columns do not change. -/
def finalizeTableSnapshot (changes : List Change) (snapshot : Nat) (write : StagedTableWrite V)
    (tx : TableTx V) : Result (TableTx V) :=
  match write.mode with
  | .replace => do
    detectReplaceConflict tx.storage write.tableId write.baseSnapshotId true
    return { tx with storage := retirePriorGeneration snapshot tx.storage }
  | .append => do
    refuseWith (if write.insertsRows then tableConflict write.tableId TableChanges.append changes else none)
    return tx

section Applied
variable (snapshot : Nat) (write : StagedTableWrite V) (tx : TableTx V)

/-- The rows a stage inserts. -/
def applyStagedData : Result (TableTx V) :=
  match write.data with
  | .files files => commitFilesAtSnapshot snapshot tx files
  | .inlined rows => do
    let storage ← commitInlinedAtSnapshot snapshot tx.storage rows write.inlinedRowIds
    return { tx with storage }
  | .none => pure tx

/-- The files a `MERGE` inserts besides. -/
def commitInsertedFiles : Result (TableTx V) :=
  if write.insertedFiles.isEmpty then .ok tx else commitFilesAtSnapshot snapshot tx write.insertedFiles

/-- The body of the last loop of `commit_multi_table`. -/
def applyStage : Result (TableTx V) := do
  let tx ← applyStagedData snapshot write tx
  let tx ← commitInsertedFiles snapshot write tx
  let tx ← applyPositionalDeletes snapshot write.baseSnapshotId tx write.positionalDeletes
  let tx ← replaceDeleteFiles
    (.conflict (s!"a data file of table {write.tableId} or its delete file changed since snapshot " ++
      s!"{write.baseSnapshotId}; re-open the catalog and retry the statement"))
    tx write.rewrittenDeletes
  let storage ← applyInlinedDeletes snapshot write.baseSnapshotId tx.storage write.inlinedDeletes
  let storage ← applyInlinedFileDeletes snapshot write.baseSnapshotId storage write.inlinedFileDeletes
  let storage ← dropDataFiles snapshot write.baseSnapshotId storage write.droppedFiles
  return { tx with storage }

end Applied

def TableStorage.hasLiveData (T : TableStorage V) : Bool := T.dataFiles.any (·.live)

def TableStorage.hasLiveInlined (T : TableStorage V) : Bool :=
  T.inlinedRows.any fun r => T.inlinedTables.contains r.table && r.live

/-- The tokens of a stage, which depend on what the table held before the commit: a
    Replace retires that. -/
def stageTokens (before : TableStorage V) (write : StagedTableWrite V) : List Change :=
  stagedTableWriteChanges write before.hasLiveData before.hasLiveInlined

/-- One round of the last loop of `commit_multi_table`. -/
def commitStage (cat : Catalog V) (snapshot : Nat) (next : Catalog V) (write : StagedTableWrite V) :
    Result (Catalog V) := do
  let next ← next.withTable write.tableId (applyStage snapshot write)
  return next.recordSnapshotChanges snapshot (stageTokens (cat.storage write.tableId) write)

/-- One round of the loop that finalizes the tables of `commit_multi_table`. -/
def finalizeStage (cat : Catalog V) (snapshot : Nat) (next : Catalog V) (write : StagedTableWrite V) :
    Result (Catalog V) :=
  next.withTable write.tableId
    (finalizeTableSnapshot (cat.changesBetween write.baseSnapshotId snapshot) snapshot write)

def commitMultiTable (writes : List (StagedTableWrite V)) (expectedBaseSnapshotId : Option Nat)
    (cat : Catalog V) : Result (Nat × Catalog V) := do
  refuseIf writes.isEmpty
    (.invalidConfig "commit_multi_table requires at least one table stage")
  refuseIf (¬ (writes.map (·.tableId)).Nodup)
    (.invalidConfig "commit_multi_table requires one stage per table")
  writes.forM validateRowMutationStage
  writes.forM (checkStagedTable cat)
  checkExpectedBases cat expectedBaseSnapshotId writes
  let (snapshot, started) := cat.insertSnapshot
  writes.forM (checkRewrittenDate started snapshot)
  let finalized ← writes.foldlM (finalizeStage started snapshot) started
  let committed ← writes.foldlM (commitStage cat snapshot) finalized
  return (snapshot, committed)

/-! ## Compaction -/

inductive SourceRetirement where
  | remove
  | retire
deriving DecidableEq, Repr

structure CompactionSourceFile where
  dataFileId : Nat
  deleteFileId : Option Nat
deriving DecidableEq, Repr

structure CompactionOutputFile (V : Type) where
  file : DataFileInfo V
  partialMax : Option Nat
  beginSnapshot : Option Nat
deriving DecidableEq, Repr

/-- The row id range a compaction or flush output keeps. -/
def carriedRowIdStart (file : DataFileInfo V) : Option Nat :=
  match file.rowIdStart with
  | .preserved start => some start
  | _ => none

def compactionChange : SourceRetirement → ChangeKind
  | .remove => .mergeAdjacent
  | .retire => .rewriteDelete

/-- The fence of one source: still live, with the delete file it was read with. -/
def checkCompactionSource (tableId base : Nat) (T : TableStorage V) (source : CompactionSourceFile) :
    Result Unit := do
  refuseIf (!T.dataFileLive source.dataFileId)
    (.conflict (s!"compaction of table {tableId} could not commit: source data file {source.dataFileId} is no " ++
      s!"longer live (retired by a concurrent Replace/compaction since snapshot {base}). Re-open the catalog at the " ++
      "latest snapshot and re-plan."))
  refuseIf (T.liveDeleteFile source.dataFileId ≠ source.deleteFileId)
    (.conflict (s!"compaction of table {tableId} could not commit: the live delete file of source data file " ++
      s!"{source.dataFileId} changed since snapshot {base} (a concurrent DELETE/UPDATE). Re-open the catalog at the " ++
      "latest snapshot and re-plan."))

/-- Register a file written from rows the table already holds. -/
def TableTx.addDataFile (tx : TableTx V) (beginSnapshot : Nat) (partialMax : Option Nat)
    (file : DataFileInfo V) : TableTx V :=
  { tx with
    nextFileId := tx.nextFileId + 1
    storage := { tx.storage with dataFiles := tx.storage.dataFiles ++
      [file.toDataFile beginSnapshot tx.nextFileId (carriedRowIdStart file) partialMax] } }

/-- Remove the rows of data files and of their delete files. -/
def TableStorage.removeDataFiles (T : TableStorage V) (ids : List Nat) : TableStorage V :=
  { T with
    dataFiles := T.dataFiles.filter fun f => !ids.contains f.id
    deleteFiles := T.deleteFiles.filter fun d => !ids.contains d.dataFileId }

/-- Schedule the sources and their delete files and remove their rows. -/
def TableTx.removeSources (tx : TableTx V) (ids : List Nat) : TableTx V :=
  { tx with
    scheduled := tx.scheduled ++
      ((tx.storage.dataFiles.filter fun f => ids.contains f.id).flatMap fun f =>
        tx.location.map (scheduledRow f.id f.path f.pathIsRelative)) ++
      ((tx.storage.deleteFiles.filter fun d => ids.contains d.dataFileId).flatMap fun d =>
        tx.location.map (scheduledRow d.id d.path d.pathIsRelative))
    storage := tx.storage.removeDataFiles ids }

/-- End the sources and their delete files at the compaction's snapshot. -/
def TableTx.retireSources (tx : TableTx V) (snapshot : Nat) (ids : List Nat) : TableTx V :=
  { tx with storage := { tx.storage with
      dataFiles := tx.storage.dataFiles.map fun f =>
        if ids.contains f.id then f.close snapshot else f
      deleteFiles := tx.storage.deleteFiles.map fun d =>
        if ids.contains d.dataFileId then d.close snapshot else d } }

/-- The rows of one table after a compaction passed its checks. -/
def applyCompaction (snapshot : Nat) (sources : List CompactionSourceFile)
    (outputs : List (CompactionOutputFile V)) (retirement : SourceRetirement) (tx : TableTx V) : TableTx V :=
  let ids := sources.map (·.dataFileId)
  let tx := match retirement with
    | .remove => tx.removeSources ids
    | .retire => tx.retireSources snapshot ids
  outputs.foldl (fun tx out => tx.addDataFile (out.beginSnapshot.getD snapshot) out.partialMax out.file) tx

def commitCompaction (tableId base : Nat) (sources : List CompactionSourceFile)
    (outputs : List (CompactionOutputFile V)) (retirement : SourceRetirement) (cat : Catalog V) :
    Result (Nat × Catalog V) := do
  refuseIf (sources.isEmpty)
    (.invalidConfig "commit_compaction requires at least one source file")
  let (snapshot, started) := cat.insertSnapshot
  detectNewInlinedDeletes (started.storage tableId) tableId base
    (sources.map fun source => .any source.dataFileId)
  sources.forM (checkCompactionSource tableId base (started.storage tableId))
  let next ← started.withTable tableId fun tx =>
    return applyCompaction snapshot sources outputs retirement tx
  return (snapshot, next.recordSnapshotChanges snapshot [⟨compactionChange retirement, tableId⟩])

/-! ## Flushing inlined data -/

/-- One Parquet file a flush wrote from an inlined table, with the delete file of
    the rows that were deleted while inlined. -/
structure InlinedFlushFile (V : Type) where
  file : DataFileInfo V
  beginSnapshot : Nat
  partialMax : Nat
  delete : Option InlinedFlushDeleteFile
deriving DecidableEq, Repr

structure InlinedFlushTable (V : Type) where
  tableId : Nat
  inlinedTables : List Nat
  files : List (InlinedFlushFile V)
  fileDeletes : List InlinedFlushFileDelete
deriving DecidableEq, Repr

def TableChanges.ofFlush (table : InlinedFlushTable V) : TableChanges :=
  { TableChanges.default with
    deletedFrom := !table.fileDeletes.isEmpty
    flushedInlined := !table.files.isEmpty || !table.inlinedTables.isEmpty }

def orderedTables (tables : List (InlinedFlushTable V)) : List (InlinedFlushTable V) :=
  tables.insertionSort fun a b => a.tableId ≤ b.tableId

/-- The deletions of every table are checked first, then the flush of every table. -/
def inlinedFlushTableConflict (tables : List (InlinedFlushTable V)) (changes : List Change) :
    Option DuckLakeError :=
  ((orderedTables tables).findSome? fun table =>
      tableConflict table.tableId { TableChanges.ofFlush table with flushedInlined := false } changes).or
    ((orderedTables tables).findSome? fun table =>
      tableConflict table.tableId { TableChanges.ofFlush table with deletedFrom := false } changes)

def inlinedFlushChanges (tables : List (InlinedFlushTable V)) : List Change :=
  ((orderedTables tables).filter fun table => !table.fileDeletes.isEmpty).map (⟨.deletedFromTable, ·.tableId⟩) ++
    ((orderedTables tables).filter fun table => !table.files.isEmpty).map (⟨.inlineFlush, ·.tableId⟩)

def inlinedFlushConflict (tableId base : Nat) : DuckLakeError :=
  .conflict (s!"flushing the inlined data of table {tableId} could not commit: the table was dropped, or a " ++
    s!"flushed data file's delete file changed, since snapshot {base}. Re-open the catalog and flush again.")

/-- Register a flushed file and its delete file. -/
def TableTx.addFlushedFile (tx : TableTx V) (out : InlinedFlushFile V) : TableTx V :=
  let dataFileId := tx.nextFileId
  let tx := tx.addDataFile out.beginSnapshot (some out.partialMax) out.file
  match out.delete with
  | some delete => tx.addDeleteFile ⟨delete.beginSnapshot, delete.endSnapshot⟩ dataFileId delete.delete
      delete.partialMax
  | none => tx

/-- Remove what the flush moved: the deletions recorded up to `base` of the files in
    `fileDeletes`, and the inlined rows born up to `base` of the flushed tables. -/
def TableStorage.removeFlushed (T : TableStorage V) (base : Nat) (table : InlinedFlushTable V) :
    TableStorage V :=
  { T with
    inlinedDeletes := T.inlinedDeletes.filter fun x =>
      !((table.fileDeletes.map (·.dataFileId)).contains x.fileId && decide (x.beginSnapshot ≤ base))
    inlinedRows := T.inlinedRows.filter fun r =>
      !(table.inlinedTables.contains r.table && decide (r.beginSnapshot ≤ base)) }

/-- What the flush of one live table writes. -/
def applyFlush (base : Nat) (table : InlinedFlushTable V) (tx : TableTx V) : Result (TableTx V) := do
  let tx := table.files.foldl TableTx.addFlushedFile tx
  let tx ← replaceDeleteFiles (inlinedFlushConflict table.tableId base) tx table.fileDeletes
  return { tx with storage := tx.storage.removeFlushed base table }

/-- One round of the loop of `commit_inlined_flush`. -/
def flushTable (base : Nat) (next : Catalog V) (table : InlinedFlushTable V) : Result (Catalog V) := do
  refuseIf (!next.tableLive table.tableId) (inlinedFlushConflict table.tableId base)
  next.withTable table.tableId (applyFlush base table)

def commitInlinedFlush (base : Nat) (tables : List (InlinedFlushTable V)) (cat : Catalog V) :
    Result (Nat × Catalog V) := do
  refuseIf (¬ (tables.map (·.tableId)).Nodup)
    (.invalidConfig "commit_inlined_flush: a table appears more than once")
  let (snapshot, started) := cat.insertSnapshot
  refuseWith (inlinedFlushTableConflict tables (started.changesBetween base snapshot))
  let flushed ← tables.foldlM (flushTable base) started
  return (snapshot, flushed.recordSnapshotChanges snapshot (inlinedFlushChanges tables))

/-! ## Truncating a table -/

/-- End every live file, delete file and inlined row. -/
def TableStorage.endAll (T : TableStorage V) (snapshot : Nat) : TableStorage V :=
  { T with
    dataFiles := T.dataFiles.map fun f => f.close snapshot
    deleteFiles := T.deleteFiles.map fun d => d.close snapshot
    inlinedRows := T.inlinedRows.map fun r =>
      if T.inlinedTables.contains r.table then r.close snapshot else r }

/-- What a truncate of a table changes. -/
def TableChanges.ofTruncate (T : TableStorage V) : TableChanges :=
  { TableChanges.default with deletedFrom := T.hasLiveData, deletedInlined := T.hasLiveInlined }

def truncateTokens (tableId : Nat) (T : TableStorage V) : List Change :=
  (if T.hasLiveData then [⟨.deletedFromTable, tableId⟩] else []) ++
    (if T.hasLiveInlined then [⟨.inlinedDelete, tableId⟩] else [])

/-- `commit_truncate`; a table that holds nothing to end is left as it is, without a
    new snapshot. -/
def commitTruncate (tableId base : Nat) (cat : Catalog V) : Result (Catalog V) := do
  let (snapshot, started) := cat.insertSnapshot
  let T := cat.storage tableId
  if !T.hasLiveData && !T.hasLiveInlined then
    return cat
  else
    refuseWith (tableConflict tableId (TableChanges.ofTruncate T) (started.changesBetween base snapshot))
    return { started with storage := Function.update started.storage tableId (T.endAll snapshot) }.recordSnapshotChanges
      snapshot (truncateTokens tableId T)

end DuckLake.Metadata
