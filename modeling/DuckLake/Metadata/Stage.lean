import DuckLake.Metadata.Conflict
import DuckLake.Lib.Checked
import Mathlib.Logic.Function.Basic

/- The parts of a staged write's commit, each as `metadata_writer_sqlite.rs` applies
   it to the rows of one table: new files and inlined rows, delete files, deletions
   recorded in the catalog, dropped files, and the retirement of a table's prior
   generation. `TableTx` is one table inside the commit's transaction, with the
   catalog-wide counter and list it adds to; an `.error` rolls the commit back. -/

namespace DuckLake.Metadata

open Versioned Checked

variable {V : Type}

/-- One table inside a commit. `location` are the joined rows of `ducklake_table` and
    `ducklake_schema` that resolve the table's paths, one per version. -/
structure TableTx (V : Type) where
  storage : TableStorage V
  nextFileId : Nat
  scheduled : List ScheduledFile
  location : List (TableRow × SchemaRow)

/-! ## Paths -/

def trimEndSlash (t : Text) : Text := (t.reverse.dropWhile (· == '/')).reverse

def trimStartSlash (t : Text) : Text := t.dropWhile (· == '/')

/-- `RESOLVED_PATH` and `REL_FLAG`. -/
def resolvePath (path : Text) (relative : Bool) (t : TableRow) (s : SchemaRow) : Text × Bool :=
  let resolved :=
    if !relative then path
    else if !t.pathIsRelative then trimEndSlash t.path ++ ['/'] ++ trimStartSlash path
    else trimEndSlash s.path ++ ['/'] ++ trimEndSlash t.path ++ ['/'] ++ trimStartSlash path
  (resolved, relative && t.pathIsRelative && s.pathIsRelative)

def scheduledRow (id : Nat) (path : Text) (relative : Bool) (ts : TableRow × SchemaRow) : ScheduledFile :=
  let resolved := resolvePath path relative ts.1 ts.2
  ⟨id, resolved.1, resolved.2⟩

/-! ## Looking up files -/

namespace TableStorage

variable (T : TableStorage V)

def dataFileLive (dataFileId : Nat) : Bool :=
  T.dataFiles.any fun f => f.id == dataFileId && f.live

/-- `SELECT delete_file_id … WHERE data_file_id = ? AND end_snapshot IS NULL`. -/
def liveDeleteFile (dataFileId : Nat) : Option Nat :=
  (T.deleteFiles.find? fun d => d.dataFileId == dataFileId && d.live).map (·.id)

/-- The `end_snapshot` of a data file, when its row exists. -/
def dataFileEnd (dataFileId : Nat) : Option (Option Nat) :=
  (T.dataFiles.find? (·.id == dataFileId)).map (·.endSnapshot)

/-- The later born of two delete files, the first of them on a tie. -/
def laterBorn (best : Option DeleteFile) (d : DeleteFile) : Option DeleteFile :=
  match best with
  | none => some d
  | some b => if b.beginSnapshot < d.beginSnapshot then some d else some b

/-- `ORDER BY begin_snapshot DESC LIMIT 1`, over the live delete files of a data file,
    or all of them when `retired`. -/
def latestDeleteFile (dataFileId : Nat) (retired : Bool) : Option DeleteFile :=
  (T.deleteFiles.filter fun d => d.dataFileId == dataFileId && (d.live || retired)).foldl laterBorn none

/-- `UPDATE ducklake_delete_file SET end_snapshot = ? … AND end_snapshot IS NULL`. -/
def endDeleteFile (snapshot deleteFileId : Nat) : TableStorage V :=
  { T with deleteFiles := T.deleteFiles.map fun d =>
      if d.id = deleteFileId then d.close snapshot else d }

def endDataFile (snapshot dataFileId : Nat) : TableStorage V :=
  { T with dataFiles := T.dataFiles.map fun f =>
      if f.id = dataFileId then f.close snapshot else f }

end TableStorage

/-! ## Deleting rows of data files -/

def DeleteFileInfo.toDeleteFile (delete : DeleteFileInfo) (life : Lifetime) (id dataFileId : Nat)
    (partialMax : Option Nat) : DeleteFile :=
  { toLifetime := life, id := id, dataFileId := dataFileId, partialMax := partialMax,
    path := delete.path, pathIsRelative := delete.pathIsRelative, entries := delete.entries }

def TableTx.addDeleteFile (tx : TableTx V) (life : Lifetime) (dataFileId : Nat)
    (delete : DeleteFileInfo) (partialMax : Option Nat) : TableTx V :=
  { tx with
    nextFileId := tx.nextFileId + 1
    storage := { tx.storage with deleteFiles := tx.storage.deleteFiles ++
      [delete.toDeleteFile life tx.nextFileId dataFileId partialMax] } }

/-- End the delete file a new one supersedes. -/
def TableTx.endPrevious (tx : TableTx V) (snapshot : Nat) : Option Nat → TableTx V
  | some previous => { tx with storage := tx.storage.endDeleteFile snapshot previous }
  | none => tx

/-- One round of the loop of `apply_positional_deletes`. -/
def applyPositionalDelete (snapshot base : Nat) (tx : TableTx V) (entry : DeleteFileEntry) :
    Result (TableTx V) := do
  refuseIf (!tx.storage.dataFileLive entry.dataFileId)
    (.conflict (s!"DELETE on data file {entry.dataFileId} could not commit: the file is no longer live since " ++
      s!"snapshot {base}"))
  refuseIf (tx.storage.liveDeleteFile entry.dataFileId ≠ entry.expectedPrevDeleteFile)
    (.conflict (s!"DELETE on data file {entry.dataFileId} could not commit: its live delete file changed since " ++
      s!"snapshot {base}"))
  return (tx.endPrevious snapshot entry.expectedPrevDeleteFile).addDeleteFile ⟨snapshot, none⟩
    entry.dataFileId entry.delete none

def applyPositionalDeletes (snapshot base : Nat) (tx : TableTx V) (deletes : List DeleteFileEntry) :
    Result (TableTx V) :=
  deletes.foldlM (applyPositionalDelete snapshot base) tx

/-- Schedule the object of a delete file and remove its row. -/
def TableTx.removeDeleteFile (tx : TableTx V) (deleteFileId : Nat) : TableTx V :=
  { tx with
    scheduled := tx.scheduled ++ (tx.storage.deleteFiles.filter (·.id == deleteFileId)).flatMap fun d =>
      tx.location.map (scheduledRow d.id d.path d.pathIsRelative)
    storage := { tx.storage with deleteFiles := tx.storage.deleteFiles.filter (·.id ≠ deleteFileId) } }

/-- Remove the delete file a new one replaces. -/
def TableTx.removePrevious (tx : TableTx V) : Option Nat → TableTx V
  | some previous => tx.removeDeleteFile previous
  | none => tx

/-- One round of the loop of `replace_delete_files`. -/
def replaceDeleteFile (conflict : DuckLakeError) (tx : TableTx V) (entry : InlinedFlushFileDelete) :
    Result (TableTx V) := do
  refuseIf (tx.storage.dataFileEnd entry.dataFileId ≠ some entry.dataFileEnd ∨
      (tx.storage.latestDeleteFile entry.dataFileId entry.dataFileEnd.isSome).map (·.id) ≠
        entry.expectedPrevDeleteFile)
    conflict
  return (tx.removePrevious entry.expectedPrevDeleteFile).addDeleteFile
    ⟨entry.delete.beginSnapshot, entry.delete.endSnapshot⟩ entry.dataFileId entry.delete.delete
    entry.delete.partialMax

def replaceDeleteFiles (conflict : DuckLakeError) (tx : TableTx V) (entries : List InlinedFlushFileDelete) :
    Result (TableTx V) :=
  entries.foldlM (replaceDeleteFile conflict) tx

section Deletes
variable (snapshot base : Nat) (T : TableStorage V)

/-- The checks of `apply_inlined_file_deletes` for one file. -/
def checkInlinedFileDelete (delete : InlinedFileDelete) : Result Unit := do
  refuseIf (!T.dataFileLive delete.dataFileId)
    (.conflict (s!"data file {delete.dataFileId} is no longer live since snapshot {base}; re-open the catalog and " ++
      "retry the statement"))
  refuseIf (T.liveDeleteFile delete.dataFileId ≠ delete.expectedDeleteFile)
    (.conflict (s!"data file {delete.dataFileId} got a delete file since snapshot {base}; re-open the catalog and " ++
      "retry the statement"))

def applyInlinedFileDeletes (deletes : List InlinedFileDelete) : Result (TableStorage V) := do
  deletes.forM (checkInlinedFileDelete base T)
  return { T with inlinedDeletes := T.inlinedDeletes ++ deletes.flatMap fun delete =>
      delete.positions.map fun position => ⟨delete.dataFileId, position, snapshot⟩ }

/-- One round of the loop of `drop_data_files`. -/
def dropDataFile (file : DroppedDataFile) : Result (TableStorage V) := do
  refuseIf ((T.dataFiles.filter fun f => f.id == file.dataFileId && f.live).length ≠ 1 ∨
      T.liveDeleteFile file.dataFileId ≠ file.expectedDeleteFile)
    (.conflict (s!"data file {file.dataFileId} or its delete file changed since snapshot {base}; re-open the " ++
      "catalog and retry the statement"))
  return T.endDataFile snapshot file.dataFileId

def dropDataFiles (files : List DroppedDataFile) : Result (TableStorage V) :=
  files.foldlM (dropDataFile snapshot base) T

/-! ## Deleting inlined rows -/

/-- A row began or ended after `base` and before `snapshot`. -/
def changedBetween (base snapshot : Nat) (life : Lifetime) : Bool :=
  (decide (base < life.beginSnapshot) && decide (life.beginSnapshot < snapshot)) ||
    life.endSnapshot.any fun e => decide (base < e) && decide (e < snapshot)

def applyInlinedDeletes (rows : List InlinedRowRef) : Result (TableStorage V) := do
  refuseIf (!rows.isEmpty && T.inlinedRows.any fun r =>
      T.inlinedTables.contains r.table && changedBetween base snapshot r.toLifetime)
    (.conflict "inlined rows changed since the delete snapshot")
  refuseIf (rows.any fun r => !T.inlinedTables.contains r.table)
    (.conflict "inlined deletes reference unregistered table")
  return { T with inlinedRows := T.inlinedRows.map fun r =>
      if rows.contains ⟨r.table, r.rowId⟩ ∧ r.beginSnapshot ≠ snapshot then r.close snapshot else r }

end Deletes

/-! ## Inserting rows -/

/-- The stored `row_id_start` of a new file and how far it moves `next_row_id`. -/
def allocateRowIdStart (nextRowId : Nat) (file : DataFileInfo V) : Option Nat × Nat :=
  let base := max nextRowId (file.rowIdFloor.getD 0)
  match file.rowIdStart with
  | .assign => (some base, base + file.recordCount - nextRowId)
  | .embedded => (none, base - nextRowId)
  | .preserved start => (some start, max base (start + file.recordCount) - nextRowId)

/-- The row of a new data file. -/
def DataFileInfo.toDataFile (file : DataFileInfo V) (beginSnapshot id : Nat) (rowIdStart partialMax : Option Nat) :
    DataFile V :=
  { beginSnapshot := beginSnapshot, endSnapshot := none, id := id, rowIdStart := rowIdStart,
    partialMax := partialMax, path := file.path, pathIsRelative := file.pathIsRelative, rows := file.rows }

/-- Register one new data file. -/
def commitFile (snapshot : Nat) (tx : TableTx V) (file : DataFileInfo V) : TableTx V :=
  let rowIds := allocateRowIdStart tx.storage.nextRowId file
  { tx with
    nextFileId := tx.nextFileId + 1
    storage := { tx.storage with
      nextRowId := tx.storage.nextRowId + rowIds.2
      dataFiles := tx.storage.dataFiles ++ [file.toDataFile snapshot tx.nextFileId rowIds.1 none] } }

def commitFilesAtSnapshot (snapshot : Nat) (tx : TableTx V) (files : List (DataFileInfo V)) :
    Result (TableTx V) := do
  refuseIf (files.isEmpty)
    (.invalidConfig "multi-table file stage must contain at least one file")
  return files.foldl (commitFile snapshot) tx

/-- Store inlined rows with the given row ids, or with new ones. -/
def commitInlinedAtSnapshot (snapshot : Nat) (T : TableStorage V) (rows : List V)
    (rowIds : Option (List Nat)) : Result (TableStorage V) := do
  refuseIf (rows.isEmpty)
    (.invalidConfig "multi-table inline stage must contain at least one row")
  let table := T.inlinedTables.max?.getD 0
  let ids := rowIds.getD (List.range' T.nextRowId rows.length)
  return { T with
    inlinedTables := if T.inlinedTables.contains table then T.inlinedTables else T.inlinedTables ++ [table]
    nextRowId := if rowIds.isSome then T.nextRowId else T.nextRowId + rows.length
    inlinedRows := T.inlinedRows ++ (ids.zip rows).map fun (id, value) =>
      { beginSnapshot := snapshot, endSnapshot := none, table := table, rowId := id, value := value } }

/-! ## Replacing a table's rows -/

/-- A row begins or ends after `base`. -/
def touchedSince (base : Nat) (life : Lifetime) : Bool :=
  decide (base < life.beginSnapshot) || life.endSnapshot.any fun e => decide (base < e)

/-- `detect_replace_conflict`; `countsDeleteFiles` is the scope's. -/
def detectReplaceConflict (T : TableStorage V) (tableId base : Nat) (countsDeleteFiles : Bool) :
    Result Unit := do
  refuseIf ((T.dataFiles.any fun f => touchedSince base f.toLifetime) ||
      (countsDeleteFiles && T.deleteFiles.any fun d => touchedSince base d.toLifetime))
    (.conflict (s!"Replace on table {tableId} conflicts with a concurrent write committed since snapshot {base}; " ++
      "aborting (retry the write against the new generation)"))
  refuseIf (T.inlinedRows.any fun r => T.inlinedTables.contains r.table && touchedSince base r.toLifetime)
    (.conflict s!"Replace on table {tableId} conflicts with inlined data committed since snapshot {base}; aborting")
  refuseIf (T.inlinedDeletes.any fun x => decide (base < x.beginSnapshot))
    (.conflict (s!"Replace on table {tableId} conflicts with an inlined delete committed since snapshot {base}; " ++
      "aborting"))

def retirePriorGeneration (snapshot : Nat) (T : TableStorage V) : TableStorage V :=
  { T with
    dataFiles := T.dataFiles.map fun f =>
      if f.beginSnapshot < snapshot then f.close snapshot else f
    inlinedRows := T.inlinedRows.map fun r =>
      if T.inlinedTables.contains r.table ∧ r.beginSnapshot < snapshot then r.close snapshot else r }

end DuckLake.Metadata
