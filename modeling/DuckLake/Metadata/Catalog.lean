import DuckLake.Lib.Lifetime
import DuckLake.Scalar

/- The catalog of a lake, as the SQLite metadata writer keeps it, and what a read
   of a table at a snapshot returns.

   Rust                                   Lean
   ducklake_data_file, Parquet rows       DataFile, FileRow
   ducklake_delete_file, its positions    DeleteFile, DeleteEntry
   ducklake_inlined_data_<t>_<v>          InlinedRow (the version is `table`)
   ducklake_inlined_delete_<t>            InlinedDelete
   ducklake_snapshot, _snapshot_changes   SnapshotRow, ChangeRow
   SQL_GET_DATA_FILES and the scan        TableStorage.scan

   The rows that belong to one `table_id` are kept together in `TableStorage`;
   file ids are drawn from one counter for all tables. Values of rows are of any
   type: no function of the catalog looks inside them. -/

namespace DuckLake.Metadata

open Versioned

variable {V : Type}

/-! ## Rows of one table -/

/-- A row of a Parquet data file, with the row id and the insert snapshot the file
    embeds for it, when it embeds them. -/
structure FileRow (V : Type) where
  rowId : Option Nat
  origin : Option Nat
  value : V
deriving DecidableEq, Repr

/-- A row of `ducklake_data_file` together with the Parquet file it names. -/
structure DataFile (V : Type) extends Lifetime where
  id : Nat
  rowIdStart : Option Nat
  partialMax : Option Nat
  path : Text
  pathIsRelative : Bool
  rows : List (FileRow V)
deriving DecidableEq, Repr

/-- A deleted position, with the snapshot that deleted it where the delete file
    records one. -/
structure DeleteEntry where
  position : Nat
  snapshot : Option Nat
deriving DecidableEq, Repr

/-- A row of `ducklake_delete_file` together with the positions of its file. -/
structure DeleteFile extends Lifetime where
  id : Nat
  dataFileId : Nat
  partialMax : Option Nat
  path : Text
  pathIsRelative : Bool
  entries : List DeleteEntry
deriving DecidableEq, Repr

/-- A row kept in the catalog. `table` numbers the physical
    `ducklake_inlined_data_*` table of the table it is stored in. -/
structure InlinedRow (V : Type) extends Lifetime where
  table : Nat
  rowId : Nat
  value : V
deriving DecidableEq, Repr

/-- A deleted position of a data file, recorded in the catalog. -/
structure InlinedDelete where
  fileId : Nat
  position : Nat
  beginSnapshot : Nat
deriving DecidableEq, Repr

/-- End a row at a snapshot: `SET end_snapshot = ? … AND end_snapshot IS NULL`. -/
def DataFile.close (snapshot : Nat) (f : DataFile V) : DataFile V :=
  { f with toLifetime := f.toLifetime.close snapshot }

@[inherit_doc DataFile.close]
def DeleteFile.close (snapshot : Nat) (d : DeleteFile) : DeleteFile :=
  { d with toLifetime := d.toLifetime.close snapshot }

@[inherit_doc DataFile.close]
def InlinedRow.close (snapshot : Nat) (r : InlinedRow V) : InlinedRow V :=
  { r with toLifetime := r.toLifetime.close snapshot }

/-- Everything the catalog stores under one `table_id`. -/
structure TableStorage (V : Type) where
  dataFiles : List (DataFile V)
  deleteFiles : List DeleteFile
  inlinedRows : List (InlinedRow V)
  inlinedDeletes : List InlinedDelete
  inlinedTables : List Nat
  nextRowId : Nat
deriving DecidableEq, Repr

/-! ## Reading a table at a snapshot -/

/-- Where a row read from a table is stored. An inlined table can hold several
    versions of a row id, one per snapshot that wrote it. -/
inductive Location where
  | file (dataFileId position : Nat)
  | inlined (table rowId beginSnapshot : Nat)
deriving DecidableEq, Repr

/-- A row as a scan returns it. -/
structure ScanRow (V : Type) where
  location : Location
  rowId : Option Nat
  value : V
deriving DecidableEq, Repr

def InlinedRow.toScanRow (r : InlinedRow V) : ScanRow V :=
  ⟨.inlined r.table r.rowId r.beginSnapshot, some r.rowId, r.value⟩

/-- The row id a scan reports: the embedded one, else the file's range. -/
def DataFile.rowIdAt (f : DataFile V) (position : Nat) (row : FileRow V) : Option Nat :=
  row.rowId.or (f.rowIdStart.map (· + position))

/-- `positions_inserted_later`: a read below `partial_max` leaves out the rows whose
    origin is after it, or unknown. -/
def DataFile.insertedLater (f : DataFile V) (s : Nat) (row : FileRow V) : Bool :=
  f.partialMax.any (fun partialMax => decide (s < partialMax)) &&
    row.origin.all (fun origin => decide (s < origin))

/-- The rows of a file that `keep` keeps, with their positions. -/
def DataFile.read (f : DataFile V) (keep : Nat → FileRow V → Bool) : List (ScanRow V) :=
  (f.rows.zipIdx.filter (fun x => keep x.2 x.1)).map fun x =>
    ⟨.file f.id x.2, f.rowIdAt x.2 x.1, x.1.value⟩

/-- `read_delete_positions` at a read snapshot: a position applies from its recorded
    snapshot on, and always where none is recorded. -/
def DeleteFile.deletes (d : DeleteFile) (s position : Nat) : Bool :=
  d.entries.any fun e => e.position == position && e.snapshot.all (fun σ => decide (σ ≤ s))

/-- Every position of the file, whatever its snapshot: what a write that supersedes
    the file reads. -/
def DeleteFile.holds (d : DeleteFile) (position : Nat) : Bool :=
  d.entries.any fun e => e.position == position

namespace TableStorage

variable (T : TableStorage V)

def deleteFilesAt (dataFileId s : Nat) : List DeleteFile :=
  T.deleteFiles.filter fun d => d.dataFileId == dataFileId && d.visibleAt s

/-- The `LEFT JOIN` of the file listing: one row per visible delete file, or one
    without any. -/
def joinedDeleteFiles (dataFileId s : Nat) : List (Option DeleteFile) :=
  match T.deleteFilesAt dataFileId s with
  | [] => [none]
  | ds => ds.map some

def inlinedDeleted (dataFileId s position : Nat) : Bool :=
  T.inlinedDeletes.any fun x =>
    x.fileId == dataFileId && x.position == position && decide (x.beginSnapshot ≤ s)

/-- One row of the file listing, read at snapshot `s`. -/
def readFile (s : Nat) (f : DataFile V) (d : Option DeleteFile) :
    List (ScanRow V) :=
  f.read fun position row => !f.insertedLater s row && !(d.any (·.deletes s position)) &&
    !T.inlinedDeleted f.id s position

def scanFile (s : Nat) (f : DataFile V) : List (ScanRow V) :=
  (T.joinedDeleteFiles f.id s).flatMap (T.readFile s f)

def scanInlined (s : Nat) : List (ScanRow V) :=
  (T.inlinedRows.filter (·.visibleAt s)).map InlinedRow.toScanRow

/-- The rows of the table at snapshot `s`, with where each is stored. -/
def scan (s : Nat) : List (ScanRow V) :=
  (T.dataFiles.filter (·.visibleAt s)).flatMap (T.scanFile s) ++ T.scanInlined s

end TableStorage

/-! ## The catalog -/

/-- What a snapshot changed, the kind of a token of `changes_made`. -/
inductive ChangeKind where
  | droppedTable
  | alteredTable
  | insertedIntoTable
  | deletedFromTable
  | inlinedInsert
  | inlinedDelete
  | flushedInlined
  | inlineFlush
  | mergeAdjacent
  | rewriteDelete
  | compactedTable
deriving DecidableEq, Repr

structure Change where
  kind : ChangeKind
  tableId : Nat
deriving DecidableEq, Repr

structure SnapshotRow where
  snapshotId : Nat
  snapshotTime : Nat
deriving DecidableEq, Repr

structure ChangeRow where
  snapshotId : Nat
  changesMade : List Change
deriving DecidableEq, Repr

structure SchemaRow extends Lifetime where
  schemaId : Nat
  path : Text
  pathIsRelative : Bool
deriving DecidableEq, Repr

/-- A version of a table: a renamed table has one row per name. -/
structure TableRow extends Lifetime where
  tableId : Nat
  schemaId : Nat
  path : Text
  pathIsRelative : Bool
deriving DecidableEq, Repr

/-- A row of `ducklake_files_scheduled_for_deletion`. -/
structure ScheduledFile where
  dataFileId : Nat
  path : Text
  pathIsRelative : Bool
deriving DecidableEq, Repr

structure Catalog (V : Type) where
  snapshots : List SnapshotRow
  changes : List ChangeRow
  schemas : List SchemaRow
  tables : List TableRow
  storage : Nat → TableStorage V
  scheduled : List ScheduledFile
  nextFileId : Nat
  /-- What `CURRENT_TIMESTAMP` reads. -/
  clock : Nat

namespace Catalog

variable (cat : Catalog V)

/-- `COALESCE(MAX(snapshot_id), 0)`. -/
def head : Nat := (cat.snapshots.map (·.snapshotId)).foldr max 0

/-- `changes_between`: what the snapshots after `base` and before `snapshot` changed. -/
def changesBetween (base snapshot : Nat) : List Change :=
  (cat.changes.filter fun row => decide (base < row.snapshotId) && decide (row.snapshotId < snapshot)).flatMap
    (·.changesMade)

/-- `changes_between` up to `i64::MAX`: what every snapshot after `base` changed. -/
def changesAfter (base : Nat) : List Change :=
  (cat.changes.filter fun row => decide (base < row.snapshotId)).flatMap (·.changesMade)

/-- Insert the next snapshot, with a change row that names nothing yet. -/
def insertSnapshot : Nat × Catalog V :=
  let snapshot := cat.head + 1
  (snapshot, { cat with
    snapshots := cat.snapshots ++ [⟨snapshot, cat.clock⟩]
    changes := cat.changes ++ [⟨snapshot, []⟩] })

/-- Add tokens to a snapshot's change row. Each inlined insert among them also takes
    a file id. -/
def recordSnapshotChanges (snapshot : Nat) (changes : List Change) : Catalog V :=
  { cat with
    changes := cat.changes.map fun row =>
      if row.snapshotId = snapshot then { row with changesMade := row.changesMade ++ changes } else row
    nextFileId := cat.nextFileId + (changes.filter (·.kind = .inlinedInsert)).length }

end Catalog

end DuckLake.Metadata
