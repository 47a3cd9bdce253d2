import DuckLake.Metadata.Catalog

/- What a commit changes, and which changes of other transactions it refuses:
   `TableChanges`, `table_conflict`, `staged_conflict`, `row_mutation_source_files`
   and `inlined_deletion_conflict` of `metadata_writer.rs`. A token of
   `changes_made` is a `Change`; its text form is not modelled. -/

namespace DuckLake.Metadata

variable {V : Type}

inductive DuckLakeError where
  | conflict (message : String)
  | invalidConfig (message : String)
deriving DecidableEq, Repr

abbrev Result (α : Type) := Except DuckLakeError α

/-! ## The table of conflicts -/

/-- What one commit changes in a table. -/
structure TableChanges where
  insertedInto : Bool
  insertedInlined : Bool
  deletedFrom : Bool
  deletedInlined : Bool
  flushedInlined : Bool
deriving DecidableEq, Repr

def TableChanges.default : TableChanges := ⟨false, false, false, false, false⟩

def TableChanges.append : TableChanges := { TableChanges.default with insertedInto := true }

/-- The kinds of change that refuse an action, with how a conflict words each. -/
abbrev Rules := List (List ChangeKind × String)

def insertRules : Rules :=
  [([.droppedTable], "dropped it"),
   ([.alteredTable], "altered it"),
   ([.deletedFromTable], "deleted from it"),
   ([.inlinedDelete], "deleted inlined data from it")]

def deleteFromRules : Rules :=
  [([.droppedTable], "dropped it"),
   ([.alteredTable], "altered it"),
   ([.mergeAdjacent], "compacted it"),
   ([.rewriteDelete, .compactedTable], "compacted it"),
   ([.insertedIntoTable], "inserted into it"),
   ([.inlinedInsert], "inserted into it")]

def deleteInlinedRules : Rules :=
  [([.droppedTable], "dropped it"),
   ([.alteredTable], "altered it"),
   ([.inlinedDelete], "deleted from it"),
   ([.flushedInlined, .inlineFlush], "flushed the inlined data"),
   ([.insertedIntoTable], "inserted into it"),
   ([.inlinedInsert], "inserted into it")]

def flushRules : Rules :=
  [([.droppedTable], "dropped it"),
   ([.inlinedDelete], "deleted from it"),
   ([.flushedInlined, .inlineFlush], "flushed it")]

/-- The first rule one of the changes to the table breaks. -/
def checkRules (tableId : Nat) (changes : List Change) (action : String) (rules : Rules) :
    Option DuckLakeError :=
  rules.findSome? fun (kinds, described) =>
    if kinds.any (fun kind => changes.contains ⟨kind, tableId⟩) then
      some (.conflict (s!"Transaction conflict - attempting to {action} with index \"{tableId}\" - but another " ++
        s!"transaction has {described}"))
    else none

def tableConflict (tableId : Nat) (ours : TableChanges) (changes : List Change) : Option DuckLakeError :=
  let check := checkRules tableId changes
  (((if ours.insertedInto || ours.insertedInlined then check "insert into table" insertRules else none).or
    (if ours.deletedFrom then check "delete from table" deleteFromRules else none)).or
    (if ours.deletedInlined then check "delete from table" deleteInlinedRules else none)).or
    (if ours.flushedInlined then check "flush inline data" flushRules else none)

/-- None of the kinds a rule set names was committed for the table. -/
def Unbroken (rules : Rules) (tableId : Nat) (changes : List Change) : Prop :=
  ∀ rule ∈ rules, ∀ kind ∈ rule.1, ⟨kind, tableId⟩ ∉ changes

theorem checkRules_eq_none {tableId : Nat} {changes : List Change} {action : String} {rules : Rules} :
    checkRules tableId changes action rules = none ↔ Unbroken rules tableId changes := by
  unfold checkRules Unbroken
  rw [List.findSome?_eq_none_iff]
  refine forall₂_congr fun rule _ => ?_
  simp [List.any_eq_true]

/-- A commit passes when every action it takes passes its own rules. -/
theorem tableConflict_eq_none {tableId : Nat} {ours : TableChanges} {changes : List Change} :
    tableConflict tableId ours changes = none ↔
      (ours.insertedInto = true ∨ ours.insertedInlined = true → Unbroken insertRules tableId changes) ∧
      (ours.deletedFrom = true → Unbroken deleteFromRules tableId changes) ∧
      (ours.deletedInlined = true → Unbroken deleteInlinedRules tableId changes) ∧
      (ours.flushedInlined = true → Unbroken flushRules tableId changes) := by
  simp only [tableConflict, Option.or_eq_none_iff, ite_eq_right_iff, checkRules_eq_none,
    Bool.or_eq_true, and_assoc]

/-! ## Staged writes -/

inductive WriteMode where
  | append
  | replace
deriving DecidableEq, Repr

/-- Where a new data file's row ids come from: the table's counter, an embedded
    column, or a range it keeps. -/
inductive RowIdStart where
  | assign
  | embedded
  | preserved (start : Nat)
deriving DecidableEq, Repr

/-- A Parquet file already written, to be registered by a commit. -/
structure DataFileInfo (V : Type) where
  path : Text
  pathIsRelative : Bool
  rowIdStart : RowIdStart
  rowIdFloor : Option Nat
  rows : List (FileRow V)
deriving DecidableEq, Repr

def DataFileInfo.recordCount (file : DataFileInfo V) : Nat := file.rows.length

/-- A delete file already written. `deletedPositions` are the positions its writer
    recorded for the conflict check. -/
structure DeleteFileInfo where
  path : Text
  pathIsRelative : Bool
  entries : List DeleteEntry
  deletedPositions : Option (List Nat)
deriving DecidableEq, Repr

structure DeleteFileEntry where
  dataFileId : Nat
  expectedPrevDeleteFile : Option Nat
  delete : DeleteFileInfo
deriving DecidableEq, Repr

structure InlinedFlushDeleteFile where
  delete : DeleteFileInfo
  beginSnapshot : Nat
  partialMax : Option Nat
  endSnapshot : Option Nat
deriving DecidableEq, Repr

structure InlinedFlushFileDelete where
  dataFileId : Nat
  dataFileEnd : Option Nat
  expectedPrevDeleteFile : Option Nat
  delete : InlinedFlushDeleteFile
deriving DecidableEq, Repr

structure InlinedRowRef where
  table : Nat
  rowId : Nat
deriving DecidableEq, Repr

structure InlinedFileDelete where
  dataFileId : Nat
  positions : List Nat
  expectedDeleteFile : Option Nat
deriving DecidableEq, Repr

structure DroppedDataFile where
  dataFileId : Nat
  expectedDeleteFile : Option Nat
deriving DecidableEq, Repr

inductive StagedTableData (V : Type) where
  | files (files : List (DataFileInfo V))
  | inlined (rows : List V)
  | none
deriving DecidableEq, Repr

/-- One table's staged changes. -/
structure StagedTableWrite (V : Type) where
  tableId : Nat
  baseSnapshotId : Nat
  mode : WriteMode
  data : StagedTableData V
  positionalDeletes : List DeleteFileEntry
  rewrittenDeletes : List InlinedFlushFileDelete
  inlinedDeletes : List InlinedRowRef
  inlinedRowIds : Option (List Nat)
  insertedFiles : List (DataFileInfo V)
  inlinedFileDeletes : List InlinedFileDelete
  droppedFiles : List DroppedDataFile
  inlinedFlush : Bool
  exclusive : Bool
deriving DecidableEq, Repr

namespace StagedTableData

def isFiles : StagedTableData V → Bool
  | .files _ => true
  | _ => false

def isInlined : StagedTableData V → Bool
  | .inlined _ => true
  | _ => false

end StagedTableData

def StagedTableWrite.insertsRows (write : StagedTableWrite V) : Bool :=
  write.data.isFiles || write.data.isInlined || !write.insertedFiles.isEmpty

def TableChanges.ofStaged (write : StagedTableWrite V) : TableChanges where
  insertedInto := write.data.isFiles || !write.insertedFiles.isEmpty
  insertedInlined := write.data.isInlined
  deletedFrom := !write.positionalDeletes.isEmpty || !write.rewrittenDeletes.isEmpty ||
    !write.droppedFiles.isEmpty
  deletedInlined := !write.inlinedDeletes.isEmpty || !write.inlinedFileDeletes.isEmpty
  flushedInlined := false

/-- Whether a change names the table: every kind modelled here names one. -/
def changesNameTable (changes : List Change) (tableId : Nat) : Bool :=
  changes.any (·.tableId == tableId)

def stagedConflict (write : StagedTableWrite V) (changes : List Change) : Option DuckLakeError :=
  if write.exclusive && changesNameTable changes write.tableId then
    some (.conflict (s!"Transaction conflict - attempting to restore rows of table with index \"{write.tableId}\" " ++
      "- but another transaction has changed it"))
  else if write.inlinedFlush then
    tableConflict write.tableId
      { TableChanges.default with deletedInlined := !write.inlinedDeletes.isEmpty } changes
  else
    let ours := TableChanges.ofStaged write
    let ours := if write.mode = .replace then
      { ours with insertedInto := false, insertedInlined := false } else ours
    tableConflict write.tableId ours changes

/-! ## Deletions recorded in the catalog since the base snapshot -/

/-- A data file a commit deletes from or drops; `positions` is missing when any
    deletion recorded since conflicts. -/
structure SourceFile where
  dataFileId : Nat
  positions : Option (List Nat)
deriving DecidableEq, Repr

def SourceFile.any (dataFileId : Nat) : SourceFile := ⟨dataFileId, none⟩

def SourceFile.deletedBy (dataFileId : Nat) (delete : DeleteFileInfo) : SourceFile :=
  ⟨dataFileId, delete.deletedPositions⟩

def isPureDelete (write : StagedTableWrite V) : Bool := !write.insertsRows && !write.inlinedFlush

def rowMutationSourceFiles (write : StagedTableWrite V) : List SourceFile :=
  let source (dataFileId : Nat) (delete : DeleteFileInfo) : SourceFile :=
    if isPureDelete write then .deletedBy dataFileId delete else .any dataFileId
  write.positionalDeletes.map (fun entry => source entry.dataFileId entry.delete) ++
    write.rewrittenDeletes.map (fun d => source d.dataFileId d.delete.delete) ++
    write.droppedFiles.map (fun d => .any d.dataFileId)

/-- Whether a recorded deletion meets one of the sources. -/
def SourceFile.conflictsWith (source : SourceFile) (x : InlinedDelete) : Bool :=
  source.dataFileId == x.fileId && source.positions.all (·.contains x.position)

/-- The deletions of the source files recorded after `base`, except of a position
    that had one already: the query of `detect_new_inlined_deletes`. -/
def newInlinedDeletes (T : TableStorage V) (base : Nat) (sources : List SourceFile) : List InlinedDelete :=
  T.inlinedDeletes.filter fun newer =>
    sources.any (·.dataFileId == newer.fileId) && decide (base < newer.beginSnapshot) &&
      !T.inlinedDeletes.any fun prior =>
        prior.fileId == newer.fileId && prior.position == newer.position &&
          decide (prior.beginSnapshot ≤ base)

def detectNewInlinedDeletes (T : TableStorage V) (tableId base : Nat) (sources : List SourceFile) :
    Result Unit :=
  if (newInlinedDeletes T base sources).any (fun x => sources.any (·.conflictsWith x)) then
    .error (.conflict (s!"table {tableId} gained an inlined delete on a source file since snapshot {base}; re-open " ++
      "the catalog and re-plan"))
  else .ok ()

end DuckLake.Metadata
