import DuckLake.Lib.Earliest
import DuckLake.Lib.Lists
import DuckLake.Metadata.Retire
import DuckLake.Plan.Files
import Mathlib.Data.List.Dedup
import Mathlib.Data.List.Sort

/- Planning a flush of inlined data, as `flush_table` does: the inlined rows written
   up to the base snapshot go to data files, whatever their end; the inlined deletions
   of a data file are merged with its delete file into a new one. The sort order,
   partitions and sizes decide which rows share a file and in what order: groups of
   rows are arbitrary here. Encrypted files are left out. -/

namespace DuckLake.Plan

open Metadata Versioned Earliest

variable {V : Type} {T : TableStorage V} {base h N i : Nat}

/-! ## Inlined rows -/

variable (T base)

/-- The inlined tables with rows to flush. -/
def inlinedTablesForFlush : List Nat :=
  T.inlinedTables.filter fun t => T.inlinedRows.any fun r => r.table == t && decide (r.beginSnapshot ≤ base)

/-- `InlinedRowSelection::WrittenUpTo`, for the given inlined tables. -/
def writtenUpTo (tables : List Nat) : List (InlinedRow V) :=
  T.inlinedRows.filter fun r => tables.contains r.table && decide (r.beginSnapshot ≤ base)

variable {T base}

/-- The row a file embeds for an inlined row. -/
def flushedRow (r : InlinedRow V) : FileRow V := ⟨some r.rowId, some r.beginSnapshot, r.value⟩

/-- The rows of a file that were deleted while inlined, as `write_inlined_table`
    collects them. -/
def rowDeletions (rows : List (InlinedRow V)) : List (Nat × Nat) :=
  rows.zipIdx.filterMap fun (r, p) => r.endSnapshot.map (p, ·)

def datedEntries (deletions : List (Nat × Nat)) : List DeleteEntry :=
  deletions.map fun (position, snapshot) => ⟨position, some snapshot⟩

/-- Where the flush writes an object. -/
structure ObjectPath where
  path : Text
  pathIsRelative : Bool

/-- The delete file of a flushed file, if any of its rows was deleted. -/
def flushedDelete (rows : List (InlinedRow V)) (beginSnapshot : Nat) (object : ObjectPath) :
    Option InlinedFlushDeleteFile :=
  let deletions := rowDeletions rows
  if deletions.isEmpty then none
  else some
    { delete := ⟨object.path, object.pathIsRelative, datedEntries deletions, none⟩
      beginSnapshot := (first deletions).getD beginSnapshot
      partialMax := none
      endSnapshot := none }

/-- The file `write_inlined_table` makes of a group of rows; it refuses an empty one. -/
def flushedFile (rows : List (InlinedRow V)) (file delete : ObjectPath) : Option (InlinedFlushFile V) := do
  let beginSnapshot ← (rows.map (·.beginSnapshot)).min?
  let partialMax ← (rows.map (·.beginSnapshot)).max?
  let minRowId ← (rows.map (·.rowId)).min?
  return {
    file :=
      { path := file.path, pathIsRelative := file.pathIsRelative, rowIdStart := .preserved minRowId,
        rowIdFloor := none, rows := rows.map flushedRow }
    beginSnapshot := beginSnapshot
    partialMax := partialMax
    delete := flushedDelete rows beginSnapshot delete }

/-- A file is written from a group of rows. -/
def IsFlushed (rows : List (InlinedRow V)) (out : InlinedFlushFile V) : Prop :=
  ∃ file delete, flushedFile rows file delete = some out

/-! ## Inlined deletions -/

/-- A row of `get_inlined_file_deletes_for_flush`. -/
structure InlinedFileDeleteForFlush where
  dataFileId : Nat
  rowId : Nat
  beginSnapshot : Nat
  existingDelete : Option DeleteFile
  dataFileEnd : Option Nat
  existingDeleteEnd : Option Nat
  earlierDeleteEnd : Option Nat
deriving DecidableEq, Repr

/-- `end_snapshot IS NULL OR end_snapshot > ?`. -/
def endsAfter (s : Nat) (life : Lifetime) : Bool := life.endSnapshot.all fun e => decide (s < e)

variable (T base)

/-- The delete files a data file joins: those visible at the base, or the latest born
    ones when the data file ended before. -/
def deleteFilesForFlush (f : DataFile V) : List DeleteFile :=
  let born := T.deleteFiles.filter fun d => d.dataFileId == f.id && decide (d.beginSnapshot ≤ base)
  born.filter fun d =>
    if endsAfter base f.toLifetime then endsAfter base d.toLifetime
    else (born.map (·.beginSnapshot)).max? == some d.beginSnapshot

/-- The latest end among the delete files born before `ex`. -/
def earlierDeleteEnd (dataFileId : Nat) (ex : DeleteFile) : Option Nat :=
  ((T.deleteFiles.filter fun d => d.dataFileId == dataFileId && decide (d.beginSnapshot < ex.beginSnapshot)).filterMap
    (·.endSnapshot)).max?

def joinedForFlush (f : DataFile V) : List (Option DeleteFile) :=
  match deleteFilesForFlush T base f with
  | [] => [none]
  | ds => ds.map some

/-- The query `inlined_file_deletes_for_flush_sql`. -/
def inlinedFileDeletesForFlush : List InlinedFileDeleteForFlush :=
  (T.inlinedDeletes.filter fun x => decide (x.beginSnapshot ≤ base)).flatMap fun x =>
    (T.dataFiles.filter fun f => f.id == x.fileId && decide (f.beginSnapshot ≤ base)).flatMap fun f =>
      (joinedForFlush T base f).map fun ex =>
        { dataFileId := x.fileId
          rowId := x.position
          beginSnapshot := x.beginSnapshot
          existingDelete := ex
          dataFileEnd := f.endSnapshot
          existingDeleteEnd := ex.bind (·.endSnapshot)
          earlierDeleteEnd := ex.bind (earlierDeleteEnd T f.id) }

variable {T base}

/-- `read_delete_file`: a position without a snapshot was deleted when the file began. -/
def readDeleteFile (d : DeleteFile) : List (Nat × Nat) :=
  d.entries.map fun e => (e.position, e.snapshot.getD d.beginSnapshot)

/-- One data file's inlined deletions as a flush moves them. -/
structure PlannedFileDeletes where
  dataFileId : Nat
  dataFileEnd : Option Nat
  /-- The snapshot that deleted each position. -/
  deletions : List (Nat × Nat)
  expectedPrev : Option Nat
  beginSnapshot : Nat
  partialMax : Option Nat
  endSnapshot : Option Nat
deriving DecidableEq, Repr

def inlinedDeletions (rows : List InlinedFileDeleteForFlush) : List (Nat × Nat) :=
  noteAll [] (rows.map fun row => (row.rowId, row.beginSnapshot))

/-- The inlined deletions merged with those of the delete file they replace. -/
def mergedDeletions (existing : Option DeleteFile) (rows : List InlinedFileDeleteForFlush) : List (Nat × Nat) :=
  noteAll (inlinedDeletions rows) (existing.elim [] readDeleteFile)

/-- The body of the loop of `plan_file_deletes`, for the rows of one data file, the
    first of which is `row`. The deletions of a retired file stay inlined where the
    merged file would not alone cover its history. -/
def planFileDelete (row : InlinedFileDeleteForFlush) (rows : List InlinedFileDeleteForFlush) :
    Option PlannedFileDeletes :=
  let deletions := mergedDeletions row.existingDelete (row :: rows)
  let beginSnapshot := (first deletions).getD 0
  let inlinedLast := (last (inlinedDeletions (row :: rows))).getD 0
  let retiredWithDeletes := row.dataFileEnd.isSome && row.existingDelete.isSome
  let overlapsEarlier := row.earlierDeleteEnd.any fun e => decide (beginSnapshot < e)
  let outlivesEnd := row.existingDeleteEnd.any fun e => decide (e ≤ inlinedLast)
  if retiredWithDeletes && (overlapsEarlier || outlivesEnd) then none
  else some
    { dataFileId := row.dataFileId
      dataFileEnd := row.dataFileEnd
      deletions := deletions
      expectedPrev := row.existingDelete.map (·.id)
      beginSnapshot := beginSnapshot
      partialMax := last deletions
      endSnapshot := if retiredWithDeletes then row.existingDeleteEnd else none }

/-- The rows of one data file. -/
def planGroup (rows : List InlinedFileDeleteForFlush) (dataFileId : Nat) : Option PlannedFileDeletes :=
  match rows.filter (·.dataFileId == dataFileId) with
  | [] => none
  | row :: rest => planFileDelete row rest

def planFileDeletes (rows : List InlinedFileDeleteForFlush) : List PlannedFileDeletes :=
  ((rows.map (·.dataFileId)).dedup.insertionSort (· ≤ ·)).filterMap (planGroup rows)

def PlannedFileDeletes.toFileDelete (planned : PlannedFileDeletes) (object : ObjectPath) : InlinedFlushFileDelete :=
  { dataFileId := planned.dataFileId
    dataFileEnd := planned.dataFileEnd
    expectedPrevDeleteFile := planned.expectedPrev
    delete :=
      { delete := ⟨object.path, object.pathIsRelative, datedEntries planned.deletions, none⟩
        beginSnapshot := planned.beginSnapshot
        partialMax := planned.partialMax
        endSnapshot := planned.endSnapshot } }

/-! ## The plan of one table -/

/-- What `flush_table` plans for a table it reads as `T`. -/
structure FlushPlan (T : TableStorage V) (base : Nat) (table : InlinedFlushTable V) : Prop where
  inlinedTables : table.inlinedTables = inlinedTablesForFlush T base
  files : ∃ groups : List (List (InlinedRow V)), groups.flatten.Perm (writtenUpTo T base table.inlinedTables) ∧
    List.Forall₂ IsFlushed groups table.files
  fileDeletes : List.Forall₂ (fun planned out => ∃ object, out = PlannedFileDeletes.toFileDelete planned object)
    (planFileDeletes (inlinedFileDeletesForFlush T base)) table.fileDeletes

/-! ## What a plan may rely on later -/

/-- A planned delete file still fits the table, which has seen snapshots up to `h`; for
    a live data file it holds the positions that were deleted when it was read. -/
structure Flushable (entry : InlinedFlushFileDelete) (T : TableStorage V) (N base h : Nat) : Prop where
  below : entry.dataFileId < N
  begins : entry.delete.beginSnapshot ≤ h
  ends : ∀ e, entry.delete.endSnapshot = some e → e ≤ h
  dated : ∀ e ∈ entry.delete.delete.entries, ∀ σ, e.snapshot = some σ → σ ≤ h
  live : entry.dataFileEnd = none → entry.delete.endSnapshot = none ∧ ∃ tf : TableFile V,
    tf.Held T N base ∧ entry.dataFileId = tf.file.id ∧
    entry.expectedPrevDeleteFile = tf.deleteFile.map (·.id) ∧
    ∀ p, (entry.delete.delete.entries.any (·.position == p)) = tf.masks p

/-- A planned flush of a table still fits it. `quiet` says that nothing was done to the
    inlined rows since the base. -/
structure FlushHeld (table : InlinedFlushTable V) (T : TableStorage V) (N base h : Nat) (quiet : Prop) : Prop where
  nodup : (table.fileDeletes.map (·.dataFileId)).Nodup
  fileDeletes : ∀ entry ∈ table.fileDeletes, Flushable entry T N base h
  files : ∃ groups : List (List (InlinedRow V)), List.Forall₂ IsFlushed groups table.files ∧
    (quiet → groups.flatten.Perm (writtenUpTo T base table.inlinedTables))
  noFiles : table.files = [] → table.inlinedTables = []

theorem Flushable.evolves {tx tx' : TableTx V} {entry : InlinedFlushFileDelete} {h' c : Nat}
    (held : Flushable entry tx.storage tx.nextFileId base h) (hv : tx.Valid h)
    (hv' : tx'.Valid h') (hev : tx.Evolves c tx') (hc : base < c) (hh : h ≤ h') :
    Flushable entry tx'.storage tx'.nextFileId base h' where
  below := held.below.trans_le hev.nextFile
  begins := held.begins.trans hh
  ends e he := (held.ends e he).trans hh
  dated e he σ hσ := (held.dated e he σ hσ).trans hh
  live hnone := by
    obtain ⟨hend, tf, htf, hrest⟩ := held.live hnone
    exact ⟨hend, tf, htf.evolves hv hv' hev hc, hrest⟩

/-! ## The planned deletions -/

variable {rows : List InlinedFileDeleteForFlush} {row : InlinedFileDeleteForFlush} {planned : PlannedFileDeletes}
  {f : DataFile V}

theorem joinedForFlush_eq (hf : f.live = true) :
    joinedForFlush T base f = T.joinedDeleteFiles f.id base := by
  have hends : endsAfter base f.toLifetime = true := by simp [endsAfter, Lifetime.live_iff.mp hf]
  have hfiles : deleteFilesForFlush T base f = T.deleteFilesAt f.id base := by
    unfold deleteFilesForFlush TableStorage.deleteFilesAt
    simp only [hends, if_true, List.filter_filter]
    refine List.filter_congr fun d _ => ?_
    unfold endsAfter Lifetime.visibleAt
    rw [Bool.and_comm, Bool.and_assoc]
  unfold joinedForFlush TableStorage.joinedDeleteFiles
  cases hd : T.deleteFilesAt f.id base <;> simp only [hfiles, hd]

theorem exists_joinedForFlush (T : TableStorage V) (base : Nat) (f : DataFile V) :
    ∃ ex, ex ∈ joinedForFlush T base f := by
  unfold joinedForFlush
  cases deleteFilesForFlush T base f <;> simp

theorem mem_deleteFiles_of_joined {d : DeleteFile} (hd : some d ∈ joinedForFlush T base f) :
    d ∈ T.deleteFiles := by
  have hmem : d ∈ deleteFilesForFlush T base f := by
    unfold joinedForFlush at hd
    split at hd
    · simp at hd
    · simpa using hd
  exact (List.mem_filter.mp (List.mem_filter.mp hmem).1).1

theorem mem_inlinedFileDeletesForFlush :
    row ∈ inlinedFileDeletesForFlush T base ↔ ∃ x ∈ T.inlinedDeletes, x.beginSnapshot ≤ base ∧
      ∃ f ∈ T.dataFiles, f.id = x.fileId ∧ f.beginSnapshot ≤ base ∧ ∃ ex ∈ joinedForFlush T base f,
        row = ⟨x.fileId, x.position, x.beginSnapshot, ex, f.endSnapshot, ex.bind (·.endSnapshot),
          ex.bind (earlierDeleteEnd T f.id)⟩ := by
  simp only [inlinedFileDeletesForFlush, List.mem_flatMap, List.mem_filter, List.mem_map, Bool.and_eq_true,
    decide_eq_true_eq, beq_iff_eq]
  constructor
  · rintro ⟨x, ⟨hx, hb⟩, f, ⟨hf, hid, hborn⟩, ex, hex, rfl⟩
    exact ⟨x, hx, hb, f, hf, hid, hborn, ex, hex, rfl⟩
  · rintro ⟨x, hx, hb, f, hf, hid, hborn, ex, hex, rfl⟩
    exact ⟨x, ⟨hx, hb⟩, f, ⟨hf, hid, hborn⟩, ex, hex, rfl⟩

theorem planGroup_eq_some
    (hp : planGroup rows i = some planned) : ∃ row rest, rows.filter (·.dataFileId == i) = row :: rest ∧
      row ∈ rows ∧ row.dataFileId = i ∧ planFileDelete row rest = some planned := by
  unfold planGroup at hp
  split at hp
  · cases hp
  · next row rest hrows =>
    have hmem : row ∈ rows.filter (·.dataFileId == i) := hrows ▸ List.mem_cons_self ..
    obtain ⟨hrow, hid⟩ := List.mem_filter.mp hmem
    exact ⟨row, rest, hrows, hrow, by simpa using hid, hp⟩

theorem planFileDelete_eq_some {rest : List InlinedFileDeleteForFlush} (hp : planFileDelete row rest = some planned) :
    planned.dataFileId = row.dataFileId ∧ planned.dataFileEnd = row.dataFileEnd ∧
      planned.expectedPrev = row.existingDelete.map (·.id) ∧
      planned.deletions = mergedDeletions row.existingDelete (row :: rest) ∧
      planned.beginSnapshot = (first planned.deletions).getD 0 ∧
      planned.endSnapshot =
        (if row.dataFileEnd.isSome && row.existingDelete.isSome then row.existingDeleteEnd else none) := by
  simp only [planFileDelete] at hp
  split at hp
  · cases hp
  · obtain rfl := Option.some.inj hp
    exact ⟨rfl, rfl, rfl, rfl, rfl, rfl⟩

theorem mem_mergedDeletions {existing : Option DeleteFile} {x : Nat × Nat}
    (hx : x ∈ mergedDeletions existing rows) : (∃ row ∈ rows, x = (row.rowId, row.beginSnapshot)) ∨
      ∃ d, existing = some d ∧ x ∈ readDeleteFile d := by
  rcases mem_noteAll hx with hx | hx
  · rcases mem_noteAll hx with hx | hx
    · cases hx
    · obtain ⟨row, hrow, rfl⟩ := List.mem_map.mp hx
      exact .inl ⟨row, hrow, rfl⟩
  · cases existing with
    | none => cases hx
    | some d => exact .inr ⟨d, rfl, hx⟩

theorem noted_mergedDeletions {existing : Option DeleteFile} {p : Nat} :
    noted (mergedDeletions existing rows) p = true ↔ (∃ row ∈ rows, row.rowId = p) ∨
      existing.any (·.holds p) = true := by
  unfold mergedDeletions inlinedDeletions
  rw [noted_noteAll, noted_noteAll]
  refine or_congr ?_ ?_
  · simp [noted]
  · cases existing with
    | none => simp
    | some d => simp [readDeleteFile, DeleteFile.holds]

theorem datedEntries_any (deletions : List (Nat × Nat)) (p : Nat) :
    (datedEntries deletions).any (·.position == p) = noted deletions p := by
  unfold datedEntries noted
  rw [List.any_map]
  rfl

theorem rowIds_of_group {p : Nat}
    (hrows : (inlinedFileDeletesForFlush T base).filter (·.dataFileId == f.id) = rows) (hf : f ∈ T.dataFiles)
    (hborn : f.beginSnapshot ≤ base) : (∃ row ∈ rows, row.rowId = p) ↔
      ∃ x ∈ T.inlinedDeletes, x.fileId = f.id ∧ x.position = p ∧ x.beginSnapshot ≤ base := by
  subst hrows
  simp only [List.mem_filter, mem_inlinedFileDeletesForFlush, beq_iff_eq]
  constructor
  · rintro ⟨row, ⟨⟨x, hx, hb, g, -, -, -, ex, -, rfl⟩, hid⟩, rfl⟩
    exact ⟨x, hx, hid, rfl, hb⟩
  · rintro ⟨x, hx, hid, rfl, hb⟩
    obtain ⟨ex, hex⟩ := exists_joinedForFlush T base f
    exact ⟨_, ⟨⟨x, hx, hb, f, hf, hid.symm, hborn, ex, hex, rfl⟩, hid⟩, rfl⟩

theorem planned_dates_le {rest : List InlinedFileDeleteForFlush}
    (hv : T.Valid h N) (hbase : base ≤ h) (hrow : row ∈ inlinedFileDeletesForFlush T base)
    (hrest : ∀ r ∈ rest, r ∈ inlinedFileDeletesForFlush T base) {x : Nat × Nat}
    (hx : x ∈ mergedDeletions row.existingDelete (row :: rest)) : x.2 ≤ h := by
  rcases mem_mergedDeletions hx with ⟨r, hr, rfl⟩ | ⟨d, hd, hxd⟩
  · have hr : r ∈ inlinedFileDeletesForFlush T base := (List.mem_cons.mp hr).elim (· ▸ hrow) (hrest r)
    obtain ⟨x, -, hb, -, -, -, -, -, -, rfl⟩ := mem_inlinedFileDeletesForFlush.mp hr
    exact hb.trans hbase
  · obtain ⟨_, -, -, f, -, -, -, ex, hex, rfl⟩ := mem_inlinedFileDeletesForFlush.mp hrow
    obtain rfl : ex = some d := hd
    have hmem := mem_deleteFiles_of_joined hex
    obtain ⟨e, he, rfl⟩ := List.mem_map.mp hxd
    cases hσ : e.snapshot with
    | none => simpa [hσ] using (hv.deleteLife d hmem).born
    | some σ => simpa [hσ] using hv.dated d hmem e he σ hσ

theorem flushable_of_planGroup (hv : T.Valid h N) (hbase : base ≤ h)
    (hp : planGroup (inlinedFileDeletesForFlush T base) i = some planned) (object : ObjectPath) :
    Flushable (planned.toFileDelete object) T N base h ∧ planned.dataFileId = i := by
  obtain ⟨row, rest, hrows, hrow, hid, hplan⟩ := planGroup_eq_some hp
  obtain ⟨hfile, hend, hprev, hdel, hbegin, hends⟩ := planFileDelete_eq_some hplan
  have hrest : ∀ r ∈ rest, r ∈ inlinedFileDeletesForFlush T base := fun r hr =>
    (List.mem_filter.mp (hrows ▸ List.mem_cons_of_mem _ hr)).1
  have hdates : ∀ x ∈ planned.deletions, x.2 ≤ h := fun x hx =>
    planned_dates_le hv hbase hrow hrest (hdel ▸ hx)
  obtain ⟨x, hx, hb, f, hf, hfx, hborn, ex, hex, rfl⟩ := mem_inlinedFileDeletesForFlush.mp hrow
  obtain rfl : i = f.id := (hfx.trans hid).symm
  refine ⟨⟨?_, ?_, ?_, ?_, ?_⟩, hfile.trans hid⟩
  · exact (hfile.trans hid).trans_lt (hv.dataBelow f hf)
  · show planned.beginSnapshot ≤ h
    rw [hbegin]
    cases hfirst : first planned.deletions with
    | none => exact Nat.zero_le _
    | some b =>
      obtain ⟨k, hk⟩ := first_mem hfirst
      exact hdates _ hk
  · intro e he
    have he : planned.endSnapshot = some e := he
    rw [hends] at he
    split at he
    · obtain ⟨d, rfl, hde⟩ := Option.bind_eq_some_iff.mp he
      exact (hv.deleteLife d (mem_deleteFiles_of_joined hex)).ended e hde
    · cases he
  · intro e he σ hσ
    obtain ⟨y, hy, rfl⟩ := List.mem_map.mp he
    exact Option.some.inj hσ ▸ hdates y hy
  · intro hnone
    have hlive : f.live = true := Lifetime.live_iff.mpr (hend.symm.trans hnone)
    refine ⟨?_, ⟨f, ex, (T.inlinedDeletes.filter fun x =>
      x.fileId == f.id && decide (x.beginSnapshot ≤ base)).map (·.position)⟩, ?_, hfile.trans hid, hprev, ?_⟩
    · show planned.endSnapshot = none
      rw [hends]
      simp [Lifetime.live_iff.mp hlive]
    · refine TableFile.held_of_mem_files hv (TableFile.mem_files.mpr ⟨hf, ?_, ?_, rfl⟩)
      · exact Lifetime.visibleAt_iff.mpr ⟨hborn, by simp [Lifetime.live_iff.mp hlive]⟩
      · exact joinedForFlush_eq hlive ▸ hex
    · intro p
      show (datedEntries planned.deletions).any (·.position == p) = _
      rw [datedEntries_any, hdel, Bool.eq_iff_iff, noted_mergedDeletions, rowIds_of_group hrows hf hborn, or_comm]
      simp only [TableFile.masks, Bool.or_eq_true, List.contains_iff_mem, List.mem_map, List.mem_filter,
        Bool.and_eq_true, beq_iff_eq, decide_eq_true_eq]
      refine or_congr_right ⟨?_, ?_⟩
      · rintro ⟨y, hy, hyi, rfl, hyb⟩
        exact ⟨y, ⟨hy, hyi, hyb⟩, rfl⟩
      · rintro ⟨y, ⟨hy, hyi, hyb⟩, rfl⟩
        exact ⟨y, hy, hyi, rfl, hyb⟩

theorem planFileDeletes_nodup (hv : T.Valid h N) (hbase : base ≤ h) :
    ((planFileDeletes (inlinedFileDeletesForFlush T base)).map (·.dataFileId)).Nodup := by
  refine (Lists.filterMap_map_sublist (fun i planned hp => ?_) _).nodup ?_
  · exact (flushable_of_planGroup hv hbase hp ⟨[], false⟩).2
  · exact (List.perm_insertionSort ..).nodup_iff.mpr (List.nodup_dedup _)

/-- An inlined table is flushed for a row it holds, so a flush without files leaves them. -/
theorem FlushPlan.noFiles {table : InlinedFlushTable V} (hplan : FlushPlan T base table) (hnone : table.files = []) :
    table.inlinedTables = [] := by
  obtain ⟨htables, ⟨groups, hgroups, hfiles⟩, -⟩ := hplan
  rw [hnone, List.forall₂_nil_right_iff] at hfiles
  rw [hfiles, List.flatten_nil, List.nil_perm] at hgroups
  rw [htables, inlinedTablesForFlush, List.filter_eq_nil_iff]
  intro t ht hrow
  obtain ⟨r, hr, hrt⟩ := List.any_eq_true.mp hrow
  simp only [Bool.and_eq_true, beq_iff_eq, decide_eq_true_eq] at hrt
  have hmem : r ∈ writtenUpTo T base table.inlinedTables := by
    refine List.mem_filter.mpr ⟨hr, ?_⟩
    rw [htables, Bool.and_eq_true, List.contains_iff_mem, decide_eq_true_eq]
    exact ⟨List.mem_filter.mpr ⟨hrt.1 ▸ ht, hrt.1 ▸ hrow⟩, hrt.2⟩
  rw [hgroups] at hmem
  cases hmem

theorem flushHeld_of_plan {table : InlinedFlushTable V} (hv : T.Valid h N) (hbase : base ≤ h)
    (hplan : FlushPlan T base table) (quiet : Prop) : FlushHeld table T N base h quiet := by
  have hnone := hplan.noFiles
  obtain ⟨htables, ⟨groups, hgroups, hfiles⟩, hdeletes⟩ := hplan
  have hids : table.fileDeletes.map (·.dataFileId) =
      (planFileDeletes (inlinedFileDeletesForFlush T base)).map (·.dataFileId) := by
    have heq : List.Forall₂ (· = ·) ((planFileDeletes (inlinedFileDeletesForFlush T base)).map (·.dataFileId))
        (table.fileDeletes.map (·.dataFileId)) :=
      List.forall₂_map_left_iff.mpr (List.forall₂_map_right_iff.mpr
        (hdeletes.imp fun planned out ⟨object, hout⟩ => by rw [hout]; rfl))
    rw [List.forall₂_eq_eq_eq] at heq
    exact heq.symm
  refine ⟨hids ▸ planFileDeletes_nodup hv hbase, ?_, ⟨groups, hfiles, fun _ => hgroups⟩, hnone⟩
  intro entry he
  obtain ⟨planned, hplanned, object, rfl⟩ := Lists.exists_of_mem_right hdeletes he
  obtain ⟨i, -, hi⟩ := List.mem_filterMap.mp hplanned
  exact (flushable_of_planGroup hv hbase hi object).1

end DuckLake.Plan
