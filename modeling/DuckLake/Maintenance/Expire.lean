import DuckLake.Metadata.MultiTable

/- Snapshot expiry, `expire_snapshots` of `metadata_writer_sqlite.rs`: the chosen
   snapshots and their change rows go, then what no remaining snapshot reads.

   Rust                                   Lean
   ExpireCriteria                         ExpireCriteria
   candidates (never MAX(snapshot_id))    expireCandidates
   NOT (end IS NOT NULL AND NOT EXISTS)   reaches
   dead_tables                            deadTables
   schedule_files over the joined rows    scheduleDataFiles, scheduleDeleteFiles
   step 6, inlined storage of the dead    TableStorage.dropInlined

   A file id is a primary key, so deleting rows by the scheduled ids deletes the rows
   selected, and the rows of one table are looked at alone. The other per-table
   metadata and the tags are not part of the catalog modelled here. -/

namespace DuckLake.Metadata

variable {V : Type}

/-- The inlined storage of a table is dropped with its registry and counters. -/
def TableStorage.dropInlined (T : TableStorage V) : TableStorage V :=
  { T with inlinedRows := [], inlinedDeletes := [], inlinedTables := [], nextRowId := 0 }

end DuckLake.Metadata

namespace DuckLake.Maintenance

open Metadata Versioned

variable {V : Type}

/-! ## Which snapshots go -/

inductive ExpireCriteria where
  | versions (ids : List Nat)
  | olderThan (time : Nat)
deriving DecidableEq, Repr

def ExpireCriteria.names : ExpireCriteria → SnapshotRow → Bool
  | .versions ids, row => ids.contains row.snapshotId
  | .olderThan time, row => decide (row.snapshotTime < time)

/-- The snapshots to expire. The most recent one is never among them. -/
def expireCandidates (criteria : ExpireCriteria) (cat : Catalog V) : List SnapshotRow :=
  cat.snapshots.filter fun row => row.snapshotId != cat.head && criteria.names row

/-- Delete snapshots and their change rows. -/
def removeSnapshots (ids : List Nat) (cat : Catalog V) : Catalog V :=
  { cat with
    snapshots := cat.snapshots.filter fun row => !ids.contains row.snapshotId
    changes := cat.changes.filter fun row => !ids.contains row.snapshotId }

/-! ## What no snapshot reads -/

section Reclaim
variable (cat : Catalog V)

/-- The row has not ended, or a snapshot of the catalog lies in its lifetime. -/
def reaches (life : Lifetime) : Bool :=
  life.live || cat.snapshots.any fun row => life.visibleAt row.snapshotId

/-- The tables none of whose versions is reached. -/
def deadTables : List Nat :=
  (cat.tables.filter fun t => !reaches cat t.toLifetime &&
    !cat.tables.any fun t₂ => t₂.tableId == t.tableId && reaches cat t₂.toLifetime).map (·.tableId)

/-- The data files of a table to remove, as rows to schedule: one for each version of the
    table the file joins. -/
def scheduleDataFiles (tableId : Nat) : List ScheduledFile :=
  ((cat.storage tableId).dataFiles.filter fun f =>
    (deadTables cat).contains tableId || !reaches cat f.toLifetime).flatMap fun f =>
      (cat.location tableId).map (scheduledRow f.id f.path f.pathIsRelative)

/-- The delete files to remove: also those of the data files removed. -/
def scheduleDeleteFiles (tableId : Nat) (dataFileIds : List Nat) : List ScheduledFile :=
  ((cat.storage tableId).deleteFiles.filter fun d => dataFileIds.contains d.dataFileId ||
    (deadTables cat).contains tableId || !reaches cat d.toLifetime).flatMap fun d =>
      (cat.location tableId).map (scheduledRow d.id d.path d.pathIsRelative)

def deadDataFileIds (tableId : Nat) : List Nat :=
  (scheduleDataFiles cat tableId).map (·.dataFileId)

def deadDeleteFileIds (tableId : Nat) : List Nat :=
  (scheduleDeleteFiles cat tableId (deadDataFileIds cat tableId)).map (·.dataFileId)

/-- The rows of one table that stay. -/
def remainingStorage (tableId : Nat) : TableStorage V :=
  let T := cat.storage tableId
  let kept := { T with
    dataFiles := T.dataFiles.filter fun f => !(deadDataFileIds cat tableId).contains f.id
    deleteFiles := T.deleteFiles.filter fun d => !(deadDeleteFileIds cat tableId).contains d.id }
  if (deadTables cat).contains tableId then kept.dropInlined else kept

def tableIds : List Nat := (cat.tables.map (·.tableId)).dedup

/-- Remove what the snapshots of the catalog do not read. -/
def reclaim : Catalog V :=
  { cat with
    storage := remainingStorage cat
    scheduled := cat.scheduled ++ (tableIds cat).flatMap (scheduleDataFiles cat) ++
      (tableIds cat).flatMap fun t => scheduleDeleteFiles cat t (deadDataFileIds cat t)
    tables := cat.tables.filter fun t => !(deadTables cat).contains t.tableId
    schemas := cat.schemas.filter fun s => reaches cat s.toLifetime }

end Reclaim

/-- `expire_snapshots`: the expired snapshots, and the catalog after it. -/
def expireSnapshots (criteria : ExpireCriteria) (cat : Catalog V) : List SnapshotRow × Catalog V :=
  let candidates := expireCandidates criteria cat
  if candidates.isEmpty then ([], cat)
  else (candidates, reclaim (removeSnapshots (candidates.map (·.snapshotId)) cat))

/-! ## The snapshots that stay -/

section Snapshots

variable {cat : Catalog V} {criteria : ExpireCriteria} {row : SnapshotRow}

theorem mem_expireCandidates : row ∈ expireCandidates criteria cat ↔
    row ∈ cat.snapshots ∧ row.snapshotId ≠ cat.head ∧ criteria.names row = true := by
  simp [expireCandidates]

theorem expireSnapshots_cases (criteria : ExpireCriteria) (cat : Catalog V) :
    expireSnapshots criteria cat = ([], cat) ∨ expireSnapshots criteria cat = (expireCandidates criteria cat,
      reclaim (removeSnapshots ((expireCandidates criteria cat).map (·.snapshotId)) cat)) := by
  by_cases hnone : (expireCandidates criteria cat).isEmpty = true
  · exact .inl (if_pos hnone)
  · exact .inr (if_neg hnone)

theorem head_removeSnapshots {ids : List Nat} (h : cat.head ∉ ids) : (removeSnapshots ids cat).head = cat.head := by
  refine le_antisymm (List.max_le_of_forall_le _ _ fun n hn => ?_) ?_
  · obtain ⟨row, hrow, rfl⟩ := List.mem_map.mp hn
    exact Catalog.le_head (List.mem_filter.mp hrow).1
  · by_cases hnil : cat.snapshots.map (·.snapshotId) = []
    · rw [Catalog.head, hnil]
      exact Nat.zero_le _
    · obtain ⟨row, hrow, hid⟩ := List.mem_map.mp (List.maximum_mem (List.foldr_max_of_ne_nil hnil).symm)
      have hid : row.snapshotId = cat.head := hid
      rw [← hid]
      refine Catalog.le_head (List.mem_filter.mpr ⟨hrow, ?_⟩)
      rw [hid]
      simpa using h

theorem head_not_mem_candidates : cat.head ∉ (expireCandidates criteria cat).map (·.snapshotId) := by
  intro hm
  obtain ⟨row, hrow, hid⟩ := List.mem_map.mp hm
  exact (mem_expireCandidates.mp hrow).2.1 hid

theorem head_expireSnapshots : (expireSnapshots criteria cat).2.head = cat.head := by
  rcases expireSnapshots_cases criteria cat with h | h
  · rw [h]
  · rw [h]
    exact head_removeSnapshots head_not_mem_candidates

end Snapshots

/-! ## The rows that stay -/

section Rows

variable {cat : Catalog V} {f : DataFile V} {d : DeleteFile} {s t : Nat}

theorem reaches_of_visibleAt {life : Lifetime} (hs : s ∈ cat.snapshots.map (·.snapshotId))
    (hv : life.visibleAt s = true) : reaches cat life = true := by
  obtain ⟨row, hrow, rfl⟩ := List.mem_map.mp hs
  rw [reaches, Bool.or_eq_true, List.any_eq_true]
  exact .inr ⟨row, hrow, hv⟩

theorem not_mem_deadTables {table : Metadata.TableRow} (hs : s ∈ cat.snapshots.map (·.snapshotId))
    (ht : table ∈ cat.tables) (hv : table.visibleAt s = true) : table.tableId ∉ deadTables cat := by
  intro hdead
  obtain ⟨t₁, ht₁, hid⟩ := List.mem_map.mp hdead
  obtain ⟨-, hnone⟩ := List.mem_filter.mp ht₁
  rw [Bool.and_eq_true, Bool.not_eq_true', Bool.not_eq_true', List.any_eq_false] at hnone
  refine hnone.2 table ht ?_
  rw [hid, beq_self_eq_true, Bool.true_and]
  exact reaches_of_visibleAt hs hv

theorem mem_scheduleDataFiles {row : ScheduledFile} : row ∈ scheduleDataFiles cat t ↔
    ∃ f ∈ (cat.storage t).dataFiles, (t ∈ deadTables cat ∨ reaches cat f.toLifetime = false) ∧
      ∃ l ∈ cat.location t, row = scheduledRow f.id f.path f.pathIsRelative l := by
  simp only [scheduleDataFiles, List.mem_flatMap, List.mem_filter, List.mem_map, Bool.or_eq_true,
    List.contains_iff_mem, Bool.not_eq_true']
  constructor
  · rintro ⟨f, ⟨hf, hdead⟩, l, hl, rfl⟩
    exact ⟨f, hf, hdead, l, hl, rfl⟩
  · rintro ⟨f, hf, hdead, l, hl, rfl⟩
    exact ⟨f, ⟨hf, hdead⟩, l, hl, rfl⟩

theorem mem_scheduleDeleteFiles {ids : List Nat} {row : ScheduledFile} : row ∈ scheduleDeleteFiles cat t ids ↔
    ∃ d ∈ (cat.storage t).deleteFiles,
      (d.dataFileId ∈ ids ∨ t ∈ deadTables cat ∨ reaches cat d.toLifetime = false) ∧
      ∃ l ∈ cat.location t, row = scheduledRow d.id d.path d.pathIsRelative l := by
  simp only [scheduleDeleteFiles, List.mem_flatMap, List.mem_filter, List.mem_map, Bool.or_eq_true,
    List.contains_iff_mem, Bool.not_eq_true', or_assoc]
  constructor
  · rintro ⟨d, ⟨hd, hdead⟩, l, hl, rfl⟩
    exact ⟨d, hd, hdead, l, hl, rfl⟩
  · rintro ⟨d, hd, hdead, l, hl, rfl⟩
    exact ⟨d, ⟨hd, hdead⟩, l, hl, rfl⟩

theorem mem_deadDataFileIds {i : Nat} : i ∈ deadDataFileIds cat t ↔ cat.location t ≠ [] ∧
    ∃ f ∈ (cat.storage t).dataFiles, f.id = i ∧ (t ∈ deadTables cat ∨ reaches cat f.toLifetime = false) := by
  simp only [deadDataFileIds, List.mem_map, mem_scheduleDataFiles]
  constructor
  · rintro ⟨_, ⟨f, hf, hdead, l, hl, rfl⟩, rfl⟩
    exact ⟨List.ne_nil_of_mem hl, f, hf, rfl, hdead⟩
  · rintro ⟨hloc, f, hf, rfl, hdead⟩
    obtain ⟨l, hl⟩ := List.exists_mem_of_ne_nil _ hloc
    exact ⟨_, ⟨f, hf, hdead, l, hl, rfl⟩, rfl⟩

theorem mem_deadDeleteFileIds {i : Nat} : i ∈ deadDeleteFileIds cat t ↔ cat.location t ≠ [] ∧
    ∃ d ∈ (cat.storage t).deleteFiles, d.id = i ∧ (d.dataFileId ∈ deadDataFileIds cat t ∨
      t ∈ deadTables cat ∨ reaches cat d.toLifetime = false) := by
  simp only [deadDeleteFileIds, List.mem_map, mem_scheduleDeleteFiles]
  constructor
  · rintro ⟨_, ⟨d, hd, hdead, l, hl, rfl⟩, rfl⟩
    exact ⟨List.ne_nil_of_mem hl, d, hd, rfl, hdead⟩
  · rintro ⟨hloc, d, hd, rfl, hdead⟩
    obtain ⟨l, hl⟩ := List.exists_mem_of_ne_nil _ hloc
    exact ⟨_, ⟨d, hd, hdead, l, hl, rfl⟩, rfl⟩

theorem remainingStorage_dataFiles : (remainingStorage cat t).dataFiles =
    (cat.storage t).dataFiles.filter fun f => !(deadDataFileIds cat t).contains f.id := by
  unfold remainingStorage
  split <;> rfl

theorem remainingStorage_deleteFiles : (remainingStorage cat t).deleteFiles =
    (cat.storage t).deleteFiles.filter fun d => !(deadDeleteFileIds cat t).contains d.id := by
  unfold remainingStorage
  split <;> rfl

end Rows

end DuckLake.Maintenance
