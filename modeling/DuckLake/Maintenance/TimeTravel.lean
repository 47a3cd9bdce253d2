import DuckLake.Lake.System
import DuckLake.Maintenance.Expire

/- Time travel across an expiry. What a snapshot that stays sees of the tables, of their
   data files and of the delete files of those data files is what it saw before; a delete
   file goes with its data file, also one that was never ended. Every row removed is
   scheduled under the paths its table's versions give it, and no other row is; where no
   two files share a path, no file that stays is at a path the run schedules. -/

namespace DuckLake.Maintenance

open Metadata Versioned Optimistic DuckLake.Lake

variable {V : Type}

/-! ## What a snapshot sees -/

def tablesAt (cat : Catalog V) (s : Nat) : List Metadata.TableRow := cat.tables.filter (·.visibleAt s)

def dataFilesAt (T : TableStorage V) (s : Nat) : List (DataFile V) := T.dataFiles.filter (·.visibleAt s)

/-- The delete files in whose lifetime the snapshot lies. -/
def deleteFilesAt (T : TableStorage V) (s : Nat) : List DeleteFile := T.deleteFiles.filter (·.visibleAt s)

/-- Those of them the file listing joins: their data file is seen too. -/
def joinedDeleteFilesAt (T : TableStorage V) (s : Nat) : List DeleteFile :=
  (deleteFilesAt T s).filter fun d => (dataFilesAt T s).any (·.id == d.dataFileId)

/-- The snapshots of `next` see what they saw in `cat`, where `deleteFiles` are the delete
    files that count. -/
structure KeepsTimeTravel (deleteFiles : TableStorage V → Nat → List DeleteFile) (cat next : Catalog V) : Prop where
  tables : ∀ s ∈ next.snapshots.map (·.snapshotId), tablesAt next s = tablesAt cat s
  files : ∀ s ∈ next.snapshots.map (·.snapshotId), ∀ table ∈ tablesAt cat s,
    dataFilesAt (next.storage table.tableId) s = dataFilesAt (cat.storage table.tableId) s ∧
      deleteFiles (next.storage table.tableId) s = deleteFiles (cat.storage table.tableId) s

/-- The file rows of `cat` that `next` no longer has, as rows to schedule. -/
inductive Removed (cat next : Catalog V) : ScheduledFile → Prop
  | data {t : Nat} {f : DataFile V} {l : Metadata.TableRow × Metadata.SchemaRow} (hf : f ∈ (cat.storage t).dataFiles)
      (hgone : f ∉ (next.storage t).dataFiles) (hl : l ∈ cat.location t) :
      Removed cat next (scheduledRow f.id f.path f.pathIsRelative l)
  | delete {t : Nat} {d : DeleteFile} {l : Metadata.TableRow × Metadata.SchemaRow}
      (hd : d ∈ (cat.storage t).deleteFiles) (hgone : d ∉ (next.storage t).deleteFiles) (hl : l ∈ cat.location t) :
      Removed cat next (scheduledRow d.id d.path d.pathIsRelative l)

/-- A removed row joins a version of its table, and what is scheduled besides what was are
    the removed rows. -/
structure SchedulesRemoved (cat next : Catalog V) : Prop where
  located : ∀ t, (∃ f ∈ (cat.storage t).dataFiles, f ∉ (next.storage t).dataFiles) ∨
    (∃ d ∈ (cat.storage t).deleteFiles, d ∉ (next.storage t).deleteFiles) → cat.location t ≠ []
  scheduled : ∀ row, row ∈ next.scheduled ↔ row ∈ cat.scheduled ∨ Removed cat next row

/-- The file rows of a catalog, told apart by their kind, table and id, each where a version
    of its table places it. -/
inductive Placed (cat : Catalog V) : Bool × Nat × Nat → ScheduledFile → Prop
  | data {t : Nat} {f : DataFile V} {l : Metadata.TableRow × Metadata.SchemaRow} (hf : f ∈ (cat.storage t).dataFiles)
      (hl : l ∈ cat.location t) : Placed cat (false, t, f.id) (scheduledRow f.id f.path f.pathIsRelative l)
  | delete {t : Nat} {d : DeleteFile} {l : Metadata.TableRow × Metadata.SchemaRow}
      (hd : d ∈ (cat.storage t).deleteFiles) (hl : l ∈ cat.location t) :
      Placed cat (true, t, d.id) (scheduledRow d.id d.path d.pathIsRelative l)

/-- No two file rows are at one path, as `resolve` reads paths. -/
def PathsApart {K : Type} (resolve : Text → Bool → K) (cat : Catalog V) : Prop :=
  ∀ {file file' row row'}, Placed cat file row → Placed cat file' row' →
    resolve row.path row.pathIsRelative = resolve row'.path row'.pathIsRelative → file = file'

/-- No file row that stays is at the path of a row that was removed. -/
def SparesPaths {K : Type} (resolve : Text → Bool → K) (cat next : Catalog V) : Prop :=
  ∀ {row}, Removed cat next row → ∀ {file row'}, Placed next file row' →
    resolve row'.path row'.pathIsRelative ≠ resolve row.path row.pathIsRelative

/-- File ids are primary keys. -/
structure Keyed (cat : Catalog V) : Prop where
  dataFiles : ∀ t, ((cat.storage t).dataFiles.map (·.id)).Nodup
  deleteFiles : ∀ t, ((cat.storage t).deleteFiles.map (·.id)).Nodup

theorem keyed_of_inv {cat : Catalog V} (hinv : cat.Inv) : Keyed cat :=
  ⟨fun t => (hinv.valid t).dataIds, fun t => (hinv.valid t).deleteIds⟩

/-! ## Reclaiming -/

section Reclaim

variable {cat : Catalog V} {s t : Nat}

theorem tablesAt_reclaim (hs : s ∈ cat.snapshots.map (·.snapshotId)) : tablesAt (reclaim cat) s = tablesAt cat s := by
  show (cat.tables.filter _).filter _ = cat.tables.filter _
  rw [List.filter_filter]
  refine List.filter_congr fun table ht => ?_
  cases hv : table.visibleAt s with
  | false => simp
  | true =>
    have hlive := not_mem_deadTables hs ht hv
    simp [hlive]

theorem not_mem_deadDataFileIds (hkeys : Keyed cat) (hs : s ∈ cat.snapshots.map (·.snapshotId))
    (hlive : t ∉ deadTables cat) {f : DataFile V} (hf : f ∈ dataFilesAt (cat.storage t) s) :
    f.id ∉ deadDataFileIds cat t := by
  intro hgone
  obtain ⟨hmem, hv⟩ := List.mem_filter.mp hf
  obtain ⟨-, f₁, hf₁, hid, hdead⟩ := mem_deadDataFileIds.mp hgone
  obtain rfl := List.inj_on_of_nodup_map (hkeys.dataFiles t) hf₁ hmem hid
  rcases hdead with hdead | hdead
  · exact hlive hdead
  · rw [reaches_of_visibleAt hs hv] at hdead
    cases hdead

theorem dataFilesAt_reclaim (hkeys : Keyed cat) (hs : s ∈ cat.snapshots.map (·.snapshotId))
    (hlive : t ∉ deadTables cat) :
    dataFilesAt ((reclaim cat).storage t) s = dataFilesAt (cat.storage t) s := by
  show (remainingStorage cat t).dataFiles.filter _ = _
  rw [remainingStorage_dataFiles, List.filter_filter]
  refine List.filter_congr fun f hf => ?_
  cases hv : f.visibleAt s with
  | false => simp
  | true =>
    have hkept := not_mem_deadDataFileIds hkeys hs hlive (List.mem_filter.mpr ⟨hf, hv⟩)
    simp [hkept]

theorem joinedDeleteFilesAt_reclaim (hkeys : Keyed cat) (hs : s ∈ cat.snapshots.map (·.snapshotId))
    (hlive : t ∉ deadTables cat) :
    joinedDeleteFilesAt ((reclaim cat).storage t) s = joinedDeleteFilesAt (cat.storage t) s := by
  unfold joinedDeleteFilesAt
  rw [dataFilesAt_reclaim hkeys hs hlive]
  show ((remainingStorage cat t).deleteFiles.filter _).filter _ = ((cat.storage t).deleteFiles.filter _).filter _
  rw [remainingStorage_deleteFiles, List.filter_filter, List.filter_filter, List.filter_filter]
  refine List.filter_congr fun d hd => ?_
  cases hjoin : (dataFilesAt (cat.storage t) s).any (·.id == d.dataFileId) with
  | false => simp
  | true =>
    cases hv : d.visibleAt s with
    | false => simp
    | true =>
      -- its data file stays and a snapshot sees it, so it is removed on no count
      have hkept : d.id ∉ deadDeleteFileIds cat t := by
        intro hgone
        obtain ⟨-, d₁, hd₁, hid, hdead⟩ := mem_deadDeleteFileIds.mp hgone
        obtain rfl := List.inj_on_of_nodup_map (hkeys.deleteFiles t) hd₁ hd hid
        rcases hdead with hdead | hdead | hdead
        · obtain ⟨f, hf, hfd⟩ := List.any_eq_true.mp hjoin
          exact not_mem_deadDataFileIds hkeys hs hlive hf (eq_of_beq hfd ▸ hdead)
        · exact hlive hdead
        · rw [reaches_of_visibleAt hs hv] at hdead
          cases hdead
      simp [hkept]

theorem keepsTimeTravel_reclaim (hkeys : Keyed cat) : KeepsTimeTravel joinedDeleteFilesAt cat (reclaim cat) where
  tables _ hs := tablesAt_reclaim hs
  files s hs table ht := by
    obtain ⟨hmem, hv⟩ := List.mem_filter.mp ht
    have hlive : table.tableId ∉ deadTables cat := not_mem_deadTables hs hmem hv
    exact ⟨dataFilesAt_reclaim hkeys hs hlive, joinedDeleteFilesAt_reclaim hkeys hs hlive⟩

theorem mem_tableIds_of_location {l : Metadata.TableRow × Metadata.SchemaRow} (hl : l ∈ cat.location t) :
    t ∈ tableIds cat := by
  obtain ⟨table, htable, -⟩ := List.mem_flatMap.mp hl
  obtain ⟨hmem, hid⟩ := List.mem_filter.mp htable
  exact List.mem_dedup.mpr (List.mem_map.mpr ⟨table, hmem, eq_of_beq hid⟩)

/-- A data file row is removed when it is selected, and only then. -/
theorem dataFile_removed_iff (hkeys : Keyed cat) {f : DataFile V} (hf : f ∈ (cat.storage t).dataFiles) :
    f ∉ ((reclaim cat).storage t).dataFiles ↔
      cat.location t ≠ [] ∧ (t ∈ deadTables cat ∨ reaches cat f.toLifetime = false) := by
  show f ∉ (remainingStorage cat t).dataFiles ↔ _
  rw [remainingStorage_dataFiles, List.mem_filter, not_and, Bool.not_eq_true', Bool.not_eq_false,
    List.contains_iff_mem, mem_deadDataFileIds]
  constructor
  · intro h
    obtain ⟨hloc, f₁, hf₁, hid, hdead⟩ := h hf
    obtain rfl := List.inj_on_of_nodup_map (hkeys.dataFiles t) hf₁ hf hid
    exact ⟨hloc, hdead⟩
  · rintro ⟨hloc, hdead⟩ -
    exact ⟨hloc, f, hf, rfl, hdead⟩

theorem deleteFile_removed_iff (hkeys : Keyed cat) {d : DeleteFile} (hd : d ∈ (cat.storage t).deleteFiles) :
    d ∉ ((reclaim cat).storage t).deleteFiles ↔ cat.location t ≠ [] ∧ (d.dataFileId ∈ deadDataFileIds cat t ∨
      t ∈ deadTables cat ∨ reaches cat d.toLifetime = false) := by
  show d ∉ (remainingStorage cat t).deleteFiles ↔ _
  rw [remainingStorage_deleteFiles, List.mem_filter, not_and, Bool.not_eq_true', Bool.not_eq_false,
    List.contains_iff_mem, mem_deadDeleteFileIds]
  constructor
  · intro h
    obtain ⟨hloc, d₁, hd₁, hid, hdead⟩ := h hd
    obtain rfl := List.inj_on_of_nodup_map (hkeys.deleteFiles t) hd₁ hd hid
    exact ⟨hloc, hdead⟩
  · rintro ⟨hloc, hdead⟩ -
    exact ⟨hloc, d, hd, rfl, hdead⟩

theorem schedulesRemoved_reclaim (hkeys : Keyed cat) : SchedulesRemoved cat (reclaim cat) where
  located t h := by
    rcases h with ⟨f, hf, hgone⟩ | ⟨d, hd, hgone⟩
    · exact ((dataFile_removed_iff hkeys hf).mp hgone).1
    · exact ((deleteFile_removed_iff hkeys hd).mp hgone).1
  scheduled row := by
    show row ∈ cat.scheduled ++ _ ++ _ ↔ _
    rw [List.mem_append, List.mem_append, or_assoc]
    refine or_congr_right ⟨?_, ?_⟩
    · rintro (h | h)
      · obtain ⟨t, -, hrow⟩ := List.mem_flatMap.mp h
        obtain ⟨f, hf, hdead, l, hl, rfl⟩ := mem_scheduleDataFiles.mp hrow
        exact .data hf ((dataFile_removed_iff hkeys hf).mpr ⟨List.ne_nil_of_mem hl, hdead⟩) hl
      · obtain ⟨t, -, hrow⟩ := List.mem_flatMap.mp h
        obtain ⟨d, hd, hdead, l, hl, rfl⟩ := mem_scheduleDeleteFiles.mp hrow
        exact .delete hd ((deleteFile_removed_iff hkeys hd).mpr ⟨List.ne_nil_of_mem hl, hdead⟩) hl
    · rintro (⟨hf, hgone, hl⟩ | ⟨hd, hgone, hl⟩)
      · have hdead := ((dataFile_removed_iff hkeys hf).mp hgone).2
        exact .inl (List.mem_flatMap.mpr ⟨_, mem_tableIds_of_location hl,
          mem_scheduleDataFiles.mpr ⟨_, hf, hdead, _, hl, rfl⟩⟩)
      · have hdead := ((deleteFile_removed_iff hkeys hd).mp hgone).2
        exact .inr (List.mem_flatMap.mpr ⟨_, mem_tableIds_of_location hl,
          mem_scheduleDeleteFiles.mpr ⟨_, hd, hdead, _, hl, rfl⟩⟩)

end Reclaim

/-! ## An expiry -/

section Expiry

variable {cat : Catalog V} {criteria : ExpireCriteria}

/-- An expiry adds no file row and places none anew. -/
theorem expireSnapshots_subset (criteria : ExpireCriteria) (cat : Catalog V) (t : Nat) :
    ((expireSnapshots criteria cat).2.storage t).dataFiles ⊆ (cat.storage t).dataFiles ∧
      ((expireSnapshots criteria cat).2.storage t).deleteFiles ⊆ (cat.storage t).deleteFiles ∧
      (expireSnapshots criteria cat).2.location t ⊆ cat.location t := by
  rcases expireSnapshots_cases criteria cat with h | h
  · rw [h]
    exact ⟨List.Subset.refl _, List.Subset.refl _, List.Subset.refl _⟩
  · rw [h]
    refine ⟨?_, ?_, ?_⟩
    · show (remainingStorage _ t).dataFiles ⊆ _
      rw [remainingStorage_dataFiles]
      exact List.filter_subset_self _
    · show (remainingStorage _ t).deleteFiles ⊆ _
      rw [remainingStorage_deleteFiles]
      exact List.filter_subset_self _
    · intro l hl
      simp only [Catalog.location, reclaim, removeSnapshots, List.mem_flatMap, List.mem_filter, List.mem_map] at hl ⊢
      obtain ⟨table, ⟨⟨htable, -⟩, hid⟩, schema, ⟨⟨hschema, -⟩, hid'⟩, rfl⟩ := hl
      exact ⟨table, ⟨htable, hid⟩, schema, ⟨hschema, hid'⟩, rfl⟩

theorem placed_of_expireSnapshots {file : Bool × Nat × Nat} {row : ScheduledFile}
    (h : Placed (expireSnapshots criteria cat).2 file row) : Placed cat file row := by
  cases h with
  | data hf hl =>
    exact .data ((expireSnapshots_subset criteria cat _).1 hf)
      ((expireSnapshots_subset criteria cat _).2.2 hl)
  | delete hd hl =>
    exact .delete ((expireSnapshots_subset criteria cat _).2.1 hd) ((expireSnapshots_subset criteria cat _).2.2 hl)

/-- A row that stays at the path of a removed one would be that row. -/
theorem sparesPaths_expireSnapshots {K : Type} {resolve : Text → Bool → K} (hkeys : Keyed cat)
    (hapart : PathsApart resolve cat) : SparesPaths resolve cat (expireSnapshots criteria cat).2 := by
  intro row hremoved file row' hplaced hpath
  have hcat := placed_of_expireSnapshots hplaced
  cases hremoved with
  | data hf hgone hl =>
    have hfile := hapart hcat (.data hf hl) hpath
    cases hplaced with
    | delete => cases hfile
    | data hf' _ =>
      obtain ⟨-, rfl, hid⟩ : _ ∧ _ ∧ _ := by simpa only [Prod.mk.injEq] using hfile
      obtain rfl := List.inj_on_of_nodup_map (hkeys.dataFiles _) ((expireSnapshots_subset criteria cat _).1 hf') hf hid
      exact hgone hf'
  | delete hd hgone hl =>
    have hfile := hapart hcat (.delete hd hl) hpath
    cases hplaced with
    | data => cases hfile
    | delete hd' _ =>
      obtain ⟨-, rfl, hid⟩ : _ ∧ _ ∧ _ := by simpa only [Prod.mk.injEq] using hfile
      obtain rfl :=
        List.inj_on_of_nodup_map (hkeys.deleteFiles _) ((expireSnapshots_subset criteria cat _).2.1 hd') hd hid
      exact hgone hd'

/-- Every expiry: the newest snapshot is not expired, the snapshots not expired stay and see
    the tables, the data files and their delete files they saw, what is removed is scheduled,
    and where no two files share a path, no file that stays is at a path that is. -/
theorem expire_keeps_time_travel (hkeys : Keyed cat) (criteria : ExpireCriteria) :
    cat.head ∉ (expireSnapshots criteria cat).1.map (·.snapshotId) ∧
      ((expireSnapshots criteria cat).2.snapshots = cat.snapshots.filter fun row =>
        !((expireSnapshots criteria cat).1.map (·.snapshotId)).contains row.snapshotId) ∧
      KeepsTimeTravel joinedDeleteFilesAt cat (expireSnapshots criteria cat).2 ∧
      SchedulesRemoved cat (expireSnapshots criteria cat).2 ∧
      ∀ {K : Type} (resolve : Text → Bool → K), PathsApart resolve cat →
        SparesPaths resolve cat (expireSnapshots criteria cat).2 := by
  have hspares : ∀ {K : Type} (resolve : Text → Bool → K), PathsApart resolve cat →
      SparesPaths resolve cat (expireSnapshots criteria cat).2 := fun _ => sparesPaths_expireSnapshots hkeys
  rcases expireSnapshots_cases criteria cat with h | h
  · -- nothing expired: the catalog stays as it is
    rw [h] at hspares ⊢
    refine ⟨by simp, by simp, ⟨fun _ _ => rfl, fun _ _ _ _ => ⟨rfl, rfl⟩⟩, ⟨?_, fun row => ⟨.inl, ?_⟩⟩, hspares⟩
    · rintro t (⟨f, hf, hgone⟩ | ⟨d, hd, hgone⟩)
      · exact absurd hf hgone
      · exact absurd hd hgone
    · rintro (hrow | ⟨hf, hgone, -⟩ | ⟨hd, hgone, -⟩)
      · exact hrow
      · exact absurd hf hgone
      · exact absurd hd hgone
  · rw [h] at hspares ⊢
    have hkeys₁ : Keyed (removeSnapshots ((expireCandidates criteria cat).map (·.snapshotId)) cat) :=
      ⟨hkeys.dataFiles, hkeys.deleteFiles⟩
    have hkept := keepsTimeTravel_reclaim hkeys₁
    have hscheduled := schedulesRemoved_reclaim hkeys₁
    refine ⟨head_not_mem_candidates, rfl, ⟨hkept.tables, hkept.files⟩, ⟨hscheduled.located, fun row => ?_⟩, hspares⟩
    refine (hscheduled.scheduled row).trans (or_congr_right ⟨?_, ?_⟩)
    · rintro (⟨hf, hgone, hl⟩ | ⟨hd, hgone, hl⟩)
      · exact .data hf hgone hl
      · exact .delete hd hgone hl
    · rintro (⟨hf, hgone, hl⟩ | ⟨hd, hgone, hl⟩)
      · exact .data hf hgone hl
      · exact .delete hd hgone hl

end Expiry

/-! A table of two rows: one is deleted with a delete file, then the other, which ends the
    data file and leaves the delete file as it is. -/

def createdLake : Catalog Unit :=
  { snapshots := [⟨1, 0⟩], changes := [⟨1, []⟩], schemas := [⟨⟨1, none⟩, 1, ['m'], true⟩]
    tables := [⟨⟨1, none⟩, 7, 1, ['t'], true⟩]
    storage := fun _ => ⟨[], [], [], [], [], 0⟩
    scheduled := [], nextFileId := 1, clock := 0 }

def noWrite : StagedTableWrite Unit :=
  { tableId := 7, baseSnapshotId := 1, mode := .append, data := .none, positionalDeletes := []
    rewrittenDeletes := [], inlinedDeletes := [], inlinedRowIds := none, insertedFiles := []
    inlinedFileDeletes := [], droppedFiles := [], inlinedFlush := false, exclusive := false }

def insertTwo : StagedTableWrite Unit :=
  { noWrite with data := .files [⟨['a'], true, .assign, none, [⟨none, none, ()⟩, ⟨none, none, ()⟩]⟩] }

def deleteFirst : StagedTableWrite Unit :=
  { noWrite with baseSnapshotId := 2, positionalDeletes := [⟨1, none, ⟨['d'], true, [⟨0, none⟩], some [0]⟩⟩] }

def deleteSecond : StagedTableWrite Unit :=
  { noWrite with baseSnapshotId := 3, droppedFiles := [⟨1, some 2⟩] }

/-- The catalog after a staged write, or the catalog itself when it is refused. -/
def afterWrite (cat : Catalog Unit) (write : StagedTableWrite Unit) : Catalog Unit :=
  ((Transaction.staged [write] none).commit cat).toOption.getD cat

def twoRowsLake : Catalog Unit := afterWrite createdLake insertTwo

def oneRowLake : Catalog Unit := afterWrite twoRowsLake deleteFirst

def noRowLake : Catalog Unit := afterWrite oneRowLake deleteSecond

theorem exists_steps_afterWrite {w₀ w : World (Catalog Unit) (Transaction Unit)}
    {ls : List (Catalog Unit × Transaction Unit)} {write : StagedTableWrite Unit} (hrun : Steps (lake Unit) w₀ ls w)
    (held : StageHeld w.state write True)
    (hok : (Transaction.staged [write] none).commit w.state = .ok (afterWrite w.state write)) :
    ∃ ls, Steps (lake Unit) w₀ ls ⟨afterWrite w.state write, .staged [write] none :: w.pending⟩ := by
  have hplans : (lake Unit).plans w.state w.pending (.staged [write] none) := ⟨held, .inl rfl⟩
  exact ⟨_, .tail (.tail hrun (.plan hplans)) (.commit (List.mem_cons_self ..) hok)⟩

theorem insertTwo_held : StageHeld createdLake insertTwo True := by
  refine ⟨by decide, ⟨by decide, by simp [insertTwo, noWrite], by simp [insertTwo, noWrite], by decide, by decide,
    by decide⟩, by decide, by simp [insertTwo, noWrite]⟩

theorem noRowLake_reachable : ∃ pending ls, Steps (lake Unit) ⟨createdLake, []⟩ ls ⟨noRowLake, pending⟩ := by
  have h₂ : StageHeld twoRowsLake deleteFirst True := by
    refine ⟨by decide, ⟨by decide, ?_, by simp [deleteFirst, noWrite], by decide, by decide, by decide⟩, by decide,
      by simp [deleteFirst, noWrite]⟩
    intro entry he
    obtain rfl := List.mem_singleton.mp he
    exact ⟨by decide, ⟨by simp, by simp⟩, by decide⟩
  have h₃ : StageHeld oneRowLake deleteSecond True := by
    refine ⟨by decide, ⟨by decide, by simp [deleteSecond, noWrite], by simp [deleteSecond, noWrite], by decide,
      by decide, by decide⟩, by decide, by simp [deleteSecond, noWrite]⟩
  obtain ⟨_, s₁⟩ := exists_steps_afterWrite (.refl ⟨createdLake, []⟩) insertTwo_held rfl
  obtain ⟨_, s₂⟩ := exists_steps_afterWrite s₁ h₂ rfl
  obtain ⟨_, s₃⟩ := exists_steps_afterWrite s₂ h₃ rfl
  exact ⟨_, _, s₃⟩

/-- The snapshot that ended the data file stays, the delete file never ended, and it is
    gone. -/
theorem expire_removes_open_delete_file : (∃ pending ls,
      Steps (lake Unit) ⟨createdLake, []⟩ ls ⟨noRowLake, pending⟩) ∧
    ¬ KeepsTimeTravel deleteFilesAt noRowLake (expireSnapshots (.versions [1, 2, 3]) noRowLake).2 := by
  refine ⟨noRowLake_reachable, fun h => ?_⟩
  have hsame := (h.files 4 (by decide) ⟨⟨1, none⟩, 7, 1, ['t'], true⟩ (by decide)).2
  revert hsame
  decide

theorem createdLake_inv : createdLake.Inv := by
  refine ⟨fun t => ?_, by simp [createdLake, Catalog.head]⟩
  constructor <;> simp [createdLake]
  exact ⟨by simp, by simp⟩

/-- The two file rows of the catalog, told apart by their paths. -/
theorem placed_noRowLake {file : Bool × Nat × Nat} {row : ScheduledFile} (h : Placed noRowLake file row) :
    file = if row.path.getLast? = some 'a' then (false, 7, 1) else (true, 7, 2) := by
  have hseven : ∀ {t l}, l ∈ noRowLake.location t → t = 7 := by
    intro t l hl
    obtain ⟨table, htable, -⟩ := List.mem_flatMap.mp hl
    obtain ⟨hmem, hid⟩ := List.mem_filter.mp htable
    have hall : ∀ table ∈ noRowLake.tables, table.tableId = 7 := by decide
    exact (eq_of_beq hid).symm.trans (hall table hmem)
  cases h with
  | @data t f l hf hl =>
    obtain rfl := hseven hl
    have hall : ∀ f ∈ (noRowLake.storage 7).dataFiles, ∀ l ∈ noRowLake.location 7,
        f.id = 1 ∧ (scheduledRow f.id f.path f.pathIsRelative l).path.getLast? = some 'a' := by decide
    rw [if_pos (hall f hf l hl).2, (hall f hf l hl).1]
  | @delete t d l hd hl =>
    obtain rfl := hseven hl
    have hall : ∀ d ∈ (noRowLake.storage 7).deleteFiles, ∀ l ∈ noRowLake.location 7,
        d.id = 2 ∧ (scheduledRow d.id d.path d.pathIsRelative l).path.getLast? ≠ some 'a' := by decide
    rw [if_neg (hall d hd l hl).2, (hall d hd l hl).1]

/-- Of the same catalog snapshot 4 stays and reads what it read, and no file that stays is at
    the path of one that goes. -/
theorem noRowLake_keeps_time_travel :
    (expireSnapshots (.versions [1, 2, 3]) noRowLake).2.snapshots.map (·.snapshotId) = [4] ∧
      KeepsTimeTravel joinedDeleteFilesAt noRowLake (expireSnapshots (.versions [1, 2, 3]) noRowLake).2 ∧
      SparesPaths Prod.mk noRowLake (expireSnapshots (.versions [1, 2, 3]) noRowLake).2 := by
  obtain ⟨pending, ls, hrun⟩ := noRowLake_reachable
  have hsound : Sound (lakeDiscipline Unit) ⟨noRowLake, pending⟩ := hrun.sound ⟨createdLake_inv, by simp⟩
  have hkeys : Keyed noRowLake := keyed_of_inv hsound.inv
  obtain ⟨-, hstay, hkeeps, -, hspares⟩ := expire_keeps_time_travel hkeys (.versions [1, 2, 3])
  refine ⟨?_, hkeeps, hspares Prod.mk fun h h' hpath => ?_⟩
  · rw [hstay]
    decide
  · rw [placed_noRowLake h, placed_noRowLake h', (Prod.mk.inj hpath).1]

end DuckLake.Maintenance
