import DuckLake.Metadata.MultiTable

/- The commits that retire files: `commit_compaction`, which puts files written from
   the sources' rows in their place, and `commit_truncate`, which ends everything. -/

namespace DuckLake.Metadata

open Versioned Checked

variable {V : Type} {cat cat' : Catalog V} {tx tx' : TableTx V} {c t : Nat}

/-! ## Compaction -/

/-- A location in one of the data files. -/
def Location.inFiles (ids : List Nat) : Location → Bool
  | .file i _ => ids.contains i
  | .inlined .. => false

theorem TableStorage.current_inFiles {T : TableStorage V} (ids : List Nat) :
    T.current.filter (fun r => r.location.inFiles ids) =
      (T.liveFiles.filter fun f => ids.contains f.id).flatMap T.present := by
  have hinlined : (T.liveInlined.map InlinedRow.toScanRow).filter (fun r => r.location.inFiles ids) = [] :=
    List.filter_eq_nil_iff.mpr fun r hr => by
      obtain ⟨x, -, rfl⟩ := List.mem_map.mp hr
      simp [InlinedRow.toScanRow, Location.inFiles]
  unfold TableStorage.current
  rw [List.filter_append, hinlined, List.append_nil]
  refine (Lists.flatMap_filter_eq fun f _ r hr => ?_).symm
  obtain ⟨p, hp, -⟩ := TableStorage.location_of_mem_present hr
  rw [hp]
  rfl

/-- The rows of a file written from rows the table holds: each keeps its row id. -/
def DataFileInfo.carriedRows (file : DataFileInfo V) : List (Option Nat × V) :=
  file.rows.zipIdx.map fun (row, p) => (row.rowId.or ((carriedRowIdStart file).map (· + p)), row.value)

theorem DataFileInfo.carriedRows_eq {file : DataFileInfo V}
    (h : carriedRowIdStart file = none ∨ ∀ row ∈ file.rows, row.rowId.isSome = true) :
    file.carriedRows = file.rows.map fun r => (r.rowId, r.value) := by
  have hzip : file.rows.map (fun r => (r.rowId, r.value)) =
      file.rows.zipIdx.map fun (r, _) => (r.rowId, r.value) := by
    conv_lhs => rw [← List.zipIdx_map_fst 0 file.rows, List.map_map]
    rfl
  unfold DataFileInfo.carriedRows
  rw [hzip]
  refine List.map_congr_left fun ⟨row, p⟩ hx => ?_
  rcases h with h | h
  · simp [h]
  · have hrow := h row (List.fst_mem_of_mem_zipIdx hx)
    obtain ⟨i, hi⟩ := Option.isSome_iff_exists.mp hrow
    simp [hi]

/-- A file written from rows the table holds can be registered at snapshot `c`. -/
structure DataFileInfo.Carried (file : DataFileInfo V) (beginSnapshot : Nat) (partialMax : Option Nat)
    (nextRowId c : Nat) : Prop where
  begins : beginSnapshot ≤ c
  reach : ∀ m, partialMax = some m → m ≤ c
  origins : ∀ row ∈ file.rows, ∀ o, row.origin = some o →
    beginSnapshot ≤ o ∧ o ≤ partialMax.getD beginSnapshot
  issued : ∀ x ∈ file.carriedRows, ∀ i, x.1 = some i → i < nextRowId

theorem TableTx.addDataFile_inserts {file : DataFileInfo V} {b : Nat} {m : Option Nat}
    (hv : tx.Valid c) (hok : file.Carried b m tx.storage.nextRowId c) :
    Inserts c file.carriedRows tx (tx.addDataFile b m file) := by
  refine ⟨(file.toDataFile b tx.nextFileId (carriedRowIdStart file) m).read fun _ _ => true, ?_, ?_, ?_⟩
  · refine Effect.addDataFile hv rfl rfl rfl rfl ⟨hok.begins, by simp [DataFileInfo.toDataFile]⟩ hok.reach
      hok.origins le_rfl ?_
    intro x hx i hi
    exact hok.issued _ (List.mem_map_of_mem hx) i hi
  · exact DataFile.read_true_map
  · intro r hr
    obtain ⟨row, p, -, -, rfl⟩ := DataFile.mem_read.mp hr
    exact le_rfl

/-- What the commit of an output relies on. -/
def CompactionOutputFile.Carried (out : CompactionOutputFile V) (nextRowId c : Nat) : Prop :=
  out.file.Carried (out.beginSnapshot.getD c) out.partialMax nextRowId c

variable {outputs : List (CompactionOutputFile V)} {sources : List CompactionSourceFile}
  {retirement : SourceRetirement} {base : Nat}

theorem addOutputs_inserts (hv : tx.Valid c)
    (hok : ∀ out ∈ outputs, out.Carried tx.storage.nextRowId c) :
    Inserts c (outputs.flatMap (·.file.carriedRows)) tx
      (outputs.foldl (fun tx out => tx.addDataFile (out.beginSnapshot.getD c) out.partialMax out.file) tx) := by
  induction outputs generalizing tx with
  | nil => exact .refl hv
  | cons out outputs ih =>
    have h₁ := TableTx.addDataFile_inserts hv (hok out (List.mem_cons_self ..))
    have h₂ := ih h₁.valid fun out ho => hok out (List.mem_cons_of_mem _ ho)
    exact h₁.trans h₂

theorem retireSources_effect (ids : List Nat) (hv : tx.Valid c) :
    Effect c (Location.inFiles ids) [] tx (tx.retireSources c ids) := by
  have e₁ : Effect c (Location.inFiles ids) [] tx { tx with storage := { tx.storage with
      dataFiles := tx.storage.dataFiles.map fun f => if ids.contains f.id then f.close c else f } } :=
    Effect.endDataFiles hv (fun f _ p => by simp [Location.inFiles]) (fun _ _ _ => rfl)
  -- then their delete files are those of ended data files
  have e₂ := Effect.endDeleteFiles (P := fun d => ids.contains d.dataFileId = true) e₁.valid ?_
  · refine (e₁.trans e₂ (by simp)).congr (fun r _ => Bool.or_false _) ?_
    exact List.Perm.refl _
  · intro d _ hd
    rw [Bool.eq_false_iff, ne_eq, TableStorage.dataFileLive_iff]
    rintro ⟨g, hg, hid, hl⟩
    obtain ⟨f, -, rfl⟩ := List.mem_map.mp hg
    by_cases hf : ids.contains f.id = true
    · rw [if_pos hf, DataFile.live_close] at hl
      cases hl
    · rw [if_neg hf] at hid
      exact hf (hid ▸ hd)

theorem applyCompaction_effect (sources : List CompactionSourceFile)
    (retirement : SourceRetirement) (hv : tx.Valid c)
    (hok : ∀ out ∈ outputs, out.Carried tx.storage.nextRowId c) :
    ∃ ins, Effect c (Location.inFiles (sources.map (·.dataFileId))) ins tx
        (applyCompaction c sources outputs retirement tx) ∧
      ins.map (fun r => (r.rowId, r.value)) = outputs.flatMap (·.file.carriedRows) ∧
      ∀ r ∈ ins, r.location.New c tx.nextFileId := by
  unfold applyCompaction
  cases retirement with
  | remove =>
    have e₁ : Effect c (Location.inFiles (sources.map (·.dataFileId))) [] tx
        (tx.removeSources (sources.map (·.dataFileId))) :=
      Effect.removeSources hv (fun _ _ => rfl) (fun _ _ _ => rfl)
    obtain ⟨ins, e₂, hmap, hnew⟩ := addOutputs_inserts e₁.valid hok
    exact ⟨ins, by simpa using e₁.trans e₂ (by simp), hmap, hnew⟩
  | retire =>
    have e₁ := retireSources_effect (sources.map (·.dataFileId)) hv
    obtain ⟨ins, e₂, hmap, hnew⟩ := addOutputs_inserts e₁.valid hok
    exact ⟨ins, by simpa using e₁.trans e₂ (by simp), hmap, hnew⟩

theorem applyCompaction_nextFile (tx : TableTx V) :
    tx.nextFileId ≤ (applyCompaction c sources outputs retirement tx).nextFileId := by
  have hadd : ∀ (tx : TableTx V) (out : CompactionOutputFile V), tx.nextFileId ≤
      (tx.addDataFile (out.beginSnapshot.getD c) out.partialMax out.file).nextFileId := fun _ _ => Nat.le_succ _
  cases retirement with
  | remove => exact foldl_nextFile hadd outputs (tx.removeSources (sources.map (·.dataFileId)))
  | retire => exact foldl_nextFile hadd outputs (tx.retireSources c (sources.map (·.dataFileId)))

/-- What a successful `commit_compaction` found and did. -/
structure CompactionCommitted (cat : Catalog V) (tableId base : Nat) (sources : List CompactionSourceFile)
    (outputs : List (CompactionOutputFile V)) (retirement : SourceRetirement) (c : Nat) (cat' : Catalog V) :
    Prop where
  snapshot : c = cat.head + 1
  committed : cat.Committed [⟨compactionChange retirement, tableId⟩] cat'
  fences : ∀ source ∈ sources, (cat.storage tableId).dataFileLive source.dataFileId = true ∧
    (cat.storage tableId).liveDeleteFile source.dataFileId = source.deleteFileId
  newDeletes : detectNewInlinedDeletes (cat.storage tableId) tableId base
    (sources.map fun source => .any source.dataFileId) = .ok ()
  storage : cat'.storage tableId = (applyCompaction c sources outputs retirement (cat.tableTx tableId)).storage
  apart : ∀ t ≠ tableId, Catalog.Apart t cat cat'

theorem commitCompaction_spec (hinv : cat.Inv)
    (h : commitCompaction t base sources outputs retirement cat = .ok (c, cat')) :
    CompactionCommitted cat t base sources outputs retirement c cat' ∧
      (applyCompaction c sources outputs retirement (cat.tableTx t)).nextFileId = cat'.nextFileId := by
  simp only [commitCompaction, bind_eq_ok, pure_eq_ok, Prod.mk.injEq] at h
  obtain ⟨_, -, _, hnew, _, hfences, next, hnext, hc, rfl⟩ := h
  obtain rfl : cat.head + 1 = c := hc
  have hnext : cat.insertSnapshot.2.withTable t (fun tx =>
      pure (applyCompaction (cat.head + 1) sources outputs retirement tx)) = .ok next := hnext
  have hcommitted := (Catalog.Committed.insertSnapshot cat).withTable hnext fun {tx} htx =>
    (pure_eq_ok.mp htx) ▸ applyCompaction_nextFile (cat.tableTx t)
  obtain ⟨tx, htx, hs, hN, hother⟩ := Catalog.withTable_eq_ok hnext
  obtain rfl := pure_eq_ok.mp htx
  refine ⟨⟨rfl, ?_, ?_, hnew, hs, ?_⟩, ?_⟩
  · exact hcommitted.record hinv.ledger [⟨compactionChange retirement, t⟩]
  · intro source hsource
    have hcheck := forM_eq_ok.mp hfences source hsource
    simp only [checkCompactionSource, bind_eq_ok, refuseIf_eq_ok, Bool.not_eq_true', Bool.not_eq_false,
      ne_eq, not_not] at hcheck
    obtain ⟨_, hlive, hdelete⟩ := hcheck
    exact ⟨hlive, hdelete⟩
  · intro t' ht'
    refine ⟨hother t' ht', ?_⟩
    exact hcommitted.nextFile.trans (Nat.le_add_right ..)
  · refine hN.symm.trans ?_
    cases retirement <;> simp [Catalog.recordSnapshotChanges, compactionChange]

theorem CompactionCommitted.effect
    (h : CompactionCommitted cat t base sources outputs retirement c cat') (hinv : cat.Inv)
    (hN : (applyCompaction c sources outputs retirement (cat.tableTx t)).nextFileId = cat'.nextFileId)
    (hok : ∀ out ∈ outputs, out.Carried (cat.storage t).nextRowId c) :
    ∃ ins, Effect c (Location.inFiles (sources.map (·.dataFileId))) ins (cat.tableTx t) (cat'.tableTx t) ∧
      ins.map (fun r => (r.rowId, r.value)) = outputs.flatMap (·.file.carriedRows) ∧
      ∀ r ∈ ins, r.location.New c cat.nextFileId := by
  have hv : (cat.tableTx t).storage.Valid c cat.nextFileId :=
    (hinv.valid t).mono (h.snapshot ▸ Nat.le_succ _) le_rfl
  obtain ⟨ins, e, hmap, hnew⟩ := applyCompaction_effect sources retirement hv hok
  exact ⟨ins, e.of_eq h.storage hN.symm, hmap, hnew⟩

/-! ## Truncate -/

theorem endAll_effect (hv : tx.Valid c) :
    Effect c (fun _ => true) [] tx { tx with storage := tx.storage.endAll c } := by
  have e₁ : Effect c Location.isFile [] tx { tx with storage := { tx.storage with
      dataFiles := tx.storage.dataFiles.map fun f => if True then f.close c else f } } :=
    Effect.endDataFiles hv (fun _ _ _ => (decide_eq_true trivial).symm) (fun _ _ _ => rfl)
  have e₂ := Effect.endDeleteFiles (P := fun _ => True) e₁.valid ?_
  · have hinlined : ∀ r ∈ tx.storage.inlinedRows, r.toScanRow.location.isInlined =
        decide (tx.storage.inlinedTables.contains r.table = true) := fun r hr =>
      (decide_eq_true (hv.registered r hr)).symm
    have e₃ := Effect.endInlinedRows (P := fun r => tx.storage.inlinedTables.contains r.table = true)
      e₂.valid hinlined (fun _ _ => rfl)
    refine (((e₁.trans e₂ (by simp)).trans e₃ (by simp)).congr (fun r _ => ?_) (List.Perm.refl _)).of_eq ?_ rfl
    · cases r.location <;> rfl
    · simp [TableStorage.endAll]
  · intro d _ _
    rw [Bool.eq_false_iff, ne_eq, TableStorage.dataFileLive_iff]
    rintro ⟨g, hg, -, hl⟩
    obtain ⟨f, -, rfl⟩ := List.mem_map.mp hg
    simp at hl

/-- A truncate leaves an empty table as it is; else it passed the conflict check and
    took every row away. -/
theorem commitTruncate_spec (hinv : cat.Inv) (h : commitTruncate t base cat = .ok cat') :
    ((cat.storage t).hasLiveData = false ∧ (cat.storage t).hasLiveInlined = false ∧ cat' = cat) ∨
    (tableConflict t (TableChanges.ofTruncate (cat.storage t)) (cat.changesAfter base) = none ∧
      cat.Committed (truncateTokens t (cat.storage t)) cat' ∧
      Effect (cat.head + 1) (fun _ => true) [] (cat.tableTx t) (cat'.tableTx t) ∧
      ∀ t' ≠ t, Catalog.Apart t' cat cat') := by
  simp only [commitTruncate] at h
  split at h
  · next he =>
    simp only [Bool.and_eq_true, Bool.not_eq_true'] at he
    exact .inl ⟨he.1, he.2, (pure_eq_ok.mp h).symm⟩
  · simp only [bind_eq_ok, refuseWith_eq_ok, pure_eq_ok] at h
    obtain ⟨_, hconflict, rfl⟩ := h
    have hstart := Catalog.Committed.insertSnapshot cat
    refine .inr ⟨?_, ?_, ?_, ?_⟩
    · rwa [show cat.insertSnapshot.1 = cat.head + 1 from rfl, hstart.changesBetween_eq hinv] at hconflict
    · have hended : cat.Committed [] { cat.insertSnapshot.2 with
          storage := Function.update cat.insertSnapshot.2.storage t ((cat.storage t).endAll (cat.head + 1)) } :=
        ⟨hstart.snapshots, hstart.changes, hstart.tables, hstart.schemas, hstart.nextFile⟩
      exact hended.record hinv.ledger (truncateTokens t (cat.storage t))
    · refine (endAll_effect ((hinv.valid t).mono (Nat.le_succ _) le_rfl)).of_eq ?_ ?_
      · simp [Catalog.tableTx, Catalog.recordSnapshotChanges, Catalog.insertSnapshot]
      · have hno : (truncateTokens t (cat.storage t)).filter (·.kind = .inlinedInsert) = [] := by
          unfold truncateTokens
          split <;> split <;> simp
        simp [Catalog.tableTx, Catalog.recordSnapshotChanges, Catalog.insertSnapshot, hno]
    · intro t' ht'
      exact ⟨Function.update_of_ne ht' .., Nat.le_add_right ..⟩

end DuckLake.Metadata
