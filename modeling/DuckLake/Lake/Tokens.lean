import DuckLake.Lake.System

/- The change row of a commit names every table whose rows it touches. Nothing here
   relies on what a plan read, or on an invariant of the catalog, so it holds just as
   well after snapshots were expired and a conflict went unseen. -/

namespace DuckLake.Lake

open Metadata Plan Versioned Checked

variable {V : Type} {cat cat' : Catalog V} {t c : Nat}

/-- The tokens name no change of the table but an alteration. -/
def Silent (t : Nat) (tokens : List Change) : Prop :=
  ∀ change ∈ tokens, change.tableId = t → change.kind = .alteredTable

theorem Silent.not_mem {tokens : List Change} {kind : ChangeKind} (h : Silent t tokens)
    (hk : kind ≠ .alteredTable) : ⟨kind, t⟩ ∉ tokens :=
  fun hm => hk (h _ hm rfl)

/-- A commit that leaves the rows of every table its change row does not name. -/
abbrev Disclosed (cat cat' : Catalog V) : Prop :=
  ∃ tokens, cat.Committed tokens cat' ∧ ∀ t, Silent t tokens → cat'.storage t = cat.storage t

/-! ## Stages -/

section Stage

variable {write : StagedTableWrite V} {T : TableStorage V} {tx tx' : TableTx V}

/-- A stage that does nothing to a table which holds `T`. -/
structure Idle (T : TableStorage V) (write : StagedTableWrite V) : Prop where
  noData : write.data = .none
  noInserted : write.insertedFiles = []
  noPositional : write.positionalDeletes = []
  noRewritten : write.rewrittenDeletes = []
  noDropped : write.droppedFiles = []
  noInlined : write.inlinedDeletes = []
  noInlinedFile : write.inlinedFileDeletes = []
  nothingLive : write.mode = .replace → T.hasLiveData = false ∧ T.hasLiveInlined = false

theorem idle_of_silent (h : Silent write.tableId (stageTokens T write)) : Idle T write := by
  unfold stageTokens stagedTableWriteChanges at h
  split at h
  · exact absurd (List.mem_singleton_self _) (h.not_mem (show ChangeKind.inlineFlush ≠ _ by decide))
  · dsimp only [TableChanges.ofStaged] at h
    have hins := h.not_mem (show ChangeKind.insertedIntoTable ≠ _ by decide)
    have hdel := h.not_mem (show ChangeKind.deletedFromTable ≠ _ by decide)
    have hinl := h.not_mem (show ChangeKind.inlinedInsert ≠ _ by decide)
    have hind := h.not_mem (show ChangeKind.inlinedDelete ≠ _ by decide)
    simp only [List.mem_append, List.mem_ite_nil_right, List.mem_singleton, Change.mk.injEq, reduceCtorEq,
      and_false, or_false, false_or, and_true, Bool.or_eq_true, Bool.and_eq_true,
      decide_eq_true_eq, not_or, Bool.not_eq_true', List.isEmpty_eq_false_iff, ne_eq, not_not,
      Bool.not_eq_true] at hins hdel hinl hind
    refine ⟨?_, hins.2, hdel.1.1.1, hdel.1.1.2, hdel.1.2, hind.1.1, hind.1.2, fun hm => ?_⟩
    · cases hd : write.data with
      | files files => simp [hd, StagedTableData.isFiles] at hins
      | inlined rows => simp [hd, StagedTableData.isInlined] at hinl
      | none => rfl
    · exact ⟨by simpa [hm] using hdel.2, by simpa [hm] using hind.2⟩

theorem retirePriorGeneration_of_ended (hdata : T.hasLiveData = false) (hinlined : T.hasLiveInlined = false) :
    retirePriorGeneration c T = T := by
  have hfiles : T.dataFiles.map (fun f => if f.beginSnapshot < c then f.close c else f) = T.dataFiles := by
    refine (List.map_congr_left fun f hf => ?_).trans (List.map_id _)
    split
    · exact DataFile.close_of_ended (Bool.eq_false_iff.mpr (List.any_eq_false.mp hdata f hf))
    · rfl
  have hrows : T.inlinedRows.map (fun r => if T.inlinedTables.contains r.table = true ∧ r.beginSnapshot < c
      then r.close c else r) = T.inlinedRows := by
    refine (List.map_congr_left fun r hr => ?_).trans (List.map_id _)
    split
    · next hreg =>
      have hended := List.any_eq_false.mp hinlined r hr
      rw [hreg.1, Bool.true_and] at hended
      exact InlinedRow.close_of_ended (Bool.eq_false_iff.mpr hended)
    · rfl
  unfold retirePriorGeneration
  rw [hfiles, hrows]

theorem finalizeTableSnapshot_idle {changes : List Change} (hidle : Idle tx.storage write)
    (h : finalizeTableSnapshot changes c write tx = .ok tx') : tx'.storage = tx.storage := by
  unfold finalizeTableSnapshot at h
  split at h
  · next hm =>
    simp only [bind_eq_ok, pure_eq_ok] at h
    obtain ⟨_, -, rfl⟩ := h
    obtain ⟨hdata, hinlined⟩ := hidle.nothingLive hm
    exact retirePriorGeneration_of_ended hdata hinlined
  · simp only [bind_eq_ok, pure_eq_ok] at h
    obtain ⟨_, -, rfl⟩ := h
    rfl

theorem applyStage_idle (hidle : Idle T write) (h : applyStage c write tx = .ok tx') : tx'.storage = tx.storage := by
  simp only [applyStage, applyStagedData, commitInsertedFiles, applyPositionalDeletes, replaceDeleteFiles,
    applyInlinedDeletes, applyInlinedFileDeletes, dropDataFiles, hidle.noData, hidle.noInserted,
    hidle.noPositional, hidle.noRewritten, hidle.noInlined, hidle.noInlinedFile, hidle.noDropped,
    List.isEmpty_nil, if_true, List.foldlM_nil, List.flatMap_nil, List.append_nil, bind_eq_ok, pure_eq_ok] at h
  obtain ⟨_, rfl, _, hok, _, rfl, _, rfl, _, ⟨_, -, _, -, rfl⟩, _, ⟨_, -, rfl⟩, _, rfl, rfl⟩ := h
  cases hok
  simp

theorem commitMultiTable_told {writes : List (StagedTableWrite V)} {expected : Option Nat}
    (hledger : cat.Dated) (h : commitMultiTable writes expected cat = .ok (c, cat')) : Disclosed cat cat' := by
  simp only [commitMultiTable, bind_eq_ok, refuseIf_eq_ok, pure_eq_ok, Prod.mk.injEq, not_not] at h
  obtain ⟨_, -, _, hnodup, _, -, _, -, _, -, _, -, finalized, hfin, committed, hcom, hc, rfl⟩ := h
  obtain rfl : cat.head + 1 = c := hc
  have hfinal := finalizeStages_committed (Catalog.Committed.insertSnapshot cat) hfin
  refine ⟨_, commitStages_committed hledger hfinal hcom, fun t hsilent => ?_⟩
  by_cases ht : t ∈ writes.map (·.tableId)
  · obtain ⟨write, hw, rfl⟩ := List.mem_map.mp ht
    obtain ⟨f₁, f₂, hf₁, hfw, hf₂⟩ := Catalog.foldlM_at (·.tableId)
      (fun _ hf t ht => finalizeStage_apart hf t ht) hnodup hw hfin
    obtain ⟨g₁, g₂, hg₁, hgw, hg₂⟩ := Catalog.foldlM_at (·.tableId)
      (fun _ hf t ht => commitStage_apart hf t ht) hnodup hw hcom
    obtain ⟨txf, hxf, hsf, -, -⟩ := Catalog.withTable_eq_ok hfw
    obtain ⟨next, hnext, rfl⟩ := commitStage_eq_ok hgw
    obtain ⟨txa, hxa, hsa, -, -⟩ := Catalog.withTable_eq_ok hnext
    have hf₁ : f₁.storage write.tableId = cat.storage write.tableId := hf₁.storage
    have hidle : Idle (cat.storage write.tableId) write :=
      idle_of_silent fun change hm => hsilent change (List.mem_append_right _ (List.mem_flatMap.mpr ⟨write, hw, hm⟩))
    have hidle₁ : Idle (f₁.tableTx write.tableId).storage write := by
      show Idle (f₁.storage write.tableId) write
      rwa [hf₁]
    have hfinalized := finalizeTableSnapshot_idle hidle₁ hxf
    have happlied := applyStage_idle hidle hxa
    calc committed.storage write.tableId = next.storage write.tableId := hg₂.storage
      _ = g₁.storage write.tableId := hsa.trans happlied
      _ = f₂.storage write.tableId := (hf₂.trans hg₁).storage
      _ = f₁.storage write.tableId := hsf.trans hfinalized
      _ = cat.storage write.tableId := hf₁
  · have h₁ := Catalog.foldlM_apart (·.tableId) (fun _ hf t ht => finalizeStage_apart hf t ht) hfin ht
    have h₂ := Catalog.foldlM_apart (·.tableId) (fun _ hf t ht => commitStage_apart hf t ht) hcom ht
    exact (h₁.trans h₂).storage

end Stage

/-! ## Maintenance -/

theorem commitCompaction_told {tableId base : Nat} {sources : List CompactionSourceFile}
    {outputs : List (CompactionOutputFile V)} {retirement : SourceRetirement}
    (hledger : cat.Dated) (h : commitCompaction tableId base sources outputs retirement cat = .ok (c, cat')) :
    Disclosed cat cat' := by
  simp only [commitCompaction, bind_eq_ok, pure_eq_ok, Prod.mk.injEq] at h
  obtain ⟨_, -, _, -, _, -, next, hnext, hc, rfl⟩ := h
  obtain rfl : cat.head + 1 = c := hc
  have hnext : cat.insertSnapshot.2.withTable tableId (fun tx =>
      pure (applyCompaction (cat.head + 1) sources outputs retirement tx)) = .ok next := hnext
  have hcommitted := (Catalog.Committed.insertSnapshot cat).withTable hnext fun {tx} htx =>
    (pure_eq_ok.mp htx) ▸ applyCompaction_nextFile (cat.tableTx tableId)
  obtain ⟨tx, -, -, -, hother⟩ := Catalog.withTable_eq_ok hnext
  refine ⟨_, hcommitted.record hledger _, fun t hsilent => hother t ?_⟩
  rintro rfl
  refine hsilent.not_mem (show compactionChange retirement ≠ _ from ?_) (by simp)
  cases retirement <;> decide

theorem commitTruncate_told {tableId base : Nat} (hledger : cat.Dated)
    (h : commitTruncate tableId base cat = .ok cat') : cat' = cat ∨ Disclosed cat cat' := by
  simp only [commitTruncate] at h
  split at h
  · exact .inl (pure_eq_ok.mp h).symm
  · next hlive =>
    simp only [bind_eq_ok, refuseWith_eq_ok, pure_eq_ok] at h
    obtain ⟨_, -, rfl⟩ := h
    have hstart := Catalog.Committed.insertSnapshot cat
    have hended : cat.Committed [] { cat.insertSnapshot.2 with
        storage := Function.update cat.insertSnapshot.2.storage tableId
          ((cat.storage tableId).endAll (cat.head + 1)) } :=
      ⟨hstart.snapshots, hstart.changes, hstart.tables, hstart.schemas, hstart.nextFile⟩
    refine .inr ⟨_, hended.record hledger _, fun t hsilent => Function.update_of_ne ?_ ..⟩
    rintro rfl
    have hdata := hsilent.not_mem (show ChangeKind.deletedFromTable ≠ _ by decide)
    have hinlined := hsilent.not_mem (show ChangeKind.inlinedDelete ≠ _ by decide)
    simp only [truncateTokens, List.nil_append, List.mem_append, List.mem_ite_nil_right, List.mem_singleton,
      Change.mk.injEq, reduceCtorEq, and_false, or_false, false_or, and_true] at hdata hinlined
    simp [hdata, hinlined] at hlive

/-- A flush writes a file for the rows it takes, as its plan says. -/
def Transaction.WritesFlushed : Transaction V → Prop
  | .flush _ tables => ∀ table ∈ tables, table.files = [] → table.inlinedTables = []
  | _ => True

theorem applyFlush_idle {base : Nat} {table : InlinedFlushTable V} {tx tx' : TableTx V} (hfiles : table.files = [])
    (htables : table.inlinedTables = []) (hdeletes : table.fileDeletes = [])
    (h : applyFlush base table tx = .ok tx') : tx'.storage = tx.storage := by
  simp only [applyFlush, replaceDeleteFiles, hfiles, hdeletes, List.foldl_nil, List.foldlM_nil, bind_eq_ok,
    pure_eq_ok] at h
  obtain ⟨_, rfl, rfl⟩ := h
  simp [TableStorage.removeFlushed, hdeletes, htables]

theorem commitInlinedFlush_told {base : Nat} {tables : List (InlinedFlushTable V)}
    (hledger : cat.Dated) (hwrites : ∀ table ∈ tables, table.files = [] → table.inlinedTables = [])
    (h : commitInlinedFlush base tables cat = .ok (c, cat')) : Disclosed cat cat' := by
  simp only [commitInlinedFlush, bind_eq_ok, refuseIf_eq_ok, refuseWith_eq_ok, pure_eq_ok, Prod.mk.injEq,
    not_not] at h
  obtain ⟨_, hnodup, _, -, flushed, hflush, hc, rfl⟩ := h
  obtain rfl : cat.head + 1 = c := hc
  have hcommitted : cat.Committed [] flushed :=
    foldlM_inv (P := fun next => cat.Committed [] next) (fun {next table next'} _ hf hnext =>
      hnext.withTable (flushTable_eq_ok hf).2 applyFlush_nextFile) hflush (Catalog.Committed.insertSnapshot cat)
  refine ⟨_, hcommitted.record hledger _, fun t hsilent => ?_⟩
  have hsilent : Silent t (inlinedFlushChanges tables) := hsilent
  show flushed.storage t = cat.storage t
  by_cases ht : t ∈ tables.map (·.tableId)
  · obtain ⟨table, htable, rfl⟩ := List.mem_map.mp ht
    obtain ⟨cat₁, cat₂, hbefore, hf, hafter⟩ := Catalog.foldlM_at (·.tableId)
      (fun _ hf t ht => flushTable_apart hf t ht) hnodup htable hflush
    obtain ⟨tx, htx, hs, -, -⟩ := Catalog.withTable_eq_ok (flushTable_eq_ok hf).2
    have hdeletes : table.fileDeletes = [] := by
      by_contra hne
      refine hsilent.not_mem (show ChangeKind.deletedFromTable ≠ _ by decide) (List.mem_append_left _ ?_)
      refine List.mem_map.mpr ⟨table, List.mem_filter.mpr ⟨mem_orderedTables.mpr htable, ?_⟩, rfl⟩
      simpa using hne
    have hfiles : table.files = [] := by
      by_contra hne
      refine hsilent.not_mem (show ChangeKind.inlineFlush ≠ _ by decide) (List.mem_append_right _ ?_)
      refine List.mem_map.mpr ⟨table, List.mem_filter.mpr ⟨mem_orderedTables.mpr htable, ?_⟩, rfl⟩
      simpa using hne
    have hidle := applyFlush_idle hfiles (hwrites table htable hfiles) hdeletes htx
    calc flushed.storage table.tableId = cat₂.storage table.tableId := hafter.storage
      _ = cat₁.storage table.tableId := hs.trans hidle
      _ = cat.storage table.tableId := hbefore.storage
  · exact (Catalog.foldlM_apart (·.tableId) (fun _ hf t ht => flushTable_apart hf t ht) hflush ht).storage

/-- A commit that names no change of a table leaves its rows as they are. -/
theorem commit_told {p : Transaction V} (hledger : cat.Dated)
    (hp : p.WritesFlushed) (h : p.commit cat = .ok cat') : cat' = cat ∨ Disclosed cat cat' := by
  cases p with
  | staged writes expected =>
    obtain ⟨⟨c, next⟩, hok, rfl⟩ := map_eq_ok.mp h
    exact .inr (commitMultiTable_told hledger hok)
  | compaction tableId base sources outputs retirement =>
    obtain ⟨⟨c, next⟩, hok, rfl⟩ := map_eq_ok.mp h
    exact .inr (commitCompaction_told hledger hok)
  | flush base tables =>
    obtain ⟨⟨c, next⟩, hok, rfl⟩ := map_eq_ok.mp h
    exact .inr (commitInlinedFlush_told hledger hp hok)
  | truncate tableId base => exact commitTruncate_told hledger h

theorem writesFlushed_of_plans {pending : List (Transaction V)} {p : Transaction V}
    (hpending : ∀ q ∈ pending, q.WritesFlushed) (hp : Plans cat pending p) : p.WritesFlushed := by
  cases p with
  | flush base tables =>
    cases tables with
    | nil => cases hp
    | cons table tables =>
      obtain ⟨-, hplan, hrest⟩ := hp
      refine List.forall_mem_cons.mpr ⟨hplan.noFiles, ?_⟩
      rcases hrest with rfl | hmem
      · simp
      · exact hpending _ hmem
  | _ => trivial

end DuckLake.Lake
