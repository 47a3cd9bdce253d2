import DuckLake.Metadata.StageEffect
import Mathlib.Data.List.MinMax

/- `commit_multi_table` as a whole. `Committed` is what every commit leaves of the
   catalog apart from the tables' rows: one more snapshot, and its change row with the
   tokens. The stages of a commit are of different tables, so each is looked at alone:
   the other stages leave its table `Apart`. -/

namespace DuckLake.Metadata

open Versioned Checked

variable {V : Type} {cat cat' cat'' : Catalog V} {c t : Nat}

/-! ## Snapshots -/

namespace Catalog

/-- One table of a catalog, as a commit starts on it. -/
def tableTx (cat : Catalog V) (tableId : Nat) : TableTx V :=
  ⟨cat.storage tableId, cat.nextFileId, cat.scheduled, cat.location tableId⟩

theorem le_head {row : SnapshotRow} (hr : row ∈ cat.snapshots) : row.snapshotId ≤ cat.head :=
  List.le_max_of_le (List.mem_map_of_mem hr) le_rfl

abbrev Dated (cat : Catalog V) : Prop := ∀ row ∈ cat.changes, row.snapshotId ≤ cat.head

/-- The well-formed catalogs: every table's rows are, and no change row is dated to
    the future. -/
structure Inv (cat : Catalog V) : Prop where
  valid : ∀ t, (cat.storage t).Valid cat.head cat.nextFileId
  ledger : ∀ row ∈ cat.changes, row.snapshotId ≤ cat.head

/-- One snapshot more, whose change row has the tokens. -/
structure Committed (cat : Catalog V) (tokens : List Change) (cat' : Catalog V) : Prop where
  snapshots : cat'.snapshots = cat.snapshots ++ [⟨cat.head + 1, cat.clock⟩]
  changes : cat'.changes = cat.changes ++ [⟨cat.head + 1, tokens⟩]
  tables : cat'.tables = cat.tables
  schemas : cat'.schemas = cat.schemas
  nextFile : cat.nextFileId ≤ cat'.nextFileId

namespace Committed

variable {tokens : List Change}

theorem head_eq (h : Committed cat tokens cat') : cat'.head = cat.head + 1 := by
  unfold head at *
  rw [h.snapshots, List.map_append, List.map_singleton, Lists.foldr_max_append]
  exact max_eq_right (Nat.le_succ _)

theorem insertSnapshot (cat : Catalog V) : Committed cat [] cat.insertSnapshot.2 :=
  ⟨rfl, rfl, rfl, rfl, le_rfl⟩

theorem withTable {update : TableTx V → Result (TableTx V)} (h : Committed cat tokens cat')
    (hu : cat'.withTable t update = .ok cat'')
    (hmono : ∀ {tx}, update (cat'.tableTx t) = .ok tx → cat'.nextFileId ≤ tx.nextFileId) :
    Committed cat tokens cat'' := by
  simp only [Catalog.withTable, bind_eq_ok, pure_eq_ok] at hu
  obtain ⟨tx, htx, rfl⟩ := hu
  exact ⟨h.snapshots, h.changes, h.tables, h.schemas, h.nextFile.trans (hmono htx)⟩

theorem record (h : Committed cat tokens cat') (hledger : cat.Dated) (more : List Change) :
    Committed cat (tokens ++ more) (cat'.recordSnapshotChanges (cat.head + 1) more) := by
  refine ⟨h.snapshots, ?_, h.tables, h.schemas, h.nextFile.trans (Nat.le_add_right ..)⟩
  unfold recordSnapshotChanges
  simp only [h.changes, List.map_append, List.map_singleton, if_pos]
  congr 1
  refine (List.map_congr_left fun row hr => ?_).trans (List.map_id _)
  rw [if_neg]
  · rfl
  · exact (Nat.lt_succ_of_le (hledger row hr)).ne

theorem changesAfter_eq (h : Committed cat tokens cat') {base : Nat} (hb : base ≤ cat.head) :
    cat'.changesAfter base = cat.changesAfter base ++ tokens := by
  unfold changesAfter
  rw [h.changes, List.filter_append, List.flatMap_append]
  simp [Nat.lt_succ_of_le hb]

theorem changesBetween_eq (h : Committed cat tokens cat') (hinv : cat.Inv) (base : Nat) :
    cat'.changesBetween base (cat.head + 1) = cat.changesAfter base := by
  unfold changesBetween changesAfter
  rw [h.changes, List.filter_append, List.flatMap_append]
  have hlast : ([⟨cat.head + 1, tokens⟩] : List ChangeRow).filter (fun row =>
      decide (base < row.snapshotId) && decide (row.snapshotId < cat.head + 1)) = [] := by simp
  rw [hlast, List.flatMap_nil, List.append_nil]
  congr 1
  refine List.filter_congr fun row hr => ?_
  simp [Nat.lt_succ_of_le (hinv.ledger row hr)]

theorem ledger (h : Committed cat tokens cat') (hinv : cat.Inv) : cat'.Dated := by
  rw [Dated, h.head_eq, h.changes]
  intro row hr
  rcases List.mem_append.mp hr with hr | hr
  · exact (hinv.ledger row hr).trans (Nat.le_succ _)
  · obtain rfl : row = ⟨cat.head + 1, tokens⟩ := by simpa using hr
    exact le_rfl

end Committed

/-! ## One table at a time -/

/-- The rows of table `t` are as they were. -/
structure Apart (t : Nat) (cat cat' : Catalog V) : Prop where
  storage : cat'.storage t = cat.storage t
  nextFile : cat.nextFileId ≤ cat'.nextFileId

theorem Apart.refl (t : Nat) (cat : Catalog V) : Apart t cat cat := ⟨rfl, le_rfl⟩

theorem Apart.trans (h₁ : Apart t cat cat') (h₂ : Apart t cat' cat'') : Apart t cat cat'' :=
  ⟨h₂.storage.trans h₁.storage, h₁.nextFile.trans h₂.nextFile⟩

theorem Apart.effect (h : Apart t cat cat') (hv : (cat.storage t).Valid c cat.nextFileId) :
    Effect c (fun _ => false) [] (cat.tableTx t) (cat'.tableTx t) where
  valid := by
    show (cat'.storage t).Valid c cat'.nextFileId
    rw [h.storage]
    exact hv.mono le_rfl h.nextFile
  evolves := by
    have hrefl := TableTx.Evolves.refl c (cat.tableTx t)
    have hs : (cat'.tableTx t).storage = (cat.tableTx t).storage := h.storage
    exact
      { nextFile := h.nextFile
        nextRow := hs ▸ hrefl.nextRow
        data := hs ▸ hrefl.data
        delete := hs ▸ hrefl.delete
        fence := hs ▸ hrefl.fence
        recorded := hs ▸ hrefl.recorded }
  rows := by
    show (cat'.storage t).current.Perm _
    rw [h.storage]
    simp [tableTx]
  inlined _ := .of_eq (congrArg _ h.storage)

theorem withTable_eq_ok {update : TableTx V → Result (TableTx V)}
    (h : cat.withTable t update = .ok cat') :
    ∃ tx, update (cat.tableTx t) = .ok tx ∧ cat'.storage t = tx.storage ∧ cat'.nextFileId = tx.nextFileId ∧
      ∀ t', t' ≠ t → cat'.storage t' = cat.storage t' := by
  simp only [withTable, bind_eq_ok, pure_eq_ok] at h
  obtain ⟨tx, htx, rfl⟩ := h
  exact ⟨tx, htx, by simp, rfl, fun t' ht' => by simp [ht']⟩

theorem foldlM_apart {α : Type} {f : Catalog V → α → Result (Catalog V)} (table : α → Nat)
    {l : List α} (hother : ∀ {cat cat' : Catalog V} {a}, a ∈ l → f cat a = .ok cat' → ∀ t, t ≠ table a →
      Apart t cat cat')
    (h : l.foldlM f cat = .ok cat') (ht : t ∉ l.map table) : Apart t cat cat' :=
  foldlM_rel (R := Apart t) (Apart.refl t) Apart.trans
    (fun ha hf => hother ha hf t fun heq => ht (heq ▸ List.mem_map_of_mem ha)) h

theorem foldlM_at {α : Type} {f : Catalog V → α → Result (Catalog V)} (table : α → Nat)
    {l : List α} {a : α} (hother : ∀ {cat cat' : Catalog V} {a}, a ∈ l → f cat a = .ok cat' → ∀ t, t ≠ table a →
      Apart t cat cat')
    (hnodup : (l.map table).Nodup) (ha : a ∈ l) (h : l.foldlM f cat = .ok cat') :
    ∃ cat₁ cat₂, Apart (table a) cat cat₁ ∧ f cat₁ a = .ok cat₂ ∧ Apart (table a) cat₂ cat' := by
  obtain ⟨l₁, l₂, cat₁, cat₂, rfl, h₁, h₂, h₃⟩ := foldlM_split ha h
  rw [List.map_append, List.map_cons, List.nodup_append] at hnodup
  obtain ⟨-, hcons, hdisj⟩ := hnodup
  refine ⟨cat₁, cat₂, ?_, h₂, ?_⟩
  · exact foldlM_apart table (fun hm => hother (List.mem_append_left _ hm)) h₁
      fun hm => hdisj _ hm _ (List.mem_cons_self ..) rfl
  · exact foldlM_apart table (fun hm => hother (List.mem_append_right _ (List.mem_cons_of_mem _ hm))) h₃
      (List.nodup_cons.mp hcons).1

end Catalog

/-! ## Stages -/

section Stages

variable {write : StagedTableWrite V} {writes : List (StagedTableWrite V)}

/-- The checks a stage passed when its commit succeeded on `cat`. -/
structure StageChecked (cat : Catalog V) (write : StagedTableWrite V) : Prop where
  valid : validateRowMutationStage write = .ok ()
  conflict : stagedConflict write (cat.changesAfter write.baseSnapshotId) = none
  live : cat.tableLive write.tableId = true
  newDeletes : detectNewInlinedDeletes (cat.storage write.tableId) write.tableId write.baseSnapshotId
    (rowMutationSourceFiles write) = .ok ()
  date : ∀ dated, rewrittenDeletesSnapshot write = some dated →
    ∀ row ∈ cat.snapshots, row.snapshotId < dated
  append : write.mode = .append → write.insertsRows = true →
    tableConflict write.tableId TableChanges.append (cat.changesAfter write.baseSnapshotId) = none
  replace : write.mode = .replace →
    detectReplaceConflict (cat.storage write.tableId) write.tableId write.baseSnapshotId true = .ok ()
  unchanged : write.mode = .append → write.inlinedDeletes ≠ [] → ∀ r ∈ (cat.storage write.tableId).inlinedRows,
    changedBetween write.baseSnapshotId (cat.head + 1) r.toLifetime = false

/-- What a committed stage did to its table: a Replace takes every row away, any
    stage the rows it deletes; its rows come. -/
structure StageCommitted (c : Nat) (write : StagedTableWrite V) (tx tx' : TableTx V) : Prop where
  effect : ∃ n' ins, tx.storage.nextRowId ≤ n' ∧
    Effect c (fun loc => decide (write.mode = .replace) || write.deletes c loc) ins tx tx' ∧
    ins.map (fun r => (r.rowId, r.value)) = write.newRows tx.storage.nextRowId n' ∧
    ∀ r ∈ ins, r.location.New c tx.nextFileId

variable {tx tx' : TableTx V}

theorem finalizeTableSnapshot_effect {changes : List Change} {h : Nat}
    (hv : tx.Valid h) (hc : h < c)
    (hf : finalizeTableSnapshot changes c write tx = .ok tx') :
    Effect c (fun _ => decide (write.mode = .replace)) [] tx tx' ∧ tx'.storage.nextRowId = tx.storage.nextRowId ∧
      tx'.nextFileId = tx.nextFileId ∧
      (write.mode = .append → write.insertsRows = true →
        tableConflict write.tableId TableChanges.append changes = none) ∧
      (write.mode = .replace →
        detectReplaceConflict tx.storage write.tableId write.baseSnapshotId true = .ok ()) := by
  unfold finalizeTableSnapshot at hf
  cases hm : write.mode with
  | replace =>
    simp only [hm, bind_eq_ok, pure_eq_ok] at hf
    obtain ⟨_, hdetect, rfl⟩ := hf
    exact ⟨retirePriorGeneration_effect hv hc, rfl, rfl, by simp, fun _ => hdetect⟩
  | append =>
    simp only [hm, bind_eq_ok, refuseWith_eq_ok, pure_eq_ok] at hf
    obtain ⟨_, hnone, rfl⟩ := hf
    exact ⟨.refl (hv.mono hc.le le_rfl), rfl, rfl, fun _ hi => by simpa [hi] using hnone, by simp⟩

theorem finalizeTableSnapshot_nextFile {changes : List Change}
    (h : finalizeTableSnapshot changes c write tx = .ok tx') : tx'.nextFileId = tx.nextFileId := by
  unfold finalizeTableSnapshot at h
  cases hm : write.mode with
  | replace =>
    simp only [hm, bind_eq_ok, pure_eq_ok] at h
    obtain ⟨_, _, rfl⟩ := h
    rfl
  | append =>
    simp only [hm, bind_eq_ok, pure_eq_ok] at h
    obtain ⟨_, _, rfl⟩ := h
    rfl

theorem finalizeStage_apart {started : Catalog V} (h : finalizeStage started c cat write = .ok cat') (t : Nat)
    (ht : t ≠ write.tableId) : Catalog.Apart t cat cat' := by
  obtain ⟨tx, htx, -, hN, hother⟩ := Catalog.withTable_eq_ok h
  exact ⟨hother t ht, (finalizeTableSnapshot_nextFile htx).ge.trans hN.ge⟩

/-! A stage only draws file ids. -/

theorem foldl_nextFile {α : Type} {f : TableTx V → α → TableTx V}
    (hf : ∀ tx a, tx.nextFileId ≤ (f tx a).nextFileId) (l : List α) (tx : TableTx V) :
    tx.nextFileId ≤ (l.foldl f tx).nextFileId := by
  induction l generalizing tx with
  | nil => exact le_rfl
  | cons a l ih => exact (hf tx a).trans (ih (f tx a))

theorem commitFilesAtSnapshot_nextFile {files : List (DataFileInfo V)}
    (h : commitFilesAtSnapshot c tx files = .ok tx') : tx.nextFileId ≤ tx'.nextFileId := by
  simp only [commitFilesAtSnapshot, bind_eq_ok, pure_eq_ok] at h
  obtain ⟨_, _, rfl⟩ := h
  exact foldl_nextFile (fun _ _ => Nat.le_succ _) files tx

theorem applyStagedData_nextFile (h : applyStagedData c write tx = .ok tx') :
    tx.nextFileId ≤ tx'.nextFileId := by
  unfold applyStagedData at h
  cases hd : write.data with
  | files files =>
    rw [hd] at h
    exact commitFilesAtSnapshot_nextFile h
  | inlined rows =>
    simp only [hd, bind_eq_ok, pure_eq_ok] at h
    obtain ⟨_, _, rfl⟩ := h
    exact le_rfl
  | none =>
    simp only [hd, pure_eq_ok] at h
    rw [h]

theorem commitInsertedFiles_nextFile (h : commitInsertedFiles c write tx = .ok tx') :
    tx.nextFileId ≤ tx'.nextFileId := by
  unfold commitInsertedFiles at h
  split at h
  · rw [Except.ok.inj h]
  · exact commitFilesAtSnapshot_nextFile h

theorem applyPositionalDelete_nextFile {base : Nat} {entry : DeleteFileEntry}
    (h : applyPositionalDelete c base tx entry = .ok tx') : tx.nextFileId ≤ tx'.nextFileId := by
  simp only [applyPositionalDelete, bind_eq_ok, pure_eq_ok] at h
  obtain ⟨_, _, _, _, rfl⟩ := h
  cases entry.expectedPrevDeleteFile <;> exact Nat.le_succ _

theorem replaceDeleteFile_nextFile {conflict : DuckLakeError} {entry : InlinedFlushFileDelete}
    (h : replaceDeleteFile conflict tx entry = .ok tx') : tx.nextFileId ≤ tx'.nextFileId := by
  simp only [replaceDeleteFile, bind_eq_ok, pure_eq_ok] at h
  obtain ⟨_, _, rfl⟩ := h
  cases entry.expectedPrevDeleteFile <;> exact Nat.le_succ _

theorem replaceDeleteFiles_nextFile {conflict : DuckLakeError} {entries : List InlinedFlushFileDelete}
    (h : replaceDeleteFiles conflict tx entries = .ok tx') : tx.nextFileId ≤ tx'.nextFileId :=
  foldlM_rel (R := fun tx tx' : TableTx V => tx.nextFileId ≤ tx'.nextFileId) (fun _ => le_rfl) Nat.le_trans
    (fun _ => replaceDeleteFile_nextFile) h

theorem applyStage_nextFile (h : applyStage c write tx = .ok tx') :
    tx.nextFileId ≤ tx'.nextFileId := by
  simp only [applyStage, bind_eq_ok, pure_eq_ok] at h
  obtain ⟨tx₁, h₁, tx₂, h₂, tx₃, h₃, tx₄, h₄, _, _, _, _, _, _, rfl⟩ := h
  have h₃ : tx₂.nextFileId ≤ tx₃.nextFileId :=
    foldlM_rel (R := fun tx tx' : TableTx V => tx.nextFileId ≤ tx'.nextFileId) (fun _ => le_rfl) Nat.le_trans
      (fun _ => applyPositionalDelete_nextFile) h₃
  calc tx.nextFileId ≤ tx₁.nextFileId := applyStagedData_nextFile h₁
    _ ≤ tx₂.nextFileId := commitInsertedFiles_nextFile h₂
    _ ≤ tx₃.nextFileId := h₃
    _ ≤ tx₄.nextFileId := replaceDeleteFiles_nextFile h₄

theorem commitStage_eq_ok {before : Catalog V} (h : commitStage before c cat write = .ok cat') :
    ∃ next, cat.withTable write.tableId (applyStage c write) = .ok next ∧
      cat' = next.recordSnapshotChanges c (stageTokens (before.storage write.tableId) write) := by
  simp only [commitStage, bind_eq_ok, pure_eq_ok] at h
  obtain ⟨next, hnext, rfl⟩ := h
  exact ⟨next, hnext, rfl⟩

theorem commitStage_apart {before : Catalog V} (h : commitStage before c cat write = .ok cat') (t : Nat)
    (ht : t ≠ write.tableId) : Catalog.Apart t cat cat' := by
  obtain ⟨next, hnext, rfl⟩ := commitStage_eq_ok h
  obtain ⟨tx, htx, -, hN, hother⟩ := Catalog.withTable_eq_ok hnext
  have hmono := applyStage_nextFile htx
  rw [← hN] at hmono
  exact ⟨hother t ht, hmono.trans (Nat.le_add_right ..)⟩

/-- The change row collects the tokens of every stage. -/
theorem commitStages_committed {next : Catalog V} {acc : List Change}
    (hledger : cat.Dated) (hstart : cat.Committed acc next)
    (h : writes.foldlM (commitStage cat (cat.head + 1)) next = .ok cat') :
    cat.Committed (acc ++ writes.flatMap fun write => stageTokens (cat.storage write.tableId) write) cat' := by
  induction writes generalizing next acc with
  | nil =>
    obtain rfl : next = cat' := by simpa [pure, Except.pure] using h
    simpa using hstart
  | cons write writes ih =>
    rw [List.foldlM_cons, bind_eq_ok] at h
    obtain ⟨next₁, h₁, h₂⟩ := h
    obtain ⟨next₀, h₀, rfl⟩ := commitStage_eq_ok h₁
    have hrec := (hstart.withTable h₀ applyStage_nextFile).record hledger
      (stageTokens (cat.storage write.tableId) write)
    simpa [List.append_assoc] using ih hrec h₂

theorem finalizeStages_committed {next : Catalog V} {acc : List Change} {started : Catalog V}
    (hstart : cat.Committed acc next) (h : writes.foldlM (finalizeStage started c) next = .ok cat') :
    cat.Committed acc cat' := by
  refine foldlM_inv (P := fun next => cat.Committed acc next) (fun {next write next'} _ hf hnext => ?_) h hstart
  exact hnext.withTable hf fun htx => (finalizeTableSnapshot_nextFile htx).ge

/-- What a successful `commit_multi_table` found and did. -/
structure MultiTableCommitted (cat : Catalog V) (writes : List (StagedTableWrite V)) (expected : Option Nat)
    (c : Nat) (cat' : Catalog V) : Prop where
  snapshot : c = cat.head + 1
  committed : cat.Committed (writes.flatMap fun write => stageTokens (cat.storage write.tableId) write) cat'
  nodup : (writes.map (·.tableId)).Nodup
  expected : ∀ e, expected = some e → ∀ write ∈ writes, checkExpectedBase cat e write = .ok ()
  checked : ∀ write ∈ writes, StageChecked cat write
  stages : ∀ write ∈ writes, StageCommitted c write (cat.tableTx write.tableId) (cat'.tableTx write.tableId)
  apart : ∀ t ∉ writes.map (·.tableId), Catalog.Apart t cat cat'

/-- One stage through the two loops of the commit. -/
theorem stage_committed {started finalized : Catalog V} (hinv : cat.Inv)
    (hstarted : started = cat.insertSnapshot.2) (hnodup : (writes.map (·.tableId)).Nodup) (hw : write ∈ writes)
    (hok : write.Planned (cat.storage write.tableId) cat.nextFileId (cat.head + 1))
    (hfin : writes.foldlM (finalizeStage started (cat.head + 1)) started = .ok finalized)
    (hcom : writes.foldlM (commitStage cat (cat.head + 1)) finalized = .ok cat') :
    StageCommitted (cat.head + 1) write (cat.tableTx write.tableId) (cat'.tableTx write.tableId) ∧
      (write.mode = .append → write.insertsRows = true →
        tableConflict write.tableId TableChanges.append (cat.changesAfter write.baseSnapshotId) = none) ∧
      (write.mode = .replace →
        detectReplaceConflict (cat.storage write.tableId) write.tableId write.baseSnapshotId true = .ok ()) ∧
      (write.mode = .append → write.inlinedDeletes ≠ [] → ∀ r ∈ (cat.storage write.tableId).inlinedRows,
        changedBetween write.baseSnapshotId (cat.head + 1) r.toLifetime = false) := by
  subst hstarted
  obtain ⟨f₁, f₂, hf₁, hfw, hf₂⟩ := Catalog.foldlM_at (·.tableId)
    (fun _ hf t ht => finalizeStage_apart hf t ht) hnodup hw hfin
  obtain ⟨g₁, g₂, hg₁, hgw, hg₂⟩ := Catalog.foldlM_at (·.tableId)
    (fun _ hf t ht => commitStage_apart hf t ht) hnodup hw hcom
  have hf₁ : Catalog.Apart write.tableId cat f₁ := ⟨hf₁.storage, hf₁.nextFile⟩
  obtain ⟨txf, hxf, hsf, hNf, -⟩ := Catalog.withTable_eq_ok hfw
  obtain ⟨next, hnext, rfl⟩ := commitStage_eq_ok hgw
  obtain ⟨txa, hxa, hsa, hNa, -⟩ := Catalog.withTable_eq_ok hnext
  -- before the stage's rows are written
  have hv₁ : (f₁.tableTx write.tableId).storage.Valid cat.head f₁.nextFileId :=
    (congrArg (·.Valid cat.head f₁.nextFileId) hf₁.storage).mpr ((hinv.valid _).mono le_rfl hf₁.nextFile)
  obtain ⟨efin, hrow, -, happend, hreplace⟩ := finalizeTableSnapshot_effect hv₁ (Nat.lt_succ_self _) hxf
  have e₁ := hf₁.effect ((hinv.valid _).mono (Nat.le_succ _) le_rfl)
  have e₂ : Effect (cat.head + 1) _ [] _ (f₂.tableTx write.tableId) := efin.of_eq hsf hNf
  have e₃ := (hf₂.trans hg₁).effect e₂.valid
  have ebefore := (e₁.trans e₂ (by simp)).trans e₃ (by simp)
  -- the stage's rows
  have hokg := hok.evolves ebefore.evolves le_rfl
  obtain ⟨n', ins, hn', ea, hmap, hnew, hunchanged⟩ := applyStage_effect ebefore.valid hokg hxa
  have e₄ : Effect (cat.head + 1) _ ins _ (next.tableTx write.tableId) := ea.of_eq hsa hNa
  have hrec : Catalog.Apart write.tableId next (next.recordSnapshotChanges (cat.head + 1)
      (stageTokens (cat.storage write.tableId) write)) := ⟨rfl, Nat.le_add_right ..⟩
  have hafter := hrec.trans hg₂
  have e₅ := hafter.effect e₄.valid
  have eall := (ebefore.trans e₄ (by simp)).trans e₅ (fun _ _ => rfl)
  simp only [Bool.false_or, Bool.or_false, List.nil_append, List.append_nil] at eall
  have hcounter : (g₁.storage write.tableId).nextRowId = (cat.storage write.tableId).nextRowId := by
    rw [(hf₂.trans hg₁).storage, hsf, hrow, show (f₁.tableTx write.tableId).storage = _ from hf₁.storage]
  refine ⟨⟨n', ins, ?_, eall, ?_, ?_⟩, ?_, ?_, ?_⟩
  · exact hcounter ▸ hn'
  · rw [hmap]
    exact congrArg (write.newRows · n') hcounter
  · exact fun r hr => (hnew r hr).mono ebefore.evolves.nextFile
  · rwa [(Catalog.Committed.insertSnapshot cat).changesBetween_eq hinv] at happend
  · intro hm
    have hd := hreplace hm
    rwa [show (f₁.tableTx write.tableId).storage = _ from hf₁.storage] at hd
  · intro hm hne r hr
    obtain ⟨new, heq, -⟩ := ebefore.inlined fun _ _ => by simp [hm]
    exact hunchanged hne r (heq ▸ List.mem_append_left _ hr)

theorem commitMultiTable_spec {expected : Option Nat} (hinv : cat.Inv)
    (hok : ∀ write ∈ writes, write.Planned (cat.storage write.tableId) cat.nextFileId (cat.head + 1))
    (h : commitMultiTable writes expected cat = .ok (c, cat')) :
    MultiTableCommitted cat writes expected c cat' := by
  simp only [commitMultiTable, bind_eq_ok, refuseIf_eq_ok, pure_eq_ok, Prod.mk.injEq, not_not] at h
  obtain ⟨_, -, _, hnodup, _, hvalid, _, hchecks, _, hexpected, _, hdates, finalized, hfin, committed, hcom,
    hc, rfl⟩ := h
  obtain rfl : cat.head + 1 = c := hc
  have hstages := fun write hw => @stage_committed V cat _ write writes _ _ hinv rfl hnodup hw (hok write hw) hfin hcom
  have hfinal := finalizeStages_committed (Catalog.Committed.insertSnapshot cat) hfin
  refine ⟨rfl, commitStages_committed hinv.ledger hfinal hcom, hnodup, ?_, ?_, fun write hw => (hstages write hw).1, ?_⟩
  · rintro e rfl write hw
    exact forM_eq_ok.mp hexpected write hw
  · intro write hw
    have hcheck := forM_eq_ok.mp hchecks write hw
    simp only [checkStagedTable, bind_eq_ok, refuseIf_eq_ok, refuseWith_eq_ok, Bool.not_eq_true',
      Bool.not_eq_false] at hcheck
    obtain ⟨_, hconflict, _, hlive, hnew⟩ := hcheck
    refine ⟨forM_eq_ok.mp hvalid write hw, hconflict, hlive, hnew, ?_, (hstages write hw).2.1,
      (hstages write hw).2.2.1, (hstages write hw).2.2.2⟩
    intro dated hdated row hr
    have hdate := forM_eq_ok.mp hdates write hw
    simp only [checkRewrittenDate, refuseWith_eq_ok, hdated, Option.bind_some, ite_eq_right_iff,
      reduceCtorEq, imp_false, Bool.not_eq_true, List.any_eq_false, Bool.and_eq_true, decide_eq_true_eq,
      not_and] at hdate
    have hlt : row.snapshotId < cat.head + 1 := Nat.lt_succ_of_le (Catalog.le_head hr)
    by_contra hle
    exact hdate row (List.mem_append_left _ hr) (Nat.not_lt.mp hle) hlt
  · intro t ht
    have h₁ := Catalog.foldlM_apart (·.tableId) (fun _ hf t ht => finalizeStage_apart hf t ht) hfin ht
    have h₂ := Catalog.foldlM_apart (·.tableId) (fun _ hf t ht => commitStage_apart hf t ht) hcom ht
    exact ⟨(h₁.trans h₂).storage, (h₁.trans h₂).nextFile⟩

/-! ## The tokens of a stage name what it removes -/

section Tokens

variable {T : TableStorage V} {h N : Nat}

theorem hasLiveInlined_of_mem (hv : T.Valid h N) {r : InlinedRow V} (hr : r ∈ T.liveInlined) :
    T.hasLiveInlined = true := by
  obtain ⟨hr, hl⟩ := List.mem_filter.mp hr
  exact List.any_eq_true.mpr ⟨r, hr, by simpa [hl] using hv.registered r hr⟩

theorem hasLiveData_of_mem {f : DataFile V} (hf : f ∈ T.liveFiles) : T.hasLiveData = true :=
  List.any_eq_true.mpr ⟨f, (TableStorage.mem_liveFiles.mp hf).1, (TableStorage.mem_liveFiles.mp hf).2⟩

theorem mem_stageTokens_deletedFrom (hflush : write.inlinedFlush = false)
    (hd : ((TableChanges.ofStaged write).deletedFrom || (write.mode = .replace && T.hasLiveData)) = true) :
    ⟨.deletedFromTable, write.tableId⟩ ∈ stageTokens T write := by
  unfold stageTokens stagedTableWriteChanges
  simp only [hflush, Bool.false_eq_true, if_false, hd, if_true]
  simp

theorem mem_stageTokens_inlinedDelete (hflush : write.inlinedFlush = false)
    (hd : ((TableChanges.ofStaged write).deletedInlined || (write.mode = .replace && T.hasLiveInlined)) = true) :
    ⟨.inlinedDelete, write.tableId⟩ ∈ stageTokens T write := by
  unfold stageTokens stagedTableWriteChanges
  simp only [hflush, Bool.false_eq_true, if_false, hd, if_true]
  simp

theorem stageTokens_flush (hflush : write.inlinedFlush = true) :
    stageTokens T write = [⟨.inlineFlush, write.tableId⟩] := by
  simp [stageTokens, stagedTableWriteChanges, hflush]

theorem deletes_inlined {table rowId b : Nat} (hd : write.deletes c (.inlined table rowId b) = true) :
    (TableChanges.ofStaged write).deletedInlined = true := by
  have hrefs : Location.inRowRefs c write.inlinedDeletes (.inlined table rowId b) = true := by
    simpa [StagedTableWrite.deletes, Location.inEntries, Location.inFileDelete, Location.inFile] using hd
  cases hi : write.inlinedDeletes with
  | nil => simp [hi, Location.inRowRefs] at hrefs
  | cons ref refs => simp [TableChanges.ofStaged, hi]

theorem deletes_file {i p : Nat} (hd : write.deletes c (.file i p) = true) :
    (TableChanges.ofStaged write).deletedFrom = true ∨ (TableChanges.ofStaged write).deletedInlined = true := by
  simp only [StagedTableWrite.deletes, Location.inRowRefs, Bool.or_false, Bool.or_eq_true, List.any_eq_true] at hd
  simp only [TableChanges.ofStaged, Bool.or_eq_true, Bool.not_eq_true', List.isEmpty_eq_false_iff]
  rcases hd with ((⟨e, he, -⟩ | ⟨e, he, -⟩) | ⟨e, he, -⟩) | ⟨e, he, -⟩
  · exact .inl (.inl (.inl (List.ne_nil_of_mem he)))
  · exact .inl (.inl (.inr (List.ne_nil_of_mem he)))
  · exact .inr (.inr (List.ne_nil_of_mem he))
  · exact .inl (.inr (List.ne_nil_of_mem he))

/-- A stage that removes an inlined row names the table as deleted from, or flushed. -/
theorem stageTokens_of_inlined (hv : T.Valid h N) {r : InlinedRow V} (hr : r ∈ T.liveInlined)
    (hd : (decide (write.mode = .replace) || write.deletes c r.toScanRow.location) = true) :
    ⟨.inlinedDelete, write.tableId⟩ ∈ stageTokens T write ∨ ⟨.inlineFlush, write.tableId⟩ ∈ stageTokens T write := by
  cases hflush : write.inlinedFlush with
  | true => exact .inr (by simp [stageTokens_flush hflush])
  | false =>
    refine .inl (mem_stageTokens_inlinedDelete hflush ?_)
    rw [Bool.or_eq_true] at hd ⊢
    rcases hd with hd | hd
    · exact .inr (by rw [hasLiveInlined_of_mem hv hr, hd]; rfl)
    · exact .inl (deletes_inlined hd)

/-- A stage that removes a row, and is no flush, names the table as deleted from. -/
theorem stageTokens_of_removed (hv : T.Valid h N) {r : ScanRow V} (hr : r ∈ T.current)
    (hflush : write.inlinedFlush = false)
    (hd : (decide (write.mode = .replace) || write.deletes c r.location) = true) :
    ⟨.deletedFromTable, write.tableId⟩ ∈ stageTokens T write ∨
      ⟨.inlinedDelete, write.tableId⟩ ∈ stageTokens T write := by
  rcases TableStorage.mem_current.mp hr with ⟨f, hf, hr⟩ | ⟨x, hx, rfl⟩
  · obtain ⟨p, hp, -⟩ := TableStorage.location_of_mem_present hr
    rw [hp, Bool.or_eq_true] at hd
    rcases hd with hd | hd
    · refine .inl (mem_stageTokens_deletedFrom hflush ?_)
      rw [hasLiveData_of_mem hf, hd]
      simp
    · rcases deletes_file hd with hd | hd
      · exact .inl (mem_stageTokens_deletedFrom hflush (by simp [hd]))
      · exact .inr (mem_stageTokens_inlinedDelete hflush (by simp [hd]))
  · rcases stageTokens_of_inlined hv hx hd with htok | htok
    · exact .inr htok
    · -- a stage that is no flush has no flush token
      exfalso
      unfold stageTokens stagedTableWriteChanges at htok
      simp only [hflush, Bool.false_eq_true, if_false, List.mem_append] at htok
      rcases htok with ((htok | htok) | htok) | htok <;> split at htok <;> simp at htok

end Tokens

end Stages

end DuckLake.Metadata
