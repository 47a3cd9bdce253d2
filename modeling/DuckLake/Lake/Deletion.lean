import DuckLake.Lake.System

/- No deletion is lost. A row is named by its row id, which survives updates,
   compactions and flushes; it is visible when a read of the newest snapshot returns
   it. A commit that removes a row names its table as deleted from, and from then on
   a transaction planned before is refused when it would write the row again. -/

namespace DuckLake.Lake

open Metadata Plan Versioned Checked Optimistic

variable {V : Type} {cat cat' : Catalog V} {t i b : Nat} {p : Transaction V}

/-- A read of the newest snapshot returns the row. -/
def rowVisible (cat : Catalog V) (tableId rowId : Nat) : Bool :=
  ((cat.storage tableId).scan cat.head).any fun r => r.rowId == some rowId

/-- The table was deleted from. -/
def DeletedFrom (tableId : Nat) (changes : List Change) : Prop :=
  ⟨.deletedFromTable, tableId⟩ ∈ changes ∨ ⟨.inlinedDelete, tableId⟩ ∈ changes

/-- A stage planned on a snapshot after `base` writes the row again. -/
def Transaction.insertsAfter (p : Transaction V) (base tableId rowId : Nat) : Bool :=
  p.stages.any fun write =>
    write.tableId == tableId && write.keptRowIds.contains rowId && decide (base < write.baseSnapshotId)

/-- Every stage of the table was planned on a snapshot up to `base`. -/
def Transaction.basedOn (p : Transaction V) (base tableId : Nat) : Bool :=
  p.stages.all fun write => write.tableId != tableId || decide (write.baseSnapshotId ≤ base)

/-- The transaction is a staged flush of the table, which gives the rows it moves new
    row ids. -/
def Transaction.renumbers (p : Transaction V) (tableId : Nat) : Bool :=
  p.stages.any fun write => write.tableId == tableId && write.inlinedFlush

/-- The row is among those a staged flush moves to files. -/
def Transaction.moves (p : Transaction V) (tableId rowId : Nat) : Bool :=
  p.stages.any fun write =>
    write.tableId == tableId && write.inlinedFlush && write.inlinedDeletes.any (·.rowId == rowId)

theorem rowVisible_iff (hinv : cat.Inv) :
    rowVisible cat t i = true ↔ ∃ r ∈ (cat.storage t).current, r.rowId = some i := by
  unfold rowVisible
  rw [(hinv.valid t).scan_eq_current le_rfl]
  simp

theorem rowVisible_of_rows (hinv : cat.Inv) (hinv' : cat'.Inv)
    (hrows : ((cat'.storage t).current.map fun r => (r.rowId, r.value)).Perm
      ((cat.storage t).current.map fun r => (r.rowId, r.value))) :
    rowVisible cat' t i = rowVisible cat t i := by
  rw [Bool.eq_iff_iff, rowVisible_iff hinv, rowVisible_iff hinv']
  have hids : ∀ T : TableStorage V, (∃ r ∈ T.current, r.rowId = some i) ↔
      ∃ x ∈ T.current.map fun r => (r.rowId, r.value), x.1 = some i := fun T => by simp
  rw [hids, hids]
  exact exists_congr fun x => and_congr_left' hrows.mem_iff

theorem rowVisible_of_storage (hinv : cat.Inv) (hinv' : cat'.Inv) (hs : cat'.storage t = cat.storage t) :
    rowVisible cat' t i = rowVisible cat t i :=
  rowVisible_of_rows hinv hinv' (by rw [hs])

theorem rowVisible_of_compaction {tableId base : Nat} {sources : List CompactionSourceFile}
    {outputs : List (CompactionOutputFile V)} {retirement : SourceRetirement} (hinv : cat.Inv)
    (held : Held cat (.compaction tableId base sources outputs retirement))
    (h : (Transaction.compaction tableId base sources outputs retirement).commit cat = .ok cat') :
    rowVisible cat' t i = rowVisible cat t i := by
  obtain ⟨⟨c, next⟩, hok, rfl⟩ := map_eq_ok.mp h
  have hinv' := (outcome_of_compaction hinv held.1 held.2 hok).inv hinv
  by_cases ht : t = tableId
  · subst ht
    exact rowVisible_of_rows hinv hinv' (commitCompaction_rows hinv held.2 held.1 hok)
  · exact rowVisible_of_storage hinv hinv' ((commitCompaction_spec hinv hok).1.apart t ht).storage

theorem rowVisible_of_flush {base : Nat} {tables : List (InlinedFlushTable V)} (hinv : cat.Inv)
    (held : Held cat (.flush base tables)) (h : (Transaction.flush base tables).commit cat = .ok cat') :
    rowVisible cat' t i = rowVisible cat t i := by
  have hspec := flush_of_commit hinv held h
  have hinv' := (outcome_of_flush hinv hspec).inv hinv
  by_cases ht : t ∈ tables.map (·.tableId)
  · obtain ⟨table, htable, rfl⟩ := List.mem_map.mp ht
    exact rowVisible_of_rows hinv hinv' (hspec.flushed table htable).rows
  · exact rowVisible_of_storage hinv hinv' (hspec.apart t ht).storage

/-! ## The row ids a stage writes -/

theorem DataFileInfo.newRows_rowId {n : Nat} {file : DataFileInfo V} {x : Option Nat × V} (hx : x ∈ file.newRows n)
    (hi : x.1 = some i) : i ∈ file.keptRowIds ∨ n ≤ i := by
  obtain ⟨⟨row, p⟩, hrow, rfl⟩ := List.mem_map.mp hx
  have hget : file.rows[p]? = some row := List.mk_mem_zipIdx_iff_getElem?.mp hrow
  cases hr : row.rowId with
  | some j =>
    obtain rfl : j = i := by simpa [hr] using hi
    exact .inl (List.mem_append_left _ (List.mem_filterMap.mpr ⟨row, List.mem_of_getElem? hget, hr⟩))
  | none =>
    simp only [hr, Option.none_or] at hi
    obtain ⟨start, hs, rfl⟩ := Option.map_eq_some_iff.mp hi
    unfold allocateRowIdStart at hs
    cases hstart : file.rowIdStart with
    | assign =>
      simp only [hstart] at hs
      obtain rfl := Option.some.inj hs
      exact .inr (by omega)
    | embedded => simp [hstart] at hs
    | preserved s =>
      simp only [hstart] at hs
      obtain rfl := Option.some.inj hs
      refine .inl (List.mem_append_right _ ?_)
      simp only [hstart, List.mem_range'_1, DataFileInfo.recordCount]
      exact ⟨Nat.le_add_right .., Nat.add_lt_add_left (List.getElem?_eq_some_iff.mp hget).1 _⟩

theorem newFileRows_rowId {files : List (DataFileInfo V)} {n : Nat} {x : Option Nat × V}
    (hx : x ∈ newFileRows n files) (hi : x.1 = some i) :
    (∃ file ∈ files, i ∈ file.keptRowIds) ∨ n ≤ i := by
  induction files generalizing n with
  | nil => cases hx
  | cons file files ih =>
    rcases List.mem_append.mp hx with hx | hx
    · exact (DataFileInfo.newRows_rowId hx hi).imp_left fun h => ⟨file, List.mem_cons_self .., h⟩
    · rcases ih hx with ⟨file, hf, h⟩ | h
      · exact .inl ⟨file, List.mem_cons_of_mem _ hf, h⟩
      · exact .inr (by omega)

/-- A stage writes rows with the row ids it keeps, or with new ones. -/
theorem StagedTableWrite.newRows_rowId {write : StagedTableWrite V} {n n' : Nat} (hn : n ≤ n') {x : Option Nat × V}
    (hx : x ∈ write.newRows n n') (hi : x.1 = some i) :
    write.insertsRows = true ∧ (i ∈ write.keptRowIds ∨ n ≤ i) := by
  have hfiles : ∀ file ∈ write.files, i ∈ file.keptRowIds → i ∈ write.keptRowIds := fun file hf h =>
    StagedTableWrite.mem_keptRowIds_of_file hf h
  rcases List.mem_append.mp hx with hx | hx
  · cases hd : write.data with
    | files files =>
      simp only [hd] at hx
      refine ⟨by simp [StagedTableWrite.insertsRows, hd, StagedTableData.isFiles], ?_⟩
      refine (newFileRows_rowId hx hi).imp_left ?_
      rintro ⟨file, hf, h⟩
      exact hfiles file (by simp [StagedTableWrite.files, hd, hf]) h
    | inlined rows =>
      simp only [hd, newInlinedRows] at hx
      refine ⟨by simp [StagedTableWrite.insertsRows, hd, StagedTableData.isInlined], ?_⟩
      obtain ⟨⟨j, value⟩, hj, rfl⟩ := List.mem_map.mp hx
      obtain rfl : j = i := by simpa using hi
      have hj := (List.of_mem_zip hj).1
      cases hids : write.inlinedRowIds with
      | some ids =>
        simp only [hids, Option.getD_some] at hj
        exact .inl (List.mem_append_right _ (by simpa [hids] using hj))
      | none =>
        simp only [hids, Option.getD_none, List.mem_range'_1] at hj
        exact .inr hj.1
    | none => simp [hd] at hx
  · have hne : write.insertedFiles ≠ [] := by
      rintro hnil
      simp [hnil, newFileRows] at hx
    refine ⟨by simp [StagedTableWrite.insertsRows, hne], ?_⟩
    rcases newFileRows_rowId hx hi with ⟨file, hf, h⟩ | h
    · exact .inl (hfiles file (List.mem_append_right _ hf) h)
    · exact .inr (by omega)

/-! ## A removed row is named -/

/-- A commit that removes a row, without giving it a new row id, names the table as
    deleted from. -/
theorem deletedFrom_of_removed (hinv : cat.Inv) (held : Held cat p) (h : p.commit cat = .ok cat')
    (hbefore : rowVisible cat t i = true) (hafter : rowVisible cat' t i = false) (hp : p.renumbers t = false) :
    DeletedFrom t (cat'.changesAfter cat.head) := by
  cases p with
  | staged writes expected =>
    have hspec := multiTable_of_commit hinv held h
    have hout := outcome_of_multiTable hinv hspec
    rw [hout.changesAfter_head hinv]
    by_cases ht : t ∈ writes.map (·.tableId)
    · obtain ⟨write, hw, rfl⟩ := List.mem_map.mp ht
      obtain ⟨n', ins, -, e, -⟩ := (hspec.stages write hw).effect
      obtain ⟨r, hr, hri⟩ := (rowVisible_iff hinv).mp hbefore
      have hflush : write.inlinedFlush = false := by
        simp only [Transaction.renumbers, Transaction.stages, List.any_eq_false] at hp
        simpa using hp write hw
      -- the row is gone, so its location is one the stage deletes
      have hd : (decide (write.mode = .replace) || write.deletes (cat.head + 1) r.location) = true := by
        by_contra hno
        have hkept : r ∈ (cat'.storage write.tableId).current :=
          e.rows.mem_iff.mpr (List.mem_append_left _ (List.mem_filter.mpr ⟨hr, by simpa using hno⟩))
        rw [(rowVisible_iff (hout.inv hinv)).mpr ⟨r, hkept, hri⟩] at hafter
        cases hafter
      exact (stageTokens_of_removed (hinv.valid _) hr hflush hd).imp
        (fun htok => List.mem_flatMap.mpr ⟨write, hw, htok⟩) fun htok => List.mem_flatMap.mpr ⟨write, hw, htok⟩
    · rw [rowVisible_of_storage hinv (hout.inv hinv) (hspec.apart t ht).storage, hbefore] at hafter
      cases hafter
  | compaction =>
    rw [rowVisible_of_compaction hinv held h, hbefore] at hafter
    cases hafter
  | flush =>
    rw [rowVisible_of_flush hinv held h, hbefore] at hafter
    cases hafter
  | truncate tableId base =>
    rcases commitTruncate_spec hinv h with ⟨-, -, rfl⟩ | ⟨-, hcom, e, happ⟩
    · rw [hbefore] at hafter
      cases hafter
    · have hout := outcome_of_truncate hinv hcom e happ
      rw [hout.changesAfter_head hinv]
      by_cases ht : t = tableId
      · subst ht
        obtain ⟨r, hr, -⟩ := (rowVisible_iff hinv).mp hbefore
        rcases TableStorage.mem_current.mp hr with ⟨f, hf, -⟩ | ⟨x, hx, -⟩
        · exact .inl (by simp [truncateTokens, hasLiveData_of_mem hf])
        · exact .inr (truncateTokens_of_inlined (hinv.valid t) hx)
      · rw [rowVisible_of_storage hinv (hout.inv hinv) (happ t ht).storage, hbefore] at hafter
        cases hafter

/-! ## A removed row stays away -/

theorem changesAfter_subset {base : Nat} (hb : base ≤ b) {change : Change} (hc : change ∈ cat.changesAfter b) :
    change ∈ cat.changesAfter base := by
  simp only [Catalog.changesAfter, List.mem_flatMap, List.mem_filter, decide_eq_true_eq] at hc ⊢
  obtain ⟨row, ⟨hr, hlt⟩, hmem⟩ := hc
  exact ⟨row, ⟨hr, hb.trans_lt hlt⟩, hmem⟩

theorem DeletedFrom.mono {base : Nat} (hb : base ≤ b) (h : DeletedFrom t (cat.changesAfter b)) :
    DeletedFrom t (cat.changesAfter base) :=
  h.imp (changesAfter_subset hb) (changesAfter_subset hb)

theorem DeletedFrom.evolves (hev : Evolves cat cat') (h : DeletedFrom t (cat.changesAfter b)) :
    DeletedFrom t (cat'.changesAfter b) := by
  obtain ⟨more, hmore, -⟩ := hev.ledger
  have hsub : ∀ change ∈ cat.changesAfter b, change ∈ cat'.changesAfter b := by
    intro change hc
    unfold Catalog.changesAfter at hc ⊢
    rw [hmore, List.filter_append, List.flatMap_append]
    exact List.mem_append_left _ hc
  exact h.imp (hsub _) (hsub _)

/-- A stage that keeps a row id and inserts rows is refused once the table was deleted
    from. -/
theorem not_deletedFrom_of_insert {write : StagedTableWrite V} (hcheck : StageChecked cat write)
    (held : StageHeld cat write (Quiet write.tableId (cat.changesAfter write.baseSnapshotId)))
    (hinserts : write.insertsRows = true) (hkept : i ∈ write.keptRowIds) :
    ¬ DeletedFrom write.tableId (cat.changesAfter write.baseSnapshotId) := by
  cases hm : write.mode with
  | replace => simp [held.planned.replace hm] at hkept
  | append =>
    have hrules := (tableConflict_eq_none.mp (hcheck.append hm hinserts)).1 (.inl rfl)
    rintro (hd | hd)
    · exact hrules ([.deletedFromTable], "deleted from it") (by simp [insertRules]) _ (by simp) hd
    · exact hrules ([.inlinedDelete], "deleted inlined data from it") (by simp [insertRules]) _ (by simp) hd

/-- The row was removed by a commit after snapshot `base`, and is away. -/
structure Away (base tableId rowId : Nat) (cat : Catalog V) : Prop where
  invisible : rowVisible cat tableId rowId = false
  issued : rowId < (cat.storage tableId).nextRowId
  named : DeletedFrom tableId (cat.changesAfter base)

/-- A commit brings a row back only as a stage planned after its removal. -/
theorem invisible_of_commit (hinv : cat.Inv) (held : Held cat p) (h : p.commit cat = .ok cat')
    (haway : Away b t i cat) (hp : p.insertsAfter b t i = false) : rowVisible cat' t i = false := by
  cases p with
  | staged writes expected =>
    have hspec := multiTable_of_commit hinv held h
    have hout := outcome_of_multiTable hinv hspec
    by_cases ht : t ∈ writes.map (·.tableId)
    · obtain ⟨write, hw, rfl⟩ := List.mem_map.mp ht
      obtain ⟨n', ins, hn', e, hmap, -⟩ := (hspec.stages write hw).effect
      rw [Bool.eq_false_iff, ne_eq, rowVisible_iff (hout.inv hinv)]
      rintro ⟨r, hr, hri⟩
      rcases List.mem_append.mp (e.rows.mem_iff.mp hr) with hr | hr
      · -- an old row would have been visible before
        have hold := (rowVisible_iff hinv).mpr ⟨r, (List.mem_filter.mp hr).1, hri⟩
        rw [haway.invisible] at hold
        cases hold
      · have hx : (r.rowId, r.value) ∈ write.newRows (cat.storage write.tableId).nextRowId n' :=
          hmap ▸ List.mem_map_of_mem hr
        obtain ⟨hinserts, hkept | hnew⟩ := StagedTableWrite.newRows_rowId hn' hx hri
        · refine not_deletedFrom_of_insert (hspec.checked write hw) (held write hw) hinserts hkept
            (haway.named.mono ?_)
          simp only [Transaction.insertsAfter, Transaction.stages, List.any_eq_false] at hp
          simpa [hkept] using hp write hw
        · exact absurd haway.issued (Nat.not_lt.mpr hnew)
    · rw [rowVisible_of_storage hinv (hout.inv hinv) (hspec.apart t ht).storage]
      exact haway.invisible
  | compaction => exact (rowVisible_of_compaction hinv held h).trans haway.invisible
  | flush => exact (rowVisible_of_flush hinv held h).trans haway.invisible
  | truncate tableId base =>
    rcases commitTruncate_spec hinv h with ⟨-, -, rfl⟩ | ⟨-, hcom, e, happ⟩
    · exact haway.invisible
    · have hout := outcome_of_truncate hinv hcom e happ
      by_cases ht : t = tableId
      · subst ht
        rw [Bool.eq_false_iff, ne_eq, rowVisible_iff (hout.inv hinv)]
        rintro ⟨r, hr, -⟩
        have hmem := e.rows.mem_iff.mp hr
        simp at hmem
      · exact (rowVisible_of_storage hinv (hout.inv hinv) (happ t ht).storage).trans haway.invisible

theorem Away.commit (hinv : cat.Inv) (held : Held cat p) (h : p.commit cat = .ok cat') (haway : Away b t i cat)
    (hp : p.insertsAfter b t i = false) : Away b t i cat' := by
  have hev : Evolves cat cat' := (lakeDiscipline V).commit_evolves hinv held h
  exact ⟨invisible_of_commit hinv held h haway hp, haway.issued.trans_le (hev.tables t).nextRow,
    haway.named.evolves hev⟩

/-- A committed staged flush did not move the row: it would have been refused. -/
theorem moves_eq_false (hinv : cat.Inv) (held : Held cat p) (h : p.commit cat = .ok cat')
    (haway : rowVisible cat t i = false) : p.moves t i = false := by
  cases p with
  | staged writes expected =>
    have hspec := multiTable_of_commit hinv held h
    simp only [Transaction.moves, Transaction.stages, List.any_eq_false, Bool.and_eq_true, beq_iff_eq,
      List.any_eq_true, not_and, not_exists]
    rintro write hw ⟨rfl, hflush⟩ ref href rfl
    have hcheck := hspec.checked write hw
    have hne : write.inlinedDeletes ≠ [] := List.ne_nil_of_mem href
    -- the flush passed the rules, so its rows are as it read them
    have hquiet : Quiet write.tableId (cat.changesAfter write.baseSnapshotId) := by
      have hconflict := hcheck.conflict
      rw [stagedConflict, hflush] at hconflict
      split at hconflict
      · cases hconflict
      · have hrules := (tableConflict_eq_none.mp hconflict).2.2.1 (by simpa using hne)
        intro kind hk hm
        simp only [List.mem_cons, List.not_mem_nil, or_false] at hk
        rcases hk with rfl | rfl | rfl
        · exact hrules ([.inlinedDelete], "deleted from it") (by simp [deleteInlinedRules]) _ (by simp) hm
        · exact hrules ([.flushedInlined, .inlineFlush], "flushed the inlined data")
            (by simp [deleteInlinedRules]) _ (by simp) hm
        · exact hrules ([.flushedInlined, .inlineFlush], "flushed the inlined data")
            (by simp [deleteInlinedRules]) _ (by simp) hm
    obtain ⟨r, hr, -, hid, hvis⟩ := (held write hw).moved hflush hquiet ref href
    obtain ⟨-, hends⟩ := Lifetime.visibleAt_iff.mp hvis
    have hchanged := hcheck.unchanged ((held write hw).appends hflush) hne r hr
    have hlive : r.live = true := by
      cases he : r.endSnapshot with
      | none => simp [Lifetime.live, he]
      | some e =>
        have hle := ((hinv.valid write.tableId).inlinedLife r hr).ended e he
        have hbetween : changedBetween write.baseSnapshotId (cat.head + 1) r.toLifetime = true := by
          have hlt : write.baseSnapshotId < e ∧ e < cat.head + 1 := ⟨hends e he, by omega⟩
          simp only [changedBetween, he, Option.any_some, hlt, decide_true, Bool.and_self, Bool.or_true]
        rw [hbetween] at hchanged
        cases hchanged
    have hvisible := (rowVisible_iff (t := write.tableId) hinv).mpr
      ⟨_, TableStorage.mem_current_of_inlined (List.mem_filter.mpr ⟨hr, hlive⟩), rfl⟩
    rw [hid, haway] at hvisible
    cases hvisible
  | compaction => rfl
  | flush => rfl
  | truncate => rfl

/-! ## Every interleaving -/

section Run

variable {w₀ w₁ w₂ w₃ : World (Catalog V) (Transaction V)} {D T : Transaction V}
  {l₀ l₁ : List (Catalog V × Transaction V)}

theorem away_of_removed (hw : Sound (lakeDiscipline V) w₁)
    (hD : Step (lake V) w₁ (some (w₁.state, D)) w₂) (hbefore : rowVisible w₁.state t i = true)
    (hafter : rowVisible w₂.state t i = false) (hid : D.renumbers t = false) :
    Away w₁.state.head t i w₂.state := by
  cases hD with
  | @commit _ cat' hp hc =>
    have hinv := hw.inv
    have held := hw.ok D hp
    refine ⟨hafter, ?_, deletedFrom_of_removed hinv held hc hbefore hafter hid⟩
    have hev : Evolves w₁.state cat' := (lakeDiscipline V).commit_evolves hinv held hc
    refine lt_of_lt_of_le ?_ (hev.tables t).nextRow
    obtain ⟨r, hr, hri⟩ := (rowVisible_iff hinv).mp hbefore
    rcases TableStorage.mem_current.mp hr with ⟨f, hf, hr⟩ | ⟨x, hx, rfl⟩
    · obtain ⟨row, q, hx, -, rfl⟩ := DataFile.mem_read.mp hr
      exact (hinv.valid t).rowIds.file f (TableStorage.mem_liveFiles.mp hf).1 _ hx i hri
    · exact Option.some.inj hri ▸ (hinv.valid t).rowIds.inlined x (List.mem_filter.mp hx).1

/-- Any catalog, any number of transactions planned and committed in any order. Once a
    commit removed a row, a transaction planned on an earlier snapshot is refused, or
    leaves the row invisible at its snapshot and at every later one, until a statement
    planned after the removal writes the row again. -/
theorem deletion_not_lost (hinv : w₀.state.Inv) (hnone : w₀.pending = []) (hrun : Steps (lake V) w₀ l₀ w₁)
    (hD : Step (lake V) w₁ (some (w₁.state, D)) w₂) (hbefore : rowVisible w₁.state t i = true)
    (hafter : rowVisible w₂.state t i = false) (hid : D.renumbers t = false)
    (hlater : Steps (lake V) w₂ l₁ w₃) (hagain : ∀ l ∈ l₁, l.2.insertsAfter w₁.state.head t i = false)
    (hT : T ∈ w₃.pending) (hbase : T.basedOn w₁.state.head t = true) :
    (∃ e, T.commit w₃.state = .error e) ∨ ∃ cat', T.commit w₃.state = .ok cat' ∧
      rowVisible cat' t i = false ∧ T.moves t i = false ∧
      ∀ l₂ w₄, Steps (lake V) { w₃ with state := cat' } l₂ w₄ →
        (∀ l ∈ l₂, l.2.insertsAfter w₁.state.head t i = false) → rowVisible w₄.state t i = false := by
  have hw₀ : Sound (lakeDiscipline V) w₀ := ⟨hinv, by simp [hnone]⟩
  have hw₁ := hrun.sound hw₀
  have hw₃ := hlater.sound (hD.sound hw₁)
  have hstep : ∀ {cat p cat'}, Catalog.Inv cat → Held cat p → (lake V).commits cat p cat' →
      p.insertsAfter w₁.state.head t i = false → Away w₁.state.head t i cat → Away w₁.state.head t i cat' :=
    fun hinv held h hp haway => haway.commit hinv held h hp
  have haway : Away w₁.state.head t i w₃.state := hlater.preserves (hD.sound hw₁)
    (A := fun l => l.2.insertsAfter w₁.state.head t i = false) hstep hagain
    (away_of_removed hw₁ hD hbefore hafter hid)
  have hold : T.insertsAfter w₁.state.head t i = false := by
    simp only [Transaction.basedOn, List.all_eq_true, Bool.or_eq_true, bne_iff_ne, ne_eq, decide_eq_true_eq] at hbase
    simp only [Transaction.insertsAfter, List.any_eq_false, Bool.and_eq_true, beq_iff_eq, decide_eq_true_eq, not_and,
      not_lt]
    rintro write hw ⟨ht, -⟩
    exact (hbase write hw).resolve_left (not_not.mpr ht)
  cases hc : T.commit w₃.state with
  | error e => exact .inl ⟨e, rfl⟩
  | ok cat' =>
    have held := hw₃.ok T hT
    have hlast : Step (lake V) w₃ (some (w₃.state, T)) { w₃ with state := cat' } := .commit hT hc
    have haway' := haway.commit hw₃.inv held hc hold
    refine .inr ⟨cat', rfl, haway'.invisible, moves_eq_false hw₃.inv held hc haway.invisible, ?_⟩
    intro l₂ w₄ hrest hagain₂
    exact (hrest.preserves (hlast.sound hw₃) (A := fun l => l.2.insertsAfter w₁.state.head t i = false) hstep hagain₂
      haway').invisible

end Run

/-! An `UPDATE` of a row planned before a truncate of its table. -/

def updatedTable : TableStorage Nat :=
  { dataFiles := [], deleteFiles := [], inlinedRows := [⟨⟨1, none⟩, 0, 0, 5⟩], inlinedDeletes := []
    inlinedTables := [0], nextRowId := 1 }

def emptyTable : TableStorage Nat :=
  { dataFiles := [], deleteFiles := [], inlinedRows := [], inlinedDeletes := [], inlinedTables := []
    nextRowId := 0 }

def updatedLake : Catalog Nat :=
  { snapshots := [⟨1, 0⟩], changes := [⟨1, [⟨.inlinedInsert, 7⟩]⟩], schemas := [⟨⟨0, none⟩, 1, [], true⟩]
    tables := [⟨⟨0, none⟩, 7, 1, [], true⟩], storage := fun t => if t = 7 then updatedTable else emptyTable
    scheduled := [], nextFileId := 1, clock := 0 }

/-- `UPDATE` of the row with id 0. -/
def rowUpdate : StagedTableWrite Nat :=
  { tableId := 7, baseSnapshotId := 1, mode := .append, data := .inlined [6], positionalDeletes := []
    rewrittenDeletes := [], inlinedDeletes := [⟨0, 0⟩], inlinedRowIds := some [0], insertedFiles := []
    inlinedFileDeletes := [], droppedFiles := [], inlinedFlush := false, exclusive := false }

def truncatedLake : Catalog Nat := ((Transaction.truncate 7 1).commit updatedLake).toOption.getD updatedLake

theorem updatedLake_inv : updatedLake.Inv := by
  refine ⟨fun t => ?_, by simp [updatedLake, Catalog.head]⟩
  by_cases ht : t = 7
  · subst ht
    constructor <;> simp [updatedLake, updatedTable, Catalog.head]
    · exact ⟨le_rfl, by simp⟩
    · exact ⟨by simp, by simp⟩
  · constructor <;> simp [updatedLake, emptyTable, ht]
    exact ⟨by simp, by simp⟩

theorem rowUpdate_held : StageHeld updatedLake rowUpdate True where
  base := by decide
  planned := by
    constructor <;> simp [rowUpdate, StagedTableWrite.namedFiles, StagedTableWrite.keptRowIds,
      StagedTableWrite.files, updatedLake, updatedTable]
  appends := by simp [rowUpdate]
  moved := by simp [rowUpdate]

theorem update_before_truncate : rowVisible updatedLake 7 0 = true ∧ rowVisible truncatedLake 7 0 = false ∧
    ((∃ e, (Transaction.staged [rowUpdate] none).commit truncatedLake = .error e) ∨
      ∃ cat', (Transaction.staged [rowUpdate] none).commit truncatedLake = .ok cat' ∧
        rowVisible cat' 7 0 = false ∧ (Transaction.staged [rowUpdate] none).moves 7 0 = false ∧
        ∀ l w, Steps (lake Nat) ⟨cat', [.truncate 7 1, .staged [rowUpdate] none]⟩ l w →
          (∀ x ∈ l, x.2.insertsAfter 1 7 0 = false) → rowVisible w.state 7 0 = false) := by
  have hplan : Steps (lake Nat) ⟨updatedLake, []⟩ []
      ⟨updatedLake, [.truncate 7 1, .staged [rowUpdate] none]⟩ :=
    .tail (.tail (.refl _)
      (.plan (show Plans updatedLake [] (.staged [rowUpdate] none) from ⟨rowUpdate_held, .inl rfl⟩)))
      (.plan (show 1 ≤ updatedLake.head by decide))
  have hcommit : Step (lake Nat) ⟨updatedLake, [.truncate 7 1, .staged [rowUpdate] none]⟩
      (some (updatedLake, .truncate 7 1)) ⟨truncatedLake, [.truncate 7 1, .staged [rowUpdate] none]⟩ :=
    .commit (by simp) rfl
  have hbefore : rowVisible updatedLake 7 0 = true := by decide
  have hafter : rowVisible truncatedLake 7 0 = false := by decide
  exact ⟨hbefore, hafter, deletion_not_lost updatedLake_inv rfl hplan hcommit hbefore hafter rfl (.refl _) (by simp)
    (by simp) (by decide)⟩

end DuckLake.Lake
