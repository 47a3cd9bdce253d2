import DuckLake.Lib.Optimistic
import DuckLake.Plan.Compaction
import DuckLake.Plan.FlushCommit

/- The lake as a system of transactions. A client plans a staged write, a
   compaction, a flush or a truncate from what the catalog shows at the moment, and
   commits it later, after any number of commits of others. `lakeDiscipline` says
   what each plan keeps relying on, and that every commit leaves it in place: its
   run rule then holds for every interleaving. -/

namespace DuckLake.Lake

open Metadata Plan Versioned Checked Optimistic

variable {V : Type} {cat cat' : Catalog V} {t : Nat}

/-! ## Transactions -/

inductive Transaction (V : Type) where
  | staged (writes : List (StagedTableWrite V)) (expectedBaseSnapshotId : Option Nat)
  | compaction (tableId base : Nat) (sources : List CompactionSourceFile) (outputs : List (CompactionOutputFile V))
      (retirement : SourceRetirement)
  | flush (base : Nat) (tables : List (InlinedFlushTable V))
  | truncate (tableId base : Nat)

def Transaction.commit : Transaction V → Catalog V → Result (Catalog V)
  | .staged writes expected, cat => Prod.snd <$> commitMultiTable writes expected cat
  | .compaction tableId base sources outputs retirement, cat =>
    Prod.snd <$> commitCompaction tableId base sources outputs retirement cat
  | .flush base tables, cat => Prod.snd <$> commitInlinedFlush base tables cat
  | .truncate tableId base, cat => commitTruncate tableId base cat

/-- The stages of a transaction. -/
def Transaction.stages : Transaction V → List (StagedTableWrite V)
  | .staged writes _ => writes
  | _ => []

/-- Nothing was done to the inlined rows of the table: they were not deleted from, and
    not flushed. -/
def Quiet (tableId : Nat) (changes : List Change) : Prop :=
  ∀ kind ∈ [ChangeKind.inlinedDelete, .flushedInlined, .inlineFlush], ⟨kind, tableId⟩ ∉ changes

/-- What a stage relies on. A staged flush gives rows new row ids: those it takes are
    rows its base shows, as long as the inlined rows are as it read them. -/
structure StageHeld (cat : Catalog V) (write : StagedTableWrite V) (quiet : Prop) : Prop where
  base : write.baseSnapshotId ≤ cat.head
  planned : write.Planned (cat.storage write.tableId) cat.nextFileId (cat.head + 1)
  appends : write.inlinedFlush = true → write.mode = .append
  moved : write.inlinedFlush = true → quiet → ∀ ref ∈ write.inlinedDeletes,
    ∃ r ∈ (cat.storage write.tableId).inlinedRows, r.table = ref.table ∧ r.rowId = ref.rowId ∧
      r.visibleAt write.baseSnapshotId = true

/-- What can be planned from a catalog. A transaction of several tables is planned
    table by table: it extends one planned before. -/
def Plans (cat : Catalog V) (pending : List (Transaction V)) : Transaction V → Prop
  | .staged [] _ => False
  | .staged (write :: writes) _ => StageHeld cat write True ∧
      (writes = [] ∨ ∃ expected, .staged writes expected ∈ pending)
  | .compaction tableId base sources outputs retirement => base ≤ cat.head ∧
      CompactionPlan (· ∈ files (cat.storage tableId) base) base sources outputs retirement
  | .flush _ [] => False
  | .flush base (table :: tables) => base ≤ cat.head ∧ FlushPlan (cat.storage table.tableId) base table ∧
      (tables = [] ∨ .flush base tables ∈ pending)
  | .truncate _ base => base ≤ cat.head

/-- The lake. -/
def lake (V : Type) : System (Catalog V) (Transaction V) where
  plans := Plans
  commits cat p cat' := p.commit cat = .ok cat'

/-! ## What a commit leaves in place -/

/-- What every commit does to the catalog. -/
structure Evolves (cat cat' : Catalog V) : Prop where
  head : cat.head ≤ cat'.head
  ledger : ∃ more, cat'.changes = cat.changes ++ more ∧ ∀ row ∈ more, cat.head < row.snapshotId
  tables : ∀ t, (cat.tableTx t).Evolves (cat.head + 1) (cat'.tableTx t)
  /-- A commit that names no change of inlined rows only adds to them. -/
  inlined : ∀ t, Quiet t (cat'.changesAfter cat.head) → ∃ new, (cat'.storage t).inlinedRows =
    (cat.storage t).inlinedRows ++ new ∧ ∀ r ∈ new, cat.head < r.beginSnapshot

/-- What a planned transaction relies on. -/
def Held (cat : Catalog V) : Transaction V → Prop
  | .staged writes _ => ∀ write ∈ writes,
      StageHeld cat write (Quiet write.tableId (cat.changesAfter write.baseSnapshotId))
  | .compaction tableId base sources outputs retirement => base ≤ cat.head ∧
      CompactionPlan (TableFile.Held · (cat.storage tableId) cat.nextFileId base) base sources outputs retirement
  | .flush base tables => base ≤ cat.head ∧ ∀ table ∈ tables, FlushHeld table (cat.storage table.tableId)
      cat.nextFileId base cat.head (Quiet table.tableId (cat.changesAfter base))
  | .truncate _ base => base ≤ cat.head

variable {tokens : List Change} {p : Transaction V} {base : Nat}

theorem held_of_plans {pending : List (Transaction V)} (hinv : cat.Inv)
    (hpending : ∀ q ∈ pending, Held cat q) (hp : Plans cat pending p) : Held cat p := by
  cases p with
  | staged writes expected =>
    cases writes with
    | nil => cases hp
    | cons write writes =>
      obtain ⟨hstage, hrest⟩ := hp
      refine List.forall_mem_cons.mpr ⟨⟨hstage.base, hstage.planned, hstage.appends,
        fun hf _ => hstage.moved hf trivial⟩, ?_⟩
      rcases hrest with rfl | ⟨expected, hmem⟩
      · simp
      · exact hpending _ hmem
  | compaction tableId base sources outputs retirement =>
    exact ⟨hp.1, hp.2.mono fun tf htf => TableFile.held_of_mem_files (hinv.valid tableId) htf⟩
  | flush base tables =>
    cases tables with
    | nil => cases hp
    | cons table tables =>
      obtain ⟨hbase, hplan, hrest⟩ := hp
      refine ⟨hbase, List.forall_mem_cons.mpr ⟨flushHeld_of_plan (hinv.valid _) hbase hplan _, ?_⟩⟩
      rcases hrest with rfl | hmem
      · simp
      · exact (hpending _ hmem).2
  | truncate tableId base => exact hp

/-! ## Promises survive other commits -/

theorem changesAfter_head (hinv : cat.Inv) : cat.changesAfter cat.head = [] := by
  unfold Catalog.changesAfter
  rw [List.filter_eq_nil_iff.mpr, List.flatMap_nil]
  intro row hr
  simpa using hinv.ledger row hr

theorem Evolves.changesAfter_eq (hev : Evolves cat cat') (hinv : cat.Inv) (hb : base ≤ cat.head) :
    cat'.changesAfter base = cat.changesAfter base ++ cat'.changesAfter cat.head := by
  obtain ⟨more, hmore, hnew⟩ := hev.ledger
  have hnil := changesAfter_head hinv
  unfold Catalog.changesAfter at hnil ⊢
  rw [hmore, List.filter_append, List.flatMap_append, List.filter_append, List.flatMap_append, hnil, List.nil_append]
  congr 2
  refine List.filter_congr fun row hr => ?_
  have := hnew row hr
  simp [this, hb.trans_lt this]

theorem Quiet.of_append {l₁ l₂ : List Change} (h : Quiet t (l₁ ++ l₂)) : Quiet t l₁ ∧ Quiet t l₂ :=
  ⟨fun kind hk hm => h kind hk (List.mem_append_left _ hm), fun kind hk hm => h kind hk (List.mem_append_right _ hm)⟩

theorem StageHeld.evolves {write : StagedTableWrite V} (hinv : cat.Inv) (hev : Evolves cat cat')
    (held : StageHeld cat write (Quiet write.tableId (cat.changesAfter write.baseSnapshotId))) :
    StageHeld cat' write (Quiet write.tableId (cat'.changesAfter write.baseSnapshotId)) where
  base := held.base.trans hev.head
  planned := held.planned.evolves (hev.tables write.tableId) (Nat.succ_le_succ hev.head)
  appends := held.appends
  moved hf hq ref href := by
    rw [hev.changesAfter_eq hinv held.base] at hq
    obtain ⟨hq, hq'⟩ := hq.of_append
    obtain ⟨r, hr, hrest⟩ := held.moved hf hq ref href
    obtain ⟨new, heq, -⟩ := hev.inlined _ hq'
    exact ⟨r, heq ▸ List.mem_append_left _ hr, hrest⟩

theorem FlushHeld.evolves {table : InlinedFlushTable V} (hinv : cat.Inv) (hinv' : cat'.Inv)
    (hev : Evolves cat cat') (hb : base ≤ cat.head)
    (held : FlushHeld table (cat.storage table.tableId) cat.nextFileId base cat.head
      (Quiet table.tableId (cat.changesAfter base))) :
    FlushHeld table (cat'.storage table.tableId) cat'.nextFileId base cat'.head
      (Quiet table.tableId (cat'.changesAfter base)) where
  nodup := held.nodup
  fileDeletes entry he := (held.fileDeletes entry he).evolves (hinv.valid _) (hinv'.valid _)
    (hev.tables table.tableId) (Nat.lt_succ_of_le hb) hev.head
  files := by
    obtain ⟨groups, hfiles, hperm⟩ := held.files
    refine ⟨groups, hfiles, fun hq => ?_⟩
    rw [hev.changesAfter_eq hinv hb] at hq
    obtain ⟨hq, hq'⟩ := hq.of_append
    obtain ⟨new, heq, hnew⟩ := hev.inlined _ hq'
    -- rows added since are younger than the base
    have hnone : new.filter (fun r => table.inlinedTables.contains r.table && decide (r.beginSnapshot ≤ base)) = [] :=
      List.filter_eq_nil_iff.mpr fun r hr => by
        have := hnew r hr
        simp [show ¬ r.beginSnapshot ≤ base by omega]
    unfold writtenUpTo at hperm ⊢
    rw [heq, List.filter_append, hnone, List.append_nil]
    exact hperm hq
  noFiles := held.noFiles

theorem Held.evolves (hinv : cat.Inv) (hinv' : cat'.Inv) (hev : Evolves cat cat')
    (held : Held cat p) : Held cat' p := by
  cases p with
  | staged writes expected => exact fun write hw => (held write hw).evolves hinv hev
  | compaction tableId base sources outputs retirement =>
    refine ⟨held.1.trans hev.head, held.2.mono fun tf htf => ?_⟩
    exact htf.evolves (hinv.valid tableId) (hinv'.valid tableId) (hev.tables tableId) (Nat.lt_succ_of_le held.1)
  | flush base tables =>
    exact ⟨held.1.trans hev.head, fun table ht => FlushHeld.evolves hinv hinv' hev held.1 (held.2 table ht)⟩
  | truncate tableId base => exact Nat.le_trans held hev.head

/-! ## Every commit keeps the invariant -/

/-- What a commit with the given tokens did to one table. -/
structure TableOutcome (cat : Catalog V) (tokens : List Change) (cat' : Catalog V) (t : Nat) : Prop where
  valid : (cat'.storage t).Valid (cat.head + 1) cat'.nextFileId
  evolves : (cat.tableTx t).Evolves (cat.head + 1) (cat'.tableTx t)
  inlined : Quiet t tokens → ExtendsInlined (cat.head + 1) (cat.storage t) (cat'.storage t)

theorem TableOutcome.of_apart (hinv : cat.Inv) (happ : Catalog.Apart t cat cat') :
    TableOutcome cat tokens cat' t := by
  have e := happ.effect ((hinv.valid t).mono (Nat.le_succ _) le_rfl)
  exact ⟨e.valid, e.evolves, fun _ => e.inlined fun _ _ => rfl⟩

theorem TableOutcome.of_effect {del : Location → Bool} {ins : List (ScanRow V)}
    (e : Effect (cat.head + 1) del ins (cat.tableTx t) (cat'.tableTx t))
    (hquiet : Quiet t tokens → ∀ r ∈ (cat.storage t).liveInlined, del r.toScanRow.location = false) :
    TableOutcome cat tokens cat' t :=
  ⟨e.valid, e.evolves, fun hq => e.inlined (hquiet hq)⟩

/-- What a commit that inserts a snapshot did. -/
structure Outcome (cat : Catalog V) (tokens : List Change) (cat' : Catalog V) : Prop where
  committed : cat.Committed tokens cat'
  tables : ∀ t, TableOutcome cat tokens cat' t

theorem Outcome.changesAfter_head (h : Outcome cat tokens cat') (hinv : cat.Inv) :
    cat'.changesAfter cat.head = tokens := by
  rw [h.committed.changesAfter_eq le_rfl, Lake.changesAfter_head hinv, List.nil_append]

theorem Outcome.inv (h : Outcome cat tokens cat') (hinv : cat.Inv) : cat'.Inv :=
  ⟨fun t => h.committed.head_eq ▸ (h.tables t).valid, h.committed.ledger hinv⟩

theorem Outcome.evolves (h : Outcome cat tokens cat') (hinv : cat.Inv) : Evolves cat cat' where
  head := h.committed.head_eq ▸ Nat.le_succ _
  ledger := ⟨_, h.committed.changes, by simp⟩
  tables t := (h.tables t).evolves
  inlined t hq := by
    rw [h.changesAfter_head hinv] at hq
    obtain ⟨new, heq, hnew⟩ := (h.tables t).inlined hq
    exact ⟨new, heq, fun r hr => (hnew r hr).ge⟩

theorem outcome_of_multiTable {writes : List (StagedTableWrite V)} {expected : Option Nat} {c : Nat} (hinv : cat.Inv)
    (h : MultiTableCommitted cat writes expected c cat') :
    Outcome cat (writes.flatMap fun write => stageTokens (cat.storage write.tableId) write) cat' := by
  obtain rfl := h.snapshot
  refine ⟨h.committed, fun t => ?_⟩
  by_cases ht : t ∈ writes.map (·.tableId)
  · obtain ⟨write, hw, rfl⟩ := List.mem_map.mp ht
    obtain ⟨n', ins, -, e, -⟩ := (h.stages write hw).effect
    refine .of_effect e fun hq r hr => ?_
    rw [Bool.eq_false_iff]
    intro hd
    rcases stageTokens_of_inlined (hinv.valid _) hr hd with htok | htok
    · exact hq _ (by simp) (List.mem_flatMap.mpr ⟨write, hw, htok⟩)
    · exact hq _ (by simp) (List.mem_flatMap.mpr ⟨write, hw, htok⟩)
  · exact .of_apart hinv (h.apart t ht)

theorem outcome_of_flush {base c : Nat} {tables : List (InlinedFlushTable V)} (hinv : cat.Inv)
    (h : FlushCommitted cat base tables c cat') : Outcome cat (inlinedFlushChanges tables) cat' := by
  obtain rfl := h.snapshot
  refine ⟨h.committed, fun t => ?_⟩
  by_cases ht : t ∈ tables.map (·.tableId)
  · obtain ⟨table, htable, rfl⟩ := List.mem_map.mp ht
    have hflushed := h.flushed table htable
    refine ⟨hflushed.valid, hflushed.evolves, fun hq => .of_eq (hflushed.inlinedRows ?_)⟩
    by_contra hfiles
    refine hq .inlineFlush (by simp) (List.mem_append_right _ (List.mem_map.mpr ⟨table, ?_, rfl⟩))
    exact List.mem_filter.mpr ⟨mem_orderedTables.mpr htable, by simpa using hfiles⟩
  · exact .of_apart hinv (h.apart t ht)

theorem outcome_of_compaction {tableId base c : Nat} {sources : List CompactionSourceFile}
    {outputs : List (CompactionOutputFile V)} {retirement : SourceRetirement} (hinv : cat.Inv)
    (hbase : base ≤ cat.head)
    (hplan : CompactionPlan (TableFile.Held · (cat.storage tableId) cat.nextFileId base) base sources outputs
      retirement)
    (h : commitCompaction tableId base sources outputs retirement cat = .ok (c, cat')) :
    Outcome cat [⟨compactionChange retirement, tableId⟩] cat' := by
  obtain ⟨hspec, hN⟩ := commitCompaction_spec hinv h
  obtain rfl := hspec.snapshot
  obtain ⟨ins, e, -⟩ := hspec.effect hinv hN (hplan.carried (hbase.trans (Nat.le_succ _)))
  refine ⟨hspec.committed, fun t => ?_⟩
  by_cases ht : t = tableId
  · subst ht
    exact .of_effect e fun _ r _ => rfl
  · exact .of_apart hinv (hspec.apart t ht)

theorem truncateTokens_of_inlined {T : TableStorage V} {h N : Nat} (hv : T.Valid h N) {r : InlinedRow V}
    (hr : r ∈ T.liveInlined) : ⟨.inlinedDelete, t⟩ ∈ truncateTokens t T := by
  unfold truncateTokens
  rw [hasLiveInlined_of_mem hv hr]
  simp

theorem outcome_of_truncate {tableId : Nat} (hinv : cat.Inv)
    (hcom : cat.Committed (truncateTokens tableId (cat.storage tableId)) cat')
    (e : Effect (cat.head + 1) (fun _ => true) [] (cat.tableTx tableId) (cat'.tableTx tableId))
    (happ : ∀ t ≠ tableId, Catalog.Apart t cat cat') :
    Outcome cat (truncateTokens tableId (cat.storage tableId)) cat' := by
  refine ⟨hcom, fun t => ?_⟩
  by_cases ht : t = tableId
  · subst ht
    exact .of_effect e fun hq r hr => absurd (truncateTokens_of_inlined (hinv.valid t) hr) (hq _ (by simp))
  · exact .of_apart hinv (happ t ht)

theorem Evolves.refl (cat : Catalog V) : Evolves cat cat where
  head := le_rfl
  ledger := ⟨[], by simp, by simp⟩
  tables t := .refl _ _
  inlined _ _ := ⟨[], by simp, by simp⟩

theorem multiTable_of_commit {writes : List (StagedTableWrite V)} {expected : Option Nat} (hinv : cat.Inv)
    (held : Held cat (.staged writes expected)) (h : (Transaction.staged writes expected).commit cat = .ok cat') :
    MultiTableCommitted cat writes expected (cat.head + 1) cat' := by
  obtain ⟨⟨c, next⟩, hok, rfl⟩ := map_eq_ok.mp h
  have hspec := commitMultiTable_spec hinv (fun write hw => (held write hw).planned) hok
  exact hspec.snapshot ▸ hspec

theorem flush_of_commit {tables : List (InlinedFlushTable V)} (hinv : cat.Inv)
    (held : Held cat (.flush base tables)) (h : (Transaction.flush base tables).commit cat = .ok cat') :
    FlushCommitted cat base tables (cat.head + 1) cat' := by
  obtain ⟨⟨c, next⟩, hok, rfl⟩ := map_eq_ok.mp h
  have hspec := commitInlinedFlush_spec (fun t => Quiet t (cat.changesAfter base)) hinv held.1 held.2
    (fun t hun kind hk hm => by
      simp only [List.mem_cons, List.not_mem_nil, or_false] at hk
      rcases hk with rfl | rfl | rfl
      · exact hun ([.inlinedDelete], "deleted from it") (by simp [flushRules]) _ (by simp) hm
      · exact hun ([.flushedInlined, .inlineFlush], "flushed it") (by simp [flushRules]) _ (by simp) hm
      · exact hun ([.flushedInlined, .inlineFlush], "flushed it") (by simp [flushRules]) _ (by simp) hm) hok
  exact hspec.snapshot ▸ hspec

/-- Every commit leaves a well-formed catalog, which evolved. -/
theorem commit_outcome (hinv : cat.Inv) (held : Held cat p) (h : p.commit cat = .ok cat') :
    cat' = cat ∨ ∃ tokens, Outcome cat tokens cat' := by
  cases p with
  | staged writes expected => exact .inr ⟨_, outcome_of_multiTable hinv (multiTable_of_commit hinv held h)⟩
  | compaction tableId base sources outputs retirement =>
    obtain ⟨⟨c, next⟩, hok, rfl⟩ := map_eq_ok.mp h
    exact .inr ⟨_, outcome_of_compaction hinv held.1 held.2 hok⟩
  | flush base tables => exact .inr ⟨_, outcome_of_flush hinv (flush_of_commit hinv held h)⟩
  | truncate tableId base =>
    rcases commitTruncate_spec hinv h with ⟨-, -, rfl⟩ | ⟨-, hcom, e, happ⟩
    · exact .inl rfl
    · exact .inr ⟨_, outcome_of_truncate hinv hcom e happ⟩

/-- The lake's transactions keep their promises in every interleaving. -/
def lakeDiscipline (V : Type) : Discipline (lake V) where
  inv := Catalog.Inv
  ok := Held
  evolves := Evolves
  planned_ok := held_of_plans
  commit_inv := fun hinv held h => by
    rcases commit_outcome hinv held h with rfl | ⟨tokens, hout⟩
    · exact hinv
    · exact hout.inv hinv
  commit_evolves := fun hinv held h => by
    rcases commit_outcome hinv held h with rfl | ⟨tokens, hout⟩
    · exact .refl _
    · exact hout.evolves hinv
  ok_stable := Held.evolves

end DuckLake.Lake
