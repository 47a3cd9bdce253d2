import DuckLake.Plan.Flush

/- The commit of a planned flush leaves the rows of the table as they were. The rows
   of the flushed files are the live inlined rows that were copied; a new delete file
   holds the positions that were deleted already; and what is removed from the catalog
   was moved to one or the other. -/

namespace DuckLake.Plan

open Metadata Versioned Checked Earliest

variable {V : Type} {T : TableStorage V} {tx tx' : TableTx V} {base c h N : Nat}

/-- What identifies a row for a reader: its row id and value. -/
def inlinedPair (r : InlinedRow V) : Option Nat × V := (some r.rowId, r.value)

/-! ## A flushed file -/

section Flushed

variable {rows : List (InlinedRow V)} {out : InlinedFlushFile V}

/-- What `flushedFile` writes. -/
structure FlushedFile (rows : List (InlinedRow V)) (out : InlinedFlushFile V) : Prop where
  rows_eq : out.file.rows = rows.map flushedRow
  begin_mem : ∃ r ∈ rows, out.beginSnapshot = r.beginSnapshot
  partialMax_mem : ∃ r ∈ rows, out.partialMax = r.beginSnapshot
  range : ∀ r ∈ rows, out.beginSnapshot ≤ r.beginSnapshot ∧ r.beginSnapshot ≤ out.partialMax
  delete : ∃ object, out.delete = flushedDelete rows out.beginSnapshot object

theorem IsFlushed.spec (hout : IsFlushed rows out) : FlushedFile rows out := by
  obtain ⟨file, delete, hout⟩ := hout
  simp only [flushedFile, Option.bind_eq_bind, Option.bind_eq_some_iff, Option.pure_def, Option.some.injEq] at hout
  obtain ⟨b, hb, m, hm, i, -, rfl⟩ := hout
  obtain ⟨hbmem, hble⟩ := List.min?_eq_some_iff.mp hb
  obtain ⟨hmmem, hmle⟩ := List.max?_eq_some_iff.mp hm
  obtain ⟨rb, hrb, rfl⟩ := List.mem_map.mp hbmem
  obtain ⟨rm, hrm, rfl⟩ := List.mem_map.mp hmmem
  exact ⟨rfl, ⟨rb, hrb, rfl⟩, ⟨rm, hrm, rfl⟩,
    fun r hr => ⟨hble _ (List.mem_map_of_mem hr), hmle _ (List.mem_map_of_mem hr)⟩, delete, rfl⟩

theorem mem_rowDeletions {x : Nat × Nat} :
    x ∈ rowDeletions rows ↔ ∃ r, rows[x.1]? = some r ∧ r.endSnapshot = some x.2 := by
  obtain ⟨p, e⟩ := x
  simp only [rowDeletions, List.mem_filterMap, Prod.exists, Option.map_eq_some_iff, Prod.mk.injEq,
    List.mk_mem_zipIdx_iff_getElem?]
  constructor
  · rintro ⟨r, q, hr, e', he, rfl, rfl⟩
    exact ⟨r, hr, he⟩
  · rintro ⟨r, hr, he⟩
    exact ⟨r, p, hr, e, he, rfl, rfl⟩

theorem noted_rowDeletions {p : Nat} {r : InlinedRow V} (hr : rows[p]? = some r) :
    noted (rowDeletions rows) p = !r.live := by
  rw [Bool.eq_iff_iff, noted_iff]
  constructor
  · rintro ⟨x, hx, rfl⟩
    obtain ⟨r', hr', he⟩ := mem_rowDeletions.mp hx
    obtain rfl := Option.some.inj (hr.symm.trans hr')
    simp [Lifetime.live, he]
  · intro hl
    cases he : r.endSnapshot with
    | none => simp [Lifetime.live, he] at hl
    | some e => exact ⟨(p, e), mem_rowDeletions.mpr ⟨r, hr, he⟩, rfl⟩

theorem read_flushed {f : DataFile V} (hf : f.rows = rows.map flushedRow) :
    (f.read fun p _ => !noted (rowDeletions rows) p).map (fun r => (r.rowId, r.value)) =
      (rows.filter (·.live)).map inlinedPair := by
  unfold DataFile.read
  rw [List.map_map, hf, List.zipIdx_map, List.filter_map, List.map_map]
  have hlive : (rows.zipIdx.filter ((fun x : FileRow V × Nat => !noted (rowDeletions rows) x.2) ∘
      Prod.map flushedRow id)) = rows.zipIdx.filter fun x => x.1.live := by
    refine List.filter_congr fun ⟨r, p⟩ hx => ?_
    simp [noted_rowDeletions (List.mk_mem_zipIdx_iff_getElem?.mp hx)]
  rw [hlive]
  conv_rhs => rw [← List.zipIdx_map_fst 0 rows, List.filter_map, List.map_map]
  rfl

/-- The row of a flushed file. -/
abbrev flushedDataFile (out : InlinedFlushFile V) (id : Nat) : DataFile V :=
  out.file.toDataFile out.beginSnapshot id (carriedRowIdStart out.file) (some out.partialMax)

theorem FlushedFile.carried (hout : FlushedFile rows out)
    (hrows : ∀ r ∈ rows, r.toLifetime.Bounded c ∧ r.rowId < tx.storage.nextRowId) :
    out.file.Carried out.beginSnapshot (some out.partialMax) tx.storage.nextRowId c := by
  obtain ⟨rb, hrb, hb⟩ := hout.begin_mem
  obtain ⟨rm, hrm, hm⟩ := hout.partialMax_mem
  refine ⟨hb ▸ (hrows rb hrb).1.born, fun m hm' => ?_, ?_, ?_⟩
  · exact Option.some.inj hm' ▸ hm ▸ (hrows rm hrm).1.born
  · rw [hout.rows_eq]
    intro row hrow o ho
    obtain ⟨r, hr, rfl⟩ := List.mem_map.mp hrow
    exact Option.some.inj ho ▸ hout.range r hr
  · have hsome : ∀ row ∈ out.file.rows, row.rowId.isSome = true := by
      rw [hout.rows_eq]
      intro row hrow
      obtain ⟨r, -, rfl⟩ := List.mem_map.mp hrow
      rfl
    rw [DataFileInfo.carriedRows_eq (.inr hsome), hout.rows_eq, List.map_map]
    intro x hx i hi
    obtain ⟨r, hr, rfl⟩ := List.mem_map.mp hx
    exact Option.some.inj hi ▸ (hrows r hr).2

theorem addFlushedFile_effect (hv : tx.Valid c) (hout : FlushedFile rows out)
    (hrows : ∀ r ∈ rows, r.toLifetime.Bounded c ∧ r.rowId < tx.storage.nextRowId) :
    Effect c (fun _ => false)
      ((flushedDataFile out tx.nextFileId).read fun p _ => !noted (rowDeletions rows) p) tx
      (tx.addFlushedFile out) := by
  have hcarried := hout.carried hrows
  have efile : Effect c (fun _ => false) ((flushedDataFile out tx.nextFileId).read fun _ _ => true) tx
      (tx.addDataFile out.beginSnapshot (some out.partialMax) out.file) :=
    Effect.addDataFile hv rfl rfl rfl rfl ⟨hcarried.begins, by simp [DataFileInfo.toDataFile]⟩ hcarried.reach
      hcarried.origins le_rfl fun x hx i hi => hcarried.issued _ (List.mem_map_of_mem hx) i hi
  obtain ⟨object, hdelete⟩ := hout.delete
  unfold TableTx.addFlushedFile
  by_cases hnone : (rowDeletions rows).isEmpty = true
  · rw [hdelete]
    simp only [flushedDelete, hnone, if_true]
    rw [List.isEmpty_iff.mp hnone]
    exact efile
  · rw [hdelete]
    simp only [flushedDelete, hnone, if_false, Bool.false_eq_true]
    have hends : ∀ x ∈ rowDeletions rows, x.2 ≤ c := fun x hx => by
      obtain ⟨r, hr, he⟩ := mem_rowDeletions.mp hx
      exact (hrows r (List.mem_of_getElem? hr)).1.ended _ he
    -- the delete file is the only one of the new data file
    have hset : SetsDelete c tx.nextFileId
        (DeleteFileInfo.toDeleteFile ⟨object.path, object.pathIsRelative, datedEntries (rowDeletions rows), none⟩
          ⟨(first (rowDeletions rows)).getD out.beginSnapshot, none⟩ (tx.nextFileId + 1) tx.nextFileId none)
        tx.storage.deleteFiles (tx.addDataFile out.beginSnapshot (some out.partialMax) out.file)
        ((tx.addDataFile out.beginSnapshot (some out.partialMax) out.file).addDeleteFile
          ⟨(first (rowDeletions rows)).getD out.beginSnapshot, none⟩ tx.nextFileId
          ⟨object.path, object.pathIsRelative, datedEntries (rowDeletions rows), none⟩ none) :=
      ⟨rfl, rfl, .refl .., rfl, rfl, fun _ d hd hdi => absurd hdi (hv.deleteBelow d hd).2.ne⟩
    have hbegin : (first (rowDeletions rows)).getD out.beginSnapshot ≤ c := by
      cases hfirst : first (rowDeletions rows) with
      | none => exact hcarried.begins
      | some b =>
        obtain ⟨k, hk⟩ := first_mem hfirst
        exact hends _ hk
    have hdated : ∀ e ∈ datedEntries (rowDeletions rows), ∀ σ, e.snapshot = some σ → σ ≤ c := by
      intro e he σ hσ
      obtain ⟨x, hx, rfl⟩ := List.mem_map.mp he
      exact Option.some.inj hσ ▸ hends x hx
    have edelete : Effect c (Location.inEntries tx.nextFileId (datedEntries (rowDeletions rows))) [] _ _ :=
      Effect.setDelete hset efile.valid (Nat.lt_succ_self _) ⟨hbegin, by simp [DeleteFileInfo.toDeleteFile]⟩ rfl
        hdated (fun d hd hdi => absurd hdi (hv.deleteBelow d hd).2.ne) (fun _ _ => rfl) (fun _ _ _ => rfl)
    refine (efile.andThen edelete ?_).congr ?_ (List.Perm.of_eq ?_)
    · intro r hr hinlined
      obtain ⟨row, p, -, -, rfl⟩ := DataFile.mem_read.mp hr
      cases hinlined
    · intro r hr
      rw [Bool.false_or]
      rcases TableStorage.mem_current.mp hr with ⟨f, hf, hr⟩ | ⟨x, -, rfl⟩
      · obtain ⟨p, hp, -⟩ := TableStorage.location_of_mem_present hr
        have hne : tx.nextFileId ≠ f.id := (hv.dataBelow f (TableStorage.mem_liveFiles.mp hf).1).ne'
        rw [hp]
        simp [Location.inEntries, hne]
      · rfl
    · rw [List.append_nil, ← DataFile.read_and _ fun loc => !loc.inEntries tx.nextFileId _]
      refine DataFile.read_congr fun x _ => ?_
      simp [Location.inEntries, DataFileInfo.toDataFile, datedEntries_any]

/-- A flushed file brings the live rows it was written from. -/
theorem addFlushedFile_inserts (hv : tx.Valid c) (hout : FlushedFile rows out)
    (hrows : ∀ r ∈ rows, r.toLifetime.Bounded c ∧ r.rowId < tx.storage.nextRowId) :
    Inserts c ((rows.filter (·.live)).map inlinedPair) tx (tx.addFlushedFile out) := by
  refine ⟨_, addFlushedFile_effect hv hout hrows, read_flushed hout.rows_eq, ?_⟩
  intro r hr
  obtain ⟨row, p, -, -, rfl⟩ := DataFile.mem_read.mp hr
  exact le_rfl

theorem addFlushedFiles_inserts {groups : List (List (InlinedRow V))} {files : List (InlinedFlushFile V)}
    (hfiles : List.Forall₂ IsFlushed groups files) (hv : tx.Valid c)
    (hrows : ∀ r ∈ groups.flatten, r.toLifetime.Bounded c ∧ r.rowId < tx.storage.nextRowId) :
    Inserts c ((groups.flatten.filter (·.live)).map inlinedPair) tx (files.foldl TableTx.addFlushedFile tx) := by
  induction hfiles generalizing tx with
  | nil => exact .refl hv
  | @cons rows out groups files hout _ ih =>
    rw [List.flatten_cons] at hrows ⊢
    rw [List.filter_append, List.map_append]
    have h₁ := addFlushedFile_inserts hv hout.spec fun r hr => hrows r (List.mem_append_left _ hr)
    refine h₁.trans (ih h₁.valid fun r hr => ⟨(hrows r (List.mem_append_right _ hr)).1, ?_⟩)
    obtain ⟨_, e, -⟩ := h₁
    exact (hrows r (List.mem_append_right _ hr)).2.trans_le e.evolves.nextRow

end Flushed

/-! ## Merged delete files -/

section Merged

variable {entry : InlinedFlushFileDelete} {entries : List InlinedFlushFileDelete} {conflict : DuckLakeError}

/-- The new delete file of a live data file holds every deletion recorded up to the base. -/
def Covers (base : Nat) (T : TableStorage V) (N dataFileId : Nat) : Prop :=
  ∃ d ∈ T.deleteFiles, d.dataFileId = dataFileId ∧ d.live = true ∧ N ≤ d.id ∧
    ∀ x ∈ T.inlinedDeletes, x.fileId = dataFileId → x.beginSnapshot ≤ base → d.holds x.position = true

/-- A merged delete file takes no row away, and a live data file's holds what the
    catalog recorded for it. -/
theorem replaceDeleteFile_flush (hv : tx.Valid c)
    (held : Flushable entry tx.storage tx.nextFileId base c) (hok : replaceDeleteFile conflict tx entry = .ok tx') :
    Effect c (fun _ => false) [] tx tx' ∧
      (∃ new rest, SetsDelete c entry.dataFileId new rest tx tx') ∧
      (tx.storage.dataFileLive entry.dataFileId = true → Covers base tx'.storage tx.nextFileId entry.dataFileId) := by
  obtain ⟨hdata, hprev, rest, hset⟩ := replaceDeleteFile_sets hv hok
  have hlife : (entry.toDeleteFile tx.nextFileId).toLifetime.Bounded c := ⟨held.begins, held.ends⟩
  cases hend : entry.dataFileEnd with
  | some e =>
    rw [hend] at hdata
    have hdead := hv.dataFileLive_of_end_some hdata
    exact ⟨Effect.setDelete_of_ended hset hv held.below hlife hdead held.dated, ⟨_, _, hset⟩,
      fun hl => by rw [hdead] at hl; cases hl⟩
  | none =>
    rw [hend] at hdata hprev
    obtain ⟨hopen, tf, htf, hid, hexp, hmasks⟩ := held.live hend
    have hlive := TableStorage.dataFileLive_of_end hdata
    rw [Option.isSome_none, hv.latestDeleteFile_eq hlive, hexp, hid] at hprev
    rw [hid] at hlive
    have hholds : ∀ p, (entry.toDeleteFile tx.nextFileId).holds p = tf.masks p := hmasks
    have hnew : (entry.toDeleteFile tx.nextFileId).live = true := Lifetime.live_iff.mpr hopen
    have e : Effect c (Location.inEntries entry.dataFileId entry.delete.delete.entries) [] tx tx' :=
      Effect.setDelete hset hv held.below hlife hnew held.dated
        (fun d hd hdi hl p hp => by
          rw [hholds]
          exact htf.masks_of_holds hv hlive hprev hd (hdi.trans hid) hl hp)
        (fun _ _ => rfl) (fun _ _ _ => rfl)
    refine ⟨e.congr (fun r hr => ?_) (List.Perm.refl _), ⟨_, _, hset⟩, fun _ => ?_⟩
    · -- the positions it holds were deleted already
      rcases TableStorage.mem_current.mp hr with ⟨f, -, hr⟩ | ⟨x, -, rfl⟩
      · obtain ⟨p, hp, hgone⟩ := TableStorage.location_of_mem_present hr
        rw [hp, Location.inEntries, Bool.and_eq_false_iff, or_iff_not_imp_left, Bool.not_eq_false, beq_iff_eq]
        intro hf
        rw [Bool.eq_false_iff]
        intro hany
        rw [hmasks] at hany
        have hgone' := htf.gone_of_masks hlive hprev hany
        rw [← hid, hf, hgone] at hgone'
        cases hgone'
      · rfl
    · refine ⟨entry.toDeleteFile tx.nextFileId, by simp [hset.storage], rfl, hnew, le_rfl, ?_⟩
      intro x hx hi hb
      rw [hset.storage] at hx
      rw [hholds]
      exact htf.masks_of_recorded hx (hi.trans hid) hb

theorem Covers.sets {new : DeleteFile} {rest : List DeleteFile} {i j : Nat} (hcov : Covers base tx.storage N i)
    (hset : SetsDelete c j new rest tx tx') (hne : i ≠ j) : Covers base tx'.storage N i := by
  obtain ⟨d, hd, hdi, hl, hN, hx⟩ := hcov
  rw [hset.storage]
  exact ⟨d, List.mem_append_left _ (hset.trims.others d hd (hdi ▸ hne)), hdi, hl, hN, hx⟩

/-- The delete files of the data files `ids` were replaced: no row went. -/
structure Replaced (c base : Nat) (ids : List Nat) (tx tx' : TableTx V) : Prop where
  effect : Effect c (fun _ => false) [] tx tx'
  dataFiles : tx'.storage.dataFiles = tx.storage.dataFiles
  inlinedRows : tx'.storage.inlinedRows = tx.storage.inlinedRows
  inlinedDeletes : tx'.storage.inlinedDeletes = tx.storage.inlinedDeletes
  covers : ∀ i ∈ ids, tx.storage.dataFileLive i = true → Covers base tx'.storage tx.nextFileId i
  kept : ∀ i ∉ ids, ∀ N, Covers base tx.storage N i → Covers base tx'.storage N i

theorem replaceDeleteFiles_flush (hv : tx.Valid c) (hc : base < c)
    (hnodup : (entries.map (·.dataFileId)).Nodup)
    (held : ∀ entry ∈ entries, Flushable entry tx.storage tx.nextFileId base c)
    (hok : replaceDeleteFiles conflict tx entries = .ok tx') :
    Replaced c base (entries.map (·.dataFileId)) tx tx' := by
  unfold replaceDeleteFiles at hok
  induction entries generalizing tx with
  | nil =>
    obtain rfl : tx = tx' := by simpa [pure, Except.pure] using hok
    exact ⟨.refl hv, rfl, rfl, rfl, by simp, fun _ _ _ h => h⟩
  | cons entry entries ih =>
    rw [List.foldlM_cons, bind_eq_ok] at hok
    obtain ⟨tx₁, h₁, h₂⟩ := hok
    rw [List.map_cons, List.nodup_cons] at hnodup
    have hentry := held entry (List.mem_cons_self ..)
    obtain ⟨e₁, ⟨new, rest, hset⟩, hcov⟩ := replaceDeleteFile_flush hv hentry h₁
    have hrest := ih e₁.valid hnodup.2
      (fun entry he => (held entry (List.mem_cons_of_mem _ he)).evolves hv e₁.valid e₁.evolves hc le_rfl) h₂
    have hstorage := hset.storage
    refine ⟨by simpa using e₁.trans hrest.effect (by simp), ?_, ?_, ?_, ?_, ?_⟩
    · rw [hrest.dataFiles, hstorage]
    · rw [hrest.inlinedRows, hstorage]
    · rw [hrest.inlinedDeletes, hstorage]
    · intro i hi hl
      rcases List.mem_cons.mp hi with rfl | hi
      · exact hrest.kept _ hnodup.1 _ (hcov hl)
      · obtain ⟨d, hd, hdi, hld, hN, hx⟩ := hrest.covers i hi (by rwa [hstorage])
        exact ⟨d, hd, hdi, hld, e₁.evolves.nextFile.trans hN, hx⟩
    · intro i hi N hcov
      rw [List.map_cons, List.mem_cons, not_or] at hi
      exact hrest.kept i hi.2 N (hcov.sets hset hi.1)

end Merged

/-! ## The flush of a table -/

section Table

variable {table : InlinedFlushTable V} {ids : List Nat}

/-- Whether a flush of the table moves an inlined row. -/
def Location.flushed (base : Nat) (tables : List Nat) : Location → Bool
  | .file .. => false
  | .inlined t _ b => tables.contains t && decide (b ≤ base)

theorem removeFlushed_gone (hcovers : ∀ i ∈ table.fileDeletes.map (·.dataFileId), T.dataFileLive i = true →
    Covers base T N i) {f : DataFile V} (hf : f ∈ T.liveFiles) (p : Nat) :
    (T.removeFlushed base table).gone f.id p = T.gone f.id p := by
  rw [Bool.eq_iff_iff, TableStorage.gone_iff, TableStorage.gone_iff]
  constructor
  · rintro (hd | ⟨x, hx, hi, hp⟩)
    · exact .inl hd
    · exact .inr ⟨x, (List.mem_filter.mp hx).1, hi, hp⟩
  · rintro (hd | ⟨x, hx, hi, rfl⟩)
    · exact .inl hd
    · by_cases hmoved : f.id ∈ table.fileDeletes.map (·.dataFileId) ∧ x.beginSnapshot ≤ base
      · obtain ⟨d, hd, hdi, hl, -, hx'⟩ := hcovers f.id hmoved.1 (TableStorage.dataFileLive_of_mem hf)
        exact .inl ⟨d, hd, hdi, hl, hx' x hx hi hmoved.2⟩
      · refine .inr ⟨x, List.mem_filter.mpr ⟨hx, ?_⟩, hi, rfl⟩
        rw [Bool.not_eq_true', Bool.eq_false_iff, ne_eq, Bool.and_eq_true, List.contains_iff_mem, decide_eq_true_eq,
          hi]
        exact hmoved

theorem removeFlushed_current (hcovers : ∀ i ∈ table.fileDeletes.map (·.dataFileId), T.dataFileLive i = true →
    Covers base T N i) : (T.removeFlushed base table).current =
      T.current.filter fun r => !Location.flushed base table.inlinedTables r.location := by
  unfold TableStorage.current
  rw [List.filter_append, TableStorage.map_toScanRow_filter]
  congr 1
  · have hkept : (T.liveFiles.flatMap T.present).filter
        (fun r => !Location.flushed base table.inlinedTables r.location) = T.liveFiles.flatMap T.present :=
      List.filter_eq_self.mpr fun r hr => by
        obtain ⟨f, -, hr⟩ := List.mem_flatMap.mp hr
        obtain ⟨p, hp, -⟩ := TableStorage.location_of_mem_present hr
        simp [hp, Location.flushed]
    rw [hkept]
    exact List.flatMap_congr fun f hf => TableStorage.present_congr (removeFlushed_gone hcovers hf)
  · unfold TableStorage.liveInlined TableStorage.removeFlushed
    rw [List.filter_filter, List.filter_filter]
    congr 1
    exact List.filter_congr fun r _ => Bool.and_comm ..

theorem removeFlushed_valid (hv : T.Valid h N) : (T.removeFlushed base table).Valid h N :=
  { hv with
    inlinedLife := fun r hr => hv.inlinedLife r (List.mem_filter.mp hr).1
    registered := fun r hr => hv.registered r (List.mem_filter.mp hr).1
    inlinedDelete := fun x hx => hv.inlinedDelete x (List.mem_filter.mp hx).1
    rowIds := ⟨hv.rowIds.file, fun r hr => hv.rowIds.inlined r (List.mem_filter.mp hr).1⟩ }

/-- Removing what was moved keeps what earlier plans rely on: the live data files it
    touches got a new delete file. -/
theorem removeFlushed_evolves (hev : tx.Evolves c tx')
    (hcovers : ∀ i ∈ table.fileDeletes.map (·.dataFileId), tx'.storage.dataFileLive i = true →
      Covers base tx'.storage tx.nextFileId i) :
    tx.Evolves c { tx' with storage := tx'.storage.removeFlushed base table } :=
  { hev with
    fence := fun i hi hl => by
      by_cases hmoved : i ∈ table.fileDeletes.map (·.dataFileId)
      · obtain ⟨d, hd, hdi, hld, hN, -⟩ := hcovers i hmoved hl
        exact .inr ⟨d, hd, hdi, hld, hN⟩
      · refine (hev.fence i hi hl).imp_left fun ⟨hsame, hkept⟩ => ⟨hsame, fun x hx hxi => ?_⟩
        refine List.mem_filter.mpr ⟨hkept x hx hxi, ?_⟩
        have hno : (table.fileDeletes.map (·.dataFileId)).contains x.fileId = false := by
          rw [hxi, Bool.eq_false_iff, ne_eq, List.contains_iff_mem]
          exact hmoved
        rw [hno]
        rfl
    recorded := fun x hx => hev.recorded x (List.mem_filter.mp hx).1 }

/-- What the flush of a table did. -/
structure TableFlushed (c : Nat) (table : InlinedFlushTable V) (tx tx' : TableTx V) : Prop where
  valid : tx'.Valid c
  evolves : tx.Evolves c tx'
  rows : (tx'.storage.current.map fun r => (r.rowId, r.value)).Perm
    (tx.storage.current.map fun r => (r.rowId, r.value))
  /-- A flush that writes no file leaves the inlined rows alone. -/
  inlinedRows : table.files = [] → tx'.storage.inlinedRows = tx.storage.inlinedRows

theorem TableFlushed.of_eq {tx'' : TableTx V} (h : TableFlushed c table tx tx') (hs : tx''.storage = tx'.storage)
    (hN : tx''.nextFileId = tx'.nextFileId) : TableFlushed c table tx tx'' := by
  obtain ⟨storage, nextFileId, _, _⟩ := tx''
  obtain rfl : storage = tx'.storage := hs
  obtain rfl : nextFileId = tx'.nextFileId := hN
  exact ⟨h.valid, { h.evolves with }, h.rows, h.inlinedRows⟩

/-- The live rows a flush copies are the rows it takes away. -/
theorem flushed_current (tables : List Nat) :
    ((T.current.filter fun r => Location.flushed base tables r.location).map fun r => (r.rowId, r.value)) =
      ((writtenUpTo T base tables).filter (·.live)).map inlinedPair := by
  have hfiles : (T.liveFiles.flatMap T.present).filter (fun r => Location.flushed base tables r.location) = [] :=
    List.filter_eq_nil_iff.mpr fun r hr => by
      obtain ⟨f, -, hr⟩ := List.mem_flatMap.mp hr
      obtain ⟨p, hp, -⟩ := TableStorage.location_of_mem_present hr
      simp [hp, Location.flushed]
  unfold TableStorage.current
  rw [List.filter_append, hfiles, List.nil_append, List.filter_map, List.map_map]
  unfold TableStorage.liveInlined writtenUpTo
  rw [List.filter_filter, List.filter_filter]
  refine congrArg (List.map _) (List.filter_congr fun r _ => ?_)
  exact Bool.and_comm ..

theorem applyFlush_spec {quiet : Prop} (hv : tx.Valid h) (hh : h < c) (hbase : base ≤ h)
    (held : FlushHeld table tx.storage tx.nextFileId base h quiet)
    (hquiet : table.files ≠ [] ∨ table.inlinedTables ≠ [] → quiet)
    (hok : applyFlush base table tx = .ok tx') : TableFlushed c table tx tx' := by
  simp only [applyFlush, bind_eq_ok, pure_eq_ok] at hok
  obtain ⟨tx₂, hreplace, rfl⟩ := hok
  have hvc := hv.mono hh.le le_rfl
  obtain ⟨groups, hfiles, hgroups⟩ := held.files
  -- nothing was done to the rows since they were read, or none is flushed
  have hperm : groups.flatten.Perm (writtenUpTo tx.storage base table.inlinedTables) := by
    by_cases hnone : table.files = []
    · have htables := held.noFiles hnone
      rw [hnone, List.forall₂_nil_right_iff] at hfiles
      simp [hfiles, htables, writtenUpTo]
    · exact hgroups (hquiet (.inl hnone))
  have hrows : ∀ r ∈ groups.flatten, r.toLifetime.Bounded c ∧ r.rowId < tx.storage.nextRowId := fun r hr => by
    have hmem := (List.mem_filter.mp (hperm.mem_iff.mp hr)).1
    exact ⟨hvc.inlinedLife r hmem, hvc.rowIds.inlined r hmem⟩
  obtain ⟨ins, e₁, hins, hnew⟩ := addFlushedFiles_inserts hfiles hvc hrows
  have hreplaced := replaceDeleteFiles_flush e₁.valid (hbase.trans_lt hh) held.nodup
    (fun entry he => (held.fileDeletes entry he).evolves hv e₁.valid e₁.evolves (hbase.trans_lt hh) hh.le) hreplace
  have e₂ : Effect c (fun _ => false) ins tx tx₂ := by simpa using e₁.trans hreplaced.effect (by simp)
  have hcovers : ∀ i ∈ table.fileDeletes.map (·.dataFileId), tx₂.storage.dataFileLive i = true →
      Covers base tx₂.storage tx.nextFileId i := fun i hi hl => by
    have hl₁ : (table.files.foldl TableTx.addFlushedFile tx).storage.dataFileLive i = true := by
      unfold TableStorage.dataFileLive at hl ⊢
      rwa [hreplaced.dataFiles] at hl
    obtain ⟨d, hd, hdi, hld, hN, hx⟩ := hreplaced.covers i hi hl₁
    exact ⟨d, hd, hdi, hld, e₁.evolves.nextFile.trans hN, hx⟩
  refine ⟨removeFlushed_valid e₂.valid, removeFlushed_evolves e₂.evolves hcovers, ?_, ?_⟩
  · show ((tx₂.storage.removeFlushed base table).current.map _).Perm _
    rw [removeFlushed_current hcovers]
    have hkept : ins.filter (fun r => !Location.flushed base table.inlinedTables r.location) = ins := by
      refine List.filter_eq_self.mpr fun r hr => ?_
      have hloc := hnew r hr
      cases hl : r.location with
      | file i p => rfl
      | inlined t i b =>
        rw [hl] at hloc
        have hb : b = c := hloc
        simp [Location.flushed, show ¬ b ≤ base by omega]
    have hcome : (ins.map fun r => (r.rowId, r.value)).Perm ((tx.storage.current.filter
        fun r => Location.flushed base table.inlinedTables r.location).map fun r => (r.rowId, r.value)) := by
      rw [hins, flushed_current]
      exact (hperm.filter _).map _
    have hcurrent := e₂.rows.filter fun r => !Location.flushed base table.inlinedTables r.location
    simp only [Bool.not_false, List.filter_true, List.filter_append, hkept] at hcurrent
    refine (hcurrent.map _).trans ?_
    rw [List.map_append]
    refine (List.Perm.append_left _ hcome).trans ?_
    rw [← List.map_append]
    exact (List.perm_append_comm.trans (List.filter_append_perm _ _)).map _
  · intro hnone
    have hrows : tx₂.storage.inlinedRows = tx.storage.inlinedRows := by
      rw [hreplaced.inlinedRows, hnone]
      rfl
    show tx₂.storage.inlinedRows.filter _ = _
    rw [held.noFiles hnone, hrows]
    exact List.filter_eq_self.mpr fun r _ => by simp

end Table

/-! ## The commit of a flush -/

section Commit

variable {cat cat' cat₁ cat₂ : Catalog V} {table : InlinedFlushTable V} {tables : List (InlinedFlushTable V)} {t : Nat}

theorem addFlushedFile_nextFile (tx : TableTx V) (out : InlinedFlushFile V) :
    tx.nextFileId ≤ (tx.addFlushedFile out).nextFileId := by
  unfold TableTx.addFlushedFile
  cases out.delete with
  | none => exact Nat.le_succ _
  | some delete => exact (Nat.le_succ _).trans (Nat.le_succ _)

theorem applyFlush_nextFile (h : applyFlush base table tx = .ok tx') : tx.nextFileId ≤ tx'.nextFileId := by
  simp only [applyFlush, bind_eq_ok, pure_eq_ok] at h
  obtain ⟨tx₂, hreplace, rfl⟩ := h
  have hmono := replaceDeleteFiles_nextFile hreplace
  exact (foldl_nextFile addFlushedFile_nextFile table.files tx).trans hmono

theorem flushTable_eq_ok (h : flushTable base cat table = .ok cat') :
    cat.tableLive table.tableId = true ∧ cat.withTable table.tableId (applyFlush base table) = .ok cat' := by
  simp only [flushTable, bind_eq_ok, refuseIf_eq_ok, Bool.not_eq_true', Bool.not_eq_false] at h
  obtain ⟨_, hlive, h⟩ := h
  exact ⟨hlive, h⟩

theorem flushTable_apart (h : flushTable base cat table = .ok cat') (t : Nat) (ht : t ≠ table.tableId) :
    Catalog.Apart t cat cat' := by
  obtain ⟨tx, htx, -, hN, hother⟩ := Catalog.withTable_eq_ok (flushTable_eq_ok h).2
  exact ⟨hother t ht, (applyFlush_nextFile htx).trans hN.ge⟩

theorem TableFlushed.apart (h : TableFlushed c table (cat₁.tableTx t) (cat₂.tableTx t))
    (hbefore : Catalog.Apart t cat cat₁) (hafter : Catalog.Apart t cat₂ cat')
    (hv : (cat.storage t).Valid c cat.nextFileId) :
    TableFlushed c table (cat.tableTx t) (cat'.tableTx t) where
  valid := (hafter.effect h.valid).valid
  evolves := ((hbefore.effect hv).evolves.trans h.evolves).trans (hafter.effect h.valid).evolves
  rows := by
    have hrows := h.rows
    rw [show (cat₁.tableTx t).storage = (cat.tableTx t).storage from hbefore.storage] at hrows
    rwa [show (cat'.tableTx t).storage = (cat₂.tableTx t).storage from hafter.storage]
  inlinedRows hnone := by
    rw [show (cat'.tableTx t).storage = (cat₂.tableTx t).storage from hafter.storage, h.inlinedRows hnone,
      show (cat₁.tableTx t).storage = (cat.tableTx t).storage from hbefore.storage]

theorem FlushHeld.apart {quiet : Prop} (held : FlushHeld table (cat.storage t) cat.nextFileId base h quiet)
    (hv : (cat.storage t).Valid h cat.nextFileId) (hbase : base ≤ h) (happ : Catalog.Apart t cat cat₁) :
    FlushHeld table (cat₁.storage t) cat₁.nextFileId base h quiet where
  nodup := held.nodup
  fileDeletes entry he := by
    have hev := (happ.effect (hv.mono (Nat.le_succ h) le_rfl)).evolves
    exact (held.fileDeletes entry he).evolves hv ((happ.effect hv).valid) hev (Nat.lt_succ_of_le hbase) le_rfl
  files := happ.storage ▸ held.files
  noFiles := held.noFiles

/-- What a successful `commit_inlined_flush` found and did. -/
structure FlushCommitted (cat : Catalog V) (base : Nat) (tables : List (InlinedFlushTable V)) (c : Nat)
    (cat' : Catalog V) : Prop where
  snapshot : c = cat.head + 1
  committed : cat.Committed (inlinedFlushChanges tables) cat'
  nodup : (tables.map (·.tableId)).Nodup
  flushed : ∀ table ∈ tables, TableFlushed c table (cat.tableTx table.tableId) (cat'.tableTx table.tableId)
  apart : ∀ t ∉ tables.map (·.tableId), Catalog.Apart t cat cat'

theorem mem_orderedTables : table ∈ orderedTables tables ↔ table ∈ tables :=
  (List.perm_insertionSort ..).mem_iff

/-- A flush that moves inlined rows of a table is refused when they changed. -/
theorem unbroken_of_inlinedFlushTableConflict {changes : List Change}
    (h : inlinedFlushTableConflict tables changes = none) (ht : table ∈ tables)
    (hmoves : table.files ≠ [] ∨ table.inlinedTables ≠ []) : Unbroken flushRules table.tableId changes := by
  simp only [inlinedFlushTableConflict, Option.or_eq_none_iff, List.findSome?_eq_none_iff, mem_orderedTables] at h
  refine (tableConflict_eq_none.mp (h.2 table ht)).2.2.2 ?_
  simpa [TableChanges.ofFlush] using hmoves

theorem commitInlinedFlush_spec (quiet : Nat → Prop) (hinv : cat.Inv) (hbase : base ≤ cat.head)
    (held : ∀ table ∈ tables,
      FlushHeld table (cat.storage table.tableId) cat.nextFileId base cat.head (quiet table.tableId))
    (hquiet : ∀ t, Unbroken flushRules t (cat.changesAfter base) → quiet t)
    (h : commitInlinedFlush base tables cat = .ok (c, cat')) : FlushCommitted cat base tables c cat' := by
  simp only [commitInlinedFlush, bind_eq_ok, refuseIf_eq_ok, refuseWith_eq_ok, pure_eq_ok, Prod.mk.injEq,
    not_not] at h
  obtain ⟨_, hnodup, _, hconflict, flushed, hflush, hc, rfl⟩ := h
  obtain rfl : cat.head + 1 = c := hc
  have hstart := Catalog.Committed.insertSnapshot cat
  rw [show cat.insertSnapshot.1 = cat.head + 1 from rfl, hstart.changesBetween_eq hinv] at hconflict
  have hcommitted : cat.Committed [] flushed :=
    foldlM_inv (P := fun next => cat.Committed [] next) (fun {next table next'} _ hf hnext =>
      hnext.withTable (flushTable_eq_ok hf).2 applyFlush_nextFile) hflush hstart
  have hrec : ∀ t, Catalog.Apart t flushed (flushed.recordSnapshotChanges (cat.head + 1)
      (inlinedFlushChanges tables)) := fun t => ⟨rfl, Nat.le_add_right ..⟩
  refine ⟨rfl, hcommitted.record hinv.ledger _, hnodup, ?_, ?_⟩
  · intro table ht
    obtain ⟨cat₁, cat₂, hbefore, hf, hafter⟩ := Catalog.foldlM_at (·.tableId)
      (fun _ hf t ht => flushTable_apart hf t ht) hnodup ht hflush
    have hbefore : Catalog.Apart table.tableId cat cat₁ := ⟨hbefore.storage, hbefore.nextFile⟩
    obtain ⟨tx, htx, hs, hN, -⟩ := Catalog.withTable_eq_ok (flushTable_eq_ok hf).2
    have hv := hinv.valid table.tableId
    have held₁ := (held table ht).apart hv hbase hbefore
    have hflushed := applyFlush_spec ((hbefore.effect hv).valid) (Nat.lt_succ_self _) hbase held₁
      (fun hmoves => hquiet _ (unbroken_of_inlinedFlushTableConflict hconflict ht hmoves)) htx
    have hflushed₂ : TableFlushed (cat.head + 1) table _ (cat₂.tableTx table.tableId) := hflushed.of_eq hs hN
    exact hflushed₂.apart hbefore (hafter.trans (hrec _)) (hv.mono (Nat.le_succ _) le_rfl)
  · intro t ht
    have h₁ := Catalog.foldlM_apart (·.tableId) (fun _ hf t ht => flushTable_apart hf t ht) hflush ht
    exact ⟨h₁.storage, h₁.nextFile.trans (Nat.le_add_right ..)⟩

end Commit

end DuckLake.Plan
