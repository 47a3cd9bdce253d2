import DuckLake.Metadata.Commit
import Mathlib.Data.List.Nodup
import Mathlib.Tactic.Linarith

/- The well-formed rows of a table, and what a read of the newest snapshot is for
   them: the live files without their deleted positions, and the live inlined rows.
   Every statement about "the rows just before a commit" goes through `current`. -/

namespace DuckLake.Metadata

open Versioned

variable {V : Type} {T : TableStorage V} {f : DataFile V} {h s N : Nat}

/-! ## Reading a file -/

theorem DataFile.read_congr {keep keep' : Nat → FileRow V → Bool}
    (hk : ∀ x ∈ f.rows.zipIdx, keep x.2 x.1 = keep' x.2 x.1) : f.read keep = f.read keep' := by
  unfold DataFile.read
  rw [List.filter_congr hk]

theorem DataFile.read_and (keep : Nat → FileRow V → Bool) (extra : Location → Bool) :
    f.read (fun p row => keep p row && extra (.file f.id p)) =
      (f.read keep).filter (fun r => extra r.location) := by
  unfold DataFile.read
  rw [List.filter_map, List.filter_filter]
  congr 1
  exact List.filter_congr fun x _ => Bool.and_comm ..

theorem DataFile.mem_read {keep : Nat → FileRow V → Bool} {r : ScanRow V} :
    r ∈ f.read keep ↔ ∃ row p, (row, p) ∈ f.rows.zipIdx ∧ keep p row = true ∧
      r = ⟨.file f.id p, f.rowIdAt p row, row.value⟩ := by
  simp only [DataFile.read, List.mem_map, List.mem_filter, Prod.exists]
  constructor
  · rintro ⟨row, p, ⟨hm, hk⟩, rfl⟩
    exact ⟨row, p, hm, hk, rfl⟩
  · rintro ⟨row, p, hm, hk, rfl⟩
    exact ⟨row, p, ⟨hm, hk⟩, rfl⟩

/-- The insert snapshots a file embeds lie in the range it declares. -/
def DataFile.OriginsInRange (f : DataFile V) : Prop :=
  ∀ row ∈ f.rows, ∀ o, row.origin = some o →
    f.beginSnapshot ≤ o ∧ o ≤ f.partialMax.getD f.beginSnapshot

/-! ## The newest snapshot -/

theorem DeleteFile.deletes_eq_holds {d : DeleteFile} (h : ∀ e ∈ d.entries, ∀ σ, e.snapshot = some σ → σ ≤ s) (p : Nat) :
    d.deletes s p = d.holds p := by
  unfold DeleteFile.deletes DeleteFile.holds
  rw [Bool.eq_iff_iff, List.any_eq_true, List.any_eq_true]
  refine exists_congr fun e => and_congr_right fun he => ?_
  cases hσ : e.snapshot with
  | none => simp
  | some σ => simp [h e he σ hσ]

namespace TableStorage

variable (T)

/-- A position is deleted: by the file's live delete file, or in the catalog. -/
def gone (dataFileId position : Nat) : Bool :=
  (T.deleteFiles.any fun d => d.dataFileId == dataFileId && d.live && d.holds position) ||
    T.inlinedDeletes.any fun x => x.fileId == dataFileId && x.position == position

def liveFiles : List (DataFile V) := T.dataFiles.filter (·.live)

def liveInlined : List (InlinedRow V) := T.inlinedRows.filter (·.live)

/-- The rows of a file that are not deleted. -/
def present (f : DataFile V) : List (ScanRow V) :=
  f.read fun p _ => !T.gone f.id p

/-- The rows of the table now, whatever the snapshots recorded for them. -/
def current : List (ScanRow V) :=
  T.liveFiles.flatMap T.present ++ T.liveInlined.map InlinedRow.toScanRow

variable {T}

theorem gone_iff {i p : Nat} : T.gone i p = true ↔
    (∃ d ∈ T.deleteFiles, d.dataFileId = i ∧ d.live = true ∧ d.holds p = true) ∨
      ∃ x ∈ T.inlinedDeletes, x.fileId = i ∧ x.position = p := by
  simp [gone, and_assoc]

theorem mem_liveFiles : f ∈ T.liveFiles ↔ f ∈ T.dataFiles ∧ f.live = true := List.mem_filter

theorem dataFileLive_iff {i : Nat} : T.dataFileLive i = true ↔ ∃ f ∈ T.dataFiles, f.id = i ∧ f.live = true := by
  simp [dataFileLive]

theorem dataFileLive_of_mem (hf : f ∈ T.liveFiles) : T.dataFileLive f.id = true :=
  dataFileLive_iff.mpr ⟨f, (mem_liveFiles.mp hf).1, rfl, (mem_liveFiles.mp hf).2⟩

/-! ## Well-formed rows -/

/-- Every row id stored for the table was issued by its counter. -/
structure IssuedRowIds (T : TableStorage V) : Prop where
  file : ∀ f ∈ T.dataFiles, ∀ x ∈ f.rows.zipIdx, ∀ i, f.rowIdAt x.2 x.1 = some i → i < T.nextRowId
  inlined : ∀ r ∈ T.inlinedRows, r.rowId < T.nextRowId

/-- What holds of the rows of a table in a catalog whose newest snapshot is `h` and
    whose next file id is `N`. -/
structure Valid (T : TableStorage V) (h N : Nat) : Prop where
  dataIds : (T.dataFiles.map (·.id)).Nodup
  deleteIds : (T.deleteFiles.map (·.id)).Nodup
  dataBelow : ∀ f ∈ T.dataFiles, f.id < N
  deleteBelow : ∀ d ∈ T.deleteFiles, d.id < N ∧ d.dataFileId < N
  dataLife : ∀ f ∈ T.dataFiles, f.toLifetime.Bounded h
  partialMax : ∀ f ∈ T.dataFiles, ∀ m, f.partialMax = some m → m ≤ h
  origins : ∀ f ∈ T.dataFiles, f.OriginsInRange
  deleteLife : ∀ d ∈ T.deleteFiles, d.toLifetime.Bounded h
  dated : ∀ d ∈ T.deleteFiles, ∀ e ∈ d.entries, ∀ σ, e.snapshot = some σ → σ ≤ h
  /-- A live data file has at most one live delete file. -/
  oneLive : ∀ d ∈ T.deleteFiles, ∀ d' ∈ T.deleteFiles, T.dataFileLive d.dataFileId = true →
    d.live = true → d'.live = true → d.dataFileId = d'.dataFileId → d = d'
  inlinedLife : ∀ r ∈ T.inlinedRows, r.toLifetime.Bounded h
  registered : ∀ r ∈ T.inlinedRows, T.inlinedTables.contains r.table = true
  inlinedDelete : ∀ x ∈ T.inlinedDeletes, x.fileId < N ∧ x.beginSnapshot ≤ h
  rowIds : T.IssuedRowIds

theorem Valid.mono {h' N' : Nat} (hv : T.Valid h N) (hh : h ≤ h') (hN : N ≤ N') : T.Valid h' N' where
  dataIds := hv.dataIds
  deleteIds := hv.deleteIds
  dataBelow f hf := (hv.dataBelow f hf).trans_le hN
  deleteBelow d hd := ⟨(hv.deleteBelow d hd).1.trans_le hN, (hv.deleteBelow d hd).2.trans_le hN⟩
  dataLife f hf := (hv.dataLife f hf).mono hh
  partialMax f hf m hm := (hv.partialMax f hf m hm).trans hh
  origins := hv.origins
  deleteLife d hd := (hv.deleteLife d hd).mono hh
  dated d hd e he σ hσ := (hv.dated d hd e he σ hσ).trans hh
  oneLive := hv.oneLive
  inlinedLife r hr := (hv.inlinedLife r hr).mono hh
  registered := hv.registered
  inlinedDelete x hx := ⟨(hv.inlinedDelete x hx).1.trans_le hN, (hv.inlinedDelete x hx).2.trans hh⟩
  rowIds := hv.rowIds

/-! ## A read of the newest snapshot -/

theorem Valid.deletes_eq_holds (hv : T.Valid h N) {d : DeleteFile} (hd : d ∈ T.deleteFiles) (hs : h ≤ s)
    (p : Nat) : d.deletes s p = d.holds p :=
  DeleteFile.deletes_eq_holds (fun e he σ hσ => (hv.dated d hd e he σ hσ).trans hs) p

theorem Valid.insertedLater_eq_false (hv : T.Valid h N) (hf : f ∈ T.dataFiles) (hs : h ≤ s)
    (row : FileRow V) : f.insertedLater s row = false := by
  unfold DataFile.insertedLater
  cases hm : f.partialMax with
  | none => simp
  | some m => simp [Nat.not_lt.mpr ((hv.partialMax f hf m hm).trans hs)]

theorem Valid.inlinedDeleted_eq (hv : T.Valid h N) (hs : h ≤ s) (i p : Nat) :
    T.inlinedDeleted i s p = T.inlinedDeletes.any fun x => x.fileId == i && x.position == p := by
  unfold inlinedDeleted
  rw [Bool.eq_iff_iff, List.any_eq_true, List.any_eq_true]
  refine exists_congr fun x => and_congr_right fun hx => ?_
  simp [(hv.inlinedDelete x hx).2.trans hs]

theorem Valid.mem_deleteFilesAt (hv : T.Valid h N) (hs : h ≤ s) {i : Nat} {d : DeleteFile} :
    d ∈ T.deleteFilesAt i s ↔ d ∈ T.deleteFiles ∧ d.dataFileId = i ∧ d.live = true := by
  simp only [deleteFilesAt, List.mem_filter, Bool.and_eq_true, beq_iff_eq]
  refine and_congr_right fun hd => ?_
  rw [show d.visibleAt s = d.live from (hv.deleteLife d hd).visibleAt_eq_live hs]

/-- At the newest snapshot the listing joins a live file with at most one delete file. -/
theorem Valid.deleteFilesAt_cases (hv : T.Valid h N) (hs : h ≤ s) {i : Nat}
    (hlive : T.dataFileLive i = true) :
    T.deleteFilesAt i s = [] ∨ ∃ d ∈ T.deleteFiles, T.deleteFilesAt i s = [d] := by
  have hnodup : (T.deleteFilesAt i s).Nodup := hv.deleteIds.of_map.filter _
  rcases hl : T.deleteFilesAt i s with _ | ⟨d, _ | ⟨d', l⟩⟩
  · exact .inl rfl
  · have hd : d ∈ T.deleteFilesAt i s := by simp [hl]
    exact .inr ⟨d, ((hv.mem_deleteFilesAt hs).mp hd).1, rfl⟩
  · have hd : d ∈ T.deleteFilesAt i s := by simp [hl]
    have hd' : d' ∈ T.deleteFilesAt i s := by simp [hl]
    obtain ⟨hm, hi, hd⟩ := (hv.mem_deleteFilesAt hs).mp hd
    obtain ⟨hm', hi', hd'⟩ := (hv.mem_deleteFilesAt hs).mp hd'
    have heq := hv.oneLive d hm d' hm' (hi ▸ hlive) hd hd' (hi.trans hi'.symm)
    rw [hl, heq] at hnodup
    simp at hnodup

theorem Valid.scanFile_eq_present (hv : T.Valid h N) (hs : h ≤ s) (hlive : f ∈ T.liveFiles) :
    T.scanFile s f = T.present f := by
  have hf := (mem_liveFiles.mp hlive).1
  have hgone : ∀ p, T.gone f.id p =
      ((T.deleteFilesAt f.id s).any (·.deletes s p) || T.inlinedDeleted f.id s p) := by
    intro p
    rw [Bool.eq_iff_iff, gone_iff, Bool.or_eq_true, hv.inlinedDeleted_eq hs]
    simp only [List.any_eq_true, hv.mem_deleteFilesAt hs, Bool.and_eq_true, beq_iff_eq]
    refine or_congr_left ⟨?_, ?_⟩
    · rintro ⟨d, hd, hi, hl, hp⟩
      exact ⟨d, ⟨hd, hi, hl⟩, (hv.deletes_eq_holds hd hs p).trans hp⟩
    · rintro ⟨d, ⟨hd, hi, hl⟩, hp⟩
      exact ⟨d, hd, hi, hl, (hv.deletes_eq_holds hd hs p).symm.trans hp⟩
  have hread : ∀ d : Option DeleteFile, (∀ p, d.any (·.deletes s p) = (T.deleteFilesAt f.id s).any (·.deletes s p)) →
      T.readFile s f d = T.present f := by
    intro d hd
    refine DataFile.read_congr fun x _ => ?_
    rw [hgone, hv.insertedLater_eq_false hf hs, hd]
    simp
  unfold scanFile joinedDeleteFiles
  rcases hv.deleteFilesAt_cases hs (dataFileLive_of_mem hlive) with hl | ⟨d, _, hl⟩
  · simp only [hl, List.flatMap_cons, List.flatMap_nil, List.append_nil]
    exact hread none (fun p => by simp [hl])
  · simp only [hl, List.map_cons, List.map_nil, List.flatMap_cons, List.flatMap_nil, List.append_nil]
    exact hread (some d) (fun p => by simp [hl])

/-- Reading the newest snapshot reads the rows the table holds now. -/
theorem Valid.scan_eq_current (hv : T.Valid h N) (hs : h ≤ s) : T.scan s = T.current := by
  have hfiles : T.dataFiles.filter (·.visibleAt s) = T.liveFiles :=
    List.filter_congr fun f hf => (hv.dataLife f hf).visibleAt_eq_live hs
  have hrows : T.inlinedRows.filter (·.visibleAt s) = T.liveInlined :=
    List.filter_congr fun r hr => (hv.inlinedLife r hr).visibleAt_eq_live hs
  unfold scan current scanInlined
  rw [hfiles, hrows]
  congr 1
  refine List.flatMap_congr fun f hf => ?_
  exact hv.scanFile_eq_present hs hf

end TableStorage

end DuckLake.Metadata
