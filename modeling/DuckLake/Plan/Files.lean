import DuckLake.Metadata.MultiTable

/- What a statement or a compaction reads of a table's files before it plans, as of
   its base snapshot, and how much of that a commit can still rely on. A file's
   content is fixed by its id, and so is a delete file's; the fences of a commit (the
   file is live, with the delete file that was read, and no deletion was recorded
   since the base) then give the deleted positions as they were read. -/

namespace DuckLake.Plan

open Metadata Versioned

variable {V : Type} {T T' : TableStorage V} {tx tx' : TableTx V} {c h N base : Nat}

/-- A row of `DuckLakeTable::files`, with the positions `inlined_deletes_by_file`
    gives for the file. -/
structure TableFile (V : Type) where
  file : DataFile V
  deleteFile : Option DeleteFile
  inlinedPositions : List Nat
deriving DecidableEq, Repr

/-- The files of a table at a snapshot. -/
def files (T : TableStorage V) (s : Nat) : List (TableFile V) :=
  (T.dataFiles.filter (·.visibleAt s)).flatMap fun f =>
    (T.joinedDeleteFiles f.id s).map fun d =>
      { file := f
        deleteFile := d
        inlinedPositions := (T.inlinedDeletes.filter fun x =>
          x.fileId == f.id && decide (x.beginSnapshot ≤ s)).map (·.position) }

namespace TableFile

variable {tf : TableFile V}

/-- The positions a rewrite of the file leaves out: those of its delete file, whatever
    their snapshots, and those recorded in the catalog. -/
def masks (tf : TableFile V) (position : Nat) : Bool :=
  tf.deleteFile.any (·.holds position) || tf.inlinedPositions.contains position

/-- The rows `build_update_scan` reads. -/
def liveRows (tf : TableFile V) : List (ScanRow V) := tf.file.read fun p _ => !tf.masks p

/-- What was read still describes the table, as far as ids go. -/
structure Held (tf : TableFile V) (T : TableStorage V) (N base : Nat) : Prop where
  below : tf.file.id < N
  born : tf.file.beginSnapshot ≤ base
  origins : tf.file.OriginsInRange
  issued : ∀ x ∈ tf.file.rows.zipIdx, ∀ i, tf.file.rowIdAt x.2 x.1 = some i → i < T.nextRowId
  file : ∀ f ∈ T.dataFiles, f.id = tf.file.id → f.content = tf.file.content
  deleteBelow : ∀ d, tf.deleteFile = some d → d.id < N
  delete : ∀ d, tf.deleteFile = some d → ∀ d' ∈ T.deleteFiles, d'.id = d.id → d'.content = d.content
  recorded : ∀ x ∈ T.inlinedDeletes, x.fileId = tf.file.id → x.beginSnapshot ≤ base →
    x.position ∈ tf.inlinedPositions
  kept : T.dataFileLive tf.file.id = true → T.liveDeleteFile tf.file.id = tf.deleteFile.map (·.id) →
    ∀ p ∈ tf.inlinedPositions, ∃ x ∈ T.inlinedDeletes, x.fileId = tf.file.id ∧ x.position = p ∧
      x.beginSnapshot ≤ base

theorem mem_files : tf ∈ files T base ↔ tf.file ∈ T.dataFiles ∧ tf.file.visibleAt base = true ∧
    tf.deleteFile ∈ T.joinedDeleteFiles tf.file.id base ∧
    tf.inlinedPositions = (T.inlinedDeletes.filter fun x =>
      x.fileId == tf.file.id && decide (x.beginSnapshot ≤ base)).map (·.position) := by
  obtain ⟨f, d, ps⟩ := tf
  simp only [files, List.mem_flatMap, List.mem_filter, List.mem_map, mk.injEq]
  constructor
  · rintro ⟨f, ⟨hf, hv⟩, d, hd, rfl, rfl, rfl⟩
    exact ⟨hf, hv, hd, rfl⟩
  · rintro ⟨hf, hv, hd, rfl⟩
    exact ⟨f, ⟨hf, hv⟩, d, hd, rfl, rfl, rfl⟩

theorem mem_deleteFilesAt_of_joined {i : Nat} {d : DeleteFile} (hd : some d ∈ T.joinedDeleteFiles i base) :
    d ∈ T.deleteFilesAt i base := by
  unfold TableStorage.joinedDeleteFiles at hd
  split at hd
  · simp at hd
  · simpa using hd

theorem mem_inlinedPositions (htf : tf ∈ files T base) {p : Nat} : p ∈ tf.inlinedPositions ↔
    ∃ x ∈ T.inlinedDeletes, x.fileId = tf.file.id ∧ x.position = p ∧ x.beginSnapshot ≤ base := by
  rw [(mem_files.mp htf).2.2.2]
  simp only [List.mem_map, List.mem_filter, Bool.and_eq_true, beq_iff_eq, decide_eq_true_eq]
  constructor
  · rintro ⟨x, ⟨hx, hi, hb⟩, rfl⟩
    exact ⟨x, hx, hi, rfl, hb⟩
  · rintro ⟨x, hx, hi, rfl, hb⟩
    exact ⟨x, ⟨hx, hi, hb⟩, rfl⟩

theorem held_of_mem_files (hv : T.Valid h N) (htf : tf ∈ files T base) : tf.Held T N base := by
  obtain ⟨hf, hvis, hd, -⟩ := mem_files.mp htf
  have hdelete : ∀ d, tf.deleteFile = some d → d ∈ T.deleteFiles := fun d hdt =>
    (List.mem_filter.mp (mem_deleteFilesAt_of_joined (hdt ▸ hd))).1
  refine ⟨hv.dataBelow _ hf, (Lifetime.visibleAt_iff.mp hvis).1, hv.origins _ hf,
    hv.rowIds.file _ hf, ?_, fun d hdt => (hv.deleteBelow d (hdelete d hdt)).1, ?_, ?_, ?_⟩
  · intro f hf' hid
    rw [List.inj_on_of_nodup_map hv.dataIds hf' hf hid]
  · intro d hdt d' hd' hid
    rw [hv.deleteFile_inj hd' (hdelete d hdt) hid]
  · intro x hx hi hb
    exact (mem_inlinedPositions htf).mpr ⟨x, hx, hi, rfl, hb⟩
  · intro _ _ p hp
    exact (mem_inlinedPositions htf).mp hp

/-- Other commits leave the read as it was, or break its fence. -/
theorem Held.evolves {h' : Nat} (held : tf.Held tx.storage tx.nextFileId base)
    (hv : tx.Valid h) (hv' : tx'.Valid h')
    (hev : tx.Evolves c tx') (hc : base < c) :
    tf.Held tx'.storage tx'.nextFileId base where
  below := held.below.trans_le hev.nextFile
  born := held.born
  origins := held.origins
  issued x hx i hi := (held.issued x hx i hi).trans_le hev.nextRow
  file f hf hid := by
    obtain ⟨f₀, hf₀, hcontent, -⟩ := hev.data f hf (hid ▸ held.below)
    rw [← hcontent]
    exact held.file f₀ hf₀ ((DataFile.id_eq_of_content hcontent).trans hid)
  deleteBelow d hd := (held.deleteBelow d hd).trans_le hev.nextFile
  delete d hd d' hd' hid := by
    obtain ⟨d₀, hd₀, hcontent⟩ := hev.delete d' hd' (hid ▸ held.deleteBelow d hd)
    rw [← hcontent]
    exact held.delete d hd d₀ hd₀ ((congrArg Prod.fst hcontent).trans hid)
  recorded x hx hi hb := by
    rcases hev.recorded x hx with hx | hle
    · exact held.recorded x hx hi hb
    · omega
  kept hlive hprev p hp := by
    have hlive₀ := hev.dataFileLive held.below hlive
    rcases hev.fence _ held.below hlive with ⟨hsame, hkept⟩ | ⟨d, hd, hdi, hl, hnew⟩
    · -- nothing was deleted from the file, so the read's fence held before as well
      have hprev₀ : tx.storage.liveDeleteFile tf.file.id = tf.deleteFile.map (·.id) := by
        rw [← hprev]
        cases hlookup : tx'.storage.liveDeleteFile tf.file.id with
        | some id =>
          obtain ⟨d, hd, rfl, hdi, hl⟩ := TableStorage.liveDeleteFile_eq_some hlookup
          exact hv.liveDeleteFile_eq hlive₀ ((hsame d hdi hl).mp hd) hdi hl
        | none =>
          unfold TableStorage.liveDeleteFile at hlookup ⊢
          rw [Option.map_eq_none_iff, List.find?_eq_none] at hlookup ⊢
          intro d hd hp
          have hp' : d.dataFileId = tf.file.id ∧ d.live = true := by simpa using hp
          exact hlookup d ((hsame d hp'.1 hp'.2).mpr hd) hp
      obtain ⟨x, hx, hi, hpos, hb⟩ := held.kept hlive₀ hprev₀ p hp
      exact ⟨x, hkept x hx hi, hi, hpos, hb⟩
    · -- the file got a delete file with a new id
      rw [hv'.liveDeleteFile_eq hlive hd hdi hl] at hprev
      obtain ⟨d₀, hd₀, hid⟩ := Option.map_eq_some_iff.mp hprev.symm
      have hlt := held.deleteBelow d₀ hd₀
      omega

/-! ## Behind the fences -/

/-- The fence of a commit for one file. -/
structure Fenced (tf : TableFile V) (T : TableStorage V) (base : Nat) : Prop where
  live : T.dataFileLive tf.file.id = true
  delete : T.liveDeleteFile tf.file.id = tf.deleteFile.map (·.id)
  /-- A deletion recorded since the base repeats an older one. -/
  recorded : ∀ x ∈ T.inlinedDeletes, x.fileId = tf.file.id → base < x.beginSnapshot →
    ∃ y ∈ T.inlinedDeletes, y.fileId = tf.file.id ∧ y.position = x.position ∧ y.beginSnapshot ≤ base

theorem holds_eq_of_content {d d' : DeleteFile} (hc : d.content = d'.content) (p : Nat) :
    d.holds p = d'.holds p := by
  simp only [DeleteFile.content, Prod.mk.injEq] at hc
  unfold DeleteFile.holds
  rw [hc.2.2.2]

theorem Held.masks_of_holds (held : tf.Held T N base) (hv : T.Valid h N)
    (hlive : T.dataFileLive tf.file.id = true) (hdelete : T.liveDeleteFile tf.file.id = tf.deleteFile.map (·.id))
    {d : DeleteFile} (hd : d ∈ T.deleteFiles) (hdi : d.dataFileId = tf.file.id) (hl : d.live = true) {p : Nat}
    (hp : d.holds p = true) : tf.masks p = true := by
  have hlookup := hdelete.symm.trans (hv.liveDeleteFile_eq hlive hd hdi hl)
  obtain ⟨d₀, hd₀, hid⟩ := Option.map_eq_some_iff.mp hlookup
  rw [masks, hd₀, Option.any_some, ← holds_eq_of_content (held.delete d₀ hd₀ d hd hid.symm), hp]
  rfl

theorem Held.gone_of_masks (held : tf.Held T N base) (hlive : T.dataFileLive tf.file.id = true)
    (hdelete : T.liveDeleteFile tf.file.id = tf.deleteFile.map (·.id)) {p : Nat} (hp : tf.masks p = true) :
    T.gone tf.file.id p = true := by
  rw [masks, Bool.or_eq_true, List.contains_iff_mem] at hp
  rw [TableStorage.gone_iff]
  rcases hp with hp | hp
  · cases hd₀ : tf.deleteFile with
    | none => simp [hd₀] at hp
    | some d₀ =>
      rw [hd₀, Option.map_some] at hdelete
      obtain ⟨d, hd, hid, hdi, hl⟩ := TableStorage.liveDeleteFile_eq_some hdelete
      refine .inl ⟨d, hd, hdi, hl, ?_⟩
      rw [holds_eq_of_content (held.delete d₀ hd₀ d hd hid)]
      simpa [hd₀] using hp
  · obtain ⟨x, hx, hi, hpos, -⟩ := held.kept hlive hdelete p hp
    exact .inr ⟨x, hx, hi, hpos⟩

theorem Held.masks_of_recorded (held : tf.Held T N base) {x : InlinedDelete} (hx : x ∈ T.inlinedDeletes)
    (hi : x.fileId = tf.file.id) (hb : x.beginSnapshot ≤ base) : tf.masks x.position = true := by
  rw [masks, Bool.or_eq_true, List.contains_iff_mem]
  exact .inr (held.recorded x hx hi hb)

/-- Behind its fence, what the read leaves out is what is deleted. -/
theorem Held.gone_eq (held : tf.Held T N base) (hv : T.Valid h N) (fence : tf.Fenced T base) (p : Nat) :
    T.gone tf.file.id p = tf.masks p := by
  rw [Bool.eq_iff_iff]
  refine ⟨fun hg => ?_, held.gone_of_masks fence.live fence.delete⟩
  rcases TableStorage.gone_iff.mp hg with ⟨d, hd, hdi, hl, hp⟩ | ⟨x, hx, hi, rfl⟩
  · exact held.masks_of_holds hv fence.live fence.delete hd hdi hl hp
  · by_cases hb : x.beginSnapshot ≤ base
    · exact held.masks_of_recorded hx hi hb
    · obtain ⟨y, hy, hyi, hyp, hyb⟩ := fence.recorded x hx hi (Nat.not_le.mp hb)
      exact hyp ▸ held.masks_of_recorded hy hyi hyb

theorem Held.present_eq (held : tf.Held T N base) (hv : T.Valid h N) (fence : tf.Fenced T base)
    {f : DataFile V} (hf : f ∈ T.dataFiles) (hid : f.id = tf.file.id) : T.present f = tf.liveRows := by
  have hcontent := held.file f hf hid
  unfold TableStorage.present liveRows
  rw [DataFile.read_eq_of_content hcontent, hid]
  exact DataFile.read_congr fun x _ => by rw [held.gone_eq hv fence]

theorem Fenced.exists_live (fence : tf.Fenced T base) : ∃ f ∈ T.liveFiles, f.id = tf.file.id := by
  obtain ⟨f, hf, hid, hl⟩ := TableStorage.dataFileLive_iff.mp fence.live
  exact ⟨f, TableStorage.mem_liveFiles.mpr ⟨hf, hl⟩, hid⟩

end TableFile

/-- Behind their fences, the rows of some files of a table are those that were read. -/
theorem flatMap_present_perm {tfs : List (TableFile V)} (hv : T.Valid h N)
    (hnodup : (tfs.map (·.file.id)).Nodup) (held : ∀ tf ∈ tfs, tf.Held T N base)
    (fence : ∀ tf ∈ tfs, tf.Fenced T base) :
    ((T.liveFiles.filter fun f => (tfs.map (·.file.id)).contains f.id).flatMap T.present).Perm
      (tfs.flatMap (·.liveRows)) := by
  -- one live file for each read, in the order of the reads
  have hfiles : ∀ l : List (TableFile V), (∀ tf ∈ l, tf ∈ tfs) → ∃ fs : List (DataFile V),
      fs.map (·.id) = l.map (·.file.id) ∧ (∀ f ∈ fs, f ∈ T.liveFiles) ∧
      fs.flatMap T.present = l.flatMap (·.liveRows) := by
    intro l
    induction l with
    | nil => exact fun _ => ⟨[], rfl, by simp, rfl⟩
    | cons tf l ih =>
      intro hl
      have htf := hl tf (List.mem_cons_self ..)
      obtain ⟨fs, hids, hlive, hrows⟩ := ih fun tf htf => hl tf (List.mem_cons_of_mem _ htf)
      obtain ⟨f, hf, hid⟩ := (fence tf htf).exists_live
      refine ⟨f :: fs, by simp [hids, hid], ?_, ?_⟩
      · exact List.forall_mem_cons.mpr ⟨hf, hlive⟩
      · rw [List.flatMap_cons, List.flatMap_cons, hrows,
          (held tf htf).present_eq hv (fence tf htf) (TableStorage.mem_liveFiles.mp hf).1 hid]
  obtain ⟨fs, hids, hlive, hrows⟩ := hfiles tfs fun _ h => h
  rw [← hrows]
  refine List.Perm.flatMap_right _ ?_
  have hnodupT : T.liveFiles.Nodup := hv.dataIds.of_map.filter _
  have hnodupF : fs.Nodup := List.Nodup.of_map (·.id) (hids ▸ hnodup)
  refine (List.perm_ext_iff_of_nodup (hnodupT.filter _) hnodupF).mpr fun f => ?_
  rw [List.mem_filter, List.contains_iff_mem, ← hids]
  constructor
  · rintro ⟨hf, hm⟩
    obtain ⟨g, hg, hid⟩ := List.mem_map.mp hm
    have heq := List.inj_on_of_nodup_map hv.dataIds (TableStorage.mem_liveFiles.mp (hlive g hg)).1
      (TableStorage.mem_liveFiles.mp hf).1 hid
    exact heq ▸ hg
  · intro hf
    exact ⟨hlive f hf, List.mem_map_of_mem hf⟩

end DuckLake.Plan
