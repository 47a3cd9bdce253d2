import DuckLake.Metadata.Effect

/- The effect of a staged write, part by part: the rows it inserts, with the row ids
   they keep or are given, and the rows it deletes. What a part relies on about the
   plan behind it is its hypothesis: a delete file written earlier holds every
   position of the one it expects to replace, and the row ids it keeps were issued. -/

namespace DuckLake.Metadata

open Versioned Checked

variable {V : Type} {T T' : TableStorage V} {tx tx' : TableTx V} {c h N i : Nat}

/-! ## The delete file of a data file -/

namespace TableStorage

theorem Valid.liveDeleteFile_eq (hv : T.Valid h N) (hlive : T.dataFileLive i = true) {d : DeleteFile}
    (hd : d ∈ T.deleteFiles) (hi : d.dataFileId = i) (hl : d.live = true) : T.liveDeleteFile i = some d.id := by
  unfold liveDeleteFile
  cases hf : T.deleteFiles.find? fun d => d.dataFileId == i && d.live with
  | none =>
    rw [List.find?_eq_none] at hf
    exact absurd (by simp [hi, hl]) (hf d hd)
  | some d' =>
    have hm := List.mem_of_find?_eq_some hf
    have hp := List.find?_some hf
    simp only [Bool.and_eq_true, beq_iff_eq] at hp
    rw [hv.oneLive d hd d' hm (hi ▸ hlive) hl hp.2 (hi.trans hp.1.symm)]
    rfl

theorem liveDeleteFile_eq_some {id : Nat} (hf : T.liveDeleteFile i = some id) :
    ∃ d ∈ T.deleteFiles, d.id = id ∧ d.dataFileId = i ∧ d.live = true := by
  unfold liveDeleteFile at hf
  obtain ⟨d, hd, rfl⟩ := Option.map_eq_some_iff.mp hf
  have hp := List.find?_some hd
  simp only [Bool.and_eq_true, beq_iff_eq] at hp
  exact ⟨d, List.mem_of_find?_eq_some hd, rfl, hp.1, hp.2⟩

theorem mem_of_foldl_laterBorn {l : List DeleteFile} {best : Option DeleteFile} {d : DeleteFile}
    (hd : l.foldl laterBorn best = some d) : best = some d ∨ d ∈ l := by
  induction l generalizing best with
  | nil => exact .inl hd
  | cons x l ih =>
    rcases ih hd with hx | hx
    · cases best with
      | none => exact .inr (by simp_all [laterBorn])
      | some b =>
        simp only [laterBorn] at hx
        split at hx <;> simp_all
    · exact .inr (List.mem_cons_of_mem _ hx)

theorem latestDeleteFile_eq_some {retired : Bool} {d : DeleteFile} (hd : T.latestDeleteFile i retired = some d) :
    d ∈ T.deleteFiles ∧ d.dataFileId = i ∧ (d.live || retired) = true := by
  rcases mem_of_foldl_laterBorn hd with hd | hd
  · cases hd
  · obtain ⟨hd, hp⟩ := List.mem_filter.mp hd
    simp only [Bool.and_eq_true, beq_iff_eq] at hp
    exact ⟨hd, hp.1, hp.2⟩

theorem foldl_laterBorn_isSome (l : List DeleteFile) {best : Option DeleteFile} (hb : best.isSome = true) :
    (l.foldl laterBorn best).isSome = true := by
  induction l generalizing best with
  | nil => exact hb
  | cons x l ih =>
    refine ih ?_
    cases best with
    | none => rfl
    | some b =>
      simp only [laterBorn]
      split <;> rfl

theorem latestDeleteFile_eq_none {retired : Bool} (hn : T.latestDeleteFile i retired = none) {d : DeleteFile}
    (hd : d ∈ T.deleteFiles) (hi : d.dataFileId = i) : d.live = false := by
  rw [Bool.eq_false_iff]
  intro hl
  have hm : d ∈ T.deleteFiles.filter fun d => d.dataFileId == i && (d.live || retired) :=
    List.mem_filter.mpr ⟨hd, by simp [hi, hl]⟩
  unfold latestDeleteFile at hn
  cases hf : T.deleteFiles.filter fun d => d.dataFileId == i && (d.live || retired) with
  | nil => simp [hf] at hm
  | cons x l =>
    rw [hf, List.foldl_cons] at hn
    have hsome : (l.foldl laterBorn (laterBorn none x)).isSome = true := foldl_laterBorn_isSome l rfl
    simp [hn] at hsome

theorem dataFileLive_of_end (he : T.dataFileEnd i = some none) : T.dataFileLive i = true := by
  unfold dataFileEnd at he
  obtain ⟨f, hf, hend⟩ := Option.map_eq_some_iff.mp he
  refine dataFileLive_iff.mpr ⟨f, List.mem_of_find?_eq_some hf, by simpa using List.find?_some hf, ?_⟩
  exact Lifetime.live_iff.mpr hend

theorem Valid.latestDeleteFile_eq (hv : T.Valid h N) (hlive : T.dataFileLive i = true) :
    (T.latestDeleteFile i false).map (·.id) = T.liveDeleteFile i := by
  cases hlatest : T.latestDeleteFile i false with
  | some d =>
    obtain ⟨hd, hdi, hl⟩ := latestDeleteFile_eq_some hlatest
    exact (hv.liveDeleteFile_eq hlive hd hdi (by simpa using hl)).symm
  | none =>
    cases hl : T.liveDeleteFile i with
    | none => rfl
    | some id =>
      obtain ⟨d, hd, -, hdi, hlive⟩ := liveDeleteFile_eq_some hl
      rw [latestDeleteFile_eq_none hlatest hd hdi] at hlive
      cases hlive

theorem Valid.dataFileLive_of_end_some (hv : T.Valid h N) {e : Nat} (he : T.dataFileEnd i = some (some e)) :
    T.dataFileLive i = false := by
  unfold dataFileEnd at he
  obtain ⟨f, hf, hend⟩ := Option.map_eq_some_iff.mp he
  have hfi : f.id = i := by simpa using List.find?_some hf
  rw [Bool.eq_false_iff, ne_eq, dataFileLive_iff]
  rintro ⟨g, hg, hgi, hl⟩
  have : g = f := List.inj_on_of_nodup_map hv.dataIds hg (List.mem_of_find?_eq_some hf) (hgi.trans hfi.symm)
  subst this
  rw [Lifetime.live_iff.mp hl] at hend
  cases hend

end TableStorage

/-! ## A new delete file -/

/-- A delete file written for data file `i` holds the positions of the one it expects. -/
structure Carries (T : TableStorage V) (N : Nat) (expected : Option Nat) (entries : List DeleteEntry) : Prop where
  below : ∀ id, expected = some id → id < N
  holds : ∀ d ∈ T.deleteFiles, expected = some d.id → ∀ e ∈ d.entries, ∃ e' ∈ entries, e'.position = e.position

theorem Carries.evolves {expected : Option Nat} {entries : List DeleteEntry} (hev : tx.Evolves c tx')
    (hc : Carries tx.storage tx.nextFileId expected entries) :
    Carries tx'.storage tx'.nextFileId expected entries where
  below id hid := (hc.below id hid).trans_le hev.nextFile
  holds d' hd' hid e he := by
    obtain ⟨d, hd, hcontent⟩ := hev.delete d' hd' (hc.below _ hid)
    simp only [DeleteFile.content, Prod.mk.injEq] at hcontent
    exact hc.holds d hd (hcontent.1 ▸ hid) e (hcontent.2.2.2 ▸ he)

theorem DeleteFile.holds_iff {d : DeleteFile} {p : Nat} :
    d.holds p = true ↔ ∃ e ∈ d.entries, e.position = p := by
  simp [DeleteFile.holds]

/-- The row a staged delete file becomes. -/
abbrev DeleteFileEntry.toDeleteFile (entry : DeleteFileEntry) (snapshot id : Nat) : DeleteFile :=
  entry.delete.toDeleteFile ⟨snapshot, none⟩ id entry.dataFileId none

@[inherit_doc DeleteFileEntry.toDeleteFile]
abbrev InlinedFlushFileDelete.toDeleteFile (entry : InlinedFlushFileDelete) (id : Nat) : DeleteFile :=
  entry.delete.delete.toDeleteFile ⟨entry.delete.beginSnapshot, entry.delete.endSnapshot⟩ id entry.dataFileId
    entry.delete.partialMax

theorem TableStorage.Valid.deleteFile_inj (hv : T.Valid h N) {d d' : DeleteFile} (hd : d ∈ T.deleteFiles)
    (hd' : d' ∈ T.deleteFiles) (hid : d.id = d'.id) : d = d' :=
  List.inj_on_of_nodup_map hv.deleteIds hd hd' hid

variable {T' : TableStorage V} {base : Nat} {entry : InlinedFlushFileDelete} {conflict : DuckLakeError}

theorem applyPositionalDelete_sets {entry : DeleteFileEntry}
    (hv : tx.Valid c) (h : applyPositionalDelete c base tx entry = .ok tx') :
    tx.storage.dataFileLive entry.dataFileId = true ∧
      tx.storage.liveDeleteFile entry.dataFileId = entry.expectedPrevDeleteFile ∧
      ∃ rest, SetsDelete c entry.dataFileId (entry.toDeleteFile c tx.nextFileId) rest tx tx' := by
  simp only [applyPositionalDelete, bind_eq_ok, refuseIf_eq_ok, pure_eq_ok, Bool.not_eq_true',
    Bool.not_eq_false, ne_eq, not_not] at h
  obtain ⟨-, hlive, -, hprev, rfl⟩ := h
  refine ⟨hlive, hprev, ?_⟩
  cases hexp : entry.expectedPrevDeleteFile with
  | none =>
    refine ⟨tx.storage.deleteFiles, rfl, rfl, .refl .., rfl, rfl, fun _ d hd hi => ?_⟩
    rw [Bool.eq_false_iff]
    intro hl
    rw [hv.liveDeleteFile_eq hlive hd hi hl, hexp] at hprev
    cases hprev
  | some prev =>
    rw [hexp] at hprev
    obtain ⟨d₀, hd₀, hid₀, hi₀, hl₀⟩ := TableStorage.liveDeleteFile_eq_some hprev
    refine ⟨tx.storage.deleteFiles.map fun d => if d.id = prev then d.close c else d, rfl, rfl, ?_, rfl, rfl, ?_⟩
    · refine ⟨?_, ?_, ?_⟩
      · rw [List.map_map]
        refine (List.map_congr_left fun d _ => ?_).symm ▸ List.Sublist.refl _
        simp only [Function.comp]
        split <;> rfl
      · intro d' hd'
        obtain ⟨d, hd, rfl⟩ := List.mem_map.mp hd'
        split
        · next hp =>
          rw [hv.deleteFile_inj hd hd₀ (hp.trans hid₀.symm)]
          exact .inr ⟨d₀, hd₀, hi₀, rfl⟩
        · exact .inl hd
      · intro d hd hne
        refine List.mem_map.mpr ⟨d, hd, if_neg fun hp => hne ?_⟩
        rw [hv.deleteFile_inj hd hd₀ (hp.trans hid₀.symm), hi₀]
    · intro _ d' hd' hi'
      obtain ⟨d, hd, rfl⟩ := List.mem_map.mp hd'
      by_cases hp : d.id = prev
      · rw [if_pos hp, DeleteFile.live_close]
      · rw [if_neg hp] at hi' ⊢
        rw [Bool.eq_false_iff]
        intro hl
        have heq := hv.liveDeleteFile_eq hlive hd hi' hl
        rw [hprev] at heq
        exact hp (Option.some.inj heq).symm

theorem replaceDeleteFile_sets
    (hv : tx.Valid c) (h : replaceDeleteFile conflict tx entry = .ok tx') :
    tx.storage.dataFileEnd entry.dataFileId = some entry.dataFileEnd ∧
      (tx.storage.latestDeleteFile entry.dataFileId entry.dataFileEnd.isSome).map (·.id) =
        entry.expectedPrevDeleteFile ∧
      ∃ rest, SetsDelete c entry.dataFileId (entry.toDeleteFile tx.nextFileId) rest tx tx' := by
  simp only [replaceDeleteFile, bind_eq_ok, refuseIf_eq_ok, pure_eq_ok, ne_eq, not_or, not_not] at h
  obtain ⟨-, ⟨hend, hprev⟩, rfl⟩ := h
  refine ⟨hend, hprev, ?_⟩
  cases hexp : entry.expectedPrevDeleteFile with
  | none =>
    refine ⟨tx.storage.deleteFiles, rfl, rfl, .refl .., rfl, rfl, fun _ d hd hi => ?_⟩
    rw [hexp, Option.map_eq_none_iff] at hprev
    exact TableStorage.latestDeleteFile_eq_none hprev hd hi
  | some prev =>
    rw [hexp] at hprev
    obtain ⟨d₀, hlatest, rfl⟩ := Option.map_eq_some_iff.mp hprev
    obtain ⟨hd₀, hi₀, hor⟩ := TableStorage.latestDeleteFile_eq_some hlatest
    refine ⟨tx.storage.deleteFiles.filter fun d => d.id ≠ d₀.id, rfl, rfl, ?_, rfl, rfl, ?_⟩
    · refine ⟨List.filter_sublist.map _, fun d hd => .inl (List.mem_filter.mp hd).1, ?_⟩
      intro d hd hne
      refine List.mem_filter.mpr ⟨hd, decide_eq_true fun hid => hne ?_⟩
      rw [hv.deleteFile_inj hd hd₀ hid, hi₀]
    · intro hlive d hd hi
      obtain ⟨hd, hne⟩ := List.mem_filter.mp hd
      -- the data file is live, so the file it loses was its one live delete file
      have hnone : entry.dataFileEnd = none := by
        cases he : entry.dataFileEnd with
        | none => rfl
        | some e =>
          rw [he] at hend
          rw [hv.dataFileLive_of_end_some hend] at hlive
          cases hlive
      have hl₀ : d₀.live = true := by simpa [hnone] using hor
      rw [Bool.eq_false_iff]
      intro hl
      have heq := hv.oneLive d hd d₀ hd₀ (hi ▸ hlive) hl hl₀ (hi.trans hi₀.symm)
      simp [heq] at hne

/-! ## Deleting rows of data files -/

theorem applyPositionalDelete_effect {entry : DeleteFileEntry} {del : Location → Bool}
    (hv : tx.Valid c) (h : applyPositionalDelete c base tx entry = .ok tx')
    (hi : entry.dataFileId < tx.nextFileId)
    (hcarry : Carries tx.storage tx.nextFileId entry.expectedPrevDeleteFile entry.delete.entries)
    (hdated : ∀ e ∈ entry.delete.entries, ∀ σ, e.snapshot = some σ → σ ≤ c)
    (hfile : ∀ j p, del (.file j p) =
      (entry.dataFileId == j && entry.delete.entries.any (·.position == p)))
    (hinlined : ∀ t r b, del (.inlined t r b) = false) : Effect c del [] tx tx' := by
  obtain ⟨hlive, hprev, rest, hset⟩ := applyPositionalDelete_sets hv h
  refine Effect.setDelete hset hv hi ⟨le_rfl, by simp [DeleteFileInfo.toDeleteFile]⟩ rfl hdated ?_ hfile hinlined
  intro d hd hdi hl p hp
  obtain ⟨e, he, rfl⟩ := DeleteFile.holds_iff.mp hp
  have hexp := hprev.symm.trans (hv.liveDeleteFile_eq hlive hd hdi hl)
  exact DeleteFile.holds_iff.mpr (hcarry.holds d hd hexp e he)

theorem replaceDeleteFile_effect {del : Location → Bool} (hv : tx.Valid c)
    (h : replaceDeleteFile conflict tx entry = .ok tx') (hi : entry.dataFileId < tx.nextFileId)
    (hend : entry.dataFileEnd = none) (hopen : entry.delete.endSnapshot = none)
    (hbegin : entry.delete.beginSnapshot ≤ c)
    (hcarry : Carries tx.storage tx.nextFileId entry.expectedPrevDeleteFile entry.delete.delete.entries)
    (hdated : ∀ e ∈ entry.delete.delete.entries, ∀ σ, e.snapshot = some σ → σ ≤ c)
    (hfile : ∀ j p, del (.file j p) =
      (entry.dataFileId == j && entry.delete.delete.entries.any (·.position == p)))
    (hinlined : ∀ t r b, del (.inlined t r b) = false) : Effect c del [] tx tx' := by
  obtain ⟨hdata, hprev, rest, hset⟩ := replaceDeleteFile_sets hv h
  rw [hend] at hdata hprev
  rw [Option.isSome_none] at hprev
  have hlive := TableStorage.dataFileLive_of_end hdata
  refine Effect.setDelete hset hv hi ⟨hbegin, by simp [DeleteFileInfo.toDeleteFile, hopen]⟩
    (by simp [DeleteFileInfo.toDeleteFile, Lifetime.live, hopen]) hdated ?_ hfile hinlined
  intro d hd hdi hl p hp
  obtain ⟨e, he, rfl⟩ := DeleteFile.holds_iff.mp hp
  have hexp : entry.expectedPrevDeleteFile = some d.id := by
    rw [← hprev, hv.latestDeleteFile_eq hlive, hv.liveDeleteFile_eq hlive hd hdi hl]
  exact DeleteFile.holds_iff.mpr (hcarry.holds d hd hexp e he)

/-- A sequence of updates that only delete. What an update relies on (`P`) survives
    the updates before it. -/
theorem Effect.foldlM {α : Type} {f : TableTx V → α → Result (TableTx V)} {l : List α}
    {P : TableTx V → α → Prop} {del : α → Location → Bool}
    (step : ∀ {tx tx' a}, a ∈ l → tx.Valid c → P tx a → f tx a = .ok tx' →
      Effect c (del a) [] tx tx')
    (stable : ∀ {tx tx' a}, tx.Valid c → tx'.Valid c →
      tx.Evolves c tx' → P tx a → P tx' a)
    (hv : tx.Valid c) (hok : ∀ a ∈ l, P tx a) (h : l.foldlM f tx = .ok tx') :
    Effect c (fun loc => l.any (del · loc)) [] tx tx' := by
  induction l generalizing tx with
  | nil =>
    obtain rfl : tx = tx' := by simpa [pure, Except.pure] using h
    exact .refl hv
  | cons a l ih =>
    rw [List.foldlM_cons, bind_eq_ok] at h
    obtain ⟨tx₁, h₁, h₂⟩ := h
    have e₁ := step (List.mem_cons_self ..) hv (hok a (List.mem_cons_self ..)) h₁
    have e₂ := ih (fun hm => step (List.mem_cons_of_mem _ hm)) e₁.valid
      (fun b hb => stable hv e₁.valid e₁.evolves (hok b (List.mem_cons_of_mem _ hb))) h₂
    simpa using e₁.trans e₂ (by simp)

/-- What the commit of a positional delete relies on. -/
structure DeleteFileEntry.Planned (entry : DeleteFileEntry) (T : TableStorage V) (N c : Nat) : Prop where
  below : entry.dataFileId < N
  carries : Carries T N entry.expectedPrevDeleteFile entry.delete.entries
  dated : ∀ e ∈ entry.delete.entries, ∀ σ, e.snapshot = some σ → σ ≤ c

/-- What the commit of a rewritten delete file of a live data file relies on. -/
structure InlinedFlushFileDelete.Planned (entry : InlinedFlushFileDelete) (T : TableStorage V) (N c : Nat) :
    Prop where
  below : entry.dataFileId < N
  dataFileEnd : entry.dataFileEnd = none
  endSnapshot : entry.delete.endSnapshot = none
  beginSnapshot : entry.delete.beginSnapshot ≤ c
  carries : Carries T N entry.expectedPrevDeleteFile entry.delete.delete.entries
  dated : ∀ e ∈ entry.delete.delete.entries, ∀ σ, e.snapshot = some σ → σ ≤ c

theorem DeleteFileEntry.Planned.evolves {entry : DeleteFileEntry} {b b' : Nat} (hev : tx.Evolves c tx') (hb : b ≤ b')
    (h : entry.Planned tx.storage tx.nextFileId b) : entry.Planned tx'.storage tx'.nextFileId b' where
  below := h.below.trans_le hev.nextFile
  carries := h.carries.evolves hev
  dated e he σ hσ := (h.dated e he σ hσ).trans hb

theorem InlinedFlushFileDelete.Planned.evolves {b b' : Nat}
    (hev : tx.Evolves c tx') (hb : b ≤ b') (h : entry.Planned tx.storage tx.nextFileId b) :
    entry.Planned tx'.storage tx'.nextFileId b' where
  below := h.below.trans_le hev.nextFile
  dataFileEnd := h.dataFileEnd
  endSnapshot := h.endSnapshot
  beginSnapshot := h.beginSnapshot.trans hb
  carries := h.carries.evolves hev
  dated e he σ hσ := (h.dated e he σ hσ).trans hb

/-- Whether a list of positions of data files names a location. -/
def Location.inEntries (dataFileId : Nat) (entries : List DeleteEntry) : Location → Bool
  | .file i p => dataFileId == i && entries.any (·.position == p)
  | .inlined .. => false

theorem applyPositionalDeletes_effect {deletes : List DeleteFileEntry} (hv : tx.Valid c)
    (hok : ∀ entry ∈ deletes, entry.Planned tx.storage tx.nextFileId c)
    (h : applyPositionalDeletes c base tx deletes = .ok tx') :
    Effect c (fun loc => deletes.any fun entry => loc.inEntries entry.dataFileId entry.delete.entries)
      [] tx tx' := by
  refine Effect.foldlM (P := fun tx entry => entry.Planned tx.storage tx.nextFileId c) ?_
    (fun _ _ hev h => h.evolves hev le_rfl) hv hok h
  intro tx tx' entry _ hv hok h
  exact applyPositionalDelete_effect hv h hok.below hok.carries hok.dated (fun _ _ => rfl) (fun _ _ _ => rfl)

theorem replaceDeleteFiles_effect {entries : List InlinedFlushFileDelete} (hv : tx.Valid c)
    (hok : ∀ entry ∈ entries, entry.Planned tx.storage tx.nextFileId c)
    (h : replaceDeleteFiles conflict tx entries = .ok tx') :
    Effect c (fun loc => entries.any fun entry => loc.inEntries entry.dataFileId entry.delete.delete.entries)
      [] tx tx' := by
  refine Effect.foldlM (P := fun tx entry => entry.Planned tx.storage tx.nextFileId c) ?_
    (fun _ _ hev h => h.evolves hev le_rfl) hv hok h
  intro tx tx' entry _ hv hok h
  exact replaceDeleteFile_effect hv h hok.below hok.dataFileEnd hok.endSnapshot hok.beginSnapshot hok.carries
    hok.dated (fun _ _ => rfl) (fun _ _ _ => rfl)

/-- Whether deletions recorded for data files name a location. -/
def Location.inFileDelete (delete : InlinedFileDelete) : Location → Bool
  | .file i p => delete.dataFileId == i && delete.positions.contains p
  | .inlined .. => false

theorem applyInlinedFileDeletes_effect {deletes : List InlinedFileDelete}
    (hv : tx.Valid c) (hbelow : ∀ delete ∈ deletes, delete.dataFileId < tx.nextFileId)
    (h : applyInlinedFileDeletes c base tx.storage deletes = .ok T') :
    Effect c (fun loc => deletes.any loc.inFileDelete) [] tx { tx with storage := T' } := by
  simp only [applyInlinedFileDeletes, bind_eq_ok, pure_eq_ok] at h
  obtain ⟨-, -, rfl⟩ := h
  refine Effect.recordDeletes hv ?_ ?_ ?_
  · intro x hx
    obtain ⟨delete, hd, hx⟩ := List.mem_flatMap.mp hx
    obtain ⟨p, -, rfl⟩ := List.mem_map.mp hx
    exact ⟨hbelow delete hd, rfl⟩
  · intro i p
    rw [List.any_flatMap]
    refine congrArg deletes.any (funext fun delete => ?_)
    rw [List.any_map, Bool.eq_iff_iff, List.any_eq_true]
    simp only [Location.inFileDelete, Function.comp, Bool.and_eq_true, beq_iff_eq, List.contains_iff_mem]
    constructor
    · rintro ⟨rfl, hp⟩
      exact ⟨p, hp, rfl, rfl⟩
    · rintro ⟨_, hp, rfl, rfl⟩
      exact ⟨rfl, hp⟩
  · intro t r b
    simp [Location.inFileDelete]

/-- Whether a location lies in a dropped data file. -/
def Location.inFile (dataFileId : Nat) : Location → Bool
  | .file i _ => i == dataFileId
  | .inlined .. => false

theorem dropDataFile_effect {file : DroppedDataFile}
    (hv : tx.Valid c) (h : dropDataFile c base tx.storage file = .ok T') :
    Effect c (fun loc => loc.inFile file.dataFileId) [] tx { tx with storage := T' } := by
  simp only [dropDataFile, bind_eq_ok, refuseIf_eq_ok, pure_eq_ok] at h
  obtain ⟨-, -, rfl⟩ := h
  exact Effect.endDataFiles hv (fun f _ p => by simp [Location.inFile, Bool.beq_eq_decide_eq])
    (fun _ _ _ => rfl)

theorem dropDataFiles_effect {files : List DroppedDataFile}
    (hv : tx.Valid c) (h : dropDataFiles c base tx.storage files = .ok T') :
    Effect c (fun loc => files.any fun file => loc.inFile file.dataFileId) [] tx { tx with storage := T' } := by
  unfold dropDataFiles at h
  induction files generalizing tx with
  | nil =>
    obtain rfl : tx.storage = T' := by simpa [pure, Except.pure] using h
    exact .refl hv
  | cons file files ih =>
    rw [List.foldlM_cons, bind_eq_ok] at h
    obtain ⟨T₁, h₁, h₂⟩ := h
    have e₁ := dropDataFile_effect hv h₁
    have e₂ : Effect c _ [] { tx with storage := T₁ } { tx with storage := T' } := ih e₁.valid h₂
    simpa using e₁.trans e₂ (by simp)

/-! ## Deleting inlined rows -/

/-- Whether the deletion of inlined rows at snapshot `c` names a location: the rows
    the same commit writes are not deleted. -/
def Location.inRowRefs (c : Nat) (rows : List InlinedRowRef) : Location → Bool
  | .file .. => false
  | .inlined table rowId beginSnapshot => rows.contains ⟨table, rowId⟩ && decide (beginSnapshot ≠ c)

/-- A deletion of inlined rows passed the check that none changed since the base. -/
theorem applyInlinedDeletes_unchanged {rows : List InlinedRowRef}
    (hv : T.Valid h N) (hok : applyInlinedDeletes c base T rows = .ok T') (hne : rows ≠ []) :
    ∀ r ∈ T.inlinedRows, changedBetween base c r.toLifetime = false := by
  simp only [applyInlinedDeletes, bind_eq_ok, refuseIf_eq_ok, pure_eq_ok] at hok
  obtain ⟨_, hcheck, -⟩ := hok
  simp only [Bool.and_eq_true, Bool.not_eq_true', List.isEmpty_eq_false_iff, List.any_eq_true, not_and,
    not_exists] at hcheck
  intro r hr
  exact Bool.eq_false_iff.mpr fun hchanged => hcheck hne r hr (hv.registered r hr) hchanged

theorem applyInlinedDeletes_effect {rows : List InlinedRowRef}
    (hv : tx.Valid c) (h : applyInlinedDeletes c base tx.storage rows = .ok T') :
    Effect c (Location.inRowRefs c rows) [] tx { tx with storage := T' } := by
  simp only [applyInlinedDeletes, bind_eq_ok, refuseIf_eq_ok, pure_eq_ok] at h
  obtain ⟨-, -, -, -, rfl⟩ := h
  exact Effect.endInlinedRows hv (fun r _ => by simp [Location.inRowRefs, InlinedRow.toScanRow])
    (fun _ _ => rfl)

/-! ## Inserting rows -/

/-- Written by the commit at snapshot `c` that found `N` as the next file id. -/
def Location.New (c N : Nat) : Location → Prop
  | .file i _ => N ≤ i
  | .inlined _ _ beginSnapshot => beginSnapshot = c

/-- The rows of a new file, with the row ids it keeps or is given when the table's
    counter is at `nextRowId`. -/
def DataFileInfo.newRows (nextRowId : Nat) (file : DataFileInfo V) : List (Option Nat × V) :=
  file.rows.zipIdx.map fun (row, p) =>
    (row.rowId.or ((allocateRowIdStart nextRowId file).1.map (· + p)), row.value)

def newFileRows (nextRowId : Nat) : List (DataFileInfo V) → List (Option Nat × V)
  | [] => []
  | file :: files =>
    file.newRows nextRowId ++ newFileRows (nextRowId + (allocateRowIdStart nextRowId file).2) files

/-- The row ids a new file keeps: those it embeds, and the range it carries. -/
def DataFileInfo.keptRowIds (file : DataFileInfo V) : List Nat :=
  file.rows.filterMap (·.rowId) ++
    match file.rowIdStart with
    | .preserved start => List.range' start file.recordCount
    | _ => []

/-- An update that adds rows: those of `pairs`, at new locations. -/
def Inserts (c : Nat) (pairs : List (Option Nat × V)) (tx tx' : TableTx V) : Prop :=
  ∃ ins : List (ScanRow V), Effect c (fun _ => false) ins tx tx' ∧
    ins.map (fun r => (r.rowId, r.value)) = pairs ∧ ∀ r ∈ ins, r.location.New c tx.nextFileId

theorem Location.New.mono {N' : Nat} (hN : N ≤ N') : ∀ {loc : Location}, loc.New c N' → loc.New c N
  | .file _ _, h => hN.trans h
  | .inlined _ _ _, h => h

theorem Inserts.refl (hv : tx.Valid c) : Inserts c [] tx tx :=
  ⟨[], .refl hv, rfl, by simp⟩

theorem Inserts.trans {pairs pairs' : List (Option Nat × V)} {tx'' : TableTx V} (h₁ : Inserts c pairs tx tx')
    (h₂ : Inserts c pairs' tx' tx'') : Inserts c (pairs ++ pairs') tx tx'' := by
  obtain ⟨ins₁, e₁, hp₁, hl₁⟩ := h₁
  obtain ⟨ins₂, e₂, hp₂, hl₂⟩ := h₂
  refine ⟨ins₁ ++ ins₂, by simpa using e₁.trans e₂ (fun _ _ => rfl), by simp [hp₁, hp₂], ?_⟩
  intro r hr
  rcases List.mem_append.mp hr with hr | hr
  · exact hl₁ r hr
  · exact (hl₂ r hr).mono e₁.evolves.nextFile

theorem Inserts.valid {pairs : List (Option Nat × V)} (h : Inserts c pairs tx tx')  : tx'.Valid c := by
  obtain ⟨ins, e, -⟩ := h
  exact e.valid

theorem DataFile.read_true_map {f : DataFile V} :
    (f.read fun _ _ => true).map (fun r => (r.rowId, r.value)) =
      f.rows.zipIdx.map fun (row, p) => (f.rowIdAt p row, row.value) := by
  unfold DataFile.read
  rw [List.filter_true, List.map_map]
  rfl

theorem allocateRowIdStart_lt {n start p : Nat} {file : DataFileInfo V}
    (hs : (allocateRowIdStart n file).1 = some start) (hp : p < file.recordCount) :
    start + p < n + (allocateRowIdStart n file).2 := by
  unfold allocateRowIdStart at hs ⊢
  generalize file.rowIdFloor.getD 0 = floor at hs ⊢
  cases hr : file.rowIdStart <;> simp only [hr] at hs ⊢
  · obtain rfl := Option.some.inj hs
    omega
  · cases hs
  · obtain rfl := Option.some.inj hs
    omega

theorem commitFile_inserts {file : DataFileInfo V} (hv : tx.Valid c)
    (hkept : ∀ i ∈ file.keptRowIds, i < tx.storage.nextRowId) (hplain : ∀ row ∈ file.rows, row.origin = none) :
    Inserts c (file.newRows tx.storage.nextRowId) tx (commitFile c tx file) := by
  refine ⟨(file.toDataFile c tx.nextFileId (allocateRowIdStart tx.storage.nextRowId file).1 none).read
    fun _ _ => true, ?_, ?_, ?_⟩
  · refine Effect.addDataFile hv rfl rfl rfl rfl ⟨le_rfl, by simp [DataFileInfo.toDataFile]⟩
      (by simp [DataFileInfo.toDataFile]) (fun row hr o ho => by simp [hplain row hr] at ho)
      (Nat.le_add_right ..) ?_
    rintro ⟨row, p⟩ hx i hi
    have hget : file.rows[p]? = some row := List.mk_mem_zipIdx_iff_getElem?.mp hx
    cases hrow : row.rowId with
    | some j =>
      -- an embedded id was issued before
      obtain rfl : j = i := by simpa [DataFile.rowIdAt, hrow] using hi
      have hmem : j ∈ file.keptRowIds := List.mem_append_left _
        (List.mem_filterMap.mpr ⟨row, List.mem_of_getElem? hget, hrow⟩)
      exact (hkept j hmem).trans_le (Nat.le_add_right ..)
    | none =>
      simp only [DataFile.rowIdAt, hrow, Option.none_or] at hi
      obtain ⟨start, hs, rfl⟩ := Option.map_eq_some_iff.mp hi
      exact allocateRowIdStart_lt hs (List.getElem?_eq_some_iff.mp hget).1
  · exact DataFile.read_true_map
  · intro r hr
    obtain ⟨row, p, -, -, rfl⟩ := DataFile.mem_read.mp hr
    exact le_rfl

theorem commitFiles_inserts {files : List (DataFileInfo V)} (hv : tx.Valid c)
    (hkept : ∀ file ∈ files, ∀ i ∈ file.keptRowIds, i < tx.storage.nextRowId)
    (hplain : ∀ file ∈ files, ∀ row ∈ file.rows, row.origin = none) :
    Inserts c (newFileRows tx.storage.nextRowId files) tx (files.foldl (commitFile c) tx) := by
  induction files generalizing tx with
  | nil => exact .refl hv
  | cons file files ih =>
    have h₁ := commitFile_inserts hv (hkept file (List.mem_cons_self ..)) (hplain file (List.mem_cons_self ..))
    have h₂ := ih h₁.valid (fun file hf i hi =>
      (hkept file (List.mem_cons_of_mem _ hf) i hi).trans_le (Nat.le_add_right ..))
      fun file hf => hplain file (List.mem_cons_of_mem _ hf)
    exact h₁.trans h₂

theorem commitFilesAtSnapshot_inserts {files : List (DataFileInfo V)} (hv : tx.Valid c)
    (hkept : ∀ file ∈ files, ∀ i ∈ file.keptRowIds, i < tx.storage.nextRowId)
    (hplain : ∀ file ∈ files, ∀ row ∈ file.rows, row.origin = none)
    (h : commitFilesAtSnapshot c tx files = .ok tx') :
    Inserts c (newFileRows tx.storage.nextRowId files) tx tx' := by
  simp only [commitFilesAtSnapshot, bind_eq_ok, refuseIf_eq_ok, pure_eq_ok] at h
  obtain ⟨-, -, rfl⟩ := h
  exact commitFiles_inserts hv hkept hplain

/-- The inlined rows of a stage, with the row ids they keep or are given. -/
def newInlinedRows (nextRowId : Nat) (rows : List V) (rowIds : Option (List Nat)) : List (Option Nat × V) :=
  ((rowIds.getD (List.range' nextRowId rows.length)).zip rows).map fun (id, value) => (some id, value)

theorem commitInlinedAtSnapshot_inserts {rows : List V} {rowIds : Option (List Nat)}
    (hv : tx.Valid c)
    (hkept : ∀ ids, rowIds = some ids → ∀ i ∈ ids, i < tx.storage.nextRowId)
    (h : commitInlinedAtSnapshot c tx.storage rows rowIds = .ok T') :
    Inserts c (newInlinedRows tx.storage.nextRowId rows rowIds) tx { tx with storage := T' } := by
  simp only [commitInlinedAtSnapshot, bind_eq_ok, refuseIf_eq_ok, pure_eq_ok] at h
  obtain ⟨-, -, rfl⟩ := h
  refine ⟨_, Effect.addInlinedRows hv ?_ ?_ ?_, ?_, ?_⟩
  · intro r hr
    obtain ⟨⟨id, value⟩, hx, rfl⟩ := List.mem_map.mp hr
    refine ⟨rfl, rfl, ?_, ?_⟩
    · split
      · assumption
      · simp
    · have hid := (List.of_mem_zip hx).1
      cases hr : rowIds with
      | some ids =>
        simp only [hr, Option.getD_some] at hid
        simpa using hkept ids hr id hid
      | none =>
        simp only [hr, Option.getD_none, List.mem_range'_1] at hid
        simpa using hid.2
  · intro t ht
    split
    · exact ht
    · simpa using .inl (List.contains_iff_mem.mp ht)
  · split
    · exact le_rfl
    · exact Nat.le_add_right ..
  · rw [List.map_map, List.map_map]
    rfl
  · intro r hr
    obtain ⟨x, hx, rfl⟩ := List.mem_map.mp hr
    obtain ⟨_, _, rfl⟩ := List.mem_map.mp hx
    rfl

/-! ## A whole stage -/

namespace StagedTableWrite

/-- The data files of a stage. -/
def files (write : StagedTableWrite V) : List (DataFileInfo V) :=
  (match write.data with
    | .files files => files
    | _ => []) ++ write.insertedFiles

/-- The row ids a stage writes again: those of the rows it updates. -/
def keptRowIds (write : StagedTableWrite V) : List Nat :=
  write.files.flatMap (·.keptRowIds) ++ write.inlinedRowIds.getD []

/-- The rows a stage deletes, when it commits at snapshot `c`. -/
def deletes (write : StagedTableWrite V) (c : Nat) (loc : Location) : Bool :=
  write.positionalDeletes.any (fun entry => loc.inEntries entry.dataFileId entry.delete.entries) ||
    write.rewrittenDeletes.any (fun entry => loc.inEntries entry.dataFileId entry.delete.delete.entries) ||
    loc.inRowRefs c write.inlinedDeletes || write.inlinedFileDeletes.any loc.inFileDelete ||
    write.droppedFiles.any fun file => loc.inFile file.dataFileId

/-- The rows a stage inserts. Its data finds the row id counter at `n`, the files it
    inserts besides find it at `n'`. -/
def newRows (write : StagedTableWrite V) (n n' : Nat) : List (Option Nat × V) :=
  (match write.data with
    | .files files => newFileRows n files
    | .inlined rows => newInlinedRows n rows write.inlinedRowIds
    | .none => []) ++ newFileRows n' write.insertedFiles

/-- What the commit of a stage at a snapshot up to `c` relies on. -/
structure Planned (write : StagedTableWrite V) (T : TableStorage V) (N c : Nat) : Prop where
  named : ∀ i ∈ write.namedFiles, i < N
  positional : ∀ entry ∈ write.positionalDeletes, entry.Planned T N c
  rewritten : ∀ entry ∈ write.rewrittenDeletes, entry.Planned T N c
  kept : ∀ i ∈ write.keptRowIds, i < T.nextRowId
  plain : ∀ file ∈ write.files, ∀ row ∈ file.rows, row.origin = none
  /-- A Replace draws new row ids. -/
  replace : write.mode = .replace → write.keptRowIds = []

variable {write : StagedTableWrite V}

theorem Planned.evolves {b b' : Nat} (hev : tx.Evolves c tx') (hb : b ≤ b')
    (h : write.Planned tx.storage tx.nextFileId b) : write.Planned tx'.storage tx'.nextFileId b' where
  named i hi := (h.named i hi).trans_le hev.nextFile
  positional entry he := (h.positional entry he).evolves hev hb
  rewritten entry he := (h.rewritten entry he).evolves hev hb
  kept i hi := (h.kept i hi).trans_le hev.nextRow
  plain := h.plain
  replace := h.replace

/-- A stage deletes none of the rows it writes. -/
theorem Planned.deletes_new (h : write.Planned T N c) : ∀ {loc : Location}, loc.New c N →
    write.deletes c loc = false
  | .file i p, hi => by
    have hne : ∀ j ∈ write.namedFiles, j ≠ i := fun j hj => (lt_of_lt_of_le (h.named j hj) hi).ne
    simp only [namedFiles, List.mem_append, List.mem_map] at hne
    have hpos : ∀ entry ∈ write.positionalDeletes, entry.dataFileId ≠ i := fun entry he =>
      hne _ (.inl (.inl (.inl ⟨entry, he, rfl⟩)))
    have hrew : ∀ entry ∈ write.rewrittenDeletes, entry.dataFileId ≠ i := fun entry he =>
      hne _ (.inl (.inl (.inr ⟨entry, he, rfl⟩)))
    have hinl : ∀ d ∈ write.inlinedFileDeletes, d.dataFileId ≠ i := fun d hd =>
      hne _ (.inl (.inr ⟨d, hd, rfl⟩))
    have hdrop : ∀ d ∈ write.droppedFiles, i ≠ d.dataFileId := fun d hd =>
      (hne _ (.inr ⟨d, hd, rfl⟩)).symm
    simp only [deletes, Location.inEntries, Location.inRowRefs, Location.inFileDelete, Location.inFile,
      Bool.or_eq_false_iff, List.any_eq_false, Bool.and_eq_true, beq_iff_eq, not_and]
    exact ⟨⟨⟨⟨fun e he h => absurd h (hpos e he), fun e he h => absurd h (hrew e he)⟩, trivial⟩,
      fun d hd h => absurd h (hinl d hd)⟩, hdrop⟩
  | .inlined t r b, hb => by
    have hbc : b = c := hb
    simp [deletes, Location.inEntries, Location.inRowRefs, Location.inFileDelete, Location.inFile, hbc]

end StagedTableWrite

section Stage

variable {write : StagedTableWrite V}

theorem StagedTableWrite.mem_keptRowIds_of_file {file : DataFileInfo V} (hf : file ∈ write.files)
    (hi : i ∈ file.keptRowIds) : i ∈ write.keptRowIds :=
  List.mem_append_left _ (List.mem_flatMap.mpr ⟨file, hf, hi⟩)

theorem applyStagedData_inserts (hv : tx.Valid c)
    (hkept : ∀ i ∈ write.keptRowIds, i < tx.storage.nextRowId)
    (hplain : ∀ file ∈ write.files, ∀ row ∈ file.rows, row.origin = none)
    (h : applyStagedData c write tx = .ok tx') (n' : Nat) :
    ∃ pairs, Inserts c pairs tx tx' ∧
      write.newRows tx.storage.nextRowId n' = pairs ++ newFileRows n' write.insertedFiles := by
  unfold applyStagedData at h
  cases hd : write.data with
  | files files =>
    rw [hd] at h
    have hfiles : ∀ file ∈ files, file ∈ write.files := fun file hf => by simp [StagedTableWrite.files, hd, hf]
    refine ⟨_, commitFilesAtSnapshot_inserts hv (fun file hf i hi => hkept i ?_)
      (fun file hf => hplain file (hfiles file hf)) h, ?_⟩
    · exact StagedTableWrite.mem_keptRowIds_of_file (hfiles file hf) hi
    · simp [StagedTableWrite.newRows, hd]
  | inlined rows =>
    simp only [hd, bind_eq_ok, pure_eq_ok] at h
    obtain ⟨T', h, rfl⟩ := h
    refine ⟨_, commitInlinedAtSnapshot_inserts hv (fun ids hids i hi => hkept i ?_) h, ?_⟩
    · exact List.mem_append_right _ (by simpa [hids] using hi)
    · simp [StagedTableWrite.newRows, hd]
  | none =>
    simp only [hd, pure_eq_ok] at h
    subst h
    exact ⟨[], .refl hv, by simp [StagedTableWrite.newRows, hd]⟩

theorem commitInsertedFiles_inserts (hv : tx.Valid c)
    (hkept : ∀ i ∈ write.keptRowIds, i < tx.storage.nextRowId)
    (hplain : ∀ file ∈ write.files, ∀ row ∈ file.rows, row.origin = none)
    (h : commitInsertedFiles c write tx = .ok tx') :
    Inserts c (newFileRows tx.storage.nextRowId write.insertedFiles) tx tx' := by
  unfold commitInsertedFiles at h
  split at h
  · next he =>
    obtain rfl := Except.ok.inj h
    rw [List.isEmpty_iff.mp he]
    exact .refl hv
  · refine commitFilesAtSnapshot_inserts hv (fun file hf i hi => hkept i ?_)
      (fun file hf => hplain file (List.mem_append_right _ hf)) h
    exact StagedTableWrite.mem_keptRowIds_of_file (List.mem_append_right _ hf) hi

/-- The effect of a stage: the rows it names go, its rows come. -/
theorem applyStage_effect (hv : tx.Valid c)
    (hok : write.Planned tx.storage tx.nextFileId c) (h : applyStage c write tx = .ok tx') :
    ∃ n' ins, tx.storage.nextRowId ≤ n' ∧ Effect c (write.deletes c) ins tx tx' ∧
      ins.map (fun r => (r.rowId, r.value)) = write.newRows tx.storage.nextRowId n' ∧
      (∀ r ∈ ins, r.location.New c tx.nextFileId) ∧
      (write.inlinedDeletes ≠ [] →
        ∀ r ∈ tx.storage.inlinedRows, changedBetween write.baseSnapshotId c r.toLifetime = false) := by
  simp only [applyStage, bind_eq_ok, pure_eq_ok] at h
  obtain ⟨tx₁, h₁, tx₂, h₂, tx₃, h₃, tx₄, h₄, T₅, h₅, T₆, h₆, T₇, h₇, rfl⟩ := h
  obtain ⟨pairs, hins₁, hpairs⟩ := applyStagedData_inserts hv hok.kept hok.plain h₁ tx₁.storage.nextRowId
  have hev₁ : tx.Evolves c tx₁ := by
    obtain ⟨_, e, -⟩ := hins₁
    exact e.evolves
  have hins₂ := commitInsertedFiles_inserts hins₁.valid (hok.evolves hev₁ le_rfl).kept hok.plain h₂
  obtain ⟨ins, hins, hmap, hnew⟩ := hins₁.trans hins₂
  have hok₂ := hok.evolves hins.evolves le_rfl
  have e₃ := applyPositionalDeletes_effect hins.valid hok₂.positional h₃
  have hok₃ := hok₂.evolves e₃.evolves le_rfl
  have e₄ := replaceDeleteFiles_effect e₃.valid hok₃.rewritten h₄
  have hok₄ := hok₃.evolves e₄.evolves le_rfl
  have e₅ := applyInlinedDeletes_effect e₄.valid h₅
  have hok₅ := hok₄.evolves e₅.evolves le_rfl
  have e₆ : Effect c _ [] { tx₄ with storage := T₅ } { tx₄ with storage := T₆ } :=
    applyInlinedFileDeletes_effect e₅.valid (fun d hd => hok₅.named _ (by
      simp only [StagedTableWrite.namedFiles, List.mem_append, List.mem_map]
      exact .inl (.inr ⟨d, hd, rfl⟩))) h₆
  have e₇ : Effect c _ [] { tx₄ with storage := T₆ } { tx₄ with storage := T₇ } :=
    dropDataFiles_effect e₆.valid h₇
  have edel := (((e₃.trans e₄ (by simp)).trans e₅ (by simp)).trans e₆ (by simp)).trans e₇ (by simp)
  refine ⟨tx₁.storage.nextRowId, ins, hev₁.nextRow, ?_, hmap.trans hpairs.symm, hnew, fun hne r hr => ?_⟩
  · have eall := hins.trans edel fun r hr => hok.deletes_new (hnew r hr)
    simp only [Bool.false_or, List.append_nil] at eall
    exact eall
  · -- the rows inlined before the commit are still there when the check is made
    refine applyInlinedDeletes_unchanged e₄.valid h₅ hne r ?_
    obtain ⟨new₁, heq₁, -⟩ := hins.inlined fun _ _ => rfl
    obtain ⟨new₂, heq₂, -⟩ := (e₃.trans e₄ (by simp)).inlined fun r _ => by
      simp [InlinedRow.toScanRow, Location.inEntries]
    rw [heq₂, heq₁]
    exact List.mem_append_left _ (List.mem_append_left _ hr)

/-- Retiring the prior generation, before the commit writes, takes every row away. -/
theorem retirePriorGeneration_effect (hv : tx.Valid h) (hc : h < c) :
    Effect c (fun _ => true) [] tx { tx with storage := retirePriorGeneration c tx.storage } := by
  have e₁ : Effect c Location.isFile [] tx { tx with storage := { tx.storage with
      dataFiles := tx.storage.dataFiles.map fun f => if f.beginSnapshot < c then f.close c else f } } :=
    Effect.endDataFiles (hv.mono hc.le le_rfl)
      (fun f hf p => (decide_eq_true ((hv.dataLife f hf).born.trans_lt hc)).symm) (fun _ _ _ => rfl)
  have hold : ∀ r ∈ tx.storage.inlinedRows,
      tx.storage.inlinedTables.contains r.table = true ∧ r.beginSnapshot < c := fun r hr =>
    ⟨hv.registered r hr, (hv.inlinedLife r hr).born.trans_lt hc⟩
  have e₂ : Effect c Location.isInlined [] _
      { tx with storage := retirePriorGeneration c tx.storage } :=
    Effect.endInlinedRows e₁.valid (fun r hr => (decide_eq_true (hold r hr)).symm) (fun _ _ => rfl)
  refine (e₁.trans e₂ (by simp)).congr (fun r _ => ?_) (by simp)
  cases r.location <;> rfl

end Stage

end DuckLake.Metadata
