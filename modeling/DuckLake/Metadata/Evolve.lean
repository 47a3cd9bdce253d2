import DuckLake.Metadata.Current

/- What every commit does to the rows of a table, as far as a plan made earlier may
   rely on it: file ids are never reused, a file's content never changes, a live file
   keeps its live delete file and its recorded deletions or gets a delete file with a
   new id, and whatever is recorded is dated to the commit. `Evolves` composes, so a
   commit is followed part by part; `SetsDelete` is the part that gives a data file a
   new delete file. -/

namespace DuckLake.Metadata

open Versioned

variable {V : Type} {T : TableStorage V} {tx tx' tx'' : TableTx V} {c h N i : Nat}

/-! ## Ending rows -/

/-- What a data file is, apart from when it ended. -/
def DataFile.content (f : DataFile V) : Nat × Nat × Option Nat × Option Nat × List (FileRow V) :=
  (f.id, f.beginSnapshot, f.rowIdStart, f.partialMax, f.rows)

def DeleteFile.content (d : DeleteFile) : Nat × Nat × Nat × List DeleteEntry :=
  (d.id, d.dataFileId, d.beginSnapshot, d.entries)

section Close

variable {f : DataFile V} {d : DeleteFile} {r : InlinedRow V}

@[simp] theorem DataFile.live_close : (f.close c).live = false := Lifetime.live_close

@[simp] theorem DataFile.content_close : (f.close c).content = f.content := by
  simp [DataFile.content, DataFile.close]

@[simp] theorem DeleteFile.live_close : (d.close c).live = false := Lifetime.live_close

@[simp] theorem DeleteFile.content_close : (d.close c).content = d.content := by
  simp [DeleteFile.content, DeleteFile.close]

@[simp] theorem InlinedRow.live_close : (r.close c).live = false := Lifetime.live_close

theorem DataFile.close_of_ended (hf : f.live = false) : f.close c = f := by
  unfold DataFile.close Lifetime.close
  rw [if_neg (by simp [hf])]

theorem InlinedRow.close_of_ended (hr : r.live = false) : r.close c = r := by
  unfold InlinedRow.close Lifetime.close
  rw [if_neg (by simp [hr])]

variable {f f' : DataFile V}

theorem DataFile.id_eq_of_content (h : f.content = f'.content) : f.id = f'.id :=
  congrArg Prod.fst h

theorem DataFile.rowIdAt_eq_of_content (h : f.content = f'.content) (p : Nat)
    (row : FileRow V) : f.rowIdAt p row = f'.rowIdAt p row := by
  simp only [DataFile.content, Prod.mk.injEq] at h
  simp [DataFile.rowIdAt, h.2.2.1]

theorem DataFile.rows_eq_of_content (h : f.content = f'.content) : f.rows = f'.rows := by
  simp only [DataFile.content, Prod.mk.injEq] at h
  exact h.2.2.2.2

theorem DataFile.originsInRange_of_content (h : f.content = f'.content)
    (hf : f.OriginsInRange) : f'.OriginsInRange := by
  simp only [DataFile.content, Prod.mk.injEq] at h
  unfold DataFile.OriginsInRange at hf ⊢
  rwa [h.2.1, h.2.2.2.1, h.2.2.2.2] at hf

theorem DataFile.read_eq_of_content (h : f.content = f'.content)
    (keep : Nat → FileRow V → Bool) : f.read keep = f'.read keep := by
  unfold DataFile.read
  rw [DataFile.id_eq_of_content h, DataFile.rows_eq_of_content h]
  simp only [DataFile.rowIdAt_eq_of_content h]

end Close

/-! ## Evolution of a table -/

abbrev TableTx.Valid (tx : TableTx V) (h : Nat) : Prop := tx.storage.Valid h tx.nextFileId

/-- What a commit at snapshot `c` leaves of a table, for plans made before it. -/
structure TableTx.Evolves (c : Nat) (tx tx' : TableTx V) : Prop where
  nextFile : tx.nextFileId ≤ tx'.nextFileId
  nextRow : tx.storage.nextRowId ≤ tx'.storage.nextRowId
  data : ∀ f' ∈ tx'.storage.dataFiles, f'.id < tx.nextFileId →
    ∃ f ∈ tx.storage.dataFiles, f.content = f'.content ∧ (f'.live = true → f.live = true)
  delete : ∀ d' ∈ tx'.storage.deleteFiles, d'.id < tx.nextFileId →
    ∃ d ∈ tx.storage.deleteFiles, d.content = d'.content
  /-- A live file has the live delete file it had and every recorded deletion, or a
      delete file no earlier plan can have seen. -/
  fence : ∀ i < tx.nextFileId, tx'.storage.dataFileLive i = true →
    ((∀ d : DeleteFile, d.dataFileId = i → d.live = true →
        (d ∈ tx'.storage.deleteFiles ↔ d ∈ tx.storage.deleteFiles)) ∧
      ∀ x ∈ tx.storage.inlinedDeletes, x.fileId = i → x ∈ tx'.storage.inlinedDeletes) ∨
    ∃ d ∈ tx'.storage.deleteFiles, d.dataFileId = i ∧ d.live = true ∧ tx.nextFileId ≤ d.id
  recorded : ∀ x ∈ tx'.storage.inlinedDeletes, x ∈ tx.storage.inlinedDeletes ∨ c ≤ x.beginSnapshot

namespace TableTx.Evolves

theorem refl (c : Nat) (tx : TableTx V) : tx.Evolves c tx where
  nextFile := le_rfl
  nextRow := le_rfl
  data f hf _ := ⟨f, hf, rfl, id⟩
  delete d hd _ := ⟨d, hd, rfl⟩
  fence _ _ _ := .inl ⟨fun _ _ _ => Iff.rfl, fun _ hx _ => hx⟩
  recorded _ hx := .inl hx

theorem dataFileLive (h : tx.Evolves c tx') (hi : i < tx.nextFileId)
    (hl : tx'.storage.dataFileLive i = true) : tx.storage.dataFileLive i = true := by
  obtain ⟨f', hf', rfl, hlive⟩ := TableStorage.dataFileLive_iff.mp hl
  obtain ⟨f, hf, hc, hback⟩ := h.data f' hf' hi
  exact TableStorage.dataFileLive_iff.mpr ⟨f, hf, DataFile.id_eq_of_content hc, hback hlive⟩

theorem trans (h₁ : tx.Evolves c tx') (h₂ : tx'.Evolves c tx'') : tx.Evolves c tx'' where
  nextFile := h₁.nextFile.trans h₂.nextFile
  nextRow := h₁.nextRow.trans h₂.nextRow
  data f'' hf'' hi := by
    obtain ⟨f', hf', hc', hl'⟩ := h₂.data f'' hf'' (hi.trans_le h₁.nextFile)
    obtain ⟨f, hf, hc, hl⟩ := h₁.data f' hf' (by rwa [DataFile.id_eq_of_content hc'])
    exact ⟨f, hf, hc.trans hc', hl ∘ hl'⟩
  delete d'' hd'' hi := by
    obtain ⟨d', hd', hc'⟩ := h₂.delete d'' hd'' (hi.trans_le h₁.nextFile)
    obtain ⟨d, hd, hc⟩ := h₁.delete d' hd' (by rwa [show d'.id = d''.id from congrArg Prod.fst hc'])
    exact ⟨d, hd, hc.trans hc'⟩
  fence i hi hl := by
    have hl' := h₂.dataFileLive (hi.trans_le h₁.nextFile) hl
    rcases h₂.fence i (hi.trans_le h₁.nextFile) hl with ⟨hd₂, hx₂⟩ | ⟨d, hd, hid, hlive, hnew⟩
    · rcases h₁.fence i hi hl' with ⟨hd₁, hx₁⟩ | ⟨d, hd, hid, hlive, hnew⟩
      · exact .inl ⟨fun d hid hlive => (hd₂ d hid hlive).trans (hd₁ d hid hlive),
          fun x hx hid => hx₂ x (hx₁ x hx hid) hid⟩
      · exact .inr ⟨d, (hd₂ d hid hlive).mpr hd, hid, hlive, hnew⟩
    · exact .inr ⟨d, hd, hid, hlive, h₁.nextFile.trans hnew⟩
  recorded x hx := by
    rcases h₂.recorded x hx with hx | hx
    · exact h₁.recorded x hx
    · exact .inr hx

end TableTx.Evolves

/-! ## Giving a data file a new delete file -/

/-- The delete files of data file `i` were ended or removed, in part; the others are
    as they were. -/
structure Trims (c i : Nat) (old new : List DeleteFile) : Prop where
  ids : (new.map (·.id)).Sublist (old.map (·.id))
  origin : ∀ d' ∈ new, d' ∈ old ∨ ∃ d ∈ old, d.dataFileId = i ∧ d' = d.close c
  others : ∀ d ∈ old, d.dataFileId ≠ i → d ∈ new

theorem Trims.refl (c i : Nat) (l : List DeleteFile) : Trims c i l l :=
  ⟨List.Sublist.refl _, fun _ h => .inl h, fun _ h _ => h⟩

theorem Trims.content {old new : List DeleteFile} (h : Trims c i old new) {d' : DeleteFile}
    (hd : d' ∈ new) : ∃ d ∈ old, d.content = d'.content := by
  rcases h.origin d' hd with hold | ⟨d, hold, -, rfl⟩
  · exact ⟨d', hold, rfl⟩
  · exact ⟨d, hold, by simp⟩

/-- Data file `i` gets the delete file `new`; `rest` is what remains of the others. -/
structure SetsDelete (c i : Nat) (new : DeleteFile) (rest : List DeleteFile) (tx tx' : TableTx V) : Prop where
  nextFile : tx'.nextFileId = tx.nextFileId + 1
  storage : tx'.storage = { tx.storage with deleteFiles := rest ++ [new] }
  trims : Trims c i tx.storage.deleteFiles rest
  newId : new.id = tx.nextFileId
  newFile : new.dataFileId = i
  /-- What remains of a live file's delete files has ended. -/
  cleared : tx.storage.dataFileLive i = true → ∀ d ∈ rest, d.dataFileId = i → d.live = false

namespace SetsDelete

variable {new : DeleteFile} {rest : List DeleteFile}

theorem valid (hset : SetsDelete c i new rest tx tx') (hv : tx.Valid c)
    (hi : i < tx.nextFileId) (hlife : new.toLifetime.Bounded c)
    (hdated : ∀ e ∈ new.entries, ∀ σ, e.snapshot = some σ → σ ≤ c) :
    tx'.Valid c := by
  have hmem : ∀ d ∈ tx'.storage.deleteFiles, d ∈ rest ∨ d = new := by
    rw [hset.storage]
    simp
  have hrest : ∀ d ∈ rest, ∃ d₀ ∈ tx.storage.deleteFiles, d.id = d₀.id ∧ d.dataFileId = d₀.dataFileId ∧
      d.entries = d₀.entries ∧ d.toLifetime.Bounded c := by
    intro d hd
    rcases hset.trims.origin d hd with hd | ⟨d₀, hd₀, -, rfl⟩
    · exact ⟨d, hd, rfl, rfl, rfl, hv.deleteLife d hd⟩
    · exact ⟨d₀, hd₀, rfl, rfl, rfl, (hv.deleteLife d₀ hd₀).close le_rfl⟩
  have hold : tx.storage.Valid c (tx.nextFileId + 1) := hv.mono le_rfl (Nat.le_succ _)
  constructor
  case dataIds => rw [hset.storage]; exact hv.dataIds
  case dataBelow => rw [hset.storage, hset.nextFile]; exact hold.dataBelow
  case dataLife => rw [hset.storage]; exact hv.dataLife
  case partialMax => rw [hset.storage]; exact hv.partialMax
  case origins => rw [hset.storage]; exact hv.origins
  case inlinedLife => rw [hset.storage]; exact hv.inlinedLife
  case registered => rw [hset.storage]; exact hv.registered
  case inlinedDelete => rw [hset.storage, hset.nextFile]; exact hold.inlinedDelete
  case rowIds => rw [hset.storage]; exact ⟨hv.rowIds.file, hv.rowIds.inlined⟩
  case deleteIds =>
    -- the new id is the counter, which every older id is below
    rw [hset.storage, List.map_append, List.nodup_append]
    refine ⟨hset.trims.ids.nodup hv.deleteIds, by simp, ?_⟩
    intro a ha b hb
    obtain ⟨d, hd, rfl⟩ := List.mem_map.mp (hset.trims.ids.subset ha)
    obtain rfl : b = new.id := by simpa using hb
    rw [hset.newId]
    exact (hv.deleteBelow d hd).1.ne
  case deleteBelow =>
    rw [hset.nextFile]
    intro d hd
    rcases hmem d hd with hd | rfl
    · obtain ⟨d₀, hd₀, h₁, h₂, -, -⟩ := hrest d hd
      rw [h₁, h₂]
      exact hold.deleteBelow d₀ hd₀
    · rw [hset.newId, hset.newFile]
      omega
  case deleteLife =>
    intro d hd
    rcases hmem d hd with hd | rfl
    · obtain ⟨d₀, -, -, -, -, hb⟩ := hrest d hd
      exact hb
    · exact hlife
  case dated =>
    intro d hd
    rcases hmem d hd with hd | rfl
    · obtain ⟨d₀, hd₀, -, -, he, -⟩ := hrest d hd
      rw [he]
      exact hv.dated d₀ hd₀
    · exact hdated
  case oneLive =>
    have hlive : ∀ j, tx'.storage.dataFileLive j = tx.storage.dataFileLive j := fun j => by
      rw [hset.storage]; rfl
    -- a live delete file that remains was there before; one of file `i` is the new one
    have hback : ∀ d ∈ rest, d.live = true → d ∈ tx.storage.deleteFiles := by
      intro d hd hl
      rcases hset.trims.origin d hd with hd | ⟨d₀, -, -, rfl⟩
      · exact hd
      · simp at hl
    intro d hd d' hd' hf hl hl' heq
    rw [hlive] at hf
    rcases hmem d hd with hd | rfl <;> rcases hmem d' hd' with hd' | rfl
    · exact hv.oneLive d (hback d hd hl) d' (hback d' hd' hl') hf hl hl' heq
    · have hdi : d.dataFileId = i := heq.trans hset.newFile
      rw [hset.cleared (hdi ▸ hf) d hd hdi] at hl
      cases hl
    · have hdi : d'.dataFileId = i := heq.symm.trans hset.newFile
      rw [hset.cleared (hset.newFile ▸ hf) d' hd' hdi] at hl'
      cases hl'
    · rfl

theorem evolves (hset : SetsDelete c i new rest tx tx')
    (hnew : tx.storage.dataFileLive i = true → new.live = true) : tx.Evolves c tx' where
  nextFile := by rw [hset.nextFile]; omega
  nextRow := by rw [hset.storage]
  data f hf _ := ⟨f, by rwa [hset.storage] at hf, rfl, id⟩
  delete d hd hlt := by
    rw [hset.storage] at hd
    rcases List.mem_append.mp hd with hd | hd
    · exact hset.trims.content hd
    · obtain rfl : d = new := by simpa using hd
      rw [hset.newId] at hlt
      omega
  fence j hj hl := by
    rw [hset.storage] at hl ⊢
    by_cases hji : j = i
    · subst hji
      exact .inr ⟨new, by simp, hset.newFile, hnew hl, hset.newId.ge⟩
    · refine .inl ⟨?_, fun _ hx _ => hx⟩
      intro d hd hlive
      constructor
      · intro hm
        rcases List.mem_append.mp hm with hm | hm
        · rcases hset.trims.origin d hm with hm | ⟨d₀, -, -, rfl⟩
          · exact hm
          · simp at hlive
        · obtain rfl : d = new := by simpa using hm
          exact absurd (hd.symm.trans hset.newFile) hji
      · intro hm
        exact List.mem_append_left _ (hset.trims.others d hm (hd ▸ hji))
  recorded x hx := .inl (by rwa [hset.storage] at hx)

theorem gone_eq (hset : SetsDelete c i new rest tx tx') (hnew : new.live = true)
    (hcarry : ∀ d ∈ tx.storage.deleteFiles, d.dataFileId = i → d.live = true → ∀ p, d.holds p = true →
      new.holds p = true) (j p : Nat) :
    tx'.storage.gone j p = (tx.storage.gone j p || (i == j && new.holds p)) := by
  rw [Bool.eq_iff_iff, Bool.or_eq_true, TableStorage.gone_iff, TableStorage.gone_iff, hset.storage]
  simp only [Bool.and_eq_true, beq_iff_eq]
  constructor
  · rintro (⟨d, hd, rfl, hl, hp⟩ | hx)
    · rcases List.mem_append.mp hd with hd | hd
      · rcases hset.trims.origin d hd with hd | ⟨d₀, -, -, rfl⟩
        · exact .inl (.inl ⟨d, hd, rfl, hl, hp⟩)
        · simp at hl
      · obtain rfl : d = new := by simpa using hd
        exact .inr ⟨hset.newFile.symm, hp⟩
    · exact .inl (.inr hx)
  · rintro ((⟨d, hd, rfl, hl, hp⟩ | hx) | ⟨rfl, hp⟩)
    · by_cases hdi : d.dataFileId = i
      · exact .inl ⟨new, by simp, hset.newFile.trans hdi.symm, hnew, hcarry d hd hdi hl p hp⟩
      · exact .inl ⟨d, List.mem_append_left _ (hset.trims.others d hd hdi), rfl, hl, hp⟩
    · exact .inr hx
    · exact .inl ⟨new, by simp, hset.newFile, hnew, hp⟩

theorem gone_of_ne (hset : SetsDelete c i new rest tx tx') {j : Nat} (hj : j ≠ i) (p : Nat) :
    tx'.storage.gone j p = tx.storage.gone j p := by
  rw [Bool.eq_iff_iff, TableStorage.gone_iff, TableStorage.gone_iff, hset.storage]
  refine or_congr_left ⟨?_, ?_⟩
  · rintro ⟨d, hd, hdj, hl, hp⟩
    rcases List.mem_append.mp hd with hd | hd
    · rcases hset.trims.origin d hd with hd | ⟨d₀, -, -, rfl⟩
      · exact ⟨d, hd, hdj, hl, hp⟩
      · simp at hl
    · obtain rfl : d = new := by simpa using hd
      exact absurd (hdj.symm.trans hset.newFile) hj
  · rintro ⟨d, hd, rfl, hl, hp⟩
    exact ⟨d, List.mem_append_left _ (hset.trims.others d hd hj), rfl, hl, hp⟩

end SetsDelete

end DuckLake.Metadata
