import DuckLake.Lib.Lists
import DuckLake.Metadata.Evolve

/- What the parts of a commit do to the rows a table holds now. Each part is an
   `Effect`: it keeps the table well-formed, evolves it, takes away the rows at some
   locations and adds others. Effects compose, so the effect of a commit is read off
   its parts. -/

namespace DuckLake.Metadata

open Versioned Lists

variable {V : Type} {T T' : TableStorage V} {tx tx' tx'' : TableTx V} {c h N i : Nat}

/-! ## Rows by location -/

def Location.isInlined : Location → Bool
  | .file .. => false
  | .inlined .. => true

def Location.isFile (loc : Location) : Bool := !loc.isInlined

namespace TableStorage

variable {f : DataFile V} {r : ScanRow V}

theorem present_congr (hg : ∀ p, T'.gone f.id p = T.gone f.id p) :
    T'.present f = T.present f :=
  DataFile.read_congr fun x _ => by rw [hg]

theorem mem_current : r ∈ T.current ↔ (∃ f ∈ T.liveFiles, r ∈ T.present f) ∨ ∃ x ∈ T.liveInlined, x.toScanRow = r := by
  simp [current]

theorem mem_current_of_inlined {x : InlinedRow V} (hx : x ∈ T.liveInlined) : x.toScanRow ∈ T.current :=
  mem_current.mpr (.inr ⟨x, hx, rfl⟩)

theorem location_of_mem_present (hr : r ∈ T.present f) :
    ∃ p, r.location = .file f.id p ∧ T.gone f.id p = false := by
  obtain ⟨row, p, -, hk, rfl⟩ := DataFile.mem_read.mp hr
  exact ⟨p, rfl, by simpa using hk⟩

theorem inlined_of_mem_current {t i b : Nat} (hr : r ∈ T.current)
    (hloc : r.location = .inlined t i b) : ∃ x ∈ T.liveInlined, x.toScanRow = r := by
  rcases mem_current.mp hr with ⟨f, -, hf⟩ | hx
  · obtain ⟨p, hp, -⟩ := location_of_mem_present hf
    rw [hloc] at hp
    cases hp
  · exact hx

theorem present_eq_read (hg : ∀ p, T.gone f.id p = false) :
    T.present f = f.read fun _ _ => true :=
  DataFile.read_congr fun x _ => by simp [hg]

theorem Valid.gone_eq_false (hv : T.Valid h N) (hi : N ≤ i) (p : Nat) : T.gone i p = false := by
  rw [Bool.eq_false_iff, ne_eq, gone_iff]
  rintro (⟨d, hd, rfl, -, -⟩ | ⟨x, hx, rfl, -⟩)
  · exact absurd (hv.deleteBelow d hd).2 (by omega)
  · exact absurd (hv.inlinedDelete x hx).1 (by omega)

theorem flatMap_present_filter {files : List (DataFile V)} {del : Location → Bool}
    (hg : ∀ f ∈ files, ∀ p, T'.gone f.id p = (T.gone f.id p || del (.file f.id p))) :
    files.flatMap T'.present = (files.flatMap T.present).filter fun r => !del r.location := by
  rw [List.filter_flatMap]
  refine List.flatMap_congr fun f hf => ?_
  unfold present
  rw [← DataFile.read_and (fun p _ => !T.gone f.id p) (fun l => !del l)]
  exact DataFile.read_congr fun x _ => by simp [hg f hf]

theorem map_toScanRow_filter {rows : List (InlinedRow V)} {del : Location → Bool} :
    (rows.map InlinedRow.toScanRow).filter (fun r => !del r.location) =
      (rows.filter fun r => !del (.inlined r.table r.rowId r.beginSnapshot)).map InlinedRow.toScanRow := by
  rw [List.filter_map]
  rfl

end TableStorage

/-! ## Effects -/

/-- The inlined rows are as they were, apart from those born at `c`. -/
def ExtendsInlined (c : Nat) (T T' : TableStorage V) : Prop :=
  ∃ new, T'.inlinedRows = T.inlinedRows ++ new ∧ ∀ r ∈ new, r.beginSnapshot = c

theorem ExtendsInlined.of_eq (heq : T'.inlinedRows = T.inlinedRows) : ExtendsInlined c T T' :=
  ⟨[], by simp [heq], by simp⟩

/-- An update of a table at snapshot `c`: the rows at a location in `del` go, `ins` come. -/
structure Effect (c : Nat) (del : Location → Bool) (ins : List (ScanRow V)) (tx tx' : TableTx V) : Prop where
  valid : tx'.Valid c
  evolves : tx.Evolves c tx'
  rows : tx'.storage.current.Perm ((tx.storage.current.filter fun r => !del r.location) ++ ins)
  inlined : (∀ r ∈ tx.storage.liveInlined, del r.toScanRow.location = false) →
    ExtendsInlined c tx.storage tx'.storage

namespace Effect

variable {del del' del₁ del₂ : Location → Bool} {ins ins' ins₁ ins₂ : List (ScanRow V)}

theorem refl (hv : tx.Valid c) : Effect c (fun _ => false) [] tx tx :=
  ⟨hv, .refl c tx, by simp, fun _ => .of_eq rfl⟩

/-- The second update may take away rows of files the first adds. -/
theorem andThen (h₁ : Effect c del₁ ins₁ tx tx') (h₂ : Effect c del₂ ins₂ tx' tx'')
    (hins : ∀ r ∈ ins₁, r.location.isInlined = true → del₂ r.location = false) :
    Effect c (fun l => del₁ l || del₂ l) (ins₁.filter (fun r => !del₂ r.location) ++ ins₂) tx tx'' where
  valid := h₂.valid
  evolves := h₁.evolves.trans h₂.evolves
  rows := by
    refine h₂.rows.trans ?_
    have hstep := h₁.rows.filter fun r => !del₂ r.location
    rw [List.filter_append, List.filter_filter] at hstep
    rw [← List.append_assoc]
    refine (hstep.append_right ins₂).trans (List.Perm.of_eq ?_)
    simp only [Bool.not_or, Bool.and_comm]
  inlined hkeep := by
    have hboth : ∀ r ∈ tx.storage.liveInlined, del₁ r.toScanRow.location = false ∧
        del₂ r.toScanRow.location = false := fun r hr => by simpa using hkeep r hr
    obtain ⟨new₁, heq₁, hnew₁⟩ := h₁.inlined fun r hr => (hboth r hr).1
    -- a live inlined row of the state between is an old one or one the first update added
    have hlater : ∀ r ∈ tx'.storage.liveInlined, del₂ r.toScanRow.location = false := by
      intro r hr
      have hmem := h₁.rows.mem_iff.mp (TableStorage.mem_current_of_inlined hr)
      rcases List.mem_append.mp hmem with hm | hm
      · obtain ⟨x, hx, hxr⟩ := TableStorage.inlined_of_mem_current (List.mem_filter.mp hm).1 rfl
        rw [← hxr]
        exact (hboth x hx).2
      · exact hins _ hm rfl
    obtain ⟨new₂, heq₂, hnew₂⟩ := h₂.inlined hlater
    refine ⟨new₁ ++ new₂, by rw [heq₂, heq₁, List.append_assoc], ?_⟩
    intro r hr
    exact (List.mem_append.mp hr).elim (hnew₁ r) (hnew₂ r)

/-- The second update takes away none of the rows the first adds. -/
theorem trans (h₁ : Effect c del₁ ins₁ tx tx') (h₂ : Effect c del₂ ins₂ tx' tx'')
    (hins : ∀ r ∈ ins₁, del₂ r.location = false) :
    Effect c (fun l => del₁ l || del₂ l) (ins₁ ++ ins₂) tx tx'' := by
  have hkept : ins₁.filter (fun r => !del₂ r.location) = ins₁ :=
    List.filter_eq_self.mpr fun r hr => by simp [hins r hr]
  exact hkept ▸ h₁.andThen h₂ fun r hr _ => hins r hr

theorem of_eq (h : Effect c del ins tx tx') (hs : tx''.storage = tx'.storage)
    (hN : tx''.nextFileId = tx'.nextFileId) : Effect c del ins tx tx'' := by
  obtain ⟨storage, nextFileId, _, _⟩ := tx''
  obtain rfl : storage = tx'.storage := hs
  obtain rfl : nextFileId = tx'.nextFileId := hN
  exact ⟨h.valid, { h.evolves with }, h.rows, h.inlined⟩

/-- Two ways to say which rows go agree when they agree on the rows there are. -/
theorem congr (h : Effect c del ins tx tx') (hdel : ∀ r ∈ tx.storage.current, del r.location = del' r.location)
    (hins : ins.Perm ins') : Effect c del' ins' tx tx' where
  valid := h.valid
  evolves := h.evolves
  rows := by
    refine h.rows.trans (List.Perm.append (List.Perm.of_eq ?_) hins)
    exact List.filter_congr fun r hr => by rw [hdel r hr]
  inlined hkeep := h.inlined fun r hr => (hdel _ (TableStorage.mem_current_of_inlined hr)).trans (hkeep r hr)

end Effect

/-! ## Adding rows -/

theorem Effect.addDataFile {f : DataFile V} {n : Nat} (hv : tx.Valid c)
    (hstorage : tx'.storage = { tx.storage with dataFiles := tx.storage.dataFiles ++ [f], nextRowId := n })
    (hnext : tx'.nextFileId = tx.nextFileId + 1) (hid : f.id = tx.nextFileId) (hlive : f.live = true)
    (hlife : f.toLifetime.Bounded c) (hmax : ∀ m, f.partialMax = some m → m ≤ c)
    (horigins : f.OriginsInRange) (hn : tx.storage.nextRowId ≤ n)
    (hids : ∀ x ∈ f.rows.zipIdx, ∀ i, f.rowIdAt x.2 x.1 = some i → i < n) :
    Effect c (fun _ => false) (f.read fun _ _ => true) tx tx' := by
  obtain ⟨storage, nextFileId, _, _⟩ := tx'
  obtain rfl : storage = _ := hstorage
  obtain rfl : nextFileId = _ := hnext
  have hnew : ∀ g ∈ tx.storage.dataFiles ++ [f], g ∈ tx.storage.dataFiles ∨ g = f := by simp
  have hold : tx.storage.Valid c (tx.nextFileId + 1) := hv.mono le_rfl (Nat.le_succ _)
  have hlivefile : ∀ j < tx.nextFileId, TableStorage.dataFileLive
      { tx.storage with dataFiles := tx.storage.dataFiles ++ [f], nextRowId := n } j = true →
      tx.storage.dataFileLive j = true := by
    intro j hj hfile
    obtain ⟨g, hg, rfl, hl⟩ := TableStorage.dataFileLive_iff.mp hfile
    rcases hnew g hg with hg | rfl
    · exact TableStorage.dataFileLive_iff.mpr ⟨g, hg, rfl, hl⟩
    · omega
  refine ⟨?_, ?_, ?_, fun _ => .of_eq rfl⟩
  · exact
      { hold with
        dataIds := by
          rw [List.map_append, List.nodup_append]
          refine ⟨hv.dataIds, by simp, ?_⟩
          intro a ha b hb
          obtain ⟨g, hg, rfl⟩ := List.mem_map.mp ha
          obtain rfl : b = f.id := by simpa using hb
          rw [hid]
          exact (hv.dataBelow g hg).ne
        dataBelow := fun g hg => (hnew g hg).elim (hold.dataBelow g) fun h => by
          rw [h, hid]
          exact Nat.lt_succ_self _
        dataLife := fun g hg => (hnew g hg).elim (hv.dataLife g) (· ▸ hlife)
        partialMax := fun g hg => (hnew g hg).elim (hv.partialMax g) (· ▸ hmax)
        origins := fun g hg => (hnew g hg).elim (hv.origins g) (· ▸ horigins)
        oneLive := fun d hd d' hd' hl => hv.oneLive d hd d' hd' (hlivefile _ (hv.deleteBelow d hd).2 hl)
        rowIds :=
          { file := fun g hg x hx i hi => by
              rcases hnew g hg with hg | rfl
              · exact (hv.rowIds.file g hg x hx i hi).trans_le hn
              · exact hids x hx i hi
            inlined := fun r hr => (hv.rowIds.inlined r hr).trans_le hn } }
  · exact
      { TableTx.Evolves.refl c tx with
        nextFile := Nat.le_succ _
        nextRow := hn
        data := fun g hg hlt => by
          rcases hnew g hg with hg | rfl
          · exact ⟨g, hg, rfl, id⟩
          · omega
        fence := fun _ _ _ => .inl ⟨fun _ _ _ => Iff.rfl, fun _ hx _ => hx⟩ }
  · have hpresent : tx.storage.present f = f.read fun _ _ => true :=
      TableStorage.present_eq_read fun p => hv.gone_eq_false hid.ge p
    have hlive' : (tx.storage.dataFiles ++ [f]).filter (·.live) = tx.storage.liveFiles ++ [f] := by
      rw [List.filter_append, List.filter_singleton, hlive]
      rfl
    refine List.Perm.trans (List.Perm.of_eq (congrArg (·.flatMap tx.storage.present ++ _) hlive')) ?_
    rw [List.flatMap_append, List.flatMap_singleton, hpresent]
    simp only [Bool.not_false, List.filter_true]
    unfold TableStorage.current
    rw [List.append_assoc, List.append_assoc]
    exact List.Perm.append_left _ List.perm_append_comm

theorem Effect.addInlinedRows {rows : List (InlinedRow V)} {tables : List Nat} {n : Nat}
    (hv : tx.Valid c)
    (hrows : ∀ r ∈ rows, r.live = true ∧ r.beginSnapshot = c ∧ tables.contains r.table = true ∧ r.rowId < n)
    (htables : ∀ t, tx.storage.inlinedTables.contains t = true → tables.contains t = true)
    (hn : tx.storage.nextRowId ≤ n) :
    Effect c (fun _ => false) (rows.map InlinedRow.toScanRow) tx
      { tx with storage := { tx.storage with inlinedRows := tx.storage.inlinedRows ++ rows,
                                             inlinedTables := tables, nextRowId := n } } where
  valid :=
    { hv with
      inlinedLife := fun r hr => (List.mem_append.mp hr).elim (hv.inlinedLife r) fun hr =>
        ⟨(hrows r hr).2.1.le, by simp [Lifetime.live_iff.mp (hrows r hr).1]⟩
      registered := fun r hr => (List.mem_append.mp hr).elim (fun hr => htables _ (hv.registered r hr))
        fun hr => (hrows r hr).2.2.1
      rowIds :=
        { file := fun f hf x hx i hi => (hv.rowIds.file f hf x hx i hi).trans_le hn
          inlined := fun r hr => (List.mem_append.mp hr).elim (fun hr => (hv.rowIds.inlined r hr).trans_le hn)
            fun hr => (hrows r hr).2.2.2 } }
  evolves := { TableTx.Evolves.refl c tx with nextRow := hn }
  rows := by
    have hlive : rows.filter (·.live) = rows := List.filter_eq_self.mpr fun r hr => (hrows r hr).1
    refine List.Perm.of_eq ?_
    simp only [Bool.not_false, List.filter_true]
    unfold TableStorage.current TableStorage.liveInlined
    simp only [List.filter_append, hlive, List.map_append, ← List.append_assoc]
    rfl
  inlined _ := ⟨rows, rfl, fun r hr => (hrows r hr).2.1⟩

/-! ## Ending rows -/

variable {del : Location → Bool}

theorem Effect.endDataFiles {P : DataFile V → Prop} [DecidablePred P] (hv : tx.Valid c)
    (hfile : ∀ f ∈ tx.storage.dataFiles, ∀ p, del (.file f.id p) = decide (P f))
    (hinlined : ∀ t r b, del (.inlined t r b) = false) :
    Effect c del [] tx { tx with storage := { tx.storage with
      dataFiles := tx.storage.dataFiles.map fun f => if P f then f.close c else f } } := by
  have hmem : ∀ g ∈ tx.storage.dataFiles.map (fun f => if P f then f.close c else f),
      ∃ f ∈ tx.storage.dataFiles, f.content = g.content ∧ (g.live = true → f.live = true) ∧
        g.toLifetime.Bounded c ∧ g.partialMax = f.partialMax := by
    intro g hg
    obtain ⟨f, hf, rfl⟩ := List.mem_map.mp hg
    split
    · exact ⟨f, hf, by simp, by simp, (hv.dataLife f hf).close le_rfl, rfl⟩
    · exact ⟨f, hf, rfl, id, hv.dataLife f hf, rfl⟩
  have hids : (tx.storage.dataFiles.map fun f => if P f then f.close c else f).map (·.id) =
      tx.storage.dataFiles.map (·.id) := by
    rw [List.map_map]
    refine List.map_congr_left fun f _ => ?_
    simp only [Function.comp]
    split <;> rfl
  have hback : ∀ j, TableStorage.dataFileLive { tx.storage with
      dataFiles := tx.storage.dataFiles.map fun f => if P f then f.close c else f } j = true →
      tx.storage.dataFileLive j = true := by
    intro j hj
    obtain ⟨g, hg, rfl, hl⟩ := TableStorage.dataFileLive_iff.mp hj
    obtain ⟨f, hf, hc, hlive, -, -⟩ := hmem g hg
    exact TableStorage.dataFileLive_iff.mpr ⟨f, hf, DataFile.id_eq_of_content hc, hlive hl⟩
  refine ⟨?_, ?_, ?_, fun _ => .of_eq rfl⟩
  · exact
      { hv with
        dataIds := by rw [hids]; exact hv.dataIds
        dataBelow := fun g hg => by
          obtain ⟨f, hf, hc, -⟩ := hmem g hg
          rw [← DataFile.id_eq_of_content hc]
          exact hv.dataBelow f hf
        dataLife := fun g hg => by
          obtain ⟨f, hf, -, -, hb, -⟩ := hmem g hg
          exact hb
        partialMax := fun g hg => by
          obtain ⟨f, hf, -, -, -, hm⟩ := hmem g hg
          rw [hm]
          exact hv.partialMax f hf
        origins := fun g hg => by
          obtain ⟨f, hf, hc, -⟩ := hmem g hg
          exact DataFile.originsInRange_of_content hc (hv.origins f hf)
        oneLive := fun d hd d' hd' hl => hv.oneLive d hd d' hd' (hback _ hl)
        rowIds :=
          { file := fun g hg x hx i hi => by
              obtain ⟨f, hf, hc, -⟩ := hmem g hg
              rw [← DataFile.rows_eq_of_content hc] at hx
              rw [← DataFile.rowIdAt_eq_of_content hc] at hi
              exact hv.rowIds.file f hf x hx i hi
            inlined := hv.rowIds.inlined } }
  · exact
      { TableTx.Evolves.refl c tx with
        data := fun g hg _ => by
          obtain ⟨f, hf, hc, hl, -⟩ := hmem g hg
          exact ⟨f, hf, hc, hl⟩
        fence := fun _ _ _ => .inl ⟨fun _ _ _ => Iff.rfl, fun _ hx _ => hx⟩ }
  · refine List.Perm.of_eq ?_
    unfold TableStorage.current TableStorage.liveFiles
    rw [List.append_nil, List.filter_append, filter_map_ite (fun f => f.live_close)]
    congr 1
    · refine flatMap_filter_eq fun f hf r hr => ?_
      obtain ⟨p, hp, -⟩ := TableStorage.location_of_mem_present hr
      rw [hp, hfile f (List.mem_filter.mp hf).1]
    · symm
      exact List.filter_eq_self.mpr fun r hr => by
        obtain ⟨x, -, rfl⟩ := List.mem_map.mp hr
        simp [InlinedRow.toScanRow, hinlined]

theorem Effect.endInlinedRows {P : InlinedRow V → Prop} [DecidablePred P] (hv : tx.Valid c)
    (hinlined : ∀ r ∈ tx.storage.inlinedRows, del r.toScanRow.location = decide (P r))
    (hfile : ∀ i p, del (.file i p) = false) :
    Effect c del [] tx { tx with storage := { tx.storage with
      inlinedRows := tx.storage.inlinedRows.map fun r => if P r then r.close c else r } } := by
  have hmem : ∀ x ∈ tx.storage.inlinedRows.map (fun r => if P r then r.close c else r),
      ∃ r ∈ tx.storage.inlinedRows, x.table = r.table ∧ x.rowId = r.rowId ∧ x.toLifetime.Bounded c := by
    intro x hx
    obtain ⟨r, hr, rfl⟩ := List.mem_map.mp hx
    split
    · exact ⟨r, hr, rfl, rfl, (hv.inlinedLife r hr).close le_rfl⟩
    · exact ⟨r, hr, rfl, rfl, hv.inlinedLife r hr⟩
  refine ⟨?_, ?_, ?_, ?_⟩
  · exact
      { hv with
        inlinedLife := fun x hx => by
          obtain ⟨r, -, -, -, hb⟩ := hmem x hx
          exact hb
        registered := fun x hx => by
          obtain ⟨r, hr, ht, -⟩ := hmem x hx
          rw [ht]
          exact hv.registered r hr
        rowIds :=
          { file := hv.rowIds.file
            inlined := fun x hx => by
              obtain ⟨r, hr, -, hi, -⟩ := hmem x hx
              rw [hi]
              exact hv.rowIds.inlined r hr } }
  · exact { TableTx.Evolves.refl c tx with }
  · refine List.Perm.of_eq ?_
    unfold TableStorage.current TableStorage.liveInlined
    rw [List.append_nil, List.filter_append, filter_map_ite (fun r => r.live_close), List.filter_map]
    congr 1
    · symm
      refine List.filter_eq_self.mpr fun r hr => ?_
      obtain ⟨f, -, hr⟩ := List.mem_flatMap.mp hr
      obtain ⟨p, hp, -⟩ := TableStorage.location_of_mem_present hr
      simp [hp, hfile]
    · congr 1
      refine List.filter_congr fun r hr => ?_
      rw [Function.comp, hinlined r (List.mem_filter.mp hr).1]
  · -- only rows that have ended already are ended
    intro hkeep
    refine .of_eq ((List.map_congr_left fun r hr => ?_).trans (List.map_id _))
    split
    · next hp =>
      refine InlinedRow.close_of_ended ?_
      rw [Bool.eq_false_iff]
      intro hl
      have hno := hkeep r (List.mem_filter.mpr ⟨hr, hl⟩)
      rw [hinlined r hr] at hno
      exact absurd hp (by simpa using hno)
    · rfl

/-! ## Deleting positions -/

theorem current_of_gone (del : Location → Bool) (hfiles : T'.dataFiles = T.dataFiles)
    (hrows : T'.inlinedRows = T.inlinedRows) (hinlined : ∀ t r b, del (.inlined t r b) = false)
    (hgone : ∀ f ∈ T.liveFiles, ∀ p, T'.gone f.id p = (T.gone f.id p || del (.file f.id p))) :
    T'.current.Perm ((T.current.filter fun r => !del r.location) ++ []) := by
  refine List.Perm.of_eq ?_
  have hlive : T'.liveFiles = T.liveFiles := congrArg (List.filter _) hfiles
  have hkept : (T.liveInlined.map InlinedRow.toScanRow).filter (fun r => !del r.location) =
      T'.liveInlined.map InlinedRow.toScanRow := by
    unfold TableStorage.liveInlined
    rw [hrows]
    refine List.filter_eq_self.mpr fun r hr => ?_
    obtain ⟨x, -, rfl⟩ := List.mem_map.mp hr
    simp [InlinedRow.toScanRow, hinlined]
  unfold TableStorage.current
  rw [List.append_nil, List.filter_append, hkept, hlive, TableStorage.flatMap_present_filter hgone]

theorem Effect.recordDeletes {new : List InlinedDelete}
    (hv : tx.Valid c) (hnew : ∀ x ∈ new, x.fileId < tx.nextFileId ∧ x.beginSnapshot = c)
    (hfile : ∀ i p, del (.file i p) = new.any fun x => x.fileId == i && x.position == p)
    (hinlined : ∀ t r b, del (.inlined t r b) = false) :
    Effect c del [] tx { tx with storage := { tx.storage with
      inlinedDeletes := tx.storage.inlinedDeletes ++ new } } where
  valid :=
    { hv with
      inlinedDelete := fun x hx => (List.mem_append.mp hx).elim (hv.inlinedDelete x)
        fun hx => ⟨(hnew x hx).1, (hnew x hx).2.le⟩
      rowIds := ⟨hv.rowIds.file, hv.rowIds.inlined⟩ }
  evolves :=
    { TableTx.Evolves.refl c tx with
      fence := fun _ _ _ => .inl ⟨fun _ _ _ => Iff.rfl, fun _ hx _ => List.mem_append_left _ hx⟩
      recorded := fun x hx => (List.mem_append.mp hx).imp_right fun hx => (hnew x hx).2.ge }
  rows := by
    refine current_of_gone del rfl rfl hinlined fun f _ p => ?_
    simp only [TableStorage.gone, List.any_append, hfile, Bool.or_assoc]
  inlined _ := .of_eq rfl

theorem Effect.setDelete {new : DeleteFile} {rest : List DeleteFile}
    (hset : SetsDelete c i new rest tx tx') (hv : tx.Valid c) (hi : i < tx.nextFileId)
    (hlife : new.toLifetime.Bounded c) (hlive : new.live = true)
    (hdated : ∀ e ∈ new.entries, ∀ σ, e.snapshot = some σ → σ ≤ c)
    (hcarry : ∀ d ∈ tx.storage.deleteFiles, d.dataFileId = i → d.live = true → ∀ p, d.holds p = true →
      new.holds p = true)
    (hfile : ∀ j p, del (.file j p) = (i == j && new.holds p))
    (hinlined : ∀ t r b, del (.inlined t r b) = false) : Effect c del [] tx tx' where
  valid := hset.valid hv hi hlife hdated
  evolves := hset.evolves fun _ => hlive
  rows := by
    have hfiles : tx'.storage.dataFiles = tx.storage.dataFiles := by rw [hset.storage]
    have hrows : tx'.storage.inlinedRows = tx.storage.inlinedRows := by rw [hset.storage]
    refine current_of_gone del hfiles hrows hinlined fun f _ p => ?_
    rw [hset.gone_eq hlive hcarry, hfile]
  inlined _ := .of_eq (by rw [hset.storage])

theorem Effect.setDelete_of_ended {new : DeleteFile} {rest : List DeleteFile}
    (hset : SetsDelete c i new rest tx tx') (hv : tx.Valid c) (hi : i < tx.nextFileId)
    (hlife : new.toLifetime.Bounded c) (hended : tx.storage.dataFileLive i = false)
    (hdated : ∀ e ∈ new.entries, ∀ σ, e.snapshot = some σ → σ ≤ c) :
    Effect c (fun _ => false) [] tx tx' where
  valid := hset.valid hv hi hlife hdated
  evolves := hset.evolves fun hl => by rw [hended] at hl; cases hl
  rows := by
    have hfiles : tx'.storage.dataFiles = tx.storage.dataFiles := by rw [hset.storage]
    have hrows : tx'.storage.inlinedRows = tx.storage.inlinedRows := by rw [hset.storage]
    refine current_of_gone (fun _ => false) hfiles hrows (fun _ _ _ => rfl) fun f hf p => ?_
    have hne : f.id ≠ i := by
      rintro rfl
      rw [TableStorage.dataFileLive_of_mem hf] at hended
      cases hended
    rw [Bool.or_false, hset.gone_of_ne hne]
  inlined _ := .of_eq (by rw [hset.storage])

theorem Effect.endDeleteFiles {P : DeleteFile → Prop} [DecidablePred P]
    (hv : tx.Valid c)
    (hended : ∀ d ∈ tx.storage.deleteFiles, P d → tx.storage.dataFileLive d.dataFileId = false) :
    Effect c (fun _ => false) [] tx { tx with storage := { tx.storage with
      deleteFiles := tx.storage.deleteFiles.map fun d => if P d then d.close c else d } } := by
  have hmem : ∀ g ∈ tx.storage.deleteFiles.map (fun d => if P d then d.close c else d),
      ∃ d ∈ tx.storage.deleteFiles, d.content = g.content ∧ (g.live = true → g = d) ∧
        g.toLifetime.Bounded c := by
    intro g hg
    obtain ⟨d, hd, rfl⟩ := List.mem_map.mp hg
    split
    · exact ⟨d, hd, by simp, by simp, (hv.deleteLife d hd).close le_rfl⟩
    · exact ⟨d, hd, rfl, fun _ => rfl, hv.deleteLife d hd⟩
  have hids : (tx.storage.deleteFiles.map fun d => if P d then d.close c else d).map (·.id) =
      tx.storage.deleteFiles.map (·.id) := by
    rw [List.map_map]
    refine List.map_congr_left fun d _ => ?_
    simp only [Function.comp]
    split <;> rfl
  -- a live data file keeps its delete files as they are
  have hkeep : ∀ j, tx.storage.dataFileLive j = true → ∀ d : DeleteFile, d.dataFileId = j → d.live = true →
      (d ∈ tx.storage.deleteFiles.map (fun d => if P d then d.close c else d) ↔ d ∈ tx.storage.deleteFiles) := by
    intro j hj d hdj hl
    constructor
    · intro hd
      obtain ⟨d₀, hd₀, -, heq, -⟩ := hmem d hd
      exact heq hl ▸ hd₀
    · intro hd
      refine List.mem_map.mpr ⟨d, hd, if_neg fun hp => ?_⟩
      have hdead := hended d hd hp
      rw [hdj, hj] at hdead
      cases hdead
  refine ⟨?_, ?_, ?_, fun _ => .of_eq rfl⟩
  · exact
      { hv with
        deleteIds := by rw [hids]; exact hv.deleteIds
        deleteBelow := fun g hg => by
          obtain ⟨d, hd, hc, -⟩ := hmem g hg
          simp only [DeleteFile.content, Prod.mk.injEq] at hc
          rw [← hc.1, ← hc.2.1]
          exact hv.deleteBelow d hd
        deleteLife := fun g hg => by
          obtain ⟨d, -, -, -, hb⟩ := hmem g hg
          exact hb
        dated := fun g hg => by
          obtain ⟨d, hd, hc, -⟩ := hmem g hg
          simp only [DeleteFile.content, Prod.mk.injEq] at hc
          rw [← hc.2.2.2]
          exact hv.dated d hd
        oneLive := fun g hg g' hg' hl hlive hlive' heq =>
          hv.oneLive g ((hkeep _ hl g rfl hlive).mp hg) g' ((hkeep _ hl g' heq.symm hlive').mp hg') hl hlive
            hlive' heq
        rowIds := ⟨hv.rowIds.file, hv.rowIds.inlined⟩ }
  · exact
      { TableTx.Evolves.refl c tx with
        delete := fun g hg _ => by
          obtain ⟨d, hd, hc, -⟩ := hmem g hg
          exact ⟨d, hd, hc⟩
        fence := fun j _ hl => .inl ⟨hkeep j hl, fun _ hx _ => hx⟩ }
  · refine current_of_gone (fun _ => false) rfl rfl (fun _ _ _ => rfl) fun f hf p => ?_
    rw [Bool.or_false, Bool.eq_iff_iff, TableStorage.gone_iff, TableStorage.gone_iff]
    refine or_congr_left (exists_congr fun d => ?_)
    constructor
    · rintro ⟨hd, hdf, hl, hp⟩
      exact ⟨(hkeep _ (TableStorage.dataFileLive_of_mem hf) d hdf hl).mp hd, hdf, hl, hp⟩
    · rintro ⟨hd, hdf, hl, hp⟩
      exact ⟨(hkeep _ (TableStorage.dataFileLive_of_mem hf) d hdf hl).mpr hd, hdf, hl, hp⟩

/-! ## Removing files -/

namespace TableStorage

variable {ids : List Nat}

theorem dataFileLive_of_removeDataFiles (hl : (T.removeDataFiles ids).dataFileLive i = true) :
    T.dataFileLive i = true ∧ ids.contains i = false := by
  obtain ⟨f, hf, rfl, hlive⟩ := dataFileLive_iff.mp hl
  obtain ⟨hf, hn⟩ := List.mem_filter.mp hf
  exact ⟨dataFileLive_iff.mpr ⟨f, hf, rfl, hlive⟩, by simpa using hn⟩

theorem mem_deleteFiles_removeDataFiles {d : DeleteFile} (hd : ids.contains d.dataFileId = false) :
    d ∈ (T.removeDataFiles ids).deleteFiles ↔ d ∈ T.deleteFiles := by
  unfold removeDataFiles
  rw [List.mem_filter, hd]
  simp

theorem gone_removeDataFiles (hi : ids.contains i = false) (p : Nat) :
    (T.removeDataFiles ids).gone i p = T.gone i p := by
  rw [Bool.eq_iff_iff, gone_iff, gone_iff]
  refine or_congr_left (exists_congr fun d => ?_)
  constructor
  · rintro ⟨hd, rfl, hrest⟩
    exact ⟨(mem_deleteFiles_removeDataFiles hi).mp hd, rfl, hrest⟩
  · rintro ⟨hd, rfl, hrest⟩
    exact ⟨(mem_deleteFiles_removeDataFiles hi).mpr hd, rfl, hrest⟩

theorem Valid.removeDataFiles (hv : T.Valid h N) : (T.removeDataFiles ids).Valid h N :=
  { hv with
    dataIds := (List.filter_sublist.map _).nodup hv.dataIds
    dataBelow := fun f hf => hv.dataBelow f (List.mem_filter.mp hf).1
    dataLife := fun f hf => hv.dataLife f (List.mem_filter.mp hf).1
    partialMax := fun f hf => hv.partialMax f (List.mem_filter.mp hf).1
    origins := fun f hf => hv.origins f (List.mem_filter.mp hf).1
    deleteIds := (List.filter_sublist.map _).nodup hv.deleteIds
    deleteBelow := fun d hd => hv.deleteBelow d (List.mem_filter.mp hd).1
    deleteLife := fun d hd => hv.deleteLife d (List.mem_filter.mp hd).1
    dated := fun d hd => hv.dated d (List.mem_filter.mp hd).1
    oneLive := fun d hd d' hd' hl => hv.oneLive d (List.mem_filter.mp hd).1 d' (List.mem_filter.mp hd').1
      (dataFileLive_of_removeDataFiles hl).1
    rowIds := ⟨fun f hf => hv.rowIds.file f (List.mem_filter.mp hf).1, hv.rowIds.inlined⟩ }

theorem current_removeDataFiles {del : Location → Bool} (hfile : ∀ j p, del (.file j p) = ids.contains j)
    (hinlined : ∀ t r b, del (.inlined t r b) = false) :
    (T.removeDataFiles ids).current = T.current.filter fun r => !del r.location := by
  have hlive : (T.removeDataFiles ids).liveFiles = T.liveFiles.filter fun f => !ids.contains f.id := by
    unfold liveFiles removeDataFiles
    rw [List.filter_filter, List.filter_filter]
    simp only [Bool.and_comm]
  unfold current
  rw [List.filter_append, hlive]
  congr 1
  · have hpresent : ∀ f ∈ T.liveFiles.filter (fun f => !ids.contains f.id),
        (T.removeDataFiles ids).present f = T.present f := fun f hf =>
      present_congr (gone_removeDataFiles (by simpa using (List.mem_filter.mp hf).2))
    rw [List.flatMap_congr hpresent]
    refine flatMap_filter_eq fun f _ r hr => ?_
    obtain ⟨p, hp, -⟩ := location_of_mem_present hr
    rw [hp, hfile]
  · symm
    refine List.filter_eq_self.mpr fun r hr => ?_
    obtain ⟨x, -, rfl⟩ := List.mem_map.mp hr
    simp [InlinedRow.toScanRow, hinlined]

end TableStorage

theorem Effect.removeSources {ids : List Nat}
    (hv : tx.Valid c) (hfile : ∀ j p, del (.file j p) = ids.contains j)
    (hinlined : ∀ t r b, del (.inlined t r b) = false) : Effect c del [] tx (tx.removeSources ids) where
  valid := hv.removeDataFiles
  evolves :=
    { nextFile := le_rfl
      nextRow := le_rfl
      data := fun f hf _ => ⟨f, (List.mem_filter.mp hf).1, rfl, id⟩
      delete := fun d hd _ => ⟨d, (List.mem_filter.mp hd).1, rfl⟩
      fence := fun j _ hl => .inl ⟨fun d hd _ => TableStorage.mem_deleteFiles_removeDataFiles
        (hd ▸ (TableStorage.dataFileLive_of_removeDataFiles hl).2), fun _ hx _ => hx⟩
      recorded := fun x hx => .inl hx }
  rows := by
    rw [List.append_nil]
    exact List.Perm.of_eq (TableStorage.current_removeDataFiles hfile hinlined)
  inlined _ := .of_eq rfl

end DuckLake.Metadata
