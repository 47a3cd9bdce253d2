import DuckLake.Lake.Deletion

/- What readers of the newest snapshot see of a commit. The conflict checks let a
   transaction commit on another catalog than the one it was planned from; what it then
   does to the rows is what its statement means, applied to the rows just before it, as
   in a serial run. Compactions and flushes are not seen at all. A Replace takes away what
   its base showed, unless newer rows were merged with older ones in between. -/

namespace DuckLake.Lake

open Metadata Plan Versioned Checked Optimistic

variable {V : Type} {cat cat' : Catalog V} {t : Nat} {p : Transaction V}

/-- The rows of a table at the newest snapshot, each with its row id. -/
def visibleRows (cat : Catalog V) (t : Nat) : List (Option Nat × V) :=
  ((cat.storage t).scan cat.head).map fun r => (r.rowId, r.value)

/-- The rows a stage leaves: a Replace none, any other those it does not delete. -/
def remainingRows (cat : Catalog V) (write : StagedTableWrite V) : List (Option Nat × V) :=
  (((cat.storage write.tableId).scan cat.head).filter fun r =>
    !(decide (write.mode = .replace) || write.deletes (cat.head + 1) r.location)).map fun r => (r.rowId, r.value)

/-- What a transaction means: the rows of table `t` after it, when it is run on `cat`. -/
def Transaction.Means (cat : Catalog V) (t : Nat) (after : List (Option Nat × V)) : Transaction V → Prop
  | .staged writes _ =>
    (∀ write ∈ writes, write.tableId = t → ∃ n', (cat.storage t).nextRowId ≤ n' ∧
      after.Perm (remainingRows cat write ++ write.newRows (cat.storage t).nextRowId n')) ∧
    (t ∉ writes.map (·.tableId) → after.Perm (visibleRows cat t))
  | .truncate tableId _ => after.Perm (if t = tableId then [] else visibleRows cat t)
  | .compaction .. | .flush .. => after.Perm (visibleRows cat t)

/-- The ledger after `cat` has further snapshots with consecutive ids, a change row each. -/
def AppendsLedger (cat cat' : Catalog V) : Prop :=
  ∃ snapshots changes, cat'.snapshots = cat.snapshots ++ snapshots ∧ cat'.changes = cat.changes ++ changes ∧
    cat'.head = cat.head + snapshots.length ∧
    snapshots.map (·.snapshotId) = List.range' (cat.head + 1) snapshots.length ∧
    changes.map (·.snapshotId) = snapshots.map (·.snapshotId)

/-! ## One commit -/

theorem visibleRows_eq (hinv : cat.Inv) :
    visibleRows cat t = (cat.storage t).current.map fun r => (r.rowId, r.value) := by
  rw [visibleRows, (hinv.valid t).scan_eq_current le_rfl]

theorem visibleRows_of_storage (hinv : cat.Inv) (hinv' : cat'.Inv) (hs : cat'.storage t = cat.storage t) :
    (visibleRows cat' t).Perm (visibleRows cat t) := by
  rw [visibleRows_eq hinv, visibleRows_eq hinv', hs]

theorem means_of_staged {writes : List (StagedTableWrite V)} {expected : Option Nat} (hinv : cat.Inv)
    (hspec : MultiTableCommitted cat writes expected (cat.head + 1) cat') :
    (Transaction.staged writes expected).Means cat t (visibleRows cat' t) := by
  have hinv' := (outcome_of_multiTable hinv hspec).inv hinv
  refine ⟨?_, fun ht => visibleRows_of_storage hinv hinv' (hspec.apart t ht).storage⟩
  rintro write hw rfl
  obtain ⟨n', ins, hn', e, hmap, -⟩ := (hspec.stages write hw).effect
  refine ⟨n', hn', ?_⟩
  have hrows := e.rows.map fun r => (r.rowId, r.value)
  rw [List.map_append, hmap] at hrows
  rw [visibleRows_eq hinv', remainingRows, (hinv.valid _).scan_eq_current le_rfl]
  exact hrows

/-- A commit does to each table what its transaction means there. -/
theorem means_of_commit (hinv : cat.Inv) (held : Held cat p) (h : p.commit cat = .ok cat') :
    p.Means cat t (visibleRows cat' t) := by
  have hinv' : cat'.Inv := (lakeDiscipline V).commit_inv hinv held h
  cases p with
  | staged writes expected => exact means_of_staged hinv (multiTable_of_commit hinv held h)
  | compaction tableId base sources outputs retirement =>
    obtain ⟨⟨c, next⟩, hok, rfl⟩ := map_eq_ok.mp h
    show (visibleRows next t).Perm (visibleRows cat t)
    by_cases ht : t = tableId
    · subst ht
      rw [visibleRows_eq hinv, visibleRows_eq hinv']
      exact commitCompaction_rows hinv held.2 held.1 hok
    · exact visibleRows_of_storage hinv hinv' ((commitCompaction_spec hinv hok).1.apart t ht).storage
  | flush base tables =>
    have hspec := flush_of_commit hinv held h
    show (visibleRows cat' t).Perm (visibleRows cat t)
    by_cases ht : t ∈ tables.map (·.tableId)
    · obtain ⟨table, htable, rfl⟩ := List.mem_map.mp ht
      rw [visibleRows_eq hinv, visibleRows_eq hinv']
      exact (hspec.flushed table htable).rows
    · exact visibleRows_of_storage hinv hinv' (hspec.apart t ht).storage
  | truncate tableId base =>
    show (visibleRows cat' t).Perm (if t = tableId then [] else visibleRows cat t)
    rcases commitTruncate_spec hinv h with ⟨hdata, hinlined, rfl⟩ | ⟨-, -, e, happ⟩
    · split
      · next ht =>
        -- nothing is committed for a table without rows
        subst ht
        rw [visibleRows_eq hinv, List.map_eq_nil_iff.mpr (List.eq_nil_iff_forall_not_mem.mpr fun r hr => ?_)]
        rcases TableStorage.mem_current.mp hr with ⟨f, hf, -⟩ | ⟨x, hx, -⟩
        · rw [hasLiveData_of_mem hf] at hdata
          cases hdata
        · rw [hasLiveInlined_of_mem (hinv.valid t) hx] at hinlined
          cases hinlined
      · exact .refl _
    · split
      · next ht =>
        subst ht
        have hrows : (cat'.storage t).current.Perm _ := e.rows
        rw [visibleRows_eq hinv']
        simpa using hrows
      · next ht => exact visibleRows_of_storage hinv hinv' (happ t ht).storage

/-! ## What a Replace retires -/

theorem bounded_of_not_touchedSince {b : Nat} {life : Lifetime} (h : touchedSince b life = false) : life.Bounded b := by
  simp only [touchedSince, Bool.or_eq_false_iff, decide_eq_false_iff_not, Nat.not_lt] at h
  refine ⟨h.1, fun e he => ?_⟩
  simpa [he] using h.2

/-- No file holds a row or a deletion newer than `base`. The check of a Replace does not
    see to this: a merge or flush dates its output by the oldest row in it. -/
structure UnmergedSince (T : TableStorage V) (base : Nat) : Prop where
  data : ∀ f ∈ T.dataFiles, ∀ m, f.partialMax = some m → m ≤ base
  delete : ∀ d ∈ T.deleteFiles, ∀ e ∈ d.entries, ∀ σ, e.snapshot = some σ → σ ≤ base

theorem valid_of_detectReplaceConflict {T : TableStorage V} {h N b : Nat} (hv : T.Valid h N) (hm : UnmergedSince T b)
    (hok : detectReplaceConflict T t b true = .ok ()) : T.Valid b N := by
  simp only [detectReplaceConflict, bind_eq_ok, refuseIf_eq_ok, Bool.true_and, Bool.not_eq_true, Bool.or_eq_false_iff,
    List.any_eq_false, decide_eq_true_eq, Nat.not_lt, exists_const] at hok
  obtain ⟨⟨hdata, hdelete⟩, hinlined, hrecorded⟩ := hok
  exact { hv with
    dataLife := fun f hf => bounded_of_not_touchedSince (by simpa using hdata f hf)
    partialMax := hm.data
    deleteLife := fun d hd => bounded_of_not_touchedSince (by simpa using hdelete d hd)
    dated := hm.delete
    inlinedLife := fun r hr => bounded_of_not_touchedSince (by
      simpa [List.contains_iff_mem.mp (hv.registered r hr)] using hinlined r hr)
    inlinedDelete := fun x hx => ⟨(hv.inlinedDelete x hx).1, hrecorded x hx⟩ }

/-! ## Every interleaving -/

section Run

variable {w₀ w : World (Catalog V) (Transaction V)} {ls : List (Catalog V × Transaction V)}

/-- Whatever was committed since a transaction was planned, its commit gives every table
    the rows the transaction means, or is refused. -/
theorem commit_serial (hinv : w₀.state.Inv) (hnone : w₀.pending = []) (hrun : Steps (lake V) w₀ ls w)
    (hp : p ∈ w.pending) : (∃ e, p.commit w.state = .error e) ∨
      ∃ cat', p.commit w.state = .ok cat' ∧ ∀ t, p.Means w.state t (visibleRows cat' t) := by
  have hw := hrun.sound (d := lakeDiscipline V) ⟨hinv, by simp [hnone]⟩
  cases hc : p.commit w.state with
  | error e => exact .inl ⟨e, rfl⟩
  | ok cat' => exact .inr ⟨cat', rfl, fun _ => means_of_commit hw.inv (hw.ok p hp) hc⟩

theorem rowUpdate_planned :
    Steps (lake Nat) ⟨updatedLake, []⟩ [] ⟨updatedLake, [.staged [rowUpdate] none]⟩ :=
  .tail (.refl _) (.plan (show Plans updatedLake [] (.staged [rowUpdate] none) from ⟨rowUpdate_held, .inl rfl⟩))

theorem updated_row_replaced : (Transaction.staged [rowUpdate] none).Means updatedLake 7 [(some 0, 6)] := by
  rcases commit_serial updatedLake_inv rfl rowUpdate_planned (List.mem_singleton_self _) with
    ⟨e, he⟩ | ⟨cat', hok, hmeans⟩
  · cases he
  · obtain rfl := Except.ok.inj hok
    exact hmeans 7

/-- A run only appends to the ledger: snapshots with consecutive ids, a change row each. -/
theorem ledger_consecutive (hinv : w₀.state.Inv) (hnone : w₀.pending = []) (hrun : Steps (lake V) w₀ ls w) :
    AppendsLedger w₀.state w.state := by
  refine hrun.preserves (d := lakeDiscipline V) ⟨hinv, by simp [hnone]⟩ (A := fun _ => True) ?_ (fun _ _ => trivial)
    ⟨[], [], by simp⟩
  rintro s p s' hs held hc - ⟨snapshots, changes, hsnap, hchange, hhead, hids, heq⟩
  rcases commit_outcome hs held hc with rfl | ⟨tokens, out⟩
  · exact ⟨snapshots, changes, hsnap, hchange, hhead, hids, heq⟩
  refine ⟨snapshots ++ [⟨s.head + 1, s.clock⟩], changes ++ [⟨s.head + 1, tokens⟩], ?_, ?_, ?_, ?_, by simp [heq]⟩
  · rw [out.committed.snapshots, hsnap, List.append_assoc]
  · rw [out.committed.changes, hchange, List.append_assoc]
  · rw [out.committed.head_eq, hhead, List.length_append, List.length_singleton, Nat.add_assoc]
  · rw [List.map_append, hids, List.length_append, List.length_singleton, List.range'_1_concat, hhead]
    simp [Nat.add_right_comm]

theorem update_appended : ∃ cat', (Transaction.staged [rowUpdate] none).commit updatedLake = .ok cat' ∧
    AppendsLedger updatedLake cat' :=
  ⟨_, rfl, ledger_consecutive updatedLake_inv rfl (.tail rowUpdate_planned (.commit (List.mem_singleton_self _) rfl))⟩

/-- A Replace that commits retires the rows its base shows: none came or went since. -/
theorem replace_retires_base {writes : List (StagedTableWrite V)} {expected : Option Nat} {write : StagedTableWrite V}
    (hinv : w₀.state.Inv) (hnone : w₀.pending = []) (hrun : Steps (lake V) w₀ ls w)
    (hp : .staged writes expected ∈ w.pending) (hok : (Transaction.staged writes expected).commit w.state = .ok cat')
    (hw : write ∈ writes) (hmode : write.mode = .replace)
    (hm : UnmergedSince (w.state.storage write.tableId) write.baseSnapshotId) :
    (w.state.storage write.tableId).scan write.baseSnapshotId = (w.state.storage write.tableId).scan w.state.head := by
  have hs := hrun.sound (d := lakeDiscipline V) ⟨hinv, by simp [hnone]⟩
  have hv := hs.inv.valid write.tableId
  have hspec := multiTable_of_commit hs.inv (hs.ok _ hp) hok
  rw [hv.scan_eq_current le_rfl]
  exact (valid_of_detectReplaceConflict hv hm ((hspec.checked write hw).replace hmode)).scan_eq_current le_rfl

def overwrite : StagedTableWrite Nat :=
  { rowUpdate with mode := .replace, inlinedDeletes := [], inlinedRowIds := none }

theorem overwrite_held : StageHeld updatedLake overwrite True where
  base := by decide
  planned := by
    constructor <;> simp [overwrite, rowUpdate, StagedTableWrite.namedFiles, StagedTableWrite.keptRowIds,
      StagedTableWrite.files, updatedLake, updatedTable]
  appends := by simp [overwrite, rowUpdate]
  moved := by simp [overwrite, rowUpdate]

theorem overwritten_row_read : (updatedLake.storage 7).scan 1 = (updatedLake.storage 7).scan updatedLake.head := by
  obtain ⟨cat', hok⟩ : ∃ cat', (Transaction.staged [overwrite] none).commit updatedLake = .ok cat' := ⟨_, rfl⟩
  have hplan : Steps (lake Nat) ⟨updatedLake, []⟩ [] ⟨updatedLake, [.staged [overwrite] none]⟩ :=
    .tail (.refl _) (.plan (show Plans updatedLake [] (.staged [overwrite] none) from ⟨overwrite_held, .inl rfl⟩))
  have hm : UnmergedSince (updatedLake.storage 7) 1 := by
    constructor <;> simp [updatedLake, updatedTable]
  have hread := replace_retires_base updatedLake_inv rfl hplan (List.mem_singleton_self _) hok
    (List.mem_singleton_self overwrite) rfl hm
  exact hread

/-- An insert of one row, and the flush of it and of the row before into one file. -/
def flushedLake : Catalog Nat :=
  Option.getD (do
    let cat ← ((Transaction.staged [{ rowUpdate with inlinedDeletes := [], inlinedRowIds := none }] none).commit
      updatedLake).toOption
    ((Transaction.flush 2
      [⟨7, [0], [⟨⟨[], true, .embedded, none, [⟨some 0, some 1, 5⟩, ⟨some 1, some 2, 6⟩]⟩, 1, 2, none⟩],
        []⟩]).commit cat).toOption) updatedLake

/-- Without `UnmergedSince` a Replace takes away a row inserted after its base. -/
theorem overwrite_after_flush : visibleRows flushedLake 7 = [(some 0, 5), (some 1, 6)] ∧
    ((flushedLake.storage 7).scan overwrite.baseSnapshotId).map (·.rowId) = [some 0] ∧
    ((Transaction.staged [overwrite] none).commit flushedLake).toOption.map (visibleRows · 7) = some [(some 2, 6)] := by
  decide

end Run

end DuckLake.Lake
