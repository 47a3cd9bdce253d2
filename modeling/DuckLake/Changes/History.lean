import DuckLake.Changes.Detection
import DuckLake.Lake.Tokens
import DuckLake.Maintenance.TimeTravel
import Mathlib.Data.Multiset.MapFold
import Mathlib.Logic.Relation

/- Change detection over the histories a catalog can have: transactions planned and
   committed in any order, definitions that change, and expiry at any time.

   Rust                                   Lean
   list_table_snapshot_changes            listTableSnapshotChanges
   snapshot_ids_between                   snapshotIdsBetween
   table_data_changes, and its reads      tableDataChanges
   drop_table                             dropTable
   the other statements on definitions    commitDefinition, commitWriteWith with writes

   `Chronicle` keeps next to the catalog the rows a table had when each snapshot was the
   newest, as they are stored and as they read: a commit may change the columns of a table,
   and with them what every row of it reads as (a column added with a default). A detection
   reads the ledger, the head and the snapshot ids one after the other, and the history goes
   on in between. -/

namespace DuckLake.Changes

open Metadata DuckLake.Lake Maintenance Versioned Optimistic Relation

variable {V : Type}

/-! ## What the detection reads -/

def tokenOf (change : Change) : Token := ⟨.change change.kind, some change.tableId⟩

/-- The `LEFT JOIN` of a snapshot with its change row. -/
def joinedChanges (cat : Catalog V) (snapshot : SnapshotRow) : List LedgerRow :=
  match cat.changes.filter (·.snapshotId == snapshot.snapshotId) with
  | [] => [⟨snapshot.snapshotId, none⟩]
  | rows => rows.map fun row => ⟨snapshot.snapshotId, some (row.changesMade.map tokenOf)⟩

/-- `changes_made IS NULL OR changes_made LIKE …`. -/
def LedgerRow.mayName (tableId : Nat) (row : LedgerRow) : Bool :=
  row.changesMade.all (·.any (·.value == some tableId))

def listTableSnapshotChanges (cat : Catalog V) (tableId : Nat) (after through : Int) : List LedgerRow :=
  (((cat.snapshots.filter fun s => decide (after < s.snapshotId) && decide ((s.snapshotId : Int) ≤ through)).flatMap
    (joinedChanges cat)).filter (·.mayName tableId)).insertionSort fun a b => a.snapshotId ≤ b.snapshotId

def snapshotIdsBetween (cat : Catalog V) (first through : Int) : List Int :=
  ((cat.snapshots.map fun s => (s.snapshotId : Int)).filter fun id =>
    decide (first ≤ id) && decide (id ≤ through)).insertionSort (· ≤ ·)

/-- `analyse` with its reads: the ledger is read from one catalog, the head from a second
    and the snapshot ids from a third. -/
def tableDataChanges (ledger atHead atIds : Catalog V) (tableId : Nat) (after through : Int) (complete : Bool)
    (firstSnapshot : Option Int) (visible : Bool) (reports : Int → Int → Bool × Bool) : TableDataChanges :=
  analyse tableId after through complete (listTableSnapshotChanges ledger tableId after through)
    (expiredInWindow true firstSnapshot atHead.head
      (snapshotIdsBetween atIds (max after 0) (min through atHead.head)) after through)
    visible reports

/-! ## Definitions -/

/-- The tables and schemas a commit leaves, and the tokens it records for them. -/
structure Definitions where
  tokens : List Change
  tables : List Metadata.TableRow
  schemas : List Metadata.SchemaRow

/-- Other definitions, the storage of every table as it is. -/
def redefine (d : Definitions) (cat : Catalog V) : Catalog V :=
  { cat with
    tables := d.tables
    schemas := d.schemas }

/-- A commit of definitions alone. -/
def commitDefinition (d : Definitions) (cat : Catalog V) : Catalog V :=
  (redefine d cat.insertSnapshot.2).recordSnapshotChanges (cat.head + 1) d.tokens

/-- A commit of writes together with definitions, such as a table created and filled by one
    snapshot: the writes see the new definitions, and the change row has both kinds of
    tokens. -/
def commitWriteWith (d : Definitions) (writes : List (StagedTableWrite V)) (expected : Option Nat) (cat : Catalog V) :
    Result (Catalog V) := do
  let (_, committed) ← commitMultiTable writes expected (redefine d cat)
  return committed.recordSnapshotChanges (cat.head + 1) d.tokens

/-- No table ends, a table that begins has no rows, and one that was there reads as it did
    unless the commit alters it. -/
structure Defines (t : Nat) (cat : Catalog V) (reading : V → V) (d : Definitions) (reading' : V → V) : Prop where
  kept : ∀ t, cat.tableLive t = true → (redefine d cat).tableLive t = true
  created : ∀ t, cat.tableLive t = false → (redefine d cat).tableLive t = true → (cat.storage t).current = []
  altered : cat.tableLive t = true → reading' = reading ∨ ⟨.alteredTable, t⟩ ∈ d.tokens

/-- End the versions of a table. -/
def endTable (tables : List Metadata.TableRow) (tableId snapshot : Nat) : List Metadata.TableRow :=
  tables.map fun t => if t.tableId = tableId then { t with toLifetime := t.toLifetime.close snapshot } else t

/-- End the files of a table; its inlined rows stay as they are. -/
def endFiles (T : TableStorage V) (snapshot : Nat) : TableStorage V :=
  { T with
    dataFiles := T.dataFiles.map (·.close snapshot)
    deleteFiles := T.deleteFiles.map (·.close snapshot) }

def dropTable (tableId : Nat) (cat : Catalog V) : Catalog V :=
  if !cat.tableLive tableId then cat
  else
    ({ cat.insertSnapshot.2 with
        tables := endTable cat.tables tableId (cat.head + 1)
        storage := Function.update cat.storage tableId
          (endFiles (cat.storage tableId) (cat.head + 1)) } : Catalog V).recordSnapshotChanges (cat.head + 1)
      [⟨.droppedTable, tableId⟩]

/-! ## Histories -/

/-- The rows of a table that is there. -/
def rowsNow (t : Nat) (cat : Catalog V) : Multiset (Option Nat × V) :=
  if cat.tableLive t then ((cat.storage t).current.map fun r => (r.rowId, r.value) : List (Option Nat × V)) else 0

/-- The rows with the values they read as. -/
def readAs (reading : V → V) (rows : Multiset (Option Nat × V)) : Multiset (Option Nat × V) :=
  rows.map (Prod.map id reading)

/-- A state of the lake, with what a stored row of one table reads as under the table's
    columns, and the rows of the table at each snapshot so far, stored and read. -/
structure Chronicle (V : Type) where
  world : World (Catalog V) (Transaction V)
  reading : V → V
  rows : Int → Multiset (Option Nat × V)
  reads : Int → Multiset (Option Nat × V)

namespace Chronicle

def cat (c : Chronicle V) : Catalog V := c.world.state

/-- The rows stored at a snapshot; one that is not taken yet would read those of the newest. -/
def rowsAt (c : Chronicle V) (s : Int) : Multiset (Option Nat × V) := c.rows (min s c.cat.head)

@[inherit_doc rowsAt]
def readsAt (c : Chronicle V) (s : Int) : Multiset (Option Nat × V) := c.reads (min s c.cat.head)

/-- The world moves on, and the rows of its newest snapshot are noted. -/
def moveTo (c : Chronicle V) (t : Nat) (reading : V → V) (w : World (Catalog V) (Transaction V)) : Chronicle V where
  world := w
  reading := reading
  rows := Function.update c.rows w.state.head (rowsNow t w.state)
  reads := Function.update c.reads w.state.head (readAs reading (rowsNow t w.state))

/-- One step of a history. Expiry relies on the primary keys of the file tables. -/
inductive Moves (t : Nat) : Chronicle V → Chronicle V → Prop
  | lake {c : Chronicle V} {w : World (Catalog V) (Transaction V)} {l : Option (Catalog V × Transaction V)}
      (h : Step (lake V) c.world l w) : Moves t c (c.moveTo t c.reading w)
  | define {c : Chronicle V} {d : Definitions} {reading : V → V} (h : Defines t c.cat c.reading d reading) :
      Moves t c (c.moveTo t reading { c.world with state := commitDefinition d c.cat })
  | write {c : Chronicle V} {d : Definitions} {reading : V → V} {writes : List (StagedTableWrite V)}
      {expected : Option Nat} {cat : Catalog V} (h : Defines t c.cat c.reading d reading)
      (hcommit : commitWriteWith d writes expected c.cat = .ok cat) :
      Moves t c (c.moveTo t reading { c.world with state := cat })
  | drop {c : Chronicle V} (tableId : Nat) :
      Moves t c (c.moveTo t c.reading { c.world with state := dropTable tableId c.cat })
  | expire {c : Chronicle V} (criteria : ExpireCriteria) (hkeys : Keyed c.cat) :
      Moves t c { c with world := { c.world with state := (expireSnapshots criteria c.cat).2 } }

/-- A history starts where the table has no rows yet. -/
structure Starts (t : Nat) (c : Chronicle V) : Prop where
  noPlans : c.world.pending = []
  noRows : rowsNow t c.cat = 0
  rows : ∀ s, c.rows s = 0
  reads : ∀ s, c.reads s = 0
  ledger : c.cat.Dated

end Chronicle

/-! ## The rows a step changes -/

section Now

variable {t : Nat} {cat cat' : Catalog V}

theorem rowsNow_congr (hlive : cat'.tableLive t = cat.tableLive t)
    (hrows : (cat'.storage t).current = (cat.storage t).current) : rowsNow t cat' = rowsNow t cat := by
  unfold rowsNow
  rw [hlive, hrows]

/-- Of a table that stays, expiry removes no row that is there. -/
theorem current_remainingStorage (hkeys : Keyed cat) (ht : t ∉ deadTables cat) :
    (remainingStorage cat t).current = (cat.storage t).current := by
  have hreach : ∀ {life : Lifetime}, life.live = true → reaches cat life = true := fun h => by simp [reaches, h]
  have hdata : ∀ f ∈ (cat.storage t).dataFiles, f.live = true → f.id ∉ deadDataFileIds cat t := by
    intro f hf hlive hdead
    obtain ⟨-, f₁, hf₁, hid, hgone⟩ := mem_deadDataFileIds.mp hdead
    obtain rfl := List.inj_on_of_nodup_map (hkeys.dataFiles t) hf₁ hf hid
    rcases hgone with h | h
    · exact ht h
    · rw [hreach hlive] at h
      cases h
  have hfiles : (remainingStorage cat t).liveFiles = (cat.storage t).liveFiles := by
    unfold TableStorage.liveFiles
    rw [remainingStorage_dataFiles, List.filter_filter]
    refine List.filter_congr fun f hf => ?_
    cases hl : f.live with
    | false => rfl
    | true => simpa using hdata f hf hl
  have hgone : ∀ f ∈ (cat.storage t).liveFiles, ∀ p,
      (remainingStorage cat t).gone f.id p = (cat.storage t).gone f.id p := by
    intro f hf p
    have hmem : ∀ d ∈ (cat.storage t).deleteFiles, d.dataFileId = f.id → d.live = true →
        d ∈ (remainingStorage cat t).deleteFiles := by
      intro d hd hi hl
      rw [remainingStorage_deleteFiles]
      refine List.mem_filter.mpr ⟨hd, ?_⟩
      rw [Bool.not_eq_true', Bool.eq_false_iff, ne_eq, List.contains_iff_mem, mem_deadDeleteFileIds]
      rintro ⟨-, d₁, hd₁, hid, hdead⟩
      obtain rfl := List.inj_on_of_nodup_map (hkeys.deleteFiles t) hd₁ hd hid
      rcases hdead with h | h | h
      · rw [hi] at h
        exact hdata f (TableStorage.mem_liveFiles.mp hf).1 (TableStorage.mem_liveFiles.mp hf).2 h
      · exact ht h
      · rw [hreach hl] at h
        cases h
    have hinlined : (remainingStorage cat t).inlinedDeletes = (cat.storage t).inlinedDeletes := by
      unfold remainingStorage
      rw [if_neg (by simpa using ht)]
    rw [Bool.eq_iff_iff, TableStorage.gone_iff, TableStorage.gone_iff, hinlined]
    refine or_congr_left (exists_congr fun d => ?_)
    constructor
    · rintro ⟨hd, hrest⟩
      rw [remainingStorage_deleteFiles] at hd
      exact ⟨(List.mem_filter.mp hd).1, hrest⟩
    · rintro ⟨hd, hi, hl, hp⟩
      exact ⟨hmem d hd hi hl, hi, hl, hp⟩
  have hrows : (remainingStorage cat t).inlinedRows = (cat.storage t).inlinedRows := by
    unfold remainingStorage
    rw [if_neg (by simpa using ht)]
  unfold TableStorage.current TableStorage.liveInlined
  rw [hfiles, hrows]
  congr 1
  exact List.flatMap_congr fun f hf => TableStorage.present_congr (hgone f hf)

/-- Expiry leaves the rows of every table. -/
theorem rowsNow_expireSnapshots (criteria : ExpireCriteria) (hkeys : Keyed cat) :
    rowsNow t (expireSnapshots criteria cat).2 = rowsNow t cat := by
  rcases expireSnapshots_cases criteria cat with h | h
  · rw [h]
  · rw [h]
    generalize hc : removeSnapshots ((expireCandidates criteria cat).map (·.snapshotId)) cat = cat₁
    have hkeys₁ : Keyed cat₁ := by
      subst hc
      exact ⟨hkeys.dataFiles, hkeys.deleteFiles⟩
    have heq : rowsNow t cat₁ = rowsNow t cat := by
      subst hc
      exact rowsNow_congr rfl rfl
    rw [← heq]
    -- a table that is there is reached
    have hdead : cat₁.tableLive t = true → t ∉ deadTables cat₁ := by
      intro hlive hdead
      obtain ⟨row, hrow, hid⟩ := List.any_eq_true.mp hlive
      rw [Bool.and_eq_true, beq_iff_eq] at hid
      obtain ⟨t₁, ht₁, hid₁⟩ := List.mem_map.mp hdead
      have hnone := (List.mem_filter.mp ht₁).2
      rw [Bool.and_eq_true, Bool.not_eq_true', Bool.not_eq_true', List.any_eq_false] at hnone
      refine hnone.2 row hrow ?_
      rw [hid.1, hid₁, beq_self_eq_true, Bool.true_and]
      simp [reaches, hid.2]
    cases hlive : cat₁.tableLive t with
    | false =>
      have hstill : (reclaim cat₁).tableLive t = false := by
        refine List.any_eq_false.mpr fun row hrow => ?_
        exact List.any_eq_false.mp hlive row (List.mem_filter.mp hrow).1
      unfold rowsNow
      rw [hlive, hstill]
      rfl
    | true =>
      have hstill : (reclaim cat₁).tableLive t = true := by
        obtain ⟨row, hrow, hid⟩ := List.any_eq_true.mp hlive
        refine List.any_eq_true.mpr ⟨row, List.mem_filter.mpr ⟨hrow, ?_⟩, hid⟩
        rw [Bool.and_eq_true, beq_iff_eq] at hid
        simpa [hid.1] using hdead hlive
      exact rowsNow_congr (hstill.trans hlive.symm) (current_remainingStorage hkeys₁ (hdead hlive))

variable {d : Definitions} {reading reading' : V → V}

/-- Other definitions leave the rows of every table. -/
theorem rowsNow_redefine (h : Defines t cat reading d reading') : rowsNow t (redefine d cat) = rowsNow t cat := by
  cases hlive : cat.tableLive t with
  | true => exact rowsNow_congr ((h.kept t hlive).trans hlive.symm) rfl
  | false =>
    unfold rowsNow
    rw [hlive]
    cases hnew : (redefine d cat).tableLive t with
    | false => rfl
    | true =>
      have hnil : ((redefine d cat).storage t).current = [] := h.created t hlive hnew
      rw [hnil]
      rfl

/-- Rows that stay as they are read as before unless the table was altered. -/
theorem readAs_of_defines (h : Defines t cat reading d reading') (hrows : rowsNow t cat' = rowsNow t cat) :
    readAs reading' (rowsNow t cat') = readAs reading (rowsNow t cat') ∨ ⟨.alteredTable, t⟩ ∈ d.tokens := by
  cases hlive : cat.tableLive t with
  | true => exact (h.altered hlive).imp_left fun heq => by rw [heq]
  | false =>
    have hnone : rowsNow t cat = 0 := by
      unfold rowsNow
      rw [hlive]
      rfl
    rw [hrows, hnone]
    exact .inl rfl

/-- The change rows of the snapshots that stay, stay. -/
theorem mem_changes_expireSnapshots {criteria : ExpireCriteria} {row : ChangeRow} :
    row ∈ (expireSnapshots criteria cat).2.changes ↔
      row ∈ cat.changes ∧ row.snapshotId ∉ (expireSnapshots criteria cat).1.map (·.snapshotId) := by
  rcases expireSnapshots_cases criteria cat with heq | heq <;> rw [heq]
  · exact ⟨fun hr => ⟨hr, by simp⟩, fun hr => hr.1⟩
  · refine List.mem_filter.trans (and_congr_right fun _ => ?_)
    simp

theorem Committed.tableLive {tokens : List Change} (h : cat.Committed tokens cat') (t : Nat) :
    cat'.tableLive t = cat.tableLive t := by
  unfold Catalog.tableLive
  rw [h.tables]

end Now

/-! ## What the ledger of a history tells -/

/-- One snapshot more, whose change row has the tokens; unlike `Catalog.Committed` it lets
    definitions change. -/
structure Snapshotted (cat : Catalog V) (tokens : List Change) (cat' : Catalog V) : Prop where
  snapshots : cat'.snapshots = cat.snapshots ++ [⟨cat.head + 1, cat.clock⟩]
  changes : cat'.changes = cat.changes ++ [⟨cat.head + 1, tokens⟩]

namespace Chronicle

variable {t : Nat} {c c' : Chronicle V}

/-- A snapshot of the catalog. -/
def Taken (c : Chronicle V) (n : Nat) : Prop := n ∈ c.cat.snapshots.map (·.snapshotId)

/-- A change row tells of each snapshot for which `changed` holds, or the snapshot is gone. -/
def Tells (c : Chronicle V) (names : List Change → Prop) (changed : Int → Prop) : Prop :=
  ∀ s : Int, s ≤ c.cat.head → changed s → ∃ n : Nat, s = n ∧ 1 ≤ n ∧
    (¬ c.Taken n ∨ ∃ row ∈ c.cat.changes, row.snapshotId = n ∧ names row.changesMade)

/-- What holds all along: a change of the rows that are stored is told by a change row that
    names the table, a change of what they read as by one that alters it. -/
structure Told (t : Nat) (c : Chronicle V) : Prop where
  ledger : c.cat.Dated
  flushes : ∀ p ∈ c.world.pending, p.WritesFlushed
  now : c.rows c.cat.head = rowsNow t c.cat
  nowRead : c.reads c.cat.head = readAs c.reading (rowsNow t c.cat)
  rows : c.Tells (¬ Silent t ·) fun s => c.rows s ≠ c.rows (s - 1)
  reads : c.Tells (⟨.alteredTable, t⟩ ∈ ·) fun s => c.rows s = c.rows (s - 1) ∧ c.reads s ≠ c.reads (s - 1)

theorem Starts.told (h : c.Starts t) : c.Told t where
  ledger := h.ledger
  flushes := by simp [h.noPlans]
  now := (h.rows _).trans h.noRows.symm
  nowRead := by
    rw [h.reads, h.noRows]
    rfl
  rows s _ hs := absurd ((h.rows s).trans (h.rows (s - 1)).symm) hs
  reads s _ hs := absurd ((h.reads s).trans (h.reads (s - 1)).symm) hs.2

variable {w : World (Catalog V) (Transaction V)} {cat cat' : Catalog V} {tokens : List Change} {reading : V → V}
  {names : List Change → Prop} {changed changed' : Int → Prop}

theorem head_snapshotted (h : Snapshotted cat tokens cat') :
    cat'.head = cat.head + 1 := by
  unfold Catalog.head at *
  rw [h.snapshots, List.map_append, List.map_singleton, Lists.foldr_max_append]
  exact max_eq_right (Nat.le_succ _)

/-- One snapshot more: what was told stays told, and the new change row tells of the new one. -/
theorem Tells.moveTo (h : c.Tells names changed) (hw : Snapshotted c.cat tokens w.state)
    (hold : ∀ s : Int, s ≤ c.cat.head → changed' s → changed s) (hnew : changed' (c.cat.head + 1) → names tokens) :
    (c.moveTo t reading w).Tells names changed' := by
  intro s hs hchanged
  have hs : s ≤ (w.state.head : Int) := hs
  rw [head_snapshotted hw] at hs
  push_cast at hs
  by_cases heq : s = c.cat.head + 1
  · subst heq
    refine ⟨c.cat.head + 1, by push_cast; rfl, Nat.le_add_left .., .inr ⟨⟨c.cat.head + 1, tokens⟩, ?_, rfl,
      hnew hchanged⟩⟩
    show _ ∈ w.state.changes
    rw [hw.changes]
    exact List.mem_append_right _ (List.mem_singleton_self _)
  · have hle : s ≤ c.cat.head := by omega
    obtain ⟨n, rfl, hn, hcase⟩ := h s hle (hold s hle hchanged)
    refine ⟨n, rfl, hn, hcase.imp ?_ ?_⟩
    · intro hgone htaken
      have htaken : n ∈ w.state.snapshots.map (·.snapshotId) := htaken
      rw [hw.snapshots, List.map_append, List.mem_append] at htaken
      rcases htaken with htaken | htaken
      · exact hgone htaken
      · have hn : n = c.cat.head + 1 := List.mem_singleton.mp htaken
        omega
    · rintro ⟨row, hr, hrest⟩
      refine ⟨row, ?_, hrest⟩
      show row ∈ w.state.changes
      rw [hw.changes]
      exact List.mem_append_left _ hr

theorem Told.moveTo (h : c.Told t) (hw : Snapshotted c.cat tokens w.state) (hflushes : ∀ p ∈ w.pending, p.WritesFlushed)
    (hsilent : Silent t tokens → rowsNow t w.state = rowsNow t c.cat)
    (hreading : rowsNow t w.state = rowsNow t c.cat →
      readAs reading (rowsNow t w.state) = readAs c.reading (rowsNow t w.state) ∨ ⟨.alteredTable, t⟩ ∈ tokens) :
    (c.moveTo t reading w).Told t := by
  have hhead : (w.state.head : Int) = c.cat.head + 1 := by
    rw [head_snapshotted hw]
    push_cast
    rfl
  -- what was noted before stays, and the new snapshot has the rows of the moment
  have hrows : ∀ s : Int, s ≤ c.cat.head → (c.moveTo t reading w).rows s = c.rows s := fun s hs =>
    Function.update_of_ne (by omega) ..
  have hreads : ∀ s : Int, s ≤ c.cat.head → (c.moveTo t reading w).reads s = c.reads s := fun s hs =>
    Function.update_of_ne (by omega) ..
  have hrow : (c.moveTo t reading w).rows (c.cat.head + 1) = rowsNow t w.state := by
    rw [← hhead]
    exact Function.update_self ..
  have hread : (c.moveTo t reading w).reads (c.cat.head + 1) = readAs reading (rowsNow t w.state) := by
    rw [← hhead]
    exact Function.update_self ..
  have hlast : (c.cat.head : Int) + 1 - 1 = c.cat.head := by omega
  refine ⟨?_, hflushes, Function.update_self .., Function.update_self .., ?_, ?_⟩
  · show ∀ row ∈ w.state.changes, row.snapshotId ≤ w.state.head
    rw [hw.changes, head_snapshotted hw]
    intro row hr
    rcases List.mem_append.mp hr with hr | hr
    · exact (h.ledger row hr).trans (Nat.le_succ _)
    · rw [List.mem_singleton.mp hr]
  · refine h.rows.moveTo hw (fun s hs => ?_) fun hne hsil => hne ?_
    · rw [hrows s hs, hrows (s - 1) (by omega)]
      exact id
    · rw [hrow, hlast, hrows _ le_rfl, h.now]
      exact hsilent hsil
  · refine h.reads.moveTo hw (fun s hs => ?_) ?_
    · rw [hrows s hs, hrows (s - 1) (by omega), hreads s hs, hreads (s - 1) (by omega)]
      exact id
    · rw [hrow, hlast, hrows _ le_rfl, h.now, hread, hreads _ le_rfl, h.nowRead]
      rintro ⟨hsame, hne⟩
      refine (hreading hsame).resolve_left fun heq => hne ?_
      rw [heq, hsame]

theorem Told.moveTo_self (h : c.Told t) (hw : w.state = c.cat)
    (hflushes : ∀ p ∈ w.pending, p.WritesFlushed) : (c.moveTo t c.reading w).Told t := by
  have hrows : (c.moveTo t c.reading w).rows = c.rows := by
    unfold Chronicle.moveTo
    rw [hw, ← h.now, Function.update_eq_self]
  have hreads : (c.moveTo t c.reading w).reads = c.reads := by
    unfold Chronicle.moveTo
    rw [hw, ← h.nowRead, Function.update_eq_self]
  have hcat : (c.moveTo t c.reading w).cat = c.cat := hw
  refine ⟨hcat ▸ h.ledger, hflushes, ?_, ?_, ?_, ?_⟩
  · rw [hrows, hcat]
    exact h.now
  · rw [hreads, hcat]
    exact h.nowRead
  all_goals
    rw [hrows]
    unfold Tells Taken
    rw [hcat]
  · exact h.rows
  · rw [hreads]
    exact h.reads

theorem snapshotted_of_committed (h : cat.Committed tokens cat') :
    Snapshotted cat tokens cat' := ⟨h.snapshots, h.changes⟩

section Ledger

variable {d : Definitions} (hledger : cat.Dated)
include hledger

theorem snapshotted_record (hs : cat'.snapshots = cat.insertSnapshot.2.snapshots)
    (hc : cat'.changes = cat.insertSnapshot.2.changes) (tokens : List Change) :
    Snapshotted cat tokens (cat'.recordSnapshotChanges (cat.head + 1) tokens) := by
  have h := (Catalog.Committed.insertSnapshot cat).record hledger tokens
  refine ⟨hs.trans h.snapshots, Eq.trans ?_ h.changes⟩
  unfold Catalog.recordSnapshotChanges
  rw [hc]

theorem snapshotted_commitDefinition (d : Definitions) : Snapshotted cat d.tokens (commitDefinition d cat) := by
  unfold commitDefinition
  refine snapshotted_record hledger ?_ ?_ d.tokens
  · rfl
  · rfl

/-- The change row of writes with definitions has the tokens of both. -/
theorem commitWriteWith_told {writes : List (StagedTableWrite V)} {expected : Option Nat}
    (h : commitWriteWith d writes expected cat = .ok cat') :
    ∃ written, Snapshotted cat (written ++ d.tokens) cat' ∧ cat'.tables = d.tables ∧
      ∀ t, Silent t written → cat'.storage t = cat.storage t := by
  obtain ⟨⟨snapshot, committed⟩, hcommit, h⟩ := Checked.bind_eq_ok.mp h
  obtain rfl := Checked.pure_eq_ok.mp h
  have hledger' : (redefine d cat).Dated := hledger
  obtain ⟨written, hcom, htold⟩ := commitMultiTable_told hledger' hcommit
  have hrecorded := hcom.record hledger' d.tokens
  exact ⟨written, ⟨hrecorded.snapshots, hrecorded.changes⟩, hrecorded.tables, htold⟩

theorem dropTable_cases (tableId : Nat) :
    dropTable tableId cat = cat ∨ Snapshotted cat [⟨.droppedTable, tableId⟩] (dropTable tableId cat) ∧
      (dropTable tableId cat).tables = endTable cat.tables tableId (cat.head + 1) ∧
      (dropTable tableId cat).storage = Function.update cat.storage tableId
        (endFiles (cat.storage tableId) (cat.head + 1)) := by
  unfold dropTable
  split
  · exact .inl rfl
  · refine .inr ⟨snapshotted_record hledger ?_ ?_ _, rfl, rfl⟩
    · rfl
    · rfl

end Ledger

theorem Told.lake {l : Option (Catalog V × Transaction V)} (h : c.Told t)
    (hstep : Step (lake V) c.world l w) : (c.moveTo t c.reading w).Told t := by
  cases hstep with
  | plan hp =>
    refine h.moveTo_self rfl (List.forall_mem_cons.mpr ⟨writesFlushed_of_plans h.flushes hp, h.flushes⟩)
  | @commit p cat' hp hc =>
    rcases commit_told h.ledger (h.flushes p hp) hc with rfl | ⟨tokens, hcom, htold⟩
    · exact h.moveTo_self rfl h.flushes
    · refine h.moveTo (snapshotted_of_committed hcom) h.flushes (fun hsil => ?_) fun _ => .inl rfl
      exact rowsNow_congr (Committed.tableLive hcom t) (congrArg _ (htold t hsil))

theorem Told.define {d : Definitions} (h : c.Told t) (hdef : Defines t c.cat c.reading d reading) :
    (c.moveTo t reading { c.world with state := commitDefinition d c.cat }).Told t := by
  refine h.moveTo (snapshotted_commitDefinition h.ledger d) h.flushes (fun _ => ?_) fun hrows => ?_
  · exact rowsNow_redefine hdef
  · exact readAs_of_defines hdef hrows

theorem Told.write {d : Definitions} {writes : List (StagedTableWrite V)} {expected : Option Nat} (h : c.Told t)
    (hdef : Defines t c.cat c.reading d reading) (hcommit : commitWriteWith d writes expected c.cat = .ok cat) :
    (c.moveTo t reading { c.world with state := cat }).Told t := by
  obtain ⟨written, hsnap, htables, htold⟩ := commitWriteWith_told h.ledger hcommit
  refine h.moveTo hsnap h.flushes (fun hsil => ?_) fun hrows => ?_
  · rw [← rowsNow_redefine hdef]
    refine rowsNow_congr ?_ (congrArg _ (htold t fun change hm => hsil change (List.mem_append_left _ hm)))
    show cat.tables.any _ = d.tables.any _
    rw [htables]
  · exact (readAs_of_defines hdef hrows).imp_right (List.mem_append_right _)

theorem Told.drop (h : c.Told t) (tableId : Nat) :
    (c.moveTo t c.reading { c.world with state := dropTable tableId c.cat }).Told t := by
  rcases dropTable_cases h.ledger tableId with heq | ⟨hsnap, htables, hstorage⟩
  · exact h.moveTo_self heq h.flushes
  · refine h.moveTo hsnap h.flushes (fun hsil => ?_) fun _ => .inl rfl
    have hne : t ≠ tableId := by
      rintro rfl
      exact hsil.not_mem (show ChangeKind.droppedTable ≠ _ by decide) (List.mem_singleton_self _)
    refine rowsNow_congr ?_ ?_
    · show (dropTable tableId c.cat).tables.any _ = _
      rw [htables, endTable, List.any_map]
      refine congrArg (List.any c.cat.tables) (funext fun row => ?_)
      by_cases hrow : row.tableId = tableId
      · simp [hrow, Ne.symm hne]
      · simp [hrow]
    · show ((dropTable tableId c.cat).storage t).current = _
      rw [hstorage, Function.update_of_ne hne]

/-- A snapshot that stays keeps its change row. -/
theorem Tells.expire (h : c.Tells names changed) (criteria : ExpireCriteria) :
    Tells { c with world := { c.world with state := (expireSnapshots criteria c.cat).2 } } names changed := by
  have hids : ∀ row ∈ (expireSnapshots criteria c.cat).2.snapshots, row ∈ c.cat.snapshots ∧
      row.snapshotId ∉ (expireSnapshots criteria c.cat).1.map (·.snapshotId) := by
    rcases expireSnapshots_cases criteria c.cat with heq | heq <;> rw [heq]
    · exact fun row hr => ⟨hr, by simp⟩
    · exact fun row hr => ⟨(List.mem_filter.mp hr).1, by simpa using (List.mem_filter.mp hr).2⟩
  intro s hs hchanged
  have hs : s ≤ ((expireSnapshots criteria c.cat).2.head : Int) := hs
  rw [head_expireSnapshots] at hs
  obtain ⟨n, rfl, hn, hcase⟩ := h s hs hchanged
  refine ⟨n, rfl, hn, ?_⟩
  by_cases htaken : n ∈ (expireSnapshots criteria c.cat).2.snapshots.map (·.snapshotId)
  · obtain ⟨row, hrow, rfl⟩ := List.mem_map.mp htaken
    obtain ⟨hmem, hstays⟩ := hids row hrow
    rcases hcase with hgone | ⟨change, hchange, hid, hnames⟩
    · exact absurd (List.mem_map_of_mem hmem) hgone
    · exact .inr ⟨change, mem_changes_expireSnapshots.mpr ⟨hchange, hid ▸ hstays⟩, hid, hnames⟩
  · exact .inl htaken

theorem Told.expire (h : c.Told t) (criteria : ExpireCriteria) (hkeys : Keyed c.cat) :
    Told t { c with world := { c.world with state := (expireSnapshots criteria c.cat).2 } } := by
  have hhead : (expireSnapshots criteria c.cat).2.head = c.cat.head := head_expireSnapshots
  refine ⟨?_, h.flushes, ?_, ?_, h.rows.expire criteria, h.reads.expire criteria⟩
  · intro row hr
    exact (h.ledger row (mem_changes_expireSnapshots.mp hr).1).trans hhead.ge
  · show c.rows ((expireSnapshots criteria c.cat).2.head : Int) = rowsNow t (expireSnapshots criteria c.cat).2
    rw [hhead, rowsNow_expireSnapshots criteria hkeys]
    exact h.now
  · show c.reads ((expireSnapshots criteria c.cat).2.head : Int) =
      readAs c.reading (rowsNow t (expireSnapshots criteria c.cat).2)
    rw [hhead, rowsNow_expireSnapshots criteria hkeys]
    exact h.nowRead

theorem Moves.told (hmove : Moves t c c') (h : c.Told t) : c'.Told t := by
  cases hmove with
  | lake hstep => exact h.lake hstep
  | define hdef => exact h.define hdef
  | write hdef hcommit => exact h.write hdef hcommit
  | drop tableId => exact h.drop tableId
  | expire criteria hkeys => exact h.expire criteria hkeys

theorem told_of_moves (hmoves : ReflTransGen (Moves t) c c') (h : c.Told t) : c'.Told t := by
  induction hmoves with
  | refl => exact h
  | tail _ hmove ih => exact hmove.told ih

/-! ## A snapshot that is gone stays gone -/

/-- The snapshots after a step are among those before it, or later than all of them. -/
def Follows (cat cat' : Catalog V) : Prop :=
  cat.head ≤ cat'.head ∧ ∀ n ∈ cat'.snapshots.map (·.snapshotId), n ≤ cat.head → n ∈ cat.snapshots.map (·.snapshotId)

theorem Follows.trans {cat cat' cat'' : Catalog V} (h₁ : Follows cat cat') (h₂ : Follows cat' cat'') :
    Follows cat cat'' :=
  ⟨h₁.1.trans h₂.1, fun n hn hle => h₁.2 n (h₂.2 n hn (hle.trans h₁.1)) hle⟩

theorem follows_of_snapshotted (h : Snapshotted cat tokens cat') :
    Follows cat cat' := by
  refine ⟨(head_snapshotted h).symm ▸ Nat.le_succ _, fun n hn hle => ?_⟩
  rw [h.snapshots, List.map_append, List.mem_append] at hn
  rcases hn with hn | hn
  · exact hn
  · rw [List.map_singleton, List.mem_singleton] at hn
    exact absurd hle (by rw [hn]; exact Nat.not_succ_le_self _)

theorem Moves.follows (hmove : Moves t c c') (h : c.Told t) : Follows c.cat c'.cat := by
  have hrefl : Follows c.cat c.cat := ⟨le_rfl, fun _ hn _ => hn⟩
  cases hmove with
  | lake hstep =>
    cases hstep with
    | plan hp => exact hrefl
    | @commit p cat' hp hc =>
      rcases commit_told h.ledger (h.flushes p hp) hc with heq | ⟨tokens, hcom, -⟩
      · exact (congrArg (Follows c.cat) heq).mpr hrefl
      · exact follows_of_snapshotted (snapshotted_of_committed hcom)
  | define hdef => exact follows_of_snapshotted (snapshotted_commitDefinition h.ledger _)
  | write hdef hcommit =>
    obtain ⟨written, hsnap, -⟩ := commitWriteWith_told h.ledger hcommit
    exact follows_of_snapshotted hsnap
  | drop tableId =>
    show Follows c.cat (dropTable tableId c.cat)
    rcases dropTable_cases h.ledger tableId with heq | ⟨hsnap, -, -⟩
    · rwa [heq]
    · exact follows_of_snapshotted hsnap
  | expire criteria hkeys =>
    refine ⟨head_expireSnapshots.ge, fun n hn _ => ?_⟩
    obtain ⟨row, hrow, rfl⟩ := List.mem_map.mp hn
    refine List.mem_map_of_mem (?_ : row ∈ c.cat.snapshots)
    have hrow : row ∈ (expireSnapshots criteria c.cat).2.snapshots := hrow
    rcases expireSnapshots_cases criteria c.cat with heq | heq <;> rw [heq] at hrow
    · exact hrow
    · exact (List.mem_filter.mp hrow).1

theorem follows_of_moves (hmoves : ReflTransGen (Moves t) c c') (h : c.Told t) : Follows c.cat c'.cat := by
  induction hmoves with
  | refl => exact ⟨le_rfl, fun _ hn _ => hn⟩
  | tail hmoves hmove ih => exact ih.trans (hmove.follows (told_of_moves hmoves h))

end Chronicle

/-! ## What the reads show -/

section Reads

variable {t : Nat} {cat : Catalog V} {after through : Int}

/-- A snapshot whose change row names the table is listed. -/
theorem mem_listed {n : Nat} {row : ChangeRow} {change : Change} (htaken : n ∈ cat.snapshots.map (·.snapshotId))
    (hrow : row ∈ cat.changes) (hid : row.snapshotId = n) (hchange : change ∈ row.changesMade)
    (hname : change.tableId = t) (hafter : after < n) (hthrough : (n : Int) ≤ through) :
    (⟨n, some (row.changesMade.map tokenOf)⟩ : LedgerRow) ∈ listTableSnapshotChanges cat t after through := by
  obtain ⟨snapshot, hsnapshot, rfl⟩ := List.mem_map.mp htaken
  have hjoined : (⟨snapshot.snapshotId, some (row.changesMade.map tokenOf)⟩ : LedgerRow) ∈
      joinedChanges cat snapshot := by
    have hmem : row ∈ cat.changes.filter (·.snapshotId == snapshot.snapshotId) :=
      List.mem_filter.mpr ⟨hrow, by simp [hid]⟩
    unfold joinedChanges
    split
    · next hnil => rw [hnil] at hmem; cases hmem
    · exact List.mem_map_of_mem hmem
  refine (List.perm_insertionSort ..).mem_iff.mpr (List.mem_filter.mpr ⟨?_, ?_⟩)
  · exact List.mem_flatMap.mpr ⟨snapshot, List.mem_filter.mpr ⟨hsnapshot, by simp [hafter, hthrough]⟩, hjoined⟩
  · show List.any _ _ = true
    exact List.any_eq_true.mpr ⟨tokenOf change, List.mem_map_of_mem hchange, by simp [tokenOf, hname]⟩

theorem has_names {n : Int} {tokens : List Change} {change : Change} (hchange : change ∈ tokens)
    (hname : change.tableId = t) : (⟨n, some (tokens.map tokenOf)⟩ : LedgerRow).has (·.names t) = true := by
  refine List.any_eq_true.mpr ⟨tokenOf change, List.mem_map_of_mem hchange, ?_⟩
  simp [Token.names, tokenOf, hname]

theorem said_ne_unchanged {n : Int} {tokens : List Change} {change : Change} (hchange : change ∈ tokens)
    (hname : change.tableId = t) (hkind : change.kind ≠ .alteredTable) :
    (⟨n, some (tokens.map tokenOf)⟩ : LedgerRow).said t ≠ .unchanged := by
  have htells : (tokenOf change).tells t = .changed ∨ (tokenOf change).tells t = .moved := by
    unfold Token.tells tokenOf
    rw [hname, if_neg (by simp)]
    cases hk : change.kind with
    | alteredTable => exact absurd hk hkind
    | _ => simp
  have hmem : tokenOf change ∈ tokens.map tokenOf := List.mem_map_of_mem hchange
  unfold LedgerRow.said
  dsimp only
  rcases htells with h | h
  · rw [if_pos (List.any_eq_true.mpr ⟨_, hmem, by simp [h]⟩)]
    simp
  · split
    · simp
    · rw [if_pos (List.any_eq_true.mpr ⟨_, hmem, by simp [h]⟩)]
      simp

theorem listed_sorted :
    ((listTableSnapshotChanges cat t after through).map (·.snapshotId)).Pairwise (· ≤ ·) := by
  rw [List.pairwise_map]
  have : Std.Total (fun a b : LedgerRow => a.snapshotId ≤ b.snapshotId) := ⟨fun a b => le_total _ _⟩
  have : IsTrans LedgerRow (fun a b => a.snapshotId ≤ b.snapshotId) := ⟨fun _ _ _ h₁ h₂ => h₁.trans h₂⟩
  exact List.pairwise_insertionSort ..

theorem not_mem_snapshotIdsBetween {n : Nat} {first last : Int} (hgone : n ∉ cat.snapshots.map (·.snapshotId)) :
    (n : Int) ∉ snapshotIdsBetween cat first last := by
  intro hm
  have hm := (List.mem_filter.mp ((List.perm_insertionSort ..).mem_iff.mp hm)).1
  obtain ⟨row, hrow, hid⟩ := List.mem_map.mp hm
  exact hgone (List.mem_map.mpr ⟨row, hrow, Int.ofNat_inj.mp hid⟩)

end Reads

/-! ## No change is missed -/

section Missed

variable {t : Nat} {start c₁ c₂ c₃ : Chronicle V} {after through : Int} {reports : Int → Int → Bool × Bool}

/-- The feeds are right about the rows: where they report nothing, no snapshot changed them. -/
def FeedsRight (c : Chronicle V) (reports : Int → Int → Bool × Bool) : Prop :=
  ∀ a b, ((reports a b).1 || (reports a b).2) = false → ∀ s, a ≤ s → s ≤ b → s ≤ c.cat.head → c.rows s = c.rows (s - 1)

section Window
variable (h₁ : c₁.Told t) (h₂ : ReflTransGen (Chronicle.Moves t) c₁ c₂) (h₃ : ReflTransGen (Chronicle.Moves t) c₂ c₃)
  (firstSnapshot : Option Int)
include h₁ h₂ h₃

/-- A snapshot of the window that is gone leaves a gap that ends after it. -/
theorem exists_gap {n : Nat} (hn : 1 ≤ n) (hafter : after < n) (hthrough : (n : Int) ≤ through)
    (hhead : (n : Int) ≤ c₁.cat.head) (hgone : ¬ c₁.Taken n) :
    ∃ bound, expiredInWindow true firstSnapshot c₂.cat.head
      (snapshotIdsBetween c₃.cat (max after 0) (min through c₂.cat.head)) after through = some bound ∧
      (n : Int) ≤ bound := by
  have hf₂ := Chronicle.follows_of_moves h₂ h₁
  have hf₃ := Chronicle.follows_of_moves h₃ (Chronicle.told_of_moves h₂ h₁)
  refine exists_expiredInWindow firstSnapshot hafter (by exact_mod_cast hn) (le_min hthrough ?_)
    (not_mem_snapshotIdsBetween fun hm => hgone ((hf₂.trans hf₃).2 n hm (Int.ofNat_le.mp hhead)))
  exact hhead.trans (Int.ofNat_le.mpr hf₂.1)

/-- A snapshot of the window that changed the rows is counted and noted. -/
theorem tableDataChanges_counts (hfeeds : FeedsRight c₁ reports) (complete visible : Bool) {s : Int}
    (hafter : after < s) (hthrough : s ≤ through) (hhead : s ≤ c₁.cat.head) (hchanged : c₁.rows s ≠ c₁.rows (s - 1)) :
    let changes := tableDataChanges c₁.cat c₂.cat c₃.cat t after through complete firstSnapshot visible reports
    changes.rowsChanged = true ∧ (complete = true → changes.Counts s) ∧ changes.Notes s := by
  intro changes
  have hwindow := hafter.trans_le hthrough
  rw [← and_assoc]
  obtain ⟨n, rfl, hn, hcase⟩ := h₁.rows s hhead hchanged
  by_cases htaken : c₁.Taken n
  · obtain ⟨row, hrow, hid, hnames⟩ := hcase.resolve_left (not_not.mpr htaken)
    obtain ⟨change, hchange, hname, hkind⟩ : ∃ change ∈ row.changesMade, change.tableId = t ∧
        change.kind ≠ .alteredTable := by
      by_contra hno
      exact hnames fun change hm ht => by_contra fun hk => hno ⟨change, hm, ht, hk⟩
    have hlisted := mem_listed htaken hrow hid hchange hname hafter hthrough
    refine ⟨analyse_counts listed_sorted complete visible (.inl ⟨_, hlisted, rfl,
        said_ne_unchanged hchange hname hkind, hthrough, fun a b ha hb => ?_⟩) hwindow,
      analyse_notes listed_sorted complete visible hwindow
        (.inl ⟨_, hlisted, rfl, has_names hchange hname⟩)⟩
    by_contra hno
    exact hchanged (hfeeds a b (by simpa using hno) n ha hb hhead)
  · have hgap := exists_gap h₁ h₂ h₃ firstSnapshot hn hafter hthrough hhead htaken
    exact ⟨analyse_counts listed_sorted complete visible (.inr hgap) hwindow,
      analyse_notes listed_sorted complete visible hwindow (.inr hgap)⟩

/-- A snapshot of the window that changed only what the rows read as is reported altered, or
    as a gap, and noted. -/
theorem tableDataChanges_notes (complete visible : Bool) {s : Int} (hafter : after < s) (hthrough : s ≤ through)
    (hhead : s ≤ c₁.cat.head) (hrows : c₁.rows s = c₁.rows (s - 1)) (hreads : c₁.reads s ≠ c₁.reads (s - 1)) :
    let changes := tableDataChanges c₁.cat c₂.cat c₃.cat t after through complete firstSnapshot visible reports
    (changes.rowsChanged = true ∨ changes.altered = true) ∧ changes.Notes s := by
  have hwindow := hafter.trans_le hthrough
  obtain ⟨n, rfl, hn, hcase⟩ := h₁.reads s hhead ⟨hrows, hreads⟩
  by_cases htaken : c₁.Taken n
  · obtain ⟨row, hrow, hid, halters⟩ := hcase.resolve_left (not_not.mpr htaken)
    have hlisted := mem_listed htaken hrow hid halters rfl hafter hthrough
    have haltered := (@recordAll_noted t _ listed_sorted _ hlisted).1
      (List.any_eq_true.mpr ⟨_, List.mem_map_of_mem halters, by simp [Token.alters, tokenOf]⟩)
    exact ⟨.inr ((analyse_noted complete visible hwindow).1.trans haltered), analyse_notes
      listed_sorted complete visible hwindow (.inl ⟨_, hlisted, rfl, has_names halters rfl⟩)⟩
  · have hgap := exists_gap h₁ h₂ h₃ firstSnapshot hn hafter hthrough hhead htaken
    exact ⟨.inl (analyse_counts listed_sorted complete visible (.inr hgap) hwindow).1,
      analyse_notes listed_sorted complete visible hwindow (.inr hgap)⟩

end Window

/-- Rows that no snapshot of a window changed are the same at both ends of it. -/
theorem rowsAt_eq_of_unchanged {rows : Int → Multiset (Option Nat × V)} {head : Int} (hwindow : after ≤ through)
    (h : ∀ s, after < s → s ≤ through → s ≤ head → rows s = rows (s - 1)) :
    rows (min after head) = rows (min through head) := by
  have hrange : ∀ n : Nat, min after head + n ≤ min through head →
      rows (min after head) = rows (min after head + n) := by
    intro n
    induction n with
    | zero => simp
    | succ n ih =>
      intro hle
      push_cast at hle
      rw [ih (by omega), h (min after head + (n + 1 : Nat)) (by omega) (by omega) (by omega)]
      congr 1
      push_cast
      omega
  have hends := hrange (min through head - min after head).toNat (by omega)
  rwa [show min after head + ((min through head - min after head).toNat : Int) = min through head by omega] at hends

/-- A detection over any window of any history. Where it reports no change of the rows they
    are stored alike at both ends, and where it reports no alteration either they read alike.
    The last snapshot it reports to have changed the rows is no earlier than the last that
    changed those stored, the last it reports to have changed the table no earlier than the
    last that changed what they read as. -/
theorem detection_misses_no_change (hstart : start.Starts t) (h₁ : ReflTransGen (Chronicle.Moves t) start c₁)
    (h₂ : ReflTransGen (Chronicle.Moves t) c₁ c₂) (h₃ : ReflTransGen (Chronicle.Moves t) c₂ c₃)
    (hfeeds : FeedsRight c₁ reports) (hwindow : after ≤ through) (complete visible : Bool)
    (firstSnapshot : Option Int) :
    let changes := tableDataChanges c₁.cat c₂.cat c₃.cat t after through complete firstSnapshot visible reports
    (changes.rowsChanged = false → c₁.rowsAt after = c₁.rowsAt through ∧
        (changes.altered = false → c₁.readsAt after = c₁.readsAt through)) ∧
      (complete = true → ∀ s, after < s → s ≤ through → s ≤ c₁.cat.head →
        (c₁.rows s ≠ c₁.rows (s - 1) → ∃ last, changes.lastRowsChangedSnapshot = some last ∧ s ≤ last) ∧
        (c₁.reads s ≠ c₁.reads (s - 1) → ∃ last, changes.lastChangedSnapshot = some last ∧ s ≤ last)) := by
  have htold := Chronicle.told_of_moves h₁ hstart.told
  have hcounts := @tableDataChanges_counts _ _ _ _ _ after through _ htold h₂ h₃ firstSnapshot hfeeds complete visible
  have hnotes := @tableDataChanges_notes _ _ _ _ _ after through reports htold h₂ h₃ firstSnapshot complete visible
  refine ⟨fun hno => ?_, fun hc s hs hst hsh => ⟨fun hne => ((hcounts hs hst hsh hne).2.1 hc).2, fun hne => ?_⟩⟩
  · have hsame : ∀ s, after < s → s ≤ through → s ≤ c₁.cat.head → c₁.rows s = c₁.rows (s - 1) := by
      intro s hs hst hsh
      by_contra hne
      have hchanged := (hcounts hs hst hsh hne).1
      rw [hno] at hchanged
      cases hchanged
    refine ⟨rowsAt_eq_of_unchanged hwindow hsame, fun hunaltered => rowsAt_eq_of_unchanged hwindow ?_⟩
    intro s hs hst hsh
    by_contra hne
    rcases (hnotes hs hst hsh (hsame s hs hst hsh) hne).1 with h | h
    · rw [hno] at h
      cases h
    · rw [hunaltered] at h
      cases h
  · -- a change of the rows stored counts as one of the table
    by_cases hrows : c₁.rows s = c₁.rows (s - 1)
    · exact (hnotes hs hst hsh hrows hne).2
    · exact (hcounts hs hst hsh hrows).2.2

/-! A table gets two rows, and the first snapshot is expired while the detection reads. -/

def createdChronicle : Chronicle Unit := ⟨⟨createdLake, []⟩, id, fun _ => 0, fun _ => 0⟩

def insertedChronicle : Chronicle Unit :=
  (createdChronicle.moveTo 7 id ⟨createdLake, [.staged [insertTwo] none]⟩).moveTo 7 id
    ⟨twoRowsLake, [.staged [insertTwo] none]⟩

def expiredChronicle : Chronicle Unit :=
  { insertedChronicle with
    world := ⟨(expireSnapshots (.versions [1]) twoRowsLake).2, [.staged [insertTwo] none]⟩ }

/-- The insert at snapshot 2 is not missed. -/
theorem inserted_rows_reported : ∃ last, (tableDataChanges insertedChronicle.cat expiredChronicle.cat
    expiredChronicle.cat 7 0 2 true none true fun _ _ => (true, true)).lastRowsChangedSnapshot = some last ∧
      2 ≤ last := by
  have hstart : createdChronicle.Starts 7 := ⟨rfl, by decide, fun _ => rfl, fun _ => rfl, by decide⟩
  have hplan : Step (lake Unit) ⟨createdLake, []⟩ none ⟨createdLake, [.staged [insertTwo] none]⟩ :=
    .plan (w := ⟨createdLake, []⟩) ⟨insertTwo_held, .inl rfl⟩
  have hcommit : Step (lake Unit) ⟨createdLake, [.staged [insertTwo] none]⟩
      (some (createdLake, .staged [insertTwo] none)) ⟨twoRowsLake, [.staged [insertTwo] none]⟩ :=
    .commit (w := ⟨createdLake, [Transaction.staged [insertTwo] none]⟩) (List.mem_singleton_self _) rfl
  have hkeys : Keyed twoRowsLake := by
    have hrun := Steps.tail (.tail (.refl ⟨createdLake, []⟩) hplan) hcommit
    have hsound : Sound (lakeDiscipline Unit) ⟨twoRowsLake, _⟩ := hrun.sound ⟨createdLake_inv, by simp⟩
    exact keyed_of_inv hsound.inv
  have hinserted : ReflTransGen (Chronicle.Moves 7) createdChronicle insertedChronicle :=
    .tail (.tail .refl (.lake hplan)) (.lake hcommit)
  have hexpired : ReflTransGen (Chronicle.Moves 7) insertedChronicle expiredChronicle :=
    .tail .refl (.expire (.versions [1]) hkeys)
  have hfeeds : FeedsRight insertedChronicle fun _ _ => (true, true) := fun _ _ h => by simp at h
  exact ((detection_misses_no_change hstart hinserted hexpired .refl hfeeds (by decide) true true none).2 rfl 2
    (by decide) le_rfl (by decide)).1 (by decide)

/-! A table is created and filled by one snapshot, and the next gives it a column with a
    default. A value is a column and one that may be absent. -/

def emptyLake : Catalog (Nat × Option Nat) :=
  { createdLake with
    tables := []
    storage := fun _ => ⟨[], [], [], [], [], 0⟩ }

def insertOne : StagedTableWrite (Nat × Option Nat) :=
  { noWrite with
    data := .files [⟨['a'], true, .assign, none, [⟨none, none, (1, none)⟩]⟩]
    insertedFiles := [] }

def filledLake : Catalog (Nat × Option Nat) :=
  (commitWriteWith ⟨[], createdLake.tables, createdLake.schemas⟩ [insertOne] none emptyLake).toOption.getD emptyLake

/-- `ADD COLUMN b DEFAULT 5`. -/
def readDefault (value : Nat × Option Nat) : Nat × Option Nat := (value.1, some (value.2.getD 5))

def emptyChronicle : Chronicle (Nat × Option Nat) := ⟨⟨emptyLake, []⟩, id, fun _ => 0, fun _ => 0⟩

def alteredChronicle : Chronicle (Nat × Option Nat) :=
  (emptyChronicle.moveTo 7 id ⟨filledLake, []⟩).moveTo 7 readDefault
    ⟨commitDefinition ⟨[⟨.alteredTable, 7⟩], createdLake.tables, createdLake.schemas⟩ filledLake, []⟩

/-- The alteration at snapshot 3 changes what the row reads as, and is no change of the rows. -/
theorem alteration_not_counted : emptyChronicle.Starts 7 ∧
    ReflTransGen (Chronicle.Moves 7) emptyChronicle alteredChronicle ∧
    FeedsRight alteredChronicle (fun _ _ => (true, true)) ∧
    (tableDataChanges alteredChronicle.cat alteredChronicle.cat alteredChronicle.cat 7 2 3 true none true
      fun _ _ => (true, true)).rowsChanged = false ∧
    alteredChronicle.readsAt 2 ≠ alteredChronicle.readsAt 3 := by
  have hfill : Defines 7 emptyLake id ⟨[], createdLake.tables, createdLake.schemas⟩ id := by
    refine ⟨?_, fun _ _ _ => rfl, fun _ => .inl rfl⟩
    intro t hlive
    cases hlive
  have halter : Defines 7 filledLake id ⟨[⟨.alteredTable, 7⟩], createdLake.tables, createdLake.schemas⟩
    readDefault := by
    refine ⟨fun t hlive => hlive, ?_, fun _ => .inr (List.mem_singleton_self _)⟩
    intro t hnot hlive
    have hlive : filledLake.tableLive t = true := hlive
    rw [hlive] at hnot
    cases hnot
  have hcommit : commitWriteWith ⟨[], createdLake.tables, createdLake.schemas⟩ [insertOne] none emptyLake =
      .ok filledLake := rfl
  have hwrite : Chronicle.Moves 7 emptyChronicle (emptyChronicle.moveTo 7 id ⟨filledLake, []⟩) := .write hfill hcommit
  refine ⟨⟨rfl, rfl, fun _ => rfl, fun _ => rfl, by decide⟩, ?_, fun _ _ h => by simp at h, by decide, by decide⟩
  exact .tail (.tail .refl hwrite) (.define halter)

end Missed

end DuckLake.Changes
