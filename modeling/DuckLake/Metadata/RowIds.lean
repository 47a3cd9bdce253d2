import DuckLake.Metadata.Stage
import Mathlib.Tactic.Linarith
import Mathlib.Tactic.Ring

/- The row id counter of a table over its whole life, in the 64-bit arithmetic of the
   source.

   Rust                                     Lean
   RowIdStart, row_id_floor                 RowIdStart, DataFileInfo.rowIdFloor
   allocate_row_id_start                    allocateRowIdStart
   commit_files_at_snapshot (its loop)      registerFile, commitFiles
   commit_inlined_at_snapshot (its loop)    insertedRowIds, commitInlined
   ducklake_table_stats.next_row_id         Table.nextRowId

   A commit draws from the counter file by file, in a local copy, and adds what it drew
   to the stored one at the end. `Table` also keeps what was handed out: the range of
   every registered file and of every inlined insert, oldest first, and the floors.

   A row that is written again with its own id (`inlined_row_ids`) draws none: that id
   was drawn when the row was first written, so it lies in an earlier range. -/

namespace DuckLake.RowIds

open Checked
open Metadata (Result)

/-! ## Allocation -/

def i64Min : Int := -9223372036854775808

def i64Max : Int := 9223372036854775807

def saturate (x : Int) : Int := max i64Min (min i64Max x)

def saturatingAdd (a b : Int) : Int := saturate (a + b)

def saturatingSub (a b : Int) : Int := saturate (a - b)

theorem saturate_of_fits {x : Int} (hlo : i64Min ≤ x) (hhi : x ≤ i64Max) : saturate x = x := by
  unfold saturate
  rw [min_eq_right hhi, max_eq_right hlo]

inductive RowIdStart where
  | assign
  | embedded
  | preserved (start : Int)
deriving DecidableEq, Repr

structure DataFileInfo where
  recordCount : Int
  rowIdStart : RowIdStart
  rowIdFloor : Option Int
deriving DecidableEq, Repr

structure RowIdAllocation where
  stored : Option Int
  advance : Int
deriving DecidableEq, Repr

/-- Where the counter stands once the floor is respected. -/
def allocationBase (nextRowId : Int) (file : DataFileInfo) : Int :=
  max nextRowId (file.rowIdFloor.getD i64Min)

def advanceTo (nextRowId target : Int) : Int := max (saturatingSub target nextRowId) 0

def allocateRowIdStart (nextRowId : Int) (file : DataFileInfo) : RowIdAllocation :=
  let base := allocationBase nextRowId file
  match file.rowIdStart with
  | .assign => ⟨some base, advanceTo nextRowId (saturatingAdd base file.recordCount)⟩
  | .embedded => ⟨none, advanceTo nextRowId base⟩
  | .preserved start =>
    ⟨some start, advanceTo nextRowId (max base (saturatingAdd start file.recordCount))⟩

/-! ## What commits hand out -/

/-- `n` ids from `start` on: those of a file's rows, by position. -/
def idsFrom (start : Int) : Nat → List Int
  | 0 => []
  | n + 1 => start :: idsFrom (start + 1) n

theorem mem_idsFrom {start i : Int} {n : Nat} : i ∈ idsFrom start n ↔ start ≤ i ∧ i < start + n := by
  induction n generalizing start with
  | zero =>
    simp only [idsFrom, List.not_mem_nil, Nat.cast_zero, false_iff]
    omega
  | succ n ih =>
    rw [idsFrom, List.mem_cons, ih]
    push_cast
    omega

theorem idsFrom_nodup (start : Int) (n : Nat) : (idsFrom start n).Nodup := by
  induction n generalizing start with
  | zero => exact List.nodup_nil
  | succ n ih =>
    refine List.nodup_cons.mpr ⟨fun hmem => ?_, ih (start + 1)⟩
    have := (mem_idsFrom.mp hmem).1
    omega

/-- How the ids of a range came to the table: drawn for a file, brought along by a
    file, or drawn for inlined rows. -/
inductive Origin where
  | assigned
  | preserved
  | reserved
deriving DecidableEq, Repr

/-- The ids of a registered file or of an inlined insert, and where they end. -/
structure Range where
  origin : Origin
  ids : List Int
  stop : Int
deriving DecidableEq, Repr

/-- The ids were drawn from the counter. -/
def Range.drawn (r : Range) : Bool := r.origin != .preserved

structure Table where
  nextRowId : Int
  ranges : List Range
  floors : List Int
deriving DecidableEq, Repr

/-- A table without a row in `ducklake_table_stats`. -/
def Table.fresh : Table := ⟨0, [], []⟩

/-- The range `ducklake_data_file` records for a file, if any. -/
def fileRange (file : DataFileInfo) (stored : Option Int) : Option Range :=
  stored.map fun start =>
    ⟨if file.rowIdStart = .assign then .assigned else .preserved, idsFrom start file.recordCount.toNat,
      start + file.recordCount⟩

/-- The locals of the loop of `commit_files_at_snapshot`, with what it registers. -/
structure FilesPass where
  nextRowId : Int
  totalAdvance : Int
  ranges : List Range
  floors : List Int

/-- One round of the loop. -/
def registerFile (pass : FilesPass) (file : DataFileInfo) : FilesPass :=
  let rowIds := allocateRowIdStart pass.nextRowId file
  { nextRowId := pass.nextRowId + rowIds.advance
    totalAdvance := pass.totalAdvance + rowIds.advance
    ranges := pass.ranges ++ (fileRange file rowIds.stored).toList
    floors := pass.floors ++ file.rowIdFloor.toList }

def commitFiles (table : Table) (files : List DataFileInfo) : Result Table := do
  refuseIf (files.isEmpty)
    (.invalidConfig "multi-table file stage must contain at least one file")
  let pass := files.foldl registerFile ⟨table.nextRowId, 0, table.ranges, table.floors⟩
  return ⟨table.nextRowId + pass.totalAdvance, pass.ranges, pass.floors⟩

/-- The ids the loop of `commit_inlined_at_snapshot` stores for `n` rows, and where its
    `row_id` stands afterwards. -/
def insertedRowIds (rowId : Int) : Nat → List Int × Int
  | 0 => ([], rowId)
  | n + 1 =>
    let rest := insertedRowIds (rowId + 1) n
    (rowId :: rest.1, rest.2)

/-- Insert inlined rows; `keepsRowIds` says that the rows keep ids of their own. -/
def commitInlined (table : Table) (recordCount : Nat) (keepsRowIds : Bool) : Result Table := do
  refuseIf (recordCount = 0)
    (.invalidConfig "multi-table inline stage must contain at least one row")
  if keepsRowIds then return table
  else
    let inserted := insertedRowIds table.nextRowId recordCount
    return { table with
      nextRowId := table.nextRowId + recordCount
      ranges := table.ranges ++ [⟨.reserved, inserted.1, inserted.2⟩] }

/-- What one commit writes to the table: its data, and the files a `MERGE` inserts
    besides. -/
inductive Part where
  | files (files : List DataFileInfo)
  | inlined (recordCount : Nat) (keepsRowIds : Bool)
deriving DecidableEq, Repr

def commitPart (table : Table) : Part → Result Table
  | .files files => commitFiles table files
  | .inlined recordCount keepsRowIds => commitInlined table recordCount keepsRowIds

def commitParts (table : Table) (parts : List Part) : Result Table := parts.foldlM commitPart table

/-- A commit that fails leaves the table as it was. -/
def commit (table : Table) (parts : List Part) : Table := (commitParts table parts).toOption.getD table

def commits (table : Table) (list : List (List Part)) : Table := list.foldl commit table

/-! ## Sums that fit -/

/-- The counts are not negative and the sums made for the file fit 64 bits. -/
structure DataFileInfo.Fits (file : DataFileInfo) (nextRowId : Int) : Prop where
  count : 0 ≤ file.recordCount
  base : allocationBase nextRowId file ≤ i64Max
  assigned : file.rowIdStart = .assign → allocationBase nextRowId file + file.recordCount ≤ i64Max
  start : ∀ start, file.rowIdStart = .preserved start → i64Min ≤ start ∧ start + file.recordCount ≤ i64Max

def filesFit : Int → List DataFileInfo → Prop
  | _, [] => True
  | nextRowId, file :: files =>
    file.Fits nextRowId ∧ filesFit (nextRowId + (allocateRowIdStart nextRowId file).advance) files

def partFits (nextRowId : Int) : Part → Prop
  | .files files => filesFit nextRowId files
  | .inlined recordCount _ => nextRowId + recordCount ≤ i64Max

def partsFit : Table → List Part → Prop
  | _, [] => True
  | table, part :: parts =>
    partFits table.nextRowId part ∧ ∀ table', commitPart table part = .ok table' → partsFit table' parts

/-- Every sum a sequence of commits makes fits. -/
def commitsFit : Table → List (List Part) → Prop
  | _, [] => True
  | table, parts :: list => partsFit table parts ∧ commitsFit (commit table parts) list

/-! ## Allocation, without saturation -/

section Allocation

variable {n : Int} {file : DataFileInfo}

theorem le_allocationBase : n ≤ allocationBase n file := le_max_left ..

theorem floor_le_allocationBase {floor : Int} (hf : file.rowIdFloor = some floor) : floor ≤ allocationBase n file := by
  unfold allocationBase
  rw [hf]
  exact le_max_right ..

theorem advanceTo_eq {target : Int} (hn : 0 ≤ n) (hle : n ≤ target) (hfit : target ≤ i64Max) :
    n + advanceTo n target = target := by
  have hsat : saturatingSub target n = target - n :=
    saturate_of_fits (by unfold i64Min; omega) (by omega)
  unfold advanceTo
  rw [hsat, max_eq_left (by omega)]
  omega

/-- Where the counter stands after a file, by the file's policy. -/
def counterAfter (n : Int) (file : DataFileInfo) : Int :=
  match file.rowIdStart with
  | .assign => allocationBase n file + file.recordCount
  | .embedded => allocationBase n file
  | .preserved start => max (allocationBase n file) (start + file.recordCount)

theorem allocate_counter (hn : 0 ≤ n) (h : file.Fits n) :
    n + (allocateRowIdStart n file).advance = counterAfter n file := by
  have hbase : n ≤ allocationBase n file := le_allocationBase
  have hcount := h.count
  unfold allocateRowIdStart counterAfter
  cases hp : file.rowIdStart with
  | assign =>
    have hfit := h.assigned hp
    have hsum : saturatingAdd (allocationBase n file) file.recordCount = allocationBase n file + file.recordCount :=
      saturate_of_fits (by unfold i64Min; omega) hfit
    dsimp only
    rw [hsum]
    exact advanceTo_eq hn (by omega) hfit
  | embedded => exact advanceTo_eq hn hbase h.base
  | preserved start =>
    obtain ⟨hlo, hhi⟩ := h.start start hp
    have hsum : saturatingAdd start file.recordCount = start + file.recordCount :=
      saturate_of_fits (by omega) hhi
    dsimp only
    rw [hsum]
    exact advanceTo_eq hn (hbase.trans (le_max_left ..)) (max_le h.base hhi)

theorem le_counterAfter (h : file.Fits n) : allocationBase n file ≤ counterAfter n file := by
  have := h.count
  unfold counterAfter
  split
  · omega
  · exact le_rfl
  · exact le_max_left ..

theorem counterAfter_le (h : file.Fits n) : counterAfter n file ≤ i64Max := by
  unfold counterAfter
  split
  · next hp => exact h.assigned hp
  · exact h.base
  · next start hp => exact max_le h.base (h.start start hp).2

end Allocation

/-! ## The catalog's counter -/

/-- A file of the catalog model, in 64-bit numbers. -/
def ofDataFileInfo {V : Type} (file : Metadata.DataFileInfo V) : DataFileInfo where
  recordCount := file.recordCount
  rowIdStart := match file.rowIdStart with
    | .assign => .assign
    | .embedded => .embedded
    | .preserved start => .preserved start
  rowIdFloor := file.rowIdFloor.map Nat.cast

/-- While the sums fit, the catalog model's counter is this one. -/
theorem allocateRowIdStart_ofDataFileInfo {V : Type} {file : Metadata.DataFileInfo V} {n : Nat}
    (h : (ofDataFileInfo file).Fits n) :
    allocateRowIdStart n (ofDataFileInfo file) =
      ⟨(Metadata.allocateRowIdStart n file).1.map Nat.cast, ((Metadata.allocateRowIdStart n file).2 : Nat)⟩ := by
  have hbase : allocationBase n (ofDataFileInfo file) = (max n (file.rowIdFloor.getD 0) : Nat) := by
    unfold allocationBase ofDataFileInfo
    cases file.rowIdFloor with
    | none => simp [i64Min]
    | some floor => simp
  have hcounter := allocate_counter (Int.natCast_nonneg n) h
  have hstored : (allocateRowIdStart n (ofDataFileInfo file)).stored =
      (Metadata.allocateRowIdStart n file).1.map Nat.cast := by
    unfold allocateRowIdStart Metadata.allocateRowIdStart
    rw [hbase]
    cases hp : file.rowIdStart <;> simp [ofDataFileInfo, hp]
  have hadvance : (allocateRowIdStart n (ofDataFileInfo file)).advance =
      ((Metadata.allocateRowIdStart n file).2 : Nat) := by
    unfold counterAfter at hcounter
    rw [hbase] at hcounter
    unfold Metadata.allocateRowIdStart
    cases hp : file.rowIdStart <;> simp only [ofDataFileInfo, hp] at hcounter ⊢ <;> omega
  rw [← hstored, ← hadvance]

/-! ## Every range is below the counter -/

/-- The ids of a later range, when drawn, are in no earlier one. -/
def Apart (earlier later : Range) : Prop := later.drawn = true → ∀ i ∈ later.ids, i ∉ earlier.ids

/-- What holds of a table after any commits. -/
structure Sound (table : Table) : Prop where
  nonneg : 0 ≤ table.nextRowId
  fits : table.nextRowId ≤ i64Max
  stops : ∀ r ∈ table.ranges, r.stop ≤ table.nextRowId
  ids : ∀ r ∈ table.ranges, r.ids.Nodup ∧ ∀ i ∈ r.ids, i < r.stop
  floors : ∀ floor ∈ table.floors, floor ≤ table.nextRowId
  apart : table.ranges.Pairwise Apart

theorem Sound.fresh : Sound Table.fresh :=
  ⟨le_rfl, by decide, by simp [Table.fresh], by simp [Table.fresh], by simp [Table.fresh], .nil⟩

theorem Sound.raise {table : Table} {n : Int} {floors : List Int} (h : Sound table) (hn : table.nextRowId ≤ n)
    (hfit : n ≤ i64Max) (hfloors : ∀ floor ∈ floors, floor ≤ n) :
    Sound ⟨n, table.ranges, table.floors ++ floors⟩ where
  nonneg := h.nonneg.trans hn
  fits := hfit
  stops r hr := (h.stops r hr).trans hn
  ids := h.ids
  floors floor hf := (List.mem_append.mp hf).elim (fun hf => (h.floors floor hf).trans hn) (hfloors floor)
  apart := h.apart

/-- Register a range that ends at or below the new counter; ids drawn start at or above
    the old one, where no earlier range reaches. -/
theorem Sound.register {table : Table} {r : Range} {n : Int} (h : Sound table) (hn : table.nextRowId ≤ n)
    (hfit : n ≤ i64Max) (hstop : r.stop ≤ n) (hids : r.ids.Nodup ∧ ∀ i ∈ r.ids, i < r.stop)
    (hdrawn : r.drawn = true → ∀ i ∈ r.ids, table.nextRowId ≤ i) :
    Sound ⟨n, table.ranges ++ [r], table.floors⟩ where
  nonneg := h.nonneg.trans hn
  fits := hfit
  stops r' hr := by
    rcases List.mem_append.mp hr with hr | hr
    · exact (h.stops r' hr).trans hn
    · exact List.mem_singleton.mp hr ▸ hstop
  ids r' hr := by
    rcases List.mem_append.mp hr with hr | hr
    · exact h.ids r' hr
    · exact List.mem_singleton.mp hr ▸ hids
  floors floor hf := (h.floors floor hf).trans hn
  apart := by
    refine List.pairwise_append.mpr ⟨h.apart, List.pairwise_singleton .., ?_⟩
    intro earlier hmem later hlater hd i hi hi'
    obtain rfl := List.mem_singleton.mp hlater
    have hbelow := (h.ids earlier hmem).2 i hi'
    have hstops := h.stops earlier hmem
    have habove := hdrawn hd i hi
    omega

/-! ## One commit -/

/-- The table as the loop over files sees it. -/
def FilesPass.table (pass : FilesPass) : Table := ⟨pass.nextRowId, pass.ranges, pass.floors⟩

theorem idsFrom_toNat {file : DataFileInfo} (h : 0 ≤ file.recordCount) (start : Int) :
    (idsFrom start file.recordCount.toNat).Nodup ∧
      ∀ i ∈ idsFrom start file.recordCount.toNat, start ≤ i ∧ i < start + file.recordCount := by
  refine ⟨idsFrom_nodup .., fun i hi => ?_⟩
  have := mem_idsFrom.mp hi
  omega

theorem registerFile_sound {pass : FilesPass} {file : DataFileInfo} (hs : Sound pass.table)
    (h : file.Fits pass.nextRowId) : Sound (registerFile pass file).table := by
  have hcounter := allocate_counter (n := pass.nextRowId) hs.nonneg h
  have hbase : pass.nextRowId ≤ allocationBase pass.nextRowId file := le_allocationBase
  have hafter := le_counterAfter h
  have hfit := counterAfter_le h
  have hn : pass.table.nextRowId ≤ counterAfter pass.nextRowId file := hbase.trans hafter
  have hfloor : ∀ floor ∈ file.rowIdFloor.toList, floor ≤ counterAfter pass.nextRowId file := by
    intro floor hf
    exact (floor_le_allocationBase (Option.mem_toList.mp hf)).trans hafter
  have hids := idsFrom_toNat h.count
  unfold registerFile FilesPass.table
  dsimp only
  rw [hcounter]
  cases hp : file.rowIdStart with
  | assign =>
    -- the range starts at the base and moves the counter to its end
    have hend : counterAfter pass.nextRowId file = allocationBase pass.nextRowId file + file.recordCount := by
      unfold counterAfter
      rw [hp]
    simp only [allocateRowIdStart, hp, fileRange, Option.map_some, Option.toList_some, if_true]
    refine (hs.register hn hfit hend.ge ⟨(hids _).1, fun i hi => ((hids _).2 i hi).2⟩ ?_).raise le_rfl hfit hfloor
    intro _ i hi
    exact hbase.trans ((hids _).2 i hi).1
  | embedded =>
    simp only [allocateRowIdStart, hp, fileRange, Option.map_none, Option.toList_none, List.append_nil]
    exact hs.raise hn hfit hfloor
  | preserved start =>
    have hend : start + file.recordCount ≤ counterAfter pass.nextRowId file := by
      unfold counterAfter
      rw [hp]
      exact le_max_right ..
    simp only [allocateRowIdStart, hp, fileRange, Option.map_some, Option.toList_some, reduceCtorEq, if_false]
    refine (hs.register hn hfit hend ⟨(hids _).1, fun i hi => ((hids _).2 i hi).2⟩ ?_).raise le_rfl hfit hfloor
    intro hd
    cases hd

theorem registerFile_mono {pass : FilesPass} {file : DataFileInfo} (hs : Sound pass.table)
    (h : file.Fits pass.nextRowId) : pass.nextRowId ≤ (registerFile pass file).nextRowId := by
  show pass.nextRowId ≤ pass.nextRowId + _
  rw [allocate_counter (n := pass.nextRowId) hs.nonneg h]
  exact le_allocationBase.trans (le_counterAfter h)

/-- The loop over the files of a commit: its local counter is the stored one plus what
    the loop adds to it at the end. -/
theorem registerFiles_sound {files : List DataFileInfo} {pass : FilesPass} {stored : Int}
    (hlocal : pass.nextRowId = stored + pass.totalAdvance) (hs : Sound pass.table)
    (h : filesFit pass.nextRowId files) :
    Sound (files.foldl registerFile pass).table ∧ pass.nextRowId ≤ (files.foldl registerFile pass).nextRowId ∧
      (files.foldl registerFile pass).nextRowId = stored + (files.foldl registerFile pass).totalAdvance := by
  induction files generalizing pass with
  | nil => exact ⟨hs, le_rfl, hlocal⟩
  | cons file files ih =>
    obtain ⟨hfile, hfiles⟩ := h
    have hnext : (registerFile pass file).nextRowId = stored + (registerFile pass file).totalAdvance := by
      simp only [registerFile, hlocal]
      ring
    obtain ⟨hsound, hmono, hsum⟩ := ih hnext (registerFile_sound hs hfile) hfiles
    exact ⟨hsound, (registerFile_mono hs hfile).trans hmono, hsum⟩

theorem commitFiles_sound {table table' : Table} {files : List DataFileInfo} (hs : Sound table)
    (hfit : filesFit table.nextRowId files) (h : commitFiles table files = .ok table') :
    Sound table' ∧ table.nextRowId ≤ table'.nextRowId := by
  simp only [commitFiles, bind_eq_ok, pure_eq_ok] at h
  obtain ⟨-, -, rfl⟩ := h
  obtain ⟨hsound, hmono, hsum⟩ := @registerFiles_sound files ⟨table.nextRowId, 0, table.ranges, table.floors⟩
    table.nextRowId (by simp) hs hfit
  rw [← hsum]
  exact ⟨hsound, hmono⟩

theorem insertedRowIds_eq (rowId : Int) (n : Nat) : insertedRowIds rowId n = (idsFrom rowId n, rowId + n) := by
  induction n generalizing rowId with
  | zero => simp [insertedRowIds, idsFrom]
  | succ n ih =>
    rw [insertedRowIds, ih (rowId + 1), idsFrom]
    push_cast
    congr 1
    ring

theorem commitInlined_sound {table table' : Table} {n : Nat} {keeps : Bool} (hs : Sound table)
    (hfit : table.nextRowId + n ≤ i64Max) (h : commitInlined table n keeps = .ok table') :
    Sound table' ∧ table.nextRowId ≤ table'.nextRowId := by
  simp only [commitInlined, bind_eq_ok] at h
  obtain ⟨-, -, h⟩ := h
  cases keeps with
  | true =>
    obtain rfl := pure_eq_ok.mp h
    exact ⟨hs, le_rfl⟩
  | false =>
    obtain rfl := pure_eq_ok.mp h
    have hn : table.nextRowId ≤ table.nextRowId + n := by omega
    rw [insertedRowIds_eq]
    refine ⟨hs.register hn hfit le_rfl ⟨idsFrom_nodup .., fun i hi => (mem_idsFrom.mp hi).2⟩ ?_, hn⟩
    intro _ i hi
    exact (mem_idsFrom.mp hi).1

theorem commitPart_sound {table table' : Table} {part : Part} (hs : Sound table)
    (hfit : partFits table.nextRowId part) (h : commitPart table part = .ok table') :
    Sound table' ∧ table.nextRowId ≤ table'.nextRowId := by
  cases part with
  | files files => exact commitFiles_sound hs hfit h
  | inlined n keeps => exact commitInlined_sound hs hfit h

theorem commitParts_sound {table table' : Table} {parts : List Part} (hs : Sound table)
    (hfit : partsFit table parts) (h : commitParts table parts = .ok table') :
    Sound table' ∧ table.nextRowId ≤ table'.nextRowId := by
  unfold commitParts at h
  induction parts generalizing table with
  | nil =>
    obtain rfl : table = table' := by simpa [pure, Except.pure] using h
    exact ⟨hs, le_rfl⟩
  | cons part parts ih =>
    rw [List.foldlM_cons, bind_eq_ok] at h
    obtain ⟨table₁, h₁, h₂⟩ := h
    obtain ⟨hs₁, hmono₁⟩ := commitPart_sound hs hfit.1 h₁
    obtain ⟨hs₂, hmono₂⟩ := ih hs₁ (hfit.2 table₁ h₁) h₂
    exact ⟨hs₂, hmono₁.trans hmono₂⟩

theorem commit_sound {table : Table} {parts : List Part} (hs : Sound table) (hfit : partsFit table parts) :
    Sound (commit table parts) ∧ table.nextRowId ≤ (commit table parts).nextRowId := by
  unfold commit
  cases h : commitParts table parts with
  | error e => exact ⟨hs, le_rfl⟩
  | ok table' => exact commitParts_sound hs hfit h

/-! ## A table's life -/

theorem commits_sound {list : List (List Part)} {table : Table} (hs : Sound table) (hfit : commitsFit table list) :
    Sound (commits table list) ∧ table.nextRowId ≤ (commits table list).nextRowId := by
  unfold commits
  induction list generalizing table with
  | nil => exact ⟨hs, le_rfl⟩
  | cons parts list ih =>
    obtain ⟨hs₁, hmono₁⟩ := commit_sound hs hfit.1
    obtain ⟨hs₂, hmono₂⟩ := ih hs₁ hfit.2
    exact ⟨hs₂, hmono₁.trans hmono₂⟩

theorem commitsFit_append {before after : List (List Part)} {table : Table}
    (h : commitsFit table (before ++ after)) :
    commitsFit table before ∧ commitsFit (commits table before) after := by
  induction before generalizing table with
  | nil => exact ⟨trivial, h⟩
  | cons parts before ih =>
    obtain ⟨hb, ha⟩ := ih h.2
    exact ⟨⟨h.1, hb⟩, ha⟩

/-- Any commits to a table, each with any files and inlined inserts. The counter never
    falls; it is past every range and every floor; and the ids drawn for a file or for
    inlined rows are distinct and in no range registered before. -/
theorem row_ids_drawn_once {before after : List (List Part)} (hfit : commitsFit Table.fresh (before ++ after)) :
    (commits Table.fresh before).nextRowId ≤ (commits Table.fresh (before ++ after)).nextRowId ∧
      (∀ r ∈ (commits Table.fresh (before ++ after)).ranges,
        r.stop ≤ (commits Table.fresh (before ++ after)).nextRowId ∧ r.ids.Nodup ∧ ∀ i ∈ r.ids, i < r.stop) ∧
      (∀ floor ∈ (commits Table.fresh (before ++ after)).floors,
        floor ≤ (commits Table.fresh (before ++ after)).nextRowId) ∧
      (commits Table.fresh (before ++ after)).ranges.Pairwise fun earlier later =>
        later.drawn = true → ∀ i ∈ later.ids, i ∉ earlier.ids := by
  obtain ⟨hbefore, hafter⟩ := commitsFit_append hfit
  have hsplit : commits Table.fresh (before ++ after) = commits (commits Table.fresh before) after :=
    List.foldl_append ..
  have hmono := (commits_sound (commits_sound .fresh hbefore).1 hafter).2
  have hs := (commits_sound .fresh hfit).1
  exact ⟨hsplit ▸ hmono, fun r hr => ⟨hs.stops r hr, hs.ids r hr⟩, hs.floors, hs.apart⟩

/-- Two assigned files around a preserved one with a floor, then inlined rows. -/
def mixedCommits : List (List Part) :=
  [[.files [⟨3, .assign, none⟩, ⟨2, .preserved 10, some 20⟩, ⟨4, .assign, none⟩]], [.inlined 2 false]]

theorem mixedCommits_fit : commitsFit Table.fresh mixedCommits := by
  refine ⟨⟨⟨?_, ?_, ?_, trivial⟩, fun table' h => ?_⟩, ⟨?_, fun _ _ => trivial⟩, trivial⟩
  · exact ⟨by decide, by decide, by decide, by simp⟩
  · exact ⟨by decide, by decide, by simp, by simp [i64Min, i64Max]⟩
  · exact ⟨by decide, by decide, by decide, by simp⟩
  · trivial
  · show _ ≤ _
    decide

theorem mixedCommits_drawn_once : (commits Table.fresh mixedCommits).nextRowId = 26 ∧
    (commits Table.fresh mixedCommits).ranges.Pairwise fun earlier later =>
      later.drawn = true → ∀ i ∈ later.ids, i ∉ earlier.ids :=
  ⟨by decide, (@row_ids_drawn_once [] mixedCommits mixedCommits_fit).2.2.2⟩

end DuckLake.RowIds
