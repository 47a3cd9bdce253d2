import DuckLake.Stats.Planner
import Mathlib.Algebra.Order.BigOperators.Group.List
import Mathlib.Data.List.Induction
import Mathlib.Tactic.Common

/- What the planner's statistics say of the rows. They go wrong where a file's row count is
   not recorded and the number of values of some column is published in its place, and
   where a file that holds as many values as NULLs and has no bound is passed over when
   the table's bound is taken. What is called exact is also wrong where a row was deleted
   inline, which no row of a listing shows, and where a recorded bound is wider than the
   values. `statistics_right_iff` says that these are the only ways. -/

namespace DuckLake.Planner

/-! ## Rows -/

/-- A row, by column id. -/
abbrev Row := Nat → ScalarValue

/-- How a row of a data file was deleted: its delete file names it, or only an inlined
    deletion does. -/
inductive Deletion where
  | none
  | file
  | inlined
deriving DecidableEq, Repr

structure FileRows where
  rows : List (Row × Deletion)

namespace FileRows

def all (data : FileRows) : List Row := data.rows.map Prod.fst

def live (data : FileRows) : List Row := (data.rows.filter (·.2 = .none)).map Prod.fst

def deleted (data : FileRows) (how : Deletion) : Nat := data.rows.countP (·.2 = how)

end FileRows

def nulls (columnId : Nat) (rows : List Row) : Nat := rows.countP fun r => (r columnId).isNull

/-- The bound holds for every value of the column. -/
def Side.Holds (side : Side) (columnId : Nat) (b : ScalarValue) (rows : List Row) : Prop :=
  ∀ r ∈ rows, (r columnId).isNull = false → side.covers b (r columnId) = true

/-- Some value of the column is as far out as the bound. -/
def Side.Attained (side : Side) (columnId : Nat) (b : ScalarValue) (rows : List Row) : Prop :=
  ∃ r ∈ rows, (r columnId).isNull = false ∧ side.covers (r columnId) b = true

/-! ## Sound catalog statistics -/

/-- A row of `ducklake_file_column_stats` is right about the rows of its file: what it
    records is so, and anything may be missing. Bounds are for the values that are not NaN. -/
structure RawSound (parser : Parser) (columns : List Column) (raw : FileColumnStatistics) (rows : List Row) : Prop where
  values : ∀ n, raw.valueCount = some n → n = rows.countP fun r => !(r raw.columnId).isNull
  nulls : ∀ n, raw.nullCount = some n → n = nulls raw.columnId rows
  nan : ∀ b, raw.containsNan = some b → b = rows.any fun r => (r raw.columnId).isNaN
  bounds : ∀ side : Side, ∀ c ∈ columns, c.columnId = raw.columnId → ∀ t v, side.text raw = some t →
    parseStatisticScalar parser c t = some v → ∀ r ∈ rows, (r c.columnId).isNull = false →
      (r c.columnId).isNaN = false → side.covers v (r c.columnId) = true

/-- A file with its rows. -/
structure FileSound (parser : Parser) (columns : List Column) (catalog : DuckLakeStatistics) (file : TableFile)
    (data : FileRows) : Prop where
  typed : ∀ c ∈ columns, ∀ r ∈ data.all, (r c.columnId).dataType = c.dataType
  rowCount : ∀ n, file.maxRowCount = some n → n = data.rows.length
  undeleted : file.deleteFile = false → data.deleted .file = 0
  deleteCount : file.deleteFile = true → ∀ n, file.deleteCount = some n → n = data.deleted .file
  stats : ∀ raw ∈ fileColumns catalog file.dataFileId, RawSound parser columns raw data.all

/-- What `build_datafusion_statistics` is called with, and the rows it is about. -/
structure Listing where
  parser : Parser
  columns : List Column
  catalog : DuckLakeStatistics
  files : List (TableFile × FileRows)
  tableRows : List Row
  useCurrent : Bool
  complete : Bool

namespace Listing

def tableFiles (L : Listing) : List TableFile := L.files.map Prod.fst

abbrev rowsOf (L : Listing) (c : Column) : List (Option FileColumnStatistics) :=
  columnRows L.catalog L.tableFiles c.columnId

def fileStatistics (L : Listing) (file : TableFile) : Statistics :=
  buildFileStatistics L.parser L.columns L.catalog file

def tableStatistics (L : Listing) : Statistics :=
  buildTableStatistics L.parser L.columns L.catalog L.tableFiles L.useCurrent L.complete

structure Sound (L : Listing) : Prop where
  files : ∀ f ∈ L.files, FileSound L.parser L.columns L.catalog f.1 f.2
  whole : L.complete = true → L.tableRows = L.files.flatMap (·.2.live)
  /-- The table's own statistics only ever widen. -/
  recordCount : L.useCurrent = true → ∀ n, L.catalog.recordCount = some n → (L.tableRows.length : Int) ≤ n
  noNull : L.useCurrent = true → ∀ raw ∈ L.catalog.columns, raw.containsNull = some false →
    nulls raw.columnId L.tableRows = 0
  current : L.useCurrent = true → ∀ raw ∈ L.catalog.columns, ∀ c ∈ L.columns, c.columnId = raw.columnId →
    (∀ v, usableBound L.parser c raw.containsNan raw.minValue = some v → Side.min.Holds c.columnId v L.tableRows) ∧
      ∀ v, usableBound L.parser c raw.containsNan raw.maxValue = some v → Side.max.Holds c.columnId v L.tableRows

end Listing

/-! ## Right statistics -/

def Side.published : Side → ColumnStatistics → Precision ScalarValue
  | min, s => s.minValue
  | max, s => s.maxValue

/-- What is published of a column is true of the rows: an exact count is the count, another
    one is not exceeded, no value lies outside a bound, and an exact bound is attained. -/
structure ColumnRight (c : Column) (rows : List Row) (s : ColumnStatistics) : Prop where
  nullExact : ∀ n, s.nullCount = .exact n → n = nulls c.columnId rows
  nullBound : ∀ n, s.nullCount = .inexact n → nulls c.columnId rows ≤ n
  bound : ∀ (side : Side) v, (side.published s).getValue = some v → side.Holds c.columnId v rows
  boundExact : ∀ (side : Side) v, side.published s = .exact v → side.Attained c.columnId v rows

structure StatisticsRight (columns : List Column) (rows : List Row) (s : Statistics) : Prop where
  rowsExact : ∀ n, s.numRows = .exact n → n = rows.length
  rowsBound : ∀ n, s.numRows = .inexact n → rows.length ≤ n
  columns : ∀ (i : Nat) c cs, columns[i]? = some c → s.columnStatistics[i]? = some cs → ColumnRight c rows cs

namespace Listing

/-- Every statistic published for a file or the table is true. -/
def Right (L : Listing) : Prop :=
  (∀ f ∈ L.files, StatisticsRight L.columns f.2.live (L.fileStatistics f.1)) ∧
    StatisticsRight L.columns L.tableRows L.tableStatistics

/-- The usable bound recorded for a column of a file. -/
def boundOf (L : Listing) (side : Side) (c : Column) (file : TableFile) : Option ScalarValue :=
  (fileColumn L.catalog file.dataFileId c.columnId).bind (side.bound L.parser c)

/-- The row count, or the value count taken for it, counts every row that was not deleted
    inline. -/
def Counted (L : Listing) (f : TableFile × FileRows) : Prop :=
  ∀ n, f.1.maxRowCount.or ((fileColumns L.catalog f.1.dataFileId).findSome? (·.valueCount)) = some n →
    (f.1.deleteFile = true → ∃ d, f.1.deleteCount = some d ∧ d ≤ n) → n + f.2.deleted .inlined = f.2.rows.length

/-- In a file without a delete file no NULL was deleted inline where NULLs are counted, and
    a bound other than a zero is attained. -/
structure Tight (L : Listing) (f : TableFile × FileRows) (c : Column) : Prop where
  nulls : ∀ raw, fileColumn L.catalog f.1.dataFileId c.columnId = some raw → raw.nullCount ≠ none →
    ∀ x ∈ f.2.rows, x.2 = .inlined → (x.1 c.columnId).isNull = false
  bounds : ∀ side b, L.boundOf side c f.1 = some b → signedZero b = false → side.Attained c.columnId b f.2.live

/-- Every file has a bound or records as many values as NULLs. -/
def Folds (L : Listing) (side : Side) (c : Column) : Prop :=
  ∀ f ∈ L.files, (L.boundOf side c f.1).isSome ∨ (fileColumn L.catalog f.1.dataFileId c.columnId).any allNull = true

/-- A file that is passed over has no value outside the bounds of the others. -/
def Seen (L : Listing) (side : Side) (c : Column) : Prop :=
  (∃ f ∈ L.files, (L.boundOf side c f.1).isSome) → L.Folds side c →
    ∀ f ∈ L.files, L.boundOf side c f.1 = none → ∀ r ∈ f.2.live, (r c.columnId).isNull = false →
      ∃ f' ∈ L.files, ∃ b, L.boundOf side c f'.1 = some b ∧ side.covers b (r c.columnId) = true

/-- Without delete files the outermost bound of the files is attained. -/
def Reached (L : Listing) (side : Side) (c : Column) : Prop :=
  (∀ f ∈ L.files, f.1.deleteFile = false) → L.Folds side c → ∀ f ∈ L.files, ∀ b, L.boundOf side c f.1 = some b →
    (∀ f' ∈ L.files, ∀ b', L.boundOf side c f'.1 = some b' → side.covers b b' = true) →
      side.Attained c.columnId b L.tableRows

/-- When every published statistic is true. -/
structure Recorded (L : Listing) : Prop where
  counted : ∀ f ∈ L.files, L.Counted f
  tight : ∀ f ∈ L.files, f.1.deleteFile = false → ∀ c ∈ L.columns, L.Tight f c
  seen : L.complete = true → ∀ c ∈ L.columns, ∀ side, L.Seen side c
  reached : L.complete = true → ∀ c ∈ L.columns, ∀ side, L.Reached side c

end Listing

/-! ## A bound over all files -/

section Fold

variable {parser : Parser} {side : Side} {column : Column}

variable {rows : List (Option FileColumnStatistics)} {v : ScalarValue}

theorem Side.bound_typed {raw : FileColumnStatistics} (h : side.bound parser column raw = some v) :
    v.dataType = column.dataType ∧ v.isNull = false := by
  unfold Side.bound usableBound at h
  split at h
  · obtain ⟨t, -, ht⟩ := Option.bind_eq_some_iff.mp h
    unfold parseStatisticScalar at ht
    split at ht
    · cases ht
    · split at ht
      · cases ht
      · exact parser.typed ht
  · cases h

/-- One of the bounds, and one for all of them; none where there are none. -/
def Extreme (side : Side) (bounds : List ScalarValue) : Option ScalarValue → Prop
  | none => bounds = []
  | some v => v ∈ bounds ∧ ∀ b ∈ bounds, side.covers v b = true

theorem extendBound_extreme {bounds : List ScalarValue} {current : Option ScalarValue}
    {type : DataType} (htyped : ∀ b ∈ bounds, b.dataType = type ∧ b.isNull = false)
    (hv : v.dataType = type ∧ v.isNull = false) (h : Extreme side bounds current) :
    ∃ w, extendBound side current v = some w ∧ Extreme side (bounds ++ [v]) (some w) := by
  cases current with
  | none =>
    obtain rfl : bounds = [] := h
    exact ⟨v, rfl, by simp, fun b hb => by rw [List.mem_singleton.mp hb]; exact side.covers_refl v⟩
  | some c =>
    obtain ⟨hmem, hcovers⟩ := h
    obtain ⟨hc, hcnull⟩ := htyped c hmem
    obtain ⟨o, ho, hle, hge⟩ := exists_compare hcnull hv.2 (hc.trans hv.1.symm)
    have hkeep : side.keeps o = true → side.covers c v = true := by
      cases side
      · exact hle
      · exact hge
    have hdrop : side.keeps o = false → side.covers v c = true := by
      cases side
      · intro hk
        exact hge (by revert hk; cases o <;> decide)
      · intro hk
        exact hle (by revert hk; cases o <;> decide)
    refine ⟨if side.keeps o then c else v, by simp [extendBound, ho], ?_⟩
    cases hk : side.keeps o with
    | true =>
      refine ⟨List.mem_append_left _ hmem, fun b hb => ?_⟩
      rcases List.mem_append.mp hb with hb | hb
      · exact hcovers b hb
      · rw [List.mem_singleton.mp hb]
        exact hkeep hk
    | false =>
      refine ⟨List.mem_append_right _ (List.mem_singleton_self _), fun b hb => ?_⟩
      rcases List.mem_append.mp hb with hb | hb
      · exact Side.covers_trans (hdrop hk) (hcovers b hb)
      · rw [List.mem_singleton.mp hb]
        exact side.covers_refl v

/-- The file does not keep the bound from being one for all. -/
def Passes (parser : Parser) (side : Side) (column : Column) (raw : Option FileColumnStatistics) : Prop :=
  (raw.bind (side.bound parser column)).isSome ∨ raw.any allNull = true

def recordedBounds (parser : Parser) (side : Side) (column : Column) (rows : List (Option FileColumnStatistics)) :
    List ScalarValue :=
  rows.filterMap (·.bind (side.bound parser column))

theorem recordedBounds_typed {b : ScalarValue}
    (hb : b ∈ recordedBounds parser side column rows) : b.dataType = column.dataType ∧ b.isNull = false := by
  obtain ⟨raw, -, h⟩ := List.mem_filterMap.mp hb
  obtain ⟨r, -, h⟩ := Option.bind_eq_some_iff.mp h
  exact Side.bound_typed h

/-- The loop over the files: it ends complete when every file passes, with the extreme of
    the recorded bounds. -/
theorem foldBounds_spec (rows : List (Option FileColumnStatistics)) :
    ((rows.foldl (foldBound parser side column) ⟨none, true⟩).complete = true ↔
        ∀ raw ∈ rows, Passes parser side column raw) ∧
      ((rows.foldl (foldBound parser side column) ⟨none, true⟩).complete = true →
        Extreme side (recordedBounds parser side column rows)
          (rows.foldl (foldBound parser side column) ⟨none, true⟩).value) := by
  induction rows using List.reverseRecOn with
  | nil => exact ⟨by simp, fun _ => rfl⟩
  | append_singleton rows raw ih =>
    obtain ⟨hiff, hext⟩ := ih
    generalize hb : rows.foldl (foldBound parser side column) ⟨none, true⟩ = b at hiff hext
    have hbounds : recordedBounds parser side column (rows ++ [raw]) =
        recordedBounds parser side column rows ++ (raw.bind (side.bound parser column)).toList := by
      simp [recordedBounds, List.filterMap_append, List.filterMap_cons]
      cases raw.bind (side.bound parser column) <;> rfl
    rw [List.foldl_append, hb, List.foldl_cons, List.foldl_nil, hbounds]
    simp only [List.forall_mem_append, List.forall_mem_singleton]
    rw [← hiff]
    cases raw with
    | none => exact ⟨by simp [foldBound, Passes], by simp [foldBound]⟩
    | some r =>
      cases hr : side.bound parser column r with
      | none =>
        have hp : Passes parser side column (some r) ↔ allNull r = true := by simp [Passes, hr]
        cases hn : allNull r with
        | true => simpa [foldBound, hr, hn, hp] using hext
        | false => simp [foldBound, hr, hn, hp]
      | some v =>
        have hp : Passes parser side column (some r) := by simp [Passes, hr]
        simp only [foldBound, hr, Option.bind_some, Option.toList_some, Bool.and_eq_true, hp, and_true]
        by_cases hc : b.complete = true
        · obtain ⟨w, hw, hwext⟩ := extendBound_extreme (fun x hx => recordedBounds_typed hx)
            (Side.bound_typed hr) (hext hc)
          rw [hw]
          exact ⟨by simp, fun _ => hwext⟩
        · exact ⟨⟨fun h => absurd h.1 hc, fun h => absurd h hc⟩, fun h => absurd h.1 hc⟩

/-- The bound published for the table, if any, is the extreme of the recorded ones, and
    every file passed. -/
theorem foldedValue_eq_some (h : foldedValue parser side column rows = some v) :
    (∀ raw ∈ rows, Passes parser side column raw) ∧ Extreme side (recordedBounds parser side column rows) (some v) := by
  dsimp only [foldedValue] at h
  split at h
  · next hc =>
    have hext := (foldBounds_spec rows).2 hc
    rw [h] at hext
    exact ⟨(foldBounds_spec rows).1.mp hc, hext⟩
  · cases h

theorem exists_foldedValue
    (hpass : ∀ raw ∈ rows, Passes parser side column raw) (hne : recordedBounds parser side column rows ≠ []) :
    ∃ v, foldedValue parser side column rows = some v := by
  have hc := (foldBounds_spec rows).1.mpr hpass
  have hext := (foldBounds_spec rows).2 hc
  unfold foldedValue
  rw [if_pos hc]
  cases hv : (rows.foldl (foldBound parser side column) ⟨none, true⟩).value with
  | none =>
    rw [hv] at hext
    exact absurd hext hne
  | some v => exact ⟨v, rfl⟩

end Fold

/-! ## Counts -/

theorem addCount_eq_some {total n : Option Nat} {m : Nat} (h : addCount total n = some m) :
    ∃ t k, total = some t ∧ n = some k ∧ m = t + k := by
  cases total with
  | none => cases h
  | some t =>
    cases n with
    | none => cases h
    | some k =>
      simp only [addCount, checkedAdd] at h
      split at h
      · exact ⟨t, k, rfl, rfl, (Option.some.inj h).symm⟩
      · cases h

theorem foldl_addCount {α : Type} (g : α → Option Nat) (l : List α) {n : Nat}
    (h : l.foldl (fun total a => addCount total (g a)) (some 0) = some n) :
    (∀ a ∈ l, (g a).isSome) ∧ n = (l.map fun a => (g a).getD 0).sum := by
  induction l using List.reverseRecOn generalizing n with
  | nil => exact ⟨by simp, (Option.some.inj h).symm⟩
  | append_singleton l a ih =>
    rw [List.foldl_append, List.foldl_cons, List.foldl_nil] at h
    obtain ⟨t, k, ht, hk, rfl⟩ := addCount_eq_some h
    obtain ⟨hall, rfl⟩ := ih ht
    refine ⟨List.forall_mem_append.mpr ⟨hall, by simp [hk]⟩, by simp [hk]⟩

theorem statisticUsize_natCast (n : Nat) : statisticUsize n = some n := by simp [statisticUsize]

section Rows

variable {data : FileRows}

theorem FileRows.live_sublist (data : FileRows) : data.live.Sublist data.all := List.filter_sublist.map _

theorem FileRows.length_live (data : FileRows) :
    data.live.length + data.deleted .file + data.deleted .inlined = data.rows.length := by
  unfold live deleted
  rw [List.length_map]
  induction data.rows with
  | nil => rfl
  | cons x rows ih =>
    rcases x with ⟨r, _ | _ | _⟩ <;> simp <;> omega

theorem nulls_live_le (columnId : Nat) (data : FileRows) : nulls columnId data.live ≤ nulls columnId data.all :=
  data.live_sublist.countP_le

/-- No NULL is lost to the deletions exactly when none of the deleted rows has one. -/
theorem nulls_live_eq_iff {columnId : Nat} (hfile : data.deleted .file = 0) :
    nulls columnId data.all = nulls columnId data.live ↔
      ∀ x ∈ data.rows, x.2 = .inlined → (x.1 columnId).isNull = false := by
  have hsplit := List.countP_eq_countP_filter_add data.rows (fun x => (x.1 columnId).isNull) (·.2 = .none)
  have hall : nulls columnId data.all = data.rows.countP fun x => (x.1 columnId).isNull := List.countP_map
  have hlive : nulls columnId data.live = (data.rows.filter (·.2 = .none)).countP fun x => (x.1 columnId).isNull :=
    List.countP_map
  rw [hall, hlive, hsplit, Nat.add_eq_left, List.countP_eq_zero]
  refine ⟨fun h x hx hdel => ?_, fun h x hx => ?_⟩
  · exact Bool.eq_false_iff.mpr (h x (List.mem_filter.mpr ⟨hx, by simp [hdel]⟩))
  · obtain ⟨hx, hdel⟩ := List.mem_filter.mp hx
    have hnofile : x.2 ≠ .file := by simpa using List.countP_eq_zero.mp hfile x hx
    have hinlined : x.2 = .inlined := by
      cases hx2 : x.2 with
      | none => simp [hx2] at hdel
      | file => exact absurd hx2 hnofile
      | inlined => rfl
    simp [h x hx hinlined]

theorem nulls_flatMap (columnId : Nat) (files : List (TableFile × FileRows)) :
    nulls columnId (files.flatMap (·.2.live)) = (files.map fun f => nulls columnId f.2.live).sum := by
  unfold nulls
  rw [List.countP_flatMap]
  rfl

end Rows

/-! ## One file -/

section File

variable {L : Listing} {f : TableFile × FileRows} {c : Column} {raw : FileColumnStatistics}

theorem mem_of_fileColumn {catalog : DuckLakeStatistics} {i columnId : Nat}
    (h : fileColumn catalog i columnId = some raw) : raw ∈ fileColumns catalog i ∧ raw.columnId = columnId := by
  have hm := List.mem_filter.mp (List.mem_of_getLast? h)
  exact ⟨hm.1, by simpa using hm.2⟩

theorem isNaN_of_isFloat {v : ScalarValue} (h : v.dataType.isFloat = false) : v.isNaN = false := by
  cases v <;> first | rfl | cases h

/-- A usable bound is one for every value: a float one is used where there is no NaN. -/
theorem holds_of_bound (hs : FileSound L.parser L.columns L.catalog f.1 f.2) (hc : c ∈ L.columns) {side : Side}
    {v : ScalarValue} (hb : L.boundOf side c f.1 = some v) : side.Holds c.columnId v f.2.all := by
  obtain ⟨raw, hraw, hbound⟩ := Option.bind_eq_some_iff.mp hb
  obtain ⟨hmem, hid⟩ := mem_of_fileColumn hraw
  have hsound := hs.stats raw hmem
  unfold Side.bound usableBound at hbound
  split at hbound
  · next husable =>
    obtain ⟨t, ht, hparse⟩ := Option.bind_eq_some_iff.mp hbound
    intro r hr hnull
    refine hsound.bounds side c hc hid.symm t v ht hparse r hr hnull ?_
    rw [floatBoundIsUsable, Bool.or_eq_true, Bool.not_eq_true', beq_iff_eq] at husable
    rcases husable with hfloat | hnan
    · rw [← hs.typed c hc r hr] at hfloat
      exact isNaN_of_isFloat hfloat
    · have hnone := hsound.nan false hnan
      rw [eq_comm, List.any_eq_false] at hnone
      simpa [hid] using hnone r hr
  · cases hbound

theorem Side.Holds.mono {side : Side} {columnId : Nat} {v : ScalarValue} {rows rows' : List Row}
    (h : side.Holds columnId v rows) (hsub : ∀ r ∈ rows', r ∈ rows) : side.Holds columnId v rows' :=
  fun r hr hnull => h r (hsub r hr) hnull

theorem getValue_scalarPrecision (isExact : Bool) (v : Option ScalarValue) :
    (scalarPrecision isExact v).getValue = v := by
  cases v with
  | none => rfl
  | some v =>
    unfold scalarPrecision
    dsimp only
    split <;> rfl

theorem scalarPrecision_eq_exact {isExact : Bool} {v : Option ScalarValue} {b : ScalarValue}
    (h : scalarPrecision isExact v = .exact b) : isExact = true ∧ v = some b ∧ signedZero b = false := by
  cases v with
  | none => cases h
  | some w =>
    unfold scalarPrecision at h
    dsimp only at h
    split at h
    · next hcond =>
      cases h
      simpa using hcond
    · cases h

theorem known_eq_exact {α : Type} {isExact : Bool} {v : Option α} {n : α} :
    Precision.known isExact v = .exact n ↔ isExact = true ∧ v = some n := by
  cases v <;> cases isExact <;> simp [Precision.known]

theorem known_eq_inexact {α : Type} {isExact : Bool} {v : Option α} {n : α} :
    Precision.known isExact v = .inexact n ↔ isExact = false ∧ v = some n := by
  cases v <;> cases isExact <;> simp [Precision.known]

theorem ColumnRight.unknown (c : Column) (rows : List Row) : ColumnRight c rows .unknown := by
  refine ⟨fun n hn => ?_, fun n hn => ?_, fun side v hv => ?_, fun side v hv => ?_⟩
  · cases hn
  · cases hn
  · cases side <;> cases hv
  · cases side <;> cases hv

theorem nullCount_eq (hs : FileSound L.parser L.columns L.catalog f.1 f.2)
    (hraw : fileColumn L.catalog f.1.dataFileId c.columnId = some raw) {n : Nat}
    (hn : raw.nullCount.bind statisticUsize = some n) : n = nulls c.columnId f.2.all := by
  obtain ⟨hmem, hid⟩ := mem_of_fileColumn hraw
  obtain ⟨k, hk, hn⟩ := Option.bind_eq_some_iff.mp hn
  have := (hs.stats raw hmem).nulls k hk
  rw [this, statisticUsize_natCast, Option.some.injEq] at hn
  rw [← hn, hid]

theorem published_fileColumn (side : Side) : side.published (fileColumnStatistics L.parser f.1.deleteFile c raw) =
    scalarPrecision (!f.1.deleteFile) (side.bound L.parser c raw) := by
  cases side <;> rfl

/-- What is published of a column of a file is true unless it is called exact and is not. -/
theorem fileColumn_right_iff (hs : FileSound L.parser L.columns L.catalog f.1 f.2) (hc : c ∈ L.columns) :
    ColumnRight c f.2.live ((fileColumn L.catalog f.1.dataFileId c.columnId).elim .unknown
      (fileColumnStatistics L.parser f.1.deleteFile c)) ↔ (f.1.deleteFile = false → L.Tight f c) := by
  cases hraw : fileColumn L.catalog f.1.dataFileId c.columnId with
  | none =>
    -- nothing is recorded, so nothing is published and nothing asked
    refine ⟨fun _ _ => ⟨fun raw h => ?_, fun side b hb => ?_⟩, fun _ => .unknown c _⟩
    · rw [hraw] at h
      cases h
    · rw [Listing.boundOf, hraw] at hb
      cases hb
  | some raw =>
    have hbound : ∀ side, L.boundOf side c f.1 = side.bound L.parser c raw := by
      intro side
      rw [Listing.boundOf, hraw, Option.bind_some]
    constructor
    · intro h hdel
      refine ⟨fun raw' hraw' hsome => ?_, fun side b hb hzero => h.boundExact side b ?_⟩
      · obtain rfl : raw = raw' := Option.some.inj (hraw.symm.trans hraw')
        obtain ⟨n, hn⟩ := Option.ne_none_iff_exists'.mp hsome
        have hnulls := ((hs.stats raw (mem_of_fileColumn hraw).1).nulls n hn)
        rw [(mem_of_fileColumn hraw).2] at hnulls
        refine (nulls_live_eq_iff (hs.undeleted hdel)).mp (h.nullExact _ (known_eq_exact.mpr ⟨by simp [hdel], ?_⟩))
        rw [hn, Option.bind_some, hnulls, statisticUsize_natCast]
      · rw [Option.elim, published_fileColumn, ← hbound, hb]
        simp [scalarPrecision, hdel, hzero]
    · intro htight
      refine ⟨fun n hn => ?_, fun n hn => ?_, fun side v hv => ?_, fun side v hv => ?_⟩
      · obtain ⟨hexact, hn⟩ := known_eq_exact.mp hn
        have hdel : f.1.deleteFile = false := by simpa using hexact
        obtain ⟨k, hk, -⟩ := Option.bind_eq_some_iff.mp hn
        rw [nullCount_eq hs hraw hn, nulls_live_eq_iff (hs.undeleted hdel)]
        exact (htight hdel).nulls raw hraw (by simp [hk])
      · obtain ⟨-, hn⟩ := known_eq_inexact.mp hn
        rw [nullCount_eq hs hraw hn]
        exact nulls_live_le ..
      · rw [Option.elim, published_fileColumn, getValue_scalarPrecision, ← hbound] at hv
        exact (holds_of_bound hs hc hv).mono f.2.live_sublist.subset
      · rw [Option.elim, published_fileColumn, ← hbound] at hv
        obtain ⟨hexact, hb, hzero⟩ := scalarPrecision_eq_exact hv
        exact (htight (by simpa using hexact)).bounds side v hb hzero

theorem fileRowCount_ne_inexact (file : TableFile) (columns : List FileColumnStatistics) (n : Nat) :
    fileRowCount file columns ≠ .inexact n := by
  unfold fileRowCount
  split
  · simp
  · split
    · split
      · simp
      · split <;> simp
    · simp

/-- The count the row count is taken from is a natural number. -/
theorem gross_natCast (hs : FileSound L.parser L.columns L.catalog f.1 f.2) {v : Int}
    (hv : f.1.maxRowCount.or ((fileColumns L.catalog f.1.dataFileId).findSome? (·.valueCount)) = some v) :
    ∃ gross : Nat, v = gross := by
  rcases Option.or_eq_some_iff.mp hv with hrows | ⟨-, hvalues⟩
  · exact ⟨_, hs.rowCount v hrows⟩
  · obtain ⟨raw, hraw, hv⟩ := List.exists_of_findSome?_eq_some hvalues
    exact ⟨_, (hs.stats raw hraw).values v hv⟩

/-- The row count published for a file is right when the count it is taken from is. -/
theorem fileRowCount_right_iff (hs : FileSound L.parser L.columns L.catalog f.1 f.2) :
    (∀ n, fileRowCount f.1 (fileColumns L.catalog f.1.dataFileId) = .exact n → n = f.2.live.length) ↔ L.Counted f := by
  have hlive := f.2.length_live
  unfold Listing.Counted fileRowCount
  cases hor : f.1.maxRowCount.or ((fileColumns L.catalog f.1.dataFileId).findSome? (·.valueCount)) with
  | none => simp
  | some v =>
    obtain ⟨gross, rfl⟩ := gross_natCast hs hor
    simp only [Option.bind_some, statisticUsize_natCast, Option.some.injEq, forall_eq']
    cases hdel : f.1.deleteFile with
    | false =>
      have hnone := hs.undeleted hdel
      simp only [Bool.false_eq_true, if_false, Precision.exact.injEq, false_implies, true_implies, forall_eq']
      omega
    | true =>
      cases hcount : f.1.deleteCount with
      | none => simp
      | some d =>
        have hd := hs.deleteCount hdel d hcount
        simp only [if_true, Option.bind_some, hd, statisticUsize_natCast, Option.some.injEq, exists_eq_left',
          true_implies, Nat.cast_le]
        split
        · next hle =>
          simp only [Precision.exact.injEq, forall_eq', hle, true_implies]
          omega
        · next hle => simp [hle]

end File

/-! ## The table -/

section Table

variable {L : Listing} {c : Column}

theorem statisticsRight_map {columns : List Column} {rows : List Row} {n : Precision Nat}
    {g : Column → ColumnStatistics} :
    StatisticsRight columns rows ⟨n, columns.map g⟩ ↔ (∀ k, n = .exact k → k = rows.length) ∧
      (∀ k, n = .inexact k → rows.length ≤ k) ∧ ∀ c ∈ columns, ColumnRight c rows (g c) := by
  constructor
  · rintro ⟨hexact, hbound, hcols⟩
    refine ⟨hexact, hbound, fun c hc => ?_⟩
    obtain ⟨i, hi⟩ := List.mem_iff_getElem?.mp hc
    exact hcols i c _ hi (by simp [hi])
  · rintro ⟨hexact, hbound, hcols⟩
    refine ⟨hexact, hbound, fun i c cs hi hcs => ?_⟩
    rw [List.getElem?_map, hi, Option.map_some, Option.some.injEq] at hcs
    exact hcs ▸ hcols c (List.mem_of_getElem? hi)

theorem current_right (hs : L.Sound) (hc : c ∈ L.columns) : ColumnRight c L.tableRows
    (if L.useCurrent then ((L.catalog.columns.filter (·.columnId == c.columnId)).getLast?).elim .unknown
      (currentColumn L.parser c) else .unknown) := by
  split
  · next huse =>
    cases hraw : (L.catalog.columns.filter (·.columnId == c.columnId)).getLast? with
    | none => exact .unknown c _
    | some raw =>
      have hmem := List.mem_filter.mp (List.mem_of_getLast? hraw)
      have hid : c.columnId = raw.columnId := (beq_iff_eq.mp hmem.2).symm
      have hbounds := hs.current huse raw hmem.1 c hc hid
      refine ⟨fun n hn => ?_, fun n hn => ?_, fun side v hv => ?_, fun side v hv => ?_⟩
      · dsimp only [Option.elim, currentColumn] at hn
        split at hn
        · next hnone =>
          cases hn
          rw [hid]
          exact (hs.noNull huse raw hmem.1 hnone).symm
        · cases hn
      · dsimp only [Option.elim, currentColumn] at hn
        split at hn <;> cases hn
      · cases side
        · exact hbounds.1 v ((getValue_scalarPrecision ..).symm.trans hv)
        · exact hbounds.2 v ((getValue_scalarPrecision ..).symm.trans hv)
      · cases side
        · cases (scalarPrecision_eq_exact hv).1
        · cases (scalarPrecision_eq_exact hv).1
  · exact .unknown c _

/-- The NULLs are added up where every file records them. -/
theorem nullTotal_eq (hs : L.Sound) {n : Nat} (h : nullTotal (L.rowsOf c) = some n) :
    (∀ f ∈ L.files, ∃ raw, fileColumn L.catalog f.1.dataFileId c.columnId = some raw ∧ raw.nullCount ≠ none) ∧
      n = (L.files.map fun f => nulls c.columnId f.2.all).sum := by
  obtain ⟨hall, rfl⟩ := foldl_addCount _ _ h
  have hcount : ∀ f ∈ L.files, ∃ raw k, fileColumn L.catalog f.1.dataFileId c.columnId = some raw ∧
      raw.nullCount.bind statisticUsize = some k := by
    intro f hf
    obtain ⟨k, hk⟩ := Option.isSome_iff_exists.mp (hall _ (List.mem_map_of_mem (List.mem_map_of_mem hf)))
    cases hraw : fileColumn L.catalog f.1.dataFileId c.columnId with
    | none => rw [hraw] at hk; cases hk
    | some raw => exact ⟨raw, k, rfl, by rwa [hraw] at hk⟩
  constructor
  · intro f hf
    obtain ⟨raw, k, hraw, hk⟩ := hcount f hf
    refine ⟨raw, hraw, fun hnone => ?_⟩
    rw [hnone] at hk
    cases hk
  · simp only [Listing.rowsOf, columnRows, Listing.tableFiles, List.map_map]
    congr 1
    refine List.map_congr_left fun f hf => ?_
    obtain ⟨raw, k, hraw, hk⟩ := hcount f hf
    simp only [Function.comp_apply, hraw, Option.bind_some, hk, Option.getD_some]
    exact nullCount_eq (hs.files f hf) hraw hk

theorem recordedBounds_eq (side : Side) : recordedBounds L.parser side c (L.rowsOf c) =
    L.files.filterMap fun f => L.boundOf side c f.1 := by
  unfold recordedBounds Listing.rowsOf columnRows Listing.tableFiles
  rw [List.filterMap_map, List.filterMap_map]
  rfl

theorem passes_iff (side : Side) :
    (∀ raw ∈ L.rowsOf c, Passes L.parser side c raw) ↔ L.Folds side c := by
  unfold Listing.rowsOf columnRows Listing.tableFiles
  rw [List.forall_mem_map, List.forall_mem_map]
  rfl

theorem exists_foldedValue_of_folds {side : Side} {b : ScalarValue} {f : TableFile × FileRows} (hfolds : L.Folds side c)
    (hf : f ∈ L.files) (hb : L.boundOf side c f.1 = some b) :
    ∃ v, foldedValue L.parser side c (L.rowsOf c) = some v := by
  refine exists_foldedValue ((passes_iff side).mpr hfolds) ?_
  rw [recordedBounds_eq]
  exact List.ne_nil_of_mem (List.mem_filterMap.mpr ⟨f, hf, hb⟩)

/-- The bound of the whole table holds when no value is passed over. -/
theorem foldedValue_holds_iff (hs : L.Sound) (hc : c ∈ L.columns) (side : Side) :
    (∀ v, foldedValue L.parser side c (L.rowsOf c) = some v →
      side.Holds c.columnId v (L.files.flatMap (·.2.live))) ↔ L.Seen side c := by
  constructor
  · intro hholds hsome hpass f hf hnone r hr hnull
    obtain ⟨f', hf', hb⟩ := hsome
    obtain ⟨b, hb⟩ := Option.isSome_iff_exists.mp hb
    obtain ⟨v, hv⟩ := exists_foldedValue_of_folds hpass hf' hb
    have hmem := (foldedValue_eq_some hv).2.1
    rw [recordedBounds_eq] at hmem
    obtain ⟨f', hf', hb⟩ := List.mem_filterMap.mp hmem
    exact ⟨f', hf', v, hb, hholds v hv r (List.mem_flatMap.mpr ⟨f, hf, hr⟩) hnull⟩
  · intro hseen v hv r hr hnull
    obtain ⟨hpass, hmem, hcovers⟩ := foldedValue_eq_some hv
    rw [recordedBounds_eq] at hmem hcovers
    obtain ⟨f, hf, hr⟩ := List.mem_flatMap.mp hr
    obtain ⟨f₀, hf₀, hb₀⟩ := List.mem_filterMap.mp hmem
    have hbound : ∃ f' ∈ L.files, ∃ b, L.boundOf side c f'.1 = some b ∧ side.covers b (r c.columnId) = true := by
      cases hb : L.boundOf side c f.1 with
      | some b => exact ⟨f, hf, b, hb, holds_of_bound (hs.files f hf) hc hb r (f.2.live_sublist.subset hr) hnull⟩
      | none => exact hseen ⟨f₀, hf₀, by simp [hb₀]⟩ ((passes_iff side).mp hpass) f hf hb r hr hnull
    obtain ⟨f', hf', b, hb, hcov⟩ := hbound
    exact Side.covers_trans (hcovers b (List.mem_filterMap.mpr ⟨f', hf', hb⟩)) hcov

/-- The bound of the whole table is attained when the outermost one of the files is. -/
theorem foldedValue_attained_iff (side : Side) : ((∀ f ∈ L.files, f.1.deleteFile = false) →
      ∀ v, foldedValue L.parser side c (L.rowsOf c) = some v →
        side.Attained c.columnId v L.tableRows) ↔ L.Reached side c := by
  constructor
  · intro h hdel hfolds f hf b hb _
    obtain ⟨v, hv⟩ := exists_foldedValue_of_folds hfolds hf hb
    have hcovers := (foldedValue_eq_some hv).2.2
    rw [recordedBounds_eq] at hcovers
    obtain ⟨r, hr, hnull, hrv⟩ := h hdel v hv
    exact ⟨r, hr, hnull, Side.covers_trans hrv (hcovers b (List.mem_filterMap.mpr ⟨f, hf, hb⟩))⟩
  · intro h hdel v hv
    obtain ⟨hpass, hmem, hcovers⟩ := foldedValue_eq_some hv
    rw [recordedBounds_eq] at hmem hcovers
    obtain ⟨f, hf, hb⟩ := List.mem_filterMap.mp hmem
    exact h hdel ((passes_iff side).mp hpass) f hf v hb fun f' hf' b' hb' =>
      hcovers b' (List.mem_filterMap.mpr ⟨f', hf', hb'⟩)

theorem tableRowCount_right (hs : L.Sound) (hcounted : ∀ f ∈ L.files, L.Counted f) :
    (∀ n, tableRowCount L.catalog L.tableFiles L.useCurrent L.complete = .exact n → n = L.tableRows.length) ∧
      ∀ n, tableRowCount L.catalog L.tableFiles L.useCurrent L.complete = .inexact n → L.tableRows.length ≤ n := by
  have hfallback : ∀ p, (if L.useCurrent then
      Precision.known false (L.catalog.recordCount.bind statisticUsize) else .absent) = p →
      (∀ n, p = .exact n → n = L.tableRows.length) ∧ ∀ n, p = .inexact n → L.tableRows.length ≤ n := by
    rintro p rfl
    split
    · next huse =>
      refine ⟨fun n hn => ?_, fun n hn => ?_⟩
      · exact absurd (known_eq_exact.mp hn).1 (by simp)
      · obtain ⟨k, hk, hkn⟩ := Option.bind_eq_some_iff.mp (known_eq_inexact.mp hn).2
        have hle := hs.recordCount huse k hk
        unfold statisticUsize at hkn
        split at hkn
        · cases hkn
          omega
        · cases hkn
    · exact ⟨fun n hn => (nomatch hn), fun n hn => nomatch hn⟩
  unfold tableRowCount
  split
  · next total complete rows htotal hcomplete =>
    refine ⟨fun n hn => ?_, fun n hn => nomatch hn⟩
    cases hn
    obtain ⟨hall, rfl⟩ := foldl_addCount _ _ htotal
    rw [hs.whole hcomplete, List.length_flatMap]
    unfold Listing.tableFiles
    rw [List.map_map]
    congr 1
    refine List.map_congr_left fun f hf => ?_
    have hsome := hall f.1 (List.mem_map_of_mem hf)
    simp only [Function.comp_apply]
    cases hp : fileRowCount f.1 (fileColumns L.catalog f.1.dataFileId) with
    | exact n => exact (fileRowCount_right_iff (hs.files f hf)).mpr (hcounted f hf) n hp
    | inexact n => exact absurd hp (fileRowCount_ne_inexact _ _ n)
    | absent => rw [hp] at hsome; cases hsome
  · exact hfallback _ rfl

section Overwrite

variable {α : Type} {isExact : Bool} {value : Option α} {known : Precision α} {v : α}

theorem overwrite_eq_exact (h : known.overwrite isExact value = .exact v) :
    (value = some v ∧ isExact = true) ∨ known = .exact v := by
  cases value with
  | none => exact .inr h
  | some w =>
    change Precision.known isExact (some w) = .exact v at h
    exact .inl ((known_eq_exact.mp h).symm)

theorem overwrite_eq_inexact (h : known.overwrite isExact value = .inexact v) :
    value = some v ∨ known = .inexact v := by
  cases value with
  | none => exact .inr h
  | some w =>
    change Precision.known isExact (some w) = .inexact v at h
    exact .inl (known_eq_inexact.mp h).2

theorem getValue_known (isExact : Bool) (v : Option α) : (Precision.known isExact v).getValue = v := by
  cases v <;> cases isExact <;> rfl

theorem getValue_overwrite (h : (known.overwrite isExact value).getValue = some v) :
    value = some v ∨ known.getValue = some v := by
  cases value with
  | none => exact .inr h
  | some w => exact .inl ((getValue_known isExact (some w)).symm.trans h)

end Overwrite

theorem any_deleteFile : L.tableFiles.any (·.deleteFile) = false ↔ ∀ f ∈ L.files, f.1.deleteFile = false := by
  simp [Listing.tableFiles]

theorem nullTotal_right (hs : L.Sound) (htight : ∀ f ∈ L.files, f.1.deleteFile = false → L.Tight f c) {n : Nat}
    (hn : nullTotal (L.rowsOf c) = some n) :
    nulls c.columnId (L.files.flatMap (·.2.live)) ≤ n ∧
      (L.tableFiles.any (·.deleteFile) = false → n = nulls c.columnId (L.files.flatMap (·.2.live))) := by
  obtain ⟨hsome, rfl⟩ := nullTotal_eq hs hn
  rw [nulls_flatMap]
  refine ⟨List.sum_le_sum fun f _ => nulls_live_le c.columnId f.2, fun hno => ?_⟩
  congr 1
  refine List.map_congr_left fun f hf => ?_
  have hdel := any_deleteFile.mp hno f hf
  obtain ⟨raw, hraw, hcount⟩ := hsome f hf
  exact (nulls_live_eq_iff ((hs.files f hf).undeleted hdel)).mpr ((htight f hf hdel).nulls raw hraw hcount)

theorem tableColumn_right (hs : L.Sound) (hrec : L.Recorded) (hc : c ∈ L.columns) :
    ColumnRight c L.tableRows (tableColumnStatistics L.parser L.catalog L.tableFiles L.useCurrent L.complete c) := by
  have hcur := current_right hs hc
  unfold tableColumnStatistics
  generalize (if L.useCurrent then _ else _ : ColumnStatistics) = output at hcur
  dsimp only
  split
  · exact hcur
  · next hcomplete =>
    have hcomplete : L.complete = true := by simpa using hcomplete
    have hwhole := hs.whole hcomplete
    split
    · -- no file: only the count of NULLs is set
      next hempty =>
      have hnil : L.tableRows = [] := by
        have hfiles : L.files = [] := by simpa [Listing.tableFiles] using hempty
        rw [hwhole, hfiles, List.flatMap_nil]
      refine ⟨fun n hn => ?_, fun n hn => (nomatch hn), fun side => ?_, fun side => ?_⟩
      · cases hn
        simp [hnil, nulls]
      · cases side
        · exact hcur.bound .min
        · exact hcur.bound .max
      · cases side
        · exact hcur.boundExact .min
        · exact hcur.boundExact .max
    · have hnulls := fun n => nullTotal_right (c := c) (n := n) hs fun f hf hdel => hrec.tight f hf hdel c hc
      rw [← hwhole] at hnulls
      -- what the files record takes the place of what the table's own row says
      have hpublished : ∀ side : Side, side.published
          { nullCount := output.nullCount.overwrite (!L.tableFiles.any (·.deleteFile))
              (nullTotal (L.rowsOf c))
            minValue := output.minValue.overwrite (!L.tableFiles.any (·.deleteFile))
              (foldedValue L.parser .min c (L.rowsOf c))
            maxValue := output.maxValue.overwrite (!L.tableFiles.any (·.deleteFile))
              (foldedValue L.parser .max c (L.rowsOf c)) } =
          (side.published output).overwrite (!L.tableFiles.any (·.deleteFile))
            (foldedValue L.parser side c (L.rowsOf c)) := by
        intro side
        cases side <;> rfl
      refine ⟨fun n hn => ?_, fun n hn => ?_, fun side v hv => ?_, fun side v hv => ?_⟩
      · rcases overwrite_eq_exact hn with ⟨htotal, hexact⟩ | hold
        · exact (hnulls n htotal).2 (by simpa using hexact)
        · exact hcur.nullExact n hold
      · rcases overwrite_eq_inexact hn with htotal | hold
        · exact (hnulls n htotal).1
        · exact hcur.nullBound n hold
      · rw [hpublished] at hv
        rcases getValue_overwrite hv with hfold | hold
        · rw [hwhole]
          exact (foldedValue_holds_iff hs hc side).mpr (hrec.seen hcomplete c hc side) v hfold
        · exact hcur.bound side v hold
      · rw [hpublished] at hv
        rcases overwrite_eq_exact hv with ⟨hfold, hexact⟩ | hold
        · have hdel := any_deleteFile.mp (by simpa using hexact)
          exact (foldedValue_attained_iff side).mpr (hrec.reached hcomplete c hc side) hdel v hfold
        · exact hcur.boundExact side v hold

theorem published_tableColumn (hcomplete : L.complete = true) (hfiles : L.files ≠ []) {v : ScalarValue} (side : Side)
    (hv : foldedValue L.parser side c (L.rowsOf c) = some v) :
    side.published (tableColumnStatistics L.parser L.catalog L.tableFiles L.useCurrent L.complete c) =
      .known (!L.tableFiles.any (·.deleteFile)) (some v) := by
  have hne : L.tableFiles.isEmpty = false := by simpa [Listing.tableFiles] using hfiles
  unfold tableColumnStatistics
  cases side <;> simp only [hcomplete, hne, Bool.not_true, Bool.false_eq_true, if_false, hv, Precision.overwrite,
    Side.published]

/-- The statistics handed to the planner are all true exactly when every row count is taken
    from the number of rows, no file whose values are as many as its NULLs hides a value
    from the table's bound, and what is called exact is. -/
theorem statistics_right_iff (hs : L.Sound) : L.Right ↔ L.Recorded := by
  constructor
  · rintro ⟨hfile, htable⟩
    have hcols := (statisticsRight_map.mp htable).2.2
    refine ⟨fun f hf => ?_, fun f hf hdel c hc => ?_, fun hcomplete c hc side => ?_, fun hcomplete c hc side => ?_⟩
    · exact (fileRowCount_right_iff (hs.files f hf)).mp (statisticsRight_map.mp (hfile f hf)).1
    · exact (fileColumn_right_iff (hs.files f hf) hc).mp ((statisticsRight_map.mp (hfile f hf)).2.2 c hc) hdel
    · refine (foldedValue_holds_iff hs hc side).mp fun v hv => ?_
      rw [← hs.whole hcomplete]
      -- without files the folded bound is not published, but there is no row either
      by_cases hfiles : L.files = []
      · simp [Side.Holds, hs.whole hcomplete, hfiles]
      · refine (hcols c hc).bound side v ?_
        rw [published_tableColumn hcomplete hfiles side hv, getValue_known]
    · refine (foldedValue_attained_iff side).mp fun hdel v hv => (hcols c hc).boundExact side v ?_
      have hfiles : L.files ≠ [] := by
        rintro hnil
        have hmem := (foldedValue_eq_some hv).2.1
        rw [recordedBounds_eq, hnil] at hmem
        cases hmem
      rw [published_tableColumn hcomplete hfiles side hv, any_deleteFile.mpr hdel]
      rfl
  · intro hrec
    refine ⟨fun f hf => statisticsRight_map.mpr ⟨?_, fun n hn => ?_, fun c hc => ?_⟩,
      statisticsRight_map.mpr ⟨?_, ?_, ?_⟩⟩
    · exact (fileRowCount_right_iff (hs.files f hf)).mpr (hrec.counted f hf)
    · exact absurd hn (fileRowCount_ne_inexact _ _ n)
    · exact (fileColumn_right_iff (hs.files f hf) hc).mpr fun hdel => hrec.tight f hf hdel c hc
    · exact (tableRowCount_right hs hrec.counted).1
    · exact (tableRowCount_right hs hrec.counted).2
    · exact fun c hc => tableColumn_right hs hrec hc

end Table

/-! ## A file of one value and one NULL -/

/-- Arrow's reading of an unsigned integer literal. -/
def integerParser : Parser where
  parse t type :=
    match type with
    | .integer i => some (.integer i (t.foldl (fun n d => 10 * n + (d.toNat - '0'.toNat : Int)) 0))
    | _ => none
  typed {t type v} h := by
    cases type with
    | integer i =>
      cases h
      exact ⟨rfl, rfl⟩
    | _ => cases h

def numberColumn : Column := ⟨1, "int64".toList, .integer .int64⟩

def number (n : Int) : Row := fun _ => .integer .int64 n

def noNumber : Row := fun _ => .null (.integer .int64)

def fullFile : TableFile × FileRows := (⟨1, some 1, false, none, []⟩, ⟨[(number 5, .none)]⟩)

def halfRows : FileRows := ⟨[(noNumber, .none), (number 9, .none)]⟩

def halfFile (count : Option Int) : TableFile × FileRows := (⟨2, count, false, none, []⟩, halfRows)

/-- A file of the row 5 and one of a NULL and the row 9; the second one's row count and
    maximum may not be recorded. -/
def halfNull (count : Option Int) (bound : Option Text) : Listing where
  parser := integerParser
  columns := [numberColumn]
  catalog :=
    { recordCount := none
      columns := []
      files := [⟨1, 1, some 1, some 0, none, some "5".toList, none⟩, ⟨2, 1, some 1, some 1, none, bound, none⟩] }
  files := [fullFile, halfFile count]
  tableRows := [number 5, noNumber, number 9]
  useCurrent := false
  complete := true

theorem mem_halfNull {count : Option Int} {bound : Option Text} {f : TableFile × FileRows}
    (h : f ∈ (halfNull count bound).files) : f = fullFile ∨ f = halfFile count := by
  simpa [halfNull] using h

theorem halfNull_sound {count : Option Int} {bound : Option Text} (hcount : ∀ n, count = some n → n = 2)
    (hbound : ∀ t, bound = some t → t = "9".toList) : (halfNull count bound).Sound where
  whole _ := rfl
  recordCount h := nomatch h
  noNull h := nomatch h
  current h := nomatch h
  files := by
    -- every recorded bound is the file's largest value, so only the second file's may vary
    intro f hf
    obtain rfl | rfl := mem_halfNull hf
    · refine ⟨?_, ?_, ?_, ?_, ?_⟩
      · exact show ∀ c ∈ [numberColumn], ∀ r ∈ fullFile.2.all, (r c.columnId).dataType = c.dataType by decide
      · rintro n ⟨⟩
        rfl
      · decide
      · nofun
      · intro raw hraw
        obtain rfl : raw = ⟨1, 1, some 1, some 0, none, some "5".toList, none⟩ := by
          simpa [halfNull, fileColumns, fullFile] using hraw
        refine ⟨by rintro n ⟨⟩; decide, by rintro n ⟨⟩; decide, nofun, ?_⟩
        rintro (_ | _) c hc - t v ht hv
        · cases ht
        · obtain rfl : c = numberColumn := by simpa [halfNull] using hc
          cases ht
          obtain rfl : ScalarValue.integer .int64 5 = v := Option.some.inj hv
          decide
    · refine ⟨?_, hcount, ?_, ?_, ?_⟩
      · exact show ∀ c ∈ [numberColumn], ∀ r ∈ halfRows.all, (r c.columnId).dataType = c.dataType by decide
      · exact fun _ => show halfRows.deleted .file = 0 by decide
      · nofun
      · intro raw hraw
        obtain rfl : raw = ⟨2, 1, some 1, some 1, none, bound, none⟩ := by
          simpa [halfNull, fileColumns, halfFile] using hraw
        refine ⟨?_, ?_, nofun, ?_⟩
        · rintro n ⟨⟩
          exact show (1 : Int) = halfRows.all.countP fun r => !(r 1).isNull by decide
        · rintro n ⟨⟩
          exact show (1 : Int) = nulls 1 halfRows.all by decide
        · rintro (_ | _) c hc - t v ht hv
          · cases ht
          · obtain rfl : c = numberColumn := by simpa [halfNull] using hc
            cases hbound t ht
            obtain rfl : ScalarValue.integer .int64 9 = v := Option.some.inj hv
            exact show ∀ r ∈ halfRows.all, (r 1).isNull = false → (r 1).isNaN = false →
              Side.max.covers (.integer .int64 9) (r 1) = true by decide

/-- Without its bound the second file does not widen the table's maximum, and without its
    row count it is published as a file of one row. -/
theorem halfNull_not_right : ((halfNull (some 2) none).Sound ∧ ¬ (halfNull (some 2) none).Right) ∧
    (halfNull none (some "9".toList)).Sound ∧ ¬ (halfNull none (some "9".toList)).Right := by
  refine ⟨⟨halfNull_sound (by simp) (by simp), fun h => ?_⟩, halfNull_sound (by simp) (by simp), fun h => ?_⟩
  · have hmax := (h.2.columns 0 numberColumn _ rfl rfl).bound .max (.integer .int64 5) (by decide)
    exact absurd (hmax (number 9) (by simp [halfNull]) rfl) (by decide)
  · have hrows := (h.1 (halfFile none) (by simp [halfNull])).rowsExact 1 (by decide)
    exact absurd hrows (by decide)

theorem halfNull_right : (halfNull (some 2) (some "9".toList)).Right := by
  have hcolumn : ∀ c ∈ (halfNull (some 2) (some "9".toList)).columns, c = numberColumn := by simp [halfNull]
  refine (statistics_right_iff (halfNull_sound (by simp) (by simp))).mpr ⟨fun f hf n hn _ => ?_, fun f hf _ c hc => ?_,
    fun _ c hc side => ?_, fun _ c hc side _ _ f hf b hb hcovers => ?_⟩
  · obtain rfl | rfl := mem_halfNull hf
    · cases hn
      decide
    · cases hn
      decide
  · obtain rfl := hcolumn c hc
    refine ⟨fun raw _ _ => ?_, fun side b hb _ => ?_⟩
    · obtain rfl | rfl := mem_halfNull hf
      · decide
      · exact show ∀ x ∈ halfRows.rows, x.2 = .inlined → (x.1 1).isNull = false by decide
    · obtain rfl | rfl := mem_halfNull hf
      · cases side with
        | min => cases hb
        | max =>
          obtain rfl : ScalarValue.integer .int64 5 = b := Option.some.inj hb
          exact ⟨number 5, by simp [fullFile, FileRows.live], rfl, by decide⟩
      · cases side with
        | min => cases hb
        | max =>
          obtain rfl : ScalarValue.integer .int64 9 = b := Option.some.inj hb
          exact ⟨number 9, by simp [halfFile, halfRows, FileRows.live], rfl, by decide⟩
  · obtain rfl := hcolumn c hc
    rintro ⟨f', hf', hsome⟩ - f hf hnone
    cases side with
    | min => obtain rfl | rfl := mem_halfNull hf' <;> cases hsome
    | max => obtain rfl | rfl := mem_halfNull hf <;> cases hnone
  · obtain rfl := hcolumn c hc
    cases side with
    | min => obtain rfl | rfl := mem_halfNull hf <;> cases hb
    | max =>
      refine ⟨number 9, by simp [halfNull], rfl, ?_⟩
      obtain rfl | rfl := mem_halfNull hf
      · obtain rfl : ScalarValue.integer .int64 5 = b := Option.some.inj hb
        decide
      · obtain rfl : ScalarValue.integer .int64 9 = b := Option.some.inj hb
        decide

end DuckLake.Planner
