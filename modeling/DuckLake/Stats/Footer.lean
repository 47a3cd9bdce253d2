import DuckLake.Nested.Types
import DuckLake.Stats.Order
import DuckLake.Stats.Spelling
import DuckLake.Stats.StringBounds
import Mathlib.Data.List.Induction

/- Statistics harvested from a Parquet footer (`stats_collect.rs`, `compute`).

   A footer keeps, for each leaf column and row group, a number of values and perhaps a
   minimum, a maximum and a null count. One row of `ducklake_file_column_stats` is made
   of them for each leaf. A row group without a statistic is passed over: its NULLs and
   values count as absent, and `compute_right` says when that is no harm.

   Correspondence (Rust ↔ Lean):
     `StatisticsConverter`      ↔ `Converter`, its documented reading as a field
     `FloatBounds`, `LeafBounds` ↔ the same; a `FLOAT` is widened and narrowed again in
                                  the source, which changes nothing
     `reduce`                   ↔ `reduce`
     `truncate_bound`           ↔ `truncateBound`
     `compute`                  ↔ `compute`, one leaf in `target` and `columnStat` -/

namespace DuckLake.Collect

open Planner Nested

/-! ## Bounds a writer keeps -/

/-- The bounds of a float leaf in its own format. -/
structure FloatBounds (F : Ieee.Format) where
  bounds : Option (Ieee.Fp F × Ieee.Fp F)
deriving DecidableEq, Repr

/-- A value replaces a bound it is strictly beyond; a NaN is left out. -/
def FloatBounds.update {F : Ieee.Format} (s : FloatBounds F) (value : Ieee.Fp F) : FloatBounds F :=
  if value.isNaN then s
  else
    match s.bounds with
    | none => ⟨some (value, value)⟩
    | some (min, max) =>
      ⟨some (if value.num < min.num then value else min, if max.num < value.num then value else max)⟩

inductive LeafBounds where
  | text (bounds : StringBounds)
  | float32 (bounds : FloatBounds Ieee.binary32)
  | float64 (bounds : FloatBounds Ieee.binary64)
deriving DecidableEq, Repr

def LeafBounds.bounds : LeafBounds → Option (ScalarValue × ScalarValue)
  | .text s => s.bounds
  | .float32 s => s.bounds.map fun b => (.float32 b.1, .float32 b.2)
  | .float64 s => s.bounds.map fun b => (.float64 b.1, .float64 b.2)

/-! ## The footer -/

structure ChunkStatistics where
  nullCount : Option Nat
  min : Option ScalarValue
  max : Option ScalarValue
deriving DecidableEq, Repr

def ChunkStatistics.bound (side : Side) (statistics : ChunkStatistics) : Option ScalarValue :=
  match side with
  | .min => statistics.min
  | .max => statistics.max

/-- What the footer keeps of one leaf in one row group. -/
structure ColumnChunk where
  numValues : Int
  statistics : Option ChunkStatistics
  compressedSize : Int
deriving DecidableEq, Repr

def ColumnChunk.nullCount (chunk : ColumnChunk) : Option Nat := chunk.statistics.bind (·.nullCount)

def ColumnChunk.bound (side : Side) (chunk : ColumnChunk) : Option ScalarValue := chunk.statistics.bind (·.bound side)

structure ParquetLeaf where
  root : Nat
  fieldId : Option Int
  chunks : List ColumnChunk
deriving DecidableEq, Repr

/-- One leaf's statistics as arrays over the row groups, or an error. A missing bound is read
    as NULL; a missing null count as zero, and as NULL where the chunk has no statistics. -/
structure Converter where
  nullCounts : List ColumnChunk → Option (List (Option Nat))
  bounds : Side → List ColumnChunk → Option (List (Option ScalarValue))
  nullCounts_eq : ∀ {chunks counts}, nullCounts chunks = some counts →
    counts = chunks.map fun c => c.statistics.map (·.nullCount.getD 0)
  bounds_eq : ∀ {side chunks stats}, bounds side chunks = some stats → stats = chunks.map (·.bound side)

inductive NestedLeafIds where
  | skip
  | fileFieldIds
  | mapped (ids : List (Option Int))
deriving DecidableEq, Repr

/-- The arguments of `compute`. -/
structure Footer where
  fields : List (Text × ArrowType)
  leaves : List ParquetLeaf
  columnIds : List Int
  rowCount : Int
  containsNanFlags : List (Option Bool)
  bounds : Option (List (Option LeafBounds))
  nestedIds : NestedLeafIds
  converter : Nat → DataType → Option Converter

/-! ## One leaf -/

/-- The ordering a value must have to the one kept so far to take its place. -/
def keep : Side → Ordering
  | .min => .lt
  | .max => .gt

def reduceStep (side : Side) (acc stat : Option ScalarValue) : Option ScalarValue :=
  match stat, acc with
  | none, acc => acc
  | some value, none => some value
  | some value, some current => some (if compareScalars value current = some (keep side) then value else current)

/-- NULL entries are skipped. -/
def reduce (side : Side) (stats : List (Option ScalarValue)) : Option ScalarValue :=
  stats.foldl (reduceStep side) none

/-- The bytes `truncate_bound` looks at, and whether they are a blob's. -/
def boundBytes : ScalarValue → Option (Bytes × Bool)
  | .string _ t => some (Utf8.encode t, false)
  | .binary (.fixedSizeBinary _) _ => none
  | .binary _ b => some (b, true)
  | _ => none

def truncateBytes (side : Side) (bytes : Bytes) (blob : Bool) : Option Bytes :=
  match side with
  | .min => some (truncateMin bytes blob)
  | .max => truncateMax bytes blob

def bytesScalar (blob : Bool) (bytes : Bytes) : Option ScalarValue :=
  if blob then some (.binary .binary bytes) else (Utf8.decode bytes).map (.string .utf8)

def truncateBound (side : Side) (value : ScalarValue) : Option ScalarValue :=
  match boundBytes value with
  | none => some value
  | some (bytes, blob) =>
    if bytes.length ≤ maxStringStatisticsSize then some value
    else (truncateBytes side bytes blob).bind (bytesScalar blob)

def i64TryFrom (n : Nat) : Option Int := if n < 2 ^ 63 then some n else none

/-- The null count and the value count. -/
def harvestCounts (c : Converter) (nested : Bool) (rowCount : Int) (chunks : List ColumnChunk) :
    Option Int × Option Int :=
  match c.nullCounts chunks with
  | none => (none, none)
  | some counts =>
    let nullCount := i64TryFrom (counts.filterMap id).sum
    let values := if nested then (chunks.map (·.numValues)).sum else rowCount
    (nullCount, nullCount.map fun nc => max (values - nc) 0)

/-- The bounds the row groups give. A maximum that cannot be truncated leaves none. -/
def footerBounds (c : Converter) (chunks : List ColumnChunk) : Option ScalarValue × Option ScalarValue :=
  let min := ((c.bounds .min chunks).bind (reduce .min)).bind (truncateBound .min)
  match (c.bounds .max chunks).bind (reduce .max) with
  | none => (min, none)
  | some max =>
    match truncateBound .max max with
    | some max => (min, some max)
    | none => (none, none)

def writtenBounds (lb : LeafBounds) : Option ScalarValue × Option ScalarValue :=
  (lb.bounds.map Prod.fst, lb.bounds.map Prod.snd)

/-- A leaf whose values the writer saw takes its bounds, another the footer's. -/
def harvestBounds (c : Converter) (written : Option LeafBounds) (chunks : List ColumnChunk) :
    Option ScalarValue × Option ScalarValue :=
  match written with
  | some lb => writtenBounds lb
  | none => footerBounds c chunks

/-- The sum of the chunk sizes, if none is negative and it fits. -/
def columnSizeBytes (chunks : List ColumnChunk) : Option Int :=
  if chunks.isEmpty then none
  else chunks.foldl (fun sum chunk =>
    sum.bind fun sum =>
      if 0 ≤ chunk.compressedSize ∧ sum + chunk.compressedSize < 2 ^ 63 then some (sum + chunk.compressedSize)
      else none) (some 0)

structure ColumnStat where
  columnId : Int
  minValue : Option Text
  maxValue : Option Text
  nullCount : Option Int
  valueCount : Option Int
  containsNan : Option Bool
  columnSizeBytes : Option Int
deriving DecidableEq, Repr

namespace Footer

/-- The first leaf below a root, which the loop notes as it meets it. -/
def firstLeafOfRoot (F : Footer) (root : Nat) : Nat := F.leaves.findIdx (·.root == root)

def leafId (F : Footer) (i : Nat) (leaf : ParquetLeaf) : Option Int :=
  match F.nestedIds with
  | .skip => none
  | .fileFieldIds => leaf.fieldId
  | .mapped ids => ids[i]?.join

def isNested (F : Footer) (leaf : ParquetLeaf) : Bool := F.fields[leaf.root]?.any (·.2.isNested)

/-- The column a leaf's statistics are recorded for and what reads them; `none` for a leaf
    that gets none. -/
def target (F : Footer) (i : Nat) (leaf : ParquetLeaf) : Option (Int × Converter) :=
  if min F.fields.length F.columnIds.length ≤ leaf.root then none
  else do
    let field ← F.fields[leaf.root]?
    match field.2 with
    | .scalar type =>
      let c ← F.converter i type
      return (← F.columnIds[leaf.root]?, c)
    | nested =>
      let columnId ← F.leafId i leaf
      let type ← nested.leaves[i - F.firstLeafOfRoot leaf.root]?
      return (columnId, ← F.converter i type)

def written (F : Footer) (i : Nat) : Option LeafBounds := F.bounds.bind fun bounds => bounds[i]?.join

def columnStat (fmt : FloatText) (F : Footer) (i : Nat) (leaf : ParquetLeaf) (target : Int × Converter) : ColumnStat :=
  let counts := harvestCounts target.2 (F.isNested leaf) F.rowCount leaf.chunks
  let bounds := harvestBounds target.2 (F.written i) leaf.chunks
  { columnId := target.1
    minValue := bounds.1.bind (encodeFileStat fmt)
    maxValue := bounds.2.bind (encodeFileStat fmt)
    nullCount := counts.1
    valueCount := counts.2
    containsNan := F.containsNanFlags[i]?.join
    columnSizeBytes := columnSizeBytes leaf.chunks }

def compute (fmt : FloatText) (F : Footer) : List ColumnStat :=
  F.leaves.zipIdx.filterMap fun leaf => (F.target leaf.2 leaf.1).map (F.columnStat fmt leaf.2 leaf.1)

end Footer

/-! ## What the statistics are about -/

/-- The kinds of strings and of blobs are spelled alike. -/
def plain : ScalarValue → ScalarValue
  | .string _ t => .string .utf8 t
  | .binary (.fixedSizeBinary n) b => .binary (.fixedSizeBinary n) b
  | .binary _ b => .binary .binary b
  | v => v

/-- What a bound is a bound for. -/
def Holds (side : Side) (b : ScalarValue) (values : List ScalarValue) : Prop :=
  ∀ v ∈ values, v.isNull = false → v.isNaN = false → side.covers (plain b) (plain v) = true

/-- What the footer keeps of a chunk is so; anything but the number of values may be missing. -/
structure ChunkSound (type : DataType) (chunk : ColumnChunk) (values : List ScalarValue) : Prop where
  typed : ∀ v ∈ values, v.dataType = type
  numValues : chunk.numValues = values.length
  nullCount : ∀ n, chunk.nullCount = some n → n = values.countP (·.isNull)
  bound : ∀ side b, chunk.bound side = some b → b.dataType = type ∧ b.isNull = false ∧
    ∀ v ∈ values, v.isNull = false → v.isNaN = false → side.covers b v = true

/-- The values of a leaf, row group by row group, a NULL for each level without one. -/
structure LeafContent where
  type : DataType
  groups : List (ColumnChunk × List ScalarValue)

def LeafContent.values (content : LeafContent) : List ScalarValue := content.groups.flatMap Prod.snd

abbrev LeafContent.chunks (content : LeafContent) : List ColumnChunk := content.groups.map Prod.fst

abbrev LeafContent.Sound (content : LeafContent) : Prop := ∀ g ∈ content.groups, ChunkSound content.type g.1 g.2

/-- The writer's own bounds were fed every value of the leaf. -/
def LeafBounds.Saw (values : List ScalarValue) : LeafBounds → Prop
  | .text s => ∃ blob batches, s = (StringBounds.new blob).feed batches ∧
      ∀ v ∈ values, v.isNull = false → ∃ bytes, boundBytes v = some (bytes, blob) ∧ bytes ∈ batches.flatten
  | .float32 s => ∃ fed : List F32, s = fed.foldl FloatBounds.update ⟨none⟩ ∧
      ∀ v ∈ values, v.isNull = false → ∃ x ∈ fed, v = .float32 x
  | .float64 s => ∃ fed : List F64, s = fed.foldl FloatBounds.update ⟨none⟩ ∧
      ∀ v ∈ values, v.isNull = false → ∃ x ∈ fed, v = .float64 x

/-- A footer with the values of its leaves. -/
structure Footer.Sound (F : Footer) (content : Nat → LeafContent) : Prop where
  chunks : ∀ {i leaf}, F.leaves[i]? = some leaf → leaf.chunks = (content i).chunks
  sound : ∀ i, (content i).Sound
  rows : ∀ {i leaf}, F.leaves[i]? = some leaf → F.isNested leaf = false → F.rowCount = (content i).values.length
  small : ∀ i, (content i).values.length < 2 ^ 63
  written : ∀ {i lb}, F.written i = some lb → lb.Saw (content i).values

/-- The text spells a bound for the values. -/
def TextHolds (fmt : FloatText) (side : Side) (text : Text) (values : List ScalarValue) : Prop :=
  ∃ b, encodeFileStat fmt b = some text ∧ Holds side b values

/-- A row of statistics is one for the column, and what it records is true of the values. -/
structure ColumnStat.Right (fmt : FloatText) (stat : ColumnStat) (columnId : Int) (values : List ScalarValue) :
    Prop where
  columnId : stat.columnId = columnId
  nullCount : ∀ n, stat.nullCount = some n → n = values.countP (·.isNull)
  valueCount : ∀ n, stat.valueCount = some n → n = values.countP (!·.isNull)
  min : ∀ text, stat.minValue = some text → TextHolds fmt .min text values
  max : ∀ text, stat.maxValue = some text → TextHolds fmt .max text values

/-- The leaves that get statistics, in order, each with its column and its content. -/
def Footer.recorded (F : Footer) (content : Nat → LeafContent) : List (Int × LeafContent) :=
  F.leaves.zipIdx.filterMap fun leaf => (F.target leaf.2 leaf.1).map fun target => (target.1, content leaf.2)

/-- The rows `compute` returns are right, each about its leaf. -/
def Footer.StatsRight (fmt : FloatText) (F : Footer) (content : Nat → LeafContent) : Prop :=
  List.Forall₂ (fun stat leaf => stat.Right fmt leaf.1 leaf.2.values) (F.compute fmt) (F.recorded content)

/-- The row groups without a null count hold no NULL, and a value of one without a bound is
    within a bound of another. -/
structure Complete (c : Converter) (written : Option LeafBounds) (content : LeafContent) : Prop where
  nulls : (c.nullCounts content.chunks).isSome = true →
    ∀ g ∈ content.groups, g.1.nullCount = none → ∀ v ∈ g.2, v.isNull = false
  bounds : written = none → ∀ side, (c.bounds side content.chunks).isSome = true →
    (∃ g ∈ content.groups, g.1.bound side ≠ none) → ∀ g ∈ content.groups, g.1.bound side = none → ∀ v ∈ g.2,
      v.isNull = false → v.isNaN = false → ∃ g' ∈ content.groups, ∃ b, g'.1.bound side = some b ∧ side.covers b v = true

def Footer.AllComplete (F : Footer) (content : Nat → LeafContent) : Prop :=
  ∀ i leaf columnId c, F.leaves[i]? = some leaf → F.target i leaf = some (columnId, c) →
    Complete c (F.written i) (content i)

/-- The bounds of the row groups have texts, and none needs shortening. -/
def Fits (fmt : FloatText) (content : LeafContent) : Prop :=
  ∀ g ∈ content.groups, ∀ side b, g.1.bound side = some b → truncateBound side b = some b ∧
    (encodeFileStat fmt b).isSome = true

/-- The float printer tells numbers apart. -/
structure DistinctFloats (fmt : FloatText) : Prop where
  single : ∀ {a b t}, fmt.encodeF32 a = some t → fmt.encodeF32 b = some t → a.num = b.num
  double : ∀ {a b t}, fmt.encodeF64 a = some t → fmt.encodeF64 b = some t → a.num = b.num

/-! ## Bounds over the row groups -/

section Reduce

variable {side : Side} {type : DataType} {a b m : ScalarValue}

/-- One key is strictly before the other, from the side's end. -/
def Before (side : Side) (a b : ScalarValue) : Prop :=
  match side with
  | .min => sortKey a < sortKey b
  | .max => sortKey b < sortKey a

/-- A value of the leaf's type. -/
def Typed (type : DataType) (v : ScalarValue) : Prop := v.dataType = type ∧ v.isNull = false

theorem compareScalars_eq_keep (ha : Typed type a) (hb : Typed type b) :
    compareScalars a b = some (keep side) ↔ Before side a b := by
  rw [compareScalars_eq ha.2 hb.2 (ha.1.trans hb.1.symm), Option.some.injEq]
  cases side
  · exact order_lt
  · exact order_gt

theorem covers_of_not_before (ha : Typed type a) (hb : Typed type b) (h : ¬ Before side b a) :
    side.covers a b = true := by
  have htype : a.dataType = b.dataType := ha.1.trans hb.1.symm
  cases side
  · exact atMost_of_sortKey_le ha.2 hb.2 htype (not_lt.mp h)
  · exact atMost_of_sortKey_le hb.2 ha.2 htype.symm (not_lt.mp h)

theorem not_before_trans {c : ScalarValue} (h₁ : ¬ Before side c b) (h₂ : Before side a b) : ¬ Before side c a := by
  cases side
  · exact not_lt.mpr (le_trans (le_of_lt h₂) (not_lt.mp h₁))
  · exact not_lt.mpr (le_trans (not_lt.mp h₁) (le_of_lt h₂))

theorem not_before_self (side : Side) (a : ScalarValue) : ¬ Before side a a := by
  cases side <;> exact lt_irrefl _

/-- The loop keeps the extreme of the entries that are there. -/
theorem reduce_spec (side : Side) (stats : List (Option ScalarValue)) (h : ∀ b ∈ stats.filterMap id, Typed type b) :
    (reduce side stats = none → stats.filterMap id = []) ∧
      ∀ m, reduce side stats = some m → m ∈ stats.filterMap id ∧ ∀ b ∈ stats.filterMap id, ¬ Before side b m := by
  induction stats using List.reverseRecOn with
  | nil => exact ⟨fun _ => rfl, nofun⟩
  | append_singleton stats stat ih =>
    rw [List.filterMap_append] at h ⊢
    obtain ⟨hnone, hsome⟩ := ih fun b hb => h b (List.mem_append_left _ hb)
    have hstep : reduce side (stats ++ [stat]) = reduceStep side (reduce side stats) stat := by
      unfold reduce
      rw [List.foldl_append, List.foldl_cons, List.foldl_nil]
    rw [hstep]
    cases stat with
    | none =>
      rw [List.filterMap_cons_none rfl, List.filterMap_nil, List.append_nil]
      exact ⟨hnone, hsome⟩
    | some value =>
      have hvalue : Typed type value := h value (by simp)
      cases hacc : reduce side stats with
      | none =>
        rw [hnone hacc]
        refine ⟨nofun, fun m hm => ?_⟩
        cases hm
        exact ⟨by simp, by simp [not_before_self]⟩
      | some current =>
        obtain ⟨hmem, hbest⟩ := hsome current hacc
        have hcurrent : Typed type current := h current (List.mem_append_left _ hmem)
        refine ⟨nofun, fun m hm => ?_⟩
        cases hm
        have hiff : compareScalars value current = some (keep side) ↔ Before side value current :=
          compareScalars_eq_keep hvalue hcurrent
        split
        · next hbefore =>
          refine ⟨by simp, fun b hb => ?_⟩
          rcases List.mem_append.mp hb with hb | hb
          · exact not_before_trans (hbest b hb) (hiff.mp hbefore)
          · obtain rfl : b = value := by simpa using hb
            exact not_before_self side b
        · next hkeep =>
          refine ⟨List.mem_append_left _ hmem, fun b hb => ?_⟩
          rcases List.mem_append.mp hb with hb | hb
          · exact hbest b hb
          · obtain rfl : b = value := by simpa using hb
            exact fun hbefore => hkeep (hiff.mpr hbefore)

/-- What `reduce` finds is a statistic of some row group, and no other is beyond it. -/
theorem reduce_bound {chunks : List ColumnChunk} (h : ∀ b ∈ chunks.filterMap (·.bound side), Typed type b) :
    (reduce side (chunks.map (·.bound side)) = none → chunks.filterMap (·.bound side) = []) ∧
      ∀ m, reduce side (chunks.map (·.bound side)) = some m → m ∈ chunks.filterMap (·.bound side) ∧
        ∀ b ∈ chunks.filterMap (·.bound side), ¬ Before side b m := by
  have hmap : (chunks.map (·.bound side)).filterMap id = chunks.filterMap (·.bound side) := by
    rw [List.filterMap_map]
    rfl
  have hspec := reduce_spec side (chunks.map (·.bound side)) (hmap ▸ h)
  rwa [hmap] at hspec

end Reduce

/-! ## Shortened bounds -/

theorem lt_of_map_toNat_lt : ∀ {a b : Bytes}, a.map UInt8.toNat < b.map UInt8.toNat → a < b
  | [], [], h => absurd h (List.not_lt_nil _)
  | _ :: _, [], h => absurd h (List.not_lt_nil _)
  | [], _ :: _, _ => List.Lex.nil
  | x :: a, y :: b, h => by
    rw [List.map_cons, List.map_cons, List.cons_lt_cons_iff] at h
    rcases h with h | ⟨h, hrest⟩
    · exact List.Lex.rel (UInt8.lt_iff_toNat_lt.mpr h)
    · rw [UInt8.toNat_inj.mp h]
      exact List.Lex.cons (lt_of_map_toNat_lt hrest)

theorem map_toNat_le {a b : Bytes} (h : a ≤ b) : a.map UInt8.toNat ≤ b.map UInt8.toNat :=
  not_lt.mp fun hlt => h (lt_of_map_toNat_lt hlt)

theorem text_le_of_encode_le {s t : Text} (h : Utf8.encode s ≤ Utf8.encode t) : s ≤ t :=
  not_lt.mp fun hlt => h (lt_of_map_toNat_lt (Utf8.encode_lt hlt))

variable {side : Side} {values : List ScalarValue} {lo hi : ScalarValue} {blob : Bool}

theorem plain_of_boundBytes {v : ScalarValue} {bytes : Bytes} (h : boundBytes v = some (bytes, blob)) :
    (blob = true ∧ plain v = .binary .binary bytes) ∨
      (blob = false ∧ ∃ t, bytes = Utf8.encode t ∧ plain v = .string .utf8 t) := by
  cases v <;> try cases h
  · exact .inr ⟨rfl, _, rfl, rfl⟩
  · next t b =>
    cases t <;> cases h
    all_goals exact .inl ⟨rfl, rfl⟩

/-- One byte string bounds the other from its side. -/
def BytesCover (side : Side) (a b : Bytes) : Prop :=
  match side with
  | .min => a ≤ b
  | .max => b ≤ a

theorem covers_blob {a b : Bytes} (h : BytesCover side a b) :
    side.covers (.binary .binary a) (.binary .binary b) = true := by
  cases side
  · exact atMost_iff.mpr ⟨rfl, le_rfl, le_rfl, map_toNat_le h⟩
  · exact atMost_iff.mpr ⟨rfl, le_rfl, le_rfl, map_toNat_le h⟩

theorem covers_text {s t : Text} (h : BytesCover side (Utf8.encode s) (Utf8.encode t)) :
    side.covers (.string .utf8 s) (.string .utf8 t) = true := by
  cases side
  · exact atMost_iff.mpr ⟨rfl, le_rfl, text_le_of_encode_le h, le_rfl⟩
  · exact atMost_iff.mpr ⟨rfl, le_rfl, text_le_of_encode_le h, le_rfl⟩

theorem bytesCover_truncateBytes {bytes truncated : Bytes}
    (h : truncateBytes side bytes blob = some truncated) : BytesCover side truncated bytes := by
  cases side
  · cases h
    exact (truncateMin_spec bytes blob).1.le
  · exact Std.le_of_lt (truncateMax_spec h).1

/-- A shortened bound is one for what it was taken from. -/
theorem covers_of_truncateBound {m b : ScalarValue} (h : truncateBound side m = some b) :
    side.covers (plain b) (plain m) = true := by
  unfold truncateBound at h
  split at h
  · cases h
    exact side.covers_refl _
  · next bytes blob hbytes =>
    split at h
    · cases h
      exact side.covers_refl _
    · obtain ⟨truncated, htrunc, hspell⟩ := Option.bind_eq_some_iff.mp h
      have hcover := bytesCover_truncateBytes htrunc
      rcases plain_of_boundBytes hbytes with ⟨rfl, hm⟩ | ⟨rfl, t, rfl, hm⟩
      · cases hspell
        rw [hm]
        exact covers_blob hcover
      · obtain ⟨u, hu, rfl⟩ := Option.map_eq_some_iff.mp hspell
        rw [Utf8.decode_eq_some] at hu
        subst hu
        rw [hm]
        exact covers_text hcover

/-- The type of a plain value. -/
def plainType : DataType → DataType
  | .string _ => .string .utf8
  | .binary (.fixedSizeBinary n) => .binary (.fixedSizeBinary n)
  | .binary _ => .binary .binary
  | t => t

theorem dataType_plain {v : ScalarValue} (h : v.isNull = false) : (plain v).dataType = plainType v.dataType := by
  cases v with
  | null t => cases h
  | binary t b => cases t <;> rfl
  | _ => rfl

theorem parts_plain (v : ScalarValue) : magnitude (plain v) = magnitude v ∧ characters (plain v) = characters v ∧
    octets (plain v) = octets v := by
  cases v with
  | binary t b => cases t <;> exact ⟨rfl, rfl, rfl⟩
  | _ => exact ⟨rfl, rfl, rfl⟩

theorem covers_plain {a b : ScalarValue} (ha : a.isNull = false) (hb : b.isNull = false) (h : a.dataType = b.dataType) :
    side.covers (plain a) (plain b) = side.covers a b := by
  obtain ⟨ha₁, ha₂, ha₃⟩ := parts_plain a
  obtain ⟨hb₁, hb₂, hb₃⟩ := parts_plain b
  have htype : (plain a).dataType = (plain b).dataType := by rw [dataType_plain ha, dataType_plain hb, h]
  cases side <;> simp [Side.covers, atMost, htype, h, ha₁, ha₂, ha₃, hb₁, hb₂, hb₃]

/-! ## Texts of bounds -/

section Texts

variable {fmt : FloatText} {v w : ScalarValue} {t : Text}

theorem encodeFileStat_plain (fmt : FloatText) (v : ScalarValue) :
    encodeFileStat fmt (plain v) = encodeFileStat fmt v := by
  cases v with
  | binary t b => cases t <;> rfl
  | _ => rfl

theorem hexText_injective : ∀ {a b : Bytes}, a.flatMap hexByte = b.flatMap hexByte → a = b
  | [], [], _ => rfl
  | [], _ :: _, h => by cases h
  | _ :: _, [], h => by cases h
  | x :: a, y :: b, h => by
    have hvalue : ∀ n < 256, (hexByte (UInt8.ofNat n)).foldl (fun acc c =>
        16 * acc + if c.toNat < 58 then c.toNat - 48 else c.toNat - 55) 0 = n := by decide +kernel
    have hbyte : hexByte x = hexByte y → x = y := by
      intro heq
      have hx := hvalue x.toNat x.toNat_lt
      rw [UInt8.ofNat_toNat, heq, ← UInt8.ofNat_toNat (x := y), hvalue y.toNat y.toNat_lt] at hx
      exact (UInt8.toNat_inj.mp hx).symm
    rw [List.flatMap_cons, List.flatMap_cons] at h
    obtain ⟨hhead, hrest⟩ := List.append_inj h rfl
    rw [hbyte hhead, hexText_injective hrest]

/-- Values of one type with one text are equal, up to the sign of a zero. -/
theorem parts_of_text (hfmt : DistinctFloats fmt) (htype : v.dataType = w.dataType) (hv : encodeFileStat fmt v = some t)
    (hw : encodeFileStat fmt w = some t) :
    magnitude v = magnitude w ∧ characters v = characters w ∧ octets v = octets w := by
  have hsame := htype
  cases v <;> cases w <;>
    simp only [ScalarValue.dataType, reduceCtorEq, DataType.time.injEq, DataType.binary.injEq] at htype
  case boolean.boolean a b =>
    cases a <;> cases b <;> first
      | exact ⟨rfl, rfl, rfl⟩
      | cases hv.trans hw.symm
  case float32.float32 a b => exact ⟨hfmt.single hv hw, rfl, rfl⟩
  case float64.float64 a b => exact ⟨hfmt.double hv hw, rfl, rfl⟩
  case time.time u a u' b =>
    subst htype
    rw [encodeTime_injective hv hw]
    exact ⟨rfl, rfl, rfl⟩
  case binary.binary k a k' b =>
    subst htype
    have hbytes : a = b := by
      cases k with
      | fixedSizeBinary n => cases hv
      | _ => exact hexText_injective (Option.some.inj (hv.trans hw.symm))
    rw [hbytes]
    exact ⟨rfl, rfl, rfl⟩
  all_goals first
    | (cases hv; done)
    | (cases hw; done)
    | (have heq := @encodeScalar_injective fmt _ _ t hsame rfl hv hw
       rw [heq]
       exact ⟨rfl, rfl, rfl⟩)

/-- A bound whose text spells a bound for a value of its type is one itself. -/
theorem covers_of_text (hfmt : DistinctFloats fmt) {b m : ScalarValue} (hb : encodeFileStat fmt b = some t)
    (hm : encodeFileStat fmt m = some t) (hnull : m.isNull = false) (hvnull : v.isNull = false)
    (htype : m.dataType = v.dataType) (h : side.covers (plain b) (plain v) = true) : side.covers m v = true := by
  rw [← covers_plain hnull hvnull htype]
  have hplain : (plain m).dataType = (plain v).dataType := by rw [dataType_plain hnull, dataType_plain hvnull, htype]
  have hbv : (plain b).dataType = (plain v).dataType := by
    cases side
    · exact (atMost_iff.mp h).1
    · exact (atMost_iff.mp h).1.symm
  rw [← encodeFileStat_plain] at hb hm
  obtain ⟨h₁, h₂, h₃⟩ := parts_of_text hfmt (hbv.trans hplain.symm) hb hm
  cases side <;> simpa [Side.covers, atMost, hplain, hbv, h₁, h₂, h₃] using h

end Texts

/-! ## The writer's own bounds -/

section Floats

variable {F : Ieee.Format}

/-- The bounds after the values were fed. -/
def FloatBounds.Covers (s : FloatBounds F) (fed : List (Ieee.Fp F)) : Prop :=
  ∀ x ∈ fed, x.isNaN = false → ∃ lo hi, s.bounds = some (lo, hi) ∧ lo.num ≤ x.num ∧ x.num ≤ hi.num

theorem FloatBounds.covers_update {s : FloatBounds F} {fed : List (Ieee.Fp F)} (h : s.Covers fed) (value : Ieee.Fp F) :
    (s.update value).Covers (fed ++ [value]) := by
  intro x hx hnan
  unfold FloatBounds.update
  split
  · next hvalue =>
    rcases List.mem_append.mp hx with hx | hx
    · exact h x hx hnan
    · obtain rfl : x = value := by simpa using hx
      rw [hnan] at hvalue
      cases hvalue
  · split
    · next hnone =>
      rcases List.mem_append.mp hx with hx | hx
      · obtain ⟨lo, hi, hb, -⟩ := h x hx hnan
        rw [hnone] at hb
        cases hb
      · obtain rfl : x = value := by simpa using hx
        exact ⟨x, x, rfl, le_rfl, le_rfl⟩
    · next min max hb =>
      refine ⟨_, _, rfl, ?_⟩
      rcases List.mem_append.mp hx with hx | hx
      · obtain ⟨lo, hi, hb', hlo, hhi⟩ := h x hx hnan
        rw [hb] at hb'
        cases hb'
        constructor
        · split <;> omega
        · split <;> omega
      · obtain rfl : x = value := by simpa using hx
        constructor
        · split <;> omega
        · split <;> omega

theorem FloatBounds.covers_foldl (fed : List (Ieee.Fp F)) : (fed.foldl FloatBounds.update ⟨none⟩).Covers fed := by
  induction fed using List.reverseRecOn with
  | nil => exact nofun
  | append_singleton fed value ih =>
    rw [List.foldl_append, List.foldl_cons, List.foldl_nil]
    exact FloatBounds.covers_update ih value

end Floats

theorem holds_of_text {batches : List (List Bytes)}
    (hfed : ∀ v ∈ values, v.isNull = false → ∃ bytes, boundBytes v = some (bytes, blob) ∧ bytes ∈ batches.flatten)
    (hb : ((StringBounds.new blob).feed batches).bounds = some (lo, hi)) :
    Holds .min lo values ∧ Holds .max hi values := by
  have hcovers := StringBounds.covers_feed blob batches
  have hblob := StringBounds.feed_blob blob batches
  obtain ⟨hstats, hcases⟩ := StringBounds.bounds_cases hb
  rw [hblob] at hcases
  have hbytes : ∀ v ∈ values, v.isNull = false → ∃ bytes, boundBytes v = some (bytes, blob) ∧
      ((StringBounds.new blob).feed batches).min ≤ bytes ∧ bytes ≤ ((StringBounds.new blob).feed batches).max := by
    intro v hv hnull
    obtain ⟨bytes, hbytes, hmem⟩ := hfed v hv hnull
    exact ⟨bytes, hbytes, hcovers.lower hstats bytes hmem, hcovers.upper hstats bytes hmem⟩
  rcases hcases with ⟨rfl, rfl, rfl⟩ | ⟨rfl, t, u, ht, hu, rfl, rfl⟩
  · constructor
    · intro v hv hnull _
      obtain ⟨bytes, hv, hlo, -⟩ := hbytes v hv hnull
      obtain ⟨-, hplain⟩ := (plain_of_boundBytes hv).resolve_right (by simp)
      rw [hplain]
      exact covers_blob hlo
    · intro v hv hnull _
      obtain ⟨bytes, hv, -, hhi⟩ := hbytes v hv hnull
      obtain ⟨-, hplain⟩ := (plain_of_boundBytes hv).resolve_right (by simp)
      rw [hplain]
      exact covers_blob hhi
  · rw [ht, hu] at hbytes
    constructor
    · intro v hv hnull _
      obtain ⟨bytes, hv, hlo, -⟩ := hbytes v hv hnull
      obtain ⟨-, w, rfl, hplain⟩ := (plain_of_boundBytes hv).resolve_left (by simp)
      rw [hplain]
      exact covers_text hlo
    · intro v hv hnull _
      obtain ⟨bytes, hv, -, hhi⟩ := hbytes v hv hnull
      obtain ⟨-, w, rfl, hplain⟩ := (plain_of_boundBytes hv).resolve_left (by simp)
      rw [hplain]
      exact covers_text hhi

theorem holds_of_floats {F : Ieee.Format} (mk : Ieee.Fp F → ScalarValue) {fed : List (Ieee.Fp F)}
    (hmk : ∀ a b, a.num ≤ b.num → atMost (plain (mk a)) (plain (mk b)) = true) (hnan : ∀ a, (mk a).isNaN = a.isNaN)
    (hfed : ∀ v ∈ values, v.isNull = false → ∃ x ∈ fed, v = mk x)
    (hb : ((fed.foldl FloatBounds.update ⟨none⟩).bounds.map fun b => (mk b.1, mk b.2)) = some (lo, hi)) :
    Holds .min lo values ∧ Holds .max hi values := by
  obtain ⟨b, hbounds, hpair⟩ := Option.map_eq_some_iff.mp hb
  cases hpair
  constructor
  all_goals
    intro v hv hnull hvnan
    obtain ⟨x, hx, rfl⟩ := hfed v hv hnull
    obtain ⟨lo, hi, hpair, hlo, hhi⟩ := FloatBounds.covers_foldl fed x hx (hnan x ▸ hvnan)
    rw [hbounds] at hpair
    cases hpair
  · exact hmk _ _ hlo
  · exact hmk _ _ hhi

/-- Bounds kept from every value hold for every value. -/
theorem holds_of_saw {lb : LeafBounds} (h : lb.Saw values)
    (hb : lb.bounds = some (lo, hi)) : Holds .min lo values ∧ Holds .max hi values := by
  cases lb with
  | text s =>
    obtain ⟨blob, batches, rfl, hfed⟩ := h
    exact holds_of_text hfed hb
  | float32 s =>
    obtain ⟨fed, rfl, hfed⟩ := h
    exact holds_of_floats .float32 (fun a b hle => atMost_iff.mpr ⟨rfl, hle, le_rfl, le_rfl⟩) (fun _ => rfl) hfed hb
  | float64 s =>
    obtain ⟨fed, rfl, hfed⟩ := h
    exact holds_of_floats .float64 (fun a b hle => atMost_iff.mpr ⟨rfl, hle, le_rfl, le_rfl⟩) (fun _ => rfl) hfed hb

/-! ## One leaf -/

section Leaf

variable {fmt : FloatText} {c : Converter} {content : LeafContent}

theorem typed_of_bound (hs : content.Sound) (side : Side) :
    ∀ b ∈ content.chunks.filterMap (·.bound side), Typed content.type b := by
  intro b hb
  obtain ⟨chunk, hchunk, hb⟩ := List.mem_filterMap.mp hb
  obtain ⟨g, hg, rfl⟩ := List.mem_map.mp hchunk
  obtain ⟨htype, hnull, -⟩ := (hs g hg).bound side b hb
  exact ⟨htype, hnull⟩

/-- The bound on one side. -/
def sideBound (side : Side) (bounds : Option ScalarValue × Option ScalarValue) : Option ScalarValue :=
  match side with
  | .min => bounds.1
  | .max => bounds.2

/-- A recorded bound is the shortened extreme of those the row groups record. -/
theorem footerBounds_eq_some {side : Side} {chunks : List ColumnChunk} {b : ScalarValue}
    (h : sideBound side (footerBounds c chunks) = some b) : (c.bounds side chunks).isSome = true ∧
      ∃ m, reduce side (chunks.map (·.bound side)) = some m ∧ truncateBound side m = some b := by
  have hread : ((c.bounds side chunks).bind (reduce side)).bind (truncateBound side) = some b := by
    unfold footerBounds at h
    cases hmax : (c.bounds .max chunks).bind (reduce .max) with
    | none =>
      rw [hmax] at h
      cases side with
      | min => exact h
      | max => cases h
    | some m =>
      rw [hmax] at h
      cases side <;> cases htrunc : truncateBound .max m <;> simp_all [sideBound]
  obtain ⟨m, hm, htrunc⟩ := Option.bind_eq_some_iff.mp hread
  obtain ⟨stats, hstats, hm⟩ := Option.bind_eq_some_iff.mp hm
  rw [c.bounds_eq hstats] at hm
  exact ⟨by rw [hstats]; rfl, m, hm, htrunc⟩

/-- A bound recorded from the row groups that have one holds for the leaf when every value is
    within a bound of some row group. -/
theorem holds_of_footerBounds (hs : content.Sound)
    (hcomplete : Complete c none content) {side : Side} {b : ScalarValue}
    (h : sideBound side (footerBounds c content.chunks) = some b) : Holds side b content.values := by
  obtain ⟨hread, m, hm, htrunc⟩ := footerBounds_eq_some h
  have htyped := typed_of_bound hs side
  obtain ⟨hmem, hbest⟩ := (reduce_bound htyped).2 m hm
  obtain ⟨chunk, hchunk, hbound⟩ := List.mem_filterMap.mp hmem
  obtain ⟨g₀, hg₀, rfl⟩ := List.mem_map.mp hchunk
  intro v hv hnull hnan
  obtain ⟨g, hg, hv⟩ := List.mem_flatMap.mp hv
  -- a bound of the value's own row group, or of the one completeness gives
  obtain ⟨g', hg', x, hx, hxv⟩ : ∃ g' ∈ content.groups, ∃ x, g'.1.bound side = some x ∧ side.covers x v = true := by
    cases hgbound : g.1.bound side with
    | some x => exact ⟨g, hg, x, hgbound, ((hs g hg).bound side x hgbound).2.2 v hv hnull hnan⟩
    | none => exact hcomplete.bounds rfl side hread ⟨g₀, hg₀, by simp [hbound]⟩ g hg hgbound v hv hnull hnan
  have hxmem : x ∈ content.chunks.filterMap (·.bound side) :=
    List.mem_filterMap.mpr ⟨g'.1, List.mem_map_of_mem hg', hx⟩
  have hmv : side.covers m v = true :=
    Side.covers_trans (covers_of_not_before (htyped m hmem) (htyped x hxmem) (hbest x hxmem)) hxv
  have htype : m.dataType = v.dataType := (htyped m hmem).1.trans ((hs g hg).typed v hv).symm
  rw [← covers_plain (htyped m hmem).2 hnull htype] at hmv
  exact Side.covers_trans (covers_of_truncateBound htrunc) hmv

theorem mem_of_reduce (hs : content.Sound) {side : Side} {m : ScalarValue}
    (h : (c.bounds side content.chunks).bind (reduce side) = some m) :
    ∃ g ∈ content.groups, g.1.bound side = some m := by
  obtain ⟨stats, hstats, hm⟩ := Option.bind_eq_some_iff.mp h
  rw [c.bounds_eq hstats] at hm
  obtain ⟨chunk, hchunk, hbound⟩ := List.mem_filterMap.mp ((reduce_bound (typed_of_bound hs side)).2 m hm).1
  obtain ⟨g, hg, rfl⟩ := List.mem_map.mp hchunk
  exact ⟨g, hg, hbound⟩

/-- Bounds that fit are recorded as they are. -/
theorem footerBounds_of_fits (hs : content.Sound) (hfits : Fits fmt content) {side : Side}
    (hread : (c.bounds side content.chunks).isSome = true) (hsome : ∃ g ∈ content.groups, g.1.bound side ≠ none) :
    ∃ g ∈ content.groups, ∃ m, g.1.bound side = some m ∧ sideBound side (footerBounds c content.chunks) = some m := by
  obtain ⟨m, hm⟩ : ∃ m, (c.bounds side content.chunks).bind (reduce side) = some m := by
    obtain ⟨stats, hstats⟩ := Option.isSome_iff_exists.mp hread
    rw [hstats, Option.bind_some, c.bounds_eq hstats]
    refine Option.ne_none_iff_exists'.mp fun hnone => ?_
    obtain ⟨g, hg, hbound⟩ := hsome
    have hnil := (reduce_bound (typed_of_bound hs side)).1 hnone
    exact hbound (List.filterMap_eq_nil_iff.mp hnil g.1 (List.mem_map_of_mem hg))
  obtain ⟨g, hg, hbound⟩ := mem_of_reduce hs hm
  refine ⟨g, hg, m, hbound, ?_⟩
  have htrunc := (hfits g hg side m hbound).1
  unfold footerBounds
  cases hmax : (c.bounds .max content.chunks).bind (reduce .max) with
  | none => cases side <;> simp_all [sideBound]
  | some max =>
    obtain ⟨g', hg', hbound'⟩ := mem_of_reduce hs hmax
    have hlast := (hfits g' hg' .max max hbound').1
    cases side <;> simp_all [sideBound]

/-! Counts. -/

theorem countP_values (p : ScalarValue → Bool) (content : LeafContent) :
    content.values.countP p = (content.groups.map fun g => g.2.countP p).sum := by
  unfold LeafContent.values
  rw [List.countP_flatMap]
  rfl

theorem length_values (content : LeafContent) :
    content.values.length = (content.groups.map fun g => g.2.length).sum := by
  unfold LeafContent.values
  rw [List.length_flatMap]

theorem sum_numValues {groups : List (ColumnChunk × List ScalarValue)}
    (h : ∀ g ∈ groups, g.1.numValues = g.2.length) :
    ((groups.map Prod.fst).map (·.numValues)).sum = ((groups.map fun g => g.2.length).sum : Nat) := by
  induction groups with
  | nil => rfl
  | cons g groups ih =>
    rw [List.forall_mem_cons] at h
    simp only [List.map_cons, List.sum_cons, Nat.cast_add, ih h.2, h.1]

/-- The NULLs the footer counts. -/
def countedNulls (content : LeafContent) : Nat := (content.groups.map fun g => g.1.nullCount.getD 0).sum

/-- A chunk without statistics adds nothing. -/
theorem sum_readNulls (groups : List (ColumnChunk × List ScalarValue)) :
    (((groups.map Prod.fst).map fun c => c.statistics.map (·.nullCount.getD 0)).filterMap id).sum =
      (groups.map fun g => g.1.nullCount.getD 0).sum := by
  induction groups with
  | nil => rfl
  | cons g groups ih =>
    rw [List.map_cons, List.map_cons, List.map_cons, List.sum_cons, ← ih]
    unfold ColumnChunk.nullCount
    cases g.1.statistics <;> simp

theorem countedNulls_spec (hs : content.Sound) :
    countedNulls content ≤ content.values.countP (·.isNull) ∧
      (countedNulls content = content.values.countP (·.isNull) ↔
        ∀ g ∈ content.groups, g.1.nullCount = none → ∀ v ∈ g.2, v.isNull = false) := by
  have hle : ∀ g ∈ content.groups, g.1.nullCount.getD 0 ≤ g.2.countP (·.isNull) := by
    intro g hg
    cases hn : g.1.nullCount with
    | none => exact Nat.zero_le _
    | some n => exact Nat.le_of_eq ((hs g hg).nullCount n hn)
  obtain ⟨hsum, hiff⟩ := Lists.sum_eq_sum_iff hle
  rw [countP_values]
  refine ⟨hsum, hiff.trans (forall₂_congr fun g hg => ?_)⟩
  cases hn : g.1.nullCount with
  | none =>
    have hzero : 0 = g.2.countP (·.isNull) ↔ ∀ v ∈ g.2, v.isNull = false := by
      rw [eq_comm, List.countP_eq_zero]
      exact forall₂_congr fun v _ => iff_of_eq (Bool.not_eq_true _)
    simpa using hzero
  | some n => simpa using (hs g hg).nullCount n hn

theorem harvestCounts_eq (hs : content.Sound)
    (hsmall : content.values.length < 2 ^ 63) {nested : Bool} {rowCount : Int}
    (hrows : nested = false → rowCount = content.values.length) :
    harvestCounts c nested rowCount content.chunks =
      if (c.nullCounts content.chunks).isSome then
        (some (countedNulls content : Int), some (content.values.length - countedNulls content : Int))
      else (none, none) := by
  unfold harvestCounts
  split
  · next hnone => rw [hnone]; rfl
  · next counts hcounts =>
    have hsum : (counts.filterMap id).sum = countedNulls content := by
      rw [c.nullCounts_eq hcounts]
      exact sum_readNulls content.groups
    have hnulls := (countedNulls_spec hs).1
    have hcount := List.countP_le_length (p := (·.isNull)) (l := content.values)
    have hvalues : (if nested then (content.chunks.map (·.numValues)).sum else rowCount) =
        content.values.length := by
      split
      · rw [length_values]
        exact sum_numValues fun g hg => (hs g hg).numValues
      · next hnested => exact hrows (Bool.eq_false_iff.mpr hnested)
    rw [hcounts, Option.isSome_some, if_pos rfl, hsum, hvalues, i64TryFrom, if_pos (by omega)]
    simp only [Option.map_some, Prod.mk.injEq, true_and, Option.some.injEq]
    omega

end Leaf

/-! ## The file -/

theorem countP_not (content : LeafContent) :
    (content.values.countP (!·.isNull) : Int) = content.values.length - content.values.countP (·.isNull) := by
  have h := List.length_eq_countP_add_countP (·.isNull) (l := content.values)
  have hnot : content.values.countP (!·.isNull) = content.values.countP fun v => decide ¬ v.isNull = true := by
    refine List.countP_congr fun v _ => ?_
    simp
  omega

theorem counts_right_iff {c : Converter} {content : LeafContent}
    (hs : content.Sound) (hsmall : content.values.length < 2 ^ 63) {nested : Bool} {rowCount : Int}
    (hrows : nested = false → rowCount = content.values.length) :
    ((∀ n, (harvestCounts c nested rowCount content.chunks).1 = some n →
        n = content.values.countP (·.isNull)) ∧
      ∀ n, (harvestCounts c nested rowCount content.chunks).2 = some n →
        n = content.values.countP (!·.isNull)) ↔
    ((c.nullCounts content.chunks).isSome = true →
      ∀ g ∈ content.groups, g.1.nullCount = none → ∀ v ∈ g.2, v.isNull = false) := by
  rw [harvestCounts_eq hs hsmall hrows, ← (countedNulls_spec hs).2]
  cases (c.nullCounts content.chunks).isSome with
  | false => simp
  | true =>
    have hnot := countP_not content
    simp only [if_true, Option.some.injEq, forall_eq', true_imp_iff]
    omega

theorem Footer.statsRight_iff (fmt : FloatText) (F : Footer) (content : Nat → LeafContent) :
    F.StatsRight fmt content ↔ ∀ i leaf columnId c, F.leaves[i]? = some leaf → F.target i leaf = some (columnId, c) →
      (F.columnStat fmt i leaf (columnId, c)).Right fmt columnId (content i).values := by
  unfold StatsRight compute recorded
  rw [Lists.forall₂_filterMap]
  simp only [Prod.forall, List.mem_zipIdx_iff_getElem?]
  exact ⟨fun h i leaf columnId c hleaf htarget => h leaf i hleaf columnId c htarget,
    fun h leaf i hleaf columnId c htarget => h i leaf columnId c hleaf htarget⟩

section Recorded

variable {fmt : FloatText} {F : Footer} {content : Nat → LeafContent} {i : Nat} {leaf : ParquetLeaf} {columnId : Int}
  {c : Converter}

/-- A bound of a leaf, of the writer's or the footer's, holds where the leaf is complete. -/
theorem holds_of_harvestBounds (hs : F.Sound content) (hcomplete : Complete c (F.written i) (content i)) {side : Side}
    {b : ScalarValue}
    (hb : sideBound side (harvestBounds c (F.written i) (content i).chunks) = some b) :
    Holds side b (content i).values := by
  cases hwritten : F.written i with
  | some lb =>
    rw [hwritten, harvestBounds] at hb
    cases hpair : lb.bounds with
    | none => cases side <;> simp [sideBound, writtenBounds, hpair] at hb
    | some pair =>
      have hholds := holds_of_saw (hs.written hwritten) hpair
      cases side
      · obtain rfl : pair.1 = b := by simpa [sideBound, writtenBounds, hpair] using hb
        exact hholds.1
      · obtain rfl : pair.2 = b := by simpa [sideBound, writtenBounds, hpair] using hb
        exact hholds.2
  | none =>
    rw [hwritten] at hb hcomplete
    exact holds_of_footerBounds (hs.sound i) hcomplete hb

theorem columnStat_right (hs : F.Sound content) (hleaf : F.leaves[i]? = some leaf)
    (hcomplete : Complete c (F.written i) (content i)) :
    (F.columnStat fmt i leaf (columnId, c)).Right fmt columnId (content i).values := by
  have hcounts := (counts_right_iff (hs.sound i) (hs.small i) (hs.rows hleaf)).mpr hcomplete.nulls
  have htext : ∀ side text, (sideBound side (harvestBounds c (F.written i) leaf.chunks)).bind (encodeFileStat fmt) =
      some text → TextHolds fmt side text (content i).values := by
    intro side text h
    obtain ⟨b, hb, henc⟩ := Option.bind_eq_some_iff.mp h
    rw [hs.chunks hleaf] at hb
    exact ⟨b, henc, holds_of_harvestBounds hs hcomplete hb⟩
  rw [← hs.chunks hleaf] at hcounts
  exact ⟨rfl, hcounts.1, hcounts.2, htext .min, htext .max⟩

/-- What is recorded right shows that nothing was hidden, where the bounds fit. -/
theorem complete_of_right (hfmt : DistinctFloats fmt) (hs : F.Sound content) (hleaf : F.leaves[i]? = some leaf)
    (hfits : Fits fmt (content i))
    (hright : (F.columnStat fmt i leaf (columnId, c)).Right fmt columnId (content i).values) :
    Complete c (F.written i) (content i) := by
  have hsound := hs.sound i
  refine ⟨?_, fun hnone side hread hsome g hg _ v hv hnull hnan => ?_⟩
  · refine (counts_right_iff hsound (hs.small i) (hs.rows hleaf)).mp ?_
    rw [← hs.chunks hleaf]
    exact ⟨hright.nullCount, hright.valueCount⟩
  · -- the text recorded spells a row group's own bound, so that bound covers the hidden value
    obtain ⟨g', hg', m, hbound, hrec⟩ := footerBounds_of_fits hsound hfits hread hsome
    obtain ⟨htype, hm, -⟩ := (hsound g' hg').bound side m hbound
    obtain ⟨text, htext⟩ := Option.isSome_iff_exists.mp (hfits g' hg' side m hbound).2
    have hstat : (sideBound side (harvestBounds c (F.written i) leaf.chunks)).bind (encodeFileStat fmt) =
        some text := by
      rw [hs.chunks hleaf, hnone, harvestBounds, hrec]
      exact htext
    obtain ⟨b, hb, hholds⟩ : TextHolds fmt side text (content i).values := by
      cases side
      · exact hright.min text hstat
      · exact hright.max text hstat
    have hcovers := hholds v (List.mem_flatMap.mpr ⟨g, hg, hv⟩) hnull hnan
    have hsame := htype.trans ((hsound g hg).typed v hv).symm
    exact ⟨g', hg', m, hbound, covers_of_text hfmt hb htext hm hnull hsame hcovers⟩

end Recorded

/-- The rows `compute` returns are right when no row group without a statistic hides a NULL
    or a value. Where the bounds fit as they are, they are right only then. -/
theorem compute_right (fmt : FloatText) (F : Footer) (content : Nat → LeafContent) (hs : F.Sound content) :
    (F.AllComplete content → F.StatsRight fmt content) ∧
      (DistinctFloats fmt → (∀ i, Fits fmt (content i)) → F.StatsRight fmt content → F.AllComplete content) := by
  rw [F.statsRight_iff fmt content]
  refine ⟨fun h i leaf columnId c hleaf htarget => ?_, fun hfmt hfits h i leaf columnId c hleaf htarget => ?_⟩
  · exact columnStat_right hs hleaf (h i leaf columnId c hleaf htarget)
  · exact complete_of_right hfmt hs hleaf (hfits i) (h i leaf columnId c hleaf htarget)

/-! ## Two row groups -/

/-- Reads whatever the chunks keep. -/
def readAll : Converter where
  nullCounts chunks := some (chunks.map fun c => c.statistics.map (·.nullCount.getD 0))
  bounds side chunks := some (chunks.map (·.bound side))
  nullCounts_eq h := (Option.some.inj h).symm
  bounds_eq h := (Option.some.inj h).symm

def noFloatText : FloatText := ⟨fun _ => none, fun _ => none⟩

def fiveGroup : ColumnChunk × List ScalarValue :=
  (⟨1, some ⟨some 0, none, some (.integer .int64 5)⟩, 40⟩, [.integer .int64 5])

def nineGroup (nulls : Option Nat) (max : Option ScalarValue) : ColumnChunk × List ScalarValue :=
  (⟨2, some ⟨nulls, none, max⟩, 40⟩, [.null (.integer .int64), .integer .int64 9])

/-- A row group of 5 and one of a NULL and 9, whose null count and maximum may be missing. -/
def twoGroups (nulls : Option Nat) (max : Option ScalarValue) : LeafContent :=
  ⟨.integer .int64, [fiveGroup, nineGroup nulls max]⟩

def twoGroupFooter (nulls : Option Nat) (max : Option ScalarValue) : Footer where
  fields := [("a".toList, .scalar (.integer .int64))]
  leaves := [⟨0, none, (twoGroups nulls max).chunks⟩]
  columnIds := [1]
  rowCount := 3
  containsNanFlags := []
  bounds := none
  nestedIds := .skip
  converter _ _ := some readAll

theorem twoGroupFooter_sound {nulls : Option Nat} {max : Option ScalarValue} (hnulls : ∀ n, nulls = some n → n = 1)
    (hmax : ∀ b, max = some b → b = .integer .int64 9) :
    (twoGroupFooter nulls max).Sound fun _ => twoGroups nulls max where
  chunks {i leaf} h := by
    obtain ⟨rfl, rfl⟩ : i = 0 ∧ leaf = ⟨0, none, (twoGroups nulls max).chunks⟩ := by
      cases i with
      | zero => exact ⟨rfl, (Option.some.inj h).symm⟩
      | succ i => cases h
    rfl
  sound _ g hg := by
    obtain rfl | rfl : g = fiveGroup ∨ g = nineGroup nulls max := by simpa [twoGroups] using hg
    · refine ⟨?_, rfl, ?_, ?_⟩
      · exact show ∀ v ∈ fiveGroup.2, v.dataType = .integer .int64 by decide
      · rintro n ⟨⟩
        rfl
      · rintro (_ | _) b hb
        · cases hb
        · cases hb
          exact ⟨rfl, rfl, by decide⟩
    · refine ⟨?_, rfl, hnulls, ?_⟩
      · exact show ∀ v ∈ [ScalarValue.null (.integer .int64), .integer .int64 9], v.dataType = .integer .int64 by decide
      · rintro (_ | _) b hb
        · cases hb
        · cases hmax b hb
          refine ⟨rfl, rfl, ?_⟩
          exact show ∀ v ∈ [ScalarValue.null (.integer .int64), .integer .int64 9], v.isNull = false →
            v.isNaN = false → Side.max.covers (.integer .int64 9) v = true by decide
  rows _ _ := rfl
  small _ := by
    change 3 < 2 ^ 63
    decide
  written h := nomatch h

/-- Without its maximum the second row group is not bounded by the file's, and without its
    null count its NULL is not counted. -/
theorem twoGroupFooter_not_right :
    ((twoGroupFooter (some 1) none).Sound (fun _ => twoGroups (some 1) none) ∧
      ¬ (twoGroupFooter (some 1) none).StatsRight noFloatText fun _ => twoGroups (some 1) none) ∧
    (twoGroupFooter none (some (.integer .int64 9))).Sound (fun _ => twoGroups none (some (.integer .int64 9))) ∧
      ¬ (twoGroupFooter none (some (.integer .int64 9))).StatsRight noFloatText
        fun _ => twoGroups none (some (.integer .int64 9)) := by
  refine ⟨⟨twoGroupFooter_sound (by simp) (by simp), fun h => ?_⟩, twoGroupFooter_sound (by simp) (by simp),
    fun h => ?_⟩
  · obtain ⟨b, hb, hholds⟩ := ((Footer.statsRight_iff _ _ _).mp h 0 _ _ _ rfl rfl).max "5".toList (by decide +kernel)
    have hcovers : Side.max.covers (.integer .int64 5) (.integer .int64 9) = true :=
      covers_of_text ⟨by rintro _ _ _ ⟨⟩, by rintro _ _ _ ⟨⟩⟩ hb (by decide +kernel) rfl rfl rfl
        (hholds (.integer .int64 9) (by decide) rfl rfl)
    exact absurd hcovers (by decide)
  · exact absurd (((Footer.statsRight_iff _ _ _).mp h 0 _ _ _ rfl rfl).nullCount 0 (by decide)) (by decide)

/-- With both, the file's statistics are right. -/
theorem twoGroupFooter_right : (twoGroupFooter (some 1) (some (.integer .int64 9))).Sound
      (fun _ => twoGroups (some 1) (some (.integer .int64 9))) ∧
    (twoGroupFooter (some 1) (some (.integer .int64 9))).StatsRight noFloatText
      fun _ => twoGroups (some 1) (some (.integer .int64 9)) := by
  have hsound : (twoGroupFooter (some 1) (some (.integer .int64 9))).Sound
      (fun _ => twoGroups (some 1) (some (.integer .int64 9))) := twoGroupFooter_sound (by simp) (by simp)
  refine ⟨hsound, (compute_right noFloatText _ _ hsound).1 fun i leaf columnId c _ _ => ⟨fun _ g hg hnone => ?_, ?_⟩⟩
  · obtain rfl | rfl : g = fiveGroup ∨ g = nineGroup (some 1) (some (.integer .int64 9)) := by
      simpa [twoGroups] using hg
    · cases hnone
    · cases hnone
  · intro _ side _ hsome g hg hnone
    obtain rfl | rfl : g = fiveGroup ∨ g = nineGroup (some 1) (some (.integer .int64 9)) := by
      simpa [twoGroups] using hg
    · cases side
      · simp [twoGroups, fiveGroup, nineGroup, ColumnChunk.bound, ChunkStatistics.bound] at hsome
      · cases hnone
    · cases side
      · simp [twoGroups, fiveGroup, nineGroup, ColumnChunk.bound, ChunkStatistics.bound] at hsome
      · cases hnone

end DuckLake.Collect
