import DuckLake.Partition.Prefilter
import Mathlib.Logic.Relation

/- Partitioned files over a table's history, and that the pre-filter keeps the ones
   that hold an answer.

   A file is written under one generation and records, for each of its keys, a text of
   the transformed value all its rows share: the encoder's, or one a caller supplied
   that reads as that value. A column's type may be promoted afterwards; the reader then
   sees the promoted values. -/

namespace DuckLake.Partition

open Prune Versioned

/-! ## Promoted values -/

/-- Whether the type is signed, and its place among the widths. -/
def intRank : IntType → Bool × Nat
  | .int8 => (true, 0)
  | .int16 => (true, 1)
  | .int32 => (true, 2)
  | .int64 => (true, 3)
  | .uint8 => (false, 0)
  | .uint16 => (false, 1)
  | .uint32 => (false, 2)
  | .uint64 => (false, 3)

def isArrowPromotable (a b : DataType) : Bool :=
  a == b || match a, b with
    | .integer s, .integer t => (intRank s).1 == (intRank t).1 && decide ((intRank s).2 < (intRank t).2)
    | .float32, .float64 => true
    | _, _ => false

/-- A stored value as it is read after its column was promoted. -/
inductive Promoted : ScalarValue → ScalarValue → Prop
  | same (v : ScalarValue) : Promoted v v
  | null {t t' : DataType} (h : isArrowPromotable t t' = true) : Promoted (.null t) (.null t')
  | integer {t t' : IntType} (n : Int) (h : isArrowPromotable (.integer t) (.integer t') = true) :
      Promoted (.integer t n) (.integer t' n)
  | float (x : F32) (y : F64) : Promoted (.float32 x) (.float64 y)

/-! ## Recorded values -/

/-- Arrow's parser of a text as a value of a type. -/
abbrev ArrowParser := DataType → Text → Option ScalarValue

/-- An integer's own text, where the parser takes it, reads as that integer. -/
def ReadsIntegers (arrow : ArrowParser) : Prop :=
  ∀ t n v, arrow (.integer t) (intText n) = some v → v = .integer t n

def parseDucklakeScalar (arrow : ArrowParser) (text : Text) : DataType → Option ScalarValue
  | .string t => some (.string t text)
  | t => arrow t text

/-- A recorded value stands for the key: no text for NULL, otherwise the encoder's text
or one that reads as the key. -/
def RecordsKey (fmt : FloatText) (arrow : ArrowParser) (key : ScalarValue) : Option Text → Prop
  | none => key.isNull = true
  | some text => key.isNull = false ∧
      (keyText fmt key = some text ∨ parseDucklakeScalar arrow text key.dataType = some key)

section Written
variable (fmt : FloatText) (datePart : DatePart) (arrow : ArrowParser)

/-- Each recorded value of the file stands for the transformed key of every row, under
the columns of the file's generation. -/
def PartitionedFile.WrittenUnder (columns : List PartitionColumn) (file : PartitionedFile) : Prop :=
  match file.partitionId with
  | none => file.partitionValues = []
  | some pid => ∀ v ∈ file.partitionValues, ∀ c ∈ columns, c.partitionId = pid → c.partitionKeyIndex = v.1 →
      ∀ row ∈ file.rows, ∃ key, transformScalar datePart c.transform (row c.columnId) = some key ∧
        RecordsKey fmt arrow key v.2

end Written

section Written
variable (fmt : FloatText) (datePart : DatePart) (arrow : ArrowParser)

/-! ## Histories -/

/-- A commit to the table. -/
inductive Step : PartitionCatalog → PartitionCatalog → Prop
  | set {cat cat' : PartitionCatalog} {columns : List (Nat × PartitionTransform)}
      (h : cat.setPartitionSpec columns = some cat') : Step cat cat'
  | reset (cat : PartitionCatalog) : Step cat cat.resetPartitionSpec
  | register {cat : PartitionCatalog} {file : PartitionedFile}
      (fence : enforcePartitionFence cat.livePartitionId file = true)
      (written : file.WrittenUnder fmt datePart arrow cat.columns) :
      Step cat { cat with head := cat.head + 1, files := cat.files ++ [file] }
  -- a compaction or a flush keeps the generation its rows were laid out by, without the fence
  | rewrite {cat : PartitionCatalog} {file : PartitionedFile}
      (known : ∀ pid, file.partitionId = some pid → ∃ i ∈ cat.infos, i.partitionId = pid)
      (written : file.WrittenUnder fmt datePart arrow cat.columns) :
      Step cat { cat with head := cat.head + 1, files := cat.files ++ [file] }
  -- any other commit; files may go
  | other {cat : PartitionCatalog} {head nextCatalogId : Nat} {files : List PartitionedFile}
      (hhead : cat.head ≤ head) (hnext : cat.nextCatalogId ≤ nextCatalogId) (hfiles : files ⊆ cat.files) :
      Step cat { cat with head := head, nextCatalogId := nextCatalogId, files := files }

/-- A catalog a history of commits leads to, from a table never partitioned. -/
def Reachable (cat : PartitionCatalog) : Prop :=
  ∃ head nextCatalogId, Relation.ReflTransGen (Step fmt datePart arrow) ⟨head, nextCatalogId, [], [], []⟩ cat

structure PartitionCatalog.Inv (cat : PartitionCatalog) : Prop where
  infoIds : ∀ i ∈ cat.infos, i.partitionId < cat.nextCatalogId
  columnIds : ∀ c ∈ cat.columns, c.partitionId < cat.nextCatalogId
  written : ∀ f ∈ cat.files, f.WrittenUnder fmt datePart arrow cat.columns
  known : ∀ f ∈ cat.files, ∀ pid, f.partitionId = some pid → ∃ i ∈ cat.infos, i.partitionId = pid

end Written

section Histories
variable {fmt : FloatText} {datePart : DatePart} {arrow : ArrowParser}

variable {cat : PartitionCatalog} {file : PartitionedFile} {snapshot : Nat}

theorem PartitionedFile.WrittenUnder.append {columns new : List PartitionColumn}
    (h : file.WrittenUnder fmt datePart arrow columns)
    (hnew : ∀ c ∈ new, file.partitionId ≠ some c.partitionId) :
    file.WrittenUnder fmt datePart arrow (columns ++ new) := by
  unfold PartitionedFile.WrittenUnder at h ⊢
  split at h
  · exact h
  · next pid hpid =>
    intro v hv c hc hid
    rcases List.mem_append.mp hc with hc | hc
    · exact h v hv c hc hid
    · exact absurd (hid ▸ hpid) (hnew c hc)

theorem mem_endLive {infos : List PartitionInfo} {i : PartitionInfo} (h : i ∈ infos) :
    ∃ j ∈ PartitionCatalog.endLive snapshot infos, j.partitionId = i.partitionId :=
  ⟨_, List.mem_map_of_mem h, rfl⟩

theorem of_mem_endLive {infos : List PartitionInfo} {j : PartitionInfo}
    (h : j ∈ PartitionCatalog.endLive snapshot infos) : ∃ i ∈ infos, i.partitionId = j.partitionId := by
  obtain ⟨i, hi, rfl⟩ := List.mem_map.mp h
  exact ⟨i, hi, rfl⟩

theorem known_of_fence
    (fence : enforcePartitionFence cat.livePartitionId file = true) {pid : Nat} (hpid : file.partitionId = some pid) :
    ∃ i ∈ cat.infos, i.partitionId = pid := by
  simp only [enforcePartitionFence, hpid, beq_iff_eq, PartitionCatalog.livePartitionId] at fence
  obtain ⟨i, hi, rfl⟩ := Option.map_eq_some_iff.mp fence
  exact ⟨i, List.mem_of_find?_eq_some hi, rfl⟩

theorem PartitionCatalog.Inv.add (h : cat.Inv fmt datePart arrow)
    (known : ∀ pid, file.partitionId = some pid → ∃ i ∈ cat.infos, i.partitionId = pid)
    (written : file.WrittenUnder fmt datePart arrow cat.columns) :
    PartitionCatalog.Inv fmt datePart arrow { cat with head := cat.head + 1, files := cat.files ++ [file] } := by
  refine ⟨h.infoIds, h.columnIds, ?_, ?_⟩
  · intro f hf
    rcases List.mem_append.mp hf with hf | hf
    · exact h.written f hf
    · rw [List.mem_singleton.mp hf]
      exact written
  · intro f hf
    rcases List.mem_append.mp hf with hf | hf
    · exact h.known f hf
    · rw [List.mem_singleton.mp hf]
      exact known

theorem PartitionCatalog.Inv.step {cat cat' : PartitionCatalog} (h : cat.Inv fmt datePart arrow)
    (hstep : Step fmt datePart arrow cat cat') : cat'.Inv fmt datePart arrow := by
  cases hstep with
  | @set _ columns hset =>
    unfold PartitionCatalog.setPartitionSpec at hset
    split at hset
    · cases hset
    · cases hset
      refine ⟨?_, ?_, ?_, ?_⟩
      · intro i hi
        rcases List.mem_append.mp hi with hi | hi
        · obtain ⟨j, hj, hid⟩ := of_mem_endLive hi
          exact hid ▸ Nat.lt_succ_of_lt (h.infoIds j hj)
        · rw [List.mem_singleton.mp hi]
          exact Nat.lt_succ_self _
      · intro c hc
        rcases List.mem_append.mp hc with hc | hc
        · exact Nat.lt_succ_of_lt (h.columnIds c hc)
        · obtain ⟨_, _, rfl⟩ := List.mem_map.mp hc
          exact Nat.lt_succ_self _
      · intro f hf
        apply (h.written f hf).append
        intro c hc hpid
        obtain ⟨_, _, rfl⟩ := List.mem_map.mp hc
        obtain ⟨i, hi, hid⟩ := h.known f hf _ hpid
        have hlt := h.infoIds i hi
        rw [hid] at hlt
        exact Nat.lt_irrefl _ hlt
      · intro f hf pid hpid
        obtain ⟨i, hi, hid⟩ := h.known f hf pid hpid
        obtain ⟨j, hj, hji⟩ := mem_endLive hi
        exact ⟨j, List.mem_append_left _ hj, hji.trans hid⟩
  | reset =>
    unfold PartitionCatalog.resetPartitionSpec
    split
    · refine ⟨?_, h.columnIds, h.written, ?_⟩
      · intro i hi
        obtain ⟨j, hj, hid⟩ := of_mem_endLive hi
        exact hid ▸ h.infoIds j hj
      · intro f hf pid hpid
        obtain ⟨i, hi, hid⟩ := h.known f hf pid hpid
        obtain ⟨j, hj, hji⟩ := mem_endLive hi
        exact ⟨j, hj, hji.trans hid⟩
    · exact h
  | register fence written => exact h.add (fun _ hpid => known_of_fence fence hpid) written
  | rewrite known written => exact h.add known written
  | other hhead hnext hfiles =>
    exact ⟨fun i hi => Nat.lt_of_lt_of_le (h.infoIds i hi) hnext,
      fun c hc => Nat.lt_of_lt_of_le (h.columnIds c hc) hnext, fun f hf => h.written f (hfiles hf),
      fun f hf => h.known f (hfiles hf)⟩

theorem Reachable.inv (h : Reachable fmt datePart arrow cat) : cat.Inv fmt datePart arrow := by
  obtain ⟨head, nextCatalogId, hsteps⟩ := h
  induction hsteps with
  | refl => exact ⟨by simp, by simp, by simp, by simp⟩
  | tail _ hstep ih => exact ih.step hstep

theorem mem_specRows {c : PartitionColumn}
    (h : c ∈ cat.specRows snapshot) : c ∈ cat.columns ∧ ∃ i ∈ cat.infos, i.partitionId = c.partitionId := by
  obtain ⟨i, hi, hc⟩ := List.mem_flatMap.mp (List.mem_mergeSort.mp h)
  obtain ⟨hc, hid⟩ := List.mem_filter.mp hc
  exact ⟨hc, i, (List.mem_filter.mp hi).1, (beq_iff_eq.mp hid).symm⟩

/-- While the table has had one generation, a file's recorded value of a key of the
specification stands for the rows' values of that key's column. -/
theorem recorded_of_pruneSafe (hinv : cat.Inv fmt datePart arrow)
    {spec : PartitionSpec} (hspec : cat.getPartitionSpec snapshot = some spec) (hsafe : spec.pruneSafe = true)
    {key : PartitionSpecColumn} (hkey : key ∈ spec.columns) (hfile : file ∈ cat.files)
    {v : Nat × Option Text} (hv : v ∈ file.partitionValues) (hindex : v.1 = key.partitionKeyIndex)
    {row : StoredRow} (hrow : row ∈ file.rows) :
    ∃ w, transformScalar datePart key.transform (row key.columnId) = some w ∧ RecordsKey fmt arrow w v.2 := by
  unfold PartitionCatalog.getPartitionSpec at hspec
  split at hspec
  · cases hspec
  · next first rest hrows =>
    cases hspec
    obtain ⟨c, hc, rfl⟩ := List.mem_map.mp hkey
    rw [← hrows] at hc
    obtain ⟨hcolumn, i, hi, hid⟩ := mem_specRows hc
    have hwritten := hinv.written file hfile
    unfold PartitionedFile.WrittenUnder at hwritten
    split at hwritten
    · rw [hwritten] at hv
      exact absurd hv List.not_mem_nil
    · next pid hpid =>
      -- the file's generation and the specification's are the only one there is
      obtain ⟨j, hj, hjd⟩ := hinv.known file hfile pid hpid
      obtain ⟨only, honly⟩ := List.length_eq_one_iff.mp (beq_iff_eq.mp hsafe)
      rw [honly, List.mem_singleton] at hi hj
      refine hwritten v hv c hcolumn ?_ hindex.symm row hrow
      rw [← hid, ← hjd, hi, hj]

end Histories

/-! ## Canonical texts -/

theorem eq_intText_of_digits {t : Text} (hd : t.all Char.isDigit = true) (hne : t ≠ [])
    (hlead : t.head? = some '0' → t = ['0']) : t = intText (Numeral.value t : Int) := by
  unfold intText digits
  rw [if_neg (by omega), Int.natAbs_natCast, Numeral.toDigits_value hd hne hlead]

theorem not_leading_zero {t : Text} (h : Like.like '\\' "0_%".toList t = false) :
    t.head? = some '0' → t = ['0'] := by
  intro hhead
  obtain ⟨rest, rfl⟩ := List.head?_eq_some_iff.mp hhead
  cases rest with
  | nil => rfl
  | cons c rest =>
    have : Like.like '\\' "0_%".toList ('0' :: c :: rest) = true := by
      show Like.matchTokens [.lit '0', .one, .any] ('0' :: c :: rest) = true
      simp [Like.matchTokens]
    rw [this] at h
    cases h

theorem not_minus_zero {t : Text} (h : Like.like '\\' "-0%".toList ('-' :: t) = false) : t.head? ≠ some '0' := by
  intro hhead
  obtain ⟨rest, rfl⟩ := List.head?_eq_some_iff.mp hhead
  have : Like.like '\\' "-0%".toList ('-' :: '0' :: rest) = true := by
    show Like.matchTokens (Like.lits ['-', '0'] ++ [.any]) ('-' :: '0' :: rest) = true
    rw [Like.matchTokens_leading]
    exact ⟨rest, rfl⟩
  rw [this] at h
  cases h

/-- Every engine's test accepts the encoder's spellings only. -/
theorem eq_intText_of_canonical {engine : Engine} {t : Text} (h : engine.canonicalIntegerText t = true) :
    ∃ n, t = intText n := by
  have hpattern (h : (matchesInteger t && !Like.like '\\' "0_%".toList t && !Like.like '\\' "-0%".toList t) = true) :
      ∃ n, t = intText n := by
    simp only [Bool.and_eq_true, Bool.not_eq_true'] at h
    obtain ⟨⟨hmatch, hzero⟩, hminus⟩ := h
    unfold matchesInteger at hmatch
    split at hmatch
    · next t =>
      simp only [Bool.and_eq_true, Bool.not_eq_true', List.isEmpty_eq_false_iff] at hmatch
      have hhead := not_minus_zero hminus
      have hdigits := Numeral.toDigits_value hmatch.2 hmatch.1 (fun h => absurd h hhead)
      have hpos : 0 < Numeral.value t := by
        by_contra hz
        rw [show Numeral.value t = 0 by omega] at hdigits
        rw [← hdigits] at hhead
        exact hhead rfl
      refine ⟨-(Numeral.value t : Int), ?_⟩
      unfold intText digits
      rw [if_pos (by omega), Int.natAbs_neg, Int.natAbs_natCast, hdigits]
    · simp only [Bool.and_eq_true, Bool.not_eq_true', List.isEmpty_eq_false_iff] at hmatch
      exact ⟨_, eq_intText_of_digits hmatch.2 hmatch.1 (not_leading_zero hzero)⟩
  cases engine with
  | sqlite => exact ⟨_, beq_iff_eq.mp h⟩
  | duckdb => exact hpattern h
  | postgres => exact hpattern h
  | mysql => exact hpattern h

/-! ## The pre-filter and a recorded value -/

section Excludes
variable {fmt : FloatText} {arrow : ArrowParser}

theorem new_text {c : ScalarValue} {literal : StatsLiteral} (h : StatsLiteral.new fmt c = some literal) :
    literal.partitionMatch = partitionTextFor c.dataType ∧ encodeScalar fmt c = some literal.text := by
  unfold StatsLiteral.new at h
  split at h
  · cases h
  split at h
  · cases h
  split at h
  · cases h
  split at h
  · cases h
  · next text henc =>
    split at h
    · cases h
    · cases h
      exact ⟨rfl, henc⟩

theorem string_of_exact {v : ScalarValue} (h : partitionTextFor v.dataType = some .exact)
    (hnull : v.isNull = false) : ∃ t s, v = .string t s := by
  cases v <;> simp_all [ScalarValue.dataType, partitionTextFor, ScalarValue.isNull]

theorem integer_of_canonical {v : ScalarValue} (h : partitionTextFor v.dataType = some .canonicalInteger)
    (hnull : v.isNull = false) : ∃ t n, v = .integer t n := by
  cases v <;> simp_all [ScalarValue.dataType, partitionTextFor, ScalarValue.isNull]

theorem isNull_of_compare {a b : ScalarValue} {o : Ordering} (h : compareScalars a b = some o) :
    a.isNull = false ∧ b.isNull = false := by
  cases a <;> cases b <;> simp_all [compareScalars, ScalarValue.isNull]

/-- The recorded value of a row is not excluded by constants that include the row's value. -/
theorem not_excludes (harrow : ReadsIntegers arrow) (engine : Engine) {stored v c : ScalarValue}
    (hpromoted : Promoted stored v) {literal : StatsLiteral} (hnew : StatsLiteral.new fmt c = some literal)
    (hcompare : compareScalars v c = some .eq) {kind : PartitionTextMatch}
    (hkind : partitionTextFor v.dataType = some kind) (hmatch : literal.partitionMatch = some kind)
    {p : PartitionPrefilter} (hmem : literal ∈ p.values) {recorded : Option Text}
    (hrecorded : RecordsKey fmt arrow stored recorded) : excludes engine p recorded = false := by
  cases recorded with
  | none => rfl
  | some text =>
    obtain ⟨hpm, henc⟩ := new_text hnew
    obtain ⟨hvnull, hcnull⟩ := isNull_of_compare hcompare
    rw [hpm] at hmatch
    have hlisted (heq : text = literal.text) : excludes engine p (some text) = false := by
      have : (p.values.map (·.text)).contains text = true := by
        rw [List.contains_iff_mem, heq]
        exact List.mem_map_of_mem hmem
      simp only [excludes, this, Bool.not_true, Bool.false_and]
    cases kind with
    | exact =>
      obtain ⟨t, s, rfl⟩ := string_of_exact hkind hvnull
      obtain ⟨t', s', rfl⟩ := string_of_exact hmatch hcnull
      have hs : s = s' := by simpa [compareScalars, order_eq] using hcompare
      have htext : literal.text = s' := by
        simp only [encodeScalar] at henc
        split at henc
        · exact (Option.some.inj henc).symm
        · cases henc
      cases hpromoted
      apply hlisted
      rw [htext, ← hs]
      rcases hrecorded.2 with h | h
      · exact (Option.some.inj h).symm
      · simp only [ScalarValue.dataType, parseDucklakeScalar, Option.some.injEq, ScalarValue.string.injEq,
          true_and] at h
        exact h
    | canonicalInteger =>
      obtain ⟨t, n, rfl⟩ := integer_of_canonical hkind hvnull
      obtain ⟨t', n', rfl⟩ := integer_of_canonical hmatch hcnull
      have hn : n = n' := by simpa [compareScalars, order_eq] using hcompare
      have htext : literal.text = intText n := by
        rw [hn]
        exact (Option.some.inj henc).symm
      obtain ⟨t₀, rfl⟩ : ∃ t₀, stored = .integer t₀ n := by
        cases hpromoted with
        | same => exact ⟨t, rfl⟩
        | integer n h => exact ⟨_, rfl⟩
      rcases hrecorded.2 with h | h
      · exact hlisted (htext ▸ (Option.some.inj h).symm)
      · by_cases hcanonical : engine.canonicalIntegerText text = true
        · obtain ⟨m, rfl⟩ := eq_intText_of_canonical hcanonical
          have hm := harrow t₀ m _ h
          simp only [ScalarValue.integer.injEq, true_and] at hm
          exact hlisted (by rw [htext, hm])
        · -- another spelling, which only a proven canonical one may refute
          have hany : (p.values.any fun l => l.partitionMatch == some .canonicalInteger) = true :=
            List.any_eq_true.mpr ⟨literal, hmem, by rw [hpm, hmatch]; rfl⟩
          simp only [excludes, hany, Bool.not_true, Bool.false_or, Bool.not_eq_true _ ▸ hcanonical, Bool.and_false]

end Excludes

/-- The pre-filters of a scan: those of its lowered predicate. -/
def scanPrefilters (fmt : FloatText) (schema : List DataType) (columns : List Nat) (predicate : PhysicalExpr)
    (spec : Option PartitionSpec) : List PartitionPrefilter :=
  match lowerPredicate fmt schema columns predicate with
  | none => []
  | some filter => withPartitionPrefilters filter spec

theorem mem_withPartitionPrefilters {filter : List StatsColumnFilter} {spec : Option PartitionSpec}
    {p : PartitionPrefilter} (h : p ∈ withPartitionPrefilters filter spec) :
    ∃ s, spec = some s ∧ s.pruneSafe = true ∧ ∃ key ∈ s.columns, keyPrefilter filter key = some p := by
  unfold withPartitionPrefilters at h
  split at h
  · exact absurd h List.not_mem_nil
  · next s =>
    split at h
    · next hsafe =>
      obtain ⟨key, hkey, hp⟩ := List.mem_filterMap.mp h
      exact ⟨s, rfl, hsafe, key, hkey, hp⟩
    · exact absurd h List.not_mem_nil

theorem keyPrefilter_eq_some {filter : List StatsColumnFilter} {key : PartitionSpecColumn} {p : PartitionPrefilter}
    (h : keyPrefilter filter key = some p) :
    key.transform = .identity ∧ p.partitionKeyIndex = key.partitionKeyIndex ∧
      ∃ column ∈ filter, column.columnId = key.columnId ∧ equalityValues column.condition = some p.values ∧
        ∃ kind, column.partitionText = some kind ∧ ∀ literal ∈ p.values, literal.partitionMatch = some kind := by
  unfold keyPrefilter at h
  split at h
  · next hidentity =>
    simp only [Option.bind_eq_bind, Option.bind_eq_some_iff] at h
    obtain ⟨column, hfind, values, hvalues, kind, hkind, h⟩ := h
    split at h
    · next hall =>
      cases h
      refine ⟨hidentity, rfl, column, List.mem_of_find?_eq_some hfind, ?_, hvalues, kind, hkind, ?_⟩
      · simpa using List.find?_some hfind
      · intro literal hl
        exact beq_iff_eq.mp (List.all_eq_true.mp hall literal hl)
    · cases h
  · cases h

/-- Partition pre-filtering keeps every file with a row that satisfies the predicate, at
every snapshot of every history of specifications, on every catalog engine. -/
theorem partition_prefilter_keeps_file (fmt : FloatText) (datePart : DatePart) (arrow : ArrowParser)
    (harrow : ReadsIntegers arrow) (fn : Functions) (engine : Engine)
    (schema : List DataType) (columns : List Nat) (predicate : PhysicalExpr)
    (cat : PartitionCatalog) (hreach : Reachable fmt datePart arrow cat) (snapshot : Nat)
    (file : PartitionedFile) (hfile : file ∈ cat.files) (stored : StoredRow) (hstored : stored ∈ file.rows)
    (row : StoredRow) (hrow : ∀ id, Promoted (stored id) (row id)) (htyped : Typed schema columns row)
    (hsat : predicate.Satisfied fn (readRow columns row)) :
    passesPrefilters engine (scanPrefilters fmt schema columns predicate (cat.getPartitionSpec snapshot))
      file.partitionValues = true := by
  unfold passesPrefilters
  rw [List.all_eq_true]
  intro p hp
  have hp := (List.mem_filter.mp hp).1
  unfold scanPrefilters at hp
  split at hp
  · exact absurd hp List.not_mem_nil
  · next filter hfilter =>
    obtain ⟨spec, hspec, hsafe, key, hkey, hprefilter⟩ := mem_withPartitionPrefilters hp
    obtain ⟨hidentity, hindex, column, hcolumn, hid, hvalues, kind, hkind, hmatch⟩ := keyPrefilter_eq_some hprefilter
    obtain ⟨hnames, hspelled⟩ := filter_names fn hfilter htyped hsat hcolumn
    obtain ⟨literal, hl, c, hnew, hcompare⟩ := hnames p.values hvalues
    rw [hid] at hcompare hspelled
    simp only [Bool.not_eq_true', List.any_eq_false, Bool.and_eq_true, beq_iff_eq, not_and, Bool.not_eq_true]
    intro v hv hvi
    obtain ⟨w, hw, hrecorded⟩ :=
      recorded_of_pruneSafe hreach.inv hspec hsafe hkey hfile hv (hvi.trans hindex) hstored
    rw [hidentity] at hw
    cases hw
    exact not_excludes harrow engine (hrow key.columnId) hnew hcompare (hspelled kind hkind) (hmatch literal hl) hl
      hrecorded

/-- A parser that reads integers, signed and with leading zeros, and nothing else. -/
def integerParser : ArrowParser
  | .integer t, text => (Numeral.parseInt text).map (.integer t)
  | _, _ => none

theorem integerParser_reads : ReadsIntegers integerParser := by
  intro t n v h
  simp only [integerParser, parseInt_intText, Option.map_some, Option.some.injEq] at h
  exact h.symm

/-- One row with the value 5, recorded as `05`. -/
def sampleFile : PartitionedFile := ⟨some 0, [(0, some "05".toList)], [fun _ => .integer .int32 5]⟩

def sampleCatalog : PartitionCatalog :=
  ⟨2, 1, [⟨⟨1, none⟩, 0⟩], [⟨⟨0, 7, .identity⟩, 0⟩], [sampleFile]⟩

theorem sampleCatalog_reachable (fmt : FloatText) (datePart : DatePart) :
    Reachable fmt datePart integerParser sampleCatalog := by
  have hset : Step fmt datePart integerParser ⟨0, 0, [], [], []⟩
      ⟨1, 1, [⟨⟨1, none⟩, 0⟩], [⟨⟨0, 7, .identity⟩, 0⟩], []⟩ :=
    @Step.set _ _ _ _ _ [(7, .identity)] rfl
  have hregister : Step fmt datePart integerParser ⟨1, 1, [⟨⟨1, none⟩, 0⟩], [⟨⟨0, 7, .identity⟩, 0⟩], []⟩
      sampleCatalog := by
    refine @Step.register _ _ _ _ sampleFile rfl ?_
    intro v hv c hc _ _ row hrow
    rw [List.mem_singleton.mp hv, List.mem_singleton.mp hc, List.mem_singleton.mp hrow]
    exact ⟨_, rfl, rfl, .inr rfl⟩
  exact ⟨0, 0, .tail (.single hset) hregister⟩

/-- `id = 5` on the one partitioned column. -/
def samplePredicate : PhysicalExpr := .binary (.column 0) .eq (.literal (.integer .int64 5))

theorem sampleFile_passes :
    passesPrefilters .duckdb (scanPrefilters noFloats [.integer .int32] [7] samplePredicate
      (sampleCatalog.getPartitionSpec 2)) sampleFile.partitionValues = true := by
  refine partition_prefilter_keeps_file noFloats (fun _ _ => none) integerParser integerParser_reads
    (fun _ _ => .null .boolean) .duckdb _ _ _ sampleCatalog (sampleCatalog_reachable _ _) 2 sampleFile
    (List.mem_singleton_self _) (fun _ => .integer .int32 5) (List.mem_singleton_self _) (fun _ => .integer .int32 5)
    (fun _ => .same _) ?_ ?_
  · intro i type id htype _
    match i, htype with
    | 0, htype => exact Option.some.inj htype
  · rfl

end DuckLake.Partition
