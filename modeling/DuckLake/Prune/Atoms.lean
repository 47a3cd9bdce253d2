import DuckLake.Prune.Bounds

/- Sound statistics, and one comparison against them.

   A file's statistics are sound when the recorded bounds cover every non-NULL,
   non-NaN value of the column and the recorded counts and NaN flag are right;
   any of them, or the whole row, may be missing. For such statistics the SQL a
   single comparison renders to is not false of a file one of whose rows
   satisfies the comparison: `within_possible` for `=` and `IN`,
   `notEvery_possible` for `<>`, `lower_possible` for `<` and `<=`,
   `upper_possible` for `>` and `>=`.

   Assumed, as `Dialect.Faithful`: a guarded conversion yields the value its text
   spells, or NULL. -/

namespace DuckLake.Prune

open Kleene

/-! ## Sound statistics -/

variable (fmt : FloatText)

/-- A text the catalog records for the bound `v`. A string bound is its own text,
also where the writer shortened it. -/
def Spells (t : Text) (v : ScalarValue) : Prop :=
  encodeScalar fmt v = some t ∨ encodeFileStat fmt v = some t ∨ ∃ st, v = .string st t

/-- A guarded conversion that does not round: an integer is read from texts without a point
only, and a decimal at no smaller scale. -/
def exactCast (source target : DataType) : Bool :=
  source == target ||
    match source, target with
    | .integer _, .integer _ | .decimal128 _ _, .integer _ => true
    | .integer _, .decimal128 _ scale => decide (0 ≤ scale)
    | .decimal128 _ sourceScale, .decimal128 _ scale => decide (sourceScale ≤ scale)
    | _, _ => false

/-- A guarded conversion yields the value its text spells, or NULL. The text of a
single-precision float, read as a double, is some double that rounds to it. -/
structure Dialect.Faithful (D : Dialect) : Prop where
  exact : ∀ literal target conversion t v, D.tryCast literal target = some conversion →
    Spells fmt t v → exactCast v.dataType target = true → conversion t = none ∨ conversion t = sqlOf v
  single : ∀ literal conversion t x, D.tryCast literal .float64 = some conversion →
    Spells fmt t (.float32 x) → x.isNaN = false →
    conversion t = none ∨ ∃ d, conversion t = some (.double d) ∧ readsAs x d

/-- `t` is recorded as a bound below every value the statistics cover. -/
def LowBound (type : DataType) (values : List ScalarValue) (t : Text) : Prop :=
  ∃ m : ScalarValue, m.dataType = type ∧ m.isNaN = false ∧ Spells fmt t m ∧
    ∀ v ∈ values, v.isNull = false → v.isNaN = false → boundLe m v

/-- `t` is recorded as a bound above every value the statistics cover. -/
def HighBound (type : DataType) (values : List ScalarValue) (t : Text) : Prop :=
  ∃ m : ScalarValue, m.dataType = type ∧ m.isNaN = false ∧ Spells fmt t m ∧
    ∀ v ∈ values, v.isNull = false → v.isNaN = false → boundLe v m

structure StatsRow.Sound (r : StatsRow) (type : DataType) (values : List ScalarValue) : Prop where
  min : ∀ t, r.minValue = some t → LowBound fmt type values t
  max : ∀ t, r.maxValue = some t → HighBound fmt type values t
  nulls : ∀ n, r.nullCount = some n → n = values.countP ScalarValue.isNull
  nonNulls : ∀ n, r.valueCount = some n → n = values.countP fun v => !v.isNull
  nan : ∀ b, r.containsNan = some b → b = values.any ScalarValue.isNaN

/-- A data file: its rows and its statistics by column id. -/
structure DataFile where
  rows : List Row
  stats : FileStats

/-- Every row has the schema's types and every recorded statistic is right. -/
def DataFile.Sound (schema : List DataType) (columns : List Nat) (file : DataFile) : Prop :=
  ∀ i type id, schema[i]? = some type → columns[i]? = some id →
    (∀ row ∈ file.rows, (row i).dataType = type) ∧
      ∀ r, file.stats id = some r → r.Sound fmt type (file.rows.map (· i))

/-! ## Literals -/

/-- What a literal admitted for a column is. -/
structure StatsLiteral.Admitted (literal : StatsLiteral) (value : ScalarValue) (columnType : DataType) :
    Prop where
  value_eq : literal.value = value
  cast_eq : literal.cast =
    if requiresValueComparison value.dataType then some (castTarget value.dataType) else none
  window_eq : literal.window = FloatWindow.of value
  notNull : value.isNull = false
  notBinary : isBinaryType value.dataType = false
  finite : isFloatValue value = true → rendersUnquoted value = true
  encoded : (encodeScalar fmt value).isSome = true
  comparable : comparableTypes value.dataType columnType = true

variable {fmt}

variable {literal : StatsLiteral} {columnType : DataType} {o : Ordering} {term : SqlTerm} {r : StatsRow}

theorem forColumn_admitted {value : ScalarValue} (h : StatsLiteral.forColumn fmt value columnType = some literal) :
    literal.Admitted fmt value columnType := by
  unfold StatsLiteral.forColumn at h
  split at h
  · rename_i hcomp
    unfold StatsLiteral.new at h
    split at h
    · cases h
    split at h
    · cases h
    split at h
    · cases h
    rename_i hnull hbin hfin
    split at h
    · cases h
    rename_i text henc
    split at h
    · cases h
    cases h
    exact ⟨rfl, rfl, rfl, by simpa using hnull, by simpa using hbin,
      fun hf => by simpa [hf] using hfin, by simp [henc], hcomp⟩
  · cases h

theorem exactConstant_of_window_none {value : ScalarValue}
    (h : literal.Admitted fmt value columnType) (hw : FloatWindow.of value = none) : ExactConstant value := by
  cases value with
  | float16 v =>
    have := h.encoded
    simp [encodeScalar] at this
  | float32 v =>
    have hfin : v.isFinite = true := by
      have := h.finite rfl
      simpa [rendersUnquoted, ScalarValue.dataType, DataType.isNumeric] using this
    rw [window_float32 hfin] at hw
    cases hw
  | float64 v =>
    intro hz
    simp [FloatWindow.of, Ieee.Fp.isZero, hz] at hw
  | binary t bytes =>
    have := h.notBinary
    simp [ScalarValue.dataType, isBinaryType] at this
  | _ => trivial

/-! ## One comparison -/

/-- The types of a comparison a kernel makes convert without rounding. -/
theorem exactCast_of_compare {x c : ScalarValue} (h : compareScalars x c = some o)
    (hreq : requiresValueComparison c.dataType = true) (hcomp : comparableTypes c.dataType x.dataType = true)
    (hx : x.dataType ≠ .float32) : exactCast x.dataType (castTarget c.dataType) = true := by
  cases x <;> cases c <;> simp only [compareScalars, reduceCtorEq] at h
  case decimal128.decimal128 a p s b q r =>
    simp only [ScalarValue.dataType, comparableTypes, exactCast, castTarget, Bool.or_eq_true, Bool.and_eq_true,
      decide_eq_true_eq] at hcomp ⊢
    rcases hcomp with heq | ⟨-, hscale⟩
    · exact .inl (beq_iff_eq.mpr (beq_iff_eq.mp heq).symm)
    · exact .inr hscale
  all_goals
    simp_all [ScalarValue.dataType, exactCast, castTarget, requiresValueComparison, DataType.isNumeric,
      DataType.isTemporal]

theorem string_of_not_requires {x c : ScalarValue}
    (ha : literal.Admitted fmt c columnType) (h : compareScalars x c = some o)
    (hreq : requiresValueComparison c.dataType = false) : ∃ st s, x = .string st s := by
  have henc := ha.encoded
  cases c <;> simp_all [ScalarValue.dataType, requiresValueComparison, DataType.isNumeric,
    DataType.isTemporal, encodeScalar]
  case string st s =>
    cases x <;> simp [compareScalars] at h
    exact ⟨_, _, rfl⟩

theorem spells_string {t s : Text} {st : StringType} (h : Spells fmt t (.string st s)) : t = s := by
  rcases h with h | h | ⟨st', h⟩
  · simp only [encodeScalar] at h
    split at h
    · exact (Option.some.inj h).symm
    · cases h
  · simp only [encodeFileStat, encodeScalar] at h
    split at h
    · exact (Option.some.inj h).symm
    · cases h
  · cases h
    rfl

variable {D : Dialect}

/-- The converted bound reads as a faithful reading of the value its text spells. -/
theorem convert_reading (hD : D.Faithful fmt) {c x m : ScalarValue} {stat : StatKind} {t : Text}
    (ha : literal.Admitted fmt c columnType) (hconv : literal.convert D stat = some term)
    (hcmp : compareScalars x c = some o) (hx : x.dataType = columnType) (hm : m.dataType = x.dataType)
    (hnan : m.isNaN = false) (hsql : (sqlOf m).isSome = true) (hsp : Spells fmt t m) (ht : r.bound stat = some t) :
    Reading m (term.eval (some r)) := by
  unfold StatsLiteral.convert at hconv
  rw [ha.cast_eq] at hconv
  by_cases hreq : requiresValueComparison c.dataType = true
  · rw [if_pos hreq] at hconv
    obtain ⟨f, hf, rfl⟩ := Option.map_eq_some_iff.1 hconv
    have heval : SqlTerm.eval (some r) (.converted stat f) = f t := by simp [SqlTerm.eval, ht]
    rw [heval]
    cases hmx : m with
    | float32 y =>
      subst hmx
      have hc : castTarget c.dataType = .float64 := by
        cases x <;> simp only [ScalarValue.dataType, reduceCtorEq] at hm
        case null u => cases c <;> simp [compareScalars] at hcmp
        case float32 z =>
          cases c <;> simp only [compareScalars, reduceCtorEq] at hcmp
          rfl
      rw [hc] at hf
      exact hD.single _ _ _ _ hf hsp hnan
    | _ =>
      subst hmx
      refine hD.exact _ _ _ _ _ hf hsp ?_
      rw [hm]
      refine exactCast_of_compare hcmp hreq (hx ▸ ha.comparable) ?_
      rw [← hm]
      first | simp [ScalarValue.dataType]; done | simp [sqlOf] at hsql
  · rw [if_neg hreq] at hconv
    cases hconv
    obtain ⟨st, s, rfl⟩ := string_of_not_requires ha hcmp (by simpa using hreq)
    cases m <;> simp only [ScalarValue.dataType, reduceCtorEq] at hm
    case null u => simp [sqlOf] at hsql
    case string st' s' =>
      right
      simp [SqlTerm.eval, ht, sqlOf, spells_string hsp]

theorem convert_null {stat : StatKind} (hconv : literal.convert D stat = some term) (ht : r.bound stat = none) :
    term.eval (some r) = none := by
  unfold StatsLiteral.convert at hconv
  split at hconv
  · obtain ⟨f, -, rfl⟩ := Option.map_eq_some_iff.1 hconv
    simp [SqlTerm.eval, ht]
  · cases hconv
    simp [SqlTerm.eval, ht]

theorem convert_low (hD : D.Faithful fmt) {c x : ScalarValue} {values : List ScalarValue}
    (ha : literal.Admitted fmt c columnType) (hconv : literal.convert D .minValue = some term)
    (hcmp : compareScalars x c = some o) (hx : x.dataType = columnType) (hmem : x ∈ values)
    (hnull : x.isNull = false) (hnan : x.isNaN = false) (hr : r.Sound fmt columnType values) :
    LowReading x (term.eval (some r)) := by
  cases ht : r.minValue with
  | none => exact Or.inl (convert_null hconv ht)
  | some t =>
    obtain ⟨m, hm, hmn, hsp, hle⟩ := hr.min t ht
    have hb := hle x hmem hnull hnan
    refine Or.inr ⟨m, hm.trans hx.symm, hmn, hb, ?_⟩
    obtain ⟨a, b, hma, -, -⟩ := hb
    exact convert_reading hD ha hconv hcmp hx (hm.trans hx.symm) hmn (by simp [hma]) hsp ht

theorem convert_high (hD : D.Faithful fmt) {c x : ScalarValue} {values : List ScalarValue}
    (ha : literal.Admitted fmt c columnType) (hconv : literal.convert D .maxValue = some term)
    (hcmp : compareScalars x c = some o) (hx : x.dataType = columnType) (hmem : x ∈ values)
    (hnull : x.isNull = false) (hnan : x.isNaN = false) (hr : r.Sound fmt columnType values) :
    HighReading x (term.eval (some r)) := by
  cases ht : r.maxValue with
  | none => exact Or.inl (convert_null hconv ht)
  | some t =>
    obtain ⟨m, hm, hmn, hsp, hle⟩ := hr.max t ht
    have hb := hle x hmem hnull hnan
    refine Or.inr ⟨m, hm.trans hx.symm, hmn, hb, ?_⟩
    obtain ⟨a, b, -, hmb, -⟩ := hb
    exact convert_reading hD ha hconv hcmp hx (hm.trans hx.symm) hmn (by simp [hmb]) hsp ht

/-- A comparison is possible when a side is NULL or the values answer it. -/
theorem possible_sqlCompare {op : SqlOp} {a : Option SqlVal} {t : SqlVal}
    (h : a = none ∨ ∃ s o, a = some s ∧ compareSql s t = some o ∧ op.admits o = true) :
    Possible (sqlCompare op a (some t)) := by
  rcases h with rfl | ⟨s, o, rfl, ho, hop⟩
  · simp [sqlCompare]
  · simp [sqlCompare, ho, hop]

theorem possible_le_edge {b : Option SqlVal} {e : Int}
    (h : b = none ∨ ∃ d, b = some (.double d) ∧ d ≤ e) :
    Possible (sqlCompare .ltEq b (some (.double e))) := by
  apply possible_sqlCompare
  rcases h with h | ⟨d, hd, hle⟩
  · exact Or.inl h
  · refine Or.inr ⟨_, _, hd, rfl, ?_⟩
    simp only [SqlOp.admits, bne_iff_ne, ne_eq, order_gt]
    omega

theorem possible_ge_edge {b : Option SqlVal} {e : Int}
    (h : b = none ∨ ∃ d, b = some (.double d) ∧ e ≤ d) :
    Possible (sqlCompare .gtEq b (some (.double e))) := by
  apply possible_sqlCompare
  rcases h with h | ⟨d, hd, hle⟩
  · exact Or.inl h
  · refine Or.inr ⟨_, _, hd, rfl, ?_⟩
    simp only [SqlOp.admits, bne_iff_ne, ne_eq, order_lt]
    omega

theorem sqlCompare_ne_true {op : SqlOp} {a : Option SqlVal} {t : SqlVal}
    (h : a = none ∨ ∃ s o, a = some s ∧ compareSql s t = some o ∧ op.admits o = false) :
    sqlCompare op a (some t) ≠ some true := by
  rcases h with rfl | ⟨s, o, rfl, ho, hop⟩
  · simp [sqlCompare]
  · simp [sqlCompare, ho, hop]

theorem admits_of_sqlLe {s t : SqlVal} (h : SqlLe s t) :
    ∃ o, compareSql s t = some o ∧ SqlOp.admits .ltEq o = true := by
  rcases h with h | h
  · exact ⟨_, h, rfl⟩
  · exact ⟨_, h, rfl⟩

theorem admits_of_sqlLe' {s t : SqlVal} (h : SqlLe t s) :
    ∃ o, compareSql s t = some o ∧ SqlOp.admits .gtEq o = true := by
  rcases h with h | h
  · exact ⟨.gt, compareSql_gt.2 h, rfl⟩
  · refine ⟨.eq, ?_, rfl⟩
    rw [compareSql_swap, h]
    rfl

section Atoms
variable {literal : StatsLiteral} {c x : ScalarValue} {columnType : DataType} {o : Ordering}
  {r : StatsRow} {min max : SqlTerm} {q : SqlExpr}

variable (ha : literal.Admitted fmt c columnType)
include ha

theorem render_some {f : SqlTerm → SqlExpr} (h : literal.render.map f = some q) :
    ∃ t, sqlOf c = some t ∧ q = f (.value t) := by
  rw [StatsLiteral.render, ha.value_eq, Option.map_map] at h
  obtain ⟨t, ht, rfl⟩ := Option.map_eq_some_iff.1 h
  exact ⟨t, ht, rfl⟩

theorem within_possible (hcmp : compareScalars x c = some .eq)
    (hmin : LowReading x (min.eval (some r))) (hmax : HighReading x (max.eval (some r)))
    (hq : renderWithin literal min max = some q) : Possible (q.eval (some r)) := by
  unfold renderWithin at hq
  rw [ha.window_eq] at hq
  cases hw : FloatWindow.of c with
  | some w =>
    rw [hw] at hq
    cases hq
    simp only [SqlExpr.eval, evalParts, conj_cons, conj_nil, possible_and, possible_true, and_true]
    refine ⟨possible_le_edge ?_, possible_ge_edge ?_⟩
    · exact (window_low hw hcmp hmin).imp_right (Exists.imp fun d => And.imp_right (·.within (by decide)))
    · exact (window_high hw hcmp hmax).imp_right (Exists.imp fun d => And.imp_right (·.within (by decide)))
  | none =>
    rw [hw] at hq
    obtain ⟨t, ht, rfl⟩ := render_some ha hq
    have hc := exactConstant_of_window_none ha hw
    simp only [SqlExpr.eval, possible_and]
    constructor
    · apply possible_sqlCompare
      rcases exact_low hc ht hcmp hmin with h | ⟨s, hs, -, hle⟩
      · exact Or.inl h
      · obtain ⟨o, ho, hop⟩ := admits_of_sqlLe (hle (by decide))
        exact Or.inr ⟨s, o, hs, ho, hop⟩
    · -- the upper bound stands on the right here
      rcases exact_high hc ht hcmp hmax with h | ⟨s, hs, -, hle⟩
      · simp [sqlCompare, h]
      · obtain ⟨o, ho, hop⟩ := admits_of_sqlLe (hle (by decide))
        rw [hs]
        exact possible_sqlCompare (Or.inr ⟨t, o, rfl, ho, hop⟩)

theorem notEvery_possible (hcmp : compareScalars x c = some o)
    (ho : o ≠ .eq) (hz : ¬ literal.window.any (·.zero) = true)
    (hmin : LowReading x (min.eval (some r))) (hmax : HighReading x (max.eval (some r)))
    (hq : renderNotEvery literal min max = some q) : Possible (q.eval (some r)) := by
  unfold renderNotEvery at hq
  rw [ha.window_eq] at hq hz
  have split_and {p p' : Kleene.Truth} (h : p ≠ some true ∨ p' ≠ some true) :
      Possible (Kleene.not (conj [p, p'])) := by
    rw [possible_not]
    intro hc
    rw [conj_cons, conj_cons, conj_nil, and_eq_true, and_eq_true] at hc
    rcases h with h | h
    · exact h hc.1
    · exact h hc.2.1
  cases hw : FloatWindow.of c with
  | some w =>
    rw [hw] at hq hz
    have hzero : w.zero = false := by simpa using hz
    cases hq
    apply split_and
    cases o with
    | lt =>
      left
      apply sqlCompare_ne_true
      rcases window_low hw hcmp hmin with h | ⟨d, hd, h⟩
      · exact Or.inl h
      · refine Or.inr ⟨_, _, hd, rfl, ?_⟩
        have := h.strict rfl hzero
        simp only [SqlOp.admits, beq_eq_false_iff_ne, ne_eq, order_gt]
        omega
    | gt =>
      right
      apply sqlCompare_ne_true
      rcases window_high hw hcmp hmax with h | ⟨d, hd, h⟩
      · exact Or.inl h
      · refine Or.inr ⟨_, _, hd, rfl, ?_⟩
        have := h.strict rfl hzero
        simp only [SqlOp.admits, beq_eq_false_iff_ne, ne_eq, order_lt]
        omega
    | eq => exact absurd rfl ho
  | none =>
    rw [hw] at hq
    obtain ⟨t, ht, rfl⟩ := render_some ha hq
    have hc := exactConstant_of_window_none ha hw
    apply split_and
    cases o with
    | lt =>
      left
      apply sqlCompare_ne_true
      rcases exact_low hc ht hcmp hmin with h | ⟨s, hs, hlt, -⟩
      · exact Or.inl h
      · exact Or.inr ⟨s, _, hs, hlt rfl, rfl⟩
    | gt =>
      right
      apply sqlCompare_ne_true
      rcases exact_high hc ht hcmp hmax with h | ⟨s, hs, hgt, -⟩
      · exact Or.inl h
      · exact Or.inr ⟨s, _, hs, hgt rfl, rfl⟩
    | eq => exact absurd rfl ho

theorem lower_possible (hcmp : compareScalars x c = some o)
    {op : BoundOp} (hop : op = .lt ∧ o = .lt ∨ op = .ltEq ∧ o ≠ .gt)
    (hmin : LowReading x (min.eval (some r))) (hq : renderBound literal op min = some q) :
    Possible (q.eval (some r)) := by
  have hgt : o ≠ .gt := by
    rcases hop with ⟨-, rfl⟩ | ⟨-, h⟩
    · decide
    · exact h
  unfold renderBound at hq
  rw [ha.window_eq] at hq
  cases hw : FloatWindow.of c with
  | some w =>
    rw [hw] at hq
    have hlow := window_low hw hcmp hmin
    have hhi : Possible (sqlCompare .ltEq (min.eval (some r)) (some (.double w.hi))) :=
      possible_le_edge (hlow.imp_right fun ⟨d, hd, h⟩ => ⟨d, hd, h.within hgt⟩)
    rcases hop with ⟨rfl, rfl⟩ | ⟨rfl, -⟩
    · cases hq
      cases hz : w.zero with
      | true => exact hhi
      | false => exact possible_le_edge (hlow.imp_right fun ⟨d, hd, h⟩ => ⟨d, hd, h.strict rfl hz⟩)
    · cases hq
      exact hhi
  | none =>
    rw [hw] at hq
    obtain ⟨t, ht, rfl⟩ := render_some ha hq
    apply possible_sqlCompare
    rcases exact_low (exactConstant_of_window_none ha hw) ht hcmp hmin with h | ⟨s, hs, hlt, hle⟩
    · exact Or.inl h
    · rcases hop with ⟨rfl, rfl⟩ | ⟨rfl, -⟩
      · exact Or.inr ⟨s, _, hs, hlt rfl, rfl⟩
      · obtain ⟨o, ho, hop⟩ := admits_of_sqlLe (hle hgt)
        exact Or.inr ⟨s, o, hs, ho, hop⟩

theorem upper_possible (hcmp : compareScalars x c = some o)
    {op : BoundOp} (hop : op = .gt ∧ o = .gt ∨ op = .gtEq ∧ o ≠ .lt)
    (hmax : HighReading x (max.eval (some r))) (hq : renderBound literal op max = some q) :
    Possible (q.eval (some r)) := by
  have hlt : o ≠ .lt := by
    rcases hop with ⟨-, rfl⟩ | ⟨-, h⟩
    · decide
    · exact h
  unfold renderBound at hq
  rw [ha.window_eq] at hq
  cases hw : FloatWindow.of c with
  | some w =>
    rw [hw] at hq
    have hhigh := window_high hw hcmp hmax
    have hlo : Possible (sqlCompare .gtEq (max.eval (some r)) (some (.double w.lo))) :=
      possible_ge_edge (hhigh.imp_right fun ⟨d, hd, h⟩ => ⟨d, hd, h.within hlt⟩)
    rcases hop with ⟨rfl, rfl⟩ | ⟨rfl, -⟩
    · cases hq
      cases hz : w.zero with
      | true => exact hlo
      | false => exact possible_ge_edge (hhigh.imp_right fun ⟨d, hd, h⟩ => ⟨d, hd, h.strict rfl hz⟩)
    · cases hq
      exact hlo
  | none =>
    rw [hw] at hq
    obtain ⟨t, ht, rfl⟩ := render_some ha hq
    apply possible_sqlCompare
    rcases exact_high (exactConstant_of_window_none ha hw) ht hcmp hmax with h | ⟨s, hs, hgt, hge⟩
    · exact Or.inl h
    · rcases hop with ⟨rfl, rfl⟩ | ⟨rfl, -⟩
      · exact Or.inr ⟨s, _, hs, hgt rfl, rfl⟩
      · obtain ⟨o, ho, hop⟩ := admits_of_sqlLe' (hge hlt)
        exact Or.inr ⟨s, o, hs, ho, hop⟩

end Atoms

end DuckLake.Prune
