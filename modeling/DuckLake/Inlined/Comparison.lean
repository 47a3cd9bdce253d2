import DuckLake.Inlined.Tree
import DuckLake.Prune.Sound

/- A pushed comparison of a column with a constant: the catalog orders the stored
   value and the bound constant as the query orders their values, except for floats,
   where the query tells `-0.0` from `0.0` and orders a negative NaN first. -/

namespace DuckLake.Inlined

open Kleene Prune Ieee

/-! ## Texts of one width -/

theorem padded_length {n : Nat} (h : n < 2 ^ 64) : (padded 20 n).length = 20 := by
  have hle : (digits n).length ≤ 20 :=
    (Nat.length_toDigits_le_iff (by decide) (by decide)).mpr (Nat.lt_of_lt_of_le h (by decide))
  simp only [padded, List.length_append, List.length_replicate]
  omega

theorem padded_isDigit (n : Nat) : (padded 20 n).all Char.isDigit = true := by
  rw [padded, List.all_append, digits, Numeral.all_isDigit_toDigits, Bool.and_true, List.all_eq_true]
  intro c hc
  rw [List.eq_of_mem_replicate hc]
  rfl

theorem value_padded (n : Nat) : Numeral.value (padded 20 n) = n := by
  rw [padded, Numeral.value_append, Numeral.value_zeros, digits, Numeral.value_toDigits, Nat.zero_mul, Nat.zero_add]

theorem order_padded {n m : Nat} (hn : n < 2 ^ 64) (hm : m < 2 ^ 64) :
    order (padded 20 n) (padded 20 m) = order (n : Int) m := by
  have hlt {a b : Nat} (ha : a < 2 ^ 64) (hb : b < 2 ^ 64) (h : a < b) : padded 20 a < padded 20 b := by
    refine Numeral.lt_of_value_lt ?_ (padded_isDigit a) (padded_isDigit b) ?_
    · rw [padded_length ha, padded_length hb]
    · rwa [value_padded, value_padded]
  rcases Nat.lt_trichotomy n m with h | rfl | h
  · rw [order_lt.mpr (hlt hn hm h), order_lt.mpr (Int.ofNat_lt.mpr h)]
  · rw [order_eq.mpr rfl, order_eq.mpr rfl]
  · rw [order_gt.mpr (hlt hm hn h), order_gt.mpr (Int.ofNat_lt.mpr h)]

theorem lastTwentyOf_zeros {n k : Nat} (hk : k + (digits n).length ≤ 20) :
    lastTwentyOf (List.replicate k '0' ++ digits n) = padded 20 n := by
  have hsplit : List.replicate 20 '0' ++ (List.replicate k '0' ++ digits n) =
      List.replicate (k + (digits n).length) '0' ++ padded 20 n := by
    rw [padded, ← List.append_assoc, ← List.append_assoc, ← List.replicate_add, ← List.replicate_add]
    congr 2
    omega
  have hlen : (padded 20 n).length = 20 := by
    simp only [padded, List.length_append, List.length_replicate]
    omega
  simp only [lastTwentyOf]
  rw [hsplit, List.length_append, hlen, Nat.add_sub_cancel, List.drop_left]

theorem lpadTwenty_digits {n : Nat} (h : n < 2 ^ 64) : lpadTwenty (digits n) = padded 20 n := by
  have := padded_length h
  rw [lpadTwenty, show List.replicate (20 - (digits n).length) '0' ++ digits n = padded 20 n from rfl,
    List.take_of_length_le (by omega)]

theorem compareBytes_encode (a b : Text) : compareBytes (Utf8.encode a) (Utf8.encode b) = order a b :=
  Utf8.strictMono_encode.cmp_map_eq a b

/-! ## Floats -/

/-- The catalog's order: numbers by value, a NaN above everything. -/
def floatOrder {F : Format} (x y : Fp F) : Ordering := if x.isNaN then .gt else order x.num y.num

/-- The comparisons with a float that are true in the query of a value the catalog
orders differently. -/
def misordered (dialect : InlinedSqlDialect) (textual : Bool) (op : InlinedComparison) (neg zero : Bool) : Bool :=
  match dialect with
  | .sqlite => zero && neg && (op == .gt || op == .notEq)
  | .postgres => zero && (op == .notEq || (neg && op == .gt) || (!neg && op == .lt))
  | .duckDb => op == .lt || op == .ltEq || (zero && (op == .notEq || (neg && op == .gt)))
  | .mySql => if textual then op == .eq else zero && op == .notEq

section Floats
variable {F : Format} {x y : Fp F} {dialect : InlinedSqlDialect} {op : InlinedComparison}

/-- Where the two orders part: a NaN with a sign, and the two zeros. -/
theorem floatOrder_cases (x : Fp F) (hy : y.isFinite = true) : floatOrder x y = order x.key y.key ∨
    (x.isNaN = true ∧ x.neg = true ∧ order x.key y.key = .lt ∧ floatOrder x y = .gt) ∨
    (x.isNaN = false ∧ x.mag = 0 ∧ y.mag = 0 ∧ x.neg = true ∧ y.neg = false ∧ order x.key y.key = .lt ∧
      floatOrder x y = .eq) ∨
    (x.isNaN = false ∧ x.mag = 0 ∧ y.mag = 0 ∧ x.neg = false ∧ y.neg = true ∧ order x.key y.key = .gt ∧
      floatOrder x y = .eq) := by
  unfold floatOrder
  by_cases hnan : x.isNaN = true
  · have hmag : y.mag < x.mag := by
      simp only [Fp.isNaN, Fp.isFinite, decide_eq_true_eq] at hnan hy
      omega
    rw [if_pos hnan]
    cases hneg : x.neg
    · left
      rw [order_gt.mpr]
      simp only [Fp.key, hneg, Bool.false_eq_true, if_false]
      split <;> omega
    · right
      left
      refine ⟨hnan, rfl, order_lt.mpr ?_, rfl⟩
      simp only [Fp.key, hneg, if_true]
      split <;> omega
  · rw [if_neg hnan, Bool.not_eq_true] at *
    rcases lt_trichotomy x.key y.key with hk | hk | hk
    · rcases Fp.num_lt_of_key_lt hk with hnum | ⟨hx, hy0⟩
      · left
        rw [order_lt.mpr hk, order_lt.mpr hnum]
      · right; right; left
        have hsign : x.neg = true ∧ y.neg = false := by
          unfold Fp.key at hk
          cases hxn : x.neg <;> cases hyn : y.neg <;> simp_all
        refine ⟨hnan, hx, hy0, hsign.1, hsign.2, order_lt.mpr hk, order_eq.mpr ?_⟩
        rw [Fp.num_eq_zero hx, Fp.num_eq_zero hy0]
    · left
      rw [Fp.eq_of_key_eq hk, order_eq.mpr rfl, order_eq.mpr rfl]
    · rcases Fp.num_lt_of_key_lt hk with hnum | ⟨hy0, hx⟩
      · left
        rw [order_gt.mpr hk, order_gt.mpr hnum]
      · right; right; right
        have hsign : x.neg = false ∧ y.neg = true := by
          unfold Fp.key at hk
          cases hxn : x.neg <;> cases hyn : y.neg <;> simp_all
        refine ⟨hnan, hx, hy0, hsign.1, hsign.2, order_gt.mpr hk, order_eq.mpr ?_⟩
        rw [Fp.num_eq_zero hx, Fp.num_eq_zero hy0]

/-- Outside the misordered comparisons what is true in the query is true in the catalog. -/
theorem floatOrder_admits (hy : y.isFinite = true) (hr : readable dialect x)
    (hpush : dialect = .mySql → op.isRange = false)
    (hsafe : misordered dialect false op y.neg (y.mag == 0) = false)
    (hadm : op.operator.admits (order x.key y.key) = true) : op.operator.admits (floatOrder x y) = true := by
  rcases floatOrder_cases x hy with h | ⟨hnan, hneg, hk, h⟩ | ⟨hnan, hx, hy0, hxn, hyn, hk, h⟩ |
      ⟨hnan, hx, hy0, hxn, hyn, hk, h⟩
  · rwa [h]
  · -- a negative NaN, which only DuckDB returns
    have hnf : x.isFinite = false := by
      simp only [Fp.isNaN, Fp.isFinite, decide_eq_true_eq, decide_eq_false_iff_not] at hnan ⊢
      omega
    rw [hk] at hadm
    rw [h]
    cases dialect <;> simp_all [readable]
    cases op <;> simp_all [misordered, InlinedComparison.operator, Operator.admits]
  · rw [hk] at hadm
    rw [h]
    cases dialect <;> cases op <;>
      simp_all [readable, misordered, InlinedComparison.operator, Operator.admits, InlinedComparison.isRange]
  · rw [hk] at hadm
    rw [h]
    cases dialect <;> cases op <;>
      simp_all [readable, misordered, InlinedComparison.operator, Operator.admits, InlinedComparison.isRange]

end Floats

/-! ## The leaf -/

/-- The comparison of a column declared `physicalType` with the constant is misordered. -/
def literalMisordered (dialect : InlinedSqlDialect) (physicalType : Text) (op : InlinedComparison) :
    ScalarValue → Bool
  | .float32 y => y.isFinite && misordered dialect (isCharOrText (normalized physicalType)) op y.neg (y.mag == 0)
  | .float64 y => y.isFinite && misordered dialect (isCharOrText (normalized physicalType)) op y.neg (y.mag == 0)
  | _ => false

section Leaf
variable {fmt : FloatSpelling} {dialect : InlinedSqlDialect} {fields : Text → Option DataType}
  {physicalTypes : Text → Option Text} {cells : Text → Option Cell} {env : Nat → Option Cell}
  {p physicalType : Text} {op : InlinedComparison} {index : Nat} {c : Cell}

theorem compareSqlCells_some {a b : Cell} {o : Ordering} (h : compareCells fmt a b = some o)
    (hadm : op.operator.admits o = true) : compareSqlCells fmt op (some a) (some b) = some true := by
  simp [compareSqlCells, h, hadm]

variable {bind : InlinedSqlBind} {dataType : DataType}

theorem renderComparison_eval (h : dataType ≠ .integer .uint64) :
    (renderComparison dialect p op dataType physicalType index).eval fmt env cells =
      compareSqlCells fmt op ((comparisonIdent dialect p dataType).eval env cells) (env index) := by
  rw [renderComparison, if_neg h, SqlCondition.eval, SqlTerm.eval]

theorem comparisonIdent_eval (h : isUtf8 dataType = false) :
    (comparisonIdent dialect p dataType).eval env cells = cells p := by
  unfold comparisonIdent
  cases dialect <;> simp [h, SqlTerm.eval]

theorem compareFloat32_widen (x y : F32) :
    compareFloat32 x (if y.neg then -((scaled binary32 y.mag * 2 ^ 925 : Nat) : Int)
      else ((scaled binary32 y.mag * 2 ^ 925 : Nat) : Int)) = floatOrder x y := by
  have hw : (if y.neg then -((scaled binary32 y.mag * 2 ^ 925 : Nat) : Int)
      else ((scaled binary32 y.mag * 2 ^ 925 : Nat) : Int)) = widen y := by
    unfold widen Fp.num
    rw [Nat.cast_mul, Nat.cast_pow]
    split
    · rw [neg_mul]
      rfl
    · rfl
  have hmono : StrictMono fun n : Int => n * 2 ^ 925 :=
    fun a b h => mul_lt_mul_of_pos_right h (pow_pos two_pos 925)
  rw [hw, compareFloat32, floatOrder]
  split
  · rfl
  · exact hmono.cmp_map_eq x.num y.num

theorem compareFloat64_units (x y : F64) :
    compareFloat64 x (if y.neg then -((scaled binary64 y.mag : Nat) : Int)
      else ((scaled binary64 y.mag : Nat) : Int)) = floatOrder x y := by
  rfl

theorem uint64_true {n m : Nat} (hn : n < 2 ^ 64) (hm : m < 2 ^ 64)
    (hst : StoresValue fmt dialect physicalType (.integer .uint64 n) c) (hc : cells p = some c)
    (hbind : sqlBind fmt dialect (.u64 m) (.integer .uint64) op.isRange = some bind)
    (henv : env index = some (bind.cell dialect))
    (hadm : op.operator.admits (order (n : Int) m) = true) :
    (renderComparison dialect p op (.integer .uint64) physicalType index).eval fmt env cells = some true := by
  obtain ⟨n', hn', -, hst⟩ := hst
  obtain rfl : n = n' := Int.ofNat_inj.mp hn'
  have hpad : order (padded 20 n) (padded 20 m) = order (n : Int) m := order_padded hn hm
  -- text equality of canonical digits is equality of the numbers
  have hdigits : op.isRange = false → op.operator.admits (order (digits n) (digits m)) = true := by
    intro hrange
    by_cases hnm : n = m
    · subst hnm
      rw [order_eq.mpr rfl] at hadm ⊢
      exact hadm
    · have hne : order (n : Int) m ≠ .eq := fun h => hnm (Int.ofNat_inj.mp (order_eq.mp h))
      have hne' : order (digits n) (digits m) ≠ .eq := by
        intro h
        have heq := congrArg Numeral.value (order_eq.mp h)
        simp only [digits, Numeral.value_toDigits] at heq
        exact hnm heq
      cases op <;> simp_all [InlinedComparison.isRange, InlinedComparison.operator, Operator.admits]
  have hparse : asInteger (digits m) = some (.integer m) := by simp [asInteger, digits]
  simp only [renderComparison, if_true]
  cases dialect with
  | sqlite =>
    cases hbind
    simp only [u64UsesLegacyText, Bool.true_eq_false, if_false, if_true] at hst
    obtain ⟨k, hk, rfl⟩ := hst
    have hm20 : 0 + (digits m).length ≤ 20 := by
      have := padded_length hm
      simp only [padded, List.length_append, List.length_replicate] at this
      omega
    have hlast := lastTwentyOf_zeros hm20
    rw [List.replicate_zero, List.nil_append] at hlast
    simp only [textU64RangeOperands, u64UsesLegacyText, decide_true, Bool.or_true, Bool.and_self, if_true,
      SqlCondition.eval, SqlTerm.eval, hc, henv, InlinedSqlBind.cell, Option.bind_some, asText, Option.map_some,
      lastTwentyOf_zeros hk, hlast]
    exact compareSqlCells_some rfl (by rwa [hpad])
  | duckDb =>
    cases hbind
    simp only [u64UsesLegacyText, if_true] at hst
    subst hst
    simp only [textU64RangeOperands, nativeU64Operands, SqlCondition.eval, SqlTerm.eval, hc, henv,
      InlinedSqlBind.cell]
    exact compareSqlCells_some rfl hadm
  | postgres | mySql =>
    cases hbind
    split at hst
    next hnative =>
      subst hst
      simp only [u64UsesLegacyText, Bool.not_eq_false'] at hnative
      simp only [textU64RangeOperands, u64UsesLegacyText, hnative, Bool.not_true, Bool.and_false,
        Bool.false_eq_true, if_false, nativeU64Operands, if_true, SqlCondition.eval, SqlTerm.eval, hc, henv,
        InlinedSqlBind.cell, Option.bind_some, asText, hparse]
      exact compareSqlCells_some rfl hadm
    next hlegacy =>
      rw [if_neg (by decide)] at hst
      subst hst
      simp only [u64UsesLegacyText, Bool.not_eq_false', Bool.not_eq_true] at hlegacy
      cases hrange : op.isRange
      · simp only [textU64RangeOperands, u64UsesLegacyText, hlegacy, nativeU64Operands, reduceCtorEq,
          decide_false, Bool.or_self, Bool.false_and, Bool.false_eq_true, if_false, SqlCondition.eval,
          SqlTerm.eval, hc, henv, InlinedSqlBind.cell]
        exact compareSqlCells_some rfl (hdigits hrange)
      · simp only [textU64RangeOperands, u64UsesLegacyText, hlegacy, Bool.not_false, Bool.true_or,
          Bool.and_self, if_true, SqlCondition.eval, SqlTerm.eval, hc, henv, InlinedSqlBind.cell,
          Option.bind_some, asText, asBytes, Option.map_some, lpadTwenty_digits hn, lpadTwenty_digits hm]
        exact compareSqlCells_some rfl (by rwa [compareBytes_encode, hpad])

/-- A float column, of either width: `native` is the column's own cell and `units` the
bound constant. -/
theorem float_true {F : Format} {x y : Fp F} {units : Nat} {native : Cell} {read : Text → Option (Fp F)}
    (hnative : compareCells fmt native (.double (if y.neg then -(units : Int) else units)) = some (floatOrder x y))
    (htext : compareCells fmt native (.text (fmt.toText y.neg units)) = some (floatOrder x y))
    (hread : read (fmt.toText y.neg units) = some y) (hy : y.isFinite = true) (hr : readable dialect x)
    (hst : if dialect = .mySql ∧ isCharOrText (normalized physicalType) = true then
      ∃ t, read t = some x ∧ c = .text t else c = native)
    (hbind : (if dialect = .mySql then if op.isRange then none else some (.text (fmt.toText y.neg units))
      else some (.f64 y.neg units)) = some bind)
    (hsafe : misordered dialect (isCharOrText (normalized physicalType)) op y.neg (y.mag == 0) = false)
    (hadm : op.operator.admits (order x.key y.key) = true) :
    compareSqlCells fmt op (some c) (some (bind.cell dialect)) = some true := by
  by_cases hmy : dialect = .mySql
  · subst hmy
    rw [if_pos rfl] at hbind
    split at hbind
    · cases hbind
    next hrange =>
    cases hbind
    cases hchar : isCharOrText (normalized physicalType)
    · simp only [hchar, true_and, Bool.false_eq_true, if_false] at hst hsafe
      subst hst
      exact compareSqlCells_some htext (floatOrder_admits hy hr (fun _ => by simpa using hrange) hsafe hadm)
    · simp only [hchar, true_and, if_true] at hst hsafe
      obtain ⟨t, ht, rfl⟩ := hst
      -- the text of the column differs from the constant's if the values do
      have hne : x ≠ y → t ≠ fmt.toText y.neg units := by
        rintro hxy rfl
        rw [hread] at ht
        exact hxy (Option.some.inj ht).symm
      refine compareSqlCells_some rfl ?_
      cases op <;> simp_all [misordered, InlinedComparison.operator, Operator.admits, InlinedComparison.isRange]
      intro heq
      refine hne ?_ (order_eq.mp heq)
      rintro rfl
      exact hadm (order_eq.mpr rfl)
  · rw [if_neg hmy] at hbind
    cases hbind
    rw [if_neg (by simp [hmy])] at hst
    subst hst
    have hsafe' : misordered dialect false op y.neg (y.mag == 0) = false := by
      cases dialect <;> simp_all [misordered]
    exact compareSqlCells_some hnative (floatOrder_admits hy hr (fun h => absurd h hmy) hsafe' hadm)

theorem string_true {st st' : StringType} {s t : Text}
    (hst : StoresValue fmt dialect physicalType (.string st s) c) (hc : cells p = some c)
    (hbind : sqlBind fmt dialect (.utf8 t) (.string st') op.isRange = some bind)
    (hadm : op.operator.admits (order s t) = true) :
    compareSqlCells fmt op ((comparisonIdent dialect p (.string st')).eval env cells)
      (some (bind.cell dialect)) = some true := by
  simp only [StoresValue] at hst
  simp only [sqlBind, Option.some.injEq] at hbind
  subst hst hbind
  cases dialect <;>
    simp only [comparisonIdent, isUtf8, if_true, SqlTerm.eval, hc, InlinedSqlBind.cell, reduceCtorEq, if_false,
      Option.bind_some, asBytes, Option.map_some]
  · exact compareSqlCells_some rfl hadm
  · exact compareSqlCells_some rfl (by rwa [compareBytes_encode])
  · exact compareSqlCells_some rfl hadm
  · exact compareSqlCells_some rfl (by rwa [compareBytes_encode])

theorem integer_true {it it' : IntType} {a b : Int} {v : InlinedValue}
    (hst : StoresValue fmt dialect physicalType (.integer it a) c) (hc : cells p = some c)
    (hv : scalar (.integer it' b) = some v)
    (hbind : sqlBind fmt dialect v (.integer it) op.isRange = some bind)
    (henv : env index = some (bind.cell dialect)) (hadm : op.operator.admits (order a b) = true) :
    (renderComparison dialect p op (.integer it) physicalType index).eval fmt env cells = some true := by
  by_cases hit : it = .uint64
  · subst hit
    obtain ⟨n, rfl, hn, -⟩ := id hst
    simp only [scalar] at hv
    split at hv
    · cases hv
      simp [sqlBind] at hbind
    · split at hv
      · next hb =>
        cases hv
        have hm : b = (b.toNat : Int) := (Int.toNat_of_nonneg hb.1).symm
        rw [hm] at hadm
        exact uint64_true hn (by omega) hst hc hbind henv hadm
      · cases hv
  · have hcell : c = .integer a := by
      cases it <;> first | exact hst | exact absurd rfl hit
    -- every narrower type is bound as a signed 64-bit integer
    have hb : bind = .i64 b := by
      simp only [scalar] at hv
      split at hv
      · cases hv
        cases it <;> simp_all [sqlBind]
      · split at hv
        · next hb =>
          cases hv
          cases it <;> simp_all [sqlBind]
        · cases hv
    subst hcell hb
    rw [renderComparison_eval (by simpa using hit), comparisonIdent_eval rfl, hc, henv]
    exact compareSqlCells_some rfl hadm

theorem comparison_leafTrue {x y : ScalarValue} {v : InlinedValue}
    (hf : fields p = some dataType) (hp : physicalTypes p = some physicalType) (htype : x.dataType = dataType)
    (hst : Stores fmt dialect physicalType x (cells p)) (hv : scalar y = some v)
    (htrue : compareOp op.operator x y = some true)
    (hsafe : y.dataType = dataType → literalMisordered dialect physicalType op y = false) :
    LeafTrue fmt dialect fields physicalTypes cells (.comparison p op v) := by
  intro index cond new hrender env henv
  obtain ⟨o, ho, hadm⟩ := Option.map_eq_some_iff.mp htrue
  have hnull := not_null_of_compare ho
  obtain ⟨c, hc⟩ : ∃ c, cells p = some c := by
    rcases hcell : cells p with _ | c
    · rw [hcell, Stores, hnull] at hst
      cases hst
    · exact ⟨c, rfl⟩
  rw [hc, Stores] at hst
  simp only [renderLeaf, hf, hp, Option.bind_eq_bind, Option.bind_some] at hrender
  split at hrender
  swap
  · cases hrender
  obtain ⟨bind, hbind, hrender⟩ := Option.bind_eq_some_iff.mp hrender
  cases hrender
  have henv0 : env index = some (bind.cell dialect) := henv 0 bind rfl
  cases x with
  | boolean a =>
    cases y <;> simp only [compareScalars, Option.some.injEq, reduceCtorEq] at ho
    case boolean b =>
      subst htype ho
      cases hv
      rw [renderComparison_eval (by simp [ScalarValue.dataType]), comparisonIdent_eval rfl, hc, henv0]
      simp only [ScalarValue.dataType, sqlBind] at hbind
      split at hbind
      · cases hbind
      next hrange =>
      cases hbind
      simp only [StoresValue] at hst
      subst hst
      simp only [InlinedSqlBind.cell]
      split
      · refine compareSqlCells_some rfl ?_
        cases a <;> cases b <;> cases op <;> exact hadm
      · exact compareSqlCells_some rfl hadm
  | integer it a =>
    cases y <;> simp only [compareScalars, Option.some.injEq, reduceCtorEq] at ho
    case integer it' b =>
      subst htype ho
      exact integer_true hst hc hv hbind henv0 hadm
    case decimal128 => cases hv
  | float32 a =>
    cases y <;> simp only [compareScalars, Option.some.injEq, reduceCtorEq] at ho
    case float32 b =>
      subst htype ho
      simp only [scalar] at hv
      split at hv
      swap
      · cases hv
      next hfin =>
      cases hv
      have hsafe := hsafe rfl
      simp only [literalMisordered, hfin, Bool.true_and] at hsafe
      obtain ⟨hr, hst⟩ := hst
      rw [renderComparison_eval (by simp [ScalarValue.dataType]), comparisonIdent_eval rfl, hc, henv0]
      have hnative : compareCells fmt (.float32 a) (.double _) = some (floatOrder a b) :=
        congrArg some (compareFloat32_widen a b)
      refine float_true hnative ?_ (fmt.read32_toText b hfin) hfin hr hst hbind hsafe hadm
      simp only [compareCells, fmt.asNumber_toText, Option.map_some]
      exact hnative
  | float64 a =>
    cases y <;> simp only [compareScalars, Option.some.injEq, reduceCtorEq] at ho
    case float64 b =>
      subst htype ho
      simp only [scalar] at hv
      split at hv
      swap
      · cases hv
      next hfin =>
      cases hv
      have hsafe := hsafe rfl
      simp only [literalMisordered, hfin, Bool.true_and] at hsafe
      obtain ⟨hr, hst⟩ := hst
      rw [renderComparison_eval (by simp [ScalarValue.dataType]), comparisonIdent_eval rfl, hc, henv0]
      refine float_true rfl ?_ (fmt.read64_toText b hfin) hfin hr hst hbind hsafe hadm
      simp only [compareCells, fmt.asNumber_toText, Option.map_some]
      rfl
  | string st s =>
    cases y <;> simp only [compareScalars, Option.some.injEq, reduceCtorEq] at ho
    case string st' t =>
      subst htype ho
      cases hv
      rw [renderComparison_eval (by simp [ScalarValue.dataType]), henv0]
      exact string_true hst hc hbind hadm
  | binary bt bytes =>
    cases y <;> simp only [compareScalars, Option.some.injEq, reduceCtorEq] at ho
    case binary bt' bytes' =>
      subst htype ho
      cases hv
      have hbin : isBinary (.binary bt) = true := by
        by_contra hno
        simp [ScalarValue.dataType, sqlBind, hno] at hbind
      rw [renderComparison_eval (by simp [ScalarValue.dataType]), comparisonIdent_eval rfl, hc, henv0]
      simp only [ScalarValue.dataType, sqlBind, hbin, if_true, Option.some.injEq] at hbind
      subst hbind
      have hcell : c = .bytes bytes := by
        cases bt <;> first | exact hst | simp [isBinary] at hbin
      subst hcell
      exact compareSqlCells_some rfl hadm
  | decimal128 =>
    subst htype
    cases v <;> simp [ScalarValue.dataType, sqlBind, isBinary] at hbind
  | _ => cases y <;> simp [compareScalars, scalar] at ho hv

end Leaf

end DuckLake.Inlined
