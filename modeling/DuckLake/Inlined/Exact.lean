import DuckLake.Inlined.Pushdown

/- The other half: a leaf of one of the three kinds, pushed alone, loses a row. The
   row has a value in the leaf's column and is NULL elsewhere. -/

namespace DuckLake.Inlined

open Kleene Prune Ieee

section Lost
variable {fmt : FloatSpelling} {dialect : InlinedSqlDialect} {mapping : InlinedColumnMapping}
  {fn : Functions}

/-- The row with the value `x` in the column `name` and NULL in the others. -/
def soleRow (mapping : InlinedColumnMapping) (name : Text) (x : ScalarValue) : Text → ScalarValue :=
  fun n => if n = name then x else .null (((mapping.find n).map (·.dataType)).getD .boolean)

def soleCells (p : Text) (cell : Cell) : Text → Option Cell := fun q => if q = p then some cell else none

theorem soleRow_decodes {name p t : Text} {c : InlinedColumn} {x : ScalarValue} {cell : Cell}
    (hcol : ComparedAs dialect mapping name c p t) (hx : x.dataType = c.dataType)
    (hst : StoresValue fmt dialect t x cell) :
    Decodes fmt dialect mapping (soleRow mapping name x) (soleCells p cell) where
  typed := by
    intro c' hc'
    by_cases hname : c'.name = name
    · have heq : c' = c := column_inj hc' hcol.mem (hname.trans hcol.name.symm)
      rw [soleRow, if_pos hname, hx, heq]
    · have hfind : mapping.find c'.name = some c' := by
        have hsome : (mapping.find c'.name).isSome = true := by
          rw [InlinedColumnMapping.find, List.find?_isSome]
          exact ⟨c', hc', by simp⟩
        obtain ⟨c'', hc''⟩ := Option.isSome_iff_exists.mp hsome
        have hname'' : c''.name = c'.name := by simpa using List.find?_some hc''
        rw [hc'', column_inj (List.mem_of_find?_eq_some hc'') hc' hname'']
      rw [soleRow, if_neg hname, hfind]
      rfl
  stored := by
    intro c' hc' p' hp' t' ht'
    by_cases hname : c'.name = name
    · have heq : c' = c := column_inj hc' hcol.mem (hname.trans hcol.name.symm)
      subst heq
      obtain rfl : p = p' := Option.some.inj (hcol.physical.symm.trans hp')
      obtain rfl : t = t' := Option.some.inj (hcol.declared.symm.trans ht')
      rw [soleRow, if_pos hname, soleCells, if_pos rfl]
      exact hst
    · have hne : p' ≠ p := by
        rintro rfl
        exact hname ((physical_inj hc' hcol.mem hp' hcol.physical) ▸ hcol.name)
      rw [soleRow, if_neg hname, soleCells, if_neg hne]
      rfl

theorem pushed_leaf {e : Expr} {f f' : InlinedFilter} {c : SqlCondition} {new : List InlinedSqlBind}
    (htranslate : translateExpr e = some f) (hrename : renameColumns mapping.renames f = some f')
    (hand : ∀ fs, f' ≠ .and fs) (hor : ∀ fs, f' ≠ .or fs)
    (hrender : renderLeaf fmt dialect mapping.fields mapping.physicalTypes f' 2 = some (c, new)) :
    pushed fmt dialect mapping [e] = some ⟨c, new⟩ := by
  simp only [pushed, translateInlinedFilters, List.filterMap_cons_some htranslate, List.filterMap_nil, andOf,
    InlinedColumnMapping.physicalFilter, hrename, Option.bind_eq_bind, Option.bind_some, renderInlinedFilter]
  rw [renderNode_leaf hand hor]
  simp [hrender]

/-! ## Comparisons -/

theorem exists_misordered {F : Format} {y : Fp F} {op : InlinedComparison} (hy : y.isFinite = true)
    (hbad : misordered dialect false op y.neg (y.mag == 0) = true) :
    ∃ x : Fp F, readable dialect x ∧ op.operator.admits (order x.key y.key) = true ∧
      op.operator.admits (floatOrder x y) = false := by
  have hinf : 0 < F.infMag := by
    simp only [Fp.isFinite, decide_eq_true_eq] at hy
    omega
  -- the other zero, and a negative NaN
  by_cases hneg : (op = .lt ∨ op = .ltEq) ∧ dialect = .duckDb
  · refine ⟨⟨true, F.infMag + 1⟩, ?_, ?_, ?_⟩
    · rw [hneg.2]
      trivial
    · have hlt : order (⟨true, F.infMag + 1⟩ : Fp F).key y.key = .lt := by
        rw [order_lt]
        simp only [Fp.key, if_true]
        simp only [Fp.isFinite, decide_eq_true_eq] at hy
        split <;> omega
      rw [hlt]
      rcases hneg.1 with rfl | rfl <;> rfl
    · have hgt : floatOrder (⟨true, F.infMag + 1⟩ : Fp F) y = .gt := by
        rw [floatOrder, if_pos]
        simp [Fp.isNaN]
      rw [hgt]
      rcases hneg.1 with rfl | rfl <;> rfl
  · have hzero : y.mag = 0 := by
      cases dialect <;> cases op <;> simp_all [misordered]
    refine ⟨⟨!y.neg, 0⟩, ?_, ?_, ?_⟩
    · cases dialect <;> cases op <;> cases hyn : y.neg <;>
        simp_all [misordered, readable, Fp.isNaN, Fp.isFinite]
    · cases dialect <;> cases op <;> cases hyn : y.neg <;>
        simp_all [misordered, Fp.key, InlinedComparison.operator, Operator.admits, order, cmp, cmpUsing]
    · have heq : floatOrder (⟨!y.neg, 0⟩ : Fp F) y = .eq := by
        rw [floatOrder, if_neg (by simp [Fp.isNaN]), Fp.num_eq_zero rfl, Fp.num_eq_zero hzero]
        exact order_eq.mpr rfl
      rw [heq]
      cases dialect <;> cases op <;> cases hyn : y.neg <;>
        simp_all [misordered, InlinedComparison.operator, Operator.admits]

/-- A float column, of either width, and a misordered constant: a stored value that
the query keeps and the catalog does not. -/
theorem exists_float_lost {F : Format} {y : Fp F} {units : Nat} {native : Fp F → Cell}
    {read : Text → Option (Fp F)} {op : InlinedComparison} {physicalType : Text}
    (hnative : ∀ x, compareCells fmt (native x) (.double (if y.neg then -(units : Int) else units)) =
      some (floatOrder x y))
    (htext : ∀ x, compareCells fmt (native x) (.text (fmt.toText y.neg units)) = some (floatOrder x y))
    (hrespell : ∃ t, t ≠ fmt.toText y.neg units ∧ read t = some y) (hy : y.isFinite = true)
    (hbad : misordered dialect (isCharOrText (normalized physicalType)) op y.neg (y.mag == 0) = true) :
    ∃ x c bind, readable dialect x ∧
      (if dialect = .mySql ∧ isCharOrText (normalized physicalType) = true then
        ∃ t, read t = some x ∧ c = .text t else c = native x) ∧
      (if dialect = .mySql then if op.isRange then none else some (.text (fmt.toText y.neg units))
        else some (.f64 y.neg units)) = some bind ∧
      op.operator.admits (order x.key y.key) = true ∧
      compareSqlCells fmt op (some c) (some (InlinedSqlBind.cell dialect bind)) = some false := by
  by_cases hmy : dialect = .mySql
  · subst hmy
    cases hchar : isCharOrText (normalized physicalType)
    · rw [hchar] at hbad
      have hrange : op.isRange = false := by
        cases op <;> simp_all [misordered, InlinedComparison.isRange]
      obtain ⟨x, hr, hadm, hlost⟩ := exists_misordered hy hbad
      refine ⟨x, native x, .text (fmt.toText y.neg units), hr, by simp, by simp [hrange], hadm, ?_⟩
      simp [compareSqlCells, InlinedSqlBind.cell, htext, hlost]
    · rw [hchar] at hbad
      have hop : op = .eq := by
        cases op <;> simp_all [misordered]
      subst hop
      obtain ⟨t, hne, ht⟩ := hrespell
      refine ⟨y, .text t, .text (fmt.toText y.neg units), hy, by simpa using ht, rfl, ?_, ?_⟩
      · rw [order_eq.mpr rfl]
        rfl
      · have hord : order t (fmt.toText y.neg units) ≠ .eq := fun h => hne (order_eq.mp h)
        simp [compareSqlCells, compareCells, InlinedSqlBind.cell, InlinedComparison.operator, Operator.admits, hord]
  · have hbad' : misordered dialect false op y.neg (y.mag == 0) = true := by
      cases dialect <;> simp_all [misordered]
    obtain ⟨x, hr, hadm, hlost⟩ := exists_misordered hy hbad'
    refine ⟨x, native x, .f64 y.neg units, hr, by simp [hmy], by simp [hmy], hadm, ?_⟩
    simp [compareSqlCells, InlinedSqlBind.cell, hnative, hlost]

theorem exists_literal_lost {y : ScalarValue} {op : InlinedComparison} {physicalType : Text}
    (hbad : literalMisordered dialect physicalType op y = true) :
    ∃ x c v bind, x.dataType = y.dataType ∧ StoresValue fmt dialect physicalType x c ∧ scalar y = some v ∧
      sqlBind fmt dialect v y.dataType op.isRange = some bind ∧ compareOp op.operator x y = some true ∧
      isUtf8 y.dataType = false ∧ y.dataType ≠ .integer .uint64 ∧
      compareSqlCells fmt op (some c) (some (bind.cell dialect)) = some false := by
  cases y with
  | float32 y =>
    simp only [literalMisordered, Bool.and_eq_true] at hbad
    obtain ⟨hy, hbad⟩ := hbad
    have hnative (x : F32) : compareCells fmt (.float32 x) (.double _) = some (floatOrder x y) :=
      congrArg some (compareFloat32_widen x y)
    obtain ⟨x, c, bind, hr, hst, hbind, hadm, hlost⟩ := exists_float_lost hnative
      (fun x => by simp only [compareCells, fmt.asNumber_toText, Option.map_some]; exact hnative x)
      (fmt.respell32 y _ hy) hy hbad
    refine ⟨.float32 x, c, _, bind, rfl, ⟨hr, hst⟩, if_pos hy, hbind, ?_, rfl, by simp [ScalarValue.dataType], hlost⟩
    exact congrArg some hadm
  | float64 y =>
    simp only [literalMisordered, Bool.and_eq_true] at hbad
    obtain ⟨hy, hbad⟩ := hbad
    have hnative (x : F64) : compareCells fmt (.float64 x) (.double _) = some (floatOrder x y) :=
      congrArg some (compareFloat64_units x y)
    obtain ⟨x, c, bind, hr, hst, hbind, hadm, hlost⟩ := exists_float_lost hnative
      (fun x => by simp only [compareCells, fmt.asNumber_toText, Option.map_some]; exact hnative x)
      (fmt.respell64 y _ hy) hy hbad
    refine ⟨.float64 x, c, _, bind, rfl, ⟨hr, hst⟩, if_pos hy, hbind, ?_, rfl, by simp [ScalarValue.dataType], hlost⟩
    exact congrArg some hadm
  | _ => cases hbad

/-- A comparison that is pushed alone and keeps its rows is not misordered. -/
theorem comparisonSafe_of_pushes {e : Expr} {name : Text} {op : InlinedComparison} {y : ScalarValue}
    (htranslate : ∀ v, scalar y = some v → translateExpr e = some (.comparison name op v))
    (hsat : ∀ row : Text → ScalarValue, compareOp op.operator (row name) y = some true → e.Satisfied fn row)
    (hpushes : Pushes fmt dialect mapping fn [e]) : ComparisonSafe dialect mapping name op y := by
  intro c p t hcol hty
  by_contra hbad
  rw [Bool.not_eq_false] at hbad
  obtain ⟨x, cell, v, bind, hx, hst, hv, hbind, htrue, hutf, hu64, hlost⟩ :=
    @exists_literal_lost fmt dialect y op t hbad
  have hfields := fields_eq hcol.mem hcol.physical
  have hrename : renameColumns mapping.renames (.comparison name op v) = some (.comparison p op v) := by
    rw [renameColumns, ← hcol.name, renames_eq hcol.mem, hcol.physical]
    rfl
  have hrender : renderLeaf fmt dialect mapping.fields mapping.physicalTypes (.comparison p op v) 2 =
      some (renderComparison dialect p op c.dataType t 2, [bind]) := by
    rw [hty] at hbind
    simp [renderLeaf, hfields, hcol.declared, hcol.comparable, hbind]
  have hpushed := pushed_leaf (htranslate v hv) hrename (by simp) (by simp) hrender
  have hkept := (hpushes _ hpushed).2 (soleRow mapping name x) (soleCells p cell)
    (soleRow_decodes hcol (hx.trans hty) hst) (by
      intro f hf
      rw [List.mem_singleton.mp hf]
      refine hsat _ ?_
      rwa [soleRow, if_pos rfl])
  rw [hty] at hutf hu64
  have hcell : soleCells p cell p = some cell := if_pos rfl
  have hbound : bound dialect [bind] 2 = some (bind.cell dialect) := rfl
  simp only [renderComparison_eval hu64, comparisonIdent_eval hutf, hcell, hbound, hlost] at hkept
  cases hkept

/-! ## Leading texts -/

theorem beforeNul_isPrefix (s : Text) : beforeNul s <+: s := List.takeWhile_prefix _

theorem length_beforeNul {s : Text} (h : '\x00' ∈ s) : (beforeNul s).length < s.length := by
  induction s with
  | nil => cases h
  | cons c s ih =>
    by_cases hc : c = '\x00'
    · simp [beforeNul, hc]
    · have hmem : '\x00' ∈ s := (List.mem_cons.mp h).resolve_left (Ne.symm hc)
      have := ih hmem
      simp only [beforeNul, List.takeWhile_cons, ne_eq, hc, not_false_eq_true, decide_true, if_true,
        List.length_cons] at this ⊢
      omega

/-- What a rendered leading text says of the column. -/
theorem renderPrefixed_eval {p leading s : Text} {cells : Text → Option Cell} {env : Nat → Option Cell}
    (hc : cells p = some (if dialect = .postgres then .bytes (Utf8.encode s) else .text s))
    (henv : ∀ i, i < (renderPrefixed dialect p 2).2 → env (2 + i) =
      some (if dialect = .postgres then .bytes (Utf8.encode leading) else .text leading))
    (h : (renderPrefixed dialect p 2).1.eval fmt env cells = some true) :
    leading <+: s ∧ (dialect = .sqlite → '\x00' ∉ leading) := by
  have h₀ := henv 0 (by cases dialect <;> simp [renderPrefixed])
  have h₁ := henv 1
  have hbytes {a b : List UInt8} (hab : compareSqlCells fmt .eq (some (.bytes a)) (some (.bytes b)) = some true) :
      a = b := by
    have hord : order (a.map UInt8.toNat) (b.map UInt8.toNat) = .eq := by
      simpa [compareSqlCells, compareCells, compareBytes, InlinedComparison.operator, Operator.admits] using hab
    exact (List.map_injective_iff.mpr fun _ _ => UInt8.toNat_inj.mp) (order_eq.mp hord)
  cases dialect <;> simp only [renderPrefixed, reduceCtorEq, if_false, if_true, Nat.add_zero, Nat.reduceAdd,
    Nat.one_lt_ofNat, forall_const, Nat.lt_irrefl, false_implies] at hc h₀ h₁
  case sqlite =>
    simp only [renderPrefixed, SqlCondition.eval, SqlTerm.eval, hc, h₀, h₁, Option.bind_some, asText,
      Option.bind_eq_bind, Option.pure_def, Nat.reduceAdd] at h
    have heq : (beforeNul s).take (beforeNul leading).length = leading := by
      have hord : order ((beforeNul s).take (beforeNul leading).length) leading = .eq := by
        simpa [compareSqlCells, compareCells, InlinedComparison.operator, Operator.admits] using h
      exact order_eq.mp hord
    constructor
    · have hpre := (List.take_prefix (beforeNul leading).length (beforeNul s)).trans (beforeNul_isPrefix s)
      rwa [heq] at hpre
    · rintro - hnul
      have hlen := congrArg List.length heq
      have := length_beforeNul hnul
      rw [List.length_take] at hlen
      omega
  case duckDb =>
    simp only [renderPrefixed, SqlCondition.eval, SqlTerm.eval, hc, h₀, Option.bind_some, asText,
      Option.bind_eq_bind, Option.pure_def, Option.some.injEq, List.isPrefixOf_iff_prefix] at h
    exact ⟨h, by simp⟩
  all_goals
    simp only [renderPrefixed, SqlCondition.eval, SqlTerm.eval, hc, h₀, h₁, Option.bind_some, asBytes,
      Option.map_some, Option.bind_eq_bind, Option.pure_def, Nat.reduceAdd] at h
    have heq := hbytes h
    refine ⟨Utf8.prefix_of_encode ?_, by simp⟩
    rw [← heq]
    exact List.take_prefix _ _

/-- A leading text that is pushed alone and keeps its rows is one the true rows start
with, and SQLite can read it. -/
theorem leading_of_pushes {e : Expr} {name leading s p t : Text} {c : InlinedColumn}
    (htranslate : translateExpr e = some (.prefixed name leading))
    (hsat : ∀ (row : Text → ScalarValue) (st : StringType), row name = .string st s → e.Satisfied fn row)
    (hcol : ComparedAs dialect mapping name c p t) (htype : isUtf8 c.dataType = true)
    (hpushes : Pushes fmt dialect mapping fn [e]) :
    leading <+: s ∧ (dialect = .sqlite → '\x00' ∉ leading) := by
  obtain ⟨st, hst⟩ : ∃ st, c.dataType = .string st := by
    cases hty : c.dataType <;> simp_all [isUtf8]
  have hfields := fields_eq hcol.mem hcol.physical
  have hrename : renameColumns mapping.renames (.prefixed name leading) = some (.prefixed p leading) := by
    rw [renameColumns, ← hcol.name, renames_eq hcol.mem, hcol.physical]
    rfl
  have hcomp := hcol.comparable
  rw [hst] at hfields hcomp
  let bind : InlinedSqlBind := if dialect = .postgres then .bytes (Utf8.encode leading) else .text leading
  have hrender : renderLeaf fmt dialect mapping.fields mapping.physicalTypes (.prefixed p leading) 2 =
      some ((renderPrefixed dialect p 2).1, List.replicate (renderPrefixed dialect p 2).2 bind) := by
    simp [renderLeaf, hfields, hcol.declared, hcomp, isUtf8, sqlBind, bind]
  have hpushed := pushed_leaf htranslate hrename (by simp) (by simp) hrender
  let cell : Cell := if dialect = .postgres then .bytes (Utf8.encode s) else .text s
  have hkept := (hpushes _ hpushed).2 (soleRow mapping name (.string st s)) (soleCells p cell)
    (soleRow_decodes hcol hst.symm rfl) (by
      intro f hf
      rw [List.mem_singleton.mp hf]
      exact hsat _ st (if_pos rfl))
  refine renderPrefixed_eval (if_pos rfl) (fun i hi => ?_) hkept
  have hget : (List.replicate (renderPrefixed dialect p 2).2 bind)[i]? = some bind := by
    rw [List.getElem?_replicate, if_pos hi]
  simp only [bound, Nat.le_add_right, if_true, Nat.add_sub_cancel_left, hget, Option.map_some, bind]
  split <;> rfl

theorem likeSafe_of_pushes {name pattern : Text} {st : StringType} {escapeChar : Option Char}
    (hpushes : Pushes fmt dialect mapping fn
      [.like false false (.column name) (.literal (.string st pattern)) escapeChar]) :
    LikeSafe dialect mapping name pattern escapeChar := by
  intro c p t hcol htype q hq
  have htranslate : translateExpr (.like false false (.column name) (.literal (.string st pattern)) escapeChar) =
      some (.prefixed name q) := by
    simp [translateExpr, literalString, scalarString, scalar, column, parsePrefixPattern_iff.mpr hq]
  have hsat {s : Text} (hs : Like.like (escapeChar.getD '\\') pattern s = true) (row : Text → ScalarValue)
      (st' : StringType) (hrow : row name = .string st' s) :
      (Expr.like false false (.column name) (.literal (.string st pattern)) escapeChar).Satisfied fn row := by
    simp [Expr.Satisfied, Expr.eval, hrow, likeValue, hs]
  have hplain : escapeChar = none → '\\' ∉ q := by
    rintro rfl hmem
    obtain ⟨rfl, h₁, h₂⟩ := hq
    obtain ⟨s, hlike, hnot⟩ := Like.exists_like_not_leading (by decide) h₁ h₂ hmem
    exact hnot (leading_of_pushes htranslate (hsat hlike) hcol htype hpushes).1
  refine ⟨hplain, ?_⟩
  -- the leading text itself matches
  have hlike : Like.like (escapeChar.getD '\\') pattern q = true := by
    have htokens : Like.tokens (escapeChar.getD '\\') pattern = Like.lits q ++ [.any] := by
      cases escapeChar with
      | some e => exact hq
      | none =>
        obtain ⟨rfl, h₁, h₂⟩ := hq
        exact tokens_plain_leading (by decide) h₁ h₂ (hplain rfl)
    rw [Like.like, htokens]
    exact Like.matchTokens_leading.mpr (List.prefix_refl q)
  exact (leading_of_pushes htranslate (hsat hlike) hcol htype hpushes).2

/-- A leaf that is pushed alone and keeps its rows is safe. -/
theorem safe_of_pushes {e : Expr} (hpushes : Pushes fmt dialect mapping fn [e]) : Safe dialect mapping e := by
  unfold Safe
  split
  · next name op y =>
    intro o ho
    refine comparisonSafe_of_pushes (fun v hv => ?_) (fun row hrow => ?_) hpushes
    · rw [operator_of_comparison ho]
      cases o <;>
        simp [translateExpr, InlinedComparison.operator, comparison, translateComparison, column, literal, hv]
    · rw [operator_of_comparison ho]
      cases o <;> simpa [Expr.Satisfied, Expr.eval, evalBinary, InlinedComparison.operator] using hrow
  · next y op name _ =>
    intro o ho
    refine comparisonSafe_of_pushes (fun v hv => ?_) (fun row hrow => ?_) hpushes
    · rw [operator_of_comparison ho]
      cases o <;>
        simp [translateExpr, InlinedComparison.operator, comparison, translateComparison, column, literal, hv]
    · have hflip := compareOp_reversed hrow
      rw [operator_of_comparison ho]
      cases o <;>
        simpa [Expr.Satisfied, Expr.eval, evalBinary, InlinedComparison.operator, InlinedComparison.reversed]
          using hflip
  · exact likeSafe_of_pushes hpushes
  · next f name st leading =>
    rintro rfl c p t hcol htype
    refine (leading_of_pushes (s := leading) ?_ (fun row st' hrow => ?_) hcol htype hpushes).2
    · simp [translateExpr, literalString, scalarString, scalar, column]
    · simp [Expr.Satisfied, Expr.eval, evalArgs, hrow, startsWithValue]
  · trivial

end Lost

/-- For every class of leaves, all the filter trees over it push without losing a row,
with their bound values numbered in order, exactly if every leaf of the class is safe. -/
theorem pushdown_keeps_rows_iff (fmt : FloatSpelling) (dialect : InlinedSqlDialect)
    (mapping : InlinedColumnMapping) (fn : Functions) (leaf : Expr → Prop) :
    (∀ filters : List Expr, (∀ f ∈ filters, ∀ e ∈ f.leaves, leaf e) → Pushes fmt dialect mapping fn filters) ↔
      ∀ e : Expr, e.IsLeaf → leaf e → Safe dialect mapping e := by
  constructor
  · intro h e hleaf he
    refine safe_of_pushes (h [e] fun f hf e' he' => ?_)
    rw [List.mem_singleton.mp hf, leaves_of_isLeaf hleaf] at he'
    rwa [List.mem_singleton.mp he']
  · intro h filters hfilters
    exact pushes_of_safe fun f hf e he => h e (isLeaf_of_mem_leaves he) (hfilters f hf e he)

/-! ## A pattern that loses a row -/

/-- One `VARCHAR` column, stored under its own name. -/
def noteMapping : InlinedColumnMapping where
  columns := [⟨"note".toList, .string .utf8, some "note".toList⟩]
  physicalTypes := fun p => if p = "note".toList then some "VARCHAR".toList else none
  names_nodup := by simp
  physical_nodup := by simp

/-- `note LIKE '50\%'`. -/
def fiftyPercent : Expr :=
  .like false false (.column "note".toList) (.literal (.string .utf8 ['5', '0', '\\', '%'])) none

/-! Floats spelled as a signed count of the smallest subnormal. -/

def countText (neg : Bool) (units : Nat) : Text := (if neg then '-' else '+') :: digits units

/-- The sign and the count of such a text, with any number of leading zeros. -/
def readCount : Text → Option (Bool × Nat)
  | '-' :: t => (Numeral.parseNat t).map (true, ·)
  | '+' :: t => (Numeral.parseNat t).map (false, ·)
  | _ => none

theorem readCount_zeros (neg : Bool) (units k : Nat) :
    readCount ((if neg then '-' else '+') :: (List.replicate k '0' ++ digits units)) = some (neg, units) := by
  have hparse : Numeral.parseNat (List.replicate k '0' ++ digits units) = some units := by
    rw [Numeral.parseNat_of_isDigit]
    · rw [Numeral.value_append, Numeral.value_zeros, digits, Numeral.value_toDigits, Nat.zero_mul, Nat.zero_add]
    · simp [digits, Nat.toDigits_ne_nil]
    · rw [List.all_append, digits, Numeral.all_isDigit_toDigits, Bool.and_true, List.all_eq_true]
      intro c hc
      rw [List.eq_of_mem_replicate hc]
      rfl
  cases neg <;> simp [readCount, hparse]

open Classical in
/-- The finite float of a text, whose values are counted `scale` to a unit. -/
noncomputable def readFloat (F : Format) (scale : Nat) (t : Text) : Option (Fp F) :=
  if h : ∃ x : Fp F, readCount t = some (x.neg, scaled F x.mag * scale) then some h.choose else none

theorem readFloat_eq {F : Format} {scale : Nat} (hscale : 0 < scale) {x : Fp F} {t : Text}
    (ht : readCount t = some (x.neg, scaled F x.mag * scale)) : readFloat F scale t = some x := by
  have hex : ∃ x : Fp F, readCount t = some (x.neg, scaled F x.mag * scale) := ⟨x, ht⟩
  rw [readFloat, dif_pos hex]
  have hspec := hex.choose_spec
  generalize hex.choose = z at hspec
  rw [ht] at hspec
  simp only [Option.some.injEq, Prod.mk.injEq] at hspec
  have hmag := (scaled_strictMono F).injective (Nat.eq_of_mul_eq_mul_right hscale hspec.2)
  obtain ⟨xn, xm⟩ := x
  obtain ⟨zn, zm⟩ := z
  simp_all

theorem readCount_countText (neg : Bool) (units : Nat) : readCount (countText neg units) = some (neg, units) := by
  have h := readCount_zeros neg units 0
  rwa [List.replicate_zero, List.nil_append] at h

theorem readFloat_countText {F : Format} {scale : Nat} (hscale : 0 < scale) (x : Fp F) :
    readFloat F scale (countText x.neg (scaled F x.mag * scale)) = some x :=
  readFloat_eq hscale (readCount_countText x.neg _)

theorem readFloat_respell {F : Format} {scale : Nat} (hscale : 0 < scale) (x : Fp F) (t : Text) :
    ∃ t', t' ≠ t ∧ readFloat F scale t' = some x := by
  have hread (k : Nat) := readFloat_eq hscale (readCount_zeros x.neg (scaled F x.mag * scale) k)
  by_cases h : t = (if x.neg then '-' else '+') :: (List.replicate 0 '0' ++ digits (scaled F x.mag * scale))
  · refine ⟨_, ?_, hread 1⟩
    rw [h]
    intro heq
    have := congrArg List.length heq
    simp at this
  · exact ⟨_, Ne.symm h, hread 0⟩

noncomputable def countSpelling : FloatSpelling where
  toText := countText
  asNumber t := (readCount t).map fun c => if c.1 then -(c.2 : Int) else c.2
  read32 := readFloat binary32 (2 ^ 925)
  read64 := readFloat binary64 1
  asNumber_toText neg units := by
    rw [readCount_countText]
    rfl
  read32_toText x _ := readFloat_countText (pow_pos two_pos 925) x
  read64_toText x _ := by
    have h := readFloat_countText Nat.one_pos x
    rwa [Nat.mul_one] at h
  respell32 x t _ := readFloat_respell (pow_pos two_pos 925) x t
  respell64 x t _ := readFloat_respell Nat.one_pos x t

/-- `note LIKE '50\%'` is true of the text `50%` and asks the catalog for a text that
starts with `50\`. -/
theorem pushdown_loses_row : ¬ ∀ (fmt : FloatSpelling) (dialect : InlinedSqlDialect)
    (mapping : InlinedColumnMapping) (fn : Functions) (filters : List Expr),
    Pushes fmt dialect mapping fn filters := by
  intro h
  have hcol : ComparedAs .sqlite noteMapping "note".toList ⟨"note".toList, .string .utf8, some "note".toList⟩
      "note".toList "VARCHAR".toList :=
    ⟨List.mem_singleton_self _, rfl, rfl, rfl, by decide⟩
  have hpushes := h countSpelling .sqlite noteMapping (fun _ _ => .null .boolean) [fiftyPercent]
  have htranslate : translateExpr fiftyPercent = some (.prefixed "note".toList ['5', '0', '\\']) := rfl
  have hsat (row : Text → ScalarValue) (st : StringType) (hrow : row "note".toList = .string st ['5', '0', '%']) :
      fiftyPercent.Satisfied (fun _ _ => .null .boolean) row := by
    simp only [fiftyPercent, Expr.Satisfied, Expr.eval, hrow, likeValue]
    decide
  exact absurd (leading_of_pushes htranslate hsat hcol rfl hpushes).1 (by decide)

end DuckLake.Inlined
