import DuckLake.Prune.Atoms

/- File pruning never loses a row.

   `lowered_filter_keeps_file`: if some row of a file with sound statistics
   satisfies the predicate, no condition that lowering and rendering produce for
   it is false of the file, so the file is listed.

   The argument follows the tree. One satisfied comparison makes its rendered
   atom possible (`comparison_renders`); `AND` and `OR` preserve that
   (`lowerNode_keeps`); a NaN row is kept by the float gate, a NULL row because
   the condition then reads the NULL count and has no value-count guard;
   conditions on one column are conjoined (`Keeps.merge`). -/

namespace DuckLake.Prune

open Kleene

variable {fmt : FloatText} {D : Dialect}

/-! ## Trees of conditions -/

/-- Whatever SQL the condition renders to is not false of the statistics row. -/
def Renders (D : Dialect) (r : StatsRow) (cond : StatsExpr) : Prop :=
  ∀ q, renderExpr D cond = some q → Possible (q.eval (some r))

theorem renderSome_eq_filterMap (D : Dialect) :
    ∀ cs : List StatsExpr, renderSome D cs = cs.filterMap (renderExpr D)
  | [] => by simp [renderSome]
  | c :: cs => by
    cases h : renderExpr D c <;> simp [renderSome, h, renderSome_eq_filterMap D cs]

theorem mem_renderAll {D : Dialect} : ∀ {cs : List StatsExpr} {parts : List SqlExpr},
    renderAll D cs = some parts → ∀ c ∈ cs, ∃ q ∈ parts, renderExpr D c = some q
  | [], _, _, c, hc => by cases hc
  | d :: cs, parts, h, c, hc => by
    simp only [renderAll] at h
    split at h
    · rename_i part parts' hpart hparts
      cases h
      rcases List.mem_cons.1 hc with rfl | hc
      · exact ⟨part, List.mem_cons_self .., hpart⟩
      · obtain ⟨q, hq, hr⟩ := mem_renderAll hparts c hc
        exact ⟨q, List.mem_cons_of_mem _ hq, hr⟩
    · cases h

variable {columnType : DataType} {r : StatsRow} {index : Nat}

theorem renders_and {cs : List StatsExpr} :
    Renders D r (.and cs) ↔ ∀ c ∈ cs, Renders D r c := by
  have key : Renders D r (.and cs) ↔ ∀ q ∈ renderSome D cs, Possible (q.eval (some r)) := by
    unfold Renders
    simp only [renderExpr]
    split
    · rename_i hempty
      simp [List.isEmpty_iff.1 hempty]
    · simp only [Option.some.injEq, forall_eq', SqlExpr.eval, evalParts_eq_map, possible_conj,
        List.mem_map, forall_exists_index, and_imp, forall_apply_eq_imp_iff₂]
  rw [key, renderSome_eq_filterMap]
  simp only [List.mem_filterMap, forall_exists_index, and_imp]
  exact ⟨fun h c hc q hq => h q c hc hq, fun h q c hc hq => h c hc q hq⟩

theorem renders_or {cs : List StatsExpr} (h : ∃ c ∈ cs, Renders D r c) :
    Renders D r (.or cs) := by
  intro q hq
  simp only [renderExpr] at hq
  split at hq
  · rename_i parts hparts
    split at hq
    · cases hq
    · cases hq
      obtain ⟨c, hc, hren⟩ := h
      obtain ⟨q, hq, hr⟩ := mem_renderAll hparts c hc
      rw [SqlExpr.eval, evalParts_eq_map, possible_disj]
      exact ⟨_, List.mem_map_of_mem hq, hren q hr⟩
  · cases hq

theorem anyFloatGate_eq_false : ∀ {l : List StatsExpr},
    anyFloatGate l = false ↔ ∀ c ∈ l, needsFloatGate c = false
  | [] => by simp [anyFloatGate]
  | c :: l => by simp [anyFloatGate, anyFloatGate_eq_false (l := l)]

/-! ## One column -/

/-- A row's value of one column, among the values its statistics describe. -/
structure Column (fmt : FloatText) (index : Nat) (type : DataType) (row : Row) (r : StatsRow)
    (values : List ScalarValue) : Prop where
  mem : row index ∈ values
  typed : (row index).dataType = type
  sound : r.Sound fmt type values

theorem not_nan_of_eq {literal : StatsLiteral} {x c : ScalarValue}
    (ha : literal.Admitted fmt c columnType) (h : compareScalars x c = some .eq) : x.isNaN = false := by
  have henc := ha.encoded
  have hfin := ha.finite
  cases x <;> simp only [ScalarValue.isNaN] <;> cases c <;>
    simp only [compareScalars, reduceCtorEq, Option.some.injEq, order_eq] at h
  case float16 => simp [encodeScalar] at henc
  case float32 a b | float64 a b =>
    rw [Ieee.Fp.eq_of_key_eq h]
    have hb : b.isFinite = true := by
      simpa [rendersUnquoted, ScalarValue.dataType, DataType.isNumeric] using hfin rfl
    simp only [Ieee.Fp.isNaN, Ieee.Fp.isFinite, decide_eq_true_eq, decide_eq_false_iff_not] at hb ⊢
    omega

theorem not_null_of_compare {x c : ScalarValue} {o : Ordering} (h : compareScalars x c = some o) :
    x.isNull = false := by
  cases x <;> first | rfl | (cases c <;> simp [compareScalars] at h)

@[simp] theorem truth_ofTruth (t : Truth) : truth (ofTruth t) = t := by
  rcases t with _ | b <;> rfl

theorem compareScalars_swap (a b : ScalarValue) :
    compareScalars b a = (compareScalars a b).map Ordering.swap := by
  cases a <;> cases b <;> simp only [compareScalars, Option.map_some, Option.map_none, order_swap]
  case integer.decimal128 => split <;> simp [order_swap]
  case decimal128.integer => split <;> simp [order_swap]
  case decimal128.decimal128 v p s w q u =>
    by_cases h : p = q ∧ s = u
    · rw [if_pos h, if_pos ⟨h.1.symm, h.2.symm⟩]
      simp [order_swap]
    · rw [if_neg h, if_neg fun h' => h ⟨h'.1.symm, h'.2.symm⟩]
      by_cases h' : 0 ≤ s ∧ 0 ≤ u
      · rw [if_pos h', if_pos h'.symm]
        simp [order_swap]
      · rw [if_neg h', if_neg fun h'' => h' h''.symm]
        rfl
  case time.time u v w v' =>
    by_cases h : u = w
    · simp [h, order_swap]
    · simp [h, Ne.symm h]
  case timestamp.timestamp u tz v w tz' v' =>
    by_cases h : u = w ∧ tz = tz'
    · simp [h, order_swap]
    · rw [if_neg h, if_neg fun h' => h ⟨h'.1.symm, h'.2.symm⟩]
      rfl
  case other.other n v m v' =>
    by_cases h : n = m
    · simp [h, order_swap]
    · simp [h, Ne.symm h]

theorem compareOp_flip {op op' : Operator} {a b : ScalarValue} (hf : flipOperator op = some op')
    (h : compareOp op a b = some true) : compareOp op' b a = some true := by
  obtain ⟨o, ho, hadm⟩ := Option.map_eq_some_iff.1 h
  rw [compareOp, compareScalars_swap, ho]
  cases op <;> simp only [flipOperator, Option.some.injEq, reduceCtorEq] at hf <;> subst hf <;>
    cases o <;> simp_all [Operator.admits]

theorem eq_column_of_isSubject {e : PhysicalExpr} (h : isSubject index e = true) :
    e = .column index := by
  cases e <;> simp_all [isSubject]

theorem eq_literal_of_asLiteral {e : PhysicalExpr} {v : ScalarValue} (h : asLiteral e = some v) :
    e = .literal v := by
  cases e <;> simp_all [asLiteral]

theorem comparisonParts_sound (fn : Functions) (row : Row)
    {l r : PhysicalExpr} {op op' : Operator} {v : ScalarValue}
    (h : comparisonParts l op r index = some (v, op'))
    (hsat : compareOp op (l.eval fn row) (r.eval fn row) = some true) :
    compareOp op' (row index) v = some true := by
  unfold comparisonParts at h
  split at h
  · rename_i hs
    obtain ⟨w, hw, heq⟩ := Option.map_eq_some_iff.1 h
    cases heq
    rw [eq_column_of_isSubject hs, eq_literal_of_asLiteral hw] at hsat
    simpa [PhysicalExpr.eval] using hsat
  · split at h
    · rename_i hs
      split at h
      · rename_i w op'' hw hop
        cases h
        rw [eq_column_of_isSubject hs, eq_literal_of_asLiteral hw] at hsat
        exact compareOp_flip hop (by simpa [PhysicalExpr.eval] using hsat)
      · cases h
    · cases h

theorem lowerNode_other {l r : PhysicalExpr} {name : Text} :
    lowerNode fmt index columnType (.binary l (.other name) r) = none := by
  simp only [lowerNode, lowerComparison]
  split
  · rfl
  · next v op' hparts =>
    split
    · rfl
    · unfold comparisonParts at hparts
      split at hparts
      · obtain ⟨w, -, heq⟩ := Option.map_eq_some_iff.1 hparts
        cases heq
        rfl
      · split at hparts
        · simp [flipOperator] at hparts
        · cases hparts

theorem lowerElements_mem : ∀ {list : List PhysicalExpr} {parts : List StatsExpr},
    lowerElements fmt columnType list = some parts →
    ∀ e ∈ list, ∃ v literal, e = .literal v ∧ StatsLiteral.forColumn fmt v columnType = some literal ∧
      StatsExpr.literalWithinBounds literal ∈ parts
  | [], _, _, e, he => by cases he
  | d :: list, parts, h, e, he => by
    simp only [lowerElements] at h
    split at h
    · rename_i literal parts' hlit hparts
      cases h
      rcases List.mem_cons.1 he with rfl | he
      · obtain ⟨v, hv, hl⟩ := Option.bind_eq_some_iff.1 hlit
        exact ⟨v, literal, eq_literal_of_asLiteral hv, hl, List.mem_cons_self ..⟩
      · obtain ⟨v, l, hv, hl, hm⟩ := lowerElements_mem hparts e he
        exact ⟨v, l, hv, hl, List.mem_cons_of_mem _ hm⟩
    · cases h

theorem evalList_eq_map (fn : Functions) (row : Row) :
    ∀ es : List PhysicalExpr, evalList fn row es = es.map (·.eval fn row)
  | [] => rfl
  | e :: es => by simp [evalList, evalList_eq_map fn row es]

theorem renders_orOf {parts : List StatsExpr} (h : ∃ c ∈ parts, Renders D r c) :
    Renders D r (orOf parts) := by
  unfold orOf
  split
  · obtain ⟨c, hc, hr⟩ := h
    rwa [List.mem_singleton.1 hc] at hr
  · exact renders_or h

section Lowered
variable (hD : D.Faithful fmt) {index : Nat} {type : DataType} {row : Row} {r : StatsRow}
  {values : List ScalarValue} (hcol : Column fmt index type row r values)
include hD hcol

/-- A satisfied comparison renders to SQL that is possible for the file. -/
theorem comparison_renders {literal : StatsLiteral} {c : ScalarValue} {op : Operator} {cond : StatsExpr}
    {stats : Finset StatKind} (ha : literal.Admitted fmt c type)
    (hop : compareOp op (row index) c = some true) (hl : lowerOperator op literal = some (cond, stats))
    (hnan : (row index).isNaN = false ∨ needsFloatGate cond = false) : Renders D r cond := by
  obtain ⟨o, hcmp, ho⟩ := Option.map_eq_some_iff.1 hop
  have hnull := not_null_of_compare hcmp
  intro q hq
  have low {term : SqlTerm} (hn : (row index).isNaN = false) (h : literal.convert D .minValue = some term) :=
    convert_low hD ha h hcmp hcol.typed hcol.mem hnull hn hcol.sound
  have high {term : SqlTerm} (hn : (row index).isNaN = false) (h : literal.convert D .maxValue = some term) :=
    convert_high hD ha h hcmp hcol.typed hcol.mem hnull hn hcol.sound
  cases op <;> simp only [lowerOperator, Option.some.injEq, Prod.mk.injEq, reduceCtorEq] at hl <;>
    obtain ⟨rfl, -⟩ := hl
  case eq =>
    have heq : o = .eq := by simpa [Operator.admits] using ho
    subst heq
    have hn := not_nan_of_eq ha hcmp
    simp only [renderExpr] at hq
    split at hq
    · rename_i min max hmin hmax
      exact within_possible ha hcmp (low hn hmin) (high hn hmax) hq
    · cases hq
  case notEq =>
    have hn : (row index).isNaN = false := by simpa [needsFloatGate] using hnan
    simp only [renderExpr] at hq
    split at hq
    · cases hq
    rename_i hz
    split at hq
    · rename_i min max hmin hmax
      exact notEvery_possible ha hcmp (by simpa [Operator.admits] using ho) hz (low hn hmin) (high hn hmax) hq
    · cases hq
  all_goals
    have hn : (row index).isNaN = false := by simpa [needsFloatGate] using hnan
    simp only [renderExpr] at hq
    obtain ⟨term, hterm, hq⟩ := Option.bind_eq_some_iff.1 hq
    simp only [Operator.admits, beq_iff_eq, bne_iff_ne, ne_eq] at ho
  case lt => exact lower_possible ha hcmp (Or.inl ⟨rfl, ho⟩) (low hn hterm) hq
  case ltEq => exact lower_possible ha hcmp (Or.inr ⟨rfl, ho⟩) (low hn hterm) hq
  case gt => exact upper_possible ha hcmp (Or.inl ⟨rfl, ho⟩) (high hn hterm) hq
  case gtEq => exact upper_possible ha hcmp (Or.inr ⟨rfl, ho⟩) (high hn hterm) hq

/-- What lowering one node promises about a row that satisfies it. -/
def NodeKept (D : Dialect) (r : StatsRow) (x : ScalarValue) (cond : StatsExpr) (stats : Finset StatKind) :
    Prop :=
  (x.isNaN = false ∨ needsFloatGate cond = false → Renders D r cond) ∧
    (x.isNull = true → StatKind.nullCount ∈ stats)

theorem lowerComparison_keeps (fn : Functions) {left right : PhysicalExpr}
    {op : Operator} {cond : StatsExpr} {stats : Finset StatKind}
    (hl : lowerComparison fmt left op right index type = some (cond, stats))
    (hsat : compareOp op (left.eval fn row) (right.eval fn row) = some true) :
    NodeKept D r (row index) cond stats := by
  unfold lowerComparison at hl
  split at hl
  · cases hl
  rename_i v op' hparts
  split at hl
  · cases hl
  rename_i literal hlit
  have ha := forColumn_admitted hlit
  have hop := comparisonParts_sound fn row hparts hsat
  obtain ⟨o, hcmp, -⟩ := Option.map_eq_some_iff.1 hop
  refine ⟨comparison_renders hD hcol ha hop hl, fun hnull => ?_⟩
  rw [not_null_of_compare hcmp] at hnull
  cases hnull

theorem inList_keeps (fn : Functions) {list : List PhysicalExpr}
    {parts : List StatsExpr} (hl : lowerElements fmt type list = some parts)
    (hsat : disj ((evalList fn row list).map (compareOp .eq (row index))) = some true) :
    NodeKept D r (row index) (orOf parts) {.minValue, .maxValue} := by
  rw [disj_eq_true, evalList_eq_map, List.map_map, List.mem_map] at hsat
  obtain ⟨e, he, heq⟩ := hsat
  obtain ⟨v, literal, rfl, hlit, hmem⟩ := lowerElements_mem hl e he
  simp only [Function.comp, PhysicalExpr.eval] at heq
  have ha := forColumn_admitted hlit
  obtain ⟨o, hcmp, -⟩ := Option.map_eq_some_iff.1 heq
  constructor
  · intro _
    apply renders_orOf
    exact ⟨_, hmem, comparison_renders hD hcol ha heq rfl (Or.inr rfl)⟩
  · intro hnull
    rw [not_null_of_compare hcmp] at hnull
    cases hnull

/-- Lowering keeps a satisfying row, by recursion over the predicate's tree. -/
theorem lowerNode_keeps (fn : Functions) : ∀ (e : PhysicalExpr)
    {cond : StatsExpr} {stats : Finset StatKind}, lowerNode fmt index type e = some (cond, stats) →
    e.Satisfied fn row → NodeKept D r (row index) cond stats
  | .binary l .and rt, cond, stats, hl, hsat => by
    have hboth : l.Satisfied fn row ∧ rt.Satisfied fn row := by
      simpa [PhysicalExpr.Satisfied, PhysicalExpr.eval, evalBinary, and_eq_true] using hsat
    simp only [lowerNode] at hl
    split at hl
    · rename_i a sa b sb ha hb
      cases hl
      have ka := lowerNode_keeps fn l ha hboth.1
      have kb := lowerNode_keeps fn rt hb hboth.2
      refine ⟨fun hgate => ?_, fun hnull => Finset.mem_union_left _ (ka.2 hnull)⟩
      simp only [needsFloatGate, anyFloatGate_eq_false, List.mem_cons, List.not_mem_nil, or_false,
        forall_eq_or_imp, forall_eq] at hgate
      rw [renders_and]
      simp only [List.mem_cons, List.not_mem_nil, or_false, forall_eq_or_imp, forall_eq]
      exact ⟨ka.1 (hgate.imp_right And.left), kb.1 (hgate.imp_right And.right)⟩
    · rename_i p hp hn
      cases hl
      exact lowerNode_keeps fn l hp hboth.1
    · exact lowerNode_keeps fn rt hl hboth.2
  | .binary l .or rt, cond, stats, hl, hsat => by
    have hone : l.Satisfied fn row ∨ rt.Satisfied fn row := by
      simpa [PhysicalExpr.Satisfied, PhysicalExpr.eval, evalBinary, or_eq_true] using hsat
    simp only [lowerNode] at hl
    split at hl
    · rename_i a sa b sb ha hb
      cases hl
      constructor
      · intro hgate
        simp only [needsFloatGate, anyFloatGate_eq_false, List.mem_cons, List.not_mem_nil, or_false,
          forall_eq_or_imp, forall_eq] at hgate
        apply renders_or
        rcases hone with hsat | hsat
        · exact ⟨a, by simp, (lowerNode_keeps fn l ha hsat).1 (hgate.imp_right And.left)⟩
        · exact ⟨b, by simp, (lowerNode_keeps fn rt hb hsat).1 (hgate.imp_right And.right)⟩
      · intro hnull
        rcases hone with hsat | hsat
        · exact Finset.mem_union_left _ ((lowerNode_keeps fn l ha hsat).2 hnull)
        · exact Finset.mem_union_right _ ((lowerNode_keeps fn rt hb hsat).2 hnull)
    · cases hl
  | .binary l .eq rt, _, _, hl, hsat | .binary l .notEq rt, _, _, hl, hsat
  | .binary l .lt rt, _, _, hl, hsat | .binary l .ltEq rt, _, _, hl, hsat
  | .binary l .gt rt, _, _, hl, hsat | .binary l .gtEq rt, _, _, hl, hsat => by
    simp only [PhysicalExpr.Satisfied, PhysicalExpr.eval, evalBinary, truth_ofTruth] at hsat
    exact lowerComparison_keeps hD hcol fn hl hsat
  | .binary l (.other name) rt, cond, stats, hl, _ => by
    rw [lowerNode_other] at hl
    cases hl
  | .isNull e, cond, stats, hl, hsat => by
    simp only [lowerNode] at hl
    split at hl
    · rename_i hs
      cases hl
      refine ⟨fun _ q hq => ?_, fun _ => Finset.mem_singleton_self _⟩
      rw [eq_column_of_isSubject hs] at hsat
      have hnull : (row index).isNull = true := by
        simpa [PhysicalExpr.Satisfied, PhysicalExpr.eval, truth] using hsat
      cases hq
      rw [SqlExpr.eval]
      cases hn : r.nullCount with
      | none => simp [StatsRow.count, hn]
      | some n =>
        have hpos : 0 < values.countP ScalarValue.isNull := List.countP_pos_iff.2 ⟨_, hcol.mem, hnull⟩
        have := hcol.sound.nulls n hn
        simp only [StatsRow.count, hn, Option.bind_some, Option.map_some, possible_some, decide_eq_true_eq]
        omega
    · cases hl
  | .isNotNull e, cond, stats, hl, hsat => by
    simp only [lowerNode] at hl
    split at hl
    · rename_i hs
      cases hl
      rw [eq_column_of_isSubject hs] at hsat
      have hnull : (row index).isNull = false := by
        simpa [PhysicalExpr.Satisfied, PhysicalExpr.eval, truth] using hsat
      refine ⟨fun _ q hq => ?_, fun h => by rw [hnull] at h; cases h⟩
      cases hq
      rw [SqlExpr.eval]
      cases hn : r.valueCount with
      | none => simp [StatsRow.count, hn]
      | some n =>
        have hpos : 0 < values.countP (fun v => !v.isNull) :=
          List.countP_pos_iff.2 ⟨_, hcol.mem, by simp [hnull]⟩
        have := hcol.sound.nonNulls n hn
        simp only [StatsRow.count, hn, Option.bind_some, Option.map_some, possible_some, decide_eq_true_eq]
        omega
    · cases hl
  | .inList e list negated, cond, stats, hl, hsat => by
    simp only [lowerNode] at hl
    split at hl
    · cases hl
    rename_i hcond
    simp only [Bool.or_eq_true, not_or, Bool.not_eq_true, Bool.not_eq_false'] at hcond
    obtain ⟨parts, hparts, heq⟩ := Option.map_eq_some_iff.1 hl
    cases heq
    rw [eq_column_of_isSubject hcond.1.2] at hsat
    simp only [PhysicalExpr.Satisfied, PhysicalExpr.eval, truth_ofTruth, hcond.1.1, Bool.false_eq_true,
      if_false] at hsat
    exact inList_keeps hD hcol fn hparts hsat
  | .column i, _, _, hl, _ => by cases hl
  | .literal v, _, _, hl, _ => by cases hl
  | .call n args, _, _, hl, _ => by cases hl

end Lowered

/-! ## The whole filter -/

/-- A column's condition keeps the file: what it renders to is possible, and either
it can be met by a NULL or the file is not known to hold only NULLs. -/
def Keeps (D : Dialect) (r : StatsRow) (l : Lowered) : Prop :=
  Renders D r l.condition ∧ (StatKind.nullCount ∈ l.referencedStats ∨ ∀ n, r.valueCount = some n → 0 < n)

theorem Keeps.merge {a b : Lowered} (ha : Keeps D r a) (hb : Keeps D r b) :
    Keeps D r (a.merge b) := by
  constructor
  · unfold Lowered.merge
    simp only
    split
    · rename_i parts hcond
      have hparts := ha.1
      rw [hcond, renders_and] at hparts
      rw [renders_and]
      intro c hc
      rcases List.mem_append.1 hc with hc | hc
      · exact hparts c hc
      · rw [List.mem_singleton.1 hc]
        exact hb.1
    · rw [renders_and]
      simp only [List.mem_cons, List.not_mem_nil, or_false, forall_eq_or_imp, forall_eq]
      exact ⟨ha.1, hb.1⟩
  · exact ha.2.imp_left (Finset.mem_union_left _)

theorem isNaN_of_not_float {x : ScalarValue} (h : x.dataType.isFloat = false) : x.isNaN = false := by
  cases x <;> simp_all [ScalarValue.dataType, DataType.isFloat, ScalarValue.isNaN]

section File
variable (hD : D.Faithful fmt) (fn : Functions) {schema : List DataType}
  {columns : List Nat} {file : DataFile} (hfile : file.Sound fmt schema columns) {row : Row}
  (hrow : row ∈ file.rows)
include hD hfile hrow

theorem lowerConjunct_keeps {e : PhysicalExpr} {id : Nat} {l : Lowered}
    (hl : lowerConjunct fmt schema columns e = some (id, l)) (hsat : e.Satisfied fn row) :
    ∀ r, file.stats id = some r → Keeps D r l := by
  intro r hr
  unfold lowerConjunct at hl
  split at hl
  · cases hl
  rename_i index hsole
  split at hl
  · rename_i type columnId htype hcolumn
    split at hl
    · cases hl
    rename_i cond stats hnode
    cases hl
    obtain ⟨htyped, hsound⟩ := hfile index type id htype hcolumn
    have hcol : Column fmt index type row r (file.rows.map (· index)) :=
      ⟨List.mem_map_of_mem hrow, htyped row hrow, hsound r hr⟩
    obtain ⟨hren, hnull⟩ := lowerNode_keeps hD hcol fn e hnode hsat
    constructor
    · by_cases hgate : (needsFloatGate cond && type.isFloat) = true
      · simp only [hgate, if_true]
        apply renders_or
        cases hx : (row index).isNaN with
        | false => exact ⟨cond, by simp, hren (Or.inl hx)⟩
        | true =>
          -- a NaN row: the flag is unknown or set
          refine ⟨.floatBoundsUnusable, by simp, fun q hq => ?_⟩
          cases hq
          have hany : (file.rows.map (· index)).any ScalarValue.isNaN = true :=
            List.any_eq_true.2 ⟨_, hcol.mem, hx⟩
          have hflag : r.containsNan ≠ some false := fun h => by
            have := hcol.sound.nan false h
            rw [hany] at this
            cases this
          simpa [SqlExpr.eval] using hflag
      · simp only [hgate, Bool.false_eq_true, if_false]
        apply hren
        simp only [Bool.and_eq_true, not_and, Bool.not_eq_true] at hgate
        by_cases hneed : needsFloatGate cond = true
        · left
          apply isNaN_of_not_float
          rw [hcol.typed]
          exact hgate hneed
        · exact Or.inr (by simpa using hneed)
    · cases hx : (row index).isNull with
      | true =>
        left
        simp only
        split
        · exact Finset.mem_insert_of_mem (hnull hx)
        · exact hnull hx
      | false =>
        right
        intro n hn
        have hpos : 0 < (file.rows.map (· index)).countP (fun v => !v.isNull) :=
          List.countP_pos_iff.2 ⟨_, hcol.mem, by simp [hx]⟩
        have := hcol.sound.nonNulls n hn
        omega
  · cases hl

omit hD hfile hrow in
theorem splitConjunction_satisfied : ∀ (e : PhysicalExpr), e.Satisfied fn row →
    ∀ c ∈ splitConjunction e, c.Satisfied fn row
  | .binary l .and r, h, c, hc => by
    have hboth : l.Satisfied fn row ∧ r.Satisfied fn row := by
      simpa [PhysicalExpr.Satisfied, PhysicalExpr.eval, evalBinary, and_eq_true] using h
    rw [splitConjunction] at hc
    rcases List.mem_append.1 hc with hc | hc
    · exact splitConjunction_satisfied l hboth.1 c hc
    · exact splitConjunction_satisfied r hboth.2 c hc
  | .binary _ .or _, h, c, hc | .binary _ .eq _, h, c, hc | .binary _ .notEq _, h, c, hc
  | .binary _ .lt _, h, c, hc | .binary _ .ltEq _, h, c, hc | .binary _ .gt _, h, c, hc
  | .binary _ .gtEq _, h, c, hc | .binary _ (.other _) _, h, c, hc | .column _, h, c, hc
  | .literal _, h, c, hc | .isNull _, h, c, hc | .isNotNull _, h, c, hc | .inList _ _ _, h, c, hc
  | .call _ _, h, c, hc => by
    rw [splitConjunction, List.mem_singleton] at hc
    · rwa [hc]
    all_goals simp

end File

theorem renderColumn_possible {stats : FileStats} {id : Nat} {l : Lowered} {c : Nat × SqlExpr}
    (hk : ∀ r, stats id = some r → Keeps D r l) (hc : renderColumn D (.ofLowered id l) = some c) :
    Possible (c.2.eval (stats c.1)) := by
  obtain ⟨cond, hcond, rfl⟩ := Option.map_eq_some_iff.1 hc
  change Possible (SqlExpr.eval (stats id) _)
  rw [SqlExpr.eval, evalParts_eq_map, possible_disj]
  simp only [List.map_cons, List.map_nil, List.mem_cons, List.not_mem_nil, or_false, exists_eq_or_imp,
    exists_eq_left]
  cases hr : stats id with
  | none =>
    left
    simp [SqlExpr.eval]
  | some r =>
    right
    obtain ⟨hren, hcount⟩ := hk r hr
    have hchecked (checks : List SqlExpr) :
        Possible (SqlExpr.eval (some r) (.or (checks ++ [cond]))) := by
      rw [SqlExpr.eval, evalParts_eq_map, possible_disj]
      exact ⟨_, List.mem_map_of_mem (List.mem_append_right _ (List.mem_singleton_self _)), hren cond hcond⟩
    by_cases hguard : (StatsColumnFilter.ofLowered id l).needsValueCountGuard = true
    · rw [if_pos hguard, SqlExpr.eval, evalParts_eq_map, possible_conj]
      simp only [List.map_cons, List.map_nil, List.mem_cons, List.not_mem_nil, or_false,
        forall_eq_or_imp, forall_eq]
      refine ⟨?_, hchecked _⟩
      -- the guard is only there for a condition no NULL row meets
      simp only [StatsColumnFilter.ofLowered, Bool.and_eq_true, decide_eq_true_eq] at hguard
      have hpos := hcount.resolve_left hguard.1
      rw [SqlExpr.eval, evalParts_eq_map, possible_disj]
      cases hn : r.valueCount with
      | none =>
        refine ⟨_, List.mem_map_of_mem (List.mem_cons_self ..), ?_⟩
        simp [SqlExpr.eval, StatsRow.isNull, hn]
      | some n =>
        refine ⟨_, List.mem_map_of_mem (List.mem_cons_of_mem _ (List.mem_singleton_self _)), ?_⟩
        simp [SqlExpr.eval, StatsRow.count, hn, hpos n hn]
    · rw [if_neg hguard]
      exact hchecked _

/-- A file with a row that satisfies the predicate is listed: no condition lowering
and rendering produce is false of it. -/
theorem lowered_filter_keeps_file (fmt : FloatText) (D : Dialect) (hD : D.Faithful fmt)
    (fn : Functions) (schema : List DataType) (columns : List Nat)
    (predicate : PhysicalExpr) (filter : List StatsColumnFilter)
    (hl : lowerPredicate fmt schema columns predicate = some filter)
    (file : DataFile) (hfile : file.Sound fmt schema columns) (row : Row) (hrow : row ∈ file.rows)
    (hsat : predicate.Satisfied fn row) :
    (∀ c ∈ filter.filterMap (renderColumn D), Possible (c.2.eval (file.stats c.1))) ∧
      listed D filter file.stats = true := by
  have hpossible : ∀ c ∈ filter.filterMap (renderColumn D), Possible (c.2.eval (file.stats c.1)) := by
    intro c hc
    obtain ⟨column, hcolumn, hren⟩ := List.mem_filterMap.1 hc
    obtain ⟨id, l, rfl, hkeep⟩ :=
      @lowerPredicate_forall fmt (fun id l => ∀ r, file.stats id = some r → Keeps D r l)
        (fun ha hb r hr => (ha r hr).merge (hb r hr)) schema columns predicate filter hl
        (fun e he id l hlow =>
          lowerConjunct_keeps hD fn hfile hrow hlow (splitConjunction_satisfied fn predicate hsat e he))
        column hcolumn
    exact renderColumn_possible hkeep hren
  refine ⟨hpossible, ?_⟩
  rw [listed, List.all_eq_true]
  intro c hc
  exact isNotFalse_iff.2 (hpossible c hc)

/-! ## A dialect and a file

The hypotheses above are met by a dialect that reads integers, and a file of one
integer column with a NULL. -/

/-- Casts to integer types only, and reads integers only. -/
def integerDialect : Dialect where
  tryCast _ target := match target with
    | .integer _ => some fun t => (Numeral.parseInt t).map fun (v : Int) => .num (v : ℚ)
    | _ => none

theorem integerDialect_faithful (fmt : FloatText) : integerDialect.Faithful fmt where
  exact := by
    intro literal target conversion t v hcast hsp hex
    cases target with
    | integer u =>
      cases hcast
      have hspell : encodeScalar fmt v = some t := by
        cases v <;> simp [exactCast, ScalarValue.dataType] at hex <;>
          simpa [Spells, encodeFileStat] using hsp
      cases v <;> simp [exactCast, ScalarValue.dataType] at hex
      case null => simp [encodeScalar] at hspell
      case integer w n =>
        cases hspell
        exact Or.inr (by simp [parseInt_intText, sqlOf])
      case decimal128 n p s =>
        cases hspell
        by_cases hs : s ≤ 0
        · right
          simp [encodeDecimal128, hs, parseInt_intText, sqlOf, Int.toNat_of_nonpos hs]
        · left
          have hpoint : '.' ∈ encodeDecimal128 n s := point_mem_encodeDecimal128 n (by omega)
          simp [Numeral.parseInt_eq_none_of_mem hpoint (by decide) (by decide) (by decide)]
    | _ => cases hcast
  single := by
    intro literal conversion t x hcast
    cases hcast

/-- `a > 4 AND (a IN (5, 9) OR a IS NULL)` over the first column. -/
def samplePredicate : PhysicalExpr :=
  let a := PhysicalExpr.column 0
  let int (v : Int) := PhysicalExpr.literal (.integer .int32 v)
  .binary (.binary a .gt (int 4)) .and (.binary (.inList a [int 5, int 9] false) .or (.isNull a))

/-- Rows `5` and NULL, with their statistics under column id 7. -/
def sampleFile : DataFile where
  rows := [fun _ => .integer .int32 5, fun _ => .null (.integer .int32)]
  stats := fun id => if id = 7 then
    some { minValue := some ['5'], maxValue := some ['5'], nullCount := some 1, valueCount := some 1,
           containsNan := none } else none

theorem sampleFile_sound (fmt : FloatText) : sampleFile.Sound fmt [.integer .int32] [7] := by
  intro i type id htype hid
  have hi : i = 0 := by
    by_contra hne
    rw [List.getElem?_eq_none (by simp; omega)] at htype
    cases htype
  subst hi
  cases htype
  cases hid
  refine ⟨by simp [sampleFile, ScalarValue.dataType], fun r hr => ?_⟩
  cases hr
  have hspell : Spells fmt ['5'] (.integer .int32 5) := Or.inl (congrArg some (by decide))
  refine ⟨?_, ?_, ?_, ?_, ?_⟩
  · rintro t ⟨⟩
    refine ⟨.integer .int32 5, rfl, rfl, hspell, ?_⟩
    simp [sampleFile, ScalarValue.isNull, ScalarValue.isNaN, boundLe, sqlOf, SqlLe, compareSql, order_eq]
  · rintro t ⟨⟩
    refine ⟨.integer .int32 5, rfl, rfl, hspell, ?_⟩
    simp [sampleFile, ScalarValue.isNull, ScalarValue.isNaN, boundLe, sqlOf, SqlLe, compareSql, order_eq]
  · rintro n ⟨⟩
    rfl
  · rintro n ⟨⟩
    rfl
  · rintro n ⟨⟩

/-- A float printer that prints nothing; the sample has no float column. -/
def noFloats : FloatText := ⟨fun _ => none, fun _ => none⟩

/-- The row `5` satisfies the sample predicate, so the sample file is listed. -/
theorem sampleFile_listed :
    ∃ l, lowerPredicate noFloats [.integer .int32] [7] samplePredicate = some [.ofLowered 7 l] ∧
      listed integerDialect [.ofLowered 7 l] sampleFile.stats = true := by
  obtain ⟨l, hl⟩ : ∃ l, lowerConjuncts noFloats [.integer .int32] [7] (splitConjunction samplePredicate)
      = [(7, l)] := ⟨_, rfl⟩
  have hfilter : lowerPredicate noFloats [.integer .int32] [7] samplePredicate = some [.ofLowered 7 l] := by
    simp [lowerPredicate, hl]
  exact ⟨l, hfilter, (lowered_filter_keeps_file noFloats integerDialect (integerDialect_faithful noFloats)
    (fun _ _ => .null .boolean) [.integer .int32] [7] samplePredicate _ hfilter sampleFile
    (sampleFile_sound noFloats) (fun _ => .integer .int32 5) (List.mem_cons_self ..) rfl).2⟩

end DuckLake.Prune
