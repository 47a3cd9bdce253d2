import DuckLake.Partition.Spec
import DuckLake.Prune.Sound

/- The partition pre-filter keeps every file that holds an answer.

   Three facts meet. A row that satisfies a predicate has, in a column the predicate
   proves equal to one of some constants, the value of one of them. A canonical text
   spells one integer, so a recorded value that is canonical and not among the constants'
   texts is another value. And while a table has had one generation only, every value the
   catalog records was written under the columns the pre-filter maps it through. -/

namespace DuckLake.Partition

open Prune Versioned

/-! ## The constants a predicate names -/

theorem mem_equalitySome {literal : StatsLiteral} : ∀ {cs : List StatsExpr},
    literal ∈ equalitySome cs ↔ ∃ c ∈ cs, ∃ values, equalityValues c = some values ∧ literal ∈ values
  | [] => by simp [equalitySome]
  | c :: cs => by
    rw [equalitySome, List.mem_append, @mem_equalitySome literal cs]
    cases h : equalityValues c <;> simp [h]

theorem mem_equalityAll {c : StatsExpr} : ∀ {cs : List StatsExpr} {values : List StatsLiteral},
    equalityAll cs = some values → c ∈ cs →
      ∃ named, equalityValues c = some named ∧ ∀ literal ∈ named, literal ∈ values
  | [], _, _, hc => absurd hc List.not_mem_nil
  | d :: cs, values, h, hc => by
    rw [equalityAll] at h
    split at h
    · next named rest hd hrest =>
      cases h
      rcases List.mem_cons.mp hc with rfl | hc
      · exact ⟨named, hd, fun literal hl => List.mem_append_left _ hl⟩
      · obtain ⟨named', hn, hsub⟩ := mem_equalityAll hrest hc
        exact ⟨named', hn, fun literal hl => List.mem_append_right _ (hsub literal hl)⟩
    · cases h

/-- The constants a condition names include one equal to `v`. -/
def Names (fmt : FloatText) (v : ScalarValue) (cond : StatsExpr) : Prop :=
  ∀ values, equalityValues cond = some values →
    ∃ literal ∈ values, ∃ c, StatsLiteral.new fmt c = some literal ∧ compareScalars v c = some .eq

variable {fmt : FloatText} {v : ScalarValue}

theorem names_and {cs : List StatsExpr} (h : ∀ c ∈ cs, Names fmt v c) : Names fmt v (.and cs) := by
  intro values hvalues
  rw [equalityValues] at hvalues
  split at hvalues
  · cases hvalues
  · next hne =>
    cases hvalues
    obtain ⟨literal, hliteral⟩ := List.exists_mem_of_ne_nil _ (by simpa using hne)
    obtain ⟨c, hc, named, hnamed, -⟩ := mem_equalitySome.mp hliteral
    obtain ⟨literal, hl, hlit⟩ := h c hc named hnamed
    exact ⟨literal, mem_equalitySome.mpr ⟨c, hc, named, hnamed, hl⟩, hlit⟩

theorem names_or {cs : List StatsExpr} {c : StatsExpr} (hc : c ∈ cs) (h : Names fmt v c) :
    Names fmt v (.or cs) := by
  intro values hvalues
  rw [equalityValues] at hvalues
  split at hvalues
  · next all hall =>
    split at hvalues
    · cases hvalues
    · cases hvalues
      obtain ⟨named, hnamed, hsub⟩ := mem_equalityAll hall hc
      obtain ⟨literal, hl, hlit⟩ := h named hnamed
      exact ⟨literal, hsub literal hl, hlit⟩
  · cases hvalues

theorem names_none {cond : StatsExpr} (h : equalityValues cond = none) : Names fmt v cond := by
  intro values hvalues
  rw [h] at hvalues
  cases hvalues

theorem new_of_forColumn {c : ScalarValue} {type : DataType} {literal : StatsLiteral}
    (h : StatsLiteral.forColumn fmt c type = some literal) : StatsLiteral.new fmt c = some literal := by
  unfold StatsLiteral.forColumn at h
  split at h
  · exact h
  · cases h

theorem compare_eq_of_satisfied {c : ScalarValue} (h : compareOp .eq v c = some true) :
    compareScalars v c = some .eq := by
  obtain ⟨o, ho, hadmits⟩ := Option.map_eq_some_iff.mp h
  rw [ho]
  cases o <;> simp_all [Operator.admits]

section Row
variable (fn : Functions) {row : Row} {index : Nat} {type : DataType}

theorem lowerComparison_names {l r : PhysicalExpr} {op : Operator} {cond : StatsExpr} {stats : Finset StatKind}
    (hl : lowerComparison fmt l op r index type = some (cond, stats))
    (hsat : compareOp op (l.eval fn row) (r.eval fn row) = some true) : Names fmt (row index) cond := by
  unfold lowerComparison at hl
  split at hl
  · cases hl
  · next c op' hparts =>
    split at hl
    · cases hl
    · next literal hliteral =>
      have hop := comparisonParts_sound fn row hparts hsat
      cases op' <;> simp only [lowerOperator, Option.some.injEq, Prod.mk.injEq, reduceCtorEq] at hl <;>
        obtain ⟨rfl, -⟩ := hl
      case eq =>
        intro values hvalues
        cases hvalues
        exact ⟨literal, List.mem_singleton_self _, c, new_of_forColumn hliteral, compare_eq_of_satisfied hop⟩
      all_goals exact names_none (by rw [equalityValues] <;> simp)

theorem inList_names {list : List PhysicalExpr} {parts : List StatsExpr}
    (hl : lowerElements fmt type list = some parts)
    (hsat : Kleene.disj ((evalList fn row list).map (compareOp .eq (row index))) = some true) :
    Names fmt (row index) (orOf parts) := by
  rw [Kleene.disj_eq_true, evalList_eq_map, List.map_map, List.mem_map] at hsat
  obtain ⟨e, he, heq⟩ := hsat
  obtain ⟨c, literal, rfl, hliteral, hmem⟩ := lowerElements_mem hl e he
  have hone : Names fmt (row index) (.literalWithinBounds literal) := by
    intro values hvalues
    cases hvalues
    exact ⟨literal, List.mem_singleton_self _, c, new_of_forColumn hliteral, compare_eq_of_satisfied heq⟩
  unfold orOf
  split
  · rwa [← List.mem_singleton.mp hmem]
  · exact names_or hmem hone

/-- What a satisfied predicate lowers to names the row's value, by recursion over the tree. -/
theorem lowerNode_names : ∀ (e : PhysicalExpr) {cond : StatsExpr} {stats : Finset StatKind},
    lowerNode fmt index type e = some (cond, stats) → e.Satisfied fn row → Names fmt (row index) cond
  | .binary l .and r, cond, stats, hl, hsat => by
    have hboth : l.Satisfied fn row ∧ r.Satisfied fn row := by
      simpa [PhysicalExpr.Satisfied, PhysicalExpr.eval, evalBinary, Kleene.and_eq_true] using hsat
    simp only [lowerNode] at hl
    split at hl
    · next a sa b sb ha hb =>
      cases hl
      apply names_and
      intro c hc
      simp only [List.mem_cons, List.not_mem_nil, or_false] at hc
      rcases hc with rfl | rfl
      · exact lowerNode_names l ha hboth.1
      · exact lowerNode_names r hb hboth.2
    · next p hp hn =>
      cases hl
      exact lowerNode_names l hp hboth.1
    · exact lowerNode_names r hl hboth.2
  | .binary l .or r, cond, stats, hl, hsat => by
    have hone : l.Satisfied fn row ∨ r.Satisfied fn row := by
      simpa [PhysicalExpr.Satisfied, PhysicalExpr.eval, evalBinary, Kleene.or_eq_true] using hsat
    simp only [lowerNode] at hl
    split at hl
    · next a sa b sb ha hb =>
      cases hl
      rcases hone with hsat | hsat
      · exact names_or (List.mem_cons_self ..) (lowerNode_names l ha hsat)
      · exact names_or (List.mem_cons_of_mem _ (List.mem_singleton_self _)) (lowerNode_names r hb hsat)
    · cases hl
  | .binary l .eq r, _, _, hl, hsat | .binary l .notEq r, _, _, hl, hsat
  | .binary l .lt r, _, _, hl, hsat | .binary l .ltEq r, _, _, hl, hsat
  | .binary l .gt r, _, _, hl, hsat | .binary l .gtEq r, _, _, hl, hsat => by
    simp only [PhysicalExpr.Satisfied, PhysicalExpr.eval, evalBinary, truth_ofTruth] at hsat
    exact lowerComparison_names fn hl hsat
  | .binary l (.other name) r, cond, stats, hl, _ => by
    rw [lowerNode_other] at hl
    cases hl
  | .isNull e, cond, stats, hl, _ => by
    simp only [lowerNode] at hl
    split at hl
    · cases hl
      exact names_none (by rw [equalityValues] <;> simp)
    · cases hl
  | .isNotNull e, cond, stats, hl, _ => by
    simp only [lowerNode] at hl
    split at hl
    · cases hl
      exact names_none (by rw [equalityValues] <;> simp)
    · cases hl
  | .inList e list negated, cond, stats, hl, hsat => by
    simp only [lowerNode] at hl
    split at hl
    · cases hl
    · next hcond =>
      simp only [Bool.or_eq_true, not_or, Bool.not_eq_true, Bool.not_eq_false'] at hcond
      obtain ⟨parts, hparts, heq⟩ := Option.map_eq_some_iff.mp hl
      cases heq
      rw [eq_column_of_isSubject hcond.1.2] at hsat
      simp only [PhysicalExpr.Satisfied, PhysicalExpr.eval, truth_ofTruth, hcond.1.1, Bool.false_eq_true,
        if_false] at hsat
      exact inList_names fn hparts hsat
  | .column i, _, _, hl, _ => by cases hl
  | .literal c, _, _, hl, _ => by cases hl
  | .call n args, _, _, hl, _ => by cases hl

end Row

/-- A column's condition names the value, and its spelling is that of the value's type. -/
structure NamesColumn (fmt : FloatText) (v : ScalarValue) (l : Lowered) : Prop where
  named : Names fmt v l.condition
  spelled : ∀ kind, l.partitionText = some kind → partitionTextFor v.dataType = some kind

theorem NamesColumn.merge {a b : Lowered} (ha : NamesColumn fmt v a) (hb : NamesColumn fmt v b) :
    NamesColumn fmt v (a.merge b) := by
  constructor
  · unfold Lowered.merge
    simp only
    split
    · next parts hcond =>
      -- the conditions before and the new one name a constant of their own
      intro values hvalues
      rw [equalityValues] at hvalues
      split at hvalues
      · cases hvalues
      · next hne =>
        cases hvalues
        obtain ⟨literal, hliteral⟩ := List.exists_mem_of_ne_nil _ (by simpa using hne)
        obtain ⟨c, hc, named, hnamed, hl⟩ := mem_equalitySome.mp hliteral
        rcases List.mem_append.mp hc with hc | hc
        · have hbefore : equalityValues a.condition = some (equalitySome parts) := by
            have hmem : literal ∈ equalitySome parts := mem_equalitySome.mpr ⟨c, hc, named, hnamed, hl⟩
            rw [hcond, equalityValues]
            simp only [List.isEmpty_iff, List.ne_nil_of_mem hmem, if_false]
          obtain ⟨literal, hl, hlit⟩ := ha.named _ hbefore
          obtain ⟨c, hc, named, hnamed, hl⟩ := mem_equalitySome.mp hl
          exact ⟨literal, mem_equalitySome.mpr ⟨c, List.mem_append_left _ hc, named, hnamed, hl⟩, hlit⟩
        · rw [List.mem_singleton.mp hc] at hnamed
          obtain ⟨literal, hl, hlit⟩ := hb.named named hnamed
          exact ⟨literal, mem_equalitySome.mpr
            ⟨b.condition, List.mem_append_right _ (List.mem_singleton_self _), named, hnamed, hl⟩, hlit⟩
    · apply names_and
      intro c hc
      simp only [List.mem_cons, List.not_mem_nil, or_false] at hc
      rcases hc with rfl | rfl
      · exact ha.named
      · exact hb.named
  · intro kind hkind
    unfold Lowered.merge at hkind
    simp only at hkind
    split at hkind
    · exact ha.spelled kind hkind
    · cases hkind

/-- The row a reader sees, by the index of the column. -/
def readRow (columns : List Nat) (row : StoredRow) : Row := fun i =>
  match columns[i]? with
  | some id => row id
  | none => .null .boolean

/-- The row has the schema's types. -/
def Typed (schema : List DataType) (columns : List Nat) (row : StoredRow) : Prop :=
  ∀ (i : Nat) (type : DataType) (id : Nat), schema[i]? = some type → columns[i]? = some id → (row id).dataType = type

theorem lowerConjunct_names (fn : Functions) {schema : List DataType}
    {columns : List Nat} {row : StoredRow} (htyped : Typed schema columns row) {e : PhysicalExpr} {id : Nat}
    {l : Lowered} (hl : lowerConjunct fmt schema columns e = some (id, l))
    (hsat : e.Satisfied fn (readRow columns row)) : NamesColumn fmt (row id) l := by
  unfold lowerConjunct at hl
  split at hl
  · cases hl
  · next index hindex =>
    split at hl
    · next type columnId htype hcolumn =>
      split at hl
      · cases hl
      · next cond stats hnode =>
        have hnames := lowerNode_names fn e hnode hsat
        have hrow : readRow columns row index = row columnId := by simp only [readRow, hcolumn]
        rw [hrow] at hnames
        simp only [Option.some.injEq, Prod.mk.injEq] at hl
        obtain ⟨rfl, rfl⟩ := hl
        constructor
        · simp only
          split
          · exact names_or (List.mem_cons_of_mem _ (List.mem_singleton_self _)) hnames
          · exact hnames
        · intro kind hkind
          rw [htyped index type columnId htype hcolumn]
          exact hkind
    · cases hl

/-- Every column filter of a satisfied predicate names the row's value of its column. -/
theorem filter_names (fn : Functions) {schema : List DataType} {columns : List Nat}
    {predicate : PhysicalExpr} {filter : List StatsColumnFilter}
    (hfilter : lowerPredicate fmt schema columns predicate = some filter) {row : StoredRow}
    (htyped : Typed schema columns row) (hsat : predicate.Satisfied fn (readRow columns row))
    {column : StatsColumnFilter} (hcolumn : column ∈ filter) :
    Names fmt (row column.columnId) column.condition ∧
      ∀ kind, column.partitionText = some kind → partitionTextFor (row column.columnId).dataType = some kind := by
  obtain ⟨id, l, rfl, hnames⟩ := @lowerPredicate_forall fmt (fun id l => NamesColumn fmt (row id) l)
    NamesColumn.merge schema columns predicate filter hfilter
    (fun e he id l hl => lowerConjunct_names fn htyped hl (splitConjunction_satisfied fn predicate hsat e he))
    column hcolumn
  exact ⟨hnames.named, hnames.spelled⟩

end DuckLake.Partition
