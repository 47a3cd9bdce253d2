import DuckLake.Inlined.Comparison

/- Which filters may be pushed into the inlined-data query, and that these are
   exactly the ones that lose no row.

   A leaf loses rows for one of three reasons. Its `LIKE` pattern has no `ESCAPE` and
   holds a backslash: the query escapes with it, the pushed leading text keeps it. Its
   leading text holds a NUL character and the catalog is SQLite, whose `length` stops
   there. It compares a float the catalog orders differently. Every filter tree over
   the other leaves keeps its rows. -/

namespace DuckLake.Inlined

open Kleene Prune

/-! ## Patterns -/

theorem parsePrefixPattern_escape (e : Char) : ∀ (pattern p : Text),
    parsePrefixPattern (some e) pattern = some p ↔
      Like.tokens e pattern = Like.lits p ++ [.any]
  | [], p => by
    cases p <;> simp [parsePrefixPattern, Like.tokens, Like.lits]
  | [c], p => by
    simp only [parsePrefixPattern, Like.tokens, Option.some.injEq]
    by_cases hc : c = e
    · rw [if_pos hc, if_pos hc]
      cases p <;> simp [Like.lits]
    · rw [if_neg hc, if_neg hc]
      unfold Like.token
      by_cases hpct : c = '%'
      · subst hpct
        cases p <;> simp [Like.lits]
      · by_cases hone : c = '_'
        · cases p <;> simp [hone, Like.lits]
        · cases p <;> simp [hpct, hone, Like.lits]
  | c :: d :: rest, p => by
    simp only [parsePrefixPattern, Like.tokens, Option.some.injEq]
    by_cases hc : c = e
    · rw [if_pos hc, if_pos hc]
      have ih := parsePrefixPattern_escape e rest
      cases p with
      | nil => simp [Like.lits]
      | cons c' p => simp [Like.lits, ih p, and_comm]
    · rw [if_neg hc, if_neg hc]
      have ih := parsePrefixPattern_escape e (d :: rest)
      have hne : Like.tokens e (d :: rest) ≠ [] := by
        unfold Like.tokens
        repeat' split
        all_goals simp_all
      unfold Like.token
      by_cases hone : c = '_'
      · cases p <;> simp [hone, Like.lits]
      · by_cases hpct : c = '%'
        · cases p <;> simp [hpct, Like.lits, hne]
        · rw [if_neg hone, if_neg hpct, if_neg hone, if_neg hpct]
          cases p with
          | nil => simp [Like.lits]
          | cons c' p => simp [Like.lits, ih p, and_comm]

theorem parsePrefixPattern_none : ∀ (pattern p : Text),
    parsePrefixPattern none pattern = some p ↔ pattern = p ++ ['%'] ∧ '%' ∉ p ∧ '_' ∉ p
  | [], p => by simp [parsePrefixPattern]
  | [c], p => by
    by_cases hpct : c = '%'
    · cases p <;> simp [parsePrefixPattern, hpct]
    · cases p <;> simp [parsePrefixPattern, hpct]
  | c :: d :: rest, p => by
    have ih := parsePrefixPattern_none (d :: rest)
    simp only [parsePrefixPattern, reduceCtorEq, if_false]
    by_cases hone : c = '_'
    · rw [if_pos hone]
      cases p <;> simp [hone]
      rintro rfl
      simp
    · by_cases hpct : c = '%'
      · rw [if_neg hone, if_pos hpct]
        cases p <;> simp [hpct]
        rintro rfl
        simp
      · rw [if_neg hone, if_neg hpct]
        cases p with
        | nil => simp
        | cons c' p =>
          simp only [Option.map_eq_some_iff, ih, List.cons_append, List.cons.injEq, List.mem_cons, not_or]
          constructor
          · rintro ⟨p', ⟨h, h₁, h₂⟩, rfl, rfl⟩
            exact ⟨⟨rfl, h⟩, ⟨Ne.symm hpct, h₁⟩, Ne.symm hone, h₂⟩
          · rintro ⟨⟨rfl, h⟩, ⟨-, h₁⟩, -, h₂⟩
            exact ⟨p, ⟨h, h₁, h₂⟩, rfl, rfl⟩

theorem tokens_plain_leading {e : Char} (he : e ≠ '%') : ∀ {p : Text}, '%' ∉ p → '_' ∉ p → e ∉ p →
    Like.tokens e (p ++ ['%']) = Like.lits p ++ [.any]
  | [], _, _, _ => by simp [Like.tokens, Like.token, Like.lits, Ne.symm he]
  | c :: p, h₁, h₂, h₃ => by
    simp only [List.mem_cons, not_or] at h₁ h₂ h₃
    rw [List.cons_append, Like.tokens_plain (Ne.symm h₃.1), Like.token_lit (Ne.symm h₂.1) (Ne.symm h₁.1),
      tokens_plain_leading he h₁.2 h₂.2 h₃.2]
    rfl

/-! ## The other leaves -/

section Leaf
variable {fmt : FloatSpelling} {dialect : InlinedSqlDialect} {fields : Text → Option DataType}
  {physicalTypes : Text → Option Text} {cells : Text → Option Cell} {p physicalType : Text} {x : ScalarValue}

theorem isNull_leafTrue (hst : Stores fmt dialect physicalType x (cells p)) (hx : x.isNull = true) :
    LeafTrue fmt dialect fields physicalTypes cells (.isNull p) := by
  intro index c new hrender env henv
  simp only [renderLeaf] at hrender
  split at hrender
  · cases hrender
    rcases hcell : cells p with _ | c
    · simp [SqlCondition.eval, hcell]
    · rw [hcell] at hst
      cases x <;> simp_all [ScalarValue.isNull, Stores, StoresValue]
  · cases hrender

theorem isNotNull_leafTrue (hst : Stores fmt dialect physicalType x (cells p)) (hx : x.isNull = false) :
    LeafTrue fmt dialect fields physicalTypes cells (.isNotNull p) := by
  intro index c new hrender env henv
  simp only [renderLeaf] at hrender
  split at hrender
  · cases hrender
    rcases hcell : cells p with _ | c
    · rw [hcell, Stores, hx] at hst
      cases hst
    · simp [SqlCondition.eval, hcell]
  · cases hrender

theorem beforeNul_append {s t : Text} (h : '\x00' ∉ s) : beforeNul (s ++ t) = s ++ beforeNul t := by
  refine List.takeWhile_append_of_pos fun c hc => ?_
  simp only [ne_eq, decide_eq_true_eq]
  rintro rfl
  exact h hc

theorem prefixed_leafTrue {st : StringType} {s leading : Text}
    (hst : Stores fmt dialect physicalType (.string st s) (cells p)) (hpre : leading <+: s)
    (hsafe : dialect = .sqlite → '\x00' ∉ leading) :
    LeafTrue fmt dialect fields physicalTypes cells (.prefixed p leading) := by
  intro index c new hrender env henv
  obtain ⟨rest, rfl⟩ := hpre
  have hcell : cells p = some (if dialect = .postgres then .bytes (Utf8.encode (leading ++ rest))
      else .text (leading ++ rest)) := by
    rcases hc : cells p with _ | c
    · rw [hc] at hst
      cases hst
    · rw [hc] at hst
      exact congrArg some hst
  simp only [renderLeaf, Option.bind_eq_bind, Option.bind_eq_some_iff] at hrender
  obtain ⟨dataType, -, physicalType, -, hrender⟩ := hrender
  split at hrender
  swap
  · cases hrender
  next hmatch =>
  obtain ⟨bind, hbind, hrender⟩ := Option.bind_eq_some_iff.mp hrender
  obtain ⟨st', rfl⟩ : ∃ st', dataType = .string st' := by
    cases dataType <;> simp_all [isUtf8]
  simp only [sqlBind, Option.some.injEq] at hbind
  subst hbind
  cases hrender
  have henv₀ := henv 0
  have henv₁ := henv 1
  cases dialect <;> simp only [renderPrefixed, List.replicate, List.getElem?_cons_zero, List.getElem?_cons_succ,
    Option.some.injEq, forall_eq', Nat.add_zero, InlinedSqlBind.cell, reduceCtorEq, if_false, if_true]
    at henv₀ henv₁ hcell ⊢
  case sqlite =>
    have hnul : beforeNul leading = leading := by
      have := beforeNul_append (t := []) (hsafe rfl)
      rwa [List.append_nil, show beforeNul [] = [] from rfl, List.append_nil] at this
    simp only [SqlCondition.eval, SqlTerm.eval, hcell, henv₀, henv₁, Option.bind_some, asText,
      Option.bind_eq_bind, Option.pure_def, hnul, beforeNul_append (hsafe rfl), List.take_left]
    exact compareSqlCells_some rfl (by rw [order_eq.mpr rfl]; rfl)
  case duckDb =>
    simp [SqlCondition.eval, SqlTerm.eval, hcell, henv₀, asText]
  all_goals
    simp only [SqlCondition.eval, SqlTerm.eval, hcell, henv₀, henv₁, Option.bind_some, asBytes, Option.map_some,
      Option.bind_eq_bind, Option.pure_def, Utf8.encode_append, List.take_left]
    exact compareSqlCells_some rfl (by rw [compareBytes_encode, order_eq.mpr rfl]; rfl)

end Leaf

/-! ## The columns of one table -/

section Mapping
variable {mapping : InlinedColumnMapping}

theorem renames_eq_some {name p : Text} (h : mapping.renames name = some p) :
    ∃ c ∈ mapping.columns, c.name = name ∧ c.physical = some p := by
  obtain ⟨c, hc, hp⟩ := Option.bind_eq_some_iff.mp h
  have hname := List.find?_some hc
  exact ⟨c, List.mem_of_find?_eq_some hc, by simpa using hname, hp⟩

theorem column_inj {c c' : InlinedColumn} (hc : c ∈ mapping.columns) (hc' : c' ∈ mapping.columns)
    (h : c.name = c'.name) : c = c' :=
  List.inj_on_of_nodup_map mapping.names_nodup hc hc' h

theorem physical_inj {c c' : InlinedColumn} {p : Text} (hc : c ∈ mapping.columns) (hc' : c' ∈ mapping.columns)
    (h : c.physical = some p) (h' : c'.physical = some p) : c = c' := by
  have hnodup := mapping.physical_nodup
  revert hc hc' hnodup
  generalize mapping.columns = columns
  induction columns with
  | nil => intro hc; cases hc
  | cons a columns ih =>
    intro hc hc' hnodup
    -- a second column in the same place would repeat its physical name
    have hrest {d : InlinedColumn} (hd : d ∈ columns) (hda : d.physical = some p) : a.physical ≠ some p := by
      intro ha
      rw [List.filterMap_cons_some ha, List.nodup_cons] at hnodup
      exact hnodup.1 (List.mem_filterMap.mpr ⟨d, hd, hda⟩)
    have htail : (columns.filterMap (·.physical)).Nodup := by
      rw [List.filterMap_cons] at hnodup
      split at hnodup
      · exact hnodup
      · exact (List.nodup_cons.mp hnodup).2
    rcases List.mem_cons.mp hc with rfl | hmem
    · rcases List.mem_cons.mp hc' with rfl | hmem'
      · rfl
      · exact absurd h (hrest hmem' h')
    · rcases List.mem_cons.mp hc' with rfl | hmem'
      · exact absurd h' (hrest hmem h)
      · exact ih hmem hmem' htail

theorem fields_eq {c : InlinedColumn} {p : Text} (hc : c ∈ mapping.columns) (hp : c.physical = some p) :
    mapping.fields p = some c.dataType := by
  have hsome : (mapping.columns.find? (·.physical == some p)).isSome = true := by
    rw [List.find?_isSome]
    exact ⟨c, hc, by simp [hp]⟩
  obtain ⟨c', hc'⟩ := Option.isSome_iff_exists.mp hsome
  have hp' : c'.physical = some p := by simpa using List.find?_some hc'
  rw [InlinedColumnMapping.fields, hc', physical_inj (List.mem_of_find?_eq_some hc') hc hp' hp]
  rfl

theorem renames_eq {c : InlinedColumn} (hc : c ∈ mapping.columns) : mapping.renames c.name = c.physical := by
  have hsome : (mapping.find c.name).isSome = true := by
    rw [InlinedColumnMapping.find, List.find?_isSome]
    exact ⟨c, hc, by simp⟩
  obtain ⟨c', hc'⟩ := Option.isSome_iff_exists.mp hsome
  have hname : c'.name = c.name := by simpa using List.find?_some hc'
  rw [InlinedColumnMapping.renames, hc', column_inj (List.mem_of_find?_eq_some hc') hc hname]
  rfl

end Mapping

/-! ## Safe leaves -/

section Safe
variable (dialect : InlinedSqlDialect) (mapping : InlinedColumnMapping)

/-- The table holds the column `name` in a column declared `t` that the rendering
compares with constants. -/
structure ComparedAs (name : Text) (c : InlinedColumn) (p t : Text) : Prop where
  mem : c ∈ mapping.columns
  name : c.name = name
  physical : c.physical = some p
  declared : mapping.physicalTypes p = some t
  comparable : physicalTypeMatches dialect c.dataType t = true

def ComparisonSafe (name : Text) (op : InlinedComparison) (y : ScalarValue) : Prop :=
  ∀ c p t, ComparedAs dialect mapping name c p t → y.dataType = c.dataType →
    literalMisordered dialect t op y = false

def LeadingSafe (name leading : Text) : Prop :=
  ∀ c p t, ComparedAs dialect mapping name c p t → isUtf8 c.dataType = true → dialect = .sqlite →
    '\x00' ∉ leading

/-- The pattern is the plain text `q` with a `%` at the end; with an `ESCAPE`, once the
escapes are taken out. -/
def LeadingPattern (escapeChar : Option Char) (pattern q : Text) : Prop :=
  match escapeChar with
  | some e => Like.tokens e pattern = Like.lits q ++ [.any]
  | none => pattern = q ++ ['%'] ∧ '%' ∉ q ∧ '_' ∉ q

def LikeSafe (name pattern : Text) (escapeChar : Option Char) : Prop :=
  ∀ c p t, ComparedAs dialect mapping name c p t → isUtf8 c.dataType = true →
    ∀ q, LeadingPattern escapeChar pattern q →
      (escapeChar = none → '\\' ∉ q) ∧ (dialect = .sqlite → '\x00' ∉ q)

/-- The leaf is none of the three kinds that lose rows. -/
def Safe : Expr → Prop
  | .binary (.column name) op (.literal y) => ∀ o, comparison op = some o → ComparisonSafe dialect mapping name o y
  | .binary (.literal y) op (.column name) =>
    ∀ o, comparison op = some o → ComparisonSafe dialect mapping name o.reversed y
  | .like false false (.column name) (.literal (.string _ pattern)) escapeChar =>
    LikeSafe dialect mapping name pattern escapeChar
  | .scalarFunction f [.column name, .literal (.string _ leading)] =>
    f = startsWithName → LeadingSafe dialect mapping name leading
  | _ => True

end Safe

/-! ## Safe leaves keep their rows -/

section Keeping
variable {fmt : FloatSpelling} {dialect : InlinedSqlDialect} {mapping : InlinedColumnMapping}
  {fn : Functions} {row : Text → ScalarValue} {cells : Text → Option Cell}

/-- The leaf filter, renamed, renders to a true condition. -/
def RenamedTrue (fmt : FloatSpelling) (dialect : InlinedSqlDialect) (mapping : InlinedColumnMapping)
    (cells : Text → Option Cell) (f : InlinedFilter) : Prop :=
  ∀ f', renameColumns mapping.renames f = some f' →
    LeafTrue fmt dialect mapping.fields mapping.physicalTypes cells f'

variable {escapeChar : Option Char} {o : InlinedComparison} {f : InlinedFilter} {st : StringType} {e : Expr}
  {op : Operator} {name : Text}

/-- A leaf that does not render is true of everything. -/
theorem leafTrue_of_not_rendered {fields : Text → Option DataType} {physicalTypes : Text → Option Text}
    (h : ∀ index, renderLeaf fmt dialect fields physicalTypes f index = none) :
    LeafTrue fmt dialect fields physicalTypes cells f := by
  intro index c new hrender
  rw [h index] at hrender
  cases hrender

theorem compareOp_reversed {op : InlinedComparison} {a b : ScalarValue}
    (h : compareOp op.operator a b = some true) : compareOp op.reversed.operator b a = some true := by
  refine compareOp_flip ?_ h
  cases op <;> rfl

theorem operator_of_comparison (h : comparison op = some o) :
    op = o.operator := by
  cases op <;> simp only [comparison, Option.some.injEq, reduceCtorEq] at h <;> subst h <;> rfl

theorem satisfied_comparison {l r : Expr} (ho : comparison op = some o) (h : (Expr.binary l op r).Satisfied fn row) :
    compareOp o.operator (l.eval fn row) (r.eval fn row) = some true := by
  rw [operator_of_comparison ho] at h
  simp only [Expr.Satisfied, Expr.eval] at h
  cases o <;> simpa [InlinedComparison.operator, evalBinary] using h

theorem comparison_renamedTrue (hdec : Decodes fmt dialect mapping row cells)
    {op : InlinedComparison} {y : ScalarValue} {v : InlinedValue} (hv : scalar y = some v)
    (hsafe : ComparisonSafe dialect mapping name op y) (htrue : compareOp op.operator (row name) y = some true) :
    RenamedTrue fmt dialect mapping cells (.comparison name op v) := by
  intro f' hf'
  rw [renameColumns] at hf'
  obtain ⟨p, hp, rfl⟩ := Option.map_eq_some_iff.mp hf'
  obtain ⟨c, hc, rfl, hphys⟩ := renames_eq_some hp
  rcases ht : mapping.physicalTypes p with _ | t
  · exact leafTrue_of_not_rendered fun index => by simp [renderLeaf, ht]
  · by_cases hm : physicalTypeMatches dialect c.dataType t = true
    · exact comparison_leafTrue (fields_eq hc hphys) ht (hdec.typed c hc) (hdec.stored c hc p hphys t ht) hv htrue
        fun hty => hsafe c p t ⟨hc, rfl, hphys, ht, hm⟩ hty
    · refine leafTrue_of_not_rendered fun index => ?_
      simp [renderLeaf, ht, fields_eq hc hphys, hm]

theorem prefixed_renamedTrue (hdec : Decodes fmt dialect mapping row cells) {name leading s : Text}
    (hrow : row name = .string st s)
    (hsafe : ∀ c p t, ComparedAs dialect mapping name c p t → isUtf8 c.dataType = true →
      leading <+: s ∧ (dialect = .sqlite → '\x00' ∉ leading)) :
    RenamedTrue fmt dialect mapping cells (.prefixed name leading) := by
  intro f' hf'
  rw [renameColumns] at hf'
  obtain ⟨p, hp, rfl⟩ := Option.map_eq_some_iff.mp hf'
  obtain ⟨c, hc, rfl, hphys⟩ := renames_eq_some hp
  have htype : isUtf8 c.dataType = true := by
    rw [← hdec.typed c hc, hrow]
    rfl
  rcases ht : mapping.physicalTypes p with _ | t
  · exact leafTrue_of_not_rendered fun index => by simp [renderLeaf, ht]
  · by_cases hm : physicalTypeMatches dialect c.dataType t = true
    · have hst := hdec.stored c hc p hphys t ht
      rw [hrow] at hst
      obtain ⟨hpre, hnul⟩ := hsafe c p t ⟨hc, rfl, hphys, ht, hm⟩ htype
      exact prefixed_leafTrue hst hpre hnul
    · refine leafTrue_of_not_rendered fun index => ?_
      simp [renderLeaf, ht, fields_eq hc hphys, hm]

theorem nullTest_renamedTrue (hdec : Decodes fmt dialect mapping row cells) :
    ((row name).isNull = true → RenamedTrue fmt dialect mapping cells (.isNull name)) ∧
    ((row name).isNull = false → RenamedTrue fmt dialect mapping cells (.isNotNull name)) := by
  constructor <;> intro hnull f' hf' <;> rw [renameColumns] at hf' <;>
    obtain ⟨p, hp, rfl⟩ := Option.map_eq_some_iff.mp hf' <;> obtain ⟨c, hc, rfl, hphys⟩ := renames_eq_some hp <;>
    rcases ht : mapping.physicalTypes p with _ | t
  · exact leafTrue_of_not_rendered fun index => by simp [renderLeaf, ht]
  · exact isNull_leafTrue (hdec.stored c hc p hphys t ht) hnull
  · exact leafTrue_of_not_rendered fun index => by simp [renderLeaf, ht]
  · exact isNotNull_leafTrue (hdec.stored c hc p hphys t ht) hnull

theorem parsePrefixPattern_iff {pattern q : Text} :
    parsePrefixPattern escapeChar pattern = some q ↔ LeadingPattern escapeChar pattern q := by
  cases escapeChar with
  | some e => exact parsePrefixPattern_escape e pattern q
  | none => exact parsePrefixPattern_none pattern q

/-- The column of a true `LIKE` starts with the text the pattern is parsed to. -/
theorem like_leading {pattern leading s : Text}
    (hlead : LeadingPattern escapeChar pattern leading) (hplain : escapeChar = none → '\\' ∉ leading)
    (hlike : Like.like (escapeChar.getD '\\') pattern s = true) : leading <+: s := by
  have htokens : Like.tokens (escapeChar.getD '\\') pattern = Like.lits leading ++ [.any] := by
    cases escapeChar with
    | some e => exact hlead
    | none =>
      obtain ⟨rfl, h₁, h₂⟩ := hlead
      exact tokens_plain_leading (by decide) h₁ h₂ (hplain rfl)
  rw [Like.like, htokens] at hlike
  exact Like.matchTokens_leading.mp hlike

theorem column_eq (h : column e = some name) : e = .column name := by
  cases e <;> simp_all [column]

theorem literal_eq {v : InlinedValue} (h : literal e = some v) :
    ∃ y, e = .literal y ∧ scalar y = some v := by
  cases e <;> simp_all [literal]

theorem scalar_utf8 {y : ScalarValue} {s : Text} (h : scalar y = some (.utf8 s)) : ∃ st, y = .string st s := by
  cases y with
  | string st t =>
    cases h
    exact ⟨st, rfl⟩
  | integer t v =>
    simp only [scalar] at h
    split at h
    · cases h
    · split at h <;> cases h
  | float32 x =>
    simp only [scalar] at h
    split at h <;> cases h
  | float64 x =>
    simp only [scalar] at h
    split at h <;> cases h
  | _ => cases h

theorem literalString_eq {s : Text} (h : literalString e = some s) :
    ∃ st, e = .literal (.string st s) := by
  cases e with
  | literal y =>
    simp only [literalString, scalarString] at h
    split at h
    · next heq =>
      cases h
      obtain ⟨st, rfl⟩ := scalar_utf8 heq
      exact ⟨st, rfl⟩
    · cases h
  | _ => cases h

theorem translateComparison_keeps (hdec : Decodes fmt dialect mapping row cells) {l r : Expr}
    (ho : comparison op = some o) (hsafe : Safe dialect mapping (.binary l op r))
    (hsat : (Expr.binary l op r).Satisfied fn row) (hf : translateComparison l o r = some f) :
    Keeps (RenamedTrue fmt dialect mapping cells) f := by
  have htrue := satisfied_comparison ho hsat
  unfold translateComparison at hf
  split at hf
  · next name v hl hr =>
    cases hf
    obtain rfl := column_eq hl
    obtain ⟨y, rfl, hv⟩ := literal_eq hr
    simp only [Keeps]
    exact comparison_renamedTrue hdec hv (hsafe o ho) htrue
  · simp only [Option.bind_eq_bind, Option.bind_eq_some_iff, Option.pure_def, Option.some.injEq] at hf
    obtain ⟨name, hr, v, hl, rfl⟩ := hf
    obtain rfl := column_eq hr
    obtain ⟨y, rfl, hv⟩ := literal_eq hl
    simp only [Keeps]
    exact comparison_renamedTrue hdec hv (hsafe o ho) (compareOp_reversed htrue)

theorem like_keeps (hdec : Decodes fmt dialect mapping row cells) {name pattern : Text}
    (hsafe : LikeSafe dialect mapping name pattern escapeChar)
    (hsat : (Expr.like false false (.column name) (.literal (.string st pattern)) escapeChar).Satisfied fn row)
    {leading : Text} (hparse : parsePrefixPattern escapeChar pattern = some leading) :
    RenamedTrue fmt dialect mapping cells (.prefixed name leading) := by
  have hlike : likeValue (row name) (.string st pattern) escapeChar = some true := by
    simpa [Expr.Satisfied, Expr.eval] using hsat
  cases hrow : row name with
  | string st' s =>
    simp only [hrow, likeValue, Option.some.injEq] at hlike
    refine prefixed_renamedTrue hdec hrow fun c p t hcol htype => ?_
    have hlead := parsePrefixPattern_iff.mp hparse
    obtain ⟨hplain, hnul⟩ := hsafe c p t hcol htype leading hlead
    exact ⟨like_leading hlead hplain hlike, hnul⟩
  | _ => simp [hrow, likeValue] at hlike

theorem startsWith_keeps (hdec : Decodes fmt dialect mapping row cells) {name leading : Text}
    (hsafe : LeadingSafe dialect mapping name leading)
    (hsat : (Expr.scalarFunction startsWithName [.column name, .literal (.string st leading)]).Satisfied fn row) :
    RenamedTrue fmt dialect mapping cells (.prefixed name leading) := by
  have hstarts : startsWithValue [row name, .string st leading] = some true := by
    simpa [Expr.Satisfied, Expr.eval, evalArgs] using hsat
  cases hrow : row name with
  | string st' s =>
    simp only [hrow, startsWithValue, Option.some.injEq, List.isPrefixOf_iff_prefix] at hstarts
    exact prefixed_renamedTrue hdec hrow fun c p t hcol htype => ⟨hstarts, hsafe c p t hcol htype⟩
  | _ => simp [hrow, startsWithValue] at hstarts

theorem leaf_keeps (hdec : Decodes fmt dialect mapping row cells) (hleaf : e.IsLeaf)
    (hsafe : Safe dialect mapping e) (hsat : e.Satisfied fn row)
    (hf : translateExpr e = some f) : Keeps (RenamedTrue fmt dialect mapping cells) f := by
  unfold translateExpr at hf
  split at hf
  · exact absurd rfl (hleaf.1 _ _)
  · exact absurd rfl (hleaf.2 _ _)
  · simp only [Option.bind_eq_bind, Option.bind_eq_some_iff] at hf
    obtain ⟨o, ho, hf⟩ := hf
    exact translateComparison_keeps hdec ho hsafe hsat hf
  · obtain ⟨name, hname, rfl⟩ := Option.map_eq_some_iff.mp hf
    obtain rfl := column_eq hname
    simp only [Keeps]
    exact (nullTest_renamedTrue hdec).1 (by simpa [Expr.Satisfied, Expr.eval, truth] using hsat)
  · obtain ⟨name, hname, rfl⟩ := Option.map_eq_some_iff.mp hf
    obtain rfl := column_eq hname
    simp only [Keeps]
    exact (nullTest_renamedTrue hdec).2 (by simpa [Expr.Satisfied, Expr.eval, truth] using hsat)
  · simp only [Option.bind_eq_bind, Option.bind_eq_some_iff, Option.pure_def, Option.some.injEq] at hf
    obtain ⟨pattern, hpattern, name, hname, leading, hparse, rfl⟩ := hf
    obtain rfl := column_eq hname
    obtain ⟨st, rfl⟩ := literalString_eq hpattern
    simp only [Keeps]
    exact like_keeps hdec hsafe hsat hparse
  · split at hf
    · next hfn =>
      subst hfn
      simp only [Option.bind_eq_bind, Option.bind_eq_some_iff, Option.pure_def, Option.some.injEq] at hf
      obtain ⟨leading, hleading, name, hname, rfl⟩ := hf
      obtain rfl := column_eq hname
      obtain ⟨st, rfl⟩ := literalString_eq hleading
      simp only [Keeps]
      exact startsWith_keeps hdec (hsafe rfl) hsat
    · cases hf
  · cases hf

theorem pushes_of_safe {filters : List Expr} (hsafe : ∀ f ∈ filters, ∀ e ∈ f.leaves, Safe dialect mapping e) :
    Pushes fmt dialect mapping fn filters := by
  intro rendered hpushed
  simp only [pushed, Option.bind_eq_bind, Option.bind_eq_some_iff] at hpushed
  obtain ⟨filter, htranslate, physical, hrename, hrender⟩ := hpushed
  simp only [renderInlinedFilter] at hrender
  obtain ⟨sql, hsql, rfl⟩ := Option.map_eq_some_iff.mp hrender
  have happends := @renderNode_appends fmt dialect mapping.fields mapping.physicalTypes 2 physical []
  refine ⟨?_, fun row cells hdec hsat => ?_⟩
  · have hnumbers := happends.numbers
    rw [hsql] at hnumbers
    simpa [optionPlaceholders, placeholdersOf] using hnumbers
  · have hkeeps : Keeps (RenamedTrue fmt dialect mapping cells) filter := by
      refine keeps_andOf htranslate fun g hg => ?_
      obtain ⟨e, he, hge⟩ := List.mem_filterMap.mp hg
      refine translateExpr_keeps e hge (fun e' he' hsat' f' hf' => ?_) (hsat e he)
      exact leaf_keeps hdec (isLeaf_of_mem_leaves he') (hsafe e he e' he') hsat' hf'
    have hrenamed : Keeps (LeafTrue fmt dialect mapping.fields mapping.physicalTypes cells) physical := by
      refine renameColumns_keeps (fun f f' hf' hand hor hP => ?_) filter hrename hkeeps
      have hleaf := hP f' hf'
      cases f <;> simp only [renameColumns, Option.map_eq_some_iff] at hf'
      case and fs => exact absurd rfl (hand fs)
      case or fs => exact absurd rfl (hor fs)
      all_goals
        obtain ⟨p, -, rfl⟩ := hf'
        simpa only [Keeps] using hleaf
    refine renderNode_true physical [] hsql hrenamed fun i b hb => ?_
    simp [bound, hb]

end Keeping

end DuckLake.Inlined
