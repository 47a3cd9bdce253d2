import DuckLake.Columns.Catalog
import DuckLake.Lib.Checked

/- Rebuilding columns from any rows: it ends, and what it returns are trees that use each
   row once. The rows below a column are the forest the rows link (`exists_forest`), and
   the type built for the column is the type that forest has by `nodeType`, whichever way
   the code comes by it. -/

namespace DuckLake.Columns

open DuckLake.Types Forest
open Nested (maxNestedTypeDepth)

/-! ## What a tree of rows stands for -/

def listType : List (ColumnRow × ArrowType) → Option ArrowType
  | [(child, type)] => some (.list .list listElementName type child.isNullable)
  | _ => none

def mapType : List (ColumnRow × ArrowType) → Option ArrowType
  | [(key, keyType), (value, valueType)] =>
    if key.columnName = "key".toList ∧ value.columnName = "value".toList then
      some (mapEntries keyType valueType value.isNullable)
    else none
  | _ => none

/-- The type of a column with children of the given types. -/
def nodeType (row : ColumnRow) (types : List (ColumnRow × ArrowType)) : Option ArrowType :=
  match shapeOf row.columnType with
  | .list => listType types
  | .struct => some (.struct (structFields types))
  | .map => mapType types
  | .scalar => if types.isEmpty then (ducklakeToArrowType row.columnType).toOption else none

/-- The types of the trees of a forest, each with its root. -/
def forestTypes : Forest ColumnRow → Option (List (ColumnRow × ArrowType))
  | nil => some []
  | cons row c r => do
    let type ← (forestTypes c).bind (nodeType row)
    let rest ← forestTypes r
    return (row, type) :: rest

variable {l : List (ColumnRow × ArrowType)} {rows : List ColumnRow}

theorem forestTypes_cons {row : ColumnRow} {c r : Forest ColumnRow} :
    forestTypes (cons row c r) = some l ↔ ∃ types type rest, forestTypes c = some types ∧
      nodeType row types = some type ∧ forestTypes r = some rest ∧ (row, type) :: rest = l := by
  simp only [forestTypes, Option.bind_eq_bind, Option.bind_eq_some_iff, Option.pure_def, Option.some.injEq]
  constructor
  · rintro ⟨type, ⟨types, hc, ht⟩, rest, hr, rfl⟩
    exact ⟨types, type, rest, hc, ht, hr, rfl⟩
  · rintro ⟨types, type, rest, hc, ht, hr, rfl⟩
    exact ⟨type, ⟨types, hc, ht⟩, rest, hr, rfl⟩

/-- The rows a forest is linked by. -/
abbrev LinkedBy (rows : List ColumnRow) (F : Forest ColumnRow) : Prop :=
  F.Linked ColumnRow.columnId ColumnRow.parentId rows

/-! ## One level of `buildType` -/

def buildChildren (rows : List ColumnRow) (levels : Nat) (visiting : List Int) (children : List ColumnRow) :
    Except Text (List (ColumnRow × ArrowType)) :=
  children.mapM fun child => do
    let type ← buildType rows levels visiting child
    return (child, type)

theorem buildChildren_cons {levels : Nat} {visiting : List Int} {child : ColumnRow} {children : List ColumnRow} :
    buildChildren rows levels visiting (child :: children) = .ok l ↔
      ∃ type, buildType rows levels visiting child = .ok type ∧
      ∃ rest, buildChildren rows levels visiting children = .ok rest ∧ (child, type) :: rest = l := by
  rw [buildChildren, Checked.mapM_cons_eq_ok]
  simp only [Checked.bind_eq_ok, Checked.pure_eq_ok]
  constructor
  · rintro ⟨-, ⟨type, htype, rfl⟩, rest, hrest, rfl⟩
    exact ⟨type, htype, rest, hrest, rfl⟩
  · rintro ⟨type, htype, rest, hrest, rfl⟩
    exact ⟨_, ⟨type, htype, rfl⟩, rest, hrest, rfl⟩

theorem buildChildren_nil {levels : Nat} {visiting : List Int} :
    buildChildren rows levels visiting [] = .ok l ↔ [] = l := Checked.pure_eq_ok

section Step

variable {rows children : List ColumnRow} {levels : Nat} {visiting : List Int} {row : ColumnRow} {type : ArrowType}

theorem listType_eq_some {types : List (ColumnRow × ArrowType)} :
    listType types = some type ↔ ∃ child element, types = [(child, element)] ∧
      .list .list listElementName element child.isNullable = type := by
  match types with
  | [] => exact ⟨nofun, fun ⟨_, _, h, _⟩ => nomatch h⟩
  | [(child, element)] =>
    refine ⟨fun heq => ⟨child, element, rfl, Option.some.inj heq⟩, ?_⟩
    intro ⟨child', element', heq, htype⟩
    cases heq
    exact congrArg some htype
  | _ :: _ :: _ => exact ⟨nofun, fun ⟨_, _, h, _⟩ => nomatch h⟩

theorem mapType_eq_some {types : List (ColumnRow × ArrowType)} :
    mapType types = some type ↔ ∃ key keyType value valueType, types = [(key, keyType), (value, valueType)] ∧
      (key.columnName = "key".toList ∧ value.columnName = "value".toList) ∧
      mapEntries keyType valueType value.isNullable = type := by
  match types with
  | [] => exact ⟨nofun, fun ⟨_, _, _, _, h, _⟩ => nomatch h⟩
  | [_] => exact ⟨nofun, fun ⟨_, _, _, _, h, _⟩ => nomatch h⟩
  | [(key, keyType), (value, valueType)] =>
    constructor
    · intro heq
      obtain ⟨hnames, heq⟩ := Option.ite_none_right_eq_some.mp heq
      exact ⟨key, keyType, value, valueType, rfl, hnames, Option.some.inj heq⟩
    · intro ⟨key', keyType', value', valueType', heq, hnames, htype⟩
      cases heq
      exact Option.ite_none_right_eq_some.mpr ⟨hnames, congrArg some htype⟩
  | _ :: _ :: _ :: _ => exact ⟨nofun, fun ⟨_, _, _, _, h, _⟩ => nomatch h⟩

theorem toOption_eq_some {α ε : Type} {x : Except ε α} {a : α} : x.toOption = some a ↔ x = .ok a := by
  cases x <;> simp [Except.toOption]

theorem buildType_succ :
    buildType rows (levels + 1) visiting row = .ok type ↔ row.columnId ∉ visiting ∧ ∃ types,
      buildChildren rows levels (row.columnId :: visiting) (siblings ColumnRow.parentId rows (some row.columnId)) =
        .ok types ∧ nodeType row types = some type := by
  rw [buildType]
  by_cases hvisit : row.columnId ∈ visiting
  · rw [if_pos hvisit]
    exact ⟨nofun, fun h => absurd hvisit h.1⟩
  rw [if_neg hvisit, and_iff_right hvisit]
  unfold nodeType
  generalize siblings ColumnRow.parentId rows (some row.columnId) = children
  cases shapeOf row.columnType with
  | list =>
    simp only [listType_eq_some]
    match children with
    | [] => simp [buildChildren_nil]
    | [child] =>
      simp only [buildChildren_cons, buildChildren_nil, Checked.bind_eq_ok, Checked.pure_eq_ok]
      constructor
      · intro ⟨element, helement, htype⟩
        exact ⟨_, ⟨element, helement, [], rfl, rfl⟩, child, element, rfl, htype⟩
      · intro ⟨types, ⟨element, helement, rest, hrest, htypes⟩, child', element', hsame, htype⟩
        subst hrest htypes
        cases hsame
        exact ⟨element, helement, htype⟩
    | _ :: _ :: _ => simp [buildChildren_cons]
  | struct =>
    simp only [Checked.bind_eq_ok, Checked.pure_eq_ok, Option.some.injEq]
    rfl
  | map =>
    simp only [mapType_eq_some]
    match children with
    | [] => simp [buildChildren_nil]
    | [_] => simp [buildChildren_nil, buildChildren_cons]
    | [key, value] =>
      simp only [buildChildren_cons, buildChildren_nil]
      by_cases hnames : key.columnName = "key".toList ∧ value.columnName = "value".toList
      · rw [if_neg (by rw [not_or, not_not, not_not]; exact hnames)]
        simp only [Checked.bind_eq_ok, Checked.pure_eq_ok]
        constructor
        · intro ⟨keyType, hkey, valueType, hvalue, htype⟩
          exact ⟨_, ⟨keyType, hkey, _, ⟨valueType, hvalue, [], rfl, rfl⟩, rfl⟩, key, keyType, value, valueType, rfl,
            hnames, htype⟩
        · intro ⟨types, ⟨keyType, hkey, rest, ⟨valueType, hvalue, rest', hnil, hrest⟩, htypes⟩, k, kt, v, vt,
            hsame, _, htype⟩
          subst hnil hrest htypes
          cases hsame
          exact ⟨keyType, hkey, valueType, hvalue, htype⟩
      · rw [if_pos (by rwa [← not_and_or])]
        refine ⟨nofun, ?_⟩
        intro ⟨types, ⟨keyType, _, rest, ⟨valueType, _, rest', hnil, hrest⟩, htypes⟩, k, kt, v, vt, hsame, hnames', _⟩
        subst hnil hrest htypes
        cases hsame
        exact absurd hnames' hnames
    | _ :: _ :: _ :: _ => simp [buildChildren_cons]
  | scalar =>
    match children with
    | [] => simp [buildChildren_nil, toOption_eq_some]
    | _ :: _ => simp [buildChildren_cons]

end Step

/-! ## The forest the rows link -/

section Trees

variable {rows children : List ColumnRow} {levels : Nat} {visiting : List Int}

/-- What is built comes from a forest of the rows. -/
theorem exists_forest {types : List (ColumnRow × ArrowType)}
    (h : buildChildren rows levels visiting children = .ok types) :
    ∃ F, F.roots = children ∧ LinkedBy rows F ∧ F.levels ≤ levels ∧ forestTypes F = some types := by
  induction levels generalizing children visiting types with
  | zero =>
    cases children with
    | nil =>
      obtain rfl := buildChildren_nil.mp h
      exact ⟨nil, rfl, trivial, le_rfl, rfl⟩
    | cons child children =>
      obtain ⟨type, htype, -⟩ := buildChildren_cons.mp h
      exact nomatch htype
  | succ levels ih =>
    induction children generalizing types with
    | nil =>
      obtain rfl := buildChildren_nil.mp h
      exact ⟨nil, rfl, trivial, Nat.zero_le _, rfl⟩
    | cons child children ihc =>
      obtain ⟨type, htype, rest, hrest, rfl⟩ := buildChildren_cons.mp h
      obtain ⟨-, below, hbelow, hnode⟩ := buildType_succ.mp htype
      obtain ⟨c, hroots, hlinked, hlevels, hc⟩ := ih hbelow
      obtain ⟨r, rfl, hlinked', hlevels', hr⟩ := ihc hrest
      refine ⟨cons child c r, rfl, ⟨hroots.symm, hlinked, hlinked'⟩, ?_, ?_⟩
      · exact max_le (Nat.succ_le_succ hlevels) hlevels'
      · exact forestTypes_cons.mpr ⟨below, type, rest, hc, hnode, hr, rfl⟩

variable {F : Forest ColumnRow} {fuel : Nat}

theorem buildChildren_of_linked (hlinked : LinkedBy rows F) :
    ∀ {levels : Nat} {visiting : List Int} {types : List (ColumnRow × ArrowType)}, F.levels ≤ levels →
      (F.nodes.map (·.columnId)).Nodup → (∀ x ∈ F.nodes, x.columnId ∉ visiting) → forestTypes F = some types →
      buildChildren rows levels visiting F.roots = .ok types := by
  induction F with
  | nil =>
    intro levels visiting types _ _ _ h
    obtain rfl := Option.some.inj h
    rfl
  | cons row c r ihc ihr =>
    intro levels visiting types hlevels hnodup hvisiting h
    obtain ⟨hrow, hc, hr⟩ := hlinked
    obtain ⟨below, type, rest, hbelow, hnode, hrest, rfl⟩ := forestTypes_cons.mp h
    obtain ⟨hlevelsc, hlevelsr⟩ := max_le_iff.mp hlevels
    obtain ⟨hhead, htail⟩ := List.nodup_cons.mp hnodup
    rw [List.map_append] at hhead htail
    obtain ⟨hcnodup, hrnodup, -⟩ := List.nodup_append.mp htail
    have hrvisiting : ∀ x ∈ r.nodes, x.columnId ∉ visiting :=
      fun x hx => hvisiting x (List.mem_cons_of_mem _ (List.mem_append_right _ hx))
    have hcvisiting : ∀ x ∈ c.nodes, x.columnId ∉ row.columnId :: visiting := by
      intro x hx hmem
      rcases List.mem_cons.mp hmem with heq | hmem
      · exact hhead (List.mem_append_left _ (List.mem_map.mpr ⟨x, hx, heq⟩))
      · exact hvisiting x (List.mem_cons_of_mem _ (List.mem_append_left _ hx)) hmem
    cases levels with
    | zero => exact absurd hlevelsc (Nat.not_succ_le_zero _)
    | succ levels =>
      have hchildren := ihc hc (Nat.le_of_succ_le_succ hlevelsc) hcnodup hcvisiting hbelow
      have htype := buildType_succ.mpr ⟨hvisiting row List.mem_cons_self, below, hrow.symm ▸ hchildren, hnode⟩
      exact buildChildren_cons.mpr ⟨type, htype, rest, ihr hr hlevelsr hrnodup hrvisiting hrest, rfl⟩

/-! ## The rows below a column -/

def collectBelow (rows : List ColumnRow) (fuel : Nat) (children : List ColumnRow) :
    Except Failure (List (List ColumnRow)) :=
  children.mapM fun child => do
    let below ← collectIds rows fuel child.columnId
    return child :: below

theorem collectIds_succ {columnId : Int} {nested : List (List ColumnRow)}
    (h : collectBelow rows fuel (siblings ColumnRow.parentId rows (some columnId)) = .ok nested) :
    collectIds rows (fuel + 1) columnId = .ok nested.flatten :=
  Checked.bind_eq_ok.mpr ⟨nested, h, rfl⟩

theorem collectBelow_of_linked (hlinked : LinkedBy rows F) :
    ∀ {fuel : Nat}, F.levels ≤ fuel →
      ∃ nested, collectBelow rows fuel F.roots = .ok nested ∧ nested.flatten = F.nodes := by
  induction F with
  | nil => exact fun _ => ⟨[], rfl, rfl⟩
  | cons row c r ihc ihr =>
    intro fuel hlevels
    obtain ⟨hrow, hc, hr⟩ := hlinked
    obtain ⟨hlevelsc, hlevelsr⟩ := max_le_iff.mp hlevels
    cases fuel with
    | zero => exact absurd hlevelsc (Nat.not_succ_le_zero _)
    | succ fuel =>
      obtain ⟨below, hbelow, hcnodes⟩ := ihc hc (Nat.le_of_succ_le_succ hlevelsc)
      obtain ⟨rest, hrest, hrnodes⟩ := ihr hr hlevelsr
      have hcollect := collectIds_succ (hrow.symm ▸ hbelow)
      refine ⟨(row :: below.flatten) :: rest, ?_, ?_⟩
      · exact Checked.mapM_cons_eq_ok.mpr ⟨_, Checked.bind_eq_ok.mpr ⟨_, hcollect, rfl⟩, rest, hrest, rfl⟩
      · rw [List.flatten_cons, hcnodes, hrnodes, List.cons_append, nodes]

theorem collectIds_of_linked {row : ColumnRow} {c r : Forest ColumnRow} (hlinked : LinkedBy rows (cons row c r))
    (hlevels : c.levels < fuel) : collectIds rows fuel row.columnId = .ok c.nodes := by
  obtain ⟨hrow, hc, -⟩ := hlinked
  cases fuel with
  | zero => exact absurd hlevels (Nat.not_lt_zero _)
  | succ fuel =>
    obtain ⟨below, hbelow, hnodes⟩ := collectBelow_of_linked hc (Nat.le_of_lt_succ hlevels)
    rw [collectIds_succ (hrow.symm ▸ hbelow), hnodes]

/-! ## Columns -/

/-- A column and the tree of rows it stands for. -/
structure Built (row : ColumnRow) (c : Forest ColumnRow) (column : DuckLakeTableColumn) : Prop where
  type : (forestTypes c).bind (nodeType row) = some column.dataType
  columnType : reconstructedColumnType row.columnType column.dataType = .ok column.columnType
  column : column = row.column column.columnType column.dataType c.nodes

/-- The columns of a forest of rows. -/
inductive BuiltAll : Forest ColumnRow → List DuckLakeTableColumn → Prop where
  | nil : BuiltAll nil []
  | cons {row : ColumnRow} {c r : Forest ColumnRow} {column : DuckLakeTableColumn} {columns : List DuckLakeTableColumn}
    (root : Built row c column) (rest : BuiltAll r columns) : BuiltAll (cons row c r) (column :: columns)

theorem BuiltAll.ids {columns : List DuckLakeTableColumn} (h : BuiltAll F columns) :
    columns.flatMap (fun column => column.columnId :: column.nestedColumnIds) = F.nodes.map (·.columnId) := by
  induction h with
  | nil => rfl
  | cons root _ ih =>
    rw [List.flatMap_cons, ih, root.column, nodes, List.map_cons, List.map_append]
    rfl

theorem BuiltAll.count {columns : List DuckLakeTableColumn} (h : BuiltAll F columns) :
    (columns.map fun column => 1 + column.nestedColumnIds.length).sum = F.nodes.length := by
  have hlength := congrArg List.length h.ids
  rw [List.length_flatMap, List.length_map] at hlength
  rw [← hlength]
  congr 1
  exact List.map_congr_left fun column _ => Nat.add_comm ..

theorem reconstructColumn_eq_ok {row : ColumnRow} {c r : Forest ColumnRow} {type : ArrowType} {columnType : Text}
    (hlinked : LinkedBy rows (cons row c r)) (hlevels : c.levels < fuel)
    (htype : buildType rows maxNestedTypeDepth [] row = .ok type)
    (hcolumnType : reconstructedColumnType row.columnType type = .ok columnType) :
    reconstructColumn fuel rows row = .ok (row.column columnType type c.nodes) := by
  rw [reconstructColumn, htype]
  dsimp only [refused, bind, Except.bind]
  rw [hcolumnType, collectIds_of_linked hlinked hlevels]
  rfl

/-- A column is refused, or is built from a tree of rows, whatever the fuel beyond the limit of the depth. -/
theorem reconstructColumn_cases (rows : List ColumnRow) (row : ColumnRow) :
    (∃ message, ∀ fuel, reconstructColumn fuel rows row = .error (.invalid message)) ∨
    ∃ c column, LinkedBy rows (cons row c nil) ∧ Built row c column ∧
      ∀ fuel, maxNestedTypeDepth ≤ fuel → reconstructColumn fuel rows row = .ok column := by
  cases htype : buildType rows maxNestedTypeDepth [] row with
  | error message =>
    refine .inl ⟨message, fun fuel => ?_⟩
    rw [reconstructColumn, htype]
    rfl
  | ok type =>
    cases hcolumnType : reconstructedColumnType row.columnType type with
    | error message =>
      refine .inl ⟨message, fun fuel => ?_⟩
      rw [reconstructColumn, htype]
      dsimp only [refused, bind, Except.bind]
      rw [hcolumnType]
    | ok columnType =>
      have hchildren : buildChildren rows maxNestedTypeDepth [] [row] = .ok [(row, type)] :=
        buildChildren_cons.mpr ⟨type, htype, [], rfl, rfl⟩
      obtain ⟨F, hroots, hlinked, hlevels, htypes⟩ := exists_forest hchildren
      obtain ⟨c, rfl⟩ : ∃ c, F = cons row c nil := by
        match F, hroots with
        | cons _ c nil, hroots => exact ⟨c, by rw [(List.cons.inj hroots).1]⟩
      obtain ⟨below, type', rest, hbelow, hnode, -, hsame⟩ := forestTypes_cons.mp htypes
      obtain ⟨⟨-, rfl⟩, rfl⟩ : (row = row ∧ type' = type) ∧ rest = [] := by simpa using hsame
      refine .inr ⟨c, row.column columnType type' c.nodes, hlinked, ⟨?_, hcolumnType, rfl⟩, fun fuel hfuel => ?_⟩
      · exact Option.bind_eq_some_iff.mpr ⟨below, hbelow, hnode⟩
      · exact reconstructColumn_eq_ok hlinked ((max_le_iff.mp hlevels).1.trans hfuel) htype hcolumnType

theorem reconstructRoots_cases (rows roots : List ColumnRow) :
    (∃ message, ∀ fuel, maxNestedTypeDepth ≤ fuel →
      roots.mapM (reconstructColumn fuel rows) = .error (.invalid message)) ∨
    ∃ F columns, F.roots = roots ∧ LinkedBy rows F ∧ BuiltAll F columns ∧
      ∀ fuel, maxNestedTypeDepth ≤ fuel → roots.mapM (reconstructColumn fuel rows) = .ok columns := by
  induction roots with
  | nil => exact .inr ⟨nil, [], rfl, trivial, .nil, fun _ _ => rfl⟩
  | cons row roots ih =>
    rcases reconstructColumn_cases rows row with ⟨message, hrefused⟩ | ⟨c, column, ⟨hrow, hc, -⟩, hbuilt, hcolumn⟩
    · refine .inl ⟨message, fun fuel _ => ?_⟩
      rw [List.mapM_cons, hrefused fuel]
      rfl
    rcases ih with ⟨message, hrefused⟩ | ⟨r, columns, rfl, hr, hbuilt', hcolumns⟩
    · refine .inl ⟨message, fun fuel hfuel => ?_⟩
      rw [List.mapM_cons, hcolumn fuel hfuel, hrefused fuel hfuel]
      rfl
    · refine .inr ⟨cons row c r, column :: columns, rfl, ⟨hrow, hc, hr⟩, .cons hbuilt hbuilt', fun fuel hfuel => ?_⟩
      exact Checked.mapM_cons_eq_ok.mpr ⟨column, hcolumn fuel hfuel, columns, hcolumns fuel hfuel, rfl⟩

theorem reconstructRoots_of_linked (hlinked : LinkedBy rows F)
    (hfuel : maxNestedTypeDepth ≤ fuel) : ∀ {types : List (ColumnRow × ArrowType)}, F.levels ≤ maxNestedTypeDepth →
      (F.nodes.map (·.columnId)).Nodup → forestTypes F = some types →
      (∀ entry ∈ types, ∃ columnType, reconstructedColumnType entry.1.columnType entry.2 = .ok columnType) →
      ∃ columns, BuiltAll F columns ∧ F.roots.mapM (reconstructColumn fuel rows) = .ok columns := by
  induction F with
  | nil => exact fun _ _ _ _ => ⟨[], .nil, rfl⟩
  | cons row c r _ ihr =>
    intro types hlevels hnodup htypes hcolumnTypes
    have hbuild := buildChildren_of_linked hlinked hlevels hnodup (fun _ _ => List.not_mem_nil) htypes
    obtain ⟨below, type, rest, hbelow, hnode, hrest, rfl⟩ := forestTypes_cons.mp htypes
    obtain ⟨type', htype, rest', -, hsame⟩ := buildChildren_cons.mp hbuild
    obtain ⟨⟨-, rfl⟩, -⟩ : (row = row ∧ type' = type) ∧ rest' = rest := by simpa using hsame
    obtain ⟨hlevelsc, hlevelsr⟩ := max_le_iff.mp hlevels
    have hrnodup : (r.nodes.map (·.columnId)).Nodup := by
      rw [nodes, List.map_cons, List.map_append] at hnodup
      exact (List.nodup_append.mp (List.nodup_cons.mp hnodup).2).2.1
    obtain ⟨columnType, hcolumnType⟩ := hcolumnTypes (row, type') List.mem_cons_self
    obtain ⟨columns, hbuilt, hcolumns⟩ := ihr hlinked.2.2 hlevelsr hrnodup hrest
      fun entry hentry => hcolumnTypes entry (List.mem_cons_of_mem _ hentry)
    have hcolumn := reconstructColumn_eq_ok hlinked (hlevelsc.trans hfuel) htype hcolumnType
    refine ⟨row.column columnType type' c.nodes :: columns, .cons ⟨?_, hcolumnType, rfl⟩ hbuilt, ?_⟩
    · exact Option.bind_eq_some_iff.mpr ⟨below, hbelow, hnode⟩
    · exact Checked.mapM_cons_eq_ok.mpr ⟨_, hcolumn, columns, hcolumns, rfl⟩

end Trees

/-! ## All rows -/

/-- The trees of a table's rows: every row stands in them once, below the row it names and
    in the order of the rows. -/
structure Trees (rows : List ColumnRow) (F : Forest ColumnRow) : Prop where
  perm : F.nodes.Perm rows
  roots : F.roots = siblings ColumnRow.parentId rows none
  linked : LinkedBy rows F

theorem checkRows_nodup (h : checkRows rows = .ok ()) : (rows.map (·.columnId)).Nodup := by
  unfold checkRows at h
  split at h
  · cases h
  next hnodup => exact not_not.mp hnodup

/-- Rebuilding ends: the rows are refused, or the columns are those of trees that use every row once. -/
theorem reconstructColumns_cases (rows : List ColumnRow) :
    (∃ message, ∀ fuel, maxNestedTypeDepth ≤ fuel → reconstructColumns fuel rows = .error (.invalid message)) ∨
    ∃ columns F, Trees rows F ∧ BuiltAll F columns ∧
      ∀ fuel, maxNestedTypeDepth ≤ fuel → reconstructColumns fuel rows = .ok columns := by
  cases hcheck : checkRows rows with
  | error message =>
    refine .inl ⟨message, fun fuel _ => ?_⟩
    rw [reconstructColumns, hcheck]
    rfl
  | ok =>
    rcases reconstructRoots_cases rows (siblings ColumnRow.parentId rows none) with
      ⟨message, hrefused⟩ | ⟨F, columns, hroots, hlinked, hbuilt, hcolumns⟩
    · refine .inl ⟨message, fun fuel hfuel => ?_⟩
      rw [reconstructColumns, hcheck, hrefused fuel hfuel]
      rfl
    have heq : ∀ fuel, maxNestedTypeDepth ≤ fuel → reconstructColumns fuel rows =
        if F.nodes.length ≠ rows.length then
          .error (.invalid "DuckLake column metadata contains a parent cycle or unreachable nested column".toList)
        else .ok columns := by
      intro fuel hfuel
      rw [reconstructColumns, hcheck, hcolumns fuel hfuel, ← hbuilt.count]
      rfl
    by_cases hcount : F.nodes.length = rows.length
    · refine .inr ⟨columns, F, ⟨perm_nodes (checkRows_nodup hcheck) hlinked hroots hcount, hroots, hlinked⟩, hbuilt, ?_⟩
      intro fuel hfuel
      rw [heq fuel hfuel, if_neg (not_not.mpr hcount)]
    · exact .inl ⟨_, fun fuel hfuel => (heq fuel hfuel).trans (if_pos hcount)⟩

end DuckLake.Columns
