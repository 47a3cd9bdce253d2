import DuckLake.Lib.Forest
import DuckLake.Types.RoundTrip

/- The columns of a table as the rows of `ducklake_column` (`metadata_writer.rs`,
   `metadata_provider.rs`): a nested type is a row for the column and a row for every field
   below it, each naming its parent.

   Correspondence (Rust ↔ Lean):
     `ColumnDef`, `CatalogNode`, `CatalogColumnDef` ↔ the structures of these names
     `catalog_column_defs`, `append_column_def`     ↔ `catalogColumnDefs`, `appendColumnDef`
     `catalog_type_name`                            ↔ `catalogTypeName`
     `DuckLakeTableColumn` as a provider reads it   ↔ `ColumnRow`, with its parent
     `reconstruct_columns`                          ↔ `reconstructColumns`
     `build_type`, `collect_ids`                    ↔ `buildType`, `collectIds`
     `reconstructed_column_type`                    ↔ `reconstructedColumnType`
   An index into the rows is the row. `visiting` is put back when `build_type` returns, so
   here it is passed down, and the levels left count down from the limit. `collect_ids`
   has no bound of its own: `collectIds` has fuel. -/

namespace DuckLake.Columns

open DuckLake.Types
open Nested (maxNestedTypeDepth trimText)

/-! ## Columns and their rows -/

structure Defaults where
  initialDefault : Option Text
  defaultValue : Option Text
  defaultValueType : Option Text
  defaultValueDialect : Option Text
  deriving DecidableEq, Repr

def Defaults.none : Defaults := ⟨.none, .none, .none, .none⟩

/-- A catalog row a column copies. -/
structure CatalogNode where
  ducklakeType : Text
  isNullable : Bool
  defaults : Defaults
  deriving DecidableEq, Repr

structure ColumnDef where
  name : Text
  isNullable : Bool
  dataType : ArrowType
  defaults : Defaults
  catalogNodes : Option (List CatalogNode)
  deriving DecidableEq, Repr

structure CatalogColumnDef where
  name : Text
  ducklakeType : Text
  logicalType : Text
  isNullable : Bool
  parentIndex : Option Nat
  defaults : Defaults
  deriving DecidableEq, Repr

def catalogTypeName : ArrowType → Except Text Text
  | .list _ _ _ _ => .ok "list".toList
  | .struct _ => .ok "struct".toList
  | .map _ _ _ _ => .ok "map".toList
  | type => arrowToDucklakeType type

def columnDefOf (name : Text) (type : ArrowType) (isNullable : Bool) (parentIndex : Option Nat) :
    Except Text CatalogColumnDef := do
  let ducklakeType ← catalogTypeName type
  let logicalType ← arrowToDucklakeType type
  return ⟨name, ducklakeType, logicalType, isNullable, parentIndex, .none⟩

mutual

def appendColumnDef (name : Text) (type : ArrowType) (isNullable : Bool) (parentIndex : Option Nat)
    (result : List CatalogColumnDef) : Except Text (List CatalogColumnDef) := do
  let index := result.length
  let column ← columnDefOf name type isNullable parentIndex
  let result := result ++ [column]
  match type with
  | .list _ _ element nullable => appendColumnDef "element".toList element nullable (some index) result
  | .struct fields => appendFieldDefs fields index result
  | .map _ (.struct (.cons _ key _ (.cons _ value nullable .nil))) _ _ => do
    let result ← appendColumnDef "key".toList key false (some index) result
    appendColumnDef "value".toList value nullable (some index) result
  | .map _ (.struct _) _ _ => .error "Arrow maps must have key and value fields".toList
  | .map _ _ _ _ => .error "Arrow map entries must be a struct".toList
  | .leaf _ | .dictionary _ _ => return result

def appendFieldDefs (fields : Fields) (index : Nat) (result : List CatalogColumnDef) :
    Except Text (List CatalogColumnDef) :=
  match fields with
  | .nil => return result
  | .cons name type nullable rest => do
    let result ← appendColumnDef name type nullable (some index) result
    appendFieldDefs rest index result

end

def CatalogColumnDef.copy (column : CatalogColumnDef) (node : CatalogNode) : CatalogColumnDef :=
  { column with ducklakeType := node.ducklakeType, isNullable := node.isNullable, defaults := node.defaults }

/-- The rows a column copies in place of those of its own type. -/
def copyNodes (column : ColumnDef) (defs : List CatalogColumnDef) : Except Text (List CatalogColumnDef) :=
  match column.catalogNodes with
  | none => .ok defs
  | some nodes =>
    if defs.length ≠ nodes.length then
      .error ("column '".toList ++ column.name ++ "' copies ".toList ++ digits nodes.length ++
        " catalog rows for ".toList ++ digits defs.length ++ " nodes".toList)
    else .ok (List.zipWith CatalogColumnDef.copy defs nodes)

/-- One round of the loop of `catalog_column_defs`. -/
def pushColumnDefs (result : List CatalogColumnDef) (column : ColumnDef) : Except Text (List CatalogColumnDef) := do
  let rootIndex := result.length
  let result ← appendColumnDef column.name column.dataType column.isNullable none result
  let result := result.modify rootIndex fun root => { root with defaults := column.defaults }
  let defs ← copyNodes column (result.drop rootIndex)
  return result.take rootIndex ++ defs

def catalogColumnDefs (columns : List ColumnDef) : Except Text (List CatalogColumnDef) :=
  columns.foldlM pushColumnDefs []

/-- A column as a provider reads its row. -/
structure ColumnRow where
  columnId : Int
  columnName : Text
  columnType : Text
  isNullable : Bool
  defaults : Defaults
  parentId : Option Int
  deriving DecidableEq, Repr

/-- A default is read back, a value that is the text `NULL` as none. -/
def Defaults.read (defaults : Defaults) : Defaults :=
  { defaults with defaultValue := defaults.defaultValue.filter (· ≠ "NULL".toList) }

/-- The rows of the columns with these ids. -/
def storedRows (defs : List CatalogColumnDef) (ids : List Int) : List ColumnRow :=
  List.zipWith (fun column id =>
    ⟨id, column.name, column.ducklakeType, column.isNullable, column.defaults.read,
      column.parentIndex.map (ids.getD · 0)⟩)
    defs ids

/-! ## Rebuilding -/

/-- What a column type says of the rows below it. -/
inductive Shape where
  | list | struct | map | scalar
  deriving DecidableEq, Repr

def shapeOf (columnType : Text) : Shape :=
  let columnType := lowercase columnType
  if columnType = "list".toList then .list
  else if columnType = "struct".toList then .struct
  else if columnType = "map".toList then .map
  else .scalar

def structFields : List (ColumnRow × ArrowType) → Fields
  | [] => .nil
  | (child, type) :: rest => .cons child.columnName type child.isNullable (structFields rest)

/-- The error of a column that has not the children its type asks for. -/
def childrenError (what : Text) (row : ColumnRow) (asks : Text) : Text :=
  what ++ " '".toList ++ row.columnName ++ "' ".toList ++ asks

def buildType (rows : List ColumnRow) : Nat → List Int → ColumnRow → Except Text ArrowType
  | 0, _, _ => .error ("Nested column metadata exceeds maximum depth ".toList ++ digits maxNestedTypeDepth)
  | levels + 1, visiting, row =>
    if row.columnId ∈ visiting then .error ("Nested column cycle includes column ".toList ++ intText row.columnId)
    else
      let build := buildType rows levels (row.columnId :: visiting)
      let children := Forest.siblings ColumnRow.parentId rows (some row.columnId)
      match shapeOf row.columnType with
      | .list =>
        match children with
        | [child] => do
          let type ← build child
          return .list .list listElementName type child.isNullable
        | _ => .error (childrenError "List column".toList row "must have exactly one child".toList)
      | .struct => do
        let fields ← children.mapM fun child => do
          let type ← build child
          return (child, type)
        return .struct (structFields fields)
      | .map =>
        match children with
        | [key, value] =>
          if key.columnName ≠ "key".toList ∨ value.columnName ≠ "value".toList then
            .error (childrenError "Map column".toList row "children must be named key then value".toList)
          else do
            let keyType ← build key
            let valueType ← build value
            return mapEntries keyType valueType value.isNullable
        | _ => .error (childrenError "Map column".toList row "must have key and value children".toList)
      | .scalar =>
        if children.isEmpty then ducklakeToArrowType row.columnType
        else .error (childrenError "Non-nested column".toList row "has child columns".toList)

def reconstructedColumnType (catalogType : Text) (dataType : ArrowType) : Except Text Text :=
  let normalized := lowercase (trimText catalogType)
  match dataType with
  | .leaf (.binary .binary) => .ok catalogType
  | .leaf (.string .utf8View) =>
    if normalized = "varchar".toList ∨ normalized = "text".toList ∨ normalized = "string".toList then
      arrowToDucklakeType dataType
    else .ok catalogType
  | _ => arrowToDucklakeType dataType

/-- Why there is no result: the rows are refused, or the fuel does not last. -/
inductive Failure where
  | invalid (message : Text)
  | unfinished
  deriving DecidableEq, Repr

/-- A refusal of the code. -/
def refused {α : Type} : Except Text α → Except Failure α
  | .ok a => .ok a
  | .error message => .error (.invalid message)

/-- The rows below a column, depth first. -/
def collectIds (rows : List ColumnRow) : Nat → Int → Except Failure (List ColumnRow)
  | 0, _ => .error .unfinished
  | fuel + 1, columnId => do
    let nested ← (Forest.siblings ColumnRow.parentId rows (some columnId)).mapM fun child => do
      let below ← collectIds rows fuel child.columnId
      return child :: below
    return nested.flatten

structure DuckLakeTableColumn where
  columnId : Int
  columnName : Text
  columnType : Text
  isNullable : Bool
  defaults : Defaults
  dataType : ArrowType
  nestedColumnIds : List Int
  nestedInitialDefaults : List (Int × Text)
  deriving DecidableEq, Repr

/-- A column from its row and the rows below it. -/
def ColumnRow.column (row : ColumnRow) (columnType : Text) (dataType : ArrowType) (nested : List ColumnRow) :
    DuckLakeTableColumn :=
  ⟨row.columnId, row.columnName, columnType, row.isNullable, row.defaults, dataType, nested.map (·.columnId),
    nested.filterMap fun child => child.defaults.initialDefault.map (child.columnId, ·)⟩

def reconstructColumn (fuel : Nat) (rows : List ColumnRow) (row : ColumnRow) : Except Failure DuckLakeTableColumn := do
  let dataType ← refused (buildType rows maxNestedTypeDepth [] row)
  let columnType ← refused (reconstructedColumnType row.columnType dataType)
  let nested ← collectIds rows fuel row.columnId
  return row.column columnType dataType nested

/-- Distinct ids, and no parent that is missing. -/
def checkRows (rows : List ColumnRow) : Except Text Unit :=
  if ¬ (rows.map (·.columnId)).Nodup then .error "DuckLake column metadata contains duplicate column ids".toList
  else rows.forM fun row =>
    match row.parentId with
    | none => .ok ()
    | some parentId =>
      if parentId ∈ rows.map (·.columnId) then .ok ()
      else .error ("Nested column ".toList ++ intText row.columnId ++ " references missing parent column ".toList ++
        intText parentId)

def reconstructColumns (fuel : Nat) (rows : List ColumnRow) : Except Failure (List DuckLakeTableColumn) := do
  refused (checkRows rows)
  let result ← (Forest.siblings ColumnRow.parentId rows none).mapM (reconstructColumn fuel rows)
  let reconstructedCount := (result.map fun column => 1 + column.nestedColumnIds.length).sum
  if reconstructedCount ≠ rows.length then
    .error (.invalid "DuckLake column metadata contains a parent cycle or unreachable nested column".toList)
  else return result

end DuckLake.Columns
