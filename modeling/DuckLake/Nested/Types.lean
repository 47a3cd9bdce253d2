import DuckLake.Scalar

/- Arrow's nested types (`arrow::datatypes::DataType`): structs, lists of three kinds and
   maps over the scalar types. A map's entries are its key and its value. -/

namespace DuckLake.Nested

inductive ListKind where
  | list
  | largeList
  | fixedSizeList (size : Nat)
deriving DecidableEq, Repr

mutual

inductive ArrowType where
  | scalar (type : DataType)
  | struct (fields : Fields)
  | list (kind : ListKind) (element : ArrowType)
  | map (key value : ArrowType)

/-- The fields of a struct, by name. -/
inductive Fields where
  | nil
  | cons (name : Text) (type : ArrowType) (rest : Fields)

end

deriving instance DecidableEq for ArrowType, Fields
deriving instance Repr for ArrowType, Fields

def ArrowType.isNested : ArrowType → Bool
  | .scalar _ => false
  | _ => true

mutual

/-- `arrow_leaves`: the scalar types below, in Parquet leaf order. -/
def ArrowType.leaves : ArrowType → List DataType
  | .scalar t => [t]
  | .struct fields => fields.leaves
  | .list _ element => element.leaves
  | .map key value => key.leaves ++ value.leaves

def Fields.leaves : Fields → List DataType
  | .nil => []
  | .cons _ type rest => type.leaves ++ rest.leaves

end

end DuckLake.Nested
