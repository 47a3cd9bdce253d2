import DuckLake.Nested.Text

/- Arrow arrays of nested types, by their buffers.

   A list or map keeps its elements in one child array and, for each row, the window of
   it that is the row's. What lies outside every window, or in the window of a NULL row,
   is still in the child; so is a struct child's value in a row where the struct is NULL.
   `row` reads a row as a `Value`, which sees none of these.

   Correspondence (arrow ↔ Lean):
     `ArrayRef`, `StructArray`, `GenericListArray`, `FixedSizeListArray`, `MapArray` ↔ `ArrowArray`
     `Array::slice`      ↔ `slice`: a list and a map keep their child and take part of
                           their offsets; a struct and a fixed-size list slice theirs
     `Array::is_valid`   ↔ `isValid`
   A buffer is read past its end as NULL, where arrow panics; no array has such rows. -/

namespace DuckLake.Nested

mutual

inductive ArrowArray where
  | scalar (type : DataType) (values : List { v : ScalarValue // v.dataType = type })
  | struct (validity : List Bool) (columns : Columns)
  /-- A fixed-size list has no offsets. -/
  | list (kind : ListKind) (validity : List Bool) (offsets : List Nat) (values : ArrowArray)
  | map (validity : List Bool) (offsets : List Nat) (keys values : ArrowArray)

inductive Columns where
  | nil
  | cons (name : Text) (column : ArrowArray) (rest : Columns)

end

mutual

def ArrowArray.dataType : ArrowArray → ArrowType
  | .scalar type _ => .scalar type
  | .struct _ columns => .struct columns.fields
  | .list kind _ _ values => .list kind values.dataType
  | .map _ _ keys values => .map keys.dataType values.dataType

def Columns.fields : Columns → Fields
  | .nil => .nil
  | .cons name column rest => .cons name column.dataType rest.fields

end

def ArrowArray.len : ArrowArray → Nat
  | .scalar _ values => values.length
  | .struct validity _ | .list _ validity _ _ | .map validity _ _ _ => validity.length

/-- The offsets of a list's rows; those of a fixed-size one are the multiples of its size. -/
def listOffsets (kind : ListKind) (len : Nat) (offsets : List Nat) : List Nat :=
  match kind with
  | .fixedSizeList size => (List.range (len + 1)).map (· * size)
  | .list | .largeList => offsets

/-- `offsets[row]..offsets[row + 1]` -/
def window (offsets : List Nat) (row : Nat) : List Nat :=
  List.range' (offsets.getD row 0) (offsets.getD (row + 1) 0 - offsets.getD row 0)

/-- `ScalarValue::try_from_array` -/
def scalarAt {type : DataType} (values : List { v : ScalarValue // v.dataType = type }) (row : Nat) : ScalarValue :=
  (values[row]?.map (·.1)).getD (.null type)

/-- `Array::is_valid` -/
def isValid (validity : List Bool) (row : Nat) : Bool := validity.getD row false

def ScalarValue.toValue (v : ScalarValue) : Value := if v.isNull then .null else .leaf v

mutual

/-- The value in a row. -/
def ArrowArray.row : ArrowArray → Nat → Value
  | .scalar _ values, r => ScalarValue.toValue (scalarAt values r)
  | .struct validity columns, r => if isValid validity r then .struct (columns.row r) else .null
  | .list kind validity offsets values, r =>
    if isValid validity r then
      .list ((window (listOffsets kind validity.length offsets) r).map fun e => values.row e)
    else .null
  | .map validity offsets keys values, r =>
    if isValid validity r then .map ((window offsets r).map fun e => (keys.row e, values.row e)) else .null

def Columns.row : Columns → Nat → List Value
  | .nil, _ => []
  | .cons _ column rest, r => column.row r :: rest.row r

end

def ArrowArray.rows (array : ArrowArray) : List Value := (List.range array.len).map array.row

/-! ## Slices -/

def sliceList {α : Type} (l : List α) (offset len : Nat) : List α := (l.drop offset).take len

mutual

def ArrowArray.slice : ArrowArray → Nat → Nat → ArrowArray
  | .scalar type values, offset, len => .scalar type (sliceList values offset len)
  | .struct validity columns, offset, len => .struct (sliceList validity offset len) (columns.slice offset len)
  | .list kind validity offsets values, offset, len =>
    match kind with
    | .fixedSizeList size =>
      .list kind (sliceList validity offset len) offsets (values.slice (offset * size) (len * size))
    | .list | .largeList =>
      .list kind (sliceList validity offset len) (sliceList offsets offset (len + 1)) values
  | .map validity offsets keys values, offset, len =>
    .map (sliceList validity offset len) (sliceList offsets offset (len + 1)) keys values

def Columns.slice : Columns → Nat → Nat → Columns
  | .nil, _, _ => .nil
  | .cons name column rest, offset, len => .cons name (column.slice offset len) (rest.slice offset len)

end

theorem getElem?_sliceList {α : Type} (l : List α) (offset : Nat) {len r : Nat} (h : r < len) :
    (sliceList l offset len)[r]? = l[offset + r]? := by
  rw [sliceList, List.getElem?_take, if_pos h, List.getElem?_drop]

theorem getD_sliceList {α : Type} (l : List α) (offset : Nat) (d : α) {len r : Nat} (h : r < len) :
    (sliceList l offset len).getD r d = l.getD (offset + r) d := by
  rw [List.getD_eq_getElem?_getD, List.getD_eq_getElem?_getD, getElem?_sliceList l offset h]

theorem isValid_sliceList (validity : List Bool) (offset : Nat) {len r : Nat} (h : r < len) :
    isValid (sliceList validity offset len) r = isValid validity (offset + r) := getD_sliceList validity offset false h

theorem window_slice (offsets : List Nat) (offset : Nat) {len r : Nat} (h : r < len) :
    window (sliceList offsets offset (len + 1)) r = window offsets (offset + r) := by
  rw [window, window, getD_sliceList _ _ _ (by omega), getD_sliceList _ _ _ (by omega), Nat.add_assoc]

theorem window_fixed {size len r : Nat} (offsets : List Nat) (h : r < len) :
    window (listOffsets (.fixedSizeList size) len offsets) r = List.range' (r * size) size := by
  have hoffset : ∀ i ≤ len, (listOffsets (.fixedSizeList size) len offsets).getD i 0 = i * size := by
    intro i hi
    rw [listOffsets, List.getD_eq_getElem?_getD, List.getElem?_map, List.getElem?_range (by omega)]
    rfl
  rw [window, hoffset r (by omega), hoffset (r + 1) (by omega), Nat.succ_mul, Nat.add_sub_cancel_left]

theorem lt_of_isValid {validity : List Bool} {r : Nat} (h : isValid validity r = true) : r < validity.length := by
  by_contra hle
  rw [isValid, List.getD_eq_getElem?_getD, List.getElem?_eq_none (Nat.not_lt.mp hle)] at h
  cases h

mutual

theorem row_slice : ∀ (array : ArrowArray) (offset len r : Nat), r < len →
    (array.slice offset len).row r = array.row (offset + r)
  | .scalar type values, offset, len, r, h => by
    rw [ArrowArray.slice, ArrowArray.row, ArrowArray.row, scalarAt, scalarAt, getElem?_sliceList _ _ h]
  | .struct validity columns, offset, len, r, h => by
    rw [ArrowArray.slice, ArrowArray.row, ArrowArray.row, isValid_sliceList _ _ h,
      columnsRow_slice columns offset len r h]
  | .list .list validity offsets values, offset, len, r, h => by
    simp only [ArrowArray.slice, ArrowArray.row, listOffsets]
    rw [isValid_sliceList _ _ h, window_slice _ _ h]
  | .list .largeList validity offsets values, offset, len, r, h => by
    simp only [ArrowArray.slice, ArrowArray.row, listOffsets]
    rw [isValid_sliceList _ _ h, window_slice _ _ h]
  | .list (.fixedSizeList size) validity offsets values, offset, len, r, h => by
    simp only [ArrowArray.slice, ArrowArray.row]
    rw [isValid_sliceList _ _ h]
    split
    · next hvalid =>
      have hr : r < (sliceList validity offset len).length :=
        lt_of_isValid (by rw [isValid_sliceList _ _ h, hvalid])
      rw [window_fixed _ hr, window_fixed _ (lt_of_isValid hvalid)]
      congr 1
      -- the windows are as far apart as the children's slices
      have hshift : List.range' ((offset + r) * size) size = (List.range' (r * size) size).map (offset * size + ·) := by
        rw [List.map_add_range', Nat.add_mul]
      rw [hshift, List.map_map]
      apply List.map_congr_left
      intro e he
      have hlt : e < len * size := by
        have hbound : (r + 1) * size ≤ len * size := Nat.mul_le_mul_right size h
        rw [List.mem_range'_1] at he
        rw [Nat.succ_mul] at hbound
        omega
      exact row_slice values (offset * size) (len * size) e hlt
    · rfl
  | .map validity offsets keys values, offset, len, r, h => by
    simp only [ArrowArray.slice, ArrowArray.row]
    rw [isValid_sliceList _ _ h, window_slice _ _ h]

theorem columnsRow_slice : ∀ (columns : Columns) (offset len r : Nat), r < len →
    (columns.slice offset len).row r = columns.row (offset + r)
  | .nil, _, _, _, _ => rfl
  | .cons name column rest, offset, len, r, h => by
    rw [Columns.slice, Columns.row, Columns.row, row_slice column offset len r h, columnsRow_slice rest offset len r h]

end

theorem length_sliceList {α : Type} {l : List α} {offset len : Nat} (h : offset + len ≤ l.length) :
    (sliceList l offset len).length = len := by
  rw [sliceList, List.length_take, List.length_drop]
  omega

theorem len_slice {array : ArrowArray} {offset len : Nat} (h : offset + len ≤ array.len) :
    (array.slice offset len).len = len := by
  cases array with
  | scalar type values => exact length_sliceList h
  | struct validity columns => exact length_sliceList h
  | list kind validity offsets values => cases kind <;> exact length_sliceList h
  | map validity offsets keys values => exact length_sliceList h

theorem rows_slice {array : ArrowArray} {offset len : Nat} (h : offset + len ≤ array.len) :
    (array.slice offset len).rows = sliceList array.rows offset len := by
  apply List.ext_getElem?
  intro r
  rw [ArrowArray.rows, len_slice h]
  by_cases hr : r < len
  · rw [getElem?_sliceList _ _ hr, ArrowArray.rows, List.getElem?_map, List.getElem?_map, List.getElem?_range hr,
      List.getElem?_range (by omega), Option.map_some, Option.map_some, row_slice array offset len r hr]
  · have hlength : (sliceList array.rows offset len).length = len :=
      length_sliceList (by rw [ArrowArray.rows, List.length_map, List.length_range]; exact h)
    rw [List.getElem?_eq_none (by rw [List.length_map, List.length_range]; omega),
      List.getElem?_eq_none (by rw [hlength]; omega)]

mutual

theorem dataType_slice : ∀ (array : ArrowArray) (offset len : Nat), (array.slice offset len).dataType = array.dataType
  | .scalar _ _, _, _ => rfl
  | .struct validity columns, offset, len => by
    rw [ArrowArray.slice, ArrowArray.dataType, ArrowArray.dataType, fields_slice columns offset len]
  | .list .list _ _ _, _, _ => rfl
  | .list .largeList _ _ _, _, _ => rfl
  | .list (.fixedSizeList size) validity offsets values, offset, len => by
    rw [ArrowArray.slice, ArrowArray.dataType, ArrowArray.dataType, dataType_slice values (offset * size) (len * size)]
  | .map _ _ _ _, _, _ => rfl

theorem fields_slice : ∀ (columns : Columns) (offset len : Nat), (columns.slice offset len).fields = columns.fields
  | .nil, _, _ => rfl
  | .cons name column rest, offset, len => by
    rw [Columns.slice, Columns.fields, Columns.fields, dataType_slice column offset len, fields_slice rest offset len]

end

/-! ## Paths to the fields below a type -/

inductive Step where
  | field (index : Nat)
  | element
  | key
  | value
deriving DecidableEq, Repr

abbrev Path := List Step

/-- The fields below a step. -/
def under (step : Step) (fields : List (Path × ArrowType)) : List (Path × ArrowType) :=
  fields.map fun f => (step :: f.1, f.2)

mutual

/-- A type and its fields depth first, as `append_column_def` lists them. -/
def ArrowType.preorder : ArrowType → List (Path × ArrowType)
  | .scalar t => [([], .scalar t)]
  | .struct fields => ([], .struct fields) :: fields.preorder 0
  | .list kind element => ([], .list kind element) :: under .element element.preorder
  | .map key value => ([], .map key value) :: (under .key key.preorder ++ under .value value.preorder)

def Fields.preorder : Fields → Nat → List (Path × ArrowType)
  | .nil, _ => []
  | .cons _ type rest, i => under (.field i) type.preorder ++ rest.preorder (i + 1)

end

/-- The values a row has at a path: under no NULL, and not NULL themselves. -/
def Value.valuesAt : Path → Value → List ScalarValue
  | [], .leaf v => [v]
  | .field i :: path, .struct values => (values[i]?.getD .null).valuesAt path
  | .element :: path, .list items => items.flatMap (valuesAt path)
  | .key :: path, .map entries => entries.flatMap fun e => e.1.valuesAt path
  | .value :: path, .map entries => entries.flatMap fun e => e.2.valuesAt path
  | _, _ => []

/-- The places a row has for a value at a path, `none` for a NULL: a NULL struct has the
places of its fields, a NULL or empty list has none. -/
def Value.entriesAt : Path → Value → List (Option ScalarValue)
  | [], .leaf v => [some v]
  | [], _ => [none]
  | .field i :: path, .struct values => (values[i]?.getD .null).entriesAt path
  | .field _ :: path, _ => Value.null.entriesAt path
  | .element :: path, .list items => items.flatMap (entriesAt path)
  | .key :: path, .map entries => entries.flatMap fun e => e.1.entriesAt path
  | .value :: path, .map entries => entries.flatMap fun e => e.2.entriesAt path
  | _, _ => []

theorem valuesAt_null (path : Path) : Value.null.valuesAt path = [] := by
  cases path with
  | nil => rfl
  | cons step path => cases step <;> rfl

theorem filterMap_entriesAt (path : Path) (v : Value) : (v.entriesAt path).filterMap id = v.valuesAt path := by
  induction path generalizing v with
  | nil => cases v <;> rfl
  | cons step path ih =>
    have hnull : (Value.null.entriesAt path).filterMap id = [] := by
      rw [ih, valuesAt_null]
    cases step <;> cases v <;>
      first
      | rfl
      | exact hnull
      | exact ih _
      | simp only [Value.entriesAt, Value.valuesAt, List.filterMap_flatMap, ih]

end DuckLake.Nested
