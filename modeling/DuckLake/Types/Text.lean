import DuckLake.Lib.Brackets
import DuckLake.Lib.Checked
import DuckLake.Nested.Text
import DuckLake.Stats.Encode
import DuckLake.Types.Arrow

/- The texts of column types (`types.rs`): an Arrow type is written as a DuckLake type and
   a DuckLake type is read as an Arrow type.

   Correspondence (Rust ↔ Lean):
     `arrow_to_ducklake_type`            ↔ `arrowToDucklakeType`
     `ducklake_to_arrow_type(_inner)`    ↔ `ducklakeToArrowType(Inner)`
     `parse_decimal`, `parse_list_type`,
     `parse_struct_type`, `parse_map_type` ↔ `parseDecimal`, `parseListType`,
                                             `parseStructType`, `parseMapType`
     `split_top_level`, `top_level_separator` ↔ `splitTopLevel`, `topLevelSeparator`
   The depth of the source counts up to its limit; here the levels that are left count
   down. Texts are lists of characters, where the source cuts at byte offsets that stand
   between characters. An error is the text of `UnsupportedType`. -/

namespace DuckLake.Types

open Nested (trimText isUnicodeSpace maxNestedTypeDepth)

/-! ## Writing -/

def decimalText (precision : UInt8) (scale : Int8) : Text :=
  "decimal(".toList ++ digits precision.toNat ++ ", ".toList ++ intText scale.toInt ++ [')']

def Leaf.text : Leaf → Except Text Text
  | .boolean => .ok "boolean".toList
  | .integer .int8 => .ok "int8".toList
  | .integer .int16 => .ok "int16".toList
  | .integer .int32 => .ok "int32".toList
  | .integer .int64 => .ok "int64".toList
  | .integer .uint8 => .ok "uint8".toList
  | .integer .uint16 => .ok "uint16".toList
  | .integer .uint32 => .ok "uint32".toList
  | .integer .uint64 => .ok "uint64".toList
  | .float32 => .ok "float32".toList
  | .float64 => .ok "float64".toList
  | .date32 | .date64 => .ok "date".toList
  | .time32 _ | .time64 _ => .ok "time".toList
  | .timestamp .second none => .ok "timestamp_s".toList
  | .timestamp .millisecond none => .ok "timestamp_ms".toList
  | .timestamp .microsecond none => .ok "timestamp".toList
  | .timestamp .nanosecond none => .ok "timestamp_ns".toList
  | .timestamp .nanosecond (some _) => .ok "timestamptz_ns".toList
  | .timestamp _ (some _) => .ok "timestamptz".toList
  | .interval _ => .ok "interval".toList
  | .string _ => .ok "varchar".toList
  | .binary (.fixedSizeBinary 16) => .ok "uuid".toList
  | .binary _ => .ok "blob".toList
  | .decimal128 precision scale | .decimal256 precision scale => .ok (decimalText precision scale)
  | .null => .ok "varchar".toList
  | .other name => .error ("Arrow type '".toList ++ name ++ "' has no DuckLake equivalent".toList)

mutual

def arrowToDucklakeType : ArrowType → Except Text Text
  | .leaf leaf => leaf.text
  -- the keys are an encoding detail
  | .dictionary _ value => arrowToDucklakeType value
  | .list _ _ element _ => do
    let inner ← arrowToDucklakeType element
    return "list<".toList ++ (inner ++ ['>'])
  | .struct fields => do
    let fields ← fieldTexts fields
    return "struct<".toList ++ ([','].intercalate fields ++ ['>'])
  | .map _ (.struct (.cons _ key _ (.cons _ value _ .nil))) _ _ => do
    let key ← arrowToDucklakeType key
    let value ← arrowToDucklakeType value
    return "map<".toList ++ ([','].intercalate [key, value] ++ ['>'])
  | .map _ (.struct _) _ _ => .error "Arrow maps must have key and value fields".toList
  | .map _ _ _ _ => .error "Arrow map entries must be a struct".toList

def fieldTexts : Fields → Except Text (List Text)
  | .nil => .ok []
  | .cons name type _ rest => do
    let type ← arrowToDucklakeType type
    let rest ← fieldTexts rest
    return (name ++ ':' :: type) :: rest

end

/-! ## Reading -/

def lowercase (t : Text) : Text := t.map Char.toLower

def trimStart (t : Text) : Text := t.dropWhile isUnicodeSpace

def stripPrefixOf (start t : Text) : Option Text := if start.isPrefixOf t then some (t.drop start.length) else none

def stripSuffixOf (finish t : Text) : Option Text :=
  if finish.isSuffixOf t then some (t.take (t.length - finish.length)) else none

/-- `str::parse::<u8>`. -/
def parseU8 : Text → Option UInt8
  | '+' :: t => (Numeral.parseNat t).bind fun n => if n < 256 then some (UInt8.ofNat n) else none
  | t => (Numeral.parseNat t).bind fun n => if n < 256 then some (UInt8.ofNat n) else none

/-- `str::parse::<i8>`. -/
def parseI8 (t : Text) : Option Int8 := (Numeral.parseIntIn (-128) 127 t).map Int8.ofInt

def decimalMaxPrecision : UInt8 := 76

def validateDecimalPrecisionScale (precision : UInt8) (scale : Int8) (typeStr : Text) : Except Text Unit :=
  if precision = 0 then .error ("Decimal precision must be >= 1, got 0 in type '".toList ++ typeStr ++ ['\''])
  else if decimalMaxPrecision < precision then
    .error ("Decimal precision must be <= 76, got ".toList ++ digits precision.toNat ++ " in type '".toList ++
      typeStr ++ ['\''])
  else if 0 ≤ scale.toInt ∧ (precision.toNat : Int) < scale.toInt then
    .error ("Decimal scale (".toList ++ intText scale.toInt ++ ") must not exceed precision (".toList ++
      digits precision.toNat ++ ") in type '".toList ++ typeStr ++ ['\''])
  else .ok ()

def decimalDataType (precision : UInt8) (scale : Int8) : Leaf :=
  if 38 < precision then .decimal256 precision scale else .decimal128 precision scale

/-- A parameter that must be a number. -/
def requireNumber {α : Type} (what : Text) (part typeStr : Text) (number : Option α) : Except Text α :=
  match number with
  | some n => .ok n
  | none => .error ("Invalid decimal ".toList ++ what ++ " '".toList ++ part ++ "' in type '".toList ++
      typeStr ++ ['\''])

def decimalOf (typeStr : Text) : List Text → Except Text Leaf
  | [precision] => do
    let precision ← requireNumber "precision".toList precision typeStr (parseU8 precision)
    validateDecimalPrecisionScale precision 0 typeStr
    return decimalDataType precision 0
  | [precision, scale] => do
    let precision ← requireNumber "precision".toList precision typeStr (parseU8 precision)
    let scale ← requireNumber "scale".toList scale typeStr (parseI8 scale)
    validateDecimalPrecisionScale precision scale typeStr
    return decimalDataType precision scale
  | parts => .error ("Invalid decimal type: expected at most 2 parameters (precision, scale), got ".toList ++
      digits parts.length ++ " in type '".toList ++ typeStr ++ ['\''])

/-- What follows the name of a decimal type. -/
def decimalRest (normalized : Text) : Option Text :=
  ["decimal".toList, "numeric".toList].findSome? (stripPrefixOf · normalized)

/-- The parameters of a decimal type, if they close it. -/
def decimalParams (typeStr : Text) : Option Text := do
  let rest ← decimalRest (lowercase typeStr)
  let rest := trimStart rest
  if rest.head? ≠ some '(' then none
  else
    let params ← stripSuffixOf [')'] (typeStr.drop (typeStr.length - rest.length + 1))
    if '(' ∈ params ∨ ')' ∈ params then none else some params

/-- `Ok(None)` for a text that is no decimal type. -/
def parseDecimal (typeStr : Text) : Except Text (Option ArrowType) :=
  let typeStr := trimText typeStr
  match decimalParams typeStr with
  | none => .ok none
  | some params => (decimalOf typeStr ((params.splitOn ',').map trimText)).map fun leaf => some (.leaf leaf)

def listElementName : Text := "item".toList

/-- The text of the element of a list type. -/
def listInner (typeStr : Text) : Option Text :=
  let normalized := lowercase typeStr
  if "list<".toList.isPrefixOf normalized ∨ "array<".toList.isPrefixOf normalized then
    if [('>' : Char)].isSuffixOf typeStr then
      let start := typeStr.idxOf '<'
      some ((typeStr.take (typeStr.length - 1)).drop (start + 1))
    else none
  else stripSuffixOf "[]".toList typeStr

section Parsers

-- the parser of the types one level below
variable (inner : Text → Except Text ArrowType)

def parseListType (typeStr : Text) : Except Text (Option ArrowType) :=
  match listInner typeStr with
  | none => .ok none
  | some element =>
    let element := trimText element
    if element.isEmpty then .error ("List type '".toList ++ typeStr ++ "' has empty element type".toList)
    else (inner element).map fun type => some (.list .list listElementName type true)

/-- The parts between the separators outside of brackets, trimmed. -/
def splitTopLevel (value : Text) (separator : Char) : Except Text (List Text) :=
  match Brackets.splitParts separator value with
  | none => .error ("Unbalanced nested type '".toList ++ value ++ ['\''])
  | some parts => .ok (parts.map trimText)

def topLevelSeparator (value : Text) (separator : Char) : Option Nat :=
  Brackets.separatorFrom separator .zero 0 value

/-- The name and the type of a field. -/
def parseStructField (field : Text) : Except Text (Text × ArrowType) :=
  match topLevelSeparator field ':' with
  | none => .error ("Struct field '".toList ++ field ++ "' must use name:type syntax".toList)
  | some separator =>
    let name := trimText (field.take separator)
    let typeName := trimText (field.drop (separator + 1))
    if name.isEmpty ∨ typeName.isEmpty then
      .error ("Struct field '".toList ++ field ++ "' must have a name and type".toList)
    else (inner typeName).map fun type => (name, type)

def nullableFields : List (Text × ArrowType) → Fields
  | [] => .nil
  | (name, type) :: rest => .cons name type true (nullableFields rest)

def parseStructType (typeStr : Text) : Except Text (Option ArrowType) :=
  if ¬ "struct<".toList.isPrefixOf (lowercase typeStr) then .ok none
  else if ¬ [('>' : Char)].isSuffixOf typeStr then
    .error ("Struct type '".toList ++ typeStr ++ "' is missing its closing '>'".toList)
  else
    let body := (typeStr.take (typeStr.length - 1)).drop 7
    if body.isEmpty then .ok (some (.struct .nil))
    else do
      let parts ← splitTopLevel body ','
      let fields ← parts.mapM (parseStructField inner)
      return some (.struct (nullableFields fields))

def mapOf (typeStr : Text) : List Text → Except Text (Option ArrowType)
  | [keyType, valueType] => do
    let key ← inner keyType
    let value ← inner valueType
    return some (mapEntries key value true)
  | _ => .error ("Map type '".toList ++ typeStr ++ "' must have key and value types".toList)

def parseMapType (typeStr : Text) : Except Text (Option ArrowType) :=
  if ¬ "map<".toList.isPrefixOf (lowercase typeStr) then .ok none
  else if ¬ [('>' : Char)].isSuffixOf typeStr then
    .error ("Map type '".toList ++ typeStr ++ "' is missing its closing '>'".toList)
  else do
    let parts ← splitTopLevel ((typeStr.take (typeStr.length - 1)).drop 4) ','
    mapOf inner typeStr parts

end Parsers

def basicTypes : List (Text × Leaf) :=
  [("boolean".toList, .boolean), ("bool".toList, .boolean),
   ("int8".toList, .integer .int8), ("tinyint".toList, .integer .int8),
   ("int16".toList, .integer .int16), ("smallint".toList, .integer .int16),
   ("int32".toList, .integer .int32), ("int".toList, .integer .int32), ("integer".toList, .integer .int32),
   ("int64".toList, .integer .int64), ("bigint".toList, .integer .int64), ("long".toList, .integer .int64),
   ("uint8".toList, .integer .uint8), ("utinyint".toList, .integer .uint8),
   ("uint16".toList, .integer .uint16), ("usmallint".toList, .integer .uint16),
   ("uint32".toList, .integer .uint32), ("uint".toList, .integer .uint32), ("uinteger".toList, .integer .uint32),
   ("uint64".toList, .integer .uint64), ("ubigint".toList, .integer .uint64),
   ("float32".toList, .float32), ("float".toList, .float32), ("real".toList, .float32),
   ("float64".toList, .float64), ("double".toList, .float64),
   ("time".toList, .time64 .microsecond), ("date".toList, .date32),
   ("timestamp".toList, .timestamp .microsecond none),
   ("timestamptz".toList, .timestamp .microsecond (some "UTC".toList)),
   ("timestamp with time zone".toList, .timestamp .microsecond (some "UTC".toList)),
   ("timestamptz_ns".toList, .timestamp .nanosecond (some "UTC".toList)),
   ("timestamp_s".toList, .timestamp .second none), ("timestamp_ms".toList, .timestamp .millisecond none),
   ("timestamp_ns".toList, .timestamp .nanosecond none), ("interval".toList, .interval .monthDayNano),
   ("varchar".toList, .string .utf8View), ("text".toList, .string .utf8View), ("string".toList, .string .utf8View),
   ("json".toList, .string .utf8View),
   ("blob".toList, .binary .binaryView), ("binary".toList, .binary .binaryView), ("bytea".toList, .binary .binaryView),
   ("uuid".toList, .binary (.fixedSizeBinary 16)),
   ("point".toList, .binary .binary), ("linestring".toList, .binary .binary), ("polygon".toList, .binary .binary),
   ("multipoint".toList, .binary .binary), ("multilinestring".toList, .binary .binary),
   ("multipolygon".toList, .binary .binary), ("geometrycollection".toList, .binary .binary),
   ("linestring z".toList, .binary .binary), ("geometry".toList, .binary .binary),
   ("timetz".toList, .string .utf8View), ("time with time zone".toList, .string .utf8View)]

def basicType (ducklakeType typeStr : Text) : Except Text ArrowType :=
  match basicTypes.lookup (lowercase typeStr) with
  | some leaf => .ok (.leaf leaf)
  | none => .error ducklakeType

/-- The first parser that knows the text. -/
def orElseRead (known : Except Text (Option ArrowType)) (rest : Except Text ArrowType) : Except Text ArrowType :=
  match known with
  | .error e => .error e
  | .ok (some type) => .ok type
  | .ok none => rest

/-- The type of a text with some levels left below it. -/
def ducklakeToArrowTypeInner : Nat → Text → Except Text ArrowType
  | 0, _ => .error "Type exceeds maximum nesting depth 128".toList
  | levels + 1, ducklakeType =>
    let typeStr := trimText ducklakeType
    orElseRead (parseDecimal typeStr) <|
    orElseRead (parseListType (ducklakeToArrowTypeInner levels) typeStr) <|
    orElseRead (parseStructType (ducklakeToArrowTypeInner levels) typeStr) <|
    orElseRead (parseMapType (ducklakeToArrowTypeInner levels) typeStr) <|
    basicType ducklakeType typeStr

def ducklakeToArrowType (ducklakeType : Text) : Except Text ArrowType :=
  ducklakeToArrowTypeInner (maxNestedTypeDepth + 1) ducklakeType

end DuckLake.Types
