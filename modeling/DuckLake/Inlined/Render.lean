import DuckLake.Inlined.Filter

/- Rendering an inlined filter for one catalog backend, and what the rendered
   condition means there.

   A rendered condition refers to its bound values by placeholder number: PostgreSQL
   writes the number (`$3`), the other backends a `?` that stands for the next value
   in the order of the text.

   What a backend does with the condition is its documented behaviour: comparisons
   are three-valued, numbers compare by value (both zeros alike, a NaN above
   everything), texts and blobs byte by byte, and SQLite's `length` and `substr`
   stop at the first NUL character. -/

namespace DuckLake.Inlined

open Kleene Prune

inductive InlinedSqlDialect where
  | sqlite | postgres | duckDb | mySql
  deriving DecidableEq, Repr

inductive InlinedSqlBind where
  | bool (v : Bool)
  | i64 (v : Int)
  | u64 (v : Nat)
  | f64 (neg : Bool) (units : Nat)
  | text (v : Text)
  | bytes (v : List UInt8)
  deriving DecidableEq, Repr

/-! ## Physical types -/

def isUtf8 : DataType → Bool
  | .string _ => true
  | _ => false

def isBinary : DataType → Bool
  | .binary (.fixedSizeBinary _) => false
  | .binary _ => true
  | _ => false

/-- `trim().to_ascii_uppercase()`. -/
def normalized (t : Text) : Text :=
  (((t.dropWhile Char.isWhitespace).reverse.dropWhile Char.isWhitespace).reverse).map Char.toUpper

def containsText (t sub : Text) : Bool := t.tails.any (sub.isPrefixOf ·)

def mentions (physical : Text) (word : String) : Bool := containsText physical word.toList

def begins (physical : Text) (word : String) : Bool := word.toList.isPrefixOf physical

def isOneOf (physical : Text) (words : List String) : Bool := words.any fun w => w.toList == physical

def isCharOrText (physical : Text) : Bool := mentions physical "CHAR" || mentions physical "TEXT"

def isNumericDeclaration (physical : Text) : Bool := begins physical "NUMERIC" || begins physical "DECIMAL"

def isUnsignedBigint (physical : Text) : Bool := mentions physical "BIGINT" && mentions physical "UNSIGNED"

def physicalTypeMatches (dialect : InlinedSqlDialect) (dataType : DataType) (physicalType : Text) : Bool :=
  let physical := normalized physicalType
  match dialect, dataType with
  | .sqlite, .integer .uint64 => isCharOrText physical
  | .sqlite, .boolean | .sqlite, .integer _ => mentions physical "INT" || isOneOf physical ["BOOLEAN"]
  | .sqlite, .float32 | .sqlite, .float64 => mentions physical "DOUBLE" || mentions physical "REAL"
  | .sqlite, t => if isUtf8 t then isCharOrText physical else isBinary t && mentions physical "BLOB"
  | .postgres, .boolean => isOneOf physical ["BOOLEAN", "BOOL"]
  | .postgres, .integer .int8 | .postgres, .integer .int16 => isOneOf physical ["SMALLINT", "INT2"]
  | .postgres, .integer .int32 => isOneOf physical ["INTEGER", "INT4"]
  | .postgres, .integer .int64 => isOneOf physical ["BIGINT", "INT8"]
  | .postgres, .integer .uint8 | .postgres, .integer .uint16 => isOneOf physical ["INTEGER", "INT4"]
  | .postgres, .integer .uint32 => isOneOf physical ["BIGINT", "INT8"]
  | .postgres, .integer .uint64 =>
    mentions physical "CHAR" || isOneOf physical ["TEXT"] || isNumericDeclaration physical
  | .postgres, .float32 => isOneOf physical ["REAL", "FLOAT4"]
  | .postgres, .float64 => isOneOf physical ["DOUBLE PRECISION", "FLOAT8"]
  | .postgres, .decimal128 _ _ => isNumericDeclaration physical
  | .postgres, t => (isUtf8 t || isBinary t) && isOneOf physical ["BYTEA"]
  | .duckDb, .boolean => isOneOf physical ["BOOLEAN"]
  | .duckDb, .integer .int8 => isOneOf physical ["TINYINT", "INT8"]
  | .duckDb, .integer .int16 => isOneOf physical ["SMALLINT", "INT16"]
  | .duckDb, .integer .int32 => isOneOf physical ["INTEGER", "INT32"]
  | .duckDb, .integer .int64 => isOneOf physical ["BIGINT", "INT64"]
  | .duckDb, .integer .uint8 => isOneOf physical ["UTINYINT", "UINT8"]
  | .duckDb, .integer .uint16 => isOneOf physical ["USMALLINT", "UINT16"]
  | .duckDb, .integer .uint32 => isOneOf physical ["UINTEGER", "UINT32"]
  | .duckDb, .integer .uint64 => isOneOf physical ["UBIGINT", "UINT64"]
  | .duckDb, .float32 => isOneOf physical ["FLOAT", "REAL"]
  | .duckDb, .float64 => isOneOf physical ["DOUBLE"]
  | .duckDb, t => if isUtf8 t then mentions physical "VARCHAR" else isBinary t && isOneOf physical ["BLOB"]
  | .mySql, .integer .uint64 => isCharOrText physical || isUnsignedBigint physical
  | .mySql, .boolean | .mySql, .integer _ => mentions physical "BIGINT" || mentions physical "INT"
  | .mySql, .float32 => isCharOrText physical || isOneOf physical ["FLOAT"]
  | .mySql, .float64 => isCharOrText physical || isOneOf physical ["DOUBLE", "DOUBLE PRECISION"]
  | .mySql, .decimal128 _ _ => isCharOrText physical || isNumericDeclaration physical
  | .mySql, t =>
    if isUtf8 t then isCharOrText physical
    else isBinary t && (mentions physical "BLOB" || mentions physical "BINARY")

/-- The column holds unsigned 64-bit numbers as decimal text. -/
def u64UsesLegacyText (dialect : InlinedSqlDialect) (physicalType : Text) : Bool :=
  let physical := normalized physicalType
  match dialect with
  | .sqlite => true
  | .postgres => !isNumericDeclaration physical
  | .mySql => !isUnsignedBigint physical
  | .duckDb => false

/-! ## SQL -/

/-- Terms, by the spelling of each backend. -/
inductive SqlTerm where
  | column (name : Text)
  | placeholder (index : Nat)
  /-- `t COLLATE BINARY` -/
  | collateBinary (t : SqlTerm)
  /-- `BINARY t` -/
  | binary (t : SqlTerm)
  /-- `substr('00000000000000000000' || t, -20, 20)` -/
  | lastTwenty (t : SqlTerm)
  /-- `lpad(t, 20, '0')` -/
  | lpad (t : SqlTerm)
  /-- `convert_to(t, 'UTF8')` -/
  | convertTo (t : SqlTerm)
  /-- `CAST(t AS NUMERIC(20,0))` -/
  | castNumeric (t : SqlTerm)
  /-- `CAST(CAST(t AS DECIMAL(20,0)) AS UNSIGNED)` -/
  | castUnsigned (t : SqlTerm)
  /-- `substr(t, 1, length(n))` -/
  | substrLength (t n : SqlTerm)
  /-- `substring(t from 1 for octet_length(n))` -/
  | substringOctets (t n : SqlTerm)
  /-- `LEFT(t, OCTET_LENGTH(n))` -/
  | leftOctets (t n : SqlTerm)

inductive SqlCondition where
  | compare (left : SqlTerm) (op : InlinedComparison) (right : SqlTerm)
  | startsWith (t leading : SqlTerm)
  | isNull (column : Text)
  | isNotNull (column : Text)
  | and (parts : List SqlCondition)
  | or (parts : List SqlCondition)

def SqlTerm.placeholders : SqlTerm → List Nat
  | .column _ => []
  | .placeholder i => [i]
  | .collateBinary t | .binary t | .lastTwenty t | .lpad t | .convertTo t | .castNumeric t
  | .castUnsigned t => t.placeholders
  | .substrLength t n | .substringOctets t n | .leftOctets t n => t.placeholders ++ n.placeholders

mutual
/-- The placeholders in the order of the text. -/
def SqlCondition.placeholders : SqlCondition → List Nat
  | .compare l _ r => l.placeholders ++ r.placeholders
  | .startsWith t leading => t.placeholders ++ leading.placeholders
  | .isNull _ | .isNotNull _ => []
  | .and parts | .or parts => placeholdersOf parts

def placeholdersOf : List SqlCondition → List Nat
  | [] => []
  | c :: cs => c.placeholders ++ placeholdersOf cs
end

/-! ## Rendering -/

def maxI64 : Nat := 2 ^ 63 - 1

/-- Rust's `to_string` of a double, and how the text of a float is read back. MySQL
reads a text compared with a number as a double; the decoder reads the texts of
a text column. A float has more than one spelling. -/
structure FloatSpelling where
  toText : Bool → Nat → Text
  asNumber : Text → Option Int
  read32 : Text → Option F32
  read64 : Text → Option F64
  asNumber_toText : ∀ neg units, asNumber (toText neg units) = some (if neg then -(units : Int) else units)
  read32_toText : ∀ x : F32, x.isFinite = true →
    read32 (toText x.neg (Ieee.scaled Ieee.binary32 x.mag * 2 ^ 925)) = some x
  read64_toText : ∀ x : F64, x.isFinite = true →
    read64 (toText x.neg (Ieee.scaled Ieee.binary64 x.mag)) = some x
  respell32 : ∀ (x : F32) (t : Text), x.isFinite = true → ∃ t', t' ≠ t ∧ read32 t' = some x
  respell64 : ∀ (x : F64) (t : Text), x.isFinite = true → ∃ t', t' ≠ t ∧ read64 t' = some x

section Rendering
variable (fmt : FloatSpelling) (dialect : InlinedSqlDialect)

def sqlBind (value : InlinedValue) (dataType : DataType) (range : Bool) : Option InlinedSqlBind :=
  match dataType, value with
  | .boolean, .bool v => if range then none else some (.bool v)
  | .integer .int8, .i64 v | .integer .int16, .i64 v | .integer .int32, .i64 v | .integer .int64, .i64 v =>
    some (.i64 v)
  | .integer .uint8, .u64 v | .integer .uint16, .u64 v | .integer .uint32, .u64 v =>
    if v ≤ maxI64 then some (.i64 v) else none
  | .integer .uint64, .u64 v => if dialect = .duckDb then some (.u64 v) else some (.text (digits v))
  | .float32, .f64 neg units | .float64, .f64 neg units =>
    if dialect = .mySql then if range then none else some (.text (fmt.toText neg units))
    else some (.f64 neg units)
  | .string _, .utf8 s => some (if dialect = .postgres then .bytes (Utf8.encode s) else .text s)
  | t, .binary b => if isBinary t then some (.bytes b) else none
  | _, _ => none

/-- Both sides padded to twenty digits. -/
def textU64RangeOperands (column : Text) (index : Nat) : Option (SqlTerm × SqlTerm) :=
  match dialect with
  | .sqlite => some (.collateBinary (.lastTwenty (.column column)), .lastTwenty (.placeholder index))
  | .postgres => some (.convertTo (.lpad (.column column)), .convertTo (.lpad (.placeholder index)))
  | .mySql => some (.binary (.lpad (.column column)), .binary (.lpad (.placeholder index)))
  | .duckDb => none

def nativeU64Operands (column : Text) (index : Nat) (physicalType : Text) : SqlTerm × SqlTerm :=
  let physical := normalized physicalType
  match dialect with
  | .postgres =>
    if isNumericDeclaration physical then (.column column, .castNumeric (.placeholder index))
    else (.column column, .placeholder index)
  | .mySql =>
    if isUnsignedBigint physical then (.column column, .castUnsigned (.placeholder index))
    else (.column column, .placeholder index)
  | _ => (.column column, .placeholder index)

def comparisonIdent (column : Text) (dataType : DataType) : SqlTerm :=
  match dialect with
  | .sqlite => if isUtf8 dataType then .collateBinary (.column column) else .column column
  | .mySql => if isUtf8 dataType then .binary (.column column) else .column column
  | _ => .column column

def renderComparison (column : Text) (op : InlinedComparison) (dataType : DataType) (physicalType : Text)
    (index : Nat) : SqlCondition :=
  if dataType = .integer .uint64 then
    match textU64RangeOperands dialect column index with
    | some (ident, value) =>
      if (op.isRange || dialect = .sqlite) && u64UsesLegacyText dialect physicalType then
        .compare ident op value
      else
        let operands := nativeU64Operands dialect column index physicalType
        .compare operands.1 op operands.2
    | none =>
      let operands := nativeU64Operands dialect column index physicalType
      .compare operands.1 op operands.2
  else .compare (comparisonIdent dialect column dataType) op (.placeholder index)

/-- The condition that a column starts with a bound text, and how often it binds it. -/
def renderPrefixed (column : Text) (index : Nat) : SqlCondition × Nat :=
  match dialect with
  | .duckDb => (.startsWith (.column column) (.placeholder index), 1)
  | .sqlite =>
    (.compare (.substrLength (.column column) (.placeholder index)) .eq
      (.collateBinary (.placeholder (index + 1))), 2)
  | .postgres =>
    (.compare (.substringOctets (.column column) (.placeholder index)) .eq (.placeholder (index + 1)), 2)
  | .mySql =>
    (.compare (.leftOctets (.binary (.column column)) (.placeholder index)) .eq
      (.binary (.placeholder (index + 1))), 2)

variable (fields : Text → Option DataType) (physicalTypes : Text → Option Text)

/-- A leaf of the filter, with the values it binds from placeholder `index` on. -/
def renderLeaf (filter : InlinedFilter) (index : Nat) : Option (SqlCondition × List InlinedSqlBind) :=
  match filter with
  | .isNull column => if (physicalTypes column).isSome then some (.isNull column, []) else none
  | .isNotNull column => if (physicalTypes column).isSome then some (.isNotNull column, []) else none
  | .comparison column op value => do
    let dataType ← fields column
    let physicalType ← physicalTypes column
    if physicalTypeMatches dialect dataType physicalType then
      let bind ← sqlBind fmt dialect value dataType op.isRange
      return (renderComparison dialect column op dataType physicalType index, [bind])
    else none
  | .prefixed column leading => do
    let dataType ← fields column
    let physicalType ← physicalTypes column
    if isUtf8 dataType && physicalTypeMatches dialect dataType physicalType then
      let bind ← sqlBind fmt dialect (.utf8 leading) dataType false
      let (condition, uses) := renderPrefixed dialect column index
      return (condition, List.replicate uses bind)
    else none
  | .and _ | .or _ => none

/-- One condition stands for itself, several stand under one `AND`. -/
def andConditions : List SqlCondition → Option SqlCondition
  | [] => none
  | [c] => some c
  | cs => some (.and cs)

variable (firstPlaceholder : Nat)

mutual
/-- Renders a node, given the values bound so far. -/
def renderNode (filter : InlinedFilter) (binds : List InlinedSqlBind) :
    Option SqlCondition × List InlinedSqlBind :=
  match filter with
  | .and children =>
    let (rendered, binds) := renderSome children binds
    (andConditions rendered, binds)
  | .or children =>
    match renderEach children binds with
    | (some (c :: cs), binds) => (some (.or (c :: cs)), binds)
    | (_, binds') => (none, binds'.take binds.length)
  | leaf =>
    match renderLeaf fmt dialect fields physicalTypes leaf (firstPlaceholder + binds.length) with
    | some (c, new) => (some c, binds ++ new)
    | none => (none, binds)

/-- The children that render. -/
def renderSome : List InlinedFilter → List InlinedSqlBind → List SqlCondition × List InlinedSqlBind
  | [], binds => ([], binds)
  | f :: fs, binds =>
    let (c, binds) := renderNode f binds
    let (cs, binds) := renderSome fs binds
    (c.toList ++ cs, binds)

/-- Every child, stopping at the first that does not render. -/
def renderEach : List InlinedFilter → List InlinedSqlBind → Option (List SqlCondition) × List InlinedSqlBind
  | [], binds => (some [], binds)
  | f :: fs, binds =>
    match renderNode f binds with
    | (none, binds) => (none, binds)
    | (some c, binds) =>
      match renderEach fs binds with
      | (some cs, binds) => (some (c :: cs), binds)
      | (none, binds) => (none, binds)
end

structure RenderedInlinedFilter where
  sql : SqlCondition
  binds : List InlinedSqlBind

def renderInlinedFilter (filter : InlinedFilter) : Option RenderedInlinedFilter :=
  let (sql, binds) := renderNode fmt dialect fields physicalTypes firstPlaceholder filter []
  sql.map (⟨·, binds⟩)

end Rendering

end DuckLake.Inlined
