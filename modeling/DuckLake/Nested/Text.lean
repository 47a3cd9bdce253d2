import DuckLake.Lib.Scan
import DuckLake.Lib.Utf8
import DuckLake.Nested.Types
import DuckLake.Stats.Encode

/- Nested values written inline as text and read back (`nested_inline.rs`).

   The writer spells a value by its type: lists in brackets, structs and maps in braces,
   strings and blobs in quotes, NULL as the bare word. A string that is a map key stays
   bare where it is one word. The reader goes over the bytes of that text with the type
   at hand, cutting bare leaves at the bytes that may follow them.

   Correspondence (Rust ↔ Lean):
     `render_text`, `render_text_at_depth` ↔ `renderText`, `renderValue`
     `quote_text`, `encode_blob`, `is_bare_map_key` ↔ `quoteText`, `encodeBlob`, `isBareMapKey`
     `duckdb_temporal_text`                ↔ `duckdbTemporalText`
     `Parser`                              ↔ the bytes that remain, with `Lib/Scan`
     `parse_text`, `parse_value`           ↔ `parseText`, `parseValue`
     `parse_list`, `parse_struct`, `parse_map` ↔ `parseList`, `parseStruct`, `parseMap`
     `parse_quoted`, `consume_null`        ↔ `parseQuoted`, `consumeNull`
     `parse_ducklake_scalar_leaf`          ↔ `parseScalarLeaf`
     `parse_duckdb_blob`                   ↔ `parseDuckdbBlob`
     `build_list_scalar`, `build_struct_scalar`, `build_map_scalar` ↔ the same
   A row of an Arrow array is a `Value`. A `ScalarValue` of a nested type holds an array,
   so what the reader returns is a list of rows: one row, save where Arrow builds an array
   without rows. Arrow's display and its parser of a leaf are parameters. -/

namespace DuckLake.Nested

open Scan

/-! ## Values -/

/-- A row of an array. The values of a struct are in the order of its fields. -/
inductive Value where
  | null
  | leaf (v : ScalarValue)
  | struct (values : List Value)
  | list (items : List Value)
  | map (entries : List (Value × Value))

def Value.isNull : Value → Bool
  | null => true
  | _ => false

/-- The rows of a `ScalarValue`'s array. -/
abbrev Rows := List Value

/-- `ScalarValue::is_null`: no row that is not NULL. -/
def Rows.isNull (rows : Rows) : Bool := rows.all Value.isNull

def maxNestedTypeDepth : Nat := 128

/-- Arrow's text of a leaf, and its parser of the leaf types with a text of their own
(numbers, dates, times and timestamps, these with DuckDB's spelling as well). -/
structure ArrowText where
  display : ScalarValue → Option Text
  parse : DataType → Text → Option ScalarValue

/-! ## Writing -/

def quoteText (value : Text) : Text :=
  '\'' :: value.flatMap (fun c => if c = '\\' ∨ c = '\'' then ['\\', c] else [c]) ++ ['\'']

def isWordChar (c : Char) : Bool := c.isAlphanum || c == '_'

def isBareMapKey (value : Text) : Bool := !value.isEmpty && value.all isWordChar

def encodeBlob (bytes : List UInt8) : Text := bytes.flatMap fun b => '\\' :: 'x' :: hexByte b

/-- DuckDB's text of a date, time or timestamp. -/
def duckdbTemporalText : ScalarValue → Option Text
  | .date32 days => encodeDate32 days
  | .timestamp unit tz v => encodeTimestamp v unit tz.isSome
  | .time unit v => encodeTime v unit
  | _ => none

def leafText (arrow : ArrowText) (mapKey : Bool) : ScalarValue → Option Text
  | .string _ s => some (if mapKey && isBareMapKey s then s else quoteText s)
  | .binary _ bytes => some (quoteText (encodeBlob bytes))
  | .date32 days => duckdbTemporalText (.date32 days)
  | .timestamp unit tz v => duckdbTemporalText (.timestamp unit tz v)
  | .time unit v => duckdbTemporalText (.time unit v)
  | v => arrow.display v

def enclose (opening close : Char) (texts : List Text) : Text :=
  opening :: ", ".toList.intercalate texts ++ [close]

/-- The word for NULL, and no text past the depth limit. -/
def writing (depth : Nat) (v : Value) (text : Option Text) : Option Text :=
  if depth > maxNestedTypeDepth then none
  else if v.isNull then some "NULL".toList
  else text

mutual

def renderValue (arrow : ArrowText) : ArrowType → Nat → Bool → Value → Option Text
  | .scalar _, depth, mapKey, v => writing depth v <|
    match v with
    | .leaf s => leafText arrow mapKey s
    | _ => none
  | .list _ element, depth, _, v => writing depth v <|
    match v with
    | .list items => (items.mapM (renderValue arrow element (depth + 1) false)).map (enclose '[' ']')
    | _ => none
  | .struct fields, depth, _, v => writing depth v <|
    match v with
    | .struct values => (renderFields arrow fields (depth + 1) values).map (enclose '{' '}')
    | _ => none
  | .map key value, depth, _, v => writing depth v <|
    match v with
    | .map entries => (entries.mapM fun e =>
        (renderValue arrow key (depth + 1) true e.1).bind fun k =>
          (renderValue arrow value (depth + 1) false e.2).map fun t => k ++ '=' :: t).map (enclose '{' '}')
    | _ => none

def renderFields (arrow : ArrowText) : Fields → Nat → List Value → Option (List Text)
  | .nil, _, [] => some []
  | .cons name type rest, depth, v :: values =>
    (renderValue arrow type depth false v).bind fun text =>
      (renderFields arrow rest depth values).map fun texts => (quoteText name ++ ": ".toList ++ text) :: texts
  | _, _, _ => none

end

def renderText (arrow : ArrowText) (type : ArrowType) (v : Value) : Option Text := renderValue arrow type 0 false v

/-! ## Building scalars -/

/-- Offsets are 32-bit integers. -/
def maxOffset : Nat := 2 ^ 31 - 1

/-- Arrow cannot tell how many rows a fixed-size list of size zero has, and takes none;
a list of scalars without rows has no rows either. -/
def buildListScalar (kind : ListKind) (values : List Rows) : Option Rows :=
  match kind with
  | .list => if values.flatten.length ≤ maxOffset then some [.list values.flatten] else none
  | .largeList => some [.list values.flatten]
  | .fixedSizeList size =>
    if values.length ≠ size then none
    else if values.flatten = [] then some []
    else if values.flatten.length = size then some [.list values.flatten]
    else none

/-- Arrow refuses a struct without fields, whose rows it cannot count, and columns of
different lengths. -/
def buildStructScalar (values : List Rows) : Option Rows :=
  if values = [] then none
  else if values.all (·.length == 1) then some [.struct values.flatten]
  else if values.all (·.isEmpty) then some []
  else none

def buildMapScalar (entries : List (Rows × Rows)) : Option Rows :=
  let keys := entries.map (·.1)
  let values := entries.map (·.2)
  if keys.any Rows.isNull ∨ keys.flatten.length > maxOffset then none
  else if keys.flatten.length = values.flatten.length then some [.map (keys.flatten.zip values.flatten)]
  else none

/-! ## Reading -/

/-- Rust's `char::is_whitespace`. -/
def isUnicodeSpace (c : Char) : Bool :=
  (0x09 ≤ c.toNat && c.toNat ≤ 0x0d) || (0x2000 ≤ c.toNat && c.toNat ≤ 0x200a) ||
    [0x20, 0x85, 0xa0, 0x1680, 0x2028, 0x2029, 0x202f, 0x205f, 0x3000].contains c.toNat

def trimText (t : Text) : Text := ((t.dropWhile isUnicodeSpace).reverse.dropWhile isUnicodeSpace).reverse

def quote : UInt8 := 0x27
def backslash : UInt8 := 0x5c

/-- The bytes up to the closing quote. A backslash takes the next byte as it is, and two
quotes are one. -/
def quotedBody : List UInt8 → Option (List UInt8 × List UInt8)
  | [] => none
  | b :: s =>
    if b = backslash then
      match s with
      | [] => none
      | e :: s => (quotedBody s).map fun r => (e :: r.1, r.2)
    else if b = quote then
      match s with
      | [] => some ([], [])
      | e :: s => if e = quote then (quotedBody s).map fun r => (quote :: r.1, r.2) else some ([], e :: s)
    else (quotedBody s).map fun r => (b :: r.1, r.2)

def parseQuoted (s : List UInt8) : Option (Text × List UInt8) :=
  (expect quote s).bind fun s => (quotedBody s).bind fun r => (Utf8.decode r.1).map fun t => (t, r.2)

def asciiLower (b : UInt8) : UInt8 := if 0x41 ≤ b ∧ b ≤ 0x5a then b + 0x20 else b

/-- An ASCII letter or digit, or an underscore. -/
def isWordByte (b : UInt8) : Bool :=
  (0x30 ≤ b && b ≤ 0x39) || (0x41 ≤ b && b ≤ 0x5a) || (0x61 ≤ b && b ≤ 0x7a) || b == 0x5f

/-- What follows the word `NULL`, in any letter case. -/
def consumeNull (s : List UInt8) : Option (List UInt8) :=
  if (s.take 4).map asciiLower = [0x6e, 0x75, 0x6c, 0x6c] ∧ (s[4]?).any isWordByte = false
  then some (s.drop 4) else none

/-- The token up to one of `terminators`, as `take_until(..).trim()`. -/
def takeToken (terminators s : List UInt8) : Text × List UInt8 :=
  let r := takeUntil terminators s
  (trimText ((Utf8.decode r.1).getD []), r.2)

/-- A blob never gets here: the nested reader takes it before. -/
def parseScalarLeaf (arrow : ArrowText) (token : Text) : DataType → Option ScalarValue
  | .boolean =>
    let lower := token.map Char.toLower
    if lower = "0".toList ∨ lower = "false".toList then some (.boolean false)
    else if lower = "1".toList ∨ lower = "true".toList then some (.boolean true)
    else none
  | .string kind => some (.string kind token)
  | type => arrow.parse type token

def hexDigit (b : UInt8) : Option UInt8 :=
  if 0x30 ≤ b ∧ b ≤ 0x39 then some (b - 0x30)
  else if 0x41 ≤ b ∧ b ≤ 0x46 then some (b - 0x37)
  else if 0x61 ≤ b ∧ b ≤ 0x66 then some (b - 0x57)
  else none

/-- `u8::from_str_radix(pair, 16)`, which takes a plus sign. -/
def hexPair (a b : UInt8) : Option UInt8 :=
  if a = 0x2b then hexDigit b
  else (hexDigit a).bind fun high => (hexDigit b).map fun low => 16 * high + low

/-- Bytes as they are, and `\xHH`. -/
def parseDuckdbBlob : List UInt8 → Option (List UInt8)
  | [] => some []
  | [b] => some [b]
  | b :: c :: s =>
    if b = backslash ∧ c = 0x78 then
      match s with
      | high :: low :: s => (hexPair high low).bind fun v => (parseDuckdbBlob s).map (v :: ·)
      | _ => none
    else (parseDuckdbBlob (c :: s)).map (b :: ·)

/-- `ScalarValue::cast_to` from `BLOB` to a binary type. -/
def castBinary (kind : BinaryType) (bytes : List UInt8) : Option ScalarValue :=
  match kind with
  | .fixedSizeBinary size => if bytes.length = size then some (.binary kind bytes) else none
  | _ => some (.binary kind bytes)

def parseScalar (arrow : ArrowText) (type : DataType) (terminators s : List UInt8) : Option (Rows × List UInt8) :=
  match type with
  | .string kind =>
    if s.head? = some quote then (parseQuoted s).map fun r => ([.leaf (.string kind r.1)], r.2)
    else
      let r := takeToken terminators s
      (parseScalarLeaf arrow r.1 type).map fun v => ([.leaf v], r.2)
  | .binary kind =>
    (if s.head? = some quote then parseQuoted s else some (takeToken terminators s)).bind fun r =>
      (parseDuckdbBlob (Utf8.encode r.1)).bind fun bytes => (castBinary kind bytes).map fun v => ([.leaf v], r.2)
  | type =>
    let r := takeToken terminators s
    (parseScalarLeaf arrow r.1 type).map fun v => ([.leaf v], r.2)

/-- NULL is read before the type is looked at, and nothing past the depth limit. -/
def reading (depth : Nat) (s : List UInt8) (read : List UInt8 → Option (Rows × List UInt8)) :
    Option (Rows × List UInt8) :=
  if depth > maxNestedTypeDepth then none
  else match consumeNull (skipWhitespace s) with
    | some s => some ([.null], s)
    | none => read (skipWhitespace s)

def colon : UInt8 := 0x3a
def equals : UInt8 := 0x3d
def listOpen : UInt8 := 0x5b
def listClose : UInt8 := 0x5d
def braceOpen : UInt8 := 0x7b
def braceClose : UInt8 := 0x7d

def parseList (kind : ListKind) (item : List UInt8 → Option (Rows × List UInt8)) (s : List UInt8) :
    Option (Rows × List UInt8) :=
  (block item listOpen listClose s).bind fun r => (buildListScalar kind r.1).map (·, r.2)

/-- The values of the fields, those the text leaves out NULL, the last one of a field
named twice. -/
def fieldValues (count : Nat) (named : List (Nat × Rows)) : List Rows :=
  (named.foldl (fun values f => values.set f.1 (some f.2)) (List.replicate count none)).map (·.getD [.null])

def parseStruct (count : Nat) (field : Text → List UInt8 → Option ((Nat × Rows) × List UInt8)) (s : List UInt8) :
    Option (Rows × List UInt8) :=
  (block (fun s => (parseQuoted s).bind fun r => field r.1 r.2) braceOpen braceClose s).bind fun r =>
    (buildStructScalar (fieldValues count r.1)).map (·, r.2)

def parseEntry (key value : List UInt8 → Option (Rows × List UInt8)) (s : List UInt8) :
    Option ((Rows × Rows) × List UInt8) :=
  (key s).bind fun k =>
    if k.1.isNull then none
    else (expect equals k.2).bind fun s => (value s).map fun v => ((k.1, v.1), v.2)

def parseMap (key value : List UInt8 → Option (Rows × List UInt8)) (s : List UInt8) : Option (Rows × List UInt8) :=
  (block (parseEntry key value) braceOpen braceClose s).bind fun r => (buildMapScalar r.1).map (·, r.2)

def Fields.length : Fields → Nat
  | .nil => 0
  | .cons _ _ rest => rest.length + 1

mutual

def parseValue (arrow : ArrowText) : ArrowType → Nat → List UInt8 → List UInt8 → Option (Rows × List UInt8)
  | .scalar type, depth, terminators, s => reading depth s fun s => parseScalar arrow type terminators s
  | .list kind element, depth, _, s => reading depth s fun s =>
    parseList kind (fun s => parseValue arrow element (depth + 1) [comma, listClose] s) s
  | .struct fields, depth, _, s => reading depth s fun s =>
    parseStruct fields.length (fun name s => parseField arrow fields 0 (depth + 1) name s) s
  | .map key value, depth, _, s => reading depth s fun s =>
    parseMap (fun s => parseValue arrow key (depth + 1) [equals] s)
      (fun s => parseValue arrow value (depth + 1) [comma, braceClose] s) s

/-- The value of the field the text names, with its place. -/
def parseField (arrow : ArrowText) : Fields → Nat → Nat → Text → List UInt8 → Option ((Nat × Rows) × List UInt8)
  | .nil, _, _, _, _ => none
  | .cons fieldName type rest, index, depth, name, s =>
    if fieldName = name then
      (expect colon s).bind fun s =>
        (parseValue arrow type depth [comma, braceClose] s).map fun r => ((index, r.1), r.2)
    else parseField arrow rest (index + 1) depth name s

end

def parseText (arrow : ArrowText) (text : Text) (type : ArrowType) : Option Rows :=
  (parseValue arrow type 0 [] (Utf8.encode text)).bind fun r =>
    if skipWhitespace r.2 = [] then some r.1 else none

/-! ## Trimming -/

/-- A text that starts and ends with characters that are not spaces. -/
structure Trimmed (t : Text) : Prop where
  start : ∃ a u, t = a :: u ∧ isUnicodeSpace a = false
  finish : ∃ v b, t = v ++ [b] ∧ isUnicodeSpace b = false

theorem Trimmed.eq {t : Text} (h : Trimmed t) : trimText t = t := by
  have hfirst : t.dropWhile isUnicodeSpace = t := by
    obtain ⟨a, u, rfl, ha⟩ := h.start
    rw [List.dropWhile_cons, ha]
    rfl
  have hlast : t.reverse.dropWhile isUnicodeSpace = t.reverse := by
    obtain ⟨v, b, rfl, hb⟩ := h.finish
    rw [List.reverse_append, List.reverse_singleton, List.singleton_append, List.dropWhile_cons, hb]
    rfl
  rw [trimText, hfirst, hlast, List.reverse_reverse]

theorem trimmed_of_forall {t : Text} (hne : t ≠ []) (h : ∀ c ∈ t, isUnicodeSpace c = false) : Trimmed t := by
  constructor
  · obtain ⟨a, u, rfl⟩ := List.exists_cons_of_ne_nil hne
    exact ⟨a, u, rfl, h a (by simp)⟩
  · exact ⟨t.dropLast, t.getLast hne, (List.dropLast_append_getLast hne).symm, h _ (List.getLast_mem hne)⟩

theorem Trimmed.append {a b m : Text} (ha : Trimmed a) (hb : Trimmed b) : Trimmed (a ++ m ++ b) := by
  constructor
  · obtain ⟨c, u, rfl, hc⟩ := ha.start
    exact ⟨c, u ++ m ++ b, rfl, hc⟩
  · obtain ⟨v, c, rfl, hc⟩ := hb.finish
    exact ⟨a ++ m ++ v, c, by simp, hc⟩

theorem isUnicodeSpace_digit {c : Char} (h : c.isDigit = true) : isUnicodeSpace c = false := by
  have hascii : c.toNat < 0x80 := by
    have hle : c.toNat ≤ '9'.toNat := (Char.isDigit_iff_toNat.mp h).2
    have : '9'.toNat = 57 := rfl
    omega
  have hall : ∀ n < 0x80, (Char.ofNat n).isDigit = true → isUnicodeSpace (Char.ofNat n) = false := by decide +kernel
  exact Utf8.forall_ascii (P := fun c => c.isDigit = true → isUnicodeSpace c = false) hall hascii h

end DuckLake.Nested
