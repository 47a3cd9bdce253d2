import DuckLake.Lib.Lists
import DuckLake.Nested.Leaf

/- A nested value read back from its own text.

   The proof goes through `readBack`, which says without any text what the reader makes
   of a written value: the scalars Arrow builds from the values below, with a bare key
   spelled NULL taken for NULL. Reading a text the writer wrote is `readBack`
   (`readsBack`), whatever follows the text that may. `Nested/Readable` says when that is
   the value itself. -/

namespace DuckLake.Nested

open Scan

/-! ## Values of a type -/

/-- The leaves with a text: booleans, numbers, strings, blobs, dates, times, timestamps. -/
def leafOf (type : DataType) (v : ScalarValue) : Bool :=
  v.dataType == type && !v.isNull && inRange v &&
    match v with
    | .boolean _ | .string _ _ => true
    | .binary (.fixedSizeBinary size) bytes => bytes.length == size
    | .binary _ _ => true
    | _ => isNumberOrTemporal type

def ListKind.holds : ListKind → Nat → Bool
  | .list, length => decide (length ≤ maxOffset)
  | .largeList, _ => true
  | .fixedSizeList size, length => length == size

def Fields.names : Fields → List Text
  | .nil => []
  | .cons name _ rest => name :: rest.names

mutual

/-- A value of the type. NULL is a value of every type, but no key of a map. -/
def hasType : ArrowType → Value → Bool
  | .scalar type, v =>
    match v with
    | .null => true
    | .leaf s => leafOf type s
    | _ => false
  | .list kind element, v =>
    match v with
    | .null => true
    | .list items => kind.holds items.length && items.all (hasType element)
    | _ => false
  | .struct fields, v =>
    match v with
    | .null => true
    | .struct values => decide fields.names.Nodup && fieldsHaveType fields values
    | _ => false
  | .map key value, v =>
    match v with
    | .null => true
    | .map entries => decide (entries.length ≤ maxOffset) &&
        entries.all fun e => !e.1.isNull && hasType key e.1 && hasType value e.2
    | _ => false

def fieldsHaveType : Fields → List Value → Bool
  | .nil, [] => true
  | .cons _ type rest, v :: values => hasType type v && fieldsHaveType rest values
  | _, _ => false

end

/-! ## What the reader makes of a value -/

mutual

/-- The rows the reader builds for a written value. -/
def readBack : ArrowType → Bool → Value → Option Rows
  | .scalar _, mapKey, v =>
    match v with
    | .leaf (.string kind s) => some [if mapKey && isNullWord s then .null else .leaf (.string kind s)]
    | v => some [v]
  | .list kind element, _, v =>
    match v with
    | .list items => (items.mapM (readBack element false)).bind (buildListScalar kind)
    | v => some [v]
  | .struct fields, _, v =>
    match v with
    | .struct values => (readFields fields values).bind buildStructScalar
    | v => some [v]
  | .map key value, _, v =>
    match v with
    | .map entries => (entries.mapM fun e =>
        (readBack key true e.1).bind fun k =>
          if Rows.isNull k then none else (readBack value false e.2).map (k, ·)).bind buildMapScalar
    | v => some [v]

def readFields : Fields → List Value → Option (List Rows)
  | .cons _ type rest, v :: values =>
    (readBack type false v).bind fun rows => (readFields rest values).map (rows :: ·)
  | _, _ => some []

end

section Read
variable {arrow : ArrowText}

/-- Values of the type are read from their texts as `readBack` says. -/
def ReadsBack (arrow : ArrowText) (type : ArrowType) : Prop :=
  ∀ (v : Value) (depth : Nat) (mapKey : Bool) (text : Text) (terminators rest : List UInt8),
    hasType type v = true → renderValue arrow type depth mapKey v = some text → terminators ⊆ delimiters →
    (mapKey = true → terminators = [equals]) → Follows terminators rest →
    parseValue arrow type depth terminators (Utf8.encode text ++ rest) = (readBack type mapKey v).map (·, rest)

/-! ## The start of a text -/

/-- A text that starts with neither space nor a delimiter. -/
def StartsPlain (text : Text) : Prop :=
  ∃ b s, Utf8.encode text = b :: s ∧ isSpace b = false ∧ b ∉ delimiters

theorem encode_cons {c : Char} (h : c.toNat < 0x80) (t : Text) : Utf8.encode (c :: t) = c.toUInt8 :: Utf8.encode t := by
  have hcons : Utf8.encode (c :: t) = String.utf8EncodeChar c ++ Utf8.encode t := List.flatMap_cons
  rw [hcons, Utf8.utf8EncodeChar_ascii h]
  rfl

theorem startsPlain_cons {c : Char} (h : c.toNat < 0x80) (hspace : isSpace c.toUInt8 = false)
    (hdelim : c.toUInt8 ∉ delimiters) (t : Text) : StartsPlain (c :: t) :=
  ⟨_, _, encode_cons h t, hspace, hdelim⟩

theorem startsPlain_quoteText (t : Text) : StartsPlain (quoteText t) :=
  startsPlain_cons (by decide) (by decide) (by decide) _

theorem IsToken.startsPlain {t : Text} (h : IsToken t) : StartsPlain t := by
  obtain ⟨c, rest, -, hencode, hspace, -, hdelim⟩ := h.exists_cons
  exact ⟨_, _, hencode, hspace, hdelim⟩

theorem writing_null {depth : Nat} {body : Option Text} {text : Text} (h : writing depth .null body = some text) :
    depth ≤ maxNestedTypeDepth ∧ text = "NULL".toList := by
  unfold writing at h
  split at h
  · cases h
  · next hdepth => exact ⟨Nat.not_lt.mp hdepth, (Option.some.inj h).symm⟩

theorem writing_body {depth : Nat} {v : Value} (hv : v.isNull = false) {body : Option Text} {text : Text}
    (h : writing depth v body = some text) : depth ≤ maxNestedTypeDepth ∧ body = some text := by
  unfold writing at h
  rw [hv] at h
  split at h
  · cases h
  · next hdepth => exact ⟨Nat.not_lt.mp hdepth, h⟩

theorem leafOf_cases {type : DataType} {v : ScalarValue} (h : leafOf type v = true) :
    v.dataType = type ∧ v.isNull = false ∧ inRange v = true ∧
      ((∃ kind s, v = .string kind s) ∨ (∃ kind bytes, v = .binary kind bytes ∧ castBinary kind bytes = some v) ∨
        v.dataType = .boolean ∨ isNumberOrTemporal v.dataType = true) := by
  unfold leafOf at h
  rw [Bool.and_eq_true, Bool.and_eq_true, Bool.and_eq_true, beq_iff_eq, Bool.not_eq_true'] at h
  obtain ⟨⟨⟨htype, hnull⟩, hrange⟩, h⟩ := h
  refine ⟨htype, hnull, hrange, ?_⟩
  split at h
  · exact .inr (.inr (.inl rfl))
  · exact .inl ⟨_, _, rfl⟩
  · refine .inr (.inl ⟨_, _, rfl, ?_⟩)
    rw [castBinary, if_pos (beq_iff_eq.mp h)]
  · next kind bytes hkind =>
    refine .inr (.inl ⟨_, _, rfl, ?_⟩)
    unfold castBinary
    split
    · exact absurd rfl (hkind _)
    · rfl
  · exact .inr (.inr (.inr (htype ▸ h)))

/-! ## What was written -/

section Written
variable {depth : Nat} {mapKey : Bool} {v : Value} {text : Text}

theorem renderValue_scalar {type : DataType} (h : renderValue arrow (.scalar type) depth mapKey v = some text) :
    depth ≤ maxNestedTypeDepth ∧
      (v = .null ∧ text = "NULL".toList ∨ ∃ s, v = .leaf s ∧ leafText arrow mapKey s = some text) := by
  cases v <;> simp only [renderValue] at h
  case null => exact ⟨(writing_null h).1, .inl ⟨rfl, (writing_null h).2⟩⟩
  case leaf s => exact ⟨(writing_body rfl h).1, .inr ⟨s, rfl, (writing_body rfl h).2⟩⟩
  all_goals cases (writing_body rfl h).2

theorem renderValue_list {kind : ListKind} {element : ArrowType}
    (h : renderValue arrow (.list kind element) depth mapKey v = some text) :
    depth ≤ maxNestedTypeDepth ∧ (v = .null ∧ text = "NULL".toList ∨ ∃ items texts, v = .list items ∧
      items.mapM (renderValue arrow element (depth + 1) false) = some texts ∧ enclose '[' ']' texts = text) := by
  cases v <;> simp only [renderValue] at h
  case null => exact ⟨(writing_null h).1, .inl ⟨rfl, (writing_null h).2⟩⟩
  case list items =>
    obtain ⟨hdepth, h⟩ := writing_body rfl h
    obtain ⟨texts, htexts, rfl⟩ := Option.map_eq_some_iff.mp h
    exact ⟨hdepth, .inr ⟨items, texts, rfl, htexts, rfl⟩⟩
  all_goals cases (writing_body rfl h).2

theorem renderValue_struct {fields : Fields} (h : renderValue arrow (.struct fields) depth mapKey v = some text) :
    depth ≤ maxNestedTypeDepth ∧ (v = .null ∧ text = "NULL".toList ∨ ∃ values texts, v = .struct values ∧
      renderFields arrow fields (depth + 1) values = some texts ∧ enclose '{' '}' texts = text) := by
  cases v <;> simp only [renderValue] at h
  case null => exact ⟨(writing_null h).1, .inl ⟨rfl, (writing_null h).2⟩⟩
  case struct values =>
    obtain ⟨hdepth, h⟩ := writing_body rfl h
    obtain ⟨texts, htexts, rfl⟩ := Option.map_eq_some_iff.mp h
    exact ⟨hdepth, .inr ⟨values, texts, rfl, htexts, rfl⟩⟩
  all_goals cases (writing_body rfl h).2

/-- The text of a map's entry. -/
def renderEntry (arrow : ArrowText) (key value : ArrowType) (depth : Nat) (e : Value × Value) : Option Text :=
  (renderValue arrow key depth true e.1).bind fun k =>
    (renderValue arrow value depth false e.2).map fun t => k ++ '=' :: t

theorem renderValue_map {key value : ArrowType} (h : renderValue arrow (.map key value) depth mapKey v = some text) :
    depth ≤ maxNestedTypeDepth ∧ (v = .null ∧ text = "NULL".toList ∨ ∃ entries texts, v = .map entries ∧
      entries.mapM (renderEntry arrow key value (depth + 1)) = some texts ∧ enclose '{' '}' texts = text) := by
  cases v <;> simp only [renderValue] at h
  case null => exact ⟨(writing_null h).1, .inl ⟨rfl, (writing_null h).2⟩⟩
  case map entries =>
    obtain ⟨hdepth, h⟩ := writing_body rfl h
    obtain ⟨texts, htexts, rfl⟩ := Option.map_eq_some_iff.mp h
    exact ⟨hdepth, .inr ⟨entries, texts, rfl, htexts, rfl⟩⟩
  all_goals cases (writing_body rfl h).2

theorem startsPlain_null : StartsPlain "NULL".toList := startsPlain_cons (by decide) (by decide) (by decide) _

theorem startsPlain_renderValue (harrow : arrow.Lawful) {type : ArrowType} (htype : hasType type v = true)
    (h : renderValue arrow type depth mapKey v = some text) : StartsPlain text := by
  cases type with
  | scalar type =>
    obtain ⟨-, ⟨-, rfl⟩ | ⟨s, rfl, hleaf⟩⟩ := renderValue_scalar h
    · exact startsPlain_null
    · simp only [hasType] at htype
      obtain ⟨-, hnull, hrange, ⟨kind, t, rfl⟩ | ⟨kind, bytes, rfl, -⟩ | hplain⟩ := leafOf_cases htype
      · rw [leafText, Option.some.injEq] at hleaf
        subst hleaf
        split
        · next hbare => exact (isToken_bareKey ((Bool.and_eq_true _ _ ▸ hbare).2)).startsPlain
        · exact startsPlain_quoteText t
      · rw [leafText, Option.some.injEq] at hleaf
        subst hleaf
        exact startsPlain_quoteText _
      · exact (isLeafText_leafText harrow hnull hrange hplain hleaf).startsPlain
  | list kind element =>
    obtain ⟨-, ⟨-, rfl⟩ | ⟨items, texts, -, -, rfl⟩⟩ := renderValue_list h
    · exact startsPlain_null
    · exact startsPlain_cons (by decide) (by decide) (by decide) _
  | struct fields =>
    obtain ⟨-, ⟨-, rfl⟩ | ⟨values, texts, -, -, rfl⟩⟩ := renderValue_struct h
    · exact startsPlain_null
    · exact startsPlain_cons (by decide) (by decide) (by decide) _
  | map key value =>
    obtain ⟨-, ⟨-, rfl⟩ | ⟨entries, texts, -, -, rfl⟩⟩ := renderValue_map h
    · exact startsPlain_null
    · exact startsPlain_cons (by decide) (by decide) (by decide) _

end Written

/-! ## Reading what was written -/

section Reading
variable {depth : Nat} {text : Text} {terminators rest : List UInt8}

theorem reading_null (hdepth : depth ≤ maxNestedTypeDepth) (hterm : terminators ⊆ delimiters)
    (hrest : Follows terminators rest) (read : List UInt8 → Option (Rows × List UInt8)) :
    reading depth (Utf8.encode "NULL".toList ++ rest) read = some ([.null], rest) := by
  obtain ⟨b, s, hencode, hspace, -⟩ := startsPlain_null
  have hskip : skipWhitespace (Utf8.encode "NULL".toList ++ rest) = Utf8.encode "NULL".toList ++ rest := by
    rw [hencode, List.cons_append, skipWhitespace_cons hspace]
  rw [reading, if_neg (Nat.not_lt.mpr hdepth), hskip, consumeNull_null hterm hrest]

theorem reading_eq (hdepth : depth ≤ maxNestedTypeDepth) {s : List UInt8} (hskip : skipWhitespace s = s)
    (hnull : consumeNull s = none) (read : List UInt8 → Option (Rows × List UInt8)) :
    reading depth s read = read s := by
  rw [reading, if_neg (Nat.not_lt.mpr hdepth), hskip, hnull]

theorem reading_opening (hdepth : depth ≤ maxNestedTypeDepth) {b : UInt8}
    (hb : b = listOpen ∨ b = braceOpen ∨ b = quote) (s : List UInt8) (read : List UInt8 → Option (Rows × List UInt8)) :
    reading depth (b :: s) read = read (b :: s) := by
  have hbyte : isSpace b = false ∧ asciiLower b ≠ 0x6e := by
    rcases hb with rfl | rfl | rfl <;> decide
  exact reading_eq hdepth (skipWhitespace_cons hbyte.1 s) (consumeNull_of_head hbyte.2 s) read

theorem parseScalar_eq {type : DataType} (hstring : ∀ kind, type ≠ .string kind) (hbinary : ∀ kind, type ≠ .binary kind)
    (terminators s : List UInt8) : parseScalar arrow type terminators s =
      (parseScalarLeaf arrow (takeToken terminators s).1 type).map fun v =>
        ([.leaf v], (takeToken terminators s).2) := by
  cases type with
  | string kind => exact absurd rfl (hstring kind)
  | binary kind => exact absurd rfl (hbinary kind)
  | _ => rfl

theorem head?_ne_quote (hterm : terminators ⊆ delimiters) (hrest : Follows terminators rest) :
    rest.head? ≠ some quote := by
  cases rest with
  | nil => simp
  | cons b s =>
    have hall : ∀ b ∈ delimiters, some b ≠ some quote := by decide +kernel
    exact hall b (hterm (hrest b s rfl))

theorem parseScalarLeaf_leafText (harrow : arrow.Lawful) {v : ScalarValue} {mapKey : Bool} (hnull : v.isNull = false)
    (hrange : inRange v = true) (htype : v.dataType = .boolean ∨ isNumberOrTemporal v.dataType = true)
    (h : leafText arrow mapKey v = some text) : parseScalarLeaf arrow text v.dataType = some v := by
  cases v with
  | null _ => cases hnull
  | boolean b =>
    have htext : encodeBool b = text := Option.some.inj ((harrow.boolean b).symm.trans h)
    subst htext
    cases b <;> rfl
  | integer _ _ | decimal128 _ _ _ | date32 _ | time _ _ | timestamp _ _ _ => exact harrow.parses _ _ rfl rfl hrange h
  | _ => simp [ScalarValue.dataType, isNumberOrTemporal] at htype

theorem head?_encode_quoteText (t : Text) (rest : List UInt8) :
    (Utf8.encode (quoteText t) ++ rest).head? = some quote := by
  rw [encode_quoteText]
  rfl

theorem reading_quoteText (hdepth : depth ≤ maxNestedTypeDepth) (t : Text) (rest : List UInt8)
    (read : List UInt8 → Option (Rows × List UInt8)) :
    reading depth (Utf8.encode (quoteText t) ++ rest) read = read (Utf8.encode (quoteText t) ++ rest) := by
  rw [encode_quoteText, List.cons_append, reading_opening hdepth (.inr (.inr rfl))]

theorem parseScalar_string (kind : StringType) (t : Text) (hterm : terminators ⊆ delimiters)
    (hrest : Follows terminators rest) :
    parseScalar arrow (.string kind) terminators (Utf8.encode (quoteText t) ++ rest) =
      some ([.leaf (.string kind t)], rest) := by
  rw [parseScalar, if_pos (head?_encode_quoteText t rest), parseQuoted_quoteText t (head?_ne_quote hterm hrest)]
  rfl

theorem parseScalar_token (kind : StringType) {t : Text} (ht : IsToken t) (hterm : terminators ⊆ delimiters)
    (hrest : Follows terminators rest) :
    parseScalar arrow (.string kind) terminators (Utf8.encode t ++ rest) = some ([.leaf (.string kind t)], rest) := by
  obtain ⟨c, u, -, hencode, -, hquote, -⟩ := ht.exists_cons
  have hhead : (Utf8.encode t ++ rest).head? ≠ some quote := by
    rw [hencode]
    simpa using hquote
  rw [parseScalar, if_neg hhead, ht.takeToken_append hterm hrest]
  rfl

theorem parseScalar_blob {kind : BinaryType} {bytes : List UInt8} {v : ScalarValue}
    (hcast : castBinary kind bytes = some v)
    (hterm : terminators ⊆ delimiters) (hrest : Follows terminators rest) :
    parseScalar arrow (.binary kind) terminators (Utf8.encode (quoteText (encodeBlob bytes)) ++ rest) =
      some ([.leaf v], rest) := by
  rw [parseScalar, if_pos (head?_encode_quoteText _ rest), parseQuoted_quoteText _ (head?_ne_quote hterm hrest),
    Option.bind_some, parseDuckdbBlob_encodeBlob, Option.bind_some, hcast]
  rfl

theorem isBareMapKey_of_isNullWord {t : Text} (h : isNullWord t = true) : isBareMapKey t = true := by
  have hlower : t.map Char.toLower = "null".toList := beq_iff_eq.mp h
  have hchar : ∀ c : Char, c.toLower ∈ "null".toList → isWordChar c = true := by
    intro c hc
    by_cases hupper : c.isUpper = true
    · delta isWordChar Char.isAlphanum Char.isAlpha
      rw [hupper, Bool.true_or, Bool.true_or, Bool.true_or]
    · have hsame : c.toLower = c := dif_neg fun h => hupper (decide_eq_true h)
      rw [hsame] at hc
      have hall : "null".toList.all isWordChar = true := by decide
      exact List.all_eq_true.mp hall c hc
  rw [isBareMapKey, Bool.and_eq_true, Bool.not_eq_true', List.isEmpty_eq_false_iff, List.all_eq_true]
  refine ⟨?_, fun c hc => hchar c (hlower ▸ List.mem_map_of_mem hc)⟩
  rintro rfl
  cases hlower

theorem readsBack_scalar (harrow : arrow.Lawful) (type : DataType) : ReadsBack arrow (.scalar type) := by
  intro v depth mapKey text terminators rest htype h hterm hkey hrest
  rw [parseValue]
  obtain ⟨hdepth, ⟨rfl, rfl⟩ | ⟨s, rfl, hleaf⟩⟩ := renderValue_scalar h
  · rw [reading_null hdepth hterm hrest]
    rfl
  simp only [hasType] at htype
  obtain ⟨rfl, hnull, hrange, ⟨kind, t, rfl⟩ | ⟨kind, bytes, rfl, hcast⟩ | hplain⟩ := leafOf_cases htype
  · rw [leafText, Option.some.injEq] at hleaf
    subst hleaf
    split
    · next hbare =>
      rw [Bool.and_eq_true] at hbare
      obtain ⟨rfl, hbare⟩ := hbare
      obtain rfl := hkey rfl
      have htoken := isToken_bareKey hbare
      obtain ⟨c, u, -, hencode, hspace, -⟩ := htoken.exists_cons
      have hskip : skipWhitespace (Utf8.encode t ++ rest) = Utf8.encode t ++ rest := by
        rw [hencode, List.cons_append, skipWhitespace_cons hspace]
      rw [reading, if_neg (Nat.not_lt.mpr hdepth), hskip, consumeNull_bareKey hbare hrest]
      cases hword : isNullWord t with
      | true => simp [readBack, hword]
      | false => simp [readBack, hword, ScalarValue.dataType, parseScalar_token kind htoken hterm hrest]
    · next hbare =>
      have hword : (mapKey && isNullWord t) = false := by
        rw [Bool.eq_false_iff, ne_eq, Bool.and_eq_true]
        rintro ⟨hkey, hword⟩
        rw [hkey, isBareMapKey_of_isNullWord hword] at hbare
        exact hbare rfl
      rw [reading_quoteText hdepth, ScalarValue.dataType, parseScalar_string kind t hterm hrest]
      simp [readBack, hword]
  · rw [leafText, Option.some.injEq] at hleaf
    subst hleaf
    rw [reading_quoteText hdepth, ScalarValue.dataType, parseScalar_blob hcast hterm hrest]
    rfl
  · have htext := isLeafText_leafText harrow hnull hrange hplain hleaf
    obtain ⟨c, u, -, hencode, hspace, -⟩ := htext.exists_cons
    have hskip : skipWhitespace (Utf8.encode text ++ rest) = Utf8.encode text ++ rest := by
      rw [hencode, List.cons_append, skipWhitespace_cons hspace]
    rw [reading_eq hdepth hskip (htext.consumeNull_eq rest), parseScalar_eq, htext.takeToken_append hterm hrest,
      parseScalarLeaf_leafText harrow hnull hrange hplain hleaf]
    · cases s with
      | string _ _ => simp [ScalarValue.dataType, isNumberOrTemporal] at hplain
      | _ => rfl
    · intro kind hkind
      simp [hkind, isNumberOrTemporal] at hplain
    · intro kind hkind
      simp [hkind, isNumberOrTemporal] at hplain

/-! ## Lists -/

theorem encode_intercalate :
    ∀ texts : List Text, Utf8.encode (", ".toList.intercalate texts) = join (texts.map Utf8.encode)
  | [] => rfl
  | [t] => by simp [join]
  | t :: u :: texts => by
    have hcons : ", ".toList.intercalate (t :: u :: texts) = t ++
      (", ".toList ++ ", ".toList.intercalate (u :: texts)) := by
      simp
    have hjoin : join ((t :: u :: texts).map Utf8.encode) =
        Utf8.encode t ++ ([comma, 0x20] ++ join ((u :: texts).map Utf8.encode)) := by
      simp [join]
    rw [hcons, hjoin, Utf8.encode_append, Utf8.encode_append, encode_intercalate (u :: texts)]
    rfl

theorem encode_brackets (texts : List Text) (rest : List UInt8) :
    Utf8.encode (enclose '[' ']' texts) ++ rest = listOpen :: (join (texts.map Utf8.encode) ++ listClose :: rest) := by
  rw [enclose, List.cons_append, encode_cons (by decide), Utf8.encode_append, encode_intercalate, List.cons_append,
    List.append_assoc]
  rfl

theorem encode_braces (texts : List Text) (rest : List UInt8) :
    Utf8.encode (enclose '{' '}' texts) ++ rest =
      braceOpen :: (join (texts.map Utf8.encode) ++ braceClose :: rest) := by
  rw [enclose, List.cons_append, encode_cons (by decide), Utf8.encode_append, encode_intercalate, List.cons_append,
    List.append_assoc]
  rfl

theorem parseValue_space (type : ArrowType) (depth : Nat) (terminators s : List UInt8) :
    parseValue arrow type depth terminators (0x20 :: s) = parseValue arrow type depth terminators s := by
  cases type <;> rfl

theorem StartsPlain.starts {text : Text} (h : StartsPlain text) {close : UInt8} (hclose : close ∈ delimiters) :
    Starts close (Utf8.encode text) := by
  obtain ⟨b, s, hencode, hspace, hdelim⟩ := h
  exact ⟨b, s, hencode, hspace, fun heq => hdelim (heq ▸ hclose)⟩

theorem readsBack_list (harrow : arrow.Lawful) (kind : ListKind) {element : ArrowType}
    (helement : ReadsBack arrow element) : ReadsBack arrow (.list kind element) := by
  intro v depth mapKey text terminators rest htype h hterm _ hrest
  rw [parseValue]
  obtain ⟨hdepth, ⟨rfl, rfl⟩ | ⟨items, texts, rfl, htexts, rfl⟩⟩ := renderValue_list h
  · rw [reading_null hdepth hterm hrest]
    rfl
  obtain ⟨rfl, hitems⟩ := Lists.mapM_eq_map [] htexts
  simp only [hasType, Bool.and_eq_true, List.all_eq_true] at htype
  have hblock : block (fun s => parseValue arrow element (depth + 1) [comma, listClose] s) listOpen listClose
      (listOpen :: (join (items.map fun v => Utf8.encode ((renderValue arrow element (depth + 1) false v).getD [])) ++
        listClose :: rest)) = (items.mapM (readBack element false)).map (·, rest) := by
    refine block_join (parseValue_space element _ _) (by decide) (by decide) ?_ ?_ rest
    · intro x hx
      exact (startsPlain_renderValue harrow (htype.2 x hx) (hitems x hx)).starts (by decide)
    · intro x hx rest hrest
      exact helement x (depth + 1) false _ _ rest (htype.2 x hx) (hitems x hx) (by decide) (fun h => nomatch h) hrest
  rw [encode_brackets, List.map_map, reading_opening hdepth (.inl rfl), parseList]
  rw [Function.comp_def, hblock, readBack]
  cases items.mapM (readBack element false) with
  | none => rfl
  | some rows => rfl

/-! ## Maps -/

/-- What the reader makes of an entry. -/
def readEntry (key value : ArrowType) (e : Value × Value) : Option (Rows × Rows) :=
  (readBack key true e.1).bind fun k => if Rows.isNull k then none else (readBack value false e.2).map (k, ·)

theorem parseEntry_renderEntry {key value : ArrowType} (hkey : ReadsBack arrow key) (hvalue : ReadsBack arrow value)
    {e : Value × Value} (htype : hasType key e.1 = true ∧ hasType value e.2 = true)
    (h : renderEntry arrow key value depth e = some text) (hrest : Follows [comma, braceClose] rest) :
    parseEntry (fun s => parseValue arrow key depth [equals] s)
      (fun s => parseValue arrow value depth [comma, braceClose] s) (Utf8.encode text ++ rest) =
        (readEntry key value e).map (·, rest) := by
  rw [renderEntry, Option.bind_eq_some_iff] at h
  obtain ⟨k, hk, h⟩ := h
  obtain ⟨t, ht, rfl⟩ := Option.map_eq_some_iff.mp h
  have hencode : Utf8.encode (k ++ '=' :: t) ++ rest = Utf8.encode k ++ equals :: (Utf8.encode t ++ rest) := by
    rw [Utf8.encode_append, encode_cons (by decide), List.append_assoc]
    rfl
  rw [parseEntry, readEntry, hencode, hkey e.1 depth true k _ _ htype.1 hk (by decide) (fun _ => rfl)
    (follows_cons (by simp) _)]
  cases readBack key true e.1 with
  | none => rfl
  | some rows =>
    rw [Option.map_some, Option.bind_some, Option.bind_some]
    dsimp only
    split
    · rfl
    · rw [expect_self (by decide), Option.bind_some,
        hvalue e.2 depth false t _ _ htype.2 ht (by decide) (fun h => nomatch h) hrest]
      cases readBack value false e.2 <;> rfl

theorem startsPlain_append {t u : Text} (h : StartsPlain t) : StartsPlain (t ++ u) := by
  obtain ⟨b, s, hencode, hb⟩ := h
  exact ⟨b, s ++ Utf8.encode u, by rw [Utf8.encode_append, hencode, List.cons_append], hb⟩

theorem readsBack_map (harrow : arrow.Lawful) {key value : ArrowType} (hkey : ReadsBack arrow key)
    (hvalue : ReadsBack arrow value) : ReadsBack arrow (.map key value) := by
  intro v depth mapKey text terminators rest htype h hterm _ hrest
  rw [parseValue]
  obtain ⟨hdepth, ⟨rfl, rfl⟩ | ⟨entries, texts, rfl, htexts, rfl⟩⟩ := renderValue_map h
  · rw [reading_null hdepth hterm hrest]
    rfl
  obtain ⟨rfl, hentries⟩ := Lists.mapM_eq_map [] htexts
  simp only [hasType, Bool.and_eq_true, List.all_eq_true] at htype
  have htyped : ∀ e ∈ entries, hasType key e.1 = true ∧ hasType value e.2 = true := fun e he =>
    ⟨(htype.2 e he).1.2, (htype.2 e he).2⟩
  have hblock : block (parseEntry (fun s => parseValue arrow key (depth + 1) [equals] s)
        (fun s => parseValue arrow value (depth + 1) [comma, braceClose] s)) braceOpen braceClose
      (braceOpen :: (join (entries.map fun e => Utf8.encode ((renderEntry arrow key value (depth + 1) e).getD [])) ++
        braceClose :: rest)) = (entries.mapM (readEntry key value)).map (·, rest) := by
    refine block_join ?_ (by decide) (by decide) ?_ ?_ rest
    · intro s
      rw [parseEntry, parseValue_space]
      rfl
    · intro e he
      have hrender := hentries e he
      generalize (renderEntry arrow key value (depth + 1) e).getD [] = t at hrender ⊢
      obtain ⟨k, hk, hrender⟩ := Option.bind_eq_some_iff.mp hrender
      obtain ⟨u, -, rfl⟩ := Option.map_eq_some_iff.mp hrender
      exact (startsPlain_append (startsPlain_renderValue harrow (htyped e he).1 hk)).starts (by decide)
    · intro e he rest hrest
      exact parseEntry_renderEntry hkey hvalue (htyped e he) (hentries e he) hrest
  rw [encode_braces, List.map_map, reading_opening hdepth (.inr (.inl rfl)), parseMap]
  rw [Function.comp_def, hblock]
  have hread : readBack (.map key value) mapKey (.map entries) =
      (entries.mapM (readEntry key value)).bind buildMapScalar := by
    simp only [readBack]
    rfl
  rw [hread]
  cases entries.mapM (readEntry key value) with
  | none => rfl
  | some rows => rfl

/-! ## Structs -/

/-- The fields of a struct with their values, from place `index` on. -/
def pieces : Fields → Nat → List Value → List (Nat × Text × ArrowType × Value)
  | .cons name type rest, index, v :: values => (index, name, type, v) :: pieces rest (index + 1) values
  | _, _, _ => []

def renderPiece (arrow : ArrowText) (depth : Nat) (p : Nat × Text × ArrowType × Value) : Option Text :=
  (renderValue arrow p.2.2.1 depth false p.2.2.2).map fun text => quoteText p.2.1 ++ ": ".toList ++ text

def readPiece (p : Nat × Text × ArrowType × Value) : Option (Nat × Rows) :=
  (readBack p.2.2.1 false p.2.2.2).map (p.1, ·)

def Fields.types : Fields → List ArrowType
  | .nil => []
  | .cons _ type rest => type :: rest.types

theorem renderFields_pieces : ∀ (fields : Fields) (index depth : Nat) (values : List Value) (texts : List Text),
    renderFields arrow fields depth values = some texts →
      (pieces fields index values).mapM (renderPiece arrow depth) = some texts
  | .nil, index, depth, [], texts, h => by
    cases h
    rfl
  | .nil, index, depth, _ :: _, texts, h => by cases h
  | .cons name type rest, index, depth, [], texts, h => by cases h
  | .cons name type rest, index, depth, v :: values, texts, h => by
    rw [renderFields, Option.bind_eq_some_iff] at h
    obtain ⟨text, htext, h⟩ := h
    obtain ⟨texts', htexts, rfl⟩ := Option.map_eq_some_iff.mp h
    rw [pieces, List.mapM_cons, renderFields_pieces rest (index + 1) depth values texts' htexts, renderPiece, htext]
    rfl

/-- Places for the values, from `index` on. -/
def number : Nat → List Rows → List (Nat × Rows)
  | _, [] => []
  | index, rows :: rest => (index, rows) :: number (index + 1) rest

theorem readPiece_pieces : ∀ (fields : Fields) (index : Nat) (values : List Value),
    (pieces fields index values).mapM readPiece = (readFields fields values).map (number index)
  | .nil, index, values => by cases values <;> rfl
  | .cons name type rest, index, [] => rfl
  | .cons name type rest, index, v :: values => by
    rw [pieces, List.mapM_cons, readPiece_pieces rest (index + 1) values, readFields, readPiece]
    cases readBack type false v with
    | none => rfl
    | some rows => cases readFields rest values <;> rfl

theorem foldl_number : ∀ (rows : List Rows) (index : Nat) (done : List (Option Rows)) (rest : List (Option Rows)),
    done.length = index → rest.length = rows.length →
      (number index rows).foldl (fun values f => values.set f.1 (some f.2)) (done ++ rest) = done ++ rows.map some
  | [], index, done, rest, _, hrest => by
    rw [List.length_nil, List.length_eq_zero_iff] at hrest
    rw [hrest]
    rfl
  | r :: rows, index, done, [], _, hrest => by cases hrest
  | r :: rows, index, done, x :: rest, hdone, hrest => by
    have hset : (done ++ x :: rest).set index (some r) = (done ++ [some r]) ++ rest := by
      rw [← hdone, List.set_append_right _ _ (Nat.le_refl _), Nat.sub_self]
      simp
    have hlength : (done ++ [some r]).length = index + 1 := by rw [List.length_append, hdone]; rfl
    rw [number, List.foldl_cons, hset, foldl_number rows (index + 1) _ rest hlength (Nat.succ.inj hrest)]
    simp

theorem fieldValues_number (rows : List Rows) : fieldValues rows.length (number 0 rows) = rows := by
  have hfold := foldl_number rows 0 [] (List.replicate rows.length none) rfl List.length_replicate
  rw [List.nil_append, List.nil_append] at hfold
  rw [fieldValues, hfold, List.map_map]
  exact List.map_id'' (fun _ => rfl) rows

theorem length_readFields : ∀ (fields : Fields) (values : List Value) (rows : List Rows),
    fieldsHaveType fields values = true → readFields fields values = some rows → rows.length = fields.length
  | .nil, [], rows, _, h => by
    cases h
    rfl
  | .nil, _ :: _, rows, htype, _ => by cases htype
  | .cons name type rest, [], rows, htype, _ => by cases htype
  | .cons name type rest, v :: values, rows, htype, h => by
    rw [readFields, Option.bind_eq_some_iff] at h
    obtain ⟨r, -, h⟩ := h
    obtain ⟨rows', hrows, rfl⟩ := Option.map_eq_some_iff.mp h
    rw [fieldsHaveType, Bool.and_eq_true] at htype
    rw [List.length_cons, length_readFields rest values rows' htype.2 hrows, Fields.length]

theorem mem_names_of_mem_pieces : ∀ {fields : Fields} {index : Nat} {values : List Value}
    {p : Nat × Text × ArrowType × Value}, p ∈ pieces fields index values → p.2.1 ∈ fields.names
  | .nil, _, values, p, h => by cases values <;> cases h
  | .cons name type rest, _, [], p, h => by cases h
  | .cons name type rest, index, v :: values, p, h => by
    rw [Fields.names]
    rcases List.mem_cons.mp h with rfl | h
    · exact List.mem_cons_self
    · exact List.mem_cons_of_mem _ (mem_names_of_mem_pieces h)

theorem parseField_piece : ∀ {fields : Fields} {index : Nat} {values : List Value}
    {p : Nat × Text × ArrowType × Value}, fields.names.Nodup → p ∈ pieces fields index values →
      ∀ (depth : Nat) (s : List UInt8), parseField arrow fields index depth p.2.1 s =
        (expect colon s).bind fun s => (parseValue arrow p.2.2.1 depth [comma, braceClose] s).map fun r =>
          ((p.1, r.1), r.2)
  | .nil, _, values, p, _, h, _, _ => by cases values <;> cases h
  | .cons name type rest, _, [], p, _, h, _, _ => by cases h
  | .cons name type rest, index, v :: values, p, hnodup, h, depth, s => by
    rw [Fields.names, List.nodup_cons] at hnodup
    rw [parseField]
    rcases List.mem_cons.mp h with rfl | h
    · rw [if_pos rfl]
    · have hne : name ≠ p.2.1 := fun heq => hnodup.1 (heq ▸ mem_names_of_mem_pieces h)
      rw [if_neg hne, parseField_piece hnodup.2 h]

theorem pieces_typed : ∀ {fields : Fields} {index : Nat} {values : List Value} {p : Nat × Text × ArrowType × Value},
    fieldsHaveType fields values = true → p ∈ pieces fields index values →
      p.2.2.1 ∈ fields.types ∧ hasType p.2.2.1 p.2.2.2 = true
  | .nil, _, values, p, _, h => by cases values <;> cases h
  | .cons name type rest, _, [], p, _, h => by cases h
  | .cons name type rest, index, v :: values, p, htype, h => by
    rw [fieldsHaveType, Bool.and_eq_true] at htype
    rw [Fields.types]
    rcases List.mem_cons.mp h with rfl | h
    · exact ⟨List.mem_cons_self, htype.1⟩
    · obtain ⟨hmem, hp⟩ := pieces_typed htype.2 h
      exact ⟨List.mem_cons_of_mem _ hmem, hp⟩

theorem readsBack_struct {fields : Fields} (hfields : ∀ type ∈ fields.types, ReadsBack arrow type) :
    ReadsBack arrow (.struct fields) := by
  intro v depth mapKey text terminators rest htype h hterm _ hrest
  rw [parseValue]
  obtain ⟨hdepth, ⟨rfl, rfl⟩ | ⟨values, texts, rfl, htexts, rfl⟩⟩ := renderValue_struct h
  · rw [reading_null hdepth hterm hrest]
    rfl
  obtain ⟨rfl, hpieces⟩ := Lists.mapM_eq_map [] (renderFields_pieces fields 0 (depth + 1) values texts htexts)
  simp only [hasType, Bool.and_eq_true, decide_eq_true_eq] at htype
  obtain ⟨hnodup, htype⟩ := htype
  have hblock : block (fun s => (parseQuoted s).bind fun r => parseField arrow fields 0 (depth + 1) r.1 r.2)
      braceOpen braceClose (braceOpen :: (join ((pieces fields 0 values).map fun p =>
        Utf8.encode ((renderPiece arrow (depth + 1) p).getD [])) ++ braceClose :: rest)) =
      ((pieces fields 0 values).mapM readPiece).map (·, rest) := by
    refine block_join (fun s => rfl) (by decide) (by decide) ?_ ?_ rest
    · intro p hp
      have hrender := hpieces p hp
      generalize (renderPiece arrow (depth + 1) p).getD [] = t at hrender ⊢
      obtain ⟨u, -, rfl⟩ := Option.map_eq_some_iff.mp hrender
      exact (startsPlain_append (startsPlain_append (startsPlain_quoteText p.2.1))).starts (by decide)
    · intro p hp rest hrest
      have hrender := hpieces p hp
      generalize (renderPiece arrow (depth + 1) p).getD [] = t at hrender ⊢
      obtain ⟨u, hu, rfl⟩ := Option.map_eq_some_iff.mp hrender
      obtain ⟨hmem, hp'⟩ := pieces_typed htype hp
      have hencode : Utf8.encode (quoteText p.2.1 ++ ": ".toList ++ u) ++ rest =
          Utf8.encode (quoteText p.2.1) ++ colon :: 0x20 :: (Utf8.encode u ++ rest) := by
        rw [Utf8.encode_append, Utf8.encode_append, List.append_assoc, List.append_assoc]
        rfl
      have hcolon : (colon :: 0x20 :: (Utf8.encode u ++ rest)).head? ≠ some quote := by
        rw [List.head?_cons]
        decide
      have hquoted := parseQuoted_quoteText p.2.1 hcolon
      rw [hencode, hquoted, Option.bind_some, parseField_piece hnodup hp, expect_self (by decide), Option.bind_some,
        parseValue_space, hfields _ hmem p.2.2.2 (depth + 1) false u _ rest hp' hu (by decide)
        (fun h => nomatch h) hrest,
        readPiece]
      cases readBack p.2.2.1 false p.2.2.2 <;> rfl
  rw [encode_braces, List.map_map, reading_opening hdepth (.inr (.inl rfl)), parseStruct]
  rw [Function.comp_def, hblock, readPiece_pieces]
  simp only [readBack]
  cases hread : readFields fields values with
  | none => rfl
  | some rows =>
    rw [Option.map_some, Option.map_some, Option.bind_some, Option.bind_some,
      ← length_readFields fields values rows htype hread, fieldValues_number]

end Reading

mutual

/-- Reading a written value is `readBack`, by the type. -/
theorem readsBack (harrow : arrow.Lawful) : ∀ type : ArrowType, ReadsBack arrow type
  | .scalar type => readsBack_scalar harrow type
  | .list kind element => readsBack_list harrow kind (readsBack harrow element)
  | .struct fields => readsBack_struct (readsBack_fields harrow fields)
  | .map key value => readsBack_map harrow (readsBack harrow key) (readsBack harrow value)

theorem readsBack_fields (harrow : arrow.Lawful) : ∀ fields : Fields, ∀ type ∈ fields.types, ReadsBack arrow type
  | .nil => List.forall_mem_nil _
  | .cons _ type rest => List.forall_mem_cons.mpr ⟨readsBack harrow type, readsBack_fields harrow rest⟩

end

end Read

end DuckLake.Nested
