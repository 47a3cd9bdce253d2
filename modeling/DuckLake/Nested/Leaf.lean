import DuckLake.Nested.Text
import DuckLake.Stats.Spelling

/- Leaves read back from their texts: what a quoted text, a bare token and the word NULL
   are to the reader, whatever follows them that may. -/

namespace DuckLake.Nested

open Scan

/-! ## Quoted texts -/

theorem quotedBody_plain {b : UInt8} (hb : b ≠ backslash ∧ b ≠ quote) (s : List UInt8) :
    quotedBody (b :: s) = (quotedBody s).map fun r => (b :: r.1, r.2) := by
  rw [quotedBody.eq_def]
  exact (if_neg hb.1).trans (if_neg hb.2)

theorem quotedBody_append : ∀ {plain : List UInt8}, (∀ b ∈ plain, b ≠ backslash ∧ b ≠ quote) → ∀ s,
    quotedBody (plain ++ s) = (quotedBody s).map fun r => (plain ++ r.1, r.2)
  | [], _, s => by simp
  | b :: plain, h, s => by
    rw [List.forall_mem_cons] at h
    rw [List.cons_append, quotedBody_plain h.1, quotedBody_append h.2, Option.map_map]
    rfl

/-- What the writer puts for one character. -/
def escaped (c : Char) : Text := if c = '\\' ∨ c = '\'' then ['\\', c] else [c]

theorem quotedBody_escaped (c : Char) (s : List UInt8) :
    quotedBody (Utf8.encode (escaped c) ++ s) = (quotedBody s).map fun r => (String.utf8EncodeChar c ++ r.1, r.2) := by
  unfold escaped
  by_cases hc : c = '\\' ∨ c = '\''
  · rw [if_pos hc]
    rcases hc with rfl | rfl <;> rfl
  · rw [if_neg hc]
    have hencode : Utf8.encode [c] = String.utf8EncodeChar c := by simp [Utf8.encode]
    rw [hencode]
    refine quotedBody_append ?_ s
    rw [not_or] at hc
    by_cases hascii : c.toNat < 0x80
    · rw [Utf8.utf8EncodeChar_ascii hascii]
      intro b hb
      rw [List.mem_singleton.mp hb]
      have hplain : ∀ n < 0x80, Char.ofNat n ≠ '\\' ∧ Char.ofNat n ≠ '\'' →
          (Char.ofNat n).toUInt8 ≠ backslash ∧ (Char.ofNat n).toUInt8 ≠ quote := by decide +kernel
      exact Utf8.forall_ascii (P := fun c => c ≠ '\\' ∧ c ≠ '\'' → c.toUInt8 ≠ backslash ∧ c.toUInt8 ≠ quote)
        hplain hascii hc
    · intro b hb
      have hle := Utf8.le_of_mem_utf8EncodeChar (Nat.not_lt.mp hascii) hb
      constructor <;> rintro rfl <;> revert hle <;> decide

variable {c : Char} {t : Text} {rest : List UInt8}

/-- A quoted text followed by no quote is read as the text. -/
theorem quotedBody_quoteText (hrest : rest.head? ≠ some quote) : ∀ t : Text,
    quotedBody (Utf8.encode (t.flatMap escaped) ++ quote :: rest) = some (Utf8.encode t, rest)
  | [] => by
    cases rest with
    | nil => rfl
    | cons b rest =>
      have hb : b ≠ quote := by simpa using hrest
      simp [quotedBody, hb, show quote ≠ backslash by decide]
  | c :: t => by
    rw [List.flatMap_cons, Utf8.encode_append, List.append_assoc, quotedBody_escaped, quotedBody_quoteText hrest t]
    rfl

theorem encode_quoteText (t : Text) :
    Utf8.encode (quoteText t) = quote :: (Utf8.encode (t.flatMap escaped) ++ [quote]) := by
  have hcons : Utf8.encode (quoteText t) = Utf8.encode ['\''] ++ Utf8.encode (t.flatMap escaped ++ ['\'']) := by
    rw [← Utf8.encode_append]
    rfl
  rw [hcons, Utf8.encode_append]
  rfl

theorem parseQuoted_quoteText (t : Text) (hrest : rest.head? ≠ some quote) :
    parseQuoted (Utf8.encode (quoteText t) ++ rest) = some (t, rest) := by
  rw [encode_quoteText, List.cons_append, List.append_assoc, parseQuoted, expect_self (by decide), Option.bind_some,
    List.singleton_append, quotedBody_quoteText hrest, Option.bind_some, Utf8.decode_encode]
  rfl

/-! ## Blobs -/

theorem hexPair_hexByte (b : UInt8) :
    ∃ high low, Utf8.encode (hexByte b) = [high, low] ∧ hexPair high low = some b := by
  have hall : ∀ n < 256, (Utf8.encode (hexByte (UInt8.ofNat n))).length = 2 ∧
      hexPair ((Utf8.encode (hexByte (UInt8.ofNat n))).getD 0 0) ((Utf8.encode (hexByte (UInt8.ofNat n))).getD 1 0) =
        some (UInt8.ofNat n) := by decide +kernel
  have hb := hall b.toNat b.toNat_lt
  rw [UInt8.ofNat_toNat] at hb
  obtain ⟨high, low, hhex⟩ := List.length_eq_two.mp hb.1
  rw [hhex] at hb
  exact ⟨high, low, hhex, hb.2⟩

theorem parseDuckdbBlob_encodeBlob : ∀ bytes : List UInt8, parseDuckdbBlob (Utf8.encode (encodeBlob bytes)) = some bytes
  | [] => rfl
  | b :: bytes => by
    obtain ⟨high, low, hhex, hpair⟩ := hexPair_hexByte b
    have hcons : Utf8.encode (encodeBlob (b :: bytes)) =
        backslash :: 0x78 :: high :: low :: Utf8.encode (encodeBlob bytes) := by
      have happend : encodeBlob (b :: bytes) = ['\\', 'x'] ++ (hexByte b ++ encodeBlob bytes) := rfl
      rw [happend, Utf8.encode_append, Utf8.encode_append, hhex]
      rfl
    rw [hcons, parseDuckdbBlob, if_pos ⟨rfl, rfl⟩]
    simp only [hpair, Option.bind_some, parseDuckdbBlob_encodeBlob bytes, Option.map_some]

/-! ## Tokens -/

/-- The characters of bare leaves and of bare keys. -/
def isTokenChar (c : Char) : Bool := isWordChar c || "+-.: ()".toList.contains c

/-- The bytes a bare leaf may be cut at. -/
def delimiters : List UInt8 := [comma, listClose, braceClose, equals]

theorem isTokenChar_ascii (h : isTokenChar c = true) : c.toNat < 0x80 := by
  delta isTokenChar isWordChar Char.isAlphanum Char.isAlpha Char.isUpper Char.isLower Char.isDigit at h
  simp only [Bool.or_eq_true, Bool.and_eq_true, decide_eq_true_eq, beq_iff_eq, List.contains_iff_mem] at h
  rcases h with ((((h | h) | h) | rfl) | h)
  · exact Nat.lt_of_le_of_lt h.2 (by decide)
  · exact Nat.lt_of_le_of_lt h.2 (by decide)
  · exact Nat.lt_of_le_of_lt h.2 (by decide)
  · decide
  · have hall : ("+-.: ()".toList.all fun c => decide (c.toNat < 0x80)) = true := by decide
    exact of_decide_eq_true (List.all_eq_true.mp hall c h)

theorem isTokenChar_byte (h : isTokenChar c = true) :
    c.toUInt8 ∉ delimiters ∧ c.toUInt8 ≠ quote ∧ (isUnicodeSpace c = true → c = ' ') ∧
      (isSpace c.toUInt8 = true → c = ' ') := by
  have hall : ∀ n < 0x80, isTokenChar (Char.ofNat n) = true →
      (Char.ofNat n).toUInt8 ∉ delimiters ∧ (Char.ofNat n).toUInt8 ≠ quote ∧
      (isUnicodeSpace (Char.ofNat n) = true → Char.ofNat n = ' ') ∧
      (isSpace (Char.ofNat n).toUInt8 = true → Char.ofNat n = ' ') := by decide +kernel
  exact Utf8.forall_ascii (P := fun c => isTokenChar c = true →
    c.toUInt8 ∉ delimiters ∧ c.toUInt8 ≠ quote ∧ (isUnicodeSpace c = true → c = ' ') ∧
      (isSpace c.toUInt8 = true → c = ' ')) hall (isTokenChar_ascii h) h

/-- A bare leaf: no delimiter in it and no space around it. -/
structure IsToken (t : Text) : Prop where
  chars : ∀ c ∈ t, isTokenChar c = true
  first : ∃ c rest, t = c :: rest ∧ c ≠ ' '
  last : ∃ init c, t = init ++ [c] ∧ c ≠ ' '

namespace IsToken

variable {t : Text}

theorem encode_eq (h : IsToken t) : Utf8.encode t = t.map Char.toUInt8 :=
  Utf8.encode_ascii fun c hc => isTokenChar_ascii (h.chars c hc)

theorem exists_cons (h : IsToken t) :
    ∃ c rest, t = c :: rest ∧ Utf8.encode t = c.toUInt8 :: Utf8.encode rest ∧ isSpace c.toUInt8 = false ∧
      c.toUInt8 ≠ quote ∧ c.toUInt8 ∉ delimiters := by
  obtain ⟨c, rest, rfl, hc⟩ := h.first
  obtain ⟨hdelim, hquote, -, hspace⟩ := isTokenChar_byte (h.chars c (by simp))
  refine ⟨c, rest, rfl, ?_, ?_, hquote, hdelim⟩
  · have hrest : Utf8.encode rest = rest.map Char.toUInt8 :=
      Utf8.encode_ascii fun d hd => isTokenChar_ascii (h.chars d (List.mem_cons_of_mem _ hd))
    rw [h.encode_eq, hrest, List.map_cons]
  · exact Bool.eq_false_iff.mpr fun hs => hc (hspace hs)

theorem trimText_eq (h : IsToken t) : trimText t = t := by
  have hspace : ∀ c ∈ t, c ≠ ' ' → isUnicodeSpace c = false := fun c hc hne =>
    Bool.eq_false_iff.mpr fun hs => hne ((isTokenChar_byte (h.chars c hc)).2.2.1 hs)
  refine Trimmed.eq ⟨?_, ?_⟩
  · obtain ⟨c, rest, rfl, hc⟩ := h.first
    exact ⟨c, rest, rfl, hspace c (by simp) hc⟩
  · obtain ⟨init, c, rfl, hc⟩ := h.last
    exact ⟨init, c, rfl, hspace c (by simp) hc⟩

theorem takeToken_append (h : IsToken t) {terminators rest : List UInt8} (hterm : terminators ⊆ delimiters)
    (hrest : Follows terminators rest) : takeToken terminators (Utf8.encode t ++ rest) = (t, rest) := by
  have hbytes : ∀ b ∈ Utf8.encode t, b ∉ terminators := by
    intro b hb hmem
    rw [h.encode_eq] at hb
    obtain ⟨c, hc, rfl⟩ := List.mem_map.mp hb
    exact (isTokenChar_byte (h.chars c hc)).1 (hterm hmem)
  rw [takeToken, takeUntil_append hbytes hrest]
  dsimp only
  rw [Utf8.decode_encode, Option.getD_some, h.trimText_eq]

theorem append_space {t u : Text} (ht : IsToken t) (hchars : ∀ c ∈ u, isTokenChar c = true)
    (hlast : ∃ init c, u = init ++ [c] ∧ c ≠ ' ') : IsToken (t ++ ' ' :: u) where
  chars := by
    intro c hc
    rcases List.mem_append.mp hc with hc | hc
    · exact ht.chars c hc
    · rcases List.mem_cons.mp hc with rfl | hc
      · decide
      · exact hchars c hc
  first := by
    obtain ⟨c, rest, rfl, hc⟩ := ht.first
    exact ⟨c, rest ++ ' ' :: u, rfl, hc⟩
  last := by
    obtain ⟨init, c, rfl, hc⟩ := hlast
    exact ⟨t ++ ' ' :: init, c, by simp, hc⟩

theorem of_solid (hne : t ≠ []) (hchars : ∀ c ∈ t, isTokenChar c = true ∧ c ≠ ' ') : IsToken t where
  chars := fun c hc => (hchars c hc).1
  first := by
    obtain ⟨c, rest, rfl⟩ := List.exists_cons_of_ne_nil hne
    exact ⟨c, rest, rfl, (hchars c (by simp)).2⟩
  last := by
    have hmem := hchars _ (List.getLast_mem hne)
    exact ⟨t.dropLast, t.getLast hne, (List.dropLast_append_getLast hne).symm, hmem.2⟩

end IsToken

/-! ## The word NULL -/

theorem consumeNull_of_head {b : UInt8} (hb : asciiLower b ≠ 0x6e) (s : List UInt8) : consumeNull (b :: s) = none := by
  rw [consumeNull, if_neg]
  rintro ⟨h, -⟩
  exact hb (List.cons.inj h).1

theorem not_any_isWordByte {terminators rest : List UInt8} (hterm : terminators ⊆ delimiters)
    (hrest : Follows terminators rest) : (rest[0]?).any isWordByte = false := by
  cases rest with
  | nil => rfl
  | cons b s =>
    have hb : b ∈ delimiters := hterm (hrest b s rfl)
    have hall : ∀ b ∈ delimiters, isWordByte b = false := by decide +kernel
    exact hall b hb

theorem consumeNull_null {terminators rest : List UInt8} (hterm : terminators ⊆ delimiters)
    (hrest : Follows terminators rest) : consumeNull (Utf8.encode "NULL".toList ++ rest) = some rest := by
  have hencode : Utf8.encode "NULL".toList = [0x4e, 0x55, 0x4c, 0x4c] := by decide +kernel
  rw [hencode, consumeNull, if_pos]
  · rfl
  · exact ⟨rfl, not_any_isWordByte hterm hrest⟩

/-- The word NULL in any letter case. -/
def isNullWord (t : Text) : Bool := t.map Char.toLower == "null".toList

theorem isWordChar_byte (h : isWordChar c = true) :
    isTokenChar c = true ∧ c ≠ ' ' ∧ isWordByte c.toUInt8 = true ∧ asciiLower c.toUInt8 = c.toLower.toUInt8 ∧
      c.toLower.toNat < 0x80 := by
  have hascii : c.toNat < 0x80 := isTokenChar_ascii (by rw [isTokenChar, h, Bool.true_or])
  have hall : ∀ n < 0x80, isWordChar (Char.ofNat n) = true → isTokenChar (Char.ofNat n) = true ∧ Char.ofNat n ≠ ' ' ∧
      isWordByte (Char.ofNat n).toUInt8 = true ∧ asciiLower (Char.ofNat n).toUInt8 = (Char.ofNat n).toLower.toUInt8 ∧
      (Char.ofNat n).toLower.toNat < 0x80 := by decide +kernel
  exact Utf8.forall_ascii (P := fun c => isWordChar c = true → isTokenChar c = true ∧ c ≠ ' ' ∧
    isWordByte c.toUInt8 = true ∧ asciiLower c.toUInt8 = c.toLower.toUInt8 ∧ c.toLower.toNat < 0x80) hall hascii h

theorem isToken_bareKey (h : isBareMapKey t = true) : IsToken t := by
  rw [isBareMapKey, Bool.and_eq_true, List.all_eq_true, Bool.not_eq_true', List.isEmpty_eq_false_iff] at h
  exact .of_solid h.1 fun c hc => ⟨(isWordChar_byte (h.2 c hc)).1, (isWordChar_byte (h.2 c hc)).2.1⟩

theorem map_asciiLower_bareKey (h : ∀ c ∈ t, isWordChar c = true) :
    (Utf8.encode t).map asciiLower = Utf8.encode (t.map Char.toLower) := by
  have hascii : ∀ c ∈ t, c.toNat < 0x80 := fun c hc => isTokenChar_ascii (isWordChar_byte (h c hc)).1
  have hlower : ∀ c ∈ t.map Char.toLower, c.toNat < 0x80 := by
    intro c hc
    obtain ⟨d, hd, rfl⟩ := List.mem_map.mp hc
    exact (isWordChar_byte (h d hd)).2.2.2.2
  rw [Utf8.encode_ascii hascii, Utf8.encode_ascii hlower, List.map_map, List.map_map]
  exact List.map_congr_left fun c hc => (isWordChar_byte (h c hc)).2.2.2.1

theorem consumeNull_bareKey (h : isBareMapKey t = true) (hrest : Follows [equals] rest) :
    consumeNull (Utf8.encode t ++ rest) = if isNullWord t then some rest else none := by
  have hword : ∀ c ∈ t, isWordChar c = true := by
    rw [isBareMapKey, Bool.and_eq_true, List.all_eq_true] at h
    exact h.2
  have hencode : Utf8.encode t = t.map Char.toUInt8 := (isToken_bareKey h).encode_eq
  have hlength : (Utf8.encode t).length = t.length := by rw [hencode, List.length_map]
  have hnull : Utf8.encode "null".toList = [0x6e, 0x75, 0x6c, 0x6c] := by decide +kernel
  by_cases hlen : t.length = 4
  · have htake : ((Utf8.encode t ++ rest).take 4).map asciiLower = Utf8.encode (t.map Char.toLower) := by
      rw [← map_asciiLower_bareKey hword, ← hlen, ← hlength, List.take_left]
    have hnext : (Utf8.encode t ++ rest)[4]? = rest[0]? := by
      rw [List.getElem?_append_right (by omega), hlength, hlen]
    have hany : (rest[0]?).any isWordByte = false := not_any_isWordByte (by decide) hrest
    have hiff : Utf8.encode (t.map Char.toLower) = [0x6e, 0x75, 0x6c, 0x6c] ↔ isNullWord t = true := by
      rw [← hnull, isNullWord, beq_iff_eq]
      refine ⟨fun heq => ?_, fun heq => by rw [heq]⟩
      have hdecode := congrArg Utf8.decode heq
      rw [Utf8.decode_encode, Utf8.decode_encode] at hdecode
      exact Option.some.inj hdecode
    have hdrop : (Utf8.encode t ++ rest).drop 4 = rest := by
      rw [← hlen, ← hlength, List.drop_left]
    rw [consumeNull, htake, hnext, hany, hdrop]
    simp only [and_true, hiff]
  · have hne : isNullWord t = false := by
      rw [isNullWord, beq_eq_false_iff_ne]
      intro heq
      have := congrArg List.length heq
      rw [List.length_map] at this
      exact hlen this
    rw [hne, consumeNull, if_neg]
    · rfl
    rintro ⟨htake, hnext⟩
    by_cases hlt : t.length < 4
    · -- the fourth byte lies past the key, and the byte after the key is no letter
      obtain ⟨b, s, hcons⟩ : ∃ b s, rest = b :: s := by
        cases rest with
        | nil =>
          have := congrArg List.length htake
          simp only [List.append_nil, List.length_map, List.length_take, List.length_cons, List.length_nil] at this
          omega
        | cons b s => exact ⟨b, s, rfl⟩
      have hb : b = equals := List.mem_singleton.mp (hrest b s hcons)
      have hget := congrArg (·[t.length]?) htake
      simp only [List.getElem?_map, List.getElem?_take_of_lt hlt, hcons,
        List.getElem?_append_right (Nat.le_of_eq hlength), hlength, Nat.sub_self, List.getElem?_cons_zero,
        Option.map_some, hb] at hget
      have hall : ∀ i < 4, some (asciiLower equals) ≠ ([0x6e, 0x75, 0x6c, 0x6c] : List UInt8)[i]? := by decide
      exact hall _ hlt hget
    · have hget : (Utf8.encode t ++ rest)[4]? = (t[4]?).map Char.toUInt8 := by
        rw [List.getElem?_append_left (by omega), hencode, List.getElem?_map]
      have hsome : t[4]? = some t[4] := List.getElem?_eq_getElem (by omega)
      rw [hget, hsome, Option.map_some, Option.any_some,
        (isWordChar_byte (hword _ (List.getElem_mem _))).2.2.1] at hnext
      cases hnext

/-! ## The texts of the leaf types -/

/-- The types with a text of their own: numbers, dates, times and timestamps. -/
def isNumberOrTemporal (type : DataType) : Bool :=
  match type with
  | .integer _ | .decimal128 _ _ | .date32 | .time _ | .timestamp _ _ => true
  | _ => false

def fitsBits (signed : Bool) (width : Nat) (n : Int) : Bool :=
  if signed then decide (-2 ^ (width - 1) ≤ n) && decide (n < 2 ^ (width - 1))
  else decide (0 ≤ n) && decide (n < 2 ^ width)

def fitsInt : IntType → Int → Bool
  | .int8 => fitsBits true 8
  | .int16 => fitsBits true 16
  | .int32 => fitsBits true 32
  | .int64 => fitsBits true 64
  | .uint8 => fitsBits false 8
  | .uint16 => fitsBits false 16
  | .uint32 => fitsBits false 32
  | .uint64 => fitsBits false 64

/-- The values Arrow has: numbers of the type's width, decimals of its precision. -/
def inRange : ScalarValue → Bool
  | .integer type n => fitsInt type n
  | .decimal128 v precision _ => decide (v.natAbs < 10 ^ precision)
  | .date32 days => fitsBits true 32 days
  | .time _ v | .timestamp _ _ v => fitsBits true 64 v
  | _ => true

/-- What Arrow documents of its display: booleans and integers in their usual spelling,
a decimal as digits with a sign and a point; and that a leaf's text is parsed back to it. -/
structure ArrowText.Lawful (arrow : ArrowText) : Prop where
  boolean : ∀ b, arrow.display (.boolean b) = some (encodeBool b)
  integer : ∀ type n, fitsInt type n = true → arrow.display (.integer type n) = some (intText n)
  decimal : ∀ v precision scale text, arrow.display (.decimal128 v precision scale) = some text →
    text ≠ [] ∧ ∀ c ∈ text, c.isDigit = true ∨ c = '-' ∨ c = '.'
  parses : ∀ v text, isNumberOrTemporal v.dataType = true → v.isNull = false → inRange v = true →
    leafText arrow false v = some text → arrow.parse v.dataType text = some v

/-- A bare leaf that is not taken for the word NULL. -/
structure IsLeafText (t : Text) : Prop extends IsToken t where
  notNull : ∀ c rest, t = c :: rest → asciiLower c.toUInt8 ≠ 0x6e

theorem IsLeafText.consumeNull_eq (h : IsLeafText t) (rest : List UInt8) :
    consumeNull (Utf8.encode t ++ rest) = none := by
  obtain ⟨c, u, rfl, hencode, -⟩ := h.exists_cons
  rw [hencode]
  exact consumeNull_of_head (h.notNull c u rfl) _

/-- A digit, or a sign, a point or a colon between digits. -/
def isNumberChar (c : Char) : Bool := c.isDigit || "+-.:".toList.contains c

theorem isNumberChar_digit (h : c.isDigit = true) : isNumberChar c = true := by rw [isNumberChar, h, Bool.true_or]

theorem isNumberChar_byte (h : isNumberChar c = true) :
    isTokenChar c = true ∧ c ≠ ' ' ∧ asciiLower c.toUInt8 ≠ 0x6e := by
  have htoken : isTokenChar c = true := by
    rw [isNumberChar, Bool.or_eq_true, List.contains_iff_mem] at h
    rcases h with h | h
    · rw [isTokenChar, isWordChar, Char.isAlphanum, h, Bool.or_true, Bool.true_or, Bool.true_or]
    · have hall : "+-.:".toList.all isTokenChar = true := by decide
      exact List.all_eq_true.mp hall c h
  have hall : ∀ n < 0x80, isNumberChar (Char.ofNat n) = true → Char.ofNat n ≠ ' ' ∧
      asciiLower (Char.ofNat n).toUInt8 ≠ 0x6e := by decide +kernel
  exact ⟨htoken, Utf8.forall_ascii (P := fun c => isNumberChar c = true → c ≠ ' ' ∧ asciiLower c.toUInt8 ≠ 0x6e) hall
    (isTokenChar_ascii htoken) h⟩

theorem isLeafText_number (hne : t ≠ []) (h : ∀ c ∈ t, isNumberChar c = true) : IsLeafText t where
  toIsToken := .of_solid hne fun c hc => ⟨(isNumberChar_byte (h c hc)).1, (isNumberChar_byte (h c hc)).2.1⟩
  notNull := by
    rintro c rest rfl
    exact (isNumberChar_byte (h c (by simp))).2.2

theorem isLeafText_word (hall : (t.all fun c => isTokenChar c && c != ' ') = true)
    (hhead : (t.head?.any fun c => asciiLower c.toUInt8 != 0x6e) = true) : IsLeafText t where
  toIsToken := by
    refine .of_solid ?_ fun c hc => ?_
    · rintro rfl
      cases hhead
    · have hc := List.all_eq_true.mp hall c hc
      rw [Bool.and_eq_true, bne_iff_ne] at hc
      exact hc
  notNull := by
    rintro c rest rfl
    rw [List.head?_cons, Option.any_some, bne_iff_ne] at hhead
    exact hhead

theorem isNumberChar_padded {w n : Nat} (h : c ∈ padded w n) : isNumberChar c = true :=
  isNumberChar_digit (isDigit_of_mem_padded h)

theorem isNumberChar_intText {n : Int} (h : c ∈ intText n) : isNumberChar c = true := by
  have hdigits : ∀ c ∈ digits n.natAbs, isNumberChar c = true := fun c hc =>
    isNumberChar_digit (List.all_eq_true.mp (Numeral.all_isDigit_toDigits _) c hc)
  unfold intText at h
  split at h
  · rcases List.mem_cons.mp h with rfl | h
    · decide
    · exact hdigits c h
  · exact hdigits c h

theorem intText_ne_nil (n : Int) : intText n ≠ [] := by
  have hpos : 0 < (digits n.natAbs).length := Nat.length_toDigits_pos
  unfold intText
  split
  · exact List.cons_ne_nil _ _
  · exact List.length_pos_iff.mp hpos

theorem isNumberChar_clockText {secs : Int} (h : c ∈ clockText secs) : isNumberChar c = true := by
  unfold clockText at h
  simp only [List.mem_append, List.mem_cons] at h
  rcases h with (h | rfl | h) | rfl | h
  · exact isNumberChar_padded h
  · decide
  · exact isNumberChar_padded h
  · decide
  · exact isNumberChar_padded h

theorem isNumberChar_fractionText {unit : TimeUnit} {sub : Int} (h : c ∈ fractionText unit sub) :
    isNumberChar c = true := by
  unfold fractionText at h
  split at h
  · cases h
  · dsimp only at h
    split at h
    · cases h
    · rcases List.mem_cons.mp h with rfl | h
      · decide
      · obtain ⟨k, hk⟩ := exists_trimZeros (padded unit.width sub.toNat)
        have hmem : c ∈ padded unit.width sub.toNat := by
          rw [hk]
          exact List.mem_append_left _ h
        exact isNumberChar_padded hmem

theorem clockText_ne_nil (secs : Int) : clockText secs ≠ [] := by
  obtain ⟨c, t, h, -⟩ := exists_cons_clockText secs
  rw [h]
  exact List.cons_ne_nil _ _

theorem isNumberChar_ymd {y m d : Int} (h : c ∈ ymd y m d) : isNumberChar c = true := by
  unfold ymd at h
  simp only [List.mem_append, List.mem_cons] at h
  rcases h with (h | rfl | h) | rfl | h
  · exact isNumberChar_padded h
  · decide
  · exact isNumberChar_padded h
  · decide
  · exact isNumberChar_padded h

theorem isToken_ymd (y m d : Int) : IsToken (ymd y m d) := by
  refine (isLeafText_number ?_ fun c hc => isNumberChar_ymd hc).toIsToken
  simp [ymd]

theorem isToken_duckdbDateText (days : Int) : IsToken (duckdbDateText days) := by
  have hera : " (BC)".toList = ' ' :: ("(BC".toList ++ [')']) := by decide
  rw [duckdbDateText_eq, hera]
  split
  · exact (isToken_ymd _ _ _).append_space (List.all_eq_true.mp (by decide)) ⟨_, ')', rfl, by decide⟩
  · exact isToken_ymd _ _ _

theorem isToken_timestampText (unit : TimeUnit) (timezone : Bool) (v : Int) :
    IsToken (timestampText unit timezone v) := by
  have hzone : (if timezone then "+00".toList else []).all isNumberChar = true := by
    cases timezone <;> decide
  have hnumber : IsLeafText (clockText (v / unit.perSecond % 86400) ++ fractionText unit (v % unit.perSecond) ++
      if timezone then "+00".toList else []) := by
    refine isLeafText_number ?_ ?_
    · simp [clockText_ne_nil]
    · intro c hc
      simp only [List.mem_append] at hc
      rcases hc with (hc | hc) | hc
      · exact isNumberChar_clockText hc
      · exact isNumberChar_fractionText hc
      · exact List.all_eq_true.mp hzone c hc
  have happend := (isToken_duckdbDateText (v / unit.perSecond / 86400)).append_space hnumber.chars hnumber.last
  have heq : timestampText unit timezone v = duckdbDateText (v / unit.perSecond / 86400) ++ ' ' ::
      (clockText (v / unit.perSecond % 86400) ++ fractionText unit (v % unit.perSecond) ++
        if timezone then "+00".toList else []) := by
    simp [timestampText]
  rw [heq]
  exact happend

theorem isLeafText_spelled {infinity : Int} {finite : Int → Text} (hfinite : ∀ v, IsToken (finite v)) {v : Int}
    (h : Spelled infinity finite v t) : IsLeafText t := by
  obtain ⟨-, rfl⟩ | ⟨-, rfl⟩ | ⟨rfl, c, rest, hcons, hdigit⟩ := h.cases
  · exact isLeafText_word (by decide) (by decide)
  · exact isLeafText_word (by decide) (by decide)
  · refine ⟨hfinite v, ?_⟩
    intro c' rest' h
    rw [← (List.cons.inj (hcons.symm.trans h)).1]
    exact (isNumberChar_byte (isNumberChar_digit hdigit)).2.2

/-- The text of a boolean, number, date, time or timestamp is a bare leaf. -/
theorem isLeafText_leafText {arrow : ArrowText} (harrow : arrow.Lawful) {mapKey : Bool} {v : ScalarValue}
    (hnull : v.isNull = false) (hrange : inRange v = true)
    (htype : v.dataType = .boolean ∨ isNumberOrTemporal v.dataType = true)
    (h : leafText arrow mapKey v = some t) : IsLeafText t := by
  cases v with
  | null _ => cases hnull
  | boolean b =>
    have htext : encodeBool b = t := Option.some.inj ((harrow.boolean b).symm.trans h)
    subst htext
    cases b
    · exact isLeafText_word (by decide) (by decide)
    · exact isLeafText_word (by decide) (by decide)
  | integer type n =>
    have htext : intText n = t := Option.some.inj ((harrow.integer type n hrange).symm.trans h)
    subst htext
    exact isLeafText_number (intText_ne_nil n) fun c hc => isNumberChar_intText hc
  | decimal128 v precision scale =>
    obtain ⟨hne, hchars⟩ := harrow.decimal v precision scale t h
    refine isLeafText_number hne fun c hc => ?_
    rcases hchars c hc with hc | rfl | rfl
    · exact isNumberChar_digit hc
    · decide
    · decide
  | date32 days => exact isLeafText_spelled isToken_duckdbDateText (spelled_encodeDate32 h)
  | time unit v =>
    have htime : encodeTime v unit = some t := h
    unfold encodeTime at htime
    split at htime
    · cases htime
    · cases htime
      refine isLeafText_number (by simp [clockText_ne_nil]) fun c hc => ?_
      rcases List.mem_append.mp hc with hc | hc
      · exact isNumberChar_clockText hc
      · exact isNumberChar_fractionText hc
  | timestamp unit tz v => exact isLeafText_spelled (isToken_timestampText unit tz.isSome) (spelled_encodeTimestamp h)
  | _ => simp [ScalarValue.dataType, isNumberOrTemporal] at htype

end DuckLake.Nested
