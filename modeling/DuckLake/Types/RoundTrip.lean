import DuckLake.Stats.Spelling
import DuckLake.Types.Text

/- A type that is written is read back in the form a scan gives it (`types.rs`): strings
   and blobs as views, every list as a plain list of nullable elements, time zones as UTC,
   dictionaries as their values and decimals at the width their precision needs. That form
   is written as a text that is read as itself. -/

namespace DuckLake.Types

open Brackets (Balanced isBracket)
open Nested (trimText isUnicodeSpace isUnicodeSpace_digit Trimmed trimmed_of_forall maxNestedTypeDepth)

/-! ## The form of a type that is read -/

def Leaf.normal : Leaf → Leaf
  | .null | .string _ => .string .utf8View
  | .binary (.fixedSizeBinary 16) => .binary (.fixedSizeBinary 16)
  | .binary _ => .binary .binaryView
  | .date32 | .date64 => .date32
  | .time32 _ | .time64 _ => .time64 .microsecond
  | .timestamp unit none => .timestamp unit none
  | .timestamp .nanosecond (some _) => .timestamp .nanosecond (some "UTC".toList)
  | .timestamp _ (some _) => .timestamp .microsecond (some "UTC".toList)
  | .interval _ => .interval .monthDayNano
  | .decimal128 precision scale | .decimal256 precision scale =>
    if 38 < precision then .decimal256 precision scale else .decimal128 precision scale
  | leaf => leaf

mutual

def ArrowType.normal : ArrowType → ArrowType
  | .leaf leaf => .leaf leaf.normal
  | .dictionary _ value => value.normal
  | .list _ _ element _ => .list .list "item".toList element.normal true
  | .struct fields => .struct fields.normal
  | .map _ (.struct (.cons _ key _ (.cons _ value _ .nil))) _ _ => mapEntries key.normal value.normal true
  | .map name entries nullable sorted => .map name entries nullable sorted

def Fields.normal : Fields → Fields
  | .nil => .nil
  | .cons name type _ rest => .cons name type.normal true rest.normal

end

mutual

/-- The levels below a type. -/
def ArrowType.depth : ArrowType → Nat
  | .leaf _ => 0
  | .dictionary _ value => value.depth
  | .list _ _ element _ => element.depth + 1
  | .struct fields => fields.depth
  | .map _ (.struct (.cons _ key _ (.cons _ value _ .nil))) _ _ => max key.depth value.depth + 1
  | .map _ _ _ _ => 0

def Fields.depth : Fields → Nat
  | .nil => 0
  | .cons _ type _ rest => max (type.depth + 1) rest.depth

end

/-- A precision Arrow has a decimal for, and a scale within it. -/
def Leaf.WellFormed : Leaf → Prop
  | .decimal128 precision scale | .decimal256 precision scale =>
    1 ≤ precision.toNat ∧ precision.toNat ≤ 76 ∧ scale.toInt ≤ precision.toNat
  | _ => True

/-- Letters, digits and underscores. Beyond ASCII every character but a space is a letter here. -/
def isNameChar (c : Char) : Bool := if c.toNat < 0x80 then c.isAlphanum || c == '_' else !isUnicodeSpace c

structure IsFieldName (name : Text) : Prop where
  nonempty : name ≠ []
  chars : ∀ c ∈ name, isNameChar c = true

mutual

/-- Decimals as Arrow has them, and names that can be told from the text around them. -/
def ArrowType.WellFormed : ArrowType → Prop
  | .leaf leaf => leaf.WellFormed
  | .dictionary _ value => value.WellFormed
  | .list _ _ element _ => element.WellFormed
  | .struct fields => fields.WellFormed
  | .map _ (.struct (.cons _ key _ (.cons _ value _ .nil))) _ _ => key.WellFormed ∧ value.WellFormed
  | .map _ _ _ _ => True

def Fields.WellFormed : Fields → Prop
  | .nil => True
  | .cons name type _ rest => IsFieldName name ∧ type.WellFormed ∧ rest.WellFormed

end

/-! ## Characters -/

variable {t : Text} {c : Char} {precision : UInt8} {scale : Int8} {leaf : Leaf}

theorem isNameChar_plain (h : isNameChar c = true) :
    isBracket c = false ∧ c ≠ ',' ∧ c ≠ ':' ∧ isUnicodeSpace c = false := by
  by_cases hascii : c.toNat < 0x80
  · have hall : ∀ n < 0x80, isNameChar (Char.ofNat n) = true → isBracket (Char.ofNat n) = false ∧
        Char.ofNat n ≠ ',' ∧ Char.ofNat n ≠ ':' ∧ isUnicodeSpace (Char.ofNat n) = false := by decide +kernel
    exact Utf8.forall_ascii (P := fun c => isNameChar c = true → isBracket c = false ∧ c ≠ ',' ∧ c ≠ ':' ∧
      isUnicodeSpace c = false) hall hascii h
  · have hne : ∀ {d : Char}, d.toNat < 0x80 → c ≠ d := fun hd heq => hascii (heq ▸ hd)
    have hspace : isUnicodeSpace c = false := by
      rw [isNameChar, if_neg hascii] at h
      simpa using h
    refine ⟨?_, hne (by decide), hne (by decide), hspace⟩
    simp [isBracket, hne (d := '<') (by decide), hne (d := '>') (by decide), hne (d := '(') (by decide),
      hne (d := ')') (by decide)]

/-! ## Written types -/

/-- Outside of its brackets a type has no separators. -/
def isTop (c : Char) : Prop := c ≠ ',' ∧ c ≠ ':'

/-- A text that stays in one piece between separators. -/
structure TypeText (t : Text) : Prop where
  balanced : Balanced isTop t
  trimmed : Trimmed t

/-- A word outside of brackets. -/
def isWordOf (t : Text) : Bool :=
  !t.isEmpty && t.all fun c => !isBracket c && c != ',' && c != ':' && !isUnicodeSpace c

theorem isWordOf_mem (h : isWordOf t = true) (hc : c ∈ t) :
    isBracket c = false ∧ isTop c ∧ isUnicodeSpace c = false := by
  have hall := List.all_eq_true.mp (Bool.and_eq_true_iff.mp h).2 c hc
  simp only [Bool.and_eq_true, Bool.not_eq_true', bne_iff_ne] at hall
  exact ⟨hall.1.1.1, ⟨hall.1.1.2, hall.1.2⟩, hall.2⟩

theorem isWordOf_ne_nil (h : isWordOf t = true) : t ≠ [] := by
  intro heq
  rw [heq] at h
  cases h

theorem typeText_word (h : isWordOf t = true) : TypeText t :=
  ⟨.of_forall fun _ hc => ⟨(isWordOf_mem h hc).1, (isWordOf_mem h hc).2.1⟩,
    trimmed_of_forall (isWordOf_ne_nil h) fun _ hc => (isWordOf_mem h hc).2.2⟩

theorem typeText_angle (head : Text) {inner : Text} (hhead : isWordOf head = true)
    (hinner : Balanced (fun _ => True) inner) :
    TypeText (head ++ '<' :: (inner ++ ['>'])) := by
  refine ⟨(typeText_word hhead).balanced.append (.angle hinner .nil), ?_⟩
  have hclose : Trimmed ['>'] := ⟨⟨'>', [], rfl, by decide⟩, ⟨[], '>', rfl, by decide⟩⟩
  have := Trimmed.append (m := '<' :: inner) (typeText_word hhead).trimmed hclose
  simpa using this

theorem typeText_paren {head inner : Text} (hhead : isWordOf head = true) (hinner : Balanced (fun _ => True) inner) :
    TypeText (head ++ '(' :: (inner ++ [')'])) := by
  refine ⟨(typeText_word hhead).balanced.append (.paren hinner .nil), ?_⟩
  have hclose : Trimmed [')'] := ⟨⟨')', [], rfl, by decide⟩, ⟨[], ')', rfl, by decide⟩⟩
  have := Trimmed.append (m := '(' :: inner) (typeText_word hhead).trimmed hclose
  simpa using this

theorem numberChar_plain (h : c.isDigit = true ∨ c = '-') :
    isBracket c = false ∧ c ≠ ',' ∧ isUnicodeSpace c = false := by
  rcases h with h | rfl
  · have hne : ∀ {d : Char}, d.isDigit = false → c ≠ d := by
      intro d hd heq
      rw [heq, hd] at h
      cases h
    refine ⟨?_, hne (by decide), isUnicodeSpace_digit h⟩
    simp [isBracket, hne (d := '<') (by decide), hne (d := '>') (by decide), hne (d := '(') (by decide),
      hne (d := ')') (by decide)]
  · decide

theorem digits_plain {n : Nat} (h : c ∈ digits n) : isBracket c = false ∧ c ≠ ',' ∧ isUnicodeSpace c = false :=
  numberChar_plain (.inl (List.all_eq_true.mp (Numeral.all_isDigit_toDigits n) c h))

theorem intText_plain {v : Int} (h : c ∈ intText v) :
    isBracket c = false ∧ c ≠ ',' ∧ isUnicodeSpace c = false := by
  unfold intText at h
  split at h
  · rcases List.mem_cons.mp h with h | h
    · exact numberChar_plain (.inr h)
    · exact digits_plain h
  · exact digits_plain h

/-- The parameters of a decimal type. -/
def decimalBody (precision : UInt8) (scale : Int8) : Text :=
  digits precision.toNat ++ ',' :: ' ' :: intText scale.toInt

theorem decimalBody_plain (h : c ∈ decimalBody precision scale) :
    isBracket c = false := by
  unfold decimalBody at h
  simp only [List.mem_append, List.mem_cons] at h
  rcases h with h | rfl | rfl | h
  · exact (digits_plain h).1
  · decide
  · decide
  · exact (intText_plain h).1

theorem decimalText_eq (precision : UInt8) (scale : Int8) :
    decimalText precision scale = "decimal".toList ++ '(' :: (decimalBody precision scale ++ [')']) := by
  have hopen : ∀ t : Text, "decimal(".toList ++ t = "decimal".toList ++ '(' :: t := fun _ => rfl
  have hcomma : ∀ t : Text, ", ".toList ++ t = ',' :: ' ' :: t := fun _ => rfl
  unfold decimalText decimalBody
  simp only [List.append_assoc, List.cons_append, hcomma]
  exact hopen _

/-- The words leaves are written as, and what they are read as. -/
def leafNames : List (Text × Leaf) :=
  [("boolean".toList, .boolean), ("int8".toList, .integer .int8), ("int16".toList, .integer .int16),
   ("int32".toList, .integer .int32), ("int64".toList, .integer .int64), ("uint8".toList, .integer .uint8),
   ("uint16".toList, .integer .uint16), ("uint32".toList, .integer .uint32), ("uint64".toList, .integer .uint64),
   ("float32".toList, .float32), ("float64".toList, .float64), ("date".toList, .date32),
   ("time".toList, .time64 .microsecond), ("timestamp_s".toList, .timestamp .second none),
   ("timestamp_ms".toList, .timestamp .millisecond none), ("timestamp".toList, .timestamp .microsecond none),
   ("timestamp_ns".toList, .timestamp .nanosecond none),
   ("timestamptz_ns".toList, .timestamp .nanosecond (some "UTC".toList)),
   ("timestamptz".toList, .timestamp .microsecond (some "UTC".toList)), ("interval".toList, .interval .monthDayNano),
   ("varchar".toList, .string .utf8View), ("uuid".toList, .binary (.fixedSizeBinary 16)),
   ("blob".toList, .binary .binaryView)]

theorem leafText_cases (h : leaf.text = .ok t) :
    (∃ precision scale, (leaf = .decimal128 precision scale ∨ leaf = .decimal256 precision scale) ∧
      t = decimalText precision scale) ∨ (t, leaf.normal) ∈ leafNames := by
  have hname : ∀ {word : Text} {normal : Leaf} (index : Nat), leafNames[index]? = some (word, normal) →
      leaf.normal = normal → Except.ok (ε := Text) word = .ok t → (t, leaf.normal) ∈ leafNames := by
    intro word normal index hget hnormal heq
    rw [hnormal, ← Except.ok.inj heq]
    exact List.mem_of_getElem? hget
  cases leaf with
  | decimal128 precision scale => exact .inl ⟨precision, scale, .inl rfl, (Except.ok.inj h).symm⟩
  | decimal256 precision scale => exact .inl ⟨precision, scale, .inr rfl, (Except.ok.inj h).symm⟩
  | boolean => exact .inr (hname 0 rfl rfl h)
  | integer width =>
    cases width with
    | int8 => exact .inr (hname 1 rfl rfl h)
    | int16 => exact .inr (hname 2 rfl rfl h)
    | int32 => exact .inr (hname 3 rfl rfl h)
    | int64 => exact .inr (hname 4 rfl rfl h)
    | uint8 => exact .inr (hname 5 rfl rfl h)
    | uint16 => exact .inr (hname 6 rfl rfl h)
    | uint32 => exact .inr (hname 7 rfl rfl h)
    | uint64 => exact .inr (hname 8 rfl rfl h)
  | float32 => exact .inr (hname 9 rfl rfl h)
  | float64 => exact .inr (hname 10 rfl rfl h)
  | date32 => exact .inr (hname 11 rfl rfl h)
  | date64 => exact .inr (hname 11 rfl rfl h)
  | time32 _ => exact .inr (hname 12 rfl rfl h)
  | time64 _ => exact .inr (hname 12 rfl rfl h)
  | timestamp unit timezone =>
    cases timezone with
    | none =>
      cases unit with
      | second => exact .inr (hname 13 rfl rfl h)
      | millisecond => exact .inr (hname 14 rfl rfl h)
      | microsecond => exact .inr (hname 15 rfl rfl h)
      | nanosecond => exact .inr (hname 16 rfl rfl h)
    | some _ =>
      cases unit with
      | nanosecond => exact .inr (hname 17 rfl rfl h)
      | _ => exact .inr (hname 18 rfl rfl h)
  | interval _ => exact .inr (hname 19 rfl rfl h)
  | null => exact .inr (hname 20 rfl rfl h)
  | string _ => exact .inr (hname 20 rfl rfl h)
  | binary layout =>
    cases layout with
    | fixedSizeBinary size =>
      by_cases hsize : size = 16
      · subst hsize
        exact .inr (hname 21 rfl rfl h)
      · have htext : (Leaf.binary (.fixedSizeBinary size)).text = .ok "blob".toList := by
          unfold Leaf.text
          split <;> simp_all
        have hnormal : (Leaf.binary (.fixedSizeBinary size)).normal = .binary .binaryView := by
          unfold Leaf.normal
          split <;> simp_all
        rw [htext] at h
        exact .inr (hname 22 rfl hnormal h)
    | _ => exact .inr (hname 22 rfl rfl h)
  | other name => cases h

theorem typeText_leaf (h : leaf.text = .ok t) : TypeText t := by
  rcases leafText_cases h with ⟨precision, scale, -, heq⟩ | hmem
  · rw [heq, decimalText_eq]
    exact typeText_paren (by decide) (.of_forall fun c hc => ⟨decimalBody_plain hc, trivial⟩)
  · have hwords : leafNames.all (fun entry => isWordOf entry.1) = true := by decide +kernel
    exact typeText_word (List.all_eq_true.mp hwords _ hmem)

theorem typeText_field {name t : Text} (hname : IsFieldName name) (ht : TypeText t) :
    Balanced (· ≠ ',') (name ++ ':' :: t) ∧ Trimmed (name ++ ':' :: t) := by
  have hplain := fun c hc => isNameChar_plain (hname.chars c hc)
  constructor
  · refine Balanced.append (.of_forall fun c hc => ⟨(hplain c hc).1, (hplain c hc).2.1⟩) ?_
    exact .plain (by decide) (by decide) (ht.balanced.mono fun c hc => hc.1)
  · have hword := trimmed_of_forall hname.nonempty fun c hc => (hplain c hc).2.2.2
    have := Trimmed.append (m := [':']) hword ht.trimmed
    simpa using this

mutual

theorem typeText_written : ∀ (type : ArrowType) {t : Text}, arrowToDucklakeType type = .ok t →
    type.WellFormed → TypeText t
  | .leaf leaf, t, h, _ => typeText_leaf h
  | .dictionary _ value, t, h, hwf => typeText_written value h hwf
  | .list _ _ element _, t, h, hwf => by
    obtain ⟨inner, hinner, ht⟩ := Checked.bind_eq_ok.mp h
    rw [← Checked.pure_eq_ok.mp ht]
    have hpart := typeText_written element hinner hwf
    exact typeText_angle "list".toList (by decide) (hpart.balanced.mono fun _ _ => trivial)
  | .struct fields, t, h, hwf => by
    obtain ⟨texts, htexts, ht⟩ := Checked.bind_eq_ok.mp h
    rw [← Checked.pure_eq_ok.mp ht]
    have hparts := balanced_fieldTexts fields htexts hwf
    exact typeText_angle "struct".toList (by decide)
      (Balanced.intercalate (by decide) trivial fun part hpart => (hparts part hpart).1.mono fun _ _ => trivial)
  | .map _ (.struct (.cons _ key _ (.cons _ value _ .nil))) _ _, t, h, hwf => by
    obtain ⟨keyText, hkey, h⟩ := Checked.bind_eq_ok.mp h
    obtain ⟨valueText, hvalue, ht⟩ := Checked.bind_eq_ok.mp h
    rw [← Checked.pure_eq_ok.mp ht]
    have hk := typeText_written key hkey hwf.1
    have hv := typeText_written value hvalue hwf.2
    refine typeText_angle "map".toList (by decide) (Balanced.intercalate (by decide) trivial ?_)
    intro part hpart
    rcases List.mem_cons.mp hpart with heq | hpart
    · exact heq ▸ hk.balanced.mono fun _ _ => trivial
    · exact List.mem_singleton.mp hpart ▸ hv.balanced.mono fun _ _ => trivial
  | .map _ (.struct .nil) .., _, h, _ | .map _ (.struct (.cons _ _ _ .nil)) .., _, h, _
  | .map _ (.struct (.cons _ _ _ (.cons _ _ _ (.cons ..)))) .., _, h, _ | .map _ (.leaf _) .., _, h, _
  | .map _ (.dictionary ..) .., _, h, _ | .map _ (.list ..) .., _, h, _ | .map _ (.map ..) .., _, h, _ => nomatch h

theorem balanced_fieldTexts : ∀ (fields : Fields) {texts : List Text}, fieldTexts fields = .ok texts →
    fields.WellFormed → ∀ text ∈ texts, Balanced (· ≠ ',') text ∧ Trimmed text
  | .nil, texts, h, _ => by
    rw [← Except.ok.inj h]
    exact fun _ hm => nomatch hm
  | .cons name type _ rest, texts, h, hwf => by
    obtain ⟨typeName, htype, h⟩ := Checked.bind_eq_ok.mp h
    obtain ⟨others, hrest, ht⟩ := Checked.bind_eq_ok.mp h
    rw [← Checked.pure_eq_ok.mp ht]
    have hfirst := typeText_field hwf.1 (typeText_written type htype hwf.2.1)
    have hothers := balanced_fieldTexts rest hrest hwf.2.2
    intro text hm
    rcases List.mem_cons.mp hm with heq | hm
    · rw [heq]
      exact hfirst
    · exact hothers text hm

end

/-! ## Reading brackets -/

theorem isPrefixOf_lowercase (head : Text) (hhead : lowercase head = head) (t : Text) :
    head.isPrefixOf (lowercase (head ++ t)) = true := by
  rw [lowercase, List.map_append]
  rw [lowercase] at hhead
  rw [hhead]
  exact List.isPrefixOf_iff_prefix.mpr (List.prefix_append ..)

theorem isSuffixOf_close (head inner : Text) (c : Char) : [c].isSuffixOf (head ++ (inner ++ [c])) = true := by
  rw [← List.append_assoc]
  exact List.isSuffixOf_iff_suffix.mpr (List.suffix_append ..)

theorem slice_close (head inner : Text) (c : Char) :
    ((head ++ (inner ++ [c])).take ((head ++ (inner ++ [c])).length - 1)).drop head.length = inner := by
  rw [← List.append_assoc, List.length_append, List.length_singleton, Nat.add_sub_cancel, List.take_left,
    List.drop_left]

theorem listInner_list (inner : Text) : listInner ("list<".toList ++ (inner ++ ['>'])) = some inner := by
  unfold listInner
  dsimp only
  rw [if_pos (.inl (isPrefixOf_lowercase "list<".toList rfl (inner ++ ['>']))), if_pos (isSuffixOf_close ..)]
  exact congrArg some (slice_close "list<".toList inner '>')

theorem listInner_eq_none {head : Text} (inner : Text)
    (hlist : "list<".toList.isPrefixOf (lowercase (head ++ (inner ++ ['>']))) = false)
    (harray : "array<".toList.isPrefixOf (lowercase (head ++ (inner ++ ['>']))) = false) :
    listInner (head ++ (inner ++ ['>'])) = none := by
  have hsuffix : ¬ "[]".toList.isSuffixOf (head ++ (inner ++ ['>'])) = true := by
    intro h
    obtain ⟨u, hu⟩ := List.isSuffixOf_iff_suffix.mp h
    have hlast := congrArg List.getLast? hu
    simp at hlast
  unfold listInner stripSuffixOf
  dsimp only
  rw [hlist, harray, if_neg (by simp), if_neg hsuffix]

theorem splitTopLevel_intercalate {parts : List Text} {top : Char → Prop} (hne : parts ≠ []) (htop : ¬ top ',')
    (hparts : ∀ part ∈ parts, Balanced top part ∧ Trimmed part) :
    splitTopLevel ([','].intercalate parts) ',' = .ok parts := by
  have htrim : parts.map trimText = parts := by
    calc parts.map trimText = parts.map id := List.map_congr_left fun part hpart => (hparts part hpart).2.eq
      _ = parts := List.map_id parts
  unfold splitTopLevel
  rw [Brackets.splitParts_intercalate (by decide) htop hne fun part hpart => (hparts part hpart).1]
  dsimp only
  rw [htrim]

section Inner

variable {inner : Text → Except Text ArrowType}

theorem parseListType_list {text : Text} {type : ArrowType} (ht : Trimmed text) (h : inner text = .ok type) :
    parseListType inner ("list<".toList ++ (text ++ ['>'])) = .ok (some (.list .list "item".toList type true)) := by
  have hne : text.isEmpty = false := by
    obtain ⟨c, u, rfl, -⟩ := ht.start
    rfl
  unfold parseListType
  rw [listInner_list]
  dsimp only
  rw [ht.eq, hne, if_neg Bool.false_ne_true, h]
  rfl

theorem parseStructField_field {name text : Text} {type : ArrowType} (hname : IsFieldName name) (ht : TypeText text)
    (h : inner text = .ok type) : parseStructField inner (name ++ ':' :: text) = .ok (name, type) := by
  have hplain := fun c hc => isNameChar_plain (hname.chars c hc)
  have hsep : topLevelSeparator (name ++ ':' :: text) ':' = some name.length := by
    have hcolon : isBracket ':' = false := by decide
    have := Brackets.separatorFrom_append hcolon (fun c hc => ⟨(hplain c hc).1, (hplain c hc).2.2.1⟩) 0 text
    rwa [Nat.zero_add] at this
  have htrim := (trimmed_of_forall hname.nonempty fun c hc => (hplain c hc).2.2.2).eq
  have hdrop : (name ++ ':' :: text).drop (name.length + 1) = text := by
    rw [← List.drop_drop, List.drop_left]
    rfl
  have hne : ¬ (name.isEmpty = true ∨ text.isEmpty = true) := by
    obtain ⟨c, u, hcons, -⟩ := ht.trimmed.start
    obtain ⟨x, y, hname'⟩ := List.exists_cons_of_ne_nil hname.nonempty
    rw [hcons, hname']
    simp
  unfold parseStructField
  rw [hsep]
  dsimp only
  rw [List.take_left, hdrop, htrim, ht.trimmed.eq, if_neg hne, h]
  rfl

theorem parseStructType_struct {texts : List Text} {fields : List (Text × ArrowType)}
    (hparts : ∀ text ∈ texts, Balanced (· ≠ ',') text ∧ Trimmed text)
    (h : texts.mapM (parseStructField inner) = .ok fields) :
    parseStructType inner ("struct<".toList ++ ([','].intercalate texts ++ ['>'])) =
      .ok (some (.struct (nullableFields fields))) := by
  have hbody := slice_close "struct<".toList ([','].intercalate texts) '>'
  unfold parseStructType
  rw [if_neg (not_not_intro (isPrefixOf_lowercase "struct<".toList rfl _)),
    if_neg (not_not_intro (isSuffixOf_close ..))]
  dsimp only
  rw [show (7 : Nat) = "struct<".toList.length from rfl, hbody]
  cases texts with
  | nil =>
    rw [← Except.ok.inj h]
    rfl
  | cons first rest =>
    have hne : ([','].intercalate (first :: rest)).isEmpty = false := by
      obtain ⟨c, u, rfl, -⟩ := (hparts first (by simp)).2.start
      cases rest <;> rfl
    rw [hne, if_neg Bool.false_ne_true, splitTopLevel_intercalate (List.cons_ne_nil _ _) (fun hc => hc rfl) hparts]
    exact Checked.bind_eq_ok.mpr ⟨_, rfl, Checked.bind_eq_ok.mpr ⟨fields, h, rfl⟩⟩

theorem parseMapType_map {keyText valueText : Text} {key value : ArrowType} (hk : TypeText keyText)
    (hv : TypeText valueText) (hkey : inner keyText = .ok key) (hvalue : inner valueText = .ok value) :
    parseMapType inner ("map<".toList ++ ([','].intercalate [keyText, valueText] ++ ['>'])) =
      .ok (some (mapEntries key value true)) := by
  have hbody := slice_close "map<".toList ([','].intercalate [keyText, valueText]) '>'
  have hparts : ∀ part ∈ [keyText, valueText], Balanced isTop part ∧ Trimmed part := by
    intro part hpart
    rcases List.mem_cons.mp hpart with heq | hpart
    · exact heq ▸ ⟨hk.balanced, hk.trimmed⟩
    · exact List.mem_singleton.mp hpart ▸ ⟨hv.balanced, hv.trimmed⟩
  unfold parseMapType
  rw [if_neg (not_not_intro (isPrefixOf_lowercase "map<".toList rfl _)),
    if_neg (not_not_intro (isSuffixOf_close ..)), show (4 : Nat) = "map<".toList.length from rfl, hbody,
    splitTopLevel_intercalate (List.cons_ne_nil _ _) (fun hc => hc.1 rfl) hparts]
  exact Checked.bind_eq_ok.mpr
    ⟨_, rfl, Checked.bind_eq_ok.mpr ⟨key, hkey, Checked.bind_eq_ok.mpr ⟨value, hvalue, rfl⟩⟩⟩

end Inner

/-! ## Reading decimals -/

theorem parseU8_digits (n : UInt8) : parseU8 (digits n.toNat) = some n := by
  have hparse : Numeral.parseNat (digits n.toNat) = some n.toNat := Numeral.parseNat_toDigits _
  have hlt : n.toNat < 256 := n.toNat_lt
  unfold parseU8
  split
  · next t heq =>
    rw [heq, Numeral.parseNat_eq_none_of_mem (c := '+') (by simp) (by decide)] at hparse
    cases hparse
  · rw [hparse, Option.bind_some, if_pos hlt, UInt8.ofNat_toNat]

theorem parseI8_intText (n : Int8) : parseI8 (intText n.toInt) = some n := by
  have hlo : -128 ≤ n.toInt := n.le_toInt
  have hhi : n.toInt ≤ 127 := by
    have := n.toInt_lt
    omega
  unfold parseI8 Numeral.parseIntIn
  rw [parseInt_intText, Option.filter_some, if_pos (decide_eq_true ⟨hlo, hhi⟩), Option.map_some, Int8.ofInt_toInt]

theorem stripSuffixOf_close (t : Text) (c : Char) : stripSuffixOf [c] (t ++ [c]) = some t := by
  unfold stripSuffixOf
  rw [if_pos (List.isSuffixOf_iff_suffix.mpr (List.suffix_append ..)), List.length_append, Nat.add_sub_cancel,
    List.take_left]

theorem decimalParams_text (precision : UInt8) (scale : Int8) :
    decimalParams (decimalText precision scale) = some (decimalBody precision scale) := by
  have hplain : ∀ {c : Char}, isBracket c = true → c ∉ decimalBody precision scale := by
    intro c hc hm
    rw [decimalBody_plain hm] at hc
    cases hc
  obtain ⟨v, hv⟩ : ∃ v, v = decimalBody precision scale ++ [')'] := ⟨_, rfl⟩
  have hrest : decimalRest (lowercase ("decimal".toList ++ '(' :: v)) = some (lowercase ('(' :: v)) := rfl
  have hstart : trimStart (lowercase ('(' :: v)) = '(' :: lowercase v := rfl
  have hlen : ("decimal".toList ++ '(' :: v).length - ('(' :: lowercase v).length + 1 = 8 := by
    have hword : "decimal".toList.length = 7 := rfl
    rw [List.length_append, hword, List.length_cons, List.length_cons, lowercase, List.length_map]
    omega
  have hdrop : ("decimal".toList ++ '(' :: v).drop 8 = v := rfl
  rw [decimalText_eq, ← hv]
  unfold decimalParams
  rw [hrest]
  dsimp only [Option.bind_eq_bind, Option.bind_some]
  rw [hstart, hlen, hdrop, if_neg (by simp), hv, stripSuffixOf_close, Option.bind_some,
    if_neg (not_or.mpr ⟨hplain rfl, hplain rfl⟩)]

theorem trimText_space (ht : Trimmed t) : trimText (' ' :: t) = t := ht.eq

theorem splitOn_decimalBody (precision : UInt8) (scale : Int8) :
    ((decimalBody precision scale).splitOn ',').map trimText = [digits precision.toNat, intText scale.toInt] := by
  have hp : ',' ∉ digits precision.toNat := fun h => (digits_plain h).2.1 rfl
  have hs : ',' ∉ ' ' :: intText scale.toInt := by
    rw [List.mem_cons, not_or]
    exact ⟨by decide, fun h => (intText_plain h).2.1 rfl⟩
  have htp : Trimmed (digits precision.toNat) :=
    trimmed_of_forall Nat.toDigits_ne_nil fun c hc => (digits_plain hc).2.2
  have hts : Trimmed (intText scale.toInt) := by
    refine trimmed_of_forall ?_ fun c hc => (intText_plain hc).2.2
    unfold intText
    split
    · exact List.cons_ne_nil _ _
    · exact Nat.toDigits_ne_nil
  rw [decimalBody, List.splitOn_append_cons_self, List.splitOn_eq_singleton hp, List.splitOn_eq_singleton hs]
  show [trimText (digits precision.toNat), trimText (' ' :: intText scale.toInt)] = _
  rw [htp.eq, trimText_space hts]

theorem validate_ok (hwf : (Leaf.decimal128 precision scale).WellFormed) (t : Text) :
    validateDecimalPrecisionScale precision scale t = .ok () := by
  obtain ⟨hlo, hhi, hscale⟩ := hwf
  have hne : precision ≠ 0 := by
    intro h
    rw [h] at hlo
    exact absurd hlo (by decide)
  have hle : ¬ decimalMaxPrecision < precision := by
    rw [UInt8.lt_iff_toNat_lt]
    exact Nat.not_lt.mpr hhi
  unfold validateDecimalPrecisionScale
  rw [if_neg hne, if_neg hle, if_neg (by omega)]

theorem parseDecimal_text (hwf : (Leaf.decimal128 precision scale).WellFormed) :
    parseDecimal (decimalText precision scale) = .ok (some (.leaf (decimalDataType precision scale))) := by
  have htext : (Leaf.decimal128 precision scale).text = .ok (decimalText precision scale) := rfl
  have htrim := (typeText_leaf htext).trimmed.eq
  unfold parseDecimal
  dsimp only
  rw [htrim, decimalParams_text]
  dsimp only
  rw [splitOn_decimalBody]
  have hparts : decimalOf (decimalText precision scale) [digits precision.toNat, intText scale.toInt] =
      .ok (decimalDataType precision scale) := by
    refine Checked.bind_eq_ok.mpr ⟨precision, by rw [parseU8_digits]; rfl, ?_⟩
    refine Checked.bind_eq_ok.mpr ⟨scale, by rw [parseI8_intText]; rfl, ?_⟩
    exact Checked.bind_eq_ok.mpr ⟨(), validate_ok hwf _, rfl⟩
  rw [hparts]
  rfl

/-! ## Reading types -/

section Levels

variable {levels : Nat}

/-- A text that does not look like a decimal is tried as the other kinds of types. -/
theorem read_of_none {t : Text} (ht : Trimmed t) (hdecimal : decimalParams t = none) :
    ducklakeToArrowTypeInner (levels + 1) t =
      orElseRead (parseListType (ducklakeToArrowTypeInner levels) t)
        (orElseRead (parseStructType (ducklakeToArrowTypeInner levels) t)
          (orElseRead (parseMapType (ducklakeToArrowTypeInner levels) t) (basicType t t))) := by
  have hparse : parseDecimal t = .ok none := by
    unfold parseDecimal
    dsimp only
    rw [ht.eq, hdecimal]
  rw [ducklakeToArrowTypeInner, ht.eq, hparse]
  rfl

/-- A word that none of the nested forms takes, and its entry in the table of names. -/
def readsAs (entry : Text × Leaf) : Bool :=
  isWordOf entry.1 && (decimalParams entry.1).isNone && (listInner entry.1).isNone &&
    !"struct<".toList.isPrefixOf (lowercase entry.1) && !"map<".toList.isPrefixOf (lowercase entry.1) &&
    basicTypes.lookup (lowercase entry.1) == some entry.2

theorem read_word {t : Text} {leaf : Leaf} (h : readsAs (t, leaf) = true) :
    ducklakeToArrowTypeInner (levels + 1) t = .ok (.leaf leaf) := by
  simp only [readsAs, Bool.and_eq_true, Bool.not_eq_true', Option.isNone_iff_eq_none, beq_iff_eq] at h
  obtain ⟨⟨⟨⟨⟨hword, hdecimal⟩, hlist⟩, hstruct⟩, hmap⟩, hlookup⟩ := h
  have hlist' : parseListType (ducklakeToArrowTypeInner levels) t = .ok none := by rw [parseListType, hlist]
  have hstruct' : parseStructType (ducklakeToArrowTypeInner levels) t = .ok none := by
    rw [parseStructType, if_pos (by rw [hstruct]; decide)]
  have hmap' : parseMapType (ducklakeToArrowTypeInner levels) t = .ok none := by
    rw [parseMapType, if_pos (by rw [hmap]; decide)]
  rw [read_of_none (typeText_word hword).trimmed hdecimal, hlist', hstruct', hmap']
  show basicType t t = _
  rw [basicType, hlookup]

theorem read_leaf {leaf : Leaf} {t : Text} (h : leaf.text = .ok t) (hwf : leaf.WellFormed) :
    ducklakeToArrowTypeInner (levels + 1) t = .ok (.leaf leaf.normal) := by
  rcases leafText_cases h with ⟨precision, scale, hleaf, rfl⟩ | hmem
  · have hwf' : (Leaf.decimal128 precision scale).WellFormed := by
      rcases hleaf with rfl | rfl <;> exact hwf
    have hnormal : leaf.normal = decimalDataType precision scale := by
      rcases hleaf with rfl | rfl <;> rfl
    rw [ducklakeToArrowTypeInner, (typeText_leaf h).trimmed.eq, parseDecimal_text hwf', hnormal]
    rfl
  · have hread : leafNames.all readsAs = true := by decide +kernel
    exact read_word (List.all_eq_true.mp hread _ hmem)

mutual

/-- The text of a type is read as its normal form, with as many levels left as it has. -/
theorem read_text : ∀ (type : ArrowType) {t : Text}, arrowToDucklakeType type = .ok t → type.WellFormed →
    ∀ {levels : Nat}, type.depth ≤ levels → ducklakeToArrowTypeInner (levels + 1) t = .ok type.normal
  | .leaf leaf, t, h, hwf, levels, _ => read_leaf h hwf
  | .dictionary _ value, t, h, hwf, levels, hdepth => read_text value h hwf hdepth
  | .list _ _ element _, t, h, hwf, levels, hdepth => by
    have htext := typeText_written _ h hwf
    obtain ⟨inner, hinner, ht⟩ := Checked.bind_eq_ok.mp h
    obtain rfl := Checked.pure_eq_ok.mp ht
    obtain ⟨below, rfl⟩ : ∃ below, levels = below + 1 := ⟨levels - 1, by
      have : element.depth + 1 ≤ levels := hdepth
      omega⟩
    have hread := read_text element hinner hwf (Nat.le_of_succ_le_succ hdepth)
    have helement := typeText_written element hinner hwf
    rw [read_of_none htext.trimmed rfl, parseListType_list helement.trimmed hread]
    rfl
  | .struct fields, t, h, hwf, levels, hdepth => by
    have htext := typeText_written _ h hwf
    obtain ⟨texts, htexts, ht⟩ := Checked.bind_eq_ok.mp h
    obtain rfl := Checked.pure_eq_ok.mp ht
    obtain ⟨types, htypes, hnormal⟩ := read_fields fields htexts hwf hdepth
    have hlist : parseListType (ducklakeToArrowTypeInner levels)
      ("struct<".toList ++ ([','].intercalate texts ++ ['>'])) =
        .ok none := by
      rw [parseListType, listInner_eq_none _ rfl rfl]
    rw [read_of_none htext.trimmed rfl, hlist, parseStructType_struct (balanced_fieldTexts fields htexts hwf) htypes,
      hnormal]
    rfl
  | .map _ (.struct (.cons _ key _ (.cons _ value _ .nil))) _ _, t, h, hwf, levels, hdepth => by
    have htext := typeText_written _ h hwf
    obtain ⟨keyText, hkey, h⟩ := Checked.bind_eq_ok.mp h
    obtain ⟨valueText, hvalue, ht⟩ := Checked.bind_eq_ok.mp h
    obtain rfl := Checked.pure_eq_ok.mp ht
    obtain ⟨below, rfl⟩ : ∃ below, levels = below + 1 := ⟨levels - 1, by
      have : max key.depth value.depth + 1 ≤ levels := hdepth
      omega⟩
    have hmax : max key.depth value.depth ≤ below := Nat.le_of_succ_le_succ hdepth
    have hk := read_text key hkey hwf.1 (Nat.le_trans (Nat.le_max_left ..) hmax)
    have hv := read_text value hvalue hwf.2 (Nat.le_trans (Nat.le_max_right ..) hmax)
    obtain ⟨body, hbody⟩ : ∃ body, body = [','].intercalate [keyText, valueText] := ⟨_, rfl⟩
    have hmap := parseMapType_map (typeText_written key hkey hwf.1)
      (typeText_written value hvalue hwf.2) hk hv
    rw [← hbody] at htext hmap ⊢
    have hlist : parseListType (ducklakeToArrowTypeInner (below + 1)) ("map<".toList ++ (body ++ ['>'])) =
        .ok none := by
      rw [parseListType, listInner_eq_none _ rfl rfl]
    have hstruct : parseStructType (ducklakeToArrowTypeInner (below + 1))
      ("map<".toList ++ (body ++ ['>'])) = .ok none :=
      if_pos Bool.false_ne_true
    rw [read_of_none htext.trimmed rfl, hlist, hstruct, hmap]
    rfl
  | .map _ (.struct .nil) .., _, h, _, _, _ | .map _ (.struct (.cons _ _ _ .nil)) .., _, h, _, _, _
  | .map _ (.struct (.cons _ _ _ (.cons _ _ _ (.cons ..)))) .., _, h, _, _, _
  | .map _ (.leaf _) .., _, h, _, _, _ | .map _ (.dictionary ..) .., _, h, _, _, _
  | .map _ (.list ..) .., _, h, _, _, _ | .map _ (.map ..) .., _, h, _, _, _ => nomatch h

theorem read_fields : ∀ (fields : Fields) {texts : List Text}, fieldTexts fields = .ok texts → fields.WellFormed →
    ∀ {levels : Nat}, fields.depth ≤ levels →
      ∃ types, texts.mapM (parseStructField (ducklakeToArrowTypeInner levels)) = .ok types ∧
        nullableFields types = fields.normal
  | .nil, texts, h, _, levels, _ => by
    rw [← Except.ok.inj h]
    exact ⟨[], rfl, rfl⟩
  | .cons name type _ rest, texts, h, hwf, levels, hdepth => by
    obtain ⟨typeName, htype, h⟩ := Checked.bind_eq_ok.mp h
    obtain ⟨others, hrest, ht⟩ := Checked.bind_eq_ok.mp h
    obtain rfl := Checked.pure_eq_ok.mp ht
    have hmax : max (type.depth + 1) rest.depth ≤ levels := hdepth
    obtain ⟨below, rfl⟩ : ∃ below, levels = below + 1 := ⟨levels - 1, by omega⟩
    have hbelow : type.depth ≤ below := by omega
    have hread := read_text type htype hwf.2.1 hbelow
    obtain ⟨types, htypes, hnormal⟩ := read_fields rest hrest hwf.2.2 (Nat.le_trans (Nat.le_max_right ..) hmax)
    have hfield := parseStructField_field hwf.1 (typeText_written type htype hwf.2.1) hread
    refine ⟨(name, type.normal) :: types, ?_, ?_⟩
    · rw [List.mapM_cons]
      exact Checked.bind_eq_ok.mpr ⟨_, hfield, Checked.bind_eq_ok.mpr ⟨types, htypes, rfl⟩⟩
    · rw [nullableFields, hnormal, Fields.normal]

end

end Levels

/-! ## The normal form -/

theorem leafText_normal (h : leaf.text = .ok t) : leaf.normal.text = .ok t := by
  rcases leafText_cases h with ⟨precision, scale, hleaf, rfl⟩ | hmem
  · have hnormal : leaf.normal = if 38 < precision then .decimal256 precision scale
      else .decimal128 precision scale := by
      rcases hleaf with rfl | rfl <;> rfl
    rw [hnormal]
    split <;> rfl
  · have hsame : leafNames.all (fun entry => entry.2.text.toOption == some entry.1) = true := by decide +kernel
    have hok := List.all_eq_true.mp hsame _ hmem
    cases htext : leaf.normal.text with
    | ok u =>
      rw [htext] at hok
      rw [show u = t by simpa [Except.toOption] using hok]
    | error e =>
      rw [htext] at hok
      cases hok

mutual

/-- The normal form of a type has the type's text. -/
theorem text_normal : ∀ (type : ArrowType) {t : Text}, arrowToDucklakeType type = .ok t →
    arrowToDucklakeType type.normal = .ok t
  | .leaf leaf, t, h => leafText_normal h
  | .dictionary _ value, t, h => text_normal value h
  | .list _ _ element _, t, h => by
    obtain ⟨inner, hinner, ht⟩ := Checked.bind_eq_ok.mp h
    exact Checked.bind_eq_ok.mpr ⟨inner, text_normal element hinner, ht⟩
  | .struct fields, t, h => by
    obtain ⟨texts, htexts, ht⟩ := Checked.bind_eq_ok.mp h
    exact Checked.bind_eq_ok.mpr ⟨texts, fieldTexts_normal fields htexts, ht⟩
  | .map _ (.struct (.cons _ key _ (.cons _ value _ .nil))) _ _, t, h => by
    obtain ⟨keyText, hkey, h⟩ := Checked.bind_eq_ok.mp h
    obtain ⟨valueText, hvalue, ht⟩ := Checked.bind_eq_ok.mp h
    exact Checked.bind_eq_ok.mpr
      ⟨keyText, text_normal key hkey, Checked.bind_eq_ok.mpr ⟨valueText, text_normal value hvalue, ht⟩⟩
  | .map _ (.struct .nil) .., _, h | .map _ (.struct (.cons _ _ _ .nil)) .., _, h
  | .map _ (.struct (.cons _ _ _ (.cons _ _ _ (.cons ..)))) .., _, h | .map _ (.leaf _) .., _, h
  | .map _ (.dictionary ..) .., _, h | .map _ (.list ..) .., _, h | .map _ (.map ..) .., _, h => nomatch h

theorem fieldTexts_normal : ∀ (fields : Fields) {texts : List Text}, fieldTexts fields = .ok texts →
    fieldTexts fields.normal = .ok texts
  | .nil, texts, h => h
  | .cons _ type _ rest, texts, h => by
    obtain ⟨typeName, htype, h⟩ := Checked.bind_eq_ok.mp h
    obtain ⟨others, hrest, ht⟩ := Checked.bind_eq_ok.mp h
    exact Checked.bind_eq_ok.mpr
      ⟨typeName, text_normal type htype, Checked.bind_eq_ok.mpr ⟨others, fieldTexts_normal rest hrest, ht⟩⟩

end

/-- A type that is written within the depth limit is read back in its normal form, and
    the normal form is written and read as itself. -/
theorem type_text_round_trip (type : ArrowType) (t : Text) (haccepted : arrowToDucklakeType type = .ok t)
    (hwf : type.WellFormed) (hdepth : type.depth ≤ maxNestedTypeDepth) :
    ducklakeToArrowType t = .ok type.normal ∧
      ∃ again, arrowToDucklakeType type.normal = .ok again ∧ ducklakeToArrowType again = .ok type.normal := by
  have hread := read_text type haccepted hwf hdepth
  exact ⟨hread, t, text_normal type haccepted, hread⟩

/-- A map from dictionary keys to lists of structs with a wide decimal and a zoned time. -/
def sampleType : ArrowType :=
  .map "entries".toList (.struct (.cons "key".toList (.dictionary .int32 (.leaf (.string .utf8))) false
    (.cons "value".toList (.list .largeList "element".toList (.struct
      (.cons "a_1".toList (.leaf (.decimal128 40 (-3))) false
        (.cons "b".toList (.leaf (.timestamp .millisecond (some "Europe/Berlin".toList))) true .nil))) false)
        true .nil)))
    false true

theorem sampleType_round_trip :
    arrowToDucklakeType sampleType = .ok "map<varchar,list<struct<a_1:decimal(40, -3),b:timestamptz>>>".toList ∧
      ducklakeToArrowType "map<varchar,list<struct<a_1:decimal(40, -3),b:timestamptz>>>".toList =
        .ok sampleType.normal := by
  have haccepted : arrowToDucklakeType sampleType =
      .ok "map<varchar,list<struct<a_1:decimal(40, -3),b:timestamptz>>>".toList := by rfl
  have hname : ∀ name : Text, name ≠ [] → name.all isNameChar = true → IsFieldName name := fun name hne hall =>
    ⟨hne, List.all_eq_true.mp hall⟩
  have hwf : sampleType.WellFormed :=
    ⟨trivial, hname _ (by decide) (by decide), ⟨by decide, by decide, by decide⟩, hname _ (by decide) (by decide),
      trivial, trivial⟩
  exact ⟨haccepted, (type_text_round_trip sampleType _ haccepted hwf (by decide)).1⟩

end DuckLake.Types
