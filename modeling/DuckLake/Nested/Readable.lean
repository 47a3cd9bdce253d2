import DuckLake.Nested.RoundTrip

/- When a nested value comes back from its text as it was.

   What the reader makes of a value has one row at most (`readBack_length`), so a list, a
   struct or a map is rebuilt exactly where each value below is (`flatten_eq_iff`). Three
   things get in the way: a bare key of a map that spells NULL, a struct without fields,
   and a fixed-size list of size zero. -/

namespace DuckLake.Nested

open Scan

/-! ## The values that come back -/

mutual

/-- No string key of a map is the word NULL, and below no NULL there is neither a struct
without fields nor a fixed-size list of size zero. -/
def readable : ArrowType → Bool → Value → Bool
  | .scalar _, mapKey, v =>
    match v with
    | .leaf (.string _ s) => !(mapKey && isNullWord s)
    | _ => true
  | .list kind element, _, v =>
    match v with
    | .list items => kind != .fixedSizeList 0 && items.all (readable element false)
    | _ => true
  | .struct fields, _, v =>
    match v with
    | .struct values => fields.length != 0 && readableFields fields values
    | _ => true
  | .map key value, _, v =>
    match v with
    | .map entries => entries.all fun e => readable key true e.1 && readable value false e.2
    | _ => true

def readableFields : Fields → List Value → Bool
  | .cons _ type rest, v :: values => readable type false v && readableFields rest values
  | _, _ => true

end

theorem buildListScalar_length {kind : ListKind} {values : List Rows} {rows : Rows}
    (h : buildListScalar kind values = some rows) : rows.length ≤ 1 := by
  unfold buildListScalar at h
  split at h <;> repeat' split at h
  all_goals cases h
  all_goals simp

theorem buildStructScalar_length {values : List Rows} {rows : Rows} (h : buildStructScalar values = some rows) :
    rows.length ≤ 1 := by
  unfold buildStructScalar at h
  repeat' split at h
  all_goals cases h
  all_goals simp

theorem buildMapScalar_length {entries : List (Rows × Rows)} {rows : Rows} (h : buildMapScalar entries = some rows) :
    rows.length ≤ 1 := by
  unfold buildMapScalar at h
  dsimp only at h
  repeat' split at h
  all_goals cases h
  all_goals simp

theorem readBack_length {type : ArrowType} {mapKey : Bool} {v : Value} {rows : Rows}
    (h : readBack type mapKey v = some rows) : rows.length ≤ 1 := by
  cases type with
  | scalar type =>
    unfold readBack at h
    split at h <;> cases h <;> simp
  | list kind element =>
    unfold readBack at h
    split at h
    · obtain ⟨values, -, h⟩ := Option.bind_eq_some_iff.mp h
      exact buildListScalar_length h
    · cases h
      simp
  | struct fields =>
    unfold readBack at h
    split at h
    · obtain ⟨values, -, h⟩ := Option.bind_eq_some_iff.mp h
      exact buildStructScalar_length h
    · cases h
      simp
  | map key value =>
    unfold readBack at h
    split at h
    · obtain ⟨values, -, h⟩ := Option.bind_eq_some_iff.mp h
      exact buildMapScalar_length h
    · cases h
      simp

section Build
variable {values : List Rows} {items : List Value}

theorem buildListScalar_iff {kind : ListKind} (hle : ∀ r ∈ values, r.length ≤ 1) (hlen : values.length = items.length)
    (hkind : kind.holds items.length = true) :
    buildListScalar kind values = some [.list items] ↔ kind ≠ .fixedSizeList 0 ∧ values = items.map ([·]) := by
  have hflat := Lists.flatten_eq_iff hle hlen
  constructor
  · intro h
    unfold buildListScalar at h
    split at h
    · split at h
      · cases h
        exact ⟨by simp, hflat.mp rfl⟩
      · cases h
    · cases h
      exact ⟨by simp, hflat.mp rfl⟩
    · next size =>
      split at h
      · cases h
      split at h
      · cases h
      next hne =>
      split at h
      · next hsize =>
        cases h
        refine ⟨?_, hflat.mp rfl⟩
        rintro ⟨⟩
        exact hne (List.length_eq_zero_iff.mp hsize)
      · cases h
  · rintro ⟨hsize, rfl⟩
    unfold buildListScalar
    rw [Lists.flatten_map_singleton]
    cases kind with
    | list => exact if_pos (of_decide_eq_true hkind)
    | largeList => rfl
    | fixedSizeList size =>
      have hlength : items.length = size := beq_iff_eq.mp hkind
      have hne : items ≠ [] := by
        rintro rfl
        exact hsize (by rw [← hlength]; rfl)
      simp [hlength, hne]

theorem buildStructScalar_iff (hle : ∀ r ∈ values, r.length ≤ 1) (hlen : values.length = items.length) :
    buildStructScalar values = some [.struct items] ↔ values ≠ [] ∧ values = items.map ([·]) := by
  have hflat := Lists.flatten_eq_iff hle hlen
  constructor
  · intro h
    unfold buildStructScalar at h
    split at h
    · cases h
    next hne =>
    split at h
    · cases h
      exact ⟨hne, hflat.mp rfl⟩
    split at h
    · cases h
    · cases h
  · rintro ⟨hne, rfl⟩
    unfold buildStructScalar
    rw [if_neg hne, Lists.flatten_map_singleton, if_pos]
    simp

theorem buildMapScalar_iff {rows : List (Rows × Rows)} {entries : List (Value × Value)}
    (hle : ∀ r ∈ rows, r.1.length ≤ 1 ∧ r.2.length ≤ 1) (hlen : rows.length = entries.length)
    (hoffset : entries.length ≤ maxOffset) (hkeys : ∀ e ∈ entries, e.1.isNull = false) :
    buildMapScalar rows = some [.map entries] ↔ rows = entries.map fun e => ([e.1], [e.2]) := by
  have hkeysLe : ∀ r ∈ rows.map (·.1), r.length ≤ 1 := by
    intro r hr
    obtain ⟨x, hx, rfl⟩ := List.mem_map.mp hr
    exact (hle x hx).1
  have hvaluesLe : ∀ r ∈ rows.map (·.2), r.length ≤ 1 := by
    intro r hr
    obtain ⟨x, hx, rfl⟩ := List.mem_map.mp hr
    exact (hle x hx).2
  constructor
  · intro h
    unfold buildMapScalar at h
    dsimp only at h
    split at h
    · cases h
    split at h
    · next hsame =>
      have hzip : (rows.map (·.1)).flatten.zip (rows.map (·.2)).flatten = entries := by simpa using h
      have hfst : (rows.map (·.1)).flatten = entries.map (·.1) := by
        rw [← hzip, List.map_fst_zip (Nat.le_of_eq hsame)]
      have hsnd : (rows.map (·.2)).flatten = entries.map (·.2) := by
        rw [← hzip, List.map_snd_zip (Nat.le_of_eq hsame.symm)]
      have hfst' := (Lists.flatten_eq_iff hkeysLe (by simpa using hlen)).mp hfst
      have hsnd' := (Lists.flatten_eq_iff hvaluesLe (by simpa using hlen)).mp hsnd
      calc rows = (rows.map (·.1)).zip (rows.map (·.2)) := List.zip_of_prod rfl rfl
        _ = ((entries.map (·.1)).map ([·])).zip ((entries.map (·.2)).map ([·])) := by rw [hfst', hsnd']
        _ = entries.map fun e => ([e.1], [e.2]) :=
          (List.zip_of_prod (by simp) (by simp)).symm
    · cases h
  · rintro rfl
    have hfst : (entries.map fun e => ([e.1], [e.2])).map (·.1) = (entries.map (·.1)).map ([·]) := by
      simp only [List.map_map, Function.comp_def]
    have hsnd : (entries.map fun e => ([e.1], [e.2])).map (·.2) = (entries.map (·.2)).map ([·]) := by
      simp only [List.map_map, Function.comp_def]
    have hnull : ((entries.map (·.1)).map ([·])).any Rows.isNull = false := by
      simpa [Rows.isNull] using hkeys
    unfold buildMapScalar
    dsimp only
    rw [hfst, hsnd, hnull, Lists.flatten_map_singleton, Lists.flatten_map_singleton, if_neg, if_pos,
      ← List.zip_of_prod rfl rfl]
    · rw [List.length_map, List.length_map]
    · rw [List.length_map, not_or, gt_iff_lt, Nat.not_lt]
      exact ⟨Bool.false_ne_true, hoffset⟩

end Build

/-! ## The values that come back -/

theorem readEntry_iff {key value : ArrowType} {e : Value × Value} (hnull : e.1.isNull = false) :
    readEntry key value e = some ([e.1], [e.2]) ↔
      readBack key true e.1 = some [e.1] ∧ readBack value false e.2 = some [e.2] := by
  unfold readEntry
  constructor
  · intro h
    obtain ⟨k, hk, h⟩ := Option.bind_eq_some_iff.mp h
    split at h
    · cases h
    · obtain ⟨w, hw, heq⟩ := Option.map_eq_some_iff.mp h
      cases heq
      exact ⟨hk, hw⟩
  · rintro ⟨hk, hw⟩
    rw [hk, Option.bind_some, if_neg, hw, Option.map_some]
    simp [Rows.isNull, hnull]

theorem readEntry_length {key value : ArrowType} {e : Value × Value} {r : Rows × Rows}
    (h : readEntry key value e = some r) : r.1.length ≤ 1 ∧ r.2.length ≤ 1 := by
  obtain ⟨k, hk, h⟩ := Option.bind_eq_some_iff.mp h
  split at h
  · cases h
  · obtain ⟨w, hw, rfl⟩ := Option.map_eq_some_iff.mp h
    exact ⟨readBack_length hk, readBack_length hw⟩

theorem readFields_length : ∀ {fields : Fields} {values : List Value} {rows : List Rows},
    readFields fields values = some rows → ∀ r ∈ rows, r.length ≤ 1
  | .nil, values, rows, h => by
    cases values <;> cases h <;> simp
  | .cons name type rest, [], rows, h => by
    cases h
    simp
  | .cons name type rest, v :: values, rows, h => by
    rw [readFields, Option.bind_eq_some_iff] at h
    obtain ⟨r, hr, h⟩ := h
    obtain ⟨rows', hrows, rfl⟩ := Option.map_eq_some_iff.mp h
    exact List.forall_mem_cons.mpr ⟨readBack_length hr, readFields_length hrows⟩

theorem fieldsHaveType_length : ∀ {fields : Fields} {values : List Value}, fieldsHaveType fields values = true →
    values.length = fields.length
  | .nil, [], _ => rfl
  | .nil, _ :: _, h => nomatch h
  | .cons _ _ _, [], h => nomatch h
  | .cons name type rest, v :: values, h => by
    rw [fieldsHaveType, Bool.and_eq_true] at h
    rw [List.length_cons, fieldsHaveType_length h.2, Fields.length]

mutual

/-- The reader makes of a value the value itself exactly where the value is readable. -/
theorem readBack_iff : ∀ (type : ArrowType) (mapKey : Bool) (v : Value), hasType type v = true →
    (readBack type mapKey v = some [v] ↔ readable type mapKey v = true)
  | .scalar type, mapKey, v, htype => by
    cases v with
    | leaf s =>
      cases s with
      | string kind t =>
        simp only [readBack, readable]
        cases mapKey && isNullWord t <;> simp
      | _ => simp [readBack, readable]
    | _ => simp [readBack, readable]
  | .list kind element, mapKey, v, htype => by
    cases v with
    | list items =>
      simp only [hasType, Bool.and_eq_true, List.all_eq_true] at htype
      have hitems : items.mapM (readBack element false) = some (items.map ([·])) ↔
          ∀ x ∈ items, readable element false x = true := by
        rw [Lists.mapM_eq_some_map]
        exact forall₂_congr fun x hx => readBack_iff element false x (htype.2 x hx)
      have hread : readBack (.list kind element) mapKey (.list items) =
          (items.mapM (readBack element false)).bind (buildListScalar kind) := rfl
      have hgoal : readable (.list kind element) mapKey (.list items) = true ↔
          kind ≠ .fixedSizeList 0 ∧ ∀ x ∈ items, readable element false x = true := by
        simp [readable]
      rw [hread, hgoal, ← hitems]
      cases hvalues : items.mapM (readBack element false) with
      | none => simp
      | some values =>
        rw [Option.bind_some, buildListScalar_iff (Lists.mapM_forall (fun _ _ => readBack_length) hvalues)
          (Lists.mapM_forall₂ hvalues).length_eq.symm htype.1, Option.some.injEq]
    | _ => simp [readBack, readable]
  | .struct fields, mapKey, v, htype => by
    cases v with
    | struct values =>
      simp only [hasType, Bool.and_eq_true] at htype
      have hfields := readFields_iff fields values htype.2
      have hread : readBack (.struct fields) mapKey (.struct values) =
          (readFields fields values).bind buildStructScalar := rfl
      have hgoal : readable (.struct fields) mapKey (.struct values) = true ↔
          fields.length ≠ 0 ∧ readableFields fields values = true := by
        simp [readable]
      rw [hread, hgoal, ← hfields]
      cases hrows : readFields fields values with
      | none => simp
      | some rows =>
        have hlength := length_readFields fields values rows htype.2 hrows
        have hvalues := fieldsHaveType_length htype.2
        rw [Option.bind_some, buildStructScalar_iff (readFields_length hrows) (hlength.trans hvalues.symm),
          Option.some.injEq, ← hlength, ne_eq, ne_eq, List.length_eq_zero_iff]
    | _ => simp [readBack, readable]
  | .map key value, mapKey, v, htype => by
    cases v with
    | map entries =>
      simp only [hasType, Bool.and_eq_true, List.all_eq_true, decide_eq_true_eq, Bool.not_eq_true'] at htype
      have hentries : entries.mapM (readEntry key value) = some (entries.map fun e => ([e.1], [e.2])) ↔
          ∀ e ∈ entries, readable key true e.1 = true ∧ readable value false e.2 = true := by
        rw [Lists.mapM_eq_some_map]
        refine forall₂_congr fun e he => ?_
        obtain ⟨⟨hnull, hkey⟩, hvalue⟩ := htype.2 e he
        rw [readEntry_iff hnull, readBack_iff key true e.1 hkey, readBack_iff value false e.2 hvalue]
      have hread : readBack (.map key value) mapKey (.map entries) =
          (entries.mapM (readEntry key value)).bind buildMapScalar := rfl
      have hgoal : readable (.map key value) mapKey (.map entries) = true ↔
          ∀ e ∈ entries, readable key true e.1 = true ∧ readable value false e.2 = true := by
        simp [readable]
      rw [hread, hgoal, ← hentries]
      cases hrows : entries.mapM (readEntry key value) with
      | none => simp
      | some rows =>
        rw [Option.bind_some, buildMapScalar_iff (Lists.mapM_forall (fun _ _ => readEntry_length) hrows)
          (Lists.mapM_forall₂ hrows).length_eq.symm htype.1 (fun e he => (htype.2 e he).1.1), Option.some.injEq]
    | _ => simp [readBack, readable]

theorem readFields_iff : ∀ (fields : Fields) (values : List Value), fieldsHaveType fields values = true →
    (readFields fields values = some (values.map ([·])) ↔ readableFields fields values = true)
  | .nil, [], _ => by simp [readFields, readableFields]
  | .nil, _ :: _, h => by cases h
  | .cons _ _ _, [], h => by cases h
  | .cons name type rest, v :: values, h => by
    rw [fieldsHaveType, Bool.and_eq_true] at h
    rw [readableFields, Bool.and_eq_true, ← readBack_iff type false v h.1, ← readFields_iff rest values h.2, readFields]
    cases hv : readBack type false v with
    | none => simp
    | some r => cases hrest : readFields rest values <;> simp

end

/-- Reading the whole text of a value is `readBack`. -/
theorem parseText_renderText {arrow : ArrowText} (harrow : arrow.Lawful) {type : ArrowType} {v : Value} {text : Text}
    (htype : hasType type v = true) (hrender : renderText arrow type v = some text) :
    parseText arrow text type = readBack type false v := by
  have hparse := readsBack harrow type v 0 false text [] [] htype hrender (List.nil_subset _) (fun h => nomatch h)
    (follows_nil _)
  rw [List.append_nil] at hparse
  rw [parseText, hparse]
  cases readBack type false v <;> rfl

/-- The text written for a value of a type, parsed at that type, gives the value back
exactly where no string key of a map is the word NULL in any letter case, no struct
below a NULL-free path has no fields and no fixed-size list there has size zero. -/
theorem nested_round_trip_iff (arrow : ArrowText) (harrow : arrow.Lawful) (type : ArrowType) (v : Value) (text : Text)
    (htype : hasType type v = true) (hrender : renderText arrow type v = some text) :
    parseText arrow text type = some [v] ↔ readable type false v = true := by
  rw [parseText_renderText harrow htype hrender, readBack_iff type false v htype]

/-! ## A parser of leaves -/

/-- The text of a number, date, time or timestamp. -/
def leafSpelling : ScalarValue → Option Text
  | .boolean b => some (encodeBool b)
  | .integer _ n => some (intText n)
  | .decimal128 v _ scale => some (encodeDecimal128 v scale)
  | v => duckdbTemporalText v

/-- The value of the type with the text, where there is one. -/
noncomputable def leafWithText (type : DataType) (text : Text) : Option ScalarValue := by
  classical
  exact if h : ∃ v : ScalarValue, v.dataType = type ∧ v.isNull = false ∧ leafSpelling v = some text then some h.choose
    else none

theorem leafSpelling_injective {v w : ScalarValue} {text : Text} (htype : v.dataType = w.dataType)
    (hnumber : isNumberOrTemporal v.dataType = true) (hv : v.isNull = false) (hw : w.isNull = false)
    (htv : leafSpelling v = some text) (htw : leafSpelling w = some text) : v = w := by
  by_cases htime : ∃ unit, v.dataType = .time unit
  · obtain ⟨unit, hunit⟩ := htime
    rw [hunit] at htype
    cases v with
    | null _ => cases hv
    | time unit a =>
      cases w with
      | null _ => cases hw
      | time unit' b =>
        cases hunit
        cases htype
        rw [encodeTime_injective htv htw]
      | _ => cases htype
    | _ => cases hunit
  · have hencode : ∀ u : ScalarValue, u.dataType = v.dataType → u.isNull = false →
        encodeScalar ⟨fun _ => none, fun _ => none⟩ u = leafSpelling u := by
      intro u hu hnull
      rw [← hu] at hnumber htime
      cases u with
      | null _ => cases hnull
      | time unit _ => exact absurd ⟨unit, rfl⟩ htime
      | integer _ _ | decimal128 _ _ _ | date32 _ | timestamp _ _ _ => rfl
      | _ => cases hnumber
    have hfloat : v.dataType.isFloat = false := by
      revert hnumber
      cases v.dataType <;> simp [isNumberOrTemporal, DataType.isFloat]
    exact encodeScalar_injective htype hfloat ((hencode v rfl hv).trans htv) ((hencode w htype.symm hw).trans htw)

theorem encodeDecimal128_chars {v scale : Int} {c : Char} (h : c ∈ encodeDecimal128 v scale) :
    c.isDigit = true ∨ c = '-' ∨ c = '.' := by
  have hdigits : ∀ c ∈ digits v.natAbs, c.isDigit = true := List.all_eq_true.mp (Numeral.all_isDigit_toDigits _)
  have hint : ∀ {c}, c ∈ intText v → c.isDigit = true ∨ c = '-' := by
    intro c hc
    unfold intText at hc
    split at hc
    · rcases List.mem_cons.mp hc with rfl | hc
      · exact .inr rfl
      · exact .inl (hdigits c hc)
    · exact .inl (hdigits c hc)
  have hbody : ∀ n : Nat, ∀ c ∈ (if n < (digits v.natAbs).length then
      (digits v.natAbs).take ((digits v.natAbs).length - n) ++
        '.' :: (digits v.natAbs).drop ((digits v.natAbs).length - n)
      else "0.".toList ++ (List.replicate (n - (digits v.natAbs).length) '0' ++ digits v.natAbs)),
      c.isDigit = true ∨ c = '-' ∨ c = '.' := by
    intro n c hc
    split at hc
    · rcases List.mem_append.mp hc with hc | hc
      · exact .inl (hdigits c (List.mem_of_mem_take hc))
      · rcases List.mem_cons.mp hc with rfl | hc
        · exact .inr (.inr rfl)
        · exact .inl (hdigits c (List.mem_of_mem_drop hc))
    · rcases List.mem_append.mp hc with hc | hc
      · have hall : ("0.".toList.all fun c => decide (c.isDigit = true ∨ c = '-' ∨ c = '.')) = true := by decide
        exact of_decide_eq_true (List.all_eq_true.mp hall c hc)
      · rcases List.mem_append.mp hc with hc | hc
        · rw [List.eq_of_mem_replicate hc]
          exact .inl rfl
        · exact .inl (hdigits c hc)
  unfold encodeDecimal128 at h
  split at h
  · exact (hint h).imp_right .inl
  · dsimp only at h
    split at h
    · rcases List.mem_cons.mp h with rfl | h
      · exact .inr (.inl rfl)
      · exact hbody _ c h
    · exact hbody _ c h

theorem encodeDecimal128_ne_nil (v scale : Int) : encodeDecimal128 v scale ≠ [] := by
  by_cases hscale : scale ≤ 0
  · rw [encodeDecimal128, if_pos hscale]
    exact intText_ne_nil v
  · exact List.ne_nil_of_mem (point_mem_encodeDecimal128 v (Int.not_le.mp hscale))

/-- Arrow's display, and a parser that finds the value of a text. -/
noncomputable def spellingText : ArrowText where
  display := leafSpelling
  parse := leafWithText

theorem spellingText_lawful : spellingText.Lawful where
  boolean := fun _ => rfl
  integer := fun _ _ _ => rfl
  decimal := by
    intro v precision scale text h
    obtain rfl : encodeDecimal128 v scale = text := Option.some.inj h
    exact ⟨encodeDecimal128_ne_nil v scale, fun c hc => encodeDecimal128_chars hc⟩
  parses := by
    intro v text hnumber hnull _ h
    have hspelling : leafSpelling v = some text := by
      cases v with
      | string _ _ | binary _ _ => cases hnumber
      | _ => exact h
    have hex : ∃ w : ScalarValue, w.dataType = v.dataType ∧ w.isNull = false ∧ leafSpelling w = some text :=
      ⟨v, rfl, hnull, hspelling⟩
    obtain ⟨htype, hnull', htext⟩ := hex.choose_spec
    have hchoose : leafWithText v.dataType text = some hex.choose := dif_pos hex
    rw [← leafSpelling_injective htype.symm hnumber hnull hnull' hspelling htext] at hchoose
    exact hchoose

/-! ## A key that spells NULL -/

/-- Texts to numbers. -/
def countsType : ArrowType := .map (.scalar (.string .utf8)) (.scalar (.integer .int32))

/-- The key is the text `Null`. -/
def nullKeyed : Value := .map [(.leaf (.string .utf8 "Null".toList), .leaf (.integer .int32 1))]

/-- The bare key is read as NULL, and the text refused. -/
theorem nullKeyed_lost :
    hasType countsType nullKeyed = true ∧
    renderText spellingText countsType nullKeyed = some "\x7bNull=1\x7d".toList ∧
    parseText spellingText "\x7bNull=1\x7d".toList countsType = none := by
  have htype : hasType countsType nullKeyed = true := by decide
  have hrender : renderText spellingText countsType nullKeyed = some "\x7bNull=1\x7d".toList := by rfl
  refine ⟨htype, hrender, ?_⟩
  rw [parseText_renderText spellingText_lawful htype hrender]
  rfl

/-- The same with `Nullable` for a key, a text with a quote for one, and NULL for a value. -/
def wordKeyed : Value :=
  .map [(.leaf (.string .utf8 "Nullable".toList), .null),
    (.leaf (.string .utf8 "it's".toList), .leaf (.integer .int32 (-1)))]

theorem wordKeyed_read :
    renderText spellingText countsType wordKeyed = some "\x7bNullable=NULL, 'it\\'s'=-1\x7d".toList ∧
    parseText spellingText "\x7bNullable=NULL, 'it\\'s'=-1\x7d".toList countsType = some [wordKeyed] := by
  have hrender : renderText spellingText countsType wordKeyed =
      some "\x7bNullable=NULL, 'it\\'s'=-1\x7d".toList := by rfl
  exact ⟨hrender, (nested_round_trip_iff spellingText spellingText_lawful countsType wordKeyed _ (by decide)
    hrender).mpr (by decide)⟩

end DuckLake.Nested
