import DuckLake.Changes.Detection
import DuckLake.Lib.Checked
import DuckLake.Lib.Quoted
import DuckLake.Lib.Split
import DuckLake.Nested.Text
import DuckLake.Stats.Spelling

/- The text of the change ledger: how writers put the changes of a snapshot together, and
   how each reader takes them apart.

   Correspondence (Rust ↔ Lean):
     `quote_snapshot_name`, `quote_snapshot_table` ↔ `quoteSnapshotName`, `quoteSnapshotTable`
     `record_snapshot_changes`                     ↔ `recordSnapshotChanges`
     `snapshot_change_tokens`                      ↔ `snapshotChangeTokens`
     `inlined_inserts`                             ↔ `inlinedInserts`
     `snapshot_has_change`                         ↔ `snapshotHasChange`
     the kinds `table_conflict` collects           ↔ `conflictKinds`
     `changes_name_table`                          ↔ `changesNameTable`
     the tokens `TableDataChanges::record` parses  ↔ `ledgerTokens`
     `snapshot_changes`, one row                   ↔ `snapshotChanges`

   All readers but `inlined_inserts` split outside quotes, and read every list of changes
   back whatever names it holds. `inlined_inserts` splits at every comma: it counts too
   many exactly when a name has `,inlined_insert:` in it. -/

namespace DuckLake.Ledger

open Metadata (ChangeKind)
open Nested (trimText isUnicodeSpace isUnicodeSpace_digit Trimmed trimmed_of_forall)
open Quoted Split

/-! ## Writing -/

/-- Objects a token names by an id that is no table's: the list of
    `change_kind_names_other_object`. -/
inductive OtherObject where
  | droppedSchema
  | droppedView
  | alteredView
  | droppedScalarMacro
  | droppedTableMacro
deriving DecidableEq, Repr

/-- Objects a token names by their names when they are created. -/
inductive CreatedObject where
  | table
  | view
  | scalarMacro
  | tableMacro
deriving DecidableEq, Repr

/-- An `i64`. -/
@[ext] structure I64 where
  val : Int
  property : -2 ^ 63 ≤ val ∧ val ≤ 2 ^ 63 - 1
deriving DecidableEq

inductive ChangeToken where
  | createdSchema (name : Text)
  | created (object : CreatedObject) (schema name : Text)
  | table (kind : ChangeKind) (id : I64)
  | other (object : OtherObject) (id : I64)
deriving DecidableEq

def quoteSnapshotName (name : Text) : Text := '"' :: (escape '"' name ++ ['"'])

def quoteSnapshotTable (schemaName tableName : Text) : Text :=
  quoteSnapshotName schemaName ++ '.' :: quoteSnapshotName tableName

def changeKindText : ChangeKind → Text
  | .droppedTable => "dropped_table".toList
  | .alteredTable => "altered_table".toList
  | .insertedIntoTable => "inserted_into_table".toList
  | .deletedFromTable => "deleted_from_table".toList
  | .inlinedInsert => "inlined_insert".toList
  | .inlinedDelete => "inlined_delete".toList
  | .flushedInlined => "flushed_inlined".toList
  | .inlineFlush => "inline_flush".toList
  | .mergeAdjacent => "merge_adjacent".toList
  | .rewriteDelete => "rewrite_delete".toList
  | .compactedTable => "compacted_table".toList

def OtherObject.text : OtherObject → Text
  | .droppedSchema => "dropped_schema".toList
  | .droppedView => "dropped_view".toList
  | .alteredView => "altered_view".toList
  | .droppedScalarMacro => "dropped_scalar_macro".toList
  | .droppedTableMacro => "dropped_table_macro".toList

def CreatedObject.text : CreatedObject → Text
  | .table => "created_table".toList
  | .view => "created_view".toList
  | .scalarMacro => "created_scalar_macro".toList
  | .tableMacro => "created_table_macro".toList

namespace ChangeToken

def kindText : ChangeToken → Text
  | createdSchema _ => "created_schema".toList
  | created object _ _ => object.text
  | table kind _ => changeKindText kind
  | other object _ => object.text

def valueText : ChangeToken → Text
  | createdSchema name => quoteSnapshotName name
  | created _ schema name => quoteSnapshotTable schema name
  | table _ id | other _ id => intText id.val

def text (token : ChangeToken) : Text := token.kindText ++ ':' :: token.valueText

/-- The names a token carries. -/
def names : ChangeToken → List Text
  | createdSchema name => [name]
  | created _ schema name => [schema, name]
  | table _ _ | other _ _ => []

def isInlinedInsert : ChangeToken → Bool
  | table .inlinedInsert _ => true
  | _ => false

end ChangeToken

/-- The tokens of one call, joined. -/
def changesText (tokens : List ChangeToken) : Text := [','].intercalate (tokens.map (·.text))

def inlinedInsertWord : Text := "inlined_insert:".toList

def inlinedInserts (changesMade : Text) : Nat :=
  ((changesMade.splitOn ',').filter (inlinedInsertWord.isPrefixOf ·)).length

/-- The change row of a snapshot, and the counter `inlined_insert` advances. -/
structure ChangeRow where
  changesMade : Option Text
  nextFileId : Nat

def recordSnapshotChanges (changesMade : Text) (row : ChangeRow) : ChangeRow :=
  let added := if changesMade.isEmpty then none else some changesMade
  { changesMade := match row.changesMade, added with
      | none, added => added
      | some old, none => some old
      | some old, some added => some (old ++ ',' :: added)
    nextFileId := row.nextFileId + inlinedInserts (added.getD []) }

/-! ## Reading -/

def snapshotChangeTokens (changes : Text) : List Text := splitUnquoted ',' '"' false changes

def snapshotHasChange (changes expected : Text) : Bool := (snapshotChangeTokens changes).any (· == expected)

def toAsciiLowercase (t : Text) : Text := t.map Char.toLower

/-- `str::parse::<i64>`. -/
def parseI64 (t : Text) : Option Int := Numeral.parseIntIn (-2 ^ 63) (2 ^ 63 - 1) t

def dropPlus : Text → Text
  | '+' :: t => t
  | t => t

/-- `str::parse::<u64>`. -/
def parseU64 (t : Text) : Option Nat := (Numeral.parseNat (dropPlus t)).filter fun n => decide (n < 2 ^ 64)

def otherObjects : List OtherObject :=
  [.droppedSchema, .droppedView, .alteredView, .droppedScalarMacro, .droppedTableMacro]

def changeKindNamesOtherObject (kind : Text) : Bool :=
  otherObjects.any fun other => toAsciiLowercase (trimText kind) == other.text

/-- The kinds of change a snapshot made of the table, as `table_conflict` collects them. -/
def conflictKinds (tableId : Int) (changes : Text) : List Text :=
  (snapshotChangeTokens changes).filterMap fun token => do
    let (kind, id) ← splitOnce ':' token
    if parseI64 id = some tableId then some (toAsciiLowercase kind) else none

def changesNameTable (changes : Text) (tableId : Int) : Bool :=
  (snapshotChangeTokens changes).any fun token =>
    (splitOnce ':' (trimText token)).any fun (kind, id) =>
      !changeKindNamesOtherObject kind && parseI64 (trimText id) == some tableId

def changeKinds : List ChangeKind :=
  [.droppedTable, .alteredTable, .insertedIntoTable, .deletedFromTable, .inlinedInsert, .inlinedDelete,
    .flushedInlined, .inlineFlush, .mergeAdjacent, .rewriteDelete, .compactedTable]

/-- How `record` tells the kinds apart. -/
def tokenKind (kind : Text) : Changes.TokenKind :=
  if changeKindNamesOtherObject kind then .otherObject
  else match changeKinds.find? (changeKindText · == kind) with
    | some kind => .change kind
    | none => .unknown

def tableIdOf (id : Int) : Option Nat := if 0 ≤ id then some id.toNat else none

/-- The tokens `record` parses. -/
def ledgerTokens (changes : Text) : List Changes.Token :=
  (snapshotChangeTokens changes).filterMap fun token =>
    (splitOnce ':' (trimText token)).map fun (kind, value) =>
      ⟨tokenKind (toAsciiLowercase (trimText kind)), (parseI64 (trimText value)).bind tableIdOf⟩

/-! ## Display -/

/-- A change row's groups: a key, and under it sort keys with what they display. -/
abbrev Groups := List (Text × List (Text × Text))

/-- `BTreeMap::entry(key).or_insert(value)`. -/
def orInsert {β : Type} (key : Text) (value : β) : List (Text × β) → List (Text × β)
  | [] => [(key, value)]
  | (k, v) :: rest =>
    if key = k then (k, v) :: rest
    else if key < k then (key, value) :: (k, v) :: rest
    else (k, v) :: orInsert key value rest

/-- `groups.entry(key).or_default().entry(sort_key).or_insert(display)`. -/
def insertDisplay (key sortKey display : Text) : Groups → Groups
  | [] => [(key, [(sortKey, display)])]
  | (k, group) :: rest =>
    if key = k then (k, orInsert sortKey display group) :: rest
    else if key < k then (key, [(sortKey, display)]) :: (k, group) :: rest
    else (k, group) :: insertDisplay key sortKey display rest

def createdKeys : List (Text × Text) :=
  [("created_schema".toList, "schemas_created".toList), ("created_table".toList, "tables_created".toList),
    ("created_view".toList, "views_created".toList),
    ("created_scalar_macro".toList, "scalar_macros_created".toList),
    ("created_table_macro".toList, "table_macros_created".toList)]

def idKeys : List (Text × Text) :=
  [("dropped_schema".toList, "schemas_dropped".toList), ("dropped_table".toList, "tables_dropped".toList),
    ("dropped_view".toList, "views_dropped".toList),
    ("dropped_scalar_macro".toList, "scalar_macros_dropped".toList),
    ("dropped_table_macro".toList, "table_macros_dropped".toList),
    ("altered_table".toList, "tables_altered".toList), ("altered_view".toList, "views_altered".toList),
    ("inserted_into_table".toList, "tables_inserted_into".toList),
    ("deleted_from_table".toList, "tables_deleted_from".toList),
    ("inlined_insert".toList, "inlined_insert".toList), ("inlined_delete".toList, "inlined_delete".toList),
    ("flushed_inlined".toList, "flushed_inlined".toList), ("inline_flush".toList, "flushed_inlined".toList),
    ("merge_adjacent".toList, "merge_adjacent".toList), ("rewrite_delete".toList, "rewrite_delete".toList)]

/-- The first spelling of each schema's name, by the kind of object and the name. -/
abbrev Schemas := List ((Text × Text) × Text)

section Display

/- `keywords` are the words DuckDB quotes, and `parseNames` the double-quoted identifiers
   with periods between them that the SQL parser reads, when it reads nothing else. -/
variable (keywords : List Text) (parseNames : Text → Option (List Text))

def isBareChar (first : Bool) (c : Char) : Bool := c.isAlpha || c == '_' || (!first && c.isDigit)

def displayIdentifier (name : Text) : Text :=
  if (name.take 1).all (isBareChar true) && (name.drop 1).all (isBareChar false) &&
      !keywords.any (fun keyword => toAsciiLowercase keyword == toAsciiLowercase name) then name
  else quoteSnapshotName name

def invalidChange (token : Text) : Text := "Invalid DuckLake snapshot change: ".toList ++ token

/-- What a created object's token displays. -/
def createdDisplay (kind key value : Text) (schemas : Schemas) : Option (Schemas × Text) :=
  match parseNames value with
  | some [name] => if kind = "created_schema".toList then some (schemas, name) else none
  | some [schema, name] =>
    if kind = "created_schema".toList then none
    else
      let family := if key = "views_created".toList then "tables_created".toList else key
      let entry := (family, toAsciiLowercase schema)
      let first := (schemas.lookup entry).getD schema
      let schemas := if (schemas.lookup entry).isSome then schemas else (entry, schema) :: schemas
      some (schemas, displayIdentifier keywords first ++ '.' :: displayIdentifier keywords name)
  | _ => none

/-- One round of the loop of `snapshot_changes`. -/
def displayToken (state : Groups × Schemas) (token : Text) : Except Text (Groups × Schemas) :=
  match splitOnce ':' token with
  | none => .error (invalidChange token)
  | some (kind, value) =>
    let kind := toAsciiLowercase kind
    if kind = "compacted_table".toList then
      if (parseU64 value).isSome then .ok state else .error (invalidChange token)
    else match createdKeys.lookup kind, idKeys.lookup kind with
      | some key, _ => match createdDisplay keywords parseNames kind key value state.2 with
        | some (schemas, display) =>
          .ok (insertDisplay key (toAsciiLowercase display) display state.1, schemas)
        | none => .error (invalidChange token)
      | none, some key => match parseU64 value with
        | some id => .ok (insertDisplay key (padded 20 id) (digits id) state.1, state.2)
        | none => .error (invalidChange token)
      | none, none => .error (invalidChange token)

/-- The groups of one row; a row with no text has none. -/
def snapshotChanges (row : Option Text) : Except Text Groups :=
  let tokens := (row.filter fun changes => !changes.isEmpty).elim [] snapshotChangeTokens
  Prod.fst <$> tokens.foldlM (displayToken keywords parseNames) ([], [])

end Display

/-- A text stands under a key. -/
def Shows (groups : Groups) (key display : Text) : Prop :=
  ∃ group, (key, group) ∈ groups ∧ ∃ sortKey, (sortKey, display) ∈ group

/-! ## The ledger is unambiguous -/

namespace ChangeToken

/-- The change a token stands for: its kind and the id it names. -/
def change : ChangeToken → Option (Text × Int)
  | createdSchema _ | created _ _ _ => none
  | table kind id => some (changeKindText kind, id.val)
  | other object id => some (object.text, id.val)

/-- The token in the model of change detection. -/
def toToken : ChangeToken → Changes.Token
  | createdSchema _ | created _ _ _ => ⟨.unknown, none⟩
  | table kind id => ⟨.change kind, tableIdOf id.val⟩
  | other _ id => ⟨.otherObject, tableIdOf id.val⟩

end ChangeToken

/-- What was written is what is read, by every reader. -/
structure Unambiguous (tokens : List ChangeToken) : Prop where
  split : snapshotChangeTokens (changesText tokens) = tokens.map (·.text)
  recorded : ∀ nextFileId, ((recordSnapshotChanges (changesText tokens) ⟨none, nextFileId⟩).changesMade.elim []
    snapshotChangeTokens) = tokens.map (·.text)
  has : ∀ kind id, snapshotHasChange (changesText tokens) (ChangeToken.table kind id).text = true ↔
    ChangeToken.table kind id ∈ tokens
  conflicts : ∀ tableId, conflictKinds tableId (changesText tokens) =
    (tokens.filterMap (·.change)).filterMap fun (kind, id) => if id = tableId then some kind else none
  names : ∀ tableId, changesNameTable (changesText tokens) tableId = true ↔
    ∃ kind id, ChangeToken.table kind id ∈ tokens ∧ id.val = tableId
  detected : ledgerTokens (changesText tokens) = tokens.map (·.toToken)
  shown : ∀ keywords parseNames groups,
    snapshotChanges keywords parseNames (some (changesText tokens)) = .ok groups →
    ∀ key ∈ idKeys.map Prod.snd, ∀ display, Shows groups key display ↔
      ∃ token ∈ tokens, ∃ kind id, token.change = some (kind, id) ∧ idKeys.lookup kind = some key ∧ display = intText id
  counted : inlinedInserts (changesText tokens) = tokens.countP (·.isInlinedInsert)

/-! ## Tokens -/

def isKindChar (c : Char) : Bool := c.isLower || c == '_'

theorem isKindChar_spec {c : Char} (h : isKindChar c = true) : isUnicodeSpace c = false ∧ c.toLower = c := by
  have hascii : c.toNat < 0x80 := by
    unfold isKindChar at h
    rw [Bool.or_eq_true] at h
    rcases h with hl | hu
    · have := (Bool.and_eq_true_iff.mp hl).2
      have hz : c.toNat ≤ 'z'.toNat := of_decide_eq_true this
      have : 'z'.toNat = 122 := rfl
      omega
    · rw [eq_of_beq hu]
      decide
  have hall : ∀ n < 0x80, isKindChar (Char.ofNat n) = true →
      isUnicodeSpace (Char.ofNat n) = false ∧ (Char.ofNat n).toLower = Char.ofNat n := by decide +kernel
  exact Utf8.forall_ascii (P := fun c => isKindChar c = true → isUnicodeSpace c = false ∧ c.toLower = c) hall hascii h

namespace ChangeToken

theorem forall_kindText {P : Text → Prop} (hschema : P "created_schema".toList)
    (hcreated : ∀ object : CreatedObject, P object.text) (htable : ∀ kind, P (changeKindText kind))
    (hother : ∀ object : OtherObject, P object.text) : ∀ token : ChangeToken, P token.kindText
  | createdSchema _ => hschema
  | created object _ _ => hcreated object
  | table kind _ => htable kind
  | other object _ => hother object

variable (token : ChangeToken)

theorem kindText_chars : ∀ c ∈ token.kindText, isKindChar c = true := by
  have h : token.kindText.all isKindChar = true :=
    forall_kindText (P := fun t => t.all isKindChar = true) (by decide) (fun o => by cases o <;> decide)
      (fun k => by cases k <;> decide) (fun o => by cases o <;> decide) token
  exact List.all_eq_true.mp h

theorem not_mem_kindText {c : Char} (hc : isKindChar c = false) : c ∉ token.kindText := by
  intro h
  rw [token.kindText_chars c h] at hc
  cases hc

theorem kindText_ne_nil : token.kindText ≠ [] :=
  forall_kindText (P := (· ≠ [])) (by decide) (fun o => by cases o <;> decide)
    (fun k => by cases k <;> decide) (fun o => by cases o <;> decide) token

theorem toAsciiLowercase_kindText : toAsciiLowercase token.kindText = token.kindText := by
  refine (List.map_congr_left fun c hc => ?_).trans (List.map_id _)
  exact (isKindChar_spec (token.kindText_chars c hc)).2

end ChangeToken

theorem isDigit_or_minus {id : Int} {c : Char} (h : c ∈ intText id) : c.isDigit = true ∨ c = '-' := by
  have hdigits : ∀ {n : Nat}, c ∈ digits n → c.isDigit = true := fun hc =>
    List.all_eq_true.mp (Numeral.all_isDigit_toDigits _) c hc
  unfold intText at h
  split at h
  · rcases List.mem_cons.mp h with hc | hc
    · exact .inr hc
    · exact .inl (hdigits hc)
  · exact .inl (hdigits h)

theorem not_mem_intText {id : Int} {c : Char} (hd : c.isDigit = false) (hm : c ≠ '-') : c ∉ intText id := by
  intro h
  rcases isDigit_or_minus h with hc | hc
  · rw [hd] at hc
    cases hc
  · exact hm hc

theorem whole_quoteSnapshotName (name : Text) : Whole ',' '"' (quoteSnapshotName name) :=
  whole_quoted (by decide) name

namespace ChangeToken

variable (token : ChangeToken)

theorem whole_valueText : Whole ',' '"' token.valueText := by
  cases token with
  | createdSchema name => exact whole_quoteSnapshotName name
  | created object schema name =>
    have hdot : Whole ',' '"' ['.'] := whole_plain (by decide) (by decide)
    exact (whole_quoteSnapshotName schema).append (hdot.append (whole_quoteSnapshotName name))
  | table | other =>
    exact whole_plain (not_mem_intText (by decide) (by decide))
      (not_mem_intText (by decide) (by decide))

theorem whole_text : Whole ',' '"' token.text := by
  have hkind : Whole ',' '"' token.kindText :=
    whole_plain (token.not_mem_kindText (by decide)) (token.not_mem_kindText (by decide))
  have hcolon : Whole ',' '"' [':'] := whole_plain (by decide) (by decide)
  exact hkind.append (hcolon.append token.whole_valueText)

theorem text_ne_nil : token.text ≠ [] := by
  unfold text
  simp

end ChangeToken

/-! ## Splitting -/

theorem tokens_changesText {tokens : List ChangeToken} (h : tokens ≠ []) :
    snapshotChangeTokens (changesText tokens) = tokens.map (·.text) := by
  refine splitUnquoted_join (by decide) (by simpa using h) fun t ht => ?_
  obtain ⟨token, -, rfl⟩ := List.mem_map.mp ht
  exact token.whole_text

theorem filterMap_changesText {β : Type} (tokens : List ChangeToken) {f : Text → Option β} (h : f [] = none) :
    (snapshotChangeTokens (changesText tokens)).filterMap f = tokens.filterMap fun token => f token.text := by
  cases tokens with
  | nil =>
    rw [show snapshotChangeTokens (changesText []) = [[]] from rfl, List.filterMap_cons_none h]
    rfl
  | cons token tokens =>
    rw [tokens_changesText (by simp), List.filterMap_map]
    rfl

theorem any_changesText (tokens : List ChangeToken) {p : Text → Bool} (h : p [] = false) :
    (snapshotChangeTokens (changesText tokens)).any p = tokens.any fun token => p token.text := by
  cases tokens with
  | nil =>
    rw [show snapshotChangeTokens (changesText []) = [[]] from rfl, List.any_cons, h]
    rfl
  | cons token tokens =>
    rw [tokens_changesText (by simp), List.any_map]
    rfl

theorem changesText_eq_nil {tokens : List ChangeToken} : changesText tokens = [] ↔ tokens = [] := by
  constructor
  · intro h
    match tokens with
    | [] => rfl
    | [token] => exact absurd (by simpa [changesText] using h) token.text_ne_nil
    | token :: token' :: rest =>
      have hcons : changesText (token :: token' :: rest) = token.text ++ [','] ++ changesText (token' :: rest) :=
        List.intercalate_cons_cons
      rw [hcons] at h
      simp at h
  · rintro rfl
    rfl

/-! ## Reading one token -/

theorem trimmed_quoteSnapshotName (name : Text) : Trimmed (quoteSnapshotName name) :=
  ⟨⟨'"', _, rfl, by decide⟩, ⟨'"' :: escape '"' name, '"', by simp [quoteSnapshotName], by decide⟩⟩

theorem trimmed_intText (id : Int) : Trimmed (intText id) := by
  have hne : intText id ≠ [] := by
    unfold intText digits
    split
    · simp
    · exact Nat.toDigits_ne_nil
  refine trimmed_of_forall hne fun c hc => ?_
  rcases isDigit_or_minus hc with hd | rfl
  · exact isUnicodeSpace_digit hd
  · decide

namespace ChangeToken

variable (token : ChangeToken)

theorem trimmed_valueText : Trimmed token.valueText := by
  cases token with
  | createdSchema name => exact trimmed_quoteSnapshotName name
  | created object schema name =>
    have := Trimmed.append (m := ['.']) (trimmed_quoteSnapshotName schema) (trimmed_quoteSnapshotName name)
    rwa [List.append_assoc] at this
  | table | other => exact trimmed_intText _

theorem trimmed_kindText : Trimmed token.kindText :=
  trimmed_of_forall token.kindText_ne_nil fun c hc => (isKindChar_spec (token.kindText_chars c hc)).1

theorem trimmed_text : Trimmed token.text := by
  have := Trimmed.append (m := [':']) token.trimmed_kindText token.trimmed_valueText
  rwa [List.append_assoc] at this

theorem splitOnce_text : splitOnce ':' token.text = some (token.kindText, token.valueText) :=
  splitOnce_append (token.not_mem_kindText (by decide)) _

end ChangeToken

theorem parseI64_intText (id : I64) : parseI64 (intText id.val) = some id.val := by
  unfold parseI64 Numeral.parseIntIn
  rw [parseInt_intText, Option.filter_some, if_pos (by simpa using id.property)]

theorem parseI64_quoteSnapshotName (name rest : Text) : parseI64 (quoteSnapshotName name ++ rest) = none := by
  unfold parseI64 Numeral.parseIntIn
  rw [Numeral.parseInt_eq_none_of_mem (c := '"') (by simp [quoteSnapshotName]) (by decide) (by decide) (by decide)]
  rfl

namespace ChangeToken

/-- Only a token written with an id is read with one. -/
theorem parseI64_valueText (token : ChangeToken) : parseI64 token.valueText = token.change.map Prod.snd := by
  cases token with
  | createdSchema name =>
    have := parseI64_quoteSnapshotName name []
    rwa [List.append_nil] at this
  | created object schema name => exact parseI64_quoteSnapshotName schema _
  | table | other => exact parseI64_intText _

theorem kindText_of_change {token : ChangeToken} {kind : Text} {id : Int} (h : token.change = some (kind, id)) :
    token.kindText = kind := by
  cases token <;> cases h <;> rfl

end ChangeToken

/-! ## The readers -/

theorem conflictKinds_changesText (tokens : List ChangeToken) (tableId : Int) :
    conflictKinds tableId (changesText tokens) =
      (tokens.filterMap (·.change)).filterMap fun (kind, id) => if id = tableId then some kind else none := by
  unfold conflictKinds
  rw [filterMap_changesText tokens rfl, List.filterMap_filterMap]
  refine List.filterMap_congr fun token _ => ?_
  rw [token.splitOnce_text]
  simp only [Option.bind_eq_bind, Option.bind_some, token.parseI64_valueText, token.toAsciiLowercase_kindText]
  cases h : token.change with
  | none => simp
  | some change =>
    obtain ⟨kind, id⟩ := change
    simp [ChangeToken.kindText_of_change h]

theorem changeKindNamesOtherObject_kindText (token : ChangeToken) :
    changeKindNamesOtherObject token.kindText = true ↔ ∃ object id, token = .other object id := by
  cases token with
  | createdSchema name =>
    refine iff_of_false ?_ (by rintro ⟨_, _, ⟨⟩⟩)
    show ¬ changeKindNamesOtherObject "created_schema".toList = true
    decide
  | created object schema name =>
    refine iff_of_false ?_ (by rintro ⟨_, _, ⟨⟩⟩)
    show ¬ changeKindNamesOtherObject object.text = true
    cases object <;> decide
  | table kind id =>
    refine iff_of_false ?_ (by rintro ⟨_, _, ⟨⟩⟩)
    show ¬ changeKindNamesOtherObject (changeKindText kind) = true
    cases kind <;> decide
  | other object id =>
    refine iff_of_true ?_ ⟨object, id, rfl⟩
    show changeKindNamesOtherObject object.text = true
    cases object <;> decide

theorem changesNameTable_changesText (tokens : List ChangeToken) (tableId : Int) :
    changesNameTable (changesText tokens) tableId = true ↔
      ∃ kind id, ChangeToken.table kind id ∈ tokens ∧ id.val = tableId := by
  have hone : ∀ token : ChangeToken, ((splitOnce ':' (trimText token.text)).any fun (kind, id) =>
      !changeKindNamesOtherObject kind && parseI64 (trimText id) == some tableId) = true ↔
        ∃ kind id, token = .table kind id ∧ id.val = tableId := by
    intro token
    rw [token.trimmed_text.eq, token.splitOnce_text, Option.any_some, Bool.and_eq_true, Bool.not_eq_true',
      ← Bool.not_eq_true, changeKindNamesOtherObject_kindText, token.trimmed_valueText.eq, token.parseI64_valueText,
      beq_iff_eq]
    cases token <;> simp [ChangeToken.change]
  unfold changesNameTable
  rw [any_changesText tokens (by rfl), List.any_eq_true]
  constructor
  · intro h
    obtain ⟨token, hm, ht⟩ := h
    obtain ⟨kind, id, rfl, hid⟩ := (hone token).mp ht
    exact ⟨kind, id, hm, hid⟩
  · intro h
    obtain ⟨kind, id, hm, hid⟩ := h
    exact ⟨_, hm, (hone _).mpr ⟨kind, id, rfl, hid⟩⟩

theorem tokenKind_kindText (token : ChangeToken) : tokenKind token.kindText = token.toToken.kind := by
  cases token with
  | createdSchema name =>
    show tokenKind "created_schema".toList = .unknown
    decide
  | created object schema name =>
    show tokenKind object.text = .unknown
    cases object <;> decide
  | table kind id =>
    show tokenKind (changeKindText kind) = .change kind
    cases kind <;> decide
  | other object id =>
    show tokenKind object.text = .otherObject
    cases object <;> decide

theorem ledgerTokens_changesText (tokens : List ChangeToken) :
    ledgerTokens (changesText tokens) = tokens.map (·.toToken) := by
  unfold ledgerTokens
  rw [filterMap_changesText tokens (by rfl), ← List.filterMap_eq_map]
  refine List.filterMap_congr fun token _ => ?_
  have hvalue : (token.change.map Prod.snd).bind tableIdOf = token.toToken.value := by
    cases token <;> rfl
  rw [token.trimmed_text.eq, token.splitOnce_text, Option.map_some]
  dsimp only
  rw [token.trimmed_kindText.eq, token.toAsciiLowercase_kindText, tokenKind_kindText, token.trimmed_valueText.eq,
    token.parseI64_valueText, hvalue]
  rfl

theorem text_injective_table {token : ChangeToken} {kind : ChangeKind} {id : I64}
    (h : token.text = (ChangeToken.table kind id).text) : token = .table kind id := by
  have hsplit := token.splitOnce_text
  rw [h, ChangeToken.splitOnce_text, Option.some.injEq, Prod.mk.injEq] at hsplit
  obtain ⟨hkind, hvalue⟩ := hsplit
  have hid := token.parseI64_valueText
  rw [← hvalue, ChangeToken.parseI64_valueText] at hid
  have htoken := tokenKind_kindText token
  rw [← hkind, tokenKind_kindText] at htoken
  cases token with
  | createdSchema | created => cases hid
  | table kind' id' =>
    cases htoken
    rw [I64.ext (Option.some.inj hid)]
  | other => cases htoken

theorem snapshotHasChange_changesText (tokens : List ChangeToken) (kind : ChangeKind) (id : I64) :
    snapshotHasChange (changesText tokens) (ChangeToken.table kind id).text = true ↔
      ChangeToken.table kind id ∈ tokens := by
  have hnil : (([] : Text) == (ChangeToken.table kind id).text) = false := by
    rw [← Bool.not_eq_true, beq_iff_eq]
    exact fun h => (ChangeToken.table kind id).text_ne_nil h.symm
  unfold snapshotHasChange
  rw [any_changesText tokens hnil, List.any_eq_true]
  constructor
  · intro h
    obtain ⟨token, hm, ht⟩ := h
    rwa [← text_injective_table (eq_of_beq ht)]
  · exact fun h => ⟨_, h, beq_self_eq_true _⟩

/-! ## The displayed changes -/

def ShowsPair (groups : Groups) (key sortKey display : Text) : Prop :=
  ∃ group, (key, group) ∈ groups ∧ (sortKey, display) ∈ group

theorem mem_orInsert {key value : Text} {group : List (Text × Text)} (h : ∀ v, (key, v) ∈ group → v = value)
    (k v : Text) : (k, v) ∈ orInsert key value group ↔ (k, v) ∈ group ∨ k = key ∧ v = value := by
  induction group with
  | nil => simp [orInsert]
  | cons entry group ih =>
    obtain ⟨k', v'⟩ := entry
    unfold orInsert
    split
    · next heq =>
      -- the entry is there already, with the same text
      obtain rfl := heq
      have hv : v' = value := h v' (by simp)
      constructor
      · exact .inl
      · intro hmem
        rcases hmem with hmem | ⟨rfl, rfl⟩
        · exact hmem
        · simp [hv]
    · split
      · simp only [List.mem_cons, Prod.mk.injEq]
        exact or_comm
      · have ih := ih fun v hv => h v (List.mem_cons_of_mem _ hv)
        simp only [List.mem_cons, Prod.mk.injEq, ih]
        exact or_assoc.symm

theorem showsPair_cons {groups : Groups} {k key s d : Text} {group : List (Text × Text)} :
    ShowsPair ((k, group) :: groups) key s d ↔ key = k ∧ (s, d) ∈ group ∨ ShowsPair groups key s d := by
  unfold ShowsPair
  constructor
  · intro h
    obtain ⟨g, hg, hm⟩ := h
    rcases List.mem_cons.mp hg with heq | hg
    · cases heq
      exact .inl ⟨rfl, hm⟩
    · exact .inr ⟨g, hg, hm⟩
  · intro h
    rcases h with ⟨rfl, hm⟩ | ⟨g, hg, hm⟩
    · exact ⟨group, by simp, hm⟩
    · exact ⟨g, List.mem_cons_of_mem _ hg, hm⟩

theorem showsPair_insertDisplay {groups : Groups} {key sortKey display : Text}
    (h : ∀ d, ShowsPair groups key sortKey d → d = display) (k s d : Text) :
    ShowsPair (insertDisplay key sortKey display groups) k s d ↔
      ShowsPair groups k s d ∨ k = key ∧ s = sortKey ∧ d = display := by
  induction groups with
  | nil => simp [insertDisplay, ShowsPair]
  | cons entry groups ih =>
    obtain ⟨k', group⟩ := entry
    have ih := ih fun d hd => h d (showsPair_cons.mpr (.inr hd))
    unfold insertDisplay
    split
    · next heq =>
      obtain rfl := heq
      have hgroup : ∀ v, (sortKey, v) ∈ group → v = display := fun v hv =>
        h v (showsPair_cons.mpr (.inl ⟨rfl, hv⟩))
      rw [showsPair_cons, showsPair_cons, mem_orInsert hgroup, and_or_left, or_right_comm]
    · split
      · rw [showsPair_cons]
        simp only [List.mem_singleton, Prod.mk.injEq]
        exact or_comm
      · rw [showsPair_cons, showsPair_cons, ih]
        exact or_assoc.symm

theorem showsPair_insertDisplay_ne {groups : Groups} {key sortKey display k : Text} (hne : k ≠ key) (s d : Text) :
    ShowsPair (insertDisplay key sortKey display groups) k s d ↔ ShowsPair groups k s d := by
  induction groups with
  | nil => simp [insertDisplay, ShowsPair, hne]
  | cons entry groups ih =>
    obtain ⟨k', group⟩ := entry
    unfold insertDisplay
    split
    · next heq =>
      obtain rfl := heq
      rw [showsPair_cons, showsPair_cons]
      simp [hne]
    · split
      · rw [showsPair_cons]
        simp [hne]
      · rw [showsPair_cons, showsPair_cons, ih]

theorem parseU64_intText (id : I64) :
    parseU64 (intText id.val) = if 0 ≤ id.val then some id.val.toNat else none := by
  have hrange := id.property
  unfold parseU64 intText
  by_cases hneg : id.val < 0
  · rw [if_pos hneg, if_neg (by omega)]
    rw [show dropPlus ('-' :: digits id.val.natAbs) = '-' :: digits id.val.natAbs from rfl,
      Numeral.parseNat_eq_none_of_mem (c := '-') (by simp) (by decide)]
    rfl
  · rw [if_neg hneg, if_pos (by omega)]
    have hplus : dropPlus (digits id.val.natAbs) = digits id.val.natAbs := by
      unfold dropPlus
      split
      · next t heq =>
        have := List.all_eq_true.mp (Numeral.all_isDigit_toDigits id.val.natAbs) '+' (by
          rw [show Nat.toDigits 10 id.val.natAbs = _ from heq]
          simp)
        cases this
      · rfl
    have hnat : id.val.toNat = id.val.natAbs := by omega
    have hlt : id.val.natAbs < 2 ^ 64 := by omega
    rw [hplus, digits, Numeral.parseNat_toDigits, Option.filter_some, if_pos (by simpa using hlt), hnat]

theorem createdKeys_ne_idKeys : ∀ k ∈ createdKeys.map Prod.snd, k ∉ idKeys.map Prod.snd := by decide +kernel

namespace ChangeToken

/-- A created object is displayed under a key of its own. -/
theorem createdKeys_of_change_none {token : ChangeToken} (h : token.change = none) :
    token.kindText ≠ "compacted_table".toList ∧
      ∃ key ∈ createdKeys.map Prod.snd, createdKeys.lookup token.kindText = some key := by
  cases token with
  | createdSchema name =>
    show "created_schema".toList ≠ _ ∧ ∃ key ∈ _, createdKeys.lookup "created_schema".toList = some key
    exact ⟨by decide, "schemas_created".toList, by decide, by decide⟩
  | created object schema name =>
    show object.text ≠ _ ∧ ∃ key ∈ _, createdKeys.lookup object.text = some key
    cases object with
    | table => exact ⟨by decide, "tables_created".toList, by decide, by decide⟩
    | view => exact ⟨by decide, "views_created".toList, by decide, by decide⟩
    | scalarMacro => exact ⟨by decide, "scalar_macros_created".toList, by decide, by decide⟩
    | tableMacro => exact ⟨by decide, "table_macros_created".toList, by decide, by decide⟩
  | table | other => cases h

theorem lookup_of_change {token : ChangeToken} {kind : Text} {id : Int} (h : token.change = some (kind, id)) :
    createdKeys.lookup kind = none ∧ (kind = "compacted_table".toList → idKeys.lookup kind = none) ∧
      ∃ id' : I64, id'.val = id ∧ token.valueText = intText id := by
  cases token with
  | createdSchema | created => cases h
  | table kind id | other kind id =>
    cases h
    refine ⟨?_, ?_, id, rfl, rfl⟩
    · cases kind <;> decide
    · cases kind <;> decide

/-- The token shows its id under the key. -/
def ShownAs (token : ChangeToken) (key sortKey display : Text) : Prop :=
  ∃ kind id, token.change = some (kind, id) ∧ idKeys.lookup kind = some key ∧
    sortKey = padded 20 id.toNat ∧ display = digits id.toNat

end ChangeToken

/-- What the groups show of ids is what the tokens wrote. -/
structure Displayed (seen : List ChangeToken) (groups : Groups) : Prop where
  nonneg : ∀ token ∈ seen, ∀ kind id, token.change = some (kind, id) → (idKeys.lookup kind).isSome = true → 0 ≤ id
  pairs : ∀ key ∈ idKeys.map Prod.snd, ∀ s d, ShowsPair groups key s d ↔ ∃ token ∈ seen, token.ShownAs key s d

theorem Displayed.unique {seen : List ChangeToken} {groups : Groups} (h : Displayed seen groups) {key : Text}
    (hkey : key ∈ idKeys.map Prod.snd) {n : Nat} {d : Text} (hshows : ShowsPair groups key (padded 20 n) d) :
    d = digits n := by
  obtain ⟨token, -, kind, id, -, -, hs, hd⟩ := (h.pairs key hkey _ _).mp hshows
  have := congrArg Numeral.value hs
  rw [value_padded, value_padded] at this
  rw [hd, ← this]

section Display

variable {keywords : List Text} {parseNames : Text → Option (List Text)}

/-- A created object changes nothing that is shown of ids. -/
theorem displayToken_created {state state' : Groups × Schemas} {token : ChangeToken} (hc : token.change = none)
    (h : displayToken keywords parseNames state token.text = .ok state') {key : Text}
    (hkey : key ∈ idKeys.map Prod.snd) (s d : Text) : ShowsPair state'.1 key s d ↔ ShowsPair state.1 key s d := by
  obtain ⟨hcompact, key', hmem, hlookup⟩ := token.createdKeys_of_change_none hc
  have hne : key ≠ key' := fun heq => createdKeys_ne_idKeys key' hmem (heq ▸ hkey)
  unfold displayToken at h
  rw [token.splitOnce_text] at h
  dsimp only at h
  rw [token.toAsciiLowercase_kindText, if_neg hcompact, hlookup] at h
  dsimp only at h
  split at h
  · cases h
    exact showsPair_insertDisplay_ne hne s d
  · cases h

theorem displayToken_change {state state' : Groups × Schemas} {token : ChangeToken} {kind : Text} {id : Int}
    (hc : token.change = some (kind, id)) (h : displayToken keywords parseNames state token.text = .ok state') :
    idKeys.lookup kind = none ∧ state' = state ∨ 0 ≤ id ∧ ∃ key, idKeys.lookup kind = some key ∧
      state'.1 = insertDisplay key (padded 20 id.toNat) (digits id.toNat) state.1 := by
  obtain ⟨hcreated, hcompact, id', hid, hvalue⟩ := ChangeToken.lookup_of_change hc
  unfold displayToken at h
  rw [token.splitOnce_text] at h
  dsimp only at h
  rw [token.toAsciiLowercase_kindText, ChangeToken.kindText_of_change hc, hvalue, ← hid, parseU64_intText, hid] at h
  split at h
  · next hk =>
    split at h
    · cases h
      exact .inl ⟨hcompact hk, rfl⟩
    · cases h
  · rw [hcreated] at h
    cases hlookup : idKeys.lookup kind with
    | none =>
      rw [hlookup] at h
      cases h
    | some key =>
      rw [hlookup] at h
      by_cases hnonneg : 0 ≤ id
      · rw [if_pos hnonneg] at h
        cases h
        exact .inr ⟨hnonneg, key, rfl, rfl⟩
      · rw [if_neg hnonneg] at h
        cases h

theorem mem_of_lookup {l : List (Text × Text)} {kind key : Text} (h : l.lookup kind = some key) :
    key ∈ l.map Prod.snd := by
  obtain ⟨_, _, heq, -⟩ := List.lookup_eq_some_iff.mp h
  rw [heq]
  simp

theorem displayToken_displayed {state state' : Groups × Schemas} {seen : List ChangeToken} {token : ChangeToken}
    (hseen : Displayed seen state.1) (h : displayToken keywords parseNames state token.text = .ok state') :
    Displayed (seen ++ [token]) state'.1 := by
  have hexists : ∀ key s d, (∃ t ∈ seen ++ [token], t.ShownAs key s d) ↔
      (∃ t ∈ seen, t.ShownAs key s d) ∨ token.ShownAs key s d := by
    intro key s d
    simp [or_and_right, exists_or]
  cases hc : token.change with
  | none =>
    constructor
    · intro t ht kind id hchange
      rcases List.mem_append.mp ht with ht | ht
      · exact hseen.nonneg t ht kind id hchange
      · rw [List.mem_singleton.mp ht, hc] at hchange
        cases hchange
    · intro key hkey s d
      have hnot : ¬ token.ShownAs key s d := fun ⟨_, _, hchange, _⟩ => by
        rw [hc] at hchange
        cases hchange
      rw [displayToken_created hc h hkey, hseen.pairs key hkey, hexists]
      simp [hnot]
  | some change =>
    obtain ⟨kind, id⟩ := change
    have hshown : ∀ key s d, token.ShownAs key s d ↔
        idKeys.lookup kind = some key ∧ s = padded 20 id.toNat ∧ d = digits id.toNat := by
      intro key s d
      unfold ChangeToken.ShownAs
      rw [hc]
      simp only [Option.some.injEq, Prod.mk.injEq]
      constructor
      · intro hex
        obtain ⟨_, _, ⟨rfl, rfl⟩, hrest⟩ := hex
        exact hrest
      · exact fun hrest => ⟨kind, id, ⟨rfl, rfl⟩, hrest⟩
    have hnonneg : ∀ t ∈ seen ++ [token], ∀ kind' id', t.change = some (kind', id') →
        (idKeys.lookup kind').isSome = true → 0 ≤ id' := by
      intro t ht kind' id' hchange hsome
      rcases List.mem_append.mp ht with ht | ht
      · exact hseen.nonneg t ht kind' id' hchange hsome
      · rw [List.mem_singleton.mp ht, hc] at hchange
        cases hchange
        rcases displayToken_change hc h with ⟨hnone, -⟩ | ⟨hle, -⟩
        · rw [hnone] at hsome
          cases hsome
        · exact hle
    refine ⟨hnonneg, fun key hkey s d => ?_⟩
    rw [hexists, hshown]
    rcases displayToken_change hc h with ⟨hnone, rfl⟩ | ⟨-, key', hlookup, hgroups⟩
    · rw [hseen.pairs key hkey, hnone]
      simp
    · have hkey' := mem_of_lookup hlookup
      rw [hgroups, showsPair_insertDisplay fun d hd => hseen.unique hkey' hd, hseen.pairs key hkey, hlookup,
        Option.some.injEq]
      simp only [eq_comm]

theorem displayTokens_displayed {tokens seen : List ChangeToken} {state state' : Groups × Schemas}
    (hseen : Displayed seen state.1)
    (h : (tokens.map (·.text)).foldlM (displayToken keywords parseNames) state = .ok state') :
    Displayed (seen ++ tokens) state'.1 := by
  induction tokens generalizing seen state with
  | nil =>
    cases h
    rwa [List.append_nil]
  | cons token tokens ih =>
    rw [List.map_cons, List.foldlM_cons] at h
    obtain ⟨mid, hmid, hrest⟩ := Checked.bind_eq_ok.mp h
    have := ih (displayToken_displayed hseen hmid) hrest
    rwa [List.append_assoc, List.singleton_append] at this

theorem row_tokens (tokens : List ChangeToken) :
    ((some (changesText tokens)).filter fun changes => !changes.isEmpty).elim [] snapshotChangeTokens =
      tokens.map (·.text) := by
  cases tokens with
  | nil => rfl
  | cons token tokens =>
    have hne : changesText (token :: tokens) ≠ [] := fun h => by cases changesText_eq_nil.mp h
    rw [Option.filter_some, if_pos (by simpa using hne), Option.elim_some,
      tokens_changesText (by simp)]

theorem snapshotChanges_displayed {tokens : List ChangeToken} {groups : Groups}
    (h : snapshotChanges keywords parseNames (some (changesText tokens)) = .ok groups) : Displayed tokens groups := by
  unfold snapshotChanges at h
  rw [row_tokens] at h
  obtain ⟨state, hstate, rfl⟩ := Checked.map_eq_ok.mp h
  have hnil : Displayed [] ([] : Groups) :=
    ⟨fun _ hm => absurd hm List.not_mem_nil, fun _ _ _ _ => by simp [ShowsPair]⟩
  exact @displayTokens_displayed keywords parseNames tokens [] _ state hnil hstate

theorem shows_iff {tokens : List ChangeToken} {groups : Groups}
    (h : snapshotChanges keywords parseNames (some (changesText tokens)) = .ok groups) {key : Text}
    (hkey : key ∈ idKeys.map Prod.snd) (display : Text) : Shows groups key display ↔
      ∃ token ∈ tokens, ∃ kind id, token.change = some (kind, id) ∧ idKeys.lookup kind = some key ∧
        display = intText id := by
  have hshown := snapshotChanges_displayed h
  have htext : ∀ {id : Int}, 0 ≤ id → digits id.toNat = intText id := by
    intro id hid
    rw [intText, if_neg (by omega), show id.natAbs = id.toNat by omega]
  constructor
  · intro hs
    obtain ⟨group, hgroup, s, hpair⟩ := hs
    obtain ⟨token, hm, kind, id, hchange, hlookup, -, hd⟩ := (hshown.pairs key hkey s display).mp ⟨group, hgroup, hpair⟩
    exact ⟨token, hm, kind, id, hchange, hlookup,
      by rw [hd, htext (hshown.nonneg token hm kind id hchange (by rw [hlookup]; rfl))]⟩
  · intro ht
    obtain ⟨token, hm, kind, id, hchange, hlookup, rfl⟩ := ht
    have hid := hshown.nonneg token hm kind id hchange (by rw [hlookup]; rfl)
    obtain ⟨group, hgroup, hpair⟩ := (hshown.pairs key hkey (padded 20 id.toNat) (intText id)).mpr
      ⟨token, hm, kind, id, hchange, hlookup, rfl, (htext hid).symm⟩
    exact ⟨group, hgroup, _, hpair⟩

end Display

/-! ## The count of inlined inserts -/

theorem inlinedInserts_join (a b : Text) : inlinedInserts (a ++ ',' :: b) = inlinedInserts a + inlinedInserts b := by
  unfold inlinedInserts
  rw [List.splitOn_append_cons_self, List.filter_append, List.length_append]

namespace ChangeToken

/-- The pieces of a token's names that look like an inlined insert. -/
def mistaken (token : ChangeToken) : Nat :=
  ((token.text.splitOn ',').tail.filter (inlinedInsertWord.isPrefixOf ·)).length

variable (token : ChangeToken)

theorem isInlinedInsert_iff :
    token.isInlinedInsert = true ↔ token.kindText = "inlined_insert".toList := by
  constructor
  · intro h
    unfold isInlinedInsert at h
    split at h
    · rfl
    · cases h
  · intro h
    have hkind := tokenKind_kindText token
    rw [h, show tokenKind "inlined_insert".toList = .change .inlinedInsert by decide] at hkind
    cases token with
    | table kind id =>
      cases hkind
      rfl
    | _ => cases hkind

theorem text_eq : token.text = token.kindText ++ [':'] ++ token.valueText := by
  rw [List.append_assoc]
  rfl

theorem comma_not_mem_kind : ',' ∉ token.kindText ++ [':'] := by
  rw [List.mem_append, not_or]
  exact ⟨token.not_mem_kindText (by decide), by decide⟩

/-- A token is counted once for what it is, and once for each mistaken piece. -/
theorem inlinedInserts_text :
    inlinedInserts token.text = (if token.isInlinedInsert then 1 else 0) + token.mistaken := by
  obtain ⟨head, tail, hsplit⟩ := splitOn_head token.comma_not_mem_kind token.valueText
  have hfirst : inlinedInsertWord.isPrefixOf (token.kindText ++ [':'] ++ head) = token.isInlinedInsert := by
    rw [Bool.eq_iff_iff, List.isPrefixOf_iff_prefix, isInlinedInsert_iff]
    constructor
    · intro h
      obtain ⟨rest, hrest⟩ := h
      -- both sides up to the first colon
      have hword := splitOnce_append (show ':' ∉ "inlined_insert".toList by decide) rest
      have hkind := splitOnce_append (token.not_mem_kindText (c := ':') (by decide)) head
      have heq : "inlined_insert".toList ++ ':' :: rest = token.kindText ++ ':' :: head := by
        rw [List.append_cons token.kindText]
        exact hrest
      rw [heq, hkind, Option.some.injEq, Prod.mk.injEq] at hword
      exact hword.1
    · intro h
      rw [h]
      exact ⟨head, rfl⟩
  unfold inlinedInserts mistaken
  rw [token.text_eq, hsplit, List.filter_cons, hfirst, List.tail_cons]
  cases token.isInlinedInsert with
  | true =>
    rw [if_pos rfl, List.length_cons, if_pos rfl]
    exact Nat.add_comm _ _
  | false =>
    rw [if_neg (by decide), if_neg (by decide), Nat.zero_add]

theorem mistaken_eq_zero_iff :
    token.mistaken = 0 ↔ ¬ (',' :: inlinedInsertWord) <:+: token.text := by
  rw [← mem_tail_splitOn_iff (by decide) token.text]
  unfold mistaken
  rw [List.length_eq_zero_iff, List.filter_eq_nil_iff]
  constructor
  · intro h hex
    obtain ⟨piece, hm, hword⟩ := hex
    exact h piece hm (List.isPrefixOf_iff_prefix.mpr hword)
  · intro h piece hm hword
    exact h ⟨piece, hm, List.isPrefixOf_iff_prefix.mp hword⟩

end ChangeToken

/-- Where a word without quotes stands around and in a quoted name. -/
theorem infix_quoteSnapshotName {word a name b : Text} (hne : word ≠ []) (hq : '"' ∉ word) :
    word <:+: a ++ (quoteSnapshotName name ++ b) ↔ word <:+: a ∨ word <:+: name ∨ word <:+: b := by
  have hshape : a ++ (quoteSnapshotName name ++ b) = a ++ '"' :: (escape '"' name ++ '"' :: b) := by
    simp [quoteSnapshotName]
  rw [hshape, infix_append_cons_iff hq, infix_append_cons_iff hq, infix_escape_iff hne hq]

/-- A word with a comma does not stand in a text without one. -/
theorem not_infix_of_not_mem {word t : Text} (hword : ',' ∈ word) (ht : ',' ∉ t) : ¬ word <:+: t :=
  fun h => ht (h.subset hword)

theorem infix_text_iff (token : ChangeToken) :
    (',' :: inlinedInsertWord) <:+: token.text ↔ ∃ name ∈ token.names, (',' :: inlinedInsertWord) <:+: name := by
  have hword : ',' ∈ ',' :: inlinedInsertWord := List.mem_cons_self ..
  have hquote : '"' ∉ ',' :: inlinedInsertWord := by decide
  have hkind := token.comma_not_mem_kind
  have hstart := not_infix_of_not_mem hword hkind
  have hnil : ¬ (',' :: inlinedInsertWord) <:+: [] := not_infix_of_not_mem hword List.not_mem_nil
  rw [token.text_eq]
  cases token with
  | createdSchema name =>
    have := @infix_quoteSnapshotName _ ((ChangeToken.createdSchema name).kindText ++ [':']) name []
      (List.cons_ne_nil _ _) hquote
    rw [List.append_nil] at this
    rw [show (ChangeToken.createdSchema name).valueText = quoteSnapshotName name from rfl, this]
    simp only [hstart, hnil, false_or, or_false, ChangeToken.names, List.mem_singleton, exists_eq_left]
  | created object schema name =>
    have hdot : ¬ (',' :: inlinedInsertWord) <:+: ['.'] := not_infix_of_not_mem hword (by decide)
    have hname := @infix_quoteSnapshotName _ ['.'] name [] (List.cons_ne_nil _ _) hquote
    rw [List.append_nil] at hname
    rw [show (ChangeToken.created object schema name).valueText =
      quoteSnapshotName schema ++ (['.'] ++ quoteSnapshotName name) from rfl,
      infix_quoteSnapshotName (List.cons_ne_nil _ _) hquote, hname]
    simp only [hstart, hdot, hnil, false_or, or_false, ChangeToken.names, List.mem_cons, List.not_mem_nil,
      exists_eq_or_imp, exists_eq_left]
  | table | other =>
    refine iff_of_false (not_infix_of_not_mem hword ?_) (by simp [ChangeToken.names])
    rw [List.mem_append, not_or]
    exact ⟨hkind, not_mem_intText (by decide) (by decide)⟩

theorem inlinedInserts_changesText (tokens : List ChangeToken) :
    inlinedInserts (changesText tokens) = tokens.countP (·.isInlinedInsert) + (tokens.map (·.mistaken)).sum := by
  induction tokens with
  | nil => rfl
  | cons token tokens ih =>
    have hsum : inlinedInserts (changesText (token :: tokens)) =
        inlinedInserts token.text + inlinedInserts (changesText tokens) := by
      cases tokens with
      | nil => exact congrArg inlinedInserts (show changesText [token] = token.text by simp [changesText])
      | cons token' tokens =>
        have hcons : changesText (token :: token' :: tokens) =
            token.text ++ [','] ++ changesText (token' :: tokens) := List.intercalate_cons_cons
        rw [hcons, List.append_assoc, List.singleton_append, inlinedInserts_join]
    rw [hsum, ih, token.inlinedInserts_text, List.countP_cons, List.map_cons, List.sum_cons]
    omega

/-- Some name has a comma and `inlined_insert:` after it. -/
def nameMistaken (token : ChangeToken) : Bool :=
  token.names.any fun name => name.tails.any ((',' :: inlinedInsertWord).isPrefixOf ·)

theorem nameMistaken_eq_false_iff (token : ChangeToken) : nameMistaken token = false ↔ token.mistaken = 0 := by
  rw [token.mistaken_eq_zero_iff, infix_text_iff, ← Bool.not_eq_true]
  unfold nameMistaken
  rw [not_iff_not, List.any_eq_true]
  refine exists_congr fun name => and_congr_right fun _ => ?_
  rw [List.any_eq_true, List.infix_iff_prefix_suffix]
  refine exists_congr fun piece => ?_
  rw [List.mem_tails, List.isPrefixOf_iff_prefix]
  exact and_comm

/-- The ledger is unambiguous exactly for the lists of changes, not empty, of which no
    name holds `,inlined_insert:`. -/
theorem unambiguous_iff (tokens : List ChangeToken) :
    Unambiguous tokens ↔ tokens ≠ [] ∧ ∀ token ∈ tokens, nameMistaken token = false := by
  constructor
  · intro h
    refine ⟨fun hnil => ?_, fun token hm => ?_⟩
    · -- an empty text is one empty token
      have := h.split
      rw [hnil] at this
      cases this
    · have hcounted := h.counted
      rw [inlinedInserts_changesText] at hcounted
      have hzero : (tokens.map (·.mistaken)).sum = 0 := by omega
      exact (nameMistaken_eq_false_iff token).mpr
        (List.sum_eq_zero_iff_forall_eq_nat.mp hzero _ (List.mem_map_of_mem hm))
  · intro h
    obtain ⟨hne, hnames⟩ := h
    have hzero : (tokens.map (·.mistaken)).sum = 0 := by
      apply List.sum_eq_zero_iff_forall_eq_nat.mpr
      intro n hn
      obtain ⟨token, hm, rfl⟩ := List.mem_map.mp hn
      exact (nameMistaken_eq_false_iff token).mp (hnames token hm)
    refine ⟨tokens_changesText hne, fun nextFileId => ?_, snapshotHasChange_changesText tokens,
      conflictKinds_changesText tokens, changesNameTable_changesText tokens, ledgerTokens_changesText tokens,
      fun _ _ _ hok _ hkey display => shows_iff hok hkey display, ?_⟩
    · have hne' : changesText tokens ≠ [] := fun h => hne (changesText_eq_nil.mp h)
      have hrow : (recordSnapshotChanges (changesText tokens) ⟨none, nextFileId⟩).changesMade =
          some (changesText tokens) := if_neg (by simpa using hne')
      rw [hrow]
      exact tokens_changesText hne
    · rw [inlinedInserts_changesText, hzero, Nat.add_zero]

/-- A schema whose name goes on, after a comma, like an inlined insert. -/
def misleadingSchema : ChangeToken := .createdSchema "a,inlined_insert:7".toList

/-- Creating it counts an inlined insert that no token records, and takes a file id. -/
theorem inlinedInserts_miscounted :
    [misleadingSchema].countP (·.isInlinedInsert) = 0 ∧ inlinedInserts (changesText [misleadingSchema]) = 1 ∧
      (recordSnapshotChanges (changesText [misleadingSchema]) ⟨none, 5⟩).nextFileId = 6 ∧
      ¬ Unambiguous [misleadingSchema] := by
  have hcount : [misleadingSchema].countP (·.isInlinedInsert) = 0 := by decide
  have hone : inlinedInserts (changesText [misleadingSchema]) = 1 := by decide +kernel
  refine ⟨hcount, hone, by decide +kernel, fun h => ?_⟩
  have := h.counted
  rw [hone, hcount] at this
  cases this

end DuckLake.Ledger
