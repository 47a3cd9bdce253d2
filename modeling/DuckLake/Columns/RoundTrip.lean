import DuckLake.Columns.Rebuild
import DuckLake.Lib.Lists

/- Columns survive the catalog: what is stored for them is rebuilt as they are, with their
   types in the form the catalog has for them.

   A type is a forest of named nodes (`children`). The definitions stored for it describe
   those nodes in depth-first order (`appendColumnDef_describes`), so the rows are a forest
   of that shape (`exists_stored`), any list of them with the same siblings links it, and
   its types are the catalog's (`nodeType_of_stored`). -/

namespace DuckLake.Columns

open DuckLake.Types Forest
open Nested (maxNestedTypeDepth)

/-! ## Types as the catalog has them -/

mutual

/-- The form of a type after the catalog. Fields keep their names and nullability. -/
def catalogNormal : ArrowType → ArrowType
  | .leaf leaf => .leaf leaf.normal
  | .dictionary _ value => value.normal
  | .list _ _ element nullable => .list .list listElementName (catalogNormal element) nullable
  | .struct fields => .struct (catalogNormalFields fields)
  | .map _ (.struct (.cons _ key _ (.cons _ value nullable .nil))) _ _ =>
    mapEntries (catalogNormal key) (catalogNormal value) nullable
  | .map name entries nullable sorted => .map name entries nullable sorted

def catalogNormalFields : Fields → Fields
  | .nil => .nil
  | .cons name type nullable rest => .cons name (catalogNormal type) nullable (catalogNormalFields rest)

end

/-- A type with a text that is read back. -/
structure Written (type : ArrowType) : Prop where
  text : ∃ t, arrowToDucklakeType type = .ok t
  wellFormed : type.WellFormed
  depth : type.depth ≤ maxNestedTypeDepth

mutual

/-- Lists, structs and maps of scalars the catalog has a type for. -/
def Storable : ArrowType → Prop
  | .leaf leaf => Written (.leaf leaf)
  | .dictionary key value => Written (.dictionary key value)
  | .list _ _ element _ => Storable element
  | .struct fields => StorableFields fields
  | .map _ (.struct (.cons _ key _ (.cons _ value _ .nil))) _ _ => Storable key ∧ Storable value
  | .map _ _ _ _ => False

def StorableFields : Fields → Prop
  | .nil => True
  | .cons _ type _ rest => Storable type ∧ StorableFields rest

end

/-- A node of a type. The key of a map is never NULL, whatever its row says. -/
structure ColumnNode where
  name : Text
  type : ArrowType
  nullable : Option Bool

mutual

/-- The nodes below a type. -/
def children : ArrowType → Forest ColumnNode
  | .leaf _ | .dictionary _ _ => nil
  | .list _ _ element nullable => cons ⟨"element".toList, element, some nullable⟩ (children element) nil
  | .struct fields => fieldNodes fields
  | .map _ (.struct (.cons _ key _ (.cons _ value nullable .nil))) _ _ =>
    cons ⟨"key".toList, key, none⟩ (children key) (cons ⟨"value".toList, value, some nullable⟩ (children value) nil)
  | .map _ _ _ _ => nil

def fieldNodes : Fields → Forest ColumnNode
  | .nil => nil
  | .cons name type nullable rest => cons ⟨name, type, some nullable⟩ (children type) (fieldNodes rest)

end

def ColumnDef.node (column : ColumnDef) : ColumnNode := ⟨column.name, column.dataType, some column.isNullable⟩

def columnNodes : List ColumnDef → Forest ColumnNode
  | [] => nil
  | column :: columns => cons column.node (children column.dataType) (columnNodes columns)

/-! ## Column types -/

/-- A column type and the type of the column's node. -/
def StandsFor (columnType : Text) : ArrowType → Prop
  | .list _ _ _ _ => shapeOf columnType = .list
  | .struct _ => shapeOf columnType = .struct
  | .map _ _ _ _ => shapeOf columnType = .map
  | type => shapeOf columnType = .scalar ∧ ducklakeToArrowType columnType = .ok (catalogNormal type)

variable {defs : List CatalogColumnDef} {ids : List Int} {t : Text}

/-- A text with a character no nested type has names a scalar. -/
theorem shapeOf_of_mem {c : Char} (hc : c ∈ t)
    (h : c.toLower ∉ "list".toList ∧ c.toLower ∉ "struct".toList ∧ c.toLower ∉ "map".toList) : shapeOf t = .scalar := by
  have hlower : c.toLower ∈ lowercase t := List.mem_map_of_mem hc
  have hne : ∀ word : Text, c.toLower ∉ word → lowercase t ≠ word := fun word hword heq => hword (heq ▸ hlower)
  rw [shapeOf, if_neg (hne _ h.1), if_neg (hne _ h.2.1), if_neg (hne _ h.2.2)]

theorem shapeOf_angle (h : '<' ∈ t) : shapeOf t = .scalar := shapeOf_of_mem h (by decide)

theorem shapeOf_leaf {leaf : Leaf} (h : leaf.text = .ok t) : shapeOf t = .scalar := by
  rcases leafText_cases h with ⟨precision, scale, -, rfl⟩ | hmem
  · have hparen : '(' ∈ "decimal(".toList := by decide
    refine shapeOf_of_mem (c := '(') ?_ (by decide)
    exact List.mem_append_left _ (List.mem_append_left _ (List.mem_append_left _ (List.mem_append_left _ hparen)))
  · have hnames : leafNames.all (fun entry => shapeOf entry.1 = .scalar) = true := by decide +kernel
    exact of_decide_eq_true (List.all_eq_true.mp hnames _ hmem)

/-- No text of a type is the name of a nested shape. -/
theorem shapeOf_text : ∀ (type : ArrowType) {t : Text}, arrowToDucklakeType type = .ok t → shapeOf t = .scalar
  | .leaf _, _, h => shapeOf_leaf h
  | .dictionary _ value, _, h => shapeOf_text value h
  | .struct _, _, h => by
    obtain ⟨texts, -, ht⟩ := Checked.bind_eq_ok.mp h
    rw [← Checked.pure_eq_ok.mp ht]
    exact shapeOf_angle (List.mem_append_left _ (by decide))
  | .list _ _ _ _, _, h => by
    obtain ⟨inner, -, ht⟩ := Checked.bind_eq_ok.mp h
    rw [← Checked.pure_eq_ok.mp ht]
    exact shapeOf_angle (List.mem_append_left _ (by decide))
  | .map _ (.struct (.cons _ _ _ (.cons _ _ _ .nil))) _ _, _, h => by
    obtain ⟨keyText, -, h⟩ := Checked.bind_eq_ok.mp h
    obtain ⟨valueText, -, ht⟩ := Checked.bind_eq_ok.mp h
    rw [← Checked.pure_eq_ok.mp ht]
    exact shapeOf_angle (List.mem_append_left _ (by decide))
  | .map _ (.struct .nil) .., _, h | .map _ (.struct (.cons _ _ _ .nil)) .., _, h
  | .map _ (.struct (.cons _ _ _ (.cons _ _ _ (.cons ..)))) .., _, h | .map _ (.leaf _) .., _, h
  | .map _ (.dictionary ..) .., _, h | .map _ (.list ..) .., _, h | .map _ (.map ..) .., _, h => by cases h

mutual

/-- A type is written, and so is its form after the catalog, as the same text. -/
theorem text_catalogNormal : ∀ (type : ArrowType), Storable type →
    ∃ t, arrowToDucklakeType type = .ok t ∧ arrowToDucklakeType (catalogNormal type) = .ok t
  | .leaf leaf, h => by
    obtain ⟨t, ht⟩ := h.text
    exact ⟨t, ht, text_normal (.leaf leaf) ht⟩
  | .dictionary key value, h => by
    obtain ⟨t, ht⟩ := h.text
    exact ⟨t, ht, text_normal (.dictionary key value) ht⟩
  | .list _ _ element _, h => by
    obtain ⟨t, ht, hnormal⟩ := text_catalogNormal element h
    exact ⟨_, Checked.bind_eq_ok.mpr ⟨t, ht, rfl⟩, Checked.bind_eq_ok.mpr ⟨t, hnormal, rfl⟩⟩
  | .struct fields, h => by
    obtain ⟨texts, htexts, hnormal⟩ := text_catalogNormalFields fields h
    exact ⟨_, Checked.bind_eq_ok.mpr ⟨texts, htexts, rfl⟩, Checked.bind_eq_ok.mpr ⟨texts, hnormal, rfl⟩⟩
  | .map _ (.struct (.cons _ key _ (.cons _ value _ .nil))) _ _, h => by
    obtain ⟨k, hk, hnormalk⟩ := text_catalogNormal key h.1
    obtain ⟨v, hv, hnormalv⟩ := text_catalogNormal value h.2
    exact ⟨_, Checked.bind_eq_ok.mpr ⟨k, hk, Checked.bind_eq_ok.mpr ⟨v, hv, rfl⟩⟩,
      Checked.bind_eq_ok.mpr ⟨k, hnormalk, Checked.bind_eq_ok.mpr ⟨v, hnormalv, rfl⟩⟩⟩
  | .map _ (.struct .nil) .., h | .map _ (.struct (.cons _ _ _ .nil)) .., h
  | .map _ (.struct (.cons _ _ _ (.cons _ _ _ (.cons ..)))) .., h | .map _ (.leaf _) .., h
  | .map _ (.dictionary ..) .., h | .map _ (.list ..) .., h | .map _ (.map ..) .., h => nomatch h

theorem text_catalogNormalFields : ∀ (fields : Fields), StorableFields fields →
    ∃ texts, fieldTexts fields = .ok texts ∧ fieldTexts (catalogNormalFields fields) = .ok texts
  | .nil, _ => ⟨[], rfl, rfl⟩
  | .cons _ type _ rest, h => by
    obtain ⟨t, ht, hnormal⟩ := text_catalogNormal type h.1
    obtain ⟨texts, htexts, hnormals⟩ := text_catalogNormalFields rest h.2
    exact ⟨_, Checked.bind_eq_ok.mpr ⟨t, ht, Checked.bind_eq_ok.mpr ⟨texts, htexts, rfl⟩⟩,
      Checked.bind_eq_ok.mpr ⟨t, hnormal, Checked.bind_eq_ok.mpr ⟨texts, hnormals, rfl⟩⟩⟩

end

theorem reconstructedColumnType_of_storable (columnType : Text) {type : ArrowType} (h : Storable type) :
    ∃ t, reconstructedColumnType columnType (catalogNormal type) = .ok t := by
  obtain ⟨t, -, ht⟩ := text_catalogNormal type h
  unfold reconstructedColumnType
  dsimp only
  split
  · exact ⟨_, rfl⟩
  · split
    next heq _ => exact ⟨t, heq ▸ ht⟩
    next => exact ⟨_, rfl⟩
  next heq _ => exact ⟨t, ht⟩

/-- The name a type has in the catalog stands for it. -/
theorem standsFor_typeName {type : ArrowType} (h : Storable type) :
    ∃ t, catalogTypeName type = .ok t ∧ StandsFor t type := by
  have hread : ∀ (type : ArrowType) {t : Text}, Written type → arrowToDucklakeType type = .ok t →
      shapeOf t = .scalar ∧ ducklakeToArrowType t = .ok type.normal :=
    fun type t hwritten ht => ⟨shapeOf_text type ht, read_text type ht hwritten.wellFormed hwritten.depth⟩
  cases type with
  | leaf leaf =>
    obtain ⟨t, ht⟩ := h.text
    exact ⟨t, ht, hread (.leaf leaf) h ht⟩
  | dictionary key value =>
    obtain ⟨t, ht⟩ := h.text
    exact ⟨t, ht, hread (.dictionary key value) h ht⟩
  | list kind name element nullable =>
    have hshape : shapeOf "list".toList = .list := by decide
    exact ⟨_, rfl, hshape⟩
  | struct fields =>
    have hshape : shapeOf "struct".toList = .struct := by decide
    exact ⟨_, rfl, hshape⟩
  | map name entries nullable sorted =>
    have hshape : shapeOf "map".toList = .map := by decide
    exact ⟨_, rfl, hshape⟩

/-! ## What is stored -/

/-- A definition and the node it is made for. -/
structure Describes (x : Placed ColumnNode) (column : CatalogColumnDef) : Prop where
  name : column.name = x.value.name
  parentIndex : column.parentIndex = x.parent
  nullable : ∀ n, x.value.nullable = some n → column.isNullable = n
  type : StandsFor column.ducklakeType x.value.type

/-- The definitions appended to others describe the nodes placed after them. -/
def Appends (nodes : List (Placed ColumnNode)) (result : List CatalogColumnDef)
    (appended : Except Text (List CatalogColumnDef)) : Prop :=
  ∃ added, appended = .ok (result ++ added) ∧ List.Forall₂ Describes nodes added

theorem Appends.nil (result : List CatalogColumnDef) : Appends [] result (.ok result) :=
  ⟨[], by rw [List.append_nil], .nil⟩

theorem Appends.bind {a b : List (Placed ColumnNode)} {result : List CatalogColumnDef}
    {first : Except Text (List CatalogColumnDef)} {next : List CatalogColumnDef → Except Text (List CatalogColumnDef)}
    (hfirst : Appends a result first)
    (hnext : ∀ added, added.length = a.length → Appends b (result ++ added) (next (result ++ added))) :
    Appends (a ++ b) result (first >>= next) := by
  obtain ⟨added, rfl, hadded⟩ := hfirst
  obtain ⟨more, hmore, hmore'⟩ := hnext added hadded.length_eq.symm
  refine ⟨added ++ more, ?_, List.rel_append hadded hmore'⟩
  rw [← List.append_assoc]
  exact hmore

theorem Appends.root (node : ColumnNode) (next : List CatalogColumnDef → Except Text (List CatalogColumnDef))
    {below : List (Placed ColumnNode)} {result : List CatalogColumnDef} {start : Nat} (hstart : result.length = start)
    (h : Storable node.type) {isNullable : Bool} (hnullable : ∀ n, node.nullable = some n → isNullable = n)
    (parent : Option Nat)
    (hnext : ∀ result' : List CatalogColumnDef, result'.length = start + 1 → Appends below result' (next result')) :
    Appends (⟨node, start, parent⟩ :: below) result (do
      let column ← columnDefOf node.name node.type isNullable parent
      next (result ++ [column])) := by
  obtain ⟨name, hname, hstands⟩ := standsFor_typeName h
  obtain ⟨t, ht, -⟩ := text_catalogNormal node.type h
  have hcolumn : columnDefOf node.name node.type isNullable parent =
      .ok ⟨node.name, name, t, isNullable, parent, .none⟩ :=
    Checked.bind_eq_ok.mpr ⟨name, hname, Checked.bind_eq_ok.mpr ⟨t, ht, rfl⟩⟩
  obtain ⟨added, hadded, hdescribes⟩ := hnext (result ++ [⟨node.name, name, t, isNullable, parent, .none⟩])
    (by rw [List.length_append, hstart, List.length_singleton])
  refine ⟨⟨node.name, name, t, isNullable, parent, .none⟩ :: added, ?_, .cons ⟨rfl, rfl, hnullable, hstands⟩ hdescribes⟩
  rw [hcolumn]
  exact hadded.trans (by rw [List.append_assoc, List.singleton_append])

mutual

theorem appendColumnDef_appends : ∀ (type : ArrowType), Storable type → ∀ (name : Text) {isNullable : Bool}
    {nullable : Option Bool}, (∀ n, nullable = some n → isNullable = n) → ∀ (parent : Option Nat)
    (result : List CatalogColumnDef) {start : Nat}, result.length = start →
    Appends (⟨⟨name, type, nullable⟩, start, parent⟩ :: ((children type).place (some start) (start + 1)).nodes) result
      (appendColumnDef name type isNullable parent result)
  | .leaf leaf, h => by
    intro name isNullable nullable hnullable parent result start hstart
    rw [appendColumnDef]
    exact Appends.root ⟨name, _, nullable⟩ .ok hstart h hnullable parent fun result' _ => Appends.nil result'
  | .dictionary key value, h => by
    intro name isNullable nullable hnullable parent result start hstart
    rw [appendColumnDef]
    exact Appends.root ⟨name, _, nullable⟩ .ok hstart h hnullable parent fun result' _ => Appends.nil result'
  | .list kind field element elementNullable, h => by
    intro name isNullable nullable hnullable parent result start hstart
    rw [appendColumnDef, hstart, children, place, place, nodes, nodes, List.append_nil]
    refine Appends.root ⟨name, _, nullable⟩ (appendColumnDef "element".toList element elementNullable (some start))
      hstart h hnullable parent fun result' hlength => ?_
    exact appendColumnDef_appends element h _ (fun _ hn => Option.some.inj hn) (some start) result' hlength
  | .struct fields, h => by
    intro name isNullable nullable hnullable parent result start hstart
    rw [appendColumnDef, hstart, children]
    refine Appends.root ⟨name, _, nullable⟩ (appendFieldDefs fields start) hstart h hnullable parent
      fun result' hlength => ?_
    exact appendFieldDefs_appends fields h start result' hlength
  | .map field (.struct (.cons keyName key keyNullable (.cons valueName value valueNullable .nil))) fieldNullable
      sorted, h => by
    intro name isNullable nullable hnullable parent result start hstart
    rw [appendColumnDef, hstart, children, place, place, place, nodes, nodes, nodes, List.append_nil,
      ← List.cons_append]
    refine Appends.root ⟨name, _, nullable⟩
      (fun result' => appendColumnDef "key".toList key false (some start) result' >>=
        appendColumnDef "value".toList value valueNullable (some start)) hstart h hnullable parent
        fun result' hlength => ?_
    refine Appends.bind (appendColumnDef_appends key h.1 _ (fun n (hn : none = some n) => nomatch hn) (some start)
      result' hlength) ?_
    intro added hadded
    refine appendColumnDef_appends value h.2 _ (fun _ hn => Option.some.inj hn) (some start) _ ?_
    rw [List.length_append, hadded, hlength, List.length_cons, length_place]
    omega
  | .map _ (.struct .nil) .., h | .map _ (.struct (.cons _ _ _ .nil)) .., h
  | .map _ (.struct (.cons _ _ _ (.cons _ _ _ (.cons ..)))) .., h | .map _ (.leaf _) .., h
  | .map _ (.dictionary ..) .., h | .map _ (.list ..) .., h | .map _ (.map ..) .., h => nomatch h

theorem appendFieldDefs_appends : ∀ (fields : Fields), StorableFields fields → ∀ (index : Nat)
    (result : List CatalogColumnDef) {start : Nat}, result.length = start →
    Appends ((fieldNodes fields).place (some index) start).nodes result (appendFieldDefs fields index result)
  | .nil, _, index, result, start, _ => Appends.nil result
  | .cons name type nullable rest, h, index, result, start, hstart => by
    rw [appendFieldDefs, fieldNodes, place, nodes, ← List.cons_append]
    refine Appends.bind (appendColumnDef_appends type h.1 _ (fun _ hn => Option.some.inj hn) (some index)
      result hstart) ?_
    intro added hadded
    refine appendFieldDefs_appends rest h.2 index _ ?_
    rw [List.length_append, hadded, hstart, List.length_cons, length_place]
    omega

end

/-! ## Copied rows -/

/-- A copied row and the node it is copied for. -/
structure Agrees (node : ColumnNode) (copied : CatalogNode) : Prop where
  nullable : ∀ n, node.nullable = some n → copied.isNullable = n
  type : StandsFor copied.ducklakeType node.type

/-- The rows a column copies are those of its type. -/
def ColumnDef.CopiesItsType (column : ColumnDef) : Prop :=
  ∀ copied, column.catalogNodes = some copied →
    List.Forall₂ Agrees (column.node :: (children column.dataType).nodes) copied

theorem describes_copy {nodes : List (Placed ColumnNode)}
    (h : List.Forall₂ Describes nodes defs) : ∀ {copied : List CatalogNode},
      List.Forall₂ Agrees (nodes.map Placed.value) copied →
      List.Forall₂ Describes nodes (List.zipWith CatalogColumnDef.copy defs copied) := by
  induction h with
  | nil =>
    intro copied _
    exact .nil
  | cons hdef _ ih =>
    intro copied hcopied
    obtain ⟨node, copied, hnode, hrest, rfl⟩ := List.forall₂_cons_left_iff.mp hcopied
    exact .cons ⟨hdef.name, hdef.parentIndex, hnode.nullable, hnode.type⟩ (ih hrest)

theorem copyNodes_describes {column : ColumnDef} (hcopies : column.CopiesItsType) {nodes : List (Placed ColumnNode)}
    (hnodes : nodes.map Placed.value = column.node :: (children column.dataType).nodes)
    (h : List.Forall₂ Describes nodes defs) :
    ∃ defs', copyNodes column defs = .ok defs' ∧ List.Forall₂ Describes nodes defs' := by
  cases hcopied : column.catalogNodes with
  | none => exact ⟨defs, by rw [copyNodes, hcopied], h⟩
  | some copied =>
    have hagrees : List.Forall₂ Agrees (nodes.map Placed.value) copied := hnodes ▸ hcopies copied hcopied
    have hlength : defs.length = copied.length := by
      rw [← h.length_eq, ← hagrees.length_eq, List.length_map]
    refine ⟨_, ?_, describes_copy h hagrees⟩
    rw [copyNodes, hcopied]
    exact if_neg (not_not.mpr hlength)

theorem catalogColumnDefs_appends (columns : List ColumnDef) (hstorable : ∀ column ∈ columns, Storable column.dataType)
    (hcopies : ∀ column ∈ columns, column.CopiesItsType) : ∀ (result : List CatalogColumnDef) {start : Nat},
    result.length = start → Appends ((columnNodes columns).place none start).nodes result
      (columns.foldlM pushColumnDefs result) := by
  induction columns with
  | nil => exact fun result _ _ => Appends.nil result
  | cons column columns ih =>
    intro result start hstart
    rw [List.foldlM_cons, columnNodes, place, nodes, ← List.cons_append]
    obtain ⟨hhead, hrest⟩ := List.forall_mem_cons.mp hstorable
    obtain ⟨hheadCopies, hrestCopies⟩ := List.forall_mem_cons.mp hcopies
    refine Appends.bind ?_ fun added hadded => ih hrest hrestCopies _ ?_
    · obtain ⟨added, happended, hdescribes⟩ :=
        appendColumnDef_appends column.dataType hhead column.name (fun _ hn => Option.some.inj hn) none result hstart
      obtain ⟨root, below, hroot, hbelow, rfl⟩ := List.forall₂_cons_left_iff.mp hdescribes
      have hdefs : List.Forall₂ Describes (⟨column.node, start, none⟩ ::
          ((children column.dataType).place (some start) (start + 1)).nodes)
          ({ root with defaults := column.defaults } :: below) :=
        .cons ⟨hroot.name, hroot.parentIndex, hroot.nullable, hroot.type⟩ hbelow
      obtain ⟨defs, hcopied, hdefs'⟩ := copyNodes_describes hheadCopies
        (by rw [List.map_cons, value_place]) hdefs
      refine ⟨defs, ?_, hdefs'⟩
      rw [pushColumnDefs, happended]
      dsimp only [bind, Except.bind]
      rw [Lists.modify_append_cons, List.drop_left, List.take_left, hcopied]
      rfl
    · rw [List.length_append, hadded, hstart, List.length_cons, length_place]
      omega

/-! ## The forest of the rows -/

section Stored

variable {ids : List Int}

/-- A row and the node it is stored for. -/
structure StoredFor (ids : List Int) (x : Placed ColumnNode) (row : ColumnRow) : Prop where
  columnId : row.columnId = ids.getD x.index 0
  parentId : row.parentId = x.parent.map (ids.getD · 0)
  name : row.columnName = x.value.name
  nullable : ∀ n, x.value.nullable = some n → row.isNullable = n
  type : StandsFor row.columnType x.value.type

theorem storedFor_storedRow {x : Placed ColumnNode} {column : CatalogColumnDef} {id : Int} (h : Describes x column)
    (hid : id = ids.getD x.index 0) :
    StoredFor ids x ⟨id, column.name, column.ducklakeType, column.isNullable, column.defaults.read,
      column.parentIndex.map (ids.getD · 0)⟩ :=
  ⟨hid, by rw [h.parentIndex], h.name, h.nullable, h.type⟩

/-- The rows of definitions are stored for the nodes those describe. -/
theorem storedFor_storedRows {nodes : List (Placed ColumnNode)} {defs : List CatalogColumnDef}
    (h : List.Forall₂ Describes nodes defs) : ∀ {start : Nat}, nodes.map Placed.index = List.range' start nodes.length →
      ∀ {rest : List Int}, rest = ids.drop start → rest.length = defs.length →
      List.Forall₂ (StoredFor ids) nodes (List.zipWith (fun column id => (⟨id, column.name, column.ducklakeType,
        column.isNullable, column.defaults.read, column.parentIndex.map (ids.getD · 0)⟩ : ColumnRow)) defs rest) := by
  induction h with
  | nil =>
    intro start _ rest _ _
    exact .nil
  | cons hdef _ ih =>
    intro start hindex rest hrest hlength
    cases rest with
    | nil => cases hlength
    | cons id rest =>
      rw [List.length_cons, List.map_cons, List.range'_succ] at hindex
      obtain ⟨hhead, htail⟩ := List.cons.inj hindex
      have hid : ids[start]? = some id := by
        rw [← List.head?_drop, ← hrest]
        rfl
      have hdrop : rest = ids.drop (start + 1) := by
        rw [← List.drop_drop, ← hrest]
        rfl
      refine .cons (storedFor_storedRow hdef ?_) (ih htail hdrop (Nat.succ.inj hlength))
      rw [hhead, List.getD_eq_getElem?_getD, hid]
      rfl

theorem parented_of_stored {F : Forest ColumnNode} : ∀ {parent : Option Nat} {start : Nat} {G : Forest ColumnRow},
    Rel (StoredFor ids) (F.place parent start) G →
    G.Parented ColumnRow.columnId ColumnRow.parentId (parent.map (ids.getD · 0)) := by
  induction F with
  | nil =>
    intro parent start G h
    cases h
    trivial
  | cons v c r ihc ihr =>
    intro parent start G h
    cases h with
    | cons root children rest =>
      refine ⟨root.parentId, ?_, ihr rest⟩
      rw [root.columnId]
      exact ihc children

mutual

/-- The rows below a row of some type make it a column of the type the catalog has for it. -/
theorem nodeType_of_stored : ∀ (type : ArrowType), Storable type → ∀ (row : ColumnRow), StandsFor row.columnType type →
    ∀ {parent : Option Nat} {start : Nat} {G : Forest ColumnRow},
    Rel (StoredFor ids) ((children type).place parent start) G →
    (forestTypes G).bind (nodeType row) = some (catalogNormal type)
  | .leaf leaf, h => by
    intro row hrow parent start G hG
    cases hG
    rw [forestTypes, Option.bind_some, nodeType, hrow.1, hrow.2]
    rfl
  | .dictionary key value, h => by
    intro row hrow parent start G hG
    cases hG
    rw [forestTypes, Option.bind_some, nodeType, hrow.1, hrow.2]
    rfl
  | .list kind field element nullable, h => by
    intro row hrow parent start G hG
    rw [children, place, place] at hG
    obtain ⟨⟩ | ⟨root, below, ⟨⟩⟩ := hG
    have helement := nodeType_of_stored element h _ root.type below
    rw [forestTypes, helement, forestTypes]
    dsimp only [bind, Option.bind, pure]
    rw [nodeType, show shapeOf row.columnType = .list from hrow, ← root.nullable nullable rfl]
    rfl
  | .struct fields, h => by
    intro row hrow parent start G hG
    obtain ⟨types, htypes, hfields⟩ := forestTypes_of_stored fields h hG
    rw [htypes, Option.bind_some, nodeType, show shapeOf row.columnType = .struct from hrow, catalogNormal, ← hfields]
  | .map field (.struct (.cons keyName key keyNullable (.cons valueName value nullable .nil))) fieldNullable sorted,
      h => by
    intro row hrow parent start G hG
    rw [children, place, place, place] at hG
    obtain ⟨⟩ | ⟨keyRoot, keyBelow, ⟨⟩ | ⟨valueRoot, valueBelow, ⟨⟩⟩⟩ := hG
    have hkey := nodeType_of_stored key h.1 _ keyRoot.type keyBelow
    have hvalue := nodeType_of_stored value h.2 _ valueRoot.type valueBelow
    rw [forestTypes, hkey, forestTypes, hvalue, forestTypes]
    dsimp only [bind, Option.bind, pure]
    rw [nodeType, show shapeOf row.columnType = .map from hrow, ← valueRoot.nullable nullable rfl]
    exact if_pos ⟨keyRoot.name, valueRoot.name⟩
  | .map _ (.struct .nil) .., h | .map _ (.struct (.cons _ _ _ .nil)) .., h
  | .map _ (.struct (.cons _ _ _ (.cons _ _ _ (.cons ..)))) .., h | .map _ (.leaf _) .., h
  | .map _ (.dictionary ..) .., h | .map _ (.list ..) .., h | .map _ (.map ..) .., h => nomatch h

theorem forestTypes_of_stored : ∀ (fields : Fields), StorableFields fields → ∀ {parent : Option Nat} {start : Nat}
    {G : Forest ColumnRow}, Rel (StoredFor ids) ((fieldNodes fields).place parent start) G →
    ∃ types, forestTypes G = some types ∧ structFields types = catalogNormalFields fields
  | .nil, _, parent, start, G, hG => by
    cases hG
    exact ⟨[], rfl, rfl⟩
  | .cons name type nullable rest, h, parent, start, G, hG => by
    rw [fieldNodes, place] at hG
    obtain ⟨⟩ | ⟨root, below, others⟩ := hG
    have htype := nodeType_of_stored type h.1 _ root.type below
    obtain ⟨types, htypes, hfields⟩ := forestTypes_of_stored rest h.2 others
    refine ⟨_ :: types, by rw [forestTypes, htype, htypes]; rfl, ?_⟩
    rw [structFields, hfields, root.name, root.nullable nullable rfl, catalogNormalFields]

end

theorem forestTypes_of_columns : ∀ (columns : List ColumnDef), (∀ column ∈ columns, Storable column.dataType) →
    ∀ {start : Nat} {G : Forest ColumnRow}, Rel (StoredFor ids) ((columnNodes columns).place none start) G →
    ∃ types, forestTypes G = some types ∧
      ∀ entry ∈ types, ∃ columnType, reconstructedColumnType entry.1.columnType entry.2 = .ok columnType
  | [], _, start, G, hG => by
    cases hG
    exact ⟨[], rfl, fun _ hentry => nomatch hentry⟩
  | column :: columns, h, start, G, hG => by
    rw [columnNodes, place] at hG
    obtain ⟨⟩ | ⟨root, below, others⟩ := hG
    obtain ⟨hcolumn, hcolumns⟩ := List.forall_mem_cons.mp h
    have htype := nodeType_of_stored column.dataType hcolumn _ root.type below
    obtain ⟨types, htypes, hwritten⟩ := forestTypes_of_columns columns hcolumns others
    refine ⟨_ :: types, by rw [forestTypes, htype, htypes]; rfl, List.forall_mem_cons.mpr ⟨?_, hwritten⟩⟩
    exact reconstructedColumnType_of_storable _ hcolumn

end Stored

/-! ## Columns survive the catalog -/

/-- A rebuilt column and the column it was stored for. -/
structure Rebuilt (column : ColumnDef) (rebuilt : DuckLakeTableColumn) : Prop where
  name : rebuilt.columnName = column.name
  nullable : rebuilt.isNullable = column.isNullable
  type : rebuilt.dataType = catalogNormal column.dataType
  nested : rebuilt.nestedColumnIds.length = (children column.dataType).nodes.length

theorem rebuilt_of_built : ∀ (columns : List ColumnDef), (∀ column ∈ columns, Storable column.dataType) →
    ∀ {start : Nat} {G : Forest ColumnRow}, Rel (StoredFor ids) ((columnNodes columns).place none start) G →
    ∀ {rebuilt : List DuckLakeTableColumn}, BuiltAll G rebuilt → List.Forall₂ Rebuilt columns rebuilt
  | [], _, start, G, hG, rebuilt, hbuilt => by
    cases hG
    cases hbuilt
    exact .nil
  | column :: columns, h, start, G, hG, rebuilt, hbuilt => by
    rw [columnNodes, place] at hG
    obtain ⟨⟩ | ⟨root, below, others⟩ := hG
    obtain ⟨hcolumn, hcolumns⟩ := List.forall_mem_cons.mp h
    cases hbuilt with
    | cons built rest =>
      have htype := nodeType_of_stored column.dataType hcolumn _ root.type below
      refine .cons ⟨?_, ?_, ?_, ?_⟩ (rebuilt_of_built columns hcolumns others rest)
      · rw [built.column]
        exact root.name
      · rw [built.column]
        exact root.nullable column.isNullable rfl
      · exact Option.some.inj (built.type.symm.trans htype)
      · rw [built.column, ColumnRow.column, List.length_map, ← below.length_eq, length_place]

/-- Rows in an order that keeps siblings in order. -/
structure InSiblingOrder (rows stored : List ColumnRow) : Prop where
  perm : rows.Perm stored
  siblings : ∀ parent, Forest.siblings ColumnRow.parentId rows parent = Forest.siblings ColumnRow.parentId stored parent

theorem checkRows_of_parented {rows : List ColumnRow} {G : Forest ColumnRow} (hperm : rows.Perm G.nodes)
    (hnodup : (G.nodes.map (·.columnId)).Nodup) (hG : G.Parented ColumnRow.columnId ColumnRow.parentId none) :
    checkRows rows = .ok () := by
  rw [checkRows, if_neg (not_not.mpr ((hperm.map _).nodup_iff.mpr hnodup)), Checked.forM_eq_ok]
  intro row hrow
  rcases parent_of_mem hG (hperm.mem_iff.mp hrow) with hnone | ⟨parent, hparent, hsome⟩
  · rw [hnone]
  · rw [hsome]
    exact if_pos (List.mem_map_of_mem (hperm.mem_iff.mpr hparent))

/-- Rows stored for columns, in any order that keeps siblings in order, are rebuilt as those columns. -/
theorem reconstructColumns_of_stored {columns : List ColumnDef}
    (hstorable : ∀ column ∈ columns, Storable column.dataType)
    (hdepth : (columnNodes columns).levels ≤ maxNestedTypeDepth) (hids : ids.Nodup) {stored rows : List ColumnRow}
    (hstored : List.Forall₂ (StoredFor ids) ((columnNodes columns).place none 0).nodes stored)
    (hcolumnIds : stored.map (·.columnId) = ids) (horder : InSiblingOrder rows stored) {fuel : Nat}
    (hfuel : maxNestedTypeDepth ≤ fuel) :
    ∃ rebuilt, reconstructColumns fuel rows = .ok rebuilt ∧ List.Forall₂ Rebuilt columns rebuilt ∧
      rebuilt.flatMap (fun column => column.columnId :: column.nestedColumnIds) = ids := by
  obtain ⟨G, rfl, hG⟩ := exists_rel _ hstored
  have hparented : G.Parented ColumnRow.columnId ColumnRow.parentId none := parented_of_stored hG
  have hnodup : (G.nodes.map (·.columnId)).Nodup := hcolumnIds ▸ hids
  have hlinked : LinkedBy rows G := linked_of_parented hparented hnodup (fun _ _ => Option.some_ne_none _)
    fun row _ => horder.siblings (some row.columnId)
  have hroots : G.roots = siblings ColumnRow.parentId rows none := by
    rw [horder.siblings none, siblings_nodes hparented fun _ _ => Option.some_ne_none _]
  have hlevels : G.levels ≤ maxNestedTypeDepth := by
    rw [← hG.levels_eq, levels_place]
    exact hdepth
  obtain ⟨types, htypes, hwritten⟩ := forestTypes_of_columns columns hstorable hG
  obtain ⟨rebuilt, hbuilt, hrebuilt⟩ := reconstructRoots_of_linked hlinked hfuel hlevels hnodup htypes hwritten
  refine ⟨rebuilt, ?_, rebuilt_of_built columns hstorable hG hbuilt, hbuilt.ids.trans hcolumnIds⟩
  rw [reconstructColumns, checkRows_of_parented horder.perm hnodup hparented, ← hroots, hrebuilt]
  have hcount : (rebuilt.map fun column => 1 + column.nestedColumnIds.length).sum = rows.length :=
    hbuilt.count.trans horder.perm.length_eq.symm
  exact if_neg (not_not.mpr hcount)

theorem columnId_storedRows (h : ids.length = defs.length) :
    (storedRows defs ids).map (·.columnId) = ids := by
  rw [storedRows, List.map_zipWith, ← List.map_uncurry_zip_eq_zipWith]
  exact List.map_snd_zip h.le

theorem levels_columnNodes {columns : List ColumnDef} {limit : Nat}
    (h : ∀ column ∈ columns, (children column.dataType).levels < limit) : (columnNodes columns).levels ≤ limit := by
  induction columns with
  | nil => exact Nat.zero_le _
  | cons column columns ih =>
    obtain ⟨hcolumn, hcolumns⟩ := List.forall_mem_cons.mp h
    exact max_le hcolumn (ih hcolumns)

/-- Columns of any nested types keep their names, order, nullability and types, as the
    catalog has them, through rows in any order that keeps siblings in order. From any rows
    the columns rebuilt are trees that use each row once, or the rows are refused. -/
theorem columns_survive_catalog :
    (∀ columns : List ColumnDef,
      (∀ column ∈ columns, Storable column.dataType ∧ column.CopiesItsType ∧
        (children column.dataType).levels < maxNestedTypeDepth) →
      ∃ defs, catalogColumnDefs columns = .ok defs ∧ ∀ ids : List Int, ids.Nodup → ids.length = defs.length →
        ∀ rows, InSiblingOrder rows (storedRows defs ids) → ∀ fuel, maxNestedTypeDepth ≤ fuel →
        ∃ rebuilt, reconstructColumns fuel rows = .ok rebuilt ∧ List.Forall₂ Rebuilt columns rebuilt ∧
          rebuilt.flatMap (fun column => column.columnId :: column.nestedColumnIds) = ids) ∧
    ∀ rows, (∃ message, ∀ fuel, maxNestedTypeDepth ≤ fuel → reconstructColumns fuel rows = .error (.invalid message)) ∨
      ∃ columns F, Trees rows F ∧ BuiltAll F columns ∧
        ∀ fuel, maxNestedTypeDepth ≤ fuel → reconstructColumns fuel rows = .ok columns := by
  refine ⟨fun columns h => ?_, reconstructColumns_cases⟩
  have hdepth := levels_columnNodes fun column hcolumn => (h column hcolumn).2.2
  have hstorable : ∀ column ∈ columns, Storable column.dataType := fun column hcolumn => (h column hcolumn).1
  obtain ⟨defs, hdefs, hdescribes⟩ :=
    catalogColumnDefs_appends columns hstorable (fun column hcolumn => (h column hcolumn).2.1) [] rfl
  refine ⟨defs, hdefs, fun ids hids hlength rows horder fuel hfuel => ?_⟩
  have hindex : ((columnNodes columns).place none 0).nodes.map Placed.index =
      List.range' 0 ((columnNodes columns).place none 0).nodes.length := by rw [index_place, length_place]
  have hstored := storedFor_storedRows hdescribes hindex (ids.drop_zero).symm hlength
  exact reconstructColumns_of_stored hstorable hdepth hids hstored (columnId_storedRows hlength) horder hfuel

/-- A list of integers that may not be NULL, and a text. -/
def sampleColumns : List ColumnDef :=
  [⟨"c".toList, true, .list .largeList "x".toList (.leaf (.integer .int32)) false, .none, none⟩,
   ⟨"d".toList, false, .leaf (.string .utf8), .none, none⟩]

/-- Their rows, the element before its list. -/
def sampleRows : List ColumnRow :=
  [⟨9, "element".toList, "int32".toList, false, .none, some 5⟩, ⟨5, "c".toList, "list".toList, true, .none, none⟩,
   ⟨2, "d".toList, "varchar".toList, false, .none, none⟩]

theorem sampleRows_survive : ∃ rebuilt, reconstructColumns maxNestedTypeDepth sampleRows = .ok rebuilt ∧
    List.Forall₂ Rebuilt sampleColumns rebuilt ∧
    rebuilt.flatMap (fun column => column.columnId :: column.nestedColumnIds) = [5, 9, 2] := by
  have hword : ∀ {leaf : Leaf} {t : Text}, leaf.text = .ok t → leaf.WellFormed → Written (.leaf leaf) :=
    fun ht hwf => ⟨⟨_, ht⟩, hwf, Nat.zero_le _⟩
  have hcolumns : ∀ column ∈ sampleColumns, Storable column.dataType ∧ column.CopiesItsType ∧
      (children column.dataType).levels < maxNestedTypeDepth := by
    refine List.forall_mem_cons.mpr ⟨⟨hword rfl trivial, fun _ h => (nomatch h), by decide⟩, ?_⟩
    exact List.forall_mem_singleton.mpr ⟨hword rfl trivial, fun _ h => (nomatch h), by decide⟩
  obtain ⟨hrebuild, -⟩ := columns_survive_catalog
  obtain ⟨defs, hdefs, hrows⟩ := hrebuild sampleColumns hcolumns
  obtain rfl := Except.ok.inj hdefs
  refine hrows [5, 9, 2] (by decide) rfl sampleRows ⟨?_, fun parent => ?_⟩ maxNestedTypeDepth le_rfl
  · decide
  · by_cases hnone : parent = none
    · subst hnone
      decide
    by_cases hfive : parent = some 5
    · subst hfive
      decide
    have hempty : ∀ l : List ColumnRow, (∀ row ∈ l, row.parentId = none ∨ row.parentId = some 5) →
        siblings ColumnRow.parentId l parent = [] := by
      intro l hl
      refine List.filter_eq_nil_iff.mpr fun row hrow heq => ?_
      rcases hl row hrow with h | h
      · exact hnone ((of_decide_eq_true heq).symm.trans h)
      · exact hfive ((of_decide_eq_true heq).symm.trans h)
    rw [hempty sampleRows (by decide), hempty _ (by decide)]

end DuckLake.Columns
