import DuckLake.Lib.Lists
import DuckLake.Partition.History
import DuckLake.Stats.Spelling

/- That splitting a write is an exact partition of its rows
   (`split_batches_by_partition`).

   The writer groups by text: a row's group is the list of texts its transformed keys
   have. Two facts make the texts as good as the keys. The groups are the input filtered
   by that list, which is a fact about any grouping; and the encoder is injective on the
   values of one type, which `Stats/Spelling` has for every type but the floats. -/

namespace DuckLake.Partition

/-! ## Groups -/

section Groups
variable {α : Type}

/-- The items of one group, none where there is no such group. -/
def members : Groups α → List (Option Text) → List α
  | [], _ => []
  | (values, items) :: rest, w => if w = values then items else members rest w

theorem members_addToGroup (values w : List (Option Text)) (item : α) (groups : Groups α) :
    members (addToGroup values item groups) w =
      if w = values then members groups w ++ [item] else members groups w := by
  induction groups with
  | nil => simp only [addToGroup, members, List.nil_append]
  | cons g groups ih =>
    by_cases hg : g.1 = values
    · by_cases hw : w = g.1
      · simp [addToGroup, members, hg, hw]
      · have hw' : w ≠ values := hg ▸ hw
        simp [addToGroup, members, hg, hw']
    · by_cases hw : w = g.1
      · simp [addToGroup, members, hg, hw]
      · simp [addToGroup, members, hg, hw, ih]

theorem mem_keys_addToGroup {values w : List (Option Text)} {item : α} {groups : Groups α} :
    w ∈ (addToGroup values item groups).map (·.1) ↔ w = values ∨ w ∈ groups.map (·.1) := by
  induction groups with
  | nil => simp [addToGroup]
  | cons g groups ih =>
    unfold addToGroup
    split
    · next hg => simp [hg]
    · rw [List.map_cons, List.mem_cons, ih, List.map_cons, List.mem_cons]
      exact or_left_comm

theorem nodup_addToGroup {values : List (Option Text)} {item : α} {groups : Groups α}
    (h : (groups.map (·.1)).Nodup) : ((addToGroup values item groups).map (·.1)).Nodup := by
  induction groups with
  | nil => simp [addToGroup]
  | cons g groups ih =>
    rw [List.map_cons, List.nodup_cons] at h
    unfold addToGroup
    split
    · exact List.nodup_cons.mpr h
    · next hg =>
      refine List.nodup_cons.mpr ⟨?_, ih h.2⟩
      rw [mem_keys_addToGroup]
      exact fun hmem => hmem.elim hg h.1

theorem members_of_mem {groups : Groups α} (hnodup : (groups.map (·.1)).Nodup)
    {g : List (Option Text) × List α} (hg : g ∈ groups) : members groups g.1 = g.2 := by
  induction groups with
  | nil => cases hg
  | cons g' groups ih =>
    rw [List.map_cons, List.nodup_cons] at hnodup
    rw [members]
    cases hg with
    | head => exact if_pos rfl
    | tail _ hg =>
      have hne : g.1 ≠ g'.1 := fun h => hnodup.1 (h ▸ List.mem_map_of_mem hg)
      rw [if_neg hne, ih hnodup.2 hg]

theorem members_of_notMem {groups : Groups α} {values : List (Option Text)} (h : values ∉ groups.map (·.1)) :
    members groups values = [] := by
  induction groups with
  | nil => rfl
  | cons g groups ih =>
    rw [List.map_cons, List.mem_cons, not_or] at h
    rw [members, if_neg h.1, ih h.2]

theorem flatten_members_foldl (perBatch : Groups α) (hnodup : (perBatch.map (·.1)).Nodup) (groups : Groups (List α))
    (w : List (Option Text)) :
    (members (perBatch.foldl (fun groups part => addToGroup part.1 part.2 groups) groups) w).flatten =
      (members groups w).flatten ++ members perBatch w := by
  induction perBatch generalizing groups with
  | nil => exact (List.append_nil _).symm
  | cons part perBatch ih =>
    rw [List.map_cons, List.nodup_cons] at hnodup
    rw [List.foldl_cons, ih hnodup.2, members_addToGroup, members]
    by_cases hw : w = part.1
    · have hrest : members perBatch w = [] := members_of_notMem (hw ▸ hnodup.1)
      rw [if_pos hw, if_pos hw, hrest, List.append_nil, List.flatten_append, List.flatten_singleton]
    · rw [if_neg hw, if_neg hw]

theorem mem_keys_foldl {perBatch : Groups α} {groups : Groups (List α)} {w : List (Option Text)} :
    w ∈ (perBatch.foldl (fun groups part => addToGroup part.1 part.2 groups) groups).map (·.1) ↔
      w ∈ perBatch.map (·.1) ∨ w ∈ groups.map (·.1) := by
  induction perBatch generalizing groups with
  | nil => simp
  | cons part perBatch ih =>
    rw [List.foldl_cons, ih, mem_keys_addToGroup, List.map_cons, List.mem_cons, or_assoc]
    exact or_left_comm

theorem nodup_foldl {perBatch : Groups α} {groups : Groups (List α)} (h : (groups.map (·.1)).Nodup) :
    ((perBatch.foldl (fun groups part => addToGroup part.1 part.2 groups) groups).map (·.1)).Nodup := by
  induction perBatch generalizing groups with
  | nil => exact h
  | cons part perBatch ih => exact ih (nodup_addToGroup h)

end Groups

/-! ## The rows of a group -/

/-- The groups a list of rows makes, as `rows` gives the rows of a group: a group for
each row, and in each group the rows that have its values, in order. -/
structure Grouped {α : Type} (key : α → Option (List (Option Text))) (items : List α)
    (groupKeys : List (List (Option Text))) (rows : List (Option Text) → List α) : Prop where
  nodup : groupKeys.Nodup
  total : ∀ x ∈ items, ∃ values ∈ groupKeys, key x = some values
  rows_eq : ∀ values, rows values = items.filter fun x => decide (key x = some values)

section Split
variable {fmt : FloatText} {datePart : DatePart} {arrow : ArrowParser} {keys : List PartitionWriteKey}

theorem splitBatch_grouped {batch : List StoredRow} {groups : Groups StoredRow}
    (h : splitBatch fmt datePart keys batch = some groups) :
    Grouped (rowValues fmt datePart keys) batch (groups.map (·.1)) (members groups) := by
  refine Lists.foldlM_done (P := fun batch groups =>
    Grouped (rowValues fmt datePart keys) batch (groups.map (·.1)) (members groups)) ?_ ?_ h
  · intro batch groups row groups' hgroups hadd
    obtain ⟨values, hvalues, rfl⟩ := Option.map_eq_some_iff.mp hadd
    refine ⟨nodup_addToGroup hgroups.nodup, ?_, ?_⟩
    · intro x hx
      rcases List.mem_append.mp hx with hx | hx
      · obtain ⟨w, hw, hkey⟩ := hgroups.total x hx
        exact ⟨w, mem_keys_addToGroup.mpr (.inr hw), hkey⟩
      · rw [List.mem_singleton.mp hx]
        exact ⟨values, mem_keys_addToGroup.mpr (.inl rfl), hvalues⟩
    · intro w
      rw [members_addToGroup, hgroups.rows_eq, List.filter_append]
      by_cases hw : w = values
      · simp [hw, hvalues]
      · simp [hw, hvalues, Ne.symm hw]
  · exact ⟨List.nodup_nil, by simp, fun _ => rfl⟩

theorem splitBatches_grouped {batches : List (List StoredRow)} {groups : Groups (List StoredRow)}
    (h : splitBatchesByPartition fmt datePart keys batches = some groups) :
    Grouped (rowValues fmt datePart keys) batches.flatten (groups.map (·.1)) fun w => (members groups w).flatten := by
  refine Lists.foldlM_done (P := fun batches groups =>
    Grouped (rowValues fmt datePart keys) batches.flatten (groups.map (·.1)) fun w =>
      (members groups w).flatten) ?_ ?_ h
  · intro batches groups batch groups' hgroups hadd
    obtain ⟨perBatch, hper, rfl⟩ := Option.map_eq_some_iff.mp hadd
    have hbatch := splitBatch_grouped hper
    rw [List.flatten_append, List.flatten_singleton]
    refine ⟨nodup_foldl hgroups.nodup, ?_, ?_⟩
    · intro x hx
      rcases List.mem_append.mp hx with hx | hx
      · obtain ⟨w, hw, hkey⟩ := hgroups.total x hx
        exact ⟨w, mem_keys_foldl.mpr (.inr hw), hkey⟩
      · obtain ⟨w, hw, hkey⟩ := hbatch.total x hx
        exact ⟨w, mem_keys_foldl.mpr (.inl hw), hkey⟩
    · intro w
      rw [flatten_members_foldl _ hbatch.nodup, hgroups.rows_eq, hbatch.rows_eq, List.filter_append]
  · exact ⟨List.nodup_nil, by simp, fun _ => rfl⟩

/-- In each group are the rows that have its values. -/
theorem rows_of_group {batches : List (List StoredRow)} {groups : Groups (List StoredRow)}
    (h : splitBatchesByPartition fmt datePart keys batches = some groups)
    {g : List (Option Text) × List (List StoredRow)} (hg : g ∈ groups) :
    g.2.flatten = batches.flatten.filter fun row => decide (rowValues fmt datePart keys row = some g.1) := by
  have hgrouped := splitBatches_grouped h
  rw [← hgrouped.rows_eq, members_of_mem hgrouped.nodup hg]

/-! ## The files of a split write

They are written under the generation that laid them out. -/

/-- The file a group's rows are written to, stamped with the group's values. -/
def groupFile (partitionId : Nat) (values : List (Option Text)) (rows : List StoredRow) : PartitionedFile where
  partitionId := some partitionId
  partitionValues := values.zipIdx.map fun v => (v.2, v.1)
  rows := rows

theorem partitionValue_records {transform : PartitionTransform} {v : ScalarValue} {recorded : Option Text}
    (h : partitionValue fmt datePart transform v = some recorded) :
    ∃ key, transformScalar datePart transform v = some key ∧ RecordsKey fmt arrow key recorded := by
  simp only [partitionValue, Option.bind_eq_bind, Option.bind_eq_some_iff] at h
  obtain ⟨key, hkey, h⟩ := h
  refine ⟨key, hkey, ?_⟩
  split at h
  · next hnull =>
    cases h
    exact hnull
  · next hnull =>
    obtain ⟨text, htext, h⟩ := Option.bind_eq_some_iff.mp h
    cases h
    exact ⟨by simpa using hnull, .inl htext⟩

/-- A file of a split write stands for its rows under the generation it was laid out by. -/
theorem groupFile_written {batches : List (List StoredRow)} {groups : Groups (List StoredRow)}
    (hsplit : splitBatchesByPartition fmt datePart keys batches = some groups)
    {g : List (Option Text) × List (List StoredRow)}
    (hg : g ∈ groups) {rows : List StoredRow} (hrows : ∀ row ∈ rows, ∃ batch ∈ g.2, row ∈ batch) {pid : Nat}
    {columns : List PartitionColumn}
    (hkeys : ∀ c ∈ columns, c.partitionId = pid → keys[c.partitionKeyIndex]? = some ⟨c.columnId, c.transform⟩) :
    (groupFile pid g.1 rows).WrittenUnder fmt datePart arrow columns := by
  intro v hv c hc hpid hindex row hrow
  obtain ⟨⟨recorded, i⟩, hmem, rfl⟩ := List.mem_map.mp hv
  obtain ⟨batch, hbatch, hrow⟩ := hrows row hrow
  have hmember : row ∈ g.2.flatten := List.mem_flatten.mpr ⟨batch, hbatch, hrow⟩
  rw [rows_of_group hsplit hg, List.mem_filter, decide_eq_true_eq] at hmember
  have hrecorded : g.1[i]? = some recorded := List.mk_mem_zipIdx_iff_getElem?.mp hmem
  have hkey := hkeys c hc hpid
  rw [hindex] at hkey
  exact partitionValue_records (List.forall₂_zip (Lists.mapM_forall₂ hmember.2)
    (List.mem_of_getElem? (List.getElem?_zip_eq_some.mpr ⟨hkey, hrecorded⟩)))

/-! ## Equal keys -/

/-- Arrow's date parts are 32-bit integers, or NULL. -/
def DatePart.Typed (datePart : DatePart) : Prop :=
  ∀ transform v w, datePart transform v = some w → w.dataType = .integer .int32

theorem instantPart_dataType (transform : PartitionTransform) (zoned : Bool) (days hour : Int) :
    (instantPart transform zoned days hour).dataType = .integer .int64 := rfl

/-- Whether a value has calendar parts of its own, and that they are 64-bit integers, is
a matter of its type. -/
theorem calendarPart_dataType (transform : PartitionTransform) (v : ScalarValue) :
    (calendarPart transform v).map (·.dataType) =
      match v.dataType with
      | .date32 | .timestamp _ _ => some (.integer .int64)
      | _ => none := by
  cases v with
  | null t => cases t <;> rfl
  | date32 days =>
    rw [calendarPart, Option.map_some, apply_ite ScalarValue.dataType, instantPart_dataType]
    exact congrArg some (ite_self _)
  | timestamp unit tz v =>
    rw [calendarPart, Option.map_some, apply_ite ScalarValue.dataType, instantPart_dataType]
    exact congrArg some (ite_self _)
  | _ => rfl

theorem transformScalar_dataType (hdate : datePart.Typed) {transform : PartitionTransform} {v w v' w' : ScalarValue}
    (htype : v.dataType = w.dataType) (hfloat : v.dataType.isFloat = false)
    (hv : transformScalar datePart transform v = some v') (hw : transformScalar datePart transform w = some w') :
    v'.dataType = w'.dataType ∧ v'.dataType.isFloat = false := by
  have hpart : ∀ part, (∀ u, transformScalar datePart part u = (calendarPart part u).or (datePart part u)) →
      transformScalar datePart part v = some v' → transformScalar datePart part w = some w' →
      v'.dataType = w'.dataType ∧ v'.dataType.isFloat = false := by
    intro part heq hv hw
    rw [heq] at hv hw
    have hsame : (calendarPart part v).map (·.dataType) = (calendarPart part w).map (·.dataType) := by
      rw [calendarPart_dataType, calendarPart_dataType, htype]
    have hcalendar : ∀ {u u' : ScalarValue}, calendarPart part u = some u' → u'.dataType = .integer .int64 := by
      intro u u' hu
      have hu' := calendarPart_dataType part u
      rw [hu] at hu'
      split at hu' <;> simp_all
    cases hcv : calendarPart part v with
    | some x =>
      cases hcw : calendarPart part w with
      | none => simp [hcv, hcw] at hsame
      | some y =>
        rw [hcv] at hv
        rw [hcw] at hw
        cases hv
        cases hw
        rw [hcalendar hcv, hcalendar hcw]
        exact ⟨rfl, rfl⟩
    | none =>
      cases hcw : calendarPart part w with
      | some y => simp [hcv, hcw] at hsame
      | none =>
        rw [hcv] at hv
        rw [hcw] at hw
        rw [hdate _ _ _ hv, hdate _ _ _ hw]
        exact ⟨rfl, rfl⟩
  cases transform with
  | identity =>
    cases hv
    cases hw
    exact ⟨htype, hfloat⟩
  | bucket n => cases hv
  | unknown text => cases hv
  | year | month | day | hour =>
    refine hpart _ (fun u => ?_) hv hw
    simp only [transformScalar]
    split
    · next h => rw [h, Option.some_or]
    · next h => rw [h, Option.none_or]

/-- Two values of one type recorded alike are one value. -/
theorem keyText_injective {v w : ScalarValue} {t : Text} (htype : v.dataType = w.dataType)
    (hfloat : v.dataType.isFloat = false) (hv : keyText fmt v = some t) (hw : keyText fmt w = some t) : v = w := by
  by_cases hstring : ∃ k s, v = .string k s
  · obtain ⟨k, s, rfl⟩ := hstring
    cases w with
    | string k' s' =>
      cases htype
      cases hv
      cases hw
      rfl
    | null t' => cases hw
    | _ => cases htype
  · have hkey : ∀ u : ScalarValue, (∀ k s, u ≠ .string k s) → keyText fmt u = encodeScalar fmt u := by
      intro u hu
      cases u with
      | string k s => exact absurd rfl (hu k s)
      | _ => rfl
    rw [hkey v fun k s h => hstring ⟨k, s, h⟩] at hv
    rw [hkey w ?_] at hw
    · exact encodeScalar_injective htype hfloat hv hw
    · intro k s h
      subst h
      cases v with
      | string k' s' => exact hstring ⟨k', s', rfl⟩
      | null t' => cases hv
      | _ => cases htype

/-- Rows recorded alike have equal transformed keys. -/
theorem partitionValue_injective (hdate : datePart.Typed) {transform : PartitionTransform} {v w : ScalarValue}
    (htype : v.dataType = w.dataType) (hfloat : v.dataType.isFloat = false) {recorded : Option Text}
    (hv : partitionValue fmt datePart transform v = some recorded)
    (hw : partitionValue fmt datePart transform w = some recorded) :
    ∃ key, transformScalar datePart transform v = some key ∧ transformScalar datePart transform w = some key := by
  simp only [partitionValue, Option.bind_eq_bind, Option.bind_eq_some_iff] at hv hw
  obtain ⟨a, ha, hv⟩ := hv
  obtain ⟨b, hb, hw⟩ := hw
  obtain ⟨hab, hfloat'⟩ := transformScalar_dataType hdate htype hfloat ha hb
  refine ⟨a, ha, ?_⟩
  suffices heq : a = b by rw [heq, hb]
  split at hv
  · next hnull =>
    cases hv
    split at hw
    · next hnull' =>
      cases a <;> cases hnull
      cases b <;> cases hnull'
      exact congrArg _ hab
    · obtain ⟨t, -, hw⟩ := Option.bind_eq_some_iff.mp hw
      cases hw
  · obtain ⟨t, ht, hv⟩ := Option.bind_eq_some_iff.mp hv
    cases hv
    split at hw
    · cases hw
    · obtain ⟨t', ht', hw⟩ := Option.bind_eq_some_iff.mp hw
      cases hw
      exact keyText_injective hab hfloat' ht ht'

theorem rowValues_injective (hdate : datePart.Typed) {r s : StoredRow} {values : List (Option Text)}
    (htype : ∀ key ∈ keys, (r key.columnId).dataType = (s key.columnId).dataType)
    (hfloat : ∀ key ∈ keys, (r key.columnId).dataType.isFloat = false)
    (hr : rowValues fmt datePart keys r = some values) (hs : rowValues fmt datePart keys s = some values) :
    ∀ key ∈ keys, ∃ w, transformScalar datePart key.transform (r key.columnId) = some w ∧
      transformScalar datePart key.transform (s key.columnId) = some w := by
  induction keys generalizing values with
  | nil => simp
  | cons key keys ih =>
    rw [List.forall_mem_cons] at htype hfloat
    simp only [rowValues, List.mapM_cons, Option.bind_eq_bind, Option.bind_eq_some_iff, Option.pure_def,
      Option.some.injEq] at hr hs
    obtain ⟨x, hx, rest, hrest, rfl⟩ := hr
    obtain ⟨y, hy, rest', hrest', heq⟩ := hs
    obtain ⟨rfl, rfl⟩ := List.cons.inj heq
    rw [List.forall_mem_cons]
    exact ⟨partitionValue_injective hdate htype.1 hfloat.1 hx hy, ih htype.2 hfloat.2 hrest hrest'⟩

theorem rowValues_eq_none {row : StoredRow} {key : PartitionWriteKey} (hkey : key ∈ keys) {w : ScalarValue}
    (htransform : transformScalar datePart key.transform (row key.columnId) = some w) (hnull : w.isNull = false)
    (htext : keyText fmt w = none) : rowValues fmt datePart keys row = none := by
  have hvalue : partitionValue fmt datePart key.transform (row key.columnId) = none := by
    simp [partitionValue, htransform, hnull, htext]
  induction keys with
  | nil => cases hkey
  | cons key' keys ih =>
    rw [rowValues, List.mapM_cons]
    rcases List.mem_cons.mp hkey with rfl | hkey
    · rw [hvalue]
      rfl
    · have hrest := ih hkey
      rw [rowValues] at hrest
      rw [hrest]
      cases partitionValue fmt datePart key'.transform (row key'.columnId) <;> rfl

/-- A write split by a specification on columns of one non-float type each: the groups
have distinct texts and hold the input's rows, each group the rows whose keys have its
texts, in the input's order; rows of one group have equal keys. A key that is not NULL
and has no text stops the write. -/
theorem split_is_partition (hdate : datePart.Typed) (columnType : Nat → DataType)
    (batches : List (List StoredRow))
    (htyped : ∀ row ∈ batches.flatten, ∀ key ∈ keys, (row key.columnId).dataType = columnType key.columnId)
    (hfloat : ∀ key ∈ keys, (columnType key.columnId).isFloat = false) :
    (∀ groups, splitBatchesByPartition fmt datePart keys batches = some groups →
      (groups.map (·.1)).Nodup ∧
      (groups.flatMap (·.2.flatten)).Perm batches.flatten ∧
      (∀ row ∈ batches.flatten, ∃ g ∈ groups, rowValues fmt datePart keys row = some g.1) ∧
      (∀ g ∈ groups, g.2.flatten =
        batches.flatten.filter fun row => decide (rowValues fmt datePart keys row = some g.1)) ∧
      (∀ g ∈ groups, ∀ r ∈ g.2.flatten, ∀ s ∈ g.2.flatten, ∀ key ∈ keys, ∃ w,
        transformScalar datePart key.transform (r key.columnId) = some w ∧
        transformScalar datePart key.transform (s key.columnId) = some w)) ∧
    ((∃ row ∈ batches.flatten, ∃ key ∈ keys, ∃ w, transformScalar datePart key.transform (row key.columnId) = some w ∧
        w.isNull = false ∧ keyText fmt w = none) →
      splitBatchesByPartition fmt datePart keys batches = none) := by
  constructor
  · intro groups hsplit
    have hgrouped := splitBatches_grouped hsplit
    have hrows := fun g hg => rows_of_group hsplit (g := g) hg
    refine ⟨hgrouped.nodup, ?_, ?_, hrows, ?_⟩
    · have hperm := Lists.perm_flatMap_filter (rowValues fmt datePart keys) ((groups.map (·.1)).map some)
        (hgrouped.nodup.map (Option.some_injective _)) batches.flatten ?_
      · rw [List.flatMap_map, List.flatMap_map] at hperm
        rwa [List.flatMap_congr hrows]
      · intro row hrow
        obtain ⟨values, hvalues, hkey⟩ := hgrouped.total row hrow
        rw [hkey]
        exact List.mem_map_of_mem hvalues
    · intro row hrow
      obtain ⟨values, hvalues, hkey⟩ := hgrouped.total row hrow
      obtain ⟨g, hg, rfl⟩ := List.mem_map.mp hvalues
      exact ⟨g, hg, hkey⟩
    · intro g hg r hr s hs
      rw [hrows g hg, List.mem_filter, decide_eq_true_eq] at hr hs
      refine rowValues_injective hdate ?_ ?_ hr.2 hs.2
      · intro key hkey
        rw [htyped r hr.1 key hkey, htyped s hs.1 key hkey]
      · intro key hkey
        rw [htyped r hr.1 key hkey]
        exact hfloat key hkey
  · rintro ⟨row, hrow, key, hkey, w, htransform, hnull, htext⟩
    rw [Option.eq_none_iff_forall_ne_some]
    intro groups hsplit
    obtain ⟨values, -, hvalues⟩ := (splitBatches_grouped hsplit).total row hrow
    rw [rowValues_eq_none hkey htransform hnull htext] at hvalues
    cases hvalues

end Split

/-- A date in column 0 and a text in column 1. -/
def datedRow (days : Int) (text : Option Text) : StoredRow
  | 0 => .date32 days
  | _ => match text with
    | some t => .string .utf8 t
    | none => .null (.string .utf8)

/-- By the year of the date and by the text. -/
def yearAndText : List PartitionWriteKey := [⟨0, .year⟩, ⟨1, .identity⟩]

/-- The last day of 1969 and days of 1970, with and without a text, in two batches. -/
def datedBatches : List (List StoredRow) :=
  [[datedRow (-1) (some ['a']), datedRow 0 none], [datedRow (-365) (some ['a']), datedRow 0 (some ['a'])]]

/-- Dates and timestamps have parts of their own; no other type has any. -/
def noDateParts : DatePart := fun _ _ => none

/-- Three groups, the first from both batches. -/
theorem datedBatches_partition :
    (splitBatchesByPartition Prune.noFloats noDateParts yearAndText datedBatches).map (·.map (·.1)) =
      some [[some "1969".toList, some ['a']], [some "1970".toList, none], [some "1970".toList, some ['a']]] ∧
    ∀ groups, splitBatchesByPartition Prune.noFloats noDateParts yearAndText datedBatches = some groups →
      (groups.flatMap (·.2.flatten)).Perm datedBatches.flatten := by
  refine ⟨by decide, fun groups h => ((split_is_partition ?_ (fun c => if c = 0 then .date32 else .string .utf8)
    datedBatches ?_ ?_).1 groups h).2.1⟩
  · intro transform v w h
    cases h
  · simp [datedBatches, yearAndText, datedRow, ScalarValue.dataType]
  · decide

end DuckLake.Partition
