import DuckLake.Lib.Lists
import DuckLake.Metadata.Retire
import DuckLake.Plan.Files

/- Planning a compaction, as `merge_adjacent_files_planned` and
   `rewrite_data_files_planned` do: which files are read, and what is written from
   them. File sizes, partitions and sort orders decide which files share a bin and in
   what order rows are written; bins and orders are arbitrary here. -/

namespace DuckLake.Plan

open Metadata Versioned

variable {V : Type} {T : TableStorage V} {N base h : Nat}

def TableFile.toSource (tf : TableFile V) : CompactionSourceFile :=
  ⟨tf.file.id, tf.deleteFile.map (·.id)⟩

/-- The rows of a file that are read, each with its row id; `origin` is the insert
    snapshot written for it. -/
def TableFile.copiedRows (origin : FileRow V → Option Nat) (tf : TableFile V) : List (FileRow V) :=
  (tf.file.rows.zipIdx.filter fun x => !tf.masks x.2).map fun x =>
    ⟨tf.file.rowIdAt x.2 x.1, origin x.1, x.1.value⟩

/-! ## Rewriting files with deletions -/

structure RewriteOutput (tf : TableFile V) (out : CompactionOutputFile V) : Prop where
  rows : out.file.rows.Perm (tf.copiedRows fun _ => none)
  rowIdStart : carriedRowIdStart out.file = none
  partialMax : out.partialMax = none
  beginSnapshot : out.beginSnapshot = none

/-- A file without live rows is retired with no replacement. -/
def IsRewrite (tf : TableFile V) : Option (CompactionOutputFile V) → Prop
  | some out => RewriteOutput tf out
  | none => tf.copiedRows (fun _ => none) = []

/-- The sources and outputs of a rewrite; `read` says what the files were read from. -/
def RewritePlan (read : TableFile V → Prop) (sources : List CompactionSourceFile)
    (outputs : List (CompactionOutputFile V)) : Prop :=
  ∃ (tfs : List (TableFile V)) (outs : List (Option (CompactionOutputFile V))), (∀ tf ∈ tfs, read tf) ∧
    (tfs.map (·.file.id)).Nodup ∧ List.Forall₂ IsRewrite tfs outs ∧
    sources = tfs.map (·.toSource) ∧ outputs = outs.reduceOption

/-! ## Merging files -/

section Merge

-- `has_embedded_snapshot` of each file's footer
variable (embeds : TableFile V → Bool)

def TableFile.mergeCandidate (tf : TableFile V) : Bool :=
  tf.deleteFile.isNone && tf.inlinedPositions.isEmpty

def minOrigin (bin : List (TableFile V)) : Option Nat := (bin.map (·.file.beginSnapshot)).min?

def maxOrigin (bin : List (TableFile V)) : Option Nat :=
  (bin.map fun tf => tf.file.partialMax.getD tf.file.beginSnapshot).max?

def mergePartial (bin : List (TableFile V)) : Bool :=
  decide (minOrigin bin ≠ maxOrigin bin) || bin.any embeds

/-- `resolve_origin_column`: the embedded origin, or the file's own snapshot. -/
def mergeOrigin (isPartial : Bool) (tf : TableFile V) (row : FileRow V) : Option Nat :=
  if isPartial then (if embeds tf then row.origin else some tf.file.beginSnapshot) else none

def mergedRows (bin : List (TableFile V)) : List (FileRow V) :=
  bin.flatMap fun tf => tf.copiedRows (mergeOrigin embeds (mergePartial embeds bin) tf)

/-- The bound the catalog claims for the sources, raised to every origin written. -/
def observedMaxOrigin (bin : List (TableFile V)) : Nat :=
  ((mergedRows embeds bin).filterMap (·.origin)).foldl max ((maxOrigin bin).getD 0)

/-- Every range starts where the one before it ended; `next` is that end. -/
def adjacentFrom (next : Option Nat) : List (TableFile V) → Bool
  | [] => true
  | tf :: bin => match tf.file.rowIdStart with
    | some start => next.all (· == start) && adjacentFrom (some (start + tf.file.rows.length)) bin
    | none => false

def adjacentRowIdStart (bin : List (TableFile V)) : Option Nat :=
  if adjacentFrom none bin then bin.head?.bind (·.file.rowIdStart) else none

structure MergeOutput (bin : List (TableFile V)) (out : CompactionOutputFile V) : Prop where
  rows : out.file.rows.Perm (mergedRows embeds bin)
  rowIdStart : carriedRowIdStart out.file = adjacentRowIdStart bin
  partialMax : out.partialMax = if mergePartial embeds bin then some (observedMaxOrigin embeds bin) else none
  beginSnapshot : out.beginSnapshot = minOrigin bin

/-- A bin whose sources hold no rows writes no file. -/
def IsMerge (bin : List (TableFile V)) : Option (CompactionOutputFile V) → Prop
  | some out => MergeOutput embeds bin out
  | none => mergedRows embeds bin = []

/-- The checks a source passes before it is merged: a file the catalog calls partial
    embeds its rows' origins and reaches no further than the base, and no embedded
    origin is missing. -/
structure MergeViable (base : Nat) (tf : TableFile V) : Prop where
  candidate : tf.mergeCandidate = true
  partialEmbeds : tf.file.partialMax.isSome = true → embeds tf = true
  reach : ∀ m, tf.file.partialMax = some m → m ≤ base
  embedded : embeds tf = true → ∀ row ∈ tf.file.rows, row.origin.isSome = true
  plain : embeds tf = false → ∀ row ∈ tf.file.rows, row.origin = none

end Merge

/-- The sources and outputs of a merge. -/
def MergePlan (read : TableFile V → Prop) (base : Nat) (sources : List CompactionSourceFile)
    (outputs : List (CompactionOutputFile V)) : Prop :=
  ∃ (embeds : TableFile V → Bool) (bins : List (List (TableFile V)))
    (outs : List (Option (CompactionOutputFile V))),
    (∀ bin ∈ bins, 2 ≤ bin.length) ∧
    (∀ tf ∈ bins.flatten, read tf ∧ MergeViable embeds base tf) ∧
    (bins.flatten.map (·.file.id)).Nodup ∧ List.Forall₂ (IsMerge embeds) bins outs ∧
    sources = bins.flatten.map (·.toSource) ∧ outputs = outs.reduceOption

/-- The sources and outputs of a compaction of either kind. -/
def CompactionPlan (read : TableFile V → Prop) (base : Nat) (sources : List CompactionSourceFile)
    (outputs : List (CompactionOutputFile V)) : SourceRetirement → Prop
  | .remove => MergePlan read base sources outputs
  | .retire => RewritePlan read sources outputs

variable {outputs : List (CompactionOutputFile V)} {sources : List CompactionSourceFile}
  {retirement : SourceRetirement} {tf : TableFile V} {bin : List (TableFile V)}

theorem CompactionPlan.mono {read read' : TableFile V → Prop}
    (hread : ∀ tf, read tf → read' tf) (h : CompactionPlan read base sources outputs retirement) :
    CompactionPlan read' base sources outputs retirement := by
  cases retirement with
  | remove =>
    obtain ⟨embeds, bins, outs, hsize, htfs, hrest⟩ := h
    exact ⟨embeds, bins, outs, hsize, fun tf htf => ⟨hread tf (htfs tf htf).1, (htfs tf htf).2⟩, hrest⟩
  | retire =>
    obtain ⟨tfs, outs, htfs, hrest⟩ := h
    exact ⟨tfs, outs, fun tf htf => hread tf (htfs tf htf), hrest⟩

/-! ## The rows written are the rows read -/

theorem TableFile.copiedRows_map (origin : FileRow V → Option Nat) (tf : TableFile V) :
    (tf.copiedRows origin).map (fun r => (r.rowId, r.value)) =
      tf.liveRows.map fun r => (r.rowId, r.value) := by
  unfold copiedRows liveRows DataFile.read
  rw [List.map_map, List.map_map]
  rfl

theorem adjacentFrom_rowIdStart {next : Option Nat} (h : adjacentFrom next bin = true) :
    ∀ tf ∈ bin, tf.file.rowIdStart.isSome = true := by
  induction bin generalizing next with
  | nil => simp
  | cons tf bin ih =>
    unfold adjacentFrom at h
    split at h
    · next start hs =>
      rw [Bool.and_eq_true] at h
      exact List.forall_mem_cons.mpr ⟨by simp [hs], ih h.2⟩
    · cases h

theorem copiedRows_rowId_isSome (h : tf.file.rowIdStart.isSome = true)
    (origin : FileRow V → Option Nat) : ∀ row ∈ tf.copiedRows origin, row.rowId.isSome = true := by
  intro row hr
  obtain ⟨⟨row₀, p⟩, -, rfl⟩ := List.mem_map.mp hr
  simp [DataFile.rowIdAt, h]

theorem IsRewrite.rows {o : Option (CompactionOutputFile V)} (h : IsRewrite tf o) :
    (o.toList.flatMap (·.file.carriedRows)).Perm (tf.liveRows.map fun r => (r.rowId, r.value)) := by
  rw [← tf.copiedRows_map fun _ => none]
  cases o with
  | none => simp [show tf.copiedRows (fun _ => none) = [] from h]
  | some out =>
    have hout : RewriteOutput tf out := h
    simp only [Option.toList_some, List.flatMap_singleton, DataFileInfo.carriedRows_eq (.inl hout.rowIdStart)]
    exact hout.rows.map _

theorem mergedRows_map (embeds : TableFile V → Bool) (bin : List (TableFile V)) :
    (mergedRows embeds bin).map (fun r => (r.rowId, r.value)) =
      bin.flatMap fun tf => tf.liveRows.map fun r => (r.rowId, r.value) := by
  unfold mergedRows
  rw [List.map_flatMap]
  exact List.flatMap_congr fun tf _ => tf.copiedRows_map _

theorem MergeOutput.carriedRows_eq {embeds : TableFile V → Bool}
    {out : CompactionOutputFile V} (h : MergeOutput embeds bin out) :
    out.file.carriedRows = out.file.rows.map fun r => (r.rowId, r.value) := by
  refine DataFileInfo.carriedRows_eq ?_
  rw [h.rowIdStart]
  by_cases hadj : adjacentFrom none bin = true
  · refine .inr fun row hr => ?_
    obtain ⟨tf, htf, hrow⟩ := List.mem_flatMap.mp (h.rows.mem_iff.mp hr)
    exact copiedRows_rowId_isSome (adjacentFrom_rowIdStart hadj tf htf) _ row hrow
  · exact .inl (by simp [adjacentRowIdStart, hadj])

theorem IsMerge.rows {embeds : TableFile V → Bool} {o : Option (CompactionOutputFile V)} (h : IsMerge embeds bin o) :
    (o.toList.flatMap (·.file.carriedRows)).Perm
      (bin.flatMap fun tf => tf.liveRows.map fun r => (r.rowId, r.value)) := by
  rw [← mergedRows_map embeds]
  cases o with
  | none => simp [show mergedRows embeds bin = [] from h]
  | some out =>
    have hout : MergeOutput embeds bin out := h
    simp only [Option.toList_some, List.flatMap_singleton, hout.carriedRows_eq]
    exact hout.rows.map _

/-- A compaction writes the rows it read, each with its row id and value. -/
theorem CompactionPlan.rows {read : TableFile V → Prop} (h : CompactionPlan read base sources outputs retirement) :
    ∃ tfs : List (TableFile V), (∀ tf ∈ tfs, read tf) ∧ (tfs.map (·.file.id)).Nodup ∧
      sources = tfs.map (·.toSource) ∧
      (outputs.flatMap (·.file.carriedRows)).Perm
        (tfs.flatMap fun tf => tf.liveRows.map fun r => (r.rowId, r.value)) := by
  cases retirement with
  | remove =>
    obtain ⟨embeds, bins, outs, -, htfs, hnodup, houts, rfl, rfl⟩ := h
    refine ⟨bins.flatten, fun tf htf => (htfs tf htf).1, hnodup, rfl, ?_⟩
    rw [← List.flatMap_id, List.flatMap_assoc]
    exact Lists.reduceOption_flatMap_perm houts fun _ _ _ hm => hm.rows
  | retire =>
    obtain ⟨tfs, outs, htfs, hnodup, houts, rfl, rfl⟩ := h
    exact ⟨tfs, htfs, hnodup, rfl, Lists.reduceOption_flatMap_perm houts fun _ _ _ hr => hr.rows⟩

/-! ## Outputs can be registered -/

theorem TableFile.Held.issued_of_copied (held : tf.Held T N base)
    (origin : FileRow V → Option Nat) {row : FileRow V} (hr : row ∈ tf.copiedRows origin) {i : Nat}
    (hi : row.rowId = some i) : i < T.nextRowId := by
  obtain ⟨x, hx, rfl⟩ := List.mem_map.mp hr
  exact held.issued x (List.mem_filter.mp hx).1 i hi

theorem RewriteOutput.carried {out : CompactionOutputFile V} (h : RewriteOutput tf out)
    (held : tf.Held T N base) (c : Nat) : out.Carried T.nextRowId c := by
  unfold CompactionOutputFile.Carried
  rw [h.beginSnapshot, h.partialMax]
  refine ⟨le_rfl, by simp, ?_, ?_⟩
  · intro row hr o ho
    obtain ⟨x, -, rfl⟩ := List.mem_map.mp (h.rows.mem_iff.mp hr)
    cases ho
  · rw [DataFileInfo.carriedRows_eq (.inl h.rowIdStart)]
    intro x hx i hi
    obtain ⟨row, hr, rfl⟩ := List.mem_map.mp hx
    exact held.issued_of_copied _ (h.rows.mem_iff.mp hr) hi

section Merge

variable {embeds : TableFile V → Bool} {bin : List (TableFile V)} {tf : TableFile V} {out : CompactionOutputFile V}

theorem MergeViable.mergeOrigin_range (hviable : MergeViable embeds base tf)
    (horigins : tf.file.OriginsInRange) {row : FileRow V} (hr : row ∈ tf.file.rows) {isPartial : Bool} {o : Nat}
    (ho : mergeOrigin embeds isPartial tf row = some o) :
    tf.file.beginSnapshot ≤ o ∧ o ≤ tf.file.partialMax.getD tf.file.beginSnapshot ∧ isPartial = true := by
  unfold mergeOrigin at ho
  split at ho
  · next hp =>
    split at ho
    · obtain ⟨h₁, h₂⟩ := horigins row hr o ho
      exact ⟨h₁, h₂, hp⟩
    · next he =>
      obtain rfl := Option.some.inj ho
      have hnone : tf.file.partialMax = none := by
        by_contra hsome
        exact he (hviable.partialEmbeds (Option.isSome_iff_ne_none.mpr hsome))
      exact ⟨le_rfl, by simp [hnone], hp⟩
  · cases ho

theorem MergeViable.range_le (hviable : MergeViable embeds base tf) (hborn : tf.file.beginSnapshot ≤ base) :
    tf.file.partialMax.getD tf.file.beginSnapshot ≤ base := by
  cases hm : tf.file.partialMax with
  | none => exact hborn
  | some m => exact hviable.reach m hm

theorem mem_mergedRows {row : FileRow V} (hr : row ∈ mergedRows embeds bin) :
    ∃ tf ∈ bin, ∃ x ∈ tf.file.rows.zipIdx, tf.masks x.2 = false ∧
      row = ⟨tf.file.rowIdAt x.2 x.1, mergeOrigin embeds (mergePartial embeds bin) tf x.1, x.1.value⟩ := by
  obtain ⟨tf, htf, hr⟩ := List.mem_flatMap.mp hr
  obtain ⟨x, hx, rfl⟩ := List.mem_map.mp hr
  obtain ⟨hx, hm⟩ := List.mem_filter.mp hx
  exact ⟨tf, htf, x, hx, by simpa using hm, rfl⟩

theorem minOrigin_le {b : Nat} (hb : minOrigin bin = some b) (htf : tf ∈ bin) : b ≤ tf.file.beginSnapshot :=
  (List.min?_eq_some_iff.mp hb).2 _ (List.mem_map_of_mem htf)

theorem exists_minOrigin (hbin : bin ≠ []) : ∃ tf ∈ bin, minOrigin bin = some tf.file.beginSnapshot := by
  obtain ⟨b, hb⟩ : ∃ b, minOrigin bin = some b := by
    rw [← Option.isSome_iff_exists, Option.isSome_iff_ne_none, ne_eq, minOrigin, List.min?_eq_none_iff]
    simpa using hbin
  obtain ⟨tf, htf, rfl⟩ := List.mem_map.mp (List.min?_eq_some_iff.mp hb).1
  exact ⟨tf, htf, hb⟩

theorem maxOrigin_le {m : Nat} (h : ∀ tf ∈ bin, tf.file.partialMax.getD tf.file.beginSnapshot ≤ m) :
    (maxOrigin bin).getD 0 ≤ m := by
  cases hm : maxOrigin bin with
  | none => exact Nat.zero_le _
  | some m' =>
    obtain ⟨tf, htf, rfl⟩ := List.mem_map.mp (List.max?_eq_some_iff.mp hm).1
    exact h tf htf

theorem le_observedMaxOrigin {row : FileRow V} (hr : row ∈ mergedRows embeds bin) {o : Nat}
    (ho : row.origin = some o) : o ≤ observedMaxOrigin embeds bin :=
  (Lists.foldl_max_le.mp le_rfl).2 o (List.mem_filterMap.mpr ⟨row, hr, ho⟩)

theorem observedMaxOrigin_le (hbin : ∀ tf ∈ bin, tf.Held T N base ∧ MergeViable embeds base tf) :
    observedMaxOrigin embeds bin ≤ base := by
  refine Lists.foldl_max_le.mpr ⟨maxOrigin_le fun tf htf => ?_, fun o ho => ?_⟩
  · exact (hbin tf htf).2.range_le (hbin tf htf).1.born
  · obtain ⟨row, hr, ho⟩ := List.mem_filterMap.mp ho
    obtain ⟨tf, htf, x, hx, -, rfl⟩ := mem_mergedRows hr
    have hrange := (hbin tf htf).2.mergeOrigin_range (hbin tf htf).1.origins (List.fst_mem_of_mem_zipIdx hx) ho
    exact hrange.2.1.trans ((hbin tf htf).2.range_le (hbin tf htf).1.born)

theorem MergeOutput.carried (h : MergeOutput embeds bin out) (hne : bin ≠ []) {c : Nat} (hc : base ≤ c)
    (hbin : ∀ tf ∈ bin, tf.Held T N base ∧ MergeViable embeds base tf) : out.Carried T.nextRowId c := by
  obtain ⟨tf₀, htf₀, hmin⟩ := exists_minOrigin hne
  unfold CompactionOutputFile.Carried
  rw [h.beginSnapshot, hmin, Option.getD_some]
  refine ⟨(hbin tf₀ htf₀).1.born.trans hc, ?_, ?_, ?_⟩
  · intro m hm
    rw [h.partialMax] at hm
    split at hm
    · exact Option.some.inj hm ▸ (observedMaxOrigin_le hbin).trans hc
    · cases hm
  · intro row hr o ho
    have hr := h.rows.mem_iff.mp hr
    obtain ⟨tf, htf, x, hx, -, hrow⟩ := mem_mergedRows hr
    have ho' : mergeOrigin embeds (mergePartial embeds bin) tf x.1 = some o := by rw [← ho, hrow]
    obtain ⟨hlow, -, hp⟩ :=
      (hbin tf htf).2.mergeOrigin_range (hbin tf htf).1.origins (List.fst_mem_of_mem_zipIdx hx) ho'
    refine ⟨(minOrigin_le hmin htf).trans hlow, ?_⟩
    rw [h.partialMax, if_pos hp, Option.getD_some]
    exact le_observedMaxOrigin hr ho
  · rw [h.carriedRows_eq]
    intro x hx i hi
    obtain ⟨row, hr, rfl⟩ := List.mem_map.mp hx
    obtain ⟨tf, htf, hrow⟩ := List.mem_flatMap.mp (h.rows.mem_iff.mp hr)
    exact (hbin tf htf).1.issued_of_copied _ hrow hi

end Merge

theorem CompactionPlan.carried {c : Nat} (hc : base ≤ c)
    (h : CompactionPlan (TableFile.Held · T N base) base sources outputs retirement) :
    ∀ out ∈ outputs, out.Carried T.nextRowId c := by
  cases retirement with
  | remove =>
    obtain ⟨embeds, bins, outs, hsize, htfs, -, houts, -, rfl⟩ := h
    intro out hout
    rw [List.reduceOption_mem_iff] at hout
    obtain ⟨bin, hbin, hm⟩ := Lists.exists_of_mem_right houts hout
    have hne : bin ≠ [] := by
      rintro rfl
      exact absurd (hsize [] hbin) (by simp)
    exact MergeOutput.carried hm hne hc fun tf htf => htfs tf (List.mem_flatten_of_mem hbin htf)
  | retire =>
    obtain ⟨tfs, outs, htfs, -, houts, -, rfl⟩ := h
    intro out hout
    rw [List.reduceOption_mem_iff] at hout
    obtain ⟨tf, htf, hr⟩ := Lists.exists_of_mem_right houts hout
    exact RewriteOutput.carried hr (htfs tf htf) c

/-! ## The commit of a planned compaction -/

section Commit

variable {cat cat' : Catalog V} {t c : Nat} {sources : List CompactionSourceFile}
  {outputs : List (CompactionOutputFile V)} {retirement : SourceRetirement}

theorem fenced_of_committed {tfs : List (TableFile V)} (hsources : sources = tfs.map (·.toSource))
    (h : CompactionCommitted cat t base sources outputs retirement c cat') :
    ∀ tf ∈ tfs, tf.Fenced (cat.storage t) base := by
  intro tf htf
  have hmem : tf.toSource ∈ sources := hsources ▸ List.mem_map_of_mem htf
  obtain ⟨hlive, hdelete⟩ := h.fences _ hmem
  refine ⟨hlive, hdelete, fun x hx hi hb => ?_⟩
  by_contra hno
  have hnew := h.newDeletes
  unfold detectNewInlinedDeletes at hnew
  split at hnew
  · cases hnew
  · next hclear =>
    refine hclear (List.any_eq_true.mpr ⟨x, ?_, ?_⟩)
    · refine List.mem_filter.mpr ⟨hx, ?_⟩
      simp only [Bool.and_eq_true, List.any_eq_true, List.mem_map, beq_iff_eq, decide_eq_true_eq,
        Bool.not_eq_true', List.any_eq_false, not_and, Nat.not_le]
      refine ⟨⟨⟨_, ⟨tf.toSource, hmem, rfl⟩, hi.symm⟩, hb⟩, ?_⟩
      intro y hy hyi
      by_contra hle
      exact hno ⟨y, hy, hyi.1.trans hi, hyi.2, Nat.not_lt.mp hle⟩
    · exact List.any_eq_true.mpr ⟨_, List.mem_map_of_mem hmem,
        by simp [SourceFile.conflictsWith, SourceFile.any, TableFile.toSource, hi]⟩

/-- A committed compaction leaves the rows of its table as they were, each with its
    row id and value. -/
theorem commitCompaction_rows (hinv : cat.Inv)
    (hplan : CompactionPlan (TableFile.Held · (cat.storage t) cat.nextFileId base) base sources outputs retirement)
    (hbase : base ≤ cat.head)
    (h : commitCompaction t base sources outputs retirement cat = .ok (c, cat')) :
    ((cat'.storage t).current.map fun r => (r.rowId, r.value)).Perm
      ((cat.storage t).current.map fun r => (r.rowId, r.value)) := by
  obtain ⟨hspec, hN⟩ := commitCompaction_spec hinv h
  have hc : base ≤ c := hspec.snapshot ▸ hbase.trans (Nat.le_succ _)
  obtain ⟨ins, e, hmap, -⟩ := hspec.effect hinv hN (hplan.carried hc)
  obtain ⟨tfs, held, hnodup, hsources, hrows⟩ := hplan.rows
  have hperm := flatMap_present_perm (hinv.valid t) hnodup held (fenced_of_committed hsources hspec)
  have hids : sources.map (·.dataFileId) = tfs.map (·.file.id) := by
    rw [hsources, List.map_map]
    rfl
  rw [hids] at e
  rw [← TableStorage.current_inFiles] at hperm
  -- the rows that go are those of the sources, the rows that come are written from them
  have hcome : (ins.map fun r => (r.rowId, r.value)).Perm (((cat.storage t).current.filter
      fun r => r.location.inFiles (tfs.map (·.file.id))).map fun r => (r.rowId, r.value)) := by
    rw [hmap]
    refine hrows.trans ?_
    rw [← List.map_flatMap]
    exact (hperm.map _).symm
  refine (e.rows.map _).trans ?_
  rw [List.map_append]
  refine (List.Perm.append_left _ hcome).trans ?_
  rw [← List.map_append]
  refine List.Perm.map _ (List.perm_append_comm.trans ?_)
  exact List.filter_append_perm _ _

end Commit

end DuckLake.Plan
