import DuckLake.Maintenance.Paths

/- When orphan cleanup spares every file a reader would open.

   The two resolutions of a path agree up to slashes, which keys do not see. They part
   at a backslash: `join_paths` takes a base path that ends in one for separated and
   appends the next path to it, the catalog's expression always puts a slash. -/

namespace DuckLake.Maintenance

open PathResolver Segments Checked

/-! ## One join -/

/-- The base ends in a backslash and the next path starts a segment: joined as it is, it
runs into the base's last segment. -/
def Glued (base path : Text) : Prop := base.getLast? = some '\\' ∧ path ≠ [] ∧ path.head? ≠ some '/'

/-- A path below a base, a slash between them where the base has no separator. -/
def joined (base path : Text) : Text := if endsInSeparator base then base ++ path else base ++ '/' :: path

/-- A path below a base, or on its own. -/
def located (base path : Text) (isRelative : Bool) : Text := if isRelative then joined base path else path

theorem resolvePath_eq_ok {base path resolved : Text} {isRelative : Bool}
    (h : resolvePath base path isRelative = .ok resolved) : resolved = located base path isRelative := by
  cases isRelative <;> simp only [resolvePath, joinPaths, Bool.false_eq_true, if_true, if_false, bind_eq_ok,
    pure_eq_ok] at h
  all_goals
    obtain ⟨_, -, rfl⟩ := h
    rfl

theorem endsInSeparator_iff {path : Text} :
    endsInSeparator path = true ↔ path.getLast? = some '/' ∨ path.getLast? = some '\\' := by
  rcases h : path.getLast? with _ | c
  · simp [endsInSeparator, h]
  · simp [endsInSeparator, h, isSeparator]

/-- Joining appends the segments, and loses one where the paths run into each other. -/
theorem segments_joined {base path : Text} :
    (¬ Glued base path → segments (joined base path) = segments base ++ segments path) ∧
    (Glued base path → (segments (joined base path)).length + 1 = (segments base).length + (segments path).length) := by
  unfold joined
  constructor
  · intro hg
    by_cases hs : endsInSeparator base = true
    · rw [if_pos hs]
      rcases endsInSeparator_iff.mp hs with hlast | hlast
      · obtain ⟨b, rfl⟩ := List.getLast?_eq_some_iff.mp hlast
        rw [List.append_assoc, List.singleton_append, segments_slash, segments_snoc_slash]
      · cases path with
        | nil => simp
        | cons c path =>
          have hc : c = '/' := by
            by_contra hne
            exact hg ⟨hlast, by simp, by simpa using hne⟩
          subst hc
          rw [segments_slash, segments_slash_cons]
    · rw [if_neg hs, segments_slash]
  · rintro ⟨hlast, hne, hhead⟩
    obtain ⟨b, rfl⟩ := List.getLast?_eq_some_iff.mp hlast
    obtain ⟨c, path, rfl⟩ := List.exists_cons_of_ne_nil hne
    rw [if_pos (endsInSeparator_iff.mpr (.inr hlast))]
    exact length_segments_run_on (by decide) (by simpa using hhead)

theorem length_segments_joined_le {base path : Text} :
    (segments (joined base path)).length ≤ (segments base).length + (segments path).length := by
  by_cases hg : Glued base path
  · have := segments_joined.2 hg
    omega
  · rw [segments_joined.1 hg, List.length_append]

/-! ## The two resolutions -/

namespace JoinedFile

variable {j : JoinedFile} {basePath q : Text} {key : Key}

/-- Where a reader looks for what is below the schema. -/
def schemaPath (basePath : Text) (j : JoinedFile) : Text := located basePath j.schema.path j.schema.pathIsRelative

/-- Where a reader looks for what is below the table. -/
def tablePath (basePath : Text) (j : JoinedFile) : Text :=
  located (j.schemaPath basePath) j.table.path j.table.pathIsRelative

/-- Two paths of the chain run into each other. -/
def RunsOn (basePath : Text) (j : JoinedFile) : Prop :=
  j.file.pathIsRelative = true ∧ (Glued (j.tablePath basePath) j.file.path ∨
    j.table.pathIsRelative = true ∧ Glued (j.schemaPath basePath) j.table.path)

/-- The key with a slash before the table's path and the file's: the segments of the
schema's path, then the table's and the file's, from the last absolute path on. -/
def slashedKey (basePath : Text) (j : JoinedFile) : Key :=
  if j.file.pathIsRelative then
    (if j.table.pathIsRelative then segments (j.schemaPath basePath) else []) ++
      (segments j.table.path ++ segments j.file.path)
  else segments j.file.path

theorem readKey_eq_ok (h : j.readKey basePath = .ok key) :
    key = segments (located (j.tablePath basePath) j.file.path j.file.pathIsRelative) := by
  simp only [readKey, bind_eq_ok, pure_eq_ok] at h
  obtain ⟨schemaPath, hschema, tablePath, htable, path, hpath, rfl⟩ := h
  rw [resolvePath_eq_ok hpath, resolvePath_eq_ok htable, resolvePath_eq_ok hschema]
  rfl

/-- The key the catalog's expression names. -/
theorem segments_resolvedPath (hq : resolvePath basePath j.resolvedPath j.relFlag = .ok q) :
    segments q = j.slashedKey basePath := by
  rw [resolvePath_eq_ok hq]
  unfold slashedKey
  cases hfile : j.file.pathIsRelative
  · simp [relFlag, resolvedPath, located, hfile]
  have htail : segments (rtrim j.table.path ++ '/' :: ltrim j.file.path) =
      segments j.table.path ++ segments j.file.path := by
    rw [segments_slash, segments_rtrim, segments_ltrim]
  cases htable : j.table.pathIsRelative
  · simp [relFlag, resolvedPath, located, hfile, htable, htail]
  have hpath : j.resolvedPath = rtrim j.schema.path ++ '/' :: (rtrim j.table.path ++ '/' :: ltrim j.file.path) := by
    simp [resolvedPath, hfile, htable]
  have hflag : j.relFlag = j.schema.pathIsRelative := by simp [relFlag, hfile, htable]
  rw [if_pos rfl, if_pos rfl, hpath, hflag, schemaPath, ← htail]
  cases j.schema.pathIsRelative
  · show segments (_ ++ '/' :: _) = segments j.schema.path ++ _
    rw [segments_slash, segments_rtrim]
  · -- the slash that ends the schema's path stands in both readings
    show segments (joined ..) = segments (joined ..) ++ _
    unfold joined
    split
    · rw [segments_append_rtrim]
    · have happend := segments_append_rtrim (basePath ++ ['/']) j.schema.path
        (rtrim j.table.path ++ '/' :: ltrim j.file.path)
      rw [List.append_assoc, List.append_assoc] at happend
      exact happend

/-- The catalog names the key a reader opens unless two paths run into each other. -/
theorem slashedKey_eq_iff (hkey : j.readKey basePath = .ok key) :
    j.slashedKey basePath = key ↔ ¬ j.RunsOn basePath := by
  rw [readKey_eq_ok hkey]
  unfold slashedKey RunsOn
  cases hfile : j.file.pathIsRelative
  · -- an absolute path is taken as it is by both
    simp [located]
  have hjoin := @segments_joined (j.tablePath basePath) j.file.path
  have hjoinLe := @length_segments_joined_le (j.tablePath basePath) j.file.path
  simp only [located, if_true, true_and]
  cases hrel : j.table.pathIsRelative
  · have htable : j.tablePath basePath = j.table.path := by simp [tablePath, located, hrel]
    rw [htable] at hjoin ⊢
    -- glued paths share a segment, so a reader's key is the shorter one
    by_cases hg : Glued j.table.path j.file.path
    · have hlen := hjoin.2 hg
      simp only [hg, true_or, not_true_eq_false, iff_false, Bool.false_eq_true, if_false, List.nil_append]
      intro heq
      have := congrArg List.length heq
      rw [List.length_append] at this
      omega
    · simp [hg, hjoin.1 hg]
  · have htable : j.tablePath basePath = joined (j.schemaPath basePath) j.table.path := by
      simp [tablePath, located, hrel]
    have htable' := @segments_joined (j.schemaPath basePath) j.table.path
    have htableLe := @length_segments_joined_le (j.schemaPath basePath) j.table.path
    rw [← htable] at htable' htableLe
    simp only [if_true, true_and]
    -- one glued pair is enough: no join makes a key longer
    by_cases hg : Glued (j.tablePath basePath) j.file.path ∨ Glued (j.schemaPath basePath) j.table.path
    · simp only [hg, not_true_eq_false, iff_false]
      intro heq
      have hlen := congrArg List.length heq
      rw [List.length_append, List.length_append] at hlen
      rcases hg with hg | hg
      · have := hjoin.2 hg
        omega
      · have := htable'.2 hg
        omega
    · rw [not_or] at hg
      simp only [hg, or_self, not_false_eq_true, iff_true]
      rw [hjoin.1 hg.1, htable'.1 hg.2, List.append_assoc]

end JoinedFile

variable {referenced : List (Text × Bool)} {key : Key} {j : JoinedFile} {baseKey : Text} {rows : PathRows}

/-! ## Cleanup -/

theorem deleteOrphans_deleted {store : ObjectStore} {orphans : List Key}
    (h : key ∈ (deleteOrphans store orphans).deleted) : key ∈ orphans := by
  induction orphans with
  | nil => exact absurd h (List.not_mem_nil)
  | cons k orphans ih =>
    unfold deleteOrphans at h
    split at h
    · exact absurd h (List.not_mem_nil)
    all_goals
      rcases List.mem_cons.mp h with rfl | h
      · exact List.mem_cons_self ..
      · exact List.mem_cons_of_mem _ (ih h)

/-- A path of the catalog's list resolves to this key. -/
def Refers (baseKey : Text) (referenced : List (Text × Bool)) (key : Key) : Prop :=
  ∃ r ∈ referenced, ∃ path, resolvePath baseKey r.1 r.2 = .ok path ∧ segments path = key

theorem mem_referencedKeys {keys : List Key} (h : referencedKeys baseKey referenced = .ok keys) :
    key ∈ keys ↔ Refers baseKey referenced key := by
  rw [mem_mapM h]
  simp only [Refers, bind_eq_ok, pure_eq_ok]

/-- What a cleanup deletes: a Parquet object under the data path to which no listed path
resolves, and nothing at all when some listed path does not resolve. -/
theorem runOrphanCleanup_deleted {store : ObjectStore} {criteria : CleanupCriteria} {dryRun : Bool}
    (h : key ∈ (runOrphanCleanup baseKey referenced store criteria dryRun).deleted) :
    (∀ r ∈ referenced, ∃ path, resolvePath baseKey r.1 r.2 = .ok path) ∧
      segments baseKey <+: key ∧ isParquet key = true ∧ ¬ Refers baseKey referenced key := by
  unfold runOrphanCleanup at h
  split at h
  · exact absurd h (List.not_mem_nil)
  · next keys hkeys =>
    split at h
    · exact absurd h (List.not_mem_nil)
    · obtain ⟨o, ho, rfl⟩ := List.mem_map.mp (deleteOrphans_deleted h)
      obtain ⟨hlist, hpass⟩ := List.mem_filter.mp ho
      simp only [Bool.and_eq_true, Bool.not_eq_true', List.contains_eq_mem, decide_eq_false_iff_not] at hpass
      refine ⟨?_, ?_, hpass.1.1, ?_⟩
      · intro r hr
        obtain ⟨key, hkey⟩ := mapM_defined hkeys r hr
        simp only [bind_eq_ok, pure_eq_ok] at hkey
        obtain ⟨path, hpath, -⟩ := hkey
        exact ⟨path, hpath⟩
      · exact List.isPrefixOf_iff_prefix.mp (List.mem_filter.mp hlist).2
      · rw [← mem_referencedKeys hkeys]
        exact hpass.2

/-- A store that holds one object and deletes whatever it is asked to. -/
def storeOf (key : Key) : ObjectStore := ⟨[⟨key, 0⟩], fun _ => .ok⟩

theorem storeOf_deleted (hok : ∀ r ∈ referenced, ∃ path, resolvePath baseKey r.1 r.2 = .ok path)
    (hunder : segments baseKey <+: key) (hparquet : isParquet key = true)
    (hrefers : ¬ Refers baseKey referenced key) :
    key ∈ (runOrphanCleanup baseKey referenced (storeOf key) .all false).deleted := by
  obtain ⟨keys, hkeys⟩ : ∃ keys, referencedKeys baseKey referenced = .ok keys := by
    apply mapM_of_defined
    intro r hr
    obtain ⟨path, hpath⟩ := hok r hr
    exact ⟨segments path, by simp only [bind_eq_ok, pure_eq_ok]; exact ⟨path, hpath, rfl⟩⟩
  have hmem : key ∉ keys := fun h => hrefers ((mem_referencedKeys hkeys).mp h)
  simp [runOrphanCleanup, hkeys, storeOf, ObjectStore.list, List.isPrefixOf_iff_prefix.mpr hunder, hparquet,
    CleanupCriteria.passes, hmem, deleteOrphans]

/-- No cleanup deletes a file a reader of these rows would open. -/
def SparesReaders (baseKey : Text) (rows : PathRows) : Prop :=
  ∀ (store : ObjectStore) (criteria : CleanupCriteria) (dryRun : Bool), ∀ j ∈ rows.joined, ∀ key,
    j.readKey baseKey = .ok key →
      key ∉ (runOrphanCleanup baseKey (listReferencedPaths rows) store criteria dryRun).deleted

/-- The key of a joined file with its paths taken as whole segments, or of a scheduled path. -/
def Named (baseKey : Text) (rows : PathRows) (key : Key) : Prop :=
  (∃ j ∈ rows.joined, j.slashedKey baseKey = key) ∨
    ∃ r ∈ rows.scheduled, segments (located baseKey r.path r.pathIsRelative) = key

theorem mem_listReferencedPaths {r : Text × Bool} : r ∈ listReferencedPaths rows ↔
    (∃ j ∈ rows.joined, (j.resolvedPath, j.relFlag) = r) ∨ ∃ s ∈ rows.scheduled, (s.path, s.pathIsRelative) = r := by
  unfold listReferencedPaths PathRows.joined
  rw [List.mem_append, ← List.map_append, List.mem_map, List.mem_map]

theorem refers_iff_named (hok : ∀ r ∈ listReferencedPaths rows, ∃ path, resolvePath baseKey r.1 r.2 = .ok path) :
    Refers baseKey (listReferencedPaths rows) key ↔ Named baseKey rows key := by
  constructor
  · rintro ⟨r, hr, path, hpath, rfl⟩
    rcases mem_listReferencedPaths.mp hr with ⟨j, hj, rfl⟩ | ⟨s, hs, rfl⟩
    · exact .inl ⟨j, hj, (JoinedFile.segments_resolvedPath hpath).symm⟩
    · exact .inr ⟨s, hs, by rw [resolvePath_eq_ok hpath]⟩
  · rintro (⟨j, hj, rfl⟩ | ⟨s, hs, rfl⟩)
    · have hr := mem_listReferencedPaths.mpr (.inl ⟨j, hj, rfl⟩)
      obtain ⟨path, hpath⟩ := hok _ hr
      exact ⟨_, hr, path, hpath, JoinedFile.segments_resolvedPath hpath⟩
    · have hr := mem_listReferencedPaths.mpr (.inr ⟨s, hs, rfl⟩)
      obtain ⟨path, hpath⟩ := hok _ hr
      exact ⟨_, hr, path, hpath, by rw [resolvePath_eq_ok hpath]⟩

/-- Cleanup spares every reader exactly if no file whose paths run into each other is at
stake: some listed path does not resolve, so that nothing is deleted, or the key such a
file is read under is out of cleanup's reach or named by another row. -/
theorem orphan_cleanup_spares_readers_iff (baseKey : Text) (rows : PathRows) :
    SparesReaders baseKey rows ↔
      ((∀ r ∈ listReferencedPaths rows, ∃ path, resolvePath baseKey r.1 r.2 = .ok path) →
        ∀ j ∈ rows.joined, j.RunsOn baseKey → ∀ key, j.readKey baseKey = .ok key →
          segments baseKey <+: key → isParquet key = true → Named baseKey rows key) := by
  constructor
  · intro hspares hok j hj _ key hkey hunder hparquet
    rw [← refers_iff_named hok]
    by_contra hrefers
    exact hspares (storeOf key) .all false j hj key hkey (storeOf_deleted hok hunder hparquet hrefers)
  · intro h store criteria dryRun j hj key hkey hdeleted
    obtain ⟨hok, hunder, hparquet, hrefers⟩ := runOrphanCleanup_deleted hdeleted
    rw [refers_iff_named hok] at hrefers
    by_cases hruns : j.RunsOn baseKey
    · exact hrefers (h hok j hj hruns key hkey hunder hparquet)
    · exact hrefers (.inl ⟨j, hj, (JoinedFile.slashedKey_eq_iff hkey).mpr hruns⟩)

/-- One schema whose path ends in a backslash, one table and one data file. -/
def backslashRows : PathRows where
  schemas := [⟨1, "main\\".toList, true⟩]
  tables := [⟨1, 1, "t/".toList, true⟩]
  dataFiles := [⟨1, "f.parquet".toList, true⟩]
  deleteFiles := []
  scheduled := []

theorem orphan_cleanup_deletes_live_file :
    ¬ ∀ (baseKey : Text) (rows : PathRows), SparesReaders baseKey rows := by
  intro h
  let key : Key := ["data".toList, "main\\t".toList, "f.parquet".toList]
  have hdeleted : key ∈ (runOrphanCleanup "/data/".toList (listReferencedPaths backslashRows) (storeOf key)
      .all false).deleted := by
    decide
  exact h "/data/".toList backslashRows (storeOf key) .all false
    ⟨⟨1, "main\\".toList, true⟩, ⟨1, 1, "t/".toList, true⟩, ⟨1, "f.parquet".toList, true⟩⟩
    (by simp [PathRows.joined, joinFiles, backslashRows]) key (by rfl) hdeleted

end DuckLake.Maintenance
