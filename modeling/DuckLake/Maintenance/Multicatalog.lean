import Mathlib.Data.List.Pairwise
import Mathlib.Data.Prod.Lex
import DuckLake.Lib.Grouped
import DuckLake.Lib.Lists
import DuckLake.Maintenance.Orphans
import DuckLake.Nested.Text
import DuckLake.Stats.Encode

/- Cleanup of a database that several catalogs share (`maintenance.rs`, `multicatalog.rs`).
   Each catalog has a data path of its own, which may be another's or lie inside another's,
   and reserves `cat_{id}` below it.

   Correspondence (Rust ↔ Lean):
     `parse_object_store_url`         ↔ `parseObjectStoreUrl`
     `canonical_key`, `under`         ↔ `canonicalKey`, `under`
     `retain_unreferenced`            ↔ `retainUnreferenced`
     `cleanup_old_files_in_catalog`, `run_cleanup` ↔ `cleanupOldFilesInCatalog`, `runCleanup`
     `group_data_paths`, `merge_data_path_groups` ↔ `groupDataPaths`, `mergeDataPathGroups`
     `object_store::path::Path`       ↔ `ObjectPath`

   A key is text with slashes between encoded segments; what the code asks of texts
   (`under`) is shown to be what it means of segments (`under_iff`). The libraries for
   URLs, local paths and keys are parameters. -/

namespace DuckLake.Multicatalog

open Maintenance PathResolver Segments
open Nested (trimText)

/-! ## Keys -/

/-- A key by its text, the segments with a slash between each. -/
structure ObjectPath where
  raw : Text
  joined : ['/'].intercalate (segments raw) = raw

namespace ObjectPath

theorem raw_injective : Function.Injective raw := by
  intro a b h
  cases a
  cases b
  cases h
  rfl

/-- Keys are ordered as their texts. -/
instance : LinearOrder ObjectPath := LinearOrder.lift' raw raw_injective

def parts (path : ObjectPath) : List Text := segments path.raw

end ObjectPath

/-- What `object_store` says of keys: `Path::from` drops the empty segments of a text and
    percent-encodes the others, `prefix_matches` compares segment by segment. -/
structure PathEncoding where
  part : Text → Text
  ofText : Text → ObjectPath
  parts_ofText : ∀ t, (ofText t).parts = (segments t).map part
  prefixMatches : ObjectPath → ObjectPath → Bool
  prefixMatches_iff : ∀ path root, prefixMatches path root = true ↔ root.parts <+: path.parts

/-- The text of the key a resolved path names. -/
def canonicalKey (encoding : PathEncoding) (resolved : Text) : Text := (encoding.ofText (ltrim resolved)).raw

def under (key reserved : Text) : Bool := key == reserved || (reserved ++ ['/']).isPrefixOf key

/-! ## Data paths -/

structure ParsedUrl where
  host : Option Text
  beforePath : Text
  path : Text

/-- The libraries for URLs and local paths. -/
structure PathLibrary (Url : Type) where
  parseUrl : Text → Except Text ParsedUrl
  storeUrl : Text → Except Text Url
  decodeUtf8 : Text → Except Text Text
  absolute : Text → Except Text Text

/-- A library's error with what was tried. -/
def describe {α : Type} (what : Text) : Except Text α → Except Failure α
  | .ok a => .ok a
  | .error e => .error (.invalidConfig (what ++ e))

/-- What stands before `://`. -/
def beforeScheme : Text → Option Text
  | [] => none
  | c :: t => if "://".toList.isPrefixOf (c :: t) then some [] else (beforeScheme t).map (c :: ·)

def hasUrlScheme (dataPath : Text) : Bool :=
  match beforeScheme dataPath with
  | some (first :: rest) =>
    !rest.isEmpty && first.isAlpha && rest.all fun c => c.isAlphanum || c == '+' || c == '-' || c == '.'
  | _ => false

section Data

variable {Url : Type} (library : PathLibrary Url) (encoding : PathEncoding)

def parseBucketUrl (dataPath : Text) : Except Failure (Url × Text) := do
  let url ← describe ("Failed to parse URL '".toList ++ dataPath ++ "': ".toList) (library.parseUrl dataPath)
  if url.host.all List.isEmpty then .error (.invalidConfig ("URL missing bucket: ".toList ++ dataPath))
  else
    let store ← describe "Failed to create ObjectStoreUrl: ".toList (library.storeUrl (url.beforePath ++ ['/']))
    return (store, url.path)

def parseFileUrl (dataPath : Text) : Except Failure (Url × Text) := do
  let url ← describe ("Failed to parse file URL '".toList ++ dataPath ++ "': ".toList) (library.parseUrl dataPath)
  let store ← describe "Failed to create ObjectStoreUrl: ".toList (library.storeUrl "file:///".toList)
  let path ← describe ("Invalid UTF-8 in file path '".toList ++ dataPath ++ "': ".toList) (library.decodeUtf8 url.path)
  return (store, path)

def parseLocalPath (dataPath : Text) : Except Failure (Url × Text) := do
  if hasDotdotComponent dataPath then .error (.invalidConfig "Path contains '..' traversal component".toList)
  else
    let absolute ← describe ("Failed to resolve path '".toList ++ dataPath ++ "': ".toList) (library.absolute dataPath)
    let store ← describe "Failed to create ObjectStoreUrl: ".toList (library.storeUrl "file:///".toList)
    return (store, if endsInSeparator dataPath && !endsInSeparator absolute then absolute ++ ['/'] else absolute)

def parseObjectStoreUrl (dataPath : Text) : Except Failure (Url × Text) := do
  let dataPath := trimText dataPath
  validatePath dataPath
  if "file://".toList.isPrefixOf (dataPath.map Char.toLower) then parseFileUrl library dataPath
  else if hasUrlScheme dataPath then parseBucketUrl library dataPath
  else parseLocalPath library dataPath

/-! ## The database -/

structure CatalogRow where
  catalogId : Int
  name : Text
  dataPath : Option Text

structure ScheduledFile where
  dataFileId : Int
  path : Text
  pathIsRelative : Bool
  scheduledByOwner : Option Bool
  scheduleStart : Int
deriving DecidableEq

structure FileRow where
  fileId : Int
  path : Text
  legacyOwner : Option Int

/-- A file table with the table of its rows that name another catalog's file. -/
structure FileTable where
  rows : List FileRow
  references : List Int
  hasLegacyOwner : Bool

structure Database where
  catalogs : List CatalogRow
  scheduled : List (Int × ScheduledFile)
  dataFiles : FileTable
  deleteFiles : FileTable

def Database.findCatalogId (db : Database) (name : Text) : Option Int :=
  (db.catalogs.find? (·.name == name)).map (·.catalogId)

def Database.getDataPathInCatalog (db : Database) (name : Text) : Except Failure Text :=
  match (db.catalogs.find? (·.name == name)).bind (·.dataPath) with
  | some path => .ok path
  | none => .error (.invalidConfig
      ("Missing required catalog metadata: 'data_path' not configured for catalog \"".toList ++ name ++ "\".".toList))

def Database.listCatalogDataPaths (db : Database) : List (Int × Text) :=
  db.catalogs.filterMap fun c => c.dataPath.map fun path => (c.catalogId, path)

def FileTable.referencePaths (table : FileTable) : List Text :=
  (table.rows.filter fun row =>
    table.references.contains row.fileId || (table.hasLegacyOwner && row.legacyOwner.isSome)).map (·.path)

/-- The paths of every row of any catalog that names another catalog's file. -/
def Database.allReferencePaths (db : Database) : List Text :=
  db.dataFiles.referencePaths ++ db.deleteFiles.referencePaths

def Database.listScheduledForDeletionInCatalog (db : Database) (name : Text) (criteria : CleanupCriteria) :
    List ScheduledFile :=
  match db.findCatalogId name with
  | none => []
  | some id => (db.scheduled.filter fun row => row.1 == id &&
      match criteria with
      | .all => true
      | .olderThan cutoff => decide (row.2.scheduleStart < cutoff)).map (·.2)

/-! ## Reclaiming scheduled files -/

/-- The directory a catalog reserves below its data path. -/
def catalogDir (id : Int) : Text := "cat_".toList ++ intText id

def reservedPrefix (id : Int) (dataPath : Text) : Except Failure Text := do
  let (_, baseKey) ← parseObjectStoreUrl library dataPath
  let dir ← joinPaths baseKey (catalogDir id)
  return canonicalKey encoding dir

inductive Verdict where
  | foreign | unverified | deferred | kept
deriving DecidableEq, Repr

/-- What becomes of a scheduled file. -/
def verdict (ownPrefix : Option Text) (foreignPrefixes referenced : List Text) (file : ScheduledFile) (key : Text) :
    Verdict :=
  if foreignPrefixes.any (under key ·) then .foreign
  else if file.scheduledByOwner ≠ some true ∧ !file.pathIsRelative ∧ ownPrefix.any (!under key ·) then .unverified
  else if referenced.contains key then .deferred
  else .kept

structure Retained where
  kept : List ScheduledFile
  deferred : List Text

def ownPrefixOf (baseKey : Text) : Option Int → Except Failure (Option Text)
  | none => .ok none
  | some id => do
    let dir ← joinPaths baseKey (catalogDir id)
    return some (canonicalKey encoding dir)

/-- The files with the keys they resolve to. -/
def resolveFiles (baseKey : Text) (files : List ScheduledFile) : Except Failure (List (ScheduledFile × Text)) :=
  files.mapM fun file => do
    let resolved ← resolvePath baseKey file.path file.pathIsRelative
    return (file, canonicalKey encoding resolved)

def retainUnreferenced (db : Database) (catalogName dataPath : Text) (files : List ScheduledFile) :
    Except Failure Retained := do
  if files.isEmpty then return ⟨files, []⟩
  else
    let (_, baseKey) ← parseObjectStoreUrl library dataPath
    let own := db.findCatalogId catalogName
    let ownPrefix ← ownPrefixOf encoding baseKey own
    let foreignPrefixes ← (db.listCatalogDataPaths.filter fun c => some c.1 ≠ own).mapM fun c =>
      reservedPrefix library encoding c.1 c.2
    let resolved ← resolveFiles encoding baseKey files
    let referenced := db.allReferencePaths.map (canonicalKey encoding)
    let verdictOf := fun (entry : ScheduledFile × Text) => verdict ownPrefix foreignPrefixes referenced entry.1 entry.2
    return ⟨(resolved.filter fun entry => verdictOf entry = .kept).map (·.1),
      (resolved.filter fun entry => verdictOf entry = .deferred).map (·.1.path)⟩

/-- Deletes the files' objects one by one, up to the first failure. -/
def runCleanup (dataPath : Text) (files : List ScheduledFile) (store : ObjectStore) (dryRun : Bool) :
    Except Failure CleanupRun := do
  if files.isEmpty then return ⟨[], .ok []⟩
  else
    let (_, baseKey) ← parseObjectStoreUrl library dataPath
    let resolved ← resolveFiles encoding baseKey files
    let keys := resolved.map fun entry => segments entry.2
    return if dryRun then ⟨[], .ok keys⟩ else deleteOrphans store keys

def cleanupOldFilesInCatalog (db : Database) (catalogName : Text) (store : ObjectStore) (criteria : CleanupCriteria)
    (dryRun : Bool) : Except Failure CleanupRun := do
  let dataPath ← db.getDataPathInCatalog catalogName
  let files := db.listScheduledForDeletionInCatalog catalogName criteria
  let retained ← retainUnreferenced library encoding db catalogName dataPath files
  runCleanup library encoding dataPath retained.kept store dryRun

/-! ## Groups of data paths -/

structure DataPathGroup (Url : Type) where
  objectStoreUrl : Url
  objectPath : ObjectPath
  dataPaths : List Text

variable [LinearOrder Url]

/-- Data paths by store and key. -/
abbrev PathEntries (Url : Type) := List ((Url ×ₗ ObjectPath) × List Text)

def groupDataPath (entries : PathEntries Url) (dataPath : Text) : Except Failure (PathEntries Url) := do
  let (url, baseKey) ← parseObjectStoreUrl library dataPath
  return Grouped.push (toLex (url, encoding.ofText (ltrim baseKey))) dataPath entries

def groupEntries (dataPaths : List Text) : Except Failure (PathEntries Url) :=
  dataPaths.foldlM (groupDataPath library encoding) []

def groupDataPaths (dataPaths : List Text) : Except Failure (List (DataPathGroup Url)) := do
  let entries ← groupEntries library encoding dataPaths
  return entries.map fun (key, dataPaths) => ⟨(ofLex key).1, (ofLex key).2, dataPaths⟩

end Data

section Merge

variable {Url : Type} [DecidableEq Url] (encoding : PathEncoding)

/-- The first root that contains the group takes its data paths. -/
def extendFirst (group : DataPathGroup Url) : List (DataPathGroup Url) → Option (List (DataPathGroup Url))
  | [] => none
  | root :: roots =>
    if group.objectStoreUrl = root.objectStoreUrl ∧ encoding.prefixMatches group.objectPath root.objectPath then
      some ({ root with dataPaths := root.dataPaths ++ group.dataPaths } :: roots)
    else (extendFirst group roots).map (root :: ·)

def addGroup (roots : List (DataPathGroup Url)) (group : DataPathGroup Url) : List (DataPathGroup Url) :=
  (extendFirst encoding group roots).getD (roots ++ [group])

def mergeDataPathGroups (groups : List (DataPathGroup Url)) : List (DataPathGroup Url) :=
  groups.foldl (addGroup encoding) []

end Merge

/-! ## Keys by their segments -/

theorem under_iff {key root : ObjectPath} (hroot : root.raw ≠ []) :
    under key.raw root.raw = true ↔ root.parts <+: key.parts := by
  constructor
  · intro h
    rcases Bool.or_eq_true_iff.mp h with heq | hpre
    · have hsame : key = root := ObjectPath.raw_injective (beq_iff_eq.mp heq)
      exact hsame ▸ List.prefix_rfl
    · obtain ⟨rest, hrest⟩ := List.isPrefixOf_iff_prefix.mp hpre
      rw [ObjectPath.parts, ObjectPath.parts, ← hrest, List.append_assoc, List.singleton_append, segments_slash]
      exact List.prefix_append ..
  · rintro ⟨rest, hrest⟩
    have hparts : root.parts ≠ [] := by
      intro hnil
      rw [← root.joined, show segments root.raw = [] from hnil] at hroot
      exact hroot rfl
    have hkey : key.raw = ['/'].intercalate (root.parts ++ rest) := by
      rw [hrest]
      exact key.joined.symm
    unfold under
    by_cases hnil : rest = []
    · rw [hkey, hnil, List.append_nil, ObjectPath.parts, root.joined, beq_self_eq_true, Bool.true_or]
    · rw [hkey, intercalate_append hparts rest hnil, ObjectPath.parts, root.joined, Bool.or_eq_true_iff]
      refine .inr (List.isPrefixOf_iff_prefix.mpr ⟨['/'].intercalate rest, ?_⟩)
      rw [List.append_assoc, List.singleton_append]

/-! ## No reclaim crosses catalogs -/

section Reclaim

variable {Url : Type} {library : PathLibrary Url} {encoding : PathEncoding}

theorem segments_canonicalKey (encoding : PathEncoding) (resolved : Text) :
    segments (canonicalKey encoding resolved) = (segments resolved).map encoding.part := by
  rw [← segments_ltrim resolved]
  exact encoding.parts_ofText _

/-- A reserved prefix is a key, and not the root of the store. -/
theorem reservedPrefix_spec {id : Int} {dataPath reserved : Text}
    (h : reservedPrefix library encoding id dataPath = .ok reserved) :
    (∃ root : ObjectPath, root.raw = reserved) ∧ reserved ≠ [] := by
  obtain ⟨⟨url, baseKey⟩, -, h⟩ := Checked.bind_eq_ok.mp h
  obtain ⟨dir, hdir, h⟩ := Checked.bind_eq_ok.mp h
  obtain rfl := Checked.pure_eq_ok.mp h
  have hmem : 'c' ∈ dir := by
    obtain ⟨-, -, hjoin⟩ := Checked.bind_eq_ok.mp hdir
    rw [← Checked.pure_eq_ok.mp hjoin]
    have hc : 'c' ∈ catalogDir id := List.mem_append_left _ (by decide)
    split
    · exact List.mem_append_right _ hc
    · exact List.mem_append_right _ (List.mem_cons_of_mem _ hc)
  refine ⟨⟨_, rfl⟩, fun hnil => ?_⟩
  have hsegments := segments_canonicalKey encoding dir
  rw [hnil, segments_nil] at hsegments
  exact segments_ne_nil hmem (by decide) (List.map_eq_nil_iff.mp hsegments.symm)

/-- A catalog's reserved prefix contains the key. -/
def Reserves (library : PathLibrary Url) (encoding : PathEncoding) (id : Int) (dataPath key : Text) : Prop :=
  ∃ reserved, reservedPrefix library encoding id dataPath = .ok reserved ∧ segments reserved <+: segments key

/-- A key another catalog neither reserves nor refers to. -/
structure Unclaimed (library : PathLibrary Url) (encoding : PathEncoding) (db : Database) (catalogName key : Text) :
    Prop where
  reserved : ∀ c ∈ db.listCatalogDataPaths, some c.1 ≠ db.findCatalogId catalogName →
    ¬ Reserves library encoding c.1 c.2 key
  referenced : ∀ path ∈ db.allReferencePaths, canonicalKey encoding path ≠ key

theorem not_under_of_verdict {ownPrefix : Option Text} {foreignPrefixes referenced : List Text} {file : ScheduledFile}
    {key : Text} (h : verdict ownPrefix foreignPrefixes referenced file key = .kept) :
    (∀ reserved ∈ foreignPrefixes, under key reserved = false) ∧ key ∉ referenced := by
  unfold verdict at h
  split at h
  · cases h
  next hforeign =>
  split at h
  · cases h
  split at h
  · cases h
  next hreferenced =>
  constructor
  · intro reserved hmem
    by_contra hunder
    exact hforeign (List.any_eq_true.mpr ⟨reserved, hmem, by simpa using hunder⟩)
  · simpa using hreferenced

theorem unclaimed_of_kept {db : Database} {catalogName dataPath : Text} {files : List ScheduledFile}
    {retained : Retained} (h : retainUnreferenced library encoding db catalogName dataPath files = .ok retained)
    {file : ScheduledFile} (hfile : file ∈ retained.kept) :
    file ∈ files ∧ ∃ url baseKey resolved, parseObjectStoreUrl library dataPath = .ok (url, baseKey) ∧
      resolvePath baseKey file.path file.pathIsRelative = .ok resolved ∧
      Unclaimed library encoding db catalogName (canonicalKey encoding resolved) := by
  unfold retainUnreferenced at h
  split at h
  · next hempty =>
    rw [← Checked.pure_eq_ok.mp h, List.isEmpty_iff.mp hempty] at hfile
    cases hfile
  obtain ⟨⟨url, baseKey⟩, hparse, h⟩ := Checked.bind_eq_ok.mp h
  obtain ⟨ownPrefix, -, h⟩ := Checked.bind_eq_ok.mp h
  obtain ⟨foreignPrefixes, hforeign, h⟩ := Checked.bind_eq_ok.mp h
  obtain ⟨entries, hentries, h⟩ := Checked.bind_eq_ok.mp h
  rw [← Checked.pure_eq_ok.mp h] at hfile
  obtain ⟨⟨file', key⟩, hentry, rfl⟩ := List.mem_map.mp hfile
  obtain ⟨hmem, hkept⟩ := List.mem_filter.mp hentry
  obtain ⟨hunder, hreferenced⟩ := not_under_of_verdict (of_decide_eq_true hkept)
  obtain ⟨file'', hscheduled, hresolve⟩ := (Checked.mem_mapM hentries).mp hmem
  obtain ⟨resolved, hresolved, heq⟩ := Checked.bind_eq_ok.mp hresolve
  obtain ⟨rfl, rfl⟩ := Prod.mk.inj (Checked.pure_eq_ok.mp heq)
  refine ⟨hscheduled, url, baseKey, resolved, hparse, hresolved, ⟨?_, ?_⟩⟩
  · intro c hc hown hclaim
    obtain ⟨reserved, hreserved, hprefix⟩ := hclaim
    have hin : reserved ∈ foreignPrefixes := (Checked.mem_mapM hforeign).mpr
      ⟨c, List.mem_filter.mpr ⟨hc, decide_eq_true hown⟩, hreserved⟩
    obtain ⟨⟨root, rfl⟩, hne⟩ := reservedPrefix_spec hreserved
    have hnot : under (canonicalKey encoding resolved) root.raw = false := hunder root.raw hin
    rw [canonicalKey, (under_iff hne).mpr hprefix] at hnot
    cases hnot
  · intro path hpath heq
    exact hreferenced (List.mem_map.mpr ⟨path, hpath, heq⟩)

/-- Only the objects of kept files are deleted. -/
theorem runCleanup_deleted {dataPath : Text} {files : List ScheduledFile} {store : ObjectStore} {dryRun : Bool}
    {run : CleanupRun} (h : runCleanup library encoding dataPath files store dryRun = .ok run) {key : Key}
    (hkey : key ∈ run.deleted) : ∃ url baseKey, parseObjectStoreUrl library dataPath = .ok (url, baseKey) ∧
      ∃ file ∈ files, ∃ resolved, resolvePath baseKey file.path file.pathIsRelative = .ok resolved ∧
        key = segments (canonicalKey encoding resolved) := by
  unfold runCleanup at h
  split at h
  · rw [← Checked.pure_eq_ok.mp h] at hkey
    cases hkey
  obtain ⟨⟨url, baseKey⟩, hparse, h⟩ := Checked.bind_eq_ok.mp h
  obtain ⟨entries, hentries, h⟩ := Checked.bind_eq_ok.mp h
  have hrun := Checked.pure_eq_ok.mp h
  have hmem : key ∈ entries.map fun entry => segments entry.2 := by
    rw [← hrun] at hkey
    cases dryRun with
    | true => cases hkey
    | false => exact deleteOrphans_deleted hkey
  obtain ⟨⟨file, canonical⟩, hentry, rfl⟩ := List.mem_map.mp hmem
  obtain ⟨file', hfile, hresolve⟩ := (Checked.mem_mapM hentries).mp hentry
  obtain ⟨resolved, hresolved, heq⟩ := Checked.bind_eq_ok.mp hresolve
  obtain ⟨rfl, rfl⟩ := Prod.mk.inj (Checked.pure_eq_ok.mp heq)
  exact ⟨url, baseKey, hparse, file', hfile, resolved, hresolved, rfl⟩

/-- A cleanup deletes only what its own catalog scheduled and no other catalog claims. -/
theorem cleanup_deletes_unclaimed {db : Database} {catalogName : Text} {store : ObjectStore}
    {criteria : CleanupCriteria} {dryRun : Bool} {run : CleanupRun}
    (h : cleanupOldFilesInCatalog library encoding db catalogName store criteria dryRun = .ok run) {key : Key}
    (hkey : key ∈ run.deleted) :
    ∃ dataPath url baseKey, db.getDataPathInCatalog catalogName = .ok dataPath ∧
      parseObjectStoreUrl library dataPath = .ok (url, baseKey) ∧
      ∃ file ∈ db.listScheduledForDeletionInCatalog catalogName criteria, ∃ resolved,
        resolvePath baseKey file.path file.pathIsRelative = .ok resolved ∧
          key = segments (canonicalKey encoding resolved) ∧
          Unclaimed library encoding db catalogName (canonicalKey encoding resolved) := by
  obtain ⟨dataPath, hdataPath, h⟩ := Checked.bind_eq_ok.mp h
  obtain ⟨retained, hretained, h⟩ := Checked.bind_eq_ok.mp h
  obtain ⟨url, baseKey, hparse, file, hfile, resolved, hresolved, heq⟩ := runCleanup_deleted h hkey
  obtain ⟨hscheduled, url', baseKey', resolved', hparse', hresolved', hunclaimed⟩ := unclaimed_of_kept hretained hfile
  obtain ⟨-, rfl⟩ := Prod.mk.inj (Except.ok.inj (hparse.symm.trans hparse'))
  obtain rfl := Except.ok.inj (hresolved.symm.trans hresolved')
  exact ⟨dataPath, url, baseKey, hdataPath, hparse, file, hscheduled, resolved, hresolved, heq, hunclaimed⟩

end Reclaim

/-! ## Groups partition the data paths -/

section Groups

variable {Url : Type}

namespace DataPathGroup

/-- One root inside another, or the same. -/
def Inside (a b : DataPathGroup Url) : Prop :=
  a.objectStoreUrl = b.objectStoreUrl ∧ b.objectPath.parts <+: a.objectPath.parts

/-- A data path lies in the group's root. -/
def Contains (library : PathLibrary Url) (encoding : PathEncoding) (group : DataPathGroup Url) (dataPath : Text) :
    Prop :=
  ∃ baseKey, parseObjectStoreUrl library dataPath = .ok (group.objectStoreUrl, baseKey) ∧
    group.objectPath.parts <+: segments (canonicalKey encoding baseKey)

/-- Neither root is inside the other. -/
def Apart (a b : DataPathGroup Url) : Prop := ¬ a.Inside b ∧ ¬ b.Inside a

instance : Std.Symm (@Apart Url) := ⟨fun _ _ h => ⟨h.2, h.1⟩⟩

end DataPathGroup

/-- Each data path is in one group, whose root contains it, and the roots are apart. -/
structure Partitioned (library : PathLibrary Url) (encoding : PathEncoding) (dataPaths : List Text)
    (groups : List (DataPathGroup Url)) : Prop where
  complete : (groups.flatMap (·.dataPaths)).Perm dataPaths
  contained : ∀ group ∈ groups, ∀ path ∈ group.dataPaths, group.Contains library encoding path
  unique : ∀ a ∈ groups, ∀ b ∈ groups, ∀ path, path ∈ a.dataPaths → path ∈ b.dataPaths → a = b
  apart : groups.Pairwise DataPathGroup.Apart

variable {library : PathLibrary Url} {encoding : PathEncoding}

theorem inside_or_inside {a b : DataPathGroup Url} {path : Text}
    (ha : a.Contains library encoding path) (hb : b.Contains library encoding path) : a.Inside b ∨ b.Inside a := by
  obtain ⟨baseKey, hparse, hprefix⟩ := ha
  obtain ⟨baseKey', hparse', hprefix'⟩ := hb
  obtain ⟨hurl, rfl⟩ := Prod.mk.inj (Except.ok.inj (hparse.symm.trans hparse'))
  rcases List.prefix_or_prefix_of_prefix hprefix hprefix' with h | h
  · exact .inr ⟨hurl.symm, h⟩
  · exact .inl ⟨hurl, h⟩

theorem contains_of_inside {group root : DataPathGroup Url}
    {path : Text} (h : group.Inside root) (hpath : group.Contains library encoding path) :
    root.Contains library encoding path := by
  obtain ⟨baseKey, hparse, hprefix⟩ := hpath
  exact ⟨baseKey, h.1 ▸ hparse, h.2.trans hprefix⟩

section Merge

variable [DecidableEq Url] {encoding : PathEncoding} {group : DataPathGroup Url} {roots : List (DataPathGroup Url)}

theorem extendFirst_none (h : extendFirst encoding group roots = none) : ∀ root ∈ roots, ¬ group.Inside root := by
  induction roots with
  | nil => exact fun _ hm => nomatch hm
  | cons root roots ih =>
    rw [extendFirst] at h
    split at h
    · cases h
    · next hne =>
      refine List.forall_mem_cons.mpr ⟨fun hinside => ?_, ih (Option.map_eq_none_iff.mp h)⟩
      exact hne ⟨hinside.1, (encoding.prefixMatches_iff ..).mpr hinside.2⟩

theorem extendFirst_some {extended : List (DataPathGroup Url)} (h : extendFirst encoding group roots = some extended) :
    ∃ before root after, roots = before ++ root :: after ∧ group.Inside root ∧
      extended = before ++ { root with dataPaths := root.dataPaths ++ group.dataPaths } :: after := by
  induction roots generalizing extended with
  | nil => cases h
  | cons root roots ih =>
    rw [extendFirst] at h
    split at h
    · next hmatch =>
      exact ⟨[], root, roots, rfl, ⟨hmatch.1, (encoding.prefixMatches_iff ..).mp hmatch.2⟩, (Option.some.inj h).symm⟩
    · obtain ⟨rest, hrest, rfl⟩ := Option.map_eq_some_iff.mp h
      obtain ⟨before, root', after, rfl, hinside, rfl⟩ := ih hrest
      exact ⟨root :: before, root', after, rfl, hinside, rfl⟩

/-- The roots after some of the groups. -/
structure Merged (library : PathLibrary Url) (encoding : PathEncoding) (dataPaths : List Text)
    (rest roots : List (DataPathGroup Url)) : Prop where
  complete : (roots.flatMap (·.dataPaths)).Perm dataPaths
  contained : ∀ root ∈ roots, ∀ path ∈ root.dataPaths, root.Contains library encoding path
  apart : roots.Pairwise DataPathGroup.Apart
  later : ∀ root ∈ roots, ∀ group ∈ rest, ¬ root.Inside group

variable {library : PathLibrary Url} {dataPaths : List Text}

theorem Merged.addGroup {rest : List (DataPathGroup Url)} (h : Merged library encoding dataPaths (group :: rest) roots)
    (hgroup : ∀ path ∈ group.dataPaths, group.Contains library encoding path)
    (hlater : ∀ next ∈ rest, ¬ group.Inside next) :
    Merged library encoding (dataPaths ++ group.dataPaths) rest (addGroup encoding roots group) := by
  have hrest : ∀ root ∈ roots, ∀ next ∈ rest, ¬ root.Inside next := fun root hroot next hnext =>
    h.later root hroot next (by simp [hnext])
  unfold Multicatalog.addGroup
  cases hextend : extendFirst encoding group roots with
  | none =>
    have hnot := extendFirst_none hextend
    rw [Option.getD_none]
    refine ⟨?_, ?_, ?_, ?_⟩
    · rw [List.flatMap_append, List.flatMap_singleton]
      exact h.complete.append_right _
    · intro root hroot
      rcases List.mem_append.mp hroot with hroot | hroot
      · exact h.contained root hroot
      · rw [List.mem_singleton.mp hroot]
        exact hgroup
    · refine List.pairwise_append.mpr ⟨h.apart, List.pairwise_singleton .., fun root hroot next hnext => ?_⟩
      rw [List.mem_singleton.mp hnext]
      exact ⟨h.later root hroot group (by simp), hnot root hroot⟩
    · intro root hroot
      rcases List.mem_append.mp hroot with hroot | hroot
      · exact hrest root hroot
      · rw [List.mem_singleton.mp hroot]
        exact hlater
  | some extended =>
    obtain ⟨before, root, after, rfl, hinside, rfl⟩ := extendFirst_some hextend
    rw [Option.getD_some]
    refine ⟨?_, ?_, ?_, ?_⟩
    · refine List.Perm.trans ?_ (h.complete.append_right _)
      simp only [List.flatMap_append, List.flatMap_cons, List.append_assoc]
      exact (List.perm_append_comm.append_left _).append_left _
    · intro root' hroot' path hpath
      rcases List.mem_append.mp hroot' with hroot' | hroot'
      · exact h.contained root' (by simp [hroot']) path hpath
      rcases List.mem_cons.mp hroot' with rfl | hroot'
      · rcases List.mem_append.mp hpath with hpath | hpath
        · exact h.contained root (by simp) path hpath
        · exact contains_of_inside hinside (hgroup path hpath)
      · exact h.contained root' (by simp [hroot']) path hpath
    · exact Lists.pairwise_replace (a := root) (fun _ hx => hx) (fun _ hx => hx) h.apart
    · intro root' hroot'
      rcases List.mem_append.mp hroot' with hroot' | hroot'
      · exact hrest root' (by simp [hroot'])
      rcases List.mem_cons.mp hroot' with rfl | hroot'
      · exact hrest root (by simp)
      · exact hrest root' (by simp [hroot'])

theorem Merged.run {groups : List (DataPathGroup Url)} (hsorted : groups.Pairwise fun a b => ¬ a.Inside b)
    (hgroups : ∀ group ∈ groups, ∀ path ∈ group.dataPaths, group.Contains library encoding path)
    (h : Merged library encoding dataPaths groups roots) :
    Merged library encoding (dataPaths ++ groups.flatMap (·.dataPaths)) []
      (groups.foldl (Multicatalog.addGroup encoding) roots) := by
  induction groups generalizing dataPaths roots with
  | nil =>
    rw [List.flatMap_nil, List.append_nil]
    exact h
  | cons group groups ih =>
    obtain ⟨hlater, hrest⟩ := List.pairwise_cons.mp hsorted
    obtain ⟨hgroup, hothers⟩ := List.forall_mem_cons.mp hgroups
    rw [List.flatMap_cons, ← List.append_assoc]
    exact ih hrest hothers (h.addGroup hgroup hlater)

end Merge

theorem partitioned_of_merged {dataPaths : List Text}
    {roots : List (DataPathGroup Url)} (h : Merged library encoding dataPaths [] roots) :
    Partitioned library encoding dataPaths roots := by
  refine ⟨h.complete, h.contained, ?_, h.apart⟩
  intro a ha b hb path hpa hpb
  by_contra hne
  obtain ⟨hab, hba⟩ := h.apart.forall ha hb hne
  rcases inside_or_inside (h.contained a ha path hpa) (h.contained b hb path hpb) with hinside | hinside
  · exact hab hinside
  · exact hba hinside

section Sorted

variable [LinearOrder Url] {library : PathLibrary Url} {encoding : PathEncoding}

theorem not_inside_of_lt {a b : DataPathGroup Url}
    (h : toLex (a.objectStoreUrl, a.objectPath) < toLex (b.objectStoreUrl, b.objectPath)) : ¬ a.Inside b := by
  intro hinside
  have hprefix : b.objectPath.raw <+: a.objectPath.raw := by
    by_cases hempty : b.objectPath.raw = []
    · rw [hempty]
      exact List.nil_prefix
    · rcases Bool.or_eq_true_iff.mp ((under_iff hempty).mpr hinside.2) with heq | hpre
      · exact beq_iff_eq.mp heq ▸ List.prefix_rfl
      · exact (List.prefix_append ..).trans (List.isPrefixOf_iff_prefix.mp hpre)
  rcases Prod.Lex.toLex_lt_toLex.mp h with hurl | ⟨-, hpath⟩
  · exact absurd hinside.1 (ne_of_lt hurl)
  · exact hprefix.le hpath

/-- The key a data path is grouped under. -/
def GroupedUnder (library : PathLibrary Url) (encoding : PathEncoding) (key : Url ×ₗ ObjectPath) (dataPath : Text) :
    Prop :=
  ∃ baseKey, parseObjectStoreUrl library dataPath = .ok ((ofLex key).1, baseKey) ∧
    (ofLex key).2 = encoding.ofText (ltrim baseKey)

theorem groupEntries_run {dataPaths : List Text} {entries final : PathEntries Url}
    (h : dataPaths.foldlM (groupDataPath library encoding) entries = .ok final) (hordered : Grouped.Ordered entries)
    (hkeys : ∀ e ∈ entries, ∀ path ∈ e.2, GroupedUnder library encoding e.1 path) :
    Grouped.Ordered final ∧ (final.flatMap (·.2)).Perm (entries.flatMap (·.2) ++ dataPaths) ∧
      ∀ e ∈ final, ∀ path ∈ e.2, GroupedUnder library encoding e.1 path := by
  induction dataPaths generalizing entries with
  | nil =>
    obtain rfl := Checked.pure_eq_ok.mp h
    refine ⟨hordered, ?_, hkeys⟩
    rw [List.append_nil]
  | cons dataPath dataPaths ih =>
    rw [List.foldlM_cons] at h
    obtain ⟨next, hnext, h⟩ := Checked.bind_eq_ok.mp h
    obtain ⟨⟨url, baseKey⟩, hparse, heq⟩ := Checked.bind_eq_ok.mp hnext
    obtain rfl := Checked.pure_eq_ok.mp heq
    have hkey : GroupedUnder library encoding (toLex (url, encoding.ofText (ltrim baseKey))) dataPath :=
      ⟨baseKey, hparse, rfl⟩
    obtain ⟨hordered', hperm, hkeys'⟩ := ih h (Grouped.ordered_push hordered) (Grouped.forall_push hkey hkeys)
    refine ⟨hordered', hperm.trans ?_, hkeys'⟩
    exact ((Grouped.perm_push ..).append_right _).trans List.perm_middle.symm

theorem groupDataPaths_spec {dataPaths : List Text} {groups : List (DataPathGroup Url)}
    (h : groupDataPaths library encoding dataPaths = .ok groups) :
    groups.Pairwise (fun a b => ¬ a.Inside b) ∧ (groups.flatMap (·.dataPaths)).Perm dataPaths ∧
      ∀ group ∈ groups, ∀ path ∈ group.dataPaths, group.Contains library encoding path := by
  obtain ⟨entries, hentries, h⟩ := Checked.bind_eq_ok.mp h
  obtain rfl := Checked.pure_eq_ok.mp h
  obtain ⟨hordered, hperm, hcontained⟩ := groupEntries_run hentries List.Pairwise.nil (fun _ hm => nomatch hm)
  refine ⟨?_, ?_, ?_⟩
  · rw [List.pairwise_map]
    exact List.Pairwise.imp (fun hlt => not_inside_of_lt hlt) hordered
  · rw [List.flatMap_map]
    exact hperm
  · intro group hgroup path hpath
    obtain ⟨e, he, rfl⟩ := List.mem_map.mp hgroup
    obtain ⟨baseKey, hparse, hkey⟩ := hcontained e he path hpath
    refine ⟨baseKey, hparse, ?_⟩
    dsimp only
    rw [hkey]
    exact List.prefix_rfl

end Sorted

end Groups

/-- Reclaiming scheduled files never crosses catalogs, and the groups of an orphan sweep
    partition the data paths. -/
theorem multicatalog_cleanup_safe {Url : Type} [LinearOrder Url] (library : PathLibrary Url) (encoding : PathEncoding) :
    (∀ db catalogName dataPath files retained,
      retainUnreferenced library encoding db catalogName dataPath files = .ok retained →
        ∀ file ∈ retained.kept, ∃ url baseKey resolved, parseObjectStoreUrl library dataPath = .ok (url, baseKey) ∧
          resolvePath baseKey file.path file.pathIsRelative = .ok resolved ∧
          Unclaimed library encoding db catalogName (canonicalKey encoding resolved)) ∧
    ∀ dataPaths groups, groupDataPaths library encoding dataPaths = .ok groups →
      Partitioned library encoding dataPaths (mergeDataPathGroups encoding groups) := by
  refine ⟨fun db catalogName dataPath files retained h file hfile => (unclaimed_of_kept h hfile).2, ?_⟩
  intro dataPaths groups h
  obtain ⟨hsorted, hperm, hcontained⟩ := groupDataPaths_spec h
  have hempty : Merged library encoding [] groups [] :=
    ⟨List.Perm.refl _, fun _ hm => (nomatch hm), List.Pairwise.nil, fun _ hm => (nomatch hm)⟩
  have hmerged := partitioned_of_merged (Merged.run hsorted hcontained hempty)
  rw [List.nil_append] at hmerged
  exact ⟨hmerged.complete.trans hperm, hmerged.contained, hmerged.unique, hmerged.apart⟩

/-! ## Two catalogs, one inside the other -/

/-- Local paths only, on one store. -/
def localLibrary : PathLibrary Nat where
  parseUrl _ := .error "not a URL".toList
  storeUrl _ := .ok 0
  decodeUtf8 := .ok
  absolute := .ok

/-- Segments that need no encoding. -/
def plainEncoding : PathEncoding where
  part := id
  ofText t := ⟨['/'].intercalate (segments t), by rw [segments_segments]⟩
  parts_ofText t := (segments_segments t).trans (List.map_id _).symm
  prefixMatches path root := root.parts.isPrefixOf path.parts
  prefixMatches_iff _ _ := List.isPrefixOf_iff_prefix

def nestedDatabase : Database where
  catalogs := [⟨1, "a".toList, some "/d".toList⟩, ⟨2, "b".toList, some "/d/x".toList⟩]
  scheduled := []
  dataFiles := ⟨[⟨7, "/d/cat_1//s".toList, none⟩], [7], false⟩
  deleteFiles := ⟨[], [], false⟩

/-- Catalog `a` schedules a file of its own, one catalog `b` refers to and one `b` reserves. -/
def nestedSchedule : List ScheduledFile :=
  [⟨1, "cat_1/f".toList, true, some true, 0⟩, ⟨2, "cat_1/s".toList, true, some true, 0⟩,
    ⟨3, "x/cat_2/f".toList, true, some true, 0⟩]

theorem nestedSchedule_safe :
    (∃ retained, retainUnreferenced localLibrary plainEncoding nestedDatabase "a".toList "/d".toList nestedSchedule =
      .ok retained ∧ retained.kept.map (·.dataFileId) = [1] ∧
      ∀ file ∈ retained.kept, ∃ url baseKey resolved,
        parseObjectStoreUrl localLibrary "/d".toList = .ok (url, baseKey) ∧
        resolvePath baseKey file.path file.pathIsRelative = .ok resolved ∧
        Unclaimed localLibrary plainEncoding nestedDatabase "a".toList (canonicalKey plainEncoding resolved)) ∧
    ∃ groups, groupDataPaths localLibrary plainEncoding ["/d/x".toList, "/d".toList, "/e".toList] = .ok groups ∧
      (mergeDataPathGroups plainEncoding groups).map (fun g => (g.objectPath.raw, g.dataPaths)) =
        [("d".toList, ["/d".toList, "/d/x".toList]), ("e".toList, ["/e".toList])] ∧
      Partitioned localLibrary plainEncoding ["/d/x".toList, "/d".toList, "/e".toList]
        (mergeDataPathGroups plainEncoding groups) := by
  obtain ⟨hfiles, hroots⟩ := multicatalog_cleanup_safe localLibrary plainEncoding
  obtain ⟨retained, hretained, hkept⟩ : ∃ retained,
      retainUnreferenced localLibrary plainEncoding nestedDatabase "a".toList "/d".toList nestedSchedule =
        .ok retained ∧ retained.kept.map (·.dataFileId) = [1] := ⟨_, rfl, by decide +kernel⟩
  obtain ⟨groups, hgroups, hmerged⟩ : ∃ groups,
      groupDataPaths localLibrary plainEncoding ["/d/x".toList, "/d".toList, "/e".toList] = .ok groups ∧
        (mergeDataPathGroups plainEncoding groups).map (fun g => (g.objectPath.raw, g.dataPaths)) =
          [("d".toList, ["/d".toList, "/d/x".toList]), ("e".toList, ["/e".toList])] := ⟨_, rfl, by decide +kernel⟩
  exact ⟨⟨retained, hretained, hkept, hfiles _ _ _ _ _ hretained⟩, groups, hgroups, hmerged, hroots _ _ hgroups⟩

theorem scheduled_file_deleted : ∃ file ∈ nestedSchedule, ∃ resolved,
    resolvePath "/d".toList file.path file.pathIsRelative = .ok resolved ∧
      ["d".toList, "cat_1".toList, "f".toList] = segments (canonicalKey plainEncoding resolved) ∧
      Unclaimed localLibrary plainEncoding { nestedDatabase with scheduled := nestedSchedule.map ((1, ·)) } "a".toList
        (canonicalKey plainEncoding resolved) := by
  have hrun : cleanupOldFilesInCatalog localLibrary plainEncoding
      { nestedDatabase with scheduled := nestedSchedule.map ((1, ·)) } "a".toList ⟨[], fun _ => .ok⟩ .all false =
      .ok ⟨[["d".toList, "cat_1".toList, "f".toList]], .ok [["d".toList, "cat_1".toList, "f".toList]]⟩ := by
    rfl
  obtain ⟨dataPath, url, baseKey, hdataPath, hparse, hfile⟩ :=
    cleanup_deletes_unclaimed hrun (List.mem_singleton_self _)
  obtain rfl : "/d".toList = dataPath := Except.ok.inj hdataPath
  obtain ⟨-, rfl⟩ : 0 = url ∧ "/d".toList = baseKey := Prod.mk.inj (Except.ok.inj hparse)
  exact hfile

end DuckLake.Multicatalog
