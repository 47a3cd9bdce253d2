import DuckLake.Scalar
import DuckLake.Lib.Segments
import DuckLake.Lib.Checked
import DuckLake.Lib.Utf8

/- Paths of files: how the read path resolves them and how orphan cleanup does
   (`path_resolver.rs`, `maintenance.rs`, `list_referenced_paths` of
   `metadata_writer_sqlite.rs`).

   A reader resolves data path, schema path, table path and file path one after the
   other with `resolve_path`. Orphan cleanup asks the catalog for paths already
   joined by an SQL expression and resolves those against the data path. Object
   store keys are the non-empty segments of a path; the encoding of a segment is
   injective and left out.

   The decoder slices the text between two byte offsets after each `%`. A slice that does
   not end between two characters panics: `Failure.panicked`.

   Correspondence (Rust ↔ Lean):
     `percent_decode_path`                   ↔ `percentDecodePath`, `percentDecodeBytes`
     `&path[i + 1..i + 3]`                   ↔ the two boundary tests of `percentDecodeBytes`
     `validate_no_null_bytes`                ↔ `validateNoNullBytes`
     `validate_no_path_traversal`            ↔ `validateNoPathTraversal`
     `validate_path`, `join_paths`, `resolve_path` ↔ `validatePath`, `joinPaths`, `resolvePath`
     `RESOLVED_PATH`, `REL_FLAG`                   ↔ `resolvedPath`, `relFlag`
     `list_referenced_paths`                       ↔ `listReferencedPaths`
     `run_orphan_cleanup`                          ↔ `runOrphanCleanup` -/

namespace DuckLake.PathResolver

open Utf8

/-! ## Resolving paths -/

/-- How an operation ends early: the source panics or returns an error. -/
inductive Failure where
  | panicked
  | invalidConfig (message : Text)
  | objectStore
deriving DecidableEq, Repr

def isSeparator (c : Char) : Bool := c == '/' || c == '\\'

def hasDotdotComponent (path : Text) : Bool := (path.splitOnP isSeparator).any (· == ['.', '.'])

def hexDigit (c : Char) : Option Nat :=
  if '0' ≤ c ∧ c ≤ '9' then some (c.toNat - '0'.toNat)
  else if 'a' ≤ c ∧ c ≤ 'f' then some (c.toNat - 'a'.toNat + 10)
  else if 'A' ≤ c ∧ c ≤ 'F' then some (c.toNat - 'A'.toNat + 10)
  else none

/-- `u8::from_str_radix` of two characters; a leading `+` is allowed. -/
def hexByte (a b : Char) : Option Nat :=
  if a = '+' then hexDigit b else do
    let high ← hexDigit a
    let low ← hexDigit b
    return 16 * high + low

def percent : UInt8 := 0x25

/-- `byte as char`. -/
def byteChar (b : UInt8) : Char := Char.ofNat b.toNat

/-- The loop of `percent_decode_path`, from one byte offset on. -/
def percentDecodeBytes : List UInt8 → Except Failure Text
  | b :: h :: l :: rest =>
    if b = percent then
      if isContinuation h || rest.head?.any isContinuation then .error .panicked
      else match hexByte (byteChar h) (byteChar l) with
        | some byte => (Char.ofNat byte :: ·) <$> percentDecodeBytes rest
        | none => (byteChar b :: ·) <$> percentDecodeBytes (h :: l :: rest)
    else (byteChar b :: ·) <$> percentDecodeBytes (h :: l :: rest)
  | b :: rest => (byteChar b :: ·) <$> percentDecodeBytes rest
  | [] => .ok []

def percentDecodePath (path : Text) : Except Failure Text := percentDecodeBytes (encode path)

def containsSub (t sub : Text) : Bool := t.tails.any (sub.isPrefixOf ·)

def escapeNull (path : Text) : Text := path.flatMap fun c => if c = '\x00' then ['\\', '0'] else [c]

def validateNoNullBytes (path : Text) : Except Failure Unit :=
  if path.contains '\x00' then .error (.invalidConfig ("Path contains null byte: ".toList ++ escapeNull path))
  else if containsSub path "%00".toList then
    .error (.invalidConfig ("Path contains URL-encoded null byte (%00): ".toList ++ path))
  else .ok ()

def validateNoPathTraversal (path : Text) : Except Failure Unit :=
  if hasDotdotComponent path then
    .error (.invalidConfig ("Path traversal detected: path contains '..' component: ".toList ++ path))
  else if !path.contains '%' then .ok ()
  else do
    let decoded ← percentDecodePath path
    if decoded ≠ path ∧ hasDotdotComponent decoded then
      .error (.invalidConfig ("Path traversal detected: URL-encoded '..': ".toList ++ path))
    else .ok ()

def validatePath (path : Text) : Except Failure Unit := do
  validateNoNullBytes path
  validateNoPathTraversal path

def endsInSeparator (path : Text) : Bool := (path.getLast?).any isSeparator

def joinPaths (basePath relativePath : Text) : Except Failure Text := do
  validatePath relativePath
  return if endsInSeparator basePath then basePath ++ relativePath else basePath ++ '/' :: relativePath

def resolvePath (basePath path : Text) (isRelative : Bool) : Except Failure Text :=
  if isRelative then joinPaths basePath path
  else do
    validatePath path
    return path

end DuckLake.PathResolver

namespace DuckLake.Maintenance

open PathResolver Segments

/-! ## The catalog's rows -/

structure SchemaRow where
  schemaId : Nat
  path : Text
  pathIsRelative : Bool

structure TableRow where
  tableId : Nat
  schemaId : Nat
  path : Text
  pathIsRelative : Bool

/-- A row of `ducklake_data_file` or `ducklake_delete_file`. -/
structure FileRow where
  tableId : Nat
  path : Text
  pathIsRelative : Bool

structure ScheduledRow where
  path : Text
  pathIsRelative : Bool

structure PathRows where
  schemas : List SchemaRow
  tables : List TableRow
  dataFiles : List FileRow
  deleteFiles : List FileRow
  scheduled : List ScheduledRow

/-- A file with its table and schema, as the catalog joins them. -/
structure JoinedFile where
  schema : SchemaRow
  table : TableRow
  file : FileRow

def joinFiles (rows : PathRows) (files : List FileRow) : List JoinedFile :=
  files.flatMap fun f =>
    (rows.tables.filter fun t => t.tableId == f.tableId).flatMap fun t =>
      (rows.schemas.filter fun s => s.schemaId == t.schemaId).map fun s => ⟨s, t, f⟩

def PathRows.joined (rows : PathRows) : List JoinedFile :=
  joinFiles rows rows.dataFiles ++ joinFiles rows rows.deleteFiles

/-- An object store key. -/
abbrev Key := List Text

/-- The key a reader opens for a file. -/
def JoinedFile.readKey (basePath : Text) (j : JoinedFile) : Except Failure Key := do
  let schemaPath ← resolvePath basePath j.schema.path j.schema.pathIsRelative
  let tablePath ← resolvePath schemaPath j.table.path j.table.pathIsRelative
  let path ← resolvePath tablePath j.file.path j.file.pathIsRelative
  return segments path

/-! ## Orphan cleanup -/

def JoinedFile.resolvedPath (j : JoinedFile) : Text :=
  if !j.file.pathIsRelative then j.file.path
  else if !j.table.pathIsRelative then rtrim j.table.path ++ '/' :: ltrim j.file.path
  else rtrim j.schema.path ++ '/' :: (rtrim j.table.path ++ '/' :: ltrim j.file.path)

def JoinedFile.relFlag (j : JoinedFile) : Bool :=
  j.file.pathIsRelative && j.table.pathIsRelative && j.schema.pathIsRelative

def listReferencedPaths (rows : PathRows) : List (Text × Bool) :=
  (joinFiles rows rows.dataFiles).map (fun j => (j.resolvedPath, j.relFlag)) ++
    (joinFiles rows rows.deleteFiles).map (fun j => (j.resolvedPath, j.relFlag)) ++
    rows.scheduled.map fun r => (r.path, r.pathIsRelative)

structure ObjectMeta where
  location : Key
  lastModified : Int

inductive CleanupCriteria where
  | all
  | olderThan (cutoff : Int)

inductive DeleteResult where
  | ok | notFound | failed

/-- The object store: what it lists and how it answers a deletion. -/
structure ObjectStore where
  objects : List ObjectMeta
  delete : Key → DeleteResult

def ObjectStore.list (store : ObjectStore) (under : Key) : List ObjectMeta :=
  store.objects.filter fun o => under.isPrefixOf o.location

def isParquet (key : Key) : Bool := (key.getLast?).any fun last => ".parquet".toList.isSuffixOf last

def CleanupCriteria.passes (criteria : CleanupCriteria) (o : ObjectMeta) : Bool :=
  match criteria with
  | .all => true
  | .olderThan cutoff => o.lastModified < cutoff

/-- What a cleanup did: the keys it deleted, and its answer. -/
structure CleanupRun where
  deleted : List Key
  answer : Except Failure (List Key)

/-- Deletes the orphans one by one, up to the first failure. -/
def deleteOrphans (store : ObjectStore) : List Key → CleanupRun
  | [] => ⟨[], .ok []⟩
  | key :: keys =>
    match store.delete key with
    | .failed => ⟨[], .error .objectStore⟩
    | .ok | .notFound =>
      let rest := deleteOrphans store keys
      ⟨key :: rest.deleted, rest.answer.map (key :: ·)⟩

def referencedKeys (baseKey : Text) (referenced : List (Text × Bool)) : Except Failure (List Key) :=
  referenced.mapM fun r => do
    let path ← resolvePath baseKey r.1 r.2
    return segments path

def runOrphanCleanup (baseKey : Text) (referenced : List (Text × Bool)) (store : ObjectStore)
    (criteria : CleanupCriteria) (dryRun : Bool) : CleanupRun :=
  match referencedKeys baseKey referenced with
  | .error e => ⟨[], .error e⟩
  | .ok keys =>
    let orphans := ((store.list (segments baseKey)).filter fun o =>
      isParquet o.location && criteria.passes o && !keys.contains o.location).map (·.location)
    if dryRun then ⟨[], .ok orphans⟩ else deleteOrphans store orphans

end DuckLake.Maintenance
