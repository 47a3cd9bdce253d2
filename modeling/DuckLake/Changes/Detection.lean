import DuckLake.Lib.Lists
import DuckLake.Metadata.Catalog
import Mathlib.Data.List.Induction
import Mathlib.Data.List.Pairwise
import Mathlib.Data.List.Sort
import Mathlib.Tactic.Linarith

/- Whether a table's rows changed between two snapshots, as `change_detection.rs` reads
   it from the change ledger.

   Rust                                   Lean
   changes_made, a parsed token           LedgerRow, Token
   TableDataChanges::record               record
   TableDataChanges::record_gap           recordGap
   expired_in_window                      expiredInWindow
   analyse                                analyse
   ChangeFeed::reports                    the parameter `reports`

   A token is kept as `record` parses it: its kind, and the id its value spells. The
   `LIKE` pattern of the ledger query also keeps rows in which no token names the table;
   `record` takes nothing from those. Snapshot ids are `i64`, and a window may start
   before the first of them. -/

namespace DuckLake.Changes

open Metadata

/-! ## The ledger -/

/-- The kinds of token: a change of a table, one of `change_kind_names_other_object`, or
    one the crate does not know. -/
inductive TokenKind where
  | change (kind : ChangeKind)
  | otherObject
  | unknown
deriving DecidableEq, Repr

structure Token where
  kind : TokenKind
  value : Option Nat
deriving DecidableEq, Repr

/-- A snapshot joined with its change row, which may be missing. -/
structure LedgerRow where
  snapshotId : Int
  changesMade : Option (List Token)
deriving DecidableEq, Repr

/-! ## What the ledger says -/

structure TableDataChanges where
  inserted : Bool
  deleted : Bool
  inlinedInserted : Bool
  inlinedDeleted : Bool
  flushed : Bool
  compacted : Bool
  altered : Bool
  dropped : Bool
  unrecorded : Bool
  historyIncomplete : Bool
  lastRowsChangedSnapshot : Option Int
  lastChangedSnapshot : Option Int
deriving DecidableEq, Repr

namespace TableDataChanges

def default : TableDataChanges :=
  ⟨false, false, false, false, false, false, false, false, false, false, none, none⟩

def rowsChanged (changes : TableDataChanges) : Bool :=
  changes.inserted || changes.deleted || changes.inlinedInserted || changes.inlinedDeleted ||
    changes.dropped || changes.unrecorded || changes.historyIncomplete

end TableDataChanges

/-- What one snapshot's tokens say of the table's rows. -/
inductive SnapshotRows where
  | unchanged
  | moved
  | changed
deriving DecidableEq, Repr

/-- The local variables of `record`: the flags, and what was met so far. -/
structure Noted where
  changes : TableDataChanges
  rows : Bool
  moved : Bool
  any : Bool

def noteChange (n : Noted) : ChangeKind → Noted
  | .insertedIntoTable => { n with rows := true, changes := { n.changes with inserted := true } }
  | .deletedFromTable => { n with rows := true, changes := { n.changes with deleted := true } }
  | .inlinedInsert => { n with rows := true, changes := { n.changes with inlinedInserted := true } }
  | .inlinedDelete => { n with rows := true, changes := { n.changes with inlinedDeleted := true } }
  | .droppedTable => { n with rows := true, changes := { n.changes with dropped := true } }
  | .inlineFlush | .flushedInlined => { n with moved := true, changes := { n.changes with flushed := true } }
  | .mergeAdjacent | .rewriteDelete | .compactedTable =>
    { n with moved := true, changes := { n.changes with compacted := true } }
  | .alteredTable => { n with changes := { n.changes with altered := true } }

/-- One round of the loop of `record`. -/
def noteToken (tableId : Nat) (n : Noted) (token : Token) : Noted :=
  if token.value ≠ some tableId then n
  else match token.kind with
    | .otherObject => n
    | .change kind => noteChange { n with any := true } kind
    | .unknown => { n with any := true, rows := true, changes := { n.changes with unrecorded := true } }

def record (tableId : Nat) (changes : TableDataChanges) (row : LedgerRow) : TableDataChanges × SnapshotRows :=
  match row.changesMade with
  | none =>
    ({ changes with
        unrecorded := true
        lastRowsChangedSnapshot := some row.snapshotId
        lastChangedSnapshot := some row.snapshotId }, .changed)
  | some tokens =>
    let n := tokens.foldl (noteToken tableId) ⟨changes, false, false, false⟩
    let changes := if n.any then { n.changes with lastChangedSnapshot := some row.snapshotId } else n.changes
    if n.rows then ({ changes with lastRowsChangedSnapshot := some row.snapshotId }, .changed)
    else if n.moved then (changes, .moved)
    else (changes, .unchanged)

def TableDataChanges.recordGap (changes : TableDataChanges) (bound : Int) : TableDataChanges :=
  { changes with
    historyIncomplete := true
    lastRowsChangedSnapshot := some (changes.lastRowsChangedSnapshot.elim bound (max · bound))
    lastChangedSnapshot := some (changes.lastChangedSnapshot.elim bound (max · bound)) }

/-! ## Expired snapshots -/

/-- `expired_in_window`, given the catalog's head and the ids `snapshot_ids_between`
    returned for the window up to it. -/
def expiredInWindow (consecutive : Bool) (firstSnapshot : Option Int) (head : Int) (ids : List Int)
    (after through : Int) : Option Int :=
  let last := min through head
  let next (id : Int) : Int := (ids.find? fun candidate => decide (id < candidate)).getD last
  if !consecutive then
    let bound := if after < 0 then (if ids.isEmpty && decide (0 ≤ last) then some last else none)
      else if ids.head? ≠ some after then some (next after) else none
    match firstSnapshot with
    | some created =>
      if after < created ∧ created ≤ last ∧ created ∉ ids then
        some (bound.elim (next created) (max · (next created)))
      else bound
    | none => bound
  else
    -- the window's first id, and what an expired start of a whole history leaves
    let start : Option Int × Option Int :=
      if 0 ≤ after then (some (after + 1), none)
      else match ids.head? with
        | some first => if first ≤ 1 then (some first, none) else (some first, some first)
        | none => (none, if 1 ≤ last then some last else none)
    match start with
    | (none, bound) => bound
    | (some first, bound) =>
      match ((List.range (last + 1 - first).toNat).map fun (k : Nat) => last - (k : Int)).find?
          fun id => !ids.contains id with
      | some missing => some (bound.elim (next missing) (max · (next missing)))
      | none => bound

/-! ## The analysis -/

/-- The rows `list_table_snapshot_changes` returned, recorded in order, with the snapshots
    that only moved rows. -/
def recordAll (tableId : Nat) (rows : List LedgerRow) : TableDataChanges × List Int :=
  rows.foldl (fun (acc : TableDataChanges × List Int) row =>
    let (changes, said) := record tableId acc.1 row
    (changes, if said = .moved then acc.2 ++ [row.snapshotId] else acc.2)) (.default, [])

/-- The latest moved snapshot the feeds report alone, or the last one. -/
def latestReported (complete : Bool) (reports : Int → Int → Bool × Bool) (moved : List Int) (last : Int) : Int :=
  if complete && decide (1 < moved.length) then
    (moved.reverse.find? fun s => (reports s s).1 || (reports s s).2).getD last
  else last

/-- The feeds decide about the snapshots after the last recorded change. `reports` are the
    deletions and the insertions feed over a window, `visible` whether the table is there
    at the window's end. -/
def consultFeed (complete visible : Bool) (reports : Int → Int → Bool × Bool) (changes : TableDataChanges)
    (moved : List Int) : TableDataChanges :=
  match moved.head?, moved.getLast? with
  | some first, some last =>
    if !visible then { changes with unrecorded := true, lastRowsChangedSnapshot := some last }
    else if !(reports first last).1 && !(reports first last).2 then changes
    else { changes with
      deleted := changes.deleted || (reports first last).1
      inserted := changes.inserted || (reports first last).2
      lastRowsChangedSnapshot := some (latestReported complete reports moved last) }
  | _, _ => changes

/-- The moved snapshots after the last recorded change. -/
def unsettled (changes : TableDataChanges) (moved : List Int) : List Int :=
  moved.filter fun s => changes.lastRowsChangedSnapshot.all (decide <| · < s)

/-- `analyse`, given what it reads: the ledger rows of the window, the outcome of
    `expired_in_window`, and the feeds. -/
def analyse (tableId : Nat) (after through : Int) (complete : Bool) (rows : List LedgerRow) (gap : Option Int)
    (visible : Bool) (reports : Int → Int → Bool × Bool) : TableDataChanges :=
  if through ≤ after then .default
  else
    let (changes, moved) := recordAll tableId rows
    let changes := gap.elim changes changes.recordGap
    if !complete && changes.rowsChanged then changes
    else consultFeed complete visible (fun first last => reports first (min last through)) changes
      (unsettled changes moved)

/-! ## What one snapshot says -/

section Said

variable (tableId : Nat) (changes : TableDataChanges) (n : Noted) (tokens : List Token) (row : LedgerRow)

/-- What one token says of the table's rows. -/
def Token.tells (token : Token) : SnapshotRows :=
  if token.value ≠ some tableId then .unchanged
  else match token.kind with
    | .otherObject | .change .alteredTable => .unchanged
    | .change .inlineFlush | .change .flushedInlined | .change .mergeAdjacent | .change .rewriteDelete
    | .change .compactedTable => .moved
    | _ => .changed

/-- What a snapshot's change row says of the table's rows. -/
def LedgerRow.said : SnapshotRows :=
  match row.changesMade with
  | none => .changed
  | some tokens =>
    if tokens.any (·.tells tableId = .changed) then .changed
    else if tokens.any (·.tells tableId = .moved) then .moved
    else .unchanged

/-- One token adds to what was met before it. -/
structure NotesMore (n n' : Noted) (told : SnapshotRows) : Prop where
  rows : n'.rows = (n.rows || decide (told = .changed))
  moved : n'.moved = (n.moved || decide (told = .moved))
  last : n'.changes.lastRowsChangedSnapshot = n.changes.lastRowsChangedSnapshot
  rowsChanged : n'.changes.rowsChanged = (n.changes.rowsChanged || decide (told = .changed))

theorem noteToken_spec (token : Token) :
    NotesMore n (noteToken tableId n token) (token.tells tableId) := by
  by_cases hv : token.value = some tableId
  · cases hk : token.kind with
    | otherObject => constructor <;> simp [noteToken, Token.tells, hv, hk]
    | unknown => constructor <;> simp [noteToken, Token.tells, hv, hk, TableDataChanges.rowsChanged]
    | change kind =>
      cases kind <;> constructor <;> simp [noteToken, noteChange, Token.tells, hv, hk, TableDataChanges.rowsChanged]
  · constructor <;> simp [noteToken, Token.tells, hv]

theorem foldl_noteToken :
    (tokens.foldl (noteToken tableId) n).rows = (n.rows || tokens.any (·.tells tableId = .changed)) ∧
      (tokens.foldl (noteToken tableId) n).moved = (n.moved || tokens.any (·.tells tableId = .moved)) ∧
      (tokens.foldl (noteToken tableId) n).changes.lastRowsChangedSnapshot = n.changes.lastRowsChangedSnapshot ∧
      (tokens.foldl (noteToken tableId) n).changes.rowsChanged =
        (n.changes.rowsChanged || tokens.any (·.tells tableId = .changed)) := by
  induction tokens generalizing n with
  | nil => simp
  | cons token tokens ih =>
    obtain ⟨hrows, hmoved, hlast, hchanged⟩ := ih (noteToken tableId n token)
    have hstep := noteToken_spec tableId n token
    rw [List.foldl_cons, hrows, hmoved, hlast, hchanged, hstep.rows, hstep.moved, hstep.last, hstep.rowsChanged]
    simp [Bool.or_assoc]

/-- What `record` returns and leaves. -/
structure Recorded (row : LedgerRow) (said : SnapshotRows) (changes changes' : TableDataChanges) : Prop where
  changed : said = .changed → changes'.lastRowsChangedSnapshot = some row.snapshotId ∧ changes'.rowsChanged = true
  other : said ≠ .changed → changes'.lastRowsChangedSnapshot = changes.lastRowsChangedSnapshot
  mono : changes.rowsChanged = true → changes'.rowsChanged = true

theorem record_spec :
    (record tableId changes row).2 = row.said tableId ∧
    Recorded row (row.said tableId) changes (record tableId changes row).1 := by
  cases hm : row.changesMade with
  | none =>
    simp only [record, LedgerRow.said, hm]
    exact ⟨trivial, ⟨fun _ => ⟨rfl, by simp [TableDataChanges.rowsChanged]⟩, by simp,
      by simp [TableDataChanges.rowsChanged]⟩⟩
  | some tokens =>
    obtain ⟨hrows, hmoved, hlast, hchanged⟩ := foldl_noteToken tableId ⟨changes, false, false, false⟩ tokens
    simp only [Bool.false_or] at hrows hmoved
    simp only [record, LedgerRow.said, hm, hrows, hmoved]
    -- the snapshot of the last change of any kind is another field
    have hany : ∀ c : TableDataChanges, ∀ b : Bool, ∀ last : Option Int,
        (if b = true then { c with lastChangedSnapshot := last } else c).rowsChanged = c.rowsChanged ∧
        (if b = true then { c with lastChangedSnapshot := last } else c).lastRowsChangedSnapshot =
          c.lastRowsChangedSnapshot := by
      intro c b last
      cases b <;> exact ⟨rfl, rfl⟩
    by_cases hr : tokens.any (fun x => decide (x.tells tableId = .changed)) = true
    · simp only [hr, if_true]
      refine ⟨trivial, ⟨fun _ => ⟨rfl, ?_⟩, by simp, fun _ => ?_⟩⟩
      · exact (hany _ _ _).1.trans (by rw [hchanged, hr, Bool.or_true])
      · exact (hany _ _ _).1.trans (by rw [hchanged, hr, Bool.or_true])
    · rw [Bool.not_eq_true] at hr
      have hmono : changes.rowsChanged = true → (tokens.foldl (noteToken tableId)
          ⟨changes, false, false, false⟩).changes.rowsChanged = true := by
        intro h
        rw [hchanged, h, Bool.true_or]
      by_cases hmv : tokens.any (fun x => decide (x.tells tableId = .moved)) = true
      · simp only [hr, hmv, if_true, Bool.false_eq_true, if_false]
        exact ⟨trivial, ⟨by simp, fun _ => (hany _ _ _).2.trans hlast, fun h => (hany _ _ _).1.trans (hmono h)⟩⟩
      · simp only [hr, hmv, Bool.false_eq_true, if_false]
        exact ⟨trivial, ⟨by simp, fun _ => (hany _ _ _).2.trans hlast, fun h => (hany _ _ _).1.trans (hmono h)⟩⟩

/-- A token that names a change of the table. -/
def Token.names (token : Token) : Bool := token.value == some tableId && token.kind != .otherObject

/-- A token that names an alteration of the table. -/
def Token.alters (token : Token) : Bool := token == ⟨.change .alteredTable, some tableId⟩

/-- Some token of the snapshot's change row is such. -/
def LedgerRow.has (p : Token → Bool) : Bool := row.changesMade.any (·.any p)

theorem foldl_noteToken_any :
    (tokens.foldl (noteToken tableId) n).any = (n.any || tokens.any (·.names tableId)) ∧
      (tokens.foldl (noteToken tableId) n).changes.altered = (n.changes.altered || tokens.any (·.alters tableId)) ∧
      (tokens.foldl (noteToken tableId) n).changes.lastChangedSnapshot = n.changes.lastChangedSnapshot := by
  induction tokens generalizing n with
  | nil => simp
  | cons token tokens ih =>
    have hstep : (noteToken tableId n token).any = (n.any || token.names tableId) ∧
        (noteToken tableId n token).changes.altered = (n.changes.altered || token.alters tableId) ∧
        (noteToken tableId n token).changes.lastChangedSnapshot = n.changes.lastChangedSnapshot := by
      obtain ⟨kind, value⟩ := token
      by_cases hv : value = some tableId
      · cases kind with
        | change kind => cases kind <;> simp [noteToken, noteChange, Token.names, Token.alters, hv]
        | _ => simp [noteToken, Token.names, Token.alters, hv]
      · simp [noteToken, Token.names, Token.alters, hv]
    obtain ⟨hany, haltered, hlast⟩ := ih (noteToken tableId n token)
    rw [List.foldl_cons, hany, haltered, hlast, hstep.1, hstep.2.1, hstep.2.2]
    simp [Bool.or_assoc]

/-- What `record` notes of changes of any kind. -/
theorem record_noted :
    ((record tableId changes row).1.altered = (changes.altered || row.has (·.alters tableId))) ∧
      (row.has (·.names tableId) = true → (record tableId changes row).1.lastChangedSnapshot = some row.snapshotId) ∧
      ((record tableId changes row).1.lastChangedSnapshot = changes.lastChangedSnapshot ∨
        (record tableId changes row).1.lastChangedSnapshot = some row.snapshotId) := by
  unfold LedgerRow.has record
  cases row.changesMade with
  | none => simp
  | some tokens =>
    obtain ⟨hany, haltered, hlast⟩ := foldl_noteToken_any tableId ⟨changes, false, false, false⟩ tokens
    dsimp only
    generalize tokens.foldl (noteToken tableId) ⟨changes, false, false, false⟩ = n at hany haltered hlast ⊢
    rw [Bool.false_or] at hany
    simp only [Option.any_some, ← hany, ← haltered]
    cases n.any <;> cases n.rows <;> cases n.moved <;> simp [hlast]

end Said

/-! ## The whole ledger -/

/-- `s` is counted: the rows are reported changed, and not before `s`. -/
def TableDataChanges.Counts (changes : TableDataChanges) (s : Int) : Prop :=
  changes.rowsChanged = true ∧ ∃ last, changes.lastRowsChangedSnapshot = some last ∧ s ≤ last

section Ledger

variable {tableId : Nat} {rows : List LedgerRow}

/-- The rows recorded so far: each is counted, moved or silent, and nothing recorded is
    after the next row. -/
structure LedgerRead (tableId : Nat) (rows : List LedgerRow) (changes : TableDataChanges) (moved : List Int) :
    Prop where
  changed : ∀ row ∈ rows, row.said tableId = .changed → changes.Counts row.snapshotId
  listed : ∀ row ∈ rows, row.said tableId = .moved → row.snapshotId ∈ moved
  sorted : moved.Pairwise (· ≤ ·)
  movedFrom : ∀ s ∈ moved, ∃ row ∈ rows, row.snapshotId = s
  flagged : ∀ l, changes.lastRowsChangedSnapshot = some l → changes.rowsChanged = true

theorem recordAll_append (row : LedgerRow) : recordAll tableId (rows ++ [row]) =
    ((record tableId (recordAll tableId rows).1 row).1,
      if row.said tableId = .moved then (recordAll tableId rows).2 ++ [row.snapshotId]
      else (recordAll tableId rows).2) := by
  unfold recordAll
  rw [List.foldl_append, List.foldl_cons, List.foldl_nil]
  simp only [(record_spec tableId _ _).1]

/-- The ledger query returns the rows in order, so a change recorded later is a later one. -/
theorem recordAll_spec (tableId : Nat) (hsorted : (rows.map (·.snapshotId)).Pairwise (· ≤ ·)) :
    LedgerRead tableId rows (recordAll tableId rows).1 (recordAll tableId rows).2 := by
  induction rows using List.reverseRecOn with
  | nil =>
    exact ⟨by simp, by simp, by simp [recordAll], by simp [recordAll],
      by simp [recordAll, TableDataChanges.default]⟩
  | append_singleton rows row ih =>
    rw [List.map_append, List.map_singleton, List.pairwise_append] at hsorted
    obtain ⟨hsorted, -, hle⟩ := hsorted
    have hle : ∀ r ∈ rows, r.snapshotId ≤ row.snapshotId := fun r hr =>
      hle _ (List.mem_map_of_mem hr) _ (List.mem_singleton_self _)
    have hread := ih hsorted
    have hrec := (record_spec tableId (recordAll tableId rows).1 row).2
    rw [recordAll_append]
    refine ⟨?_, ?_, ?_, ?_, ?_⟩
    · intro r hr hsaid
      rcases List.mem_append.mp hr with hr | hr
      · obtain ⟨hchanged, l, hl, hrl⟩ := hread.changed r hr hsaid
        refine ⟨hrec.mono hchanged, ?_⟩
        by_cases hrow : row.said tableId = .changed
        · exact ⟨_, (hrec.changed hrow).1, hle r hr⟩
        · exact ⟨l, (hrec.other hrow).trans hl, hrl⟩
      · obtain rfl := List.mem_singleton.mp hr
        exact ⟨(hrec.changed hsaid).2, _, (hrec.changed hsaid).1, le_rfl⟩
    · intro r hr hsaid
      rcases List.mem_append.mp hr with hr | hr
      · have hmem := hread.listed r hr hsaid
        show r.snapshotId ∈ ite _ _ _
        split
        · exact List.mem_append_left _ hmem
        · exact hmem
      · obtain rfl := List.mem_singleton.mp hr
        simp [hsaid]
    · show (ite _ _ _ : List Int).Pairwise _
      split
      · refine List.pairwise_append.mpr ⟨hread.sorted, List.pairwise_singleton _ _, fun s hs x hx => ?_⟩
        obtain ⟨r, hr, rfl⟩ := hread.movedFrom s hs
        rw [List.mem_singleton.mp hx]
        exact hle r hr
      · exact hread.sorted
    · intro s hs
      have hs : s ∈ (ite _ _ _ : List Int) := hs
      split at hs
      · rcases List.mem_append.mp hs with hs | hs
        · obtain ⟨r, hr, hrs⟩ := hread.movedFrom s hs
          exact ⟨r, List.mem_append_left _ hr, hrs⟩
        · exact ⟨row, by simp, (List.mem_singleton.mp hs).symm⟩
      · obtain ⟨r, hr, hrs⟩ := hread.movedFrom s hs
        exact ⟨r, List.mem_append_left _ hr, hrs⟩
    · intro l hl
      by_cases hrow : row.said tableId = .changed
      · exact (hrec.changed hrow).2
      · exact hrec.mono (hread.flagged l ((hrec.other hrow).symm.trans hl))

/-- `s` is noted: the last change of any kind is not before it. -/
def TableDataChanges.Notes (changes : TableDataChanges) (s : Int) : Prop :=
  ∃ last, changes.lastChangedSnapshot = some last ∧ s ≤ last

theorem recordAll_noted (hsorted : (rows.map (·.snapshotId)).Pairwise (· ≤ ·)) {row : LedgerRow} (hrow : row ∈ rows) :
    (row.has (·.alters tableId) = true → (recordAll tableId rows).1.altered = true) ∧
      (row.has (·.names tableId) = true → (recordAll tableId rows).1.Notes row.snapshotId) := by
  induction rows using List.reverseRecOn with
  | nil => cases hrow
  | append_singleton rows next ih =>
    rw [List.map_append, List.map_singleton, List.pairwise_append] at hsorted
    obtain ⟨haltered, hnamed, hlast⟩ := record_noted tableId (recordAll tableId rows).1 next
    rw [recordAll_append]
    rcases List.mem_append.mp hrow with hrow | hrow
    · obtain ⟨ihaltered, ihnamed⟩ := ih hsorted.1 hrow
      refine ⟨fun h => by rw [haltered, ihaltered h, Bool.true_or], fun h => ?_⟩
      obtain ⟨last, heq, hle⟩ := ihnamed h
      rcases hlast with hsame | hnext
      · exact ⟨last, hsame.trans heq, hle⟩
      · exact ⟨next.snapshotId, hnext, hsorted.2.2 _ (List.mem_map_of_mem hrow) _ (List.mem_singleton_self _)⟩
    · obtain rfl := List.mem_singleton.mp hrow
      exact ⟨fun h => by rw [haltered, h, Bool.or_true], fun h => ⟨_, hnamed h, le_rfl⟩⟩

end Ledger

/-! ## Nothing in the window is passed over -/

section Covers

variable {tableId : Nat} {changes : TableDataChanges} {moved ids : List Int} {complete visible : Bool}
  {reports : Int → Int → Bool × Bool} {after through head s : Int}

/-- With consecutive ids a snapshot of the window that is not there gives a bound after it. -/
theorem exists_expiredInWindow (firstSnapshot : Option Int) (hafter : after < s) (hpos : 1 ≤ s)
    (hlast : s ≤ min through head) (hgone : s ∉ ids) :
    ∃ bound, expiredInWindow true firstSnapshot head ids after through = some bound ∧ s ≤ bound := by
  -- the largest missing id of the window, and what is there after it
  have hfind : ∀ (first : Int) (bound : Option Int), first ≤ s ∨ (∃ b, bound = some b ∧ s ≤ b) →
      ∃ b, (match ((List.range (min through head + 1 - first).toNat).map fun (k : Nat) =>
          min through head - (k : Int)).find? fun id => !ids.contains id with
        | some missing => some (bound.elim ((ids.find? fun c => decide (missing < c)).getD (min through head))
            (max · ((ids.find? fun c => decide (missing < c)).getD (min through head))))
        | none => bound) = some b ∧ s ≤ b := by
    intro first bound hcase
    rcases hcase with hfirst | ⟨b, rfl, hb⟩
    · have hdesc : ((List.range (min through head + 1 - first).toNat).map
          fun (k : Nat) => min through head - (k : Int)).Pairwise (· ≥ ·) := by
        rw [List.pairwise_map]
        refine List.pairwise_lt_range.imp fun {a b} hab => ?_
        omega
      have hmem : s ∈ (List.range (min through head + 1 - first).toNat).map fun (k : Nat) =>
        min through head - (k : Int) := by
        refine List.mem_map.mpr ⟨(min through head - s).toNat, List.mem_range.mpr (by omega), by omega⟩
      obtain ⟨missing, hmissing, hle⟩ := Lists.exists_find?_of_descending hdesc hmem (p := fun id => !ids.contains id)
        (by simpa using hgone)
      have hmlast : missing ≤ min through head := by
        obtain ⟨k, -, rfl⟩ := List.mem_map.mp (List.mem_of_find?_eq_some hmissing)
        omega
      have hnext : s ≤ (ids.find? fun c => decide (missing < c)).getD (min through head) := by
        cases hc : ids.find? fun c => decide (missing < c) with
        | none => exact hlast
        | some c =>
          have := List.find?_some hc
          simp only [decide_eq_true_eq] at this
          exact (hle.trans this.le)
      rw [hmissing]
      refine ⟨_, rfl, ?_⟩
      cases bound with
      | none => exact hnext
      | some b => exact hnext.trans (le_max_right ..)
    · split
      · exact ⟨_, rfl, hb.trans (le_max_left ..)⟩
      · exact ⟨b, rfl, hb⟩
  unfold expiredInWindow
  simp only [Bool.not_true, Bool.false_eq_true, if_false]
  by_cases hneg : 0 ≤ after
  · simp only [hneg, if_true]
    exact hfind _ _ (.inl (by omega))
  · simp only [hneg, if_false]
    cases hids : ids.head? with
    | none =>
      simp only
      rw [if_pos (hpos.trans hlast)]
      exact ⟨_, rfl, hlast⟩
    | some first =>
      by_cases hfirst : first ≤ 1
      · simp only [hfirst, if_true]
        exact hfind _ _ (.inl (hfirst.trans hpos))
      · simp only [hfirst, if_false]
        refine hfind _ _ ?_
        rcases le_total first s with h | h
        · exact .inl h
        · exact .inr ⟨first, rfl, h⟩

theorem counts_recordGap {bound : Int} (hs : s ≤ bound) : (changes.recordGap bound).Counts s := by
  refine ⟨by simp [TableDataChanges.recordGap, TableDataChanges.rowsChanged], _, rfl, ?_⟩
  cases changes.lastRowsChangedSnapshot with
  | none => exact hs
  | some l => exact hs.trans (le_max_right ..)

theorem counts_recordGap_of_counts {bound : Int} (hc : changes.Counts s) : (changes.recordGap bound).Counts s := by
  obtain ⟨-, l, hl, hsl⟩ := hc
  refine ⟨by simp [TableDataChanges.recordGap, TableDataChanges.rowsChanged], _, rfl, ?_⟩
  rw [hl]
  exact hsl.trans (le_max_left ..)

/-- The feeds are asked about later snapshots only, so what is counted stays counted. -/
theorem counts_consultFeed_of_counts (hc : changes.Counts s) (hlater : ∀ m ∈ moved, s ≤ m) :
    (consultFeed complete visible reports changes moved).Counts s := by
  obtain ⟨hchanged, l, hl, hsl⟩ := hc
  unfold consultFeed
  split
  · next first last hfirst hlast =>
    have hmem : last ∈ moved := List.mem_of_getLast? hlast
    split
    · exact ⟨by simp [TableDataChanges.rowsChanged], last, rfl, hlater _ hmem⟩
    · split
      · exact ⟨hchanged, l, hl, hsl⟩
      · refine ⟨?_, _, rfl, ?_⟩
        · simp only [TableDataChanges.rowsChanged, Bool.or_eq_true] at hchanged ⊢
          tauto
        · unfold latestReported
          split
          · cases hf : moved.reverse.find? fun s => (reports s s).1 || (reports s s).2 with
            | none => exact hlater _ hmem
            | some m => exact hlater _ (List.mem_reverse.mp (List.mem_of_find?_eq_some hf))
          · exact hlater _ hmem
  · exact ⟨hchanged, l, hl, hsl⟩

/-- A moved snapshot that the feeds report over every window around it is counted. -/
theorem counts_consultFeed (hsorted : moved.Pairwise (· ≤ ·)) (hs : s ∈ moved)
    (hreports : ∀ a b, a ≤ s → s ≤ b → ((reports a b).1 || (reports a b).2) = true) :
    (consultFeed complete visible reports changes moved).Counts s := by
  have hne := List.ne_nil_of_mem hs
  have hlastle := hsorted.rel_getLast hs
  have hwindow := hreports _ _ (hsorted.rel_head hs) hlastle
  unfold consultFeed
  simp only [List.head?_eq_some_head hne, List.getLast?_eq_some_getLast hne]
  split
  · exact ⟨by simp [TableDataChanges.rowsChanged], _, rfl, hlastle⟩
  · split
    · next hnone =>
      rw [Bool.or_eq_true] at hwindow
      simp only [Bool.and_eq_true, Bool.not_eq_true'] at hnone
      rw [hnone.1, hnone.2] at hwindow
      rcases hwindow with h | h <;> cases h
    · refine ⟨?_, _, rfl, ?_⟩
      · simp only [TableDataChanges.rowsChanged, Bool.or_eq_true] at hwindow ⊢
        tauto
      · unfold latestReported
        split
        · obtain ⟨m, hm, hle⟩ := Lists.exists_find?_of_descending (List.pairwise_reverse.mpr hsorted)
            (List.mem_reverse.mpr hs)
            (p := fun s => (reports s s).1 || (reports s s).2) (hreports s s le_rfl le_rfl)
          rw [hm]
          exact hle
        · exact hlastle

/-- What the analysis holds before the feeds are asked. -/
def recorded (tableId : Nat) (rows : List LedgerRow) (gap : Option Int) : TableDataChanges :=
  gap.elim (recordAll tableId rows).1 (recordAll tableId rows).1.recordGap

/-- What it holds once the feeds are asked about the moves that are not settled. -/
def settled (tableId : Nat) (through : Int) (complete : Bool) (rows : List LedgerRow) (gap : Option Int)
    (visible : Bool) (reports : Int → Int → Bool × Bool) : TableDataChanges :=
  consultFeed complete visible (fun first last => reports first (min last through)) (recorded tableId rows gap)
    (unsettled (recorded tableId rows gap) (recordAll tableId rows).2)

variable {rows : List LedgerRow} {gap : Option Int}

theorem analyse_eq (complete visible : Bool) (hwindow : after < through) :
    analyse tableId after through complete rows gap visible reports =
      if !complete && (recorded tableId rows gap).rowsChanged then recorded tableId rows gap
      else settled tableId through complete rows gap visible reports := by
  unfold analyse
  simp only [not_le.mpr hwindow, if_false]
  rfl

/-- What the ledger rows and a gap note of changes of any kind stays as it is. -/
theorem analyse_noted (complete visible : Bool) (hwindow : after < through) :
    (analyse tableId after through complete rows gap visible reports).altered = (recordAll tableId rows).1.altered ∧
      (analyse tableId after through complete rows gap visible reports).lastChangedSnapshot =
        (recorded tableId rows gap).lastChangedSnapshot := by
  have hfeed : ∀ reports changes moved, (consultFeed complete visible reports changes moved).altered = changes.altered ∧
      (consultFeed complete visible reports changes moved).lastChangedSnapshot = changes.lastChangedSnapshot := by
    intro reports changes moved
    unfold consultFeed
    split
    · split
      · exact ⟨rfl, rfl⟩
      · split <;> exact ⟨rfl, rfl⟩
    · exact ⟨rfl, rfl⟩
  have haltered : (recorded tableId rows gap).altered = (recordAll tableId rows).1.altered := by
    cases gap <;> rfl
  rw [analyse_eq complete visible hwindow, ← haltered]
  split
  · exact ⟨rfl, rfl⟩
  · exact hfeed ..

variable (hsorted : (rows.map (·.snapshotId)).Pairwise (· ≤ ·))
include hsorted

theorem recorded_flagged (l : Int) (hl : (recorded tableId rows gap).lastRowsChangedSnapshot = some l) :
    (recorded tableId rows gap).rowsChanged = true := by
  cases gap with
  | none => exact (recordAll_spec tableId hsorted).flagged l hl
  | some b => simp [recorded, TableDataChanges.recordGap, TableDataChanges.rowsChanged]

/-- A snapshot whose change row names the table, or before the bound of a gap, is noted. -/
theorem analyse_notes (complete visible : Bool) (hwindow : after < through)
    (hs : (∃ row ∈ rows, row.snapshotId = s ∧ row.has (·.names tableId) = true) ∨ ∃ b, gap = some b ∧ s ≤ b) :
    (analyse tableId after through complete rows gap visible reports).Notes s := by
  unfold TableDataChanges.Notes
  rw [(analyse_noted complete visible hwindow).2]
  rcases hs with ⟨row, hrow, rfl, hnames⟩ | ⟨b, rfl, hb⟩
  · obtain ⟨last, heq, hle⟩ := (@recordAll_noted tableId _ hsorted _ hrow).2 hnames
    cases gap with
    | none => exact ⟨last, heq, hle⟩
    | some b => exact ⟨_, rfl, by rw [heq]; exact hle.trans (le_max_left ..)⟩
  · refine ⟨_, rfl, ?_⟩
    cases (recordAll tableId rows).1.lastChangedSnapshot with
    | none => exact hb
    | some last => exact hb.trans (le_max_right ..)

variable (complete visible : Bool)
  (hs : (∃ row ∈ rows, row.snapshotId = s ∧ row.said tableId ≠ .unchanged ∧ s ≤ through ∧
    ∀ a b, a ≤ s → s ≤ b → ((reports a b).1 || (reports a b).2) = true) ∨ ∃ b, gap = some b ∧ s ≤ b)
include hs

/-- A snapshot of the window counts when the ledger says it changed rows, when it says it
    moved rows and the feeds report it, or when it is before the bound of a gap. -/
theorem settled_counts : (settled tableId through complete rows gap visible reports).Counts s := by
  have hread := recordAll_spec tableId hsorted
  -- the feeds are asked about snapshots later than everything recorded
  have hlater : ∀ l, (recorded tableId rows gap).lastRowsChangedSnapshot = some l → s ≤ l →
      ∀ m ∈ unsettled (recorded tableId rows gap) (recordAll tableId rows).2, s ≤ m := by
    intro l hl hsl m hm
    have hlt := (List.mem_filter.mp hm).2
    rw [hl, Option.all_some, decide_eq_true_eq] at hlt
    exact hsl.trans hlt.le
  have hcounted : (recorded tableId rows gap).Counts s →
      (settled tableId through complete rows gap visible reports).Counts s := by
    intro hc
    obtain ⟨l, hl, hsl⟩ := hc.2
    exact counts_consultFeed_of_counts hc (hlater l hl hsl)
  rcases hs with ⟨row, hrow, rfl, hsaid, hthrough, hreports⟩ | ⟨b, rfl, hb⟩
  · cases hsaid' : row.said tableId with
    | unchanged => exact absurd hsaid' hsaid
    | changed =>
      have hc := hread.changed row hrow hsaid'
      cases gap with
      | none => exact hcounted hc
      | some b => exact hcounted (counts_recordGap_of_counts hc)
    | moved =>
      have hm := hread.listed row hrow hsaid'
      by_cases hset : (recorded tableId rows gap).lastRowsChangedSnapshot.all (decide <| · < row.snapshotId) = true
      · refine counts_consultFeed (hread.sorted.filter _) (List.mem_filter.mpr ⟨hm, hset⟩) fun a b ha hb => ?_
        exact hreports a _ ha (le_min hb hthrough)
      · -- settled by a recorded change
        cases hl : (recorded tableId rows gap).lastRowsChangedSnapshot with
        | none => simp [hl] at hset
        | some l =>
          simp only [hl, Option.all_some, decide_eq_true_eq, not_lt] at hset
          exact hcounted ⟨recorded_flagged hsorted l hl, l, hl, hset⟩
  · exact hcounted (counts_recordGap hb)

theorem analyse_counts (hwindow : after < through) :
    (analyse tableId after through complete rows gap visible reports).rowsChanged = true ∧
      (complete = true → (analyse tableId after through complete rows gap visible reports).Counts s) := by
  have hsettled := settled_counts hsorted complete visible hs
  rw [analyse_eq complete visible hwindow]
  split
  · next hearly =>
    simp only [Bool.and_eq_true, Bool.not_eq_true'] at hearly
    exact ⟨hearly.2, fun hc => by rw [hc] at hearly; cases hearly.1⟩
  · exact ⟨hsettled.1, fun _ => hsettled⟩

end Covers

end DuckLake.Changes
