import DuckLake.Lib.Lists
import DuckLake.Lib.Utf8
import DuckLake.Scalar

/- The bounds a writer keeps for a string or blob leaf (`stats_collect.rs`).

   A value over 256 bytes is shortened: a minimum to a part it starts with, a maximum to
   its last byte that can be incremented, incremented. Values are compared with the
   bounds kept so far, shortened ones included, and a maximum that cannot be shortened
   leaves the leaf without bounds for the rest of the file.

   Correspondence (Rust ↔ Lean):
     `StringBounds`, `update`, `bounds` ↔ the same
     `truncate_min`, `truncate_max`     ↔ `truncateMin`, `truncateMax`
     `rposition` of an iterator         ↔ `rposition`
     `accumulate`, one leaf             ↔ `feed`, a list of values for each batch
   Byte strings are ordered by `<` on lists, as the source orders slices. -/

namespace DuckLake.Collect

abbrev Bytes := List UInt8

def maxStringStatisticsSize : Nat := 256

/-! ## Shortening -/

/-- The loop of `truncate_min`: back over the bytes that continue a character. -/
def boundary (value : Bytes) : Nat → Nat
  | 0 => 0
  | size + 1 =>
    match value[size + 1]? with
    | some b => if Utf8.isContinuation b then boundary value size else size + 1
    | none => size + 1

def truncateMin (value : Bytes) (blob : Bool) : Bytes :=
  let size := min maxStringStatisticsSize value.length
  value.take (if blob then size else boundary value size)

/-- The last place where the test holds. -/
def rposition {α : Type} (p : α → Bool) : List α → Option Nat
  | [] => none
  | x :: xs =>
    match rposition p xs with
    | some i => some (i + 1)
    | none => if p x then some 0 else none

def truncateMax (value : Bytes) (blob : Bool) : Option Bytes :=
  let limit : UInt8 := if blob then 0xFF else 0x7F
  (rposition (fun byte => decide (byte < limit)) (value.take (min maxStringStatisticsSize value.length))).map
    fun position => (value.take (position + 1)).modify position (· + 1)

/-- A minimum as it is kept. -/
def shortenMin (value : Bytes) (blob : Bool) : Bytes :=
  if maxStringStatisticsSize < value.length then truncateMin value blob else value

/-- A maximum as it is kept, if it can be. -/
def shortenMax (value : Bytes) (blob : Bool) : Option Bytes :=
  if maxStringStatisticsSize < value.length then truncateMax value blob else some value

/-! ## Running bounds -/

structure StringBounds where
  blob : Bool
  hasStats : Bool
  failed : Bool
  min : Bytes
  max : Bytes
deriving DecidableEq, Repr

namespace StringBounds

def new (blob : Bool) : StringBounds := ⟨blob, false, false, [], []⟩

def update (s : StringBounds) (value : Bytes) : StringBounds :=
  if s.failed then s
  else
    match if !s.hasStats || decide (s.max < value) then shortenMax value s.blob else some s.max with
    | none => { s with failed := true, hasStats := false, min := [], max := [] }
    | some max =>
      { s with
        hasStats := true
        min := if !s.hasStats || decide (value < s.min) then shortenMin value s.blob else s.min
        max := max }

/-- What the file records. -/
def bounds (s : StringBounds) : Option (ScalarValue × ScalarValue) :=
  if !s.hasStats then none
  else if s.blob then some (.binary .binary s.min, .binary .binary s.max)
  else do
    let min ← Utf8.decode s.min
    let max ← Utf8.decode s.max
    return (.string .utf8 min, .string .utf8 max)

/-- The values of a leaf, batch by batch. -/
def feed (s : StringBounds) (batches : List (List Bytes)) : StringBounds :=
  batches.foldl (fun s batch => batch.foldl update s) s

end StringBounds

/-- The bytes of a string or blob value. -/
def scalarBytes : ScalarValue → Option Bytes
  | .string _ t => some (Utf8.encode t)
  | .binary _ b => some b
  | _ => none

/-! ## Shortened values are bounds -/

theorem boundary_le (value : Bytes) (size : Nat) : boundary value size ≤ size := by
  induction size with
  | zero => exact Nat.le_refl 0
  | succ size ih =>
    unfold boundary
    split
    · split
      · exact Nat.le_succ_of_le ih
      · exact Nat.le_refl _
    · exact Nat.le_refl _

/-- The loop stops between characters, or at the start. -/
theorem boundary_stops (value : Bytes) (size : Nat) :
    boundary value size = 0 ∨ ∀ b, value[boundary value size]? = some b → Utf8.isContinuation b = false := by
  induction size with
  | zero => exact .inl rfl
  | succ size ih =>
    unfold boundary
    split
    · next b hb =>
      split
      · exact ih
      · next hcont =>
        right
        intro b' hb'
        rw [hb, Option.some.injEq] at hb'
        rw [← hb']
        exact Bool.eq_false_iff.mpr hcont
    · next hnone =>
      right
      intro b hb
      rw [hnone] at hb
      cases hb

theorem rposition_eq_some {α : Type} {p : α → Bool} {l : List α} {i : Nat} (h : rposition p l = some i) :
    ∃ x, l[i]? = some x ∧ p x = true := by
  induction l generalizing i with
  | nil => cases h
  | cons y l ih =>
    unfold rposition at h
    split at h
    · next j hj =>
      cases h
      exact ih hj
    · split at h
      · next hy =>
        cases h
        exact ⟨y, rfl, hy⟩
      · cases h

variable {value m : Bytes} {blob : Bool}

theorem truncateMin_spec (value : Bytes) (blob : Bool) : truncateMin value blob <+: value ∧
    (truncateMin value blob).length ≤ maxStringStatisticsSize ∧
    (blob = false → Utf8.IsText value → Utf8.IsText (truncateMin value blob)) := by
  unfold truncateMin
  refine ⟨List.take_prefix _ _, ?_, ?_⟩
  · have hle := boundary_le value (min maxStringStatisticsSize value.length)
    dsimp only
    rw [List.length_take]
    split <;> omega
  · rintro rfl ⟨t, rfl⟩
    dsimp only
    rw [if_neg Bool.false_ne_true]
    rcases boundary_stops (Utf8.encode t) (min maxStringStatisticsSize (Utf8.encode t).length) with hzero | hstop
    · rw [hzero, List.take_zero]
      exact Utf8.isText_nil
    · exact Utf8.isText_take hstop

/-- The shortened maximum agrees with the value up to a byte it has larger. -/
theorem truncateMax_eq_some (h : truncateMax value blob = some m) : ∃ i b, value[i]? = some b ∧
    i < maxStringStatisticsSize ∧ b < (if blob then 0xFF else 0x7F) ∧ m = value.take i ++ [b + 1] := by
  obtain ⟨i, hi, rfl⟩ := Option.map_eq_some_iff.mp h
  obtain ⟨b, hb, hlimit⟩ := rposition_eq_some hi
  have hlt : i < min maxStringStatisticsSize value.length := by
    have hlen := (List.getElem?_eq_some_iff.mp hb).1
    rw [List.length_take] at hlen
    omega
  rw [List.getElem?_take_of_lt hlt] at hb
  refine ⟨i, b, hb, by omega, of_decide_eq_true hlimit, ?_⟩
  have htake : value.take (i + 1) = value.take i ++ [b] := by rw [List.take_add_one, hb, Option.toList_some]
  have hlen : (value.take i).length = i := by
    rw [List.length_take]
    omega
  have hmodify := Lists.modify_append_cons (value.take i) [] b (· + 1)
  rwa [hlen, ← htake] at hmodify

theorem truncateMax_spec (h : truncateMax value blob = some m) : value < m ∧ m.length ≤ maxStringStatisticsSize ∧
    (blob = false → Utf8.IsText value → Utf8.IsText m) := by
  obtain ⟨i, b, hb, hi, hlimit, rfl⟩ := truncateMax_eq_some h
  have hlen := (List.getElem?_eq_some_iff.mp hb).1
  have hbyte : b.toNat < 0xFF ∧ (blob = false → b.toNat < 0x7F) := by
    rw [UInt8.lt_iff_toNat_lt] at hlimit
    cases blob
    · exact ⟨Nat.lt_trans hlimit (by decide), fun _ => hlimit⟩
    · exact ⟨hlimit, nofun⟩
  have hsucc : (b + 1).toNat = b.toNat + 1 := by
    rw [UInt8.toNat_add]
    exact Nat.mod_eq_of_lt (by have : (1 : UInt8).toNat = 1 := rfl; omega)
  refine ⟨?_, ?_, ?_⟩
  · have hsplit : value = value.take i ++ b :: value.drop (i + 1) := by
      rw [← (List.getElem?_eq_some_iff.mp hb).2, List.getElem_cons_drop, List.take_append_drop]
    have hlt : b :: value.drop (i + 1) < [b + 1] := List.Lex.rel (UInt8.lt_iff_toNat_lt.mpr (by omega))
    calc value = value.take i ++ b :: value.drop (i + 1) := hsplit
      _ < value.take i ++ [b + 1] := List.append_left_lt hlt
  · rw [List.length_append, List.length_take, List.length_singleton]
    omega
  · rintro hblob ⟨t, rfl⟩
    have hascii := hbyte.2 hblob
    exact Utf8.isText_replace hb (by omega) (by omega)

theorem shortenMin_spec (value : Bytes) (blob : Bool) : shortenMin value blob ≤ value ∧
    (shortenMin value blob).length ≤ maxStringStatisticsSize ∧
    (blob = false → Utf8.IsText value → Utf8.IsText (shortenMin value blob)) := by
  unfold shortenMin
  split
  · obtain ⟨hle, hlen, htext⟩ := truncateMin_spec value blob
    exact ⟨hle.le, hlen, htext⟩
  · next hshort => exact ⟨Std.le_refl value, Nat.le_of_not_lt hshort, fun _ h => h⟩

theorem shortenMax_spec (h : shortenMax value blob = some m) : value ≤ m ∧
    m.length ≤ maxStringStatisticsSize ∧ (blob = false → Utf8.IsText value → Utf8.IsText m) := by
  unfold shortenMax at h
  split at h
  · obtain ⟨hlt, hlen, htext⟩ := truncateMax_spec h
    exact ⟨Std.le_of_lt hlt, hlen, htext⟩
  · next hshort =>
    cases h
    exact ⟨Std.le_refl value, Nat.le_of_not_lt hshort, fun _ h => h⟩

/-! ## What the running bounds hold for -/

namespace StringBounds

variable {s : StringBounds} {values : List Bytes}

/-- The state after `values` were fed. -/
structure Covers (s : StringBounds) (values : List Bytes) : Prop where
  started : s.hasStats = false → s.failed = false → values = []
  stopped : s.failed = true → s.hasStats = false
  lower : s.hasStats = true → ∀ v ∈ values, s.min ≤ v
  upper : s.hasStats = true → ∀ v ∈ values, v ≤ s.max
  short : s.hasStats = true → s.min.length ≤ maxStringStatisticsSize ∧ s.max.length ≤ maxStringStatisticsSize
  text : s.blob = false → (∀ v ∈ values, Utf8.IsText v) → s.hasStats = true →
    Utf8.IsText s.min ∧ Utf8.IsText s.max

theorem covers_new (blob : Bool) : (new blob).Covers [] where
  started _ _ := rfl
  stopped _ := rfl
  lower h := nomatch h
  upper h := nomatch h
  short h := nomatch h
  text _ _ h := nomatch h

theorem update_blob (s : StringBounds) (value : Bytes) : (s.update value).blob = s.blob := by
  unfold update
  split
  · rfl
  · split <;> rfl

/-- The minimum after one more value is at most it and the values before. -/
theorem Covers.lower_step (h : s.Covers values) (hfailed : s.failed = false) (value : Bytes) :
    ∀ v ∈ values ++ [value],
      (if !s.hasStats || decide (value < s.min) then shortenMin value s.blob else s.min) ≤ v := by
  have hshort := (shortenMin_spec value s.blob).1
  intro v hv
  split
  · next hreplace =>
    rcases List.mem_append.mp hv with hv | hv
    · cases hstats : s.hasStats with
      | false => simp [h.started hstats hfailed] at hv
      | true =>
        have hlt : value < s.min := by simpa [hstats] using hreplace
        exact Std.le_trans hshort (Std.le_trans (Std.le_of_lt hlt) (h.lower hstats v hv))
    · rwa [List.mem_singleton.mp hv]
  · next hkeep =>
    have hkept : s.hasStats = true ∧ ¬ value < s.min := by simpa using hkeep
    rcases List.mem_append.mp hv with hv | hv
    · exact h.lower hkept.1 v hv
    · rw [List.mem_singleton.mp hv]
      exact Std.not_lt.mp hkept.2

theorem Covers.upper_step (h : s.Covers values) (hfailed : s.failed = false) {value max : Bytes}
    (hmax : (if !s.hasStats || decide (s.max < value) then shortenMax value s.blob else some s.max) = some max) :
    ∀ v ∈ values ++ [value], v ≤ max := by
  intro v hv
  split at hmax
  · next hreplace =>
    have hshort := (shortenMax_spec hmax).1
    rcases List.mem_append.mp hv with hv | hv
    · cases hstats : s.hasStats with
      | false => simp [h.started hstats hfailed] at hv
      | true =>
        have hlt : s.max < value := by simpa [hstats] using hreplace
        exact Std.le_trans (h.upper hstats v hv) (Std.le_trans (Std.le_of_lt hlt) hshort)
    · rwa [List.mem_singleton.mp hv]
  · next hkeep =>
    have hkept : s.hasStats = true ∧ ¬ s.max < value := by simpa using hkeep
    cases hmax
    rcases List.mem_append.mp hv with hv | hv
    · exact h.upper hkept.1 v hv
    · rw [List.mem_singleton.mp hv]
      exact Std.not_lt.mp hkept.2

theorem Covers.update (h : s.Covers values) (value : Bytes) : (s.update value).Covers (values ++ [value]) := by
  unfold StringBounds.update
  split
  · next hfailed =>
    have hstats := h.stopped hfailed
    exact ⟨fun _ hf => by simp [hfailed] at hf, h.stopped, by simp [hstats], by simp [hstats], by simp [hstats],
      by simp [hstats]⟩
  · next hfailed =>
    have hfailed : s.failed = false := Bool.eq_false_iff.mpr hfailed
    split
    · next hnone =>
      exact ⟨fun _ hf => (nomatch hf), fun _ => rfl, fun hs => (nomatch hs), fun hs => (nomatch hs),
        fun hs => (nomatch hs), fun _ _ hs => (nomatch hs)⟩
    · next max hmax =>
      refine ⟨fun hs => (nomatch hs), fun hf => ?_, fun _ => h.lower_step hfailed value,
        fun _ => h.upper_step hfailed hmax, fun _ => ⟨?_, ?_⟩, fun hblob htext _ => ⟨?_, ?_⟩⟩
      · exact absurd (hfailed.symm.trans hf) Bool.false_ne_true
      · dsimp only
        split
        · exact (shortenMin_spec value s.blob).2.1
        · next hkeep =>
          have hkept : s.hasStats = true ∧ ¬ value < s.min := by simpa using hkeep
          exact (h.short hkept.1).1
      · split at hmax
        · exact (shortenMax_spec hmax).2.1
        · next hkeep =>
          have hkept : s.hasStats = true ∧ ¬ s.max < value := by simpa using hkeep
          cases hmax
          exact (h.short hkept.1).2
      · have hvalue := htext value (by simp)
        have hold := h.text hblob fun v hv => htext v (List.mem_append_left _ hv)
        dsimp only
        split
        · exact (shortenMin_spec value s.blob).2.2 hblob hvalue
        · next hkeep =>
          have hkept : s.hasStats = true ∧ ¬ value < s.min := by simpa using hkeep
          exact (hold hkept.1).1
      · have hvalue := htext value (by simp)
        have hold := h.text hblob fun v hv => htext v (List.mem_append_left _ hv)
        split at hmax
        · exact (shortenMax_spec hmax).2.2 hblob hvalue
        · next hkeep =>
          have hkept : s.hasStats = true ∧ ¬ s.max < value := by simpa using hkeep
          cases hmax
          exact (hold hkept.1).2

/-- A run keeps the bounds right for all it has seen. -/
theorem Covers.foldl (h : s.Covers values) (batch : List Bytes) :
    (batch.foldl StringBounds.update s).Covers (values ++ batch) := by
  induction batch generalizing s values with
  | nil =>
    rw [List.append_nil]
    exact h
  | cons value batch ih =>
    have hrest := ih (h.update value)
    rwa [List.append_assoc, List.singleton_append] at hrest

/-- The batches only cut the run in pieces. -/
theorem feed_eq_foldl (s : StringBounds) (batches : List (List Bytes)) :
    s.feed batches = batches.flatten.foldl StringBounds.update s := by
  unfold feed
  rw [List.foldl_flatten]

theorem foldl_update_blob (s : StringBounds) (batch : List Bytes) :
    (batch.foldl StringBounds.update s).blob = s.blob := by
  induction batch generalizing s with
  | nil => rfl
  | cons value batch ih =>
    rw [List.foldl_cons, ih]
    exact update_blob s value

theorem feed_blob (blob : Bool) (batches : List (List Bytes)) : ((new blob).feed batches).blob = blob := by
  rw [feed_eq_foldl, foldl_update_blob]
  rfl

theorem covers_feed (blob : Bool) (batches : List (List Bytes)) : ((new blob).feed batches).Covers batches.flatten := by
  rw [feed_eq_foldl]
  exact (covers_new blob).foldl batches.flatten

theorem update_of_failed (h : s.failed = true) (value : Bytes) : s.update value = s := by
  unfold update
  exact if_pos h

theorem foldl_of_failed (h : s.failed = true) (batch : List Bytes) : batch.foldl StringBounds.update s = s := by
  induction batch with
  | nil => rfl
  | cons value batch ih => rw [List.foldl_cons, update_of_failed h, ih]

/-- The value would be the new maximum and cannot be shortened. -/
def Unshortenable (s : StringBounds) (value : Bytes) : Prop :=
  (s.hasStats = false ∨ s.max < value) ∧ maxStringStatisticsSize < value.length ∧ truncateMax value s.blob = none

theorem failed_of_unshortenable {value : Bytes} (h : s.Unshortenable value) : (s.update value).failed = true := by
  obtain ⟨hnew, hlong, hnone⟩ := h
  have hreplace : (!s.hasStats || decide (s.max < value)) = true := by
    rcases hnew with hnew | hnew <;> simp [hnew]
  unfold update
  split
  · assumption
  · rw [shortenMax, if_pos hlong, hnone]

theorem bounds_cases {lo hi : ScalarValue} (h : s.bounds = some (lo, hi)) : s.hasStats = true ∧
    ((s.blob = true ∧ lo = .binary .binary s.min ∧ hi = .binary .binary s.max) ∨
      (s.blob = false ∧ ∃ t u, s.min = Utf8.encode t ∧ s.max = Utf8.encode u ∧ lo = .string .utf8 t ∧
        hi = .string .utf8 u)) := by
  unfold bounds at h
  split at h
  · cases h
  · next hstats =>
    refine ⟨by simpa using hstats, ?_⟩
    split at h
    · next hblob =>
      cases h
      exact .inl ⟨hblob, rfl, rfl⟩
    · next hblob =>
      obtain ⟨t, ht, h⟩ := Option.bind_eq_some_iff.mp h
      obtain ⟨u, hu, h⟩ := Option.bind_eq_some_iff.mp h
      cases h
      exact .inr ⟨Bool.eq_false_iff.mpr hblob, t, u, Utf8.decode_eq_some.mp ht, Utf8.decode_eq_some.mp hu, rfl, rfl⟩

theorem bounds_eq_some {lo hi : ScalarValue} (h : s.bounds = some (lo, hi)) : s.hasStats = true ∧
    scalarBytes lo = some s.min ∧ scalarBytes hi = some s.max := by
  obtain ⟨hstats, ⟨-, rfl, rfl⟩ | ⟨-, t, u, ht, hu, rfl, rfl⟩⟩ := bounds_cases h
  · exact ⟨hstats, rfl, rfl⟩
  · exact ⟨hstats, congrArg some ht.symm, congrArg some hu.symm⟩

end StringBounds

/-- Whatever is fed and however it is batched: recorded bounds hold for every value and are
    short, those of texts are texts, and a maximum that cannot be shortened ends them. -/
theorem string_bounds_hold (blob : Bool) (batches : List (List Bytes)) :
    (∀ lo hi, ((StringBounds.new blob).feed batches).bounds = some (lo, hi) →
      ∃ min max, scalarBytes lo = some min ∧ scalarBytes hi = some max ∧
        (∀ v ∈ batches.flatten, min ≤ v ∧ v ≤ max) ∧
        min.length ≤ maxStringStatisticsSize ∧ max.length ≤ maxStringStatisticsSize) ∧
    (blob = false → (∀ v ∈ batches.flatten, Utf8.IsText v) →
      ((StringBounds.new blob).feed batches).hasStats = true →
      Utf8.IsText ((StringBounds.new blob).feed batches).min ∧ Utf8.IsText ((StringBounds.new blob).feed batches).max ∧
        ((StringBounds.new blob).feed batches).bounds.isSome = true) ∧
    ∀ before v after, batches.flatten = before ++ v :: after →
      ((StringBounds.new blob).feed [before]).Unshortenable v →
      ((StringBounds.new blob).feed batches).bounds = none := by
  have hcovers := StringBounds.covers_feed blob batches
  refine ⟨fun lo hi hbounds => ?_, fun hblob htext hstats => ?_, fun before v after hsplit hstop => ?_⟩
  · obtain ⟨hstats, hlo, hhi⟩ := StringBounds.bounds_eq_some hbounds
    exact ⟨_, _, hlo, hhi, fun v hv => ⟨hcovers.lower hstats v hv, hcovers.upper hstats v hv⟩, hcovers.short hstats⟩
  · have hkind : ((StringBounds.new blob).feed batches).blob = false :=
      (StringBounds.feed_blob blob batches).trans hblob
    obtain ⟨hmin, hmax⟩ := hcovers.text hkind htext hstats
    refine ⟨hmin, hmax, ?_⟩
    obtain ⟨tmin, hmin⟩ := hmin
    obtain ⟨tmax, hmax⟩ := hmax
    simp [StringBounds.bounds, hstats, hkind, hmin, hmax, Utf8.decode_encode]
  · have hfed : (StringBounds.new blob).feed [before] = before.foldl StringBounds.update (StringBounds.new blob) := rfl
    rw [hfed] at hstop
    have hfailed := StringBounds.failed_of_unshortenable hstop
    have hend : ((StringBounds.new blob).feed batches).failed = true := by
      rw [StringBounds.feed_eq_foldl, hsplit, List.foldl_append, List.foldl_cons, StringBounds.foldl_of_failed hfailed]
      exact hfailed
    simp [StringBounds.bounds, hcovers.stopped hend]

end DuckLake.Collect
