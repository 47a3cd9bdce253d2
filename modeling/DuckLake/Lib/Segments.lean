import Mathlib.Data.List.Basic
import Mathlib.Data.List.Induction
import Mathlib.Tactic.Common

/- Paths as object stores read them: the non-empty segments between slashes. Slashes
   at the seam of two paths do not matter as long as there is one; without one the
   last segment of the first path runs into the first of the second. -/

namespace Segments

/-- The non-empty segments of a path. -/
def segments (t : List Char) : List (List Char) := (t.splitOn '/').filter (· ≠ [])

@[simp] theorem segments_nil : segments [] = [] := by
  simp [segments]

theorem segments_slash (a b : List Char) : segments (a ++ '/' :: b) = segments a ++ segments b := by
  rw [segments, List.splitOn_append_cons_self, List.filter_append]
  rfl

/-- Whether a path ends inside a segment, having started inside one or not. -/
def endsInside : Bool → List Char → Bool
  | inside, [] => inside
  | _, c :: t => endsInside (c ≠ '/') t

/-- How many segments a path starts. -/
def starts : Bool → List Char → Nat
  | _, [] => 0
  | inside, c :: t => if c = '/' then starts false t else (if inside then 0 else 1) + starts true t

theorem starts_append : ∀ (inside : Bool) (a b : List Char),
    starts inside (a ++ b) = starts inside a + starts (endsInside inside a) b
  | inside, [], b => by simp [starts, endsInside]
  | inside, c :: a, b => by
    by_cases hc : c = '/'
    · simp [starts, endsInside, hc, starts_append false a b]
    · simp [starts, endsInside, hc, starts_append true a b, Nat.add_assoc]

theorem endsInside_snoc (inside : Bool) (a : List Char) (c : Char) :
    endsInside inside (a ++ [c]) = decide (c ≠ '/') := by
  induction a generalizing inside with
  | nil => rfl
  | cons d a ih => exact ih _

theorem starts_splitOn : ∀ (t h : List Char) (tl : List (List Char)), t.splitOn '/' = h :: tl →
    ∀ inside, starts inside t = (if inside ∨ h = [] then 0 else 1) + (tl.filter (· ≠ [])).length
  | [], h, tl, heq, inside => by
    rw [List.splitOn_nil] at heq
    cases heq
    simp [starts]
  | c :: t, h, tl, heq, inside => by
    obtain ⟨h', tl', hsplit⟩ := List.exists_cons_of_ne_nil (List.splitOn_ne_nil '/' t)
    have ih := starts_splitOn t h' tl' hsplit
    rw [List.splitOn_cons_eq_if_modifyHead, hsplit] at heq
    by_cases hc : c = '/'
    · rw [if_pos (by simp [hc])] at heq
      cases heq
      rw [starts, if_pos hc, ih false]
      by_cases hh : h' = []
      · simp [hh]
      · simp [hh, Nat.add_comm]
    · rw [if_neg (by simp [hc]), List.modifyHead_cons] at heq
      cases heq
      rw [starts, if_neg hc, ih true]
      cases inside <;> simp

theorem length_segments (t : List Char) : (segments t).length = starts false t := by
  obtain ⟨h, tl, hsplit⟩ := List.exists_cons_of_ne_nil (List.splitOn_ne_nil '/' t)
  rw [starts_splitOn t h tl hsplit false, segments, hsplit]
  by_cases hh : h = []
  · simp [hh]
  · simp [hh, Nat.add_comm]

theorem length_segments_run_on {a b : List Char} {c d : Char} (hc : c ≠ '/') (hd : d ≠ '/') :
    (segments (a ++ [c] ++ d :: b)).length + 1 = (segments (a ++ [c])).length + (segments (d :: b)).length := by
  rw [length_segments, length_segments, length_segments, starts_append false (a ++ [c]), endsInside_snoc]
  simp only [starts, hc, hd, ne_eq, not_false_eq_true, decide_true, if_true, if_false, Bool.false_eq_true]
  omega

/-! ## Trimming -/

/-- Slashes trimmed at the end. -/
def rtrim (t : List Char) : List Char := (t.reverse.dropWhile (· == '/')).reverse

/-- Slashes trimmed at the start. -/
def ltrim (t : List Char) : List Char := t.dropWhile (· == '/')

theorem segments_slash_cons (t : List Char) : segments ('/' :: t) = segments t := by
  have h := segments_slash [] t
  rwa [segments_nil, List.nil_append, List.nil_append] at h

theorem segments_snoc_slash (t : List Char) : segments (t ++ ['/']) = segments t := by
  rw [segments_slash, segments_nil, List.append_nil]

theorem segments_ltrim (t : List Char) : segments (ltrim t) = segments t := by
  induction t with
  | nil => rfl
  | cons c t ih =>
    by_cases hc : c = '/'
    · subst hc
      rw [segments_slash_cons, ← ih, ltrim, List.dropWhile_cons_of_pos (by simp)]
      rfl
    · rw [ltrim, List.dropWhile_cons_of_neg (by simp [hc])]

theorem segments_rtrim (t : List Char) : segments (rtrim t) = segments t := by
  induction t using List.reverseRecOn with
  | nil => rfl
  | append_singleton t c ih =>
    by_cases hc : c = '/'
    · subst hc
      rw [segments_snoc_slash, ← ih, rtrim, List.reverse_append, List.reverse_singleton, List.singleton_append,
        List.dropWhile_cons_of_pos (by simp)]
      rfl
    · rw [rtrim, List.reverse_append, List.reverse_singleton, List.singleton_append,
        List.dropWhile_cons_of_neg (by simp [hc]), List.reverse_cons, List.reverse_reverse]

theorem segments_slashes (t : List Char) (k : Nat) : segments (t ++ List.replicate k '/') = segments t := by
  induction k with
  | zero => rw [List.replicate_zero, List.append_nil]
  | succ k ih => rw [List.replicate_succ', ← List.append_assoc, segments_snoc_slash, ih]

theorem exists_rtrim (t : List Char) : ∃ k, t = rtrim t ++ List.replicate k '/' := by
  induction t using List.reverseRecOn with
  | nil => exact ⟨0, rfl⟩
  | append_singleton t c ih =>
    by_cases hc : c = '/'
    · subst hc
      obtain ⟨k, hk⟩ := ih
      refine ⟨k + 1, ?_⟩
      rw [rtrim, List.reverse_append, List.reverse_singleton, List.singleton_append,
        List.dropWhile_cons_of_pos (by simp), List.replicate_succ', ← List.append_assoc]
      exact congrArg (· ++ ['/']) hk
    · refine ⟨0, ?_⟩
      rw [rtrim, List.reverse_append, List.reverse_singleton, List.singleton_append,
        List.dropWhile_cons_of_neg (by simp [hc]), List.reverse_cons, List.reverse_reverse, List.replicate_zero,
        List.append_nil]

theorem segments_append_rtrim (base t rest : List Char) :
    segments (base ++ (rtrim t ++ '/' :: rest)) = segments (base ++ t) ++ segments rest := by
  obtain ⟨k, hk⟩ := exists_rtrim t
  rw [← List.append_assoc, segments_slash]
  conv_rhs => rw [hk, ← List.append_assoc, segments_slashes]

/-! ## Joining segments -/

theorem slash_notMem_splitOn : ∀ (t : List Char), ∀ p ∈ t.splitOn '/', '/' ∉ p
  | [], p, hp => by
    rw [List.splitOn_nil, List.mem_singleton] at hp
    rw [hp]
    exact List.not_mem_nil
  | c :: t, p, hp => by
    have ih := slash_notMem_splitOn t
    obtain ⟨first, rest, hsplit⟩ := List.exists_cons_of_ne_nil (List.splitOn_ne_nil '/' t)
    rw [List.splitOn_cons_eq_if_modifyHead, hsplit] at hp
    rw [hsplit] at ih
    by_cases hc : c = '/'
    · rw [if_pos (by simp [hc])] at hp
      rcases List.mem_cons.mp hp with heq | hp
      · rw [heq]
        exact List.not_mem_nil
      · exact ih p hp
    · rw [if_neg (by simp [hc]), List.modifyHead_cons] at hp
      rcases List.mem_cons.mp hp with heq | hp
      · rw [heq, List.mem_cons, not_or]
        exact ⟨Ne.symm hc, ih first (by simp)⟩
      · exact ih p (by simp [hp])

/-- Segments can be told from the text they are joined to. -/
theorem segments_intercalate {parts : List (List Char)} (h : ∀ p ∈ parts, p ≠ [] ∧ '/' ∉ p) :
    segments (['/'].intercalate parts) = parts := by
  by_cases hnil : parts = []
  · rw [hnil]
    rfl
  · rw [segments, List.splitOn_intercalate '/' (fun p hp => (h p hp).2) hnil, List.filter_eq_self]
    exact fun p hp => decide_eq_true (h p hp).1

theorem segments_segments (t : List Char) : segments (['/'].intercalate (segments t)) = segments t :=
  segments_intercalate fun p hp =>
    ⟨of_decide_eq_true (List.mem_filter.mp hp).2, slash_notMem_splitOn t p (List.mem_filter.mp hp).1⟩

theorem intercalate_append {a : List (List Char)} (ha : a ≠ []) (b : List (List Char)) (hb : b ≠ []) :
    ['/'].intercalate (a ++ b) = ['/'].intercalate a ++ '/' :: ['/'].intercalate b := by
  induction a with
  | nil => exact absurd rfl ha
  | cons p a ih =>
    cases a with
    | nil =>
      obtain ⟨q, rest, rfl⟩ := List.exists_cons_of_ne_nil hb
      rw [List.singleton_append, List.intercalate_cons_cons, List.intercalate_singleton, List.append_assoc]
      rfl
    | cons q a =>
      rw [List.cons_append, List.cons_append, List.intercalate_cons_cons, ← List.cons_append, ih (List.cons_ne_nil _ _),
        List.intercalate_cons_cons]
      simp only [List.append_assoc]

theorem segments_ne_nil {t : List Char} {c : Char} (hc : c ∈ t) (h : c ≠ '/') : segments t ≠ [] := by
  induction t with
  | nil => cases hc
  | cons d t ih =>
    by_cases hd : d = '/'
    · rw [hd, segments_slash_cons]
      exact ih ((List.mem_cons.mp hc).resolve_left fun heq => h (heq.trans hd))
    · obtain ⟨first, rest, hsplit⟩ := List.exists_cons_of_ne_nil (List.splitOn_ne_nil '/' t)
      rw [segments, List.splitOn_cons_eq_if_modifyHead, if_neg (by simp [hd]), hsplit, List.modifyHead_cons]
      simp

end Segments
