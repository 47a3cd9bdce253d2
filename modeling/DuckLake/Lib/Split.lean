import Mathlib.Data.List.Basic
import Mathlib.Tactic.Common

/- Cutting a list at the first or the last place of an element, as `split_once` and
   `rsplit_once` cut texts. Each is inverse to writing the element between two parts, as
   long as the part it is searched in does not hold it. -/

namespace Split

variable {α : Type} [DecidableEq α]

/-- What stands before and after the first place of an element. -/
def splitOnce (c : α) : List α → Option (List α × List α)
  | [] => none
  | a :: t => if a = c then some ([], t) else (splitOnce c t).map fun (before, after) => (a :: before, after)

/-- The same for the last place. -/
def rsplitOnce (c : α) (t : List α) : Option (List α × List α) :=
  (splitOnce c t.reverse).map fun (after, before) => (before.reverse, after.reverse)

theorem splitOnce_append {c : α} {a : List α} (h : c ∉ a) (b : List α) : splitOnce c (a ++ c :: b) = some (a, b) := by
  induction a with
  | nil => exact if_pos rfl
  | cons x a ih =>
    rw [List.mem_cons, not_or] at h
    rw [List.cons_append, splitOnce, if_neg (Ne.symm h.1), ih h.2]
    rfl

theorem splitOnce_eq_none {c : α} {t : List α} (h : c ∉ t) : splitOnce c t = none := by
  induction t with
  | nil => rfl
  | cons x t ih =>
    rw [List.mem_cons, not_or] at h
    rw [splitOnce, if_neg (Ne.symm h.1), ih h.2]
    rfl

theorem rsplitOnce_append {c : α} {b : List α} (h : c ∉ b) (a : List α) : rsplitOnce c (a ++ c :: b) = some (a, b) := by
  have hrev : (a ++ c :: b).reverse = b.reverse ++ c :: a.reverse := by simp
  rw [rsplitOnce, hrev, splitOnce_append (by simpa using h)]
  simp

end Split
