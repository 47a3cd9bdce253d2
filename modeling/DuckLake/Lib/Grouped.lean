import Mathlib.Data.List.Pairwise
import Mathlib.Order.Lattice
import Mathlib.Tactic.Common

/- An ordered map from keys to lists of values, as a list of entries in the order of the
   keys: what `BTreeMap::entry(k).or_default().push(v)` builds and `into_iter` gives. -/

namespace Grouped

variable {κ ν : Type} [LinearOrder κ]

/-- The value at the end of the list of its key. -/
def push (key : κ) (value : ν) : List (κ × List ν) → List (κ × List ν)
  | [] => [(key, [value])]
  | (k, values) :: rest =>
    if key < k then (key, [value]) :: (k, values) :: rest
    else if key = k then (k, values ++ [value]) :: rest
    else (k, values) :: push key value rest

/-- Every key once, in order. -/
def Ordered (entries : List (κ × List ν)) : Prop := entries.Pairwise fun a b => a.1 < b.1

variable {entries : List (κ × List ν)} {value : ν} {key : κ}

theorem key_of_mem_push {e : κ × List ν} (h : e ∈ push key value entries) : e.1 = key ∨ ∃ e' ∈ entries, e'.1 = e.1 := by
  induction entries with
  | nil =>
    rw [push, List.mem_singleton] at h
    exact .inl (congrArg Prod.fst h)
  | cons entry rest ih =>
    rw [push] at h
    split at h
    · rcases List.mem_cons.mp h with h | h
      · exact .inl (congrArg Prod.fst h)
      · exact .inr ⟨e, h, rfl⟩
    split at h
    · next heq =>
      rcases List.mem_cons.mp h with h | h
      · exact .inl ((congrArg Prod.fst h).trans heq.symm)
      · exact .inr ⟨e, by simp [h], rfl⟩
    · rcases List.mem_cons.mp h with h | h
      · exact .inr ⟨entry, by simp, (congrArg Prod.fst h).symm⟩
      · rcases ih h with heq | ⟨e', hmem, heq⟩
        · exact .inl heq
        · exact .inr ⟨e', by simp [hmem], heq⟩

theorem ordered_push (h : Ordered entries) :
    Ordered (push key value entries) := by
  induction entries with
  | nil => exact List.pairwise_singleton ..
  | cons entry rest ih =>
    obtain ⟨hfirst, hrest⟩ := List.pairwise_cons.mp h
    rw [push]
    split
    · next hlt =>
      refine List.pairwise_cons.mpr ⟨fun e he => ?_, h⟩
      rcases List.mem_cons.mp he with heq | he
      · rw [heq]
        exact hlt
      · exact lt_trans hlt (hfirst e he)
    split
    · exact List.pairwise_cons.mpr ⟨hfirst, hrest⟩
    · next hlt hne =>
      refine List.pairwise_cons.mpr ⟨fun e he => ?_, ih hrest⟩
      rcases key_of_mem_push he with heq | ⟨e', hmem, heq⟩
      · rw [heq]
        exact lt_of_le_of_ne (not_lt.mp hlt) (Ne.symm hne)
      · rw [← heq]
        exact hfirst e' hmem

/-- Nothing is lost and nothing is kept twice. -/
theorem perm_push (key : κ) (value : ν) (entries : List (κ × List ν)) :
    ((push key value entries).flatMap (·.2)).Perm (value :: entries.flatMap (·.2)) := by
  induction entries with
  | nil => exact List.Perm.refl _
  | cons entry rest ih =>
    rw [push]
    split
    · exact List.Perm.refl _
    split
    · simp only [List.flatMap_cons, List.append_assoc, List.singleton_append]
      exact List.perm_middle
    · simp only [List.flatMap_cons]
      exact (ih.append_left entry.2).trans List.perm_middle

/-- What holds of every value under its key stays true. -/
theorem forall_push {P : κ → ν → Prop} (hnew : P key value)
    (h : ∀ e ∈ entries, ∀ v ∈ e.2, P e.1 v) : ∀ e ∈ push key value entries, ∀ v ∈ e.2, P e.1 v := by
  induction entries with
  | nil =>
    intro e he v hv
    rw [push, List.mem_singleton] at he
    rw [he, List.mem_singleton] at hv
    rw [he, hv]
    exact hnew
  | cons entry rest ih =>
    obtain ⟨hentry, hrest⟩ := List.forall_mem_cons.mp h
    rw [push]
    split
    · refine List.forall_mem_cons.mpr ⟨fun v hv => ?_, h⟩
      rw [List.mem_singleton.mp hv]
      exact hnew
    split
    · next heq =>
      refine List.forall_mem_cons.mpr ⟨fun v hv => ?_, hrest⟩
      rcases List.mem_append.mp hv with hv | hv
      · exact hentry v hv
      · rw [List.mem_singleton.mp hv]
        exact heq ▸ hnew
    · exact List.forall_mem_cons.mpr ⟨hentry, ih hrest⟩

end Grouped
