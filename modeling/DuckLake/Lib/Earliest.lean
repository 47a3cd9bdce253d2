import Mathlib.Order.Defs.LinearOrder
import Mathlib.Order.Lattice
import Mathlib.Data.List.Basic
import Mathlib.Data.List.MinMax
import Mathlib.Tactic.Common

/- An ordered map from keys to dates in which noting a date for a key keeps the
   earlier of the two. What such a map says is when each key was first noted:
   `notedBy l k d` is "key `k` was noted at `d` or before", and every fact about the
   map is read off it. -/

namespace Earliest

variable {κ δ : Type}

section Bounds

variable [LinearOrder δ] {l : List (κ × δ)} {d : δ}

def first (l : List (κ × δ)) : Option δ := (l.map (·.2)).min?

def last (l : List (κ × δ)) : Option δ := (l.map (·.2)).max?

theorem first_mem (hf : first l = some d) : ∃ k, (k, d) ∈ l := by
  obtain ⟨x, hx, rfl⟩ := List.mem_map.mp (List.min?_eq_some_iff.mp hf).1
  exact ⟨x.1, hx⟩

end Bounds

variable [LinearOrder κ]

def noted (l : List (κ × δ)) (k : κ) : Bool := l.any fun x => x.1 == k

theorem noted_iff {l : List (κ × δ)} {k : κ} : noted l k = true ↔ ∃ x ∈ l, x.1 = k := by
  simp [noted]

variable [LinearOrder δ]

/-- Note a date for a key: the earliest one is kept. -/
def note : List (κ × δ) → κ → δ → List (κ × δ)
  | [], k, d => [(k, d)]
  | (k', d') :: l, k, d =>
    if k < k' then (k, d) :: (k', d') :: l
    else if k = k' then (k', min d' d) :: l
    else (k', d') :: note l k d

def noteAll (l new : List (κ × δ)) : List (κ × δ) := new.foldl (fun l x => note l x.1 x.2) l

/-- The key was noted, at this date or before. -/
def notedBy (l : List (κ × δ)) (k : κ) (d : δ) : Bool := l.any fun x => x.1 == k && decide (x.2 ≤ d)

variable {l new : List (κ × δ)} {k k' : κ} {d d' : δ}

theorem notedBy_iff : notedBy l k d = true ↔ ∃ x ∈ l, x.1 = k ∧ x.2 ≤ d := by
  simp [notedBy]

theorem notedBy_note : notedBy (note l k d) k' d' = true ↔ notedBy l k' d' = true ∨ (k = k' ∧ d ≤ d') := by
  induction l with
  | nil => simp [note, notedBy]
  | cons x l ih =>
    obtain ⟨k₀, d₀⟩ := x
    unfold note
    split
    · simp only [notedBy, List.any_cons, Bool.or_eq_true, Bool.and_eq_true, beq_iff_eq, decide_eq_true_eq]
      rw [or_comm]
    · split
      · next heq =>
        subst heq
        simp only [notedBy, List.any_cons, Bool.or_eq_true, Bool.and_eq_true, beq_iff_eq, decide_eq_true_eq,
          min_le_iff, and_or_left]
        rw [or_right_comm]
      · simp only [notedBy, List.any_cons, Bool.or_eq_true, or_assoc] at ih ⊢
        rw [ih]

theorem mem_note {x : κ × δ} (hx : x ∈ note l k d) : x ∈ l ∨ x = (k, d) := by
  induction l with
  | nil => exact .inr (by simpa [note] using hx)
  | cons y l ih =>
    obtain ⟨k₀, d₀⟩ := y
    unfold note at hx
    split at hx
    · rcases List.mem_cons.mp hx with rfl | hx
      · exact .inr rfl
      · exact .inl hx
    · split at hx
      · next heq =>
        rcases List.mem_cons.mp hx with rfl | hx
        · rcases min_choice d₀ d with hmin | hmin
          · exact .inl (by rw [hmin]; exact List.mem_cons_self ..)
          · exact .inr (by rw [hmin, heq])
        · exact .inl (List.mem_cons_of_mem _ hx)
      · rcases List.mem_cons.mp hx with rfl | hx
        · exact .inl (List.mem_cons_self ..)
        · exact (ih hx).imp_left (List.mem_cons_of_mem _)

theorem notedBy_noteAll : notedBy (noteAll l new) k d = true ↔
    notedBy l k d = true ∨ ∃ x ∈ new, x.1 = k ∧ x.2 ≤ d := by
  induction new generalizing l with
  | nil => simp [noteAll]
  | cons x new ih =>
    rw [show noteAll l (x :: new) = noteAll (note l x.1 x.2) new from rfl, ih, notedBy_note, or_assoc]
    simp only [List.mem_cons, exists_eq_or_imp]

theorem noted_iff_notedBy : noted l k = true ↔ ∃ d, notedBy l k d = true := by
  simp only [noted_iff, notedBy_iff]
  constructor
  · rintro ⟨x, hx, hk⟩
    exact ⟨x.2, x, hx, hk, le_rfl⟩
  · rintro ⟨d, x, hx, hk, -⟩
    exact ⟨x, hx, hk⟩

theorem noted_noteAll : noted (noteAll l new) k = true ↔ noted l k = true ∨ ∃ x ∈ new, x.1 = k := by
  simp only [noted_iff_notedBy, notedBy_noteAll, exists_or]
  refine or_congr_right ⟨?_, ?_⟩
  · rintro ⟨d, x, hx, hk, -⟩
    exact ⟨x, hx, hk⟩
  · rintro ⟨x, hx, hk⟩
    exact ⟨x.2, x, hx, hk, le_rfl⟩

theorem mem_noteAll {x : κ × δ} (hx : x ∈ noteAll l new) : x ∈ l ∨ x ∈ new := by
  induction new generalizing l with
  | nil => exact .inl hx
  | cons y new ih =>
    rcases ih hx with hx | hx
    · rcases mem_note hx with hx | rfl
      · exact .inl hx
      · exact .inr (List.mem_cons_self ..)
    · exact .inr (List.mem_cons_of_mem _ hx)

end Earliest
