import Mathlib.Data.List.Basic
import Mathlib.Tactic.Common

/- Whether a sequence split at separators has a component of exactly two dots, read off
   in one pass. The pass only looks at the kind of each element, and forgets how many
   elements that are neither dot nor separator it saw: two spellings of a path that
   differ in those have the same answer (`scan_append_other`). -/

namespace Components

inductive Kind where
  | separator
  | dot
  | other
deriving DecidableEq, Repr

variable {α : Type} (kind : α → Kind)

/-- The elements between separators. -/
def components (l : List α) : List (List α) := l.splitOnP fun a => kind a == .separator

/-- A component equal to `..`. -/
def hasDotdot (l : List α) : Bool := (components kind l).any fun c => c.map kind == [.dot, .dot]

/-- One pass: `dots` counts the dots of the component so far, while it has only dots. -/
def scan (dots : Option Nat) : List Kind → Bool
  | [] => dots == some 2
  | .separator :: l => dots == some 2 || scan (some 0) l
  | .dot :: l => scan (dots.map (· + 1)) l
  | .other :: l => scan none l

/-- The state of the pass after a beginning of a component. -/
def dotsOf (start : List Kind) : Option Nat := if start.all (· == .dot) then some start.length else none

theorem dotsOf_snoc (start : List Kind) (c : Kind) :
    dotsOf (start ++ [c]) = if c = .dot then (dotsOf start).map (· + 1) else none := by
  unfold dotsOf
  cases c <;> cases h : start.all (· == .dot) <;> simp [h]

theorem dotsOf_eq_two (start : List Kind) : (dotsOf start == some 2) = (start == [.dot, .dot]) := by
  rcases start with _ | ⟨a, _ | ⟨b, _ | ⟨c, l⟩⟩⟩
  · rfl
  · cases a <;> rfl
  · cases a <;> cases b <;> rfl
  · have hlen : (start : List Kind) → start.length ≠ 2 → dotsOf start ≠ some 2 := by
      intro start hne
      unfold dotsOf
      split
      · simpa using hne
      · simp
    have := hlen (a :: b :: c :: l) (by simp)
    simpa using this

theorem modifyHead_nil_append (l : List (List α)) : l.modifyHead ([] ++ ·) = l := by
  cases l <;> rfl

theorem any_modifyHead_eq_scan (l start : List α) :
    (((components kind l).modifyHead (start ++ ·)).any fun c => c.map kind == [.dot, .dot]) =
      scan (dotsOf (start.map kind)) (l.map kind) := by
  induction l generalizing start with
  | nil => simp [components, scan, dotsOf_eq_two]
  | cons a l ih =>
    have hempty := ih []
    rw [List.map_nil, show dotsOf [] = some 0 from rfl, modifyHead_nil_append] at hempty
    unfold components at hempty ih ⊢
    rw [List.splitOnP_cons_eq_if_modifyHead, List.map_cons]
    cases hc : kind a with
    | separator => simp [scan, dotsOf_eq_two, hempty]
    | dot =>
      have hsnoc := ih (start ++ [a])
      rw [List.map_append, List.map_singleton, hc, dotsOf_snoc, if_pos rfl] at hsnoc
      rw [if_neg (by simp), scan, ← hsnoc, List.modifyHead_modifyHead]
      simp [Function.comp_def]
    | other =>
      have hsnoc := ih (start ++ [a])
      rw [List.map_append, List.map_singleton, hc, dotsOf_snoc, if_neg (by simp)] at hsnoc
      rw [if_neg (by simp), scan, ← hsnoc, List.modifyHead_modifyHead]
      simp [Function.comp_def]

theorem hasDotdot_eq_scan (l : List α) : hasDotdot kind l = scan (some 0) (l.map kind) := by
  have h := any_modifyHead_eq_scan kind l []
  rwa [modifyHead_nil_append] at h

theorem scan_cons_congr {l l' : List Kind} {c : Kind} (h : ∀ dots, scan dots l = scan dots l') (dots : Option Nat) :
    scan dots (c :: l) = scan dots (c :: l') := by
  cases c <;> simp only [scan, h]

/-- Elements that are neither dot nor separator end the count, however many they are. -/
theorem scan_append_other {other l : List Kind} {dots : Option Nat} (hne : other ≠ [])
    (h : ∀ c ∈ other, c = .other) : scan dots (other ++ l) = scan none l := by
  induction other generalizing dots with
  | nil => exact absurd rfl hne
  | cons c other ih =>
    rw [List.forall_mem_cons] at h
    obtain ⟨rfl, hrest⟩ := h
    rw [List.cons_append, scan]
    cases other with
    | nil => rfl
    | cons c' other => exact ih (by simp) hrest

variable {kind}

theorem components_append_cons {a b : List α} {s : α} (hs : kind s = .separator) :
    components kind (a ++ s :: b) = components kind a ++ components kind b :=
  List.splitOnP_append_cons _ _ (by simp [hs])

@[simp] theorem components_nil : components kind [] = [[]] := List.splitOnP_nil

end Components
