import Mathlib.Data.List.Basic

/- Three-valued logic as SQL uses it.

   A truth value is `some true`, `some false` or `none` (unknown). A filter that
   must not lose anything keeps an item unless its condition is false, so the
   notion the rules below are about is `Possible t`: "`t` is not false". It
   distributes over conjunction and disjunction, and a negation is possible
   exactly when its operand is not known to be true. -/

namespace Kleene

/-- A truth value; `none` is unknown. -/
abbrev Truth := Option Bool

/-- Conjunction: false as soon as one side is. -/
def and : Truth → Truth → Truth
  | some false, _ => some false
  | _, some false => some false
  | some true, some true => some true
  | _, _ => none

/-- Disjunction: true as soon as one side is. -/
def or : Truth → Truth → Truth
  | some true, _ => some true
  | _, some true => some true
  | some false, some false => some false
  | _, _ => none

/-- Negation; unknown stays unknown. -/
def not : Truth → Truth
  | some b => some (!b)
  | none => none

/-- A chain of `AND`s. -/
def conj (l : List Truth) : Truth := l.foldr and (some true)

/-- A chain of `OR`s. -/
def disj (l : List Truth) : Truth := l.foldr or (some false)

/-- `t IS NOT FALSE`, which is two-valued. -/
def isNotFalse (t : Truth) : Bool := t != some false

/-- Not known to be false. -/
def Possible (t : Truth) : Prop := t ≠ some false

instance (t : Truth) : Decidable (Possible t) := inferInstanceAs (Decidable (t ≠ some false))

theorem isNotFalse_iff {t : Truth} : isNotFalse t = true ↔ Possible t := by
  simp [isNotFalse, Possible]

@[simp] theorem possible_true : Possible (some true) := by decide

@[simp] theorem possible_unknown : Possible none := by decide

@[simp] theorem not_possible_false : ¬ Possible (some false) := by decide

@[simp] theorem possible_some {b : Bool} : Possible (some b) ↔ b = true := by
  cases b <;> simp

@[simp] theorem possible_and {a b : Truth} : Possible (and a b) ↔ Possible a ∧ Possible b := by
  rcases a with _ | _ | _ <;> rcases b with _ | _ | _ <;> decide

@[simp] theorem possible_or {a b : Truth} : Possible (or a b) ↔ Possible a ∨ Possible b := by
  rcases a with _ | _ | _ <;> rcases b with _ | _ | _ <;> decide

@[simp] theorem possible_not {a : Truth} : Possible (not a) ↔ a ≠ some true := by
  rcases a with _ | _ | _ <;> decide

theorem and_eq_true {a b : Truth} : and a b = some true ↔ a = some true ∧ b = some true := by
  rcases a with _ | _ | _ <;> rcases b with _ | _ | _ <;> decide

theorem or_eq_true {a b : Truth} : or a b = some true ↔ a = some true ∨ b = some true := by
  rcases a with _ | _ | _ <;> rcases b with _ | _ | _ <;> decide

@[simp] theorem conj_nil : conj [] = some true := rfl

@[simp] theorem conj_cons (t : Truth) (l : List Truth) : conj (t :: l) = and t (conj l) := rfl

@[simp] theorem disj_nil : disj [] = some false := rfl

@[simp] theorem disj_cons (t : Truth) (l : List Truth) : disj (t :: l) = or t (disj l) := rfl

theorem possible_conj : ∀ {l : List Truth}, Possible (conj l) ↔ ∀ t ∈ l, Possible t
  | [] => by simp
  | t :: l => by simp [possible_conj (l := l)]

theorem possible_disj : ∀ {l : List Truth}, Possible (disj l) ↔ ∃ t ∈ l, Possible t
  | [] => by simp
  | t :: l => by simp [possible_disj (l := l)]

theorem disj_eq_true : ∀ {l : List Truth}, disj l = some true ↔ some true ∈ l
  | [] => by simp
  | t :: l => by simp [or_eq_true, disj_eq_true (l := l), eq_comm]

end Kleene
