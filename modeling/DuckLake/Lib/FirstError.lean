import Mathlib.Data.List.Basic
import Mathlib.Tactic.Common

/- Streams of results, as a reader that stops at the first error takes them. Two
   streams are alike for such a reader whatever comes after their first error, and stay
   alike between the same streams (`Alike.append`). -/

namespace FirstError

variable {ε α : Type}

/-- The results up to the first error, the error included. -/
def upToError : List (Except ε α) → List (Except ε α)
  | [] => []
  | .error e :: _ => [.error e]
  | .ok a :: rest => .ok a :: upToError rest

def hasError (l : List (Except ε α)) : Bool := l.any fun r => !r.isOk

theorem upToError_append (l m : List (Except ε α)) :
    upToError (l ++ m) = upToError l ++ if hasError l then [] else upToError m := by
  induction l with
  | nil => rfl
  | cons r l ih =>
    cases r with
    | error e => rfl
    | ok a =>
      have hcons : hasError (.ok a :: l) = hasError l := rfl
      rw [List.cons_append, upToError, upToError, ih, hcons, List.cons_append]

/-- The same to a reader that stops at the first error, before any other stream. -/
def Alike (l m : List (Except ε α)) : Prop := ∀ rest, upToError (l ++ rest) = upToError (m ++ rest)

namespace Alike

variable {l m : List (Except ε α)}

theorem refl (l : List (Except ε α)) : Alike l l := fun _ => rfl

theorem error (e : ε) (l : List (Except ε α)) : Alike (.error e :: l) [.error e] := fun _ => rfl

theorem append (h : Alike l m) (before after : List (Except ε α)) :
    Alike (before ++ (l ++ after)) (before ++ (m ++ after)) := by
  intro rest
  have hrest := h (after ++ rest)
  rw [List.append_assoc, List.append_assoc, List.append_assoc, List.append_assoc, upToError_append before,
    upToError_append before, hrest]

theorem eq (h : Alike l m) : upToError l = upToError m := by
  have hnil := h []
  rwa [List.append_nil, List.append_nil] at hnil

end Alike

end FirstError
