import Mathlib.Data.Option.Basic
import Mathlib.Tactic.Common

/- Lifetimes of versioned rows. A row of a versioned table is born at one
   snapshot and, once it is ended, read by no snapshot from the one that ended it
   on. The lemmas say how visibility moves when a row is ended, and that at the
   newest snapshot "visible" is the same as "not ended". -/

namespace Versioned

/-- The snapshots a row is read at: from `beginSnapshot` on, up to but not
    including `endSnapshot`, which is missing while the row is live. -/
structure Lifetime where
  beginSnapshot : Nat
  endSnapshot : Option Nat
deriving DecidableEq, Repr

namespace Lifetime

variable {x : Lifetime} {s c h : Nat}

def visibleAt (x : Lifetime) (s : Nat) : Bool :=
  decide (x.beginSnapshot ≤ s) && x.endSnapshot.all (fun e => decide (s < e))

def live (x : Lifetime) : Bool := x.endSnapshot.isNone

/-- End a live row at snapshot `c`; an ended row keeps its end. -/
def close (c : Nat) (x : Lifetime) : Lifetime :=
  if x.live then { x with endSnapshot := some c } else x

/-- Every snapshot the row names is at most `h`. -/
structure Bounded (h : Nat) (x : Lifetime) : Prop where
  born : x.beginSnapshot ≤ h
  ended : ∀ e, x.endSnapshot = some e → e ≤ h

theorem visibleAt_iff :
    x.visibleAt s = true ↔ x.beginSnapshot ≤ s ∧ ∀ e, x.endSnapshot = some e → s < e := by
  unfold visibleAt
  cases x.endSnapshot <;> simp

theorem live_iff : x.live = true ↔ x.endSnapshot = none := by
  simp [live]

theorem Bounded.mono (hx : x.Bounded h) (hle : h ≤ c) : x.Bounded c :=
  ⟨Nat.le_trans hx.born hle, fun e he => Nat.le_trans (hx.ended e he) hle⟩

/-- At the newest snapshot the visible rows are the live ones. -/
theorem Bounded.visibleAt_eq_live (hx : x.Bounded h) (hs : h ≤ s) : x.visibleAt s = x.live := by
  have hb := Nat.le_trans hx.born hs
  cases he : x.endSnapshot with
  | none => simp [visibleAt, live, he, hb]
  | some e =>
    have : ¬ s < e := Nat.not_lt.mpr (Nat.le_trans (hx.ended e he) hs)
    simp [visibleAt, live, he, this]

@[simp] theorem live_close : (x.close c).live = false := by
  unfold close
  split
  · rfl
  · next hl => simpa using hl

@[simp] theorem beginSnapshot_close : (x.close c).beginSnapshot = x.beginSnapshot := by
  unfold close
  split <;> rfl

theorem Bounded.close (hx : x.Bounded h) (hle : h ≤ c) : (x.close c).Bounded c := by
  refine ⟨?_, ?_⟩
  · rw [beginSnapshot_close]
    exact Nat.le_trans hx.born hle
  · intro e he
    unfold Lifetime.close at he
    split at he
    · exact Nat.le_of_eq (Option.some.inj he).symm
    · exact Nat.le_trans (hx.ended e he) hle

end Lifetime

end Versioned
