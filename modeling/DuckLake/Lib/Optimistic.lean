import Mathlib.Tactic.Common

/- Optimistic transactions over a shared state. A transaction is planned against
   the state of the moment and committed later, after any number of other
   commits; a commit may refuse. `Discipline` collects what has to be shown about
   one commit and one plan, and `Steps.sound` is the rule that carries it to every
   interleaving: an invariant of the state, and a promise each planned
   transaction can still keep, hold in every world a run reaches. -/

namespace Optimistic

/-- States `S` and planned transactions `P`: which plans can be made in a state, and
    which states a commit can lead to. A plan may extend one made before, from what
    the state shows now. -/
structure System (S P : Type) where
  plans : S → List P → P → Prop
  commits : S → P → S → Prop

/-- A state with the transactions planned so far. A plan stays in the list after
    its commit: a caller may try it again. -/
structure World (S P : Type) where
  state : S
  pending : List P

variable {S P : Type}

/-- One move of the system: some client plans, or some planned transaction
    commits. The label of a commit is the state it found and its plan. -/
inductive Step (sys : System S P) : World S P → Option (S × P) → World S P → Prop
  | plan {w : World S P} {p : P} (hp : sys.plans w.state w.pending p) :
      Step sys w none { w with pending := p :: w.pending }
  | commit {w : World S P} {p : P} {s' : S} (hp : p ∈ w.pending)
      (hc : sys.commits w.state p s') : Step sys w (some (w.state, p)) { w with state := s' }

/-- Any number of moves, with the labels of the commits among them. -/
inductive Steps (sys : System S P) : World S P → List (S × P) → World S P → Prop
  | refl (w : World S P) : Steps sys w [] w
  | tail {w w₁ w₂ : World S P} {ls : List (S × P)} {l : Option (S × P)}
      (hs : Steps sys w ls w₁) (h : Step sys w₁ l w₂) : Steps sys w (ls ++ l.toList) w₂

/-- What one commit and one plan have to satisfy. `ok s p` is the promise that
    transaction `p` still keeps in state `s`; `evolves` is what every commit does to
    the state, and is all that the promise of another transaction may rely on. -/
structure Discipline (sys : System S P) where
  inv : S → Prop
  ok : S → P → Prop
  evolves : S → S → Prop
  planned_ok : ∀ {s pending p}, inv s → (∀ q ∈ pending, ok s q) → sys.plans s pending p → ok s p
  commit_inv : ∀ {s p s'}, inv s → ok s p → sys.commits s p s' → inv s'
  commit_evolves : ∀ {s p s'}, inv s → ok s p → sys.commits s p s' → evolves s s'
  ok_stable : ∀ {s s' p}, inv s → inv s' → evolves s s' → ok s p → ok s' p

/-- The invariant holds and every planned transaction keeps its promise. -/
structure Sound {sys : System S P} (d : Discipline sys) (w : World S P) : Prop where
  inv : d.inv w.state
  ok : ∀ p ∈ w.pending, d.ok w.state p

variable {sys : System S P} {d : Discipline sys} {w w' w₁ w₂ : World S P}

theorem Step.sound {l : Option (S × P)} (h : Step sys w l w') (hw : Sound d w) : Sound d w' := by
  cases h with
  | plan hp =>
    refine ⟨hw.inv, ?_⟩
    intro q hq
    rcases List.mem_cons.mp hq with rfl | hq
    · exact d.planned_ok hw.inv hw.ok hp
    · exact hw.ok q hq
  | @commit p s' hp hc =>
    have hinv := d.commit_inv hw.inv (hw.ok p hp) hc
    have hev := d.commit_evolves hw.inv (hw.ok p hp) hc
    exact ⟨hinv, fun q hq => d.ok_stable hw.inv hinv hev (hw.ok q hq)⟩

/-- Every interleaving keeps the invariant and the promises. -/
theorem Steps.sound {ls : List (S × P)} (h : Steps sys w ls w') (hw : Sound d w) : Sound d w' := by
  induction h with
  | refl => exact hw
  | tail _ hstep ih => exact hstep.sound ih

/-- The run rule: what every commit of a run preserves, given the invariant and
    the plan's promise where it commits, holds at the end of the run. `A` is an
    assumption on the commits of the run. -/
theorem Steps.preserves {ls : List (S × P)} (h : Steps sys w ls w') (hw : Sound d w)
    {A : S × P → Prop} {Q : S → Prop}
    (step : ∀ {s p s'}, d.inv s → d.ok s p → sys.commits s p s' → A (s, p) → Q s → Q s')
    (hA : ∀ l ∈ ls, A l) (hQ : Q w.state) : Q w'.state := by
  induction h with
  | refl => exact hQ
  | @tail w₁ w₂ ls l hs hstep ih =>
    have hq := ih (fun l hl => hA l (List.mem_append_left _ hl))
    cases hstep with
    | plan hp => exact hq
    | @commit p s' hp hc =>
      have hsound := hs.sound hw
      exact step hsound.inv (hsound.ok p hp) hc (hA _ (List.mem_append_right _ (by simp))) hq

end Optimistic
