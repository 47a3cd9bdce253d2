import Mathlib.Tactic.Common

/- Computations that may refuse, as `Except`: how a successful sequence of checks
   and updates is taken apart. -/

namespace Checked

variable {ε α β σ : Type}

/-- Refuse with `e` when `p` holds. -/
def refuseIf (p : Prop) [Decidable p] (e : ε) : Except ε Unit := if p then .error e else .ok ()

/-- Refuse with the error found, if any. -/
def refuseWith : Option ε → Except ε Unit
  | some e => .error e
  | none => .ok ()

theorem refuseIf_eq_ok {p : Prop} [Decidable p] {e : ε} {u : Unit} : refuseIf p e = .ok u ↔ ¬ p := by
  unfold refuseIf
  split <;> simp_all

theorem refuseWith_eq_ok {o : Option ε} {u : Unit} : refuseWith o = .ok u ↔ o = none := by
  cases o <;> simp [refuseWith]

variable {f : α → Except ε β} {l : List α} {r : List β} {s s' : σ} {b : β}

theorem bind_eq_ok {x : Except ε α} :
    x >>= f = .ok b ↔ ∃ a, x = .ok a ∧ f a = .ok b := by
  cases x <;> simp [bind, Except.bind]

theorem pure_eq_ok {a b : α} : (pure a : Except ε α) = .ok b ↔ a = b := by
  simp [pure, Except.pure]

theorem map_eq_ok {x : Except ε α} {f : α → β} :
    f <$> x = .ok b ↔ ∃ a, x = .ok a ∧ f a = b := by
  cases x <;> simp [Functor.map, Except.map]

theorem forM_eq_ok {f : α → Except ε Unit} :
    l.forM f = .ok () ↔ ∀ a ∈ l, f a = .ok () := by
  induction l with
  | nil => simp [pure, Except.pure]
  | cons a l ih =>
    rw [show (a :: l).forM f = (f a >>= fun _ => l.forM f) from rfl, bind_eq_ok, List.forall_mem_cons, ← ih]
    exact ⟨fun ⟨_, ha, hl⟩ => ⟨ha, hl⟩, fun ⟨ha, hl⟩ => ⟨(), ha, hl⟩⟩

theorem mapM_cons_eq_ok {a : α} :
    (a :: l).mapM f = .ok r ↔ ∃ b, f a = .ok b ∧ ∃ r', l.mapM f = .ok r' ∧ b :: r' = r := by
  simp only [List.mapM_cons, bind_eq_ok, pure_eq_ok]

theorem mapM_defined (h : l.mapM f = .ok r) :
    ∀ a ∈ l, ∃ b, f a = .ok b := by
  induction l generalizing r with
  | nil => simp
  | cons a l ih =>
    obtain ⟨b, hb, r, hr, -⟩ := mapM_cons_eq_ok.mp h
    rw [List.forall_mem_cons]
    exact ⟨⟨b, hb⟩, ih hr⟩

theorem mapM_of_defined (h : ∀ a ∈ l, ∃ b, f a = .ok b) :
    ∃ r, l.mapM f = .ok r := by
  induction l with
  | nil => exact ⟨[], by simp [pure, Except.pure]⟩
  | cons a l ih =>
    obtain ⟨⟨b, hb⟩, hl⟩ := List.forall_mem_cons.mp h
    obtain ⟨r, hr⟩ := ih hl
    exact ⟨b :: r, mapM_cons_eq_ok.mpr ⟨b, hb, r, hr, rfl⟩⟩

theorem mem_mapM (h : l.mapM f = .ok r) :
    b ∈ r ↔ ∃ a ∈ l, f a = .ok b := by
  induction l generalizing r with
  | nil =>
    obtain rfl : [] = r := by simpa [pure, Except.pure] using h
    simp
  | cons a l ih =>
    obtain ⟨b', hb, r, hr, rfl⟩ := mapM_cons_eq_ok.mp h
    rw [List.mem_cons, ih hr, eq_comm]
    simp only [List.mem_cons, exists_eq_or_imp, hb, Except.ok.injEq]

/-- What holds from each state to the next, and composes, holds across a whole
    sequence of updates. -/
theorem foldlM_rel {R : σ → σ → Prop} {f : σ → α → Except ε σ}
    (refl : ∀ s, R s s) (trans : ∀ {s₁ s₂ s₃}, R s₁ s₂ → R s₂ s₃ → R s₁ s₃)
    (step : ∀ {s a s'}, a ∈ l → f s a = .ok s' → R s s') (h : l.foldlM f s = .ok s') : R s s' := by
  induction l generalizing s with
  | nil =>
    obtain rfl : s = s' := by simpa [pure, Except.pure] using h
    exact refl s
  | cons a l ih =>
    rw [List.foldlM_cons, bind_eq_ok] at h
    obtain ⟨s₁, h₁, h₂⟩ := h
    exact trans (step (List.mem_cons_self ..) h₁) (ih (fun hm => step (List.mem_cons_of_mem _ hm)) h₂)

/-- The update for one element of a sequence, with what runs before and after it. -/
theorem foldlM_split {f : σ → α → Except ε σ} {a : α} (ha : a ∈ l)
    (h : l.foldlM f s = .ok s') : ∃ l₁ l₂ s₁ s₂, l = l₁ ++ a :: l₂ ∧ l₁.foldlM f s = .ok s₁ ∧
      f s₁ a = .ok s₂ ∧ l₂.foldlM f s₂ = .ok s' := by
  obtain ⟨l₁, l₂, rfl⟩ := List.append_of_mem ha
  rw [List.foldlM_append, bind_eq_ok] at h
  obtain ⟨s₁, h₁, h⟩ := h
  rw [List.foldlM_cons, bind_eq_ok] at h
  obtain ⟨s₂, h₂, h₃⟩ := h
  exact ⟨l₁, l₂, s₁, s₂, rfl, h₁, h₂, h₃⟩

/-- An invariant that each update keeps holds after all of them. -/
theorem foldlM_inv {P : σ → Prop} {f : σ → α → Except ε σ}
    (step : ∀ {s a s'}, a ∈ l → f s a = .ok s' → P s → P s') (h : l.foldlM f s = .ok s')
    (hs : P s) : P s' :=
  foldlM_rel (R := fun s s' => P s → P s') (fun _ h => h) (fun h₁ h₂ h => h₂ (h₁ h))
    (fun hm hf => step hm hf) h hs

end Checked
