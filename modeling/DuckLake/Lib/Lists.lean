import Mathlib.Algebra.GroupWithZero.Nat
import Mathlib.Algebra.Order.BigOperators.Group.List
import Mathlib.Algebra.Order.Group.Nat
import Mathlib.Data.List.Pairwise
import Mathlib.Data.List.ReduceOption

/- Lists walked item by item: with a function that may have no result for an item
   (`mapM`, `foldlM`), two lists side by side, a list of lists, and a list around one of
   its items. -/

namespace Lists

variable {α β γ δ σ : Type}

/-! ## Items side by side -/

theorem exists_of_mem_right {R : α → β → Prop} {as : List α} {bs : List β}
    (hR : List.Forall₂ R as bs) {b : β} (hb : b ∈ bs) : ∃ a ∈ as, R a b := by
  induction hR with
  | nil => simp at hb
  | @cons a b' as bs hab _ ih =>
    rcases List.mem_cons.mp hb with rfl | hb
    · exact ⟨a, List.mem_cons_self .., hab⟩
    · obtain ⟨a', ha', hab'⟩ := ih hb
      exact ⟨a', List.mem_cons_of_mem _ ha', hab'⟩

theorem forall₂_filterMap {R : γ → δ → Prop} {o : α → Option β} {f : α → β → γ} {g : α → β → δ} (l : List α) :
    List.Forall₂ R (l.filterMap fun x => (o x).map (f x)) (l.filterMap fun x => (o x).map (g x)) ↔
      ∀ x ∈ l, ∀ b, o x = some b → R (f x b) (g x b) := by
  induction l with
  | nil => simp
  | cons x l ih =>
    rw [List.forall_mem_cons, ← ih]
    cases hx : o x with
    | none => simp [hx]
    | some b => simp [hx]

theorem reduceOption_flatMap_perm {R : α → Option β → Prop} {f : α → List γ} {g : β → List γ}
    {as : List α} {outs : List (Option β)} (hR : List.Forall₂ R as outs)
    (hrows : ∀ a o, a ∈ as → R a o → (o.toList.flatMap g).Perm (f a)) :
    (outs.reduceOption.flatMap g).Perm (as.flatMap f) := by
  induction hR with
  | nil => exact List.Perm.refl _
  | @cons a o as outs hao hrest ih =>
    have ih := ih fun a o ha => hrows a o (List.mem_cons_of_mem _ ha)
    have ho := hrows a o (List.mem_cons_self ..) hao
    rw [List.flatMap_cons]
    cases o with
    | none =>
      rw [List.reduceOption_cons_of_none]
      exact ih.trans (by simpa using ho.append_right (as.flatMap f))
    | some b =>
      rw [List.reduceOption_cons_of_some, List.flatMap_cons]
      exact List.Perm.append (by simpa using ho) ih

theorem zip_append_left (a b : List α) (l : List β) :
    (a ++ b).zip l = a.zip l ++ b.zip (l.drop a.length) := by
  induction a generalizing l with
  | nil => rfl
  | cons x a ih =>
    cases l with
    | nil => simp
    | cons y l => simp [ih]

theorem forall₂_congr_mem {R S : α → β → Prop} {m : List β}
    (h : ∀ a ∈ l, ∀ b ∈ m, (R a b ↔ S a b)) : List.Forall₂ R l m ↔ List.Forall₂ S l m := by
  rw [List.forall₂_iff_zip, List.forall₂_iff_zip]
  refine and_congr_right fun _ => ?_
  constructor
  · intro hR a b hmem
    exact (h a (List.of_mem_zip hmem).1 b (List.of_mem_zip hmem).2).mp (hR hmem)
  · intro hS a b hmem
    exact (h a (List.of_mem_zip hmem).1 b (List.of_mem_zip hmem).2).mpr (hS hmem)

theorem forall_of_forall₂ {R : α → β → Prop} {P : α → Prop} {m : List β}
    (h : List.Forall₂ R l m) (hP : ∀ a, ∀ b ∈ m, R a b → P a) : ∀ a ∈ l, P a := by
  induction h with
  | nil => nofun
  | cons hab _ ih =>
    rw [List.forall_mem_cons]
    exact ⟨hP _ _ List.mem_cons_self hab, ih fun a b hb => hP a b (List.mem_cons_of_mem _ hb)⟩

theorem forall₂_append_right {R : α → β → Prop} {m n : List β} :
    List.Forall₂ R l (m ++ n) ↔ ∃ a b, l = a ++ b ∧ List.Forall₂ R a m ∧ List.Forall₂ R b n := by
  constructor
  · intro h
    exact ⟨l.take m.length, l.drop m.length, (List.take_append_drop _ _).symm, List.forall₂_take_append l m n h,
      List.forall₂_drop_append l m n h⟩
  · rintro ⟨a, b, rfl, ha, hb⟩
    exact List.rel_append ha hb

/-! ## Functions without a result for every item -/

section Fallible
variable {f : α → Option β} {l : List α} {r : List β}

theorem mapM_forall₂ : ∀ {l : List α} {r : List β}, l.mapM f = some r → List.Forall₂ (fun a b => f a = some b) l r
  | [], r, h => by
    cases h
    exact .nil
  | x :: l, r, h => by
    simp only [List.mapM_cons, Option.bind_eq_bind, Option.bind_eq_some_iff, Option.pure_def, Option.some.injEq] at h
    obtain ⟨y, hy, r', hr, rfl⟩ := h
    exact .cons hy (mapM_forall₂ hr)

theorem mapM_forall {P : β → Prop} (hP : ∀ a b, f a = some b → P b) (h : l.mapM f = some r) : ∀ b ∈ r, P b := by
  intro b hb
  obtain ⟨a, -, ha⟩ := exists_of_mem_right (mapM_forall₂ h) hb
  exact hP a b ha

theorem mapM_eq_map (d : β) (h : l.mapM f = some r) :
    r = l.map (fun x => (f x).getD d) ∧ ∀ x ∈ l, f x = some ((f x).getD d) := by
  have hall := mapM_forall₂ h
  clear h
  induction hall with
  | nil => exact ⟨rfl, List.forall_mem_nil _⟩
  | cons hx _ ih =>
    obtain ⟨rfl, hrest⟩ := ih
    rw [List.forall_mem_cons, List.map_cons, hx, Option.getD_some]
    exact ⟨rfl, rfl, hrest⟩

theorem mapM_eq_some_map {g : α → β} : ∀ {l : List α}, l.mapM f = some (l.map g) ↔ ∀ x ∈ l, f x = some (g x)
  | [] => by simp
  | x :: l => by
    rw [List.mapM_cons, List.forall_mem_cons, ← mapM_eq_some_map (l := l)]
    cases hx : f x with
    | none => simp
    | some y =>
      cases hl : l.mapM f with
      | none => simp
      | some ys => simp

end Fallible

/-- What holds of the items done and the state is kept by each item, so holds at the end. -/
theorem foldlM_done {P : List α → σ → Prop} {f : σ → α → Option σ}
    (hstep : ∀ {items s a s'}, P items s → f s a = some s' → P (items ++ [a]) s') {l : List α} {s s' : σ}
    (hs : P [] s) (h : l.foldlM f s = some s') : P l s' := by
  suffices hrun : ∀ {l items : List α} {s : σ}, P items s → l.foldlM f s = some s' → P (items ++ l) s' from hrun hs h
  intro l
  induction l with
  | nil =>
    intro items s hs h
    cases h
    rw [List.append_nil]
    exact hs
  | cons a l ih =>
    intro items s hs h
    rw [List.foldlM_cons, Option.bind_eq_bind, Option.bind_eq_some_iff] at h
    obtain ⟨s₁, h₁, h₂⟩ := h
    rw [List.append_cons]
    exact ih (hstep hs h₁) h₂

theorem filterMap_map_sublist {f : α → Option β} {g : β → α} (hfg : ∀ a b, f a = some b → g b = a)
    (l : List α) : ((l.filterMap f).map g).Sublist l := by
  induction l with
  | nil => exact List.Sublist.refl _
  | cons a l ih =>
    cases hf : f a with
    | none => simpa [hf] using ih.cons a
    | some b => simpa [hf, hfg a b hf] using ih

/-! ## Lists of lists -/

theorem flatten_map_singleton (items : List α) : (items.map ([·])).flatten = items := List.flatMap_singleton' items

theorem length_flatten_le {rows : List (List α)} (h : ∀ r ∈ rows, r.length ≤ 1) :
    rows.flatten.length ≤ rows.length := by
  rw [List.length_flatten]
  simpa using List.sum_le_card_nsmul (rows.map List.length) 1 (by simpa using h)

theorem flatten_eq_iff : ∀ {rows : List (List α)} {items : List α}, (∀ r ∈ rows, r.length ≤ 1) →
    rows.length = items.length → (rows.flatten = items ↔ rows = items.map ([·]))
  | [], [], _, _ => by simp
  | [], _ :: _, _, h => by cases h
  | _ :: _, [], _, h => by cases h
  | [] :: rows, x :: items, hle, hlen => by
    refine iff_of_false ?_ (by simp)
    intro h
    have hshort := length_flatten_le (List.forall_mem_cons.mp hle).2
    have hlong := congrArg List.length h
    rw [List.flatten_cons, List.nil_append, List.length_cons] at hlong
    rw [List.length_cons, List.length_cons] at hlen
    omega
  | [y] :: rows, x :: items, hle, hlen => by
    rw [List.flatten_cons, List.singleton_append, List.map_cons, List.cons.injEq, List.cons.injEq,
      flatten_eq_iff (List.forall_mem_cons.mp hle).2 (Nat.succ.inj hlen)]
    simp
  | (_ :: _ :: _) :: rows, _ :: _, hle, _ => by
    have := (List.forall_mem_cons.mp hle).1
    rw [List.length_cons, List.length_cons] at this
    omega

theorem flatMap_filter (p : α → Bool) (f : α → List β) (l : List α) :
    (l.filter p).flatMap f = l.flatMap fun a => if p a then f a else [] := by
  induction l with
  | nil => rfl
  | cons a l ih => cases h : p a <;> simp [h, ih]

theorem flatMap_filter_eq {q : α → Bool} {r : β → Bool} {f : α → List β} {l : List α}
    (hr : ∀ a ∈ l, ∀ b ∈ f a, r b = q a) : (l.filter q).flatMap f = (l.flatMap f).filter r := by
  rw [flatMap_filter, List.filter_flatMap]
  refine List.flatMap_congr fun a ha => ?_
  cases hq : q a with
  | true => exact (List.filter_eq_self.mpr fun b hb => (hr a ha b hb).trans hq).symm
  | false => exact (List.filter_eq_nil_iff.mpr fun b hb => by simp [hr a ha b hb, hq]).symm

theorem filter_map_ite {live : α → Bool} {P : α → Prop} [DecidablePred P] {close : α → α}
    (hclose : ∀ a, live (close a) = false) (l : List α) :
    (l.map fun a => if P a then close a else a).filter live =
      (l.filter live).filter fun a => !decide (P a) := by
  induction l with
  | nil => rfl
  | cons a l ih =>
    rw [List.map_cons, List.filter_cons, List.filter_cons, ih]
    by_cases hp : P a
    · simp only [if_pos hp, hclose]
      cases live a <;> simp [hp]
    · simp only [if_neg hp]
      cases live a <;> simp [hp]

/-- The items of each key, key by key, are the items. -/
theorem perm_flatMap_filter {κ : Type} [DecidableEq κ] (key : α → κ) :
    ∀ (ks : List κ), ks.Nodup → ∀ (l : List α), (∀ x ∈ l, key x ∈ ks) →
      (ks.flatMap fun k => l.filter fun x => decide (key x = k)).Perm l
  | [], _, l, hl => by
    cases l with
    | nil => exact .refl _
    | cons x l => exact absurd (hl x (by simp)) List.not_mem_nil
  | k :: ks, hnodup, l, hl => by
    rw [List.nodup_cons] at hnodup
    have hrest : ∀ x ∈ l.filter (fun x => !decide (key x = k)), key x ∈ ks := by
      intro x hx
      obtain ⟨hx, hne⟩ := List.mem_filter.mp hx
      exact (List.mem_cons.mp (hl x hx)).resolve_left (by simpa using hne)
    have hsame : (ks.flatMap fun k' => l.filter fun x => decide (key x = k')) =
        ks.flatMap fun k' => (l.filter fun x => !decide (key x = k)).filter fun x => decide (key x = k') := by
      refine List.flatMap_congr fun k' hk' => ?_
      rw [List.filter_filter]
      refine List.filter_congr fun x _ => ?_
      have hne : k' ≠ k := fun h => hnodup.1 (h ▸ hk')
      by_cases hx : key x = k'
      · simp [hx, hne]
      · simp [hx]
    rw [List.flatMap_cons, hsame]
    exact ((perm_flatMap_filter key ks hnodup.2 _ hrest).append_left _).trans
      (List.filter_append_perm _ l)

/-! ## Around one item -/

theorem modify_append_cons (before rest : List α) (x : α) (f : α → α) :
    (before ++ x :: rest).modify before.length f = before ++ f x :: rest := by
  induction before with
  | nil => rfl
  | cons y before ih => rw [List.cons_append, List.length_cons, List.modify_succ_cons, ih, List.cons_append]

theorem pairwise_replace {R : α → α → Prop} {before after : List α} {a b : α} (hl : ∀ x, R x a → R x b)
    (hr : ∀ x, R a x → R b x) (h : (before ++ a :: after).Pairwise R) : (before ++ b :: after).Pairwise R := by
  rw [List.pairwise_append, List.pairwise_cons] at h ⊢
  obtain ⟨hbefore, ⟨hafter, hrest⟩, hcross⟩ := h
  refine ⟨hbefore, ⟨fun x hx => hr x (hafter x hx), hrest⟩, fun x hx y hy => ?_⟩
  rcases List.mem_cons.mp hy with rfl | hy
  · exact hl x (hcross x hx a (by simp))
  · exact hcross x hx y (by simp [hy])

theorem eq_of_append_cons {c : α} : ∀ {a b x y : List α}, c ∉ a → c ∉ b → a ++ c :: x = b ++ c :: y →
    a = b ∧ x = y
  | [], [], x, y, _, _, h => ⟨rfl, (List.cons.inj h).2⟩
  | [], d :: b, x, y, _, hb, h => absurd ((List.cons.inj h).1 ▸ List.mem_cons_self) hb
  | d :: a, [], x, y, ha, _, h => absurd ((List.cons.inj h).1 ▸ List.mem_cons_self) ha
  | d :: a, e :: b, x, y, ha, hb, h => by
    obtain ⟨rfl, hrest⟩ := List.cons.inj h
    obtain ⟨rfl, rfl⟩ := eq_of_append_cons (List.not_mem_of_not_mem_cons ha) (List.not_mem_of_not_mem_cons hb) hrest
    exact ⟨rfl, rfl⟩

theorem exists_set {l : List α} {i : Nat} {x : α} (h : l[i]? = some x) :
    ∃ before after, l = before ++ x :: after ∧ ∀ y, l.set i y = before ++ y :: after := by
  induction l generalizing i with
  | nil => simp at h
  | cons z l ih =>
    cases i with
    | zero =>
      rw [List.getElem?_cons_zero, Option.some.injEq] at h
      exact ⟨[], l, by rw [h]; rfl, fun y => rfl⟩
    | succ i =>
      obtain ⟨before, after, hl, hset⟩ := ih h
      exact ⟨z :: before, after, by rw [hl]; rfl, fun y => by rw [List.set_cons_succ, hset]; rfl⟩

/-- The first element found in a descending list is no smaller than any that could be. -/
theorem exists_find?_of_descending [Preorder α] {l : List α} {p : α → Bool} {x : α} (hl : l.Pairwise (· ≥ ·))
    (hx : x ∈ l) (hp : p x = true) : ∃ m, l.find? p = some m ∧ x ≤ m := by
  induction l with
  | nil => cases hx
  | cons a l ih =>
    obtain ⟨ha, hl⟩ := List.pairwise_cons.mp hl
    by_cases hpa : p a = true
    · refine ⟨a, List.find?_cons_of_pos hpa, ?_⟩
      rcases List.mem_cons.mp hx with rfl | hx
      · exact le_rfl
      · exact ha x hx
    · rw [List.find?_cons_of_neg hpa]
      rcases List.mem_cons.mp hx with rfl | hx
      · exact absurd hp hpa
      · exact ih hl hx

/-! ## Sums, counts and greatest items -/

theorem sum_eq_sum_iff {f g : α → Nat} {l : List α} (h : ∀ x ∈ l, f x ≤ g x) :
    (l.map f).sum ≤ (l.map g).sum ∧ ((l.map f).sum = (l.map g).sum ↔ ∀ x ∈ l, f x = g x) := by
  induction l with
  | nil => simp
  | cons x l ih =>
    obtain ⟨hle, hiff⟩ := ih fun y hy => h y (List.mem_cons_of_mem _ hy)
    have hx := h x List.mem_cons_self
    simp only [List.map_cons, List.sum_cons, List.forall_mem_cons]
    rw [← hiff]
    omega

/-- Of two properties that exclude each other. -/
theorem countP_neither {p q : α → Bool} {l : List α} (h : ∀ a ∈ l, p a = true → q a = false) :
    l.countP (fun a => !p a && !q a) + l.countP p + l.countP q = l.length := by
  induction l with
  | nil => rfl
  | cons a l ih =>
    rw [List.forall_mem_cons] at h
    have hrest := ih h.2
    rw [List.countP_cons, List.countP_cons, List.countP_cons, List.length_cons]
    cases hp : p a with
    | true =>
      rw [h.1 hp]
      simp
      omega
    | false => cases q a <;> simp <;> omega

theorem foldl_max_le [LinearOrder α] {l : List α} {a m : α} : l.foldl max a ≤ m ↔ a ≤ m ∧ ∀ x ∈ l, x ≤ m := by
  induction l generalizing a with
  | nil => simp
  | cons x l ih => rw [List.foldl_cons, ih, max_le_iff, List.forall_mem_cons, and_assoc]

theorem foldr_max_append (l : List Nat) (n : Nat) : (l ++ [n]).foldr max 0 = max (l.foldr max 0) n := by
  rw [List.foldr_append, List.foldr_cons, List.foldr_nil, max_comm n 0, List.foldr_assoc]

end Lists
