import Mathlib.Data.List.Forall2
import Mathlib.Data.List.Nodup
import Mathlib.Data.List.Perm.Subperm
import Mathlib.Logic.Relation

/- Ordered forests, and a forest kept as a flat list of rows that name their parents.

   A forest is its first root with that root's children, and the trees after it
   (`Forest`). `nodes` lists it depth first. Rows have a key and may name the key of a
   parent: `Linked` says of a forest that the children of every node are the rows that
   name it, in their order, and `Parented` that the rows of a forest name the nodes above
   them. A forest of rows can be told from any list with the same siblings
   (`linked_of_parented`), and a linked forest has no row twice (`nodup_nodes`). -/

namespace DuckLake

inductive Forest (α : Type) where
  | nil
  | cons (root : α) (children rest : Forest α)
  deriving DecidableEq, Repr

namespace Forest

variable {α β κ : Type}

/-- Depth first. -/
def nodes : Forest α → List α
  | nil => []
  | cons v c r => v :: (c.nodes ++ r.nodes)

def roots : Forest α → List α
  | nil => []
  | cons v _ r => v :: r.roots

/-- The length of the longest way down. -/
def levels : Forest α → Nat
  | nil => 0
  | cons _ c r => max (c.levels + 1) r.levels

/-! ## Places in the list -/

/-- A value with its place in a list and the place of its parent. -/
structure Placed (α : Type) where
  value : α
  index : Nat
  parent : Option Nat

/-- The places of a forest whose nodes are listed depth first from `start` on. -/
def place (parent : Option Nat) (start : Nat) : Forest α → Forest (Placed α)
  | nil => nil
  | cons v c r => cons ⟨v, start, parent⟩ (c.place (some start) (start + 1))
      (r.place parent (start + 1 + c.nodes.length))

theorem index_place (F : Forest α) : ∀ (parent : Option Nat) (start : Nat),
    (F.place parent start).nodes.map Placed.index = List.range' start F.nodes.length := by
  induction F with
  | nil => exact fun _ _ => rfl
  | cons v c r ihc ihr =>
    intro parent start
    rw [place, nodes, List.map_cons, List.map_append, ihc, ihr, nodes, List.length_cons, List.length_append,
      List.range'_succ, List.range'_append_1]

theorem value_place (F : Forest α) : ∀ (parent : Option Nat) (start : Nat),
    (F.place parent start).nodes.map Placed.value = F.nodes := by
  induction F with
  | nil => exact fun _ _ => rfl
  | cons v c r ihc ihr =>
    intro parent start
    rw [place, nodes, List.map_cons, List.map_append, ihc, ihr, nodes]

theorem length_place (F : Forest α) (parent : Option Nat) (start : Nat) :
    (F.place parent start).nodes.length = F.nodes.length := by
  rw [← value_place F parent start, List.length_map]

/-! ## Forests of one shape -/

inductive Rel (R : α → β → Prop) : Forest α → Forest β → Prop where
  | nil : Rel R nil nil
  | cons {a : α} {b : β} {c r : Forest α} {d s : Forest β} (root : R a b) (children : Rel R c d) (rest : Rel R r s) :
    Rel R (cons a c r) (cons b d s)

variable {R : α → β → Prop}

theorem forall₂_append_left {a b : List α} :
    ∀ {l : List β}, List.Forall₂ R (a ++ b) l → ∃ c d, List.Forall₂ R a c ∧ List.Forall₂ R b d ∧ l = c ++ d := by
  induction a with
  | nil => exact fun {l} h => ⟨[], l, .nil, h, rfl⟩
  | cons x a ih =>
    intro l h
    obtain ⟨y, l, hy, hl, rfl⟩ := List.forall₂_cons_left_iff.mp h
    obtain ⟨c, d, hc, hd, rfl⟩ := ih hl
    exact ⟨y :: c, d, .cons hy hc, hd, rfl⟩

/-- A list that goes with the nodes of a forest lists a forest of that shape. -/
theorem exists_rel (F : Forest α) :
    ∀ {l : List β}, List.Forall₂ R F.nodes l → ∃ G : Forest β, G.nodes = l ∧ Rel R F G := by
  induction F with
  | nil =>
    intro l h
    cases h
    exact ⟨nil, rfl, .nil⟩
  | cons v c r ihc ihr =>
    intro l h
    obtain ⟨b, l, hb, hl, rfl⟩ := List.forall₂_cons_left_iff.mp h
    obtain ⟨d, s, hd, hs, rfl⟩ := forall₂_append_left hl
    obtain ⟨G, rfl, hG⟩ := ihc hd
    obtain ⟨H, rfl, hH⟩ := ihr hs
    exact ⟨cons b G H, rfl, .cons hb hG hH⟩

theorem Rel.length_eq {F : Forest α} {G : Forest β} (h : Rel R F G) : F.nodes.length = G.nodes.length := by
  induction h with
  | nil => rfl
  | cons _ _ _ ihc ihr =>
    rw [nodes, nodes, List.length_cons, List.length_cons, List.length_append,
      List.length_append, ihc, ihr]

theorem Rel.levels_eq {F : Forest α} {G : Forest β} (h : Rel R F G) : F.levels = G.levels := by
  induction h with
  | nil => rfl
  | cons _ _ _ ihc ihr => rw [levels, levels, ihc, ihr]

theorem levels_place (F : Forest α) :
    ∀ (parent : Option Nat) (start : Nat), (F.place parent start).levels = F.levels := by
  induction F with
  | nil => exact fun _ _ => rfl
  | cons v c r ihc ihr =>
    intro parent start
    rw [place, levels, ihc, ihr, levels]

/-! ## Rows that name their parents -/

section Rows

variable (key : α → κ) (parent : α → Option κ)

/-- The rows of a forest name the nodes above them. -/
def Parented (p : Option κ) : Forest α → Prop
  | nil => True
  | cons v c r => parent v = p ∧ c.Parented (some (key v)) ∧ r.Parented p

variable {key parent} in
theorem parent_of_mem {F : Forest α} : ∀ {p : Option κ}, F.Parented key parent p → ∀ {x : α}, x ∈ F.nodes →
    parent x = p ∨ ∃ y ∈ F.nodes, parent x = some (key y) := by
  induction F with
  | nil => exact fun _ _ hx => nomatch hx
  | cons v c r ihc ihr =>
    intro p h x hx
    obtain ⟨hv, hc, hr⟩ := h
    rcases List.mem_cons.mp hx with rfl | hx
    · exact .inl hv
    rcases List.mem_append.mp hx with hx | hx
    · rcases ihc hc hx with hp | ⟨y, hy, hp⟩
      · exact .inr ⟨v, List.mem_cons_self, hp⟩
      · exact .inr ⟨y, List.mem_cons_of_mem _ (List.mem_append_left _ hy), hp⟩
    · rcases ihr hr hx with hp | ⟨y, hy, hp⟩
      · exact .inl hp
      · exact .inr ⟨y, List.mem_cons_of_mem _ (List.mem_append_right _ hy), hp⟩

/-- The rows with a parent, in their order. -/
def siblings [DecidableEq κ] (rows : List α) (p : Option κ) : List α := rows.filter (parent · = p)

/-- The children of every node are the rows that name it. -/
def Linked [DecidableEq κ] (rows : List α) : Forest α → Prop
  | nil => True
  | cons v c r => siblings parent rows (some (key v)) = c.roots ∧ c.Linked rows ∧ r.Linked rows

section Siblings

variable {key parent} [DecidableEq κ]

variable {p : Option κ} {F : Forest α} {rows : List α}

theorem mem_siblings {x : α} : x ∈ siblings parent rows p ↔ x ∈ rows ∧ parent x = p := by
  rw [siblings, List.mem_filter, decide_eq_true_iff]

theorem siblings_append (l m : List α) (p : Option κ) :
    siblings parent (l ++ m) p = siblings parent l p ++ siblings parent m p := List.filter_append ..

theorem siblings_cons_of_ne {v : α} (h : parent v ≠ p) (rows : List α) :
    siblings parent (v :: rows) p = siblings parent rows p := List.filter_cons_of_neg (by simpa using h)

theorem siblings_cons_self {v : α} (h : parent v = p) (rows : List α) :
    siblings parent (v :: rows) p = v :: siblings parent rows p := List.filter_cons_of_pos (by simpa using h)

theorem siblings_eq_nil {p q : Option κ} (h : F.Parented key parent p) (hne : p ≠ q)
    (hq : ∀ y ∈ F.nodes, some (key y) ≠ q) : siblings parent F.nodes q = [] := by
  refine List.filter_eq_nil_iff.mpr fun x hx => ?_
  rw [decide_eq_true_iff]
  rcases parent_of_mem h hx with hp | ⟨y, hy, hp⟩
  · rw [hp]
    exact hne
  · rw [hp]
    exact hq y hy

/-- The rows that name what no row of the forest is are its roots. -/
theorem siblings_nodes (h : F.Parented key parent p) (hp : ∀ y ∈ F.nodes, some (key y) ≠ p) :
    siblings parent F.nodes p = F.roots := by
  induction F with
  | nil => rfl
  | cons v c r _ ihr =>
    obtain ⟨hv, hc, hr⟩ := h
    have hchildren : siblings parent c.nodes p = [] :=
      siblings_eq_nil hc (hp v List.mem_cons_self) fun y hy => hp y (List.mem_cons_of_mem _ (List.mem_append_left _ hy))
    rw [nodes, siblings_cons_self hv, siblings_append, hchildren, List.nil_append, roots,
      ihr hr fun y hy => hp y (List.mem_cons_of_mem _ (List.mem_append_right _ hy))]

/-- A forest of rows with distinct keys is linked by every list with the same siblings. -/
theorem linked_of_parented : ∀ {p : Option κ}, F.Parented key parent p →
    (F.nodes.map key).Nodup → (∀ y ∈ F.nodes, some (key y) ≠ p) →
    (∀ y ∈ F.nodes, siblings parent rows (some (key y)) = siblings parent F.nodes (some (key y))) →
    F.Linked key parent rows := by
  induction F with
  | nil => exact fun _ _ _ _ => trivial
  | cons v c r ihc ihr =>
    intro p h hkeys hp hrows
    obtain ⟨hv, hc, hr⟩ := h
    obtain ⟨hhead, htail⟩ := List.nodup_cons.mp hkeys
    rw [List.map_append] at hhead htail
    obtain ⟨hckeys, hrkeys, hdisjoint⟩ := List.nodup_append.mp htail
    -- no row beside a child is named by it, and no child by a row beside it
    have hvc : ∀ y ∈ c.nodes, some (key y) ≠ some (key v) := by
      intro y hy heq
      exact hhead (List.mem_append_left _ (Option.some.inj heq ▸ List.mem_map_of_mem hy))
    have hvr : ∀ y ∈ r.nodes, some (key y) ≠ some (key v) := by
      intro y hy heq
      exact hhead (List.mem_append_right _ (Option.some.inj heq ▸ List.mem_map_of_mem hy))
    have hcr : ∀ y ∈ c.nodes, ∀ z ∈ r.nodes, some (key z) ≠ some (key y) := by
      intro y hy z hz heq
      exact hdisjoint _ (List.mem_map_of_mem hy) _ (List.mem_map_of_mem hz) (Option.some.inj heq).symm
    have hpc : ∀ y ∈ c.nodes, p ≠ some (key y) :=
      fun y hy => (hp y (List.mem_cons_of_mem _ (List.mem_append_left _ hy))).symm
    have hpr : ∀ y ∈ r.nodes, p ≠ some (key y) :=
      fun y hy => (hp y (List.mem_cons_of_mem _ (List.mem_append_right _ hy))).symm
    have hpv : p ≠ some (key v) := (hp v List.mem_cons_self).symm
    refine ⟨?_, ihc hc hckeys hvc ?_, ihr hr hrkeys (fun y hy => (hpr y hy).symm) ?_⟩
    · rw [hrows v List.mem_cons_self, nodes, siblings_cons_of_ne (hv ▸ hpv), siblings_append, siblings_nodes hc hvc,
        siblings_eq_nil hr hpv hvr, List.append_nil]
    · intro y hy
      rw [hrows y (List.mem_cons_of_mem _ (List.mem_append_left _ hy)), nodes, siblings_cons_of_ne (hv ▸ hpc y hy),
        siblings_append, siblings_eq_nil hr (hpc y hy) (hcr y hy), List.append_nil]
    · intro y hy
      rw [hrows y (List.mem_cons_of_mem _ (List.mem_append_right _ hy)), nodes, siblings_cons_of_ne (hv ▸ hpr y hy),
        siblings_append, siblings_eq_nil hc (hvr y hy).symm fun z hz => (hcr z hz y hy).symm, List.nil_append]

theorem mem_rows_of_linked (h : F.Linked key parent rows) (hroots : ∀ x ∈ F.roots, x ∈ rows) :
    ∀ x ∈ F.nodes, x ∈ rows := by
  induction F with
  | nil => exact fun _ hx => nomatch hx
  | cons v c r ihc ihr =>
    obtain ⟨hv, hc, hr⟩ := h
    intro x hx
    rcases List.mem_cons.mp hx with rfl | hx
    · exact hroots x List.mem_cons_self
    rcases List.mem_append.mp hx with hx | hx
    · exact ihc hc (fun y hy => (mem_siblings.mp (hv ▸ hy)).1) x hx
    · exact ihr hr (fun y hy => hroots y (List.mem_cons_of_mem _ hy)) x hx

end Siblings

/-! ## No row stands twice -/

variable {rows : List α}

variable (rows) in
/-- A row and the row it names. -/
def Up (x y : α) : Prop := y ∈ rows ∧ parent x = some (key y)

variable (rows) in
/-- How far a row is from a row that names none. -/
inductive Level : Nat → α → Prop where
  | root {x : α} (h : parent x = none) : Level 0 x
  | child {n : Nat} {x y : α} (h : Up key parent rows x y) (hy : Level n y) : Level (n + 1) x

variable {key parent} (hkeys : (rows.map key).Nodup)

include hkeys

theorem up_unique {x y z : α} (hy : Up key parent rows x y) (hz : Up key parent rows x z) : y = z :=
  List.inj_on_of_nodup_map hkeys hy.1 hz.1 (Option.some.inj (hy.2.symm.trans hz.2))

theorem level_unique {n m : Nat} {x : α} (hn : Level key parent rows n x) (hm : Level key parent rows m x) : n = m := by
  induction hn generalizing m with
  | root hx =>
    cases hm with
    | root => rfl
    | child h => exact nomatch hx.symm.trans h.2
  | child h _ ih =>
    cases hm with
    | root hx => exact nomatch hx.symm.trans h.2
    | child h' hy' => rw [ih (up_unique hkeys h h' ▸ hy')]

omit hkeys in
theorem level_of_up {n : Nat} {x y : α} (hup : Relation.ReflTransGen (Up key parent rows) x y)
    (hy : Level key parent rows n y) : x = y ∨ ∃ m, n < m ∧ Level key parent rows m x := by
  induction hup using Relation.ReflTransGen.head_induction_on with
  | refl => exact .inl rfl
  | head hstep _ ih =>
    rcases ih with rfl | ⟨m, hm, hlevel⟩
    · exact .inr ⟨n + 1, n.lt_succ_self, .child hstep hy⟩
    · exact .inr ⟨m + 1, Nat.lt_succ_of_lt hm, .child hstep hlevel⟩

theorem above_unique {n : Nat} {x y z : α} (hy : Relation.ReflTransGen (Up key parent rows) x y)
    (hz : Relation.ReflTransGen (Up key parent rows) x z) (hny : Level key parent rows n y)
    (hnz : Level key parent rows n z) : y = z := by
  have hunique : Relator.RightUnique (Up key parent rows) := fun _ _ _ h h' => up_unique hkeys h h'
  rcases Relation.ReflTransGen.total_of_right_unique hunique hy hz with h | h
  · rcases level_of_up h hnz with heq | ⟨m, hm, hlevel⟩
    · exact heq
    · exact absurd (level_unique hkeys hny hlevel) (Nat.ne_of_lt hm)
  · rcases level_of_up h hny with heq | ⟨m, hm, hlevel⟩
    · exact heq.symm
    · exact absurd (level_unique hkeys hnz hlevel) (Nat.ne_of_lt hm)

variable [DecidableEq κ]

omit hkeys in
theorem above_of_mem {F : Forest α} (h : F.Linked key parent rows) (hroots : ∀ x ∈ F.roots, x ∈ rows) {x : α}
    (hx : x ∈ F.nodes) : ∃ y ∈ F.roots, Relation.ReflTransGen (Up key parent rows) x y := by
  induction F generalizing x with
  | nil => exact nomatch hx
  | cons v c r ihc ihr =>
    obtain ⟨hv, hc, hr⟩ := h
    rcases List.mem_cons.mp hx with rfl | hx
    · exact ⟨x, List.mem_cons_self, .refl⟩
    rcases List.mem_append.mp hx with hx | hx
    · obtain ⟨y, hy, hup⟩ := ihc hc (fun y hy => (mem_siblings.mp (hv ▸ hy)).1) hx
      have hstep : Up key parent rows y v := ⟨hroots v List.mem_cons_self, (mem_siblings.mp (hv ▸ hy)).2⟩
      exact ⟨v, List.mem_cons_self, hup.tail hstep⟩
    · obtain ⟨y, hy, hup⟩ := ihr hr (fun y hy => hroots y (List.mem_cons_of_mem _ hy)) hx
      exact ⟨y, List.mem_cons_of_mem _ hy, hup⟩

theorem nodup_nodes {F : Forest α} : ∀ {n : Nat}, F.Linked key parent rows → (∀ x ∈ F.roots, x ∈ rows) →
    F.roots.Nodup → (∀ x ∈ F.roots, Level key parent rows n x) → F.nodes.Nodup := by
  induction F with
  | nil => exact fun _ _ _ _ => List.nodup_nil
  | cons v c r ihc ihr =>
    intro n h hroots hnodup hlevel
    obtain ⟨hv, hc, hr⟩ := h
    have hvrows : v ∈ rows := hroots v List.mem_cons_self
    have hvlevel : Level key parent rows n v := hlevel v List.mem_cons_self
    obtain ⟨hvr, hrnodup⟩ := List.nodup_cons.mp hnodup
    have hcroots : ∀ x ∈ c.roots, x ∈ rows := fun x hx => (mem_siblings.mp (hv ▸ hx)).1
    have hup : ∀ x ∈ c.roots, Up key parent rows x v := fun x hx => ⟨hvrows, (mem_siblings.mp (hv ▸ hx)).2⟩
    have hrroots : ∀ x ∈ r.roots, x ∈ rows := fun x hx => hroots x (List.mem_cons_of_mem _ hx)
    have hclevel : ∀ x ∈ c.roots, Level key parent rows (n + 1) x := fun x hx => .child (hup x hx) hvlevel
    have hrlevel : ∀ x ∈ r.roots, Level key parent rows n x := fun x hx => hlevel x (List.mem_cons_of_mem _ hx)
    -- the row of this level above a node of `c` is `v`, above a node of `r` a root of `r`
    have habove : ∀ x ∈ c.nodes, Relation.TransGen (Up key parent rows) x v := by
      intro x hx
      obtain ⟨y, hy, hxy⟩ := above_of_mem hc hcroots hx
      exact Relation.TransGen.tail' hxy (hup y hy)
    have hcnodup : c.roots.Nodup := hv ▸ (List.Nodup.of_map key hkeys).filter _
    refine List.nodup_cons.mpr ⟨?_, List.nodup_append.mpr ⟨ihc hc hcroots hcnodup hclevel,
      ihr hr hrroots hrnodup hrlevel, ?_⟩⟩
    · intro hmem
      rcases List.mem_append.mp hmem with hmem | hmem
      · obtain ⟨y, hy, hvy⟩ := above_of_mem hc hcroots hmem
        rcases level_of_up hvy (hclevel y hy) with rfl | ⟨m, hm, hm'⟩
        · exact absurd (level_unique hkeys hvlevel (hclevel v hy)) (Nat.succ_ne_self n).symm
        · exact absurd (level_unique hkeys hvlevel hm') (by omega)
      · obtain ⟨y, hy, hvy⟩ := above_of_mem hr hrroots hmem
        exact hvr (above_unique hkeys .refl hvy hvlevel (hrlevel y hy) ▸ hy)
    · intro x hx z hz hxz
      obtain ⟨y, hy, hxy⟩ := above_of_mem hr hrroots (hxz ▸ hz)
      exact hvr (above_unique hkeys (habove x hx).to_reflTransGen hxy hvlevel (hrlevel y hy) ▸ hy)

/-- A linked forest of as many nodes as there are rows has every row once. -/
theorem perm_nodes {F : Forest α} (h : F.Linked key parent rows) (hroots : F.roots = siblings parent rows none)
    (hlength : F.nodes.length = rows.length) : F.nodes.Perm rows := by
  have hmem : ∀ x ∈ F.roots, x ∈ rows ∧ parent x = none := fun x hx => mem_siblings.mp (hroots ▸ hx)
  have hnodup : F.nodes.Nodup := nodup_nodes hkeys h (fun x hx => (hmem x hx).1)
    (hroots ▸ (List.Nodup.of_map key hkeys).filter _) fun x hx => Level.root (hmem x hx).2
  have hsub : F.nodes.Subperm rows := List.subperm_of_subset hnodup (mem_rows_of_linked h fun x hx => (hmem x hx).1)
  exact hsub.perm_of_length_le (Nat.le_of_eq hlength.symm)

end Rows

end Forest

end DuckLake
