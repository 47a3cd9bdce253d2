import DuckLake.Inlined.Engine

/- Filter trees: from the filters of the query through translation, renaming and
   rendering to the pushed condition. What one leaf does is a parameter here; the
   trees over sound leaves are sound, and the bound values are numbered in order
   whatever the leaves are. -/

namespace DuckLake.Inlined

open Kleene Prune

/-- The parts of a filter that are neither `AND` nor `OR`. -/
def Expr.leaves : Expr → List Expr
  | .binary l .and r => l.leaves ++ r.leaves
  | .binary l .or r => l.leaves ++ r.leaves
  | e => [e]

/-- Neither `AND` nor `OR`. -/
def Expr.IsLeaf (e : Expr) : Prop := (∀ l r, e ≠ .binary l .and r) ∧ ∀ l r, e ≠ .binary l .or r

theorem isLeaf_of_mem_leaves {e e' : Expr} (h : e' ∈ e.leaves) : e'.IsLeaf := by
  induction e using Expr.leaves.induct with
  | case1 l r ihl ihr =>
    rw [Expr.leaves, List.mem_append] at h
    exact h.elim ihl ihr
  | case2 l r ihl ihr =>
    rw [Expr.leaves, List.mem_append] at h
    exact h.elim ihl ihr
  | case3 e hand hor =>
    rw [Expr.leaves, List.mem_singleton] at h
    · subst h
      exact ⟨hand, hor⟩
    · exact hand
    · exact hor

theorem leaves_of_isLeaf {e : Expr} (h : e.IsLeaf) : e.leaves = [e] := by
  unfold Expr.leaves
  split
  · exact absurd rfl (h.1 _ _)
  · exact absurd rfl (h.2 _ _)
  · rfl

section Keeps
variable (P : InlinedFilter → Prop)

mutual
/-- The filter keeps a row, given which leaves do. -/
def Keeps : InlinedFilter → Prop
  | .and children => KeepsAll children
  | .or children => KeepsSome children
  | f => P f

def KeepsAll : List InlinedFilter → Prop
  | [] => True
  | f :: fs => Keeps f ∧ KeepsAll fs

def KeepsSome : List InlinedFilter → Prop
  | [] => False
  | f :: fs => Keeps f ∨ KeepsSome fs
end

theorem keepsAll_iff : ∀ {fs : List InlinedFilter}, KeepsAll P fs ↔ ∀ f ∈ fs, Keeps P f
  | [] => by simp [KeepsAll]
  | f :: fs => by simp [KeepsAll, @keepsAll_iff fs]

end Keeps

theorem keeps_andOf {P : InlinedFilter → Prop} {fs : List InlinedFilter} {f : InlinedFilter}
    (h : andOf fs = some f) (hk : ∀ g ∈ fs, Keeps P g) : Keeps P f := by
  unfold andOf at h
  split at h
  · cases h
  · cases h
    exact hk _ (List.mem_singleton_self _)
  · cases h
    rw [Keeps]
    exact (keepsAll_iff P).mpr hk

/-! ## Translation -/

section Translation
variable {fn : Functions} {row : Text → ScalarValue} {P : InlinedFilter → Prop}

theorem satisfied_and {l r : Expr} (h : (Expr.binary l .and r).Satisfied fn row) :
    l.Satisfied fn row ∧ r.Satisfied fn row := by
  simp only [Expr.Satisfied, Expr.eval, evalBinary] at h ⊢
  rcases hl : truth (l.eval fn row) with _ | _ | _ <;> rcases hr : truth (r.eval fn row) with _ | _ | _ <;>
    simp_all [Kleene.and, ofTruth, truth]

theorem satisfied_or {l r : Expr} (h : (Expr.binary l .or r).Satisfied fn row) :
    l.Satisfied fn row ∨ r.Satisfied fn row := by
  simp only [Expr.Satisfied, Expr.eval, evalBinary] at h ⊢
  rcases hl : truth (l.eval fn row) with _ | _ | _ <;> rcases hr : truth (r.eval fn row) with _ | _ | _ <;>
    simp_all [Kleene.or, ofTruth, truth]

theorem translateExpr_and (l r : Expr) : translateExpr (.binary l .and r) =
    andOf ((translateExpr l).toList ++ (translateExpr r).toList) := by
  rw [translateExpr]

theorem translateExpr_or (l r : Expr) : translateExpr (.binary l .or r) = (do
    let a ← translateExpr l
    let b ← translateExpr r
    return .or [a, b]) := by
  rw [translateExpr]

/-- A true filter translates to a filter that keeps the row, if the translations of
its true leaves do. -/
theorem translateExpr_keeps : ∀ (e : Expr) {f : InlinedFilter}, translateExpr e = some f →
    (∀ e' ∈ e.leaves, e'.Satisfied fn row → ∀ f', translateExpr e' = some f' → Keeps P f') →
    e.Satisfied fn row → Keeps P f := by
  intro e
  induction e using Expr.leaves.induct with
  | case1 l r ihl ihr =>
    intro f hf hleaves hsat
    obtain ⟨hl, hr⟩ := satisfied_and hsat
    rw [translateExpr_and] at hf
    simp only [Expr.leaves, List.mem_append] at hleaves
    refine keeps_andOf hf fun g hg => ?_
    rcases List.mem_append.mp hg with hg | hg
    · exact ihl (Option.mem_toList.mp hg) (fun e' he' => hleaves e' (.inl he')) hl
    · exact ihr (Option.mem_toList.mp hg) (fun e' he' => hleaves e' (.inr he')) hr
  | case2 l r ihl ihr =>
    intro f hf hleaves hsat
    rw [translateExpr_or] at hf
    simp only [Expr.leaves, List.mem_append] at hleaves
    obtain ⟨a, ha, b, hb, rfl⟩ : ∃ a, translateExpr l = some a ∧ ∃ b, translateExpr r = some b ∧ .or [a, b] = f := by
      simpa [Option.bind_eq_some_iff] using hf
    simp only [Keeps, KeepsSome, or_false]
    rcases satisfied_or hsat with hs | hs
    · exact .inl (ihl ha (fun e' he' => hleaves e' (.inl he')) hs)
    · exact .inr (ihr hb (fun e' he' => hleaves e' (.inr he')) hs)
  | case3 e hand hor =>
    intro f hf hleaves hsat
    refine hleaves e ?_ hsat f hf
    rw [leaves_of_isLeaf ⟨hand, hor⟩]
    exact List.mem_singleton_self _

end Translation

/-! ## Renaming -/

section Renaming
variable {rename : Text → Option Text} {P Q : InlinedFilter → Prop}

mutual
theorem renameColumns_keeps
    (h : ∀ f f', renameColumns rename f = some f' → (∀ fs, f ≠ .and fs) → (∀ fs, f ≠ .or fs) → P f → Keeps Q f') :
    ∀ (f : InlinedFilter) {f' : InlinedFilter}, renameColumns rename f = some f' → Keeps P f → Keeps Q f'
  | .and children, f', hf, hk => by
    rw [renameColumns] at hf
    rw [Keeps] at hk
    exact keeps_andOf hf (renameSome_keeps h children hk)
  | .or children, f', hf, hk => by
    rw [renameColumns] at hf
    rw [Keeps] at hk
    obtain ⟨fs, hfs, rfl⟩ := Option.map_eq_some_iff.mp hf
    rw [Keeps]
    exact renameEach_keeps h children hfs hk
  | .comparison _ _ _, _, hf, hk => h _ _ hf (by simp) (by simp) hk
  | .isNull _, _, hf, hk => h _ _ hf (by simp) (by simp) hk
  | .isNotNull _, _, hf, hk => h _ _ hf (by simp) (by simp) hk
  | .prefixed _ _, _, hf, hk => h _ _ hf (by simp) (by simp) hk

theorem renameSome_keeps
    (h : ∀ f f', renameColumns rename f = some f' → (∀ fs, f ≠ .and fs) → (∀ fs, f ≠ .or fs) → P f → Keeps Q f') :
    ∀ (fs : List InlinedFilter), KeepsAll P fs → ∀ g ∈ renameSome rename fs, Keeps Q g
  | [], _, g, hg => by simp [renameSome] at hg
  | f :: fs, hk, g, hg => by
    rw [renameSome] at hg
    rw [KeepsAll] at hk
    rcases List.mem_append.mp hg with hg | hg
    · exact renameColumns_keeps h f (Option.mem_toList.mp hg) hk.1
    · exact renameSome_keeps h fs hk.2 g hg

theorem renameEach_keeps
    (h : ∀ f f', renameColumns rename f = some f' → (∀ fs, f ≠ .and fs) → (∀ fs, f ≠ .or fs) → P f → Keeps Q f') :
    ∀ (fs : List InlinedFilter) {fs' : List InlinedFilter}, renameEach rename fs = some fs' → KeepsSome P fs →
      KeepsSome Q fs'
  | [], _, _, hk => by simp [KeepsSome] at hk
  | f :: fs, fs', hf, hk => by
    obtain ⟨g, hg, gs, hgs, rfl⟩ : ∃ g, renameColumns rename f = some g ∧
        ∃ gs, renameEach rename fs = some gs ∧ g :: gs = fs' := by
      simpa [renameEach, Option.bind_eq_some_iff] using hf
    rw [KeepsSome] at hk ⊢
    rcases hk with hk | hk
    · exact .inl (renameColumns_keeps h f hg hk)
    · exact .inr (renameEach_keeps h fs hgs hk)
end

end Renaming

/-! ## Rendering -/

section Rendering
variable {fmt : FloatSpelling} {dialect : InlinedSqlDialect} {fields : Text → Option DataType}
  {physicalTypes : Text → Option Text} {first : Nat}

theorem renderComparison_placeholders (column : Text) (op : InlinedComparison) (dataType : DataType)
    (physicalType : Text) (index : Nat) :
    (renderComparison dialect column op dataType physicalType index).placeholders = [index] := by
  unfold renderComparison textU64RangeOperands nativeU64Operands comparisonIdent
  cases dialect <;> simp only <;> repeat' split
  all_goals simp_all [SqlCondition.placeholders, SqlTerm.placeholders]

theorem renderPrefixed_placeholders (column : Text) (index : Nat) :
    (renderPrefixed dialect column index).1.placeholders =
      List.range' index (renderPrefixed dialect column index).2 := by
  cases dialect <;> rfl

variable {f : InlinedFilter} {c : SqlCondition} {cs : List SqlCondition}

theorem renderLeaf_placeholders {index : Nat}
    {new : List InlinedSqlBind} (h : renderLeaf fmt dialect fields physicalTypes f index = some (c, new)) :
    c.placeholders = List.range' index new.length := by
  cases f with
  | comparison column op value =>
    simp only [renderLeaf, Option.bind_eq_bind, Option.bind_eq_some_iff] at h
    obtain ⟨dataType, -, physicalType, -, h⟩ := h
    split at h
    · obtain ⟨bind, -, h⟩ := Option.bind_eq_some_iff.mp h
      cases h
      exact renderComparison_placeholders ..
    · cases h
  | isNull column =>
    simp only [renderLeaf] at h
    split at h
    · cases h
      rfl
    · cases h
  | isNotNull column =>
    simp only [renderLeaf] at h
    split at h
    · cases h
      rfl
    · cases h
  | prefixed column leading =>
    simp only [renderLeaf, Option.bind_eq_bind, Option.bind_eq_some_iff] at h
    obtain ⟨dataType, -, physicalType, -, h⟩ := h
    split at h
    · obtain ⟨bind, -, h⟩ := Option.bind_eq_some_iff.mp h
      cases h
      rw [List.length_replicate]
      exact renderPrefixed_placeholders ..
    · cases h
  | and children => cases h
  | or children => cases h

/-- What rendering does to the bound values: it appends, nothing for a node that does
not render, and the placeholders of the rendered node are the new values' numbers. -/
structure Appends (first : Nat) (binds : List InlinedSqlBind) (placeholders : List Nat)
    (binds' : List InlinedSqlBind) : Prop where
  grows : binds <+: binds'
  numbers : placeholders = List.range' (first + binds.length) (binds'.length - binds.length)

theorem Appends.refl (first : Nat) (binds : List InlinedSqlBind) : Appends first binds [] binds :=
  ⟨List.prefix_refl _, by simp⟩

theorem Appends.trans {a b c : List InlinedSqlBind} {p q : List Nat} (hab : Appends first a p b)
    (hbc : Appends first b q c) : Appends first a (p ++ q) c where
  grows := hab.grows.trans hbc.grows
  numbers := by
    have h₁ := hab.grows.length_le
    have h₂ := hbc.grows.length_le
    rw [hab.numbers, hbc.numbers, show first + b.length = first + a.length + (b.length - a.length) by omega,
      List.range'_append_1]
    congr 1
    omega

def optionPlaceholders (c : Option SqlCondition) : List Nat := placeholdersOf c.toList

theorem placeholdersOf_append : ∀ a b : List SqlCondition,
    placeholdersOf (a ++ b) = placeholdersOf a ++ placeholdersOf b
  | [], b => by simp [placeholdersOf]
  | c :: a, b => by simp [placeholdersOf, placeholdersOf_append a b]

theorem optionPlaceholders_andConditions (cs : List SqlCondition) :
    optionPlaceholders (andConditions cs) = placeholdersOf cs := by
  unfold andConditions
  split
  · rfl
  · rfl
  · simp [optionPlaceholders, placeholdersOf, SqlCondition.placeholders]

theorem renderNode_leaf (hand : ∀ fs, f ≠ .and fs) (hor : ∀ fs, f ≠ .or fs) (binds : List InlinedSqlBind) :
    renderNode fmt dialect fields physicalTypes first f binds =
      match renderLeaf fmt dialect fields physicalTypes f (first + binds.length) with
      | some (c, new) => (some c, binds ++ new)
      | none => (none, binds) := by
  cases f with
  | and fs => exact absurd rfl (hand fs)
  | or fs => exact absurd rfl (hor fs)
  | _ =>
    rcases hr : renderLeaf fmt dialect fields physicalTypes _ (first + binds.length) with _ | ⟨c, new⟩ <;>
      simp only [renderNode, hr]

theorem renderLeaf_appends (hand : ∀ fs, f ≠ .and fs) (hor : ∀ fs, f ≠ .or fs) (binds : List InlinedSqlBind) :
    Appends first binds (optionPlaceholders (renderNode fmt dialect fields physicalTypes first f binds).1)
      (renderNode fmt dialect fields physicalTypes first f binds).2 := by
  rw [renderNode_leaf hand hor]
  split
  · next c new heq =>
    refine ⟨List.prefix_append _ _, ?_⟩
    simp only [optionPlaceholders, Option.toList_some, placeholdersOf, List.append_nil, List.length_append,
      Nat.add_sub_cancel_left]
    exact renderLeaf_placeholders heq
  · exact Appends.refl first binds

mutual
theorem renderNode_appends : ∀ (f : InlinedFilter) (binds : List InlinedSqlBind),
    Appends first binds (optionPlaceholders (renderNode fmt dialect fields physicalTypes first f binds).1)
      (renderNode fmt dialect fields physicalTypes first f binds).2
  | .and children, binds => by
    rw [renderNode, optionPlaceholders_andConditions]
    exact renderSome_appends children binds
  | .or children, binds => by
    have h := renderEach_appends children binds
    rw [renderNode]
    split
    · next heq =>
      rw [heq] at h
      simpa [optionPlaceholders, placeholdersOf, SqlCondition.placeholders] using h.2 _ rfl
    · next heq =>
      -- the values of a half-rendered node are taken back
      rw [heq] at h
      simp only
      rw [← List.prefix_iff_eq_take.mp h.1]
      exact Appends.refl first binds
  | .comparison _ _ _, binds => renderLeaf_appends (by simp) (by simp) binds
  | .isNull _, binds => renderLeaf_appends (by simp) (by simp) binds
  | .isNotNull _, binds => renderLeaf_appends (by simp) (by simp) binds
  | .prefixed _ _, binds => renderLeaf_appends (by simp) (by simp) binds

theorem renderSome_appends : ∀ (fs : List InlinedFilter) (binds : List InlinedSqlBind),
    Appends first binds (placeholdersOf (renderSome fmt dialect fields physicalTypes first fs binds).1)
      (renderSome fmt dialect fields physicalTypes first fs binds).2
  | [], binds => by
    rw [renderSome]
    exact Appends.refl first binds
  | f :: fs, binds => by
    rw [renderSome, placeholdersOf_append]
    exact (renderNode_appends f binds).trans (renderSome_appends fs _)

theorem renderEach_appends : ∀ (fs : List InlinedFilter) (binds : List InlinedSqlBind),
    binds <+: (renderEach fmt dialect fields physicalTypes first fs binds).2 ∧
      ∀ cs, (renderEach fmt dialect fields physicalTypes first fs binds).1 = some cs →
        Appends first binds (placeholdersOf cs) (renderEach fmt dialect fields physicalTypes first fs binds).2
  | [], binds => by
    rw [renderEach]
    refine ⟨List.prefix_refl _, fun cs hcs => ?_⟩
    cases hcs
    exact Appends.refl first binds
  | f :: fs, binds => by
    have hf := renderNode_appends f binds
    rw [renderEach]
    split
    · next heq =>
      rw [heq] at hf
      exact ⟨hf.grows, fun cs hcs => by cases hcs⟩
    · next c binds₁ heq =>
      rw [heq] at hf
      have hfs := renderEach_appends fs binds₁
      split
      · next cs binds₂ heq₂ =>
        rw [heq₂] at hfs
        refine ⟨hf.grows.trans hfs.1, fun cs' hcs => ?_⟩
        cases hcs
        have hall := hf.trans (hfs.2 cs rfl)
        simpa [optionPlaceholders, placeholdersOf] using hall
      · next heq₂ =>
        rw [heq₂] at hfs
        exact ⟨hf.grows.trans hfs.1, fun cs' hcs => by cases hcs⟩
end

/-! ## Evaluation of the rendered tree -/

/-- The environment gives every bound value under its number. -/
def Agrees (dialect : InlinedSqlDialect) (first : Nat) (env : Nat → Option Cell)
    (binds : List InlinedSqlBind) : Prop :=
  ∀ i b, binds[i]? = some b → env (first + i) = some (b.cell dialect)

theorem Agrees.mono {env : Nat → Option Cell} {binds binds' : List InlinedSqlBind}
    (h : Agrees dialect first env binds') (hle : binds <+: binds') : Agrees dialect first env binds := by
  intro i b hb
  refine h i b ?_
  obtain ⟨new, rfl⟩ := hle
  rw [List.getElem?_append_left (List.getElem?_eq_some_iff.mp hb).1]
  exact hb

/-- The leaf renders, wherever it stands, to a condition that is true of the cells. -/
def LeafTrue (fmt : FloatSpelling) (dialect : InlinedSqlDialect) (fields : Text → Option DataType)
    (physicalTypes : Text → Option Text) (cells : Text → Option Cell) (f : InlinedFilter) : Prop :=
  ∀ index c new, renderLeaf fmt dialect fields physicalTypes f index = some (c, new) →
    ∀ env, Agrees dialect index env new → c.eval fmt env cells = some true

variable {cells : Text → Option Cell} {env : Nat → Option Cell}

theorem evalConditions_eq_map (cs : List SqlCondition) :
    evalConditions fmt env cells cs = cs.map (·.eval fmt env cells) := by
  induction cs with
  | nil => rw [evalConditions, List.map_nil]
  | cons c cs ih => rw [evalConditions, List.map_cons, ih]

theorem eval_and (h : ∀ c ∈ cs, c.eval fmt env cells = some true) :
    (SqlCondition.and cs).eval fmt env cells = some true := by
  rw [SqlCondition.eval, evalConditions_eq_map]
  induction cs with
  | nil => rfl
  | cons c cs ih =>
    rw [List.map_cons, conj_cons, and_eq_true]
    exact ⟨h c (List.mem_cons_self ..), ih fun c' hc' => h c' (List.mem_cons_of_mem _ hc')⟩

theorem eval_andConditions (hc : andConditions cs = some c)
    (h : ∀ c ∈ cs, c.eval fmt env cells = some true) : c.eval fmt env cells = some true := by
  unfold andConditions at hc
  split at hc
  · cases hc
  · cases hc
    exact h c (List.mem_singleton_self _)
  · cases hc
    exact eval_and h

theorem eval_or (hc : c ∈ cs)
    (h : c.eval fmt env cells = some true) : (SqlCondition.or cs).eval fmt env cells = some true := by
  rw [SqlCondition.eval, evalConditions_eq_map, disj_eq_true]
  exact List.mem_map.mpr ⟨c, hc, h⟩

theorem renderLeaf_true (hand : ∀ fs, f ≠ .and fs) (hor : ∀ fs, f ≠ .or fs) {binds : List InlinedSqlBind}
    (hc : (renderNode fmt dialect fields physicalTypes first f binds).1 = some c)
    (hk : LeafTrue fmt dialect fields physicalTypes cells f)
    (henv : Agrees dialect first env (renderNode fmt dialect fields physicalTypes first f binds).2) :
    c.eval fmt env cells = some true := by
  rw [renderNode_leaf hand hor] at hc henv
  split at hc
  · next c' new heq =>
    cases hc
    rw [heq] at henv
    refine hk _ _ _ heq env fun i b hb => ?_
    have := henv (binds.length + i) b (by rw [List.getElem?_append_right (by omega)]; simpa using hb)
    rwa [Nat.add_assoc]
  · cases hc

mutual
theorem renderNode_true : ∀ (f : InlinedFilter) (binds : List InlinedSqlBind) {c : SqlCondition},
    (renderNode fmt dialect fields physicalTypes first f binds).1 = some c →
    Keeps (LeafTrue fmt dialect fields physicalTypes cells) f →
    Agrees dialect first env (renderNode fmt dialect fields physicalTypes first f binds).2 →
    c.eval fmt env cells = some true
  | .and children, binds, c, hc, hk, henv => by
    rw [Keeps] at hk
    rw [renderNode] at hc henv
    exact eval_andConditions hc (renderSome_true children binds hk henv)
  | .or children, binds, c, hc, hk, henv => by
    rw [Keeps] at hk
    have h := renderEach_true children binds hk
    rw [renderNode] at hc henv
    split at hc
    · next heq =>
      cases hc
      rw [heq] at h henv
      obtain ⟨c', hmem, htrue⟩ := h _ rfl henv
      exact eval_or hmem htrue
    · cases hc
  | .comparison _ _ _, _, _, hc, hk, henv => renderLeaf_true (by simp) (by simp) hc hk henv
  | .isNull _, _, _, hc, hk, henv => renderLeaf_true (by simp) (by simp) hc hk henv
  | .isNotNull _, _, _, hc, hk, henv => renderLeaf_true (by simp) (by simp) hc hk henv
  | .prefixed _ _, _, _, hc, hk, henv => renderLeaf_true (by simp) (by simp) hc hk henv

theorem renderSome_true : ∀ (fs : List InlinedFilter) (binds : List InlinedSqlBind),
    KeepsAll (LeafTrue fmt dialect fields physicalTypes cells) fs →
    Agrees dialect first env (renderSome fmt dialect fields physicalTypes first fs binds).2 →
    ∀ c ∈ (renderSome fmt dialect fields physicalTypes first fs binds).1, c.eval fmt env cells = some true
  | [], _, _, _, c, hc => by simp [renderSome] at hc
  | f :: fs, binds, hk, henv, c, hc => by
    rw [KeepsAll] at hk
    rw [renderSome] at hc henv
    rcases List.mem_append.mp hc with hc | hc
    · refine renderNode_true f binds (Option.mem_toList.mp hc) hk.1 (henv.mono ?_)
      exact (renderSome_appends fs _).grows
    · exact renderSome_true fs _ hk.2 henv c hc

theorem renderEach_true : ∀ (fs : List InlinedFilter) (binds : List InlinedSqlBind),
    KeepsSome (LeafTrue fmt dialect fields physicalTypes cells) fs →
    ∀ cs, (renderEach fmt dialect fields physicalTypes first fs binds).1 = some cs →
    Agrees dialect first env (renderEach fmt dialect fields physicalTypes first fs binds).2 →
    ∃ c ∈ cs, c.eval fmt env cells = some true
  | [], _, hk, _, _, _ => by simp [KeepsSome] at hk
  | f :: fs, binds, hk, cs, hcs, henv => by
    have hnode := fun c => renderNode_true f binds (c := c)
    rw [renderEach] at hcs henv
    rw [KeepsSome] at hk
    split at hcs
    · cases hcs
    · next c binds₁ heq =>
      rw [heq] at hnode
      have hgrows := (@renderEach_appends fmt dialect fields physicalTypes first fs binds₁).1
      have htail := renderEach_true fs binds₁
      split at hcs
      · next cs' binds₂ heq₂ =>
        cases hcs
        rw [heq₂] at hgrows htail
        simp only [heq, heq₂] at henv
        rcases hk with hk | hk
        · exact ⟨c, List.mem_cons_self .., hnode c rfl hk (henv.mono hgrows)⟩
        · obtain ⟨c', hc', htrue⟩ := htail hk cs' rfl henv
          exact ⟨c', List.mem_cons_of_mem _ hc', htrue⟩
      · cases hcs
end

end Rendering

end DuckLake.Inlined
