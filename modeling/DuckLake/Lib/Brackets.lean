import Mathlib.Data.List.Basic
import Mathlib.Tactic.Common

/- Texts with angle brackets and parentheses, cut at the separators that stand outside of
   them. The scan counts the two kinds of brackets apart and refuses a text that closes
   what it did not open. A `Balanced` text is passed over as one piece (`splitFrom_balanced`),
   so parts written between separators are found again (`splitParts_intercalate`). -/

namespace Brackets

/-- The brackets that are open. -/
structure Depths where
  angle : Int
  paren : Int
deriving DecidableEq, Repr

namespace Depths

def zero : Depths := ⟨0, 0⟩

def next (d : Depths) (c : Char) : Depths :=
  if c = '<' then ⟨d.angle + 1, d.paren⟩
  else if c = '>' then ⟨d.angle - 1, d.paren⟩
  else if c = '(' then ⟨d.angle, d.paren + 1⟩
  else if c = ')' then ⟨d.angle, d.paren - 1⟩
  else d

def isNegative (d : Depths) : Bool := decide (d.angle < 0) || decide (d.paren < 0)

end Depths

/-- The parts between the separators outside of brackets, after the part read so far;
    `none` where brackets do not match. -/
def splitFrom (separator : Char) : Depths → List Char → List Char → Option (List (List Char))
  | d, part, [] => if d = .zero then some [part] else none
  | d, part, c :: t =>
    if (d.next c).isNegative then none
    else if c = separator ∧ d.next c = .zero then (splitFrom separator (d.next c) [] t).map (part :: ·)
    else splitFrom separator (d.next c) (part ++ [c]) t

def splitParts (separator : Char) (t : List Char) : Option (List (List Char)) := splitFrom separator .zero [] t

/-- The place of the first separator outside of brackets. -/
def separatorFrom (separator : Char) : Depths → Nat → List Char → Option Nat
  | _, _, [] => none
  | d, index, c :: t =>
    if c = separator ∧ d.next c = .zero then some index else separatorFrom separator (d.next c) (index + 1) t

def isBracket (c : Char) : Bool := c == '<' || c == '>' || c == '(' || c == ')'

/-- A text whose brackets match, with only characters of `top` outside of them. -/
inductive Balanced : (Char → Prop) → List Char → Prop
  | nil {top : Char → Prop} : Balanced top []
  | plain {top : Char → Prop} {c : Char} {t : List Char} (hc : isBracket c = false) (htop : top c)
    (ht : Balanced top t) : Balanced top (c :: t)
  | angle {top : Char → Prop} {inner t : List Char} (hinner : Balanced (fun _ => True) inner) (ht : Balanced top t) :
    Balanced top ('<' :: (inner ++ '>' :: t))
  | paren {top : Char → Prop} {inner t : List Char} (hinner : Balanced (fun _ => True) inner) (ht : Balanced top t) :
    Balanced top ('(' :: (inner ++ ')' :: t))

namespace Balanced

variable {top : Char → Prop} {a b : List Char}

theorem mono {top' : Char → Prop} (h : ∀ c, top c → top' c) (ha : Balanced top a) : Balanced top' a := by
  induction ha with
  | nil => exact .nil
  | plain hc htop _ ih => exact .plain hc (h _ htop) (ih h)
  | angle hinner _ _ ih => exact .angle hinner (ih h)
  | paren hinner _ _ ih => exact .paren hinner (ih h)

theorem append (ha : Balanced top a) (hb : Balanced top b) : Balanced top (a ++ b) := by
  induction ha with
  | nil => exact hb
  | plain hc htop _ ih => exact .plain hc htop (ih hb)
  | angle hinner _ _ ih =>
    rw [List.cons_append, List.append_assoc, List.cons_append]
    exact .angle hinner (ih hb)
  | paren hinner _ _ ih =>
    rw [List.cons_append, List.append_assoc, List.cons_append]
    exact .paren hinner (ih hb)

theorem of_forall (h : ∀ c ∈ a, isBracket c = false ∧ top c) : Balanced top a := by
  induction a with
  | nil => exact .nil
  | cons c a ih =>
    have hc := h c (by simp)
    exact .plain hc.1 hc.2 (ih fun x hx => h x (by simp [hx]))

theorem intercalate {separator : Char} (hsep : isBracket separator = false) (htop : top separator) :
    ∀ {parts : List (List Char)}, (∀ part ∈ parts, Balanced top part) → Balanced top ([separator].intercalate parts)
  | [], _ => .nil
  | [part], h => by
    rw [List.intercalate_singleton]
    exact h part (by simp)
  | part :: next :: parts, h => by
    have hrest : Balanced top ([separator].intercalate (next :: parts)) :=
      intercalate hsep htop fun p hp => h p (by simp [hp])
    rw [List.intercalate_cons_cons, List.append_assoc]
    exact (h part (by simp)).append (.plain hsep htop hrest)

end Balanced

/-! ## The scan -/

theorem next_plain (d : Depths) {c : Char} (h : isBracket c = false) : d.next c = d := by
  simp only [isBracket, Bool.or_eq_false_iff, beq_eq_false_iff_ne] at h
  obtain ⟨⟨⟨h₁, h₂⟩, h₃⟩, h₄⟩ := h
  rw [Depths.next, if_neg h₁, if_neg h₂, if_neg h₃, if_neg h₄]

/-- Depths of a scan that has closed nothing it did not open. -/
structure Depths.Nonneg (d : Depths) : Prop where
  angle : 0 ≤ d.angle
  paren : 0 ≤ d.paren

theorem Depths.Nonneg.not_isNegative {d : Depths} (h : d.Nonneg) : ¬ d.isNegative = true := by
  have h₁ := h.angle
  have h₂ := h.paren
  simp only [isNegative, Bool.or_eq_true, decide_eq_true_eq]
  omega

theorem nonneg_zero : Depths.zero.Nonneg := ⟨Int.le_refl 0, Int.le_refl 0⟩

/-- An open bracket makes the depths positive, and closing it gives them back. -/
theorem next_angle {d : Depths} (h : d.Nonneg) :
    (d.next '<').Nonneg ∧ d.next '<' ≠ .zero ∧ (d.next '<').next '>' = d := by
  have hangle := h.angle
  refine ⟨⟨?_, h.paren⟩, ?_, ?_⟩
  · show 0 ≤ d.angle + 1
    omega
  · intro heq
    have : d.angle + 1 = 0 := congrArg Depths.angle heq
    omega
  · show (⟨d.angle + 1 - 1, d.paren⟩ : Depths) = d
    rw [Int.add_sub_cancel]

theorem next_paren {d : Depths} (h : d.Nonneg) :
    (d.next '(').Nonneg ∧ d.next '(' ≠ .zero ∧ (d.next '(').next ')' = d := by
  have hparen := h.paren
  refine ⟨⟨h.angle, ?_⟩, ?_, ?_⟩
  · show 0 ≤ d.paren + 1
    omega
  · intro heq
    have : d.paren + 1 = 0 := congrArg Depths.paren heq
    omega
  · show (⟨d.angle, d.paren + 1 - 1⟩ : Depths) = d
    rw [Int.add_sub_cancel]

section Split

variable {separator : Char} {top : Char → Prop} {d : Depths} {a : List Char}

theorem splitFrom_cons {c : Char} (hnext : (d.next c).Nonneg) (hsep : c = separator → d.next c ≠ .zero)
    (part t : List Char) : splitFrom separator d part (c :: t) = splitFrom separator (d.next c) (part ++ [c]) t := by
  rw [splitFrom, if_neg hnext.not_isNegative, if_neg fun h => hsep h.1 h.2]

/-- A balanced text joins the part, as long as its own separators are not at the top. -/
theorem splitFrom_balanced (hbracket : isBracket separator = false) (ha : Balanced top a) :
    ∀ {d : Depths}, d.Nonneg → (d = .zero → ¬ top separator) → ∀ part t,
      splitFrom separator d part (a ++ t) = splitFrom separator d (part ++ a) t := by
  have hne : ∀ {c : Char} {P : Prop}, isBracket c = true → c = separator → P := by
    intro c P hc heq
    rw [heq, hbracket] at hc
    cases hc
  induction ha with
  | nil =>
    intro d _ _ part t
    rw [List.append_nil, List.nil_append]
  | @plain top c u hc htop _ ih =>
    intro d hd hsep part t
    have hnext := next_plain d hc
    have hcut : c = separator → d.next c ≠ .zero := by
      intro heq hzero
      rw [hnext] at hzero
      exact hsep hzero (heq ▸ htop)
    rw [List.cons_append, splitFrom_cons (by rwa [hnext]) hcut, hnext, ih hd hsep, List.append_assoc,
      List.singleton_append]
  | @angle top inner u _ _ ihinner ih =>
    intro d hd hsep part t
    obtain ⟨hopen, hzero, hclose⟩ := next_angle hd
    have hback : ((d.next '<').next '>').Nonneg := by rwa [hclose]
    rw [List.cons_append, splitFrom_cons hopen (hne rfl), List.append_assoc, ihinner hopen (fun h => absurd h hzero),
      List.cons_append, splitFrom_cons hback (hne rfl), hclose, ih hd hsep]
    simp
  | @paren top inner u _ _ ihinner ih =>
    intro d hd hsep part t
    obtain ⟨hopen, hzero, hclose⟩ := next_paren hd
    have hback : ((d.next '(').next ')').Nonneg := by rwa [hclose]
    rw [List.cons_append, splitFrom_cons hopen (hne rfl), List.append_assoc, ihinner hopen (fun h => absurd h hzero),
      List.cons_append, splitFrom_cons hback (hne rfl), hclose, ih hd hsep]
    simp

theorem splitParts_intercalate (hbracket : isBracket separator = false) (htop : ¬ top separator) :
    ∀ {parts : List (List Char)}, parts ≠ [] → (∀ part ∈ parts, Balanced top part) →
      splitParts separator ([separator].intercalate parts) = some parts
  | [], h, _ => absurd rfl h
  | [part], _, h => by
    have hsplit := splitFrom_balanced hbracket (h part (by simp)) nonneg_zero (fun _ => htop) [] []
    rw [List.append_nil, List.nil_append] at hsplit
    rw [List.intercalate_singleton, splitParts, hsplit]
    rfl
  | part :: next :: parts, _, h => by
    have ih := splitParts_intercalate hbracket htop (List.cons_ne_nil next parts) fun p hp => h p (by simp [hp])
    have hnext := next_plain .zero hbracket
    rw [splitParts] at ih ⊢
    rw [List.intercalate_cons_cons, List.append_assoc,
      splitFrom_balanced hbracket (h part (by simp)) nonneg_zero (fun _ => htop), List.nil_append,
      List.singleton_append, splitFrom, hnext, if_neg nonneg_zero.not_isNegative, if_pos ⟨rfl, rfl⟩, ih]
    rfl

/-- Before the first separator stands a text without brackets and separators. -/
theorem separatorFrom_append (hbracket : isBracket separator = false)
    (ha : ∀ c ∈ a, isBracket c = false ∧ c ≠ separator) (index : Nat) (t : List Char) :
    separatorFrom separator .zero index (a ++ separator :: t) = some (index + a.length) := by
  induction a generalizing index with
  | nil =>
    rw [List.nil_append, separatorFrom, next_plain .zero hbracket, if_pos ⟨rfl, rfl⟩]
    rfl
  | cons c a ih =>
    have hc := ha c (by simp)
    rw [List.cons_append, separatorFrom, next_plain .zero hc.1, if_neg fun h => hc.2 h.1,
      ih (fun x hx => ha x (by simp [hx])), List.length_cons, Nat.add_right_comm, Nat.add_assoc]

end Split

end Brackets
