import Mathlib.Data.List.Basic
import Mathlib.Data.List.Infix
import Mathlib.Tactic.Common

/- SQL `LIKE` patterns: `%` stands for any text, `_` for one character, and the
   escape character makes the next character stand for itself.

   A pattern is read into tokens; the patterns that ask for a leading text are the
   ones whose tokens are literals with one `%` at the end. -/

namespace Like

inductive Token where
  | one
  | any
  | lit (c : Char)
  deriving DecidableEq, Repr

def token (c : Char) : Token := if c = '_' then .one else if c = '%' then .any else .lit c

/-- An escape character at the very end stands for itself. -/
def tokens (escape : Char) : List Char → List Token
  | [] => []
  | [c] => if c = escape then [.lit c] else [token c]
  | c :: d :: rest =>
    if c = escape then .lit d :: tokens escape rest else token c :: tokens escape (d :: rest)

def matchTokens : List Token → List Char → Bool
  | [], s => s.isEmpty
  | .any :: p, s => s.tails.any fun t => matchTokens p t
  | .one :: p, s => match s with
    | [] => false
    | _ :: s => matchTokens p s
  | .lit c :: p, s => match s with
    | [] => false
    | d :: s => c == d && matchTokens p s

/-- `text LIKE pattern ESCAPE escape`. -/
def like (escape : Char) (pattern text : List Char) : Bool := matchTokens (tokens escape pattern) text

def lits (p : List Char) : List Token := p.map .lit

theorem matchTokens_lits_append (ts : List Token) : ∀ (p s : List Char),
    matchTokens (lits p ++ ts) s = true ↔ ∃ t, s = p ++ t ∧ matchTokens ts t = true
  | [], s => by simp [lits]
  | c :: p, [] => by simp [lits, matchTokens]
  | c :: p, d :: s => by
    have ih := matchTokens_lits_append ts p s
    simp only [lits] at ih
    simp only [lits, List.map_cons, List.cons_append, matchTokens, Bool.and_eq_true, beq_iff_eq, ih,
      List.cons.injEq]
    constructor
    · rintro ⟨rfl, t, rfl, ht⟩
      exact ⟨t, ⟨rfl, rfl⟩, ht⟩
    · rintro ⟨t, ⟨rfl, rfl⟩, ht⟩
      exact ⟨rfl, t, rfl, ht⟩

theorem matchTokens_any (s : List Char) : matchTokens [.any] s = true := by
  simp only [matchTokens, List.any_eq_true]
  exact ⟨[], (List.mem_tails _ _).mpr (List.nil_suffix), rfl⟩

theorem matchTokens_leading {p s : List Char} : matchTokens (lits p ++ [.any]) s = true ↔ p <+: s := by
  rw [matchTokens_lits_append]
  constructor
  · rintro ⟨t, rfl, -⟩
    exact List.prefix_append p t
  · rintro ⟨t, rfl⟩
    exact ⟨t, rfl, matchTokens_any t⟩

theorem matchTokens_lits {p s : List Char} : matchTokens (lits p) s = true ↔ s = p := by
  have h := matchTokens_lits_append [] p s
  rw [List.append_nil] at h
  rw [h]
  simp [matchTokens, List.isEmpty_iff]

theorem tokens_escaped {escape : Char} (d : Char) (rest : List Char) :
    tokens escape (escape :: d :: rest) = .lit d :: tokens escape rest := by
  simp [tokens]

theorem tokens_plain {escape c : Char} (h : c ≠ escape) (rest : List Char) :
    tokens escape (c :: rest) = token c :: tokens escape rest := by
  cases rest with
  | nil => simp [tokens, h]
  | cons d rest => simp [tokens, h]

theorem token_lit {c : Char} (h₁ : c ≠ '_') (h₂ : c ≠ '%') : token c = .lit c := by
  simp [token, h₁, h₂]

/-- What a pattern of plain characters and escapes with a `%` at the end asks for:
a leading text, or, where the last escape takes the `%`, one exact text. -/
theorem tokens_leading {escape : Char} (he : escape ≠ '%') : ∀ q : List Char,
    '%' ∉ q → '_' ∉ q →
      (∃ p, tokens escape (q ++ ['%']) = lits p ++ [.any] ∧ p.length ≤ q.length ∧
        (escape ∈ q → p.length < q.length)) ∨
      (∃ p q', tokens escape (q ++ ['%']) = lits (p ++ ['%']) ∧ q = q' ++ [escape] ∧ p.length ≤ q'.length)
  | [], _, _ => by
    left
    refine ⟨[], ?_, by simp, by simp⟩
    simp [tokens, token, lits, Ne.symm he]
  | c :: q, h₁, h₂ => by
    simp only [List.mem_cons, not_or] at h₁ h₂
    by_cases hc : c = escape
    · subst hc
      cases q with
      | nil =>
        right
        exact ⟨[], [], by simp [tokens, lits], rfl, le_rfl⟩
      | cons d q =>
        simp only [List.mem_cons, not_or] at h₁ h₂
        rw [List.cons_append, List.cons_append, tokens_escaped]
        rcases tokens_leading he q h₁.2.2 h₂.2.2 with ⟨p, hp, hle, -⟩ | ⟨p, q', hp, hq, hle⟩
        · left
          refine ⟨d :: p, by rw [hp]; rfl, ?_, fun _ => ?_⟩
          · simp only [List.length_cons]
            omega
          · simp only [List.length_cons]
            omega
        · right
          refine ⟨d :: p, c :: d :: q', by rw [hp]; rfl, by rw [hq]; rfl, ?_⟩
          simp only [List.length_cons]
          omega
    · rw [List.cons_append, tokens_plain hc, token_lit (Ne.symm h₂.1) (Ne.symm h₁.1)]
      rcases tokens_leading he q h₁.2 h₂.2 with ⟨p, hp, hle, hlt⟩ | ⟨p, q', hp, hq, hle⟩
      · left
        refine ⟨c :: p, by rw [hp]; rfl, ?_, fun hmem => ?_⟩
        · simp only [List.length_cons]
          omega
        · have hmem' : escape ∈ q := by
            rcases List.mem_cons.mp hmem with h | h
            · exact absurd h.symm hc
            · exact h
          have := hlt hmem'
          simp only [List.length_cons]
          omega
      · right
        refine ⟨c :: p, c :: q', by rw [hp]; rfl, by rw [hq]; rfl, ?_⟩
        simp only [List.length_cons]
        omega
termination_by q => q.length

/-- A pattern that escapes a character matches a text that does not start with the
pattern's own characters. -/
theorem exists_like_not_leading {escape : Char} (he : escape ≠ '%') {q : List Char} (h₁ : '%' ∉ q)
    (h₂ : '_' ∉ q) (hmem : escape ∈ q) : ∃ s, like escape (q ++ ['%']) s = true ∧ ¬ q <+: s := by
  rcases tokens_leading he q h₁ h₂ with ⟨p, hp, -, hlt⟩ | ⟨p, q', hp, hq, hle⟩
  · refine ⟨p, ?_, fun hpre => ?_⟩
    · rw [like, hp]
      exact matchTokens_leading.mpr (List.prefix_refl p)
    · have := hpre.length_le
      have := hlt hmem
      omega
  · refine ⟨p ++ ['%'], ?_, fun hpre => ?_⟩
    · rw [like, hp]
      exact matchTokens_lits.mpr rfl
    · have hlen := hpre.length_le
      rw [hq] at hpre hlen
      simp only [List.length_append, List.length_cons, List.length_nil] at hlen
      have heq := hpre.eq_of_length_le (by simp only [List.length_append, List.length_cons, List.length_nil]; omega)
      have hlast := (List.append_inj' heq rfl).2
      exact he (List.cons.inj hlast).1

end Like
