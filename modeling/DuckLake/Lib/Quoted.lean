import Mathlib.Data.List.Infix
import Mathlib.Tactic.Common

/- Lists of tokens written in one text, with a separator between them. A token may hold
   quoted parts, in which quotes are doubled and the separator is an ordinary element.

   `splitUnquoted` splits outside quotes and gives the tokens back (`splitUnquoted_join`).
   A split that does not look at quotes also cuts the quoted parts: a piece after the
   first starts with some word exactly where the separator and the word stand together
   (`mem_tail_splitOn_iff`), in a quoted part exactly where they stand together in what
   was quoted (`infix_escape_iff`). -/

namespace Quoted

variable {α : Type} [DecidableEq α] (separator quote : α)

/-! ## Splitting outside quotes -/

/-- Whether a text leaves a quoted part open, having started in one or not. -/
def quotedAfter (quoted : Bool) : List α → Bool
  | [] => quoted
  | c :: t => quotedAfter (if c = quote then !quoted else quoted) t

/-- The pieces between separators outside quotes. -/
def splitUnquoted (quoted : Bool) : List α → List (List α)
  | [] => [[]]
  | c :: t =>
    let quoted := if c = quote then !quoted else quoted
    if c = separator ∧ quoted = false then [] :: splitUnquoted quoted t
    else (splitUnquoted quoted t).modifyHead (c :: ·)

/-- No separator of the text is outside quotes. -/
def unbroken (quoted : Bool) : List α → Bool
  | [] => true
  | c :: t =>
    let quoted := if c = quote then !quoted else quoted
    !(c = separator && !quoted) && unbroken quoted t

variable {separator quote}

@[simp] theorem quotedAfter_append (quoted : Bool) (a b : List α) :
    quotedAfter quote quoted (a ++ b) = quotedAfter quote (quotedAfter quote quoted a) b := by
  induction a generalizing quoted with
  | nil => rfl
  | cons c a ih => exact ih _

@[simp] theorem unbroken_append (quoted : Bool) (a b : List α) :
    unbroken separator quote quoted (a ++ b) =
      (unbroken separator quote quoted a && unbroken separator quote (quotedAfter quote quoted a) b) := by
  induction a generalizing quoted with
  | nil => rfl
  | cons c a ih =>
    rw [List.cons_append, unbroken, unbroken, quotedAfter, ih, Bool.and_assoc]

theorem plain {t : List α} (hq : quote ∉ t) (hs : separator ∉ t) (quoted : Bool) :
    quotedAfter quote quoted t = quoted ∧ unbroken separator quote quoted t = true := by
  induction t with
  | nil => exact ⟨rfl, rfl⟩
  | cons c t ih =>
    rw [List.mem_cons, not_or] at hq hs
    obtain ⟨hafter, hwhole⟩ := ih hq.2 hs.2
    rw [quotedAfter, unbroken, if_neg (Ne.symm hq.1), hafter, hwhole]
    exact ⟨rfl, by simp [Ne.symm hs.1]⟩

theorem splitUnquoted_append {quoted : Bool} {a : List α} (h : unbroken separator quote quoted a = true)
    (b : List α) : splitUnquoted separator quote quoted (a ++ b) =
      (splitUnquoted separator quote (quotedAfter quote quoted a) b).modifyHead (a ++ ·) := by
  induction a generalizing quoted with
  | nil =>
    have hid : ∀ l : List (List α), l.modifyHead ([] ++ ·) = l := fun l => by cases l <;> rfl
    rw [hid]
    rfl
  | cons c a ih =>
    rw [unbroken, Bool.and_eq_true] at h
    have hgo : ¬ (c = separator ∧ (if c = quote then !quoted else quoted) = false) := by
      have := h.1
      simp only [Bool.not_eq_true', Bool.and_eq_false_iff, decide_eq_false_iff_not, Bool.not_eq_false'] at this
      intro hcut
      rcases this with hne | hq
      · exact hne hcut.1
      · rw [hcut.2] at hq
        cases hq
    rw [List.cons_append, splitUnquoted, if_neg hgo, ih h.2, List.modifyHead_modifyHead]
    rfl

/-- A token: unbroken, and with every quoted part closed. -/
structure Whole (separator quote : α) (t : List α) : Prop where
  unbroken : unbroken separator quote false t = true
  closed : quotedAfter quote false t = false

theorem splitUnquoted_whole {t : List α} (h : Whole separator quote t) :
    splitUnquoted separator quote false t = [t] := by
  have := splitUnquoted_append h.unbroken []
  rw [List.append_nil, h.closed] at this
  simpa [splitUnquoted] using this

theorem splitUnquoted_cons (hne : separator ≠ quote) {t : List α} (h : Whole separator quote t) (rest : List α) :
    splitUnquoted separator quote false (t ++ separator :: rest) = t :: splitUnquoted separator quote false rest := by
  rw [splitUnquoted_append h.unbroken, h.closed, splitUnquoted, if_neg hne, if_pos ⟨rfl, rfl⟩]
  simp

theorem splitUnquoted_join (hne : separator ≠ quote) {tokens : List (List α)} (hnil : tokens ≠ [])
    (h : ∀ t ∈ tokens, Whole separator quote t) :
    splitUnquoted separator quote false ([separator].intercalate tokens) = tokens := by
  induction tokens with
  | nil => exact absurd rfl hnil
  | cons t tokens ih =>
    rw [List.forall_mem_cons] at h
    cases tokens with
    | nil => simpa using splitUnquoted_whole h.1
    | cons t' tokens =>
      rw [List.intercalate_cons_cons, List.append_assoc, List.singleton_append, splitUnquoted_cons hne h.1,
        ih (by simp) h.2]

/-! ## Quoted parts -/

variable (quote)

/-- Every quote of the text doubled. -/
def escape (t : List α) : List α := t.flatMap fun c => if c = quote then [quote, quote] else [c]

variable {quote}

theorem escape_cons (c : α) (t : List α) :
    escape quote (c :: t) = (if c = quote then [quote, quote] else [c]) ++ escape quote t := rfl

theorem escape_inside (hne : separator ≠ quote) (t : List α) :
    quotedAfter quote true (escape quote t) = true ∧ unbroken separator quote true (escape quote t) = true := by
  induction t with
  | nil => exact ⟨rfl, rfl⟩
  | cons c t ih =>
    rw [escape_cons]
    by_cases hc : c = quote
    · rw [if_pos hc]
      simp [quotedAfter, unbroken, ih, Ne.symm hne]
    · rw [if_neg hc]
      simp [quotedAfter, unbroken, ih, hc]

theorem whole_quoted (hne : separator ≠ quote) (t : List α) :
    Whole separator quote (quote :: (escape quote t ++ [quote])) := by
  obtain ⟨hafter, hwhole⟩ := escape_inside hne t
  constructor
  · rw [unbroken, if_pos rfl, Bool.not_false, unbroken_append, hwhole, hafter]
    simp [unbroken, Ne.symm hne]
  · rw [quotedAfter, if_pos rfl, Bool.not_false, quotedAfter_append, hafter]
    simp [quotedAfter]

theorem Whole.append {a b : List α} (ha : Whole separator quote a) (hb : Whole separator quote b) :
    Whole separator quote (a ++ b) := by
  constructor
  · rw [unbroken_append, ha.unbroken, ha.closed, hb.unbroken]
    rfl
  · rw [quotedAfter_append, ha.closed, hb.closed]

theorem whole_plain {t : List α} (hq : quote ∉ t) (hs : separator ∉ t) : Whole separator quote t :=
  ⟨(plain hq hs false).2, (plain hq hs false).1⟩

/-! ## Splitting at every separator -/

omit [DecidableEq α] in
/-- A word that avoids an element lies on one side of it. -/
theorem infix_append_cons_iff {word a b : List α} {c : α} (hc : c ∉ word) :
    word <:+: a ++ c :: b ↔ word <:+: a ∨ word <:+: b := by
  constructor
  · intro h
    obtain ⟨u, v, h⟩ := h
    rw [List.append_assoc, List.append_eq_append_iff] at h
    rcases h with ⟨inner, ha, hin⟩ | ⟨inner, hu, hin⟩
    · rcases List.append_eq_append_iff.mp hin with ⟨inner', hinner, -⟩ | ⟨inner', hword, hin⟩
      · exact .inl ⟨u, inner', by rw [List.append_assoc, ← hinner, ha]⟩
      · cases inner' with
        | nil => exact .inl ⟨u, [], by rw [hword, ha]; simp⟩
        | cons d inner' =>
          rw [List.cons_append, List.cons.injEq] at hin
          exact absurd (by rw [hword, ← hin.1]; simp) hc
    · cases inner with
      | nil =>
        rw [List.nil_append] at hin
        cases word with
        | nil => exact .inl (List.nil_infix)
        | cons d word =>
          rw [List.cons_append, List.cons.injEq] at hin
          exact absurd (by rw [← hin.1]; simp) hc
      | cons d inner =>
        rw [List.cons_append, List.cons.injEq] at hin
        exact .inr ⟨inner, v, by rw [hin.2, List.append_assoc]⟩
  · intro h
    rcases h with ⟨u, v, rfl⟩ | ⟨u, v, rfl⟩
    · exact ⟨u, v ++ c :: b, by simp⟩
    · exact ⟨a ++ c :: u, v, by simp⟩

/-- A word without quotes stands in a doubled text where it stands in the text. -/
theorem infix_escape_iff {word : List α} (hne : word ≠ []) (hq : quote ∉ word) (t : List α) :
    word <:+: escape quote t ↔ word <:+: t := by
  -- with what was read of the text since the last quote
  have h : ∀ t before : List α, word <:+: before ++ escape quote t ↔ word <:+: before ++ t := by
    intro t
    induction t with
    | nil => exact fun _ => Iff.rfl
    | cons c t ih =>
      intro before
      rw [escape_cons]
      by_cases hc : c = quote
      · have hnil : ¬ word <:+: [] := fun h => hne (List.infix_nil.mp h)
        have hih : word <:+: escape quote t ↔ word <:+: t := ih []
        have hagain := infix_append_cons_iff (a := []) (b := escape quote t) hq
        rw [List.nil_append] at hagain
        rw [if_pos hc, hc, List.cons_append, List.singleton_append, infix_append_cons_iff hq, hagain,
          infix_append_cons_iff hq, hih]
        simp [hnil]
      · rw [if_neg hc, ← List.append_assoc, List.append_cons before c t]
        exact ih (before ++ [c])
  exact h t []

theorem splitOn_head {word : List α} (hs : separator ∉ word) (t : List α) :
    ∃ head tail, (word ++ t).splitOn separator = (word ++ head) :: tail := by
  induction word with
  | nil =>
    obtain ⟨head, tail, h⟩ := List.exists_cons_of_ne_nil (List.splitOn_ne_nil separator t)
    exact ⟨head, tail, h⟩
  | cons c word ih =>
    rw [List.mem_cons, not_or] at hs
    obtain ⟨head, tail, h⟩ := ih hs.2
    refine ⟨head, tail, ?_⟩
    rw [List.cons_append, List.splitOn_cons_eq_if_modifyHead, h, if_neg (by simp [Ne.symm hs.1])]
    rfl

theorem isPrefix_of_splitOn {t head : List α} {tail : List (List α)} (h : t.splitOn separator = head :: tail) :
    head <+: t := by
  induction t generalizing head tail with
  | nil =>
    rw [List.splitOn_nil] at h
    cases h
    exact List.nil_prefix
  | cons c t ih =>
    obtain ⟨head', tail', h'⟩ := List.exists_cons_of_ne_nil (List.splitOn_ne_nil separator t)
    rw [List.splitOn_cons_eq_if_modifyHead, h'] at h
    split at h
    · cases h
      exact List.nil_prefix
    · cases h
      exact (List.prefix_cons_inj c).mpr (ih h')

/-- Where a split at every separator finds a word at the start of a piece other than the
    first. -/
theorem mem_tail_splitOn_iff {word : List α} (hs : separator ∉ word) (t : List α) :
    (∃ piece ∈ (t.splitOn separator).tail, word <+: piece) ↔ (separator :: word) <:+: t := by
  constructor
  · intro h
    induction t with
    | nil =>
      obtain ⟨piece, hmem, -⟩ := h
      rw [List.splitOn_nil] at hmem
      cases hmem
    | cons c t ih =>
      obtain ⟨head, tail, hsplit⟩ := List.exists_cons_of_ne_nil (List.splitOn_ne_nil separator t)
      have htail : ∀ piece ∈ tail, word <+: piece → (separator :: word) <:+: c :: t := by
        intro piece hmem hword
        have := ih ⟨piece, by rwa [hsplit], hword⟩
        exact this.trans (List.suffix_cons c t).isInfix
      obtain ⟨piece, hmem, hword⟩ := h
      rw [List.splitOn_cons_eq_if_modifyHead, hsplit] at hmem
      split at hmem
      · next hc =>
        obtain rfl : c = separator := by simpa using hc
        rcases List.mem_cons.mp hmem with rfl | hmem
        · have hstart := hword.trans (isPrefix_of_splitOn hsplit)
          exact ((List.prefix_cons_inj c).mpr hstart).isInfix
        · exact htail piece hmem hword
      · exact htail piece hmem hword
  · intro h
    obtain ⟨u, v, rfl⟩ := h
    obtain ⟨head, tail, hsplit⟩ := splitOn_head hs v
    rw [List.append_assoc, List.cons_append, List.splitOn_append_cons_self, hsplit]
    refine ⟨word ++ head, ?_, List.prefix_append word head⟩
    cases hu : u.splitOn separator with
    | nil => exact absurd hu (List.splitOn_ne_nil separator u)
    | cons first rest => simp

end Quoted
