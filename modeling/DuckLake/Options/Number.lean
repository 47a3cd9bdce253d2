import DuckLake.Lib.Fraction
import DuckLake.Options.Cast

/- Numbers as the values of options spell them: spaces around, a sign, digits in groups and a
   fraction (`Number`). A cast reads such a text as its digits, one by one
   (`Number.tryCastWith_text`): spaces, the sign and single underscores leave no trace. -/

namespace DuckLake.DuckdbCast

open Numeral Cast

/-! ## Numbers -/

/-- Digits, with single underscores between digits. -/
inductive Grouped : Text → Prop
  | last {c : Char} : c.isDigit = true → Grouped [c]
  | digit {c : Char} {t : Text} : c.isDigit = true → Grouped t → Grouped (c :: t)
  | separated {c : Char} {t : Text} : c.isDigit = true → Grouped t → Grouped (c :: '_' :: t)

/-- The digits alone. -/
def ungrouped (t : Text) : Text := t.filter (· != '_')

inductive Sign where
  | absent
  | plus
  | minus
  deriving DecidableEq, Repr

def Sign.text : Sign → Text
  | .absent => []
  | .plus => ['+']
  | .minus => ['-']

structure Number where
  leading : Text
  sign : Sign
  whole : Text
  fraction : Option Text
  trailing : Text
  leadingSpaces : leading.all isSpace = true
  trailingSpaces : trailing.all isSpace = true
  wholeDigits : whole = [] ∨ Grouped whole
  fractionDigits : ∀ f ∈ fraction, f = [] ∨ Grouped f
  someDigit : whole ≠ [] ∨ ∃ f ∈ fraction, f ≠ []

namespace Number

variable (n : Number)

/-- The point and what follows it. -/
def point : Text := n.fraction.elim [] ('.' :: ·)

def body : Text := n.whole ++ (n.point ++ n.trailing)

def text : Text := n.leading ++ (n.sign.text ++ n.body)

def negative : Bool := n.sign == .minus

/-- The digits behind the point. -/
def decimals : Text := ungrouped (n.fraction.getD [])

def value : ℚ := (if n.negative then -1 else 1) * decimal (ungrouped n.whole) n.decimals

end Number

theorem ne_underscore_of_isDigit {c : Char} (h : c.isDigit = true) : c ≠ '_' := by
  rintro rfl
  cases h

theorem Grouped.exists_cons {t : Text} (h : Grouped t) : ∃ c rest, t = c :: rest ∧ c.isDigit = true := by
  cases h with
  | last hc => exact ⟨_, _, rfl, hc⟩
  | digit hc _ => exact ⟨_, _, rfl, hc⟩
  | separated hc _ => exact ⟨_, _, rfl, hc⟩

theorem Grouped.startsWithDigit {t : Text} (h : Grouped t) (rest : Text) : startsWithDigit (t ++ rest) = true := by
  obtain ⟨c, t, rfl, hc⟩ := h.exists_cons
  exact hc

theorem ungrouped_cons {c : Char} (h : c.isDigit = true) (t : Text) : ungrouped (c :: t) = c :: ungrouped t := by
  unfold ungrouped
  rw [List.filter_cons_of_pos (by simpa using ne_underscore_of_isDigit h)]

theorem ungrouped_separated {c : Char} (h : c.isDigit = true) (t : Text) :
    ungrouped (c :: '_' :: t) = c :: ungrouped t := by
  rw [ungrouped_cons h]
  rfl

theorem Grouped.all_isDigit {t : Text} (h : Grouped t) : (ungrouped t).all Char.isDigit = true := by
  induction h with
  | last hc =>
    rw [ungrouped_cons hc, List.all_cons, hc]
    rfl
  | digit hc _ ih => rw [ungrouped_cons hc, List.all_cons, hc, ih, Bool.and_self]
  | separated hc _ ih => rw [ungrouped_separated hc, List.all_cons, hc, ih, Bool.and_self]

/-! ## The loops over a number -/

namespace Cast

variable (cast : Cast)

def readDigits (negative : Bool) (digits : Text) (state : State) : Option State :=
  digits.foldlM (fun state c => cast.handleDigit negative state (digitValue c)) state

def readDecimals (digits : Text) (state : State) : Option State :=
  digits.foldlM (fun state c => cast.handleDecimal state (digitValue c)) state

variable {cast} {readExponent : Text → Option Int} {negative : Bool}

variable {rest : Text} {c : Char} {t : Text}

theorem digitLoop_digit (hc : c.isDigit = true) (hrest : rest.head? ≠ some '_')
    (consumed : Bool) (state : State) : cast.digitLoop readExponent negative consumed (c :: rest) state =
      (cast.handleDigit negative state (digitValue c)).bind (cast.digitLoop readExponent negative true rest) := by
  rw [digitLoop, if_pos hc]
  refine congrArg _ (funext fun state => ?_)
  split
  · exact absurd rfl hrest
  · rfl

theorem digitLoop_separated (hc : c.isDigit = true) (hrest : startsWithDigit rest = true)
    (consumed : Bool) (state : State) : cast.digitLoop readExponent negative consumed (c :: '_' :: rest) state =
      (cast.handleDigit negative state (digitValue c)).bind (cast.digitLoop readExponent negative true rest) := by
  rw [digitLoop, if_pos hc]
  exact congrArg _ (funext fun state => if_pos hrest)

theorem fractionLoop_digit (hc : c.isDigit = true) (hrest : rest.head? ≠ some '_')
    (state : State) : cast.fractionLoop (c :: rest) state =
      (cast.handleDecimal state (digitValue c)).bind (cast.fractionLoop rest) := by
  rw [fractionLoop, if_pos hc]
  refine congrArg _ (funext fun state => ?_)
  split
  · exact absurd rfl hrest
  · rfl

theorem fractionLoop_separated (hc : c.isDigit = true) (hrest : startsWithDigit rest = true)
    (state : State) : cast.fractionLoop (c :: '_' :: rest) state =
      (cast.handleDecimal state (digitValue c)).bind (cast.fractionLoop rest) := by
  rw [fractionLoop, if_pos hc]
  exact congrArg _ (funext fun state => if_pos hrest)

/-- What may follow the digits of a group. -/
structure Ends (rest : Text) : Prop where
  digit : startsWithDigit rest = false
  underscore : rest.head? ≠ some '_'

theorem head?_append_grouped {t rest : Text} (h : Grouped t) : (t ++ rest).head? ≠ some '_' := by
  obtain ⟨c, t, rfl, hc⟩ := h.exists_cons
  exact fun heq => ne_underscore_of_isDigit hc (Option.some.inj heq)

theorem readDigits_cons (c : Char) (digits : Text) (state : State) : cast.readDigits negative (c :: digits) state =
    (cast.handleDigit negative state (digitValue c)).bind (cast.readDigits negative digits) := rfl

theorem readDecimals_cons (c : Char) (digits : Text) (state : State) : cast.readDecimals (c :: digits) state =
    (cast.handleDecimal state (digitValue c)).bind (cast.readDecimals digits) := rfl

theorem digitLoop_grouped {t rest : Text} (h : Grouped t) (hrest : Ends rest) (consumed : Bool) (state : State) :
    cast.digitLoop readExponent negative consumed (t ++ rest) state =
      (cast.readDigits negative (ungrouped t) state).bind (cast.digitLoop readExponent negative true rest) := by
  induction h generalizing consumed state with
  | last hc =>
    rw [ungrouped_cons hc, readDigits_cons, Option.bind_assoc, List.singleton_append,
      digitLoop_digit hc hrest.underscore]
    rfl
  | digit hc ht ih =>
    rw [ungrouped_cons hc, readDigits_cons, Option.bind_assoc, List.cons_append,
      digitLoop_digit hc (head?_append_grouped ht)]
    exact congrArg _ (funext fun state => ih true state)
  | separated hc ht ih =>
    rw [ungrouped_separated hc, readDigits_cons, Option.bind_assoc, List.cons_append, List.cons_append,
      digitLoop_separated hc (ht.startsWithDigit rest)]
    exact congrArg _ (funext fun state => ih true state)

theorem fractionLoop_of_ends (hrest : Ends rest) (state : State) :
    cast.fractionLoop rest state = some (state, rest) := by
  cases rest with
  | nil => rfl
  | cons c rest =>
    have hc : ¬ c.isDigit = true := Bool.eq_false_iff.mp hrest.digit
    rw [fractionLoop, if_neg hc]

theorem fractionLoop_grouped {t rest : Text} (h : Grouped t) (hrest : Ends rest) (state : State) :
    cast.fractionLoop (t ++ rest) state = (cast.readDecimals (ungrouped t) state).map fun state => (state, rest) := by
  induction h generalizing state with
  | last hc =>
    rw [ungrouped_cons hc, readDecimals_cons, Option.map_bind, List.singleton_append,
      fractionLoop_digit hc hrest.underscore]
    exact congrArg _ (funext fun state => fractionLoop_of_ends hrest state)
  | digit hc ht ih =>
    rw [ungrouped_cons hc, readDecimals_cons, Option.map_bind, List.cons_append,
      fractionLoop_digit hc (head?_append_grouped ht)]
    exact congrArg _ (funext fun state => ih state)
  | separated hc ht ih =>
    rw [ungrouped_separated hc, readDecimals_cons, Option.map_bind, List.cons_append, List.cons_append,
      fractionLoop_separated hc (ht.startsWithDigit rest)]
    exact congrArg _ (funext fun state => ih state)

theorem not_isDigit_of_isSpace (h : isSpace c = true) : c.isDigit = false ∧ c ≠ '_' ∧ c ≠ '.' := by
  simp only [isSpace, Bool.or_eq_true, beq_iff_eq] at h
  rcases h with ((((rfl | rfl) | rfl) | rfl) | rfl) | rfl <;> decide

theorem ends_spaces (h : t.all isSpace = true) : Ends t := by
  cases t with
  | nil => exact ⟨rfl, nofun⟩
  | cons c t =>
    rw [List.all_cons, Bool.and_eq_true] at h
    obtain ⟨hdigit, hunderscore, -⟩ := not_isDigit_of_isSpace h.1
    exact ⟨hdigit, fun heq => hunderscore (Option.some.inj heq)⟩

theorem ends_point (t : Text) : Ends ('.' :: t) := ⟨rfl, fun heq => absurd (Option.some.inj heq) (by decide)⟩

theorem endLoop_spaces (h : t.all isSpace = true) (state : State) :
    cast.endLoop readExponent negative true state t = cast.done negative true state := by
  cases t with
  | nil => rfl
  | cons c t =>
    rw [List.all_cons, Bool.and_eq_true] at h
    rw [endLoop, if_pos h.1, if_pos h.2]

theorem digitLoop_spaces (h : t.all isSpace = true) (state : State) :
    cast.digitLoop readExponent negative true t state = cast.done negative true state := by
  cases t with
  | nil => rfl
  | cons c t =>
    have hspace := h
    rw [List.all_cons, Bool.and_eq_true] at hspace
    obtain ⟨hdigit, -, hpoint⟩ := not_isDigit_of_isSpace hspace.1
    rw [digitLoop, if_neg (Bool.eq_false_iff.mp hdigit), if_neg hpoint, endLoop_spaces h]

theorem digitLoop_point {f trailing : Text} (hf : f = [] ∨ Grouped f) (htrailing : trailing.all isSpace = true)
    {consumed : Bool} (hsome : consumed = true ∨ f ≠ []) (state : State) :
    cast.digitLoop readExponent negative consumed ('.' :: (f ++ trailing)) state =
      (cast.readDecimals (ungrouped f) state).bind (cast.done negative true) := by
  have hloop : cast.fractionLoop (f ++ trailing) state =
      (cast.readDecimals (ungrouped f) state).map fun state => (state, trailing) := by
    rcases hf with rfl | hf
    · exact fractionLoop_of_ends (ends_spaces htrailing) state
    · exact fractionLoop_grouped hf (ends_spaces htrailing) state
  have hread : (consumed || startsWithDigit (f ++ trailing)) = true := by
    rcases hsome with rfl | hne
    · rfl
    · rw [(hf.resolve_left hne).startsWithDigit, Bool.or_true]
  rw [digitLoop, if_neg (by decide), if_pos rfl, hloop, Option.bind_map]
  refine congrArg _ (funext fun state => ?_)
  show (if _ then _ else _) = _
  rw [if_pos hread, endLoop_spaces htrailing]

end Cast

namespace Number

variable {cast : Cast} {readExponent : Text → Option Int} {negative : Bool}

variable (n : Number)

theorem digitLoop_body : cast.digitLoop readExponent negative false n.body {} =
    (cast.readDigits negative (ungrouped n.whole) {}).bind fun state =>
      (cast.readDecimals n.decimals state).bind (cast.done negative true) := by
  have hends : Ends (n.point ++ n.trailing) := by
    unfold point
    cases n.fraction with
    | none => exact ends_spaces n.trailingSpaces
    | some f => exact ends_point _
  have hafter : ∀ {consumed : Bool} (state : State), (consumed = true ∨ ∃ f ∈ n.fraction, f ≠ []) →
      (n.fraction = none → consumed = true) →
      cast.digitLoop readExponent negative consumed (n.point ++ n.trailing) state =
        (cast.readDecimals n.decimals state).bind (cast.done negative true) := by
    intro consumed state hsome hnone
    unfold point decimals
    cases hfraction : n.fraction with
    | none =>
      rw [hnone hfraction]
      exact digitLoop_spaces n.trailingSpaces state
    | some f =>
      refine digitLoop_point (n.fractionDigits f hfraction) n.trailingSpaces ?_ state
      rcases hsome with hconsumed | ⟨g, hg, hne⟩
      · exact .inl hconsumed
      · rw [hfraction, Option.mem_some_iff] at hg
        rw [hg]
        exact .inr hne
  unfold body
  rcases n.wholeDigits with hwhole | hwhole
  · have hsome := n.someDigit.resolve_left fun hne => hne hwhole
    rw [hwhole, List.nil_append]
    refine hafter {} (.inr hsome) fun hnone => ?_
    obtain ⟨f, hf, -⟩ := hsome
    rw [hnone] at hf
    cases hf
  · rw [digitLoop_grouped hwhole hends]
    exact congrArg _ (funext fun state => hafter state (.inl rfl) fun _ => rfl)

theorem mem_grouped {t : Text} (h : Grouped t) {c : Char} (hc : c ∈ t) : c.isDigit = true ∨ c = '_' := by
  induction h with
  | last hd =>
    rw [List.mem_singleton.mp hc]
    exact .inl hd
  | digit hd _ ih =>
    rcases List.mem_cons.mp hc with rfl | hc
    · exact .inl hd
    · exact ih hc
  | separated hd _ ih =>
    rcases List.mem_cons.mp hc with rfl | hc
    · exact .inl hd
    rcases List.mem_cons.mp hc with rfl | hc
    · exact .inr rfl
    · exact ih hc

theorem mem_body {c : Char} (hc : c ∈ n.body) :
    c.isDigit = true ∨ c = '_' ∨ c = '.' ∨ isSpace c = true := by
  have hgroup : ∀ {t : Text}, t = [] ∨ Grouped t → c ∈ t → c.isDigit = true ∨ c = '_' ∨ c = '.' ∨ isSpace c = true := by
    rintro t (rfl | ht) hmem
    · cases hmem
    · rcases mem_grouped ht hmem with hdigit | hunderscore
      · exact .inl hdigit
      · exact .inr (.inl hunderscore)
  unfold body point at hc
  rcases List.mem_append.mp hc with hwhole | hc
  · exact hgroup n.wholeDigits hwhole
  rcases List.mem_append.mp hc with hpoint | htrailing
  · cases hfraction : n.fraction with
    | none =>
      rw [hfraction] at hpoint
      cases hpoint
    | some f =>
      rw [hfraction] at hpoint
      rcases List.mem_cons.mp hpoint with hpoint | hf
      · exact .inr (.inr (.inl hpoint))
      · exact hgroup (n.fractionDigits f hfraction) hf
  · exact .inr (.inr (.inr (List.all_eq_true.mp n.trailingSpaces c htrailing)))

theorem exists_body : ∃ c rest, n.body = c :: rest ∧ (c.isDigit = true ∨ c = '.') := by
  unfold body
  rcases n.wholeDigits with hwhole | hwhole
  · obtain ⟨f, hf, -⟩ := n.someDigit.resolve_left fun hne => hne hwhole
    refine ⟨'.', f ++ n.trailing, ?_, .inr rfl⟩
    rw [hwhole, point, hf]
    rfl
  · obtain ⟨c, rest, hcons, hc⟩ := hwhole.exists_cons
    exact ⟨c, _, by rw [hcons]; rfl, .inl hc⟩

theorem radixOf_body : radixOf n.body = none := by
  unfold radixOf
  split
  · next c rest heq =>
    have hmem : c ∈ n.body := by
      rw [heq]
      exact List.mem_cons_of_mem _ List.mem_cons_self
    have hletter : ∀ d : Char, d.isDigit = false → d ≠ '_' → d ≠ '.' → isSpace d = false → c ≠ d := by
      rintro d hdigit hunderscore hpoint hspace rfl
      rcases n.mem_body hmem with h | h | h | h
      · exact Bool.eq_false_iff.mp hdigit h
      · exact hunderscore h
      · exact hpoint h
      · exact Bool.eq_false_iff.mp hspace h
    rw [if_neg (not_or.mpr ⟨hletter 'x' rfl (by decide) (by decide) rfl, hletter 'X' rfl (by decide) (by decide) rfl⟩),
      if_neg (not_or.mpr ⟨hletter 'b' rfl (by decide) (by decide) rfl, hletter 'B' rfl (by decide) (by decide) rfl⟩)]
  · rfl

theorem dropWhile_text : n.text.dropWhile isSpace = n.sign.text ++ n.body := by
  unfold text
  rw [List.dropWhile_append_of_pos fun c hc => List.all_eq_true.mp n.leadingSpaces c hc]
  obtain ⟨c, rest, hbody, hc⟩ := n.exists_body
  cases n.sign with
  | plus => rfl
  | minus => rfl
  | absent =>
    have hspace : isSpace c ≠ true := by
      intro hspace
      obtain ⟨hdigit, -, hpoint⟩ := not_isDigit_of_isSpace hspace
      rcases hc with hc | hc
      · exact Bool.eq_false_iff.mp hdigit hc
      · exact hpoint hc
    rw [Sign.text, List.nil_append, hbody, List.dropWhile_cons_of_neg hspace]

theorem tryCastWith_text (hsign : n.negative = true → cast.store.signed = true) :
    cast.tryCastWith readExponent n.text =
      ((cast.readDigits n.negative (ungrouped n.whole) {}).bind fun state =>
        (cast.readDecimals n.decimals state).bind (cast.done n.negative true)).map State.result := by
  obtain ⟨c, rest, hbody, hc⟩ := n.exists_body
  unfold tryCastWith
  rw [n.dropWhile_text, ← n.digitLoop_body]
  unfold negative at hsign ⊢
  cases hs : n.sign with
  | minus =>
    rw [hs] at hsign
    have hsigned := hsign rfl
    dsimp only [Sign.text, List.singleton_append]
    rw [hsigned]
    rfl
  | plus =>
    dsimp only [Sign.text, List.singleton_append]
    rfl
  | absent =>
    have hnot : ∀ d : Char, d.isDigit = false → d ≠ '.' → c ≠ d := by
      rintro d hdigit hpoint rfl
      rcases hc with hc | hc
      · exact Bool.eq_false_iff.mp hdigit hc
      · exact hpoint hc
    have hplus : (n.body.head? == some '+') = false := by
      rw [hbody]
      exact beq_eq_false_iff_ne.mpr fun heq => hnot '+' rfl (by decide) (Option.some.inj heq)
    rw [Sign.text, List.nil_append]
    dsimp only
    split
    · next heq =>
      rw [hbody] at heq
      cases heq
    · next r heq =>
      rw [hbody] at heq
      exact absurd (List.cons.inj heq).1 (hnot '-' rfl (by decide))
    · rw [n.radixOf_body]
      unfold castLoop
      rw [hplus]
      rfl

end Number

end DuckLake.DuckdbCast
