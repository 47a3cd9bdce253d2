import DuckLake.Lib.Checked
import DuckLake.Lib.Fraction
import DuckLake.Lib.Utf8
import DuckLake.Types.Arrow

/- Numbers of Hive partition paths (`table.rs`).

   A partition value of a decimal column may be written with an exponent, which Arrow's
   decimal reader does not take. The number is rewritten by moving the point of its digits:
   before them, behind them or between two of them, with zeros where it leaves them.

   What ends the function early is a `Stop`: it returns nothing, or panics. Slices panic off
   a character's start, integers out of their range (as with overflow checks on), a string
   that outgrows the address range.

   Correspondence (Rust ↔ Lean):
     `normalize_hive_exponent_decimal`   ↔ `normalizeHiveExponentDecimal`, `movePoint` from its digits on
     `str::find`, `str::split('.')`      ↔ `Utf8.find`, `components`
     `&value[..i]`, `&value[i..]`        ↔ `sliceTo`, `sliceFrom` -/

namespace DuckLake.Hive

open Numeral DuckLake.Types

/-! ## The rewriting -/

inductive Stop where
  | nothing
  | panicked
  deriving DecidableEq, Repr

/-- `?` on an option. -/
def orNothing {α : Type} : Option α → Except Stop α
  | some a => .ok a
  | none => .error .nothing

def sliceTo (t : Text) (i : Nat) : Except Stop Text :=
  match Utf8.splitAtChecked i t with
  | some (before, _) => .ok before
  | none => .error .panicked

def sliceFrom (t : Text) (i : Nat) : Except Stop Text :=
  match Utf8.splitAtChecked i t with
  | some (_, after) => .ok after
  | none => .error .panicked

def maxI64 : Int := 2 ^ 63 - 1

/-- A sum, difference or negation of 64-bit integers. -/
def i64 (n : Int) : Except Stop Int := if -maxI64 - 1 ≤ n ∧ n ≤ maxI64 then .ok n else .error .panicked

/-- `i64::try_from` of a length. -/
def lengthI64 (n : Nat) : Except Stop Int := if (n : Int) ≤ maxI64 then .ok n else .error .nothing

/-- A string's bytes end within the address range. -/
def allocated (n : Nat) : Except Stop Unit := Checked.refuseIf (maxI64 < n) .panicked

def saturatingAdd (a b : Nat) : Nat := min (a + b) (2 ^ 64 - 1)

def decimalFormat : ArrowType → Option (UInt8 × Int8)
  | .leaf (.decimal128 precision scale) => some (precision, scale)
  | .leaf (.decimal256 precision scale) => some (precision, scale)
  | _ => none

def isExponentMark (c : Char) : Bool := c == 'e' || c == 'E'

def stripSign : Text → Bool × Text
  | '-' :: t => (true, t)
  | '+' :: t => (false, t)
  | t => (false, t)

/-- The digits before and after the point. -/
def components (t : Text) : Option (Text × Text) :=
  match t.splitOn '.' with
  | [whole] => some (whole, [])
  | [whole, fraction] => some (whole, fraction)
  | _ => none

def signText (negative : Bool) : Text := if negative then ['-'] else []

/-- The zeros that may be written for a number. -/
def maxExpansion (precision : UInt8) (scale : Int8) (digits : Text) : Nat :=
  saturatingAdd (saturatingAdd (saturatingAdd precision.toNat scale.toInt.natAbs) digits.length) 2

/-- The digits with their point at `decimalIndex`. -/
def pointed (digits : Text) (decimalIndex : Int) (leadingZeros trailingZeros : Nat) : Except Stop Text :=
  if decimalIndex ≤ 0 then .ok ("0.".toList ++ (List.replicate leadingZeros '0' ++ digits))
  else if digits.length ≤ decimalIndex.toNat then .ok (digits ++ List.replicate trailingZeros '0')
  else do
    let before ← sliceTo digits decimalIndex.toNat
    let after ← sliceFrom digits decimalIndex.toNat
    return before ++ '.' :: after

def movePoint (precision : UInt8) (scale : Int8) (negative : Bool) (whole fraction : Text) (exponent : Int) :
    Except Stop Text := do
  let digits := whole ++ fraction
  let wholeLength ← lengthI64 whole.length
  let decimalIndex ← i64 (wholeLength + exponent)
  let leadingZeros := (max (← i64 (-decimalIndex)) 0).toNat
  let digitsLength ← lengthI64 digits.length
  let trailingZeros := (max (← i64 (decimalIndex - digitsLength)) 0).toNat
  Checked.refuseIf (maxExpansion precision scale digits < leadingZeros ∨
    maxExpansion precision scale digits < trailingZeros) .nothing
  allocated (digits.length + min (maxExpansion precision scale digits) 32)
  let body ← pointed digits decimalIndex leadingZeros trailingZeros
  allocated (signText negative ++ body).length
  return signText negative ++ body

def normalizeHiveExponentDecimal (value : Text) (dataType : ArrowType) : Except Stop Text := do
  let (precision, scale) ← orNothing (decimalFormat dataType)
  let exponentIndex ← orNothing (Utf8.find isExponentMark value)
  let after ← sliceFrom value (exponentIndex + 1)
  Checked.refuseIf (after.any isExponentMark = true) .nothing
  let exponent ← orNothing (parseIntIn (-2 ^ 31) (2 ^ 31 - 1) after)
  let mantissa ← sliceTo value exponentIndex
  let (whole, fraction) ← orNothing (components (stripSign mantissa).2)
  Checked.refuseIf (whole ++ fraction = [] ∨ (whole ++ fraction).all Char.isDigit = false) .nothing
  movePoint precision scale (stripSign mantissa).1 whole fraction exponent

/-! ## What a number denotes -/

/-- A plain number: a sign, and digits with at most one point. -/
def plainDenoted (t : Text) : Option ℚ := do
  let (whole, fraction) ← components (stripSign t).2
  let _ ← parseNat (whole ++ fraction)
  return (if (stripSign t).1 then -1 else 1) * decimal whole fraction

/-- A mantissa times a power of ten. -/
def scientificDenoted (t : Text) : Option ℚ :=
  match t.dropWhile (!isExponentMark ·) with
  | [] => none
  | _ :: exponent => do
    let mantissa ← plainDenoted (t.takeWhile (!isExponentMark ·))
    let exponent ← parseInt exponent
    return mantissa * 10 ^ exponent

/-! ## The digits written -/

theorem orNothing_eq_ok {α : Type} {o : Option α} {a : α} : orNothing o = .ok a ↔ o = some a := by
  cases o <;> simp [orNothing]

theorem i64_eq_ok {n m : Int} : i64 n = .ok m ↔ (-maxI64 - 1 ≤ n ∧ n ≤ maxI64) ∧ n = m := by
  unfold i64
  split <;> simp_all

theorem lengthI64_eq_ok {n : Nat} {m : Int} : lengthI64 n = .ok m ↔ (n : Int) ≤ maxI64 ∧ (n : Int) = m := by
  unfold lengthI64
  split <;> simp_all

theorem sliceTo_eq_ok {t before : Text} {i : Nat} (h : sliceTo t i = .ok before) :
    ∃ after, t = before ++ after ∧ (Utf8.encode before).length = i ∧ sliceFrom t i = .ok after := by
  unfold sliceTo at h
  unfold sliceFrom
  split at h
  · next a b hsplit =>
    cases h
    obtain ⟨ht, hlength⟩ := Utf8.splitAtChecked_eq_some hsplit
    exact ⟨b, ht, hlength, rfl⟩
  · cases h

theorem slice_append (before after : Text) : sliceTo (before ++ after) (Utf8.encode before).length = .ok before ∧
    sliceFrom (before ++ after) (Utf8.encode before).length = .ok after := by
  unfold sliceTo sliceFrom
  rw [Utf8.splitAtChecked_append]
  exact ⟨rfl, rfl⟩

theorem ascii_of_digits {t : Text} (h : t.all Char.isDigit = true) : ∀ c ∈ t, c.toNat < 0x80 :=
  fun c hc => ascii_of_isDigit (List.all_eq_true.mp h c hc)

theorem length_encode_digits {t : Text} (h : t.all Char.isDigit = true) : (Utf8.encode t).length = t.length := by
  rw [Utf8.encode_ascii (ascii_of_digits h), List.length_map]

/-- A number as it is written: digits, with others behind a point or without one. -/
structure Written (bound : Nat) (body whole fraction : Text) : Prop where
  started : whole ≠ []
  digits : (whole ++ fraction).all Char.isDigit = true
  point : fraction = [] ∧ body = whole ∨ body = whole ++ '.' :: fraction
  short : body.length ≤ bound + 2

theorem all_append_zeros {t : Text} (h : t.all Char.isDigit = true) (k : Nat) :
    (List.replicate k '0' ++ t).all Char.isDigit = true ∧ (t ++ List.replicate k '0').all Char.isDigit = true := by
  have hzeros : (List.replicate k '0').all Char.isDigit = true := by
    rw [List.all_replicate]
    split <;> rfl
  simp only [List.all_append, h, hzeros, Bool.and_self, and_self]

theorem pointed_eq_ok {whole fraction body : Text} {exponent decimalIndex : Int} {leadingZeros trailingZeros : Nat}
    (hne : whole ++ fraction ≠ []) (hdigits : (whole ++ fraction).all Char.isDigit = true)
    (hindex : whole.length + exponent = decimalIndex) (hleading : leadingZeros = (max (-decimalIndex) 0).toNat)
    (htrailing : trailingZeros = (max (decimalIndex - (whole ++ fraction).length) 0).toNat)
    (h : pointed (whole ++ fraction) decimalIndex leadingZeros trailingZeros = .ok body) :
    ∃ whole' fraction', Written ((whole ++ fraction).length + max leadingZeros trailingZeros) body whole' fraction' ∧
      decimal whole' fraction' = decimal whole fraction * 10 ^ exponent := by
  have hlength : (whole ++ fraction).length = whole.length + fraction.length := List.length_append
  unfold pointed at h
  split at h
  · -- the point stands before all digits
    next hle =>
    cases h
    refine ⟨['0'], List.replicate leadingZeros '0' ++ (whole ++ fraction),
      ⟨List.cons_ne_nil _ _, ?_, .inr rfl, ?_⟩, decimal_mul_zpow (k := 0) ?_ ?_⟩
    · rw [List.all_append, (all_append_zeros hdigits _).1]
      rfl
    · rw [List.length_append, List.length_append, List.length_replicate]
      have htwo : "0.".toList.length = 2 := rfl
      omega
    · rw [value_append, value_append, value_zeros, pow_zero, mul_one, Nat.zero_mul, Nat.zero_add]
      exact Nat.add_eq_right.mpr (by rw [show value ['0'] = 0 from rfl, Nat.zero_mul])
    · rw [List.length_append, List.length_replicate, hlength]
      push_cast
      omega
  split at h
  · -- the point stands behind all digits
    next hlt hle =>
    cases h
    refine ⟨whole ++ fraction ++ List.replicate trailingZeros '0', [], ⟨?_, ?_, .inl ⟨rfl, rfl⟩, ?_⟩,
      decimal_mul_zpow (k := trailingZeros) ?_ ?_⟩
    · intro hnil
      exact hne (List.append_eq_nil_iff.mp hnil).1
    · rw [List.append_nil]
      exact (all_append_zeros hdigits _).2
    · rw [List.length_append, List.length_replicate]
      omega
    · rw [List.append_nil, value_append, List.length_replicate, value_zeros, Nat.add_zero]
    · rw [List.length_nil]
      omega
  · -- the point stands between two digits
    next hlt hbetween =>
    simp only [Checked.bind_eq_ok, Checked.pure_eq_ok] at h
    obtain ⟨before, hbefore, after, hafter, rfl⟩ := h
    obtain ⟨after', hsplit, hplace, hafter'⟩ := sliceTo_eq_ok hbefore
    rw [hafter', Except.ok.injEq] at hafter
    subst hafter
    have hall := hdigits
    rw [hsplit, List.all_append, Bool.and_eq_true] at hall
    rw [length_encode_digits hall.1] at hplace
    have hsum : before.length + after'.length = (whole ++ fraction).length := by rw [hsplit, List.length_append]
    refine ⟨before, after', ⟨?_, ?_, .inr rfl, ?_⟩, decimal_mul_zpow (k := 0) ?_ ?_⟩
    · intro hnil
      rw [hnil, List.length_nil] at hplace
      omega
    · rw [← hsplit]
      exact hdigits
    · rw [List.length_append, List.length_cons]
      omega
    · rw [← hsplit, pow_zero, mul_one]
    · omega

theorem movePoint_eq_ok {precision : UInt8} {scale : Int8} {negative : Bool} {whole fraction t : Text} {exponent : Int}
    (hne : whole ++ fraction ≠ []) (hdigits : (whole ++ fraction).all Char.isDigit = true)
    (h : movePoint precision scale negative whole fraction exponent = .ok t) :
    ∃ bound body whole' fraction',
      bound ≤ (whole ++ fraction).length + maxExpansion precision scale (whole ++ fraction) ∧
      Written bound body whole' fraction' ∧ t = signText negative ++ body ∧
      decimal whole' fraction' = decimal whole fraction * 10 ^ exponent := by
  unfold movePoint at h
  simp only [Checked.bind_eq_ok, lengthI64_eq_ok, i64_eq_ok, Checked.refuseIf_eq_ok, not_or, Nat.not_lt] at h
  obtain ⟨-, ⟨-, rfl⟩, decimalIndex, ⟨-, hindex⟩, -, ⟨-, rfl⟩, -, ⟨-, rfl⟩, -, ⟨-, rfl⟩, -, ⟨hleading, htrailing⟩,
    -, -, body, hbody, -, -, ht⟩ := h
  obtain ⟨whole', fraction', hwritten, hvalue⟩ := pointed_eq_ok hne hdigits hindex rfl rfl hbody
  refine ⟨_, body, whole', fraction', ?_, hwritten, (Checked.pure_eq_ok.mp ht).symm, hvalue⟩
  omega

/-! ## Reading it back -/

namespace Written

variable {bound : Nat} {body whole fraction : Text} (h : Written bound body whole fraction)
include h

theorem digit_of_mem {c : Char} (hc : c ∈ whole ++ fraction) :
    c.isDigit = true := List.all_eq_true.mp h.digits c hc

theorem notMem {c : Char} (hdigit : c.isDigit = false) :
    c ∉ whole ∧ c ∉ fraction := by
  refine ⟨fun hc => ?_, fun hc => ?_⟩
  · rw [h.digit_of_mem (List.mem_append_left _ hc)] at hdigit
    cases hdigit
  · rw [h.digit_of_mem (List.mem_append_right _ hc)] at hdigit
    cases hdigit

theorem components : components body = some (whole, fraction) := by
  obtain ⟨hwhole, hfraction⟩ := h.notMem (c := '.') (by decide)
  unfold Hive.components
  rcases h.point with ⟨rfl, rfl⟩ | rfl
  · rw [List.splitOn_eq_singleton hwhole]
  · rw [List.splitOn_append_cons_self, List.splitOn_eq_singleton hwhole, List.splitOn_eq_singleton hfraction]
    rfl

theorem stripSign (negative : Bool) :
    stripSign (signText negative ++ body) = (negative, body) := by
  obtain ⟨c, rest, hc⟩ : ∃ c rest, whole = c :: rest := List.exists_cons_of_ne_nil h.started
  have hdigit : c.isDigit = true := h.digit_of_mem (by rw [hc]; exact List.mem_cons_self)
  obtain ⟨rest', hbody⟩ : ∃ rest', body = c :: rest' := by
    rcases h.point with ⟨-, rfl⟩ | rfl
    · exact ⟨rest, hc⟩
    · exact ⟨rest ++ '.' :: fraction, by rw [hc]; rfl⟩
  cases negative with
  | true => rfl
  | false =>
    show Hive.stripSign body = _
    unfold Hive.stripSign
    split
    · rw [← (List.cons.inj hbody).1] at hdigit
      cases hdigit
    · rw [← (List.cons.inj hbody).1] at hdigit
      cases hdigit
    · rfl

theorem plainDenoted (negative : Bool) :
    plainDenoted (signText negative ++ body) = some ((if negative then -1 else 1) * decimal whole fraction) := by
  have hne : whole ++ fraction ≠ [] := fun hnil => h.started (List.append_eq_nil_iff.mp hnil).1
  unfold Hive.plainDenoted
  rw [h.stripSign, h.components]
  dsimp only [Option.bind_eq_bind, Option.bind_some]
  rw [parseNat_of_isDigit hne h.digits]
  rfl

theorem mem_cases {negative : Bool} {c : Char}
    (hc : c ∈ signText negative ++ body) : c = '-' ∨ c = '.' ∨ c.isDigit = true := by
  rcases List.mem_append.mp hc with hsign | hbody
  · unfold signText at hsign
    split at hsign
    · exact .inl (List.mem_singleton.mp hsign)
    · cases hsign
  · rcases h.point with ⟨-, rfl⟩ | rfl
    · exact .inr (.inr (h.digit_of_mem (List.mem_append_left _ hbody)))
    · rcases List.mem_append.mp hbody with hwhole | hrest
      · exact .inr (.inr (h.digit_of_mem (List.mem_append_left _ hwhole)))
      rcases List.mem_cons.mp hrest with hpoint | hfraction
      · exact .inr (.inl hpoint)
      · exact .inr (.inr (h.digit_of_mem (List.mem_append_right _ hfraction)))

theorem noExponent (negative : Bool) :
    (signText negative ++ body).any isExponentMark = false := by
  rw [List.any_eq_false]
  intro c hc hmark
  have hletter : c = 'e' ∨ c = 'E' := by simpa [isExponentMark] using hmark
  rcases h.mem_cases hc with rfl | rfl | hdigit
  · revert hletter
    decide
  · revert hletter
    decide
  · rcases hletter with rfl | rfl <;> cases hdigit

theorem length_encode (negative : Bool) :
    (Utf8.encode (signText negative ++ body)).length = (signText negative ++ body).length := by
  rw [Utf8.encode_ascii, List.length_map]
  intro c hc
  rcases h.mem_cases hc with rfl | rfl | hdigit
  · decide
  · decide
  · have hle := (Char.isDigit_iff_toNat.mp hdigit).2
    have h9 : '9'.toNat = 57 := rfl
    omega

end Written

theorem slice_mark {mark : Char} (hmark : isExponentMark mark = true) (mantissa after : Text) :
    sliceTo (mantissa ++ mark :: after) (Utf8.encode mantissa).length = .ok mantissa ∧
      sliceFrom (mantissa ++ mark :: after) ((Utf8.encode mantissa).length + 1) = .ok after := by
  have hletter : mark = 'e' ∨ mark = 'E' := by simpa [isExponentMark] using hmark
  have hlength : (Utf8.encode (mantissa ++ [mark])).length = (Utf8.encode mantissa).length + 1 := by
    rw [Utf8.encode_append, List.length_append]
    rcases hletter with rfl | rfl <;> rfl
  have hcut := (slice_append (mantissa ++ [mark]) after).2
  rw [hlength, List.append_assoc] at hcut
  exact ⟨(slice_append mantissa (mark :: after)).1, hcut⟩

theorem normalize_cases {value t : Text} {dataType : ArrowType}
    (h : normalizeHiveExponentDecimal value dataType = .ok t) :
    ∃ precision scale mantissa mark after exponent whole fraction,
      decimalFormat dataType = some (precision, scale) ∧ value = mantissa ++ mark :: after ∧
      isExponentMark mark = true ∧ (∀ c ∈ mantissa, isExponentMark c = false) ∧
      parseIntIn (-2 ^ 31) (2 ^ 31 - 1) after = some exponent ∧
      components (stripSign mantissa).2 = some (whole, fraction) ∧ whole ++ fraction ≠ [] ∧
      (whole ++ fraction).all Char.isDigit = true ∧
      movePoint precision scale (stripSign mantissa).1 whole fraction exponent = .ok t := by
  unfold normalizeHiveExponentDecimal at h
  simp only [Checked.bind_eq_ok, orNothing_eq_ok, Checked.refuseIf_eq_ok, not_or, Bool.not_eq_false] at h
  obtain ⟨⟨precision, scale⟩, hformat, index, hfind, after, hafter, -, -, exponent, hexponent, mantissa, hmantissa,
    ⟨whole, fraction⟩, hcomponents, -, ⟨hne, hdigits⟩, hmove⟩ := h
  obtain ⟨before, mark, rest, rfl, hmark, hbefore, rfl⟩ := Utf8.find_eq_some hfind
  obtain ⟨hto, hfrom⟩ := slice_mark hmark before rest
  rw [hto, Except.ok.injEq] at hmantissa
  rw [hfrom, Except.ok.injEq] at hafter
  subst hmantissa
  subst hafter
  exact ⟨precision, scale, before, mark, rest, exponent, whole, fraction, hformat, rfl, hmark, hbefore, hexponent,
    hcomponents, hne, hdigits, hmove⟩

theorem parseIntIn_range {lo hi n : Int} {t : Text} (h : parseIntIn lo hi t = some n) :
    parseInt t = some n ∧ lo ≤ n ∧ n ≤ hi := by
  obtain ⟨hparse, hrange⟩ := Option.filter_eq_some_iff.mp h
  exact ⟨hparse, decide_eq_true_eq.mp hrange⟩

theorem scientificDenoted_eq {mantissa after whole fraction : Text} {mark : Char} {exponent : Int}
    (hmark : isExponentMark mark = true) (hmantissa : ∀ c ∈ mantissa, isExponentMark c = false)
    (hexponent : parseIntIn (-2 ^ 31) (2 ^ 31 - 1) after = some exponent)
    (hcomponents : components (stripSign mantissa).2 = some (whole, fraction)) (hne : whole ++ fraction ≠ [])
    (hdigits : (whole ++ fraction).all Char.isDigit = true) :
    scientificDenoted (mantissa ++ mark :: after) =
      some ((if (stripSign mantissa).1 then -1 else 1) * decimal whole fraction * 10 ^ exponent) := by
  have hnot : ∀ c ∈ mantissa, (!isExponentMark c) = true := fun c hc => by rw [hmantissa c hc]; rfl
  have hstop : ¬ (!isExponentMark mark) = true := by rw [hmark]; decide
  have hparse : parseInt after = some exponent := (parseIntIn_range hexponent).1
  have hplain : plainDenoted mantissa =
      some ((if (stripSign mantissa).1 then -1 else 1) * decimal whole fraction) := by
    unfold plainDenoted
    rw [hcomponents]
    dsimp only [Option.bind_eq_bind, Option.bind_some]
    rw [parseNat_of_isDigit hne hdigits]
    rfl
  have hdrop : (mantissa ++ mark :: after).dropWhile (!isExponentMark ·) = mark :: after := by
    rw [List.dropWhile_append_of_pos hnot]
    exact List.dropWhile_cons_of_neg hstop
  have htake : (mantissa ++ mark :: after).takeWhile (!isExponentMark ·) = mantissa := by
    rw [List.takeWhile_append_of_pos hnot, List.takeWhile_cons_of_neg (p := fun c => !isExponentMark c) hstop,
      List.append_nil]
  unfold scientificDenoted
  rw [hdrop, htake, hplain]
  dsimp only [Option.bind_eq_bind, Option.bind_some]
  rw [hparse]
  rfl

theorem length_components {t whole fraction : Text} (h : components t = some (whole, fraction)) :
    (whole ++ fraction).length ≤ t.length := by
  have hjoin : ['.'].intercalate (t.splitOn '.') = t := List.intercalate_splitOn '.'
  unfold components at h
  split at h
  · next w hsplit =>
    cases h
    rw [hsplit] at hjoin
    rw [← hjoin, List.append_nil]
    simp [List.intercalate]
  · next w f hsplit =>
    cases h
    rw [hsplit] at hjoin
    rw [← hjoin]
    simp [List.intercalate]
  · cases h

theorem length_stripSign (t : Text) : (signText (stripSign t).1).length + (stripSign t).2.length ≤ t.length := by
  unfold stripSign
  split
  · exact Nat.le_of_eq (Nat.add_comm 1 _)
  · exact (Nat.zero_add _).trans_le (Nat.le_succ _)
  · exact Nat.le_of_eq (Nat.zero_add _)

/-! ## No panic -/

/-- A computation that does not panic. -/
def Total {α : Type} (x : Except Stop α) : Prop := x ≠ .error .panicked

namespace Total

theorem bind {α β : Type} {x : Except Stop α} {f : α → Except Stop β} (hx : Total x)
    (hf : ∀ a, x = .ok a → Total (f a)) : Total (x >>= f) := by
  cases x with
  | ok a => exact hf a rfl
  | error e =>
    intro h
    have herror : (Except.error e : Except Stop β) = .error .panicked := h
    cases herror
    exact hx rfl

theorem ok {α : Type} (a : α) : Total (.ok a : Except Stop α) := nofun

theorem orNothing {α : Type} (o : Option α) : Total (orNothing o) := by
  cases o <;> nofun

theorem refuse (p : Prop) [Decidable p] : Total (Checked.refuseIf p .nothing) := by
  unfold Checked.refuseIf
  split <;> nofun

theorem lengthI64 (n : Nat) : Total (lengthI64 n) := by
  unfold Hive.lengthI64
  split <;> nofun

theorem i64 {n : Int} (h : -maxI64 - 1 ≤ n ∧ n ≤ maxI64) : Total (i64 n) := by
  unfold Hive.i64
  rw [if_pos h]
  nofun

theorem allocated {n : Nat} (h : (n : Int) ≤ maxI64) : Total (allocated n) := by
  unfold Hive.allocated Checked.refuseIf
  rw [if_neg (by omega)]
  nofun

end Total

theorem total_pointed {digits : Text} (hdigits : digits.all Char.isDigit = true) (decimalIndex : Int)
    (leadingZeros trailingZeros : Nat) : Total (pointed digits decimalIndex leadingZeros trailingZeros) := by
  unfold pointed
  split
  · exact .ok _
  split
  · exact .ok _
  · next hle =>
    have hascii : (digits.take decimalIndex.toNat).all Char.isDigit = true :=
      List.all_eq_true.mpr fun c hc => List.all_eq_true.mp hdigits c (List.mem_of_mem_take hc)
    have hplace : (Utf8.encode (digits.take decimalIndex.toNat)).length = decimalIndex.toNat := by
      rw [length_encode_digits hascii, List.length_take]
      omega
    have hcut := slice_append (digits.take decimalIndex.toNat) (digits.drop decimalIndex.toNat)
    rw [hplace, List.take_append_drop] at hcut
    rw [hcut.1, hcut.2]
    exact .ok _

theorem maxExpansion_le (precision : UInt8) (scale : Int8) (digits : Text) :
    maxExpansion precision scale digits ≤ precision.toNat + scale.toInt.natAbs + digits.length + 2 := by
  unfold maxExpansion saturatingAdd
  omega

theorem length_signText (negative : Bool) : (signText negative).length ≤ 1 := by
  cases negative <;> decide

theorem total_movePoint {precision : UInt8} {scale : Int8} {negative : Bool} {whole fraction : Text} {exponent : Int}
    (hne : whole ++ fraction ≠ []) (hdigits : (whole ++ fraction).all Char.isDigit = true)
    (hlength : (whole ++ fraction).length ≤ 2 ^ 61)
    (hexponent : -2 ^ 31 ≤ exponent ∧ exponent ≤ 2 ^ 31 - 1) :
    Total (movePoint precision scale negative whole fraction exponent) := by
  have hwhole : whole.length ≤ (whole ++ fraction).length := by
    rw [List.length_append]
    omega
  have hprecision := precision.toNat_lt
  have hscale : scale.toInt.natAbs ≤ 128 := by
    have := scale.le_toInt
    have := scale.toInt_lt
    omega
  have hexpansion := maxExpansion_le precision scale (whole ++ fraction)
  unfold movePoint
  refine .bind (.lengthI64 _) fun wholeLength hlen => ?_
  obtain ⟨-, rfl⟩ := lengthI64_eq_ok.mp hlen
  refine .bind (.i64 (by unfold maxI64; omega)) fun decimalIndex hindex => ?_
  obtain ⟨-, rfl⟩ := i64_eq_ok.mp hindex
  refine .bind (.i64 (by unfold maxI64; omega)) fun leading hleading => ?_
  obtain ⟨-, rfl⟩ := i64_eq_ok.mp hleading
  refine .bind (.lengthI64 _) fun digitsLength hlen' => ?_
  obtain ⟨-, rfl⟩ := lengthI64_eq_ok.mp hlen'
  refine .bind (.i64 (by unfold maxI64; omega)) fun trailing htrailing => ?_
  obtain ⟨-, rfl⟩ := i64_eq_ok.mp htrailing
  refine .bind (.refuse _) fun _ hexpanded => ?_
  rw [Checked.refuseIf_eq_ok, not_or, Nat.not_lt, Nat.not_lt] at hexpanded
  refine .bind (.allocated (by unfold maxI64; omega)) fun _ _ => ?_
  refine .bind (total_pointed hdigits _ _ _) fun body hbody => ?_
  obtain ⟨_, _, hwritten, -⟩ := pointed_eq_ok hne hdigits rfl rfl rfl hbody
  have hshort := hwritten.short
  have hsign := length_signText negative
  refine .bind (.allocated ?_) fun _ _ => .ok _
  rw [List.length_append]
  unfold maxI64
  omega

theorem total_normalize {value : Text} (dataType : ArrowType) (hlength : (Utf8.encode value).length ≤ 2 ^ 61) :
    Total (normalizeHiveExponentDecimal value dataType) := by
  unfold normalizeHiveExponentDecimal
  refine .bind (.orNothing _) fun ⟨precision, scale⟩ _ => ?_
  refine .bind (.orNothing _) fun index hfind => ?_
  obtain ⟨mantissa, mark, after, rfl, hmark, -, rfl⟩ := Utf8.find_eq_some (orNothing_eq_ok.mp hfind)
  obtain ⟨hto, hfrom⟩ := slice_mark hmark mantissa after
  have hmantissa : mantissa.length ≤ (Utf8.encode (mantissa ++ mark :: after)).length := by
    rw [Utf8.encode_append, List.length_append]
    exact (Utf8.length_le_encode mantissa).trans (Nat.le_add_right _ _)
  rw [hto, hfrom]
  refine .bind (.ok _) fun _ _ => .bind (.refuse _) fun _ _ => .bind (.orNothing _) fun exponent hexponent => ?_
  refine .bind (.ok _) fun _ hok => ?_
  cases hok
  refine .bind (.orNothing _) fun ⟨whole, fraction⟩ hcomponents => .bind (.refuse _) fun _ hchecked => ?_
  rw [Checked.refuseIf_eq_ok, not_or, Bool.not_eq_false] at hchecked
  have hdigits := length_components (orNothing_eq_ok.mp hcomponents)
  have hsign := length_stripSign mantissa
  exact total_movePoint hchecked.1 hchecked.2 (by omega) (parseIntIn_range (orNothing_eq_ok.mp hexponent)).2

/-- Rewriting a number keeps its value, and its length within bounds; it does not panic for any text that a machine
    can hold. -/
theorem hive_number_exact (value : Text) (dataType : ArrowType) :
    (∀ t, normalizeHiveExponentDecimal value dataType = .ok t →
      ∃ precision scale x, decimalFormat dataType = some (precision, scale) ∧ scientificDenoted value = some x ∧
        plainDenoted t = some x ∧ t.any isExponentMark = false ∧
        (Utf8.encode t).length ≤ 2 * (Utf8.encode value).length + precision.toNat + scale.toInt.natAbs) ∧
    ((Utf8.encode value).length ≤ 2 ^ 61 → normalizeHiveExponentDecimal value dataType ≠ .error .panicked) := by
  refine ⟨fun t h => ?_, total_normalize dataType⟩
  obtain ⟨precision, scale, mantissa, mark, after, exponent, whole, fraction, hformat, rfl, hmark, hmantissa, hexponent,
    hcomponents, hne, hdigits, hmove⟩ := normalize_cases h
  obtain ⟨bound, body, whole', fraction', hbound, hwritten, rfl, hvalue⟩ := movePoint_eq_ok hne hdigits hmove
  have hdenoted := scientificDenoted_eq hmark hmantissa hexponent hcomponents hne hdigits
  refine ⟨precision, scale, _, hformat, hdenoted, ?_, hwritten.noExponent _, ?_⟩
  · rw [hwritten.plainDenoted, hvalue, mul_assoc]
  · have hafter : 1 ≤ after.length := by
      rcases after with _ | ⟨c, after⟩
      · cases hexponent
      · exact Nat.le_add_left 1 _
    have hvalueLength := Utf8.length_le_encode (mantissa ++ mark :: after)
    have hexpansion := maxExpansion_le precision scale (whole ++ fraction)
    have hshort := hwritten.short
    have hsplit := length_components hcomponents
    have hsign := length_stripSign mantissa
    rw [hwritten.length_encode, List.length_append]
    rw [List.length_append, List.length_cons] at hvalueLength
    omega

/-- A point moved before the digits, and the largest exponent there is. -/
theorem quarter_exact :
    normalizeHiveExponentDecimal "-1.25e-1".toList (.leaf (.decimal128 10 3)) = .ok "-0.125".toList ∧
    (∃ precision scale x, decimalFormat (.leaf (.decimal128 10 3)) = some (precision, scale) ∧
      scientificDenoted "-1.25e-1".toList = some x ∧ plainDenoted "-0.125".toList = some x ∧
      "-0.125".toList.any isExponentMark = false ∧ (Utf8.encode "-0.125".toList).length ≤
        2 * (Utf8.encode "-1.25e-1".toList).length + precision.toNat + scale.toInt.natAbs) ∧
    normalizeHiveExponentDecimal "1e2147483647".toList (.leaf (.decimal256 76 (-10))) ≠ .error .panicked := by
  have hok : normalizeHiveExponentDecimal "-1.25e-1".toList (.leaf (.decimal128 10 3)) = .ok "-0.125".toList := by
    decide +kernel
  exact ⟨hok, (hive_number_exact _ _).1 _ hok, (hive_number_exact _ _).2 (by decide +kernel)⟩

end DuckLake.Hive
