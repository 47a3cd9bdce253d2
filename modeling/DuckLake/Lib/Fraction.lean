import Mathlib.Algebra.Order.Field.Power
import Mathlib.Algebra.Order.Field.Rat
import Mathlib.Algebra.Order.Floor.Ring
import Mathlib.Data.Rat.Floor
import Mathlib.Tactic.FieldSimp
import Mathlib.Tactic.Linarith
import Mathlib.Tactic.Positivity
import DuckLake.Lib.Numeral

/- Digits after a decimal point, as the rational number they spell.

   Fractions without trailing zeros are ordered as their texts, one that is a part of
   another first, whatever text below every digit follows both of them. -/

namespace Numeral

/-- The number of digits after a point. -/
def fraction (t : List Char) : ℚ := value t / 10 ^ t.length

@[simp] theorem fraction_nil : fraction [] = 0 := by
  simp [fraction, value]

theorem fraction_cons (c : Char) (t : List Char) :
    fraction (c :: t) = ((c.toNat - '0'.toNat : Nat) + fraction t) / 10 := by
  unfold fraction
  rw [value_cons, List.length_cons, pow_succ]
  push_cast
  field_simp

theorem fraction_nonneg (t : List Char) : 0 ≤ fraction t := by
  unfold fraction
  positivity

theorem fraction_lt_one {t : List Char} (h : t.all Char.isDigit = true) : fraction t < 1 := by
  unfold fraction
  rw [div_lt_one (by positivity)]
  exact_mod_cast value_lt_pow h

/-- A fraction that does not end in zero is not zero. -/
theorem fraction_pos : ∀ {t : List Char}, t.all Char.isDigit = true → t ≠ [] → t.getLast? ≠ some '0' → 0 < fraction t
  | [], _, hne, _ => absurd rfl hne
  | [c], h, _, hlast => by
    simp only [List.all_cons, List.all_nil, Bool.and_true] at h
    have hc := Char.isDigit_iff_toNat.mp h
    have hzero : c.toNat ≠ '0'.toNat := fun heq => hlast (congrArg some (Char.toNat_inj.mp heq))
    have hpos : 0 < c.toNat - '0'.toNat := by omega
    rw [fraction_cons, fraction_nil]
    positivity
  | c :: d :: t, h, _, hlast => by
    simp only [List.all_cons, Bool.and_eq_true] at h
    rw [List.getLast?_cons_cons] at hlast
    have ih := fraction_pos (t := d :: t) (by simp [h]) (List.cons_ne_nil _ _) hlast
    rw [fraction_cons]
    positivity

theorem getLast?_of_cons {c : Char} {t : List Char} (h : (c :: t).getLast? ≠ some '0') : t.getLast? ≠ some '0' := by
  cases t with
  | nil => nofun
  | cons d t => rwa [List.getLast?_cons_cons] at h

/-- The order of two fractions, before a text that sorts below every digit. -/
theorem fraction_lt {finish : List Char} (hfinish : ∀ c : Char, c.isDigit = true → ∀ t, ¬ c :: t < finish) :
    ∀ {s t : List Char}, s.all Char.isDigit = true → t.all Char.isDigit = true → t.getLast? ≠ some '0' →
      s ++ finish < t ++ finish → fraction s < fraction t
  | [], [], _, _, _, h => absurd h (List.lt_irrefl _)
  | [], d :: t, _, ht, hlast, _ => by
    rw [fraction_nil]
    exact fraction_pos ht (List.cons_ne_nil _ _) hlast
  | c :: s, [], hs, _, _, h => by
    simp only [List.all_cons, Bool.and_eq_true] at hs
    exact absurd h (hfinish c hs.1 _)
  | c :: s, d :: t, hs, ht, hlast, h => by
    simp only [List.all_cons, Bool.and_eq_true] at hs ht
    rw [fraction_cons, fraction_cons]
    rcases List.cons_lt_cons_iff.mp h with hlt | ⟨rfl, hrest⟩
    · -- the first digit decides: what follows it is less than one of its units
      have hc := Char.isDigit_iff_toNat.mp hs.1
      have hstep : c.toNat - '0'.toNat + 1 ≤ d.toNat - '0'.toNat := by
        have : c.toNat < d.toNat := hlt
        omega
      have hstep' : ((c.toNat - '0'.toNat : Nat) : ℚ) + 1 ≤ (d.toNat - '0'.toNat : Nat) := by exact_mod_cast hstep
      have hone := fraction_lt_one hs.2
      have hzero := fraction_nonneg t
      linarith
    · have ih := fraction_lt hfinish hs.2 ht.2 (getLast?_of_cons hlast) hrest
      linarith

/-! ## Moving the point -/

/-- Digits before and after a point. -/
def decimal (whole fraction : List Char) : ℚ := value whole + Numeral.fraction fraction

theorem decimal_eq (whole fraction : List Char) :
    decimal whole fraction = value (whole ++ fraction) * (10 : ℚ) ^ (-(fraction.length : Int)) := by
  unfold decimal Numeral.fraction
  rw [value_append, zpow_neg, zpow_natCast]
  push_cast
  field_simp

/-- The digits alone decide a number up to the place of its point. -/
theorem decimal_mul_zpow {whole fraction whole' fraction' : List Char} {exponent : Int} {k : Nat}
    (hdigits : value (whole' ++ fraction') = value (whole ++ fraction) * 10 ^ k)
    (hpoint : (fraction'.length : Int) - k = fraction.length - exponent) :
    decimal whole' fraction' = decimal whole fraction * (10 : ℚ) ^ exponent := by
  rw [decimal_eq, decimal_eq, hdigits, mul_assoc, ← zpow_add₀ (by norm_num)]
  push_cast
  rw [mul_assoc, ← zpow_natCast, ← zpow_add₀ (by norm_num)]
  congr 2
  omega

/-! ## Rounding -/

/-- The first digit decides the half. -/
theorem half_le_fraction {c : Char} {t : List Char} (ht : t.all Char.isDigit = true) :
    1 / 2 ≤ fraction (c :: t) ↔ 5 ≤ c.toNat - '0'.toNat := by
  have hzero := fraction_nonneg t
  have hone := fraction_lt_one ht
  rw [fraction_cons]
  constructor
  · intro h
    by_contra hlt
    have hle : c.toNat - '0'.toNat ≤ 4 := by omega
    have hle' : ((c.toNat - '0'.toNat : Nat) : ℚ) ≤ 4 := by exact_mod_cast hle
    linarith
  · intro h
    have hle : (5 : ℚ) ≤ (c.toNat - '0'.toNat : Nat) := by exact_mod_cast h
    linarith

/-- The nearest integer, halves away from zero. -/
def roundAway (x : ℚ) : Int := if 0 ≤ x then ⌊x + 1 / 2⌋ else -⌊-x + 1 / 2⌋

theorem floor_decimal_half (whole : List Char) {digits : List Char} (h : digits.all Char.isDigit = true) :
    ⌊decimal whole digits + 1 / 2⌋ = (value whole + if 1 / 2 ≤ fraction digits then 1 else 0 : Nat) := by
  have hzero := fraction_nonneg digits
  have hone := fraction_lt_one h
  rw [Int.floor_eq_iff, decimal]
  push_cast
  split
  · constructor <;> linarith
  · constructor <;> linarith

theorem decimal_nonneg (whole digits : List Char) : 0 ≤ decimal whole digits :=
  add_nonneg (Nat.cast_nonneg _) (fraction_nonneg _)

theorem roundAway_decimal (negative : Bool) (whole : List Char) {digits : List Char}
    (h : digits.all Char.isDigit = true) :
    roundAway ((if negative then -1 else 1) * decimal whole digits) =
      (if negative then -1 else 1) * ((value whole + if 1 / 2 ≤ fraction digits then 1 else 0 : Nat) : Int) := by
  have hnonneg := decimal_nonneg whole digits
  have hfloor := floor_decimal_half whole h
  cases negative with
  | false =>
    simp only [Bool.false_eq_true, if_false, one_mul]
    rw [roundAway, if_pos hnonneg, hfloor]
  | true =>
    simp only [if_true, neg_mul, one_mul]
    unfold roundAway
    split
    · -- only zero is not below zero
      next hle =>
      have hzero : decimal whole digits = 0 := by linarith
      rw [hzero, zero_add] at hfloor
      rw [hzero, ← hfloor]
      norm_num
    · rw [neg_neg, hfloor]

end Numeral
