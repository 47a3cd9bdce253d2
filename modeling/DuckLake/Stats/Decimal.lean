import DuckLake.Lib.Nearest
import DuckLake.Stats.Compare
import DuckLake.Stats.Spelling
import Mathlib.Tactic.NormNum

/- Decimal statistics are ordered as the values (`stats_encode.rs`).

   `encode_decimal128` writes the digits of the unscaled value with a point before the
   last `scale` of them: the text denotes the value (`denotes_encodeDecimal128`). The
   comparison aligns two texts to the larger scale and reads `i128`s. Where that
   overflows, the number that does not fit is larger than the other by a factor of 1.7 at
   least (`far_of_overflow`), since the other, at the larger scale, has 38 digits: the
   order of the two floats it falls back to is then the order of the numbers. All that is
   assumed of reading a float is that it rounds to nearest (`RoundsToNearest`). -/

namespace DuckLake.StatsCompare

open Split Ieee

/-! ## What a text denotes -/

/-- A sign, digits, and digits after a point. -/
structure Fixed where
  neg : Bool
  intPart : Text
  fracPart : Text
  nonempty : intPart ≠ []
  intDigits : intPart.all Char.isDigit = true
  fracDigits : fracPart.all Char.isDigit = true

namespace Fixed

def text (f : Fixed) : Text :=
  (if f.neg then ['-'] else []) ++ (f.intPart ++ (if f.fracPart = [] then [] else '.' :: f.fracPart))

def unscaled (f : Fixed) : Int :=
  let magnitude : Int := Numeral.value (f.intPart ++ f.fracPart)
  if f.neg then -magnitude else magnitude

def value (f : Fixed) : ℚ := f.unscaled / 10 ^ f.fracPart.length

end Fixed

/-- The text spells the number. -/
def Denotes (t : Text) (q : ℚ) : Prop := ∃ f : Fixed, t = f.text ∧ q = f.value

/-- The largest finite float. -/
def maxFinite : ℚ := (scaled binary64 (binary64.infMag - 1) : ℚ) / 2 ^ binary64.unitExp

/-- Reading a decimal text as a float rounds to nearest. -/
def RoundsToNearest (parseF64 : Text → Option F64) : Prop :=
  ∀ t q, Denotes t q → |q| ≤ maxFinite → ∃ x, parseF64 t = some x ∧ Fp.IsNearest q x

/-- The number an unscaled value and a scale stand for. -/
def decimalValue (v scale : Int) : ℚ := v / 10 ^ scale.toNat

/-! ## The encoder -/

theorem isDigit_digits (n : Nat) : (digits n).all Char.isDigit = true := Numeral.all_isDigit_toDigits n

theorem digits_ne_nil (n : Nat) : digits n ≠ [] := Nat.toDigits_ne_nil

theorem exists_digits (n scale : Nat) : ∃ intPart fracPart : Text, intPart ≠ [] ∧
    intPart.all Char.isDigit = true ∧ fracPart.all Char.isDigit = true ∧ fracPart.length = scale ∧
    Numeral.value (intPart ++ fracPart) = n ∧
    (if scale < (digits n).length then
      (digits n).take ((digits n).length - scale) ++ '.' :: (digits n).drop ((digits n).length - scale)
    else "0.".toList ++ (List.replicate (scale - (digits n).length) '0' ++ digits n)) = intPart ++ '.' :: fracPart := by
  have hdigits := isDigit_digits n
  by_cases h : scale < (digits n).length
  · refine ⟨(digits n).take ((digits n).length - scale), (digits n).drop ((digits n).length - scale), ?_, ?_, ?_, ?_,
      ?_, if_pos h⟩
    · intro hnil
      have := congrArg List.length hnil
      rw [List.length_take, List.length_nil] at this
      omega
    · exact List.all_eq_true.mpr fun c hc => List.all_eq_true.mp hdigits c (List.mem_of_mem_take hc)
    · exact List.all_eq_true.mpr fun c hc => List.all_eq_true.mp hdigits c (List.mem_of_mem_drop hc)
    · rw [List.length_drop]
      omega
    · rw [List.take_append_drop]
      exact Numeral.value_toDigits n
  · refine ⟨['0'], List.replicate (scale - (digits n).length) '0' ++ digits n, by simp, by decide, ?_, ?_, ?_, ?_⟩
    · rw [List.all_append, hdigits, Bool.and_true, List.all_eq_true]
      intro c hc
      rw [List.eq_of_mem_replicate hc]
      rfl
    · rw [List.length_append, List.length_replicate]
      omega
    · rw [← List.append_assoc, show ['0'] = List.replicate 1 '0' from rfl, List.replicate_append_replicate,
        Numeral.value_append, Numeral.value_zeros, Nat.zero_mul, Nat.zero_add]
      exact Numeral.value_toDigits n
    · rw [if_neg h]
      rfl

theorem exists_fixed (v : Int) {scale : Int} (h : 0 ≤ scale) : ∃ f : Fixed,
    encodeDecimal128 v scale = f.text ∧ f.unscaled = v ∧ f.fracPart.length = scale.toNat := by
  have hsigned : ∀ n : Nat, n = v.natAbs → (if decide (v < 0) = true then -(n : Int) else n) = v := by
    intro n hn
    by_cases hneg : v < 0
    · rw [if_pos (decide_eq_true hneg)]
      omega
    · rw [if_neg (by simpa using hneg)]
      omega
  by_cases hzero : scale = 0
  · refine ⟨⟨decide (v < 0), digits v.natAbs, [], digits_ne_nil _, isDigit_digits _, rfl⟩, ?_, ?_, by simp [hzero]⟩
    · unfold encodeDecimal128 Fixed.text intText
      rw [if_pos (by omega)]
      by_cases hneg : v < 0 <;> simp [hneg]
    · unfold Fixed.unscaled
      exact hsigned _ (by rw [List.append_nil]; exact Numeral.value_toDigits _)
  · obtain ⟨intPart, fracPart, hne, hint, hfrac, hlen, hvalue, htext⟩ := exists_digits v.natAbs scale.toNat
    have hfracne : fracPart ≠ [] := fun hnil => by
      rw [hnil, List.length_nil] at hlen
      omega
    refine ⟨⟨decide (v < 0), intPart, fracPart, hne, hint, hfrac⟩, ?_, hsigned _ hvalue, hlen⟩
    unfold encodeDecimal128 Fixed.text
    rw [if_neg (by omega)]
    dsimp only
    rw [htext, if_neg hfracne]
    by_cases hneg : v < 0 <;> simp [hneg]

theorem denotes_encodeDecimal128 (v : Int) {scale : Int} (h : 0 ≤ scale) :
    Denotes (encodeDecimal128 v scale) (decimalValue v scale) := by
  obtain ⟨f, htext, hunscaled, hlen⟩ := exists_fixed v h
  exact ⟨f, htext, by rw [Fixed.value, hunscaled, hlen, decimalValue]⟩

/-! ## Reading a fixed-point text -/

namespace Fixed

theorem notMem_of_isDigit {t : Text} (h : t.all Char.isDigit = true) {c : Char} (hc : c.isDigit = false) : c ∉ t := by
  intro hm
  rw [List.all_eq_true.mp h c hm] at hc
  cases hc

theorem splitFixedPoint_text (f : Fixed) : splitFixedPoint f.text = some (f.neg, f.intPart, f.fracPart) := by
  have hstrip : stripMinus f.text =
      (f.neg, f.intPart ++ (if f.fracPart = [] then [] else '.' :: f.fracPart)) := by
    unfold text
    cases hneg : f.neg with
    | true => rfl
    | false =>
      obtain ⟨c, t, hct⟩ := List.exists_cons_of_ne_nil f.nonempty
      have hc : c ≠ '-' := fun hc => notMem_of_isDigit f.intDigits (c := '-') (by decide) (by rw [hct, hc]; simp)
      rw [if_neg (by decide), List.nil_append, hct, List.cons_append]
      unfold stripMinus
      split
      · next heq =>
        cases heq
        exact absurd rfl hc
      · rfl
  have hpoint : (splitOnce '.' (f.intPart ++ (if f.fracPart = [] then [] else '.' :: f.fracPart))).getD
      (f.intPart ++ (if f.fracPart = [] then [] else '.' :: f.fracPart), []) = (f.intPart, f.fracPart) := by
    have hnot := notMem_of_isDigit f.intDigits (c := '.') (by decide)
    by_cases hfrac : f.fracPart = []
    · rw [if_pos hfrac, List.append_nil, splitOnce_eq_none hnot, hfrac]
      rfl
    · rw [if_neg hfrac, splitOnce_append hnot]
      rfl
  unfold splitFixedPoint
  rw [hstrip]
  dsimp only
  rw [hpoint]
  dsimp only
  rw [if_neg fun h => f.nonempty h.1, f.intDigits, f.fracDigits]
  rfl

theorem scaledDigits_eq (f : Fixed) (scale : Nat) :
    scaledDigits scale f.intPart f.fracPart =
      if f.unscaled.natAbs * 10 ^ (scale - f.fracPart.length) < 2 ^ 127 then
        some ((f.unscaled.natAbs * 10 ^ (scale - f.fracPart.length) : Nat) : Int) else none := by
  have habs : f.unscaled.natAbs = Numeral.value (f.intPart ++ f.fracPart) := by
    unfold unscaled
    dsimp only
    split <;> omega
  have hdigits : (f.intPart ++ padRight scale f.fracPart).all Char.isDigit = true := by
    have hzeros : (List.replicate (scale - f.fracPart.length) '0').all Char.isDigit = true := by
      rw [List.all_eq_true]
      intro c hc
      rw [List.eq_of_mem_replicate hc]
      rfl
    unfold padRight
    rw [List.all_append, List.all_append, f.intDigits, f.fracDigits, hzeros]
    rfl
  have hvalue : Numeral.value (f.intPart ++ padRight scale f.fracPart) =
      f.unscaled.natAbs * 10 ^ (scale - f.fracPart.length) := by
    unfold padRight
    rw [← List.append_assoc, Numeral.value_append, Numeral.value_zeros, List.length_replicate, Nat.add_zero, habs]
  have hne : f.intPart ++ padRight scale f.fracPart ≠ [] := by simp [f.nonempty]
  unfold scaledDigits parseI128 Numeral.parseIntIn
  rw [Numeral.parseInt_unsigned hdigits, Numeral.parseNat_of_isDigit hne hdigits, hvalue, Option.map_some,
    Option.filter_some]
  by_cases hfits : f.unscaled.natAbs * 10 ^ (scale - f.fracPart.length) < 2 ^ 127
  · rw [if_pos hfits, if_pos]
    · rfl
    · rw [decide_eq_true_eq, Int.ofNat_eq_natCast]
      omega
  · rw [if_neg hfits, if_neg]
    rw [decide_eq_true_eq, Int.ofNat_eq_natCast]
    omega

theorem sign_mul (f : Fixed) (n : Nat) :
    (if f.neg then -((f.unscaled.natAbs * n : Nat) : Int) else (f.unscaled.natAbs * n : Nat)) = f.unscaled * n := by
  unfold unscaled
  dsimp only
  cases f.neg <;> simp

end Fixed

theorem denotes_unique {t : Text} {p q : ℚ} (hp : Denotes t p) (hq : Denotes t q) : p = q := by
  obtain ⟨f, hf, rfl⟩ := hp
  obtain ⟨g, hg, rfl⟩ := hq
  have hsplit := f.splitFixedPoint_text
  rw [← hf, hg, g.splitFixedPoint_text, Option.some.injEq, Prod.mk.injEq, Prod.mk.injEq] at hsplit
  obtain ⟨hneg, hint, hfrac⟩ := hsplit
  unfold Fixed.value Fixed.unscaled
  rw [hneg, hint, hfrac]

/-! ## Aligned comparison -/

theorem compare_aligned {v w : Int} {a b s : Nat} (ha : a ≤ s) (hb : b ≤ s) :
    compare (v * (10 ^ (s - a) : Nat)) (w * (10 ^ (s - b) : Nat)) = compare ((v : ℚ) / 10 ^ a) ((w : ℚ) / 10 ^ b) := by
  have hpos : (0 : ℚ) < 10 ^ s := by positivity
  have hscale : ∀ {u : Int} {c : Nat}, c ≤ s → (u : ℚ) / 10 ^ c = ((u * (10 ^ (s - c) : Nat) : Int) : ℚ) / 10 ^ s := by
    intro u c hc
    have hsplit : (10 : ℚ) ^ s = 10 ^ (s - c) * 10 ^ c := by rw [← pow_add, Nat.sub_add_cancel hc]
    rw [hsplit]
    push_cast
    field_simp
  have hmono : StrictMono fun n : Int => (n : ℚ) / 10 ^ s := by
    intro n m h
    exact (div_lt_div_iff_of_pos_right hpos).mpr (Int.cast_lt.mpr h)
  rw [hscale ha, hscale hb]
  exact (compare_map hmono _ _).symm

theorem cmpFixedPoint_text (f g : Fixed) : cmpFixedPoint f.text g.text =
    if f.unscaled.natAbs * 10 ^ (max f.fracPart.length g.fracPart.length - f.fracPart.length) < 2 ^ 127 ∧
        g.unscaled.natAbs * 10 ^ (max f.fracPart.length g.fracPart.length - g.fracPart.length) < 2 ^ 127 then
      some (compare f.value g.value) else none := by
  unfold cmpFixedPoint
  rw [f.splitFixedPoint_text, g.splitFixedPoint_text]
  dsimp only [Option.bind_eq_bind, Option.bind_some]
  rw [f.scaledDigits_eq, g.scaledDigits_eq]
  by_cases hf : f.unscaled.natAbs * 10 ^ (max f.fracPart.length g.fracPart.length - f.fracPart.length) < 2 ^ 127
  · by_cases hg : g.unscaled.natAbs * 10 ^ (max f.fracPart.length g.fracPart.length - g.fracPart.length) < 2 ^ 127
    · rw [if_pos hf, if_pos hg, if_pos ⟨hf, hg⟩]
      dsimp only [Option.bind_some, Option.pure_def]
      rw [f.sign_mul, g.sign_mul, compare_aligned (le_max_left ..) (le_max_right ..)]
      rfl
    · rw [if_pos hf, if_neg hg, if_neg fun h => hg h.2]
      rfl
  · have hnot : ¬ (f.unscaled.natAbs * 10 ^ (max f.fracPart.length g.fracPart.length - f.fracPart.length) < 2 ^ 127 ∧
        g.unscaled.natAbs * 10 ^ (max f.fracPart.length g.fracPart.length - g.fracPart.length) < 2 ^ 127) :=
      fun h => hf h.1
    rw [if_neg hf, if_neg hnot]
    rfl

/-! ## Overflow -/

theorem abs_decimalValue (v scale : Int) : |decimalValue v scale| = (v.natAbs : ℚ) / 10 ^ scale.toNat := by
  have hpos : (0 : ℚ) < 10 ^ scale.toNat := by positivity
  rw [decimalValue, abs_div, abs_of_pos hpos, Nat.cast_natAbs, Int.cast_abs]

theorem far_of_overflow {v w s t : Int} (hv : v.natAbs < 10 ^ 38) (hw : w.natAbs < 10 ^ 38)
    (h : ¬ v.natAbs * 10 ^ (max s.toNat t.toNat - s.toNat) < 2 ^ 127) :
    decimalValue v s ≠ 0 ∧ 17 * |decimalValue w t| ≤ 10 * |decimalValue v s| := by
  have hscale : s.toNat < t.toNat := by
    -- at its own scale a value has 38 digits, and fits
    by_contra hge
    rw [max_eq_left (by omega), Nat.sub_self, Nat.pow_zero, Nat.mul_one] at h
    have : 10 ^ 38 < 2 ^ 127 := by norm_num
    omega
  rw [max_eq_right hscale.le] at h
  have hpos : (0 : ℚ) < 10 ^ t.toNat := by positivity
  have haligned : |decimalValue v s| = ((v.natAbs * 10 ^ (t.toNat - s.toNat) : Nat) : ℚ) / 10 ^ t.toNat := by
    have hsplit : (10 : ℚ) ^ t.toNat = 10 ^ (t.toNat - s.toNat) * 10 ^ s.toNat := by
      rw [← pow_add, Nat.sub_add_cancel hscale.le]
    rw [abs_decimalValue, hsplit]
    push_cast
    field_simp
  have hbig : 17 * w.natAbs ≤ 10 * (v.natAbs * 10 ^ (t.toNat - s.toNat)) := by
    have : 17 * 10 ^ 38 ≤ 10 * 2 ^ 127 := by norm_num
    omega
  have hbig' : (17 : ℚ) * w.natAbs ≤ 10 * ((v.natAbs * 10 ^ (t.toNat - s.toNat) : Nat) : ℚ) := by exact_mod_cast hbig
  constructor
  · intro hzero
    rw [hzero, abs_zero, eq_comm, div_eq_zero_iff] at haligned
    rcases haligned with hz | hz
    · have : v.natAbs * 10 ^ (t.toNat - s.toNat) = 0 := by exact_mod_cast hz
      have : 0 < 2 ^ 127 := by norm_num
      omega
    · exact hpos.ne' hz
  · rw [haligned, abs_decimalValue, ← mul_div_assoc, ← mul_div_assoc]
    exact (div_le_div_iff_of_pos_right hpos).mpr hbig'

theorem ten_pow_le : (10 : ℚ) ^ 38 ≤ 2 ^ 127 := by norm_num

theorem ten_pow_le_maxFinite : (10 : ℚ) ^ 38 ≤ maxFinite := by
  have hscaled : scaled binary64 (binary64.infMag - 1) = (2 ^ 53 - 1) * 2 ^ 2045 := by
    unfold scaled Format.infMag binary64
    norm_num
  unfold maxFinite
  rw [hscaled, le_div_iff₀ (by positivity)]
  calc (10 : ℚ) ^ 38 * 2 ^ binary64.unitExp ≤ 2 ^ 127 * 2 ^ 1074 :=
        mul_le_mul_of_nonneg_right ten_pow_le (by positivity)
    _ = 2 ^ (127 + 1074) := (pow_add ..).symm
    _ ≤ 2 ^ 2045 := pow_le_pow_right₀ (by norm_num) (by norm_num)
    _ ≤ (2 ^ 53 - 1) * 2 ^ 2045 := le_mul_of_one_le_left (by positivity) (by norm_num)
    _ = (((2 ^ 53 - 1) * 2 ^ 2045 : Nat) : ℚ) := by
        rw [Nat.cast_mul, Nat.cast_pow, Nat.cast_sub (by norm_num)]
        norm_num

theorem normal_decimalValue {v s : Int} (hv : v.natAbs < 10 ^ 38) (hs : s ≤ 38) :
    binary64.Normal (decimalValue v s) ∧ |decimalValue v s| ≤ maxFinite := by
  have hv' : (v.natAbs : ℚ) < 10 ^ 38 := by exact_mod_cast hv
  have hten : (1 : ℚ) ≤ 10 ^ s.toNat := one_le_pow₀ (by norm_num)
  have hupper : |decimalValue v s| ≤ 10 ^ 38 := by
    rw [abs_decimalValue]
    exact (div_le_self (by positivity) hten).trans hv'.le
  refine ⟨?_, hupper.trans ten_pow_le_maxFinite⟩
  by_cases hzero : v = 0
  · left
    rw [decimalValue, hzero, Int.cast_zero, zero_div]
  · right
    have hone : (1 : ℚ) ≤ v.natAbs := by
      have : 1 ≤ v.natAbs := by omega
      exact_mod_cast this
    have hlower : 1 / 10 ^ 38 ≤ |decimalValue v s| := by
      rw [abs_decimalValue]
      refine div_le_div₀ (by positivity) hone (by positivity) ?_
      exact pow_le_pow_right₀ (by norm_num) (by omega)
    have hunit : (0 : ℚ) < 2 ^ binary64.unitExp := by positivity
    constructor
    · calc (2 : ℚ) ^ 52 ≤ 2 ^ 1074 / 10 ^ 38 := by
            rw [le_div_iff₀ (by positivity)]
            calc (2 : ℚ) ^ 52 * 10 ^ 38 ≤ 2 ^ 52 * 2 ^ 127 := mul_le_mul_of_nonneg_left ten_pow_le (by positivity)
              _ = 2 ^ 179 := (pow_add ..).symm
              _ ≤ 2 ^ 1074 := pow_le_pow_right₀ (by norm_num) (by norm_num)
        _ = 1 / 10 ^ 38 * 2 ^ binary64.unitExp := by
            rw [div_mul_eq_mul_div, one_mul]
            rfl
        _ ≤ |decimalValue v s| * 2 ^ binary64.unitExp := mul_le_mul_of_nonneg_right hlower hunit.le
    · calc |decimalValue v s| * 2 ^ binary64.unitExp ≤ 2 ^ 127 * 2 ^ binary64.unitExp :=
            mul_le_mul_of_nonneg_right (hupper.trans ten_pow_le) hunit.le
        _ = 2 ^ (127 + 1074) := (pow_add ..).symm
        _ < 2 ^ (52 + 2045) := pow_lt_pow_right₀ (by norm_num) (by norm_num)

/-! ## The order -/

section

variable {parseF64 : Text → Option F64} {v w s t : Int}

theorem cmpFloats_of_overflow (hround : RoundsToNearest parseF64) (hv : v.natAbs < 10 ^ 38) (hw : w.natAbs < 10 ^ 38)
    (hs : 0 ≤ s ∧ s ≤ 38) (ht : 0 ≤ t ∧ t ≤ 38)
    (h : ¬ v.natAbs * 10 ^ (max s.toNat t.toNat - s.toNat) < 2 ^ 127) :
    ∃ x y, parseF64 (encodeDecimal128 v s) = some x ∧ parseF64 (encodeDecimal128 w t) = some y ∧
      cmpFloats x y = compare (decimalValue v s) (decimalValue w t) ∧
      cmpFloats y x = compare (decimalValue w t) (decimalValue v s) := by
  obtain ⟨hnv, hmv⟩ := normal_decimalValue hv hs.2
  obtain ⟨hnw, hmw⟩ := normal_decimalValue hw ht.2
  obtain ⟨x, hx, hnearx⟩ := hround _ _ (denotes_encodeDecimal128 v hs.1) hmv
  obtain ⟨y, hy, hneary⟩ := hround _ _ (denotes_encodeDecimal128 w ht.1) hmw
  obtain ⟨hne, hfar⟩ := far_of_overflow hv hw h
  have hnum := Fp.compare_num_of_far (hnearx.close (by decide) (by decide) hnv)
    (hneary.close (by decide) (by decide) hnw) hne hfar
  have hnan : ∀ {z : F64}, z.isFinite = true → z.isNaN = false := by
    intro z hz
    have hlt : z.mag < binary64.infMag := of_decide_eq_true hz
    exact decide_eq_false (by omega)
  have hfloats : ∀ {a b : F64}, a.isFinite = true → b.isFinite = true → cmpFloats a b = compare a.num b.num := by
    intro a b ha hb
    unfold cmpFloats
    rw [hnan ha, hnan hb]
  refine ⟨x, y, hx, hy, (hfloats hnearx.finite hneary.finite).trans hnum, ?_⟩
  exact (hfloats hneary.finite hnearx.finite).trans (compare_swapped hnum)

theorem parseI128_encodeDecimal128 (hv : v.natAbs < 10 ^ 38) (hs : 0 ≤ s) :
    parseI128 (encodeDecimal128 v s) = if s = 0 then some v else none := by
  unfold parseI128 Numeral.parseIntIn
  by_cases hzero : s = 0
  · have hrange : decide (-2 ^ 127 ≤ v ∧ v ≤ 2 ^ 127 - 1) = true := by
      have : (10 : Int) ^ 38 < 2 ^ 127 := by norm_num
      have hv' : (v.natAbs : Int) < 10 ^ 38 := by exact_mod_cast hv
      rw [decide_eq_true_eq]
      omega
    unfold encodeDecimal128
    rw [if_pos (by omega), parseInt_intText, Option.filter_some, hrange, if_pos hzero]
    rfl
  · rw [Numeral.parseInt_eq_none_of_mem (point_mem_encodeDecimal128 v (by omega)) (by decide) (by decide) (by decide),
      if_neg hzero]
    rfl

theorem cmpNumeric_encodeDecimal128 (hround : RoundsToNearest parseF64) (hv : v.natAbs < 10 ^ 38)
    (hw : w.natAbs < 10 ^ 38) (hs : 0 ≤ s ∧ s ≤ 38) (ht : 0 ≤ t ∧ t ≤ 38) :
    cmpNumeric parseF64 (encodeDecimal128 v s) (encodeDecimal128 w t) =
      some (compare (decimalValue v s) (decimalValue w t)) := by
  have hfixed : (cmpFixedPoint (encodeDecimal128 v s) (encodeDecimal128 w t)).or
      (Option.map₂ cmpFloats (parseF64 (encodeDecimal128 v s)) (parseF64 (encodeDecimal128 w t))) =
      some (compare (decimalValue v s) (decimalValue w t)) := by
    obtain ⟨f, hf, hfv, hflen⟩ := exists_fixed v hs.1
    obtain ⟨g, hg, hgv, hglen⟩ := exists_fixed w ht.1
    have hcmp := cmpFixedPoint_text f g
    rw [← hf, ← hg, hfv, hgv, hflen, hglen] at hcmp
    have hfvalue : f.value = decimalValue v s := by rw [Fixed.value, hfv, hflen, decimalValue]
    have hgvalue : g.value = decimalValue w t := by rw [Fixed.value, hgv, hglen, decimalValue]
    rw [hcmp, hfvalue, hgvalue]
    by_cases hfit : v.natAbs * 10 ^ (max s.toNat t.toNat - s.toNat) < 2 ^ 127
    · by_cases hgit : w.natAbs * 10 ^ (max s.toNat t.toNat - t.toNat) < 2 ^ 127
      · rw [if_pos ⟨hfit, hgit⟩, Option.some_or]
      · rw [if_neg fun h => hgit h.2]
        rw [max_comm] at hgit
        obtain ⟨y, x, hy, hx, -, hxy⟩ := cmpFloats_of_overflow hround hw hv ht hs hgit
        rw [hx, hy]
        exact congrArg some hxy
    · rw [if_neg fun h => hfit h.1]
      obtain ⟨x, y, hx, hy, hxy, -⟩ := cmpFloats_of_overflow hround hv hw hs ht hfit
      rw [hx, hy]
      exact congrArg some hxy
  unfold cmpNumeric
  rw [parseI128_encodeDecimal128 hv hs.1, parseI128_encodeDecimal128 hw ht.1]
  by_cases hz : s = 0 ∧ t = 0
  · have hone : ∀ u : Int, decimalValue u 0 = u := fun u => by simp [decimalValue]
    rw [if_pos hz.1, if_pos hz.2, hz.1, hz.2, hone, hone, compare_map Int.cast_strictMono]
  rw [← hfixed]
  by_cases hzs : s = 0
  · rw [if_pos hzs, if_neg fun hzt => hz ⟨hzs, hzt⟩]
    cases cmpFixedPoint (encodeDecimal128 v s) (encodeDecimal128 w t) <;>
      cases parseF64 (encodeDecimal128 v s) <;> cases parseF64 (encodeDecimal128 w t) <;> rfl
  · rw [if_neg hzs]
    cases cmpFixedPoint (encodeDecimal128 v s) (encodeDecimal128 w t) <;>
      cases parseF64 (encodeDecimal128 v s) <;> cases parseF64 (encodeDecimal128 w t) <;> rfl

/-- The text of a decimal denotes it, and two texts are ordered as what they denote. -/
theorem decimal_texts_ordered (hround : RoundsToNearest parseF64) (v w : Int) (hv : v.natAbs < 10 ^ 38)
    (hw : w.natAbs < 10 ^ 38) (s t : Int) (hs : 0 ≤ s ∧ s ≤ 38) (ht : 0 ≤ t ∧ t ≤ 38) :
    Denotes (encodeDecimal128 v s) (decimalValue v s) ∧ Denotes (encodeDecimal128 w t) (decimalValue w t) ∧
      statCmpKind parseF64 (encodeDecimal128 v s) (encodeDecimal128 w t) .numeric =
        compare (decimalValue v s) (decimalValue w t) := by
  refine ⟨denotes_encodeDecimal128 v hs.1, denotes_encodeDecimal128 w ht.1, ?_⟩
  unfold statCmpKind
  rw [cmpNumeric_encodeDecimal128 hround hv hw hs ht]
  rfl

end

/-- A reader of fixed-point texts that rounds to nearest. -/
noncomputable def nearestF64 (t : Text) : Option F64 :=
  open Classical in
  if h : ∃ q, Denotes t q then some (Fp.exists_isNearest (F := binary64) (by decide) h.choose).choose else none

theorem roundsToNearest_nearestF64 : RoundsToNearest nearestF64 := by
  intro t q hq _
  have hex : ∃ q, Denotes t q := ⟨q, hq⟩
  refine ⟨_, dif_pos hex, ?_⟩
  rw [← denotes_unique hex.choose_spec hq]
  exact (Fp.exists_isNearest (F := binary64) (by decide) hex.choose).choose_spec

/-- Ten to the 37 at scale 0 against one at scale 38: aligned, the first has 76 digits. -/
theorem overflowing_texts_ordered :
    cmpFixedPoint (encodeDecimal128 (10 ^ 37) 0) (encodeDecimal128 1 38) = none ∧
      statCmpKind nearestF64 (encodeDecimal128 (10 ^ 37) 0) (encodeDecimal128 1 38) .numeric =
        compare (decimalValue (10 ^ 37) 0) (decimalValue 1 38) :=
  ⟨by decide +kernel, (decimal_texts_ordered roundsToNearest_nearestF64 (10 ^ 37) 1 (by norm_num) (by norm_num) 0 38
    ⟨by norm_num, by norm_num⟩ ⟨by norm_num, by norm_num⟩).2.2⟩

end DuckLake.StatsCompare
