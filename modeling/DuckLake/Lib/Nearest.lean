import DuckLake.Lib.Ieee
import Mathlib.Algebra.Order.Field.Basic
import Mathlib.Data.Finset.Max
import Mathlib.Data.Finset.Prod
import Mathlib.Data.Fintype.Basic
import Mathlib.Data.Nat.Log
import Mathlib.Data.Rat.Floor
import Mathlib.Order.Compare
import Mathlib.Tactic.FieldSimp
import Mathlib.Tactic.Positivity

/- Rounding to the nearest float. All that is used of it: among the finite floats, the
   result is one that is nearest to the number (`IsNearest`). In the range of the normal
   floats the error is then small against the number (`IsNearest.close`), so two numbers
   of which one is much larger keep their order (`compare_num_of_far`). -/

namespace Ieee

theorem compare_map {α β : Type} [LinearOrder α] [LinearOrder β] {f : α → β} (hf : StrictMono f) (a b : α) :
    compare (f a) (f b) = compare a b := by
  rw [← cmp_eq_compare, ← cmp_eq_compare, hf.cmp_map_eq]

theorem compare_swapped {α β : Type} [LinearOrder α] [LinearOrder β] {x y : α} {a b : β}
    (h : compare x y = compare a b) : compare y x = compare b a := by
  rw [← cmp_eq_compare, ← cmp_eq_compare] at h ⊢
  exact cmp_eq_cmp_symm.mp h

/-- The smallest subnormal is one over two to this power. -/
def Format.unitExp (F : Format) : Nat := 2 ^ (F.exp - 1) - 2 + F.mant

namespace Fp

variable {F : Format}

/-- The number a finite float stands for. -/
def toRat (x : Fp F) : ℚ := x.num / 2 ^ F.unitExp

structure IsNearest (q : ℚ) (x : Fp F) : Prop where
  finite : x.isFinite = true
  nearest : ∀ y : Fp F, y.isFinite = true → |x.toRat - q| ≤ |y.toRat - q|

theorem exists_isNearest (hF : 1 ≤ F.exp) (q : ℚ) : ∃ x : Fp F, IsNearest q x := by
  have hpos : 0 < F.infMag := by
    have : 2 ^ 1 ≤ 2 ^ F.exp := Nat.pow_le_pow_right Nat.two_pos hF
    exact Nat.mul_pos (by omega) (Nat.two_pow_pos _)
  obtain ⟨p, hp, hmin⟩ := Finset.exists_min_image ((Finset.univ : Finset Bool) ×ˢ Finset.range F.infMag)
    (fun p => |(⟨p.1, p.2⟩ : Fp F).toRat - q|) ⟨(true, 0), by simpa using hpos⟩
  refine ⟨⟨p.1, p.2⟩, by simpa [isFinite] using hp, fun y hy => ?_⟩
  exact hmin (y.neg, y.mag) (by simpa [isFinite] using hy)

theorem compare_toRat (x y : Fp F) : compare x.toRat y.toRat = compare x.num y.num := by
  have hmono : StrictMono fun n : Int => (n : ℚ) / 2 ^ F.unitExp := by
    intro n m h
    exact (div_lt_div_iff_of_pos_right (by positivity)).mpr (Int.cast_lt.mpr h)
  exact compare_map hmono x.num y.num

end Fp

/-! ## The error -/

theorem exists_scaled_eq {F : Format} (hmant : 4 ≤ F.mant) {m k : Nat} (hm : 16 ≤ m ∧ m < 32) (hk : F.mant ≤ k + 4)
    (hlt : k + 5 - F.mant < 2 ^ F.exp - 1) : ∃ mag, mag < F.infMag ∧ scaled F mag = m * 2 ^ k := by
  obtain ⟨e, he⟩ : ∃ e, k + 4 = F.mant + e := ⟨k + 4 - F.mant, by omega⟩
  obtain ⟨d, hd⟩ : ∃ d, F.mant = d + 4 := ⟨F.mant - 4, by omega⟩
  obtain ⟨r, rfl⟩ : ∃ r, m = 16 + r := ⟨m - 16, by omega⟩
  have hpow : 2 ^ F.mant = 16 * 2 ^ d := by
    rw [hd, pow_add]
    ring
  have hpos : 0 < 2 ^ F.mant := Nat.two_pow_pos _
  have hsmall : r * 2 ^ d < 2 ^ F.mant := by
    rw [hpow]
    exact Nat.mul_lt_mul_of_pos_right (by omega) (Nat.two_pow_pos d)
  refine ⟨(e + 1) * 2 ^ F.mant + r * 2 ^ d, ?_, ?_⟩
  · have hle : (e + 2) * 2 ^ F.mant ≤ F.infMag := Nat.mul_le_mul_right _ (by omega)
    have hstep : (e + 2) * 2 ^ F.mant = (e + 1) * 2 ^ F.mant + 2 ^ F.mant := by ring
    omega
  · have hmod : ((e + 1) * 2 ^ F.mant + r * 2 ^ d) % 2 ^ F.mant = r * 2 ^ d := by
      rw [Nat.mul_comm, Nat.mul_add_mod, Nat.mod_eq_of_lt hsmall]
    have hdiv : ((e + 1) * 2 ^ F.mant + r * 2 ^ d) / 2 ^ F.mant = e + 1 := by
      rw [Nat.mul_comm, Nat.mul_add_div hpos, Nat.div_eq_of_lt hsmall, Nat.add_zero]
    have hnormal : ¬ (e + 1) * 2 ^ F.mant + r * 2 ^ d < 2 ^ F.mant := by
      have : 1 * 2 ^ F.mant ≤ (e + 1) * 2 ^ F.mant := Nat.mul_le_mul_right _ (by omega)
      omega
    have hk' : k = d + e := by omega
    unfold scaled
    rw [if_neg hnormal, hmod, hdiv, Nat.add_sub_cancel, hpow, hk', pow_add]
    ring

/-- The range of the normal floats, zero included. -/
def Format.Normal (F : Format) (q : ℚ) : Prop :=
  q = 0 ∨ 2 ^ F.mant ≤ |q| * 2 ^ F.unitExp ∧ |q| * 2 ^ F.unitExp < 2 ^ (F.mant + (2 ^ F.exp - 3))

theorem exists_cut {u : ℚ} {lo hi : Nat} (hlo : 4 ≤ lo) (h : 2 ^ lo ≤ u ∧ u < 2 ^ hi) :
    ∃ m k : Nat, (16 ≤ m ∧ m < 32) ∧ lo ≤ k + 4 ∧ k + 4 < hi ∧ |((m * 2 ^ k : Nat) : ℚ) - u| ≤ u / 16 := by
  have hu : 0 < u := lt_of_lt_of_le (by positivity) h.1
  obtain ⟨n, hn⟩ : ∃ n, n = ⌊u⌋₊ := ⟨_, rfl⟩
  have hfloor : (n : ℚ) ≤ u := hn ▸ Nat.floor_le hu.le
  have hnext : u < n + 1 := hn ▸ Nat.lt_floor_add_one u
  have hn₁ : 2 ^ lo ≤ n := by
    rw [hn]
    exact Nat.le_floor (by exact_mod_cast h.1)
  have hn₂ : n < 2 ^ hi := by
    have : (n : ℚ) < 2 ^ hi := lt_of_le_of_lt hfloor h.2
    exact_mod_cast this
  have hne : n ≠ 0 := by
    have := Nat.two_pow_pos lo
    omega
  obtain ⟨l, hl⟩ : ∃ l, l = Nat.log 2 n := ⟨_, rfl⟩
  have hl₁ : 2 ^ l ≤ n := hl ▸ Nat.pow_log_le_self 2 hne
  have hl₂ : n < 2 ^ (l + 1) := hl ▸ Nat.lt_pow_succ_log_self (by decide) n
  have hlow : lo ≤ l := by
    by_contra hlt
    have : 2 ^ (l + 1) ≤ 2 ^ lo := Nat.pow_le_pow_right Nat.two_pos (by omega)
    omega
  have hhigh : l < hi := by
    by_contra hge
    have : 2 ^ hi ≤ 2 ^ l := Nat.pow_le_pow_right Nat.two_pos (by omega)
    omega
  obtain ⟨k, rfl⟩ : ∃ k, l = k + 4 := ⟨l - 4, by omega⟩
  have hpos : 0 < 2 ^ k := Nat.two_pow_pos k
  have hp₁ : 2 ^ (k + 4) = 16 * 2 ^ k := by ring
  have hp₂ : 2 ^ (k + 4 + 1) = 32 * 2 ^ k := by ring
  refine ⟨n / 2 ^ k, k, ⟨?_, ?_⟩, hlow, hhigh, ?_⟩
  · exact (Nat.le_div_iff_mul_le hpos).mpr (by omega)
  · exact (Nat.div_lt_iff_lt_mul hpos).mpr (by omega)
  · -- the cut is below the number by less than a unit, a sixteenth at most
    have hcut : n / 2 ^ k * 2 ^ k ≤ n := Nat.div_mul_le_self n _
    have hunit : n + 1 ≤ n / 2 ^ k * 2 ^ k + 2 ^ k := by
      have := Nat.lt_div_mul_add hpos (a := n)
      omega
    have hcut' : ((n / 2 ^ k * 2 ^ k : Nat) : ℚ) ≤ n := by exact_mod_cast hcut
    have hunit' : (n : ℚ) + 1 ≤ ((n / 2 ^ k * 2 ^ k : Nat) : ℚ) + 2 ^ k := by exact_mod_cast hunit
    have hsixteen : 16 * (2 : ℚ) ^ k ≤ n := by
      have : 16 * 2 ^ k ≤ n := by omega
      exact_mod_cast this
    rw [abs_le]
    constructor <;> linarith

namespace Fp

variable {F : Format}

theorem num_neg (x : Fp F) : (⟨!x.neg, x.mag⟩ : Fp F).num = -x.num := by
  unfold num
  cases x.neg <;> simp

theorem exists_close (hmant : 4 ≤ F.mant) (hexp : 2 ≤ F.exp) {q : ℚ} (h : F.Normal q) :
    ∃ x : Fp F, x.isFinite = true ∧ |x.toRat - q| ≤ |q| / 16 := by
  have hfour : 2 ^ 2 ≤ 2 ^ F.exp := Nat.pow_le_pow_right Nat.two_pos hexp
  rcases h with rfl | h
  · refine ⟨⟨false, 0⟩, ?_, ?_⟩
    · exact decide_eq_true (Nat.mul_pos (by omega) (Nat.two_pow_pos _))
    · simp [toRat, num]
  · obtain ⟨m, k, hm, hk, hlt, herr⟩ := exists_cut hmant h
    obtain ⟨mag, hmag, hscaled⟩ := exists_scaled_eq hmant hm hk (by omega)
    have hpos : (0 : ℚ) < 2 ^ F.unitExp := by positivity
    have hpositive : ∀ p : ℚ, |p| = p → p = |q| → |(⟨false, mag⟩ : Fp F).toRat - p| ≤ |p| / 16 := by
      intro p habs hp
      have hvalue : (⟨false, mag⟩ : Fp F).toRat = ((m * 2 ^ k : Nat) : ℚ) / 2 ^ F.unitExp := by
        simp only [toRat, num, Bool.false_eq_true, if_false, hscaled, Int.cast_natCast]
      rw [← hp] at herr
      rw [hvalue, habs, div_sub' hpos.ne', abs_div, abs_of_pos hpos, div_le_iff₀ hpos]
      calc |((m * 2 ^ k : Nat) : ℚ) - 2 ^ F.unitExp * p|
          = |((m * 2 ^ k : Nat) : ℚ) - p * 2 ^ F.unitExp| := by rw [mul_comm p]
        _ ≤ p * 2 ^ F.unitExp / 16 := herr
        _ = p / 16 * 2 ^ F.unitExp := by ring
    rcases abs_cases q with ⟨hq, -⟩ | ⟨hq, -⟩
    · exact ⟨⟨false, mag⟩, decide_eq_true hmag, hpositive q hq hq.symm⟩
    · refine ⟨⟨true, mag⟩, decide_eq_true hmag, ?_⟩
      have hneg : (⟨true, mag⟩ : Fp F).toRat = -(⟨false, mag⟩ : Fp F).toRat := by
        have := num_neg (⟨false, mag⟩ : Fp F)
        rw [toRat, toRat, show (⟨true, mag⟩ : Fp F).num = _ from this, Int.cast_neg, neg_div]
      have := hpositive (-q) (by rw [abs_neg, hq]) hq.symm
      rw [abs_neg] at this
      rwa [hneg, ← abs_neg, neg_sub, sub_neg_eq_add, add_comm, ← sub_neg_eq_add]

theorem IsNearest.close {q : ℚ} {x : Fp F} (h : IsNearest q x) (hmant : 4 ≤ F.mant) (hexp : 2 ≤ F.exp)
    (hq : F.Normal q) : |x.toRat - q| ≤ |q| / 16 := by
  obtain ⟨y, hy, hclose⟩ := exists_close hmant hexp hq
  exact (h.nearest y hy).trans hclose

/-- Of two numbers far apart, the floats near them are in the same order. -/
theorem compare_num_of_far {a b : ℚ} {x y : Fp F} (hx : |x.toRat - a| ≤ |a| / 16) (hy : |y.toRat - b| ≤ |b| / 16)
    (ha : a ≠ 0) (hfar : 17 * |b| ≤ 10 * |a|) : compare x.num y.num = compare a b := by
  rw [← compare_toRat]
  rw [abs_le] at hx hy
  have hb := abs_le.mp (le_refl |b|)
  have habs : 0 < |a| := abs_pos.mpr ha
  rcases abs_cases a with ⟨heq, -⟩ | ⟨heq, -⟩
  · have h₁ : b < a := by linarith
    have h₂ : y.toRat < x.toRat := by linarith
    rw [compare_gt_iff_gt.mpr h₁, compare_gt_iff_gt.mpr h₂]
  · have h₁ : a < b := by linarith
    have h₂ : x.toRat < y.toRat := by linarith
    rw [compare_lt_iff_lt.mpr h₁, compare_lt_iff_lt.mpr h₂]

end Fp

end Ieee
