import Mathlib.Order.Monotone.Basic
import Mathlib.Tactic.Ring
import Mathlib.Tactic.Linarith

/- Binary floating point by sign and magnitude bits.

   The magnitude bits of an IEEE-754 number are ordered as the number's absolute
   value, so a float is kept as a sign and a magnitude. `scaled` is the absolute
   value in units of the format's smallest subnormal, an integer; infinity
   continues the sequence one step past the largest finite number, which keeps
   the order. Two orders live on floats: `key` is the total order (`-NaN` below
   everything, `-0.0` below `0.0`), `num` the numeric one (both zeros equal, no
   meaning for NaN). -/

namespace Ieee

/-- A binary interchange format: stored mantissa bits and exponent bits. -/
structure Format where
  mant : Nat
  exp : Nat
  deriving DecidableEq, Repr

def binary32 : Format := ⟨23, 8⟩
def binary64 : Format := ⟨52, 11⟩

/-- The magnitude bits of infinity; every larger magnitude is a NaN. -/
def Format.infMag (F : Format) : Nat := (2 ^ F.exp - 1) * 2 ^ F.mant

structure Fp (F : Format) where
  neg : Bool
  mag : Nat
  deriving DecidableEq, Repr

namespace Fp
variable {F : Format}

def isNaN (x : Fp F) : Bool := F.infMag < x.mag
def isFinite (x : Fp F) : Bool := x.mag < F.infMag
def isZero (x : Fp F) : Bool := x.mag == 0

/-- The position of a float in the total order. -/
def key (x : Fp F) : Int := if x.neg then -(x.mag : Int) - 1 else x.mag

end Fp

/-- An absolute value, in units of the smallest subnormal. -/
def scaled (F : Format) (m : Nat) : Nat :=
  if m < 2 ^ F.mant then m else (2 ^ F.mant + m % 2 ^ F.mant) * 2 ^ (m / 2 ^ F.mant - 1)

theorem scaled_lt_succ (F : Format) (m : Nat) : scaled F m < scaled F (m + 1) := by
  have hpos : 0 < 2 ^ F.mant := Nat.two_pow_pos _
  unfold scaled
  set k := 2 ^ F.mant with hk
  by_cases h1 : m + 1 < k
  · rw [if_pos h1, if_pos (by omega)]
    omega
  rw [if_neg h1]
  by_cases h2 : m < k
  · -- the step from the subnormals to the first normal number
    have hm : m + 1 = k := by omega
    rw [if_pos h2, hm, Nat.mod_self, Nat.div_self hpos]
    omega
  rw [if_neg h2]
  have hq : 1 ≤ m / k := (Nat.one_le_div_iff hpos).2 (by omega)
  have hdm := Nat.div_add_mod m k
  have hr := Nat.mod_lt m hpos
  by_cases h3 : m % k + 1 < k
  · -- the mantissa counts up within one exponent
    have hdiv : (m + 1) / k = m / k := by
      rw [Nat.add_div hpos, Nat.div_eq_of_lt (show 1 < k by omega), Nat.mod_eq_of_lt (show 1 < k by omega),
        if_neg (by omega)]
      omega
    have hmod : (m + 1) % k = m % k + 1 := by
      have := Nat.div_add_mod (m + 1) k
      rw [hdiv] at this
      omega
    rw [hdiv, hmod]
    exact Nat.mul_lt_mul_of_pos_right (by omega) (Nat.two_pow_pos _)
  · -- the mantissa wraps and the exponent grows by one
    have hr' : m % k + 1 = k := by omega
    have hm : m + 1 = k * (m / k + 1) := by rw [Nat.mul_add]; omega
    have hdiv : (m + 1) / k = m / k + 1 := by rw [hm, Nat.mul_div_cancel_left _ hpos]
    have hmod : (m + 1) % k = 0 := by rw [hm, Nat.mul_mod_right]
    rw [hdiv, hmod]
    obtain ⟨e, he⟩ : ∃ e, m / k = e + 1 := ⟨m / k - 1, by omega⟩
    rw [he]
    simp only [Nat.add_sub_cancel, Nat.add_zero, pow_succ]
    have := Nat.two_pow_pos e
    nlinarith

theorem scaled_strictMono (F : Format) : StrictMono (scaled F) :=
  strictMono_nat_of_lt_succ (scaled_lt_succ F)

theorem scaled_infMag {F : Format} (h : 1 ≤ F.exp) :
    scaled F F.infMag = 2 ^ (F.mant + (2 ^ F.exp - 2)) := by
  have hpos : 0 < 2 ^ F.mant := Nat.two_pow_pos _
  have hexp : 2 ^ 1 ≤ 2 ^ F.exp := Nat.pow_le_pow_right Nat.two_pos h
  have hle : 2 ^ F.mant ≤ F.infMag := Nat.le_mul_of_pos_left _ (by omega)
  unfold scaled
  rw [if_neg (by omega), Format.infMag, Nat.mul_mod_left, Nat.mul_div_cancel _ hpos, Nat.add_zero, ← pow_add]
  congr 1

@[simp] theorem scaled_zero (F : Format) : scaled F 0 = 0 := by
  simp [scaled]

namespace Fp
variable {F : Format}

/-- The signed value, in units of the smallest subnormal. -/
def num (x : Fp F) : Int := if x.neg then -(scaled F x.mag : Int) else scaled F x.mag

theorem num_eq_zero {x : Fp F} (h : x.mag = 0) : x.num = 0 := by
  simp [num, h]

theorem eq_of_key_eq {x y : Fp F} (h : x.key = y.key) : x = y := by
  obtain ⟨xn, xm⟩ := x
  obtain ⟨yn, ym⟩ := y
  unfold key at h
  cases xn <;> cases yn <;> simp_all <;> omega

/-- The total order refines the numeric one; it only adds the order of the two zeros. -/
theorem num_lt_of_key_lt {x y : Fp F} (h : x.key < y.key) :
    x.num < y.num ∨ (x.mag = 0 ∧ y.mag = 0) := by
  have mono {a b : Nat} (hab : a < b) : (scaled F a : Int) < scaled F b :=
    Int.ofNat_lt.2 (scaled_strictMono F hab)
  unfold key at h
  unfold num
  cases hx : x.neg <;> cases hy : y.neg <;> simp only [hx, hy, if_true, if_false,
    Bool.false_eq_true] at h ⊢
  · exact Or.inl (mono (by omega))
  · omega
  · rcases Nat.eq_zero_or_pos x.mag with h0 | h0
    · rcases Nat.eq_zero_or_pos y.mag with h1 | h1
      · exact Or.inr ⟨h0, h1⟩
      · have := mono h1
        simp only [scaled_zero] at this
        left
        rw [h0, scaled_zero]
        omega
    · have := mono h0
      simp only [scaled_zero] at this
      left
      omega
  · have := mono (a := y.mag) (b := x.mag) (by omega)
    left
    omega

theorem num_le_of_key_le {x y : Fp F} (h : x.key ≤ y.key) : x.num ≤ y.num := by
  rcases lt_or_eq_of_le h with h | h
  · rcases num_lt_of_key_lt h with h | ⟨hx, hy⟩
    · exact h.le
    · rw [num_eq_zero hx, num_eq_zero hy]
  · rw [eq_of_key_eq h]

/-- Only the two zeros share a numeric value. -/
theorem eq_of_num_eq {x y : Fp F} (h : x.num = y.num) : x = y ∨ (x.mag = 0 ∧ y.mag = 0) := by
  rcases lt_trichotomy x.key y.key with hlt | heq | hgt
  · rcases num_lt_of_key_lt hlt with h' | h'
    · omega
    · exact Or.inr h'
  · exact Or.inl (eq_of_key_eq heq)
  · rcases num_lt_of_key_lt hgt with h' | h'
    · omega
    · exact Or.inr ⟨h'.2, h'.1⟩

/-- The next float towards positive infinity, for a nonzero float. -/
def nextUp (x : Fp F) : Fp F :=
  if x.neg then ⟨true, x.mag - 1⟩ else ⟨false, x.mag + 1⟩

/-- The next float towards negative infinity, for a nonzero float. -/
def nextDown (x : Fp F) : Fp F :=
  if x.neg then ⟨true, x.mag + 1⟩ else ⟨false, x.mag - 1⟩

theorem scaled_le {a b : Nat} : scaled F a ≤ scaled F b ↔ a ≤ b := (scaled_strictMono F).le_iff_le

theorem scaled_lt {a b : Nat} : scaled F a < scaled F b ↔ a < b := (scaled_strictMono F).lt_iff_lt

theorem num_nextUp_le {x y : Fp F} (h : x.num < y.num) :
    x.nextUp.num ≤ y.num := by
  unfold nextUp num at *
  cases hxn : x.neg <;> cases hyn : y.neg <;> simp only [hxn, hyn, if_true, if_false,
    Bool.false_eq_true] at h ⊢
  · have := scaled_lt.1 (Int.ofNat_lt.1 h)
    exact Int.ofNat_le.2 (scaled_le.2 this)
  · omega
  · omega
  · have hlt := scaled_lt.1 (Int.ofNat_lt.1 (neg_lt_neg_iff.1 h))
    have := (scaled_le (F := F)).2 (show y.mag ≤ x.mag - 1 by omega)
    omega

theorem le_num_nextDown {x y : Fp F} (h : x.num < y.num) :
    x.num ≤ y.nextDown.num := by
  unfold nextDown num at *
  cases hxn : x.neg <;> cases hyn : y.neg <;> simp only [hxn, hyn, if_true, if_false,
    Bool.false_eq_true] at h ⊢
  · have hlt := scaled_lt.1 (Int.ofNat_lt.1 h)
    exact Int.ofNat_le.2 (scaled_le.2 (show x.mag ≤ y.mag - 1 by omega))
  · omega
  · omega
  · have hlt := scaled_lt.1 (Int.ofNat_lt.1 (neg_lt_neg_iff.1 h))
    have := (scaled_le (F := F)).2 (show y.mag + 1 ≤ x.mag by omega)
    omega

/-- A finite float lies strictly between the infinities. -/
theorem abs_num_lt_of_isFinite {x : Fp F} (h : x.isFinite = true) :
    |x.num| < scaled F F.infMag := by
  have hlt : scaled F x.mag < scaled F F.infMag := scaled_strictMono F (by simpa [isFinite] using h)
  unfold num
  split <;> simp <;> exact hlt

end Fp

end Ieee
