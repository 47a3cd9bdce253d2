import DuckLake.Prune.Render
import Mathlib.Tactic.FieldSimp
import Mathlib.Tactic.Positivity
import Mathlib.Algebra.Order.Field.Basic
import Mathlib.Data.Rat.Cast.Order

/- What a recorded bound says about a constant.

   A bound is stored as text and read back by the catalog engine. This module
   relates four things: the value `x` of a row, the bound `m` recorded below (or
   above) it, the engine's reading of the bound's text, and the constant `c` the
   predicate compares `x` with. For every type but the floats the readings are
   exact. A single-precision bound may read as any double that rounds to it, and
   the two zeros are one value to the engine but not to a query; both cases go
   through the constant's window (`window_low`, `window_high`). -/

namespace DuckLake.Prune

open Kleene Ieee

/-! ## The order of SQL values -/

/-- `a` is at most `b`, both of one kind. -/
def SqlLe (a b : SqlVal) : Prop := compareSql a b = some .lt ∨ compareSql a b = some .eq

theorem compareSql_swap (a b : SqlVal) : compareSql b a = (compareSql a b).map Ordering.swap := by
  cases a <;> cases b <;> simp [compareSql, order_swap]

theorem eq_of_compareSql_eq {a b : SqlVal} (h : compareSql a b = some .eq) : a = b := by
  cases a <;> cases b <;> simp_all [compareSql, order_eq]

theorem compareSql_lt_trans {a b c : SqlVal} (hab : compareSql a b = some .lt)
    (hbc : compareSql b c = some .lt) : compareSql a c = some .lt := by
  cases a <;> cases b <;> cases c <;> simp_all only [compareSql, Option.some.injEq, order_lt,
    reduceCtorEq]
  all_goals exact lt_trans hab hbc

theorem SqlLe.trans_lt {a b c : SqlVal} (hab : SqlLe a b) (hbc : compareSql b c = some .lt) :
    compareSql a c = some .lt := by
  rcases hab with h | h
  · exact compareSql_lt_trans h hbc
  · rw [eq_of_compareSql_eq h]
    exact hbc

theorem lt_trans_sqlLe {a b c : SqlVal} (hab : compareSql a b = some .lt) (hbc : SqlLe b c) :
    compareSql a c = some .lt := by
  rcases hbc with h | h
  · exact compareSql_lt_trans hab h
  · rw [← eq_of_compareSql_eq h]
    exact hab

theorem compareSql_gt {a b : SqlVal} : compareSql a b = some .gt ↔ compareSql b a = some .lt := by
  rw [compareSql_swap b a, Option.map_eq_some_iff]
  constructor
  · rintro ⟨o, ho, hs⟩
    cases o <;> simp_all
  · intro h
    exact ⟨.lt, h, rfl⟩

/-! ## Values and constants compare as their SQL values do -/

private theorem order_intCast (a b : Int) : order (a : ℚ) (b : ℚ) = order a b := by
  rcases lt_trichotomy a b with h | h | h
  · rw [order_lt.2 h, order_lt]
    exact_mod_cast h
  · rw [h, order_eq.2 rfl, order_eq.2 rfl]
  · rw [order_gt.2 h, order_gt]
    exact_mod_cast h

private theorem order_scale {p q : ℚ} (hp : 0 < p) (hq : 0 < q) (a b : ℚ) :
    order (a / p) (b / q) = order (a * q) (b * p) := by
  rcases lt_trichotomy (a * q) (b * p) with h | h | h
  · rw [order_lt.2 h, order_lt, div_lt_div_iff₀ hp hq]
    exact h
  · rw [order_eq.2 h, order_eq, div_eq_div_iff hp.ne' hq.ne']
    exact h
  · rw [order_gt.2 h, order_gt, div_lt_div_iff₀ hq hp]
    exact h

private theorem order_decimals (a b : Int) (s r : Nat) :
    order ((a : ℚ) / 10 ^ s) ((b : ℚ) / 10 ^ r) = order (a * 10 ^ r) (b * 10 ^ s) := by
  rw [order_scale (by positivity) (by positivity), ← order_intCast]
  push_cast
  rfl

/-- A constant whose bounds are read exactly: neither single precision nor a zero. -/
def ExactConstant : ScalarValue → Prop
  | .float16 _ | .float32 _ | .binary _ _ => False
  | .float64 c => c.mag ≠ 0
  | _ => True

variable {o : Ordering} {x c : ScalarValue} {b : Option SqlVal} {w : FloatWindow}

theorem compareScalars_sql (hc : ExactConstant c) (h : compareScalars x c = some o) :
    ∃ a b, sqlOf x = some a ∧ sqlOf c = some b ∧ compareSql a b = some o := by
  cases x <;> cases c <;> simp only [compareScalars, reduceCtorEq, Option.some.injEq] at h
  case integer.integer t a u b => exact ⟨_, _, rfl, rfl, by rw [← h, ← order_intCast]; rfl⟩
  case integer.decimal128 t a b p s =>
    split at h
    · refine ⟨_, _, rfl, rfl, ?_⟩
      have := order_decimals a b 0 s.toNat
      simp only [pow_zero, div_one, mul_one] at this
      rw [← Option.some.inj h, ← this]
      rfl
    · cases h
  case decimal128.integer a p s t b =>
    split at h
    · refine ⟨_, _, rfl, rfl, ?_⟩
      have := order_decimals a b s.toNat 0
      simp only [pow_zero, div_one, mul_one] at this
      rw [← Option.some.inj h, ← this]
      rfl
    · cases h
  case decimal128.decimal128 a p s b q r =>
    refine ⟨_, _, rfl, rfl, ?_⟩
    simp only [compareSql, order_decimals]
    split at h
    · rename_i hps
      have hpos : (0 : Int) < 10 ^ s.toNat := by positivity
      rw [← hps.2, ← h]
      simp only [order, cmp, cmpUsing, mul_lt_mul_iff_left₀ hpos]
    · split at h
      · exact h
      · cases h
  case float64.float64 a b =>
    refine ⟨_, _, rfl, rfl, ?_⟩
    simp only [compareSql, Option.some.injEq]
    rcases lt_trichotomy a.key b.key with hk | hk | hk
    · rw [order_lt.2 hk] at h
      rcases Fp.num_lt_of_key_lt hk with hn | hn
      · rw [← h, order_lt]
        exact hn
      · exact absurd hn.2 hc
    · rw [order_eq.2 hk] at h
      rw [← h, order_eq, Fp.eq_of_key_eq hk]
    · rw [order_gt.2 hk] at h
      rcases Fp.num_lt_of_key_lt hk with hn | hn
      · rw [← h, order_gt]
        exact hn
      · exact absurd hn.1 hc
  case float16.float16 => exact absurd hc id
  case float32.float32 => exact absurd hc id
  case binary.binary => exact absurd hc id
  case time.time u a w b =>
    split at h
    · exact ⟨_, _, rfl, rfl, h⟩
    · cases h
  case timestamp.timestamp u tz a w tz' b =>
    split at h
    · exact ⟨_, _, rfl, rfl, h⟩
    · cases h
  case other.other n a m b =>
    split at h
    · exact ⟨_, _, rfl, rfl, h⟩
    · cases h
  all_goals exact ⟨_, _, rfl, rfl, congrArg some h⟩

/-! ## Windows -/

/-- The low edge of a single-precision constant's window, in half units of its format. -/
def lowerEdge (v : F32) : Int := if v.mag = 0 then -1 else v.num + v.nextDown.num

/-- The high edge. -/
def upperEdge (v : F32) : Int := if v.mag = 0 then 1 else v.num + v.nextUp.num

private theorem half_sum (a b k : Int) : (a * (2 * k) + b * (2 * k)) / 2 = (a + b) * k := by
  rw [show a * (2 * k) + b * (2 * k) = (a + b) * k * 2 by ring, Int.mul_ediv_cancel _ two_ne_zero]

/-- One step past the largest finite number is as far as the step before it. -/
private theorem scaled_past_max :
    scaled binary32 binary32.infMag + scaled binary32 (binary32.infMag - 1 - 1) =
      2 * scaled binary32 (binary32.infMag - 1) := by
  decide

theorem window_float32 {v : F32} (h : v.isFinite = true) :
    FloatWindow.of (.float32 v) = some ⟨lowerEdge v * 2 ^ 924, upperEdge v * 2 ^ 924, v.isZero⟩ := by
  have hpow : (2 : Int) ^ 925 = 2 * 2 ^ 924 := pow_succ' 2 924
  generalize (2 : Int) ^ 924 = k at hpow ⊢
  simp only [FloatWindow.of, lowerEdge, upperEdge, widen, hpow, Fp.isZero, beq_iff_eq]
  by_cases hz : v.mag = 0
  · have hone : (⟨false, 1⟩ : F32).num = 1 := by decide
    simp [hz, hone, mul_comm 2 k]
  · simp only [hz, if_false, h, if_true, beq_false_of_ne, ne_eq, not_false_eq_true]
    have hmag : v.mag < binary32.infMag := by simpa [Fp.isFinite] using h
    have hstep (m : Nat) (hm : m + 1 = binary32.infMag) :
        (scaled binary32 (m + 1) : Int) + scaled binary32 (m - 1) = 2 * scaled binary32 m := by
      have := scaled_past_max
      rw [← hm, Nat.add_sub_cancel] at this
      exact_mod_cast this
    congr 2
    · split
      · exact half_sum _ _ _
      · -- the constant is the most negative finite float
        rename_i hfin
        cases hn : v.neg with
        | false =>
          simp only [Fp.nextDown, hn, Bool.false_eq_true, if_false, Fp.isFinite,
            decide_eq_true_eq] at hfin
          omega
        | true =>
          simp only [Fp.nextDown, hn, if_true, Fp.isFinite, decide_eq_true_eq] at hfin
          have := hstep v.mag (by omega)
          simp only [Fp.num, Fp.nextDown, Fp.nextUp, hn, if_true]
          rw [show (-(scaled binary32 (v.mag - 1) : Int)) * (2 * k) - -(scaled binary32 v.mag : Int) * (2 * k) =
            ((scaled binary32 v.mag : Int) - scaled binary32 (v.mag - 1)) * k * 2 by ring,
            Int.mul_ediv_cancel _ two_ne_zero,
            show (scaled binary32 (v.mag + 1) : Int) = 2 * scaled binary32 v.mag - scaled binary32 (v.mag - 1) by omega]
          ring
    · split
      · exact half_sum _ _ _
      · rename_i hfin
        cases hn : v.neg with
        | true =>
          simp only [Fp.nextUp, hn, if_true, Fp.isFinite, decide_eq_true_eq] at hfin
          omega
        | false =>
          simp only [Fp.nextUp, hn, Bool.false_eq_true, if_false, Fp.isFinite,
            decide_eq_true_eq] at hfin
          have := hstep v.mag (by omega)
          simp only [Fp.num, Fp.nextDown, Fp.nextUp, hn, Bool.false_eq_true, if_false]
          rw [show (scaled binary32 v.mag : Int) * (2 * k) - scaled binary32 (v.mag - 1) * (2 * k) =
            ((scaled binary32 v.mag : Int) - scaled binary32 (v.mag - 1)) * k * 2 by ring,
            Int.mul_ediv_cancel _ two_ne_zero,
            show (scaled binary32 (v.mag + 1) : Int) = 2 * scaled binary32 v.mag - scaled binary32 (v.mag - 1) by omega]
          ring

theorem upperEdge_le_lowerEdge {m c : F32} (h : m.num < c.num) : upperEdge m ≤ lowerEdge c := by
  have h1 := Fp.num_nextUp_le h
  have h2 := Fp.le_num_nextDown h
  unfold upperEdge lowerEdge
  split <;> split
  · rename_i hm hc
    rw [Fp.num_eq_zero hm, Fp.num_eq_zero hc] at h
    omega
  · rename_i hm _
    rw [Fp.num_eq_zero hm] at h h2
    omega
  · rename_i _ hc
    rw [Fp.num_eq_zero hc] at h h1
    omega
  · omega

theorem lowerEdge_le_upperEdge (c : F32) : lowerEdge c ≤ upperEdge c := by
  unfold upperEdge lowerEdge
  split
  · omega
  · rename_i hc
    have : c.nextDown.num ≤ c.nextUp.num := by
      apply Fp.num_le_of_key_le
      unfold Fp.nextDown Fp.nextUp Fp.key
      split <;> simp <;> omega
    omega

theorem edges_eq_of_num_eq {m c : F32} (h : m.num = c.num) :
    upperEdge m = upperEdge c ∧ lowerEdge m = lowerEdge c := by
  rcases Fp.eq_of_num_eq h with rfl | ⟨hm, hc⟩
  · exact ⟨rfl, rfl⟩
  · simp [upperEdge, lowerEdge, hm, hc]

theorem upperEdge_mono {m c : F32} (h : m.num ≤ c.num) : upperEdge m ≤ upperEdge c := by
  rcases lt_or_eq_of_le h with h | h
  · exact (upperEdge_le_lowerEdge h).trans (lowerEdge_le_upperEdge c)
  · exact (edges_eq_of_num_eq h).1.le

theorem lowerEdge_mono {m c : F32} (h : m.num ≤ c.num) : lowerEdge m ≤ lowerEdge c := by
  rcases lt_or_eq_of_le h with h | h
  · exact (lowerEdge_le_upperEdge m).trans (upperEdge_le_lowerEdge h)
  · exact (edges_eq_of_num_eq h).2.le

/-- Infinity as a double. -/
def infinityDouble : Int := scaled binary64 binary64.infMag

private theorem edges_below_infinity :
    2 * scaled binary32 binary32.infMag * 2 ^ 924 ≤ scaled binary64 binary64.infMag := by
  rw [scaled_infMag (by decide), scaled_infMag (by decide), ← pow_succ', ← pow_add]
  exact Nat.pow_le_pow_right Nat.two_pos (by decide)

theorem edge_lt_infinity {c : F32} (h : c.isFinite = true) :
    -infinityDouble ≤ lowerEdge c * 2 ^ 924 ∧ upperEdge c * 2 ^ 924 ≤ infinityDouble := by
  have hc := abs_lt.1 (Fp.abs_num_lt_of_isFinite h)
  have hup := Fp.num_nextUp_le (x := c) (y := ⟨false, binary32.infMag⟩) hc.2
  have hdown := Fp.le_num_nextDown (x := ⟨true, binary32.infMag⟩) (y := c) hc.1
  change c.nextUp.num ≤ scaled binary32 binary32.infMag at hup
  change -(scaled binary32 binary32.infMag : Int) ≤ c.nextDown.num at hdown
  have hS : (2 * (scaled binary32 binary32.infMag : Int)) * 2 ^ 924 ≤ infinityDouble :=
    by simpa only [infinityDouble, Nat.cast_mul, Nat.cast_pow, Nat.cast_ofNat]
      using Int.ofNat_le.2 edges_below_infinity
  generalize (scaled binary32 binary32.infMag : Int) = S at *
  have hlow : -(2 * S) ≤ lowerEdge c := by
    unfold lowerEdge
    split <;> omega
  have hhigh : upperEdge c ≤ 2 * S := by
    unfold upperEdge
    split <;> omega
  have hpos : (0 : Int) ≤ 2 ^ 924 := pow_nonneg (by decide) _
  constructor
  · calc -infinityDouble ≤ -(2 * S) * 2 ^ 924 := by rw [neg_mul]; exact neg_le_neg hS
      _ ≤ lowerEdge c * 2 ^ 924 := Int.mul_le_mul_of_nonneg_right hlow hpos
  · exact (Int.mul_le_mul_of_nonneg_right hhigh hpos).trans hS

/-! ## Reading a bound -/

/-- The doubles the text of a single-precision bound can read as. -/
def readsAs (x : F32) (d : Int) : Prop :=
  if x.isFinite then lowerEdge x * 2 ^ 924 ≤ d ∧ d ≤ upperEdge x * 2 ^ 924
  else d = if x.neg then -infinityDouble else infinityDouble

/-- A bound as the catalog engine reads it: NULL, or the value the text spells. -/
def Reading : ScalarValue → Option SqlVal → Prop
  | .float32 x, b => b = none ∨ ∃ d, b = some (.double d) ∧ readsAs x d
  | m, b => b = none ∨ b = sqlOf m

/-- `m` is at most `v` as SQL values. -/
def boundLe (m v : ScalarValue) : Prop := ∃ a b, sqlOf m = some a ∧ sqlOf v = some b ∧ SqlLe a b

/-- `b` is a reading of some value of `x`'s type at or below `x`. -/
def LowReading (x : ScalarValue) (b : Option SqlVal) : Prop :=
  b = none ∨ ∃ m, m.dataType = x.dataType ∧ m.isNaN = false ∧ boundLe m x ∧ Reading m b

/-- `b` is a reading of some value of `x`'s type at or above `x`. -/
def HighReading (x : ScalarValue) (b : Option SqlVal) : Prop :=
  b = none ∨ ∃ m, m.dataType = x.dataType ∧ m.isNaN = false ∧ boundLe x m ∧ Reading m b

theorem boundLe_double {a b : Int} (h : SqlLe (.double a) (.double b)) : a ≤ b := by
  rcases h with h | h
  · exact (order_lt.1 (Option.some.inj h)).le
  · exact (order_eq.1 (Option.some.inj h)).le

theorem reading_exact {x c m : ScalarValue} (hc : ExactConstant c)
    (h : compareScalars x c = some o) (hm : m.dataType = x.dataType) (hr : Reading m b) :
    b = none ∨ b = sqlOf m := by
  cases m with
  | float32 y =>
    cases x <;> simp only [ScalarValue.dataType, reduceCtorEq] at hm
    case null t =>
      cases c <;> simp [compareScalars] at h
    case float32 z =>
      cases c <;> simp only [compareScalars, reduceCtorEq] at h
      exact absurd hc id
  | _ => exact hr

theorem compare_exact {x c m : ScalarValue} {s t u : SqlVal} (hc : ExactConstant c) (ht : sqlOf c = some t)
    (h : compareScalars x c = some o) (hm : m.dataType = x.dataType) (hs : sqlOf m = some s) (hu : sqlOf x = some u)
    (hr : Reading m b) : b = none ∨ b = some s ∧ compareSql u t = some o := by
  obtain ⟨u', t', hu', ht', hcmp⟩ := compareScalars_sql hc h
  obtain rfl := Option.some.inj (hu.symm.trans hu')
  obtain rfl := Option.some.inj (ht.symm.trans ht')
  exact (reading_exact hc h hm hr).imp_right fun hr => ⟨hr.trans hs, hcmp⟩

theorem exact_low {t : SqlVal} (hc : ExactConstant c) (ht : sqlOf c = some t) (h : compareScalars x c = some o)
    (hb : LowReading x b) :
    b = none ∨ ∃ s, b = some s ∧ (o = .lt → compareSql s t = some .lt) ∧ (o ≠ .gt → SqlLe s t) := by
  rcases hb with hb | ⟨m, hm, -, ⟨s, u, hs, hu, hle⟩, hr⟩
  · exact Or.inl hb
  refine (compare_exact hc ht h hm hs hu hr).imp_right fun ⟨hr, hcmp⟩ => ⟨s, hr, ?_, fun ho => ?_⟩
  · rintro rfl
    exact hle.trans_lt hcmp
  · cases o with
    | lt => exact Or.inl (hle.trans_lt hcmp)
    | eq => rwa [eq_of_compareSql_eq hcmp] at hle
    | gt => exact absurd rfl ho

theorem exact_high {t : SqlVal} (hc : ExactConstant c) (ht : sqlOf c = some t) (h : compareScalars x c = some o)
    (hb : HighReading x b) :
    b = none ∨ ∃ s, b = some s ∧ (o = .gt → compareSql s t = some .gt) ∧ (o ≠ .lt → SqlLe t s) := by
  rcases hb with hb | ⟨m, hm, -, ⟨u, s, hu, hs, hle⟩, hr⟩
  · exact Or.inl hb
  refine (compare_exact hc ht h hm hs hu hr).imp_right fun ⟨hr, hcmp⟩ => ⟨s, hr, ?_, fun ho => ?_⟩
  · rintro rfl
    exact compareSql_gt.2 (lt_trans_sqlLe (compareSql_gt.1 hcmp) hle)
  · cases o with
    | lt => exact absurd rfl ho
    | eq => rwa [eq_of_compareSql_eq hcmp] at hle
    | gt => exact Or.inl (lt_trans_sqlLe (compareSql_gt.1 hcmp) hle)

/-- What a window says of a bound below a value that compares `o` with the constant. -/
structure LowWindow (w : FloatWindow) (o : Ordering) (d : Int) : Prop where
  within : o ≠ .gt → d ≤ w.hi
  strict : o = .lt → w.zero = false → d ≤ w.lo

/-- The same for a bound above the value. -/
structure HighWindow (w : FloatWindow) (o : Ordering) (d : Int) : Prop where
  within : o ≠ .lt → w.lo ≤ d
  strict : o = .gt → w.zero = false → w.hi ≤ d

theorem num_of_order {F : Format} {x c : Fp F} (h : order x.key c.key = o) :
    (o ≠ .gt → x.num ≤ c.num) ∧ (o ≠ .lt → c.num ≤ x.num) ∧
      (c.mag ≠ 0 → (o = .lt → x.num < c.num) ∧ (o = .gt → c.num < x.num)) := by
  rcases lt_trichotomy x.key c.key with hk | hk | hk
  · rw [order_lt.2 hk] at h
    subst h
    refine ⟨fun _ => Fp.num_le_of_key_le hk.le, fun h => absurd rfl h, fun hc => ⟨fun _ => ?_, by simp⟩⟩
    rcases Fp.num_lt_of_key_lt hk with h | h
    · exact h
    · exact absurd h.2 hc
  · rw [order_eq.2 hk] at h
    subst h
    rw [Fp.eq_of_key_eq hk]
    simp
  · rw [order_gt.2 hk] at h
    subst h
    refine ⟨fun h => absurd rfl h, fun _ => Fp.num_le_of_key_le hk.le, fun hc => ⟨by simp, fun _ => ?_⟩⟩
    rcases Fp.num_lt_of_key_lt hk with h | h
    · exact h
    · exact absurd h.1 hc

theorem window_cases {c : ScalarValue} (hw : FloatWindow.of c = some w) :
    (∃ v : F32, c = .float32 v ∧ v.isFinite = true ∧
      w = ⟨lowerEdge v * 2 ^ 924, upperEdge v * 2 ^ 924, v.isZero⟩) ∨
    (∃ v : F64, c = .float64 v ∧ v.mag = 0 ∧ w = ⟨-1, 1, true⟩) := by
  cases c <;> try cases hw
  case float32 v =>
    have hfin : v.isFinite = true := by
      by_contra hn
      have hz : v.isZero = false := by
        have : v.mag ≠ 0 := by
          intro h0
          apply hn
          simp only [Fp.isFinite, h0]
          decide
        simpa [Fp.isZero] using this
      simp [FloatWindow.of, hz, hn] at hw
    rw [window_float32 hfin] at hw
    exact Or.inl ⟨v, rfl, hfin, (Option.some.inj hw).symm⟩
  case float64 v =>
    simp only [FloatWindow.of] at hw
    split at hw
    · rename_i hz
      exact Or.inr ⟨v, rfl, by simpa [Fp.isZero] using hz, (Option.some.inj hw).symm⟩
    · cases hw

private theorem widen_le {a b : F32} (h : SqlLe (.double (widen a)) (.double (widen b))) : a.num ≤ b.num :=
  le_of_mul_le_mul_right (boundLe_double h) (pow_pos two_pos 925)

/-- Infinite bounds: only the one on the bound's own side can bound anything. -/
private theorem readsAs_infinite {m : F32} {d : Int} (hfin : ¬ m.isFinite = true) (hnan : m.isNaN = false)
    (hr : readsAs m d) :
    (d = -infinityDouble ∧ m.num = -scaled binary32 binary32.infMag) ∨
      (d = infinityDouble ∧ m.num = scaled binary32 binary32.infMag) := by
  have hmag : m.mag = binary32.infMag := by
    simp only [Fp.isFinite, Fp.isNaN, decide_eq_true_eq, decide_eq_false_iff_not, not_lt] at hfin hnan
    omega
  rw [readsAs, if_neg hfin] at hr
  cases hn : m.neg <;> simp only [hn, Bool.false_eq_true, if_true, if_false] at hr <;>
    simp only [Fp.num, hn, hmag, Bool.false_eq_true, if_true, if_false]
  · exact Or.inr ⟨hr, trivial⟩
  · exact Or.inl ⟨hr, trivial⟩

private theorem low32 {x c m : F32} {o : Ordering} {d : Int} (hc : c.isFinite = true)
    (ho : order x.key c.key = o) (hm : m.num ≤ x.num) (hnan : m.isNaN = false) (hr : readsAs m d) :
    LowWindow ⟨lowerEdge c * 2 ^ 924, upperEdge c * 2 ^ 924, c.isZero⟩ o d := by
  obtain ⟨hle, -, hstrict⟩ := num_of_order ho
  have hpos : (0 : Int) ≤ 2 ^ 924 := pow_nonneg (by decide) _
  by_cases hfin : m.isFinite = true
  · rw [readsAs, if_pos hfin] at hr
    constructor
    · intro hgt
      exact hr.2.trans (Int.mul_le_mul_of_nonneg_right (upperEdge_mono (hm.trans (hle hgt))) hpos)
    · intro hlt hz
      have hmag : c.mag ≠ 0 := by simpa [Fp.isZero] using hz
      exact hr.2.trans (Int.mul_le_mul_of_nonneg_right
        (upperEdge_le_lowerEdge (hm.trans_lt ((hstrict hmag).1 hlt))) hpos)
  · have hedge := edge_lt_infinity hc
    have hlu := Int.mul_le_mul_of_nonneg_right (lowerEdge_le_upperEdge c) hpos
    rcases readsAs_infinite hfin hnan hr with ⟨hd, -⟩ | ⟨-, hnum⟩
    · exact ⟨fun _ => hd.le.trans (hedge.1.trans hlu), fun _ _ => hd.le.trans hedge.1⟩
    · have habs := (abs_lt.1 (Fp.abs_num_lt_of_isFinite hc)).2
      have hno : o = .gt := by
        by_contra hgt
        have := hle hgt
        omega
      subst hno
      exact ⟨fun h => absurd rfl h, fun h => by cases h⟩

private theorem high32 {x c m : F32} {o : Ordering} {d : Int} (hc : c.isFinite = true)
    (ho : order x.key c.key = o) (hm : x.num ≤ m.num) (hnan : m.isNaN = false) (hr : readsAs m d) :
    HighWindow ⟨lowerEdge c * 2 ^ 924, upperEdge c * 2 ^ 924, c.isZero⟩ o d := by
  obtain ⟨-, hge, hstrict⟩ := num_of_order ho
  have hpos : (0 : Int) ≤ 2 ^ 924 := pow_nonneg (by decide) _
  by_cases hfin : m.isFinite = true
  · rw [readsAs, if_pos hfin] at hr
    constructor
    · intro hlt
      exact (Int.mul_le_mul_of_nonneg_right (lowerEdge_mono ((hge hlt).trans hm)) hpos).trans hr.1
    · intro hgt hz
      have hmag : c.mag ≠ 0 := by simpa [Fp.isZero] using hz
      exact (Int.mul_le_mul_of_nonneg_right
        (upperEdge_le_lowerEdge (((hstrict hmag).2 hgt).trans_le hm)) hpos).trans hr.1
  · have hedge := edge_lt_infinity hc
    have hlu := Int.mul_le_mul_of_nonneg_right (lowerEdge_le_upperEdge c) hpos
    rcases readsAs_infinite hfin hnan hr with ⟨-, hnum⟩ | ⟨hd, -⟩
    · have habs := (abs_lt.1 (Fp.abs_num_lt_of_isFinite hc)).1
      have hno : o = .lt := by
        by_contra hlt
        have := hge hlt
        omega
      subst hno
      exact ⟨fun h => absurd rfl h, fun h => by cases h⟩
    · exact ⟨fun _ => (hlu.trans hedge.2).trans hd.ge, fun _ _ => hedge.2.trans hd.ge⟩

theorem window_low (hw : FloatWindow.of c = some w) (h : compareScalars x c = some o) (hb : LowReading x b) :
    b = none ∨ ∃ d, b = some (.double d) ∧ LowWindow w o d := by
  rcases hb with hb | ⟨m, hm, hnan, ⟨s, u, hs, hu, hle⟩, hr⟩
  · exact Or.inl hb
  rcases window_cases hw with ⟨v, rfl, hfin, rfl⟩ | ⟨v, rfl, hz, rfl⟩ <;> cases x <;>
    simp only [compareScalars, reduceCtorEq, Option.some.injEq] at h
  case inl.float32 y =>
    cases m <;> simp only [ScalarValue.dataType, reduceCtorEq] at hm
    case null t => cases hs
    case float32 z =>
      cases hs
      cases hu
      rcases hr with hr | ⟨d, hd, hr⟩
      · exact Or.inl hr
      · exact Or.inr ⟨d, hd, low32 hfin h (widen_le hle) hnan hr⟩
  case inr.float64 y =>
    cases m <;> simp only [ScalarValue.dataType, reduceCtorEq] at hm
    case null t => cases hs
    case float64 z =>
      cases hs
      cases hu
      rcases hr with hr | hr
      · exact Or.inl hr
      · refine Or.inr ⟨_, hr, ⟨fun hgt => ?_, fun _ hf => by cases hf⟩⟩
        have h1 := boundLe_double hle
        have h2 := (num_of_order h).1 hgt
        rw [Fp.num_eq_zero hz] at h2
        simp only
        omega

theorem window_high (hw : FloatWindow.of c = some w) (h : compareScalars x c = some o) (hb : HighReading x b) :
    b = none ∨ ∃ d, b = some (.double d) ∧ HighWindow w o d := by
  rcases hb with hb | ⟨m, hm, hnan, ⟨u, s, hu, hs, hle⟩, hr⟩
  · exact Or.inl hb
  rcases window_cases hw with ⟨v, rfl, hfin, rfl⟩ | ⟨v, rfl, hz, rfl⟩ <;> cases x <;>
    simp only [compareScalars, reduceCtorEq, Option.some.injEq] at h
  case inl.float32 y =>
    cases m <;> simp only [ScalarValue.dataType, reduceCtorEq] at hm
    case null t => cases hs
    case float32 z =>
      cases hs
      cases hu
      rcases hr with hr | ⟨d, hd, hr⟩
      · exact Or.inl hr
      · exact Or.inr ⟨d, hd, high32 hfin h (widen_le hle) hnan hr⟩
  case inr.float64 y =>
    cases m <;> simp only [ScalarValue.dataType, reduceCtorEq] at hm
    case null t => cases hs
    case float64 z =>
      cases hs
      cases hu
      rcases hr with hr | hr
      · exact Or.inl hr
      · refine Or.inr ⟨_, hr, ⟨fun hlt => ?_, fun _ hf => by cases hf⟩⟩
        have h1 := boundLe_double hle
        have h2 := (num_of_order h).2.1 hlt
        rw [Fp.num_eq_zero hz] at h2
        simp only
        omega

end DuckLake.Prune
