import DuckLake.Scalar
import Mathlib.Data.Char
import Mathlib.Data.Int.ConditionallyCompleteOrder
import Mathlib.Data.List.Lex
import Mathlib.Data.Prod.Lex
import Mathlib.Order.Compare

/- The two orders on the values of a column. Statistics are folded in the engine's total
   order (`compareScalars`, here through `sortKey`); a bound is meant in `atMost`, where
   the two zeros of a float type are equal. The first refines the second. -/

namespace DuckLake.Planner

/-- A number or an instant; the two zeros of a float type are equal. -/
def magnitude : ScalarValue → Int
  | .boolean v => if v then 1 else 0
  | .integer _ v => v
  | .float16 v => v.num
  | .float32 v => v.num
  | .float64 v => v.num
  | .decimal128 v _ _ => v
  | .date32 days => days
  | .time _ v => v
  | .timestamp _ _ v => v
  | .other _ rank => rank
  | _ => 0

def characters : ScalarValue → Text
  | .string _ s => s
  | _ => []

def octets : ScalarValue → List Nat
  | .binary _ bytes => bytes.map UInt8.toNat
  | _ => []

/-- `a` is a value of the type of `b`, and no larger. -/
def atMost (a b : ScalarValue) : Bool :=
  decide (a.dataType = b.dataType) && decide (magnitude a ≤ magnitude b) && decide (characters a ≤ characters b) &&
    decide (octets a ≤ octets b)

section Bounds

variable {a b c : ScalarValue}

theorem atMost_iff : atMost a b = true ↔ a.dataType = b.dataType ∧ magnitude a ≤ magnitude b ∧
    characters a ≤ characters b ∧ octets a ≤ octets b := by
  simp [atMost, and_assoc]

theorem atMost_refl (a : ScalarValue) : atMost a a = true := atMost_iff.mpr ⟨rfl, le_rfl, le_rfl, le_rfl⟩

theorem atMost_trans (h₁ : atMost a b = true) (h₂ : atMost b c = true) : atMost a c = true := by
  obtain ⟨ht₁, hm₁, hc₁, ho₁⟩ := atMost_iff.mp h₁
  obtain ⟨ht₂, hm₂, hc₂, ho₂⟩ := atMost_iff.mp h₂
  exact atMost_iff.mpr ⟨ht₁.trans ht₂, hm₁.trans hm₂, hc₁.trans hc₂, ho₁.trans ho₂⟩

end Bounds

/-- The minimum or the maximum of a column. -/
inductive Side where
  | min
  | max
deriving DecidableEq, Repr

/-- `b` is a bound for `x` on its side. -/
def Side.covers : Side → ScalarValue → ScalarValue → Bool
  | min, b, x => atMost b x
  | max, b, x => atMost x b

theorem Side.covers_refl (side : Side) (b : ScalarValue) : side.covers b b = true := by
  cases side <;> exact atMost_refl b

theorem Side.covers_trans {side : Side} {v b x : ScalarValue} (h₁ : side.covers v b = true)
    (h₂ : side.covers b x = true) : side.covers v x = true := by
  cases side
  · exact atMost_trans h₁ h₂
  · exact atMost_trans h₂ h₁

/-! ## The engine's order -/

/-- A value's place among the values of its type, floats by the total order. -/
def totalMagnitude : ScalarValue → Int
  | .float16 v => v.key
  | .float32 v => v.key
  | .float64 v => v.key
  | v => magnitude v

def sortKey (v : ScalarValue) : Int ×ₗ (Text ×ₗ List Nat) := toLex (totalMagnitude v, toLex (characters v, octets v))

section Keys

theorem strictMono_number : StrictMono fun n : Int => (toLex (n, toLex ([], [])) : Int ×ₗ (Text ×ₗ List Nat)) :=
  fun _ _ h => Prod.Lex.toLex_lt_toLex.mpr (.inl h)

theorem strictMono_text : StrictMono fun t : Text => (toLex (0, toLex (t, [])) : Int ×ₗ (Text ×ₗ List Nat)) :=
  fun _ _ h => Prod.Lex.toLex_lt_toLex.mpr (.inr ⟨rfl, Prod.Lex.toLex_lt_toLex.mpr (.inl h)⟩)

theorem strictMono_octets : StrictMono fun o : List Nat => (toLex (0, toLex ([], o)) : Int ×ₗ (Text ×ₗ List Nat)) :=
  fun _ _ h => Prod.Lex.toLex_lt_toLex.mpr (.inr ⟨rfl, Prod.Lex.toLex_lt_toLex.mpr (.inr ⟨rfl, h⟩)⟩)

variable {a b : ScalarValue}

theorem compareScalars_eq (ha : a.isNull = false) (hb : b.isNull = false) (h : a.dataType = b.dataType) :
    compareScalars a b = some (order (sortKey a) (sortKey b)) := by
  have number (x y : Int) : order (toLex (x, toLex ([], [])) : Int ×ₗ (Text ×ₗ List Nat)) (toLex (y, toLex ([], []))) =
      order x y := strictMono_number.cmp_map_eq x y
  cases a <;> cases b <;>
    simp only [ScalarValue.dataType, reduceCtorEq, DataType.integer.injEq, DataType.decimal128.injEq,
      DataType.time.injEq, DataType.timestamp.injEq, DataType.string.injEq, DataType.binary.injEq,
      DataType.other.injEq] at h
  case boolean.boolean v w => revert ha hb; cases v <;> cases w <;> intro _ _ <;> decide
  case string.string t v t' w => exact congrArg some (strictMono_text.cmp_map_eq v w).symm
  case binary.binary t v t' w =>
    exact congrArg some (strictMono_octets.cmp_map_eq (v.map UInt8.toNat) (w.map UInt8.toNat)).symm
  case integer.integer t v t' w => exact congrArg some (number v w).symm
  case float16.float16 v w => exact congrArg some (number v.key w.key).symm
  case float32.float32 v w => exact congrArg some (number v.key w.key).symm
  case float64.float64 v w => exact congrArg some (number v.key w.key).symm
  case date32.date32 v w => exact congrArg some (number v w).symm
  case decimal128.decimal128 v p s w p' s' =>
    rw [compareScalars, if_pos h]
    exact congrArg some (number v w).symm
  case time.time u v u' w =>
    rw [compareScalars, if_pos h]
    exact congrArg some (number v w).symm
  case timestamp.timestamp u z v u' z' w =>
    rw [compareScalars, if_pos h]
    exact congrArg some (number v w).symm
  case other.other n v n' w =>
    rw [compareScalars, if_pos h]
    exact congrArg some (number v w).symm
  -- a NULL on either side
  all_goals first
    | (cases ha; done)
    | cases hb

/-- The engine's order refines the one bounds are meant in. -/
theorem atMost_of_sortKey_le (ha : a.isNull = false) (hb : b.isNull = false) (h : a.dataType = b.dataType)
    (hkey : sortKey a ≤ sortKey b) : atMost a b = true := by
  have number {x y : Int} (hle : (toLex (x, toLex ([], [])) : Int ×ₗ (Text ×ₗ List Nat)) ≤ toLex (y, toLex ([], []))) :
      x ≤ y := strictMono_number.le_iff_le.mp hle
  refine atMost_iff.mpr ⟨h, ?_⟩
  cases a <;> cases b <;>
    simp only [ScalarValue.dataType, reduceCtorEq] at h
  case string.string t v t' w => exact ⟨le_rfl, strictMono_text.le_iff_le.mp hkey, le_rfl⟩
  case binary.binary t v t' w => exact ⟨le_rfl, le_rfl, strictMono_octets.le_iff_le.mp hkey⟩
  case float16.float16 v w => exact ⟨Ieee.Fp.num_le_of_key_le (number hkey), le_rfl, le_rfl⟩
  case float32.float32 v w => exact ⟨Ieee.Fp.num_le_of_key_le (number hkey), le_rfl, le_rfl⟩
  case float64.float64 v w => exact ⟨Ieee.Fp.num_le_of_key_le (number hkey), le_rfl, le_rfl⟩
  -- the other types have one number, and a NULL is on neither side
  all_goals first
    | (cases ha; done)
    | (cases hb; done)
    | exact ⟨number hkey, le_rfl, le_rfl⟩

/-- Values of one type are compared, and what the comparison finds holds for bounds. -/
theorem exists_compare (ha : a.isNull = false) (hb : b.isNull = false) (h : a.dataType = b.dataType) :
    ∃ o, compareScalars a b = some o ∧ (o.isLE = true → atMost a b = true) ∧ (o.isGE = true → atMost b a = true) := by
  refine ⟨_, compareScalars_eq ha hb h, fun ho => ?_, fun ho => ?_⟩
  · refine atMost_of_sortKey_le ha hb h ?_
    rw [← not_lt, ← order_gt]
    intro hgt
    simp [hgt] at ho
  · refine atMost_of_sortKey_le hb ha h.symm ?_
    rw [← not_lt, ← order_lt]
    intro hlt
    simp [hlt] at ho

end Keys

end DuckLake.Planner
