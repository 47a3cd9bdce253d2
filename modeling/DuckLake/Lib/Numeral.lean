import Mathlib.Data.List.Basic
import Mathlib.Data.List.Induction
import Mathlib.Data.List.Lex
import Mathlib.Data.Nat.Digits.Defs
import Mathlib.Tactic.Ring

/- Decimal numerals as lists of characters.

   `Nat.toDigits 10` prints a number and `Nat.ofDigitChars 10` reads digits back;
   the library has that the two are inverse. This module adds the parsers a
   program puts around them: digits only, an optional sign, a range. -/

namespace Numeral

/-- The number a run of digits spells. -/
def value (t : List Char) : Nat := Nat.ofDigitChars 10 t 0

/-- A non-empty run of ASCII digits. -/
def parseNat (t : List Char) : Option Nat :=
  if t ≠ [] ∧ t.all Char.isDigit then some (value t) else none

/-- Digits after an optional sign. -/
def parseInt : List Char → Option Int
  | '+' :: t => (parseNat t).map Int.ofNat
  | '-' :: t => (parseNat t).map fun n => -(n : Int)
  | t => (parseNat t).map Int.ofNat

/-- The same within a range; outside it the text does not parse. -/
def parseIntIn (lo hi : Int) (t : List Char) : Option Int :=
  (parseInt t).filter fun v => decide (lo ≤ v ∧ v ≤ hi)

@[simp] theorem value_toDigits (n : Nat) : value (Nat.toDigits 10 n) = n := Nat.ofDigitChars_ten_toDigits

theorem all_isDigit_toDigits (n : Nat) : (Nat.toDigits 10 n).all Char.isDigit = true := by
  rw [List.all_eq_true]
  intro c hc
  exact Nat.isDigit_of_mem_toDigits (by decide) (by decide) hc

@[simp] theorem parseNat_toDigits (n : Nat) : parseNat (Nat.toDigits 10 n) = some n := by
  simp [parseNat, Nat.toDigits_ne_nil, all_isDigit_toDigits]

theorem value_append (a b : List Char) : value (a ++ b) = value a * 10 ^ b.length + value b := by
  rw [value, Nat.ofDigitChars_append, Nat.ofDigitChars_eq_ofDigitChars_zero, mul_comm]
  rfl

@[simp] theorem value_zeros (k : Nat) : value (List.replicate k '0') = 0 := by
  rw [value, Nat.ofDigitChars_replicate_zero, mul_zero]

variable {t : List Char} {c : Char}

theorem parseNat_of_isDigit (h : t ≠ []) (hd : t.all Char.isDigit = true) :
    parseNat t = some (value t) := if_pos ⟨h, hd⟩

theorem parseNat_eq_none_of_mem (hc : c ∈ t) (hd : c.isDigit = false) :
    parseNat t = none := by
  refine if_neg fun h => ?_
  have := List.all_eq_true.1 h.2 c hc
  rw [hd] at this
  cases this

theorem parseInt_unsigned (h : t.all Char.isDigit = true) :
    parseInt t = (parseNat t).map Int.ofNat := by
  unfold parseInt
  split
  · simp at h
  · simp at h
  · rfl

theorem parseInt_neg (t : List Char) : parseInt ('-' :: t) = (parseNat t).map fun n => -(n : Int) := rfl

/-- A character that is neither a digit nor a sign makes a text unreadable. -/
theorem parseInt_eq_none_of_mem (hc : c ∈ t) (hd : c.isDigit = false)
    (hplus : c ≠ '+') (hminus : c ≠ '-') : parseInt t = none := by
  unfold parseInt
  split
  · have hm : c ∈ _ := (List.mem_cons.1 hc).resolve_left hplus
    rw [parseNat_eq_none_of_mem hm hd]
    rfl
  · have hm : c ∈ _ := (List.mem_cons.1 hc).resolve_left hminus
    rw [parseNat_eq_none_of_mem hm hd]
    rfl
  · rw [parseNat_eq_none_of_mem hc hd]
    rfl

/-! ## Digits of one width -/

theorem value_cons (c : Char) (t : List Char) : value (c :: t) = (c.toNat - '0'.toNat) * 10 ^ t.length + value t := by
  rw [show c :: t = [c] ++ t from rfl, value_append]
  simp [value, Nat.ofDigitChars]

theorem ascii_of_isDigit (h : c.isDigit = true) : c.toNat < 0x80 := by
  have hle := (Char.isDigit_iff_toNat.mp h).2
  have h9 : '9'.toNat = 57 := rfl
  omega

theorem value_lt_pow : ∀ {t : List Char}, t.all Char.isDigit = true → value t < 10 ^ t.length
  | [], _ => by decide
  | c :: t, h => by
    simp only [List.all_cons, Bool.and_eq_true] at h
    have hc := Char.isDigit_iff_toNat.mp h.1
    have ht := value_lt_pow h.2
    have hle : c.toNat - '0'.toNat ≤ 9 := by
      have h9 : '9'.toNat = 57 := rfl
      have h0 : '0'.toNat = 48 := rfl
      omega
    have hmul := Nat.mul_le_mul_right (10 ^ t.length) hle
    rw [value_cons, List.length_cons, pow_succ]
    omega

theorem lt_of_value_lt : ∀ {a b : List Char}, a.length = b.length → a.all Char.isDigit = true →
    b.all Char.isDigit = true → value a < value b → a < b
  | [], [], _, _, _, h => absurd h (by decide)
  | c :: a, d :: b, hlen, ha, hb, h => by
    simp only [List.all_cons, Bool.and_eq_true] at ha hb
    simp only [List.length_cons, Nat.add_right_cancel_iff] at hlen
    have hc := Char.isDigit_iff_toNat.mp ha.1
    have hd := Char.isDigit_iff_toNat.mp hb.1
    have hva := value_lt_pow ha.2
    have hvb := value_lt_pow hb.2
    rw [value_cons, value_cons, hlen] at h
    rw [hlen] at hva
    rcases Nat.lt_trichotomy c.toNat d.toNat with hcd | hcd | hcd
    · exact List.Lex.rel hcd
    · have heq : c = d := Char.toNat_inj.mp hcd
      subst heq
      exact List.Lex.cons (lt_of_value_lt hlen ha.2 hb.2 (by omega))
    · have hstep : d.toNat - '0'.toNat + 1 ≤ c.toNat - '0'.toNat := by omega
      have hmul := Nat.mul_le_mul_right (10 ^ b.length) hstep
      rw [Nat.add_mul, Nat.one_mul] at hmul
      omega

theorem value_lt_or_eq : ∀ {a b s t : List Char}, a.length = b.length → a.all Char.isDigit = true →
    b.all Char.isDigit = true → a ++ s < b ++ t → value a < value b ∨ a = b ∧ s < t
  | [], [], _, _, _, _, _, h => .inr ⟨rfl, h⟩
  | c :: a, d :: b, s, t, hlen, ha, hb, h => by
    simp only [List.all_cons, Bool.and_eq_true] at ha hb
    simp only [List.length_cons, Nat.add_right_cancel_iff] at hlen
    rw [value_cons, value_cons, hlen]
    rcases List.cons_lt_cons_iff.mp h with hcd | ⟨rfl, hrest⟩
    · have hc := Char.isDigit_iff_toNat.mp ha.1
      have hva := value_lt_pow ha.2
      have hstep : c.toNat - '0'.toNat + 1 ≤ d.toNat - '0'.toNat := by
        have : c.toNat < d.toNat := hcd
        omega
      have hmul := Nat.mul_le_mul_right (10 ^ b.length) hstep
      rw [Nat.add_mul, Nat.one_mul] at hmul
      rw [hlen] at hva
      exact .inl (by omega)
    · rcases value_lt_or_eq hlen ha.2 hb.2 hrest with hlt | ⟨rfl, hlt⟩
      · exact .inl (by omega)
      · exact .inr ⟨rfl, hlt⟩

theorem digitChar_toNat (h : c.isDigit = true) : Nat.digitChar (c.toNat - '0'.toNat) = c := by
  obtain ⟨hlo, hhi⟩ := Char.isDigit_iff_toNat.mp h
  have hall : ∀ n ≤ '9'.toNat, '0'.toNat ≤ n → Nat.digitChar (n - '0'.toNat) = Char.ofNat n := by decide
  rw [hall _ hhi hlo, Char.ofNat_toNat]

theorem value_snoc (t : List Char) (c : Char) : value (t ++ [c]) = value t * 10 + (c.toNat - '0'.toNat) := by
  rw [value_append, value_cons]
  simp [value]

/-- Digits without a leading zero are the ones their number is printed with. -/
theorem toDigits_value (hd : t.all Char.isDigit = true) (hne : t ≠ [])
    (hlead : t.head? = some '0' → t = ['0']) : Nat.toDigits 10 (value t) = t := by
  induction t using List.reverseRecOn with
  | nil => exact absurd rfl hne
  | append_singleton t c ih =>
    simp only [List.all_append, List.all_cons, List.all_nil, Bool.and_true, Bool.and_eq_true] at hd
    have hdigit := digitChar_toNat hd.2
    have hlt : c.toNat - '0'.toNat < 10 := by
      have : '0'.toNat = 48 ∧ '9'.toNat = 57 := ⟨rfl, rfl⟩
      have := Char.isDigit_iff_toNat.mp hd.2
      omega
    rw [value_snoc]
    by_cases ht : t = []
    · subst ht
      rw [Nat.toDigits_of_lt_base (by simpa [value] using hlt)]
      simpa [value] using hdigit
    · have hhead : t.head? ≠ some '0' := by
        intro h0
        obtain ⟨a, t', rfl⟩ := List.exists_cons_of_ne_nil ht
        have := hlead (by simpa using h0)
        simp at this
      have hpos : 0 < value t := by
        by_contra hz
        have hzero : value t = 0 := by omega
        have := ih hd.1 ht (fun h => absurd h hhead)
        rw [hzero] at this
        rw [← this] at hhead
        exact hhead rfl
      rw [Nat.toDigits_of_base_le (by decide) (by omega),
        show (value t * 10 + (c.toNat - '0'.toNat)) / 10 = value t by omega,
        show (value t * 10 + (c.toNat - '0'.toNat)) % 10 = c.toNat - '0'.toNat by omega, hdigit,
        ih hd.1 ht (fun h => absurd h hhead)]

end Numeral
