import DuckLake.Lib.Utf8
import DuckLake.Options.Number

/- The integer casts of option values round exactly.

   Reading the digits before the point fails exactly when their number leaves the store type.
   Of the digits behind it some are dropped, but never the first one, and the first one alone
   decides the rounding: dividing the digits taken down to ten at most leaves a single digit
   of five or more exactly when the first one is such. -/

namespace DuckLake.DuckdbCast

open Numeral Cast

/-! ## The digits before the point -/

def withSign (negative : Bool) (m : Nat) : Int := (if negative then -1 else 1) * m

theorem withSign_eq (negative : Bool) (m : Nat) : withSign negative m = if negative then -(m : Int) else m := by
  unfold withSign
  cases negative <;> simp

/-- A type with room for a digit on the side of a sign. -/
structure IntType.Room (t : IntType) (negative : Bool) : Prop where
  zero : t.min ≤ 0
  digit : 9 ≤ t.max
  negativeDigit : negative = true → t.min ≤ -9

/-- The largest number of a type, on the side of a sign. -/
def IntType.limit (t : IntType) (negative : Bool) : Nat := if negative then (-t.min).toNat else t.max.toNat

theorem fits_withSign {t : IntType} {negative : Bool} (h : t.Room negative) (m : Nat) :
    t.fits (withSign negative m) = true ↔ m ≤ t.limit negative := by
  obtain ⟨hzero, hdigit, hnegative⟩ := h
  rw [IntType.fits, Bool.and_eq_true, decide_eq_true_eq, decide_eq_true_eq, withSign_eq]
  unfold IntType.limit
  cases negative with
  | false =>
    simp only [Bool.false_eq_true, if_false]
    omega
  | true =>
    have := hnegative rfl
    simp only [if_true]
    omega

theorem digitValue_le {c : Char} (h : c.isDigit = true) : digitValue c ≤ 9 := by
  have hle := (Char.isDigit_iff_toNat.mp h).2
  have h0 : '0'.toNat = 48 := rfl
  have h9 : '9'.toNat = 57 := rfl
  unfold digitValue
  omega

namespace Cast

variable {cast : Cast} {negative : Bool}

variable {state : State} {taken : Text} {digits : Text}

theorem handleDigit_eq (hroom : cast.store.Room negative) {m d : Nat}
    (hstate : state.result = withSign negative m) (hd : d ≤ 9) :
    cast.handleDigit negative state d =
      if m * 10 + d ≤ cast.store.limit negative then some { state with result := withSign negative (m * 10 + d) }
      else none := by
  obtain ⟨hzero, hdigit, hnegative⟩ := hroom
  unfold handleDigit IntType.limit
  rw [withSign_eq] at hstate
  rw [withSign_eq, hstate]
  cases negative with
  | false =>
    have hguard : (cast.store.max - d).tdiv 10 < m ↔ ¬ m * 10 + d ≤ cast.store.max.toNat := by
      rw [Int.tdiv_eq_ediv_of_nonneg (by omega)]
      omega
    simp only [Bool.false_eq_true, if_false, hguard, ite_not]
    push_cast
    rfl
  | true =>
    have hmin := hnegative rfl
    have hguard : -(m : Int) < (cast.store.min + d).tdiv 10 ↔ ¬ m * 10 + d ≤ (-cast.store.min).toNat := by
      have htdiv : (cast.store.min + d).tdiv 10 = -((-(cast.store.min + d)) / 10) := by
        rw [← Int.tdiv_eq_ediv_of_nonneg (by omega), Int.neg_tdiv, neg_neg]
      rw [htdiv]
      omega
    simp only [if_true, hguard, ite_not]
    push_cast
    rw [show -(m : Int) * 10 - d = -(m * 10 + d) by ring]

theorem readDigits_eq (hroom : cast.store.Room negative) (hdigits : digits.all Char.isDigit = true)
    {m : Nat} (hstate : state.result = withSign negative m) (hm : m ≤ cast.store.limit negative) :
    cast.readDigits negative digits state =
      if m * 10 ^ digits.length + value digits ≤ cast.store.limit negative then
        some { state with result := withSign negative (m * 10 ^ digits.length + value digits) }
      else none := by
  induction digits generalizing state m with
  | nil =>
    have hnil : m * 10 ^ ([] : Text).length + value [] = m := by simp [value]
    rw [hnil, if_pos hm, ← hstate]
    rfl
  | cons c digits ih =>
    rw [List.all_cons, Bool.and_eq_true] at hdigits
    have hsum : m * 10 ^ (c :: digits).length + value (c :: digits) =
        (m * 10 + digitValue c) * 10 ^ digits.length + value digits := by
      rw [value_cons, List.length_cons, pow_succ, digitValue]
      ring
    rw [readDigits_cons, handleDigit_eq hroom hstate (digitValue_le hdigits.1), hsum]
    by_cases hle : m * 10 + digitValue c ≤ cast.store.limit negative
    · rw [if_pos hle, Option.bind_some, ih hdigits.2 rfl hle]
    · have hgrow : m * 10 + digitValue c ≤ (m * 10 + digitValue c) * 10 ^ digits.length :=
        Nat.le_mul_of_pos_right _ (by positivity)
      rw [if_neg hle, if_neg (by omega)]
      rfl

/-! ## The digits behind the point -/

/-- The digits a state has taken of a fraction. -/
structure Taken (state : State) (digits : Text) : Prop where
  decimal : state.decimal = value digits
  count : state.decimalDigits = digits.length
  digits : digits.all Char.isDigit = true

theorem Taken.snoc (h : Taken state digits) {c : Char} (hc : c.isDigit = true)
    (hcount : digits.length + 1 < 2 ^ 16) : Taken { state with
      decimalDigits := wrapU16 (state.decimalDigits + 1), decimal := state.decimal * 10 + digitValue c }
      (digits ++ [c]) := by
  refine ⟨?_, ?_, ?_⟩
  · rw [value_snoc, h.decimal, digitValue]
    push_cast
    rfl
  · rw [List.length_append, List.length_singleton, h.count]
    dsimp only
    unfold wrapU16
    omega
  · rw [List.all_append, h.digits, List.all_cons, hc]
    rfl

/-- Digits past the precision are dropped, the first one never. -/
theorem readDecimals_eq (hop : cast.op = .decimal) (hmax : 9 ≤ cast.store.max)
    (hdigits : digits.all Char.isDigit = true) (htaken : Taken state taken)
    (hcount : taken.length + digits.length < 2 ^ 16) :
    ∃ state' taken', cast.readDecimals digits state = some state' ∧ Taken state' taken' ∧
      state'.result = state.result ∧ taken'.length < 2 ^ 16 ∧ taken'.head? = (taken ++ digits).head? := by
  induction digits generalizing state taken with
  | nil => exact ⟨state, taken, rfl, htaken, rfl, by simpa using hcount, by rw [List.append_nil]⟩
  | cons c digits ih =>
    rw [List.all_cons, Bool.and_eq_true] at hdigits
    rw [List.length_cons] at hcount
    have hle := digitValue_le hdigits.1
    rw [readDecimals_cons, handleDecimal, if_neg (by rw [hop]; decide)]
    split
    · -- dropped: something has been taken before
      next hfull =>
      have hne : taken ≠ [] := by
        rintro rfl
        have hzero : state.decimal = 0 := htaken.decimal
        rw [hzero, Int.tdiv_eq_ediv_of_nonneg (by omega)] at hfull
        omega
      obtain ⟨state', taken', hread, htaken', hresult, hlength, hhead⟩ := ih hdigits.2 htaken (by omega)
      refine ⟨state', taken', hread, htaken', hresult, hlength, ?_⟩
      rw [hhead, List.head?_append_of_ne_nil _ hne, List.head?_append_of_ne_nil _ hne]
    · obtain ⟨state', taken', hread, htaken', hresult, hlength, hhead⟩ :=
        ih hdigits.2 (htaken.snoc hdigits.1 (by omega))
        (by rw [List.length_append]; simp only [List.length_singleton]; omega)
      refine ⟨state', taken', hread, htaken', hresult, hlength, ?_⟩
      rw [hhead, List.append_assoc, List.singleton_append]

/-- Dividing down keeps the leading digits: of what is taken, those that make ten at most. -/
theorem leadingDigit_eq {fuel : Nat} (htaken : Taken state taken) (hne : taken ≠ [])
    (hlength : taken.length < 2 ^ 16) (hfuel : value taken ≤ fuel) :
    ∃ first, Taken (leadingDigit fuel state) first ∧ first ≠ [] ∧ first <+: taken ∧ value first ≤ 10 := by
  induction fuel generalizing state taken with
  | zero => exact ⟨taken, htaken, hne, List.prefix_rfl, by omega⟩
  | succ fuel ih =>
    rw [leadingDigit]
    split
    · next hlarge =>
      rw [htaken.decimal] at hlarge
      obtain ⟨front, c, rfl⟩ := (List.eq_nil_or_concat' taken).resolve_left hne
      have hall := htaken.digits
      rw [List.all_append, List.all_cons, Bool.and_eq_true, Bool.and_eq_true] at hall
      have hc := digitValue_le hall.2.1
      rw [digitValue] at hc
      rw [value_snoc] at hlarge hfuel
      rw [List.length_append, List.length_singleton] at hlength
      have hfront : front ≠ [] := by
        rintro rfl
        rw [show value [] = 0 from rfl] at hlarge
        omega
      have hdivided : Taken { state with
          decimal := state.decimal.tdiv 10, decimalDigits := wrapU16 (state.decimalDigits - 1) } front := by
        refine ⟨?_, ?_, hall.1⟩
        · dsimp only
          rw [htaken.decimal, value_snoc, Int.tdiv_eq_ediv_of_nonneg (by omega)]
          omega
        · dsimp only
          rw [htaken.count, List.length_append, List.length_singleton]
          unfold wrapU16
          omega
      obtain ⟨first, hfirst, hne', hprefix, hten⟩ := ih hdivided hfront (by omega) (by omega)
      exact ⟨first, hfirst, hne', hprefix.trans (List.prefix_append _ _), hten⟩
    · next hsmall =>
      rw [htaken.decimal] at hsmall
      exact ⟨taken, htaken, hne, List.prefix_rfl, by omega⟩

/-- Whether the first digit rounds away from zero. -/
def roundsUp (digits : Text) : Nat := if (digits.head?.any fun c => 5 ≤ digitValue c) = true then 1 else 0

/-- One digit of five or more is left exactly when the first one is such. -/
theorem rounds_iff (htaken : Taken state taken) (hlength : taken.length < 2 ^ 16) :
    ((leadingDigit state.decimal.toNat state).decimalDigits = 1 ∧
      5 ≤ (leadingDigit state.decimal.toNat state).decimal) ↔ (taken.head?.any fun c => 5 ≤ digitValue c) = true := by
  rcases taken with _ | ⟨c, rest⟩
  · have hzero : state.decimal = 0 := htaken.decimal
    have hcount : state.decimalDigits = 0 := htaken.count
    rw [hzero]
    show (state.decimalDigits = 1 ∧ 5 ≤ state.decimal) ↔ _
    rw [hzero, hcount]
    decide
  · have hfuel : value (c :: rest) ≤ state.decimal.toNat := by
      rw [htaken.decimal]
      omega
    obtain ⟨first, hfirst, hne, hprefix, hten⟩ := leadingDigit_eq htaken (List.cons_ne_nil c rest) hlength hfuel
    obtain ⟨d, tail, rfl⟩ := List.exists_cons_of_ne_nil hne
    obtain ⟨rfl, -⟩ := List.cons_prefix_cons.mp hprefix
    have hvalue := value_cons d tail
    rw [hfirst.decimal, hfirst.count, List.head?_cons, Option.any_some, decide_eq_true_eq, digitValue]
    constructor
    · rintro ⟨hone, hfive⟩
      have hnil : tail = [] := List.length_eq_zero_iff.mp (Nat.succ.inj hone)
      rw [hnil, value_cons] at hfive
      simp only [List.length_nil, pow_zero, mul_one, show value [] = 0 from rfl, add_zero] at hfive
      omega
    · intro hfive
      have hnil : tail = [] := by
        rcases tail with _ | ⟨e, tail⟩
        · rfl
        · have hpow : 10 ≤ 10 ^ (e :: tail).length := Nat.le_self_pow (by simp) 10
          have hmul := Nat.mul_le_mul hfive hpow
          omega
      rw [hnil, value_cons]
      simp only [List.length_nil, pow_zero, mul_one, show value [] = 0 from rfl, add_zero]
      exact ⟨rfl, by omega⟩

theorem leadingDigit_result (fuel : Nat) (state : State) : (leadingDigit fuel state).result = state.result := by
  induction fuel generalizing state with
  | zero => rfl
  | succ fuel ih =>
    rw [leadingDigit]
    split
    · rw [ih]
    · rfl

theorem withSign_succ (negative : Bool) (m : Nat) :
    (if negative then withSign negative m - 1 else withSign negative m + 1) = withSign negative (m + 1) := by
  rw [withSign_eq, withSign_eq]
  cases negative with
  | false => simp
  | true =>
    simp only [if_true]
    push_cast
    ring

theorem done_true (state : State) : cast.done negative true state = cast.finalize negative state := by
  unfold done
  cases cast.finalize negative state <;> rfl

theorem done_decimal (hop : cast.op = .decimal) (hroom : cast.result.Room negative) {m : Nat}
    (hstate : state.result = withSign negative m) (htaken : Taken state taken)
    (hlength : taken.length < 2 ^ 16) : (cast.done negative true state).map State.result =
      if m + roundsUp taken ≤ cast.result.limit negative then some (withSign negative (m + roundsUp taken))
      else none := by
  have hfits := fits_withSign hroom
  rw [done_true, finalize, if_neg (by rw [hop]; decide), hstate]
  by_cases hm : m ≤ cast.result.limit negative
  · rw [(hfits m).mpr hm, Bool.not_true, if_neg Bool.false_ne_true]
    dsimp only
    rw [leadingDigit_result, hstate, withSign_succ]
    have hrounds := rounds_iff htaken hlength
    by_cases hup : (taken.head?.any fun c => 5 ≤ digitValue c) = true
    · have hone : roundsUp taken = 1 := if_pos hup
      rw [if_pos (hrounds.mpr hup), hone]
      by_cases hnext : m + 1 ≤ cast.result.limit negative
      · rw [if_pos ((hfits _).mpr hnext), if_pos hnext]
        rfl
      · rw [if_neg (mt (hfits _).mp hnext), if_neg hnext]
        rfl
    · have hzero : roundsUp taken = 0 := if_neg hup
      rw [if_neg (mt hrounds.mp hup), hzero, Nat.add_zero, if_pos hm, Option.map_some, leadingDigit_result, hstate]
  · have hnot : cast.result.fits (withSign negative m) = false := Bool.eq_false_iff.mpr (mt (hfits m).mp hm)
    rw [hnot, Bool.not_false, if_pos rfl, if_neg (by omega)]
    rfl

end Cast

/-! ## The casts -/

namespace Number

variable {cast : Cast} {readExponent : Text → Option Int}

theorem all_isDigit_ungrouped {t : Text} (h : t = [] ∨ Grouped t) : (ungrouped t).all Char.isDigit = true := by
  rcases h with rfl | h
  · rfl
  · exact h.all_isDigit

theorem all_isDigit_decimals (n : Number) : n.decimals.all Char.isDigit = true := by
  unfold decimals
  cases hfraction : n.fraction with
  | none => rfl
  | some f => exact all_isDigit_ungrouped (n.fractionDigits f hfraction)

theorem length_decimals (n : Number) : n.decimals.length ≤ (Utf8.encode n.text).length := by
  have hfraction : (n.fraction.getD []).length ≤ n.text.length := by
    unfold text body point
    cases n.fraction with
    | none => exact Nat.zero_le _
    | some f =>
      simp only [Option.getD_some, Option.elim_some, List.length_append, List.length_cons]
      omega
  exact (List.length_filter_le _ _).trans (hfraction.trans (Utf8.length_le_encode n.text))

/-- The magnitude of a number rounded half away from zero. -/
def rounded (n : Number) : Nat := Numeral.value (ungrouped n.whole) + roundsUp n.decimals

theorem roundAway_value (n : Number) : roundAway n.value = withSign n.negative n.rounded := by
  have hhalf : (if 1 / 2 ≤ Numeral.fraction n.decimals then 1 else 0) = roundsUp n.decimals := by
    have hdigits := n.all_isDigit_decimals
    unfold roundsUp
    cases hdecimals : n.decimals with
    | nil =>
      rw [fraction_nil]
      norm_num
    | cons c rest =>
      rw [hdecimals, List.all_cons, Bool.and_eq_true] at hdigits
      rw [List.head?_cons, Option.any_some]
      exact if_congr ((half_le_fraction hdigits.2).trans decide_eq_true_iff.symm) rfl rfl
  unfold value
  rw [roundAway_decimal _ _ n.all_isDigit_decimals, hhalf]
  rfl

theorem readDigits_whole (n : Number) (hroom : cast.store.Room n.negative) :
    cast.readDigits n.negative (ungrouped n.whole) {} =
      if Numeral.value (ungrouped n.whole) ≤ cast.store.limit n.negative then
        some { result := withSign n.negative (Numeral.value (ungrouped n.whole)) }
      else none := by
  have hzero : ({} : State).result = withSign n.negative 0 := by simp [withSign]
  rw [readDigits_eq hroom (all_isDigit_ungrouped n.wholeDigits) hzero (Nat.zero_le _), Nat.zero_mul, Nat.zero_add]

theorem tryCastWith_simple (n : Number) (hop : cast.op = .simple) (hroom : cast.store.Room n.negative)
    (hsign : n.negative = true → cast.store.signed = true) : cast.tryCastWith readExponent n.text =
      if n.decimals = [] ∧ n.rounded ≤ cast.store.limit n.negative then some (withSign n.negative n.rounded)
      else none := by
  have hdone : ∀ state, cast.done n.negative true state = some state := by
    intro state
    rw [done_true, finalize, if_pos hop]
  rw [n.tryCastWith_text hsign, n.readDigits_whole hroom]
  unfold rounded
  cases n.decimals with
  | nil =>
    have hround : roundsUp [] = 0 := rfl
    simp only [true_and, hround, Nat.add_zero]
    split
    · exact congrArg (Option.map State.result) (hdone _)
    · rfl
  | cons c rest =>
    have hrefused : ∀ state, cast.readDecimals (c :: rest) state = none := by
      intro state
      rw [readDecimals_cons, handleDecimal, if_pos hop]
      rfl
    have hfraction : ∀ p : Prop, ¬ (c :: rest = [] ∧ p) := fun p h => List.cons_ne_nil c rest h.1
    rw [if_neg (hfraction _)]
    split
    · rw [Option.bind_some, hrefused]
      rfl
    · rfl

theorem tryCastWith_decimal (n : Number) (hop : cast.op = .decimal) (hstore : cast.store.Room n.negative)
    (hresult : cast.result.Room n.negative) (hle : cast.result.limit n.negative ≤ cast.store.limit n.negative)
    (hsign : n.negative = true → cast.store.signed = true) (hlength : (Utf8.encode n.text).length < 65536) :
    cast.tryCastWith readExponent n.text =
      if n.rounded ≤ cast.result.limit n.negative then some (withSign n.negative n.rounded) else none := by
  have hcount := n.length_decimals
  rw [n.tryCastWith_text hsign, n.readDigits_whole hstore]
  unfold rounded
  by_cases hm : Numeral.value (ungrouped n.whole) ≤ cast.store.limit n.negative
  · rw [if_pos hm]
    have hnone : Taken { result := withSign n.negative (Numeral.value (ungrouped n.whole)) } [] := ⟨rfl, rfl, rfl⟩
    obtain ⟨state, taken, hread, htaken, hstate, htakenLength, hhead⟩ :=
      readDecimals_eq hop hstore.digit n.all_isDigit_decimals hnone (by simp only [List.length_nil]; omega)
    have hround : roundsUp taken = roundsUp n.decimals := by
      unfold roundsUp
      rw [hhead, List.nil_append]
    rw [Option.bind_some, hread, Option.bind_some, done_decimal hop hresult hstate htaken htakenLength, hround]
  · rw [if_neg hm, if_neg (by omega)]
    rfl

end Number

theorem room_uint64 : uint64.Room false := ⟨by decide, by decide, nofun⟩

theorem room_int8 (negative : Bool) : int8.Room negative := ⟨by decide, by decide, fun _ => by decide⟩

theorem room_int64 (negative : Bool) : int64.Room negative := ⟨by decide, by decide, fun _ => by decide⟩

theorem fits_roundAway {t : IntType} {n : Number} (hroom : t.Room n.negative) :
    t.min ≤ roundAway n.value ∧ roundAway n.value ≤ t.max ↔ n.rounded ≤ t.limit n.negative := by
  rw [← fits_withSign hroom, ← n.roundAway_value, IntType.fits, Bool.and_eq_true, decide_eq_true_eq, decide_eq_true_eq]

theorem or_casts (simple decimal : Cast) {n : Number} (hsimple : simple.op = .simple) (hdecimal : decimal.op = .decimal)
    (hroom : simple.store.Room n.negative) (hstore : decimal.store.Room n.negative)
    (hresult : decimal.result = simple.store)
    (hle : simple.store.limit n.negative ≤ decimal.store.limit n.negative)
    (hsigned : n.negative = true → simple.store.signed = true ∧ decimal.store.signed = true)
    (hlength : (Utf8.encode n.text).length < 65536) :
    (simple.tryCast n.text false).or (decimal.tryCast n.text true) =
      if simple.store.min ≤ roundAway n.value ∧ roundAway n.value ≤ simple.store.max then some (roundAway n.value)
      else none := by
  unfold tryCast
  rw [n.tryCastWith_simple hsimple hroom fun h => (hsigned h).1,
    n.tryCastWith_decimal hdecimal hstore (hresult ▸ hroom) (hresult ▸ hle) (fun h => (hsigned h).2) hlength, hresult,
    n.roundAway_value]
  have hfits := fits_roundAway hroom
  rw [n.roundAway_value] at hfits
  by_cases hm : n.rounded ≤ simple.store.limit n.negative
  · rw [if_pos hm, if_pos (hfits.mpr hm)]
    split <;> rfl
  · rw [if_neg hm, if_neg (mt hfits.mp hm), if_neg fun h => hm h.2]
    rfl

/-- Option values are cast to the number they spell, rounded half away from zero, where it is in the type's range. -/
theorem option_casts_round :
    (∀ n : Number, n.sign ≠ .minus → (Utf8.encode n.text).length < 65536 → varcharToUbigint n.text =
      if 0 ≤ roundAway n.value ∧ roundAway n.value ≤ 2 ^ 64 - 1 then some (roundAway n.value).toNat else none) ∧
    ∀ n : Number, (Utf8.encode n.text).length < 65536 → varcharToTinyint n.text =
      if -128 ≤ roundAway n.value ∧ roundAway n.value ≤ 127 then some (roundAway n.value) else none := by
  refine ⟨fun n hsign hlength => ?_, fun n hlength => ?_⟩
  · have hnegative : n.negative = false := beq_eq_false_iff_ne.mpr hsign
    have hroom : uint64.Room n.negative := hnegative ▸ room_uint64
    have hunsigned : n.negative = true → uint64.signed = true ∧ uint64.signed = true := by
      rw [hnegative]
      nofun
    unfold varcharToUbigint
    rw [or_casts ⟨.simple, uint64, uint64⟩ ⟨.decimal, uint64, uint64⟩ rfl rfl hroom hroom rfl le_rfl hunsigned hlength]
    by_cases hrange : 0 ≤ roundAway n.value ∧ roundAway n.value ≤ 2 ^ 64 - 1
    · rw [if_pos hrange, if_pos (show uint64.min ≤ _ ∧ _ ≤ uint64.max from hrange), Option.map_some,
        Int.emod_eq_of_lt hrange.1 (by omega)]
    · rw [if_neg hrange, if_neg (show ¬ (uint64.min ≤ _ ∧ _ ≤ uint64.max) from hrange)]
      rfl
  · have hle : int8.limit n.negative ≤ int64.limit n.negative := by
      cases n.negative <;> decide
    unfold varcharToTinyint
    rw [or_casts ⟨.simple, int8, int8⟩ ⟨.decimal, int64, int8⟩ rfl rfl (room_int8 _) (room_int64 _) rfl hle
      (fun _ => ⟨rfl, rfl⟩) hlength]
    by_cases hrange : -128 ≤ roundAway n.value ∧ roundAway n.value ≤ 127
    · rw [if_pos hrange, if_pos (show int8.min ≤ _ ∧ _ ≤ int8.max from hrange), Option.map_some,
        Int.bmod_eq_of_le (by omega) (by omega)]
    · rw [if_neg hrange, if_neg (show ¬ (int8.min ≤ _ ∧ _ ≤ int8.max) from hrange)]
      rfl

/-- A number in groups, with a half. -/
def thousandAndHalf : Number where
  leading := [' ']
  sign := .plus
  whole := "1_000".toList
  fraction := some "5".toList
  trailing := ['\n']
  leadingSpaces := rfl
  trailingSpaces := rfl
  wholeDigits := .inr (.separated rfl (.digit rfl (.digit rfl (.last rfl))))
  fractionDigits f hf := .inr (by cases hf; exact .last rfl)
  someDigit := .inl (by decide)

/-- The half just past the range of a `TINYINT`. -/
def belowTinyint : Number where
  leading := []
  sign := .minus
  whole := "128".toList
  fraction := some "5".toList
  trailing := []
  leadingSpaces := rfl
  trailingSpaces := rfl
  wholeDigits := .inr (.digit rfl (.digit rfl (.last rfl)))
  fractionDigits f hf := .inr (by cases hf; exact .last rfl)
  someDigit := .inl (by decide)

theorem halves_round : varcharToUbigint " +1_000.5\n".toList = some 1001 ∧ varcharToTinyint "-128.5".toList = none := by
  obtain ⟨hubigint, htinyint⟩ := option_casts_round
  constructor
  · have hcast := hubigint thousandAndHalf (by decide) (by decide +kernel)
    have hround : roundAway thousandAndHalf.value = 1001 := by decide +kernel
    rw [hround] at hcast
    exact hcast
  · have hcast := htinyint belowTinyint (by decide +kernel)
    have hround : roundAway belowTinyint.value = -129 := by decide +kernel
    rw [hround] at hcast
    exact hcast

end DuckLake.DuckdbCast
