import DuckLake.Lib.Lists
import DuckLake.Stats.Calendar

/- The texts of `encode_scalar` tell the values of one type apart (`stats_encode.rs`),
   floats aside: a value is read back from its text part by part. Years before 1 and past
   9999, the infinities and trimmed fractions are included. -/

namespace DuckLake

/-! ## Digits -/

theorem value_padded (w n : Nat) : Numeral.value (padded w n) = n := by
  unfold padded digits
  rw [Numeral.value_append, Numeral.value_zeros, Nat.zero_mul, Nat.zero_add, Numeral.value_toDigits]

theorem padded_injective {w n m : Nat} (h : padded w n = padded w m) : n = m := by
  rw [← value_padded w n, h, value_padded]

variable {a b : Int} {unit : TimeUnit} {t : Text} {w n : Nat} {c : Char}

theorem isDigit_of_mem_padded (h : c ∈ padded w n) : c.isDigit = true := by
  unfold padded at h
  rcases List.mem_append.mp h with h | h
  · rw [List.eq_of_mem_replicate h]
    rfl
  · exact List.all_eq_true.mp (Numeral.all_isDigit_toDigits n) c h

theorem notMem_padded (hc : c.isDigit = false) : c ∉ padded w n := fun h => by
  rw [isDigit_of_mem_padded h] at hc
  cases hc

theorem length_padded (hw : 0 < w) (h : n < 10 ^ w) : (padded w n).length = w := by
  have hle : (digits n).length ≤ w := (Nat.length_toDigits_le_iff (by decide) hw).mpr h
  unfold padded
  rw [List.length_append, List.length_replicate]
  omega

theorem exists_cons_padded (w n : Nat) : ∃ c t, padded w n = c :: t ∧ c.isDigit = true := by
  cases h : padded w n with
  | nil =>
    have hlen := congrArg List.length h
    have hpos : 0 < (digits n).length := Nat.length_toDigits_pos
    simp only [padded, List.length_append, List.length_nil] at hlen
    omega
  | cons c t => exact ⟨c, t, rfl, isDigit_of_mem_padded (h ▸ List.mem_cons_self)⟩

theorem intText_injective : Function.Injective intText := by
  intro a b h
  have ha := parseInt_intText a
  rw [h, parseInt_intText] at ha
  exact (Option.some.inj ha).symm

/-! ## Decimals -/

theorem value_encodeDecimal128 {v scale : Int} (hscale : 0 < scale) : ∃ body,
    encodeDecimal128 v scale = (if v < 0 then '-' :: body else body) ∧
      Numeral.value (body.filter (· ≠ '.')) = v.natAbs ∧ '-' ∉ body := by
  have hdigit : ∀ c ∈ digits v.natAbs, c.isDigit = true := List.all_eq_true.mp (Numeral.all_isDigit_toDigits _)
  have hpoint : ∀ c ∈ digits v.natAbs, c ≠ '.' := by
    rintro c hc rfl
    exact absurd (hdigit _ hc) (by decide)
  have hminus : ∀ c ∈ digits v.natAbs, c ≠ '-' := by
    rintro c hc rfl
    exact absurd (hdigit _ hc) (by decide)
  unfold encodeDecimal128
  rw [if_neg (by omega)]
  dsimp only
  have hall : (digits v.natAbs).filter (· ≠ '.') = digits v.natAbs :=
    List.filter_eq_self.mpr fun c hc => decide_eq_true (hpoint c hc)
  refine ⟨_, rfl, ?_, ?_⟩
  · split
    · rw [List.filter_append, List.filter_cons_of_neg (by decide), ← List.filter_append, List.take_append_drop, hall]
      exact Numeral.value_toDigits _
    · have hzeros : ∀ k, (List.replicate k '0').filter (· ≠ '.') = List.replicate k '0' := fun k =>
        List.filter_eq_self.mpr fun c hc => by rw [List.eq_of_mem_replicate hc]; rfl
      have hlead : "0.".toList.filter (· ≠ '.') = ['0'] := by decide
      rw [List.filter_append, List.filter_append, hlead, hzeros, hall, Numeral.value_append, Numeral.value_append,
        Numeral.value_zeros, digits, Numeral.value_toDigits]
      simp [Numeral.value, Nat.ofDigitChars]
  · split
    · intro h
      rcases List.mem_append.mp h with h | h
      · exact hminus _ (List.mem_of_mem_take h) rfl
      · rcases List.mem_cons.mp h with h | h
        · exact absurd h (by decide)
        · exact hminus _ (List.mem_of_mem_drop h) rfl
    · intro h
      rcases List.mem_append.mp h with h | h
      · exact absurd h (by decide)
      · rcases List.mem_append.mp h with h | h
        · exact absurd (List.eq_of_mem_replicate h) (by decide)
        · exact hminus _ h rfl

theorem encodeDecimal128_injective {a b scale : Int} (h : encodeDecimal128 a scale = encodeDecimal128 b scale) :
    a = b := by
  by_cases hscale : scale ≤ 0
  · unfold encodeDecimal128 at h
    rw [if_pos hscale, if_pos hscale] at h
    exact intText_injective h
  · obtain ⟨s, hs, hsv, hs'⟩ := value_encodeDecimal128 (v := a) (Int.not_le.mp hscale)
    obtain ⟨t, ht, htv, ht'⟩ := value_encodeDecimal128 (v := b) (Int.not_le.mp hscale)
    rw [hs, ht] at h
    split at h
    · split at h
      · have heq : s = t := by simpa using h
        rw [heq, htv] at hsv
        omega
      · exact absurd (h ▸ List.mem_cons_self) ht'
    · split at h
      · exact absurd (h ▸ List.mem_cons_self) hs'
      · rw [h, htv] at hsv
        omega

/-! ## Dates -/

/-- A date without its era. -/
def ymd (year month day : Int) : Text :=
  padded 4 year.toNat ++ '-' :: padded 2 month.toNat ++ '-' :: padded 2 day.toNat

theorem duckdbDateText_eq (days : Int) : duckdbDateText days =
    if (civilFromDays days).1 ≤ 0 then
      ymd (1 - (civilFromDays days).1) (civilFromDays days).2.1 (civilFromDays days).2.2 ++ " (BC)".toList
    else ymd (civilFromDays days).1 (civilFromDays days).2.1 (civilFromDays days).2.2 := rfl

theorem ymd_injective {y m d y' m' d' : Int} (h : ymd y m d = ymd y' m' d') :
    y.toNat = y'.toNat ∧ m.toNat = m'.toNat ∧ d.toNat = d'.toNat := by
  unfold ymd at h
  rw [List.append_assoc, List.append_assoc, List.cons_append, List.cons_append] at h
  obtain ⟨hy, h⟩ := Lists.eq_of_append_cons (notMem_padded rfl) (notMem_padded rfl) h
  obtain ⟨hm, hd⟩ := Lists.eq_of_append_cons (notMem_padded rfl) (notMem_padded rfl) h
  exact ⟨padded_injective hy, padded_injective hm, padded_injective hd⟩

theorem notMem_ymd (hdigit : c.isDigit = false) (hminus : c ≠ '-') (y m d : Int) : c ∉ ymd y m d := by
  unfold ymd
  simp only [List.mem_append, List.mem_cons, not_or]
  exact ⟨⟨notMem_padded hdigit, hminus, notMem_padded hdigit⟩, hminus, notMem_padded hdigit⟩

/-- A date is read back from its text and what follows a blank, if that starts with a digit. -/
theorem duckdbDateText_append_injective {c c' : Char} {x y : Text} (hc : c.isDigit = true)
    (hc' : c'.isDigit = true) (h : duckdbDateText a ++ ' ' :: c :: x = duckdbDateText b ++ ' ' :: c' :: y) :
    a = b ∧ c :: x = c' :: y := by
  have hblank : ∀ y m d, ' ' ∉ ymd y m d := notMem_ymd rfl (by decide)
  have hparen : ∀ {c : Char}, c.isDigit = true → '(' ≠ c := by
    rintro c hc rfl
    cases hc
  obtain ⟨⟨hm₀, -⟩, hd₀, -⟩ := civilFromDays_range a
  obtain ⟨⟨hm₁, -⟩, hd₁, -⟩ := civilFromDays_range b
  have hdate : (civilFromDays a).1 = (civilFromDays b).1 → (civilFromDays a).2.1.toNat = (civilFromDays b).2.1.toNat →
      (civilFromDays a).2.2.toNat = (civilFromDays b).2.2.toNat → a = b := by
    intro hy hm hd
    exact civilFromDays_injective (Prod.ext hy (Prod.ext (by omega) (by omega)))
  rw [duckdbDateText_eq, duckdbDateText_eq] at h
  split at h
  · split at h
    · rw [List.append_assoc, List.append_assoc] at h
      obtain ⟨hymd, hrest⟩ := Lists.eq_of_append_cons (hblank _ _ _) (hblank _ _ _) h
      obtain ⟨hy, hm, hd⟩ := ymd_injective hymd
      exact ⟨hdate (by omega) hm hd, by simpa using hrest⟩
    · rw [List.append_assoc] at h
      obtain ⟨-, hrest⟩ := Lists.eq_of_append_cons (hblank _ _ _) (hblank _ _ _) h
      exact absurd (List.cons.inj hrest).1 (hparen hc')
  · split at h
    · rw [List.append_assoc] at h
      obtain ⟨-, hrest⟩ := Lists.eq_of_append_cons (hblank _ _ _) (hblank _ _ _) h
      exact absurd (List.cons.inj hrest).1.symm (hparen hc)
    · obtain ⟨hymd, hrest⟩ := Lists.eq_of_append_cons (hblank _ _ _) (hblank _ _ _) h
      obtain ⟨hy, hm, hd⟩ := ymd_injective hymd
      exact ⟨hdate (by omega) hm hd, hrest⟩

theorem duckdbDateText_injective : Function.Injective duckdbDateText := by
  intro a b h
  have happend : duckdbDateText a ++ ' ' :: '0' :: [] = duckdbDateText b ++ ' ' :: '0' :: [] := by rw [h]
  exact (duckdbDateText_append_injective rfl rfl happend).1

theorem exists_cons_duckdbDateText (days : Int) : ∃ c t, duckdbDateText days = c :: t ∧ c.isDigit = true := by
  have hymd : ∀ y m d, ∃ c t, ymd y m d = c :: t ∧ c.isDigit = true := by
    intro y m d
    obtain ⟨c, t, h, hc⟩ := exists_cons_padded 4 y.toNat
    exact ⟨c, _, by rw [ymd, h, List.cons_append, List.cons_append], hc⟩
  rw [duckdbDateText_eq]
  split
  · obtain ⟨c, t, h, hc⟩ := hymd (1 - (civilFromDays days).1) (civilFromDays days).2.1 (civilFromDays days).2.2
    exact ⟨c, _, by rw [h, List.cons_append], hc⟩
  · exact hymd _ _ _

/-- A finite value is spelled from its own text, which starts with a digit; the infinities
    have a word each. -/
structure Spelled (infinity : Int) (finite : Int → Text) (v : Int) (t : Text) : Prop where
  cases : (v = infinity ∧ t = "infinity".toList) ∨ (v = -infinity ∧ t = "-infinity".toList) ∨
    (t = finite v ∧ ∃ c rest, t = c :: rest ∧ c.isDigit = true)

theorem Spelled.injective {infinity : Int} {finite : Int → Text}
    (hinj : finite a = finite b → a = b) (ha : Spelled infinity finite a t) (hb : Spelled infinity finite b t) :
    a = b := by
  obtain ⟨rfl, rfl⟩ | ⟨rfl, rfl⟩ | ⟨hfa, c, rest, hcons, hdigit⟩ := ha.cases
  · obtain ⟨rfl, -⟩ | ⟨-, hword⟩ | ⟨-, c, rest, hcons, hdigit⟩ := hb.cases
    · rfl
    · exact absurd hword (by decide)
    · rw [← (List.cons.inj hcons).1] at hdigit
      exact absurd hdigit (by decide)
  · obtain ⟨-, hword⟩ | ⟨rfl, -⟩ | ⟨-, c, rest, hcons, hdigit⟩ := hb.cases
    · exact absurd hword (by decide)
    · rfl
    · rw [← (List.cons.inj hcons).1] at hdigit
      exact absurd hdigit (by decide)
  · obtain ⟨-, rfl⟩ | ⟨-, rfl⟩ | ⟨hfb, -⟩ := hb.cases
    · rw [← (List.cons.inj hcons).1] at hdigit
      exact absurd hdigit (by decide)
    · rw [← (List.cons.inj hcons).1] at hdigit
      exact absurd hdigit (by decide)
    · exact hinj (hfa.symm.trans hfb)

theorem spelled_encodeDate32 {v : Int} (h : encodeDate32 v = some t) :
    Spelled dateInfinity duckdbDateText v t := by
  unfold encodeDate32 at h
  split at h
  · next hinf => exact ⟨.inl ⟨hinf, (Option.some.inj h).symm⟩⟩
  split at h
  · next hinf => exact ⟨.inr (.inl ⟨hinf, (Option.some.inj h).symm⟩)⟩
  split at h
  · cases h
  · cases h
    exact ⟨.inr (.inr ⟨rfl, exists_cons_duckdbDateText v⟩)⟩

/-! ## Timestamps -/

theorem exists_trimZeros (t : Text) : ∃ k, t = trimZeros t ++ List.replicate k '0' := by
  have hzeros : t.reverse.takeWhile (· == '0') = List.replicate (t.reverse.takeWhile (· == '0')).length '0' :=
    List.eq_replicate_iff.mpr ⟨rfl, fun c hc => beq_iff_eq.mp (List.all_eq_true.mp List.all_takeWhile c hc)⟩
  refine ⟨(t.reverse.takeWhile (· == '0')).length, ?_⟩
  have hsplit := congrArg List.reverse (List.takeWhile_append_dropWhile (p := (· == '0')) (l := t.reverse))
  rw [List.reverse_append, List.reverse_reverse, hzeros, List.reverse_replicate] at hsplit
  exact hsplit.symm

theorem eq_of_trimZeros_eq {s t : Text} (hlen : s.length = t.length) (h : trimZeros s = trimZeros t) : s = t := by
  obtain ⟨k, hk⟩ := exists_trimZeros s
  obtain ⟨l, hl⟩ := exists_trimZeros t
  rw [h] at hk
  have hkl : k = l := by
    have hs := congrArg List.length hk
    have ht := congrArg List.length hl
    rw [List.length_append, List.length_replicate] at hs ht
    omega
  rw [hk, hkl, ← hl]

theorem perSecond_eq (unit : TimeUnit) : unit.perSecond = 10 ^ unit.width := by
  cases unit <;> decide

theorem fractionText_injective (ha : 0 ≤ a ∧ a < unit.perSecond)
    (hb : 0 ≤ b ∧ b < unit.perSecond) (h : fractionText unit a = fractionText unit b) : a = b := by
  by_cases hunit : unit = .second
  · subst hunit
    have : TimeUnit.second.perSecond = 1 := rfl
    omega
  · have hwidth : 0 < unit.width := by
      cases unit with
      | second => exact absurd rfl hunit
      | _ => decide
    have hlen : ∀ {n : Int}, 0 ≤ n ∧ n < unit.perSecond → (padded unit.width n.toNat).length = unit.width := by
      intro n hn
      refine length_padded hwidth ?_
      rw [perSecond_eq] at hn
      have hcast : ((10 ^ unit.width : Nat) : Int) = 10 ^ unit.width := by norm_cast
      omega
    have htrim : trimZeros (padded unit.width a.toNat) = trimZeros (padded unit.width b.toNat) := by
      unfold fractionText at h
      rw [if_neg hunit, if_neg hunit] at h
      dsimp only at h
      split at h
      · next hnil =>
        split at h
        · next hnil' => rw [hnil, hnil']
        · cases h
      · split at h
        · cases h
        · exact (List.cons.inj h).2
    have heq := padded_injective (eq_of_trimZeros_eq ((hlen ha).trans (hlen hb).symm) htrim)
    omega

theorem clockText_append_injective {x y : Text} (ha : 0 ≤ a) (hb : 0 ≤ b)
    (h : clockText a ++ x = clockText b ++ y) : a = b ∧ x = y := by
  unfold clockText at h
  have hlen : ∀ n : Int, (padded 2 (n % 60).toNat).length = 2 := fun n => length_padded (by decide) (by omega)
  simp only [List.append_assoc, List.cons_append] at h
  obtain ⟨hh, h⟩ := Lists.eq_of_append_cons (notMem_padded rfl) (notMem_padded rfl) h
  obtain ⟨hm, h⟩ := Lists.eq_of_append_cons (notMem_padded rfl) (notMem_padded rfl) h
  obtain ⟨hs, hrest⟩ := List.append_inj h ((hlen a).trans (hlen b).symm)
  have hh := padded_injective hh
  have hm := padded_injective hm
  have hs := padded_injective hs
  exact ⟨by omega, hrest⟩

/-- A finite timestamp. -/
def timestampText (unit : TimeUnit) (timezone : Bool) (v : Int) : Text :=
  duckdbDateText (v / unit.perSecond / 86400) ++ ' ' :: clockText (v / unit.perSecond % 86400) ++
    fractionText unit (v % unit.perSecond) ++ (if timezone then "+00".toList else [])

theorem exists_cons_clockText (secs : Int) : ∃ c t, clockText secs = c :: t ∧ c.isDigit = true := by
  obtain ⟨c, t, h, hc⟩ := exists_cons_padded 2 (secs / 3600).toNat
  exact ⟨c, _, by rw [clockText, h, List.cons_append, List.cons_append], hc⟩

theorem timestampText_injective (unit : TimeUnit) (timezone : Bool) :
    Function.Injective (timestampText unit timezone) := by
  intro a b h
  have hunit : 0 < unit.perSecond := by cases unit <;> decide
  obtain ⟨ca, ta, hca, hda⟩ := exists_cons_clockText (a / unit.perSecond % 86400)
  obtain ⟨cb, tb, hcb, hdb⟩ := exists_cons_clockText (b / unit.perSecond % 86400)
  have hbody := List.append_cancel_right h
  rw [List.append_assoc, List.append_assoc, hca, hcb, List.cons_append, List.cons_append, List.cons_append,
    List.cons_append] at hbody
  obtain ⟨hdays, hclock⟩ := duckdbDateText_append_injective hda hdb hbody
  rw [← List.cons_append, ← List.cons_append, ← hca, ← hcb] at hclock
  have hrange : ∀ n : Int, 0 ≤ n % 86400 := fun n => by omega
  obtain ⟨hsecs, hfraction⟩ := clockText_append_injective (hrange _) (hrange _) hclock
  have hsub := fractionText_injective ⟨Int.emod_nonneg a (Int.ne_of_gt hunit), Int.emod_lt_of_pos a hunit⟩
    ⟨Int.emod_nonneg b (Int.ne_of_gt hunit), Int.emod_lt_of_pos b hunit⟩ hfraction
  have hquot : a / unit.perSecond = b / unit.perSecond := by omega
  rw [← Int.mul_ediv_add_emod a unit.perSecond, ← Int.mul_ediv_add_emod b unit.perSecond, hquot, hsub]

theorem encodeTime_injective (ha : encodeTime a unit = some t) (hb : encodeTime b unit = some t) : a = b := by
  have hunit : 0 < unit.perSecond := by cases unit <;> decide
  unfold encodeTime at ha hb
  split at ha
  · cases ha
  split at hb
  · cases hb
  next hra hrb =>
  rw [not_or] at hra hrb
  have hnonneg : ∀ {v : Int}, ¬ v < 0 → 0 ≤ v / unit.perSecond := fun h => Int.ediv_nonneg (by omega) (by omega)
  obtain ⟨hquot, hfraction⟩ := clockText_append_injective (hnonneg hra.1) (hnonneg hrb.1)
    (Option.some.inj (ha.trans hb.symm))
  have hsub := fractionText_injective ⟨Int.emod_nonneg a (Int.ne_of_gt hunit), Int.emod_lt_of_pos a hunit⟩
    ⟨Int.emod_nonneg b (Int.ne_of_gt hunit), Int.emod_lt_of_pos b hunit⟩ hfraction
  rw [← Int.mul_ediv_add_emod a unit.perSecond, ← Int.mul_ediv_add_emod b unit.perSecond, hquot, hsub]

theorem spelled_encodeTimestamp {timezone : Bool} {v : Int}
    (h : encodeTimestamp v unit timezone = some t) : Spelled timestampInfinity (timestampText unit timezone) v t := by
  unfold encodeTimestamp at h
  split at h
  · next hinf => exact ⟨.inl ⟨hinf, (Option.some.inj h).symm⟩⟩
  split at h
  · next hinf => exact ⟨.inr (.inl ⟨hinf, (Option.some.inj h).symm⟩)⟩
  split at h
  · cases h
  split at h
  · obtain ⟨c, rest, hcons, hdigit⟩ := exists_cons_duckdbDateText (v / unit.perSecond / 86400)
    have ht : timestampText unit timezone v = t := Option.some.inj h
    refine ⟨.inr (.inr ⟨ht.symm, c, ?_⟩)⟩
    rw [← ht, timestampText, hcons]
    exact ⟨_, rfl, hdigit⟩
  · cases h

/-! ## Values of one type -/

variable {fmt : FloatText} {v w : ScalarValue} {t : Text}

/-- Two values of one type with one text are one value. -/
theorem encodeScalar_injective (htype : v.dataType = w.dataType) (hfloat : v.dataType.isFloat = false)
    (hv : encodeScalar fmt v = some t) (hw : encodeScalar fmt w = some t) : v = w := by
  cases v <;> cases w <;>
    simp only [ScalarValue.dataType, reduceCtorEq, DataType.integer.injEq, DataType.decimal128.injEq,
      DataType.time.injEq, DataType.timestamp.injEq, DataType.string.injEq, DataType.binary.injEq,
      DataType.other.injEq] at htype
  case boolean.boolean a b =>
    have htext : encodeBool a = encodeBool b := Option.some.inj (hv.trans hw.symm)
    revert htext
    cases a <;> cases b <;> decide
  case integer.integer u a u' b =>
    have htext : intText a = intText b := Option.some.inj (hv.trans hw.symm)
    rw [htype, intText_injective htext]
  case decimal128.decimal128 a p s b p' s' =>
    obtain ⟨rfl, rfl⟩ := htype
    rw [encodeDecimal128_injective (Option.some.inj (hv.trans hw.symm))]
  case date32.date32 a b =>
    rw [Spelled.injective (fun h => duckdbDateText_injective h) (spelled_encodeDate32 hv) (spelled_encodeDate32 hw)]
  case timestamp.timestamp u z a u' z' b =>
    obtain ⟨rfl, rfl⟩ := htype
    rw [Spelled.injective (fun h => timestampText_injective _ _ h) (spelled_encodeTimestamp hv)
      (spelled_encodeTimestamp hw)]
  case string.string k a k' b =>
    have hwhole : ∀ {k : StringType} {s : Text}, encodeScalar fmt (.string k s) = some t → s = t := fun h =>
      Option.some.inj (Option.ite_none_right_eq_some.mp h).2
    rw [htype, hwhole hv, hwhole hw]
  -- no text, or a float
  all_goals first
    | (cases hv; done)
    | cases hw
    | cases hfloat

end DuckLake
