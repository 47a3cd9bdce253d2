import DuckLake.Lib.Lists
import DuckLake.Lib.Utf8
import DuckLake.Stats.Encode
import DuckLake.Types.Text

/- The written shape of date and timestamp texts (`stats_encode.rs`).

   A catalog without a type for a bound compares its text, once both texts pass a check of
   their shape: fields of one width, no zeros at the end of a fraction, a zone of `+00` and
   no other. The checks read bytes. What they accept is stated here by the fields of a text,
   `DateFields` and `ClockFields`.

   Correspondence (Rust ↔ Lean):
     `matches_shape`             ↔ `matchesShape`
     `is_canonical_date`         ↔ `isCanonicalDate`
     `is_canonical_timestamp`    ↔ `isCanonicalTimestamp`
     `is_canonical_timestamptz`  ↔ `isCanonicalTimestamptz`
     `str::split_at_checked`     ↔ `Utf8.splitAtChecked` -/

namespace DuckLake.StatsCompare

open Numeral Lists

/-! ## The checks -/

def isAsciiDigit (b : UInt8) : Bool := 0x30 ≤ b && b ≤ 0x39

/-- `N` stands for a digit. -/
def matchesByte (actual expected : UInt8) : Bool :=
  if expected == 0x4e then isAsciiDigit actual else actual == expected

def matchesShape (t shape : Text) : Bool :=
  (Utf8.encode t).length == (Utf8.encode shape).length &&
    ((Utf8.encode t).zip (Utf8.encode shape)).all fun (actual, expected) => matchesByte actual expected

def isCanonicalDate (t : Text) : Bool := matchesShape t "NNNN-NN-NN".toList

def isCanonicalFraction : Text → Bool
  | '.' :: digits => !digits.isEmpty && (Utf8.encode digits).all isAsciiDigit && digits.getLast? != some '0'
  | t => t.isEmpty

def isCanonicalTimestamp (t : Text) : Bool :=
  match Utf8.splitAtChecked 19 t with
  | none => false
  | some (base, fraction) => matchesShape base "NNNN-NN-NN NN:NN:NN".toList && isCanonicalFraction fraction

def isCanonicalTimestamptz (t : Text) : Bool := (Types.stripSuffixOf "+00".toList t).any isCanonicalTimestamp

/-! ## The shapes accepted -/

/-- A character where the shape has `s`. -/
def Fits (c s : Char) : Prop := if s = 'N' then c.isDigit = true else c = s

theorem isAsciiDigit_iff (c : Char) (h : c.toNat < 0x80) : isAsciiDigit c.toUInt8 = true ↔ c.isDigit = true := by
  have hdigit : c.isDigit = true ↔ 0x30 ≤ c.toNat ∧ c.toNat ≤ 0x39 := by
    simp only [Char.isDigit, Bool.and_eq_true, decide_eq_true_eq]
    exact Iff.rfl
  rw [hdigit, isAsciiDigit, Bool.and_eq_true, decide_eq_true_eq, decide_eq_true_eq, UInt8.le_iff_toNat_le,
    UInt8.le_iff_toNat_le, Utf8.toNat_toUInt8 h]
  exact Iff.rfl

theorem matchesByte_iff {c s : Char} (hc : c.toNat < 0x80) (hs : s.toNat < 0x80) :
    matchesByte c.toUInt8 s.toUInt8 = true ↔ Fits c s := by
  have hN : s.toUInt8 = 0x4e ↔ s = 'N' := Utf8.toUInt8_inj hs (d := 'N') (by decide)
  unfold matchesByte Fits
  by_cases h : s = 'N'
  · rw [if_pos (beq_iff_eq.mpr (hN.mpr h)), if_pos h, isAsciiDigit_iff c hc]
  · rw [if_neg (fun hbyte => h (hN.mp (beq_iff_eq.mp hbyte))), if_neg h, beq_iff_eq, Utf8.toUInt8_inj hc hs]

theorem ascii_of_matchesByte {b : UInt8} {s : Char} (hs : s.toNat < 0x80) (h : matchesByte b s.toUInt8 = true) :
    b.toNat < 0x80 := by
  unfold matchesByte at h
  split at h
  · rw [isAsciiDigit, Bool.and_eq_true, decide_eq_true_eq, decide_eq_true_eq, UInt8.le_iff_toNat_le] at h
    have hle := UInt8.le_iff_toNat_le.mp h.2
    have h9 : (0x39 : UInt8).toNat = 57 := rfl
    omega
  · rw [beq_iff_eq.mp h, Utf8.toNat_toUInt8 hs]
    exact hs

theorem ascii_of_fits {c s : Char} (hs : s.toNat < 0x80) (h : Fits c s) : c.toNat < 0x80 := by
  unfold Fits at h
  split at h
  · exact ascii_of_isDigit h
  · rw [h]
    exact hs

variable {t : Text} {width : Nat}

theorem matchesShape_iff {t shape : Text} (hshape : ∀ s ∈ shape, s.toNat < 0x80) :
    matchesShape t shape = true ↔ List.Forall₂ Fits t shape := by
  have hbytes : matchesShape t shape = true ↔
      List.Forall₂ (fun b s => matchesByte b s = true) (Utf8.encode t) (Utf8.encode shape) := by
    rw [List.forall₂_iff_zip, matchesShape, Bool.and_eq_true, beq_iff_eq, List.all_eq_true]
    refine and_congr_right fun _ => ?_
    constructor
    · intro h a b hmem
      exact h (a, b) hmem
    · intro h pair hmem
      exact h hmem
  have hchars : (∀ c ∈ t, c.toNat < 0x80) →
      (List.Forall₂ (fun b s => matchesByte b s.toUInt8 = true) (Utf8.encode t) shape ↔ List.Forall₂ Fits t shape) := by
    intro hascii
    rw [Utf8.encode_ascii hascii, List.forall₂_map_left_iff]
    exact forall₂_congr_mem fun c hc s hs => matchesByte_iff (hascii c hc) (hshape s hs)
  rw [hbytes, Utf8.encode_ascii hshape, List.forall₂_map_right_iff]
  constructor
  · intro h
    have hascii := Utf8.ascii_of_encode (forall_of_forall₂ h fun b s hs => ascii_of_matchesByte (hshape s hs))
    exact (hchars hascii).mp h
  · intro h
    exact (hchars (forall_of_forall₂ h fun c s hs => ascii_of_fits (hshape s hs))).mpr h

/-- Digits of one width. -/
structure Digits (width : Nat) (t : Text) : Prop where
  length : t.length = width
  digits : t.all Char.isDigit = true

theorem Digits.notMem (h : Digits width t) {c : Char} (hc : c.isDigit = false) : c ∉ t := by
  intro hm
  rw [List.all_eq_true.mp h.digits c hm] at hc
  cases hc

theorem forall₂_fits_digits :
    List.Forall₂ Fits t (List.replicate width 'N') ↔ Digits width t := by
  induction width generalizing t with
  | zero =>
    rw [List.replicate_zero, List.forall₂_nil_right_iff]
    exact ⟨fun h => ⟨by rw [h]; rfl, by rw [h]; rfl⟩, fun h => List.length_eq_zero_iff.mp h.length⟩
  | succ width ih =>
    rw [List.replicate_succ, List.forall₂_cons_right_iff]
    constructor
    · rintro ⟨c, rest, hc, hrest, rfl⟩
      obtain ⟨hlength, hdigits⟩ := ih.mp hrest
      have hdigit : c.isDigit = true := hc
      exact ⟨by rw [List.length_cons, hlength], by rw [List.all_cons, hdigit, hdigits]; rfl⟩
    · rintro ⟨hlength, hdigits⟩
      obtain _ | ⟨c, rest⟩ := t
      · cases hlength
      rw [List.all_cons, Bool.and_eq_true] at hdigits
      exact ⟨c, rest, hdigits.1, ih.mpr ⟨Nat.succ.inj hlength, hdigits.2⟩, rfl⟩

theorem forall₂_fits_field {s : Char} (hs : s ≠ 'N') {t shape : Text} :
    List.Forall₂ Fits t (List.replicate width 'N' ++ s :: shape) ↔
      ∃ field rest, Digits width field ∧ List.Forall₂ Fits rest shape ∧ t = field ++ s :: rest := by
  rw [forall₂_append_right]
  constructor
  · rintro ⟨field, after, rfl, hfield, hafter⟩
    obtain ⟨c, rest, hc, hrest, rfl⟩ := List.forall₂_cons_right_iff.mp hafter
    rw [Fits, if_neg hs] at hc
    exact ⟨field, rest, forall₂_fits_digits.mp hfield, hrest, by rw [hc]⟩
  · rintro ⟨field, rest, hfield, hrest, rfl⟩
    exact ⟨field, s :: rest, rfl, forall₂_fits_digits.mpr hfield, .cons (by rw [Fits, if_neg hs]) hrest⟩

/-! ## Fields -/

/-- A date of fields of their full width. -/
structure DateFields where
  year : Text
  month : Text
  day : Text
  yearDigits : Digits 4 year
  monthDigits : Digits 2 month
  dayDigits : Digits 2 day

def DateFields.text (f : DateFields) : Text := f.year ++ '-' :: (f.month ++ '-' :: f.day)

theorem forall₂_dateFields :
    List.Forall₂ Fits t "NNNN-NN-NN".toList ↔ ∃ f : DateFields, t = f.text := by
  rw [show "NNNN-NN-NN".toList = List.replicate 4 'N' ++ '-' :: (List.replicate 2 'N' ++ '-' :: List.replicate 2 'N')
    from rfl, forall₂_fits_field (by decide)]
  constructor
  · rintro ⟨year, rest, hyear, hrest, rfl⟩
    obtain ⟨month, day, hmonth, hday, rfl⟩ := (forall₂_fits_field (by decide)).mp hrest
    exact ⟨⟨year, month, day, hyear, hmonth, forall₂_fits_digits.mp hday⟩, rfl⟩
  · rintro ⟨f, rfl⟩
    exact ⟨f.year, _, f.yearDigits, (forall₂_fits_field (by decide)).mpr
      ⟨f.month, f.day, f.monthDigits, forall₂_fits_digits.mpr f.dayDigits, rfl⟩, rfl⟩

theorem ascii_dateShape : ∀ s ∈ "NNNN-NN-NN".toList, s.toNat < 0x80 := by simp

theorem isCanonicalDate_iff : isCanonicalDate t = true ↔ ∃ f : DateFields, t = f.text := by
  rw [isCanonicalDate, matchesShape_iff ascii_dateShape, forall₂_dateFields]

theorem all_isAsciiDigit : (Utf8.encode t).all isAsciiDigit = true ↔ t.all Char.isDigit = true := by
  have hchars : (∀ c ∈ t, c.toNat < 0x80) →
      ((Utf8.encode t).all isAsciiDigit = true ↔ t.all Char.isDigit = true) := by
    intro hascii
    rw [Utf8.encode_ascii hascii, List.all_map, List.all_eq_true, List.all_eq_true]
    exact forall₂_congr fun c hc => isAsciiDigit_iff c (hascii c hc)
  constructor
  · intro h
    refine (hchars (Utf8.ascii_of_encode fun b hb => ?_)).mp h
    have hdigit := List.all_eq_true.mp h b hb
    rw [isAsciiDigit, Bool.and_eq_true, decide_eq_true_eq, decide_eq_true_eq] at hdigit
    have hle := UInt8.le_iff_toNat_le.mp hdigit.2
    have h9 : (0x39 : UInt8).toNat = 57 := rfl
    omega
  · intro h
    exact (hchars fun c hc => ascii_of_isDigit (List.all_eq_true.mp h c hc)).mpr h

/-- A clock of fields of their full width, with fraction digits that do not end in zero. -/
structure ClockFields where
  hours : Text
  minutes : Text
  seconds : Text
  fraction : Text
  hoursDigits : Digits 2 hours
  minutesDigits : Digits 2 minutes
  secondsDigits : Digits 2 seconds
  fractionDigits : fraction.all Char.isDigit = true
  fractionEnd : fraction.getLast? ≠ some '0'

namespace ClockFields

def hms (f : ClockFields) : Text := f.hours ++ ':' :: (f.minutes ++ ':' :: f.seconds)

def suffix (f : ClockFields) : Text := if f.fraction = [] then [] else '.' :: f.fraction

def text (f : ClockFields) : Text := f.hms ++ f.suffix

end ClockFields

theorem isCanonicalFraction_iff : isCanonicalFraction t = true ↔
    ∃ f : Text, f.all Char.isDigit = true ∧ f.getLast? ≠ some '0' ∧ t = if f = [] then [] else '.' :: f := by
  constructor
  · intro h
    unfold isCanonicalFraction at h
    split at h
    · next digits =>
      simp only [Bool.and_eq_true, all_isAsciiDigit, bne_iff_ne, Bool.not_eq_true', List.isEmpty_eq_false_iff] at h
      obtain ⟨⟨hne, hdigits⟩, hlast⟩ := h
      exact ⟨digits, hdigits, hlast, (if_neg hne).symm⟩
    · exact ⟨[], rfl, nofun, List.isEmpty_iff.mp h⟩
  · rintro ⟨f, hdigits, hlast, rfl⟩
    split
    · rfl
    · next hne =>
      simp only [isCanonicalFraction, Bool.and_eq_true, all_isAsciiDigit, bne_iff_ne, Bool.not_eq_true',
        List.isEmpty_eq_false_iff]
      exact ⟨⟨hne, hdigits⟩, hlast⟩

theorem forall₂_timestamp : List.Forall₂ Fits t "NNNN-NN-NN NN:NN:NN".toList ↔
    ∃ (f : DateFields) (hours minutes seconds : Text), Digits 2 hours ∧ Digits 2 minutes ∧ Digits 2 seconds ∧
      t = f.text ++ ' ' :: (hours ++ ':' :: (minutes ++ ':' :: seconds)) := by
  rw [show "NNNN-NN-NN NN:NN:NN".toList = "NNNN-NN-NN".toList ++
    ' ' :: (List.replicate 2 'N' ++ ':' :: (List.replicate 2 'N' ++ ':' :: List.replicate 2 'N')) from rfl,
    forall₂_append_right]
  constructor
  · rintro ⟨date, after, rfl, hdate, hafter⟩
    obtain ⟨f, rfl⟩ := forall₂_dateFields.mp hdate
    obtain ⟨c, clock, hc, hclock, rfl⟩ := List.forall₂_cons_right_iff.mp hafter
    obtain ⟨hours, rest, hhours, hrest, rfl⟩ := (forall₂_fits_field (by decide)).mp hclock
    obtain ⟨minutes, seconds, hminutes, hseconds, rfl⟩ := (forall₂_fits_field (by decide)).mp hrest
    have hspace : c = ' ' := hc
    exact ⟨f, hours, minutes, seconds, hhours, hminutes, forall₂_fits_digits.mp hseconds, by rw [hspace]⟩
  · rintro ⟨f, hours, minutes, seconds, hhours, hminutes, hseconds, rfl⟩
    have hclock := (forall₂_fits_field (s := ':') (by decide)).mpr ⟨hours, _, hhours, (forall₂_fits_field
      (s := ':') (by decide)).mpr ⟨minutes, seconds, hminutes, forall₂_fits_digits.mpr hseconds, rfl⟩, rfl⟩
    exact ⟨f.text, _, rfl, forall₂_dateFields.mpr ⟨f, rfl⟩, .cons rfl hclock⟩

theorem ascii_timestampShape : ∀ s ∈ "NNNN-NN-NN NN:NN:NN".toList, s.toNat < 0x80 := by simp

theorem length_encode_of_matchesShape {t shape : Text} (h : matchesShape t shape = true) :
    (Utf8.encode t).length = (Utf8.encode shape).length := by
  rw [matchesShape, Bool.and_eq_true, beq_iff_eq] at h
  exact h.1

theorem isCanonicalTimestamp_iff : isCanonicalTimestamp t = true ↔
    ∃ (f : DateFields) (g : ClockFields), t = f.text ++ ' ' :: g.text := by
  constructor
  · intro h
    unfold isCanonicalTimestamp at h
    split at h
    · cases h
    · next base tail hsplit =>
      rw [Bool.and_eq_true, matchesShape_iff ascii_timestampShape, isCanonicalFraction_iff] at h
      obtain ⟨rfl, -⟩ := Utf8.splitAtChecked_eq_some hsplit
      obtain ⟨hbase, digits, hdigits, hlast, rfl⟩ := h
      obtain ⟨f, hours, minutes, seconds, hhours, hminutes, hseconds, rfl⟩ := forall₂_timestamp.mp hbase
      refine ⟨f, ⟨hours, minutes, seconds, digits, hhours, hminutes, hseconds, hdigits, hlast⟩, ?_⟩
      rw [List.append_assoc]
      rfl
  · rintro ⟨f, g, rfl⟩
    have hbase : matchesShape (f.text ++ ' ' :: g.hms) "NNNN-NN-NN NN:NN:NN".toList = true :=
      (matchesShape_iff ascii_timestampShape).mpr (forall₂_timestamp.mpr
        ⟨f, g.hours, g.minutes, g.seconds, g.hoursDigits, g.minutesDigits, g.secondsDigits, rfl⟩)
    have hlength : (Utf8.encode (f.text ++ ' ' :: g.hms)).length = 19 := length_encode_of_matchesShape hbase
    have hsplit := Utf8.splitAtChecked_append (f.text ++ ' ' :: g.hms) g.suffix
    rw [hlength, List.append_assoc, List.cons_append] at hsplit
    have hsuffix : isCanonicalFraction g.suffix = true :=
      isCanonicalFraction_iff.mpr ⟨g.fraction, g.fractionDigits, g.fractionEnd, rfl⟩
    unfold isCanonicalTimestamp ClockFields.text
    rw [hsplit]
    dsimp only
    rw [hbase, hsuffix]
    rfl

theorem stripSuffixOf_eq_some {finish t u : Text} : Types.stripSuffixOf finish t = some u ↔ t = u ++ finish := by
  unfold Types.stripSuffixOf
  constructor
  · intro h
    split at h
    · next hsuffix =>
      obtain ⟨v, rfl⟩ := List.isSuffixOf_iff_suffix.mp hsuffix
      rw [List.length_append, Nat.add_sub_cancel, List.take_left, Option.some.injEq] at h
      rw [h]
    · cases h
  · rintro rfl
    rw [if_pos (List.isSuffixOf_iff_suffix.mpr (List.suffix_append u finish)), List.length_append,
      Nat.add_sub_cancel, List.take_left]

theorem isCanonicalTimestamptz_iff : isCanonicalTimestamptz t = true ↔
    ∃ (f : DateFields) (g : ClockFields), t = f.text ++ ' ' :: g.text ++ "+00".toList := by
  rw [isCanonicalTimestamptz, Option.any_eq_true]
  constructor
  · rintro ⟨u, hu, hcanonical⟩
    obtain ⟨f, g, rfl⟩ := isCanonicalTimestamp_iff.mp hcanonical
    exact ⟨f, g, stripSuffixOf_eq_some.mp hu⟩
  · rintro ⟨f, g, rfl⟩
    exact ⟨_, stripSuffixOf_eq_some.mpr rfl, isCanonicalTimestamp_iff.mpr ⟨f, g, rfl⟩⟩

end DuckLake.StatsCompare
