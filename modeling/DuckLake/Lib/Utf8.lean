import Mathlib.Data.Char
import Mathlib.Data.List.Lex
import Mathlib.Order.Lattice
import Mathlib.Tactic.Common

/- UTF-8 keeps the order of texts: comparing two texts byte by byte is comparing
   them code point by code point. A character's bytes decide the comparison with
   every larger character inside both encodings (`Decides`), so what follows them
   does not matter.

   Cutting the bytes of a text where no continuation byte follows leaves the bytes of a
   text, and so does replacing everything from an ASCII byte on by another one. -/

namespace Utf8

/-- The bytes of a text. -/
def encode (t : List Char) : List UInt8 := t.flatMap String.utf8EncodeChar

/-- The bytes of the code point `v`, as numbers. -/
def codes (v : Nat) : List Nat :=
  if v ≤ 0x7f then [v]
  else if v ≤ 0x7ff then [v / 64 + 0xc0, v % 64 + 0x80]
  else if v ≤ 0xffff then [v / 4096 + 0xe0, v / 64 % 64 + 0x80, v % 64 + 0x80]
  else [v / 262144 + 0xf0, v / 4096 % 64 + 0x80, v / 64 % 64 + 0x80, v % 64 + 0x80]

@[simp] theorem encode_nil : encode [] = [] := rfl

@[simp] theorem encode_append (s t : List Char) : encode (s ++ t) = encode s ++ encode t := by
  simp [encode]

theorem toNat_lt (c : Char) : c.toNat < 0x110000 := by
  rcases c.valid with h | h
  · exact Nat.lt_trans h (by decide)
  · exact h.2

theorem utf8EncodeChar_codes (c : Char) : (String.utf8EncodeChar c).map UInt8.toNat = codes c.toNat := by
  have hv := toNat_lt c
  unfold String.utf8EncodeChar codes
  simp only [Char.toNat] at hv ⊢
  generalize c.val.toNat = v at hv ⊢
  split
  · simp only [List.map_cons, List.map_nil, UInt8.toNat_ofNat', List.cons.injEq, and_true]
    omega
  split
  · simp only [List.map_cons, List.map_nil, UInt8.toNat_ofNat', List.cons.injEq, and_true]
    omega
  split
  · simp only [List.map_cons, List.map_nil, UInt8.toNat_ofNat', List.cons.injEq, and_true]
    omega
  · simp only [List.map_cons, List.map_nil, UInt8.toNat_ofNat', List.cons.injEq, and_true]
    omega

/-- The first list is smaller at a place both lists have. -/
def Decides : List Nat → List Nat → Prop
  | x :: u, y :: v => x < y ∨ (x = y ∧ Decides u v)
  | _, _ => False

theorem Decides.append_lt : ∀ {u v : List Nat}, Decides u v → ∀ s t, u ++ s < v ++ t
  | x :: u, y :: v, h, s, t => by
    rcases h with h | ⟨rfl, h⟩
    · exact List.Lex.rel h
    · exact List.Lex.cons (h.append_lt s t)

theorem codes_decides {v w : Nat} (h : v < w) (hw : w < 0x110000) : Decides (codes v) (codes w) := by
  unfold codes
  repeat' split
  all_goals
    simp only [Decides]
    omega

theorem encode_lt {s t : List Char} (h : s < t) :
    (encode s).map UInt8.toNat < (encode t).map UInt8.toNat := by
  induction h with
  | nil =>
    next c l =>
    have hne : (encode (c :: l)).map UInt8.toNat ≠ [] := by
      simp [encode, String.utf8EncodeChar_ne_nil]
    obtain ⟨x, u, hu⟩ := List.exists_cons_of_ne_nil hne
    rw [hu]
    exact List.Lex.nil
  | cons _ ih =>
    next c l₁ l₂ _ =>
    simp only [encode, List.flatMap_cons, List.map_append] at ih ⊢
    exact List.append_left_lt ih
  | rel hlt =>
    next c l₁ d l₂ =>
    simp only [encode, List.flatMap_cons, List.map_append, utf8EncodeChar_codes]
    exact (codes_decides hlt (toNat_lt d)).append_lt _ _

theorem Decides.not_isPrefix : ∀ {u v : List Nat}, Decides u v → ∀ s t, ¬ u ++ s <+: v ++ t ∧ ¬ v ++ t <+: u ++ s
  | x :: u, y :: v, h, s, t => by
    simp only [List.cons_append, List.cons_prefix_cons]
    rcases h with h | ⟨rfl, h⟩
    · exact ⟨fun hp => by omega, fun hp => by omega⟩
    · have ih := h.not_isPrefix s t
      exact ⟨fun hp => ih.1 hp.2, fun hp => ih.2 hp.2⟩

theorem prefix_of_encode : ∀ {a b : List Char}, encode a <+: encode b → a <+: b
  | [], b, _ => List.nil_prefix
  | c :: a, [], h => by
    simp [encode, String.utf8EncodeChar_ne_nil] at h
  | c :: a, d :: b, h => by
    rcases lt_trichotomy c d with hcd | rfl | hcd
    · have hmap := h.map UInt8.toNat
      simp only [encode, List.flatMap_cons, List.map_append, utf8EncodeChar_codes] at hmap
      exact absurd hmap ((codes_decides hcd (toNat_lt d)).not_isPrefix _ _).1
    · simp only [encode, List.flatMap_cons, List.prefix_append_right_inj] at h
      exact List.cons_prefix_cons.mpr ⟨rfl, prefix_of_encode h⟩
    · have hmap := h.map UInt8.toNat
      simp only [encode, List.flatMap_cons, List.map_append, utf8EncodeChar_codes] at hmap
      exact absurd hmap ((codes_decides hcd (toNat_lt c)).not_isPrefix _ _).2

/-- Byte order is code point order. -/
theorem strictMono_encode : StrictMono fun t : List Char => (encode t).map UInt8.toNat :=
  fun _ _ => encode_lt

/-! ## Reading bytes back -/

/-- `String::from_utf8`. -/
def decode (bytes : List UInt8) : Option (List Char) := bytes.toByteArray.utf8Decode?.map Array.toList

theorem decode_encode (t : List Char) : decode (encode t) = some t := by
  have h : (encode t).toByteArray = t.utf8Encode := rfl
  rw [decode, h, List.utf8Decode?_utf8Encode, Option.map_some]

variable {t : List Char} {c : Char} {n : Nat} {b : UInt8}

theorem decode_eq_some {bytes : List UInt8} : decode bytes = some t ↔ bytes = encode t := by
  constructor
  · intro h
    obtain ⟨m, hm, -⟩ := Option.map_eq_some_iff.mp h
    have hvalid : bytes.toByteArray.IsValidUTF8 := ByteArray.isSome_utf8Decode?_iff.mp (by rw [hm]; rfl)
    obtain ⟨l, hl⟩ := hvalid
    have hbytes : bytes = encode l := by
      have hdata := congrArg (fun b => b.data.toList) hl
      simpa only [List.utf8Encode, List.toList_data_toByteArray, encode] using hdata
    rw [hbytes, decode_encode, Option.some.injEq] at h
    rw [hbytes, h]
  · rintro rfl
    exact decode_encode t

/-! ## Cutting bytes -/

/-- Bytes that spell a text. -/
def IsText (bytes : List UInt8) : Prop := ∃ t, bytes = encode t

theorem isText_nil : IsText [] := ⟨[], rfl⟩

theorem IsText.append {a b : List UInt8} (ha : IsText a) (hb : IsText b) : IsText (a ++ b) := by
  obtain ⟨s, rfl⟩ := ha
  obtain ⟨t, rfl⟩ := hb
  exact ⟨s ++ t, (encode_append s t).symm⟩

theorem isText_char (c : Char) : IsText (String.utf8EncodeChar c) := ⟨[c], by simp [encode]⟩

/-- The test `b & 0xc0 == 0x80`. -/
def isContinuation (b : UInt8) : Bool := b &&& 0xc0 == 0x80

theorem isContinuation_iff (b : UInt8) : isContinuation b = true ↔ 0x80 ≤ b.toNat ∧ b.toNat < 0xc0 := by
  have hall : ∀ n < 256, isContinuation (UInt8.ofNat n) = true ↔ 0x80 ≤ n ∧ n < 0xc0 := by decide +kernel
  have hb := hall b.toNat b.toNat_lt
  rwa [UInt8.ofNat_toNat] at hb

/-- Every byte of a character but its first is a continuation byte. -/
theorem codes_continuation {v i b : Nat} (h : (codes v)[i + 1]? = some b) : 0x80 ≤ b ∧ b < 0xc0 := by
  unfold codes at h
  repeat' split at h
  all_goals
    rcases i with _ | _ | _ | i
    all_goals
      simp at h
      try omega

theorem getElem?_codes {i : Nat} (h : (String.utf8EncodeChar c)[i]? = some b) :
    (codes c.toNat)[i]? = some b.toNat := by
  rw [← utf8EncodeChar_codes, List.getElem?_map, h, Option.map_some]

theorem isText_take (h : ∀ b, (encode t)[n]? = some b → isContinuation b = false) :
    IsText ((encode t).take n) := by
  induction t generalizing n with
  | nil => exact ⟨[], by simp⟩
  | cons c t ih =>
    have hcons : encode (c :: t) = String.utf8EncodeChar c ++ encode t := rfl
    rw [hcons] at h ⊢
    by_cases hn : (String.utf8EncodeChar c).length ≤ n
    · rw [List.take_append, List.take_of_length_le hn]
      refine (isText_char c).append (ih fun b hb => h b ?_)
      rw [List.getElem?_append_right hn, hb]
    · cases n with
      | zero => exact ⟨[], by simp⟩
      | succ n =>
        have hlt : n + 1 < (String.utf8EncodeChar c).length := by omega
        have hb := List.getElem?_eq_getElem hlt
        have hcont := (isContinuation_iff _).mpr (codes_continuation (getElem?_codes hb))
        rw [h _ (by rw [List.getElem?_append_left hlt, hb])] at hcont
        cases hcont

theorem toNat_ofNat (b : UInt8) : (Char.ofNat b.toNat).toNat = b.toNat := by
  have hlt := b.toNat_lt
  have hvalid : b.toNat.isValidChar := .inl (by omega)
  rw [Char.ofNat, dif_pos hvalid]
  rfl

/-- The bytes before an ASCII byte are a text, and so are they with another ASCII byte in
    its place. -/
theorem isText_replace (h : (encode t)[n]? = some b) (hb : b.toNat < 0x80)
    {b' : UInt8} (hb' : b'.toNat < 0x80) : IsText ((encode t).take n ++ [b']) := by
  have hascii : IsText [b'] := by
    refine ⟨[Char.ofNat b'.toNat], ?_⟩
    have hcodes := utf8EncodeChar_codes (Char.ofNat b'.toNat)
    rw [toNat_ofNat, codes, if_pos (by omega)] at hcodes
    refine List.map_injective_iff.mpr (fun x y hxy => UInt8.toNat_inj.mp hxy) ?_
    simpa [encode] using hcodes.symm
  refine IsText.append (isText_take fun b₀ hb₀ => ?_) hascii
  rw [h, Option.some.injEq] at hb₀
  rw [← Bool.not_eq_true, isContinuation_iff, ← hb₀]
  omega

/-! ## Places in a text -/

/-- The first `n` bytes and the rest; nothing where that is inside a character or past the end. -/
def splitAtChecked : Nat → List Char → Option (List Char × List Char)
  | 0, t => some ([], t)
  | _ + 1, [] => none
  | n + 1, c :: t =>
    if c.utf8Size ≤ n + 1 then (splitAtChecked (n + 1 - c.utf8Size) t).map fun (a, b) => (c :: a, b) else none

theorem length_encode_cons (c : Char) (t : List Char) :
    (encode (c :: t)).length = c.utf8Size + (encode t).length := by
  rw [encode, List.flatMap_cons, List.length_append, String.length_utf8EncodeChar]
  rfl

theorem length_le_encode (t : List Char) : t.length ≤ (encode t).length := by
  induction t with
  | nil => exact Nat.le_refl 0
  | cons c t ih =>
    have hpos := Char.utf8Size_pos c
    rw [length_encode_cons, List.length_cons]
    omega

theorem splitAtChecked_append (a b : List Char) : splitAtChecked (encode a).length (a ++ b) = some (a, b) := by
  induction a with
  | nil => rw [encode_nil, List.length_nil, List.nil_append, splitAtChecked]
  | cons c a ih =>
    obtain ⟨k, hk⟩ := Nat.exists_eq_succ_of_ne_zero (Char.utf8Size_pos c).ne'
    have hlength : (encode (c :: a)).length = k + (encode a).length + 1 := by
      rw [length_encode_cons, hk]
      omega
    rw [hlength, List.cons_append, splitAtChecked, if_pos (by omega), hk,
      show k + (encode a).length + 1 - k.succ = (encode a).length by omega, ih]
    rfl

theorem splitAtChecked_eq_some {t a b : List Char} (h : splitAtChecked n t = some (a, b)) :
    t = a ++ b ∧ (encode a).length = n := by
  induction t generalizing n a with
  | nil =>
    cases n with
    | zero =>
      cases h
      exact ⟨rfl, rfl⟩
    | succ n => cases h
  | cons c t ih =>
    cases n with
    | zero =>
      cases h
      exact ⟨rfl, rfl⟩
    | succ n =>
      rw [splitAtChecked] at h
      split at h
      · next hle =>
        obtain ⟨⟨before, after⟩, hrest, heq⟩ := Option.map_eq_some_iff.mp h
        cases heq
        obtain ⟨rfl, hlength⟩ := ih hrest
        refine ⟨rfl, ?_⟩
        rw [length_encode_cons, hlength]
        omega
      · cases h

/-- The byte at which the first character with `p` starts. -/
def find (p : Char → Bool) : List Char → Option Nat
  | [] => none
  | c :: t => if p c then some 0 else (find p t).map (· + c.utf8Size)

theorem find_eq_some {p : Char → Bool} (h : find p t = some n) :
    ∃ a c b, t = a ++ c :: b ∧ p c = true ∧ (∀ x ∈ a, p x = false) ∧ (encode a).length = n := by
  induction t generalizing n with
  | nil => cases h
  | cons c t ih =>
    rw [find] at h
    split at h
    · next hc =>
      cases h
      exact ⟨[], c, t, rfl, hc, nofun, rfl⟩
    · next hc =>
      obtain ⟨m, hm, rfl⟩ := Option.map_eq_some_iff.mp h
      obtain ⟨a, d, b, rfl, hd, ha, hlength⟩ := ih hm
      refine ⟨c :: a, d, b, rfl, hd, List.forall_mem_cons.mpr ⟨Bool.eq_false_iff.mpr hc, ha⟩, ?_⟩
      rw [length_encode_cons, hlength, Nat.add_comm]

/-! ## ASCII -/

theorem utf8EncodeChar_ascii (h : c.toNat < 0x80) : String.utf8EncodeChar c = [c.toUInt8] := by
  have hcodes := utf8EncodeChar_codes c
  rw [codes, if_pos (by omega)] at hcodes
  obtain ⟨b, hb, hnat⟩ := List.map_eq_singleton_iff.mp hcodes
  rw [hb]
  congr 1
  apply UInt8.toNat_inj.mp
  rw [hnat]
  have : c.toUInt8.toNat = c.toNat % 256 := rfl
  omega

theorem encode_ascii (h : ∀ c ∈ t, c.toNat < 0x80) : encode t = t.map Char.toUInt8 := by
  induction t with
  | nil => rfl
  | cons c t ih =>
    rw [List.forall_mem_cons] at h
    have hcons : encode (c :: t) = String.utf8EncodeChar c ++ encode t := List.flatMap_cons
    rw [hcons, utf8EncodeChar_ascii h.1, ih h.2]
    rfl

theorem le_of_mem_utf8EncodeChar (h : 0x80 ≤ c.toNat) (hb : b ∈ String.utf8EncodeChar c) :
    0x80 ≤ b.toNat := by
  have hmem : b.toNat ∈ codes c.toNat := by
    rw [← utf8EncodeChar_codes]
    exact List.mem_map_of_mem hb
  unfold codes at hmem
  repeat' split at hmem
  all_goals
    simp only [List.mem_cons, List.not_mem_nil, or_false] at hmem
    omega

theorem ascii_of_encode (h : ∀ b ∈ encode t, b.toNat < 0x80) : ∀ c ∈ t, c.toNat < 0x80 := by
  intro c hc
  by_contra hlarge
  obtain ⟨b, bytes, hbytes⟩ := List.exists_cons_of_ne_nil (String.utf8EncodeChar_ne_nil (c := c))
  have hb : b ∈ String.utf8EncodeChar c := by
    rw [hbytes]
    exact List.mem_cons_self
  have hsmall := h b (List.mem_flatMap.mpr ⟨c, hc, hb⟩)
  have hle := le_of_mem_utf8EncodeChar (by omega) hb
  omega

theorem toNat_toUInt8 (h : c.toNat < 0x80) : c.toUInt8.toNat = c.toNat := by
  have : c.toUInt8.toNat = c.toNat % 256 := rfl
  omega

theorem toUInt8_inj {c d : Char} (hc : c.toNat < 0x80) (hd : d.toNat < 0x80) : c.toUInt8 = d.toUInt8 ↔ c = d := by
  rw [← UInt8.toNat_inj, toNat_toUInt8 hc, toNat_toUInt8 hd, Char.toNat_inj]

theorem forall_ascii {P : Char → Prop} (h : ∀ n < 0x80, P (Char.ofNat n)) (hc : c.toNat < 0x80) : P c := by
  rw [← Char.ofNat_toNat c]
  exact h _ hc

end Utf8
