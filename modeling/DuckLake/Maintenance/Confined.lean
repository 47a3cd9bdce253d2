import Mathlib.Data.List.Infix
import DuckLake.Lib.Components
import DuckLake.Maintenance.Paths

/- What a path that `path_resolver.rs` accepts can name.

   The decoder's decoding is not the standard one (`u8::from_str_radix` takes a sign), so
   an accepted path is described with the standard one, `percentDecode`. -/

namespace DuckLake.PathResolver

open Components Utf8

/-! ## What a path names -/

/-- Percent-decoding as URLs define it: `%` and two hexadecimal digits are a byte. -/
def percentDecode : List UInt8 → List UInt8
  | b :: h :: l :: rest =>
    if b = percent then
      match hexDigit (byteChar h), hexDigit (byteChar l) with
      | some high, some low => UInt8.ofNat (16 * high + low) :: percentDecode rest
      | _, _ => b :: percentDecode (h :: l :: rest)
    else b :: percentDecode (h :: l :: rest)
  | b :: rest => b :: percentDecode rest
  | [] => []

def charKind (c : Char) : Kind := if isSeparator c then .separator else if c = '.' then .dot else .other

def byteKind (b : UInt8) : Kind := charKind (byteChar b)

/-- No `..` between separators and no NUL, in the text and in the text decoded once. -/
structure Clean (path : Text) : Prop where
  dotdot : hasDotdot charKind path = false
  decodedDotdot : hasDotdot byteKind (percentDecode (encode path)) = false
  null : '\x00' ∉ path
  decodedNull : 0 ∉ percentDecode (encode path)

/-- The location a path denotes: its components without empty ones and `.`. -/
def location (path : Text) : List Text := (components charKind path).filter fun c => c ≠ [] ∧ c ≠ ['.']

/-- The path is a step down from the base. -/
def Under (base path : Text) : Prop := ∃ down, location path = location base ++ down ∧ ['.', '.'] ∉ down

/-- Resolving a path does not panic, and confines what it accepts. -/
structure Confined (base path : Text) (isRelative : Bool) : Prop where
  total : resolvePath base path isRelative ≠ .error .panicked
  joinTotal : joinPaths base path ≠ .error .panicked
  clean : ∀ resolved, resolvePath base path isRelative = .ok resolved → Clean path
  under : ∀ resolved, joinPaths base path = .ok resolved → Under base resolved

/-! ## The literal checks -/

theorem isSeparator_eq : isSeparator = fun c => charKind c == .separator := by
  funext c
  unfold charKind
  by_cases hs : isSeparator c = true
  · rw [if_pos hs, hs]
    rfl
  · rw [if_neg hs, Bool.eq_false_iff.mpr hs]
    split <;> rfl

variable {bytes : List UInt8} {path : Text} {rest : List UInt8} {b : UInt8} {h l : UInt8} {c : Char} {byte : Nat}
  {t : Text}

theorem charKind_eq_dot : charKind c = .dot ↔ c = '.' := by
  constructor
  · intro h
    by_contra hne
    unfold charKind at h
    rw [if_neg hne] at h
    split at h <;> cases h
  · rintro rfl
    decide

theorem map_charKind_dotdot (t : Text) : (t.map charKind == [.dot, .dot]) = (t == ['.', '.']) := by
  rcases t with _ | ⟨a, _ | ⟨b, _ | ⟨c, t⟩⟩⟩
  · rfl
  · simp
  · rw [Bool.eq_iff_iff]
    simp [charKind_eq_dot]
  · simp

theorem hasDotdotComponent_eq (path : Text) : hasDotdotComponent path = hasDotdot charKind path := by
  unfold hasDotdotComponent hasDotdot components
  rw [isSeparator_eq]
  simp only [map_charKind_dotdot]

/-- The checks that come before the decoder refuse the path. -/
def rejected (path : Text) : Bool :=
  path.contains '\x00' || containsSub path "%00".toList || hasDotdotComponent path

/-! ## Bytes and characters -/

theorem byteChar_toUInt8 (h : c.toNat < 0x80) : byteChar c.toUInt8 = c := by
  unfold byteChar
  have hb : c.toUInt8.toNat = c.toNat % 256 := rfl
  rw [hb, Nat.mod_eq_of_lt (by omega), Char.ofNat_toNat]

theorem byteChar_toNat : (byteChar b).toNat = b.toNat := Utf8.toNat_ofNat b

theorem charKind_of_ge (h : 0x80 ≤ c.toNat) : charKind c = .other := by
  have hne : ∀ d : Char, d.toNat < 0x80 → c ≠ d := fun d hd heq => by
    rw [heq] at h
    omega
  have hslash := hne '/' (by decide)
  have hback := hne '\\' (by decide)
  have hdot := hne '.' (by decide)
  simp [charKind, isSeparator, hslash, hback, hdot]

theorem byteKind_of_ge (h : 0x80 ≤ b.toNat) : byteKind b = .other :=
  charKind_of_ge (by rwa [byteChar_toNat])

theorem byteKind_utf8 (h : 0x80 ≤ c.toNat) :
    ∀ k ∈ (String.utf8EncodeChar c).map byteKind, k = .other := by
  intro k hk
  obtain ⟨b, hb, rfl⟩ := List.mem_map.mp hk
  exact byteKind_of_ge (le_of_mem_utf8EncodeChar h hb)

theorem encode_cons (c : Char) (t : Text) : encode (c :: t) = String.utf8EncodeChar c ++ encode t := rfl

theorem scan_encode (t : Text) (dots : Option Nat) :
    scan dots ((encode t).map byteKind) = scan dots (t.map charKind) := by
  induction t generalizing dots with
  | nil => rfl
  | cons c t ih =>
    rw [encode_cons, List.map_append, List.map_cons]
    by_cases hc : c.toNat < 0x80
    · rw [utf8EncodeChar_ascii hc, List.map_singleton, List.singleton_append]
      have hkind : byteKind c.toUInt8 = charKind c := congrArg charKind (byteChar_toUInt8 hc)
      rw [hkind]
      exact scan_cons_congr ih dots
    · have hge : 0x80 ≤ c.toNat := by omega
      rw [scan_append_other (by simp [String.utf8EncodeChar_ne_nil]) (byteKind_utf8 hge), charKind_of_ge hge, scan]
      exact ih none

theorem split_at_ascii {before after : List UInt8} (hb : b.toNat < 0x80) (h : encode t = before ++ b :: after) :
    ∃ a z, t = a ++ byteChar b :: z ∧ encode a = before ∧ encode z = after := by
  induction t generalizing before with
  | nil =>
    have hlen := congrArg List.length h
    simp [encode] at hlen
  | cons c t ih =>
    have hmore : ∀ inner, before = String.utf8EncodeChar c ++ inner → encode t = inner ++ b :: after →
        ∃ a z, c :: t = a ++ byteChar b :: z ∧ encode a = before ∧ encode z = after := by
      intro inner hbefore hinner
      obtain ⟨a, z, rfl, ha, hz⟩ := ih hinner
      exact ⟨c :: a, z, rfl, by rw [encode_cons, ha, hbefore], hz⟩
    rw [encode_cons] at h
    rcases List.append_eq_append_iff.mp h with ⟨inner, hbefore, hrest⟩ | ⟨inner, hchar, hrest⟩
    · exact hmore inner hbefore hrest
    · cases inner with
      | nil => exact hmore [] (by simpa using hchar.symm) hrest.symm
      | cons b' inner =>
        -- the byte is in the first character, which is then that byte alone
        rw [List.cons_append, List.cons.injEq] at hrest
        obtain ⟨rfl, hafter⟩ := hrest
        by_cases hc : c.toNat < 0x80
        · rw [utf8EncodeChar_ascii hc] at hchar
          cases before with
          | nil =>
            rw [List.nil_append, List.cons.injEq] at hchar
            obtain ⟨rfl, hnil⟩ := hchar
            rw [← hnil, List.nil_append] at hafter
            exact ⟨[], t, by rw [byteChar_toUInt8 hc, List.nil_append], rfl, hafter.symm⟩
          | cons x before =>
            have hlen := congrArg List.length hchar
            simp at hlen
        · have hmem : b ∈ String.utf8EncodeChar c := by
            rw [hchar]
            simp
          have := le_of_mem_utf8EncodeChar (by omega) hmem
          omega

theorem head_ascii {after : List UInt8} (hb : b.toNat < 0x80) (h : encode t = b :: after) :
    ∃ z, t = byteChar b :: z ∧ encode z = after := by
  obtain ⟨a, z, ht, ha, hz⟩ := @split_at_ascii b t [] after hb h
  cases a with
  | nil => exact ⟨z, ht, hz⟩
  | cons c a =>
    rw [encode_cons, List.append_eq_nil_iff] at ha
    exact absurd ha.1 String.utf8EncodeChar_ne_nil

theorem mem_of_mem_encode (hb : b.toNat < 0x80) (h : b ∈ encode t) : byteChar b ∈ t := by
  obtain ⟨before, after, hsplit⟩ := List.append_of_mem h
  obtain ⟨a, z, rfl, -⟩ := split_at_ascii hb hsplit
  simp

/-! ## The decoder -/

/-- Every `%` with two bytes after it is followed by two boundaries of characters, one
    byte and three bytes further: what `&path[i + 1..i + 3]` needs. -/
def sliceable : List UInt8 → Bool
  | b :: h :: l :: rest =>
    (b != percent || !(isContinuation h || rest.head?.any isContinuation)) && sliceable (h :: l :: rest)
  | _ => true

theorem sliceable_cons_ne (hb : b ≠ percent) (rest : List UInt8) :
    sliceable (b :: rest) = sliceable rest := by
  rcases rest with _ | ⟨h, _ | ⟨l, rest⟩⟩
  · rfl
  · rfl
  · simp [sliceable, hb]

theorem percentDecode_cons_ne (hb : b ≠ percent) (rest : List UInt8) :
    percentDecode (b :: rest) = b :: percentDecode rest := by
  rcases rest with _ | ⟨h, _ | ⟨l, rest⟩⟩
  · rfl
  · rfl
  · simp [percentDecode, hb]

theorem hexDigit_percent : hexDigit (byteChar percent) = none := by decide

theorem ne_percent_of_hexByte (hx : hexByte (byteChar h) (byteChar l) = some byte) :
    h ≠ percent ∧ l ≠ percent := by
  unfold hexByte at hx
  constructor
  · rintro rfl
    rw [if_neg (by decide), hexDigit_percent] at hx
    cases hx
  · rintro rfl
    rw [hexDigit_percent] at hx
    split at hx
    · cases hx
    · cases hd : hexDigit (byteChar h) <;> simp [hd] at hx

theorem map_ok_iff {f : Text → Text} {x : Except Failure Text} {r : Text} :
    f <$> x = .ok r ↔ ∃ d, x = .ok d ∧ f d = r := Checked.map_eq_ok

theorem sliceable_hexByte (hx : hexByte (byteChar h) (byteChar l) = some byte)
    (hslice : ¬ (isContinuation h || rest.head?.any isContinuation) = true) :
    sliceable (percent :: h :: l :: rest) = sliceable rest := by
  obtain ⟨hh, hl⟩ := ne_percent_of_hexByte hx
  rw [sliceable, sliceable_cons_ne hh, sliceable_cons_ne hl]
  simp [hslice]

theorem sliceable_percent (hslice : ¬ (isContinuation h || rest.head?.any isContinuation) = true) :
    sliceable (percent :: h :: l :: rest) = sliceable (h :: l :: rest) := by
  rw [sliceable]
  simp [hslice]

/-- The decoder decodes, or panics, as the slices it makes decide. -/
theorem percentDecodeBytes_total (bytes : List UInt8) :
    (sliceable bytes = true → ∃ d, percentDecodeBytes bytes = .ok d) ∧
      (sliceable bytes = false → percentDecodeBytes bytes = .error .panicked) := by
  fun_induction percentDecodeBytes bytes with
  | case1 h l rest hbad => simp [sliceable, hbad]
  | case2 h l rest hgood byte hx ih =>
    rw [sliceable_hexByte hx hgood]
    refine ⟨fun hok => ?_, fun hbad => by rw [ih.2 hbad]; rfl⟩
    obtain ⟨d, hd⟩ := ih.1 hok
    exact ⟨_, by rw [hd]; rfl⟩
  | case3 h l rest hgood hx ih =>
    rw [sliceable_percent hgood]
    refine ⟨fun hok => ?_, fun hbad => by rw [ih.2 hbad]; rfl⟩
    obtain ⟨d, hd⟩ := ih.1 hok
    exact ⟨_, by rw [hd]; rfl⟩
  | case4 b h l rest hb ih =>
    rw [sliceable_cons_ne hb]
    refine ⟨fun hok => ?_, fun hbad => by rw [ih.2 hbad]; rfl⟩
    obtain ⟨d, hd⟩ := ih.1 hok
    exact ⟨_, by rw [hd]; rfl⟩
  | case5 b rest hshort ih =>
    have hs : sliceable (b :: rest) = sliceable rest := by
      rcases rest with _ | ⟨h, _ | ⟨l, rest⟩⟩
      · rfl
      · rfl
      · exact absurd rfl (hshort h l rest)
    rw [hs]
    refine ⟨fun hok => ?_, fun hbad => by rw [ih.2 hbad]; rfl⟩
    obtain ⟨d, hd⟩ := ih.1 hok
    exact ⟨_, by rw [hd]; rfl⟩
  | case6 => simp [sliceable]

/-- An escape the decoder takes is a standard one, or a sign and a digit that stand for
    themselves in the standard one. -/
theorem percentDecode_hexByte (hx : hexByte (byteChar h) (byteChar l) = some byte) :
    percentDecode (percent :: h :: l :: rest) = UInt8.ofNat byte :: percentDecode rest ∧ byte < 256 ∨
      byteChar h = '+' ∧ byte < 16 ∧
        percentDecode (percent :: h :: l :: rest) = percent :: h :: l :: percentDecode rest := by
  obtain ⟨hh, hl⟩ := ne_percent_of_hexByte hx
  have hdigit : ∀ {c : Char} {n : Nat}, hexDigit c = some n → n < 16 := by
    intro c n hc
    unfold hexDigit at hc
    split at hc
    · next hr =>
      have : c.toNat ≤ '9'.toNat := hr.2
      simp only [Option.some.injEq] at hc
      have h9 : '9'.toNat = 57 := rfl
      have h0 : '0'.toNat = 48 := rfl
      omega
    · split at hc
      · next hr =>
        have : c.toNat ≤ 'f'.toNat := hr.2
        simp only [Option.some.injEq] at hc
        have hf : 'f'.toNat = 102 := rfl
        have ha : 'a'.toNat = 97 := rfl
        omega
      · split at hc
        · next hr =>
          have : c.toNat ≤ 'F'.toNat := hr.2
          simp only [Option.some.injEq] at hc
          have hf : 'F'.toNat = 70 := rfl
          have ha : 'A'.toNat = 65 := rfl
          omega
        · cases hc
  unfold hexByte at hx
  split at hx
  · next hplus =>
    right
    refine ⟨hplus, hdigit hx, ?_⟩
    have hnone : hexDigit (byteChar h) = none := by rw [hplus]; decide
    rw [percentDecode, if_pos rfl, hnone]
    simp only
    rw [percentDecode_cons_ne hh, percentDecode_cons_ne hl]
  · left
    obtain ⟨high, hhigh, hx⟩ := Option.bind_eq_some_iff.mp hx
    obtain ⟨low, hlow, hx⟩ := Option.bind_eq_some_iff.mp hx
    obtain rfl := Option.some.inj hx
    have h₁ := hdigit hhigh
    have h₂ := hdigit hlow
    rw [percentDecode, if_pos rfl, hhigh, hlow]
    exact ⟨rfl, by omega⟩

theorem byteKind_ofNat {n : Nat} (h : n < 256) : byteKind (UInt8.ofNat n) = charKind (Char.ofNat n) := by
  unfold byteKind byteChar
  rw [UInt8.toNat_ofNat', Nat.mod_eq_of_lt h]

theorem charKind_of_lt_sixteen : ∀ n < 16, charKind (Char.ofNat n) = .other := by decide

theorem byteKind_of_hexDigit : ∀ n < 256, (hexDigit (Char.ofNat n)).isSome = true →
    charKind (Char.ofNat n) = .other := by decide +kernel

theorem scan_hexByte {d : List Kind} (hx : hexByte (byteChar h) (byteChar l) = some byte)
    (hd : ∀ dots, scan dots d = scan dots ((percentDecode rest).map byteKind)) (dots : Option Nat) :
    scan dots (charKind (Char.ofNat byte) :: d) =
      scan dots ((percentDecode (percent :: h :: l :: rest)).map byteKind) := by
  rcases @percentDecode_hexByte rest h l byte hx with ⟨hdec, hlt⟩ | ⟨hplus, hlt, hdec⟩
  · rw [hdec, List.map_cons, byteKind_ofNat hlt]
    exact scan_cons_congr hd dots
  · -- the sign is no digit: three bytes here, one control character there
    have hl : byteKind l = .other := by
      unfold hexByte at hx
      rw [if_pos hplus] at hx
      exact byteKind_of_hexDigit l.toNat l.toNat_lt (by rw [show Char.ofNat l.toNat = byteChar l from rfl, hx]; rfl)
    have hh : byteKind h = .other := by
      unfold byteKind
      rw [hplus]
      decide
    rw [hdec, charKind_of_lt_sixteen byte hlt, scan, hd none]
    simp only [List.map_cons, hl, hh, show byteKind percent = .other by decide, scan]

theorem percentDecode_percent (hx : hexByte (byteChar h) (byteChar l) = none) :
    percentDecode (percent :: h :: l :: rest) = percent :: percentDecode (h :: l :: rest) := by
  rw [percentDecode, if_pos rfl]
  unfold hexByte at hx
  split at hx
  · next hplus =>
    have hnone : hexDigit (byteChar h) = none := by rw [hplus]; decide
    rw [hnone]
  · cases hh : hexDigit (byteChar h) with
    | none => rfl
    | some high =>
      cases hl : hexDigit (byteChar l) with
      | none => rfl
      | some low => simp [hh, hl] at hx

/-- The decoder finds the dots and separators of the standard decoding. -/
theorem scan_percentDecodeBytes {d : Text} (h : percentDecodeBytes bytes = .ok d)
    (dots : Option Nat) : scan dots (d.map charKind) = scan dots ((percentDecode bytes).map byteKind) := by
  fun_induction percentDecodeBytes bytes generalizing d dots with
  | case1 => cases h
  | case2 x l rest hgood byte hx ih =>
    obtain ⟨d', hd', rfl⟩ := map_ok_iff.mp h
    exact scan_hexByte hx (ih hd') dots
  | case3 x l rest hgood hx ih =>
    obtain ⟨d', hd', rfl⟩ := map_ok_iff.mp h
    rw [percentDecode_percent hx, List.map_cons, List.map_cons]
    exact scan_cons_congr (ih hd') dots
  | case4 b x l rest hb ih =>
    obtain ⟨d', hd', rfl⟩ := map_ok_iff.mp h
    rw [percentDecode_cons_ne hb, List.map_cons, List.map_cons]
    exact scan_cons_congr (ih hd') dots
  | case5 b rest hshort ih =>
    obtain ⟨d', hd', rfl⟩ := map_ok_iff.mp h
    have hdec : percentDecode (b :: rest) = b :: percentDecode rest := by
      rcases rest with _ | ⟨x, _ | ⟨l, rest⟩⟩
      · rfl
      · rfl
      · exact absurd rfl (hshort x l rest)
    rw [hdec, List.map_cons, List.map_cons]
    exact scan_cons_congr (ih hd') dots
  | case6 =>
    cases h
    rfl

/-! ## NUL -/

/-- A decoded NUL was one in the text, or the escape `%00`. -/
theorem zero_of_mem_percentDecode (h : (0 : UInt8) ∈ percentDecode bytes) :
    (0 : UInt8) ∈ bytes ∨ ∃ before after, bytes = before ++ percent :: 0x30 :: 0x30 :: after := by
  have hzero : ∀ n < 256, ∀ high, hexDigit (Char.ofNat n) = some high → high = 0 → n = 0x30 := by decide +kernel
  have hlift : ∀ {b : UInt8} {bytes : List UInt8}, ((0 : UInt8) ∈ bytes ∨ ∃ before after,
      bytes = before ++ percent :: 0x30 :: 0x30 :: after) → (0 : UInt8) ∈ b :: bytes ∨ ∃ before after,
      b :: bytes = before ++ percent :: 0x30 :: 0x30 :: after := by
    rintro b bytes (hm | ⟨before, after, rfl⟩)
    · exact .inl (List.mem_cons_of_mem _ hm)
    · exact .inr ⟨b :: before, after, rfl⟩
  fun_induction percentDecode bytes with
  | case1 x l rest high low hlow hhigh ih =>
    rcases List.mem_cons.mp h with hz | hm
    · -- the escape is `%00`
      have hlt : 16 * high + low < 256 ∧ (high = 0 ∧ low = 0 ∨ 16 * high + low ≠ 0) := by
        have hb : ∀ n < 256, ∀ d, hexDigit (Char.ofNat n) = some d → d < 16 := by decide +kernel
        have h₁ := hb x.toNat x.toNat_lt high hhigh
        have h₂ := hb l.toNat l.toNat_lt low hlow
        omega
      have hsum : 16 * high + low = 0 := by
        have := congrArg UInt8.toNat hz
        rw [UInt8.toNat_ofNat', Nat.mod_eq_of_lt hlt.1] at this
        exact this.symm
      have hh := hzero x.toNat x.toNat_lt high hhigh (by omega)
      have hl := hzero l.toNat l.toNat_lt low hlow (by omega)
      refine .inr ⟨[], rest, ?_⟩
      rw [List.nil_append, UInt8.toNat_inj.mp (show x.toNat = (0x30 : UInt8).toNat from hh),
        UInt8.toNat_inj.mp (show l.toNat = (0x30 : UInt8).toNat from hl)]
    · exact hlift (hlift (hlift (ih hm)))
  | case2 x l rest hne ih =>
    rcases List.mem_cons.mp h with hz | hm
    · exact absurd hz (by decide)
    · exact hlift (ih hm)
  | case3 b x l rest hb ih =>
    rcases List.mem_cons.mp h with hz | hm
    · exact .inl (hz ▸ List.mem_cons_self ..)
    · exact hlift (ih hm)
  | case4 b rest hshort ih =>
    rcases List.mem_cons.mp h with hz | hm
    · exact .inl (hz ▸ List.mem_cons_self ..)
    · exact hlift (ih hm)
  | case5 => cases h

theorem containsSub_of_append {a z sub : Text} : containsSub (a ++ (sub ++ z)) sub = true := by
  rw [containsSub, List.any_eq_true]
  refine ⟨sub ++ z, (List.mem_tails _ _).mpr (List.suffix_append ..), ?_⟩
  exact List.isPrefixOf_iff_prefix.mpr (List.prefix_append ..)

theorem zero_notMem_percentDecode (hnull : path.contains '\x00' = false)
    (hescaped : containsSub path "%00".toList = false) : (0 : UInt8) ∉ percentDecode (encode path) := by
  intro hmem
  rcases zero_of_mem_percentDecode hmem with hz | ⟨before, after, hsplit⟩
  · have := mem_of_mem_encode (by decide) hz
    rw [show byteChar 0 = '\x00' from rfl, ← List.contains_iff_mem, hnull] at this
    cases this
  · obtain ⟨a, z, rfl, -, hz⟩ := split_at_ascii (by decide) hsplit
    obtain ⟨z₁, rfl, hz₁⟩ := head_ascii (by decide) hz
    obtain ⟨z₂, rfl, -⟩ := head_ascii (by decide) hz₁
    have := @containsSub_of_append a z₂ "%00".toList
    rw [show a ++ byteChar percent :: byteChar 0x30 :: byteChar 0x30 :: z₂ = a ++ ("%00".toList ++ z₂) from rfl,
      this] at hescaped
    cases hescaped

/-! ## What validation accepts -/

theorem rejected_eq_false :
    rejected path = false ↔
      path.contains '\x00' = false ∧ containsSub path "%00".toList = false ∧ hasDotdotComponent path = false := by
  unfold rejected
  rw [Bool.or_eq_false_iff, Bool.or_eq_false_iff, and_assoc]

theorem validatePath_of_rejected (h : rejected path = true) :
    ∃ message, validatePath path = .error (.invalidConfig message) := by
  unfold validatePath validateNoNullBytes
  by_cases hnull : path.contains '\x00' = true
  · exact ⟨_, by rw [if_pos hnull]; rfl⟩
  · by_cases hescaped : containsSub path "%00".toList = true
    · exact ⟨_, by rw [if_neg hnull, if_pos hescaped]; rfl⟩
    · have hdotdot : hasDotdotComponent path = true := by
        unfold rejected at h
        rw [Bool.eq_false_iff.mpr hnull, Bool.eq_false_iff.mpr hescaped] at h
        exact h
      unfold validateNoPathTraversal
      exact ⟨_, by rw [if_neg hnull, if_neg hescaped, if_pos hdotdot]; rfl⟩

theorem validatePath_of_not_rejected (h : rejected path = false) :
    validatePath path = validateNoPathTraversal path := by
  obtain ⟨hnull, hescaped, -⟩ := rejected_eq_false.mp h
  unfold validatePath validateNoNullBytes
  rw [if_neg (by rw [hnull]; decide), if_neg (by rw [hescaped]; decide)]
  rfl

theorem sliceable_of_notMem (h : percent ∉ bytes) : sliceable bytes = true := by
  induction bytes with
  | nil => rfl
  | cons b bytes ih =>
    rw [List.mem_cons, not_or] at h
    rw [sliceable_cons_ne (Ne.symm h.1)]
    exact ih h.2

theorem percentDecode_of_notMem (h : percent ∉ bytes) : percentDecode bytes = bytes := by
  induction bytes with
  | nil => rfl
  | cons b bytes ih =>
    rw [List.mem_cons, not_or] at h
    rw [percentDecode_cons_ne (Ne.symm h.1), ih h.2]

theorem percent_notMem_encode (h : path.contains '%' = false) : percent ∉ encode path := by
  intro hmem
  have := mem_of_mem_encode (by decide) hmem
  rw [show byteChar percent = '%' from rfl, ← List.contains_iff_mem, h] at this
  cases this

theorem hasDotdot_encode (path : Text) : hasDotdot byteKind (encode path) = hasDotdot charKind path := by
  rw [hasDotdot_eq_scan, hasDotdot_eq_scan, scan_encode]

theorem hasDotdot_percentDecodeBytes {d : Text} (h : percentDecodeBytes bytes = .ok d) :
    hasDotdotComponent d = hasDotdot byteKind (percentDecode bytes) := by
  rw [hasDotdotComponent_eq, hasDotdot_eq_scan, hasDotdot_eq_scan, scan_percentDecodeBytes h]

/-- Validation in three parts: the literal checks, the slices of the decoder, and the
    standard decoding. -/
theorem validatePath_spec (path : Text) (h : rejected path = false) :
    (sliceable (encode path) = false → validatePath path = .error .panicked) ∧
      (sliceable (encode path) = true → hasDotdot byteKind (percentDecode (encode path)) = false →
        validatePath path = .ok ()) ∧
      (sliceable (encode path) = true → hasDotdot byteKind (percentDecode (encode path)) = true →
        ∃ message, validatePath path = .error (.invalidConfig message)) := by
  obtain ⟨-, -, hdotdot⟩ := rejected_eq_false.mp h
  rw [validatePath_of_not_rejected h]
  unfold validateNoPathTraversal
  rw [if_neg (by rw [hdotdot]; decide)]
  by_cases hp : path.contains '%' = true
  · rw [if_neg (by rw [hp]; decide)]
    obtain ⟨hdecodes, hpanics⟩ := percentDecodeBytes_total (encode path)
    unfold percentDecodePath
    refine ⟨fun hs => by rw [hpanics hs]; rfl, fun hs hclean => ?_, fun hs hdirty => ?_⟩
    · obtain ⟨d, hd⟩ := hdecodes hs
      have hnone : hasDotdotComponent d = false := (hasDotdot_percentDecodeBytes hd).trans hclean
      rw [hd]
      exact if_neg (by rw [hnone]; simp)
    · obtain ⟨d, hd⟩ := hdecodes hs
      have hsome : hasDotdotComponent d = true := (hasDotdot_percentDecodeBytes hd).trans hdirty
      -- the decoded text differs from the path, which has no `..`
      have hne : d ≠ path := fun heq => by
        rw [heq, hdotdot] at hsome
        cases hsome
      rw [hd]
      exact ⟨_, if_pos ⟨hne, hsome⟩⟩
  · have hp := Bool.eq_false_iff.mpr hp
    have hnone := percent_notMem_encode hp
    rw [if_pos (by rw [hp]; rfl), sliceable_of_notMem hnone, percentDecode_of_notMem hnone, hasDotdot_encode,
      ← hasDotdotComponent_eq, hdotdot]
    exact ⟨fun hs => (nomatch hs), fun _ _ => rfl, fun _ hs => (nomatch hs)⟩

theorem validatePath_panics_iff (path : Text) :
    validatePath path = .error .panicked ↔ rejected path = false ∧ sliceable (encode path) = false := by
  constructor
  · intro hpanic
    cases hr : rejected path with
    | true =>
      obtain ⟨message, hm⟩ := validatePath_of_rejected hr
      rw [hm] at hpanic
      cases hpanic
    | false =>
      refine ⟨rfl, ?_⟩
      obtain ⟨-, hok, herr⟩ := validatePath_spec path hr
      cases hs : sliceable (encode path) with
      | false => rfl
      | true =>
        cases hd : hasDotdot byteKind (percentDecode (encode path)) with
        | false => rw [hok hs hd] at hpanic; cases hpanic
        | true =>
          obtain ⟨message, hm⟩ := herr hs hd
          rw [hm] at hpanic
          cases hpanic
  · intro h
    exact (validatePath_spec path h.1).1 h.2

theorem validatePath_ok_iff (path : Text) :
    validatePath path = .ok () ↔ rejected path = false ∧ sliceable (encode path) = true ∧
      hasDotdot byteKind (percentDecode (encode path)) = false := by
  constructor
  · intro hok
    cases hr : rejected path with
    | true =>
      obtain ⟨message, hm⟩ := validatePath_of_rejected hr
      rw [hm] at hok
      cases hok
    | false =>
      obtain ⟨hpanic, -, herr⟩ := validatePath_spec path hr
      cases hs : sliceable (encode path) with
      | false => rw [hpanic hs] at hok; cases hok
      | true =>
        cases hd : hasDotdot byteKind (percentDecode (encode path)) with
        | false => exact ⟨rfl, rfl, rfl⟩
        | true =>
          obtain ⟨message, hm⟩ := herr hs hd
          rw [hm] at hok
          cases hok
  · intro h
    exact (validatePath_spec path h.1).2.1 h.2.1 h.2.2

theorem clean_of_validatePath (h : validatePath path = .ok ()) : Clean path := by
  obtain ⟨hr, -, hdecoded⟩ := (validatePath_ok_iff path).mp h
  obtain ⟨hnull, hescaped, hdotdot⟩ := rejected_eq_false.mp hr
  refine ⟨by rw [← hasDotdotComponent_eq, hdotdot], hdecoded, fun hmem => ?_, zero_notMem_percentDecode hnull hescaped⟩
  rw [← List.contains_iff_mem, hnull] at hmem
  cases hmem

/-! ## Joining -/

theorem location_append {base path : Text} {separator : Char} (h : charKind separator = .separator) :
    location (base ++ separator :: path) = location base ++ location path := by
  unfold location
  rw [components_append_cons h, List.filter_append]

theorem dotdot_notMem_location (h : hasDotdot charKind path = false) : ['.', '.'] ∉ location path := by
  intro hmem
  have := List.any_eq_false.mp h _ (List.mem_of_mem_filter hmem)
  exact this (by decide)

theorem charKind_of_isSeparator (h : isSeparator c = true) : charKind c = .separator := if_pos h

theorem location_of_endsInSeparator {base path : Text} (h : endsInSeparator base = true) :
    location (base ++ path) = location base ++ location path := by
  unfold endsInSeparator at h
  rw [Option.any_eq_true] at h
  obtain ⟨c, hlast, hc⟩ := h
  obtain ⟨start, rfl⟩ := List.getLast?_eq_some_iff.mp hlast
  have hc := charKind_of_isSeparator hc
  have hnil : location [] = [] := rfl
  rw [List.append_assoc, List.singleton_append, location_append hc, location_append hc, hnil, List.append_nil]

theorem under_joined {base path : Text} (h : Clean path) :
    Under base (if endsInSeparator base then base ++ path else base ++ '/' :: path) := by
  refine ⟨location path, ?_, dotdot_notMem_location h.dotdot⟩
  split
  · next hends => exact location_of_endsInSeparator hends
  · exact location_append (by decide)

theorem resolvePath_panics_iff (base path : Text) (isRelative : Bool) :
    resolvePath base path isRelative = .error .panicked ↔ validatePath path = .error .panicked := by
  unfold resolvePath joinPaths
  cases hv : validatePath path with
  | error failure =>
    have herror : ∀ f : Unit → Except Failure Text,
        ((Except.error failure : Except Failure Unit) >>= f) = .error .panicked ↔ failure = .panicked := by
      intro f
      exact ⟨fun h => Except.error.inj h, congrArg Except.error⟩
    rw [Except.error.injEq]
    cases isRelative <;> exact herror _
  | ok _ => cases isRelative <;> exact ⟨fun h => (nomatch h), fun h => (nomatch h)⟩

theorem resolvePath_ok {base path resolved : Text} {isRelative : Bool}
    (h : resolvePath base path isRelative = .ok resolved) :
    validatePath path = .ok () ∧ (isRelative = true →
      resolved = if endsInSeparator base then base ++ path else base ++ '/' :: path) := by
  unfold resolvePath joinPaths at h
  cases isRelative with
  | true =>
    obtain ⟨_, hv, hr⟩ := Checked.bind_eq_ok.mp h
    exact ⟨hv, fun _ => (Except.ok.inj hr).symm⟩
  | false =>
    obtain ⟨_, hv, -⟩ := Checked.bind_eq_ok.mp h
    exact ⟨hv, fun hf => nomatch hf⟩

/-- Resolving a path confines it exactly when a check that comes before the decoder
    refuses the path, or every slice the decoder makes ends between characters. -/
theorem confined_iff (base path : Text) (isRelative : Bool) :
    Confined base path isRelative ↔ rejected path = true ∨ sliceable (encode path) = true := by
  constructor
  · intro h
    by_contra hbad
    rw [not_or, Bool.not_eq_true, Bool.not_eq_true] at hbad
    have hpanics := (validatePath_panics_iff path).mpr hbad
    exact h.total ((resolvePath_panics_iff base path isRelative).mpr hpanics)
  · intro h
    have htotal : ∀ isRelative, resolvePath base path isRelative ≠ .error .panicked := by
      intro isRelative hpanics
      obtain ⟨hr, hs⟩ := (validatePath_panics_iff path).mp ((resolvePath_panics_iff ..).mp hpanics)
      rw [hr, hs] at h
      simp at h
    refine ⟨htotal isRelative, htotal true, fun resolved hok => ?_, fun resolved hok => ?_⟩
    · exact clean_of_validatePath (resolvePath_ok hok).1
    · obtain ⟨hv, hjoined⟩ := @resolvePath_ok base path resolved true hok
      rw [hjoined rfl]
      exact under_joined (clean_of_validatePath hv)

/-- A percent sign before a character of three bytes. -/
theorem resolvePath_panics :
    resolvePath "/data/".toList "%€".toList true = .error .panicked ∧
      ¬ Confined "/data/".toList "%€".toList true := by
  have hpanics : resolvePath "/data/".toList "%€".toList true = .error .panicked := by decide +kernel
  exact ⟨hpanics, fun h => h.total hpanics⟩

example : resolvePath "/data/".toList "a/%2E./b".toList true =
    .error (.invalidConfig "Path traversal detected: URL-encoded '..': a/%2E./b".toList) := by decide +kernel

end DuckLake.PathResolver
