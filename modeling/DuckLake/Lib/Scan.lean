import Mathlib.Data.List.Basic
import Mathlib.Tactic.Common

/- Scanning bytes left to right: a scanner takes the bytes that remain and leaves the
   bytes after what it read. `block` reads `[item, item, …]` between an opening and a
   closing byte; a text that puts rendered items there is read item by item
   (`block_join`), where each item ends at a comma or at the closing byte. -/

namespace Scan

variable {α β : Type}

/-- `u8::is_ascii_whitespace`. -/
def isSpace (b : UInt8) : Bool := b == 0x20 || b == 0x09 || b == 0x0a || b == 0x0c || b == 0x0d

def skipWhitespace (s : List UInt8) : List UInt8 := s.dropWhile isSpace

def consume (b : UInt8) : List UInt8 → Option (List UInt8)
  | [] => none
  | c :: s => if c = b then some s else none

def expect (b : UInt8) (s : List UInt8) : Option (List UInt8) := consume b (skipWhitespace s)

/-- The bytes before the first of `terminators`, and the bytes from there on. -/
def takeUntil (terminators s : List UInt8) : List UInt8 × List UInt8 :=
  (s.takeWhile fun b => !terminators.contains b, s.dropWhile fun b => !terminators.contains b)

def comma : UInt8 := 0x2c

/-- Items with commas between them, up to the closing byte. -/
def items (item : List UInt8 → Option (α × List UInt8)) (close : UInt8) :
    Nat → List UInt8 → Option (List α × List UInt8)
  | 0, _ => none
  | fuel + 1, s =>
    (item s).bind fun r =>
      match consume close (skipWhitespace r.2) with
      | some s => some ([r.1], s)
      | none => (expect comma r.2).bind fun s => (items item close fuel s).map fun rs => (r.1 :: rs.1, rs.2)

/-- A block's items. Each takes a byte of the rest at least, its comma or the closing
byte, so that there are rounds enough for any text. -/
def block (item : List UInt8 → Option (α × List UInt8)) (opening close : UInt8) (s : List UInt8) :
    Option (List α × List UInt8) :=
  (expect opening s).bind fun s =>
    match consume close (skipWhitespace s) with
    | some s => some ([], s)
    | none => items item close ((skipWhitespace s).length + 1) (skipWhitespace s)

/-! ## One byte -/

variable {b : UInt8}

theorem skipWhitespace_cons (hb : isSpace b = false) (s : List UInt8) :
    skipWhitespace (b :: s) = b :: s := by
  rw [skipWhitespace, List.dropWhile_cons, hb]
  rfl

theorem consume_self (b : UInt8) (s : List UInt8) : consume b (b :: s) = some s := if_pos rfl

theorem consume_ne {b c : UInt8} (h : c ≠ b) (s : List UInt8) : consume b (c :: s) = none := if_neg h

theorem expect_self (hb : isSpace b = false) (s : List UInt8) : expect b (b :: s) = some s := by
  rw [expect, skipWhitespace_cons hb, consume_self]

/-! ## Rendered items -/

/-- The texts of items with `, ` between them. -/
def join (pieces : List (List UInt8)) : List UInt8 := [comma, 0x20].intercalate pieces

/-- What follows an item of a block. -/
def Follows (terminators rest : List UInt8) : Prop := ∀ b s, rest = b :: s → b ∈ terminators

theorem follows_nil (terminators : List UInt8) : Follows terminators [] := fun _ _ h => nomatch h

theorem follows_cons {terminators : List UInt8} (hb : b ∈ terminators) (s : List UInt8) :
    Follows terminators (b :: s) := by
  intro c t h
  rw [← (List.cons.inj h).1]
  exact hb

theorem takeUntil_append {terminators token rest : List UInt8} (htoken : ∀ b ∈ token, b ∉ terminators)
    (hrest : Follows terminators rest) : takeUntil terminators (token ++ rest) = (token, rest) := by
  have hstop : rest.takeWhile (fun b => !terminators.contains b) = [] ∧
      rest.dropWhile (fun b => !terminators.contains b) = rest := by
    cases rest with
    | nil => exact ⟨rfl, rfl⟩
    | cons b s => simp [hrest b s rfl]
  have hall : ∀ b ∈ token, (!terminators.contains b) = true := by simpa using htoken
  rw [takeUntil, List.takeWhile_append_of_pos hall, List.dropWhile_append_of_pos hall,
    hstop.1, hstop.2, List.append_nil]

/-- A text that starts with a byte that is neither space nor the closing byte. -/
def Starts (close : UInt8) (s : List UInt8) : Prop := ∃ b t, s = b :: t ∧ isSpace b = false ∧ b ≠ close

section Block
variable {γ : Type} {item : List UInt8 → Option (α × List UInt8)} {close : UInt8} {text : γ → List UInt8}
  {read : γ → Option α}

/-- A scanner that reads the text of each of `xs` as `read` says, wherever the text ends
at a comma or at the closing byte, reads them all. -/
theorem items_join (hspace : ∀ s, item (0x20 :: s) = item s) (hclose : isSpace close = false ∧ close ≠ comma)
    (rest : List UInt8) :
    ∀ (xs : List γ), xs ≠ [] →
      (∀ x ∈ xs, ∀ rest, Follows [comma, close] rest → item (text x ++ rest) = (read x).map (·, rest)) →
      ∀ fuel, xs.length ≤ fuel →
        items item close fuel (join (xs.map text) ++ close :: rest) = (xs.mapM read).map (·, rest)
  | [], hne, _, _, _ => absurd rfl hne
  | x :: xs, _, hitem, fuel, hfuel => by
    obtain ⟨fuel, rfl⟩ : ∃ k, fuel = k + 1 := ⟨fuel - 1, by rw [List.length_cons] at hfuel; omega⟩
    rw [items, List.mapM_cons]
    cases xs with
    | nil =>
      have hx := hitem x (by simp) (close :: rest) (follows_cons (by simp) rest)
      rw [join, List.map_singleton, List.intercalate_singleton, hx]
      cases read x with
      | none => rfl
      | some a => simp [skipWhitespace_cons hclose.1, consume_self]
    | cons y xs =>
      have hrest := items_join hspace hclose rest (y :: xs) (by simp) (fun z hz => hitem z (List.mem_cons_of_mem _ hz))
        fuel (by simpa using hfuel)
      have hx := hitem x (by simp) (comma :: 0x20 :: (join ((y :: xs).map text) ++ close :: rest))
        (follows_cons (by simp) _)
      have hjoin : join ((x :: y :: xs).map text) ++ close :: rest =
          text x ++ comma :: 0x20 :: (join ((y :: xs).map text) ++ close :: rest) := by
        simp [join]
      have hnext : items item close fuel (0x20 :: (join ((y :: xs).map text) ++ close :: rest)) =
          items item close fuel (join ((y :: xs).map text) ++ close :: rest) := by
        cases fuel with
        | zero => rfl
        | succ fuel => rw [items, items, hspace]
      rw [hjoin, hx]
      cases read x with
      | none => rfl
      | some a =>
        simp only [Option.map_some, Option.bind_some, skipWhitespace_cons (show isSpace comma = false by decide),
          consume_ne hclose.2.symm, expect_self (show isSpace comma = false by decide), hnext, hrest]
        cases (y :: xs).mapM read <;> rfl

theorem length_le_join : ∀ (pieces : List (List UInt8)), (∀ p ∈ pieces, p ≠ []) → pieces.length ≤ (join pieces).length
  | [], _ => Nat.zero_le _
  | [p], h => by
    rw [join, List.intercalate_singleton]
    exact List.length_pos_iff.mpr (h p (by simp))
  | p :: q :: pieces, h => by
    have hrest := length_le_join (q :: pieces) (fun r hr => h r (List.mem_cons_of_mem _ hr))
    have hjoin : join (p :: q :: pieces) = p ++ comma :: 0x20 :: join (q :: pieces) := by simp [join]
    simp only [hjoin, List.length_append, List.length_cons] at hrest ⊢
    omega

theorem block_join (hspace : ∀ s, item (0x20 :: s) = item s) {opening : UInt8} (hopening : isSpace opening = false)
    (hclose : isSpace close = false ∧ close ≠ comma) {xs : List γ} (hstarts : ∀ x ∈ xs, Starts close (text x))
    (hitem : ∀ x ∈ xs, ∀ rest, Follows [comma, close] rest → item (text x ++ rest) = (read x).map (·, rest))
    (rest : List UInt8) :
    block item opening close (opening :: (join (xs.map text) ++ close :: rest)) = (xs.mapM read).map (·, rest) := by
  rw [block, expect_self hopening, Option.bind_some]
  cases xs with
  | nil =>
    have hnil : join (([] : List γ).map text) ++ close :: rest = close :: rest := rfl
    rw [hnil, skipWhitespace_cons hclose.1, consume_self]
    rfl
  | cons x xs =>
    obtain ⟨b, t, hx, hb, hne⟩ := hstarts x (by simp)
    obtain ⟨t', hcons⟩ : ∃ t', join ((x :: xs).map text) ++ close :: rest = b :: t' := by
      cases xs with
      | nil => exact ⟨_, by simp [join, hx]; rfl⟩
      | cons y xs => exact ⟨_, by simp [join, hx]; rfl⟩
    have hskip : skipWhitespace (join ((x :: xs).map text) ++ close :: rest) = join ((x :: xs).map text) ++
      close :: rest := by
      rw [hcons, skipWhitespace_cons hb]
    have hconsume : consume close (join ((x :: xs).map text) ++ close :: rest) = none := by
      rw [hcons, consume_ne hne]
    rw [hskip, hconsume]
    refine items_join hspace hclose rest (x :: xs) (by simp) hitem _ ?_
    have hle := length_le_join ((x :: xs).map text) ?_
    · rw [List.length_map] at hle
      rw [List.length_append]
      omega
    · intro p hp
      obtain ⟨z, hz, rfl⟩ := List.mem_map.mp hp
      obtain ⟨c, u, hu, -, -⟩ := hstarts z hz
      rw [hu]
      exact List.cons_ne_nil _ _

end Block

end Scan
