/-
# Numbers written out

Python's `int` of a text: decimal digits of any script with single underscores between them, a
sign before and spaces around. Which letters are digits is read from Unicode's tables, with what
those say of ASCII. A text of more digits than the limit is no number.
-/

import SeverinoHQ.Math.Letters

namespace SeverinoHQ.Math.Numeral

/-- Unicode's decimal digits. -/
structure Decimals where
  digit : Char → Option Nat
  digit_ascii : ∀ c, c.toNat < 128 →
    digit c = if 48 ≤ c.toNat ∧ c.toNat ≤ 57 then some (c.toNat - 48) else none

/-- A space that may stand around a number: in ASCII it is one of C's. -/
def isBlank (c : Char) : Bool :=
  if c.toNat < 128 then (9 ≤ c.toNat && c.toNat ≤ 13) || c.toNat == 32 else Letters.isSpace c

/-- A text without the blanks around it. -/
def trim (text : List Char) : List Char :=
  ((text.dropWhile isBlank).reverse.dropWhile isBlank).reverse

/-- The digits a number may have: `sys.get_int_max_str_digits()`. -/
def mostDigits : Nat := 4300

section Reading

variable (decimals : Decimals)

/-- Digits, with at most an underscore between two. -/
def digits : List Char → Option (List Nat)
  | [] => none
  | c :: rest =>
      match decimals.digit c with
      | none => none
      | some value =>
          match rest with
          | [] => some [value]
          | '_' :: more => (digits more).map (value :: ·)
          | next :: more => (digits (next :: more)).map (value :: ·)

/-- A number without a sign. -/
def natural (text : List Char) : Option Nat :=
  match digits decimals text with
  | none => none
  | some values =>
      if values.length ≤ mostDigits then some (values.foldl (fun sum value => 10 * sum + value) 0)
      else none

/-- `int`. -/
def int (text : List Char) : Option Int :=
  match trim text with
  | '-' :: rest => (natural decimals rest).map fun number => -Int.ofNat number
  | '+' :: rest => (natural decimals rest).map Int.ofNat
  | rest => (natural decimals rest).map Int.ofNat

variable {decimals}

theorem mem_of_mem_trim {c : Char} {text : List Char} (h : c ∈ trim text) : c ∈ text := by
  have hend := List.dropWhile_subset _ (List.mem_reverse.mp h)
  exact List.dropWhile_subset _ (List.mem_reverse.mp hend)

/-- A number without a minus is not negative. -/
theorem int_nonneg {text : List Char} {number : Int} (hminus : '-' ∉ text)
    (h : int decimals text = some number) : 0 ≤ number := by
  unfold int at h
  split at h
  · rename_i rest htrim
    have hmem : '-' ∈ trim text := by
      rw [htrim]
      exact List.mem_cons_self
    exact absurd (mem_of_mem_trim hmem) hminus
  all_goals
    obtain ⟨value, -, rfl⟩ := Option.map_eq_some_iff.mp h
    exact Int.natCast_nonneg value

end Reading

/-- The digits of ASCII alone. -/
def asciiDecimals : Decimals where
  digit c := if 48 ≤ c.toNat ∧ c.toNat ≤ 57 then some (c.toNat - 48) else none
  digit_ascii _ _ := rfl

example : int asciiDecimals " +1_000 ".toList = some 1000 := by decide


end SeverinoHQ.Math.Numeral
