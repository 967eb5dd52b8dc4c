/-
# Go's string functions

What the modelled Go code uses of package strings, over a string's characters.
-/

import Mathlib.Algebra.Group.Nat.Defs
import Mathlib.Data.List.Basic
import Mathlib.Data.List.Infix

namespace SeverinoHQ.Math.Text

/-- `unicode.IsSpace`. -/
def isSpace (c : Char) : Bool :=
  c.val ∈ ([0x20, 0x85, 0xa0, 0x1680, 0x2028, 0x2029, 0x202f, 0x205f, 0x3000] : List UInt32) ||
    0x9 ≤ c.val && c.val ≤ 0xd || 0x2000 ≤ c.val && c.val ≤ 0x200a

/-- `strings.TrimSpace`. -/
def trimSpace (text : String) : String :=
  String.ofList (((text.toList.dropWhile isSpace).reverse.dropWhile isSpace).reverse)

/-- `strings.Contains`. -/
def contains (text part : String) : Bool := decide (part.toList <:+: text.toList)

/-- `strings.ContainsAny`. -/
def containsAny (text : String) (letters : List Char) : Bool := text.toList.any (· ∈ letters)

/-- `strings.HasPrefix`. -/
def hasPrefix (text part : String) : Bool := part.toList.isPrefixOf text.toList

/-- `strings.HasSuffix`. -/
def hasSuffix (text part : String) : Bool := part.toList.isSuffixOf text.toList

/-- `strings.Split` on one character. -/
def split (separator : Char) : List Char → List (List Char)
  | [] => [[]]
  | c :: rest =>
      if c = separator then [] :: split separator rest
      else
        match split separator rest with
        | [] => [[c]]
        | first :: others => (c :: first) :: others

/-- `strings.Cut` on one character: what stands before and after the first one. -/
def cut (separator : Char) (letters : List Char) : Option (List Char × List Char) :=
  match letters.dropWhile (· != separator) with
  | [] => none
  | _ :: rest => some (letters.takeWhile (· != separator), rest)

theorem cut_append {separator : Char} {first : List Char} (h : separator ∉ first)
    (rest : List Char) : cut separator (first ++ separator :: rest) = some (first, rest) := by
  have hall : ∀ char ∈ first, (char != separator) = true := by
    intro char hchar
    rw [bne_iff_ne]
    rintro rfl
    exact h hchar
  rw [cut, List.dropWhile_append_of_pos hall, List.takeWhile_append_of_pos hall]
  simp

/-- The number decimal digits say. -/
def digitsValue (digits : List Char) : Nat :=
  digits.foldl (fun value digit => value * 10 + (digit.toNat - 48)) 0

/-- `strconv.Atoi`, on a machine of 64 bits. -/
def atoi (text : String) : Option Int :=
  let digits (letters : List Char) : Option Nat :=
    if letters ≠ [] ∧ letters.all fun c => '0' ≤ c && c ≤ '9' then some (digitsValue letters) else none
  match text.toList with
  | '-' :: letters => (digits letters).bind fun value => if value ≤ 2 ^ 63 then some (-value) else none
  | '+' :: letters | letters =>
      (digits letters).bind fun value => if value < 2 ^ 63 then some value else none

end SeverinoHQ.Math.Text
