/-
# URL-safe base64 without padding

Three bytes are four letters, and the one or two bytes left over are two or three.
Reading skips line breaks and takes the bits left over in a last letter for nothing, so
several texts may read the same; what a byte string is written as reads back as it.
-/

import SeverinoHQ.Math.Bytes
import Mathlib.Data.List.GetD

namespace SeverinoHQ.Math.Base64

/-- The letters, by their values. -/
def alphabet : List Char :=
  "ABCDEFGHIJKLMNOPQRSTUVWXYZabcdefghijklmnopqrstuvwxyz0123456789-_".toList

def letter (value : Nat) : Char := alphabet.getD value 'A'

def value (char : Char) : Option Nat :=
  if char ∈ alphabet then some (alphabet.idxOf char) else none

/-- `base64.urlsafe_b64encode(...).rstrip(b"=")`. -/
@[grind =]
def encode : Bytes → List Char
  | first :: second :: third :: rest =>
      letter (first.toNat / 4) :: letter (first.toNat % 4 * 16 + second.toNat / 16) ::
        letter (second.toNat % 16 * 4 + third.toNat / 64) :: letter (third.toNat % 64) :: encode rest
  | [first, second] =>
      [letter (first.toNat / 4), letter (first.toNat % 4 * 16 + second.toNat / 16),
        letter (second.toNat % 16 * 4)]
  | [first] => [letter (first.toNat / 4), letter (first.toNat % 4 * 16)]
  | [] => []

/-- The bytes of four, three or two letters. -/
@[grind =]
def decodeLetters : List Char → Option Bytes
  | first :: second :: third :: fourth :: rest => do
      let a ← value first
      let b ← value second
      let c ← value third
      let d ← value fourth
      let bytes ← decodeLetters rest
      return UInt8.ofNat (a * 4 + b / 16) :: UInt8.ofNat (b % 16 * 16 + c / 4) ::
        UInt8.ofNat (c % 4 * 64 + d) :: bytes
  | [first, second, third] => do
      let a ← value first
      let b ← value second
      let c ← value third
      return [UInt8.ofNat (a * 4 + b / 16), UInt8.ofNat (b % 16 * 16 + c / 4)]
  | [first, second] => do
      let a ← value first
      let b ← value second
      return [UInt8.ofNat (a * 4 + b / 16)]
  | [_] => none
  | [] => some []

/-- `base64.RawURLEncoding.DecodeString`. -/
def decode (text : List Char) : Option Bytes :=
  decodeLetters (text.filter fun char => char != '\n' && char != '\r')

theorem alphabet_eq : alphabet =
    ['A', 'B', 'C', 'D', 'E', 'F', 'G', 'H', 'I', 'J', 'K', 'L', 'M', 'N', 'O', 'P', 'Q', 'R', 'S',
      'T', 'U', 'V', 'W', 'X', 'Y', 'Z', 'a', 'b', 'c', 'd', 'e', 'f', 'g', 'h', 'i', 'j', 'k', 'l',
      'm', 'n', 'o', 'p', 'q', 'r', 's', 't', 'u', 'v', 'w', 'x', 'y', 'z', '0', '1', '2', '3', '4',
      '5', '6', '7', '8', '9', '-', '_'] :=
  String.toList_ofList

theorem nodup_alphabet : alphabet.Nodup := by
  have hcodes : (alphabet.map Char.toNat).Nodup := by
    rw [alphabet_eq]
    decide
  exact List.Pairwise.of_map Char.toNat (fun first second => mt (congrArg Char.toNat)) hcodes

theorem length_alphabet : alphabet.length = 64 := congrArg List.length alphabet_eq

theorem value_letter {number : Nat} (h : number < 64) : value (letter number) = some number := by
  have hlength : number < alphabet.length := length_alphabet ▸ h
  have hletter : letter number = alphabet[number] := List.getD_eq_getElem _ _ hlength
  rw [value, hletter, if_pos (List.getElem_mem hlength),
    nodup_alphabet.idxOf_getElem number hlength]

theorem letter_mem (number : Nat) : letter number ∈ alphabet := by
  unfold letter
  by_cases h : number < alphabet.length
  · rw [List.getD_eq_getElem _ _ h]
    exact List.getElem_mem h
  · rw [List.getD_eq_default _ _ (Nat.le_of_not_lt h), alphabet_eq]
    exact List.mem_cons_self

/-- A text written is of letters. -/
theorem mem_encode {bytes : Bytes} {char : Char} (h : char ∈ encode bytes) : char ∈ alphabet := by
  induction bytes using encode.induct with
  | case1 first second third rest ih =>
      simp only [encode, List.mem_cons] at h
      rcases h with rfl | rfl | rfl | rfl | h
      · exact letter_mem _
      · exact letter_mem _
      · exact letter_mem _
      · exact letter_mem _
      · exact ih h
  | case2 first second =>
      simp only [encode, List.mem_cons, List.not_mem_nil, or_false] at h
      rcases h with rfl | rfl | rfl
      · exact letter_mem _
      · exact letter_mem _
      · exact letter_mem _
  | case3 first =>
      simp only [encode, List.mem_cons, List.not_mem_nil, or_false] at h
      rcases h with rfl | rfl
      · exact letter_mem _
      · exact letter_mem _
  | case4 => simp [encode] at h

theorem byte_of_parts (byte : UInt8) {number : Nat} (h : number = byte.toNat) :
    UInt8.ofNat number = byte := by
  rw [h, UInt8.ofNat_toNat]

theorem decodeLetters_encode (bytes : Bytes) : decodeLetters (encode bytes) = some bytes := by
  induction bytes using encode.induct with
  | case1 first second third rest ih =>
      have hfirst := first.toNat_lt
      have hsecond := second.toNat_lt
      have hthird := third.toNat_lt
      rw [encode, decodeLetters, value_letter (by omega), value_letter (by omega),
        value_letter (by omega), value_letter (by omega), ih]
      show some _ = some _
      rw [byte_of_parts first (by omega), byte_of_parts second (by omega),
        byte_of_parts third (by omega)]
  | case2 first second =>
      have hfirst := first.toNat_lt
      have hsecond := second.toNat_lt
      rw [encode, decodeLetters, value_letter (by omega), value_letter (by omega),
        value_letter (by omega)]
      show some _ = some _
      rw [byte_of_parts first (by omega), byte_of_parts second (by omega)]
  | case3 first =>
      have hfirst := first.toNat_lt
      rw [encode, decodeLetters, value_letter (by omega), value_letter (by omega)]
      show some _ = some _
      rw [byte_of_parts first (by omega)]
  | case4 => rfl

/-- What is written reads back. -/
theorem decode_encode (bytes : Bytes) : decode (encode bytes) = some bytes := by
  have hletters : ∀ char ∈ alphabet, (char != '\n' && char != '\r') = true := by
    rw [alphabet_eq, ← List.all_eq_true]
    decide
  have hkept : (encode bytes).filter (fun char => char != '\n' && char != '\r') = encode bytes :=
    List.filter_eq_self.mpr fun char hchar => hletters char (mem_encode hchar)
  rw [decode, hkept, decodeLetters_encode]

end SeverinoHQ.Math.Base64
