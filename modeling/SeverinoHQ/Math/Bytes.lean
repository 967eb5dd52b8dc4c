/-
# Byte strings

Texts as the bytes a program reads and writes, cut and split where it cuts and
splits them. A separator is found from the left, and none is found inside
another. White space is read as UTF-8: a space's first byte is never a later
byte of another character, so a text that is not UTF-8 is read the same way.
-/

import Mathlib.Data.List.DropRight

namespace SeverinoHQ.Math

/-- A byte string. -/
abbrev Bytes := List UInt8

namespace Bytes

/-- The bytes of a text of ASCII characters. -/
def ascii (text : String) : Bytes := text.toList.map fun char => UInt8.ofNat char.toNat

/-- `[A-Za-z0-9]`. -/
def isAlphanumeric (byte : UInt8) : Bool :=
  (65 ≤ byte ∧ byte ≤ 90) ∨ (97 ≤ byte ∧ byte ≤ 122) ∨ (48 ≤ byte ∧ byte ≤ 57)

/-- `[A-Za-z0-9_.-]`. -/
def isNameByte (byte : UInt8) : Bool :=
  isAlphanumeric byte || byte = 95 || byte = 46 || byte = 45

/-- The bytes before and after the first separator, and whether there is one. -/
def cut (separator : UInt8) (text : Bytes) : Bytes × Bytes × Bool :=
  match text.dropWhile (· != separator) with
  | [] => (text, [], false)
  | _ :: rest => (text.takeWhile (· != separator), rest, true)

/-- What follows a text that begins another. -/
def cutPrefix (text start : Bytes) : Option Bytes :=
  if start.isPrefixOf text then some (text.drop start.length) else none

/-- A text without the bytes of a set at its ends. -/
def trim (cutset : Bytes) (text : Bytes) : Bytes :=
  (text.dropWhile (cutset.contains ·)).rdropWhile (cutset.contains ·)

/-- The pieces of a text between separators. -/
def splitSeq (separator text : Bytes) : List Bytes :=
  go [] 0 text
where
  go (piece : Bytes) : Nat → Bytes → List Bytes
    | _, [] => [piece]
    | skip + 1, _ :: rest => go piece skip rest
    | 0, byte :: rest =>
        if separator.isPrefixOf (byte :: rest) then piece :: go [] (separator.length - 1) rest
        else go (piece ++ [byte]) 0 rest

/-- How many bytes long the white space is that a text begins with, or none. -/
def spaceWidth : Bytes → Nat
  | 0xC2 :: 0x85 :: _ | 0xC2 :: 0xA0 :: _ => 2
  | 0xE1 :: 0x9A :: 0x80 :: _ | 0xE2 :: 0x81 :: 0x9F :: _ | 0xE3 :: 0x80 :: 0x80 :: _ => 3
  | 0xE2 :: 0x80 :: last :: _ =>
      if 0x80 ≤ last ∧ last ≤ 0x8A ∨ last = 0xA8 ∨ last = 0xA9 ∨ last = 0xAF then 3 else 0
  | byte :: _ => if 9 ≤ byte ∧ byte ≤ 13 ∨ byte = 32 then 1 else 0
  | [] => 0

/-- The words of a text, between runs of white space. -/
def fields (text : Bytes) : List Bytes :=
  (go [] 0 text).filter (· != [])
where
  go (word : Bytes) : Nat → Bytes → List Bytes
    | _, [] => [word]
    | skip + 1, _ :: rest => go word skip rest
    | 0, byte :: rest =>
        match spaceWidth (byte :: rest) with
        | 0 => go (word ++ [byte]) 0 rest
        | width + 1 => word :: go [] width rest

/-- A text without the white space at its ends: what it keeps runs from its first
word's first byte to its last word's last. -/
def trimSpace (text : Bytes) : Bytes :=
  trimEnd (trimStart 0 text)
where
  trimStart : Nat → Bytes → Bytes
    | _, [] => []
    | skip + 1, _ :: rest => trimStart skip rest
    | 0, byte :: rest =>
        match spaceWidth (byte :: rest) with
        | 0 => byte :: rest
        | width + 1 => trimStart width rest
  /-- Drop the rest where nothing but white space is left. -/
  trimEnd : Bytes → Bytes
    | [] => []
    | byte :: rest => if trimStart 0 (byte :: rest) = [] then [] else byte :: trimEnd rest

end Bytes

end SeverinoHQ.Math
