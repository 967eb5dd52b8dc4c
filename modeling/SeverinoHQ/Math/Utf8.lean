/-
# The characters of a byte string

A byte string is read as UTF-8 from the left: a character where one is encoded, and the
replacement character for a byte where none is. Every byte string so reads as characters, and
what characters are written as reads back as them, whatever stands before it.
-/

import Mathlib.Data.List.Infix
import SeverinoHQ.Math.Bytes

namespace SeverinoHQ.Math.Utf8

/-- `utf8.RuneError`: what a byte of no character reads as. -/
def runeError : Char := '\uFFFD'

/-- The bytes of a character. -/
def encodeRune (rune : Char) : Bytes := String.utf8EncodeChar rune

/-- `string(runes)`. -/
def encode (runes : List Char) : Bytes := runes.flatMap encodeRune

/-- The character a text begins with, where it begins with one. -/
def first? (text : Bytes) : Option Char := text.toByteArray.utf8DecodeChar? 0

/-- `[]rune(text)`. -/
def runes (text : Bytes) : List Char :=
  go 0 text
where
  go : Nat → Bytes → List Char
    | _, [] => []
    | skip + 1, _ :: rest => go skip rest
    | 0, byte :: rest =>
        match first? (byte :: rest) with
        | some rune => rune :: go (rune.utf8Size - 1) rest
        | none => runeError :: go 0 rest

/-! ## One character -/

theorem length_encodeRune (rune : Char) : (encodeRune rune).length = rune.utf8Size :=
  String.length_utf8EncodeChar rune

theorem encodeRune_ne_nil (rune : Char) : encodeRune rune ≠ [] := by
  intro hnil
  have hlength := length_encodeRune rune
  rw [hnil, List.length_nil] at hlength
  exact absurd hlength.symm (Nat.ne_of_gt rune.utf8Size_pos)

/-- A text begins with a character where it begins with its bytes. -/
theorem first?_eq_some_iff {text : Bytes} {rune : Char} :
    first? text = some rune ↔ encodeRune rune <+: text := by
  constructor
  · intro h
    have hbytes := String.toByteArray_utf8EncodeChar_of_utf8DecodeChar?_eq_some h
    have hlist := congrArg (fun bytes : ByteArray => bytes.data.toList) hbytes
    simp only [List.data_toByteArray, ByteArray.data_extract, Array.toList_extract] at hlist
    rw [encodeRune, hlist]
    simpa using List.take_prefix _ _
  · rintro ⟨rest, rfl⟩
    rw [first?, List.toByteArray_append]
    exact ByteArray.utf8DecodeChar?_utf8EncodeChar_append

/-- No byte of a character but its first begins one. -/
theorem not_firstByte_of_split {rune : Char} {before after : Bytes} {byte : UInt8}
    (h : encodeRune rune = before ++ byte :: after) (hbefore : before ≠ []) :
    ¬byte.IsUTF8FirstByte := by
  have hplace : before.length < (String.utf8EncodeChar rune).length := by
    rw [show String.utf8EncodeChar rune = before ++ byte :: after from h, List.length_append,
      List.length_cons]
    omega
  have hbyte : (String.utf8EncodeChar rune)[before.length] = byte := by
    have hget : (encodeRune rune)[before.length]? = some byte := by simp [h]
    exact (List.getElem?_eq_some_iff.mp hget).2
  rw [← hbyte, UInt8.isUTF8FirstByte_getElem_utf8EncodeChar, List.length_eq_zero_iff]
  exact hbefore

theorem firstByte_of_encodeRune {rune : Char} {byte : UInt8} {rest : Bytes}
    (h : encodeRune rune = byte :: rest) : byte.IsUTF8FirstByte := by
  have hplace : 0 < (String.utf8EncodeChar rune).length := by
    rw [String.length_utf8EncodeChar]
    exact rune.utf8Size_pos
  have hbyte : (String.utf8EncodeChar rune)[0] = byte := by
    have hget : (encodeRune rune)[0]? = some byte := by simp [h]
    exact (List.getElem?_eq_some_iff.mp hget).2
  rw [← hbyte, UInt8.isUTF8FirstByte_getElem_utf8EncodeChar]

/-- Characters written after a text do not change what it begins with. -/
theorem first?_append {text : Bytes} (hne : text ≠ []) (shown : List Char) :
    first? (text ++ encode shown) = first? text := by
  apply Option.ext
  intro rune
  rw [first?_eq_some_iff, first?_eq_some_iff]
  constructor
  · intro hstarts
    rcases List.prefix_or_prefix_of_prefix hstarts (List.prefix_append text _) with h | ⟨more, h⟩
    · exact h
    · cases more with
      | nil => exact ⟨[], by rw [List.append_nil, ← h, List.append_nil]⟩
      | cons byte more =>
          -- the bytes it would take of those written are none's first
          rw [← h, List.prefix_append_right_inj] at hstarts
          obtain ⟨rest, hrest⟩ := hstarts
          cases shown with
          | nil => simp [encode] at hrest
          | cons next shown =>
              obtain ⟨first, tail, hnext⟩ := List.exists_cons_of_ne_nil (encodeRune_ne_nil next)
              rw [encode, List.flatMap_cons, hnext, List.cons_append, List.cons_append,
                List.cons.injEq] at hrest
              exact absurd (hrest.1 ▸ firstByte_of_encodeRune hnext)
                (not_firstByte_of_split h.symm hne)
  · intro hstarts
    exact hstarts.trans (List.prefix_append text _)

/-! ## All of them -/

theorem go_append (passed text : Bytes) : runes.go passed.length (passed ++ text) = runes text := by
  induction passed with
  | nil => rfl
  | cons byte passed ih => exact ih

@[simp]
theorem runes_nil : runes [] = [] := rfl

/-- A character a text begins with is its first, and the rest is read after its bytes. -/
theorem runes_encodeRune_append (rune : Char) (text : Bytes) :
    runes (encodeRune rune ++ text) = rune :: runes text := by
  obtain ⟨byte, rest, hbytes⟩ := List.exists_cons_of_ne_nil (encodeRune_ne_nil rune)
  have hfirst : first? (byte :: (rest ++ text)) = some rune :=
    first?_eq_some_iff.mpr ⟨text, by rw [hbytes]; rfl⟩
  have hlength : rune.utf8Size - 1 = rest.length := by
    rw [← length_encodeRune, hbytes, List.length_cons, Nat.add_sub_cancel]
  rw [hbytes, List.cons_append, runes, runes.go, hfirst]
  show rune :: runes.go (rune.utf8Size - 1) (rest ++ text) = _
  rw [hlength, go_append]

/-- A byte that begins no character is one by itself. -/
theorem runes_cons_of_none {byte : UInt8} {rest : Bytes} (h : first? (byte :: rest) = none) :
    runes (byte :: rest) = runeError :: runes rest := by
  rw [runes, runes.go, h]
  rfl

/-- A text is a character's bytes and a text, or a byte of none and a text. -/
theorem cases_text {P : Bytes → Prop} (nil : P [])
    (rune : ∀ rune text, P text → P (encodeRune rune ++ text))
    (none : ∀ byte text, first? (byte :: text) = .none → P text → P (byte :: text)) :
    ∀ text, P text := by
  intro text
  induction hlength : text.length using Nat.strongRecOn generalizing text with
  | ind length ih =>
      subst hlength
      cases text with
      | nil => exact nil
      | cons byte rest =>
          cases hfirst : first? (byte :: rest) with
          | none => exact none byte rest hfirst (ih _ (by simp) rest rfl)
          | some first =>
              obtain ⟨tail, htail⟩ := first?_eq_some_iff.mp hfirst
              have hpos := List.length_pos_of_ne_nil (encodeRune_ne_nil first)
              rw [← htail]
              apply rune
              apply ih _ _ tail rfl
              rw [← htail, List.length_append]
              omega

@[simp]
theorem encode_nil : encode [] = [] := rfl

@[simp]
theorem encode_cons (rune : Char) (shown : List Char) :
    encode (rune :: shown) = encodeRune rune ++ encode shown := rfl

/-- What characters are written as, reads as them. -/
@[simp]
theorem runes_encode (shown : List Char) : runes (encode shown) = shown := by
  induction shown with
  | nil => rfl
  | cons rune shown ih => rw [encode_cons, runes_encodeRune_append, ih]

/-- Characters written after any text read as themselves. -/
theorem runes_append_encode (text : Bytes) (shown : List Char) :
    runes (text ++ encode shown) = runes text ++ shown := by
  induction text using cases_text with
  | nil => exact runes_encode shown
  | rune rune text ih =>
      rw [List.append_assoc, runes_encodeRune_append, runes_encodeRune_append, ih, List.cons_append]
  | none byte text hnone ih =>
      have hfirst := first?_append (List.cons_ne_nil byte text) shown
      rw [List.cons_append, hnone] at hfirst
      rw [List.cons_append, runes_cons_of_none hfirst, runes_cons_of_none hnone, ih,
        List.cons_append]

/-- A text is of no more characters than bytes. -/
theorem length_runes_le (text : Bytes) : (runes text).length ≤ text.length := by
  induction text using cases_text with
  | nil => exact Nat.le_refl _
  | rune rune text ih =>
      have hpos := rune.utf8Size_pos
      rw [runes_encodeRune_append, List.length_cons, List.length_append, length_encodeRune]
      omega
  | none byte text hnone ih =>
      rw [runes_cons_of_none hnone, List.length_cons, List.length_cons]
      omega

end SeverinoHQ.Math.Utf8
