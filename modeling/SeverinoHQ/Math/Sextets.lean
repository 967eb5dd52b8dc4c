/-
# Runs inside a base64 text

A base64 letter carries six bits, the `i`-th the bits from `6i` on, whatever the letters
are and whether the text is padded. The letters all of whose bits lie within a run of bytes
are the same wherever the run stands among whole groups of three bytes.
-/

import SeverinoHQ.Math.Bytes
import Mathlib.Data.List.GetD

namespace SeverinoHQ.Math.Sextets

/-- The numbers the letters of a byte string's base64 text stand for. -/
def sextets : Bytes → List Nat
  | first :: second :: third :: rest =>
      first.toNat / 4 :: (first.toNat % 4 * 16 + second.toNat / 16) ::
        (second.toNat % 16 * 4 + third.toNat / 64) :: third.toNat % 64 :: sextets rest
  | [first, second] =>
      [first.toNat / 4, first.toNat % 4 * 16 + second.toNat / 16, second.toNat % 16 * 4]
  | [first] => [first.toNat / 4, first.toNat % 4 * 16]
  | [] => []

/-- A base64 encoding: its letters, and whether it pads. -/
structure Encoding where
  letter : Nat → UInt8
  padded : Bool

/-- `EncodeToString`. -/
def Encoding.encode (encoding : Encoding) (bytes : Bytes) : Bytes :=
  (sextets bytes).map encoding.letter ++
    if encoding.padded then List.replicate ((3 - bytes.length % 3) % 3) 61 else []

/-- `base64.StdEncoding`'s letters. -/
def stdLetter (value : Nat) : UInt8 :=
  (Bytes.ascii "ABCDEFGHIJKLMNOPQRSTUVWXYZabcdefghijklmnopqrstuvwxyz0123456789+/").getD value 65

/-- `base64.URLEncoding`'s letters. -/
def urlLetter (value : Nat) : UInt8 :=
  (Bytes.ascii "ABCDEFGHIJKLMNOPQRSTUVWXYZabcdefghijklmnopqrstuvwxyz0123456789-_").getD value 65

/-! ## A letter at its place -/

/-- The number of a byte of a text, and none where there is no byte. -/
def byteAt (bytes : Bytes) (place : Nat) : Nat := (bytes.getD place 0).toNat

/-- The number that stands at a place of a base64 text, by the bits it carries. -/
def digit (bytes : Bytes) (place : Nat) : Nat :=
  match place % 4 with
  | 0 => byteAt bytes (place / 4 * 3) / 4
  | 1 => byteAt bytes (place / 4 * 3) % 4 * 16 + byteAt bytes (place / 4 * 3 + 1) / 16
  | 2 => byteAt bytes (place / 4 * 3 + 1) % 16 * 4 + byteAt bytes (place / 4 * 3 + 2) / 64
  | _ => byteAt bytes (place / 4 * 3 + 2) % 64

theorem byteAt_add_three (first second third : UInt8) (rest : Bytes) (place : Nat) :
    byteAt (first :: second :: third :: rest) (place + 3) = byteAt rest place := rfl

theorem digit_add_four (first second third : UInt8) (rest : Bytes) (place : Nat) :
    digit (first :: second :: third :: rest) (place + 4) = digit rest place := by
  have hplace : (place + 4) / 4 * 3 = place / 4 * 3 + 3 := by omega
  have hsecond : place / 4 * 3 + 3 + 1 = place / 4 * 3 + 1 + 3 := by omega
  have hthird : place / 4 * 3 + 3 + 2 = place / 4 * 3 + 2 + 3 := by omega
  simp only [digit, Nat.add_mod_right, hplace, hsecond, hthird, byteAt_add_three]

theorem digit_nil (place : Nat) : digit [] place = 0 := by
  have hbyte : ∀ place, byteAt [] place = 0 := fun _ => rfl
  unfold digit
  split <;> simp [hbyte]

/-- A letter depends on the bytes its bits lie in alone. -/
theorem digit_congr {first second : Bytes} {place : Nat}
    (h : ∀ at_, 6 * place / 8 ≤ at_ → at_ ≤ (6 * place + 5) / 8 → byteAt first at_ = byteAt second at_) :
    digit first place = digit second place := by
  unfold digit
  split
  · rw [h _ (by omega) (by omega)]
  · rw [h _ (by omega) (by omega), h _ (by omega) (by omega)]
  · rw [h _ (by omega) (by omega), h _ (by omega) (by omega)]
  · next hzero hone htwo =>
      have hthree : place % 4 = 3 := by
        have hnotZero : ¬place % 4 = 0 := hzero
        have hnotOne : ¬place % 4 = 1 := hone
        have hnotTwo : ¬place % 4 = 2 := htwo
        omega
      rw [h _ (by omega) (by omega)]

theorem digit_two (first second : UInt8) (place : Nat) :
    digit [first, second] (place + 4) = 0 := by
  rw [← digit_nil place, ← digit_add_four first second 0 []]
  apply digit_congr
  intro at_ _ _
  match at_ with
  | 0 | 1 | 2 | _ + 3 => rfl

theorem digit_one (first : UInt8) (place : Nat) : digit [first] (place + 4) = 0 := by
  rw [← digit_nil place, ← digit_add_four first 0 0 []]
  apply digit_congr
  intro at_ _ _
  match at_ with
  | 0 | 1 | 2 | _ + 3 => rfl

theorem getD_sextets (bytes : Bytes) (place : Nat) :
    (sextets bytes).getD place 0 = digit bytes place := by
  induction bytes using sextets.induct generalizing place with
  | case1 first second third rest ih =>
      match place with
      | 0 | 1 | 2 | 3 => rfl
      | place + 4 => exact (ih place).trans (digit_add_four first second third rest place).symm
  | case2 first second =>
      match place with
      | 0 | 1 | 3 => rfl
      | 2 => simp [sextets, digit, byteAt]
      | place + 4 => exact (digit_two first second place).symm
  | case3 first =>
      match place with
      | 0 | 3 => rfl
      | 1 | 2 => simp [sextets, digit, byteAt]
      | place + 4 => exact (digit_one first place).symm
  | case4 => exact (digit_nil place).symm

theorem length_sextets (bytes : Bytes) : (sextets bytes).length = (8 * bytes.length + 5) / 6 := by
  induction bytes using sextets.induct with
  | case1 first second third rest ih =>
      simp only [sextets, List.length_cons, ih]
      omega
  | case2 first second => simp [sextets]
  | case3 first => simp [sextets]
  | case4 => simp [sextets]

/-- Whole groups of three bytes are written apart from what follows them. -/
theorem sextets_append {whole : Bytes} (hwhole : whole.length % 3 = 0) (rest : Bytes) :
    sextets (whole ++ rest) = sextets whole ++ sextets rest := by
  induction whole using sextets.induct with
  | case1 first second third others ih =>
      have hothers : others.length % 3 = 0 := by
        simp only [List.length_cons] at hwhole
        omega
      simp only [List.cons_append, sextets, ih hothers]
  | case2 first second => simp at hwhole
  | case3 first => simp at hwhole
  | case4 => rfl

/-! ## A run -/

/-- The letters from one place of a base64 text up to another. -/
def between (start upto : Nat) (letters : List Nat) : List Nat := (letters.take upto).drop start

/-- Texts that agree on a run of bytes agree on the letters whose bits lie within it. -/
theorem between_congr {first second : Bytes} {start upto : Nat}
    (hfirst : upto ≤ (sextets first).length) (hsecond : upto ≤ (sextets second).length)
    (h : ∀ at_, 6 * start / 8 ≤ at_ → 8 * at_ + 2 ≤ 6 * upto → byteAt first at_ = byteAt second at_) :
    between start upto (sextets first) = between start upto (sextets second) := by
  apply List.ext_getElem
  · simp [between, Nat.min_eq_left hfirst, Nat.min_eq_left hsecond]
  · intro place hplace _
    simp only [between, List.length_drop, List.length_take] at hplace
    simp only [between, List.getElem_drop, List.getElem_take]
    rw [← List.getD_eq_getElem _ 0, ← List.getD_eq_getElem _ 0, getD_sextets, getD_sextets]
    apply digit_congr
    intro at_ hfrom hto
    exact h at_ (by omega) (by omega)

/-- The letters that carry a run's bits alone, where it stands some bytes into a group. -/
theorem between_infix {offset : Nat} (value before after : Bytes)
    (hbefore : before.length % 3 = offset) :
    between ((8 * offset + 5) / 6) (8 * (offset + value.length) / 6)
        (sextets (List.replicate offset 0 ++ value)) <:+:
      sextets (before ++ value ++ after) := by
  obtain ⟨whole, part, rfl, hwhole, hpart⟩ : ∃ whole part, before = whole ++ part ∧
      whole.length % 3 = 0 ∧ part.length = offset := by
    refine ⟨before.take (before.length - offset), before.drop (before.length - offset),
      (List.take_append_drop ..).symm, ?_, ?_⟩
    · rw [List.length_take]
      omega
    · rw [List.length_drop]
      have := Nat.mod_le before.length 3
      omega
  have hsplit : whole ++ part ++ value ++ after = whole ++ (part ++ (value ++ after)) := by simp
  rw [hsplit, sextets_append hwhole]
  refine List.IsInfix.trans ?_ (List.suffix_append (sextets whole) _).isInfix
  have hoffset : offset < 3 := hbefore ▸ Nat.mod_lt _ (by omega)
  rw [@between_congr _ (part ++ (value ++ after))]
  · exact (List.drop_suffix _ _).isInfix.trans (List.take_prefix _ _).isInfix
  · rw [length_sextets]
    simp only [List.length_append, List.length_replicate]
    omega
  · rw [length_sextets]
    simp only [List.length_append]
    omega
  · intro at_ hfrom hto
    have hstart : offset ≤ at_ := by omega
    have hend : at_ < offset + value.length := by omega
    unfold byteAt
    rw [List.getD_append_right _ _ _ _ (by simpa using hstart),
      List.getD_append_right _ _ _ _ (by omega), List.getD_append _ _ _ _ (by omega),
      List.length_replicate, hpart]

end SeverinoHQ.Math.Sextets
