/-
# Text cut to a length

`Clip` masks a text and cuts what it is then to so many characters; `LastLine` does so with the
last line of an output that is not blank, and marks what it cut with an ellipsis. A length is a
count of characters, whatever bytes they are of.
-/

import SeverinoHQ.Mask.Striking
import SeverinoHQ.Math.Utf8

namespace SeverinoHQ.Mask

open SeverinoHQ.Math
open SeverinoHQ.Math.Bytes (ascii)

/-- `SaidLimit`. -/
def saidLimit : Nat := 240

/-- What a cut line ends in. -/
def ellipsis : Bytes := Utf8.encode ['…']

/-- The last line that is not blank, without the white space at its ends. -/
def lastOf (output : Bytes) : Bytes :=
  (Bytes.splitSeq [10] output).foldl (fun last line =>
    let line := Bytes.trimSpace line
    if line ≠ [] then line else last) []

namespace Masker

variable (masker : Masker)

/-- `Clip`. -/
def clip (s : Bytes) (n : Int) : Bytes :=
  let s := masker.text s
  if n < 0 ∨ (s.length : Int) ≤ n then s
  else
    let runes := Utf8.runes s
    if n < runes.length then Utf8.encode (runes.take n.toNat) else s

/-- `LastLine`. -/
def lastLine (output : Bytes) : Bytes :=
  let last := lastOf output
  let clipped := masker.clip last saidLimit
  if clipped = last then last else masker.clip last (saidLimit - 1) ++ ellipsis

end Masker

/-! ## What is shown -/

/-- A text whole, or its first characters. -/
def Cut (text shown : Bytes) : Prop :=
  shown = text ∨ ∃ first rest, Utf8.runes text = first ++ rest ∧ shown = Utf8.encode first

/-- A text whole, or its first characters and the ellipsis. -/
def Marked (text shown : Bytes) : Prop :=
  shown = text ∨ ∃ first rest, rest ≠ [] ∧ Utf8.runes text = first ++ rest ∧
    shown = Utf8.encode first ++ ellipsis

namespace Masker

variable {masker : Masker} {s output : Bytes} {n : Int}

/-- Every learned form that stands in a text is struck, but where another that is struck runs over
its beginning and leaves some of it. -/
def Struck (masker : Masker) (s : Bytes) : Prop :=
  ∀ form ∈ masker.learned, ∀ before after, s = before ++ (form ++ after) →
    masker.Clear before form after → masker.Strikes before form after

/-- What `Clip` shows: the masked text, cut between characters to no more than asked. -/
structure Clipped (masker : Masker) (s : Bytes) (n : Int) : Prop where
  short : 0 ≤ n → ((Utf8.runes (masker.clip s n)).length : Int) ≤ n
  cut : Cut (masker.text s) (masker.clip s n)
  whole : n < 0 ∨ ((Utf8.runes (masker.text s)).length : Int) ≤ n → masker.clip s n = masker.text s
  struck : masker.Struck s

/-- What `LastLine` shows. Of a line in which nothing is struck, the ellipsis says exactly that
it was cut. -/
structure Said (masker : Masker) (output : Bytes) : Prop where
  short : (Utf8.runes (masker.lastLine output)).length ≤ saidLimit
  cut : ∃ shown, Cut (masker.text (lastOf output)) shown ∧
    (masker.lastLine output = shown ∨ masker.lastLine output = shown ++ ellipsis)
  marked : masker.text (lastOf output) = lastOf output →
    Marked (lastOf output) (masker.lastLine output)
  struck : masker.Struck (lastOf output)

theorem clip_eq (masker : Masker) (s : Bytes) (n : Nat) :
    masker.clip s n = if n < (Utf8.runes (masker.text s)).length then
      Utf8.encode ((Utf8.runes (masker.text s)).take n) else masker.text s := by
  have hle := Utf8.length_runes_le (masker.text s)
  unfold clip
  dsimp only
  by_cases hfits : (masker.text s).length ≤ n
  · rw [if_pos (Or.inr (Int.ofNat_le.mpr hfits)), if_neg (by omega)]
  · rw [if_neg (by omega), Int.toNat_natCast]
    simp only [Int.ofNat_lt]

theorem clip_negative (h : n < 0) : masker.clip s n = masker.text s := if_pos (Or.inl h)

/-- What is cut to a length is the text's first characters, so many of them. -/
theorem runes_clip (masker : Masker) (s : Bytes) (n : Nat) :
    Utf8.runes (masker.clip s n) = (Utf8.runes (masker.text s)).take n := by
  rw [clip_eq]
  split
  · exact Utf8.runes_encode _
  · next hfits => rw [List.take_of_length_le (Nat.le_of_not_lt hfits)]

theorem length_clip_le (masker : Masker) (s : Bytes) (n : Nat) :
    (Utf8.runes (masker.clip s n)).length ≤ n := by
  rw [runes_clip, List.length_take]
  exact Nat.min_le_left _ _

theorem cut_clip (masker : Masker) (s : Bytes) (n : Nat) :
    Cut (masker.text s) (masker.clip s n) := by
  rw [clip_eq]
  split
  · exact Or.inr ⟨_, _, (List.take_append_drop n _).symm, rfl⟩
  · exact Or.inl rfl

variable {writings : Writings}

theorem learnedBy_struck (calls : List (List Bytes)) (s : Bytes) :
    (learnedBy writings calls).Struck s :=
  fun _ hform before after _ => (learnedBy_strikes_iff hform before after).mpr

theorem learnedBy_clipped (calls : List (List Bytes)) (s : Bytes) (n : Int) :
    (learnedBy writings calls).Clipped s n := by
  by_cases hnegative : n < 0
  · exact ⟨fun h => absurd h (not_le.mpr hnegative), Or.inl (clip_negative hnegative),
      fun _ => clip_negative hnegative, learnedBy_struck calls s⟩
  · obtain ⟨count, rfl⟩ := Int.eq_ofNat_of_zero_le (not_lt.mp hnegative)
    refine ⟨fun _ => ?_, cut_clip _ s count, fun hfits => ?_, learnedBy_struck calls s⟩
    · exact Int.ofNat_le.mpr (length_clip_le _ s count)
    · rw [clip_eq, if_neg (by omega)]

theorem lastLine_eq (masker : Masker) (output : Bytes) :
    masker.lastLine output = if masker.clip (lastOf output) saidLimit = lastOf output then
      lastOf output else masker.clip (lastOf output) (saidLimit - 1 : Nat) ++ ellipsis := rfl

theorem length_ellipsis (shown : Bytes) :
    (Utf8.runes (shown ++ ellipsis)).length = (Utf8.runes shown).length + 1 := by
  rw [ellipsis, Utf8.runes_append_encode, List.length_append, List.length_singleton]

/-- A line in which nothing is struck is cut where it is longer than the limit. -/
theorem marked_of_unstruck {last : Bytes} (hunstruck : masker.text last = last)
    (hcut : masker.clip last saidLimit ≠ last) :
    Marked last (masker.clip last (saidLimit - 1 : Nat) ++ ellipsis) := by
  have hlong : saidLimit < (Utf8.runes last).length := by
    by_contra hshort
    rw [clip_eq, hunstruck, if_neg hshort] at hcut
    exact hcut rfl
  have hless : saidLimit - 1 < (Utf8.runes last).length := by
    unfold saidLimit at hlong ⊢
    omega
  rw [clip_eq, hunstruck, if_pos hless]
  refine Or.inr ⟨_, (Utf8.runes last).drop (saidLimit - 1), ?_, (List.take_append_drop _ _).symm, rfl⟩
  intro hnone
  rw [List.drop_eq_nil_iff] at hnone
  omega

theorem learnedBy_said (calls : List (List Bytes)) (output : Bytes) :
    (learnedBy writings calls).Said output := by
  have hstruck : (learnedBy writings calls).Struck (lastOf output) :=
    learnedBy_struck calls (lastOf output)
  generalize learnedBy writings calls = masker at hstruck ⊢
  by_cases hsame : masker.clip (lastOf output) saidLimit = lastOf output
  · have heq : masker.lastLine output = lastOf output := by rw [lastLine_eq, if_pos hsame]
    refine ⟨?_, ⟨_, cut_clip masker (lastOf output) saidLimit, Or.inl ?_⟩, ?_, hstruck⟩
    · rw [heq, ← hsame]
      exact length_clip_le masker (lastOf output) saidLimit
    · rw [heq, hsame]
    · exact fun _ => Or.inl heq
  · have heq : masker.lastLine output =
        masker.clip (lastOf output) (saidLimit - 1 : Nat) ++ ellipsis := by
      rw [lastLine_eq, if_neg hsame]
    refine ⟨?_, ⟨_, cut_clip masker (lastOf output) (saidLimit - 1), Or.inr heq⟩, ?_, hstruck⟩
    · have hle := length_clip_le masker (lastOf output) (saidLimit - 1)
      rw [heq, length_ellipsis]
      unfold saidLimit at hle ⊢
      omega
    · intro hunstruck
      rw [heq]
      exact marked_of_unstruck hunstruck hsame

/-- Whatever was learned, text is shown masked, and cut, if at all, between characters to no more
than there may be. -/
theorem clips (writings : Writings) (calls : List (List Bytes)) (s : Bytes) (n : Int)
    (output : Bytes) : (learnedBy writings calls).Clipped s n ∧
      (learnedBy writings calls).Said output :=
  ⟨learnedBy_clipped calls s n, learnedBy_said calls output⟩

/-- A negative length leaves a text whole, and a text cut to two characters has no ellipsis. -/
theorem clip_unmarked :
    ¬ ((Utf8.runes (start.clip (ascii "ab") (-1))).length : Int) ≤ -1 ∧
      ¬ Marked (start.text (ascii "abc")) (start.clip (ascii "abc") 2) := by
  constructor
  · decide +kernel
  · have hclip : start.clip (ascii "abc") 2 = ascii "ab" := by decide
    rw [hclip]
    rintro (hwhole | ⟨first, rest, -, -, hcut⟩)
    · exact absurd hwhole (by decide)
    · have hlength := congrArg List.length hcut
      rw [List.length_append, show (ascii "ab").length = 2 from rfl,
        show ellipsis.length = 3 by decide] at hlength
      omega

end Masker

end SeverinoHQ.Mask
