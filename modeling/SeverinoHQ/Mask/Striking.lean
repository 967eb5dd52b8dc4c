/-
# What the mask leaves

One pass strikes the forms that begin where the last one struck ends. A form that begins
inside another is passed over with it, and what is written where a form was is not read
again: the mask leaves nothing learned exactly where neither lets a form through.
-/

import SeverinoHQ.Mask.Embedded

namespace SeverinoHQ.Mask

open SeverinoHQ.Math
open SeverinoHQ.Math.Bytes (ascii)

namespace Masker

/-- No form that is learned stands in what is written of a text. -/
def Clean (masker : Masker) (s : Bytes) : Prop :=
  ∀ form ∈ masker.learned, ¬form <:+: masker.text s

/-- No byte is kept of a form that is learned and stands in a text. -/
def Covers (masker : Masker) (s : Bytes) : Prop :=
  ∀ form ∈ masker.learned, ∀ before after, s = before ++ (form ++ after) →
    masker.Strikes before form after

/-- Of the forms taken from the left, each the longest that begins where it does: where another
begins inside one of them, forms fill the text from the end of that one to its own. -/
def Nested (masker : Masker) (s : Bytes) : Prop :=
  ∀ form ∈ masker.learned, ∀ before after, s = before ++ (form ++ after) →
    masker.Clear before form after

/-- With each form that is taken read as the mark, no form is spelled by letters of which one is the
mark's. -/
def Unspelled (masker : Masker) (s : Bytes) : Prop :=
  Replacer.Unspelled (fun form => form ∈ masker.learned) s redacted

variable {writings : Writings}

theorem covers_iff (calls : List (List Bytes)) (s : Bytes) :
    (learnedBy writings calls).Covers s ↔ (learnedBy writings calls).Nested s := by
  constructor
  · intro hcovers form hform before after hs
    exact (learnedBy_strikes_iff hform before after).mp (hcovers form hform before after hs)
  · intro hnested form hform before after hs
    exact (learnedBy_strikes_iff hform before after).mpr (hnested form hform before after hs)

/-- Nothing learned is left of a text, in what is written and of what stood in it, exactly
where forms nest and none is spelled with a mark. -/
theorem clean_covers_iff (calls : List (List Bytes)) (s : Bytes) :
    (learnedBy writings calls).Clean s ∧ (learnedBy writings calls).Covers s ↔
      (learnedBy writings calls).Nested s ∧ (learnedBy writings calls).Unspelled s := by
  have hclean : (learnedBy writings calls).Clean s ↔ (learnedBy writings calls).Unspelled s := by
    rw [Clean, text_eq_replace]
    exact (learnedBy_lists calls).clean_iff
  rw [hclean, covers_iff, and_comm]

end Masker

/-- Of two secrets that overlap in a text, the end of the second is written. -/
theorem overlap_left :
    ¬∀ (writings : Writings) (calls : List (List Bytes)) (s : Bytes),
      (Masker.learnedBy writings calls).Clean s ∧ (Masker.learnedBy writings calls).Covers s := by
  intro h
  have hcovers := (h plainWritings [[ascii "abcd", ascii "cdef"]] (ascii "abcdef")).2
  have hlearned : ascii "cdef" ∈
      (Masker.learnedBy plainWritings [[ascii "abcd", ascii "cdef"]]).learned :=
    Masker.mem_learnedBy.mpr ⟨_, List.mem_singleton_self _, ascii "cdef", by simp,
      mem_forms.mpr ⟨by decide, List.mem_append_left _ (by simp), by decide⟩⟩
  have hstrikes := hcovers (ascii "cdef") hlearned (ascii "ab") [] rfl
  exact hstrikes.replaced 3 (by decide) (by decide +kernel)

end SeverinoHQ.Mask
