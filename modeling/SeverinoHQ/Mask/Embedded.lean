/-
# A value inside a base64 text

Wherever a learned value stands in what is base64-encoded, one of its forms stands in the
text. The mask strikes it unless another form that it strikes runs over where it begins.
-/

import SeverinoHQ.Mask.Masker

namespace SeverinoHQ.Mask

open SeverinoHQ.Math
open SeverinoHQ.Math.Bytes (ascii)
open SeverinoHQ.Math.Sextets (Encoding stdLetter urlLetter)

/-- The pieces of a value's encoding are among its forms, in either alphabet. -/
theorem mem_forms_of_embedded {writings : Writings} {value form : Bytes}
    {letter : Nat → UInt8} (hletter : letter = stdLetter ∨ letter = urlLetter)
    (hlong : minimum ≤ value.length) (hform : minimum ≤ form.length)
    (h : form ∈ embedded ⟨letter, false⟩ value) : form ∈ forms writings value := by
  apply mem_forms.mpr
  refine ⟨hlong, ?_, hform⟩
  apply List.mem_append_right
  apply List.mem_flatMap.mpr
  refine ⟨⟨letter, true⟩, ?_, List.mem_cons_of_mem _ h⟩
  rcases hletter with rfl | rfl <;> simp [encodings]

/-- One of a value's forms stands in an encoding, and is struck where that is written. -/
def StruckIn (masker : Masker) (forms : List Bytes) (first encoded last : Bytes) : Prop :=
  ∃ form ∈ forms, ∃ left right, encoded = left ++ (form ++ right) ∧
    masker.Strikes (first ++ left) form (right ++ last)

/-- One of a value's forms stands in an encoding, and is clear where that is written. -/
def ClearIn (masker : Masker) (forms : List Bytes) (first encoded last : Bytes) : Prop :=
  ∃ form ∈ forms, ∃ left right, encoded = left ++ (form ++ right) ∧
    masker.Clear (first ++ left) form (right ++ last)

/-- Text without a character that Go would escape, as Go's packages write it. -/
def plainWritings : Writings where
  quote value := 34 :: value ++ [34]
  quoteToASCII value := 34 :: value ++ [34]
  queryEscape value := value
  pathEscape value := value
  marshal value := some (34 :: value ++ [34])
  encode value := some (34 :: value ++ [34, 10])

end SeverinoHQ.Mask
