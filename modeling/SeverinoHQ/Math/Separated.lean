/-
# Two parts joined by a separator

A text read apart at its last separator gives back the two parts it was joined
from exactly when the second part holds no separator. The first part may hold
any number of them.
-/

import Mathlib.Data.List.TakeWhile

namespace SeverinoHQ.Math.Separated

universe u

variable {α : Type u} [DecidableEq α] (separator : α)

/-- What stands before and after the last separator, where there is one. -/
def splitLast (text : List α) : Option (List α × List α) :=
  match text.reverse.dropWhile (· != separator) with
  | [] => none
  | _ :: before => some (before.reverse, (text.reverse.takeWhile (· != separator)).reverse)

variable {separator}

theorem splitLast_of_not_mem {text : List α} (h : separator ∉ text) :
    splitLast separator text = none := by
  have hall : ∀ item ∈ text.reverse, (item != separator) = true := by
    intro item hitem
    rw [bne_iff_ne]
    rintro rfl
    exact h (List.mem_reverse.mp hitem)
  rw [splitLast, List.dropWhile_eq_nil_iff.mpr hall]

theorem splitLast_append {last : List α} (h : separator ∉ last) (first : List α) :
    splitLast separator (first ++ separator :: last) = some (first, last) := by
  have hall : ∀ item ∈ last.reverse, (item != separator) = true := by
    intro item hitem
    rw [bne_iff_ne]
    rintro rfl
    exact h (List.mem_reverse.mp hitem)
  have hreverse : (first ++ separator :: last).reverse =
      last.reverse ++ separator :: first.reverse := by simp
  rw [splitLast, hreverse, List.dropWhile_append_of_pos hall, List.takeWhile_append_of_pos hall]
  simp

/-- A text that holds a separator is two parts joined by its last one. -/
theorem exists_append_of_mem {text : List α} (h : separator ∈ text) :
    ∃ first last, separator ∉ last ∧ text = first ++ separator :: last := by
  induction text with
  | nil => cases h
  | cons item text ih =>
      by_cases hlater : separator ∈ text
      · obtain ⟨first, last, hlast, rfl⟩ := ih hlater
        exact ⟨item :: first, last, hlast, rfl⟩
      · obtain rfl | hmem := List.mem_cons.mp h
        · exact ⟨[], text, hlater, rfl⟩
        · exact absurd hmem hlater

/-- Two texts joined alike were joined from the same parts. -/
theorem append_inj {first second last other : List α} (hlast : separator ∉ last)
    (hother : separator ∉ other) (h : first ++ separator :: last = second ++ separator :: other) :
    first = second ∧ last = other := by
  have hsplit := splitLast_append hlast first
  rw [h, splitLast_append hother second] at hsplit
  exact ⟨(Prod.mk.inj (Option.some.inj hsplit)).1.symm,
    (Prod.mk.inj (Option.some.inj hsplit)).2.symm⟩

end SeverinoHQ.Math.Separated
