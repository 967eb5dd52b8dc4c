/-
# Counts kept by key

A tally is a dictionary that counts a bag: under a key it holds how many of it the bag has,
and a key of which there is none has no entry. Putting one more in the bag raises a count
or begins one, and taking one out lowers a count or drops its entry.
-/

import SeverinoHQ.Math.Dict
import Mathlib.Algebra.BigOperators.Group.Finset.Basic
import Mathlib.Algebra.BigOperators.Ring.Finset
import Mathlib.Tactic.Ring

namespace SeverinoHQ.Math

universe u v

variable {κ : Type u} [DecidableEq κ]

/-- A dictionary holds the number of each key in a bag, and nothing for a key not in it. -/
def Tallies (counts : Dict κ Int) (bag : Multiset κ) : Prop :=
  ∀ key, counts.get? key = if bag.count key = 0 then none else some (bag.count key : Int)

/-- The sum of the counts. -/
def Dict.total (counts : Dict κ Int) : Int := (counts.items.map Prod.snd).sum

namespace Tallies

variable {counts : Dict κ Int} {bag : Multiset κ}

theorem empty : Tallies (.empty : Dict κ Int) 0 := by
  intro key
  simp

theorem getD_eq (h : Tallies counts bag) (key : κ) : (counts.get? key).getD 0 = bag.count key := by
  rw [h key]
  split_ifs with hnone
  · simp [hnone]
  · rfl

theorem mem_items_iff (h : Tallies counts bag) {key : κ} {count : Int} :
    (key, count) ∈ counts.items ↔ key ∈ bag ∧ count = bag.count key := by
  rw [← Dict.get?_eq_some_iff, h key, ← Multiset.count_ne_zero]
  split_ifs with hnone
  · simp [hnone]
  · simp [hnone, eq_comm]

/-- No count is zero or less. -/
theorem pos (h : Tallies counts bag) : ∀ item ∈ counts.items, 0 < item.2 := by
  rintro ⟨key, count⟩ hitem
  obtain ⟨hmem, rfl⟩ := h.mem_items_iff.mp hitem
  have hcount : 0 < bag.count key := Multiset.count_pos.mpr hmem
  exact Int.natCast_pos.mpr hcount

/-- The counts sum to the size of the bag. -/
theorem total_eq (h : Tallies counts bag) : counts.total = bag.card := by
  have hvalues : counts.items.map Prod.snd = counts.keys.map fun key => (bag.count key : Int) := by
    rw [Dict.keys, List.map_map]
    apply List.map_congr_left
    rintro ⟨key, count⟩ hitem
    exact (h.mem_items_iff.mp hitem).2
  have hkeys : counts.keys.toFinset = bag.toFinset := by
    ext key
    rw [List.mem_toFinset, Dict.mem_keys_iff, h key, Multiset.mem_toFinset, ← Multiset.count_ne_zero]
    split_ifs with hnone <;> simp [hnone]
  have hnodup : counts.keys.Nodup := counts.nodup
  rw [Dict.total, hvalues, ← List.sum_toFinset _ hnodup, hkeys, ← Nat.cast_sum,
    Multiset.toFinset_sum_count_eq]

/-- Nothing is held of an empty bag. -/
theorem items_eq_nil (h : Tallies counts 0) : counts.items = [] := by
  apply List.eq_nil_iff_forall_not_mem.mpr
  rintro ⟨key, count⟩ hitem
  simpa using (h.mem_items_iff.mp hitem).1

/-- One more of a key. -/
theorem more (h : Tallies counts bag) (key : κ) :
    Tallies (counts.set key ((counts.get? key).getD 0 + 1)) (key ::ₘ bag) := by
  intro other
  rw [Dict.get?_set, h.getD_eq key, Multiset.count_cons]
  by_cases hother : other = key
  · simp [hother]
  · simp [hother, h other]

/-- The last of a key goes with its entry. -/
theorem drop (h : Tallies counts bag) {key : κ} (hlast : bag.count key = 1) :
    Tallies (counts.keep fun item => item.1 ≠ key) (bag.erase key) := by
  intro other
  rw [Dict.get?_keep]
  by_cases hother : other = key
  · subst hother
    rw [Multiset.count_erase_self, hlast]
    simp
  · rw [Multiset.count_erase_of_ne hother, h other]
    split_ifs <;> simp [hother]

/-- One less of a key of which there were more. -/
theorem fewer (h : Tallies counts bag) {key : κ} (hmore : 1 < bag.count key) :
    Tallies ((counts.keep fun item => item.1 ≠ key).set key (bag.count key - 1)) (bag.erase key) := by
  intro other
  rw [Dict.get?_set, Dict.get?_keep]
  by_cases hother : other = key
  · subst hother
    rw [Multiset.count_erase_self, if_pos rfl, if_neg (by omega)]
    congr 1
    omega
  · rw [if_neg hother, Multiset.count_erase_of_ne hother, h other]
    split_ifs <;> simp [hother]

end Tallies

end SeverinoHQ.Math
