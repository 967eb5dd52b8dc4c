/-
# A token bucket, kept as the time it is full again

The generic cell rate algorithm keeps a bucket as one time: when it is full again if
nothing more is taken. A call puts that time off by its spacing, and is refused where
this would put it further off than the bucket is deep.
-/

import Mathlib.Algebra.Order.Group.Defs
import Mathlib.Algebra.Order.Monoid.Unbundled.MinMax
import Mathlib.Tactic.Abel

namespace SeverinoHQ.Math

universe u

/-- A bucket: how long one call takes to win back, and how much may be owed at once. -/
structure Bucket (K : Type u) where
  spacing : K
  depth : K

namespace Bucket

variable {K : Type u} [AddCommGroup K] [LinearOrder K] (bucket : Bucket K)

/-- When the bucket is full again, after one more call. -/
def after (fullAgain now : K) : K := max fullAgain now + bucket.spacing

/-- How long one more call would have to wait; nothing and less is no wait. -/
def wait (fullAgain now : K) : K := bucket.after fullAgain now - now - bucket.depth

/-- The times of the calls that are let in, of those made at the times given. -/
def admitted : K → List K → List K
  | _, [] => []
  | fullAgain, now :: times =>
      if 0 < bucket.wait fullAgain now then admitted fullAgain times
      else now :: admitted (bucket.after fullAgain now) times

variable [IsOrderedAddMonoid K] {bucket}

theorem wait_le_zero {fullAgain now : K} :
    bucket.wait fullAgain now ≤ 0 ↔ bucket.after fullAgain now ≤ now + bucket.depth := by
  rw [wait, sub_sub, sub_nonpos]

/-- What was refused for a wait is let in after it, where a call fits the bucket. -/
theorem wait_waited {fullAgain now later : K} (hfits : bucket.spacing ≤ bucket.depth)
    (hlater : now + bucket.wait fullAgain now ≤ later) (hnow : now ≤ later) :
    bucket.wait fullAgain later ≤ 0 := by
  rw [wait_le_zero, after]
  rcases le_total fullAgain later with hfull | howed
  · rw [max_eq_right hfull]
    exact add_le_add_right hfits later
  · rw [max_eq_left howed]
    have hwait : now + bucket.wait fullAgain now = fullAgain + bucket.spacing - bucket.depth := by
      rw [wait, after, max_eq_left (hnow.trans howed)]
      abel
    rw [hwait] at hlater
    exact sub_le_iff_le_add.mp hlater

/-- How much of a bucket is owed at the start of a window, with the calls let in within it. -/
theorem owed_le (hspacing : 0 ≤ bucket.spacing) {first last : K} (fullAgain : K) (times : List K)
    (hsome : 0 < (bucket.admitted fullAgain times).countP fun time => first ≤ time ∧ time ≤ last) :
    max fullAgain first +
        ((bucket.admitted fullAgain times).countP fun time => first ≤ time ∧ time ≤ last) •
          bucket.spacing ≤
      last + bucket.depth := by
  induction times generalizing fullAgain with
  | nil => simp [admitted] at hsome
  | cons now times ih =>
      by_cases hwait : 0 < bucket.wait fullAgain now
      · simp only [admitted, if_pos hwait] at hsome ⊢
        exact ih fullAgain hsome
      · simp only [admitted, if_neg hwait, List.countP_cons] at hsome ⊢
        have hafter : max fullAgain now + bucket.spacing ≤ now + bucket.depth :=
          wait_le_zero.mp (not_lt.mp hwait)
        have hlater := ih (bucket.after fullAgain now)
        generalize (bucket.admitted (bucket.after fullAgain now) times).countP
          (fun time => first ≤ time ∧ time ≤ last) = count at hsome hlater ⊢
        by_cases hwithin : first ≤ now ∧ now ≤ last
        · rw [if_pos (by simpa using hwithin)]
          have hput : max fullAgain first + bucket.spacing ≤ bucket.after fullAgain now :=
            add_le_add_left (max_le_max_left fullAgain hwithin.1) bucket.spacing
          rcases Nat.eq_zero_or_pos count with rfl | hpos
          · rw [zero_add, one_nsmul]
            exact hput.trans (hafter.trans (add_le_add_left hwithin.2 bucket.depth))
          · calc max fullAgain first + (count + 1) • bucket.spacing
                _ = max fullAgain first + bucket.spacing + count • bucket.spacing := by
                    rw [succ_nsmul]
                    abel
                _ ≤ max (bucket.after fullAgain now) first + count • bucket.spacing :=
                    add_le_add_left (hput.trans (le_max_left _ _)) _
                _ ≤ last + bucket.depth := hlater hpos
        · rw [if_neg (by simpa using hwithin)] at hsome ⊢
          have hkept : fullAgain ≤ bucket.after fullAgain now :=
            (le_max_left fullAgain now).trans (le_add_of_nonneg_right hspacing)
          exact (add_le_add_left (max_le_max_right first hkept) _).trans (hlater hsome)

/-- No more calls are let in within a window than the bucket holds and wins back in it. -/
theorem count_le (hspacing : 0 ≤ bucket.spacing) (hdepth : 0 ≤ bucket.depth) {first last : K}
    (hwindow : first ≤ last) (fullAgain : K) (times : List K) :
    ((bucket.admitted fullAgain times).countP fun time => first ≤ time ∧ time ≤ last) •
        bucket.spacing ≤
      last - first + bucket.depth := by
  have howed := @owed_le _ _ _ bucket _ hspacing first last fullAgain times
  generalize (bucket.admitted fullAgain times).countP
    (fun time => first ≤ time ∧ time ≤ last) = count at howed ⊢
  rcases Nat.eq_zero_or_pos count with rfl | hpos
  · rw [zero_nsmul]
    exact add_nonneg (sub_nonneg.mpr hwindow) hdepth
  · have hcount : first + count • bucket.spacing ≤ last + bucket.depth :=
      (add_le_add_left (le_max_right fullAgain first) _).trans (howed hpos)
    rw [sub_add_eq_add_sub, le_sub_iff_add_le']
    exact hcount

end Bucket

end SeverinoHQ.Math
