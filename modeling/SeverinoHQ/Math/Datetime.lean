/-
# Aware datetimes and the local day

Instants are microseconds since the epoch. A zone is its offset and the
transitions that change it, as far as they are wanted, and a wall time is read
back as an instant the way PEP 495 reads it: with `fold` off, a wall time that
comes twice is its first occurrence, and one that is skipped keeps the offset
from before. Datetimes of one zone are compared, and moved, by their wall times.

A zone keeps its days when no transition sets the local date back and none
jumps over a midnight from before it. There the local day of an instant stands
until the instant the next midnight is read back as.
-/

import Mathlib.Algebra.Order.Ring.Int
import Mathlib.Tactic.Linarith

namespace SeverinoHQ.Math

/-- The microseconds of a day. -/
def dayLength : Int := 24 * 60 * 60 * 1000000

/-- The day a wall time is on, counted from the epoch's. -/
def dayOf (wall : Int) : Int := wall / dayLength

theorem dayOf_mono {first second : Int} (h : first ≤ second) : dayOf first ≤ dayOf second :=
  Int.ediv_le_ediv (by decide) h

theorem dayOf_lt_iff {wall day : Int} : dayOf wall < day ↔ wall < day * dayLength :=
  Int.ediv_lt_iff_lt_mul (by decide)

theorem le_dayOf_iff {wall day : Int} : day ≤ dayOf wall ↔ day * dayLength ≤ wall :=
  Int.le_ediv_iff_mul_le (by decide)

/-- From `instant` on the local clock is `offset` ahead of the instant. -/
structure Transition where
  instant : Int
  offset : Int
  deriving DecidableEq, Repr

/-- A time zone: the first offset, and the transitions in order. -/
structure Zone where
  base : Int
  transitions : List Transition
  sorted : transitions.Pairwise fun first second => first.instant < second.instant

namespace Zone

/-- A zone of one offset has no transitions to sort. -/
theorem sorted_nil :
    ([] : List Transition).Pairwise fun first second => first.instant < second.instant :=
  .nil

/-- The offset in force at an instant. -/
def offsetAt (before : Int) : List Transition → Int → Int
  | [], _ => before
  | transition :: rest, instant =>
      if instant < transition.instant then before
      else offsetAt transition.offset rest instant

/-- The offset a wall time is read back with. -/
def offsetOf (fold : Bool) (before : Int) : List Transition → Int → Int
  | [], _ => before
  | transition :: rest, wall =>
      if wall < transition.instant +
          (if fold then min before transition.offset else max before transition.offset) then before
      else offsetOf fold transition.offset rest wall

/-- The wall time at an instant. -/
def wall (zone : Zone) (instant : Int) : Int :=
  instant + offsetAt zone.base zone.transitions instant

/-- The instant a wall time is read back as. -/
def instant (zone : Zone) (wall : Int) (fold : Bool) : Int :=
  wall - offsetOf fold zone.base zone.transitions wall

/-- No transition sets the local date back, and none jumps over a midnight from
before it. -/
def daysKept (before : Int) : List Transition → Prop
  | [] => True
  | transition :: rest =>
      dayOf (transition.instant + before - 1) ≤ dayOf (transition.instant + transition.offset) ∧
        (before < transition.offset →
          dayOf (transition.instant + transition.offset - 1) =
            dayOf (transition.instant + before)) ∧
        daysKept transition.offset rest

instance daysKept.decidable : (before : Int) → (transitions : List Transition) →
    Decidable (daysKept before transitions)
  | _, [] => .isTrue trivial
  | _, transition :: rest =>
      haveI := daysKept.decidable transition.offset rest
      inferInstanceAs (Decidable (_ ∧ _ ∧ _))

/-- A zone whose local days each come once, and start when their midnight does. -/
def KeepsDays (zone : Zone) : Prop := daysKept zone.base zone.transitions

instance (zone : Zone) : Decidable zone.KeepsDays := inferInstanceAs (Decidable (daysKept _ _))

theorem offsetAt_of_lt {before instant : Int} {transitions : List Transition}
    (h : ∀ transition ∈ transitions, instant < transition.instant) :
    offsetAt before transitions instant = before := by
  cases transitions with
  | nil => rfl
  | cons transition rest => exact if_pos (h transition List.mem_cons_self)

/-- Local days never go back. -/
theorem daysKept.mono {before : Int} {transitions : List Transition}
    (hkept : daysKept before transitions)
    (hsorted : transitions.Pairwise fun first second => first.instant < second.instant)
    {first second : Int} (hle : first ≤ second) :
    dayOf (first + offsetAt before transitions first) ≤
      dayOf (second + offsetAt before transitions second) := by
  induction transitions generalizing before first with
  | nil => exact dayOf_mono (by simpa [offsetAt] using hle)
  | cons transition rest ih =>
      obtain ⟨hback, -, hrest⟩ := hkept
      obtain ⟨hlater, hsorted⟩ := List.pairwise_cons.mp hsorted
      simp only [offsetAt]
      by_cases hfirst : first < transition.instant
      · by_cases hsecond : second < transition.instant
        · rw [if_pos hfirst, if_pos hsecond]
          exact dayOf_mono (by omega)
        · rw [if_pos hfirst, if_neg hsecond]
          push Not at hsecond
          have hat := ih hrest hsorted hsecond
          rw [offsetAt_of_lt hlater] at hat
          calc dayOf (first + before)
              ≤ dayOf (transition.instant + before - 1) := dayOf_mono (by omega)
            _ ≤ dayOf (transition.instant + transition.offset) := hback
            _ ≤ _ := hat
      · rw [if_neg hfirst, if_neg (by omega)]
        exact ih hrest hsorted hle

/-- Before the instant a midnight is read back as, the wall clock is before it. -/
theorem daysKept.before_midnight {before : Int} {transitions : List Transition}
    (hkept : daysKept before transitions) {day instant : Int}
    (hlt : instant <
      day * dayLength - offsetOf false before transitions (day * dayLength)) :
    instant + offsetAt before transitions instant < day * dayLength := by
  induction transitions generalizing before with
  | nil => simp only [offsetAt, offsetOf] at hlt ⊢; omega
  | cons transition rest ih =>
      obtain ⟨-, hjump, hrest⟩ := hkept
      simp only [offsetAt, offsetOf, Bool.false_eq_true, if_false] at hlt ⊢
      by_cases hwall : day * dayLength < transition.instant + max before transition.offset
      · rw [if_pos hwall] at hlt
        -- The midnight has the offset from before, so it is no later than the transition.
        have hmidnight : day * dayLength ≤ transition.instant + before := by
          by_cases hforward : before < transition.offset
          · rw [max_eq_right hforward.le] at hwall
            rw [← le_dayOf_iff, ← hjump hforward, le_dayOf_iff]
            omega
          · rw [max_eq_left (by omega)] at hwall
            omega
        rw [if_pos (by omega)]
        omega
      · rw [if_neg hwall] at hlt
        by_cases hearly : instant < transition.instant
        · rw [if_pos hearly]
          have := le_max_left before transition.offset
          omega
        · rw [if_neg hearly]
          exact ih hrest hlt

/-- The local day of an instant stands until the next midnight. -/
theorem KeepsDays.day_eq {zone : Zone} (h : zone.KeepsDays) {now later : Int} (hle : now ≤ later)
    (hlt : later < zone.instant ((dayOf (zone.wall now) + 1) * dayLength) false) :
    dayOf (zone.wall later) = dayOf (zone.wall now) := by
  have hmono : dayOf (zone.wall now) ≤ dayOf (zone.wall later) :=
    daysKept.mono h zone.sorted hle
  have hbefore := dayOf_lt_iff.mpr (daysKept.before_midnight h hlt)
  have hbefore : dayOf (zone.wall later) < dayOf (zone.wall now) + 1 := hbefore
  omega

/-- Nor does any later midnight come before its time. -/
theorem KeepsDays.day_lt {zone : Zone} (h : zone.KeepsDays) {day later : Int}
    (hlt : later < zone.instant (day * dayLength) false) : dayOf (zone.wall later) < day :=
  dayOf_lt_iff.mpr (daysKept.before_midnight h hlt)

theorem KeepsDays.day_mono {zone : Zone} (h : zone.KeepsDays) {now later : Int}
    (hle : now ≤ later) : dayOf (zone.wall now) ≤ dayOf (zone.wall later) :=
  daysKept.mono h zone.sorted hle

end Zone

/-! ## Years -/

/-- The day of a year's first of January, counted from the epoch's. -/
def newYear (year : Int) : Int :=
  365 * (year - 1) + (year - 1) / 4 - (year - 1) / 100 + (year - 1) / 400 - 719162

/-- The year a day is in: by cycles of 400, 100, 4 and 1 years. -/
def yearOf (day : Int) : Int :=
  let ordinal := day + 719162
  let n400 := ordinal / 146097
  let n100 := min (ordinal % 146097 / 36524) 3
  let n4 := (ordinal % 146097 - n100 * 36524) / 1461
  let n1 := min ((ordinal % 146097 - n100 * 36524) % 1461 / 365) 3
  n400 * 400 + n100 * 100 + n4 * 4 + n1 + 1

/-- The days before a year, by the cycles it is made of. -/
theorem newYear_parts {n400 n100 n4 n1 : Int} (h100 : 0 ≤ n100 ∧ n100 ≤ 3)
    (h4 : 0 ≤ n4 ∧ n4 ≤ 24) (h1 : 0 ≤ n1 ∧ n1 ≤ 3) :
    newYear (400 * n400 + 100 * n100 + 4 * n4 + n1 + 1) =
      146097 * n400 + 36524 * n100 + 1461 * n4 + 365 * n1 - 719162 := by
  have hyears : 400 * n400 + 100 * n100 + 4 * n4 + n1 + 1 - 1 =
      400 * n400 + 100 * n100 + 4 * n4 + n1 := by omega
  have hfour : (400 * n400 + 100 * n100 + 4 * n4 + n1) / 4 = 100 * n400 + 25 * n100 + n4 := by
    omega
  have hhundred : (400 * n400 + 100 * n100 + 4 * n4 + n1) / 100 = 4 * n400 + n100 := by omega
  have hfourHundred : (400 * n400 + 100 * n100 + 4 * n4 + n1) / 400 = n400 := by omega
  rw [newYear, hyears, hfour, hhundred, hfourHundred]
  omega

/-- The cycles a day's year is made of, and the day's place in it. -/
theorem yearOf_parts (day : Int) : ∃ n400 n100 n4 n1 rest : Int,
    yearOf day = 400 * n400 + 100 * n100 + 4 * n4 + n1 + 1 ∧
      day + 719162 = 146097 * n400 + 36524 * n100 + 1461 * n4 + 365 * n1 + rest ∧
      (0 ≤ n100 ∧ n100 ≤ 3) ∧ (0 ≤ n4 ∧ n4 ≤ 24) ∧ (0 ≤ n1 ∧ n1 ≤ 3) ∧ 0 ≤ rest ∧
      (rest < 365 ∨ rest = 365 ∧ n1 = 3 ∧ (n4 < 24 ∨ n100 = 3)) := by
  obtain ⟨ordinal, hordinal⟩ : ∃ ordinal, ordinal = day + 719162 := ⟨_, rfl⟩
  obtain ⟨n400, hn400⟩ : ∃ n400, n400 = ordinal / 146097 := ⟨_, rfl⟩
  obtain ⟨n100, hn100⟩ : ∃ n100, n100 = min (ordinal % 146097 / 36524) 3 := ⟨_, rfl⟩
  obtain ⟨left, hleft⟩ : ∃ left, left = ordinal % 146097 - n100 * 36524 := ⟨_, rfl⟩
  obtain ⟨n4, hn4⟩ : ∃ n4, n4 = left / 1461 := ⟨_, rfl⟩
  obtain ⟨n1, hn1⟩ : ∃ n1, n1 = min (left % 1461 / 365) 3 := ⟨_, rfl⟩
  have hyear : yearOf day = 400 * n400 + 100 * n100 + 4 * n4 + n1 + 1 := by
    simp only [yearOf, ← hordinal, ← hn400, ← hn100, ← hleft, ← hn4, ← hn1]
    omega
  have hcentury : 0 ≤ left ∧ left ≤ 36524 ∧ (left = 36524 → n100 = 3) := by omega
  refine ⟨n400, n100, n4, n1, left % 1461 - 365 * n1, hyear, ?_, ?_, ?_, ?_, ?_, ?_⟩
  all_goals omega

theorem newYear_yearOf_le (day : Int) : newYear (yearOf day) ≤ day := by
  obtain ⟨n400, n100, n4, n1, rest, hyear, hday, h100, h4, h1, hrest, -⟩ := yearOf_parts day
  rw [hyear, newYear_parts h100 h4 h1]
  omega

theorem lt_newYear_yearOf_succ (day : Int) : day < newYear (yearOf day + 1) := by
  obtain ⟨n400, n100, n4, n1, rest, hyear, hday, h100, h4, h1, -, hrest⟩ := yearOf_parts day
  rw [hyear]
  simp only [newYear]
  omega

theorem newYear_mono {first second : Int} (h : first ≤ second) : newYear first ≤ newYear second := by
  simp only [newYear]
  omega

/-- A day between two New Years is in the year they bound. -/
theorem yearOf_eq {day year : Int} (hle : newYear year ≤ day) (hlt : day < newYear (year + 1)) :
    yearOf day = year := by
  have hlow := newYear_yearOf_le day
  have hhigh := lt_newYear_yearOf_succ day
  by_contra hne
  rcases Int.lt_or_gt_of_ne hne with hbefore | hafter
  · have := newYear_mono (show yearOf day + 1 ≤ year by omega)
    omega
  · have := newYear_mono (show year + 1 ≤ yearOf day by omega)
    omega

/-! ## Datetimes -/

/-- A datetime with its zone: one in UTC, or one by the wall clock of the zone in use. -/
inductive Aware where
  | utc (instant : Int)
  | wall (time : Int) (fold : Bool)
  deriving DecidableEq, Repr

namespace Aware

variable (zone : Zone)

/-- The instant a datetime names. -/
def instant : Aware → Int
  | .utc instant => instant
  | .wall time fold => zone.instant time fold

/-- `first < second`: within the zone by the wall clock, else by the instant. -/
def before : Aware → Aware → Bool
  | .wall first _, .wall second _ => decide (first < second)
  | first, second => decide (first.instant zone < second.instant zone)

/-- `first - second`. -/
def since : Aware → Aware → Int
  | .wall first _, .wall second _ => first - second
  | first, second => first.instant zone - second.instant zone

/-- `moment + delta`, which stays in its zone. -/
def plus (moment : Aware) (delta : Int) : Aware :=
  match moment with
  | .utc instant => .utc (instant + delta)
  | .wall time _ => .wall (time + delta) false

/-- `timezone.localtime`: an instant by the wall clock. -/
def ofInstant (instant : Int) : Aware :=
  .wall (zone.wall instant) (decide (zone.instant (zone.wall instant) false ≠ instant))

end Aware

end SeverinoHQ.Math
