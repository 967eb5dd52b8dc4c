/-
# Months, weeks and the days in them

Days are counted from the epoch's, and months from the January of year 0, so that a date is a
month and a day of it. A month starts where the one before ends, and the calendar comes round
every 400 years.
-/

import Mathlib.Tactic.IntervalCases
import SeverinoHQ.Math.Datetime

namespace SeverinoHQ.Math.Calendar

/-- The year has a 29th of February. -/
def isLeap (year : Int) : Bool := year % 4 == 0 && (year % 100 != 0 || year % 400 == 0)

/-- The days of a year before its month, January being 0. -/
@[grind =]
def daysBefore (leap : Bool) : Nat → Int
  | 0 => 0
  | 1 => 31
  | 2 => if leap then 60 else 59
  | 3 => if leap then 91 else 90
  | 4 => if leap then 121 else 120
  | 5 => if leap then 152 else 151
  | 6 => if leap then 182 else 181
  | 7 => if leap then 213 else 212
  | 8 => if leap then 244 else 243
  | 9 => if leap then 274 else 273
  | 10 => if leap then 305 else 304
  | 11 => if leap then 335 else 334
  | _ => if leap then 366 else 365

/-- The first day of a month. -/
def monthStart (month : Int) : Int :=
  newYear (month / 12) + daysBefore (isLeap (month / 12)) (month % 12).toNat

/-- The days of a month: `monthrange(year, month)[1]`. -/
def monthLength (month : Int) : Int :=
  daysBefore (isLeap (month / 12)) ((month % 12).toNat + 1) -
    daysBefore (isLeap (month / 12)) (month % 12).toNat

theorem newYear_succ (year : Int) :
    newYear (year + 1) = newYear year + daysBefore (isLeap year) 12 := by
  have hleap : isLeap year = true ↔ year % 4 = 0 ∧ (year % 100 ≠ 0 ∨ year % 400 = 0) := by
    simp [isLeap]
  by_cases h : isLeap year = true
  · have hyear := hleap.mp h
    simp only [daysBefore, h, if_true, newYear]
    omega
  · have hyear := mt hleap.mpr h
    simp only [daysBefore, h, newYear]
    split
    · contradiction
    · omega

theorem monthStart_succ (month : Int) :
    monthStart (month + 1) = monthStart month + monthLength month := by
  by_cases hlast : month % 12 = 11
  · have hyear : (month + 1) / 12 = month / 12 + 1 := by omega
    have hmonth : (month + 1) % 12 = 0 := by omega
    simp only [monthStart, monthLength, hyear, hmonth, hlast, newYear_succ]
    simp [daysBefore]
  · have hyear : (month + 1) / 12 = month / 12 := by omega
    have hmonth : ((month + 1) % 12).toNat = (month % 12).toNat + 1 := by omega
    simp only [monthStart, monthLength, hyear, hmonth]
    omega

theorem monthLength_bounds (month : Int) : 28 ≤ monthLength month ∧ monthLength month ≤ 31 := by
  obtain ⟨place, hplace⟩ : ∃ place, place = (month % 12).toNat := ⟨_, rfl⟩
  have hlt : place < 12 := by omega
  rw [monthLength, ← hplace]
  cases isLeap (month / 12) <;> interval_cases place <;> simp [daysBefore]

/-- The calendar comes round. -/
theorem monthLength_add_cycle (month : Int) : monthLength (month + 4800) = monthLength month := by
  have hyear : (month + 4800) / 12 = month / 12 + 400 := by omega
  have hmonth : (month + 4800) % 12 = month % 12 := by omega
  have hleap : isLeap (month / 12 + 400) = isLeap (month / 12) := by
    have h4 : (month / 12 + 400) % 4 = month / 12 % 4 := by omega
    have h100 : (month / 12 + 400) % 100 = month / 12 % 100 := by omega
    have h400 : (month / 12 + 400) % 400 = month / 12 % 400 := by omega
    simp only [isLeap, h4, h100, h400]
  simp only [monthLength, hyear, hmonth, hleap]

theorem monthStart_add (month : Int) (count : Nat) :
    monthStart month + 28 * count ≤ monthStart (month + count) := by
  induction count with
  | zero => simp
  | succ count ih =>
      have hsucc := monthStart_succ (month + count)
      have hlength := (monthLength_bounds (month + count)).1
      rw [Nat.cast_succ, ← Int.add_assoc]
      omega

theorem monthStart_lt {first second : Int} (h : first < second) :
    monthStart first + 28 ≤ monthStart second := by
  obtain ⟨count, rfl⟩ : ∃ count : Nat, second = first + (count + 1 : Nat) :=
    ⟨(second - first - 1).toNat, by omega⟩
  have hadd := monthStart_add first (count + 1)
  omega

theorem monthStart_le {first second : Int} (h : first ≤ second) :
    monthStart first ≤ monthStart second := by
  rcases Int.lt_or_eq_of_le h with hlt | rfl
  · have := monthStart_lt hlt
    omega
  · exact Int.le_refl _

/-! ## The month a day is in -/

/-- The last month, of those up to one, that starts no later than the days into the year. -/
@[grind =]
def monthIn (leap : Bool) (days : Int) : Nat → Nat
  | 0 => 0
  | month + 1 => if daysBefore leap (month + 1) ≤ days then month + 1 else monthIn leap days month

/-- The month of a day. -/
def monthOf (day : Int) : Int :=
  12 * yearOf day + monthIn (isLeap (yearOf day)) (day - newYear (yearOf day)) 11

/-- The day of its month, from 1. -/
def dayOfMonth (day : Int) : Int := day - monthStart (monthOf day) + 1

theorem monthIn_spec (leap : Bool) {days : Int} (hdays : 0 ≤ days) (last : Nat) :
    monthIn leap days last ≤ last ∧ daysBefore leap (monthIn leap days last) ≤ days ∧
      (monthIn leap days last < last → days < daysBefore leap (monthIn leap days last + 1)) := by
  induction last with
  | zero => exact ⟨Nat.le_refl _, by simpa [monthIn, daysBefore] using hdays, by simp [monthIn]⟩
  | succ month ih =>
      by_cases hstart : daysBefore leap (month + 1) ≤ days
      · simp [monthIn, hstart]
      · obtain ⟨hle, hbefore, hafter⟩ := ih
        simp only [monthIn, hstart, if_false]
        refine ⟨Nat.le_succ_of_le hle, hbefore, fun _ => ?_⟩
        by_cases hlast : monthIn leap days month = month
        · rw [hlast]
          exact Int.not_le.mp hstart
        · exact hafter (Nat.lt_of_le_of_ne hle hlast)

theorem monthStart_monthOf (day : Int) :
    monthStart (monthOf day) ≤ day ∧ day < monthStart (monthOf day + 1) := by
  have hyear := newYear_yearOf_le day
  have hnext := lt_newYear_yearOf_succ day
  rw [newYear_succ] at hnext
  obtain ⟨hle, hbefore, hafter⟩ := monthIn_spec (isLeap (yearOf day))
    (show 0 ≤ day - newYear (yearOf day) by omega) 11
  have hdiv : monthOf day / 12 = yearOf day := by rw [monthOf]; omega
  have hmod : (monthOf day % 12).toNat =
      monthIn (isLeap (yearOf day)) (day - newYear (yearOf day)) 11 := by rw [monthOf]; omega
  rw [monthStart_succ]
  simp only [monthStart, monthLength, hdiv, hmod]
  refine ⟨by omega, ?_⟩
  by_cases hlast : monthIn (isLeap (yearOf day)) (day - newYear (yearOf day)) 11 < 11
  · have := hafter hlast
    omega
  · have hdecember : monthIn (isLeap (yearOf day)) (day - newYear (yearOf day)) 11 = 11 := by omega
    rw [hdecember, show 11 + 1 = 12 from rfl]
    omega

/-- A day between the starts of two months is in the one they bound. -/
theorem monthOf_eq {day month : Int} (hle : monthStart month ≤ day)
    (hlt : day < monthStart (month + 1)) : monthOf day = month := by
  obtain ⟨hlow, hhigh⟩ := monthStart_monthOf day
  by_contra hne
  rcases Int.lt_or_gt_of_ne hne with hbefore | hafter
  · have := monthStart_le (show monthOf day + 1 ≤ month by omega)
    omega
  · have := monthStart_le (show month + 1 ≤ monthOf day by omega)
    omega

theorem monthOf_mono {first second : Int} (h : first ≤ second) : monthOf first ≤ monthOf second := by
  by_contra hlt
  have := monthStart_le (show monthOf second + 1 ≤ monthOf first by omega)
  have := (monthStart_monthOf first).1
  have := (monthStart_monthOf second).2
  omega

theorem dayOfMonth_bounds (day : Int) :
    1 ≤ dayOfMonth day ∧ dayOfMonth day ≤ monthLength (monthOf day) := by
  obtain ⟨hlow, hhigh⟩ := monthStart_monthOf day
  rw [monthStart_succ] at hhigh
  constructor
  · rw [dayOfMonth]
    omega
  · rw [dayOfMonth]
    omega

/-- A day of a month: `date(year, month, day)`. -/
def onDay (month day : Int) : Int := monthStart month + day - 1

section OnDay

variable {month day : Int} (hfirst : 1 ≤ day) (hlast : day ≤ monthLength month)

include hfirst hlast

theorem monthOf_onDay : monthOf (onDay month day) = month := by
  have hsucc := monthStart_succ month
  apply monthOf_eq
  · rw [onDay]
    omega
  · rw [onDay]
    omega

theorem dayOfMonth_onDay : dayOfMonth (onDay month day) = day := by
  rw [dayOfMonth, monthOf_onDay hfirst hlast, onDay]
  omega

end OnDay

theorem onDay_dayOfMonth (day : Int) : onDay (monthOf day) (dayOfMonth day) = day := by
  rw [onDay, dayOfMonth]
  omega

/-! ## Weeks -/

/-- `weekday`: Monday is 0. -/
def weekday (day : Int) : Int := (day + 3) % 7

/-- The week of a day, from its Monday. -/
def weekOf (day : Int) : Int := (day + 3) / 7

/-! ## Months between two wall times -/

/-- The time of day of a wall time. -/
def timeOf (wall : Int) : Int := wall % dayLength

theorem dayOf_timeOf (wall : Int) :
    wall = dayOf wall * dayLength + timeOf wall ∧ 0 ≤ timeOf wall ∧ timeOf wall < dayLength := by
  rw [dayOf, timeOf, dayLength]
  omega

/-- The whole months from a wall time to a later one: a month is not whole before the day, and
the time of day, it started at. -/
def monthsBetween (start later : Int) : Int :=
  let total := monthOf (dayOf later) - monthOf (dayOf start)
  if dayOfMonth (dayOf later) < dayOfMonth (dayOf start) ∨
      dayOfMonth (dayOf later) = dayOfMonth (dayOf start) ∧ timeOf later < timeOf start then
    total - 1
  else total

/-- When so many months are whole: on the day of the month, at the time of day, or at the end of
a month that lacks the day. -/
def monthMark (start count : Int) : Int :=
  let month := monthOf (dayOf start) + count
  if dayOfMonth (dayOf start) ≤ monthLength month then
    onDay month (dayOfMonth (dayOf start)) * dayLength + timeOf start
  else monthStart (month + 1) * dayLength

theorem monthMark_bounds (start count : Int) :
    monthStart (monthOf (dayOf start) + count) * dayLength ≤ monthMark start count ∧
      monthMark start count ≤ monthStart (monthOf (dayOf start) + count + 1) * dayLength := by
  obtain ⟨-, htime, htime'⟩ := dayOf_timeOf start
  have hfirst := (dayOfMonth_bounds (dayOf start)).1
  have hsucc := monthStart_succ (monthOf (dayOf start) + count)
  have hlength := (monthLength_bounds (monthOf (dayOf start) + count)).1
  unfold monthMark
  dsimp only
  by_cases hday : dayOfMonth (dayOf start) ≤ monthLength (monthOf (dayOf start) + count)
  · rw [if_pos hday, onDay]
    rw [dayLength] at htime' ⊢
    omega
  · rw [if_neg hday]
    rw [dayLength]
    omega

/-- So many months are whole from their mark on. -/
theorem le_monthsBetween_iff (start count later : Int) :
    count ≤ monthsBetween start later ↔ monthMark start count ≤ later := by
  obtain ⟨hwall, htime, htime'⟩ := dayOf_timeOf later
  obtain ⟨hlow, hhigh⟩ := monthStart_monthOf (dayOf later)
  obtain ⟨hmark, hmark'⟩ := monthMark_bounds start count
  have hlate : (if dayOfMonth (dayOf later) < dayOfMonth (dayOf start) ∨
      dayOfMonth (dayOf later) = dayOfMonth (dayOf start) ∧ timeOf later < timeOf start then
        monthOf (dayOf later) - monthOf (dayOf start) - 1
      else monthOf (dayOf later) - monthOf (dayOf start)) = monthsBetween start later := rfl
  rcases lt_trichotomy (monthOf (dayOf start) + count) (monthOf (dayOf later)) with
    hbefore | hsame | hafter
  · -- A month before the later's: its mark is past.
    have hstart := monthStart_le
      (show monthOf (dayOf start) + count + 1 ≤ monthOf (dayOf later) by omega)
    have hle : monthMark start count ≤ later := by
      rw [dayLength] at hwall htime' hmark'
      omega
    have hcount : count ≤ monthsBetween start later := by
      rw [← hlate]
      split <;> omega
    exact iff_of_true hcount hle
  · -- The later's own month: the day and the time of day tell.
    have hmonth := dayOfMonth_bounds (dayOf later)
    have hday : dayOfMonth (dayOf later) = dayOf later - monthStart (monthOf (dayOf later)) + 1 := rfl
    have htotal : monthOf (dayOf later) - monthOf (dayOf start) = count := by omega
    rw [← hlate, htotal]
    simp only [monthMark, hsame]
    by_cases hlong : dayOfMonth (dayOf start) ≤ monthLength (monthOf (dayOf later))
    · rw [if_pos hlong, onDay]
      obtain ⟨-, hstart, hstart'⟩ := dayOf_timeOf start
      rw [dayLength] at hwall htime' hstart' ⊢
      split <;> omega
    · have hsucc := monthStart_succ (monthOf (dayOf later))
      rw [if_neg hlong, if_pos (.inl (by omega))]
      rw [dayLength] at hwall htime' ⊢
      omega
  · -- A month after it: its mark is to come.
    have hstart := monthStart_le
      (show monthOf (dayOf later) + 1 ≤ monthOf (dayOf start) + count by omega)
    have hlt : ¬ monthMark start count ≤ later := by
      rw [dayLength] at hwall htime' hmark
      omega
    have hcount : ¬ count ≤ monthsBetween start later := by
      rw [← hlate]
      split <;> omega
    exact iff_of_false hcount hlt

theorem monthMark_zero (start : Int) : monthMark start 0 = start := by
  obtain ⟨hwall, -⟩ := dayOf_timeOf start
  have hday := (dayOfMonth_bounds (dayOf start)).2
  rw [monthMark]
  simp only [Int.add_zero]
  rw [if_pos hday, onDay_dayOfMonth]
  exact hwall.symm

/-- Marks are weeks apart, but for those a missing day puts at the ends of two months. -/
theorem monthMark_succ_lt (start count : Int) :
    monthMark start count < monthMark start (count + 1) := by
  have hmark := (monthMark_bounds start count).2
  have hnext := (monthMark_bounds start (count + 1)).1
  rw [← Int.add_assoc] at hnext
  refine lt_of_le_of_ne (hmark.trans hnext) fun heq => ?_
  -- They would both be at the end of the first month, which then lacks a day the second starts at.
  obtain ⟨-, htime, htime'⟩ := dayOf_timeOf start
  have hfirst := (dayOfMonth_bounds (dayOf start)).1
  have hsucc := monthStart_succ (monthOf (dayOf start) + count)
  have hsucc' := monthStart_succ (monthOf (dayOf start) + count + 1)
  have hlength := (monthLength_bounds (monthOf (dayOf start) + count)).1
  have hlength' := (monthLength_bounds (monthOf (dayOf start) + count + 1)).1
  simp only [monthMark, ← Int.add_assoc, onDay] at heq
  rw [dayLength] at heq htime'
  split at heq <;> split at heq <;> omega

theorem monthMark_lt {start count other : Int} (h : count < other) :
    monthMark start count < monthMark start other := by
  obtain ⟨more, rfl⟩ : ∃ more : Nat, other = count + 1 + more :=
    ⟨(other - count - 1).toNat, by omega⟩
  clear h
  induction more with
  | zero => simpa using monthMark_succ_lt start count
  | succ more ih =>
      have hnext := monthMark_succ_lt start (count + 1 + more)
      rw [Nat.cast_succ, ← Int.add_assoc]
      exact ih.trans hnext

theorem monthsBetween_monthMark (start count : Int) :
    monthsBetween start (monthMark start count) = count := by
  apply le_antisymm
  · by_contra hlt
    have hle := (le_monthsBetween_iff start (count + 1) (monthMark start count)).mp (by omega)
    exact absurd (monthMark_succ_lt start count) (not_lt.mpr hle)
  · exact (le_monthsBetween_iff start count _).mpr (le_refl _)

end SeverinoHQ.Math.Calendar
