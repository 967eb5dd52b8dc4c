/-
# An age in its largest unit

A length of time is said as a count of the largest unit that is whole in it: of calendar years or
months from the wall time it starts at, and below a month of weeks, days, hours or minutes. What
is said changes where such a count comes to be whole, and nowhere else.
-/

import SeverinoHQ.Math.Calendar

namespace SeverinoHQ.Math.Calendar

/-- A unit of one length. -/
inductive Chunk where
  | week
  | day
  | hour
  | minute
  deriving DecidableEq, Repr

/-- The microseconds of a unit. -/
def Chunk.length : Chunk → Int
  | .week => 7 * 24 * 60 * 60 * 1000000
  | .day => 24 * 60 * 60 * 1000000
  | .hour => 60 * 60 * 1000000
  | .minute => 60 * 1000000

/-- `TIME_CHUNKS`. -/
def chunks : List Chunk := [.week, .day, .hour, .minute]

inductive AgeUnit where
  | year
  | month
  | chunk (chunk : Chunk)
  deriving DecidableEq, Repr

/-- A count of one unit. -/
structure Age where
  count : Int
  unit : AgeUnit
  deriving DecidableEq, Repr

/-- `0 minutes`. -/
def Age.nothing : Age := ⟨0, .chunk .minute⟩

/-- The first of the units with a count. A unit without one leaves the whole time to the next. -/
def largestChunk (elapsed : Int) : List Chunk → Age
  | [] => .nothing
  | chunk :: rest =>
      if elapsed / chunk.length ≠ 0 then ⟨elapsed / chunk.length, .chunk chunk⟩
      else largestChunk elapsed rest

/-- Django's `timesince` to a depth of one unit: whole units, rounded down. The time past the
years and months is counted in the smaller units only where there are neither. -/
def timesince (start now : Int) : Age :=
  let elapsed := now - start
  if elapsed / 1000000 ≤ 0 then .nothing
  else
    let months := monthsBetween start now
    if months / 12 ≠ 0 then ⟨months / 12, .year⟩
    else if months % 12 ≠ 0 then ⟨months % 12, .month⟩
    else largestChunk elapsed chunks

/-! ## Where an age changes -/

/-- The unit a time below a month is said in. -/
def chunkOf (elapsed : Int) : Chunk :=
  if Chunk.week.length ≤ elapsed then .week
  else if Chunk.day.length ≤ elapsed then .day
  else if Chunk.hour.length ≤ elapsed then .hour
  else .minute

/-- A time below a month is a count of the unit it is said in, and nothing over. -/
def WholeChunk (elapsed : Int) : Prop := 0 < elapsed ∧ elapsed % (chunkOf elapsed).length = 0

/-- A count of months that is said: of months below a year, of whole years from there. -/
def Said (months : Int) : Prop := 1 ≤ months ∧ (months < 12 ∨ months % 12 = 0)

/-- At a wall time a count comes to be whole. -/
def Whole (start now : Int) : Prop :=
  (∃ months, Said months ∧ now = monthMark start months) ∨
    monthsBetween start now = 0 ∧ WholeChunk (now - start)

theorem chunkOf_cases (elapsed : Int) :
    chunkOf elapsed = .week ∧ Chunk.week.length ≤ elapsed ∨
      chunkOf elapsed = .day ∧ Chunk.day.length ≤ elapsed ∧ elapsed < Chunk.week.length ∨
      chunkOf elapsed = .hour ∧ Chunk.hour.length ≤ elapsed ∧ elapsed < Chunk.day.length ∨
      chunkOf elapsed = .minute ∧ elapsed < Chunk.hour.length := by
  by_cases hweek : Chunk.week.length ≤ elapsed
  · simp [chunkOf, hweek]
  · by_cases hday : Chunk.day.length ≤ elapsed
    · simp [chunkOf, hweek, hday, Int.not_le.mp hweek]
    · by_cases hhour : Chunk.hour.length ≤ elapsed
      · simp [chunkOf, hweek, hday, hhour, Int.not_le.mp hday]
      · simp [chunkOf, hweek, hday, hhour, Int.not_le.mp hhour]

/-- The unit it is said in, and how many of them are whole. -/
theorem largestChunk_eq {elapsed : Int} (h : 0 ≤ elapsed) :
    largestChunk elapsed chunks =
      ⟨elapsed / (chunkOf elapsed).length, .chunk (chunkOf elapsed)⟩ := by
  have hnone : ∀ chunk : Chunk, elapsed < chunk.length → ¬ elapsed / chunk.length ≠ 0 :=
    fun chunk hlt => not_not.mpr (Int.ediv_eq_zero_of_lt h hlt)
  have hsome : ∀ chunk : Chunk, chunk.length ≤ elapsed → elapsed / chunk.length ≠ 0 := by
    intro chunk hle
    cases chunk <;> simp only [Chunk.length] at hle ⊢ <;> omega
  have hsmaller : Chunk.day.length < Chunk.week.length ∧ Chunk.hour.length < Chunk.day.length ∧
      Chunk.minute.length < Chunk.hour.length := by decide
  simp only [largestChunk, chunks]
  rcases chunkOf_cases elapsed with ⟨heq, hle⟩ | ⟨heq, hle, hlt⟩ | ⟨heq, hle, hlt⟩ | ⟨heq, hlt⟩
  · rw [heq, if_pos (hsome .week hle)]
  · rw [heq, if_neg (hnone .week hlt), if_pos (hsome .day hle)]
  · rw [heq, if_neg (hnone .week (by omega)), if_neg (hnone .day hlt), if_pos (hsome .hour hle)]
  · rw [heq, if_neg (hnone .week (by omega)), if_neg (hnone .day (by omega)),
      if_neg (hnone .hour hlt)]
    by_cases hminute : Chunk.minute.length ≤ elapsed
    · rw [if_pos (hsome .minute hminute)]
    · rw [if_neg (hnone .minute (by omega)), Int.ediv_eq_zero_of_lt h (by omega)]
      rfl

theorem largestChunk_changes {elapsed : Int} (h : 0 < elapsed) :
    largestChunk elapsed chunks ≠ largestChunk (elapsed - 1) chunks ↔ WholeChunk elapsed := by
  rw [largestChunk_eq h.le, largestChunk_eq (by omega), WholeChunk]
  have hcases := chunkOf_cases elapsed
  have hcases' := chunkOf_cases (elapsed - 1)
  by_cases hsame : chunkOf elapsed = chunkOf (elapsed - 1)
  · rw [← hsame]
    cases chunkOf elapsed <;> simp [Chunk.length] <;> omega
  · -- The first whole one of a unit.
    have hdiffer : (⟨elapsed / (chunkOf elapsed).length, .chunk (chunkOf elapsed)⟩ : Age) ≠
        ⟨(elapsed - 1) / (chunkOf (elapsed - 1)).length, .chunk (chunkOf (elapsed - 1))⟩ := by
      simp [hsame]
    refine iff_of_true hdiffer ⟨h, ?_⟩
    cases hunit : chunkOf elapsed <;> cases hunit' : chunkOf (elapsed - 1) <;>
      simp [hunit, hunit', Chunk.length] at hcases hcases' hsame ⊢ <;> omega

/-- A month is four weeks at least, and no longer than two of them. -/
theorem monthMark_one_bounds (start : Int) :
    start + 28 * dayLength ≤ monthMark start 1 ∧ monthMark start 1 ≤ start + 62 * dayLength := by
  obtain ⟨hwall, htime, htime'⟩ := dayOf_timeOf start
  obtain ⟨hlow, hhigh⟩ := monthStart_monthOf (dayOf start)
  have hsucc := monthStart_succ (monthOf (dayOf start))
  have hsucc' := monthStart_succ (monthOf (dayOf start) + 1)
  have hlength := monthLength_bounds (monthOf (dayOf start))
  have hlength' := monthLength_bounds (monthOf (dayOf start) + 1)
  have hday : dayOfMonth (dayOf start) = dayOf start - monthStart (monthOf (dayOf start)) + 1 := rfl
  simp only [monthMark, onDay]
  rw [dayLength] at hwall htime' ⊢
  split <;> omega

theorem monthsBetween_nonneg {start now : Int} (h : start ≤ now) : 0 ≤ monthsBetween start now := by
  rw [le_monthsBetween_iff, monthMark_zero]
  exact h

/-- Below a month the time itself is said. -/
theorem timesince_of_days {start now : Int} (h : start ≤ now) (hmonths : monthsBetween start now = 0) :
    timesince start now = largestChunk (now - start) chunks := by
  have hzero : (0 : Int) / 12 = 0 ∧ (0 : Int) % 12 = 0 := by decide
  simp only [timesince, hmonths, hzero.1, hzero.2, ne_eq, not_true_eq_false, if_false]
  by_cases hsecond : (now - start) / 1000000 ≤ 0
  · rw [if_pos hsecond, largestChunk_eq (by omega)]
    have hshort : now - start < Chunk.minute.length := by
      rw [Chunk.length]
      omega
    have hsmaller : Chunk.minute.length < Chunk.hour.length ∧
        Chunk.hour.length < Chunk.day.length ∧ Chunk.day.length < Chunk.week.length := by decide
    have hminute : chunkOf (now - start) = .minute := by
      rcases chunkOf_cases (now - start) with ⟨-, hle⟩ | ⟨-, hle, -⟩ | ⟨-, hle, -⟩ | ⟨heq, -⟩
      · omega
      · omega
      · omega
      · exact heq
    rw [hminute, Int.ediv_eq_zero_of_lt (by omega) hshort]
    rfl
  · rw [if_neg hsecond]

/-- From a month on the months are. -/
theorem timesince_of_months {start now : Int} (hmonths : 1 ≤ monthsBetween start now) :
    timesince start now =
      if monthsBetween start now < 12 then ⟨monthsBetween start now, .month⟩
      else ⟨monthsBetween start now / 12, .year⟩ := by
  have hmark := (le_monthsBetween_iff start 1 now).mp hmonths
  have hlong := (monthMark_one_bounds start).1
  have hsecond : ¬ (now - start) / 1000000 ≤ 0 := by
    rw [dayLength] at hlong
    omega
  simp only [timesince]
  rw [if_neg hsecond]
  by_cases hyear : monthsBetween start now < 12
  · rw [if_pos hyear, if_neg (by omega), if_pos (by omega)]
    congr 1
    omega
  · rw [if_neg hyear, if_pos (by omega)]

/-- Until it starts nothing is said. -/
theorem timesince_of_le {start now : Int} (h : now ≤ start) : timesince start now = .nothing := by
  simp only [timesince]
  rw [if_pos (by omega)]

/-- With a count of months there is no other way of being whole. -/
theorem whole_iff {start now : Int} (hmonths : 1 ≤ monthsBetween start now) :
    Whole start now ↔
      Said (monthsBetween start now) ∧ now = monthMark start (monthsBetween start now) := by
  constructor
  · rintro (⟨months, hsaid, hmark⟩ | ⟨hnone, -⟩)
    · have hcount : monthsBetween start now = months := by
        rw [hmark]
        exact monthsBetween_monthMark start months
      rw [hcount]
      exact ⟨hsaid, hmark⟩
    · omega
  · exact fun ⟨hsaid, hmark⟩ => .inl ⟨_, hsaid, hmark⟩

theorem whole_of_days_iff {start now : Int} (hmonths : monthsBetween start now = 0) :
    Whole start now ↔ WholeChunk (now - start) := by
  constructor
  · rintro (⟨months, ⟨hpositive, -⟩, rfl⟩ | ⟨-, hwhole⟩)
    · rw [monthsBetween_monthMark] at hmonths
      omega
    · exact hwhole
  · exact fun hwhole => .inr ⟨hmonths, hwhole⟩

/-- The months of a wall time and of the one before it. -/
theorem monthsBetween_pred (start now : Int) :
    monthMark start (monthsBetween start now) ≠ now ∧
        monthsBetween start (now - 1) = monthsBetween start now ∨
      monthMark start (monthsBetween start now) = now ∧
        monthsBetween start (now - 1) = monthsBetween start now - 1 := by
  have hmark := (le_monthsBetween_iff start (monthsBetween start now) now).mp (Int.le_refl _)
  have hiff := fun count => le_monthsBetween_iff start count (now - 1)
  have hnext := mt (le_monthsBetween_iff start (monthsBetween start now + 1) now).mpr (by omega)
  have hlt := monthMark_succ_lt start (monthsBetween start now - 1)
  rw [Int.sub_add_cancel] at hlt
  by_cases hnow : monthMark start (monthsBetween start now) = now
  · have hlow := (hiff (monthsBetween start now - 1)).mpr (by omega)
    have hhigh := mt (hiff (monthsBetween start now)).mp (by omega)
    exact .inr ⟨hnow, by omega⟩
  · have hlow := (hiff (monthsBetween start now)).mpr (by omega)
    have hhigh := mt (hiff (monthsBetween start now + 1)).mp (by omega)
    exact .inl ⟨hnow, by omega⟩

/-- An age changes where a count comes to be whole. -/
theorem timesince_changes (start now : Int) :
    timesince start now ≠ timesince start (now - 1) ↔ Whole start now := by
  by_cases hpast : now ≤ start
  · have hsame : timesince start now = timesince start (now - 1) := by
      rw [timesince_of_le hpast, timesince_of_le (by omega)]
    refine iff_of_false (not_not.mpr hsame) ?_
    rintro (⟨months, ⟨hpositive, -⟩, rfl⟩ | ⟨-, hpositive, -⟩)
    · have hlater := @monthMark_lt start 0 months hpositive
      rw [monthMark_zero] at hlater
      omega
    · omega
  · push Not at hpast
    have hmonths := monthsBetween_nonneg hpast.le
    have hmonths' := monthsBetween_nonneg (show start ≤ now - 1 by omega)
    rcases monthsBetween_pred start now with ⟨hmark, hcount⟩ | ⟨hmark, hcount⟩
    · by_cases hnone : monthsBetween start now = 0
      · rw [timesince_of_days hpast.le hnone, timesince_of_days (by omega) (by omega),
          whole_of_days_iff hnone, show now - 1 - start = now - start - 1 by omega]
        exact largestChunk_changes (by omega)
      · rw [timesince_of_months (by omega), timesince_of_months (by omega), hcount,
          whole_iff (by omega)]
        simp [Ne.symm hmark]
    · rw [whole_iff (by omega), and_iff_left hmark.symm, timesince_of_months (by omega)]
      by_cases hfirst : monthsBetween start now = 1
      · -- The first month: weeks were said before it.
        rw [timesince_of_days (by omega) (by omega), largestChunk_eq (by omega), hfirst]
        simp [Said]
      · rw [timesince_of_months (by omega), hcount, Said]
        generalize monthsBetween start now = months at *
        by_cases hyear : months < 12
        · rw [if_pos hyear, if_pos (by omega)]
          simp
          omega
        · by_cases htwelve : months = 12
          · subst htwelve
            simp
          · rw [if_neg hyear, if_neg (by omega)]
            simp
            omega

theorem WholeChunk.minutes {elapsed : Int} (h : WholeChunk elapsed) :
    elapsed % Chunk.minute.length = 0 := by
  have hwhole := h.2
  cases hunit : chunkOf elapsed <;> simp only [hunit, Chunk.length] at hwhole ⊢ <;> omega

theorem WholeChunk.hours {elapsed : Int} (h : WholeChunk elapsed)
    (hlong : Chunk.hour.length ≤ elapsed) : elapsed % Chunk.hour.length = 0 := by
  have hwhole := h.2
  have hcases := chunkOf_cases elapsed
  cases hunit : chunkOf elapsed <;>
    simp only [hunit, Chunk.length, reduceCtorEq, false_and, or_self, or_false, false_or]
      at hwhole hcases hlong ⊢ <;> omega

section FromMidnight

/-! ### From the midnight a month starts at -/

variable {start : Int} (hfirst : dayOfMonth (dayOf start) = 1) (hmidnight : timeOf start = 0)

include hfirst hmidnight

/-- Months are days there. -/
theorem monthMark_days (months : Int) : (monthMark start months - start) % dayLength = 0 := by
  obtain ⟨hwall, -⟩ := dayOf_timeOf start
  have hlength := (monthLength_bounds (monthOf (dayOf start) + months)).1
  rw [hmidnight] at hwall
  simp only [monthMark, hfirst, hmidnight]
  rw [if_pos (by omega)]
  rw [dayLength] at hwall ⊢
  omega

/-- An age changes at a whole minute of it, and from an hour on at a whole hour. -/
theorem Whole.elapsed {elapsed : Int} (h : Whole start (start + elapsed)) :
    0 < elapsed ∧ elapsed % Chunk.minute.length = 0 ∧
      (Chunk.hour.length ≤ elapsed → elapsed % Chunk.hour.length = 0) := by
  rcases h with ⟨months, hsaid, hmark⟩ | ⟨-, hwhole⟩
  · have hlater := @monthMark_lt start 0 months hsaid.1
    have hdays := monthMark_days hfirst hmidnight months
    rw [monthMark_zero] at hlater
    rw [← hmark, add_sub_cancel_left, dayLength] at hdays
    simp only [Chunk.length]
    omega
  · rw [add_sub_cancel_left] at hwhole
    exact ⟨hwhole.1, hwhole.minutes, hwhole.hours⟩

end FromMidnight

/-! ## What changes at no step -/

/-- Constant over an interval is the same at every step of it. -/
theorem constant_iff {α : Type*} {f : Int → α} {first last : Int} :
    (∀ c, first ≤ c → c < last → f c = f first) ↔
      ∀ c, first < c → c < last → f c = f (c - 1) := by
  constructor
  · intro h c hfirst hlast
    rw [h c hfirst.le hlast, h (c - 1) (by omega) (by omega)]
  · intro h c hfirst
    induction c, hfirst using Int.leInduction with
    | base => exact fun _ => rfl
    | succ c hfirst ih =>
        intro hlast
        have hstep := h (c + 1) (by omega) hlast
        rw [Int.add_sub_cancel] at hstep
        exact hstep.trans (ih (by omega))

end SeverinoHQ.Math.Calendar
