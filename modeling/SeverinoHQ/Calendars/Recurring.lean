/-
# The days an entry falls on

What an entry's rule says of a day, by the day alone, and that the loops make those days in
ascending order and without end.
-/

import SeverinoHQ.Calendars.Entries

namespace SeverinoHQ.Calendars

open SeverinoHQ.Math SeverinoHQ.Math.Calendar SeverinoHQ.Math.Recurrence

namespace Entry

variable (entry : Entry)

/-- An occurrence starts on the day, if the entry still repeats then. -/
def Falls (day : Int) : Prop :=
  entry.startsOn ≤ day ∧
    match entry.repeats with
    | .none => day = entry.startsOn
    | .daily => (entry.interval : Int) ∣ day - entry.startsOn
    | .weekly => weekday day ∈ entry.weekdays ∧
        (entry.interval : Int) ∣ weekOf day - weekOf entry.startsOn
    | .monthly => dayOfMonth day = dayOfMonth entry.startsOn ∧
        (entry.interval : Int) ∣ monthOf day - monthOf entry.startsOn
    | .yearly => dayOfMonth day = dayOfMonth entry.startsOn ∧
        12 * (entry.interval : Int) ∣ monthOf day - monthOf entry.startsOn

variable {entry}

theorem interval_pos : 0 < entry.interval := entry.interval_in_range.1

theorem le_mul_interval (index : Nat) : index ≤ index * entry.interval :=
  Nat.le_mul_of_pos_right index interval_pos

end Entry

/-- So many turns of an interval. -/
theorem dvd_iff_turns {interval : Nat} (hpos : 0 < interval) {days : Int} (hdays : 0 ≤ days) :
    (interval : Int) ∣ days ↔ ∃ index : Nat, days = (index * interval : Nat) := by
  constructor
  · rintro ⟨turns, hturns⟩
    have hnonneg : 0 ≤ turns := by
      by_contra hneg
      have hneg := Int.mul_neg_of_pos_of_neg (Int.natCast_pos.mpr hpos) (not_le.mp hneg)
      omega
    refine ⟨turns.toNat, ?_⟩
    rw [hturns, Int.natCast_mul, Int.toNat_of_nonneg hnonneg, Int.mul_comm]
  · rintro ⟨index, hturns⟩
    refine ⟨(index : Int), ?_⟩
    rw [hturns, Int.natCast_mul, Int.mul_comm]

/-- Steps that each keep to their own stretch of days are ascending. -/
theorem ascending_of_stretches {steps : Nat → List Int} (low : Nat → Int)
    (hmono : ∀ index, low index ≤ low (index + 1))
    (hlow : ∀ index, ∀ day ∈ steps index, low index ≤ day ∧ day < low (index + 1))
    (hpair : ∀ index, (steps index).Pairwise (· < ·)) (count : Nat) :
    (upTo steps count).Pairwise (· < ·) ∧ ∀ day ∈ upTo steps count, day < low count := by
  induction count with
  | zero => simp [upTo]
  | succ count ih =>
      rw [upTo_succ]
      constructor
      · rw [List.pairwise_append]
        exact ⟨ih.1, hpair count, fun day hday other hother =>
          (ih.2 day hday).trans_le (hlow count other hother).1⟩
      · intro day hday
        rcases List.mem_append.mp hday with hearlier | hnow
        · exact (ih.2 day hearlier).trans_le (hmono count)
        · exact (hlow count day hnow).2

namespace Entry

variable {entry : Entry}

/-! ## Daily -/

theorem recurs_daily : Recurs entry.daily entry.startsOn 4800 where
  ascending count := by
    refine (ascending_of_stretches (fun index => entry.startsOn + (index * entry.interval : Nat))
      (fun index => ?_) (fun index day hday => ?_) (fun index => ?_) count).1
    · rw [Nat.succ_mul]
      omega
    · have hpos := @interval_pos entry
      rw [daily, List.mem_singleton] at hday
      rw [Nat.succ_mul]
      omega
    · simp [daily]
  later index day hday := by
    have hle := @le_mul_interval entry index
    rw [daily, List.mem_singleton] at hday
    omega
  endless index := ⟨index, Nat.le_refl _, by omega, by simp [daily]⟩

theorem recurring_daily (h : entry.repeats = .daily) (day : Int) :
    Recurring entry.daily day ↔ entry.Falls day := by
  rw [Falls, h]
  constructor
  · rintro ⟨index, hday⟩
    rw [daily, List.mem_singleton] at hday
    have hle : entry.startsOn ≤ day := by omega
    refine ⟨hle, (dvd_iff_turns interval_pos (by omega)).mpr ⟨index, ?_⟩⟩
    omega
  · rintro ⟨hle, hdvd⟩
    obtain ⟨index, hturns⟩ := (dvd_iff_turns interval_pos (by omega)).mp hdvd
    refine ⟨index, ?_⟩
    rw [daily, List.mem_singleton]
    omega

/-! ## Weekly -/

theorem weekdays_bounds : ∀ number ∈ entry.weekdays, 0 ≤ number ∧ number < 7 := by
  intro number hnumber
  by_cases hnone : entry.weekdayNumbers = []
  · rw [weekdays, if_pos hnone, List.mem_singleton] at hnumber
    rw [hnumber, weekday]
    omega
  · rw [weekdays, if_neg hnone] at hnumber
    exact entry.weekdays_in_week number hnumber

theorem weekdays_sorted : entry.weekdays.Pairwise (· < ·) := by
  by_cases hnone : entry.weekdayNumbers = []
  · simp [weekdays, hnone]
  · simpa [weekdays, hnone] using entry.weekdays_ascending

theorem weekdays_ne_nil : entry.weekdays ≠ [] := by
  by_cases hnone : entry.weekdayNumbers = []
  · simp [weekdays, hnone]
  · simp [weekdays, hnone]

theorem mem_weekly {index : Nat} {day : Int} :
    day ∈ entry.weekly index ↔ entry.startsOn ≤ day ∧ ∃ number ∈ entry.weekdays,
      day = 7 * (weekOf entry.startsOn + (index * entry.interval : Nat)) - 3 + number := by
  have hweek : entry.startsOn - weekday entry.startsOn = 7 * weekOf entry.startsOn - 3 := by
    rw [weekday, weekOf]
    omega
  rw [weekly, List.mem_filter, List.mem_map, hweek, decide_eq_true_eq, and_comm]
  refine and_congr_right fun _ => exists_congr fun number => and_congr_right fun _ => ?_
  constructor
  · intro heq
    omega
  · intro heq
    omega

theorem recurs_weekly : Recurs entry.weekly entry.startsOn 4800 where
  ascending count := by
    refine (ascending_of_stretches
      (fun index => 7 * (weekOf entry.startsOn + (index * entry.interval : Nat)) - 3)
      (fun index => ?_) (fun index day hday => ?_) (fun index => ?_) count).1
    · rw [Nat.succ_mul]
      omega
    · obtain ⟨-, number, hnumber, rfl⟩ := mem_weekly.mp hday
      have hbounds := weekdays_bounds number hnumber
      have hpos := @interval_pos entry
      rw [Nat.succ_mul]
      omega
    · apply List.Pairwise.filter
      rw [List.pairwise_map]
      exact weekdays_sorted.imp fun hlt => by omega
  later index day hday := by
    obtain ⟨hle, number, hnumber, hday⟩ := mem_weekly.mp hday
    have hbounds := weekdays_bounds number hnumber
    have hturns := @le_mul_interval entry index
    have hweek : entry.startsOn ≤ 7 * weekOf entry.startsOn + 3 := by
      rw [weekOf]
      omega
    by_cases hfirst : index = 0
    · omega
    · omega
  endless index := by
    obtain ⟨number, hnumber⟩ := List.exists_mem_of_ne_nil _ (@weekdays_ne_nil entry)
    have hbounds := weekdays_bounds number hnumber
    have hturns := @le_mul_interval entry (index + 1)
    have hweek : entry.startsOn ≤ 7 * weekOf entry.startsOn + 3 := by
      rw [weekOf]
      omega
    refine ⟨index + 1, by omega, by omega, List.ne_nil_of_mem (mem_weekly.mpr ⟨?_, number, hnumber,
      rfl⟩)⟩
    omega

theorem recurring_weekly (h : entry.repeats = .weekly) (day : Int) :
    Recurring entry.weekly day ↔ entry.Falls day := by
  rw [Falls, h]
  constructor
  · rintro ⟨index, hday⟩
    obtain ⟨hle, number, hnumber, hday⟩ := mem_weekly.mp hday
    have hbounds := weekdays_bounds number hnumber
    have hnamed : weekday day = number := by
      rw [weekday]
      omega
    have hweek : weekOf day = weekOf entry.startsOn + (index * entry.interval : Nat) := by
      rw [weekOf]
      omega
    refine ⟨hle, hnamed ▸ hnumber, (dvd_iff_turns interval_pos (by omega)).mpr ⟨index, ?_⟩⟩
    omega
  · rintro ⟨hle, hnamed, hdvd⟩
    have hlater : weekOf entry.startsOn ≤ weekOf day := by
      rw [weekOf, weekOf]
      omega
    obtain ⟨index, hturns⟩ := (dvd_iff_turns interval_pos (by omega)).mp hdvd
    refine ⟨index, mem_weekly.mpr ⟨hle, weekday day, hnamed, ?_⟩⟩
    rw [← hturns, weekday, weekOf, weekOf]
    omega

/-! ## Monthly and yearly -/

section Months

variable {months : Nat}

theorem mem_everyMonths {index : Nat} {day : Int} :
    day ∈ entry.everyMonths months index ↔
      dayOfMonth day = dayOfMonth entry.startsOn ∧
        monthOf day = monthOf entry.startsOn + (index * months : Nat) := by
  have hfirst := (dayOfMonth_bounds entry.startsOn).1
  by_cases hlast : dayOfMonth entry.startsOn ≤
      monthLength (monthOf entry.startsOn + (index * months : Nat))
  · rw [everyMonths, if_pos hlast, List.mem_singleton]
    constructor
    · rintro rfl
      exact ⟨dayOfMonth_onDay hfirst hlast, monthOf_onDay hfirst hlast⟩
    · rintro ⟨hday, hmonth⟩
      rw [← hday, ← hmonth, onDay_dayOfMonth]
  · rw [everyMonths, if_neg hlast]
    constructor
    · simp
    · rintro ⟨hday, hmonth⟩
      have := (dayOfMonth_bounds day).2
      rw [hday, hmonth] at this
      exact absurd this hlast

theorem monthLength_add_cycles (month : Int) (count : Nat) :
    monthLength (month + (4800 * count : Nat)) = monthLength month := by
  induction count with
  | zero => simp
  | succ count ih =>
      rw [← ih, ← monthLength_add_cycle (month + (4800 * count : Nat))]
      congr 1
      omega

theorem recurs_everyMonths (hmonths : 0 < months) :
    Recurs (entry.everyMonths months) entry.startsOn 4800 where
  ascending count := by
    refine (ascending_of_stretches
      (fun index => monthStart (monthOf entry.startsOn + (index * months : Nat)))
      (fun index => ?_) (fun index day hday => ?_) (fun index => ?_) count).1
    · apply monthStart_le
      rw [Nat.succ_mul]
      omega
    · obtain ⟨-, hmonth⟩ := mem_everyMonths.mp hday
      obtain ⟨hlow, hhigh⟩ := monthStart_monthOf day
      rw [hmonth] at hlow hhigh
      refine ⟨hlow, hhigh.trans_le (monthStart_le ?_)⟩
      rw [Nat.succ_mul]
      omega
    · unfold everyMonths
      dsimp only
      split
      · simp
      · simp
  later index day hday := by
    obtain ⟨hday, hmonth⟩ := mem_everyMonths.mp hday
    have hstart := monthStart_add (monthOf entry.startsOn) (index * months)
    have hturns : index ≤ index * months := Nat.le_mul_of_pos_right index hmonths
    rw [dayOfMonth, dayOfMonth, hmonth] at hday
    omega
  endless index := by
    obtain ⟨count, hcount⟩ : ∃ count, count = (index + 4799) / 4800 := ⟨_, rfl⟩
    refine ⟨4800 * count, by omega, by omega, ?_⟩
    have hlength := monthLength_add_cycles (monthOf entry.startsOn) (count * months)
    rw [← Nat.mul_assoc] at hlength
    rw [everyMonths, hlength, if_pos (dayOfMonth_bounds entry.startsOn).2]
    simp

theorem recurring_everyMonths (hmonths : 0 < months) (day : Int) :
    Recurring (entry.everyMonths months) day ↔
      entry.startsOn ≤ day ∧ dayOfMonth day = dayOfMonth entry.startsOn ∧
        (months : Int) ∣ monthOf day - monthOf entry.startsOn := by
  constructor
  · rintro ⟨index, hmem⟩
    obtain ⟨hday, hmonth⟩ := mem_everyMonths.mp hmem
    have hlater := (recurs_everyMonths hmonths).later index day hmem
    refine ⟨by omega, hday, (dvd_iff_turns hmonths (by omega)).mpr ⟨index, ?_⟩⟩
    omega
  · rintro ⟨hle, hday, hdvd⟩
    have hlater := monthOf_mono hle
    obtain ⟨index, hturns⟩ := (dvd_iff_turns hmonths (by omega)).mp hdvd
    refine ⟨index, mem_everyMonths.mpr ⟨hday, ?_⟩⟩
    omega

end Months

/-! ## Any rule -/

theorem recurs_steps (h : entry.repeats ≠ .none) : Recurs entry.steps entry.startsOn 4800 := by
  cases hrepeats : entry.repeats with
  | none => exact absurd hrepeats h
  | daily => simpa [steps, hrepeats] using recurs_daily
  | weekly => simpa [steps, hrepeats] using recurs_weekly
  | monthly => simpa [steps, hrepeats, monthly] using recurs_everyMonths interval_pos
  | yearly =>
      have hmonths : 0 < 12 * entry.interval := Nat.mul_pos (by decide) interval_pos
      simpa [steps, hrepeats, yearly] using recurs_everyMonths hmonths

theorem recurring_steps (h : entry.repeats ≠ .none) (day : Int) :
    Recurring entry.steps day ↔ entry.Falls day := by
  cases hrepeats : entry.repeats with
  | none => exact absurd hrepeats h
  | daily => simpa [steps, hrepeats] using recurring_daily hrepeats day
  | weekly => simpa [steps, hrepeats] using recurring_weekly hrepeats day
  | monthly =>
      simpa [steps, hrepeats, monthly, Falls] using recurring_everyMonths interval_pos day
  | yearly =>
      have hmonths : 0 < 12 * entry.interval := Nat.mul_pos (by decide) interval_pos
      simpa [steps, hrepeats, yearly, Falls] using recurring_everyMonths hmonths day

end Entry

end SeverinoHQ.Calendars
