/-
# How long the words of a moment stand

An age is held until the next whole minute of it, or the next whole hour once it is an hour old,
ahead or behind. The words of an age are a count of a larger unit as often as not, and where they
change is not on those marks throughout: a month of the moment's own calendar may come to be whole
at a midnight between them, and a moment ahead by exactly what is said of it is said to be nearer
an instant later.
-/

import SeverinoHQ.Derivations.Moments

namespace SeverinoHQ.Derivations

open SeverinoHQ.Math Calendar

/-- The quotient is so close below an integer that its floor is that integer. -/
def RoundsUp (age : Int) : Prop := wholeUnits age (ageUnit age) = age / ageUnit age + 1

instance (age : Int) : Decidable (RoundsUp age) := inferInstanceAs (Decidable (_ = _))

/-- The age words are held until: the next whole count of its unit, and the one after it where the
quotient rounds up. -/
def heldAge (age : Int) : Int :=
  (age / ageUnit age + 1 + if RoundsUp age then 1 else 0) * ageUnit age

namespace Moment

/-- A month or a year since the moment, one that is said, comes to be whole before the words are
held until. -/
def TurnsMonth (moment : Moment) (now : Int) : Prop :=
  ∃ months, Said months ∧ now < monthMark moment.wall months - moment.offset ∧
    monthMark moment.wall months - moment.offset <
      moment.instant + heldAge (now - moment.instant)

/-- The moment is ahead by exactly the length said of it. -/
def ExactlyAhead (moment : Moment) (now : Int) : Prop :=
  now < moment.instant ∧ Whole lengthStart (lengthStart + (moment.instant - now))

/-- The quotient rounds up to an hour at which the length said changes. -/
def RoundsOver (moment : Moment) (now : Int) : Prop :=
  RoundsUp (now - moment.instant) ∧
    Whole lengthStart (lengthStart +
      |((now - moment.instant) / ageUnit (now - moment.instant) + 1) *
        ageUnit (now - moment.instant)|)

end Moment

/-! ## The moment words are held until -/

/-- The floor of an age in units is the quotient's, or the next integer where it is not whole. -/
theorem wholeUnits_cases {age unit : Int} (hunit : 0 < unit)
    (hquotient : age.natAbs < 2 ^ 53 * unit.toNat) :
    wholeUnits age unit = age / unit ∨
      wholeUnits age unit = age / unit + 1 ∧ age % unit ≠ 0 := by
  obtain ⟨hlow, hhigh⟩ := Binary64.floorDivide_near (by omega) hquotient
  rw [Int.toNat_of_nonneg hunit.le] at hlow hhigh
  rw [wholeUnits, if_pos hunit.le]
  have hfloor : Binary64.floorDivide age unit.toNat - 1 ≤ (age - 1) / unit := by
    rw [Int.le_ediv_iff_mul_le hunit]
    omega
  have hmono : (age - 1) / unit ≤ age / unit := Int.ediv_le_ediv hunit (by omega)
  by_cases hwhole : age % unit = 0
  · -- Just below a whole count the quotient is one less.
    have hbelow : (age - 1) / unit < age / unit := by
      rw [Int.ediv_lt_iff_lt_mul hunit, Int.ediv_mul_cancel (Int.dvd_of_emod_eq_zero hwhole)]
      omega
    omega
  · omega

/-- What is held of an age: by the minute inside the hour, by the hour from there, and rounding up
only where a quotient of hours is out of binary64's reach. -/
theorem heldAge_cases {age : Int} (hage : age.natAbs < 2 ^ 53 * 60000000) :
    age.natAbs < 3600000000 ∧ ageUnit age = 60000000 ∧ ¬ RoundsUp age ∧
        heldAge age = (age / 60000000 + 1) * 60000000 ∨
      3600000000 ≤ age.natAbs ∧ ageUnit age = 3600000000 ∧ ¬ RoundsUp age ∧
        heldAge age = (age / 3600000000 + 1) * 3600000000 ∨
      2 ^ 53 ≤ age.natAbs ∧ ageUnit age = 3600000000 ∧ RoundsUp age ∧
        age % 3600000000 ≠ 0 ∧ heldAge age = (age / 3600000000 + 2) * 3600000000 := by
  by_cases hhour : age.natAbs < 3600000000
  · have hunit : ageUnit age = 60000000 := if_pos hhour
    have hrounds : ¬ RoundsUp age := by
      rw [RoundsUp, hunit, Question.wholeUnits_eq (by omega) (by omega)]
      omega
    refine .inl ⟨hhour, hunit, hrounds, ?_⟩
    rw [heldAge, hunit, if_neg hrounds, Int.add_zero]
  · have hunit : ageUnit age = 3600000000 := if_neg hhour
    by_cases hrounds : RoundsUp age
    · have hlarge : 2 ^ 53 ≤ age.natAbs := by
        by_contra hsmall
        have hfloor := hrounds
        rw [RoundsUp, hunit, Question.wholeUnits_eq (by omega) (by omega)] at hfloor
        omega
      have hrest : age % 3600000000 ≠ 0 := by
        have hfloor := hrounds
        rw [RoundsUp, hunit] at hfloor
        rcases @wholeUnits_cases age 3600000000 (by omega) (by omega) with heq | ⟨-, hne⟩
        · omega
        · exact hne
      refine .inr (.inr ⟨hlarge, hunit, hrounds, hrest, ?_⟩)
      rw [heldAge, hunit, if_pos hrounds]
      omega
    · refine .inr (.inl ⟨by omega, hunit, hrounds, ?_⟩)
      rw [heldAge, hunit, if_neg hrounds, Int.add_zero]

theorem wholeUnits_held {age : Int} (hage : age.natAbs < 2 ^ 53 * 60000000) :
    (wholeUnits age (ageUnit age) + 1) * ageUnit age = heldAge age := by
  have hunit : 0 < ageUnit age := by
    unfold ageUnit
    split <;> decide
  have hquotient : age.natAbs < 2 ^ 53 * (ageUnit age).toNat := by
    rcases heldAge_cases hage with h | h | h <;> omega
  rw [heldAge]
  by_cases hrounds : RoundsUp age
  · rw [if_pos hrounds, hrounds]
  · rcases wholeUnits_cases hunit hquotient with heq | ⟨heq, -⟩
    · rw [if_neg hrounds, heq, Int.add_zero]
    · exact absurd heq hrounds

/-- Two moments that are written lie within binary64's count of minutes. -/
theorem Moment.apart (moment now : Moment) :
    (now.instant - moment.instant).natAbs < 2 ^ 53 * 60000000 := by
  obtain ⟨hoffset, hoffset'⟩ := moment.offset_lt
  obtain ⟨hwritten, hwritten'⟩ := moment.written
  obtain ⟨hnow, hnow'⟩ := now.offset_lt
  obtain ⟨hnowWritten, hnowWritten'⟩ := now.written
  have hfirst : newYear 1 = -719162 := by decide
  have hlast : newYear 10000 = 2932897 := by decide
  simp only [hfirst, hlast, dayLength] at hwritten hwritten' hnowWritten hnowWritten'
  rw [dayLength] at hoffset hoffset' hnow hnow'
  omega

/-! ## The words from one instant to the next -/

theorem said_inj {age other : Age} :
    (if age = .nothing then Words.justNow else .ago age) =
        (if other = .nothing then Words.justNow else .ago other) ↔ age = other := by
  by_cases hage : age = .nothing <;> by_cases hother : other = .nothing <;>
    simp [hage, hother, eq_comm]

theorem saidLength_inj {age other : Age} :
    (if age = .nothing then Words.underAMinute else .length age) =
        (if other = .nothing then Words.underAMinute else .length other) ↔ age = other := by
  by_cases hage : age = .nothing <;> by_cases hother : other = .nothing <;>
    simp [hage, hother, eq_comm]

namespace Moment

theorem ago_changes (moment : Moment) (now : Int) :
    (moment.ago now).words ≠ (moment.ago (now - 1)).words ↔
      Whole moment.wall (now + moment.offset) := by
  rw [← timesince_changes]
  simp only [ago, ne_eq, said_inj, show now - 1 + moment.offset = now + moment.offset - 1 by omega]

/-- A length changes from the longer of the two to the other. -/
theorem length_changes (moment : Moment) (now : Int) :
    (moment.length now).words ≠ (moment.length (now - 1)).words ↔
      Whole lengthStart (lengthStart + max (now - moment.instant) (moment.instant - now + 1)) := by
  rw [← timesince_changes]
  simp only [length, ne_eq, saidLength_inj]
  by_cases hpast : moment.instant < now
  · rw [abs_of_pos (by omega), abs_of_nonneg (by omega), max_eq_left (by omega)]
    rw [show lengthStart + (now - 1 - moment.instant) =
      lengthStart + (now - moment.instant) - 1 by omega]
  · rw [abs_of_nonpos (by omega), abs_of_neg (by omega), max_eq_right (by omega)]
    rw [show lengthStart + -(now - moment.instant) =
        lengthStart + (moment.instant - now + 1) - 1 by omega,
      show lengthStart + -(now - 1 - moment.instant) =
        lengthStart + (moment.instant - now + 1) by omega, eq_comm]

/-! ## Where the words change while they are held -/

theorem lengthStart_midnight : dayOfMonth (dayOf lengthStart) = 1 ∧ timeOf lengthStart = 0 := by
  decide

/-- An age below a month is not whole between one count of its unit and the next. -/
theorem ago_whole_iff (moment now : Moment) :
    (∃ time, now.instant < time ∧
        time < moment.instant + heldAge (now.instant - moment.instant) ∧
        Whole moment.wall (time + moment.offset)) ↔ moment.TurnsMonth now.instant := by
  constructor
  · rintro ⟨time, hlater, hheld, ⟨months, hsaid, hmark⟩ | ⟨hnone, hwhole⟩⟩
    · exact ⟨months, hsaid, by omega, by omega⟩
    · exfalso
      rw [wall, add_sub_add_right_eq_sub] at hwhole
      have hpositive := hwhole.1
      have hminutes := hwhole.minutes
      have hhours := hwhole.hours
      have hmonth := mt (le_monthsBetween_iff moment.wall 1 (time + moment.offset)).mpr (by omega)
      have hlong := (monthMark_one_bounds moment.wall).2
      rw [dayLength] at hlong
      simp only [Chunk.length] at hminutes hhours
      rw [wall] at hmonth hlong
      rcases heldAge_cases (moment.apart now) with ⟨hage, -, -, hend⟩ | ⟨hage, -, -, hend⟩ |
        ⟨hage, -, -, -, hend⟩ <;> omega
  · rintro ⟨months, hsaid, hlater, hheld⟩
    exact ⟨_, hlater, hheld, .inl ⟨months, hsaid, by omega⟩⟩

/-- At a whole minute, or a whole hour from the first on. -/
theorem length_elapsed {elapsed : Int} (h : Whole lengthStart (lengthStart + elapsed)) :
    0 < elapsed ∧ elapsed % 60000000 = 0 ∧
      (3600000000 ≤ elapsed → elapsed % 3600000000 = 0) :=
  h.elapsed lengthStart_midnight.1 lengthStart_midnight.2

theorem whole_hour : Whole lengthStart (lengthStart + 3600000000) := by
  rw [← timesince_changes]
  decide

/-- A change of the length while it is held: the moment was ahead by exactly that length, or the
quotient rounds over it. -/
theorem exactlyAhead_or_roundsOver {moment now : Moment} {time : Int} (hlater : now.instant < time)
    (hheld : time < moment.instant + heldAge (now.instant - moment.instant))
    (hchange : Whole lengthStart
      (lengthStart + max (time - moment.instant) (moment.instant - time + 1))) :
    moment.ExactlyAhead now.instant ∨ moment.RoundsOver now.instant := by
  obtain ⟨hpositive, hminutes, hhours⟩ := length_elapsed hchange
  rcases heldAge_cases (moment.apart now) with ⟨hage, -, -, hend⟩ | ⟨hage, -, -, hend⟩ |
    ⟨hage, hunit, hrounds, hrest, hend⟩
  · have hexact : max (time - moment.instant) (moment.instant - time + 1) =
        moment.instant - now.instant := by omega
    rw [hexact] at hchange
    exact .inl ⟨by omega, hchange⟩
  · have hexact : max (time - moment.instant) (moment.instant - time + 1) =
        moment.instant - now.instant ∨ moment.instant - now.instant = 3600000000 := by omega
    rcases hexact with hexact | hhour
    · rw [hexact] at hchange
      exact .inl ⟨by omega, hchange⟩
    · refine .inl ⟨by omega, ?_⟩
      rw [hhour]
      exact whole_hour
  · have hexact : max (time - moment.instant) (moment.instant - time + 1) =
        |((now.instant - moment.instant) / 3600000000 + 1) * 3600000000| := by
      rcases lt_or_ge now.instant moment.instant with hahead | hpast
      · rw [abs_of_nonpos (by omega)]
        omega
      · rw [abs_of_nonneg (by omega)]
        omega
    rw [hexact] at hchange
    exact .inr ⟨hrounds, by rwa [hunit]⟩

/-- The length a moment is ahead by is the next instant's no more. -/
theorem ExactlyAhead.changes {moment now : Moment} (h : moment.ExactlyAhead now.instant) :
    now.instant + 1 < moment.instant + heldAge (now.instant - moment.instant) ∧
      Whole lengthStart (lengthStart +
        max (now.instant + 1 - moment.instant) (moment.instant - (now.instant + 1) + 1)) := by
  obtain ⟨hahead, hchange⟩ := h
  obtain ⟨-, hminutes, hhours⟩ := length_elapsed hchange
  constructor
  · rcases heldAge_cases (moment.apart now) with ⟨hage, -, -, hend⟩ | ⟨hage, -, -, hend⟩ |
      ⟨hage, -, -, hrest, hend⟩ <;> omega
  · rw [max_eq_right (by omega)]
    rwa [show moment.instant - (now.instant + 1) + 1 = moment.instant - now.instant by omega]

theorem RoundsOver.changes {moment now : Moment} (h : moment.RoundsOver now.instant) :
    ∃ time, now.instant < time ∧
      time < moment.instant + heldAge (now.instant - moment.instant) ∧
      Whole lengthStart
        (lengthStart + max (time - moment.instant) (moment.instant - time + 1)) := by
  obtain ⟨hrounds, hchange⟩ := h
  rcases heldAge_cases (moment.apart now) with ⟨-, -, hnot, -⟩ | ⟨-, -, hnot, -⟩ |
    ⟨hage, hunit, -, hrest, hend⟩
  · exact absurd hrounds hnot
  · exact absurd hrounds hnot
  · rw [hunit] at hchange
    rcases lt_or_ge now.instant moment.instant with hahead | hpast
    · rw [abs_of_nonpos (by omega)] at hchange
      refine ⟨moment.instant +
        ((now.instant - moment.instant) / 3600000000 + 1) * 3600000000 + 1, by omega, by omega, ?_⟩
      rw [max_eq_right (by omega)]
      convert hchange using 2
      omega
    · rw [abs_of_nonneg (by omega)] at hchange
      refine ⟨moment.instant +
        ((now.instant - moment.instant) / 3600000000 + 1) * 3600000000, by omega, by omega, ?_⟩
      rw [max_eq_left (by omega)]
      convert hchange using 2
      omega

/-- The length said changes an instant after it is exact, and where the quotient rounds over it. -/
theorem length_whole_iff (moment now : Moment) :
    (∃ time, now.instant < time ∧
        time < moment.instant + heldAge (now.instant - moment.instant) ∧
        Whole lengthStart
          (lengthStart + max (time - moment.instant) (moment.instant - time + 1))) ↔
      moment.ExactlyAhead now.instant ∨ moment.RoundsOver now.instant := by
  constructor
  · rintro ⟨time, hlater, hheld, hchange⟩
    exact exactlyAhead_or_roundsOver hlater hheld hchange
  · rintro (hexact | hrounds)
    · exact ⟨now.instant + 1, by omega, hexact.changes⟩
    · exact hrounds.changes

/-! ## The words stand -/

variable {zone : Zone}

/-- Words that ask how long ago the moment was stand where they change at no instant they are
held over. -/
theorem stand_iff {moment now : Moment} {wording : Int → Wording}
    (hasked : (wording now.instant).asked = [.since moment.aware none]) :
    WordsStand zone wording now.instant ↔
      ¬ ∃ time, now.instant < time ∧
        time < moment.instant + heldAge (now.instant - moment.instant) ∧
        (wording time).words ≠ (wording (time - 1)).words := by
  have hheld : ∀ later, (∀ question ∈ (wording now.instant).asked,
      ∀ said ∈ question.boundary zone now.instant, later < said.instant zone) ↔
        later < moment.instant + heldAge (now.instant - moment.instant) := by
    intro later
    rw [hasked, ← wholeUnits_held (moment.apart now)]
    simp [Question.boundary, Question.current, aware, Aware.since, Aware.plus, Aware.instant]
  have hconstant := @constant_iff _ (fun time => (wording time).words) now.instant
    (moment.instant + heldAge (now.instant - moment.instant))
  simp only [WordsStand, hheld]
  rw [hconstant]
  push Not
  rfl

theorem ago_stand_iff (moment now : Moment) :
    WordsStand zone moment.ago now.instant ↔ ¬ moment.TurnsMonth now.instant := by
  rw [stand_iff rfl, ← ago_whole_iff moment now]
  simp only [ago_changes]

theorem length_stand_iff (moment now : Moment) :
    WordsStand zone moment.length now.instant ↔
      ¬ moment.ExactlyAhead now.instant ∧ ¬ moment.RoundsOver now.instant := by
  rw [stand_iff rfl, ← not_or, ← length_whole_iff moment now]
  simp only [length_changes]

/-- What is said of a moment to come is its length until it is reached, and then its age. -/
theorem ahead_stand {moment now : Moment} (hago : WordsStand zone moment.ago now.instant)
    (hlength : WordsStand zone moment.length now.instant) :
    WordsStand zone moment.ahead now.instant := by
  intro later hlater hasked
  by_cases hreached : moment.instant ≤ now.instant
  · have hreached' : moment.instant ≤ later := hreached.trans hlater
    simp only [ahead, if_pos hreached, if_pos hreached'] at hasked ⊢
    exact hago later hlater fun question hquestion => hasked question (.tail _ hquestion)
  · simp only [ahead, if_neg hreached] at hasked ⊢
    -- The moment itself is one the clock was asked about.
    have hbefore : later < moment.instant := by
      refine hasked (.reached moment.aware none) (.head _) moment.aware ?_
      simp [Question.boundary, Question.current, aware, Aware.before, Aware.instant,
        Int.not_le.mp hreached]
    rw [if_neg (Int.not_le.mpr hbefore)]
    exact congrArg Words.ahead
      (hlength later hlater fun question hquestion => hasked question (.tail _ hquestion))

/-- The words of a moment stand as long as they are held where no month or year of its age comes to
be whole in that time, it is not ahead by exactly the length said, and the quotient of its age does
not round over a change of that length. -/
theorem words_stand_iff (zone : Zone) (moment now : Moment) :
    (WordsStand zone moment.ago now.instant ∧ WordsStand zone moment.length now.instant ∧
        WordsStand zone moment.ahead now.instant) ↔
      ¬ moment.TurnsMonth now.instant ∧ ¬ moment.ExactlyAhead now.instant ∧
        ¬ moment.RoundsOver now.instant := by
  rw [← @ago_stand_iff zone moment now, ← @length_stand_iff zone moment now]
  constructor
  · rintro ⟨hago, hlength, -⟩
    exact ⟨hago, hlength⟩
  · rintro ⟨hago, hlength⟩
    exact ⟨hago, hlength, ahead_stand hago hlength⟩

/-! ## Words that do not stand -/

/-- The 31st of January 2026, 10:30 UTC. -/
def lateJanuary : Moment := ⟨1769855400000000, 0, by decide, by decide⟩

/-- The 28th of February 2026, 23:45 UTC. -/
def lateFebruary : Moment := ⟨1772322300000000, 0, by decide, by decide⟩

/-- At 23:45 on the 28th of February the 31st of January was four weeks ago, and that is held until
00:30; at 00:10 it was a month ago. -/
theorem month_turns :
    ¬ ∀ (zone : Zone) (moment now : Moment),
      WordsStand zone moment.ago now.instant ∧ WordsStand zone moment.length now.instant ∧
        WordsStand zone moment.ahead now.instant := by
  intro h
  obtain ⟨hago, -⟩ := h ⟨0, [], .nil⟩ lateJanuary lateFebruary
  have hsame := hago 1772323800000000 (by decide) (by decide)
  exact absurd hsame (by decide)

end Moment

end SeverinoHQ.Derivations
