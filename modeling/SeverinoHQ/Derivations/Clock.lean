/-
# What a derivation asks of the clock

The questions of `derivations.py` that read the clock, each with the answer it
gives and the moment it says that answer stops standing. `reached`, `passed`,
`whole` and `since` may be handed the moment to answer at; the others read the
clock themselves. `Plain` is the condition under which the moment said is right.
-/

import SeverinoHQ.Math.Binary64
import SeverinoHQ.Math.Datetime

namespace SeverinoHQ.Derivations

open SeverinoHQ.Math

/-- A question that reads the clock. Units are microseconds. -/
inductive Question where
  | reached (moment : Aware) (now : Option Aware)
  | passed (moment : Aware) (now : Option Aware)
  | whole (since : Aware) (unit : Int) (now : Option Aware)
  | today
  | thisYear
  | since (moment : Aware) (now : Option Aware)
  | present
  | holdsUntil (moment : Aware)
  deriving DecidableEq, Repr

/-- What a question is answered. -/
inductive Reading where
  | truth (value : Bool)
  | count (value : Int)
  | day (value : Int)
  | year (value : Int)
  | age (value : Int)
  | moment (value : Aware)
  | nothing
  deriving DecidableEq, Repr

/-- `math.floor(elapsed / unit)`, of two timedeltas. -/
def wholeUnits (elapsed unit : Int) : Int :=
  if 0 ≤ unit then Binary64.floorDivide elapsed unit.toNat
  else Binary64.floorDivide (-elapsed) (-unit).toNat

/-- The unit an age is worded in: minutes inside the hour, hours after it. -/
def ageUnit (age : Int) : Int :=
  if age.natAbs < 60 * 60 * 1000000 then 60 * 1000000 else 60 * 60 * 1000000

namespace Question

/-- A division by a unit of nothing raises. -/
def raises : Question → Bool
  | .whole _ unit _ => unit == 0
  | _ => false

variable (zone : Zone)

/-- `now or clock()`. -/
def current (now : Option Aware) (clock : Int) : Aware := now.getD (.utc clock)

/-- The answer at a reading of the clock. -/
def reading (clock : Int) : Question → Reading
  | .reached moment now => .truth (!(current now clock).before zone moment)
  | .passed moment now => .truth (moment.before zone (current now clock))
  | .whole start unit now => .count (wholeUnits ((current now clock).since zone start) unit)
  | .today => .day (dayOf (zone.wall clock))
  | .thisYear => .year (yearOf (dayOf (zone.wall clock)))
  | .since moment now => .age ((current now clock).since zone moment)
  | .present => .moment (.utc clock)
  | .holdsUntil _ => .nothing

/-- `_midnight_after`, of the local day at a reading of the clock. -/
def midnightAfter (clock : Int) : Aware :=
  .wall ((dayOf (zone.wall clock) + 1) * dayLength) false

/-- The moment the question says its answer stops standing, if it says one. -/
def boundary (clock : Int) : Question → Option Aware
  | .reached moment now => if (current now clock).before zone moment then some moment else none
  | .passed moment now => if moment.before zone (current now clock) then none else some moment
  | .whole start unit now =>
      some (start.plus ((wholeUnits ((current now clock).since zone start) unit + 1) * unit))
  | .today => some (midnightAfter zone clock)
  | .thisYear =>
      some (.wall (newYear (yearOf (dayOf (zone.wall clock)) + 1) * dayLength) false)
  | .since moment now =>
      let age := (current now clock).since zone moment
      some (moment.plus ((wholeUnits age (ageUnit age) + 1) * ageUnit age))
  | .present => none
  | .holdsUntil moment => some moment

/-- One of the questions whose answer stands, asked where the moment it says is
right: a count of whole units over less than 285 years whose end is no later by
the zone's wall clock than by the units, a day or a year in a zone that keeps its
days. An answer at a moment handed in never changes. -/
def Plain (clock : Int) : Question → Prop
  | .reached _ _ | .passed _ _ | .holdsUntil _ => True
  | .whole start unit none =>
      0 < unit ∧ (clock - start.instant zone).natAbs + unit.toNat ≤ 2 ^ 53 ∧
        (start.plus ((wholeUnits (clock - start.instant zone) unit + 1) * unit)).instant zone ≤
          start.instant zone + (wholeUnits (clock - start.instant zone) unit + 1) * unit
  | .whole _ _ (some _) => True
  | .today | .thisYear => zone.KeepsDays
  | .since _ _ | .present => False

/-- The reading stands from `clock` until the boundary. -/
def Stands (question : Question) (answer : Reading) (clock : Int) (until? : Option Aware) : Prop :=
  ∀ later, clock ≤ later → (∀ moment ∈ until?, later < moment.instant zone) →
    question.reading zone later = answer

variable {zone} {clock : Int}

theorem before_utc {later : Int} {moment : Aware} :
    (Aware.utc later).before zone moment = decide (later < moment.instant zone) := by
  cases moment <;> rfl

theorem before_of_utc {later : Int} {moment : Aware} :
    moment.before zone (.utc later) = decide (moment.instant zone < later) := by
  cases moment <;> rfl

theorem since_utc {later : Int} {moment : Aware} :
    (Aware.utc later).since zone moment = later - moment.instant zone := by
  cases moment <;> rfl

theorem stands_reached (moment : Aware) (now : Option Aware) :
    Stands zone (.reached moment now) ((reached moment now).reading zone clock) clock
      ((reached moment now).boundary zone clock) := by
  intro later hle hbefore
  cases now with
  | some now => rfl
  | none =>
      simp only [reading, boundary, current, Option.getD_none, before_utc, Reading.truth.injEq,
        decide_eq_true_eq] at hbefore ⊢
      by_cases hreached : clock < moment.instant zone
      · have := hbefore moment (by simp [hreached])
        simp [hreached, this]
      · have : ¬ later < moment.instant zone := by omega
        simp [hreached, this]

theorem stands_passed (moment : Aware) (now : Option Aware) :
    Stands zone (.passed moment now) ((passed moment now).reading zone clock) clock
      ((passed moment now).boundary zone clock) := by
  intro later hle hbefore
  cases now with
  | some now => rfl
  | none =>
      simp only [reading, boundary, current, Option.getD_none, before_of_utc,
        Reading.truth.injEq, decide_eq_true_eq] at hbefore ⊢
      by_cases hpassed : moment.instant zone < clock
      · have : moment.instant zone < later := by omega
        simp [hpassed, this]
      · have := hbefore moment (by simp [hpassed])
        have : ¬ moment.instant zone < later := by omega
        simp [hpassed, this]

/-- Below the bound a count of whole units is the quotient. -/
theorem wholeUnits_eq {elapsed unit : Int} (hunit : 0 < unit) (hsmall : elapsed.natAbs < 2 ^ 53) :
    wholeUnits elapsed unit = elapsed / unit := by
  rw [wholeUnits, if_pos hunit.le, Binary64.floorDivide_eq (by omega) hsmall,
    Int.toNat_of_nonneg hunit.le]

theorem stands_whole {start : Aware} {unit : Int}
    (hplain : (whole start unit none).Plain zone clock) :
    Stands zone (.whole start unit none) ((whole start unit none).reading zone clock) clock
      ((whole start unit none).boundary zone clock) := by
  obtain ⟨hunit, hsmall, hend⟩ := hplain
  intro later hle hbefore
  have hlater : later < (start.plus
      ((wholeUnits (clock - start.instant zone) unit + 1) * unit)).instant zone := by
    apply hbefore
    simp [boundary, current, since_utc]
  simp only [reading, current, Option.getD_none, since_utc, Reading.count.injEq]
  have hclock := wholeUnits_eq hunit
    (show (clock - start.instant zone).natAbs < 2 ^ 53 by omega)
  rw [hclock] at hend hlater ⊢
  have hquotient := Int.mul_ediv_add_emod (clock - start.instant zone) unit
  have hmod := Int.emod_nonneg (clock - start.instant zone) hunit.ne'
  have hcount : (clock - start.instant zone) / unit * unit ≤ clock - start.instant zone := by
    rw [Int.mul_comm]
    omega
  have hend : later - start.instant zone < ((clock - start.instant zone) / unit + 1) * unit := by
    omega
  have hbound : ((clock - start.instant zone) / unit + 1) * unit ≤
      clock - start.instant zone + unit := by
    rw [Int.add_mul]
    omega
  have hlaterSmall : (later - start.instant zone).natAbs < 2 ^ 53 := by
    have htoNat := Int.toNat_of_nonneg hunit.le
    generalize ((clock - start.instant zone) / unit + 1) * unit = limit at hend hbound
    omega
  rw [wholeUnits_eq hunit hlaterSmall]
  apply le_antisymm
  · apply Int.le_of_lt_add_one
    rwa [Int.ediv_lt_iff_lt_mul hunit]
  · exact Int.ediv_le_ediv hunit (by omega)

theorem stands_thisYear (hplain : zone.KeepsDays) :
    Stands zone .thisYear (thisYear.reading zone clock) clock
      (thisYear.boundary zone clock) := by
  intro later hle hbefore
  have hlt := hplain.day_lt (hbefore _ rfl)
  have hmono := hplain.day_mono hle
  have hstart := newYear_yearOf_le (dayOf (zone.wall clock))
  simp only [reading, Reading.year.injEq]
  exact yearOf_eq (hstart.trans hmono) hlt

/-- A plain question's answer stands as long as it says. -/
theorem Plain.stands {question : Question} (hplain : question.Plain zone clock) :
    Stands zone question (question.reading zone clock) clock (question.boundary zone clock) := by
  cases question with
  | reached moment now => exact stands_reached moment now
  | passed moment now => exact stands_passed moment now
  | whole start unit now =>
      cases now with
      | none => exact stands_whole hplain
      | some now => exact fun _ _ _ => rfl
  | today =>
      intro later hle hbefore
      exact congrArg Reading.day (hplain.day_eq hle (hbefore _ rfl))
  | thisYear => exact stands_thisYear hplain
  | since moment now => exact hplain.elim
  | present => exact hplain.elim
  | holdsUntil moment => exact fun _ _ _ => rfl

end Question

end SeverinoHQ.Derivations
