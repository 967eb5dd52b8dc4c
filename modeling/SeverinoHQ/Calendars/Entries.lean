/-
# Calendar entries

An entry is a day or a run of days, once or repeating. `entryEvents` chooses the entries that
may touch a window and lists their occurrences in it, `upcoming` the next days of one entry.
Days are counted from the epoch's; a date before the calendar's first or past its last cannot
be made, and raises.
-/

import SeverinoHQ.Math.Calendar
import SeverinoHQ.Math.Letters
import SeverinoHQ.Math.Recurrence

namespace SeverinoHQ.Calendars

open SeverinoHQ.Math SeverinoHQ.Math.Calendar SeverinoHQ.Math.Recurrence

/-- `date.min`. -/
def firstDay : Int := newYear 1

/-- `date.max`. -/
def lastDay : Int := newYear 10000 - 1

/-- `MAX_OCCURRENCES`. -/
def maxOccurrences : Nat := 400

/-- `INTERVAL_MINIMUM`. -/
def intervalMinimum : Nat := 1

/-- `INTERVAL_MAXIMUM`. -/
def intervalMaximum : Nat := 366

/-- `Entry.Repeat`. -/
inductive Repeat where
  | none
  | daily
  | weekly
  | monthly
  | yearly
  deriving DecidableEq, Repr

/-- An entry, with the rules of its title, days and times. Its weekdays are the numbers the field is
read as; times of day are microseconds. -/
structure Entry where
  uid : Nat
  title : String
  startsOn : Int
  endsOn : Option Int
  startsAt : Option Int
  endsAt : Option Int
  repeats : Repeat
  interval : Nat
  weekdayNumbers : List Int
  repeatUntil : Option Int
  has_a_title : Letters.strip title.toList ≠ []
  starts_on_calendar : firstDay ≤ startsOn ∧ startsOn ≤ lastDay
  ends_on_calendar : ∀ day ∈ endsOn, day ≤ lastDay
  ends_after_it_starts : ∀ day ∈ endsOn, startsOn ≤ day
  end_time_has_a_start : endsAt.isSome = true → startsAt.isSome = true
  end_time_follows_start : ∀ start ∈ startsAt, ∀ finish ∈ endsAt,
    (∃ day ∈ endsOn, startsOn < day) ∨ start < finish
  interval_in_range : intervalMinimum ≤ interval ∧ interval ≤ intervalMaximum
  weekdays_only_weekly : weekdayNumbers = [] ∨ repeats = .weekly
  weekdays_ascending : weekdayNumbers.Pairwise (· < ·)
  weekdays_in_week : ∀ number ∈ weekdayNumbers, 0 ≤ number ∧ number < 7
  until_only_repeating : repeatUntil.isSome = true → repeats ≠ .none
  until_after_it_starts : ∀ day ∈ repeatUntil, startsOn ≤ day

/-- A window of days. -/
structure Window where
  first : Int
  last : Int
  ordered : first ≤ last
  on_calendar : firstDay ≤ first ∧ last ≤ lastDay

/-- Why a loop gives no list: a date it makes is not on the calendar, or it has not ended. -/
inductive Unfinished where
  | raised
  | running
  deriving DecidableEq, Repr

namespace Entry

variable (entry : Entry)

/-- The last day of the first occurrence: `Coalesce("ends_on", "starts_on")`. -/
def lastDayOn : Int := entry.endsOn.getD entry.startsOn

/-- `_span_days`. -/
def spanDays : Int := entry.lastDayOn - entry.startsOn

/-! ## The days it starts on -/

/-- `_daily`, turn by turn. -/
def daily (index : Nat) : List Int := [entry.startsOn + (index * entry.interval : Nat)]

/-- The weekdays of a weekly entry. -/
def weekdays : List Int :=
  if entry.weekdayNumbers = [] then [weekday entry.startsOn] else entry.weekdayNumbers

/-- `_weekly`, week by week. -/
def weekly (index : Nat) : List Int :=
  let week := entry.startsOn - weekday entry.startsOn + 7 * (index * entry.interval : Nat)
  (entry.weekdays.map (week + ·)).filter fun day => entry.startsOn ≤ day

/-- The day of the month it starts on, every so many months, in those that have it. -/
def everyMonths (months : Nat) (index : Nat) : List Int :=
  let month := monthOf entry.startsOn + (index * months : Nat)
  if dayOfMonth entry.startsOn ≤ monthLength month then [onDay month (dayOfMonth entry.startsOn)]
  else []

/-- `_monthly`. -/
def monthly : Nat → List Int := entry.everyMonths entry.interval

/-- `_yearly`. -/
def yearly : Nat → List Int := entry.everyMonths (12 * entry.interval)

/-- `_STEPS[entry.repeat]`; one that does not repeat has none. -/
def steps : Nat → List Int :=
  match entry.repeats with
  | .none => fun _ => []
  | .daily => entry.daily
  | .weekly => entry.weekly
  | .monthly => entry.monthly
  | .yearly => entry.yearly

/-- The steps within which every date of the calendar is reached, and one past it. -/
def stepsEnough : Nat := (lastDay - firstDay).toNat + 1 + 4800

/-- A `for` over `_starts(entry)`. -/
def through (search : Search) : Except Unfinished (List Int) :=
  if entry.repeats = .none then
    match search.through [entry.startsOn] [] with
    | .on found => .ok found
    | .left found => .ok found
    | .failed => .error .raised
  else
    match search.walk entry.steps stepsEnough 0 [] with
    | .on _ => .error .running
    | .left found => .ok found
    | .failed => .error .raised

/-- `stop`: the window's last day, or the last it repeats on. -/
def stop (window : Window) : Int :=
  match entry.repeatUntil with
  | some last => min window.last last
  | none => window.last

/-- The loop of `occurrences`. -/
def occurrencesSearch (window : Window) : Search where
  last := lastDay
  limit := maxOccurrences
  ends day := decide (entry.stop window < day)
  fails _ := false
  keeps day := decide (window.first - entry.spanDays ≤ day)

/-- `occurrences`. -/
def occurrences (window : Window) : Except Unfinished (List Int) :=
  if window.first - entry.spanDays < firstDay then .error .raised
  else entry.through (entry.occurrencesSearch window)

/-- The loop of `upcoming`. -/
def upcomingSearch (count : Nat) (today : Int) : Search where
  last := lastDay
  limit := count
  ends day := entry.repeatUntil.any (· < day)
  fails day := decide (lastDay < day + entry.spanDays)
  keeps day := decide (today ≤ day + entry.spanDays)

/-- `upcoming`. -/
def upcoming (count : Nat) (today : Int) : Except Unfinished (List Int) :=
  entry.through (entry.upcomingSearch count today)

end Entry

/-! ## Events -/

/-- A day, or a moment of it. -/
structure When where
  day : Int
  time : Option Int
  deriving DecidableEq, Repr

/-- `CalendarEvent`, but for what it says and links to. The end of an event of whole days is the
day after its last. -/
structure CalendarEvent where
  id : Nat × Int
  title : String
  starts : When
  ends : Option When
  deriving DecidableEq, Repr

namespace Entry

variable (entry : Entry)

/-- The last date `occurrence` makes. -/
def lastMade (day : Int) : Int :=
  if entry.startsAt = none ∧ 0 < entry.spanDays then day + entry.spanDays + 1
  else day + entry.spanDays

/-- The occurrence of a day. -/
def event (day : Int) : CalendarEvent where
  id := (entry.uid, day)
  title := entry.title
  starts := ⟨day, entry.startsAt⟩
  ends :=
    if entry.startsAt = none then
      if 0 < entry.spanDays then some ⟨day + entry.spanDays + 1, none⟩ else none
    else entry.endsAt.map fun time => ⟨day + entry.spanDays, some time⟩

/-- `occurrence`. An event needs a title. -/
def occurrence (day : Int) : Except Unfinished CalendarEvent :=
  if lastDay < entry.lastMade day ∨ Letters.strip entry.title.toList = [] then .error .raised
  else .ok (entry.event day)

/-- What the query of `entry_events` lets through. -/
def queried (window : Window) : Bool :=
  decide (entry.startsOn ≤ window.last) &&
    if entry.repeats = .none then decide (window.first ≤ entry.lastDayOn)
    else entry.repeatUntil.all (window.first ≤ ·)

end Entry

/-- `entry_events`. -/
def entryEvents (entries : List Entry) (window : Window) :
    Except Unfinished (List CalendarEvent) := do
  let found ← (entries.filter (·.queried window)).mapM fun entry => do
    (← entry.occurrences window).mapM entry.occurrence
  return found.flatten

end SeverinoHQ.Calendars
