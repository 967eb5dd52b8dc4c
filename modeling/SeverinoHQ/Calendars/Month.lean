/-
# A month drawn as six weeks

`calendar_month` draws what the calendar's sources hold in the six Sunday-first weeks a month is
in: what takes one day in that day's cell, and a span as a bar that keeps its lane over a week.
Days are counted from the epoch's and times are microseconds. A datetime is in a zone of its own,
and is compared with one in the same zone by the wall clock and with any other by the instant.
-/

import Mathlib.Data.Int.Order.Basic
import Mathlib.Data.List.Lex
import SeverinoHQ.Math.Calendar
import SeverinoHQ.Math.Lanes
import SeverinoHQ.Math.Letters

namespace SeverinoHQ.Calendars.Grid

open SeverinoHQ.Math SeverinoHQ.Math.Calendar

universe u

variable {ι : Type u} [DecidableEq ι]

/-- The zones there are, and the one in use. -/
structure Zones (ι : Type u) where
  zone : ι → Zone
  current : ι

/-- An aware datetime: the wall time in its zone, and whether it is the second time that comes. -/
structure Stamp (ι : Type u) where
  tz : ι
  time : Int
  fold : Bool
  deriving DecidableEq, Repr

namespace Stamp

variable (zones : Zones ι)

def instant (stamp : Stamp ι) : Int := (zones.zone stamp.tz).instant stamp.time stamp.fold

/-- `first < second`. -/
def before (first second : Stamp ι) : Bool :=
  if first.tz = second.tz then first.time < second.time
  else first.instant zones < second.instant zones

/-- `timezone.localtime`. -/
def localtime (stamp : Stamp ι) : Stamp ι :=
  if stamp.tz = zones.current then stamp
  else
    let zone := zones.zone zones.current
    let time := zone.wall (stamp.instant zones)
    ⟨zones.current, time, zone.instant time false ≠ stamp.instant zones⟩

end Stamp

/-- When an event starts, and when it ends, which is exclusive. -/
inductive Times (ι : Type u) where
  | allDay (starts : Int) (ends : Option Int)
  | timed (starts : Stamp ι) (ends : Option (Stamp ι))
  deriving DecidableEq, Repr

namespace Times

variable (zones : Zones ι)

def isTimed : Times ι → Bool
  | allDay _ _ => false
  | timed _ _ => true

def firstDay : Times ι → Int
  | allDay starts _ => starts
  | timed starts _ => dayOf (starts.localtime zones).time

/-- The last day the event covers, inclusive. -/
def lastDay : Times ι → Int
  | allDay starts none => starts
  | allDay starts (some ends) => max starts (ends - 1)
  | timed starts none => dayOf (starts.localtime zones).time
  | timed starts (some ends) =>
      let last := ends.localtime zones
      -- An event ending at midnight ends the day before.
      if starts.before zones last then dayOf (last.time - 1) else dayOf last.time

/-- It does not end before it starts. -/
def Ordered : Times ι → Prop
  | allDay starts ends => ∀ last ∈ ends, starts ≤ last
  | timed starts ends => ∀ last ∈ ends, last.before zones starts = false

/-- The time of day it sorts by: midnight's where it takes whole days. -/
def sortTime : Times ι → Int
  | allDay _ _ => 0
  | timed starts _ => timeOf (starts.localtime zones).time

end Times

/-- One dated thing a source holds. A mark is one day. -/
structure CalendarEvent (zones : Zones ι) where
  id : String
  title : List Char
  times : Times ι
  mark : Bool
  id_given : id ≠ ""
  titled : Letters.strip title ≠ []
  ordered : times.Ordered zones
  one_day : mark = true → times.firstDay zones = times.lastDay zones

namespace CalendarEvent

variable {zones : Zones ι} (event : CalendarEvent zones)

def firstDay : Int := event.times.firstDay zones

def lastDay : Int := event.times.lastDay zones

/-- How many days it covers, counting both ends. -/
def days : Int := event.lastDay - event.firstDay + 1

/-- A line over several days. -/
def span : Bool := 1 < event.days

def covers (day : Int) : Bool := event.firstDay ≤ day && day ≤ event.lastDay

end CalendarEvent

/-- A source as the calendar list shows it. -/
structure SourceView where
  id : String
  shown : Bool
  deriving DecidableEq, Repr

/-- A source and what it answers for the window, which is nothing where it fails. -/
structure CalendarSource (zones : Zones ι) where
  view : SourceView
  events : Option (List (CalendarEvent zones))

/-- An event with the source it came from. -/
structure Placed (zones : Zones ι) where
  event : CalendarEvent zones
  source : SourceView

/-- One cell's part of a span: titled where it starts or a week begins. -/
structure SpanPiece (zones : Zones ι) where
  placed : Placed zones
  startsHere : Bool
  endsHere : Bool
  titled : Bool

/-- A lane of the week has an entry in every cell, empty where no span is. -/
structure CalendarCell (zones : Zones ι) where
  day : Int
  inMonth : Bool
  today : Bool
  past : Bool
  marks : List (Placed zones)
  items : List (Placed zones)
  lanes : List (Option (SpanPiece zones))
  more : Nat

/-- Everything a day holds, drawn or folded: `CalendarCell.count`. -/
def CalendarCell.count {zones : Zones ι} (cell : CalendarCell zones) : Nat :=
  cell.marks.length + cell.items.length + cell.more + (cell.lanes.filter Option.isSome).length

structure CalendarMonth (zones : Zones ι) where
  month : Int
  weeks : List (List (CalendarCell zones))
  today : Int
  upcoming : List (Placed zones)

/-- `CELL_ROWS`. -/
def cellRows : Nat := 3

/-- `UPCOMING`. -/
def upcomingMost : Nat := 8

section Draw

variable {zones : Zones ι}

/-- `_read`. -/
def read (source : CalendarSource zones) (first last : Int) : List (CalendarEvent zones) :=
  (source.events.getD []).filter fun event => first ≤ event.lastDay && event.firstDay ≤ last

/-- `gather`: every event in the window, with its source. -/
def gather (declared : List (CalendarSource zones)) (first last : Int) : List (Placed zones) :=
  declared.flatMap fun source => (read source first last).map fun event => ⟨event, source.view⟩

/-- The first day of the grid: `_grid`, whose last is 41 days on. -/
def gridFirst (month : Int) : Int := month - (weekday month + 1) % 7

/-- The key the events are sorted by, its title as code points. -/
def sortKey (item : Placed zones) : List Int :=
  [item.event.firstDay, -item.event.days, if item.event.times.isTimed then 1 else 0,
    item.event.times.sortTime zones] ++ item.event.title.map fun letter => (letter.toNat : Int)

/-- `_lanes`. -/
def lanes (spans : List (Placed zones)) (days : List Int) : List (List (Option (Placed zones))) :=
  Lanes.layAll days.length (fun item index => days[index]?.any item.event.covers) spans

/-- `_cell`. -/
def cell (day month today : Int) (onDay : List (Placed zones))
    (lanes : List (List (Option (Placed zones)))) : CalendarCell zones :=
  let index := ((weekday day + 1) % 7).toNat
  let items := onDay.filter fun item => !item.event.mark
  let drawn := lanes.take cellRows
  let hidden := lanes.drop cellRows
  let room := cellRows - drawn.length
  { day
    inMonth := monthOf day % 12 == monthOf month % 12
    today := day == today
    past := day < today
    marks := onDay.filter fun item => item.event.mark
    items := items.take room
    lanes := drawn.map fun lane => (Lanes.hold lane index).map fun placed =>
      { placed
        startsHere := placed.event.firstDay == day
        endsHere := placed.event.lastDay == day
        titled := placed.event.firstDay == day || index == 0 }
    more := (items.length - room) + (hidden.filter fun lane => (Lanes.hold lane index).isSome).length }

/-- The seven days of a week of the grid. -/
def weekDays (first : Int) (week : Nat) : List Int :=
  (List.range 7).map fun (offset : Nat) => first + 7 * week + offset

/-- Those whose source is shown, earlier first. -/
def shownOf (placed : List (Placed zones)) : List (Placed zones) :=
  (placed.filter fun item => item.source.shown).mergeSort fun first second =>
    sortKey first ≤ sortKey second

/-- `calendar_month`. What takes one day is looked up by its first. -/
def calendarMonth (month today : Int) (declared : List (CalendarSource zones)) :
    CalendarMonth zones :=
  let first := gridFirst month
  let shown := shownOf (gather declared first (first + 41))
  let onDay day := shown.filter fun item => !item.event.span && item.event.firstDay == day
  let spans := shown.filter fun item => item.event.span
  { month
    weeks := (List.range 6).map fun week =>
      let days := weekDays first week
      days.map fun day => cell day month today (onDay day) (lanes spans days)
    today
    upcoming := (shown.filter fun item =>
      !item.event.mark && today ≤ item.event.lastDay).take upcomingMost }

end Draw

end SeverinoHQ.Calendars.Grid
