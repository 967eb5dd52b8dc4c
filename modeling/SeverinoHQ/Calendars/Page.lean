/-
# The page of a month

The calendar's page is of the month its request names, or of this month, and links to the months
on either side. A date before the calendar's first or past its last cannot be made and raises an
`OverflowError`, which is no `ValueError`: what is read from a request falls back on the one alone.
-/

import SeverinoHQ.Calendars.Month
import SeverinoHQ.Calendars.Occurrences
import SeverinoHQ.Math.Numeral

namespace SeverinoHQ.Calendars.Page

open SeverinoHQ.Math SeverinoHQ.Math.Calendar
open Grid (CalendarMonth CalendarSource Stamp Times Zones)

variable {ι : Type} [DecidableEq ι]

/-- `date`. -/
@[ext]
structure Date where
  day : Int
  on_calendar : firstDay ≤ day ∧ day ≤ lastDay
  deriving DecidableEq

/-- What is raised of a date that cannot be made. -/
inductive Raised where
  /-- `ValueError`. -/
  | value
  /-- `OverflowError`. -/
  | overflow
  deriving DecidableEq, Repr

/-- A C `int` holds the number. -/
def Holds (number : Int) : Prop := -2 ^ 31 ≤ number ∧ number < 2 ^ 31

instance (number : Int) : Decidable (Holds number) := inferInstanceAs (Decidable (_ ∧ _))

/-- The calendar has the month of the year. -/
def HasMonth (year month : Int) : Prop := (1 ≤ year ∧ year ≤ 9999) ∧ 1 ≤ month ∧ month ≤ 12

instance (year month : Int) : Decidable (HasMonth year month) := inferInstanceAs (Decidable (_ ∧ _))

/-- The months on the calendar. -/
theorem monthStart_on_calendar {month : Int} (hfirst : 12 ≤ month) (hlast : month ≤ 119999) :
    firstDay ≤ monthStart month ∧ monthStart month ≤ lastDay - 30 := by
  have hlow : monthStart 12 = firstDay := by decide
  have hhigh : monthStart 119999 = lastDay - 30 := by decide
  exact ⟨hlow ▸ monthStart_le hfirst, hhigh ▸ monthStart_le hlast⟩

theorem HasMonth.index {year month : Int} (h : HasMonth year month) :
    12 ≤ 12 * year + month - 1 ∧ 12 * year + month - 1 ≤ 119999 := by
  obtain ⟨hyear, hmonth⟩ := h
  omega

namespace Date

/-- The first of a month. -/
def first (month : Int) (h : 12 ≤ month ∧ month ≤ 119999) : Date where
  day := monthStart month
  on_calendar := by
    have hbounds := monthStart_on_calendar h.1 h.2
    omega

/-- `date(year, month, 1)`. -/
def ofMonth (year month : Int) : Except Raised Date :=
  if Holds year ∧ Holds month then
    if h : HasMonth year month then .ok (first (12 * year + month - 1) h.index) else .error .value
  else .error .overflow

/-- `date + timedelta(days=…)`. -/
def add (date : Date) (days : Int) : Except Raised Date :=
  if h : firstDay ≤ date.day + days ∧ date.day + days ≤ lastDay then .ok ⟨date.day + days, h⟩
  else .error .overflow

theorem month_bounds (date : Date) :
    12 ≤ Calendar.monthOf date.day ∧ Calendar.monthOf date.day ≤ 119999 := by
  have hlow : Calendar.monthOf firstDay = 12 := by decide
  have hhigh : Calendar.monthOf lastDay = 119999 := by decide
  exact ⟨hlow ▸ monthOf_mono date.on_calendar.1, hhigh ▸ monthOf_mono date.on_calendar.2⟩

/-- `date.replace(day=1)`. -/
def firstOfMonth (date : Date) : Date := first (Calendar.monthOf date.day) date.month_bounds

end Date

/-! ## The month asked for -/

section Asking

variable (decimals : Numeral.Decimals)

/-- The numbers of a text, where `int` reads one on either side of its only hyphen. -/
def yearMonth (text : List Char) : Except Raised (Int × Int) :=
  match (text.splitOn '-').map (Numeral.int decimals) with
  | [some year, some month] => .ok (year, month)
  | _ => .error .value

/-- `month_of`. -/
def monthOf (value : Option String) (today : Date) : Except Raised Date :=
  match yearMonth decimals (value.getD "").toList >>= fun numbers =>
      Date.ofMonth numbers.1 numbers.2 with
  | .error .value => .ok today.firstOfMonth
  | answer => answer

/-- What a request asks for: a month's text, and the day chosen beside it. -/
structure Request where
  month : Option String
  day : Option Date

/-- The month the page is of. -/
def Request.shown (request : Request) (today : Date) : Except Raised Date := do
  let month ← monthOf decimals request.month today
  match request.day, request.month with
  | some day, none => return day.firstOfMonth
  | _, _ => return month

end Asking

/-! ## The weeks of a month -/

/-- The six weeks from a day. -/
def sixWeeks (first : Date) : Except Raised Window :=
  if h : first.day + 41 ≤ lastDay then
    .ok ⟨first.day, first.day + 41, by omega, first.on_calendar.1, h⟩
  else .error .overflow

/-- `_grid`. -/
def grid (month : Date) : Except Raised Window :=
  month.add (-((weekday month.day + 1) % 7)) >>= sixWeeks

/-- The seven days of a week of the grid. -/
def weekDates (first : Date) (week : Nat) : Except Raised (List Int) := do
  let start ← first.add (7 * week)
  (List.range 7).mapM fun (offset : Nat) => (start.add offset).map Date.day

section Draw

variable {zones : Zones ι}

/-- A week of the grid. What takes one day is looked up by its first. -/
def drawWeek (first month today : Date) (shown : List (Grid.Placed zones)) (week : Nat) :
    Except Raised (List (Grid.CalendarCell zones)) := do
  let onDay day := shown.filter fun item => !item.event.span && item.event.firstDay == day
  let spans := shown.filter fun item => item.event.span
  let days ← weekDates first week
  return days.map fun day => Grid.cell day month.day today.day (onDay day) (Grid.lanes spans days)

/-- `calendar_month`, of what the sources answer for a window. -/
def calendarMonth (month today : Date) (declared : Window → List (CalendarSource zones)) :
    Except Raised (CalendarMonth zones) := do
  let window ← grid month
  let first : Date := ⟨window.first, window.on_calendar.1, window.ordered.trans window.on_calendar.2⟩
  let shown := Grid.shownOf (Grid.gather (declared window) window.first window.last)
  let weeks ← (List.range 6).mapM (drawWeek first month today shown)
  return {
    month := month.day
    weeks
    today := today.day
    upcoming := (shown.filter fun item =>
      !item.event.mark && today.day ≤ item.event.lastDay).take Grid.upcomingMost }

/-- `CalendarMonth.previous`. -/
def previous (month : Date) : Except Raised Date := (month.add (-1)).map Date.firstOfMonth

/-- `CalendarMonth.next`. -/
def next (month : Date) : Except Raised Date := (month.add 32).map Date.firstOfMonth

end Draw

/-! ## The operator's own events -/

/-- So many digits of a number, with zeros before it. -/
def padded (width base number : Nat) : List Char := (Nat.toDigits base number).leftpad width '0'

/-- `str` of a UUID. -/
def uuidText (uid : Nat) : List Char :=
  let digits := padded 32 16 uid
  digits.take 8 ++ '-' :: (digits.drop 8).take 4 ++ '-' :: (digits.drop 12).take 4 ++
    '-' :: (digits.drop 16).take 4 ++ '-' :: digits.drop 20

/-- `day.isoformat()`. -/
def isoformat (day : Int) : List Char :=
  padded 4 10 (Calendar.monthOf day / 12).toNat ++
    '-' :: padded 2 10 (Calendar.monthOf day % 12 + 1).toNat ++
      '-' :: padded 2 10 (dayOfMonth day).toNat

section Own

variable {zones : Zones ι}

/-- The times of an occurrence, which are in the zone in use. -/
def timesOf (zones : Zones ι) (event : CalendarEvent) : Times ι :=
  let stamp day time : Stamp ι := ⟨zones.current, day * dayLength + time, false⟩
  match event.starts.time with
  | none => .allDay event.starts.day (event.ends.map When.day)
  | some time =>
      .timed (stamp event.starts.day time) (event.ends.map fun last => stamp last.day (last.time.getD 0))

instance (times : Times ι) : Decidable (times.Ordered zones) :=
  match times with
  | .allDay starts ends => inferInstanceAs (Decidable (∀ last ∈ ends, starts ≤ last))
  | .timed starts ends =>
      inferInstanceAs (Decidable (∀ last ∈ ends, Stamp.before zones last starts = false))

/-- The event of an occurrence, unless its title is blank. -/
def eventOf (event : CalendarEvent) : Option (Grid.CalendarEvent zones) :=
  if h : Letters.strip event.title.toList ≠ [] ∧ (timesOf zones event).Ordered zones then
    some {
      id := String.ofList (uuidText event.id.1 ++ ':' :: isoformat event.id.2)
      title := event.title.toList
      times := timesOf zones event
      mark := false
      id_given := by simp [uuidText]
      titled := h.1
      ordered := h.2
      one_day := by simp }
  else none

/-- The source of the entries, as `_read` has it, which answers nothing where it raises. -/
def ownSource (entries : List Entry) (shown : Bool) (window : Window) : CalendarSource zones where
  view := ⟨"calendar.mine", shown⟩
  events :=
    match entryEvents entries window with
    | .error _ => none
    | .ok events => events.mapM eventOf

end Own

/-! ## The page -/

section View

variable {zones : Zones ι}

/-- What the page is drawn from: the entries and whether they are shown, and what every other
source answers for a window. -/
structure Sources (zones : Zones ι) where
  entries : List Entry
  shown : Bool
  others : Window → List (CalendarSource zones)

/-- `calendar_sources`: the operator's own lead. -/
def Sources.declared (sources : Sources zones) (window : Window) : List (CalendarSource zones) :=
  ownSource sources.entries sources.shown window :: sources.others window

/-- What the page shows. -/
structure Shown (zones : Zones ι) where
  calendar : CalendarMonth zones
  previous : Date
  next : Date

/-- `CalendarView.get_context_data`, of the month. -/
def getContextData (decimals : Numeral.Decimals) (request : Request) (today : Date)
    (sources : Sources zones) : Except Raised (Shown zones) := do
  let month ← request.shown decimals today
  let calendar ← calendarMonth month today sources.declared
  let previous ← previous month
  let next ← next month
  return { calendar, previous, next }

end View

/-! ## What it is to answer -/

section Purpose

variable (decimals : Numeral.Decimals)

/-- A year and a month, written on either side of a hyphen. -/
def Reads (text : List Char) (year month : Int) : Prop :=
  ∃ first second, '-' ∉ first ∧ '-' ∉ second ∧ text = first ++ '-' :: second ∧
    Numeral.int decimals first = some year ∧ Numeral.int decimals second = some month

/-- The text names a month of the calendar. -/
def Names (text : List Char) (month : Date) : Prop :=
  ∃ year number, ∃ h : HasMonth year number, Reads decimals text year number ∧
    month = Date.first (12 * year + number - 1) h.index

/-- The month a text stands for, which is this month where it names none. -/
def StandsFor (text : List Char) (today month : Date) : Prop :=
  Names decimals text month ∨ (∀ other, ¬Names decimals text other) ∧ month = today.firstOfMonth

/-- The month a request asks for: without a text it is that of the day chosen. -/
def Request.Asks (request : Request) (today month : Date) : Prop :=
  match request.month, request.day with
  | none, some day => month = day.firstOfMonth
  | value, _ => StandsFor decimals (value.getD "").toList today month

/-- The numbers of a text are a C `int`'s. -/
def Small (text : List Char) : Prop :=
  ∀ year month, Reads decimals text year month → year < 2 ^ 31 ∧ month < 2 ^ 31

variable {zones : Zones ι}

/-- The page is of a month: it draws its six weeks, in which every entry could be listed, and links
to the months on either side. -/
structure AnswersFor (request : Request) (today : Date) (sources : Sources zones) (month : Date)
    (window : Window) (events : List CalendarEvent) (shown : Shown zones) : Prop where
  asked : request.Asks decimals today month
  weeks : window.first = Grid.gridFirst month.day ∧ window.last = Grid.gridFirst month.day + 41
  listed : entryEvents sources.entries window = .ok events
  answered : getContextData decimals request today sources = .ok shown
  drawn : shown.calendar = Grid.calendarMonth month.day today.day (sources.declared window)
  before : shown.previous.day = monthStart (Calendar.monthOf month.day - 1)
  after : shown.next.day = monthStart (Calendar.monthOf month.day + 1)

/-- The page answers and raises nothing. -/
def Answers (request : Request) (today : Date) (sources : Sources zones) : Prop :=
  ∃ month window events shown, AnswersFor decimals request today sources month window events shown

/-- The text's numbers are a C `int`'s, the month is neither the calendar's first nor its last, and
the entries of its weeks keep clear of the calendar's ends. -/
structure Clear (request : Request) (today : Date) (sources : Sources zones) : Prop where
  small : ∀ value ∈ request.month, Small decimals value.toList
  inside : ∀ month, request.Asks decimals today month →
    month.day ≠ firstDay ∧ month.day ≠ monthStart 119999
  made : ∀ (month : Date) (window : Window), request.Asks decimals today month →
    window.first = Grid.gridFirst month.day → window.last = Grid.gridFirst month.day + 41 →
      ∀ entry ∈ sources.entries, entry.queried window = true → entry.Made window

end Purpose

/-! ## Dates -/

namespace Date

theorem add_eq_ok {date other : Date} {days : Int} :
    date.add days = .ok other ↔ other.day = date.day + days := by
  unfold add
  constructor
  · intro h
    split at h
    · obtain rfl := Except.ok.inj h
      rfl
    · cases h
  · intro h
    have hcalendar := other.on_calendar
    rw [h] at hcalendar
    rw [dif_pos hcalendar]
    congr 1
    exact Date.ext h.symm

theorem firstOfMonth_day (date : Date) :
    date.firstOfMonth.day = monthStart (Calendar.monthOf date.day) := rfl

end Date

theorem monthOf_monthStart (month : Int) : Calendar.monthOf (monthStart month) = month := by
  have hlater := monthStart_lt (Int.lt_succ month)
  exact monthOf_eq (Int.le_refl _) (by omega)

/-! ## The text of a request -/

section Text

variable {decimals : Numeral.Decimals}

/-- A text split at its hyphens in two. -/
theorem splitOn_eq_pair {text first second : List Char} :
    text.splitOn '-' = [first, second] ↔
      '-' ∉ first ∧ '-' ∉ second ∧ text = first ++ '-' :: second := by
  constructor
  · intro h
    have hparts : ∀ part ∈ text.splitOn '-', '-' ∉ part := by
      intro part hpart hmem
      have hnot := (Letters.mem_of_mem_splitOnP hpart '-' hmem).1
      simp at hnot
    have htext : ['-'].intercalate (text.splitOn '-') = text := List.intercalate_splitOn '-'
    rw [h] at hparts htext
    exact ⟨hparts first (by simp), hparts second (by simp), by simpa [List.intercalate] using htext.symm⟩
  · rintro ⟨hfirst, hsecond, rfl⟩
    have hsplit : (['-'].intercalate [first, second]).splitOn '-' = [first, second] :=
      List.splitOn_intercalate '-' (by simp [hfirst, hsecond]) (by simp)
    simpa [List.intercalate] using hsplit

theorem yearMonth_eq_ok {text : List Char} {year month : Int} :
    yearMonth decimals text = .ok (year, month) ↔ Reads decimals text year month := by
  constructor
  · intro h
    unfold yearMonth at h
    split at h
    · rename_i first second hparts
      obtain ⟨rfl, rfl⟩ := Prod.mk.inj (Except.ok.inj h)
      obtain ⟨one, rest, hsplit, hone, hrest⟩ := List.map_eq_cons_iff.mp hparts
      obtain ⟨two, none, rfl, htwo, hnone⟩ := List.map_eq_cons_iff.mp hrest
      rw [List.map_eq_nil_iff.mp hnone, splitOn_eq_pair] at hsplit
      exact ⟨one, two, hsplit.1, hsplit.2.1, hsplit.2.2, hone, htwo⟩
    · cases h
  · rintro ⟨first, second, hfirst, hsecond, htext, hyear, hmonth⟩
    rw [yearMonth, splitOn_eq_pair.mpr ⟨hfirst, hsecond, htext⟩, List.map_cons, List.map_cons, hyear,
      hmonth]
    rfl

theorem yearMonth_eq_error {text : List Char} {raised : Raised}
    (h : yearMonth decimals text = .error raised) : raised = .value := by
  unfold yearMonth at h
  split at h
  · cases h
  · exact (Except.error.inj h).symm

theorem Reads.unique {text : List Char} {year month year' month' : Int}
    (h : Reads decimals text year month) (h' : Reads decimals text year' month') :
    year = year' ∧ month = month' := by
  rw [← yearMonth_eq_ok] at h h'
  rw [h] at h'
  exact Prod.mk.inj (Except.ok.inj h')

theorem Reads.nonneg {text : List Char} {year month : Int} (h : Reads decimals text year month) :
    0 ≤ year ∧ 0 ≤ month := by
  obtain ⟨first, second, hfirst, hsecond, -, hyear, hmonth⟩ := h
  exact ⟨Numeral.int_nonneg hfirst hyear, Numeral.int_nonneg hsecond hmonth⟩

/-- A text stands for the month its numbers are, or for this month. -/
theorem standsFor_of_reads {text : List Char} {year number : Int} {today month : Date}
    (h : Reads decimals text year number) : StandsFor decimals text today month ↔
      month = if hmonth : HasMonth year number then Date.first (12 * year + number - 1) hmonth.index
        else today.firstOfMonth := by
  have hnames : ∀ other, Names decimals text other ↔ ∃ hmonth : HasMonth year number,
      other = Date.first (12 * year + number - 1) hmonth.index := by
    intro other
    constructor
    · rintro ⟨year', number', hmonth, hreads, hother⟩
      obtain ⟨rfl, rfl⟩ := h.unique hreads
      exact ⟨hmonth, hother⟩
    · rintro ⟨hmonth, hother⟩
      exact ⟨year, number, hmonth, h, hother⟩
  simp only [StandsFor, hnames]
  by_cases hmonth : HasMonth year number
  · simp [hmonth]
  · simp [hmonth]

theorem standsFor_of_not_reads {text : List Char} {today month : Date}
    (h : ∀ year number, ¬Reads decimals text year number) :
    StandsFor decimals text today month ↔ month = today.firstOfMonth := by
  have hnone : ∀ other, ¬Names decimals text other := by
    rintro other ⟨year, number, -, hreads, -⟩
    exact h year number hreads
  simp [StandsFor, hnone]

/-- What is read of a text is the month it stands for, where its numbers are a C `int`'s. -/
theorem monthOf_eq_ok {value : Option String} {today month : Date} :
    monthOf decimals value today = .ok month ↔ Small decimals (value.getD "").toList ∧
      StandsFor decimals (value.getD "").toList today month := by
  unfold monthOf
  generalize (value.getD "").toList = text
  cases hread : yearMonth decimals text with
  | error raised =>
      obtain rfl := yearMonth_eq_error hread
      have hnone : ∀ year number, ¬Reads decimals text year number := by
        intro year number hreads
        rw [yearMonth_eq_ok.mpr hreads] at hread
        cases hread
      have hsmall : Small decimals text := fun year number hreads => absurd hreads (hnone year number)
      rw [standsFor_of_not_reads hnone]
      simp [hsmall, bind, Except.bind, eq_comm]
  | ok numbers =>
      obtain ⟨year, number⟩ := numbers
      have hreads := yearMonth_eq_ok.mp hread
      have hnonneg := hreads.nonneg
      have hsmall : Small decimals text ↔ Holds year ∧ Holds number := by
        constructor
        · intro h
          have hlt := h year number hreads
          exact ⟨⟨by omega, hlt.1⟩, ⟨by omega, hlt.2⟩⟩
        · rintro ⟨hyear, hnumber⟩ year' number' hreads'
          obtain ⟨rfl, rfl⟩ := hreads.unique hreads'
          exact ⟨hyear.2, hnumber.2⟩
      rw [standsFor_of_reads hreads, hsmall]
      simp only [bind, Except.bind, Date.ofMonth]
      by_cases hholds : Holds year ∧ Holds number
      · by_cases hmonth : HasMonth year number
        · simp [hholds, hmonth, eq_comm]
        · simp [hholds, hmonth, eq_comm]
      · simp [hholds]

/-- What is shown of a request is the month it asks for. -/
theorem shown_eq_ok {request : Request} {today month : Date} :
    request.shown decimals today = .ok month ↔
      (∀ value ∈ request.month, Small decimals value.toList) ∧
        request.Asks decimals today month := by
  obtain ⟨value, day⟩ := request
  have hempty : ∀ year number, ¬Reads decimals "".toList year number := by
    rintro year number ⟨first, second, -, -, htext, -⟩
    simp at htext
  cases value with
  | none =>
      have hmonth : monthOf decimals none today = .ok today.firstOfMonth :=
        monthOf_eq_ok.mpr ⟨fun year number hreads => absurd hreads (hempty year number),
          (standsFor_of_not_reads hempty).mpr rfl⟩
      cases day with
      | none =>
          simp only [Request.shown, hmonth, Request.Asks, Option.getD_none]
          rw [standsFor_of_not_reads hempty]
          simp [bind, Except.bind, pure, Except.pure, eq_comm]
      | some day =>
          simp [Request.shown, hmonth, Request.Asks, bind, Except.bind, pure, Except.pure, eq_comm]
  | some value =>
      have hshown : Request.shown decimals ⟨some value, day⟩ today =
          monthOf decimals (some value) today := by
        cases hread : monthOf decimals (some value) today with
        | error raised => simp [Request.shown, hread, bind, Except.bind]
        | ok month =>
            cases day with
            | none => simp [Request.shown, hread, bind, Except.bind, pure, Except.pure]
            | some day => simp [Request.shown, hread, bind, Except.bind, pure, Except.pure]
      rw [hshown, monthOf_eq_ok]
      simp [Request.Asks]

theorem exists_asks (decimals : Numeral.Decimals) (request : Request) (today : Date) :
    ∃ month, request.Asks decimals today month := by
  have hstands : ∀ text, ∃ month, StandsFor decimals text today month := by
    intro text
    by_cases h : ∃ month, Names decimals text month
    · obtain ⟨month, hmonth⟩ := h
      exact ⟨month, Or.inl hmonth⟩
    · exact ⟨today.firstOfMonth, Or.inr ⟨not_exists.mp h, rfl⟩⟩
  obtain ⟨value, day⟩ := request
  cases value with
  | some value => exact hstands value.toList
  | none =>
      cases day with
      | none => exact hstands "".toList
      | some day => exact ⟨day.firstOfMonth, rfl⟩

/-- The month asked for is its first day. -/
theorem Request.Asks.first {request : Request} {today month : Date}
    (h : request.Asks decimals today month) :
    month.day = monthStart (Calendar.monthOf month.day) := by
  have hstart : ∀ (index : Int) (hindex : 12 ≤ index ∧ index ≤ 119999),
      (Date.first index hindex).day =
        monthStart (Calendar.monthOf (Date.first index hindex).day) := by
    intro index hindex
    rw [Date.first, monthOf_monthStart]
  have hstands : ∀ text, StandsFor decimals text today month →
      month.day = monthStart (Calendar.monthOf month.day) := by
    rintro text (⟨year, number, hmonth, -, rfl⟩ | ⟨-, rfl⟩)
    · exact hstart _ _
    · exact hstart _ _
  obtain ⟨value, day⟩ := request
  cases value with
  | some value => exact hstands value.toList h
  | none =>
      cases day with
      | none => exact hstands "".toList h
      | some day =>
          obtain rfl : month = day.firstOfMonth := h
          exact hstart _ _

end Text

/-! ## The weeks and the months beside -/

theorem sixWeeks_eq_ok {first : Date} {window : Window} :
    sixWeeks first = .ok window ↔ window.first = first.day ∧ window.last = first.day + 41 := by
  unfold sixWeeks
  constructor
  · intro h
    split at h
    · obtain rfl := Except.ok.inj h
      exact ⟨rfl, rfl⟩
    · cases h
  · obtain ⟨start, last, hordered, hcalendar⟩ := window
    rintro ⟨rfl, rfl⟩
    rw [dif_pos hcalendar.2]

theorem grid_eq_ok {month : Date} {window : Window} :
    grid month = .ok window ↔
      window.first = Grid.gridFirst month.day ∧ window.last = Grid.gridFirst month.day + 41 := by
  constructor
  · intro h
    obtain ⟨first, hfirst, hweeks⟩ := exists_of_bind_eq_ok h
    rw [Date.add_eq_ok] at hfirst
    rw [sixWeeks_eq_ok, hfirst] at hweeks
    exact hweeks
  · rintro ⟨hfirst, hlast⟩
    have hcalendar := window.on_calendar
    have hordered := window.ordered
    have hadd : month.add (-((weekday month.day + 1) % 7)) =
        .ok ⟨window.first, hcalendar.1, hordered.trans hcalendar.2⟩ := Date.add_eq_ok.mpr hfirst
    have hsix : window.last = window.first + 41 := by omega
    rw [grid, hadd]
    exact sixWeeks_eq_ok.mpr ⟨rfl, hsix⟩

/-- Each day of the six weeks is on the calendar. -/
theorem weekDates_eq {first : Date} (h : first.day + 41 ≤ lastDay) {week : Nat} (hweek : week < 6) :
    weekDates first week = .ok (Grid.weekDays first.day week) := by
  have hcalendar := first.on_calendar
  obtain ⟨start, hstart⟩ : ∃ start : Date, start.day = first.day + 7 * week :=
    ⟨⟨first.day + 7 * week, by omega⟩, rfl⟩
  rw [weekDates, Date.add_eq_ok.mpr hstart]
  apply mapM_eq_ok_map
  intro offset hoffset
  rw [List.mem_range] at hoffset
  have hday : start.add offset = .ok ⟨first.day + 7 * week + offset, by omega⟩ :=
    Date.add_eq_ok.mpr (by rw [hstart])
  rw [hday]
  rfl

section Draw

variable {zones : Zones ι}

theorem drawWeek_eq {first : Date} (h : first.day + 41 ≤ lastDay) (month today : Date)
    (shown : List (Grid.Placed zones)) {week : Nat} (hweek : week < 6) :
    drawWeek first month today shown week =
      .ok ((Grid.weekDays first.day week).map fun day => Grid.cell day month.day today.day
        (shown.filter fun item => !item.event.span && item.event.firstDay == day)
        (Grid.lanes (shown.filter fun item => item.event.span) (Grid.weekDays first.day week))) := by
  rw [drawWeek, weekDates_eq h hweek]
  rfl

/-- A month whose six weeks are on the calendar is drawn. -/
theorem calendarMonth_eq {month today : Date} {window : Window}
    {declared : Window → List (CalendarSource zones)} (h : grid month = .ok window) :
    calendarMonth month today declared =
      .ok (Grid.calendarMonth month.day today.day (declared window)) := by
  obtain ⟨hfirst, hlast⟩ := grid_eq_ok.mp h
  have hfits : window.first + 41 ≤ lastDay := by
    have hcalendar := window.on_calendar
    omega
  rw [calendarMonth, h]
  simp only [bind, Except.bind]
  rw [mapM_eq_ok_map fun week hweek => drawWeek_eq hfits month today _ (List.mem_range.mp hweek)]
  simp only [hfirst, hlast]
  rfl

end Draw

section Beside

variable {month beside : Date}

theorem previous_eq_ok : previous month = .ok beside ↔
    ∃ day : Date, day.day = month.day - 1 ∧ day.firstOfMonth = beside := by
  rw [previous]
  constructor
  · intro h
    obtain ⟨day, hday, hbeside⟩ := exists_of_map_eq_ok h
    exact ⟨day, Date.add_eq_ok.mp hday, hbeside⟩
  · rintro ⟨day, hday, hbeside⟩
    rw [Date.add_eq_ok.mpr hday, ← hbeside]
    rfl

theorem next_eq_ok : next month = .ok beside ↔
    ∃ day : Date, day.day = month.day + 32 ∧ day.firstOfMonth = beside := by
  rw [next]
  constructor
  · intro h
    obtain ⟨day, hday, hbeside⟩ := exists_of_map_eq_ok h
    exact ⟨day, Date.add_eq_ok.mp hday, hbeside⟩
  · rintro ⟨day, hday, hbeside⟩
    rw [Date.add_eq_ok.mpr hday, ← hbeside]
    rfl

end Beside

section Inside

variable {month : Date} (hfirst : month.day = monthStart (Calendar.monthOf month.day))

include hfirst

/-- A month that is neither the first nor the last has one on either side. -/
theorem inside_bounds (hnotFirst : month.day ≠ firstDay) (hnotLast : month.day ≠ monthStart 119999) :
    firstDay + 31 ≤ month.day ∧ month.day + 60 ≤ lastDay := by
  obtain ⟨hlow, hhigh⟩ := month.month_bounds
  have hjanuary : monthStart 12 = firstDay := by decide
  have hfebruary : monthStart 13 = firstDay + 31 := by decide
  have hnovember : monthStart 119998 = lastDay - 60 := by decide
  have hne : Calendar.monthOf month.day ≠ 12 := by
    intro h
    rw [h, hjanuary] at hfirst
    exact hnotFirst hfirst
  have hne' : Calendar.monthOf month.day ≠ 119999 := by
    intro h
    rw [h] at hfirst
    exact hnotLast hfirst
  have hge := monthStart_le (show 13 ≤ Calendar.monthOf month.day by omega)
  have hle := monthStart_le (show Calendar.monthOf month.day ≤ 119998 by omega)
  omega

/-- Every month has its six weeks on the calendar but the first and the last. -/
theorem grid_ok_iff : (∃ window, grid month = .ok window) ↔
    month.day ≠ firstDay ∧ month.day ≠ monthStart 119999 := by
  constructor
  · rintro ⟨window, h⟩
    obtain ⟨hstart, hlast⟩ := grid_eq_ok.mp h
    have hcalendar := window.on_calendar
    constructor
    · intro hday
      have hbefore : Grid.gridFirst firstDay < firstDay := by decide
      rw [hday] at hstart
      omega
    · intro hday
      have hpast : lastDay < Grid.gridFirst (monthStart 119999) + 41 := by decide
      rw [hday] at hlast
      omega
  · rintro ⟨hnotFirst, hnotLast⟩
    obtain ⟨hlow, hhigh⟩ := inside_bounds hfirst hnotFirst hnotLast
    have hgrid : month.day - 6 ≤ Grid.gridFirst month.day ∧
        Grid.gridFirst month.day ≤ month.day := by
      unfold Grid.gridFirst
      omega
    exact ⟨⟨Grid.gridFirst month.day, Grid.gridFirst month.day + 41, by omega, by omega⟩,
      grid_eq_ok.mpr ⟨rfl, rfl⟩⟩

/-- The month before one that is neither the first nor the last. -/
theorem previous_inside (hnotFirst : month.day ≠ firstDay)
    (hnotLast : month.day ≠ monthStart 119999) : ∃ beside, previous month = .ok beside ∧
      beside.day = monthStart (Calendar.monthOf month.day - 1) := by
  have hbounds := inside_bounds hfirst hnotFirst hnotLast
  obtain ⟨day, hday⟩ : ∃ day : Date, day.day = month.day - 1 := ⟨⟨month.day - 1, by omega⟩, rfl⟩
  refine ⟨day.firstOfMonth, previous_eq_ok.mpr ⟨day, hday, rfl⟩, ?_⟩
  have hmonth : Calendar.monthOf day.day = Calendar.monthOf month.day - 1 := by
    have hlt := monthStart_lt (show Calendar.monthOf month.day - 1 < Calendar.monthOf month.day by omega)
    apply monthOf_eq
    · omega
    · rw [Int.sub_add_cancel]
      omega
  rw [Date.firstOfMonth_day, hmonth]

/-- The month after one that is neither the first nor the last. -/
theorem next_inside (hnotFirst : month.day ≠ firstDay)
    (hnotLast : month.day ≠ monthStart 119999) : ∃ beside, next month = .ok beside ∧
      beside.day = monthStart (Calendar.monthOf month.day + 1) := by
  have hbounds := inside_bounds hfirst hnotFirst hnotLast
  obtain ⟨day, hday⟩ : ∃ day : Date, day.day = month.day + 32 := ⟨⟨month.day + 32, by omega⟩, rfl⟩
  refine ⟨day.firstOfMonth, next_eq_ok.mpr ⟨day, hday, rfl⟩, ?_⟩
  have hmonth : Calendar.monthOf day.day = Calendar.monthOf month.day + 1 := by
    -- Thirty-two days from a month's first are in the month after it.
    have hthis := monthStart_succ (Calendar.monthOf month.day)
    have hlength := monthLength_bounds (Calendar.monthOf month.day)
    have hlater := monthStart_lt (Int.lt_succ (Calendar.monthOf month.day + 1))
    apply monthOf_eq
    · omega
    · omega
  rw [Date.firstOfMonth_day, hmonth]

end Inside

/-! ## The page of any request -/

section View

variable {zones : Zones ι}

theorem window_ext {window other : Window} (hfirst : window.first = other.first)
    (hlast : window.last = other.last) : window = other := by
  obtain ⟨first, last, hordered, hcalendar⟩ := window
  obtain ⟨first', last', hordered', hcalendar'⟩ := other
  obtain rfl : first = first' := hfirst
  obtain rfl : last = last' := hlast
  rfl

/-- The page answers and raises nothing exactly where the request and the entries keep clear of the
calendar's ends. -/
theorem answers_iff (decimals : Numeral.Decimals) (request : Request) (today : Date)
    (sources : Sources zones) :
    Answers decimals request today sources ↔ Clear decimals request today sources := by
  constructor
  · rintro ⟨month, window, events, shown, h⟩
    obtain ⟨asked, hasked, -⟩ := exists_of_bind_eq_ok h.answered
    obtain ⟨hsmall, -⟩ := shown_eq_ok.mp hasked
    have hunique : ∀ other, request.Asks decimals today other → other = month := by
      intro other hother
      have hshown := shown_eq_ok.mpr ⟨hsmall, hother⟩
      rw [shown_eq_ok.mpr ⟨hsmall, h.asked⟩] at hshown
      exact (Except.ok.inj hshown).symm
    constructor
    · exact hsmall
    · intro other hother
      obtain rfl := hunique other hother
      exact (grid_ok_iff hother.first).mp ⟨window, grid_eq_ok.mpr h.weeks⟩
    · intro other within hother hfirst hlast
      obtain rfl := hunique other hother
      obtain rfl : within = window :=
        window_ext (hfirst.trans h.weeks.1.symm) (hlast.trans h.weeks.2.symm)
      exact entryEvents_ok_iff.mp ⟨events, h.listed⟩
  · intro h
    obtain ⟨month, hmonth⟩ := exists_asks decimals request today
    obtain ⟨hnotFirst, hnotLast⟩ := h.inside month hmonth
    obtain ⟨window, hgrid⟩ := (grid_ok_iff hmonth.first).mpr ⟨hnotFirst, hnotLast⟩
    obtain ⟨hfirst, hlast⟩ := grid_eq_ok.mp hgrid
    obtain ⟨events, hevents⟩ := entryEvents_ok_iff.mpr (h.made month window hmonth hfirst hlast)
    obtain ⟨before, hbefore, hbeforeDay⟩ := previous_inside hmonth.first hnotFirst hnotLast
    obtain ⟨after, hafter, hafterDay⟩ := next_inside hmonth.first hnotFirst hnotLast
    refine ⟨month, window, events,
      ⟨Grid.calendarMonth month.day today.day (sources.declared window), before, after⟩, ?_⟩
    constructor
    · exact hmonth
    · exact ⟨hfirst, hlast⟩
    · exact hevents
    · rw [getContextData, shown_eq_ok.mpr ⟨h.small, hmonth⟩]
      simp only [bind, Except.bind, calendarMonth_eq hgrid, hbefore, hafter]
      rfl
    · rfl
    · exact hbeforeDay
    · exact hafterDay

end View

/-! ## The last month there is -/

/-- UTC alone. -/
def universal : Zones Unit where
  zone _ := ⟨0, [], Zone.sorted_nil⟩
  current := ()

/-- Nothing to draw. -/
def noSources : Sources universal := ⟨[], true, fun _ => []⟩

def firstOfOctober : Date := .first (12 * 2026 + 9) (by decide)

/-- The weeks December of 9999 is in end in January of the year after. -/
theorem last_month_raises : ¬Answers Numeral.asciiDecimals ⟨some "9999-12", none⟩ firstOfOctober
    noSources := by
  rintro ⟨month, window, events, shown, h⟩
  have hraises : getContextData Numeral.asciiDecimals ⟨some "9999-12", none⟩ firstOfOctober
      noSources = .error .overflow := by
    rfl
  have hanswered := h.answered
  rw [hraises] at hanswered
  cases hanswered

/-- A number past a C `int` is no wrong month: it raises. -/
example : monthOf Numeral.asciiDecimals (some "2147483648-1") firstOfOctober =
    .error .overflow := by
  rfl

end SeverinoHQ.Calendars.Page
