/-
# What a window lists, and what comes next

The query of `entry_events` goes by the days an entry repeats on, and an occurrence may run on
past the last of them. A repeating entry of several days that stopped before a window may so be
left out of it, with an occurrence that runs into the window; `upcoming` has it.
-/

import Mathlib.Data.List.Flatten
import SeverinoHQ.Calendars.Recurring
import SeverinoHQ.Math.Fallible

namespace SeverinoHQ.Calendars

open SeverinoHQ.Math SeverinoHQ.Math.Calendar SeverinoHQ.Math.Recurrence

namespace Entry

variable (entry : Entry)

/-- An occurrence starts on the day. -/
def Occurs (day : Int) : Prop := entry.Falls day ∧ ∀ last ∈ entry.repeatUntil, day ≤ last

/-- The days of the occurrence meet the window. -/
def Meets (window : Window) (day : Int) : Prop :=
  day ≤ window.last ∧ window.first ≤ day + entry.spanDays

/-- The days listed of an entry in a window. -/
def Shown (window : Window) : List Int → Prop :=
  FirstOf (fun day => entry.Occurs day ∧ entry.Meets window day) maxOccurrences

/-- The days that come next of an entry. -/
def Coming (count : Nat) (today : Int) : List Int → Prop :=
  FirstOf (fun day => entry.Occurs day ∧ today ≤ day + entry.spanDays) count

/-- No occurrence runs into the window of an entry that stops repeating before it. -/
def Over (window : Window) : Prop :=
  ∀ last ∈ entry.repeatUntil, last < window.first →
    ∀ day, entry.Falls day → day ≤ last → day + entry.spanDays < window.first

/-- The dates made to list the entry in a window are on the calendar. A loop makes one date more
than it goes past. -/
structure Made (window : Window) : Prop where
  earliest : firstDay ≤ window.first - entry.spanDays
  next : entry.repeats ≠ .none → ∃ day, entry.Falls day ∧ day ≤ lastDay ∧
    (entry.stop window < day ∨ ∃ days : List Int, days.Pairwise (· < ·) ∧
      days.length = maxOccurrences ∧
        ∀ other ∈ days, (entry.Occurs other ∧ entry.Meets window other) ∧ other < day)
  shown : ∀ days, entry.Shown window days → ∀ day ∈ days, entry.lastMade day ≤ lastDay

/-- The dates made to find what comes next of the entry are on the calendar. -/
def MadeNext (count : Nat) (today : Int) : Prop :=
  entry.repeats ≠ .none → ∃ day, entry.Falls day ∧ day ≤ lastDay ∧
    (∀ other, entry.Falls other → other < day → other + entry.spanDays ≤ lastDay) ∧
      ((∃ last ∈ entry.repeatUntil, last < day) ∨ ∃ days : List Int, days.Pairwise (· < ·) ∧
        days.length = count ∧
          ∀ other ∈ days, (entry.Occurs other ∧ today ≤ other + entry.spanDays) ∧ other < day)

end Entry

/-- Of each entry the occurrences that meet the window, each once, and nothing else. -/
def Lists (entries : List Entry) (window : Window) : Prop :=
  ∃ days : Entry → List Int, (∀ entry ∈ entries, entry.Shown window (days entry)) ∧
    entryEvents entries window = .ok (entries.flatMap fun entry => (days entry).map entry.event)

/-- The first of an entry's occurrences that have not ended. -/
def Entry.Comes (entry : Entry) (count : Nat) (today : Int) : Prop :=
  ∃ days, entry.upcoming count today = .ok days ∧ entry.Coming count today days

/-! ## A loop over the days of an entry -/

namespace Entry

variable {entry : Entry} {search : Search}

/-- What a loop over the days of an entry is for. -/
def Sought (entry : Entry) (search : Search) (day : Int) : Prop :=
  entry.Falls day ∧ search.ends day = false ∧ search.keeps day = true

theorem falls_of_once (h : entry.repeats = .none) (day : Int) :
    entry.Falls day ↔ day = entry.startsOn := by
  rw [Falls, h]
  constructor
  · exact And.right
  · rintro rfl
    exact ⟨Int.le_refl _, rfl⟩

theorem through_once (h : entry.repeats = .none) (hlast : entry.startsOn ≤ search.last)
    (hfails : search.fails entry.startsOn = false) :
    ∃ found, entry.through search = .ok found ∧
      FirstOf (entry.Sought search) search.limit found := by
  have hsought : ∀ day, entry.Sought search day ↔ day = entry.startsOn ∧
      search.ends entry.startsOn = false ∧ search.keeps entry.startsOn = true := by
    intro day
    rw [Sought, falls_of_once h]
    exact and_congr_right fun hday => by rw [hday]
  rw [through, if_pos h, Search.through, if_neg (not_lt.mpr hlast)]
  by_cases hleaves : search.ends entry.startsOn = true ∨ search.limit ≤ ([] : List Int).length
  · rw [if_pos hleaves]
    refine ⟨[], rfl, List.Pairwise.nil, by simp, by simp, fun day hday _ => ⟨?_, by simp⟩⟩
    rcases hleaves with hends | hlimit
    · rw [((hsought day).mp hday).2.1] at hends
      contradiction
    · exact (Nat.le_zero.mp hlimit).symm
  · rw [if_neg hleaves, hfails]
    rw [not_or, Bool.not_eq_true, not_le] at hleaves
    by_cases hkeeps : search.keeps entry.startsOn = true
    · refine ⟨[entry.startsOn], by simp [hkeeps, Search.through], by simp, ?_, ?_, ?_⟩
      · simpa using (hsought entry.startsOn).mpr ⟨rfl, hleaves.1, hkeeps⟩
      · exact hleaves.2
      · intro day hday hnot
        exact absurd ((hsought day).mp hday).1 (by simpa using hnot)
    · refine ⟨[], by simp [hkeeps, Search.through], List.Pairwise.nil, by simp, by simp, ?_⟩
      intro day hday
      exact absurd ((hsought day).mp hday).2.2 hkeeps

theorem le_stepsEnough {start : Int} (h : firstDay ≤ start) :
    (lastDay - start).toNat + 1 + 4800 ≤ stepsEnough := by
  have hle : (lastDay - start).toNat ≤ (lastDay - firstDay).toNat :=
    Int.toNat_le_toNat (Int.sub_le_sub_left h lastDay)
  exact Nat.add_le_add_right (Nat.add_le_add_right hle 1) 4800

theorem wanted_iff (h : entry.repeats ≠ .none) (day : Int) :
    Wanted search entry.steps day ↔ entry.Sought search day := by
  rw [Wanted, Sought, recurring_steps h]

/-- The loop finds what it is for, if it comes to an end. -/
theorem through_spec (hlast : search.last = lastDay) (hfails : entry.repeats = .none →
      search.fails entry.startsOn = false)
    (hends : ∀ first second, first ≤ second → search.ends first = true → search.ends second = true)
    {found : List Int} (h : entry.through search = .ok found) :
    FirstOf (entry.Sought search) search.limit found := by
  by_cases hrepeats : entry.repeats = .none
  · obtain ⟨other, hother, hfirst⟩ := through_once hrepeats
      (hlast ▸ entry.starts_on_calendar.2) (hfails hrepeats)
    rw [h] at hother
    rwa [Except.ok.inj hother]
  · rw [through, if_neg hrepeats] at h
    cases hwalk : search.walk entry.steps stepsEnough 0 [] with
    | on days => simp [hwalk] at h
    | failed => simp [hwalk] at h
    | left days =>
        rw [hwalk] at h
        obtain rfl := Except.ok.inj h
        exact (firstOf_of_left (recurs_steps hrepeats) hends hwalk).congr (wanted_iff hrepeats)

/-- It comes to an end where the dates it makes are on the calendar. -/
theorem through_ok_iff (hlast : search.last = lastDay) (hfails : entry.repeats = .none →
      search.fails entry.startsOn = false) :
    (∃ found, entry.through search = .ok found) ↔
      (entry.repeats ≠ .none → Ends search entry.steps) := by
  by_cases hrepeats : entry.repeats = .none
  · obtain ⟨found, hfound, -⟩ := through_once hrepeats
      (hlast ▸ entry.starts_on_calendar.2) (hfails hrepeats)
    constructor
    · intro _ hnot
      exact absurd hrepeats hnot
    · intro _
      exact ⟨found, hfound⟩
  · have hfuel := le_stepsEnough entry.starts_on_calendar.1
    rw [← hlast] at hfuel
    have hiff := @left_iff entry.steps search entry.startsOn 4800 (recurs_steps hrepeats)
      stepsEnough hfuel
    rw [forall_prop_of_true hrepeats, ← hiff, through, if_neg hrepeats]
    constructor
    · rintro ⟨found, h⟩
      cases hwalk : search.walk entry.steps stepsEnough 0 [] with
      | on days => simp [hwalk] at h
      | failed => simp [hwalk] at h
      | left days => exact ⟨days, rfl⟩
    · rintro ⟨found, h⟩
      exact ⟨found, by rw [h]⟩

/-! ## The two loops -/

theorem lastDayOn_bounds : entry.startsOn ≤ entry.lastDayOn ∧ entry.lastDayOn ≤ lastDay := by
  cases hends : entry.endsOn with
  | none => exact ⟨by simp [lastDayOn, hends], by
      simpa [lastDayOn, hends] using entry.starts_on_calendar.2⟩
  | some last =>
      have hafter := entry.ends_after_it_starts last hends
      have hcalendar := entry.ends_on_calendar last hends
      exact ⟨by simpa [lastDayOn, hends] using hafter, by simpa [lastDayOn, hends] using hcalendar⟩

theorem le_stop_iff {window : Window} {day : Int} :
    day ≤ entry.stop window ↔ day ≤ window.last ∧ ∀ last ∈ entry.repeatUntil, day ≤ last := by
  cases huntil : entry.repeatUntil with
  | none => simp [stop, huntil]
  | some last => simp [stop, huntil]

theorem sought_occurrences {window : Window} (day : Int) :
    entry.Sought (entry.occurrencesSearch window) day ↔ entry.Occurs day ∧ entry.Meets window day := by
  simp only [Sought, occurrencesSearch, decide_eq_false_iff_not, decide_eq_true_eq, not_lt,
    le_stop_iff, Occurs, Meets]
  constructor
  · rintro ⟨hfalls, ⟨hlast, huntil⟩, hfirst⟩
    exact ⟨⟨hfalls, huntil⟩, hlast, by omega⟩
  · rintro ⟨⟨hfalls, huntil⟩, hlast, hfirst⟩
    exact ⟨hfalls, ⟨hlast, huntil⟩, by omega⟩

theorem sought_upcoming {count : Nat} {today : Int} (day : Int) :
    entry.Sought (entry.upcomingSearch count today) day ↔
      entry.Occurs day ∧ today ≤ day + entry.spanDays := by
  have huntil : entry.repeatUntil.any (· < day) = false ↔
      ∀ last ∈ entry.repeatUntil, day ≤ last := by
    cases huntil : entry.repeatUntil with
    | none => simp
    | some last => simp
  simp only [Sought, upcomingSearch, decide_eq_true_eq, huntil, Occurs, and_assoc]

theorem occurrences_shown {window : Window} {days : List Int}
    (h : entry.through (entry.occurrencesSearch window) = .ok days) : entry.Shown window days := by
  apply (through_spec rfl (fun _ => rfl) (fun first second hle hends => ?_) h).congr
    sought_occurrences
  simp only [occurrencesSearch, decide_eq_true_eq] at hends ⊢
  exact hends.trans_le hle

theorem occurrences_ok_iff {window : Window} :
    (∃ days, entry.through (entry.occurrencesSearch window) = .ok days) ↔
      (entry.repeats ≠ .none → ∃ day, entry.Falls day ∧ day ≤ lastDay ∧
        (entry.stop window < day ∨ ∃ days : List Int, days.Pairwise (· < ·) ∧
          days.length = maxOccurrences ∧
            ∀ other ∈ days, (entry.Occurs other ∧ entry.Meets window other) ∧ other < day)) := by
  rw [through_ok_iff rfl fun _ => rfl]
  refine forall_congr' fun hrepeats => ?_
  simp only [Ends, recurring_steps hrepeats, wanted_iff hrepeats, sought_occurrences]
  simp [occurrencesSearch]

theorem fails_upcoming {count : Nat} {today : Int} :
    (entry.upcomingSearch count today).fails entry.startsOn = false := by
  have hbounds := @lastDayOn_bounds entry
  show decide (lastDay < entry.startsOn + entry.spanDays) = false
  rw [decide_eq_false_iff_not, spanDays]
  omega

theorem upcoming_coming {count : Nat} {today : Int} {days : List Int}
    (h : entry.upcoming count today = .ok days) : entry.Coming count today days := by
  apply (through_spec rfl (fun _ => fails_upcoming) (fun first second hle hends => ?_) h).congr
    sought_upcoming
  simp only [upcomingSearch, Option.any_eq_true, decide_eq_true_eq] at hends ⊢
  obtain ⟨last, hlast, hlt⟩ := hends
  exact ⟨last, hlast, hlt.trans_le hle⟩

theorem comes_iff {count : Nat} {today : Int} :
    entry.Comes count today ↔ entry.MadeNext count today := by
  have hok : (∃ days, entry.upcoming count today = .ok days) ↔ entry.MadeNext count today := by
    rw [upcoming, through_ok_iff rfl fun _ => fails_upcoming]
    refine forall_congr' fun hrepeats => ?_
    simp only [Ends, recurring_steps hrepeats, wanted_iff hrepeats, sought_upcoming]
    simp [upcomingSearch, Option.any_eq_true]
  rw [← hok]
  constructor
  · rintro ⟨days, hdays, -⟩
    exact ⟨days, hdays⟩
  · rintro ⟨days, hdays⟩
    exact ⟨days, hdays, upcoming_coming hdays⟩

/-! ## What is listed of one entry -/

/-- The events of an entry in a window. -/
def listed (entry : Entry) (window : Window) : Except Unfinished (List CalendarEvent) := do
  (← entry.occurrences window).mapM entry.occurrence

theorem mapM_occurrence {days : List Int} (h : ∀ day ∈ days, entry.lastMade day ≤ lastDay) :
    days.mapM entry.occurrence = .ok (days.map entry.event) :=
  mapM_eq_ok_map fun day hday => if_neg (not_or.mpr ⟨not_lt.mpr (h day hday), entry.has_a_title⟩)

/-- What is listed of an entry is its occurrences in the window, where the dates made are on the
calendar. -/
theorem listed_of_made {window : Window} (h : entry.Made window) :
    ∃ days, entry.Shown window days ∧ entry.listed window = .ok (days.map entry.event) := by
  obtain ⟨days, hdays⟩ := occurrences_ok_iff.mpr h.next
  have hshown := occurrences_shown hdays
  refine ⟨days, hshown, ?_⟩
  rw [listed, occurrences, if_neg (not_lt.mpr h.earliest), hdays]
  exact mapM_occurrence (h.shown days hshown)

theorem made_of_listed {window : Window} {events : List CalendarEvent}
    (h : entry.listed window = .ok events) : entry.Made window := by
  obtain ⟨days, hdays, hevents⟩ := exists_of_bind_eq_ok h
  by_cases hearliest : window.first - entry.spanDays < firstDay
  · rw [occurrences, if_pos hearliest] at hdays
    contradiction
  · rw [occurrences, if_neg hearliest] at hdays
    refine ⟨not_lt.mp hearliest, occurrences_ok_iff.mp ⟨days, hdays⟩, fun other hother day hday => ?_⟩
    obtain rfl := (occurrences_shown hdays).unique hother
    obtain ⟨event, hevent⟩ := exists_of_mapM_eq_ok hevents hday
    by_contra hpast
    rw [occurrence, if_pos (.inl (not_le.mp hpast))] at hevent
    contradiction

/-- The query leaves out an entry with nothing in the window, or one that stops repeating
before it. -/
theorem none_of_not_queried {window : Window} (h : entry.queried window = false)
    (hover : entry.Over window) (day : Int) : ¬ (entry.Occurs day ∧ entry.Meets window day) := by
  rintro ⟨⟨hfalls, huntil⟩, hlast, hfirst⟩
  have hstart : entry.startsOn ≤ window.last := hfalls.1.trans hlast
  rw [queried, decide_eq_true hstart, Bool.true_and] at h
  by_cases hrepeats : entry.repeats = .none
  · rw [if_pos hrepeats, decide_eq_false_iff_not] at h
    obtain rfl := (falls_of_once hrepeats day).mp hfalls
    rw [spanDays] at hfirst
    omega
  · rw [if_neg hrepeats, ← Bool.not_eq_true, Option.all_eq_true] at h
    push Not at h
    obtain ⟨last, hmem, hbefore⟩ := h
    have hlt : last < window.first := by simpa using hbefore
    have := hover last hmem hlt day hfalls (huntil last hmem)
    omega

theorem over_of_none {window : Window}
    (h : ∀ day, ¬ (entry.Occurs day ∧ entry.Meets window day)) : entry.Over window := by
  intro last hlast hbefore day hfalls hle
  by_contra hruns
  have hordered := window.ordered
  have hoccurs : entry.Occurs day := ⟨hfalls, fun other hother => by
    obtain rfl := Option.mem_unique hlast hother
    exact hle⟩
  exact h day ⟨hoccurs, by omega, not_lt.mp hruns⟩

end Entry

/-! ## What a window lists -/

/-- Leaving items out changes nothing where they have nothing. -/
theorem flatMap_filter_eq_iff {α β : Type} {keeps : α → Bool} {through : α → List β}
    {items : List α} : (items.filter keeps).flatMap through = items.flatMap through ↔
      ∀ item ∈ items, keeps item = false → through item = [] := by
  induction items with
  | nil => simp
  | cons first items ih =>
      by_cases hfirst : keeps first = true
      · rw [List.filter_cons_of_pos hfirst, List.flatMap_cons, List.flatMap_cons,
          List.append_cancel_left_eq, ih, List.forall_mem_cons]
        simp [hfirst]
      · have hle : ((items.filter keeps).flatMap through).length ≤
            (items.flatMap through).length :=
          (List.filter_sublist.flatMap through).length_le
        rw [List.filter_cons_of_neg hfirst, List.flatMap_cons, List.forall_mem_cons, ← ih]
        constructor
        · intro h
          have hlength := congrArg List.length h
          rw [List.length_append] at hlength
          have hnone : through first = [] := List.length_eq_zero_iff.mp (by omega)
          rw [hnone, List.nil_append] at h
          exact ⟨fun _ => hnone, h⟩
        · rintro ⟨hnone, h⟩
          rw [h, hnone (Bool.eq_false_iff.mpr hfirst), List.nil_append]

section Listing

variable {entries : List Entry} {window : Window}

theorem entryEvents_eq : entryEvents entries window = Except.map List.flatten
    ((entries.filter fun entry => entry.queried window).mapM fun entry => entry.listed window) := by
  rw [entryEvents]
  change (((entries.filter fun entry => entry.queried window).mapM fun entry =>
    entry.listed window) >>= fun found => pure found.flatten) = _
  cases (entries.filter fun entry => entry.queried window).mapM fun entry : Entry =>
    entry.listed window with
  | error unfinished => rfl
  | ok found => rfl

/-- With the dates made on the calendar, each entry the query lets through is listed. -/
theorem entryEvents_of_made {days : Entry → List Int}
    (hdays : ∀ entry ∈ entries, entry.queried window = true → entry.Shown window (days entry))
    (hmade : ∀ entry ∈ entries, entry.queried window = true → entry.Made window) :
    entryEvents entries window = .ok ((entries.filter (·.queried window)).flatMap fun entry =>
      (days entry).map entry.event) := by
  have hlisted : ∀ entry ∈ entries.filter (·.queried window),
      entry.listed window = .ok ((days entry).map entry.event) := by
    intro entry hentry
    obtain ⟨hmem, hqueried⟩ := List.mem_filter.mp hentry
    obtain ⟨other, hother, hevents⟩ := Entry.listed_of_made (hmade entry hmem hqueried)
    rw [hevents, hother.unique (hdays entry hmem hqueried)]
  rw [entryEvents_eq, mapM_eq_ok_map hlisted]
  rfl

/-- The window can be listed exactly where the dates made of each entry the query lets through are
on the calendar. -/
theorem entryEvents_ok_iff : (∃ events, entryEvents entries window = .ok events) ↔
    ∀ entry ∈ entries, entry.queried window = true → entry.Made window := by
  rw [entryEvents_eq]
  constructor
  · rintro ⟨events, hevents⟩ entry hentry hqueried
    obtain ⟨found, hfound, -⟩ := exists_of_map_eq_ok hevents
    obtain ⟨listed, hlisted⟩ :=
      exists_of_mapM_eq_ok hfound (List.mem_filter.mpr ⟨hentry, hqueried⟩)
    exact Entry.made_of_listed hlisted
  · intro hmade
    have hlisted : ∀ entry ∈ entries.filter (·.queried window),
        ∃ events, entry.listed window = .ok events := by
      intro entry hentry
      obtain ⟨hmem, hqueried⟩ := List.mem_filter.mp hentry
      obtain ⟨days, -, hdays⟩ := Entry.listed_of_made (hmade entry hmem hqueried)
      exact ⟨days.map entry.event, hdays⟩
    obtain ⟨found, hfound⟩ := exists_mapM_eq_ok hlisted
    exact ⟨found.flatten, by rw [hfound]; rfl⟩

theorem lists_iff : Lists entries window ↔
    ∀ entry ∈ entries, entry.Over window ∧ (entry.queried window = true → entry.Made window) := by
  constructor
  · rintro ⟨days, hdays, hevents⟩ entry hentry
    have hmade := entryEvents_ok_iff.mp ⟨_, hevents⟩
    refine ⟨?_, hmade entry hentry⟩
    by_cases hqueried : entry.queried window = true
    · -- The query lets through no repeating entry that stopped before the window.
      intro last hlast hbefore
      have hrepeats := entry.until_only_repeating (Option.isSome_iff_exists.mpr ⟨last, hlast⟩)
      rw [Entry.queried, if_neg hrepeats, Bool.and_eq_true, Option.all_eq_true] at hqueried
      have := hqueried.2 last hlast
      rw [decide_eq_true_eq] at this
      omega
    · rw [entryEvents_of_made (fun other hother _ => hdays other hother) hmade] at hevents
      have hnone := flatMap_filter_eq_iff.mp (Except.ok.inj hevents) entry hentry
        (Bool.eq_false_iff.mpr hqueried)
      have hshown := hdays entry hentry
      rw [List.map_eq_nil_iff.mp hnone] at hshown
      exact Entry.over_of_none ((FirstOf.nil_iff (by decide)).mp hshown)
  · intro h
    let days : Entry → List Int := fun entry =>
      if entry.queried window = true then
        match entry.through (entry.occurrencesSearch window) with
        | .ok days => days
        | .error _ => []
      else []
    have hnone : ∀ entry ∈ entries, entry.queried window = false →
        entry.Shown window [] := fun entry hentry hqueried =>
      (FirstOf.nil_iff (by decide)).mpr (Entry.none_of_not_queried hqueried (h entry hentry).1)
    have hshown : ∀ entry ∈ entries, entry.Shown window (days entry) := by
      intro entry hentry
      by_cases hqueried : entry.queried window = true
      · obtain ⟨found, hfound⟩ :=
          Entry.occurrences_ok_iff.mpr ((h entry hentry).2 hqueried).next
        simpa [days, hqueried, hfound] using Entry.occurrences_shown hfound
      · have hfalse := Bool.eq_false_iff.mpr hqueried
        simpa [days, hfalse] using hnone entry hentry hfalse
    refine ⟨days, hshown, ?_⟩
    rw [entryEvents_of_made (fun entry hentry _ => hshown entry hentry)
      fun entry hentry => (h entry hentry).2]
    congr 1
    -- What the query leaves out has nothing to list.
    apply flatMap_filter_eq_iff.mpr
    intro entry _ hqueried
    simp [days, hqueried]

end Listing

/-- Three days from each of two Thursdays, the first of October 2026 and the eighth. -/
def retreat : Entry where
  uid := 0
  title := "Retreat"
  startsOn := onDay (12 * 2026 + 9) 1
  endsOn := some (onDay (12 * 2026 + 9) 3)
  startsAt := none
  endsAt := none
  repeats := .weekly
  interval := 1
  weekdayNumbers := []
  repeatUntil := some (onDay (12 * 2026 + 9) 8)
  has_a_title := by decide
  starts_on_calendar := by decide
  ends_on_calendar := by decide
  ends_after_it_starts := by decide
  end_time_has_a_start := by decide
  end_time_follows_start := by simp
  interval_in_range := by decide
  weekdays_only_weekly := by decide
  weekdays_ascending := by decide
  weekdays_in_week := by decide
  until_only_repeating := by decide
  until_after_it_starts := by decide

/-- The rest of the month from the ninth. -/
def restOfOctober : Window where
  first := onDay (12 * 2026 + 9) 9
  last := onDay (12 * 2026 + 9) 31
  ordered := by decide
  on_calendar := by decide

example : retreat.upcoming 5 restOfOctober.first = .ok [onDay (12 * 2026 + 9) 8] := by decide

end SeverinoHQ.Calendars
