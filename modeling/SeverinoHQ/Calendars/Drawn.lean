/-
# What the grid counts

Each cell counts the shown events that cover its day, a span keeps its lane over a week, and a
piece knows whether it is a span's first or last. It holds where no shown event of the window
ends on a day before it starts.
-/

import Mathlib.Data.List.ReduceOption
import SeverinoHQ.Calendars.Month

namespace SeverinoHQ.Calendars.Grid

open SeverinoHQ.Math SeverinoHQ.Math.Calendar

universe u

variable {ι : Type u} [DecidableEq ι] {zones : Zones ι}

/-! ## What it is to be drawn -/

section Purpose

variable (placed : List (Placed zones))

/-- The shown events that cover a day. -/
def covering (day : Int) : List (Placed zones) :=
  placed.filter fun item => item.source.shown && item.event.covers day

/-- What the cell draws and what it folds are the shown events that cover its day, each once. -/
def Counts (cell : CalendarCell zones) : Prop :=
  ∃ folded, cell.more = folded.length ∧
    (cell.marks ++ cell.items ++ cell.lanes.reduceOption.map SpanPiece.placed ++ folded).Perm
      (covering placed cell.day)

/-- Each span of the week has a lane, two that share a day have two, and the lanes drawn hold the
spans on the days they cover and nothing else. -/
def KeepsLanes (week : List (CalendarCell zones)) : Prop :=
  ∃ assigned : List (Placed zones × Nat),
    (assigned.map Prod.fst).Perm (placed.filter fun item => item.source.shown &&
      item.event.span && week.any fun cell => item.event.covers cell.day) ∧
    assigned.Pairwise (fun first second => ∀ cell ∈ week, first.1.event.covers cell.day = true →
      second.1.event.covers cell.day = true → first.2 ≠ second.2) ∧
    ∀ cell ∈ week, ∀ lane < cellRows, ∀ item,
      (∃ piece, cell.lanes[lane]? = some (some piece) ∧ piece.placed = item) ↔
        (item, lane) ∈ assigned ∧ item.event.covers cell.day = true

/-- A piece starts a span on its first day and ends it on its last. -/
def TellsEnds (cell : CalendarCell zones) : Prop :=
  ∀ piece, some piece ∈ cell.lanes →
    (piece.startsHere = true ↔ cell.day = piece.placed.event.firstDay) ∧
      (piece.endsHere = true ↔ cell.day = piece.placed.event.lastDay)

/-- The grid has each of its 42 days once, in order, and draws what is placed. -/
structure Drawn (month : CalendarMonth zones) : Prop where
  days : month.weeks.flatten.map CalendarCell.day =
    (List.range 42).map fun (index : Nat) => gridFirst month.month + index
  counts : ∀ week ∈ month.weeks, ∀ cell ∈ week, Counts placed cell
  lanes : ∀ week ∈ month.weeks, KeepsLanes placed week
  ends : ∀ week ∈ month.weeks, ∀ cell ∈ week, TellsEnds cell

/-- A cell's number is that of the shown events that cover its day. -/
theorem Counts.count_eq {placed : List (Placed zones)} {cell : CalendarCell zones}
    (h : Counts placed cell) : cell.count = (covering placed cell.day).length := by
  obtain ⟨folded, hmore, hperm⟩ := h
  have hpieces : cell.lanes.reduceOption.length = (cell.lanes.filter Option.isSome).length := by
    rw [List.reduceOption_length_eq]
  rw [CalendarCell.count, ← hperm.length_eq, hmore]
  simp only [List.length_append, List.length_map, hpieces]
  omega

end Purpose

/-! ## One cell -/

theorem shownOf_perm (placed : List (Placed zones)) :
    (shownOf placed).Perm (placed.filter fun item => item.source.shown) :=
  List.mergeSort_perm _ _

theorem gridFirst_index (month : Int) (week : Nat) {offset : Nat} (h : offset < 7) :
    ((weekday (gridFirst month + 7 * week + offset) + 1) % 7).toNat = offset := by
  simp only [gridFirst, weekday]
  omega

/-- The pieces drawn are of the spans in the column of the first lanes. -/
theorem pieces_cell (day month today : Int) (onDay : List (Placed zones))
    (lanes : List (List (Option (Placed zones)))) :
    (cell day month today onDay lanes).lanes.reduceOption.map SpanPiece.placed =
      Lanes.column (lanes.take cellRows) ((weekday day + 1) % 7).toNat := by
  rw [List.reduceOption, List.map_filterMap, cell, List.filterMap_map, Lanes.column]
  apply List.filterMap_congr
  intro lane _
  cases hheld : Lanes.hold lane ((weekday day + 1) % 7).toNat with
  | none => simp [hheld]
  | some placed => simp [hheld]

/-- What a cell lists: its day's bucket, and the column of the lanes. -/
theorem cell_lists {day : Int} (month today : Int) (onDay : List (Placed zones))
    (lanes : List (List (Option (Placed zones)))) {index : Nat}
    (hindex : ((weekday day + 1) % 7).toNat = index) :
    ∃ folded, (cell day month today onDay lanes).more = folded.length ∧
      ((cell day month today onDay lanes).marks ++ (cell day month today onDay lanes).items ++
        (cell day month today onDay lanes).lanes.reduceOption.map SpanPiece.placed ++ folded).Perm
          (onDay ++ Lanes.column lanes index) := by
  rw [pieces_cell, hindex]
  obtain ⟨items, hitems⟩ : ∃ items, items = onDay.filter fun item => !item.event.mark := ⟨_, rfl⟩
  obtain ⟨room, hroom⟩ : ∃ room, room = cellRows - (lanes.take cellRows).length := ⟨_, rfl⟩
  refine ⟨items.drop room ++ Lanes.column (lanes.drop cellRows) index, ?_, ?_⟩
  · rw [List.length_append, List.length_drop, Lanes.length_column, hitems, hroom, ← hindex]
    rfl
  · have hmarks : (cell day month today onDay lanes).marks =
      onDay.filter fun item => item.event.mark := rfl
    have hdrawn : (cell day month today onDay lanes).items = items.take room := by
      rw [hitems, hroom]
      rfl
    have hbucket : ((onDay.filter fun item => item.event.mark) ++ items).Perm onDay := by
      rw [hitems]
      exact List.filter_append_perm _ onDay
    rw [hmarks, hdrawn, ← Lanes.column_take_append_drop lanes cellRows index]
    apply List.Perm.trans _ (hbucket.append_right _)
    conv_rhs => rw [← List.take_append_drop room items]
    simp only [List.append_assoc]
    apply List.Perm.append_left
    apply List.Perm.append_left
    exact List.perm_append_comm_assoc _ _ _

/-! ## What a day lists -/

/-- An event is listed on a day: a span on those it covers, any other on its first. -/
def CalendarEvent.lists (event : CalendarEvent zones) (day : Int) : Bool :=
  if event.span then event.covers day else event.firstDay == day

theorem CalendarEvent.span_iff {event : CalendarEvent zones} :
    event.span = true ↔ event.firstDay < event.lastDay := by
  rw [span, decide_eq_true_eq, days]
  omega

theorem CalendarEvent.lists_of_covers {event : CalendarEvent zones} {day : Int}
    (h : event.covers day = true) : event.lists day = true := by
  rw [lists]
  by_cases hspan : event.span = true
  · rw [if_pos hspan, h]
  · rw [if_neg hspan]
    simp only [covers, Bool.and_eq_true, decide_eq_true_eq] at h
    rw [span_iff] at hspan
    rw [beq_iff_eq]
    omega

theorem CalendarEvent.covers_of_lists {event : CalendarEvent zones} {day : Int}
    (hforward : event.firstDay ≤ event.lastDay) (h : event.lists day = true) :
    event.covers day = true := by
  rw [lists] at h
  by_cases hspan : event.span = true
  · rwa [if_pos hspan] at h
  · rw [if_neg hspan, beq_iff_eq] at h
    simp [covers, ← h, hforward]

/-- An event that ends before its first day is listed there and covers it not. -/
theorem CalendarEvent.lists_firstDay {event : CalendarEvent zones}
    (hback : event.lastDay < event.firstDay) :
    event.lists event.firstDay = true ∧ event.covers event.firstDay = false := by
  have hspan : ¬ event.span = true := by
    rw [span_iff]
    omega
  constructor
  · rw [lists, if_neg hspan, beq_self_eq_true]
  · simp only [covers, Bool.and_eq_false_iff, decide_eq_false_iff_not]
    omega

/-- The bucket of a day with the spans that cover it are the events listed on it. -/
theorem bucket_perm (shown : List (Placed zones)) (day : Int) :
    ((shown.filter fun item => !item.event.span && item.event.firstDay == day) ++
      (shown.filter fun item => item.event.span).filter fun item => item.event.covers day).Perm
        (shown.filter fun item => item.event.lists day) := by
  have hbucket : (shown.filter fun item => !item.event.span && item.event.firstDay == day) =
      (shown.filter fun item => item.event.lists day).filter fun item => !item.event.span := by
    rw [List.filter_filter]
    apply List.filter_congr
    intro item _
    cases hspan : item.event.span <;> simp [CalendarEvent.lists, hspan]
  have hspans : ((shown.filter fun item => item.event.span).filter
      fun item => item.event.covers day) =
      (shown.filter fun item => item.event.lists day).filter fun item => item.event.span := by
    rw [List.filter_filter, List.filter_filter]
    apply List.filter_congr
    intro item _
    cases hspan : item.event.span <;> simp [CalendarEvent.lists, hspan]
  rw [hbucket, hspans]
  exact List.perm_append_comm.trans (List.filter_append_perm _ _)

/-- A cell that shows what is listed on its day counts right exactly where that covers it. -/
theorem counts_iff {placed : List (Placed zones)} {cell : CalendarCell zones}
    (hlists : ∃ folded, cell.more = folded.length ∧
      (cell.marks ++ cell.items ++ cell.lanes.reduceOption.map SpanPiece.placed ++ folded).Perm
        (placed.filter fun item => item.source.shown && item.event.lists cell.day)) :
    Counts placed cell ↔ ∀ item ∈ placed, item.source.shown = true →
      item.event.lists cell.day = true → item.event.covers cell.day = true := by
  obtain ⟨folded, hmore, hperm⟩ := hlists
  constructor
  · intro ⟨others, hothers, hperm'⟩ item hitem hshown hlisted
    have hlength : (covering placed cell.day).length =
        (placed.filter fun item => item.source.shown && item.event.lists cell.day).length := by
      rw [← hperm.length_eq, ← hperm'.length_eq, List.length_append, ← hothers, hmore,
        ← List.length_append]
    have hsub : (covering placed cell.day).Sublist
        (placed.filter fun item => item.source.shown && item.event.lists cell.day) := by
      apply List.monotone_filter_right
      intro item hcovers
      rw [Bool.and_eq_true] at hcovers ⊢
      exact ⟨hcovers.1, CalendarEvent.lists_of_covers hcovers.2⟩
    have hmem : item ∈ covering placed cell.day := by
      rw [hsub.eq_of_length hlength]
      simp [hitem, hshown, hlisted]
    simp only [covering, List.mem_filter, Bool.and_eq_true] at hmem
    exact hmem.2.2
  · intro hcovers
    refine ⟨folded, hmore, hperm.trans (List.Perm.of_eq (List.filter_congr fun item hitem => ?_))⟩
    cases hshown : item.source.shown with
    | false => rfl
    | true =>
        rw [Bool.true_and, Bool.true_and, Bool.eq_iff_iff]
        exact ⟨hcovers item hitem hshown, CalendarEvent.lists_of_covers⟩

/-! ## The weeks of the grid -/

section Weeks

variable (month today : Int) (placed : List (Placed zones))

/-- A cell of the grid, over what is placed. -/
def gridCell (week offset : Nat) : CalendarCell zones :=
  let day := gridFirst month + 7 * week + offset
  cell day month today
    ((shownOf placed).filter fun item => !item.event.span && item.event.firstDay == day)
    (lanes ((shownOf placed).filter fun item => item.event.span)
      (weekDays (gridFirst month) week))

/-- A week of the grid, over what is placed. -/
def gridWeek (week : Nat) : List (CalendarCell zones) :=
  (List.range 7).map (gridCell month today placed week)

theorem weeks_eq (declared : List (CalendarSource zones)) :
    (calendarMonth month today declared).weeks = (List.range 6).map (gridWeek month today
      (gather declared (gridFirst month) (gridFirst month + 41))) := by
  simp only [calendarMonth, weekDays, List.map_map]
  rfl

variable {month today placed}

theorem weekDays_getElem? {first : Int} {week offset : Nat} (h : offset < 7) :
    (weekDays first week)[offset]? = some (first + 7 * week + offset) := by
  simp [weekDays, h]

theorem length_weekDays (first : Int) (week : Nat) : (weekDays first week).length = 7 := by
  simp [weekDays]

/-- The lanes of a week, by the offset of a day in it. -/
theorem lanes_assigned (spans : List (Placed zones)) (first : Int) (week : Nat) :
    ∃ assigned, Lanes.Assigned 7
      (fun (item : Placed zones) index => (weekDays first week)[index]?.any item.event.covers) spans
      (Lanes.place (lanes spans (weekDays first week))) assigned := by
  rw [lanes, length_weekDays]
  exact (Lanes.layAll_assigned 7 _ spans).2

theorem gridCell_lists {week offset : Nat} (hoffset : offset < 7) :
    ∃ folded, (gridCell month today placed week offset).more = folded.length ∧
      ((gridCell month today placed week offset).marks ++
        (gridCell month today placed week offset).items ++
        (gridCell month today placed week offset).lanes.reduceOption.map SpanPiece.placed ++
        folded).Perm (placed.filter fun item => item.source.shown &&
          item.event.lists (gridFirst month + 7 * week + offset)) := by
  obtain ⟨folded, hmore, hperm⟩ := cell_lists month today
    ((shownOf placed).filter fun item => !item.event.span &&
      item.event.firstDay == gridFirst month + 7 * week + offset)
    (lanes ((shownOf placed).filter fun item => item.event.span)
      (weekDays (gridFirst month) week)) (gridFirst_index month week hoffset)
  refine ⟨folded, hmore, hperm.trans ?_⟩
  obtain ⟨assigned, hassigned⟩ := lanes_assigned
    ((shownOf placed).filter fun item => item.event.span) (gridFirst month) week
  have hcolumn := hassigned.column_perm hoffset
  simp only [weekDays_getElem? hoffset, Option.any_some] at hcolumn
  refine ((hcolumn.append_left _).trans (bucket_perm (shownOf placed) _)).trans ?_
  have hshown := (shownOf_perm placed).filter fun item =>
    item.event.lists (gridFirst month + 7 * week + offset)
  rw [List.filter_filter] at hshown
  refine hshown.trans (List.Perm.of_eq (List.filter_congr fun item _ => ?_))
  exact Bool.and_comm _ _

theorem gridWeek_keepsLanes (week : Nat) : KeepsLanes placed (gridWeek month today placed week) := by
  obtain ⟨assigned, hitems, hapart, hholds⟩ := lanes_assigned
    ((shownOf placed).filter fun item => item.event.span) (gridFirst month) week
  refine ⟨assigned, ?_, ?_, ?_⟩
  · have hcovered : ∀ item : Placed zones, decide (Lanes.covered 7 (fun (item : Placed zones) index =>
        (weekDays (gridFirst month) week)[index]?.any item.event.covers) item ≠ []) =
          (gridWeek month today placed week).any fun cell => item.event.covers cell.day := by
      intro item
      rw [Bool.eq_iff_iff, decide_eq_true_eq, Lanes.covered_ne_nil, List.any_eq_true]
      simp only [gridWeek, List.mem_map, List.mem_range]
      constructor
      · rintro ⟨offset, hoffset, hcovers⟩
        rw [weekDays_getElem? hoffset, Option.any_some] at hcovers
        exact ⟨_, ⟨offset, hoffset, rfl⟩, hcovers⟩
      · rintro ⟨_, ⟨offset, hoffset, rfl⟩, hcovers⟩
        refine ⟨offset, hoffset, ?_⟩
        rw [weekDays_getElem? hoffset]
        exact hcovers
    have hshown := (shownOf_perm placed).filter fun item =>
      ((gridWeek month today placed week).any fun cell => item.event.covers cell.day) &&
        item.event.span
    rw [hitems, List.filter_congr fun item _ => hcovered item, List.filter_filter]
    refine hshown.trans (List.Perm.of_eq ?_)
    rw [List.filter_filter]
    apply List.filter_congr
    intro item _
    rw [Bool.and_comm, Bool.and_comm (List.any _ _), Bool.and_assoc]
  · apply hapart.imp
    intro first second hapart drawn hdrawn hfirst hsecond
    obtain ⟨offset, hoffset, rfl⟩ := List.mem_map.mp hdrawn
    rw [List.mem_range] at hoffset
    apply hapart offset hoffset
    · rw [weekDays_getElem? hoffset]
      exact hfirst
    · rw [weekDays_getElem? hoffset]
      exact hsecond
  · intro drawn hdrawn lane hlane item
    obtain ⟨offset, hoffset, rfl⟩ := List.mem_map.mp hdrawn
    rw [List.mem_range] at hoffset
    have hplace := hholds lane offset hoffset item
    rw [weekDays_getElem? hoffset, Option.any_some] at hplace
    refine Iff.trans ?_ hplace
    rw [gridCell, cell, Lanes.place]
    dsimp only
    rw [gridFirst_index month week hoffset, List.getElem?_map, List.getElem?_take, if_pos hlane]
    cases (lanes ((shownOf placed).filter fun item => item.event.span)
      (weekDays (gridFirst month) week))[lane]? with
    | none => simp [Lanes.hold_nil]
    | some held =>
        cases hheld : Lanes.hold held offset with
        | none => simp [hheld]
        | some found => simp [hheld]

theorem gridCell_tellsEnds (week offset : Nat) :
    TellsEnds (gridCell month today placed week offset) := by
  intro piece hpiece
  simp only [gridCell, cell, List.mem_map, Option.map_eq_some_iff] at hpiece
  obtain ⟨_, -, item, -, rfl⟩ := hpiece
  simp only [gridCell, cell, beq_iff_eq]
  exact ⟨eq_comm, eq_comm⟩

theorem weeks_days (first : Int) :
    ((List.range 6).flatMap fun (week : Nat) => (List.range 7).map fun (offset : Nat) =>
      first + 7 * week + offset) = (List.range 42).map fun (index : Nat) => first + index := by
  have hnumbers : ((List.range 6).flatMap fun week => (List.range 7).map fun offset =>
      7 * week + offset) = List.range 42 := by decide
  rw [← hnumbers, List.map_flatMap]
  simp only [List.map_map]
  congr
  funext week
  congr
  funext offset
  simp only [Function.comp_apply, Nat.cast_add, Nat.cast_mul]
  omega

end Weeks

/-! ## The month -/

theorem mem_gather {declared : List (CalendarSource zones)} {first last : Int}
    {item : Placed zones} :
    item ∈ gather declared first last ↔ ∃ source ∈ declared, item.source = source.view ∧
      ∃ events ∈ source.events, item.event ∈ events ∧
        first ≤ item.event.lastDay ∧ item.event.firstDay ≤ last := by
  simp only [gather, List.mem_flatMap, List.mem_map, read, List.mem_filter, Bool.and_eq_true,
    decide_eq_true_eq]
  refine exists_congr fun source => and_congr_right fun _ => ?_
  constructor
  · rintro ⟨event, ⟨hevent, hwindow⟩, rfl⟩
    cases hanswer : source.events with
    | none => simp [hanswer] at hevent
    | some events => exact ⟨rfl, events, rfl, by simpa [hanswer] using hevent, hwindow⟩
  · rintro ⟨hsource, events, hanswer, hevent, hwindow⟩
    refine ⟨item.event, ⟨?_, hwindow⟩, ?_⟩
    · rw [Option.mem_def.mp hanswer]
      exact hevent
    · rw [← hsource]

section Grid

variable {month today : Int} {placed : List (Placed zones)}

theorem counts_gridCell {week offset : Nat} (hoffset : offset < 7) :
    Counts placed (gridCell month today placed week offset) ↔
      ∀ item ∈ placed, item.source.shown = true →
        item.event.lists (gridFirst month + 7 * week + offset) = true →
          item.event.covers (gridFirst month + 7 * week + offset) = true :=
  counts_iff (gridCell_lists hoffset)

/-- Every cell counts right where no event goes back. -/
theorem counts_of_forward
    (hforward : ∀ item ∈ placed, item.source.shown = true →
      item.event.firstDay ≤ item.event.lastDay) {week offset : Nat} (hoffset : offset < 7) :
    Counts placed (gridCell month today placed week offset) :=
  (counts_gridCell hoffset).mpr fun item hitem hshown =>
    CalendarEvent.covers_of_lists (hforward item hitem hshown)

/-- An event that goes back is counted on its first day, which it does not cover. -/
theorem forward_of_counts
    (hcounts : ∀ week < 6, ∀ offset < 7, Counts placed (gridCell month today placed week offset))
    {item : Placed zones} (hitem : item ∈ placed) (hshown : item.source.shown = true)
    (hfirst : gridFirst month ≤ item.event.lastDay)
    (hlast : item.event.firstDay ≤ gridFirst month + 41) :
    item.event.firstDay ≤ item.event.lastDay := by
  by_contra hback
  obtain ⟨hlists, hcovers⟩ := CalendarEvent.lists_firstDay (not_le.mp hback)
  obtain ⟨week, offset, hweek, hoffset, hday⟩ : ∃ week offset : Nat, week < 6 ∧ offset < 7 ∧
      item.event.firstDay = gridFirst month + 7 * week + offset :=
    ⟨((item.event.firstDay - gridFirst month) / 7).toNat,
      ((item.event.firstDay - gridFirst month) % 7).toNat, by omega, by omega, by omega⟩
  have hcount := (counts_gridCell hoffset).mp (hcounts week hweek offset hoffset) item hitem hshown
  rw [← hday] at hcount
  rw [hcount hlists] at hcovers
  exact absurd hcovers (by decide)

end Grid

/-- What the grid always keeps: its days, the lanes of its weeks and the ends of the spans. -/
theorem drawn_iff_counts (month today : Int) (declared : List (CalendarSource zones)) :
    Drawn (gather declared (gridFirst month) (gridFirst month + 41))
        (calendarMonth month today declared) ↔
      ∀ week < 6, ∀ offset < 7, Counts (gather declared (gridFirst month) (gridFirst month + 41))
        (gridCell month today (gather declared (gridFirst month) (gridFirst month + 41))
          week offset) := by
  constructor
  · intro hdrawn week hweek offset hoffset
    apply hdrawn.counts (gridWeek month today _ week)
    · rw [weeks_eq]
      exact List.mem_map_of_mem (List.mem_range.mpr hweek)
    · exact List.mem_map_of_mem (List.mem_range.mpr hoffset)
  · intro hcounts
    constructor
    · rw [weeks_eq, List.map_flatten, List.map_map]
      exact weeks_days (gridFirst month)
    all_goals
      intro row hrow
      rw [weeks_eq] at hrow
      obtain ⟨week, hweek, rfl⟩ := List.mem_map.mp hrow
    · intro drawn hdrawn
      obtain ⟨offset, hoffset, rfl⟩ := List.mem_map.mp hdrawn
      exact hcounts week (List.mem_range.mp hweek) offset (List.mem_range.mp hoffset)
    · exact gridWeek_keepsLanes week
    · intro drawn hdrawn
      obtain ⟨offset, -, rfl⟩ := List.mem_map.mp hdrawn
      exact gridCell_tellsEnds week offset

/-- The grid draws what its sources hold exactly where no shown event of its window has its last
day before its first. -/
theorem drawn_iff (month today : Int) (declared : List (CalendarSource zones)) :
    Drawn (gather declared (gridFirst month) (gridFirst month + 41))
        (calendarMonth month today declared) ↔
      ∀ source ∈ declared, source.view.shown = true → ∀ events ∈ source.events,
        ∀ event ∈ events, gridFirst month ≤ event.lastDay →
          event.firstDay ≤ gridFirst month + 41 → event.firstDay ≤ event.lastDay := by
  rw [drawn_iff_counts]
  constructor
  · intro hcounts source hsource hshown events hevents event hevent hfirst hlast
    have hitem : (⟨event, source.view⟩ : Placed zones) ∈
        gather declared (gridFirst month) (gridFirst month + 41) :=
      mem_gather.mpr ⟨source, hsource, rfl, events, hevents, hevent, hfirst, hlast⟩
    exact forward_of_counts hcounts hitem hshown hfirst hlast
  · intro hforward week _ offset hoffset
    refine counts_of_forward (fun item hitem hshown => ?_) hoffset
    obtain ⟨source, hsource, hview, events, hevents, hevent, hfirst, hlast⟩ := mem_gather.mp hitem
    rw [hview] at hshown
    exact hforward source hsource hshown events hevents item.event hevent hfirst hlast

/-! ## Half an hour that ends the day before it starts -/

/-- UTC, and a clock that goes back from 01:00 to midnight on 1 November 2026. -/
def backToMidnight : Zones Bool where
  zone current :=
    if current then ⟨-14400000000, [⟨1793509200000000, -18000000000⟩], by simp⟩
    else ⟨0, [], .nil⟩
  current := true

/-- From 04:30 to 05:00 UTC, which is from 00:30 to midnight. -/
def halfHour : CalendarEvent backToMidnight where
  id := "1"
  title := "Backup".toList
  times := .timed ⟨false, 1793507400000000, false⟩ (some ⟨false, 1793509200000000, false⟩)
  mark := false
  id_given := by decide
  titled := by decide
  ordered := by simp only [Times.Ordered]; decide
  one_day := by decide

theorem not_drawn_halfHour :
    ¬ Drawn (gather [⟨⟨"backups", true⟩, some [halfHour]⟩] (gridFirst 20727)
        (gridFirst 20727 + 41)) (calendarMonth 20727 20727 [⟨⟨"backups", true⟩, some [halfHour]⟩]) := by
  rw [drawn_iff_counts]
  intro hcounts
  have hitem : (⟨halfHour, ⟨"backups", true⟩⟩ : Placed backToMidnight) ∈
      gather [⟨⟨"backups", true⟩, some [halfHour]⟩] (gridFirst 20727) (gridFirst 20727 + 41) :=
    mem_gather.mpr ⟨_, List.mem_singleton_self _, rfl, _, rfl, List.mem_singleton_self _,
      by decide, by decide⟩
  exact absurd (forward_of_counts hcounts hitem rfl (by decide) (by decide)) (by decide)

end SeverinoHQ.Calendars.Grid
