/-
# What a line says of an event

The read keeps the newest rows of each kind, which is all that a line's head, title, outcome,
items and counts are read from. Who started the event and who allowed it are read from rows it may
leave out. The runs list every moment once.
-/

import Mathlib.Data.List.Induction
import SeverinoHQ.Audit.History

namespace SeverinoHQ.Audit.History

open SeverinoHQ.Math

/-! ## What it is to say -/

/-- What a line says of its event. -/
structure Said where
  head : Option Row
  title : Title
  actor : Option String
  approvedBy : String
  action : Option String
  message : Message
  items : List Row
  counts : List (String × Nat)
  total : Nat
  more : Int
  deriving DecidableEq, Repr

def Line.said (line : Line) : Said where
  head := line.head
  title := line.title
  actor := line.actor
  approvedBy := line.approvedBy
  action := line.action
  message := line.message
  items := line.items
  counts := line.counts
  total := line.total
  more := line.more

/-- The rows of the page's operations. -/
def pageRows (events within : List Row) : List Row :=
  ofOperations within ((events.map Row.operationId).filter (· != ""))

/-- The line of an event as it is read, and from all the rows of its operation. -/
def readLine (rows : List Row) (event : Row) : Line :=
  lineOf rows (siblingsOf (newestOfEachKind rows) event) event

def wholeLine (rows : List Row) (event : Row) : Line :=
  lineOf rows (siblingsOf (newestFirst rows) event) event

/-- A run: one source and likeness, and no moment longer before its newest than a run is. -/
structure IsRun (burst : List Moment) : Prop where
  like : ∀ newest ∈ burst.head?, ∀ item ∈ burst,
    item.source = newest.source ∧ item.like = newest.like
  within : ∀ newest ∈ burst.head?, ∀ item ∈ burst,
    item.at' ≤ newest.at' ∧ newest.at' - item.at' ≤ runLength

/-- The moments of a line. -/
def Line.moments (line : Line) : List Moment := line.moment.toList ++ line.burst

/-- The runs list every moment once, newest line first, and each burst is a run of two or more,
dated by its newest. -/
structure Listed (found : List Moment) : Prop where
  once : ((runs found).flatMap Line.moments).Perm found
  ordered : (runs found).Pairwise fun first second => second.at' ≤ first.at'
  bursts : ∀ line ∈ runs found, line.burst ≠ [] →
    IsRun line.burst ∧ 2 ≤ line.burst.length ∧ ∀ newest ∈ line.burst.head?, line.at' = newest.at'

/-- The history of a page: a line for each event, which says what the whole operation would, and
the runs. -/
structure Told (events : List Row) (found : List Moment) (within : List Row) : Prop where
  lines : (entries events found (some within)).Perm
    (events.map (readLine (pageRows events within)) ++ runs found)
  same : ∀ event ∈ events, (readLine (pageRows events within) event).said =
    (wholeLine (pageRows events within) event).said
  listed : Listed found

/-- A row and its place, with fewer than `shown` newer rows of its kind. -/
def near (rows : List Row) (entry : Row × Nat) : Bool :=
  (rows.take entry.2).countP (fun newer => kind newer = kind entry.1) < shown

/-- A row that names who approved. -/
def approved (entry : Row × Nat) : Bool := entry.1.approvedBy != ""

/-- What the newest rows of each kind spare. The oldest of them is by the actor of the oldest row.
The newest row that names an approver is one of them, or else the newest of them that names one
names the same, or, where none does, it is the oldest row's actor who approved. -/
structure Spared (rows : List Row) : Prop where
  actor : ∀ oldest ∈ rows.getLast?, ∀ entry ∈ rows.zipIdx.reverse.find? (near rows),
    entry.1.actorLabel = oldest.actorLabel
  approver : ∀ newest ∈ rows.zipIdx.find? approved, near rows newest = true ∨
    match rows.zipIdx.find? fun entry => near rows entry && approved entry with
    | some entry => entry.1.approvedBy = newest.1.approvedBy
    | none => ∀ oldest ∈ rows.getLast?, newest.1.approvedBy = oldest.actorLabel

/-! ## What the cut leaves -/

section Cut

variable {rows : List Row} {operation : String}

theorem newest_eq_nil_iff : Newest.newest kind shown rows = [] ↔ rows = [] := by
  cases rows with
  | nil => simp [Newest.newest, Newest.newestAfter]
  | cons row rows =>
      obtain ⟨rest, hrest⟩ := Newest.newest_cons kind shown (by decide) row rows
      simp [hrest]

theorem head?_newest (rows : List Row) : (Newest.newest kind shown rows).head? = rows.head? := by
  cases rows with
  | nil => rfl
  | cons row rows =>
      obtain ⟨rest, hrest⟩ := Newest.newest_cons kind shown (by decide) row rows
      rw [hrest, List.head?_cons, List.head?_cons]

/-- Two rows are kept of two or more. -/
theorem newest_cons_cons (first second : Row) (rows : List Row) :
    ∃ rest, Newest.newest kind shown (first :: second :: rows) = first :: second :: rest := by
  have htake := Newest.take_newest kind shown (first :: second :: rows)
  rw [show shown = 3 + 1 + 1 from rfl, List.take_succ_cons, List.take_succ_cons] at htake
  rw [show shown = 3 + 1 + 1 from rfl]
  generalize Newest.newest kind (3 + 1 + 1) (first :: second :: rows) = kept at htake ⊢
  match kept with
  | [] => simp at htake
  | [row] => simp at htake
  | row :: next :: rest =>
      rw [List.take_succ_cons, List.take_succ_cons, List.cons.injEq, List.cons.injEq] at htake
      exact ⟨rest, by rw [htake.1, htake.2.1]⟩

theorem keeps_isOwn : ∀ first second : Row, kind first = kind second →
    first.isOwn = second.isOwn := by
  intro first second h
  simp only [kind, Prod.mk.injEq] at h
  exact h.2.1

theorem siblings_newest (rows : List Row) (event : Row) :
    siblingsOf (newestOfEachKind rows) event =
      Newest.newest kind shown (siblingsOf (newestFirst rows) event) := by
  rw [siblingsOf, siblingsOf]
  split
  · rfl
  · apply Newest.filter_newest
    intro first second h
    simp only [kind, Prod.mk.injEq] at h
    rw [h.1]

theorem kinds_newest (counted : List Row) (rows : List Row) :
    (Newest.newest kind shown rows).foldl (countKind counted) .empty =
      rows.foldl (countKind counted) .empty := by
  apply Newest.foldl_newest fun kinds key => key.2.1 = true ∨ (kinds.get? key.2.2).isSome = true
  · intro kinds row
    by_cases hown : row.isOwn = true
    · exact .inl hown
    · right
      by_cases hsome : (kinds.get? row.objectType).isSome = true
      · simp [countKind, kind, hsome]
      · simp [countKind, kind, hown, hsome]
  · intro kinds row key hkey
    refine hkey.imp id fun hsome => ?_
    rw [countKind]
    split
    · exact hsome
    · rw [Dict.get?_set]
      split
      · rfl
      · exact hsome
  · intro kinds row hseen
    rw [countKind, if_pos (by simpa [kind] using hseen)]
  · decide

end Cut

/-! ## A line from the rows that are left -/

/-- A line of an event, and the line of what is left of its operation's rows. -/
structure IsCut (line cut : Line) : Prop where
  events : cut.events = Newest.newest kind shown line.events
  kinds : cut.kinds = line.kinds
  burst : line.burst = [] ∧ cut.burst = []
  operation : ∃ operation, operation ≠ "" ∧ ∀ row ∈ line.events, row.operationId = operation

section IsCut

variable {line cut : Line}

theorem own_eq_filter {operation : String} (hoperation : operation ≠ "")
    (hrows : ∀ row ∈ line.events, row.operationId = operation) :
    line.own = line.events.filter Row.isOwn := by
  rw [Line.own]
  cases hevents : line.events with
  | nil => rfl
  | cons first rest =>
      rw [hevents] at hrows
      have hfirst := hrows first List.mem_cons_self
      simp only [hfirst, if_neg hoperation]
      apply List.filter_congr
      intro row hrow
      rw [Row.isOwn, hrows row hrow]

theorem items_eq_filter {operation : String} (hoperation : operation ≠ "")
    (hrows : ∀ row ∈ line.events, row.operationId = operation) {first second : Row}
    {rest : List Row} (hevents : line.events = first :: second :: rest) :
    line.items = (line.events.filter fun row => !row.isOwn).take shown := by
  rw [Line.items, hevents]
  rw [hevents] at hrows
  have hfirst := hrows first List.mem_cons_self
  show List.take shown _ = List.take shown _
  congr 1
  apply List.filter_congr
  intro row hrow
  have hrow := hrows row hrow
  simp only [Row.isOwn, hfirst, hrow, bne, beq_eq_false_iff_ne.mpr hoperation, Bool.false_or]

namespace IsCut

variable (h : IsCut line cut)

include h

theorem operation_cut :
    ∃ operation, operation ≠ "" ∧ (∀ row ∈ line.events, row.operationId = operation) ∧
      ∀ row ∈ cut.events, row.operationId = operation := by
  obtain ⟨operation, hoperation, hrows⟩ := h.operation
  refine ⟨operation, hoperation, hrows, fun row hrow => hrows row ?_⟩
  rw [h.events] at hrow
  exact (Newest.newest_sublist kind shown line.events).mem hrow

theorem own_eq : cut.own = Newest.newest kind shown line.own := by
  obtain ⟨operation, hoperation, hrows, hcut⟩ := h.operation_cut
  rw [own_eq_filter hoperation hcut, own_eq_filter hoperation hrows, h.events]
  exact Newest.filter_newest keeps_isOwn line.events

/-- The rows are none, one or at least two as all of them are. -/
theorem events_cases :
    (line.events = [] ∧ cut.events = []) ∨
      (∃ row, line.events = [row] ∧ cut.events = [row]) ∨
      ∃ first second rest kept, line.events = first :: second :: rest ∧
        cut.events = first :: second :: kept := by
  have hevents := h.events
  match hline : line.events with
  | [] => exact .inl ⟨rfl, by rw [hevents, hline]; rfl⟩
  | [row] =>
      obtain ⟨rest, hrest⟩ := Newest.newest_cons kind shown (by decide) row []
      have hlength := (Newest.newest_sublist kind shown [row]).length_le
      rw [hrest, List.length_cons, List.length_singleton] at hlength
      have hnil : rest = [] := List.length_eq_zero_iff.mp (by omega)
      exact .inr (.inl ⟨row, rfl, by rw [hevents, hline, hrest, hnil]⟩)
  | first :: second :: rest =>
      obtain ⟨kept, hkept⟩ := newest_cons_cons first second rest
      exact .inr (.inr ⟨first, second, rest, kept, rfl, by rw [hevents, hline, hkept]⟩)

theorem head_eq : cut.head = line.head := by
  have hown := h.own_eq
  have hhead := head?_newest line.own
  rw [← hown] at hhead
  rw [Line.head, Line.head]
  cases hline : line.own with
  | cons row rest =>
      rw [hline] at hhead
      cases hcut : cut.own with
      | nil => simp [hcut] at hhead
      | cons first kept =>
          rw [hcut, List.head?_cons, List.head?_cons] at hhead
          exact hhead
  | nil =>
      rw [hline] at hhead
      rw [List.head?_eq_none_iff.mp hhead]
      obtain ⟨hall, hkept⟩ | ⟨row, hall, hkept⟩ | ⟨first, second, rest, kept, hall, hkept⟩ :=
        h.events_cases
      · rw [hall, hkept]
      · rw [hall, hkept]
      · rw [hall, hkept]
        simp

theorem items_eq : cut.items = line.items := by
  obtain ⟨hall, hkept⟩ | ⟨row, hall, hkept⟩ | ⟨first, second, rest, kept, hall, hkept⟩ :=
    h.events_cases
  · rw [Line.items, Line.items, hall, hkept]
  · rw [Line.items, Line.items, hall, hkept]
  · obtain ⟨operation, hoperation, hrows, hcut⟩ := h.operation_cut
    rw [items_eq_filter hoperation hcut hkept, items_eq_filter hoperation hrows hall, h.events,
      Newest.filter_newest fun first second hkind => by rw [keeps_isOwn first second hkind]]
    exact Newest.take_newest kind shown _

theorem counts_eq : cut.counts = line.counts := by
  have hlength : cut.events.length < 2 ↔ line.events.length < 2 := by
    obtain ⟨hall, hkept⟩ | ⟨row, hall, hkept⟩ | ⟨first, second, rest, kept, hall, hkept⟩ :=
      h.events_cases
    · rw [hall, hkept]
    · rw [hall, hkept]
    · simp only [hall, hkept, List.length_cons]
      omega
  simp only [Line.counts, hlength, h.kinds, h.items_eq]

theorem total_eq : cut.total = line.total := by
  rw [Line.total, Line.total, h.burst.1, h.burst.2, h.counts_eq]

theorem more_eq : cut.more = line.more := by
  rw [Line.more, Line.more, h.burst.1, h.burst.2, h.total_eq, h.items_eq]

theorem title_eq : cut.title = line.title := by
  rw [Line.title, Line.title, h.burst.1, h.burst.2, h.head_eq, h.total_eq]
  obtain ⟨hall, hkept⟩ | ⟨row, hall, hkept⟩ | ⟨first, second, rest, kept, hall, hkept⟩ :=
    h.events_cases
  · rw [hall, hkept]
  · rw [hall, hkept]
  · rw [hall, hkept]

theorem message_eq : cut.message = line.message := by
  rw [Line.message, Line.message, h.head_eq, h.counts_eq]

end IsCut

/-- The action its rows share is its newest row's. -/
theorem action_eq (line : Line) :
    line.action = (line.head.map Row.action).or (line.events.head?.map Row.action) := by
  rw [Line.action]
  cases line.head with
  | some head => rfl
  | none =>
      cases hevents : line.events with
      | nil => rfl
      | cons row rest =>
          rw [List.map_cons, List.eraseDups_cons]
          cases ((rest.map Row.action).filter fun other => !other == row.action).eraseDups with
          | nil => rfl
          | cons action actions => rfl

theorem IsCut.action_eq (h : IsCut line cut) : cut.action = line.action := by
  rw [History.action_eq, History.action_eq, h.head_eq, h.events, head?_newest]

/-- The name the newest row that names one gives for who approved. -/
def approver (rows : List Row) : String :=
  ((rows.map Row.approvedBy).find? fun approver => approver != "").getD ""

/-- Who allowed it is the newest approver, unless that is the actor. -/
theorem approvedBy_eq (line : Line) :
    line.approvedBy =
      if some (approver line.events) = line.actor then "" else approver line.events := by
  rw [Line.approvedBy, approver]
  cases (line.events.map Row.approvedBy).find? fun approver => approver != "" with
  | none => simp
  | some approver => rfl

theorem newest_eq (rows : List Row) :
    Newest.newest kind shown rows = (rows.zipIdx.filter (near rows)).map Prod.fst :=
  Newest.newest_eq_filter kind shown rows

/-- The oldest row kept. -/
theorem getLast?_newest (rows : List Row) :
    (Newest.newest kind shown rows).getLast? = (rows.zipIdx.reverse.find? (near rows)).map Prod.fst := by
  rw [newest_eq, List.getLast?_map, List.getLast?_filter]

theorem approver_eq (rows : List Row) :
    approver rows = ((rows.zipIdx.find? approved).map fun entry => entry.1.approvedBy).getD "" := by
  have hrows : rows.map Row.approvedBy = rows.zipIdx.map fun entry => entry.1.approvedBy := by
    conv_lhs => rw [← List.zipIdx_map_fst 0 rows, List.map_map]
    rfl
  rw [approver, hrows, List.find?_map]
  rfl

theorem approver_newest (rows : List Row) :
    approver (Newest.newest kind shown rows) =
      ((rows.zipIdx.find? fun entry => near rows entry && approved entry).map fun entry =>
        entry.1.approvedBy).getD "" := by
  have hname : (fun approver => approver != "") ∘ Row.approvedBy ∘ Prod.fst = approved := rfl
  rw [approver, newest_eq, List.map_map, List.find?_map, List.find?_filter, hname]
  simp only [Bool.decide_and, Bool.decide_eq_true]
  rfl

/-- The starter is spared where the oldest row kept has the oldest row's actor. -/
theorem actor_iff (rows : List Row) :
    (Newest.newest kind shown rows).getLast?.map Row.actorLabel = rows.getLast?.map Row.actorLabel ↔
      ∀ oldest ∈ rows.getLast?, ∀ entry ∈ rows.zipIdx.reverse.find? (near rows),
        entry.1.actorLabel = oldest.actorLabel := by
  have hnil : (Newest.newest kind shown rows).getLast? = none ↔ rows.getLast? = none := by
    rw [List.getLast?_eq_none_iff, List.getLast?_eq_none_iff, newest_eq_nil_iff]
  have hlast := getLast?_newest rows
  cases holdest : rows.getLast? with
  | none => simp [hnil.mpr holdest]
  | some oldest =>
      cases hfind : rows.zipIdx.reverse.find? (near rows) with
      | none =>
          rw [hfind] at hlast
          exact absurd (hnil.mp hlast) (by simp [holdest])
      | some entry =>
          rw [hfind] at hlast
          simp [hlast]

/-- The approver is spared, for a line whose starter is. -/
theorem approver_iff (rows : List Row) :
    (approver (Newest.newest kind shown rows) = approver rows ∨
      ∀ name ∈ [approver (Newest.newest kind shown rows), approver rows],
        name = "" ∨ some name = rows.getLast?.map Row.actorLabel) ↔
      ∀ newest ∈ rows.zipIdx.find? approved, near rows newest = true ∨
        match rows.zipIdx.find? fun entry => near rows entry && approved entry with
        | some entry => entry.1.approvedBy = newest.1.approvedBy
        | none => ∀ oldest ∈ rows.getLast?, newest.1.approvedBy = oldest.actorLabel := by
  rw [approver_newest, approver_eq]
  cases hnewest : rows.zipIdx.find? approved with
  | none =>
      have hread : rows.zipIdx.find? (fun entry => near rows entry && approved entry) = none := by
        rw [List.find?_eq_none] at hnewest ⊢
        intro entry hentry
        simp [hnewest entry hentry]
      simp [hread]
  | some newest =>
      obtain ⟨happroved, before, after, hparts, hbefore⟩ := List.find?_eq_some_iff_append.mp hnewest
      have hname : newest.1.approvedBy ≠ "" := by simpa [approved] using happroved
      by_cases hnear : near rows newest = true
      · have hread : rows.zipIdx.find? (fun entry => near rows entry && approved entry) =
            some newest := by
          rw [List.find?_eq_some_iff_append]
          refine ⟨by simp [hnear, happroved], before, after, hparts, fun entry hentry => ?_⟩
          simp [hbefore entry hentry]
        simp [hread, hnear]
      · cases hread : rows.zipIdx.find? fun entry => near rows entry && approved entry with
        | none =>
            -- Some row is there, and so an oldest one.
            obtain ⟨oldest, holdest⟩ : ∃ oldest, rows.getLast? = some oldest := by
              rw [← Option.isSome_iff_exists, List.getLast?_isSome]
              rintro rfl
              simp at hnewest
            simp [hnear, hname, hname.symm, holdest]
        | some entry =>
            have hentry : entry.1.approvedBy ≠ "" := by
              have hfound := List.find?_some hread
              simp only [Bool.and_eq_true] at hfound
              simpa [approved] using hfound.2
            simp only [Option.map_some, Option.getD_some, List.forall_mem_cons, List.not_mem_nil,
              false_implies, implies_true, and_true, hentry, hname, false_or, Option.mem_def,
              Option.some.injEq, forall_eq', hnear, Bool.false_eq_true]
            constructor
            · rintro (hsame | ⟨hread, hwhole⟩)
              · exact hsame
              · exact Option.some.inj (hread.trans hwhole.symm)
            · exact Or.inl

theorem IsCut.said_eq_iff (h : IsCut line cut) : cut.said = line.said ↔ Spared line.events := by
  have hactor : cut.actor = line.actor ↔
      (Newest.newest kind shown line.events).getLast?.map Row.actorLabel =
        line.events.getLast?.map Row.actorLabel := by
    rw [Line.actor, Line.actor, h.events]
  have happrover : cut.actor = line.actor → (cut.approvedBy = line.approvedBy ↔
      approver (Newest.newest kind shown line.events) = approver line.events ∨
        ∀ name ∈ [approver (Newest.newest kind shown line.events), approver line.events],
          name = "" ∨ some name = line.events.getLast?.map Row.actorLabel) := by
    intro hsame
    rw [approvedBy_eq, approvedBy_eq, hsame, ← h.events]
    generalize approver cut.events = read
    generalize approver line.events = whole
    show _ ↔ read = whole ∨ ∀ name ∈ [read, whole], name = "" ∨ some name = line.actor
    simp only [List.forall_mem_cons, List.not_mem_nil, false_implies, implies_true, and_true]
    split <;> split <;> grind
  rw [actor_iff] at hactor
  rw [approver_iff] at happrover
  rw [Line.said, Line.said, Said.mk.injEq]
  constructor
  · rintro ⟨-, -, hsame, happroved, -⟩
    exact ⟨hactor.mp hsame, (happrover hsame).mp happroved⟩
  · intro hspared
    have hsame := hactor.mpr hspared.actor
    exact ⟨h.head_eq, h.title_eq, hsame, (happrover hsame).mpr hspared.approver, h.action_eq,
      h.message_eq, h.items_eq, h.counts_eq, h.total_eq, h.more_eq⟩

end IsCut

/-- The rows of an operation that were read, from all of them. -/
theorem said_readLine_iff (rows : List Row) (event : Row) :
    (readLine rows event).said = (wholeLine rows event).said ↔
      Spared (siblingsOf (newestFirst rows) event) := by
  by_cases hrows : siblingsOf (newestFirst rows) event = []
  · have hread : siblingsOf (newestOfEachKind rows) event = [] := by
      rw [siblings_newest, hrows]
      rfl
    rw [readLine, wholeLine, hread, hrows]
    exact ⟨fun _ => ⟨by simp, by simp⟩, fun _ => rfl⟩
  · have hoperation : event.operationId ≠ "" := by
      intro hempty
      rw [siblingsOf, if_pos hempty] at hrows
      exact hrows rfl
    have hread : siblingsOf (newestOfEachKind rows) event ≠ [] := by
      rw [siblings_newest]
      exact fun hnil => hrows (newest_eq_nil_iff.mp hnil)
    have hcut : IsCut (wholeLine rows event) (readLine rows event) := by
      constructor
      · rw [siblings_newest] at hread
        simp only [readLine, wholeLine, lineOf, if_neg hrows, siblings_newest, if_neg hread]
      · simp only [readLine, wholeLine, lineOf, siblings_newest, kinds_newest]
      · exact ⟨rfl, rfl⟩
      · refine ⟨event.operationId, hoperation, ?_⟩
        intro row hrow
        simp only [wholeLine, lineOf, if_neg hrows] at hrow
        rw [siblingsOf, if_neg hoperation] at hrow
        exact beq_iff_eq.mp (List.mem_filter.mp hrow).2
    have hevents : (wholeLine rows event).events = siblingsOf (newestFirst rows) event := by
      simp only [wholeLine, lineOf, if_neg hrows]
    rw [hcut.said_eq_iff, hevents]

/-! ## The runs list every moment -/

/-- The runs gathered of the moments read so far. -/
structure Gathered.Holds (gathered : Gathered) (read : List Moment) : Prop where
  once : gathered.runs.flatten.Perm read
  held : ∀ run ∈ gathered.runs, run ≠ [] ∧ IsRun run
  ordered : (gathered.runs.map List.head?).Pairwise fun first second =>
    ∀ newest ∈ first, ∀ next ∈ second, next.at' ≤ newest.at'
  found : ∀ key index, gathered.openRuns.get? key = some index →
    ∃ newest, (gathered.runs.map List.head?)[index]? = some (some newest) ∧
      (newest.source, newest.like) = key

section Runs

variable {gathered : Gathered} {item : Moment} {read : List Moment}

/-- A moment joins the open run of its source and likeness, if the run's newest is near, or opens
one. -/
theorem gather_cases (gathered : Gathered) (item : Moment) :
    (∃ index run newest, gathered.openRuns.get? (item.source, item.like) = some index ∧
      gathered.runs[index]? = some run ∧ run.head? = some newest ∧
      newest.at' - item.at' ≤ runLength ∧
      gather gathered item = { gathered with runs := gathered.runs.set index (run ++ [item]) }) ∨
    gather gathered item =
      { runs := gathered.runs ++ [[item]]
        openRuns := if item.like = [] then gathered.openRuns
          else gathered.openRuns.set (item.source, item.like) gathered.runs.length } := by
  rw [gather]
  split
  · next index run hjoined =>
      left
      split at hjoined
      · cases hjoined
      · obtain ⟨found, hfound, hjoined⟩ := Option.bind_eq_some_iff.mp hjoined
        obtain ⟨held, hheld, hjoined⟩ := Option.bind_eq_some_iff.mp hjoined
        obtain ⟨newest, hnewest, hjoined⟩ := Option.bind_eq_some_iff.mp hjoined
        split at hjoined
        · next hnear =>
            cases hjoined
            exact ⟨index, run, newest, hfound, hheld, hnewest, hnear, rfl⟩
        · cases hjoined
  · exact .inr rfl

theorem flatten_set {runs : List (List Moment)} {index : Nat} {run : List Moment}
    (hrun : runs[index]? = some run) (item : Moment) :
    (runs.set index (run ++ [item])).flatten.Perm (runs.flatten ++ [item]) := by
  induction runs generalizing index with
  | nil => exact nomatch hrun
  | cons first runs ih =>
      cases index with
      | zero =>
          rw [List.getElem?_cons_zero, Option.some.injEq] at hrun
          subst hrun
          rw [List.set_cons_zero, List.flatten_cons, List.flatten_cons, List.append_assoc,
            List.append_assoc]
          exact List.perm_append_comm.append_left first
      | succ index =>
          rw [List.getElem?_cons_succ] at hrun
          rw [List.set_cons_succ, List.flatten_cons, List.flatten_cons, List.append_assoc]
          exact (ih hrun).append_left first

/-- Joining a run leaves its newest. -/
theorem heads_set {runs : List (List Moment)} {index : Nat} {run : List Moment} {newest : Moment}
    (hrun : runs[index]? = some run) (hnewest : run.head? = some newest) (item : Moment) :
    (runs.set index (run ++ [item])).map List.head? = runs.map List.head? := by
  have hhead : (run ++ [item]).head? = run.head? := by
    rw [List.head?_append, hnewest, Option.some_or]
  obtain ⟨hindex, hget⟩ := List.getElem?_eq_some_iff.mp hrun
  rw [List.map_set, hhead]
  ext1 other
  rw [List.getElem?_set]
  split
  · next h =>
      subst h
      rw [List.length_map, if_pos hindex, List.getElem?_map, hrun, Option.map_some]
  · rfl

theorem Gathered.Holds.newest_mem (h : gathered.Holds read) {index : Nat} {run : List Moment}
    {newest : Moment} (hrun : gathered.runs[index]? = some run) (hnewest : run.head? = some newest) :
    newest ∈ read := by
  have hmem : newest ∈ gathered.runs.flatten :=
    List.mem_flatten.mpr ⟨run, List.mem_of_getElem? hrun, List.mem_of_head? hnewest⟩
  exact h.once.mem_iff.mp hmem

theorem isRun_append {run : List Moment} {newest : Moment} (hrun : IsRun run)
    (hnewest : run.head? = some newest) (hlike : (newest.source, newest.like) = (item.source, item.like))
    (hafter : item.at' ≤ newest.at') (hnear : newest.at' - item.at' ≤ runLength) :
    IsRun (run ++ [item]) := by
  have hhead : (run ++ [item]).head? = some newest := by
    rw [List.head?_append, hnewest, Option.some_or]
  obtain ⟨hsource, hlike⟩ := Prod.mk.inj hlike
  constructor
  · rw [hhead]
    rintro _ ⟨⟩ other hother
    rcases List.mem_append.mp hother with hother | hother
    · exact hrun.like newest hnewest other hother
    · rw [List.mem_singleton.mp hother]
      exact ⟨hsource.symm, hlike.symm⟩
  · rw [hhead]
    rintro _ ⟨⟩ other hother
    rcases List.mem_append.mp hother with hother | hother
    · exact hrun.within newest hnewest other hother
    · rw [List.mem_singleton.mp hother]
      exact ⟨hafter, hnear⟩

theorem isRun_singleton (item : Moment) : IsRun [item] := by
  constructor
  · intro newest hnewest other hother
    cases hnewest
    rw [List.mem_singleton.mp hother]
    exact ⟨rfl, rfl⟩
  · intro newest hnewest other hother
    cases hnewest
    rw [List.mem_singleton.mp hother, Int.sub_self]
    exact ⟨Int.le_refl _, by decide⟩

theorem Gathered.Holds.gather (h : gathered.Holds read)
    (hitem : ∀ older ∈ read, item.at' ≤ older.at') :
    (History.gather gathered item).Holds (read ++ [item]) := by
  rcases gather_cases gathered item with
    ⟨index, run, newest, hopen, hrun, hnewest, hnear, hgather⟩ | hgather
  · have hheads := heads_set hrun hnewest item
    rw [hgather]
    constructor
    · exact (flatten_set hrun item).trans (h.once.append_right [item])
    · intro other hother
      rcases List.mem_or_eq_of_mem_set hother with hother | rfl
      · exact h.held other hother
      · obtain ⟨first, hfirst, hlike⟩ := h.found _ _ hopen
        rw [List.getElem?_map, hrun, Option.map_some, hnewest, Option.some.injEq,
          Option.some.injEq] at hfirst
        subst hfirst
        have hafter := hitem newest (h.newest_mem hrun hnewest)
        exact ⟨by simp, isRun_append (h.held run (List.mem_of_getElem? hrun)).2 hnewest hlike
          hafter hnear⟩
    · rw [hheads]
      exact h.ordered
    · rw [hheads]
      exact h.found
  · rw [hgather]
    constructor
    · rw [List.flatten_append, List.flatten_singleton]
      exact h.once.append_right [item]
    · intro other hother
      rcases List.mem_append.mp hother with hother | hother
      · exact h.held other hother
      · rw [List.mem_singleton.mp hother]
        exact ⟨List.cons_ne_nil _ _, isRun_singleton item⟩
    · rw [List.map_append, List.pairwise_append]
      refine ⟨h.ordered, List.pairwise_singleton _ _, ?_⟩
      intro first hfirst second hsecond newest hnewest next hnext
      obtain ⟨run, hrun, rfl⟩ := List.mem_map.mp hfirst
      obtain ⟨index, hindex⟩ := List.getElem?_of_mem hrun
      rw [List.map_singleton, List.mem_singleton] at hsecond
      subst hsecond
      cases hnext
      exact hitem newest (h.newest_mem hindex hnewest)
    · intro key index hget
      have hkept : gathered.openRuns.get? key = some index → ∃ newest,
          ((gathered.runs ++ [[item]]).map List.head?)[index]? = some (some newest) ∧
            (newest.source, newest.like) = key := by
        intro hget
        obtain ⟨newest, hnewest, hkey⟩ := h.found key index hget
        refine ⟨newest, ?_, hkey⟩
        obtain ⟨hindex, -⟩ := List.getElem?_eq_some_iff.mp hnewest
        rw [List.map_append, List.getElem?_append_left hindex, hnewest]
      dsimp only at hget
      split at hget
      · exact hkept hget
      · rw [Dict.get?_set] at hget
        split at hget
        · next hkey =>
            cases hget
            exact ⟨item, by simp, by simp [hkey]⟩
        · exact hkept hget

/-- The gathering of moments in order, newest first. -/
theorem Gathered.Holds.foldl (h : gathered.Holds read) {items : List Moment}
    (hsorted : (read ++ items).Pairwise fun first second => second.at' ≤ first.at') :
    (items.foldl History.gather gathered).Holds (read ++ items) := by
  induction items generalizing gathered read with
  | nil =>
      rw [List.append_nil]
      exact h
  | cons item items ih =>
      have hitem : ∀ older ∈ read, item.at' ≤ older.at' := by
        intro older holder
        exact (List.pairwise_append.mp hsorted).2.2 older holder item List.mem_cons_self
      rw [List.append_cons] at hsorted ⊢
      exact ih (h.gather hitem) hsorted

theorem moments_runLine (run : List Moment) : (runLine run).moments = run := by
  match run with
  | [] => rfl
  | [item] => rfl
  | first :: second :: rest => rfl

theorem at_runLine {run : List Moment} {newest : Moment} (hnewest : run.head? = some newest) :
    (runLine run).at' = newest.at' := by
  match run, hnewest with
  | [item], rfl => rfl
  | first :: second :: rest, rfl => rfl

theorem burst_runLine {run : List Moment} (hburst : (runLine run).burst ≠ []) :
    (runLine run).burst = run ∧ 2 ≤ run.length := by
  match run with
  | [] => exact absurd rfl hburst
  | [item] => exact absurd rfl hburst
  | first :: second :: rest => exact ⟨rfl, by simp⟩

theorem listed (found : List Moment) : Listed found := by
  have hsorted : (found.mergeSort fun first second => second.at' ≤ first.at').Pairwise
      fun first second => second.at' ≤ first.at' := by
    have hpairwise : (found.mergeSort fun first second => second.at' ≤ first.at').Pairwise
        fun first second => decide (second.at' ≤ first.at') = true :=
      List.pairwise_mergeSort (by simp; omega) (by simp; omega) found
    exact hpairwise.imp of_decide_eq_true
  have hstart : Gathered.Holds ⟨[], .empty⟩ [] := by
    constructor <;> simp
  have hholds := hstart.foldl hsorted
  rw [List.nil_append] at hholds
  constructor
  · rw [runs, List.flatMap_map]
    simp only [moments_runLine, List.flatMap_id']
    exact hholds.once.trans (List.mergeSort_perm found _)
  · rw [runs, List.pairwise_map]
    apply (List.pairwise_map.mp hholds.ordered).imp_of_mem
    intro first second hfirst hsecond hle
    obtain ⟨newest, hnewest⟩ := Option.isSome_iff_exists.mp
      (List.isSome_head?.mpr (hholds.held first hfirst).1)
    obtain ⟨next, hnext⟩ := Option.isSome_iff_exists.mp
      (List.isSome_head?.mpr (hholds.held second hsecond).1)
    rw [at_runLine hnewest, at_runLine hnext]
    exact hle newest hnewest next hnext
  · intro line hline hburst
    obtain ⟨run, hrun, rfl⟩ := List.mem_map.mp hline
    obtain ⟨hsame, hlength⟩ := burst_runLine hburst
    rw [hsame]
    exact ⟨(hholds.held run hrun).2, hlength, fun newest hnewest => at_runLine hnewest⟩

end Runs

/-! ## The history of a page -/

/-- The history says what it is to exactly when, of every operation on the page, the rows read
spare who started it and who allowed it. -/
theorem told_iff (events : List Row) (found : List Moment) (within : List Row) :
    Told events found within ↔
      ∀ event ∈ events, Spared (siblingsOf (newestFirst (pageRows events within)) event) := by
  constructor
  · intro h event hevent
    exact (said_readLine_iff _ event).mp (h.same event hevent)
  · intro h
    constructor
    · exact List.mergeSort_perm _ _
    · intro event hevent
      exact (said_readLine_iff _ event).mpr (h event hevent)
    · exact listed found

/-- One row of an operation that deleted checks, written by `actor`. -/
def deleted (pk : Nat) (actor : String) : Row where
  pk := pk
  createdAt := pk
  operationId := "op"
  objectId := toString pk
  objectType := "check"
  objectRepr := ""
  typeLabel := "Check"
  actorLabel := actor
  approvedBy := ""
  action := "deleted"
  message := ""
  declared := ""

/-- Six rows of one type, the oldest by joe and the rest by a job: the line says the job started
it. -/
theorem not_told_started :
    ¬ Told [deleted 6 "job"] []
      [deleted 6 "job", deleted 5 "job", deleted 4 "job", deleted 3 "job", deleted 2 "job",
        deleted 1 "joe"] := by
  intro h
  have hsame := (said_readLine_iff _ _).mp (h.same (deleted 6 "job") List.mem_cons_self)
  have hsorted : newestFirst (pageRows [deleted 6 "job"]
      [deleted 6 "job", deleted 5 "job", deleted 4 "job", deleted 3 "job", deleted 2 "job",
        deleted 1 "joe"]) =
      [deleted 6 "job", deleted 5 "job", deleted 4 "job", deleted 3 "job", deleted 2 "job",
        deleted 1 "joe"] := by
    apply List.mergeSort_of_pairwise
    decide
  rw [hsorted] at hsame
  exact absurd hsame.actor (by decide)

end SeverinoHQ.Audit.History
