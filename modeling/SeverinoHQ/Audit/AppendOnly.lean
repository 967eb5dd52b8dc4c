/-
# The audit log's guard

Two triggers judge each row an `UPDATE` or a `DELETE` would change and abort the
statement. A row an `INSERT OR REPLACE` takes the place of is removed without the second
one, unless the connection asks for recursive triggers. What the guard promises is about
whole histories, so each row is held here beside the row it was written as.
-/

import SeverinoHQ.Json
import SeverinoHQ.Math.Run
import SeverinoHQ.Math.Truth
import Mathlib.Data.List.Nodup
import Mathlib.Data.String.Basic

namespace SeverinoHQ.Audit

open SeverinoHQ.Math

/-- A pragma is its name and its value. -/
local instance lawful_pragma : LawfulBEq (String × String) := inferInstance

/-! ## Values as SQLite compares them -/

/-- What `json_extract` answers. -/
inductive Value
  | null
  | integer (value : Int)
  | text (value : String)
  deriving DecidableEq, Repr

namespace Value

/-- How values sort: a missing one first, then the integers, then the texts. -/
def le : Value → Value → Bool
  | null, _ => true
  | integer a, integer b => decide (a ≤ b)
  | integer _, text _ => true
  | text a, text b => decide (a ≤ b)
  | _, _ => false

theorem le_refl (a : Value) : a.le a = true := by
  cases a with
  | null => rfl
  | integer value => simp [le]
  | text value => simp [le]

theorem le_trans {a b c : Value} (hab : a.le b = true) (hbc : b.le c = true) : a.le c = true := by
  cases a <;> cases b <;> cases c <;> simp only [le, decide_eq_true_eq, Bool.false_eq_true] at *
  · exact Int.le_trans hab hbc
  · exact String.le_trans hab hbc

instance : Preorder Value where
  le a b := a.le b = true
  le_refl := le_refl
  le_trans _ _ _ := le_trans

instance : DecidableLE Value := fun a b => inferInstanceAs (Decidable (a.le b = true))

/-- `coalesce`. -/
def coalesce : Value → Value → Value
  | null, fallback => fallback
  | value, _ => value

/-- `a >= b`, unknown where one is missing. -/
def atLeast (a b : Value) : Truth := if a = null ∨ b = null then none else Truth.known (b ≤ a)

theorem coalesce_of_ne {a b : Value} (h : a ≠ null) : a.coalesce b = a := by
  cases a with
  | null => exact absurd rfl h
  | _ => rfl

theorem coalesce_ne {a b : Value} (h : b ≠ null) : a.coalesce b ≠ null := by
  cases a with
  | null => exact h
  | _ => simp [coalesce]

/-- A comparison that is not false, of values that are there, holds. -/
theorem le_of_atLeast {a b : Value} (h : atLeast a b ≠ some false) (ha : a ≠ null) (hb : b ≠ null) :
    b ≤ a := by
  by_contra hle
  exact h (by simp [atLeast, ha, hb, hle])

end Value

/-! ## A row and its metadata -/

/-- The columns of a row that are stored, but for its user and its metadata. -/
structure Event where
  id : Nat
  action : String
  objectType : String
  objectId : String
  objectRepr : String
  operationId : String
  connection : String
  message : String
  createdAt : String
  deriving DecidableEq, Repr

structure Row extends Event where
  user : Option Nat
  metadata : Json
  deriving DecidableEq, Repr

def count : String := "count"
def lastAt : String := "last_at"
def denied : String := "denied"

/-- `json_extract(metadata, '$.name')`. An array's or an object's text is SQLite's own. -/
def extract (text : Json → String) (metadata : Json) (name : String) : Value :=
  match metadata.get? name with
  | none => .null
  | some .null => .null
  | some (.bool value) => .integer (if value then 1 else 0)
  | some (.num value) => .integer value
  | some (.str value) => .text value
  | some document => .text (text document)

/-- `json_type(metadata, '$.name')`. -/
def jsonType (metadata : Json) (name : String) : Option String :=
  (metadata.get? name).map fun
    | .null => "null"
    | .bool true => "true"
    | .bool false => "false"
    | .num _ => "integer"
    | .str _ => "text"
    | .arr _ => "array"
    | .obj _ => "object"

/-- `json_type(metadata, '$.name') = kind`. -/
def isType (metadata : Json) (name kind : String) : Truth :=
  (jsonType metadata name).map (· == kind)

/-- `json_remove(metadata, '$.name')`. -/
def jsonRemove (name : String) : Json → Json
  | .obj members => .obj (members.eraseP fun member => member.1 == name)
  | document => document

/-- The metadata without what a refusal recounts. -/
def stripped (metadata : Json) : Json := jsonRemove lastAt (jsonRemove count metadata)

/-- The events the prune removes: `ROUTINE_EVENTS`. -/
def routineEvents : List (String × String) :=
  [("observed", "Background job"), ("observed", "Connection")]

def Event.routine (event : Event) : Prop := (event.action, event.objectType) ∈ routineEvents

instance (event : Event) : Decidable event.routine :=
  inferInstanceAs (Decidable (_ ∈ routineEvents))

section Triggers

variable (text : Json → String)

/-- A refusal's count, none being counted before it is. -/
def counted (metadata : Json) : Value := (extract text metadata count).coalesce (.integer 0)

/-- A refusal's latest time, empty before there is one. -/
def latest (metadata : Json) : Value := (extract text metadata lastAt).coalesce (.text "")

/-- A refusal's count only grows and its latest time only moves forward; nothing else of
its metadata changes. -/
def recounted (new old : Row) : Truth :=
  (Truth.known (stripped new.metadata = stripped old.metadata)).and
    ((isType new.metadata count "integer").and
      (((extract text new.metadata count).atLeast (counted text old.metadata)).and
        ((latest text new.metadata).atLeast (latest text old.metadata))))

/-- When the trigger before an `UPDATE` aborts it. -/
def updateWhen (new old : Row) : Truth :=
  .not ((Truth.known (new.toEvent = old.toEvent)).and
    (((Truth.known (new.user = none)).and (Truth.known (new.metadata = old.metadata))).or
      ((Truth.known (new.user = old.user)).and
        ((Truth.known (old.action = denied)).and (recounted text new old)))))

/-- When the trigger before a `DELETE` aborts it. -/
def deleteWhen (old : Row) : Truth :=
  .not ((Truth.known (old.user = none)).and (Truth.known old.routine))

end Triggers

/-- A trigger acts on a true condition, and on no other. -/
def fires (condition : Truth) : Bool := condition == some true

/-! ## The table and the statements on it -/

/-- A row in the table, the row it was written as, and which writing that was. -/
structure Entry where
  serial : Nat
  written : Row
  row : Row
  deriving DecidableEq, Repr

/-- An entry whose row is changed, where a change is given. -/
def Entry.change (change : Row → Option Row) (entry : Entry) : Entry :=
  { entry with row := (change entry.row).getD entry.row }

/-- The table: no two of its rows are of one writing. -/
structure Log where
  entries : List Entry
  next : Nat
  below : ∀ entry ∈ entries, entry.serial < next
  distinct : (entries.map Entry.serial).Nodup

namespace Log

def empty : Log where
  entries := []
  next := 0
  below := by simp
  distinct := by simp

/-- A row more. -/
def write (log : Log) (row : Row) : Log where
  entries := log.entries ++ [⟨log.next, row, row⟩]
  next := log.next + 1
  below := by
    intro entry hentry
    rcases List.mem_append.mp hentry with hmem | hmem
    · exact Nat.lt_succ_of_lt (log.below entry hmem)
    · obtain rfl := List.mem_singleton.mp hmem
      exact Nat.lt_succ_self _
  distinct := by
    rw [List.map_append, List.nodup_append]
    refine ⟨log.distinct, by simp, ?_⟩
    rintro serial hserial other hother rfl
    obtain ⟨entry, hentry, rfl⟩ := List.mem_map.mp hserial
    have hlast : entry.serial = log.next := by simpa using hother
    exact absurd (log.below entry hentry) (by omega)

/-- The rows that are kept. -/
def keep (log : Log) (keeps : Entry → Bool) : Log where
  entries := log.entries.filter keeps
  next := log.next
  below := fun entry hentry => log.below entry (List.mem_of_mem_filter hentry)
  distinct := log.distinct.sublist (List.filter_sublist.map _)

/-- The rows, changed where a change is given. -/
def rewrite (log : Log) (change : Row → Option Row) : Log where
  entries := log.entries.map (Entry.change change)
  next := log.next
  below := by
    intro entry hentry
    obtain ⟨old, hold, rfl⟩ := List.mem_map.mp hentry
    exact log.below old hold
  distinct := by
    rw [List.map_map]
    exact log.distinct

end Log

/-- How HQ's connections are set up, one pragma after another. -/
def databases : List (String × String) :=
  [("journal_mode", "WAL"), ("synchronous", "FULL"), ("temp_store", "MEMORY")]

/-- Rows a `REPLACE` removes fire the delete trigger only where a connection asks for it. -/
def recursiveTriggers (pragmas : List (String × String)) : Bool :=
  ("recursive_triggers", "ON") ∈ pragmas

/-- A statement on the table. -/
inductive Statement
  | insert (rows : List Row)
  | replace (rows : List Row)
  | update (change : Row → Option Row)
  | delete (selects : Row → Bool)

section Executing

variable (text : Json → String)

/-- `INSERT`: a row under an id that is taken aborts the statement. -/
def insertEach : Log → List Row → Option Log
  | log, [] => some log
  | log, row :: rows =>
      if log.entries.any fun entry => entry.row.id = row.id then none
      else insertEach (log.write row) rows

/-- `INSERT OR REPLACE`: the row under an id that is taken is removed first. -/
def replaceEach : Log → List Row → Option Log
  | log, [] => some log
  | log, row :: rows =>
      if recursiveTriggers databases && log.entries.any fun entry =>
          decide (entry.row.id = row.id) && fires (deleteWhen entry.row) then none
      else replaceEach ((log.keep fun entry => entry.row.id ≠ row.id).write row) rows

/-- One statement; one that is aborted changes nothing. -/
def execute (log : Log) : Statement → Log
  | .insert rows => (insertEach log rows).getD log
  | .replace rows => (replaceEach log rows).getD log
  | .update change =>
      if log.entries.any fun entry =>
          (change entry.row).any fun new => fires (updateWhen text new entry.row) then log
      else log.rewrite change
  | .delete selects =>
      if log.entries.any fun entry => selects entry.row && fires (deleteWhen entry.row) then log
      else log.keep fun entry => !selects entry.row

end Executing

/-! ## What the guard promises -/

/-- What may become of a row's metadata, by its action. -/
def Recounts (text : Json → String) (action : String) (old new : Json) : Prop :=
  new = old ∨ (action = denied ∧ stripped new = stripped old ∧
    counted text old ≤ counted text new ∧ latest text old ≤ latest text new)

/-- One row, earlier and later: its user may be gone and its refusal counted on, and
nothing else of it is another. -/
structure Follows (text : Json → String) (old new : Entry) : Prop where
  serial : new.serial = old.serial
  written : new.written = old.written
  columns : new.row.toEvent = old.row.toEvent
  user : new.row.user = old.row.user ∨ new.row.user = none
  metadata : Recounts text old.row.action old.row.metadata new.row.metadata

/-- A routine event that was written with no user. -/
def Entry.removable (entry : Entry) : Prop :=
  entry.written.routine ∧ entry.written.user = none

/-- Between two moments no row goes but one that may, and none changes but as it may. -/
def Guarded (text : Json → String) (log later : Log) : Prop :=
  ∀ old ∈ log.entries, (∃ new ∈ later.entries, Follows text old new) ∨ old.removable

/-- A statement the guard's triggers judge as its promise has it: no row that is to be kept
has its place taken, no routine row is removed whose user was cleared, and no refusal that
counts some is left without a count. -/
def Judged (text : Json → String) (log : Log) : Statement → Prop
  | .insert _ => True
  | .replace rows => ∀ row ∈ rows, ∀ entry ∈ log.entries, entry.row.id = row.id → entry.removable
  | .update change => ∀ entry ∈ log.entries, ∀ new, change entry.row = some new →
      entry.row.action = denied → jsonType new.metadata count = none →
        counted text entry.row.metadata ≤ .integer 0
  | .delete selects => ∀ entry ∈ log.entries, selects entry.row → entry.row.routine →
      entry.row.user = none → entry.written.user = none

section Promise

variable {text : Json → String} {log later : Log} {old new : Row}

theorem Recounts.refl (action : String) (metadata : Json) : Recounts text action metadata metadata :=
  Or.inl rfl

theorem Recounts.trans {action : String} {first second third : Json}
    (h : Recounts text action first second) (hnext : Recounts text action second third) :
    Recounts text action first third := by
  rcases h with rfl | ⟨haction, hstripped, hcount, hlatest⟩
  · exact hnext
  · rcases hnext with rfl | ⟨-, hstripped', hcount', hlatest'⟩
    · exact Or.inr ⟨haction, hstripped, hcount, hlatest⟩
    · exact Or.inr ⟨haction, hstripped'.trans hstripped, hcount.trans hcount',
        hlatest.trans hlatest'⟩

theorem Follows.refl (entry : Entry) : Follows text entry entry :=
  ⟨rfl, rfl, rfl, Or.inl rfl, .refl _ _⟩

theorem Follows.trans {first second third : Entry} (h : Follows text first second)
    (hnext : Follows text second third) : Follows text first third where
  serial := hnext.serial.trans h.serial
  written := hnext.written.trans h.written
  columns := hnext.columns.trans h.columns
  user := by
    rcases hnext.user with hsame | hgone
    · rw [hsame]
      exact h.user
    · exact Or.inr hgone
  metadata := by
    have haction : second.row.action = first.row.action := congrArg Event.action h.columns
    exact h.metadata.trans (haction ▸ hnext.metadata)

instance : Std.Refl (Guarded text) := ⟨fun _ old hold => Or.inl ⟨old, hold, .refl old⟩⟩

instance : IsTrans Log (Guarded text) := ⟨by
  intro first second third h hnext old hold
  rcases h old hold with ⟨between, hbetween, hfollows⟩ | hremovable
  · rcases hnext between hbetween with ⟨new, hnew, hfollows'⟩ | hremovable
    · exact Or.inl ⟨new, hnew, hfollows.trans hfollows'⟩
    · rw [Entry.removable, hfollows.written] at hremovable
      exact Or.inr hremovable
  · exact Or.inr hremovable⟩

/-- Each row still has the columns it was written with. -/
def Log.Sound (log : Log) : Prop :=
  ∀ entry ∈ log.entries, entry.row.toEvent = entry.written.toEvent

/-- What the update trigger lets pass: the user cleared, or a refusal recounted, where a
count left out counts as none. -/
theorem passes_update (h : fires (updateWhen text new old) = false) :
    new.toEvent = old.toEvent ∧
      ((new.user = none ∧ new.metadata = old.metadata) ∨
        (new.user = old.user ∧ old.action = denied ∧ stripped new.metadata = stripped old.metadata ∧
          latest text old.metadata ≤ latest text new.metadata ∧
          (jsonType new.metadata count = none ∨ counted text old.metadata ≤ counted text new.metadata))) := by
  have hnot : updateWhen text new old ≠ some true := by
    simpa [fires] using h
  simp only [updateWhen, recounted, isType, ne_eq, Truth.not_eq_true, Truth.and_eq_false, Truth.or_eq_false,
    Truth.known_eq_false, not_or, not_and_or, not_not] at hnot
  obtain ⟨hcolumns, ⟨hgone, hsame⟩ | ⟨huser, haction, hstripped, htype, hcount, hlatest⟩⟩ := hnot
  · exact ⟨hcolumns, Or.inl ⟨hgone, hsame⟩⟩
  · refine ⟨hcolumns, Or.inr ⟨huser, haction, hstripped, ?_, ?_⟩⟩
    · exact Value.le_of_atLeast hlatest (Value.coalesce_ne (by simp)) (Value.coalesce_ne (by simp))
    · cases hjson : new.metadata.get? count with
      | none => exact Or.inl (by simp [jsonType, hjson])
      | some value =>
          have hvalue : extract text new.metadata count ≠ .null := by
            cases value <;> simp_all [extract, jsonType]
          refine Or.inr ?_
          rw [counted, counted, Value.coalesce_of_ne hvalue]
          exact Value.le_of_atLeast hcount hvalue (Value.coalesce_ne (by simp))

theorem passes_delete (h : fires (deleteWhen old) = false) : old.user = none ∧ old.routine := by
  have hnot : deleteWhen old ≠ some true := by
    simpa [fires] using h
  simpa [deleteWhen, not_or] using hnot

/-! ## One statement -/

theorem Log.Sound.write (hsound : log.Sound) (row : Row) : (log.write row).Sound := by
  intro entry hentry
  rcases List.mem_append.mp hentry with hmem | hmem
  · exact hsound entry hmem
  · obtain rfl := List.mem_singleton.mp hmem
    rfl

theorem Log.Sound.keep (hsound : log.Sound) (keeps : Entry → Bool) : (log.keep keeps).Sound :=
  fun entry hentry => hsound entry (List.mem_of_mem_filter hentry)

/-- Rows inserted leave every row in place. -/
theorem insertEach_spec {rows : List Row} (hsound : log.Sound) (h : insertEach log rows = some later) :
    later.Sound ∧ ∀ entry ∈ log.entries, entry ∈ later.entries := by
  induction rows generalizing log with
  | nil =>
      obtain rfl := Option.some.inj h
      exact ⟨hsound, fun _ hentry => hentry⟩
  | cons row rows ih =>
      rw [insertEach] at h
      split_ifs at h
      obtain ⟨hlater, hkept⟩ := ih (hsound.write row) h
      exact ⟨hlater, fun entry hentry => hkept entry (List.mem_append_left _ hentry)⟩

/-- Rows put in the place of others leave every row in place that none of them takes. -/
theorem replaceEach_spec {rows : List Row} (hsound : log.Sound)
    (h : replaceEach log rows = some later) :
    later.Sound ∧ ∀ entry ∈ log.entries, entry ∈ later.entries ∨
      ∃ row ∈ rows, entry.row.id = row.id := by
  induction rows generalizing log with
  | nil =>
      obtain rfl := Option.some.inj h
      exact ⟨hsound, fun _ hentry => Or.inl hentry⟩
  | cons row rows ih =>
      rw [replaceEach] at h
      split_ifs at h
      obtain ⟨hlater, hkept⟩ := ih ((hsound.keep _).write row) h
      refine ⟨hlater, fun entry hentry => ?_⟩
      by_cases htaken : entry.row.id = row.id
      · exact Or.inr ⟨row, List.mem_cons_self, htaken⟩
      · have hmem : entry ∈ ((log.keep fun entry => entry.row.id ≠ row.id).write row).entries := by
          simp [Log.write, Log.keep, hentry, htaken]
        rcases hkept entry hmem with hstays | ⟨other, hother, htaken⟩
        · exact Or.inl hstays
        · exact Or.inr ⟨other, List.mem_cons_of_mem row hother, htaken⟩

/-- A row an update lets pass follows the row it was. -/
theorem change_follows {entry : Entry} {change : Row → Option Row}
    (hpasses : ∀ new, change entry.row = some new → fires (updateWhen text new entry.row) = false)
    (hcounts : ∀ new, change entry.row = some new → entry.row.action = denied →
      jsonType new.metadata count = none → counted text entry.row.metadata ≤ .integer 0) :
    Follows text entry (entry.change change) := by
  cases hnew : change entry.row with
  | none =>
      have hsame : entry.change change = entry := by simp [Entry.change, hnew]
      rw [hsame]
      exact .refl entry
  | some new =>
      have hrow : (entry.change change).row = new := by simp [Entry.change, hnew]
      obtain ⟨hcolumns, hcases⟩ := passes_update (hpasses new hnew)
      refine ⟨rfl, rfl, hrow ▸ hcolumns, ?_, ?_⟩
      · rw [hrow]
        rcases hcases with ⟨hgone, -⟩ | ⟨huser, -⟩
        · exact Or.inr hgone
        · exact Or.inl huser
      · rw [hrow]
        rcases hcases with ⟨-, hsame⟩ | ⟨-, haction, hstripped, hlatest, huncounted | hcount⟩
        · exact Or.inl hsame
        · -- a count left out counts as none, which is what the row had
          have hnone : counted text new.metadata = .integer 0 := by
            cases hjson : new.metadata.get? count with
            | none => simp [counted, extract, hjson, Value.coalesce]
            | some value => simp [jsonType, hjson] at huncounted
          exact Or.inr ⟨haction, hstripped, hnone ▸ hcounts new hnew haction huncounted, hlatest⟩
        · exact Or.inr ⟨haction, hstripped, hcount, hlatest⟩

/-- A statement judged so keeps the columns rows were written with, and what the guard
promises. -/
theorem execute_guarded {statement : Statement} (hsound : log.Sound)
    (hjudged : Judged text log statement) :
    (execute text log statement).Sound ∧ Guarded text log (execute text log statement) := by
  have hnothing : log.Sound ∧ Guarded text log log := ⟨hsound, refl_of (Guarded text) log⟩
  cases statement with
  | insert rows =>
      simp only [execute]
      cases hinsert : insertEach log rows with
      | none => exact hnothing
      | some later =>
          obtain ⟨hlater, hkept⟩ := insertEach_spec hsound hinsert
          exact ⟨hlater, fun old hold => Or.inl ⟨old, hkept old hold, .refl old⟩⟩
  | replace rows =>
      simp only [execute]
      cases hreplace : replaceEach log rows with
      | none => exact hnothing
      | some later =>
          obtain ⟨hlater, hkept⟩ := replaceEach_spec hsound hreplace
          refine ⟨hlater, fun old hold => ?_⟩
          rcases hkept old hold with hstays | ⟨row, hrow, htaken⟩
          · exact Or.inl ⟨old, hstays, .refl old⟩
          · exact Or.inr (hjudged row hrow old hold htaken)
  | update change =>
      simp only [execute]
      split_ifs with haborts
      · exact hnothing
      · have hfollows : ∀ entry ∈ log.entries, Follows text entry (entry.change change) := by
          intro entry hentry
          refine change_follows (fun new hnew => ?_) (hjudged entry hentry)
          by_contra hfires
          exact haborts (List.any_eq_true.mpr ⟨entry, hentry, by simpa [hnew] using hfires⟩)
        constructor
        · intro entry hentry
          obtain ⟨old, hold, rfl⟩ := List.mem_map.mp hentry
          exact (hfollows old hold).columns.trans (hsound old hold)
        · intro old hold
          exact Or.inl ⟨_, List.mem_map_of_mem hold, hfollows old hold⟩
  | delete selects =>
      simp only [execute]
      split_ifs with haborts
      · exact hnothing
      · refine ⟨hsound.keep _, fun old hold => ?_⟩
        cases hselects : selects old.row with
        | false =>
            exact Or.inl ⟨old, List.mem_filter.mpr ⟨hold, by simp [hselects]⟩, .refl old⟩
        | true =>
            have hpasses : fires (deleteWhen old.row) = false := by
              by_contra hfires
              exact haborts (List.any_eq_true.mpr ⟨old, hold, by simpa [hselects] using hfires⟩)
            obtain ⟨hgone, hroutine⟩ := passes_delete hpasses
            have hwritten : old.written.routine := by
              rw [← hsound old hold]
              exact hroutine
            exact Or.inr ⟨hwritten, hjudged old hold hselects hroutine hgone⟩

end Promise

/-! ## Every history -/

/-- Between any two moments of a history of statements judged so, the log keeps what the
guard promises. -/
theorem audit_log_guarded (text : Json → String) (first second : List Statement)
    (h : Meets (execute text) (Judged text) Log.empty (first ++ second)) :
    Guarded text (run (execute text) Log.empty first) (run (execute text) Log.empty (first ++ second)) := by
  obtain ⟨hfirst, hsecond⟩ := h.append
  have hempty : Log.empty.Sound := by simp [Log.Sound, Log.empty]
  have hsound : (run (execute text) Log.empty first).Sound :=
    run_invariant Log.Sound (fun _ _ hsound hjudged => (execute_guarded hsound hjudged).1) hempty hfirst
  rw [run_append]
  exact run_related Log.Sound (Guarded text)
    (fun _ _ hsound hjudged => (execute_guarded hsound hjudged).1)
    (fun _ _ hsound hjudged => (execute_guarded hsound hjudged).2) hsound hsecond

section Examples

/-- A row of the log, with nothing said in its other columns. -/
def sampleRow (id : Nat) (action objectType : String) (user : Option Nat) (metadata : Json) : Row :=
  ⟨⟨id, action, objectType, "", "", "", "", "", "2026-01-01"⟩, user, metadata⟩

/-- A refusal that counts three. -/
def refusal : Row :=
  sampleRow 1 denied "Access denied" none (.obj [("reason", .str "x"), ("count", .num 3)])

/-- A refusal counted on and a routine event pruned: what the guard is there to let pass. -/
def permitted : List Statement :=
  [.insert [refusal, sampleRow 2 "observed" "Connection" none (.obj [])],
    .update fun row => if row.id = 1 then
      some { row with metadata := .obj [("reason", .str "x"), ("count", .num 4)] } else none,
    .delete fun row => row.id = 2]

theorem permitted_guarded :
    Guarded (fun _ => "") (run (execute fun _ => "") Log.empty (permitted.take 1))
      (run (execute fun _ => "") Log.empty permitted) := by
  refine audit_log_guarded (fun _ => "") (permitted.take 1) (permitted.drop 1) ⟨trivial, ?_, ?_, trivial⟩
  · intro entry hentry new hnew haction huncounted
    simp only [Option.ite_none_right_eq_some, Option.some.injEq] at hnew
    obtain ⟨-, rfl⟩ := hnew
    cases huncounted
  · intro entry hentry hselects hroutine hgone
    have hrows : ∀ entry ∈ (run (execute fun _ => "") Log.empty (permitted.take 2)).entries,
        entry.written.user = none := by decide
    exact hrows entry hentry

/-- A row whose place is taken, a routine event whose user is cleared before it is removed,
and a refusal left without its count: each history breaks the guard's promise. -/
theorem guard_broken :
    ¬Guarded (fun _ => "")
        (run (execute fun _ => "") Log.empty [.insert [refusal]])
        (run (execute fun _ => "") Log.empty
          [.insert [refusal], .replace [sampleRow 1 "created" "Example" none (.obj [])]]) ∧
      ¬Guarded (fun _ => "")
        (run (execute fun _ => "") Log.empty
          [.insert [sampleRow 1 "observed" "Connection" (some 7) (.obj [])]])
        (run (execute fun _ => "") Log.empty
          [.insert [sampleRow 1 "observed" "Connection" (some 7) (.obj [])],
            .update fun row => some { row with user := none }, .delete fun _ => true]) ∧
      ¬Guarded (fun _ => "")
        (run (execute fun _ => "") Log.empty [.insert [refusal]])
        (run (execute fun _ => "") Log.empty
          [.insert [refusal],
            .update fun row => some { row with metadata := .obj [("reason", .str "x")] }]) := by
  refine ⟨fun hguarded => ?_, fun hguarded => ?_, fun hguarded => ?_⟩
  · rcases hguarded ⟨0, refusal, refusal⟩ (by decide) with ⟨new, hnew, hfollows⟩ | ⟨hroutine, -⟩
    · obtain rfl := List.mem_singleton.mp (show new ∈ [(⟨1, _, _⟩ : Entry)] from hnew)
      exact absurd hfollows.serial (by decide)
    · exact absurd hroutine (by decide)
  · rcases hguarded ⟨0, _, _⟩ List.mem_cons_self with ⟨new, hnew, -⟩ | ⟨-, huser⟩
    · cases (show new ∈ ([] : List Entry) from hnew)
    · cases huser
  · rcases hguarded ⟨0, refusal, refusal⟩ (by decide) with ⟨new, hnew, hfollows⟩ | ⟨hroutine, -⟩
    · obtain rfl := List.mem_singleton.mp (show new ∈ [(⟨0, refusal, _⟩ : Entry)] from hnew)
      rcases hfollows.metadata with hsame | ⟨-, -, hcount, -⟩
      · exact absurd hsame (by decide)
      · exact absurd hcount (by decide)
    · exact absurd hroutine (by decide)

end Examples

end SeverinoHQ.Audit
