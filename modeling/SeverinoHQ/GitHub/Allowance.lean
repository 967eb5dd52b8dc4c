/-
# The hour's allowance, and what a sweep spends of it

GitHub allows an App installation so many requests an hour. A sweep counts the answers
GitHub counts, asks once what is left, and reports the hour as it stood before its first
request with what it spent of it. HQ derives from one report and the last what everything
else spent between them.
-/

import SeverinoHQ.Math.Run
import Mathlib.Data.List.Basic
import Mathlib.Tactic.Linarith

namespace SeverinoHQ.GitHub

open SeverinoHQ.Math

/-! ## The fuse of one installation -/

/-- The least a sweep leaves an installation's other users. -/
def githubFloor : Int := 1000

/-- The most a sweep spends. -/
def githubSweepCeiling : Nat := 150

/-- Why a fuse tripped. -/
inductive Tripped
  | floor (remaining : Int) (resets : Option Int) (now : Int)
  | ceiling (spent : Nat)
  deriving DecidableEq, Repr

/-- The hour as it stood before a sweep's first request. -/
structure Start where
  limit : Int
  used : Int
  remaining : Int
  resets : Int
  deriving DecidableEq, Repr

/-- What a sweep has spent of one installation's allowance, and what GitHub last said. -/
structure Budget where
  spent : Nat
  remaining : Int
  known : Bool
  resets : Option Int
  tripped : Option Tripped
  start : Option Start
  deriving DecidableEq, Repr

/-- A budget nothing was spent of. -/
def Budget.fresh : Budget := ⟨0, 0, false, none, none, none⟩

/-- What an answer's headers say of the allowance it spent, each as it parses. -/
structure Header where
  resource : Option String
  remaining : Option Int
  retryAfter : Option Nat
  reset : Option Int
  deriving DecidableEq, Repr

/-- What `/rate_limit` says of REST requests. -/
structure RateLimit where
  limit : Int
  used : Int
  remaining : Int
  reset : Int
  deriving DecidableEq, Repr

/-- An answer GitHub counts against the installation: of the REST allowance, which an
answer that names none is taken for, and not a 304. -/
def counted (header : Header) (notModified : Bool) : Bool :=
  (header.resource.getD "core").toLower == "core" && !notModified

/-- When an answer says to ask again: after the wait it asks for, or at its reset. -/
def githubResets (header : Header) (now : Int) : Option Int :=
  match header.retryAfter with
  | some seconds => some (now + seconds)
  | none => header.reset.filter (0 < ·)

namespace Budget

/-- `check`: a tripped fuse stays as it is. -/
def check (budget : Budget) (now : Int) : Budget :=
  if budget.tripped.isSome then budget
  else if budget.known && budget.remaining < githubFloor then
    { budget with tripped := some (.floor budget.remaining budget.resets now) }
  else if githubSweepCeiling ≤ budget.spent then
    { budget with tripped := some (.ceiling budget.spent) }
  else budget

/-- `note`: one answer counted; a request without one is not. -/
def note (budget : Budget) (header : Option Header) (notModified : Bool) (now : Int) : Budget :=
  match header with
  | none => budget
  | some header =>
      if counted header notModified then
        let budget := { budget with spent := budget.spent + 1 }
        let budget :=
          match header.remaining with
          | some left =>
              { budget with remaining := left, known := true, resets := githubResets header now }
          | none => budget
        budget.check now
      else budget

/-- `left`: what `/rate_limit` says. The first answer of a sweep is where its hour stood,
less what the sweep had spent by then. -/
def left (budget : Budget) (core : RateLimit) (now : Int) : Budget :=
  let start := budget.start.getD
    ⟨core.limit, max (core.used - budget.spent) 0, min (core.remaining + budget.spent) core.limit,
      core.reset⟩
  let budget := { budget with remaining := core.remaining, known := true, start := some start }
  { budget with resets := some core.reset }.check now

@[simp]
theorem check_spent (budget : Budget) (now : Int) : (budget.check now).spent = budget.spent := by
  unfold check
  split_ifs <;> rfl

@[simp]
theorem check_start (budget : Budget) (now : Int) : (budget.check now).start = budget.start := by
  unfold check
  split_ifs <;> rfl

/-- An answer is counted by the fuse exactly where GitHub counts it. -/
theorem note_spent (budget : Budget) (header : Option Header) (notModified : Bool) (now : Int) :
    (budget.note header notModified now).spent =
      budget.spent + if header.any fun header => counted header notModified then 1 else 0 := by
  cases header with
  | none => simp [note]
  | some header =>
      by_cases hcounted : counted header notModified
      · cases hleft : header.remaining <;> simp [note, hcounted, hleft]
      · simp [note, hcounted]

@[simp]
theorem note_start (budget : Budget) (header : Option Header) (notModified : Bool) (now : Int) :
    (budget.note header notModified now).start = budget.start := by
  cases header with
  | none => rfl
  | some header =>
      by_cases hcounted : counted header notModified
      · cases hleft : header.remaining <;> simp [note, hcounted, hleft]
      · simp [note, hcounted]

@[simp]
theorem left_spent (budget : Budget) (core : RateLimit) (now : Int) :
    (budget.left core now).spent = budget.spent := by
  simp [left]

/-- The hour is where the first `/rate_limit` answer has it. -/
theorem left_start (budget : Budget) (core : RateLimit) (now : Int) :
    (budget.left core now).start = some (budget.start.getD
      ⟨core.limit, max (core.used - budget.spent) 0, min (core.remaining + budget.spent) core.limit,
        core.reset⟩) := by
  simp [left]

end Budget

/-! ## The sweep's ledger and its report -/

/-- One App installation's allowance as a sweep began, and what the sweep spent of it, with
what HQ adds. -/
structure AllowanceRecord where
  connectionRef : String
  installation : Nat
  limit : Int
  used : Int
  remaining : Int
  resetsAt : Option Int
  startedAt : Option Int
  spent : Int
  othersSpent : Option Int
  othersSince : Option Int
  deriving DecidableEq, Repr

/-- This sweep's budget for each installation, and when the sweep began. -/
structure Ledger where
  began : Int
  budgets : List (Nat × Budget)
  deriving DecidableEq, Repr

namespace Ledger

/-- An installation's budget, one made on first use. -/
def budget (ledger : Ledger) (installation : Nat) : Budget :=
  (ledger.budgets.lookup installation).getD .fresh

/-- An installation's budget, changed, the installations kept in order. -/
def adjustIn (installation : Nat) (change : Budget → Budget) :
    List (Nat × Budget) → List (Nat × Budget)
  | [] => [(installation, change .fresh)]
  | held :: budgets =>
      if installation < held.1 then (installation, change .fresh) :: held :: budgets
      else if installation = held.1 then (installation, change held.2) :: budgets
      else held :: adjustIn installation change budgets

def adjust (ledger : Ledger) (installation : Nat) (change : Budget → Budget) : Ledger :=
  { ledger with budgets := adjustIn installation change ledger.budgets }

end Ledger

/-- The whole seconds of a moment in nanoseconds: what RFC 3339 keeps of it. -/
def seconds (moment : Int) : Int := moment / 1000000000

/-- An installation's record; one the sweep never asked after has none. -/
def allowance (ref : String) (began : Int) (held : Nat × Budget) : Option AllowanceRecord :=
  if held.1 = 0 then none
  else held.2.start.map fun start =>
    { connectionRef := ref, installation := held.1, limit := start.limit, used := start.used,
      remaining := start.remaining, resetsAt := some start.resets,
      startedAt := some (seconds began), spent := held.2.spent,
      othersSpent := none, othersSince := none }

/-- `githubAllowances`: each installation's hour as the sweep found it. -/
def githubAllowances (ref : String) (ledger : Ledger) : List AllowanceRecord :=
  ledger.budgets.filterMap (allowance ref ledger.began)

/-! ## What HQ makes of it -/

def AllowanceRecord.identity (record : AllowanceRecord) : String × Nat :=
  (record.connectionRef, record.installation)

/-- `_others`: others' spend this hour up to `record`, and since when. A pair across a
reset is in two hours and is not judged. -/
def others (before : Option AllowanceRecord) (record : AllowanceRecord) : Option Int × Option Int :=
  match before with
  | none => (none, none)
  | some before =>
      if record.resetsAt = none ∨ before.resetsAt ≠ record.resetsAt then (none, none)
      else
        match before.startedAt, record.startedAt with
        | some began, some now =>
            if now ≤ began then (none, none)
            else
              let between := record.used - before.used - before.spent
              (some (max between 0 + before.othersSpent.getD 0), some (before.othersSince.getD began))
        | _, _ => (none, none)

/-- The record of an installation in a reading, the last where it is there twice. -/
def earlier (last : List AllowanceRecord) (identity : String × Nat) : Option AllowanceRecord :=
  last.reverse.find? fun record => record.identity = identity

/-- `with_others_spent`. -/
def withOthersSpent (last records : List AllowanceRecord) : List AllowanceRecord :=
  records.map fun record =>
    let judged := others (earlier last record.identity) record
    { record with othersSpent := judged.1, othersSince := judged.2 }

/-! ## GitHub's hour, the sweeps and everyone else -/

/-- What happens while a sweep is on, each at an installation. -/
inductive Event
  | others
  | answered (header : Option Header) (notModified : Bool) (now : Int)
  | asked (now : Int)
  deriving DecidableEq, Repr

/-- One sweep: when it began, and what happened up to its report, before it began as well. -/
structure Sweep where
  began : Int
  events : List (Nat × Event)
  deriving DecidableEq, Repr

/-- An App's hour: the connection it is read through, and each installation's limit and
reset. -/
structure Hour where
  ref : String
  limit : Nat → Int
  resets : Nat → Int

/-- GitHub's count of each installation's hour, by who made the requests, the sweep under way,
and what others had made when it first asked. -/
structure Reading where
  others : Nat → Nat
  own : Nat → Nat
  ledger : Ledger
  asked : Nat → Option Nat

variable (hour : Hour)

/-- What GitHub answers to `/rate_limit`. -/
def Reading.core (reading : Reading) (installation : Nat) : RateLimit :=
  let used : Int := reading.others installation + reading.own installation
  ⟨hour.limit installation, used, max (hour.limit installation - used) 0, hour.resets installation⟩

/-- One event of a sweep. GitHub counts an answer exactly as its headers say. -/
def Reading.step (reading : Reading) : Nat × Event → Reading
  | (installation, .others) =>
      { reading with
        others := Function.update reading.others installation (reading.others installation + 1) }
  | (installation, .answered header notModified now) =>
      { reading with
        own := Function.update reading.own installation (reading.own installation +
          if header.any fun header => counted header notModified then 1 else 0)
        ledger := reading.ledger.adjust installation fun budget => budget.note header notModified now }
  | (installation, .asked now) =>
      { reading with
        ledger := reading.ledger.adjust installation fun budget =>
          budget.left (reading.core hour installation) now
        asked := Function.update reading.asked installation
          (some ((reading.asked installation).getD (reading.others installation))) }

/-- What HQ holds, GitHub's counts, and what others had made of each installation's hour when
the first and the last record of it were asked. -/
structure Hq where
  others : Nat → Nat
  own : Nat → Nat
  stored : List AllowanceRecord
  first : Nat → Option Nat
  last : Nat → Option Nat

/-- A sweep, from its beginning to its report. -/
def Hq.reading (hq : Hq) (sweep : Sweep) : Reading :=
  run (Reading.step hour) ⟨hq.others, hq.own, ⟨sweep.began, []⟩, fun _ => none⟩ sweep.events

/-- One sweep and its record stored. -/
def Hq.sweep (hq : Hq) (sweep : Sweep) : Hq :=
  let reading := hq.reading hour sweep
  { others := reading.others
    own := reading.own
    stored := withOthersSpent hq.stored (githubAllowances hour.ref reading.ledger)
    first := fun installation => (hq.first installation).or (reading.asked installation)
    last := reading.asked }

end SeverinoHQ.GitHub
