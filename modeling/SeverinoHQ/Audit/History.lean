/-
# One line for each event

The history lists an event as the rows one operation wrote, read newest first and no more than so
many of a kind, and puts like moments that came together on one line. A row is read with what its
metadata and its object's words say of it; times are microseconds.
-/

import Mathlib.Algebra.GroupWithZero.Nat
import SeverinoHQ.Math.Dict
import SeverinoHQ.Math.Newest

namespace SeverinoHQ.Audit.History

open SeverinoHQ.Math

/-- `SHOWN`. -/
def shown : Nat := 5

/-- `RUN`. -/
def runLength : Int := 15 * 60 * 1000000

/-- An audit row. Who approved it is blank where its metadata names nobody, and so is the title
its operation's words declare where they declare none. -/
structure Row where
  pk : Nat
  createdAt : Int
  operationId : String
  objectId : String
  objectType : String
  objectRepr : String
  typeLabel : String
  actorLabel : String
  approvedBy : String
  action : String
  message : String
  declared : String
  deriving DecidableEq, Repr

/-- The row is about the operation that wrote it. -/
def Row.isOwn (row : Row) : Bool := row.objectId == row.operationId

structure Moment where
  at' : Int
  source : String
  title : String
  like : List String
  deriving DecidableEq, Repr

/-- One line: an event's rows, a moment, or a run of like moments. -/
structure Line where
  at' : Int
  events : List Row
  moment : Option Moment
  kinds : List (String × Nat)
  burst : List Moment
  deriving DecidableEq, Repr

/-- What a title names, and how many more it counts beside that. -/
inductive Title where
  | run (count : Nat) (like : List String)
  | named (name : String)
  | among (name : String) (others : Int)
  | none
  deriving DecidableEq, Repr

/-- What an event's line says it came to: its own row's message, or counts by type. -/
inductive Message where
  | text (message : String)
  | counts (counts : List (String × Nat))
  deriving DecidableEq, Repr

namespace Line

variable (line : Line)

/-- The rows about the operation itself. -/
def own : List Row :=
  match line.events with
  | [] => []
  | first :: _ =>
      if first.operationId = "" then []
      else line.events.filter fun event => event.objectId == first.operationId

/-- The row the event is named by. -/
def head : Option Row :=
  match line.own with
  | row :: _ => some row
  | [] => if line.events.length = 1 then line.events.head? else none

/-- What the event changed, newest first, as many as a line carries. -/
def items : List Row :=
  match line.events with
  | first :: second :: rest =>
      ((first :: second :: rest).filter fun event =>
        first.operationId == "" || event.objectId != first.operationId).take shown
  | _ => []

/-- How many items of each type it changed, newest type first. -/
def counts : List (String × Nat) :=
  if line.events.length < 2 then []
  else if line.kinds ≠ [] then line.kinds
  else
    let types := line.items.map Row.objectType
    types.eraseDups.map fun objectType => (objectType, types.count objectType)

def total : Nat :=
  if line.burst ≠ [] then line.burst.length else (line.counts.map Prod.snd).sum

/-- How many of its items its line leaves to its page. -/
def more : Int :=
  if line.burst ≠ [] then line.total - min line.total shown else line.total - line.items.length

/-- `named`. -/
def title : Title :=
  match line.burst with
  | first :: _ => .run line.total first.like
  | [] =>
      match line.head with
      | some head => .named (if head.objectRepr = "" then head.typeLabel else head.objectRepr)
      | none =>
          match line.events with
          | [] => .none
          | newest :: _ =>
              if newest.declared ≠ "" then .named newest.declared
              else .among (if newest.objectRepr = "" then newest.typeLabel else newest.objectRepr)
                ((line.total : Int) - 1)

/-- Whoever started it: the actor of its first row. -/
def actor : Option String := line.events.getLast?.map Row.actorLabel

/-- Who allowed it, when someone other than its actor did. -/
def approvedBy : String :=
  match (line.events.map Row.approvedBy).find? fun approver => approver != "" with
  | none => ""
  | some approver => if some approver = line.actor then "" else approver

/-- How it came out. -/
def action : Option String :=
  match line.head with
  | some head => some head.action
  | none =>
      match (line.events.map Row.action).eraseDups with
      | [action] => some action
      | _ => line.events.head?.map Row.action

def message : Message :=
  match line.head with
  | some head => .text head.message
  | none => .counts line.counts

end Line

/-! ## The read -/

/-- What the window functions partition by: the operation, whether the row is its own, the type. -/
def kind (row : Row) : String × Bool × String := (row.operationId, row.isOwn, row.objectType)

/-- `order_by("-created_at", "-pk")`. -/
def newestFirst (rows : List Row) : List Row :=
  rows.mergeSort fun first second => second.createdAt < first.createdAt ||
    second.createdAt == first.createdAt && second.pk ≤ first.pk

/-- The rows of some operations. -/
def ofOperations (within : List Row) (operations : List String) : List Row :=
  within.filter fun row => row.operationId ∈ operations

/-- `of_kind`: how many rows of the operations are of a row's kind. -/
def ofKind (rows : List Row) (row : Row) : Nat := rows.countP fun other => kind other = kind row

/-- `_newest_of_each_kind`. -/
def newestOfEachKind (rows : List Row) : List Row := Newest.newest kind shown (newestFirst rows)

/-- `kinds.setdefault(operation_id, {}).setdefault(object_type, of_kind)`, for an item. -/
def countKind (rows : List Row) (kinds : Dict String Nat) (row : Row) : Dict String Nat :=
  if row.isOwn || (kinds.get? row.objectType).isSome then kinds
  else kinds.set row.objectType (ofKind rows row)

/-- A line of an event from the rows that were read of its operation, or from its own row where
none was. The counts are of `rows`. -/
def lineOf (rows siblings : List Row) (event : Row) : Line where
  at' := event.createdAt
  events := if siblings = [] then [event] else siblings
  moment := none
  kinds := (siblings.foldl (countKind rows) .empty).items
  burst := []

/-- The rows of an event's operation, of those read. -/
def siblingsOf (read : List Row) (event : Row) : List Row :=
  if event.operationId = "" then []
  else read.filter fun row => row.operationId == event.operationId

/-! ## Runs of moments -/

/-- The runs gathered, and where the open one of each source and likeness is. -/
structure Gathered where
  runs : List (List Moment)
  openRuns : Dict (String × List String) Nat

def gather (gathered : Gathered) (item : Moment) : Gathered :=
  let key := (item.source, item.like)
  let joined := if item.like = [] then none else do
    let index ← gathered.openRuns.get? key
    let run ← gathered.runs[index]?
    let newest ← run.head?
    if newest.at' - item.at' ≤ runLength then some (index, run) else none
  match joined with
  | some (index, run) => { gathered with runs := gathered.runs.set index (run ++ [item]) }
  | none =>
      { runs := gathered.runs ++ [[item]]
        openRuns := if item.like = [] then gathered.openRuns
          else gathered.openRuns.set key gathered.runs.length }

/-- A run as a line. -/
def runLine : List Moment → Line
  | [] => ⟨0, [], none, [], []⟩
  | [item] => ⟨item.at', [], some item, [], []⟩
  | first :: second :: rest => ⟨first.at', [], none, [], first :: second :: rest⟩

/-- `runs`. -/
def runs (found : List Moment) : List Line :=
  ((found.mergeSort fun first second => second.at' ≤ first.at').foldl gather ⟨[], .empty⟩).runs.map
    runLine

/-- `entries`. -/
def entries (events : List Row) (found : List Moment) (within : Option (List Row)) : List Line :=
  let operations := (events.map Row.operationId).filter (· != "")
  let rows := match within with
    | none => []
    | some within => ofOperations within operations
  let lines := events.map fun event => lineOf rows (siblingsOf (newestOfEachKind rows) event) event
  (lines ++ runs found).mergeSort fun first second => second.at' ≤ first.at'

end SeverinoHQ.Audit.History
