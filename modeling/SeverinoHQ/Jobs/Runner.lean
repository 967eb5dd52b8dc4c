/-
# Jobs: starting, running, reporting progress, finishing and reaping

A job is a row, written by the thread that runs it and by reapers that find rows nothing has
been heard from. Each task below is a thread of control between two of its statements, and a
turn of it is its next statement, so a run interleaves any number of them in any order. No
statement that writes a state looks at the state the row is in.
-/

import SeverinoHQ.Math.Slots
import SeverinoHQ.Math.Table

namespace SeverinoHQ.Jobs

open SeverinoHQ.Math

inductive JobState
  | queued
  | running
  | succeeded
  | failed
  | lost
  deriving DecidableEq, Repr

/-- A job's row. -/
structure Job where
  id : Nat
  kind : String
  actor : String
  requestedBy : Option String
  state : JobState
  percent : Option Nat
  note : String
  result : Option String
  error : String
  createdAt : Nat
  startedAt : Option Nat
  finishedAt : Option Nat
  heartbeatAt : Option Nat
  deriving DecidableEq, Repr

/-- How long a job may go without a heartbeat before it is presumed dead, in microseconds. -/
def heartbeatGrace : Nat := 300000000

/-- What a job whose process stopped says went wrong. -/
def lostError : String := "HQ stopped before it finished."

/-- What a job whose thread could not start says went wrong. -/
def notStarted : String := "HQ could not start it; its log holds why."

namespace Job

def isLive (job : Job) : Bool := job.state == .queued || job.state == .running

/-- Live, but nothing has been heard from it for too long. -/
def isStale (job : Job) (now : Nat) : Bool :=
  match job.state, job.heartbeatAt with
  | .running, some heartbeat => decide (heartbeatGrace < now - heartbeat)
  | .queued, _ => decide (heartbeatGrace < now - job.createdAt)
  | _, _ => false

/-- `_routine`: nobody but the scheduler asked for it. -/
def routine (job : Job) : Bool := job.requestedBy.isNone && job.actor == "timer"

end Job

inductive Action
  | done
  | observed
  | failed
  deriving DecidableEq, Repr

/-- The row `_audit` writes: how a job ended. -/
structure Ending where
  job : Nat
  action : Action
  outcome : String
  deriving DecidableEq, Repr

/-- What `start` or `run` is called with; `background` is `start`, which runs the work on a
thread of its own. -/
structure Asked where
  kind : String
  actor : String
  requestedBy : Option String
  background : Bool
  deriving DecidableEq, Repr

/-- What a work returns, and whether its counts say that it made or changed anything. -/
structure WorkResult where
  text : String
  counted : Bool
  deriving DecidableEq, Repr

/-- A thread of control, by what it does next; the jobs it holds are as it read them. -/
inductive Task
  | ended
  /-- `reap` is to read the live rows; `_record` goes on with what was asked. -/
  | reaping (kind : Option String) (next : Option Asked)
  | judging (unjudged lost : List Job) (next : Option Asked)
  | auditing (unaudited lost : List Job) (endedAt : Nat) (next : Option Asked)
  | creating (asked : Asked)
  | launching (job : Job)
  | unstarted (job : Job)
  | unstartedAudited (job : Job) (endedAt : Nat)
  /-- `_work`, from its first statement. -/
  | opening (id : Nat)
  | loading (id : Nat)
  | working (job : Job)
  /-- The work returned; `wrote` says whether it recorded a row inside its operation. -/
  | finished (job : Job) (result : WorkResult) (wrote : Bool)
  | finishing (job : Job) (result : WorkResult) (changed : Bool) (endedAt : Nat)
  | succeeding (job : Job) (result : WorkResult) (endedAt : Nat)
  | failing (job : Job) (error : String)
  | failed (job : Job) (error : String) (endedAt : Nat)
  deriving DecidableEq, Repr

instance : Inhabited Task := ⟨.ended⟩

structure State where
  now : Nat
  jobs : List Job
  nextId : Nat
  endings : List Ending
  tasks : List Task
  deriving DecidableEq, Repr

/-- HQ before its first job. -/
def State.opened (now : Nat) : State := ⟨now, [], 0, [], []⟩

namespace State

def task (state : State) (slot : Nat) : Task := Slots.task state.tasks slot

/-- The task at a slot goes on as another. -/
def put (state : State) (slot : Nat) (task : Task) : State :=
  { state with tasks := state.tasks.set slot task }

/-- A task begins. -/
def spawn (state : State) (task : Task) : State :=
  { state with tasks := state.tasks ++ [task] }

/-- `Job.objects.filter(pk__in=ids).update(…)`. -/
def write (state : State) (ids : List Nat) (fields : Job → Job) : State :=
  { state with jobs := Table.update state.jobs (fun row => ids.contains row.id) fields }

/-- `_audit`. -/
def audit (state : State) (job : Nat) (action : Action) (outcome : String) : State :=
  { state with endings := state.endings ++ [⟨job, action, outcome⟩] }

/-- The database's one live job of a kind, but for the row itself. -/
def taken (state : State) (kind : String) (id : Nat) : Bool :=
  state.jobs.any fun row => row.isLive && row.kind == kind && row.id != id

end State

/-- What is asked for once `reap` returns. -/
def afterReap : Option Asked → Task
  | none => .ended
  | some asked => .creating asked

/-- The row `_record` creates. -/
def created (asked : Asked) (id now : Nat) : Job :=
  { id, kind := asked.kind, actor := asked.actor, requestedBy := asked.requestedBy
    state := .queued, percent := none, note := "", result := none, error := ""
    createdAt := now, startedAt := none, finishedAt := none, heartbeatAt := none }

/-- The last part of `_record`: the one-live-job rule refuses the row, or it is stored. -/
def create (state : State) (slot : Nat) (asked : Asked) : State :=
  if state.jobs.any fun row => row.isLive && row.kind == asked.kind then state.put slot .ended
  else
    let job := created asked state.nextId state.now
    { state with jobs := state.jobs ++ [job], nextId := state.nextId + 1 }.put slot
      (if asked.background then .launching job else .opening job.id)

/-- The first statement of `_work`. The one-live-job rule refuses it where another job of
the kind is live, which ends the thread. -/
def openJob (state : State) (slot id : Nat) : State :=
  match state.jobs.find? fun row => row.id == id with
  | none => state.put slot (.loading id)
  | some row =>
      if state.taken row.kind id then state.put slot .ended
      else
        (state.write [id] fun row => { row with
          state := .running, startedAt := some state.now, heartbeatAt := some state.now }).put slot
          (.loading id)

/-- The next statement of the task at a slot. -/
def turn (state : State) (slot : Nat) : State :=
  match state.task slot with
  | .ended => state
  | .reaping kind next =>
      let live := state.jobs.filter fun row => row.isLive && kind.all (row.kind == ·)
      state.put slot (.judging live [] next)
  | .judging [] lost next =>
      state.put slot (if lost.isEmpty then afterReap next else .auditing lost lost state.now next)
  | .judging (job :: unjudged) lost next =>
      state.put slot (.judging unjudged
        (if job.isStale state.now then lost ++ [job] else lost) next)
  | .auditing (job :: unaudited) lost endedAt next =>
      (state.audit job.id .failed "stopped early").put slot (.auditing unaudited lost endedAt next)
  | .auditing [] lost endedAt next =>
      (state.write (lost.map Job.id) fun row => { row with
        state := .lost, error := lostError, finishedAt := some endedAt }).put slot
        (afterReap next)
  | .creating asked => create state slot asked
  | .launching job => state.put slot (.opening job.id)
  | .unstarted job =>
      (state.audit job.id .failed "could not start").put slot (.unstartedAudited job state.now)
  | .unstartedAudited job endedAt =>
      (state.write [job.id] fun row => { row with
        state := .failed, error := notStarted, finishedAt := some endedAt }).put slot .ended
  | .opening id => openJob state slot id
  | .loading id =>
      match state.jobs.find? fun row => row.id == id with
      | none => state.put slot .ended
      | some job => state.put slot (.working job)
  | .working _ => state
  | .finished job result wrote =>
      let changed := result.counted || wrote || state.endings.any (·.job == job.id)
      state.put slot (.finishing job result changed state.now)
  | .finishing job result changed endedAt =>
      (state.audit job.id (if changed || !job.routine then .done else .observed)
        (if changed then "finished" else "finished with nothing to change")).put slot
        (.succeeding job result endedAt)
  | .succeeding job result endedAt =>
      (state.write [job.id] fun row => { row with
        state := .succeeded, result := some result.text, percent := some 100
        finishedAt := some endedAt, heartbeatAt := some endedAt }).put slot .ended
  | .failing job error =>
      (state.audit job.id .failed "failed").put slot (.failed job error state.now)
  | .failed job error endedAt =>
      (state.write [job.id] fun row => { row with
        state := .failed, error := error
        finishedAt := some endedAt, heartbeatAt := some endedAt }).put slot .ended

/-- A progress report that is written. -/
def progress (state : State) (job : Job) (note : String) (percent : Option Int) : State :=
  state.write [job.id] fun row =>
    { row with
      heartbeatAt := some state.now
      note := if note = "" then row.note else String.ofList (note.toList.take 200)
      percent := match percent with
        | none => row.percent
        | some percent => some (min 100 percent).toNat }

inductive Event
  | tick (microseconds : Nat)
  /-- `start` or `run` is called. -/
  | starts (asked : Asked)
  /-- The hourly work's `reap`. -/
  | reaps
  | turn (slot : Nat)
  /-- The thread cannot be started. -/
  | launchFails (slot : Nat)
  | progress (slot : Nat) (note : String) (percent : Option Int)
  | returns (slot : Nat) (result : WorkResult) (wrote : Bool)
  | raises (slot : Nat) (error : String)
  /-- The process a task is of stops. -/
  | vanishes (slot : Nat)
  deriving DecidableEq, Repr

def step (state : State) : Event → State
  | .tick microseconds => { state with now := state.now + microseconds }
  | .starts asked => state.spawn (.reaping (some asked.kind) (some asked))
  | .reaps => state.spawn (.reaping none none)
  | .turn slot => turn state slot
  | .launchFails slot =>
      match state.task slot with
      | .launching job => state.put slot (.unstarted job)
      | _ => state
  | .progress slot note percent =>
      match state.task slot with
      | .working job => progress state job note percent
      | _ => state
  | .returns slot result wrote =>
      match state.task slot with
      | .working job => state.put slot (.finished job result wrote)
      | _ => state
  | .raises slot error =>
      match state.task slot with
      | .working job => state.put slot (.failing job error)
      | _ => state
  | .vanishes slot => state.put slot .ended

/-! ## What a task still has to do for a job -/

namespace Task

/-- The jobs a task has a statement of an ending, or of the work before it, still to make
for. -/
def holds : Task → List Nat
  | .judging _ lost _ | .auditing _ lost _ _ => lost.map (·.id)
  | .launching job | .unstarted job | .unstartedAudited job _ | .working job
  | .finished job _ _ | .finishing job _ _ _ | .succeeding job _ _ | .failing job _
  | .failed job _ _ => [job.id]
  | .opening id | .loading id => [id]
  | .ended | .reaping _ _ | .creating _ => []

/-- Of these, the jobs whose ending the task has audited. -/
def audited : Task → List Nat
  | .auditing unaudited lost _ _ =>
      (lost.map (·.id)).filter fun id => !(unaudited.map (·.id)).contains id
  | .unstartedAudited job _ | .succeeding job _ _ | .failed job _ _ => [job.id]
  | _ => []

end Task

end SeverinoHQ.Jobs
