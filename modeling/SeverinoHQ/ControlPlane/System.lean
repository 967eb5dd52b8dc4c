/-
# Every caller at once

The database, the clock and the calls in flight, as one machine. A transaction
is one event. A call that holds none is in flight between its statements, and
each event advances one of them by one statement, so a run is any interleaving
of any number of people, agents, controllers and passes.

Three histories are kept beside the state for the theorems to speak of: the
contracts handed out, the operations reports settled, and the statuses they
recorded. No call reads them.
-/

import SeverinoHQ.ControlPlane.Settlement
import SeverinoHQ.Math.Run

namespace SeverinoHQ.ControlPlane

open SeverinoHQ.Math

/-- The statement an `enqueue` in flight makes next. -/
inductive AskPhase where
  | look
  | get
  | create
  deriving DecidableEq, Repr

/-- The asks a call still has to enqueue without a transaction around them. The
automatic pass ends with the repairs of findings, for the controller it names. -/
structure Queueing where
  asks : List Ask
  phase : AskPhase
  began : Moment
  repairs : Option String
  deriving DecidableEq, Repr

/-- A report between its statements. -/
structure ReportRun where
  reporting : Reporting
  remaining : List ReportWrite
  deriving DecidableEq, Repr

/-- A contract as a claim handed it out. -/
structure Handed where
  operation : Id
  controllerId : String
  generation : Nat
  enabled : Bool
  action : Action
  deriving DecidableEq, Repr

/-- A report's save of its operation: who reported, when, and the row it found. -/
structure Settlement where
  operation : Id
  controllerId : String
  settledAt : Moment
  found : OperationRequest
  deriving DecidableEq, Repr

/-- A successful report's save of a declaration. -/
structure Recording where
  resource : Id
  generation : Nat
  status : Json
  deriving DecidableEq, Repr

/-- The whole system between two events. -/
structure World where
  db : Database
  now : Moment
  queueings : List Queueing
  reports : List ReportRun
  handed : List Handed
  settlements : List Settlement
  recordings : List Recording
  deriving DecidableEq, Repr

/-- The system before anything happened. -/
def World.start (now : Moment) : World := ⟨.empty, now, [], [], [], [], []⟩

/-- What can happen next. -/
inductive Call where
  /-- The clock goes on. -/
  | tick (elapsed : Nat)
  | save (call : SaveCall)
  | advanceDependents
  | requestReconcile (command : OperationCommand) (principal : Principal) (key : String)
  | requestLifecycle (command : OperationCommand) (principal : Principal) (key : String)
      (action : Action)
  | requestRouteApproval (command : OperationCommand) (principal : Principal) (key : String)
  | requestRemoval (command : OperationCommand) (principal : Principal) (key : String)
  | requestCertificateRenewal (command : OperationCommand) (principal : Principal) (key : String)
  /-- A removal asked without a retry key, which opens no transaction. -/
  | beginRemoval (command : OperationCommand) (principal : Principal) (key : String)
  /-- A renewal asked without a retry key, which opens no transaction. -/
  | beginCertificateRenewal (command : OperationCommand) (principal : Principal) (key : String)
  /-- `schedule_automatic_operations` reads its declarations. -/
  | beginSchedule (controllerId : String)
  /-- One statement of the queueing at a place in the list. -/
  | advanceQueueing (index : Nat)
  | forget (resource : ManagedResource)
  | claim (call : ClaimCall)
  /-- `report_operation` reads the operation and checks it. -/
  | beginReport (call : ReportCall)
  /-- One statement of the report at a place in the list, refused or not. -/
  | advanceReport (index : Nat) (fails : Bool)

/-- A call, and what it finds around it. -/
structure Event where
  env : Environment
  call : Call

namespace World

/-- What a transaction leaves: its rows, or nothing where it raised. -/
def commit (world : World) : Except Raised Database → World
  | .ok stored => { world with db := stored }
  | .error _ => world

/-- A call without a transaction has asks to enqueue. -/
def queue (world : World) (queueing : Queueing) : World :=
  { world with queueings := world.queueings ++ [queueing] }

/-- A queueing goes on to its next ask. -/
def nextAsk (queueing : Queueing) : Queueing :=
  { queueing with asks := queueing.asks.tail, phase := .look }

/-- One statement of a queueing. -/
def advanceQueueing (world : World) (env : Environment) (index : Nat) (queueing : Queueing) :
    World :=
  let others := world.queueings.eraseIdx index
  let goesOn := fun (later : Queueing) => world.queueings.set index later
  match queueing.asks with
  | [] =>
      match queueing.repairs with
      | none => { world with queueings := others }
      | some controllerId =>
          commit { world with queueings := others }
            (findingRepairs env queueing.began world.now controllerId world.db)
  | ask :: _ =>
      match queueing.phase with
      | .look =>
          match world.db.active? ask.resource.id ask.action with
          | some _ => { world with queueings := goesOn (nextAsk queueing) }
          | none => { world with queueings := goesOn { queueing with phase := .get } }
      | .get =>
          match world.db.operationKeyed? ask.idempotencyKey with
          | some _ => { world with queueings := goesOn (nextAsk queueing) }
          | none => { world with queueings := goesOn { queueing with phase := .create } }
      | .create =>
          match createOrGet world.now ask world.db with
          | .ok (stored, _) => { world with db := stored, queueings := goesOn (nextAsk queueing) }
          | .error _ => { world with queueings := others }

/-- What a save of an operation adds to the settlements. -/
def settlementsAfter (world : World) (reporting : Reporting) (write : ReportWrite) :
    List Settlement :=
  match write, world.db.operation? reporting.operation.id with
  | .saveOperation, some found =>
      ⟨found.id, reporting.operation.claimedBy, world.now, found⟩ :: world.settlements
  | _, _ => world.settlements

/-- What a save of a declaration adds to the recordings. -/
def recordingsAfter (world : World) (reporting : Reporting) (write : ReportWrite) :
    List Recording :=
  match write, reporting.report.success with
  | .saveResource, true =>
      ⟨reporting.resource.id, reporting.report.observedGeneration.toNat,
        reporting.report.status⟩ :: world.recordings
  | _, _ => world.recordings

/-- One statement of a report. A report that raised, or made its last, is over. -/
def advanceReport (world : World) (env : Environment) (index : Nat) (report : ReportRun)
    (fails : Bool) : World :=
  let ended := { world with reports := world.reports.eraseIdx index }
  match report.remaining with
  | [] => ended
  | write :: remaining =>
      if fails then
        ended
      else
        match performWrite env world.now report.reporting world.db write with
        | .error _ => ended
        | .ok stored => { world with
            db := stored
            reports := world.reports.set index { report with remaining := remaining }
            settlements := world.settlementsAfter report.reporting write
            recordings := world.recordingsAfter report.reporting write }

/-- A claim commits its rows, and hands out the contract it answers with. -/
def claim (world : World) (env : Environment) (call : ClaimCall) : World :=
  match claimNextOperation env world.now call world.db with
  | .error _ => world
  | .ok (stored, none) => { world with db := stored }
  | .ok (stored, some claimed) => { world with
      db := stored
      handed := ⟨claimed.operation.id, call.controllerId, claimed.contract.generation,
        claimed.contract.enabled, claimed.operation.action⟩ :: world.handed }

/-- What a removal inside a transaction commits. -/
def remove (world : World) (env : Environment) : Except Raised Removal → Except Raised Database
  | .error raised => .error raised
  | .ok (.forget resource) => forgetDeclaration env world.now resource world.db
  | .ok (.ask ask) => (enqueue world.now ask world.db).map Prod.fst

/-- One event. -/
def step (world : World) (event : Event) : World :=
  let env := event.env
  match event.call with
  | .tick elapsed => { world with now := world.now + elapsed }
  | .save call =>
      world.commit ((saveManagedResource env world.now call world.db).map Prod.snd)
  | .advanceDependents => world.commit (ControlPlane.advanceDependents env world.now world.db)
  | .requestReconcile command principal key =>
      world.commit ((ControlPlane.requestReconcile env world.now command principal key
        world.db).map Queued.db)
  | .requestLifecycle command principal key action =>
      world.commit ((ControlPlane.requestLifecycle env world.now command principal key action
        world.db).map Queued.db)
  | .requestRouteApproval command principal key =>
      world.commit ((ControlPlane.requestRouteApproval env world.now command principal key
        world.db).map Queued.db)
  | .requestRemoval command principal key =>
      world.commit (world.remove env (askRemoval env command principal key world.db))
  | .requestCertificateRenewal command principal key =>
      world.commit (match askCertificateRenewal env world.now command principal key world.db with
        | .error raised => .error raised
        | .ok ask => (enqueue world.now ask world.db).map Prod.fst)
  | .beginRemoval command principal key =>
      match askRemoval env command principal key world.db with
      | .ok (.ask ask) => world.queue ⟨[ask], .look, world.now, none⟩
      | _ => world
  | .beginCertificateRenewal command principal key =>
      match askCertificateRenewal env world.now command principal key world.db with
      | .ok ask => world.queue ⟨[ask], .look, world.now, none⟩
      | .error _ => world
  | .beginSchedule controllerId =>
      world.queue ⟨automaticAsks env world.now controllerId world.db, .look, world.now,
        some controllerId⟩
  | .advanceQueueing index =>
      match world.queueings[index]? with
      | none => world
      | some queueing => world.advanceQueueing env index queueing
  | .forget resource => world.commit (forgetDeclaration env world.now resource world.db)
  | .claim call => world.claim env call
  | .beginReport call =>
      match acceptReport world.now call.operationId call.report call.controllerId world.db with
      | .error _ => world
      | .ok reporting =>
          { world with reports := world.reports ++ [⟨reporting, reporting.writes env⟩] }
  | .advanceReport index fails =>
      match world.reports[index]? with
      | none => world
      | some report => world.advanceReport env index report fails

end World

end SeverinoHQ.ControlPlane
