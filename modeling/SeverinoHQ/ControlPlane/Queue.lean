/-
# Queueing operations

An operation enters the queue through `enqueue`: once per idempotency key, and
once per declaration and action while one waits or runs. Its callers check the
declaration they read against the registry's policy first. Here the checks and
the insert are separate functions, because only some callers hold both in one
transaction: the automatic pass, and a removal or a renewal asked without a
retry key, read first and insert later.
-/

import SeverinoHQ.ControlPlane.Model

namespace SeverinoHQ.ControlPlane

open SeverinoHQ.Math

/-- `tls.CERTIFICATE_KIND`. -/
def certificateKind : String := "tls.certificate"

/-- `tls.UPLOADED_CERTIFICATE_KIND`. -/
def uploadedCertificateKind : String := "tls.uploaded_certificate"

/-- `declarations.DELIVERY_TARGET_KIND`. -/
def deliveryTargetKind : String := "tls.delivery_target"

/-- `security.CONTROLLER_INTERFACE`. -/
def controllerInterface : String := "controller"

/-- `text[:length]`. -/
def clipped (length : Nat) (text : String) : String := String.ofList (text.toList.take length)

/-! ## The insert -/

/-- What `enqueue` is called with: the declaration as its caller holds it, and
the fields of the operation to create. -/
structure Ask where
  resource : ManagedResource
  action : Action
  idempotencyKey : String
  requestedActor : String
  requestedInterface : String
  requestedDevice : String
  reason : String
  input : OperationInput
  deriving DecidableEq, Repr

/-- The row an ask inserts. -/
def Ask.operation (ask : Ask) (id : Id) (now : Moment) : OperationRequest where
  id := id
  resource := ask.resource.id
  action := ask.action
  state := .queued
  requestedActor := ask.requestedActor
  requestedInterface := ask.requestedInterface
  requestedDevice := ask.requestedDevice
  reason := ask.reason
  idempotencyKey := ask.idempotencyKey
  input := ask.input
  result := .obj []
  claimedBy := ""
  claimedAt := none
  leaseExpiresAt := none
  attemptCount := 0
  completedAt := none
  createdAt := now
  updatedAt := now

/-- The insert, refused where a unique column, the one-active constraint or the
foreign key would not hold. -/
def Database.create (db : Database) (now : Moment) (ask : Ask) :
    Except Raised (Database × OperationRequest) :=
  if (db.operationKeyed? ask.idempotencyKey).isSome then
    .error (.integrityError "idempotency_key")
  else if (db.active? ask.resource.id ask.action).isSome then
    .error (.integrityError "one_active_operation_per_resource_action")
  else if (db.resource? ask.resource.id).isNone then
    .error (.integrityError "resource_id")
  else
    let operation := ask.operation db.serial now
    .ok ({ db with serial := db.serial + 1, operations := db.operations ++ [operation] }, operation)

/-- The insert of `get_or_create`: a writer that lost the key is handed the row
that won it, and any other refusal is raised. -/
def createOrGet (now : Moment) (ask : Ask) (db : Database) :
    Except Raised (Database × OperationRequest × Bool) :=
  match db.create now ask with
  | .ok (stored, operation) => .ok (stored, operation, true)
  | .error raised =>
      match db.operationKeyed? ask.idempotencyKey with
      | some operation => .ok (db, operation, false)
      | none => .error raised

/-- `enqueue`, with nothing coming between its three statements. -/
def enqueue (now : Moment) (ask : Ask) (db : Database) :
    Except Raised (Database × OperationRequest × Bool) :=
  match db.active? ask.resource.id ask.action with
  | some operation => .ok (db, operation, false)
  | none =>
      match db.operationKeyed? ask.idempotencyKey with
      | some operation => .ok (db, operation, false)
      | none => createOrGet now ask db

/-! ## What a person or a credential asks -/

/-- `OperationCommand`. -/
structure OperationCommand where
  idempotencyKey : String
  reason : String
  deriving DecidableEq, Repr

/-- The checks `_queue_operation` makes, and the ask it then enqueues. -/
def askOperation (env : Environment) (resource : ManagedResource) (command : OperationCommand)
    (principal : Principal) (action : Action) (requireEnabled : Bool) : Except Raised Ask :=
  if requireEnabled && !resource.enabled then
    .error (.policyError "This record is switched off in HQ.")
  else if env.observesOnly resource.kind resource.spec then
    .error (.policyError
      "This connection only reads. Its setup guide says how to let HQ make changes through it.")
  else if env.consentGap resource.kind principal ≠ "" then
    .error (.policyError (env.consentGap resource.kind principal))
  else if !(env.controllerActionPolicy resource.kind action).1 then
    .error (.policyError (env.controllerActionPolicy resource.kind action).2)
  else
    .ok {
      resource := resource
      action := action
      idempotencyKey := command.idempotencyKey
      requestedActor := principal.actor
      requestedInterface := principal.interface
      requestedDevice := principal.device
      reason := command.reason
      input := {
        generation := resource.generation
        approvedBy := if principal.approvedBy ≠ "" then some principal.approvedBy else none } }

/-- What `_queue_operation` answers: the stored rows, the operation, and whether
this call queued it. -/
structure Queued where
  db : Database
  operation : OperationRequest
  queued : Bool

/-- `_queue_operation`, inside its caller's transaction. -/
def queueOperation (env : Environment) (now : Moment) (resource : ManagedResource)
    (command : OperationCommand) (principal : Principal) (action : Action) (requireEnabled : Bool)
    (db : Database) : Except Raised Queued := do
  let ask ← askOperation env resource command principal action requireEnabled
  let (stored, operation, queued) ← enqueue now ask db
  if operation.resource ≠ resource.id ∨ operation.action ≠ action then
    throw (.policyError "Idempotency key is already used by another operation.")
  return ⟨stored, operation, queued⟩

/-- `queue_reconcile`: keyed on the generation the caller holds. -/
def queueReconcile (env : Environment) (now : Moment) (resource : ManagedResource)
    (principal : Principal) (reason : String) (db : Database) : Except Raised Queued :=
  queueOperation env now resource
    ⟨"reconcile:" ++ toString resource.id ++ ":g" ++ toString resource.generation, reason⟩
    principal .reconcile true db

/-- `_resource_for_operation`. -/
def resourceForOperation (db : Database) (key : String) : Except Raised ManagedResource :=
  match db.resourceNamed? key with
  | some resource => .ok resource
  | none => .error (.recordNotFound "That record was not found.")

/-- `request_readings` of one kind: its row is updated, or created. -/
def requestReading (now : Moment) (kind : String) (db : Database) : Database :=
  if db.readRequests.any fun request => request.kind == kind then
    { db with
      readRequests := Table.update db.readRequests (fun request => request.kind == kind)
        (fun request => { request with requestedAt := now }) }
  else
    { db with readRequests := db.readRequests ++ [⟨kind, now⟩] }

/-- `request_reconcile`. -/
def requestReconcile (env : Environment) (now : Moment) (command : OperationCommand)
    (principal : Principal) (currentKey : String) (db : Database) : Except Raised Queued := do
  let resource ← resourceForOperation db currentKey
  if env.publicEffect resource.kind && !env.publicDnsEnabled then
    throw (.policyError "Public DNS changes are off on this server.")
  queueOperation env now resource command principal .reconcile true db

/-- `_request_lifecycle`, with the reading it asks for once it has queued. -/
def requestLifecycle (env : Environment) (now : Moment) (command : OperationCommand)
    (principal : Principal) (currentKey : String) (action : Action) (db : Database) :
    Except Raised Queued := do
  let resource ← resourceForOperation db currentKey
  if env.unitGap resource ≠ "" then
    throw (.policyError (env.unitGap resource))
  let queued ← queueOperation env now resource command principal action true db
  if queued.queued && env.swept resource.kind then
    return { queued with db := requestReading now resource.kind queued.db }
  return queued

/-- `request_route_approval`. -/
def requestRouteApproval (env : Environment) (now : Moment) (command : OperationCommand)
    (principal : Principal) (currentKey : String) (db : Database) : Except Raised Queued := do
  let resource ← resourceForOperation db currentKey
  queueOperation env now resource command principal .approveRoutes true db

/-- Whether a condition says something is wrong. -/
def Condition.isProblem (condition : Condition) : Bool :=
  condition.status && (condition.type == "Drifted" || condition.type == "Degraded")

/-- `certificate_renewal_allowed`: the explanation of a renewal allowed or refused. -/
def certificateRenewalAllowed (env : Environment) (now : Moment) (resource : ManagedResource) :
    Bool × String :=
  if resource.kind ≠ certificateKind then
    (false, "Only a certificate HQ issues can be renewed.")
  else if !resource.enabled then
    (false, "The certificate is switched off in HQ.")
  else if !(env.controllerActionPolicy resource.kind .renew).1 then
    (false, (env.controllerActionPolicy resource.kind .renew).2)
  else if resource.conditions.any Condition.isProblem then
    (true, "A place it is installed is serving a different certificate or has a problem.")
  else if !((resource.status.get? "not_after").any Json.truthy) then
    (true, "HQ has not read when it expires.")
  else
    match env.certificateExpiry resource.status with
    | none => (true, "The expiry HQ read is not a date.")
    | some expiry =>
        if env.renewalOpensAt expiry resource.spec ≤ now then
          (true, env.remainingText expiry ++ " remaining.")
        else
          (false, env.renewsFromText expiry resource.spec)

/-- `request_certificate_renewal` up to its enqueue. -/
def askCertificateRenewal (env : Environment) (now : Moment) (command : OperationCommand)
    (principal : Principal) (currentKey : String) (db : Database) : Except Raised Ask := do
  let resource ← resourceForOperation db currentKey
  if !(certificateRenewalAllowed env now resource).1 then
    throw (.policyError (certificateRenewalAllowed env now resource).2)
  askOperation env resource command principal .renew true

/-- What `request_removal` does with a declaration: stop managing it, or ask for
its removal at the provider. -/
inductive Removal where
  | forget (resource : ManagedResource)
  | ask (ask : Ask)

/-- `request_removal` up to its first write. The switch is not looked at: a
removal is the one thing still asked of a declaration that is off. -/
def askRemoval (env : Environment) (command : OperationCommand) (principal : Principal)
    (currentKey : String) (db : Database) : Except Raised Removal := do
  let resource ← resourceForOperation db currentKey
  if env.declarationOnly resource.kind || env.observesOnly resource.kind resource.spec then
    return .forget resource
  if !(env.controllerActionPolicy resource.kind .delete).1 then
    throw (.policyError (env.controllerActionPolicy resource.kind .delete).2)
  let ask ← askOperation env resource command principal .delete false
  return .ask ask

/-! ## What the controller contract queues by itself -/

/-- `_automatic_reconcile`: the reason and the identity of a reconcile that is due. -/
def automaticReconcile (env : Environment) (resource : ManagedResource) :
    Option (String × String) :=
  if resource.kind == certificateKind && (resource.status.get? "not_after").any Json.truthy
      && (env.certificateExpiry resource.status).isNone then
    some ("Automatic: the certificate's expiry could not be read.", "invalid-expiry")
  else if resource.generation ≠ resource.observedGeneration then
    some ("Automatic: HQ's config for it changed.", "generation")
  else if resource.conditions.any Condition.isProblem then
    let said := "|".intercalate
      ((resource.conditions.filter fun condition =>
        condition.type == "Drifted" || condition.type == "Degraded").map Condition.message)
    some ("Automatic: it was changed outside HQ.",
      "drift-" ++ clipped 16 (env.digest (.str said)))
  else
    none

/-- `_automatic_renewal`. -/
def automaticRenewal (env : Environment) (now : Moment) (resource : ManagedResource) :
    Option (String × String) :=
  if resource.kind ≠ certificateKind then
    none
  else
    match env.certificateExpiry resource.status with
    | none => none
    | some expiry =>
        if env.renewalOpensAt expiry resource.spec ≤ now then
          some ("Automatic renewal window reached.",
            env.str ((resource.status.get? "not_after").getD .null))
        else
          none

/-- `_automatic_action`. -/
def automaticAction (env : Environment) (now : Moment) (resource : ManagedResource) :
    Action → Option (String × String)
  | .reconcile => automaticReconcile env resource
  | .renew => automaticRenewal env now resource
  | _ => none

/-- The automatic actions of a kind, a renewal before anything else. -/
def automaticActions (env : Environment) (kind : String) : List Action :=
  let actions := (env.automatic.filter fun entry => entry.1 == kind).map Prod.snd
  actions.filter (· == .renew) ++ actions.filter (· != .renew)

/-- The ask the automatic pass makes for one declaration, where an action is due. -/
def automaticAsk (env : Environment) (now : Moment) (controllerId : String)
    (resource : ManagedResource) : Option Ask :=
  if env.observesOnly resource.kind resource.spec then
    none
  else
    (automaticActions env resource.kind).findSome? fun action =>
      (automaticAction env now resource action).map fun (reason, identity) => {
        resource := resource
        action := action
        idempotencyKey := clipped 200
          ("controller:" ++ action.value ++ ":" ++ toString resource.id ++ ":g"
            ++ toString resource.generation ++ ":" ++ identity ++ ":" ++ env.dateText now)
        requestedActor := controllerId
        requestedInterface := controllerInterface
        requestedDevice := ""
        reason := reason
        input := ⟨resource.generation, none⟩ }

/-- The asks `schedule_automatic_operations` goes on to enqueue, from the
declarations it reads once at its start. -/
def automaticAsks (env : Environment) (now : Moment) (controllerId : String) (db : Database) :
    List Ask :=
  (db.resources.filter fun resource =>
    resource.enabled && env.automatic.any fun entry => entry.1 == resource.kind).filterMap
      (automaticAsk env now controllerId)

/-- The ask `_finding_repairs` makes for one repair, keyed on the day the pass began. -/
def repairAsk (env : Environment) (began : Moment) (controllerId : String) (repair : Repair)
    (resource : ManagedResource) : Ask where
  resource := resource
  action := .reconcile
  idempotencyKey := clipped 200
    ("finding:" ++ repair.rule ++ ":" ++ toString resource.id ++ ":g"
      ++ toString resource.generation ++ ":" ++ env.dateText began)
  requestedActor := controllerId
  requestedInterface := controllerInterface
  requestedDevice := ""
  reason := repair.reason
  input := ⟨resource.generation, none⟩

/-- The declaration a repair names, where it is switched on. -/
def repairable? (db : Database) (repair : Repair) : Option ManagedResource :=
  db.resources.find? fun resource => resource.key == repair.resourceKey && resource.enabled

/-- The loop of `_finding_repairs`. -/
def queueRepairs (env : Environment) (began now : Moment) (controllerId : String) :
    List Repair → Database → Except Raised Database
  | [], db => .ok db
  | repair :: repairs, db =>
      match repairable? db repair with
      | none => queueRepairs env began now controllerId repairs db
      | some resource =>
          if env.observesOnly resource.kind resource.spec then
            queueRepairs env began now controllerId repairs db
          else
            match enqueue now (repairAsk env began controllerId repair resource) db with
            | .error raised => .error raised
            | .ok (stored, _) => queueRepairs env began now controllerId repairs stored

/-- `_finding_repairs`, one transaction. -/
def findingRepairs (env : Environment) (began now : Moment) (controllerId : String)
    (db : Database) : Except Raised Database :=
  if env.findingsAutoRemedy then
    queueRepairs env began now controllerId (env.autoRemediable db) db
  else
    .ok db

end SeverinoHQ.ControlPlane
