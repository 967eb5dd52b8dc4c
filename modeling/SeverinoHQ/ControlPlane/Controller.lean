/-
# Leases and reports

A controller claims the oldest queued operation it can be told about, holds it
under a lease and reports how it ended. A claim is one transaction. A report is
not: it reads the operation, checks it, and then makes each of its writes by
itself, so it is modelled as the writes it still has to make.
-/

import SeverinoHQ.ControlPlane.Save
import Mathlib.Data.List.Sort

namespace SeverinoHQ.ControlPlane

open SeverinoHQ.Math

/-! ## Claims -/

/-- Whether releasing a lapsed lease ends the work: its declaration is off, and
it is no removal. -/
def Database.endsOnRelease (db : Database) (operation : OperationRequest) : Bool :=
  operation.action != .delete &&
    db.resources.any fun resource => resource.id == operation.resource && !resource.enabled

/-- Whether an operation is claimed under a lease that has run out. -/
def OperationRequest.isLapsed (operation : OperationRequest) (now : Moment) : Bool :=
  operation.state == .claimed && operation.leaseExpiresAt.any fun expires => expires ≤ now

/-- What releasing a lapsed lease makes of an operation. -/
def released (db : Database) (now : Moment) (operation : OperationRequest) : OperationRequest :=
  if db.endsOnRelease operation then
    { operation with
      state := .cancelled
      completedAt := some now
      result := .obj [("message", .str ("The record was switched off in HQ, and its lease ran out "
          ++ "before it reported.")), ("ok", .bool false), ("reason", .str "SwitchedOff")]
      claimedBy := ""
      claimedAt := none
      leaseExpiresAt := none }
  else
    { operation with
      state := .queued
      completedAt := none
      claimedBy := ""
      claimedAt := none
      leaseExpiresAt := none }

/-- `_release_lapsed`, one statement. -/
def releaseLapsed (now : Moment) (db : Database) : Database :=
  db.updateOperations (·.isLapsed now) (released db now)

/-- `_compatible_operations`, for one operation. -/
def Database.isCompatible (db : Database) (capabilities : List (String × Action))
    (operation : OperationRequest) : Bool :=
  capabilities.isEmpty || capabilities.any fun capability =>
    operation.action == capability.2 &&
      (db.resource? operation.resource).any fun resource => resource.kind == capability.1

/-- The public part of a status. -/
def serializePublicStatus (status : Json) : Json :=
  match status with
  | .obj members =>
      .obj ((members.filter fun member => member.1 != "certificate_pem")
        ++ if (status.get? "certificate_pem").any Json.truthy
            then [("certificate_available", .bool true)] else [])
  | other => other

/-- What a controller is told to make true. -/
structure Contract where
  key : String
  kind : String
  generation : Nat
  enabled : Bool
  spec : Json
  observed : Json
  deriving DecidableEq, Repr

/-- `controller_contract`, from the row as it stands at the claim. -/
def controllerContract (env : Environment) (db : Database) (resource : ManagedResource) :
    Except Raised Contract :=
  (env.resolveProviderSpec db resource.key resource.kind resource.spec).map fun spec => {
    key := resource.key
    kind := resource.kind
    generation := resource.generation
    enabled := resource.enabled
    spec := spec
    observed := serializePublicStatus resource.status }

/-- The text of what resolving a spec raised. -/
def Raised.text : Raised → String
  | .valueError text | .policyError text | .recordNotFound text | .recordConflict text
  | .validationError text | .integrityError text | .databaseError text => text
  | .protectedError => "ProtectedError"
  | .attributeError => "AttributeError"
  | .typeError => "TypeError"

/-- An operation HQ cannot describe. -/
def unresolvable (now : Moment) (raised : Raised) (operation : OperationRequest) :
    OperationRequest :=
  { operation with
    state := .failed
    completedAt := some now
    result := .obj [("message", .str raised.text), ("ok", .bool false),
      ("reason", .str "Unresolvable")]
    updatedAt := now }

/-- An operation HQ cannot describe ends failed. -/
def failUnresolvable (now : Moment) (operation : Id) (raised : Raised) (db : Database) : Database :=
  db.updateOperations (fun row => row.id == operation) (unresolvable now raised)

/-- `_next_resolvable`: the first operation HQ can describe, failing those before it. -/
def nextResolvable (env : Environment) (now : Moment) :
    List OperationRequest → Database → Database × Option (OperationRequest × Contract)
  | [], db => (db, none)
  | operation :: operations, db =>
      match db.resource? operation.resource with
      | none => nextResolvable env now operations db
      | some resource =>
          match controllerContract env db resource with
          | .ok contract => (db, some (operation, contract))
          | .error raised =>
              nextResolvable env now operations (failUnresolvable now operation.id raised db)

/-- The queue a claim reads: the queued operations of askers nothing holds, that
the controller can apply, oldest first. -/
def claimable (env : Environment) (capabilities : List (String × Action)) (db : Database) :
    List OperationRequest :=
  (db.operations.filter fun operation => operation.state == .queued && !env.heldAskers operation
    && db.isCompatible capabilities operation).insertionSort
      fun first second => first.createdAt ≤ second.createdAt

/-- The lease a claim writes. -/
def lease (now : Moment) (controllerId : String) (leaseSeconds : Int)
    (operation : OperationRequest) : OperationRequest :=
  { operation with
    state := .claimed
    claimedBy := controllerId
    claimedAt := some now
    leaseExpiresAt := some (now + seconds leaseSeconds)
    attemptCount := operation.attemptCount + 1
    updatedAt := now }

/-- What a claim answers: the operation as leased, and its contract. -/
structure Claimed where
  operation : OperationRequest
  contract : Contract
  deriving DecidableEq, Repr

/-- One call of `claim_next_operation`. -/
structure ClaimCall where
  controllerId : String
  leaseSeconds : Int
  capabilities : List (String × Action)
  deriving DecidableEq, Repr

/-- What a claim picks, after it has released what lapsed. -/
def pickClaim (env : Environment) (now : Moment) (call : ClaimCall) (db : Database) :
    Database × Option (OperationRequest × Contract) :=
  nextResolvable env now (claimable env call.capabilities (releaseLapsed now db))
    (releaseLapsed now db)

/-- `claim_next_operation`, one transaction. -/
def claimNextOperation (env : Environment) (now : Moment) (call : ClaimCall) (db : Database) :
    Except Raised (Database × Option Claimed) :=
  if call.leaseSeconds < 30 ∨ 3600 < call.leaseSeconds then
    .error (.valueError "Lease duration must be between 30 and 3600 seconds.")
  else if call.controllerId = "" then
    .error (.valueError "A claim names the controller making it.")
  else
    match pickClaim env now call db with
    | (stored, none) => .ok (stored, none)
    | (stored, some (operation, contract)) =>
        .ok (stored.updateOperations (fun row => row.id == operation.id)
            (lease now call.controllerId call.leaseSeconds),
          some ⟨lease now call.controllerId call.leaseSeconds operation, contract⟩)

/-! ## Reports -/

/-- `ControllerReport`. -/
structure ControllerReport where
  success : Bool
  observedGeneration : Int
  status : Json
  conditions : List Condition
  message : String
  deriving DecidableEq, Repr

/-- The writes a report makes, each its own statement. -/
inductive ReportWrite where
  | saveOperation
  | saveResource
  | confirmTargets
  | readBack
  | deleteOperations
  | strikeInventory
  | deleteResource
  deriving DecidableEq, Repr

/-- A report that was accepted: the rows as it read them. -/
structure Reporting where
  operation : OperationRequest
  resource : ManagedResource
  report : ControllerReport
  deriving DecidableEq, Repr

/-- `report_operation` up to its first write. -/
def acceptReport (now : Moment) (operationId : Id) (report : ControllerReport)
    (controllerId : String) (db : Database) : Except Raised Reporting :=
  match db.operation? operationId with
  | none => .error (.valueError ("Operation '" ++ toString operationId ++ "' was not found."))
  | some operation =>
      match db.resource? operation.resource with
      | none => .error (.valueError ("Operation '" ++ toString operationId ++ "' was not found."))
      | some resource =>
          if operation.state ≠ .claimed then
            .error (.valueError ("Operation is '" ++ operation.state.value ++ "', not claimed."))
          else if operation.claimedBy ≠ controllerId then
            .error (.valueError "Operation is leased by a different controller.")
          else if operation.isLapsed now then
            .error (.valueError "Operation lease has expired.")
          else if report.observedGeneration ≠ operation.input.generation then
            .error (.valueError
              "Report generation does not match the operation's requested generation.")
          else
            .ok ⟨operation, resource, report⟩

/-- The statements of `_settle_report`, in order. -/
def Reporting.writes (env : Environment) (reporting : Reporting) : List ReportWrite :=
  [.saveOperation, .saveResource]
    ++ (if reporting.report.success then [.confirmTargets] else [])
    ++ (if reporting.operation.action.isLifecycle && env.swept reporting.resource.kind
        then [.readBack] else [])
    ++ (if reporting.report.success && reporting.operation.action == .delete
        then [.deleteOperations, .strikeInventory, .deleteResource] else [])

/-- `stamped`: each condition with the moment since when it holds the same way. -/
def stamped (previous conditions : List Condition) (now : Moment) : List Condition :=
  conditions.map fun condition => { condition with
    since := some <|
      ((previous.reverse.find? fun earlier => earlier.since.isSome
          && earlier.type == condition.type && earlier.status == condition.status).bind
        Condition.since).getD (condition.since.getD now) }

/-- A condition as stored in an operation's result. -/
def Condition.toJson (condition : Condition) : Json :=
  .obj [("message", .str condition.message), ("reason", .str condition.reason),
    ("status", .bool condition.status), ("type", .str condition.type)]

/-- The operation row a report saves: the fields it names, over the stored row. -/
def settled (now : Moment) (report : ControllerReport) (operation : OperationRequest) :
    OperationRequest :=
  { operation with
    result := .obj [("conditions", .arr (report.conditions.map Condition.toJson)),
      ("message", .str report.message), ("status", report.status)]
    completedAt := some now
    leaseExpiresAt := none
    state := if report.success then .succeeded else .failed
    updatedAt := now }

/-- The resource row a report saves: the fields it names, over the stored row.
The conditions are stamped against those the report read. -/
def recorded (now : Moment) (reporting : Reporting) (resource : ManagedResource) :
    ManagedResource :=
  let conditions := stamped reporting.resource.conditions reporting.report.conditions now
  if reporting.report.success then
    { resource with
      status := reporting.report.status
      conditions := conditions
      lastObservedAt := some now
      observedGeneration := reporting.report.observedGeneration.toNat
      updatedAt := now }
  else
    { resource with conditions := conditions, updatedAt := now }

@[simp]
theorem settled_id (now : Moment) (report : ControllerReport) (operation : OperationRequest) :
    (settled now report operation).id = operation.id := rfl

theorem settled_isActive (now : Moment) (report : ControllerReport) (operation : OperationRequest) :
    (settled now report operation).state.isActive = false := by
  rw [settled]
  cases report.success <;> rfl

@[simp]
theorem recorded_id (now : Moment) (reporting : Reporting) (resource : ManagedResource) :
    (recorded now reporting resource).id = resource.id := by
  rw [recorded]
  split <;> rfl

@[simp]
theorem recorded_kind (now : Moment) (reporting : Reporting) (resource : ManagedResource) :
    (recorded now reporting resource).kind = resource.kind := by
  rw [recorded]
  split <;> rfl

/-- The items a status lists under `consumers`: iterating what is no list, or
asking an item that is no object, raises. -/
def statusConsumers (status : Json) : Except Raised (List Json) :=
  match status.get? "consumers" with
  | none => .ok []
  | some (.arr items) =>
      if items.all fun item => item matches .obj _ then .ok items else .error .attributeError
  | some (.str text) => if text = "" then .ok [] else .error .attributeError
  | some (.obj members) => if members = [] then .ok [] else .error .attributeError
  | some _ => .error .typeError

/-- `resolved_spec`: the authored spec stands in for one that does not resolve. -/
def resolvedSpec (env : Environment) (db : Database) (resource : ManagedResource) : Json :=
  match env.resolveProviderSpec db resource.key resource.kind resource.spec with
  | .ok resolved => resolved
  | .error _ => resource.spec

/-- The consumers of a certificate's spec: the resolved form is validated to
list objects there, and the authored form has no such field. -/
def specConsumers (spec : Json) : List Json :=
  match spec.get? "consumers" with
  | some (.arr items) => items
  | _ => []

/-- The connections `_confirm_delivery_targets` reaches: those the verified
consumers name in the resolved spec. -/
def reachedConnections (env : Environment) (db : Database) (resource : ManagedResource)
    (status : Json) : Except Raised (List Json) :=
  if resource.kind ≠ certificateKind ∧ resource.kind ≠ uploadedCertificateKind then
    .ok []
  else
    (statusConsumers status).map fun items =>
      let verified := (items.filterMap fun item => item.get? "consumer").filter Json.truthy
      ((specConsumers (resolvedSpec env db resource)).filter fun consumer =>
          verified.any fun name => consumer.get? "name" == some (.str (env.str name))).filterMap
        fun consumer => (consumer.get? "connection_ref").filter Json.truthy

/-- A delivery target observed through its certificate. -/
def observedAt (now : Moment) (row : ManagedResource) : ManagedResource :=
  { row with lastObservedAt := some now, updatedAt := now }

/-- The delivery targets that name one of the connections were observed now. -/
def observeTargets (now : Moment) (reached : List Json) (db : Database) : Database :=
  db.updateResources
    (fun row => row.kind == deliveryTargetKind
      && (row.spec.get? "connection_ref").any reached.contains)
    (observedAt now)

/-- `strike_removed`. -/
def strikeRemoved (env : Environment) (resource : ManagedResource) (db : Database) : Database :=
  let strike : ProviderInventory → ProviderInventory := fun inventory => { inventory with
    records := inventory.records.filter fun record =>
      !env.isRecord resource.kind record resource.spec }
  { db with
    inventories := Table.update db.inventories
      (fun inventory => inventory.kind == resource.kind) strike }

/-- One write of a report, made at `now` against the rows as they stand. A save
of named fields raises where its row is gone, and a success writes the column
whose constraint compares it with the generation. -/
def performWrite (env : Environment) (now : Moment) (reporting : Reporting) (db : Database) :
    ReportWrite → Except Raised Database
  | .saveOperation =>
      if (db.operation? reporting.operation.id).isNone then
        .error (.databaseError "Save with update_fields did not affect any rows.")
      else
        .ok (db.updateOperations (fun row => row.id == reporting.operation.id)
          (settled now reporting.report))
  | .saveResource =>
      match db.resource? reporting.resource.id with
      | none => .error (.databaseError "Save with update_fields did not affect any rows.")
      | some resource =>
          if reporting.report.success
              ∧ resource.generation < reporting.report.observedGeneration.toNat then
            .error (.integrityError "resource_observed_no_later_than_declared")
          else
            .ok (db.updateResources (fun row => row.id == reporting.resource.id)
              (recorded now reporting))
  | .confirmTargets =>
      (reachedConnections env db reporting.resource reporting.report.status).map fun reached =>
        observeTargets now reached db
  | .readBack => .ok (requestReading now reporting.resource.kind db)
  | .deleteOperations =>
      .ok { db with
        operations := Table.delete db.operations
          (fun operation => operation.resource == reporting.resource.id) }
  | .strikeInventory => .ok (strikeRemoved env reporting.resource db)
  | .deleteResource =>
      if db.operations.any fun operation => operation.resource == reporting.resource.id then
        .error .protectedError
      else
        .ok { db with
          resources := Table.delete db.resources (fun row => row.id == reporting.resource.id) }

end SeverinoHQ.ControlPlane
