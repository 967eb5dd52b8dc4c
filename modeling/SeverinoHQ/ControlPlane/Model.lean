/-
# The control plane's stored records

Declared resources, the operations queued against them, what providers were
last seen holding and the readings asked for, with the constraints the database
itself keeps. The registry of providers, the settings and the other records a
call consults are one `Environment`, handed to each call: they may differ
between any two calls, and nothing here depends on what they say.
-/

import SeverinoHQ.Json
import SeverinoHQ.Math.Table

namespace SeverinoHQ.ControlPlane

open SeverinoHQ.Math

/-- An instant, in microseconds. -/
abbrev Moment := Int

/-- `timedelta(seconds=count)`. -/
def seconds (count : Int) : Moment := count * 1000000

/-- A primary key. The code draws UUIDs, which only ever have to differ. -/
abbrev Id := Nat

/-- What a call raises, with the sentence it says. -/
inductive Raised where
  | valueError (text : String)
  | policyError (text : String)
  | recordNotFound (text : String)
  | recordConflict (text : String)
  | validationError (text : String)
  | integrityError (constraint : String)
  | protectedError
  | databaseError (text : String)
  | attributeError
  | typeError
  deriving DecidableEq, Repr

/-- Who a call is made for. -/
structure Principal where
  actor : String
  interface : String
  device : String
  approvedBy : String
  deriving DecidableEq, Repr

/-! ## Rows -/

/-- `OperationRequest.Action`. -/
inductive Action where
  | reconcile
  | renew
  | delete
  | restart
  | start
  | stop
  | approveRoutes
  deriving DecidableEq, Repr

/-- The stored value of an action. -/
def Action.value : Action → String
  | .reconcile => "reconcile"
  | .renew => "renew"
  | .delete => "delete"
  | .restart => "restart"
  | .start => "start"
  | .stop => "stop"
  | .approveRoutes => "approve-routes"

/-- `LIFECYCLE_VERBS`. -/
def Action.isLifecycle : Action → Bool
  | .start | .stop | .restart => true
  | _ => false

/-- `OperationRequest.State`. -/
inductive OperationState where
  | queued
  | claimed
  | succeeded
  | failed
  | cancelled
  deriving DecidableEq, Repr

/-- The stored value of a state. -/
def OperationState.value : OperationState → String
  | .queued => "queued"
  | .claimed => "claimed"
  | .succeeded => "succeeded"
  | .failed => "failed"
  | .cancelled => "cancelled"

/-- The states the partial unique constraint counts as waiting or running. -/
def OperationState.isActive : OperationState → Bool
  | .queued | .claimed => true
  | _ => false

/-- One condition a report says holds, with the moment it began to hold. -/
structure Condition where
  type : String
  status : Bool
  reason : String
  message : String
  since : Option Moment
  deriving DecidableEq, Repr

/-- A declaration of something a provider holds. -/
structure ManagedResource where
  id : Id
  key : String
  kind : String
  spec : Json
  enabled : Bool
  desiredFingerprint : String
  generation : Nat
  observedGeneration : Nat
  status : Json
  conditions : List Condition
  lastObservedAt : Option Moment
  updatedAt : Moment
  deriving DecidableEq, Repr

/-- What an operation was asked with: the declaration's generation when it was
queued, and the person who agreed to it where one had to. -/
structure OperationInput where
  generation : Nat
  approvedBy : Option String
  deriving DecidableEq, Repr

/-- An operation asked of the controller. -/
structure OperationRequest where
  id : Id
  resource : Id
  action : Action
  state : OperationState
  requestedActor : String
  requestedInterface : String
  requestedDevice : String
  reason : String
  idempotencyKey : String
  input : OperationInput
  result : Json
  claimedBy : String
  claimedAt : Option Moment
  leaseExpiresAt : Option Moment
  attemptCount : Nat
  completedAt : Option Moment
  createdAt : Moment
  updatedAt : Moment
  deriving DecidableEq, Repr

/-- The list of records last read from one kind's provider. -/
structure ProviderInventory where
  kind : String
  records : List Json
  deriving DecidableEq, Repr

/-- A kind asked to be read on the controller's next run. -/
structure ReadRequest where
  kind : String
  requestedAt : Moment
  deriving DecidableEq, Repr

/-- The stored tables. `serial` counts the rows ever inserted, and gives each
new row an id that no row had before. -/
structure Database where
  serial : Nat
  resources : List ManagedResource
  operations : List OperationRequest
  inventories : List ProviderInventory
  readRequests : List ReadRequest
  deriving DecidableEq, Repr

/-- The tables before anything is declared. -/
def Database.empty : Database := ⟨0, [], [], [], []⟩

/-! ## What a call consults -/

/-- A finding the controller contract already repairs. -/
structure Repair where
  resourceKey : String
  rule : String
  reason : String
  deriving DecidableEq, Repr

/-- The provider registry, the settings, the brakes on agents and the readings
of other records, as one call finds them. -/
structure Environment where
  /-- `enabled_controller_actions(automatic_only=True)`. -/
  automatic : List (String × Action)
  /-- `controller_action_policy`: whether an action is allowed, and why or why not. -/
  controllerActionPolicy : String → Action → Bool × String
  publicEffect : String → Bool
  resolutionInput : String → Bool
  declarationOnly : String → Bool
  /-- Whether any controller action is enabled for a kind. -/
  canChangeThePublicInternet : String → Bool
  publicDnsEnabled : Bool
  specWithheld : String → Bool
  observesOnly : String → Json → Bool
  /-- `consent_gap`: why the principal needs a person's agreement, or `""`. -/
  consentGap : String → Principal → String
  validateSpec : String → Json → Except Raised Json
  /-- `resolve_provider_spec` over the stored records, for a key, a kind and a spec. -/
  resolveProviderSpec : Database → String → String → Json → Except Raised Json
  /-- `hashlib.sha256(...).hexdigest()` of a text or of a document's canonical text. -/
  digest : Json → String
  /-- Field validation of a declaration: what `full_clean` says against it. -/
  fieldErrors : ManagedResource → Option String
  /-- `agent_access.held_askers`. -/
  heldAskers : OperationRequest → Bool
  certificateExpiry : Json → Option Moment
  /-- `renewal_opens_at` of an expiry and the spec's renewal window. -/
  renewalOpensAt : Moment → Json → Moment
  /-- How long is left to an expiry, as a renewal that is allowed says it. -/
  remainingText : Moment → String
  /-- When a renewal opens, as a renewal that is not yet allowed says it. -/
  renewsFromText : Moment → Json → String
  unitGap : ManagedResource → String
  findingsAutoRemedy : Bool
  autoRemediable : Database → List Repair
  swept : String → Bool
  /-- `_is_record` against the identity of a declared spec. -/
  isRecord : String → Json → Json → Bool
  /-- Whether a declaration holds another, as its provider describes the tie. -/
  contains : ManagedResource → ManagedResource → Bool
  /-- `date().isoformat()`. -/
  dateText : Moment → String
  /-- Python's `str` of a JSON value. -/
  str : Json → String

/-- A small estate: every action of every kind is allowed, the controller
reconciles address rewrites and certificates and renews certificates on its own,
every spec is valid and resolves to itself, and nobody is held. -/
def sampleEnvironment : Environment where
  automatic := [("adguard.rewrite", .reconcile), ("tls.certificate", .reconcile),
    ("tls.certificate", .renew)]
  controllerActionPolicy _ _ := (true, "")
  publicEffect _ := false
  resolutionInput kind := kind == "tls.delivery_target"
  declarationOnly _ := false
  canChangeThePublicInternet _ := false
  publicDnsEnabled := false
  specWithheld _ := false
  observesOnly _ _ := false
  consentGap _ _ := ""
  validateSpec _ spec := .ok spec
  resolveProviderSpec _ _ _ spec := .ok spec
  digest _ := "digest"
  fieldErrors _ := none
  heldAskers _ := false
  certificateExpiry _ := none
  renewalOpensAt expiry _ := expiry
  remainingText _ := ""
  renewsFromText _ _ := ""
  unitGap _ := ""
  findingsAutoRemedy := false
  autoRemediable _ := []
  swept _ := false
  isRecord _ _ _ := false
  contains _ _ := false
  dateText _ := "2026-01-01"
  str
    | .str value => value
    | _ => ""

/-! ## Lookups and writes -/

namespace Database

/-- The operation under a primary key. -/
def operation? (db : Database) (id : Id) : Option OperationRequest :=
  db.operations.find? fun operation => operation.id == id

/-- The declaration under a primary key. -/
def resource? (db : Database) (id : Id) : Option ManagedResource :=
  db.resources.find? fun resource => resource.id == id

/-- The declaration stored under a key. -/
def resourceNamed? (db : Database) (key : String) : Option ManagedResource :=
  db.resources.find? fun resource => resource.key == key

/-- The operation an idempotency key was used for. -/
def operationKeyed? (db : Database) (key : String) : Option OperationRequest :=
  db.operations.find? fun operation => operation.idempotencyKey == key

/-- The waiting or running operation of a declaration and an action. -/
def active? (db : Database) (resource : Id) (action : Action) : Option OperationRequest :=
  db.operations.find? fun operation =>
    operation.resource == resource && operation.action == action && operation.state.isActive

/-- Rewrite the operations a condition selects. -/
def updateOperations (db : Database) (selects : OperationRequest → Bool)
    (write : OperationRequest → OperationRequest) : Database :=
  { db with operations := Table.update db.operations selects write }

/-- Rewrite the declarations a condition selects. -/
def updateResources (db : Database) (selects : ManagedResource → Bool)
    (write : ManagedResource → ManagedResource) : Database :=
  { db with resources := Table.update db.resources selects write }

end Database

theorem Database.mem_of_operation? {db : Database} {id : Id} {operation : OperationRequest}
    (h : db.operation? id = some operation) : operation ∈ db.operations ∧ operation.id = id :=
  ⟨List.mem_of_find?_eq_some h, by simpa using List.find?_some h⟩

theorem Database.mem_of_resource? {db : Database} {id : Id} {resource : ManagedResource}
    (h : db.resource? id = some resource) : resource ∈ db.resources ∧ resource.id = id :=
  ⟨List.mem_of_find?_eq_some h, by simpa using List.find?_some h⟩

theorem Database.mem_of_resourceNamed? {db : Database} {key : String} {resource : ManagedResource}
    (h : db.resourceNamed? key = some resource) :
    resource ∈ db.resources ∧ resource.key = key :=
  ⟨List.mem_of_find?_eq_some h, by simpa using List.find?_some h⟩

theorem Database.operation?_updateOperations {write : OperationRequest → OperationRequest}
    (hwrite : ∀ row, (write row).id = row.id) (db : Database)
    (selects : OperationRequest → Bool) (id : Id) :
    (db.updateOperations selects write).operation? id =
      (db.operation? id).map fun row => if selects row then write row else row :=
  Table.find?_update (fun row => by rw [hwrite row]) selects db.operations

theorem Database.resource?_updateResources {write : ManagedResource → ManagedResource}
    (hwrite : ∀ row, (write row).id = row.id) (db : Database)
    (selects : ManagedResource → Bool) (id : Id) :
    (db.updateResources selects write).resource? id =
      (db.resource? id).map fun row => if selects row then write row else row :=
  Table.find?_update (fun row => by rw [hwrite row]) selects db.resources

/-- No active operation is found exactly when none is stored. -/
theorem Database.active?_eq_none {db : Database} {resource : Id} {action : Action} :
    db.active? resource action = none ↔
      ∀ operation ∈ db.operations, operation.resource = resource → operation.action = action →
        operation.state.isActive = false := by
  simp only [Database.active?, List.find?_eq_none, Bool.and_eq_true, beq_iff_eq, not_and,
    Bool.not_eq_true, and_imp]

end SeverinoHQ.ControlPlane
