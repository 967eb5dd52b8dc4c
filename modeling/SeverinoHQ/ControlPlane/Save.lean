/-
# Saving a declaration

`save_managed_resource` writes one declaration in one transaction: the row, the
cancelling of what waited for a declaration switched off, the declarations
whose resolution moved with it, and the reconcile that applies it. The row a
later part of the transaction holds is the one saved first: where the
dependents' pass moves that same row on, the queued reconcile still carries the
generation of the save.
-/

import SeverinoHQ.ControlPlane.Queue

namespace SeverinoHQ.ControlPlane

open SeverinoHQ.Math

/-! ## Desired state -/

/-- `desired_fingerprint`: of the authored spec, and of what it resolves to
where that differs. A spec that does not resolve stands for itself. -/
def desiredFingerprint (env : Environment) (db : Database) (key kind : String) (spec : Json)
    (enabled : Bool) : String :=
  let resolved :=
    match env.resolveProviderSpec db key kind spec with
    | .ok resolved => resolved
    | .error _ => spec
  env.digest <| .obj <|
    [("enabled", .bool enabled), ("kind", .str kind)]
      ++ (if resolved ≠ spec then [("resolved", resolved)] else [])
      ++ [("spec", spec)]

/-- `full_clean`: the fields, the unique key and the two generation rules. -/
def fullClean (env : Environment) (db : Database) (resource : ManagedResource) :
    Except Raised Unit :=
  match env.fieldErrors resource with
  | some text => .error (.validationError text)
  | none =>
      if db.resources.any fun other => other.key == resource.key && other.id != resource.id then
        .error (.validationError "Managed resource with this Key already exists.")
      else if resource.generation < 1 then
        .error (.validationError "A generation starts at 1.")
      else if resource.generation < resource.observedGeneration then
        .error (.validationError "A resource is observed at a generation it has reached.")
      else
        .ok ()

/-- `resource.save()` of a stored row. -/
def Database.saveResource (db : Database) (resource : ManagedResource) : Database :=
  db.updateResources (fun row => row.id == resource.id) fun _ => resource

/-- What `advance_dependents` makes of one row, and none where its fingerprint
stands. A row never fingerprinted takes its fingerprint and no new generation. -/
def advanced (env : Environment) (now : Moment) (db : Database) (resource : ManagedResource) :
    Option ManagedResource :=
  let fingerprint :=
    desiredFingerprint env db resource.key resource.kind resource.spec resource.enabled
  if fingerprint == resource.desiredFingerprint then
    none
  else
    some { resource with
      desiredFingerprint := fingerprint
      generation :=
        if resource.desiredFingerprint ≠ "" then resource.generation + 1 else resource.generation
      updatedAt := now }

/-- The loop of `advance_dependents`, over the rows it read at its start. -/
def advanceRows (env : Environment) (now : Moment) :
    List ManagedResource → Database → Except Raised Database
  | [], db => .ok db
  | resource :: resources, db =>
      match advanced env now db resource with
      | none => advanceRows env now resources db
      | some moved => do
          fullClean env db moved
          advanceRows env now resources (db.saveResource moved)

/-- `advance_dependents`. -/
def advanceDependents (env : Environment) (now : Moment) (db : Database) :
    Except Raised Database :=
  advanceRows env now (db.resources.filter fun resource => resource.enabled) db

/-! ## The save -/

/-- `ManagedResourceCommand`. -/
structure ManagedResourceCommand where
  key : String
  kind : String
  spec : Json
  enabled : Bool
  deriving DecidableEq, Repr

/-- The fields of the command. -/
inductive CommandField where
  | key
  | kind
  | spec
  | enabled
  deriving DecidableEq, Repr

/-- The command an update writes: the fields its caller sent, over the record. -/
def written (command : ManagedResourceCommand) (sent : Option (List CommandField))
    (resource : ManagedResource) : ManagedResourceCommand where
  key := if sent.all (·.contains .key) then command.key else resource.key
  kind := if sent.all (·.contains .kind) then command.kind else resource.kind
  spec := if sent.all (·.contains .spec) then command.spec else resource.spec
  enabled := if sent.all (·.contains .enabled) then command.enabled else resource.enabled

/-- `held`: the record a key names, as the caller last read it. -/
def held (db : Database) (key : String) (expectedUpdatedAt : Option Moment) :
    Except Raised ManagedResource :=
  match db.resourceNamed? key with
  | none => .error (.recordNotFound "That record was not found.")
  | some resource =>
      if expectedUpdatedAt.all (· == resource.updatedAt) then
        .ok resource
      else
        .error (.recordConflict "That record changed after it was read.")

/-- `_refuse_authored`. -/
def refuseAuthored (env : Environment) (command : ManagedResourceCommand) (validated : Json)
    (principal : Principal) : Except Raised Unit :=
  if env.consentGap command.kind principal ≠ "" then
    .error (.policyError (env.consentGap command.kind principal))
  else if !command.enabled then
    .ok ()
  else if env.publicEffect command.kind && env.canChangeThePublicInternet command.kind
      && !env.publicDnsEnabled then
    .error (.policyError ("Public DNS changes are off in HQ's settings. Turn them on there "
      ++ "to allow them, or save this record switched off."))
  else if env.observesOnly command.kind validated then
    .error (.policyError
      "This connection only reads. Its setup guide says how to let HQ make changes through it.")
  else
    .ok ()

/-- A `ManagedResource()` not saved yet, under the id its insert takes. -/
def blankResource (db : Database) (now : Moment) : ManagedResource where
  id := db.serial
  key := ""
  kind := ""
  spec := .obj []
  enabled := true
  desiredFingerprint := ""
  generation := 1
  observedGeneration := 0
  status := .obj []
  conditions := []
  lastObservedAt := none
  updatedAt := now

/-- One call of `save_managed_resource`. -/
structure SaveCall where
  command : ManagedResourceCommand
  principal : Principal
  currentKey : Option String
  expectedUpdatedAt : Option Moment
  copiedFromLive : Bool
  sent : Option (List CommandField)
  deriving DecidableEq, Repr

/-- The row a save writes, once every check has passed. -/
structure PreparedSave where
  created : Bool
  changed : Bool
  resource : ManagedResource
  deriving DecidableEq, Repr

/-- The record a save starts from: a blank one, or the one held under its key. -/
def SaveCall.start (call : SaveCall) (now : Moment) (db : Database) :
    Except Raised ManagedResource :=
  match call.currentKey with
  | none => .ok (blankResource db now)
  | some key => held db key call.expectedUpdatedAt

/-- The command a save writes: as called for a create, as sent for an update. -/
def SaveCall.effective (call : SaveCall) (resource : ManagedResource) : ManagedResourceCommand :=
  match call.currentKey with
  | none => call.command
  | some _ => written call.command call.sent resource

/-- The fields a save sets on the record it holds. -/
def declared (env : Environment) (now : Moment) (db : Database) (created : Bool)
    (resource : ManagedResource) (command : ManagedResourceCommand) (validated : Json) :
    PreparedSave :=
  let changed := created || resource.key != command.key || resource.kind != command.kind
    || resource.spec != validated || resource.enabled != command.enabled
  { created := created
    changed := changed
    resource := { resource with
      key := command.key
      kind := command.kind
      spec := validated
      enabled := command.enabled
      desiredFingerprint :=
        desiredFingerprint env db command.key command.kind validated command.enabled
      generation :=
        if !created && changed then resource.generation + 1 else resource.generation
      updatedAt := now } }

/-- `save_managed_resource` up to its first write. -/
def prepareSave (env : Environment) (now : Moment) (call : SaveCall) (db : Database) :
    Except Raised PreparedSave := do
  let resource ← call.start now db
  let command := call.effective resource
  if env.specWithheld command.kind || env.specWithheld resource.kind then
    throw (.policyError "This record is changed from its own page, not here.")
  let validated ← env.validateSpec command.kind command.spec
  if !call.copiedFromLive then
    refuseAuthored env command validated call.principal
  let prepared := declared env now db call.currentKey.isNone resource command validated
  fullClean env db prepared.resource
  return prepared

/-- An operation called off before it ran. -/
def calledOff (now : Moment) (operation : OperationRequest) : OperationRequest :=
  { operation with
    state := .cancelled
    completedAt := some now
    result := .obj [("message", .str "The record was switched off in HQ before this ran."),
      ("ok", .bool false), ("reason", .str "SwitchedOff")]
    updatedAt := now }

/-- Whether an operation waits for a declaration, other than to remove it. -/
def OperationRequest.waitsFor (operation : OperationRequest) (resource : Id) : Bool :=
  operation.resource == resource && operation.state == .queued && operation.action != .delete

/-- `_call_off_waiting`: the queued work of a declaration switched off ends, all
but its removal. -/
def callOffWaiting (now : Moment) (resource : Id) (db : Database) : Database :=
  db.updateOperations (·.waitsFor resource) (calledOff now)

/-- The first writes of a save: the row, and what waited where it is now off. -/
def writeSaved (now : Moment) (prepared : PreparedSave) (db : Database) : Database :=
  if prepared.created then
    { db with serial := db.serial + 1, resources := db.resources ++ [prepared.resource] }
  else if prepared.resource.enabled then
    db.saveResource prepared.resource
  else
    callOffWaiting now prepared.resource.id (db.saveResource prepared.resource)

/-- `_apply_saved`. -/
def applySaved (env : Environment) (now : Moment) (resource : ManagedResource)
    (principal : Principal) (db : Database) : Except Raised Database :=
  if !resource.enabled || !env.automatic.contains (resource.kind, .reconcile) then
    .ok db
  else
    (queueReconcile env now resource principal "HQ's copy of it changed." db).map Queued.db

/-- The dependents' pass of a save that changed what others resolve to. -/
def advanceAfter (env : Environment) (now : Moment) (prepared : PreparedSave) (db : Database) :
    Except Raised Database :=
  if prepared.changed && env.resolutionInput prepared.resource.kind then
    advanceDependents env now db
  else
    .ok db

/-- The reconcile of a save that changed something authored. -/
def applyAfter (env : Environment) (now : Moment) (call : SaveCall) (prepared : PreparedSave)
    (db : Database) : Except Raised Database :=
  if prepared.changed && !call.copiedFromLive then
    applySaved env now prepared.resource call.principal db
  else
    .ok db

/-- `save_managed_resource`, one transaction. -/
def saveManagedResource (env : Environment) (now : Moment) (call : SaveCall) (db : Database) :
    Except Raised (PreparedSave × Database) := do
  let prepared ← prepareSave env now call db
  let moved ← advanceAfter env now prepared (writeSaved now prepared db)
  let applied ← applyAfter env now call prepared moved
  return (prepared, applied)

/-! ## Stopping to manage a declaration -/

/-- `_forget_declaration`, one transaction: the declaration and those it holds
go, unless an operation still refers to one of them. -/
def forgetDeclaration (env : Environment) (now : Moment) (resource : ManagedResource)
    (db : Database) : Except Raised Database :=
  let gone : ManagedResource → Bool := fun row => row.id == resource.id || env.contains resource row
  if db.resources.any fun row =>
      gone row && db.operations.any fun operation => operation.resource == row.id then
    .error .protectedError
  else
    let stored := { db with resources := Table.delete db.resources gone }
    if env.resolutionInput resource.kind then advanceDependents env now stored else .ok stored

end SeverinoHQ.ControlPlane
