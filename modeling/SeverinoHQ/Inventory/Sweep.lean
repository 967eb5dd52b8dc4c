/-
# One sweep, stored

`record_sweep` is one transaction: what the controller read is stored, what it may take
on is adopted, the repositories it read become projects, declarations it found unchanged
are confirmed or marked as differing, and containers their machine no longer lists are
removed. Whatever any of these raises takes the whole sweep with it. The open problems
noted last are left out: nothing they raise reaches the sweep.
-/

import SeverinoHQ.Inventory.Adoption

namespace SeverinoHQ.Inventory

open SeverinoHQ.Math SeverinoHQ.ControlPlane

section Sweep

variable (registry : Registry) (env : Environment)

/-! ## Storing -/

/-- `update_or_create` of a kind's row: new records where the kind was reached. -/
def storeRecords (kind : String) (records : Option (List Json)) (db : Database) : Database :=
  if db.inventories.any fun row => row.kind == kind then
    let written : ProviderInventory → ProviderInventory := fun row =>
      { row with records := records.getD row.records }
    { db with inventories := Table.update db.inventories (fun row => row.kind == kind) written }
  else
    { db with inventories := db.inventories ++ [⟨kind, records.getD []⟩] }

/-- The records last stored for a kind. -/
def lastRecords (kind : String) (db : Database) : List Json :=
  ((db.inventories.find? fun row => row.kind == kind).map ProviderInventory.records).getD []

/-- The records of a report as they are stored: those the reading's schema keeps, with what
it takes from the last. -/
def keptRecords (kind : String) (report : KindReport) (db : Database) : List Json :=
  match registry.observations kind with
  | none => report.records
  | some observation => observation.fromLast (lastRecords kind db) (observation.clean report.records)

/-- One kind of `record_inventory`. A carried kind keeps its records, and a kind no
registry declares is ignored. -/
def recordReport (kind : String) (report : KindReport) (db : Database) : Database :=
  if (registry.providers kind).isNone && (registry.observations kind).isNone then db
  else if report.carried then db
  else storeRecords kind (if report.ok then some (keptRecords registry kind report db) else none) db

/-- `record_inventory`. -/
def recordInventory (payload : Payload) (db : Database) : Database :=
  payload.foldl (fun stored entry => recordReport registry entry.1 entry.2 stored) db

/-! ## Projects -/

/-- The repositories in the stored readings, by name. -/
def repositories (db : Database) : List String :=
  let rows := db.inventories.filter fun row => row.kind == repositoryKind
  let names := rows.flatMap fun row => row.records.filterMap fun record =>
    ((record.get? "repository").filter Json.truthy).map env.str
  names.dedup.insertionSort (· ≤ ·)

/-- What `sync_repositories` goes past. -/
def isUntaken : Raised → Bool
  | .validationError _ | .recordConflict _ | .recordNotFound _ => true
  | _ => false

/-- `Repository.short`. -/
def shortName (name : String) : String :=
  match name.toList.dropWhile (· != '/') with
  | [] => name
  | _ :: rest => String.ofList rest

/-- The loop of `sync_repositories`, with the keys already known and the projects that name
no repository. -/
def syncNames : List String → List String → List Project → List Project →
    Except Raised (List Project)
  | [], _, _, projects => .ok projects
  | name :: names, known, unattached, projects => do
      let key ← registry.repositoryKey name
      if key = "" || known.contains key then
        syncNames names known unattached projects
      else
        let short := registry.lower (shortName name)
        let isNamed : Project → Bool := fun project => registry.lower project.slug == short
        let others := unattached.filter fun project => !isNamed project
        match registry.takeOn projects name (unattached.reverse.find? isNamed) with
        | .ok stored => syncNames names (key :: known) others stored
        | .error raised =>
            if isUntaken raised then syncNames names known others projects else throw raised

/-- `sync_repositories`. -/
def syncRepositories (tables : Tables) : Except Raised Tables := do
  let attached := tables.projects.filter fun project => project.repositoryUrl != ""
  let known ← attached.mapM fun project => registry.repositoryKey project.repositoryUrl
  let unattached := tables.projects.filter fun project => project.repositoryUrl == ""
  let projects ← syncNames registry (repositories env tables.db) known unattached tables.projects
  return { tables with projects }

/-! ## Confirming -/

/-- Line ends as every provider returns them. -/
def unixLines : List Char → List Char
  | '\r' :: '\n' :: rest => '\n' :: unixLines rest
  | '\r' :: rest => '\n' :: unixLines rest
  | char :: rest => char :: unixLines rest
  | [] => []

/-- `_text`. -/
def settledText (value : Json) : String :=
  registry.canonicalDocument (String.ofList (unixLines (env.str value).toList))

/-- The members of a document. -/
def membersOf : Json → List (String × Json)
  | .obj members => members
  | _ => []

/-- `_differences`: each field the live record contradicts, as asked for and as found. -/
def differences (kind : String) (declared found : Json) : List (String × String × String) :=
  let unobservable := ((registry.providers kind).map ProviderSpec.unobservableFields).getD []
  (membersOf declared).filterMap fun member =>
    match found.get? member.1 with
    | none => none
    | some live =>
        if unobservable.contains member.1 || settledText registry env live == settledText registry env member.2
        then none
        else some (member.1, env.str member.2, env.str live)

/-- `_difference_condition`: the thing's own report, or a change made outside HQ. -/
def differenceCondition (kind : String) (drift : List (String × String × String)) : Condition :=
  let reportedFields := ((registry.providers kind).map ProviderSpec.reportedFields).getD []
  if drift.all fun difference => reportedFields.contains difference.1 then
    ⟨"Degraded", true, "Reported", registry.differenceMessage kind drift, none⟩
  else
    ⟨"Drifted", true, "Drifted", registry.differenceMessage kind drift, none⟩

/-- `_record_drift`. -/
def recordDrift (now : Moment) (drift : List (String × String × String)) (row : ManagedResource) :
    ManagedResource :=
  { row with conditions := stamped row.conditions [differenceCondition registry row.kind drift] now }

/-- `_observe`, and the moment the rest of a sweep's confirmed take. -/
def observe (now : Moment) (found : Json) (row : ManagedResource) : ManagedResource :=
  { row with
    observedGeneration := row.generation
    lastObservedAt := some now
    status := found
    conditions := stamped row.conditions [⟨"Ready", true, "Observed", "Matches HQ's config.", none⟩] now }

/-- `_live_specs`: each record as the spec of a declaration of it; the last of an identity counts. -/
def liveSpecs (kind : String) (records : List Json) : List (List Json × Json) :=
  ((records.filterMap (registry.recordSpec kind)).map fun spec =>
    (registry.recordIdentity kind spec, spec)).reverse

/-- The live record of a declaration. -/
def liveOf (live : List (List Json × Json)) (identity : List Json) : Option Json :=
  (live.find? fun entry => entry.1 == identity).map Prod.snd

/-- What a sweep makes of a declaration of a kind it read. -/
def confirmed (now : Moment) (live : List (List Json × Json)) (row : ManagedResource) :
    ManagedResource :=
  match liveOf live (registry.recordIdentity row.kind row.spec) with
  | none => row
  | some found =>
      let drift := differences registry env row.kind row.spec found
      if drift.isEmpty then observe now found row else recordDrift registry now drift row

/-- One kind of `confirm_observed`. -/
def confirmKind (now : Moment) (kind : String) (report : KindReport) (db : Database) :
    Except Raised Database :=
  let live := liveSpecs registry kind report.records
  let isConfirmed : ManagedResource → Bool := fun row => row.kind == kind && row.enabled
  if (registry.providers kind).isNone || !report.ok then
    .ok db
  else if live.any fun entry => !entry.1.all isHashable then
    .error .typeError
  else if live.isEmpty then
    .ok db
  else if db.resources.any fun row =>
      isConfirmed row && !(registry.recordIdentity kind row.spec).all isHashable then
    .error .typeError
  else
    .ok (db.updateResources isConfirmed (confirmed registry env now live))

/-- `confirm_observed`. -/
def confirmObserved (now : Moment) (payload : Payload) (db : Database) : Except Raised Database :=
  payload.foldlM (fun stored entry => confirmKind registry env now entry.1 entry.2 stored) db

/-! ## Retiring -/

/-- Whether a complete listing says a container is gone: its machine is listed, it is not,
and it does not come and go by design. -/
def isDeparted (listed : List (Json × Json)) (row : ManagedResource) : Bool :=
  let identity := containerIdentity row.spec
  row.kind == containerKind && (listed.map Prod.fst).contains identity.1 && !listed.contains identity
    && !(row.spec.get? "on_demand").any Json.truthy

/-- `resource.delete()`: the database protects a row that operations refer to. -/
def deleteResource (row : ManagedResource) (db : Database) : Except Raised Database :=
  if db.operations.any fun operation => operation.resource == row.id then
    .error .protectedError
  else
    .ok { db with resources := Table.delete db.resources fun other => other.id == row.id }

/-- The loop of `retire_departed`, over the containers it read at its start. -/
def retireEach (listed : List (Json × Json)) :
    List ManagedResource → Database → Except Raised (List String × Database)
  | [], db => .ok ([], db)
  | row :: rows, db =>
      if !isDeparted listed row then
        retireEach listed rows db
      else do
        let stored ← deleteResource row db
        let (retired, final) ← retireEach listed rows stored
        return (row.key :: retired, final)

/-- Whether two values can stand in a set. -/
def bothHashable (pair : Json × Json) : Bool := isHashable pair.1 && isHashable pair.2

/-- The containers a listing holds, where the listing is complete. -/
def completeListing (payload : Payload) : Option (List (Json × Json)) := do
  let report ← payload.report? containerKind
  if !report.ok || !report.refusedParts.isEmpty || report.records.isEmpty then none
  else
    let specs ← report.records.mapM (registry.recordSpec containerKind)
    return specs.map containerIdentity

/-- `retire_departed`. -/
def retireDeparted (payload : Payload) (db : Database) : Except Raised (List String × Database) :=
  match completeListing registry payload with
  | none => .ok ([], db)
  | some listed =>
      let containers := db.resources.filter fun row => row.kind == containerKind
      if listed.any (fun pair => !bothHashable pair)
          || containers.any (fun row => !bothHashable (containerIdentity row.spec)) then
        .error .typeError
      else
        retireEach listed containers db

/-! ## The whole -/

/-- `settle_read_requests`. -/
def settleReadRequests (now : Moment) (db : Database) : Database :=
  { db with readRequests := db.readRequests.filter (registry.isForced db now) }

/-- The kinds `_adoptable_kinds` finds unadopted, but for records of a domain. -/
def adoptableKinds (tables : Tables) : Except Raised (List String) :=
  (unmanaged registry env tables).map fun items =>
    ((items.map Unmanaged.kind).filter (· ≠ recordKind)).dedup.insertionSort (· ≤ ·)

/-- The kinds of a sweep, adopted one after another. -/
def adoptKinds (now : Moment) : List String → Tables → Except Raised (List Adopted × Tables)
  | [], tables => .ok ([], tables)
  | kind :: kinds, tables => do
      let (adopted, stored) ← adoptDiscovered registry env now kind tables
      let (others, final) ← adoptKinds now kinds stored
      return (adopted ++ others, final)

/-- What a sweep answers, and the tables it commits. -/
structure Recorded where
  adopted : List Adopted
  retired : List String
  tables : Tables
  deriving DecidableEq, Repr

/-- The tables a sweep has stored and adopted into, when it comes to records of domains. -/
def storedAndAdopted (now : Moment) (payload : Payload) (tables : Tables) :
    Except Raised (List Adopted × Tables) := do
  let stored := { tables with db := recordInventory registry payload tables.db }
  let kinds ← adoptableKinds registry env stored
  adoptKinds registry env now kinds stored

/-- The projects of a sweep that read repositories. -/
def syncAfter (payload : Payload) (tables : Tables) : Except Raised Tables :=
  if (payload.report? repositoryKind).isSome then syncRepositories registry env tables else .ok tables

/-- `record_sweep`, one transaction. -/
def recordSweep (now : Moment) (payload : Payload) (tables : Tables) : Except Raised Recorded := do
  let (adopted, taken) ← storedAndAdopted registry env now payload tables
  let (records, complete) ← adoptDiscoveredRecords registry env now taken
  let synced ← syncAfter registry env payload complete
  let db ← confirmObserved registry env now payload synced.db
  let (retired, final) ← retireDeparted registry payload db
  return ⟨adopted ++ records, retired, { synced with db := settleReadRequests registry now final }⟩

end Sweep

/-! ## Everything at once -/

/-- The control plane, its connections, and what an operator left out. -/
structure Estate where
  world : World
  connections : List ProviderConnection
  notManaged : List NotManaged
  projects : List Project
  deriving DecidableEq, Repr

namespace Estate

/-- An estate before anything happened. -/
def start (now : Moment) : Estate := ⟨.start now, [], [], []⟩

/-- The tables of an estate. -/
def tables (estate : Estate) : Tables :=
  ⟨estate.world.db, estate.connections, estate.notManaged, estate.projects⟩

/-- An estate with the tables a transaction commits. -/
def store (estate : Estate) (tables : Tables) : Estate :=
  ⟨{ estate.world with db := tables.db }, tables.connections, tables.notManaged, tables.projects⟩

end Estate

/-- What can happen. -/
inductive Happening where
  /-- An event of the control plane, a declaration forgotten among them. -/
  | control (event : Event)
  /-- `record_connections`. -/
  | connect (connections : List ProviderConnection)
  /-- `record_sweep`. -/
  | sweep (env : Environment) (payload : Payload)
  /-- `adopt`, by an operator. -/
  | adopt (env : Environment) (principal : Principal) (command : AdoptCommand)
  /-- `adopt_zone`, by an operator: a domain, then its records. -/
  | adoptZone (env : Environment) (principal : Principal) (zone token : String)

namespace Estate

variable (registry : Registry)

/-- A call finds the connections as they are stored. -/
def found (estate : Estate) (env : Environment) : Environment :=
  { env with observesOnly := observesOnly registry env estate.connections }

/-- The declaration an event of the control plane forgets, where it commits. -/
def forgotten? (world : World) (event : Event) : Option ManagedResource :=
  let committed : ManagedResource → Option ManagedResource := fun resource =>
    match forgetDeclaration event.env world.now resource world.db with
    | .ok _ => some resource
    | .error _ => none
  match event.call with
  | .forget resource => committed resource
  | .requestRemoval command principal key =>
      match askRemoval event.env command principal key world.db with
      | .ok (.forget resource) => committed resource
      | _ => none
  | _ => none

/-- An event of the control plane; what it forgets is kept out. -/
def control (estate : Estate) (event : Event) : Estate :=
  match forgotten? estate.world event with
  | none => { estate with world := estate.world.step event }
  | some resource =>
      match keepOutDeclaration registry resource.kind resource.spec estate.notManaged with
      | .ok rows => { estate with world := estate.world.step event, notManaged := rows }
      | .error _ => estate

/-- `adopt_zone`: the domain stands whatever happens to its records. -/
def adoptZone (env : Environment) (principal : Principal) (zone token : String) (estate : Estate) :
    Except Raised (List Adopted × Tables) := do
  let (declared, tables) ← Inventory.adopt registry env estate.world.now principal
    ⟨zoneKind, "", "", token⟩ estate.tables
  match adoptZoneRecords registry env estate.world.now principal
      (registry.normalizedHostname zone) tables with
  | .ok (records, final) => return (declared :: records, final)
  | .error (.recordNotFound _) | .error (.policyError _) | .error (.validationError _) =>
      return ([declared], tables)
  | .error raised => throw raised

/-- One step. -/
def step (estate : Estate) : Happening → Estate
  | .control event => estate.control registry { event with env := estate.found registry event.env }
  | .connect connections => { estate with connections }
  | .sweep env payload =>
      match recordSweep registry (estate.found registry env) estate.world.now payload estate.tables with
      | .ok recorded => estate.store recorded.tables
      | .error _ => estate
  | .adopt env principal command =>
      match Inventory.adopt registry (estate.found registry env) estate.world.now principal command
          estate.tables with
      | .ok (_, tables) => estate.store tables
      | .error _ => estate
  | .adoptZone env principal zone token =>
      match estate.adoptZone registry (estate.found registry env) principal zone token with
      | .ok (_, tables) => estate.store tables
      | .error _ => estate

end Estate

end SeverinoHQ.Inventory
