/-
# Taking on what a sweep found

`unmanaged` lists the records no declaration accounts for, `adopt` makes one of them a
declaration, and two loops adopt without being asked: one by kind, past what an operator
said HQ does not manage, and one by domain. A refusal inside either skips what was
refused; whatever else is raised goes through.
-/

import SeverinoHQ.Inventory.Registry
import Mathlib.Data.List.Sort

namespace SeverinoHQ.Inventory

open SeverinoHQ.Math SeverinoHQ.ControlPlane

/-! ## Which connections manage -/

/-- `_Management`: whether a record of a kind, read through a connection, may be adopted. -/
def managesThrough (registry : Registry) (connections : List ProviderConnection) (kind ref : String) :
    Bool :=
  if ref ≠ "" then
    connections.any fun row => row.connectionRef == ref && row.manages
  else
    match registry.providers kind with
    | none => false
    | some provider =>
        let found := connections.filter fun row => provider.connectionProviders.contains row.provider
        !found.isEmpty && found.all fun row => row.manages

/-- The connection a document names, and `""` where it names none. -/
def connectionRef (env : Environment) (document : Json) : String :=
  match document.get? "connection_ref" with
  | none => ""
  | some value => if value.truthy then env.str value else ""

/-- `observes_only`. -/
def observesOnly (registry : Registry) (env : Environment) (connections : List ProviderConnection)
    (kind : String) (spec : Json) : Bool :=
  match registry.providers kind with
  | none => false
  | some provider =>
      if provider.connectionProviders.isEmpty || provider.declarationOnly then false
      else !managesThrough registry connections kind
        (((spec.get? "connection_ref").map env.str).getD "")

/-! ## What an operator left out -/

/-- `keep_out`. -/
def keepOut (kind token : String) (rows : List NotManaged) : List NotManaged :=
  if rows.contains ⟨kind, token⟩ then rows else rows ++ [⟨kind, token⟩]

/-- `keep_out_declaration`. It raises where `record_token` does: an identity that is not all texts. -/
def keepOutDeclaration (registry : Registry) (kind : String) (spec : Json) (rows : List NotManaged) :
    Except Raised (List NotManaged) :=
  if ((registry.providers kind).bind ProviderSpec.fromRecord).isNone
      || (registry.recordIdentity kind spec).isEmpty then
    .ok rows
  else
    (registry.token kind (registry.recordIdentity kind spec)).map fun token => keepOut kind token rows

/-- `let_in`. -/
def letIn (kind token : String) (rows : List NotManaged) : List NotManaged :=
  Table.delete rows fun row => row.kind == kind && row.token == token

/-! ## What nothing accounts for -/

/-- `Unmanaged`. -/
structure Unmanaged where
  kind : String
  identity : List Json
  hostnames : List String
  spec : Json
  adoptable : Bool
  connectionRef : String
  observedOnly : Bool
  deriving DecidableEq, Repr

/-- `Unmanaged.token`. -/
def Unmanaged.token (registry : Registry) (item : Unmanaged) : Except Raised String :=
  registry.token item.kind item.identity

section Reading

variable (registry : Registry) (env : Environment)

/-- The identities declarations of known kinds have, by kind. -/
def declaredIdentities (db : Database) : List (String × List Json) :=
  (db.resources.filter fun row => (registry.providers row.kind).isSome).map fun row =>
    (row.kind, registry.recordIdentity row.kind row.spec)

/-- A record as it is found: none where it cannot be read, has no identity or is declared. -/
def foundRecord (tables : Tables) (kind : String) (provider : ProviderSpec) (record : Json) :
    Option Unmanaged := do
  let spec ← registry.recordSpec kind record
  let identity := registry.recordIdentity kind spec
  if identity.isEmpty || (declaredIdentities registry tables.db).contains (kind, identity) then none
  else
    let ref := connectionRef env record
    some {
      kind, identity, spec
      hostnames := provider.hostnames spec
      adoptable := provider.adoptionGap == "" && provider.adopts record
      connectionRef := ref
      observedOnly :=
        provider.adoptionGap != "" || !managesThrough registry tables.connections kind ref }

/-- The records found, in the order they are stored. -/
def foundRecords (tables : Tables) : List Unmanaged :=
  tables.db.inventories.flatMap fun snapshot =>
    match registry.providers snapshot.kind with
    | none => []
    | some provider => snapshot.records.filterMap (foundRecord registry env tables snapshot.kind provider)

/-- The identities that are looked up in a set: those declared, and those of records. -/
def lookedUp (db : Database) : List (List Json) :=
  (declaredIdentities registry db).map Prod.snd ++
    db.inventories.flatMap fun snapshot => (snapshot.records.filterMap
      (registry.recordSpec snapshot.kind)).map (registry.recordIdentity snapshot.kind)

/-- By identity, then by kind. -/
def Unmanaged.before (first second : Unmanaged) : Bool :=
  match precedes first.identity second.identity, precedes second.identity first.identity with
  | some true, _ => true
  | _, some true => false
  | _, _ => first.kind ≤ second.kind

/-- `unmanaged`: a value that cannot be hashed raises, and so do two that have no order. -/
def unmanaged (tables : Tables) : Except Raised (List Unmanaged) :=
  let found := foundRecords registry env tables
  if (lookedUp registry tables.db).any fun identity => !identity.all isHashable then
    .error .typeError
  else if found.any fun first => found.any fun second =>
      (precedes first.identity second.identity).isNone then
    .error .typeError
  else
    .ok (found.insertionSort fun first second => first.before second)

/-! ## Adopting -/

/-- The first item under a token. -/
def firstTokened (token : String) : List Unmanaged → Except Raised (Option Unmanaged)
  | [] => .ok none
  | item :: items => do
      let found ← item.token registry
      if found = token then return some item
      firstTokened token items

/-- `find_unmanaged`. -/
def findUnmanaged (tables : Tables) (kind hostname token : String) :
    Except Raised (Option Unmanaged) := do
  let items ← unmanaged registry env tables
  let candidates := items.filter fun item => item.kind == kind
  if token ≠ "" then
    firstTokened registry token candidates
  else
    return candidates.find? fun item => item.hostnames.contains (registry.normalizedHostname hostname)

/-- `AdoptCommand`. -/
structure AdoptCommand where
  kind : String
  hostname : String
  key : String
  token : String
  deriving DecidableEq, Repr

/-- An adoption: the key of the declaration, and the record it was made of. -/
structure Adopted where
  key : String
  kind : String
  token : String
  deriving DecidableEq, Repr

/-- `_record_as_observed`. -/
def recordAsObserved (now : Moment) (key : String) (spec : Json) (db : Database) : Database :=
  db.updateResources (fun row => row.key == key) fun row => { row with
    observedGeneration := row.generation
    lastObservedAt := some now
    status := spec
    conditions := stamped row.conditions
      [⟨"Ready", true, "Adopted", "Added to HQ from what was live.", none⟩] now }

/-- The key an adoption declares a record under. -/
def AdoptCommand.keyFor (command : AdoptCommand) (db : Database) (found : Unmanaged) : String :=
  if command.key ≠ "" then command.key else registry.suggestKey db found.kind found.spec

/-- The writes of `adopt`: the declaration, what was observed of it, and the operator's
earlier choice cleared. -/
def declareFound (now : Moment) (principal : Principal) (key : String) (found : Unmanaged)
    (tables : Tables) : Except Raised (Adopted × Tables) := do
  let (prepared, db) ← saveManagedResource env now
    ⟨⟨key, found.kind, found.spec, true⟩, principal, none, none, true, none⟩ tables.db
  let token ← found.token registry
  return (⟨prepared.resource.key, found.kind, token⟩, { tables with
    db := recordAsObserved now prepared.resource.key found.spec db
    notManaged := letIn found.kind token tables.notManaged })

/-- `why_not_adoptable`, and `""` for a kind that takes found records on. -/
def gapOf (kind : String) : String :=
  ((registry.providers kind).map ProviderSpec.adoptionGap).getD ""

/-- `adopt`. -/
def adopt (now : Moment) (principal : Principal) (command : AdoptCommand) (tables : Tables) :
    Except Raised (Adopted × Tables) := do
  match ← findUnmanaged registry env tables command.kind command.hostname command.token with
  | none => throw (.recordNotFound
      "HQ found no new record of that type to manage. It may be managed already, or gone.")
  | some found =>
      if gapOf registry found.kind ≠ "" then
        throw (.policyError (gapOf registry found.kind))
      else if found.observedOnly then
        throw (.policyError ("This record is read through a connection that only reads. "
          ++ "Its setup guide says how to let HQ make changes through it, which adopting needs."))
      else
        declareFound registry env now principal (command.keyFor registry tables.db found) found tables

/-- What a loop that adopts goes past. -/
def isRefusal : Raised → Bool
  | .recordNotFound _ | .policyError _ | .validationError _ | .valueError _ => true
  | _ => false

/-- The controller, as HQ records what it does. -/
def controllerPrincipal : Principal := ⟨"controller", controllerInterface, "", ""⟩

/-- The loop of `adopt_discovered`, over the items it read at its start. -/
def adoptEach (now : Moment) (kind : String) (excluded : List NotManaged) :
    List Unmanaged → Tables → Except Raised (List Adopted × Tables)
  | [], tables => .ok ([], tables)
  | item :: items, tables =>
      if item.kind != kind || !item.adoptable || item.observedOnly then
        adoptEach now kind excluded items tables
      else do
        let token ← item.token registry
        if excluded.contains ⟨item.kind, token⟩ then
          adoptEach now kind excluded items tables
        else
          match adopt registry env now controllerPrincipal ⟨item.kind, "", "", token⟩ tables with
          | .ok (adopted, stored) => do
              let (others, final) ← adoptEach now kind excluded items stored
              return (adopted :: others, final)
          | .error raised =>
              if isRefusal raised then adoptEach now kind excluded items tables
              else throw raised

/-- `adopt_discovered`. -/
def adoptDiscovered (now : Moment) (kind : String) (tables : Tables) :
    Except Raised (List Adopted × Tables) := do
  let items ← unmanaged registry env tables
  adoptEach registry env now kind tables.notManaged items tables

/-! ## By domain -/

/-- `_zone_of`. -/
def zoneOf (spec : Json) : String :=
  registry.normalizedHostname (env.str ((spec.get? "zone").getD (.str "")))

/-- `ZoneRecord.ephemeral`: the working material of an issuance. -/
def isEphemeral (spec : Json) : Bool :=
  "_acme-challenge.".isPrefixOf
    (registry.normalizedHostname (env.str ((spec.get? "name").getD (.str ""))))

/-- `ZoneRecord.manageable`. -/
def isManageable (spec : Json) : Bool :=
  registry.dnsRecordTypes.contains (registry.upper (env.str ((spec.get? "record_type").getD (.str ""))))

/-- The domains HQ manages, as `zone_catalog` lists them: those of the declarations that are on. -/
def managedZones (db : Database) : List String :=
  let declared := db.resources.filter fun row =>
    row.kind == zoneKind && row.enabled && (row.spec.get? "zone").any Json.truthy
  ((declared.map fun row => zoneOf registry env row.spec).filter (· ≠ "")).dedup.insertionSort (· ≤ ·)

/-- `Zone.adoptable`: the records of a domain HQ could declare and has not, among those
found. They are kept in the order they are found, where a page sorts them. -/
def zoneAdoptable (zone : String) (items : List Unmanaged) : List Unmanaged :=
  items.filter fun item => item.kind == recordKind && zoneOf registry env item.spec == zone
    && !isEphemeral registry env item.spec && isManageable registry env item.spec && !item.observedOnly

/-- The adoptions of `adopt_zone_records`, one after another, by token. -/
def adoptTokened (now : Moment) (principal : Principal) :
    List Unmanaged → Tables → Except Raised (List Adopted × Tables)
  | [], tables => .ok ([], tables)
  | item :: items, tables => do
      let token ← item.token registry
      let (adopted, stored) ← adopt registry env now principal ⟨recordKind, "", "", token⟩ tables
      let (others, final) ← adoptTokened now principal items stored
      return (adopted :: others, final)

/-- `adopt_zone_records`, every record of a domain or none. -/
def adoptZoneRecords (now : Moment) (principal : Principal) (zone : String) (tables : Tables) :
    Except Raised (List Adopted × Tables) := do
  let items ← unmanaged registry env tables
  if (zoneAdoptable registry env zone items).isEmpty then
    throw (.recordNotFound "Every record in that domain is already managed.")
  else
    adoptTokened registry env now principal (zoneAdoptable registry env zone items) tables

/-- The loop of `adopt_discovered_records`, over the domains and the items it read at its
start. -/
def adoptZones (now : Moment) (items : List Unmanaged) :
    List String → Tables → Except Raised (List Adopted × Tables)
  | [], tables => .ok ([], tables)
  | zone :: zones, tables =>
      if (zoneAdoptable registry env zone items).isEmpty then
        adoptZones now items zones tables
      else
        match adoptZoneRecords registry env now controllerPrincipal zone tables with
        | .ok (adopted, stored) => do
            let (others, final) ← adoptZones now items zones stored
            return (adopted ++ others, final)
        | .error raised =>
            if isRefusal raised then adoptZones now items zones tables
            else throw raised

/-- `adopt_discovered_records`. -/
def adoptDiscoveredRecords (now : Moment) (tables : Tables) :
    Except Raised (List Adopted × Tables) := do
  let items ← unmanaged registry env tables
  adoptZones registry env now items (managedZones registry env tables.db) tables

end Reading

end SeverinoHQ.Inventory
