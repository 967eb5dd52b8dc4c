/-
# The one-time import of projects and assets

The records of a document are planned against the registries as they are read, and where none has
a problem they go through the upserts one after the other, all of them or none. A record is stored
under its slug and an asset's projects by theirs, which no import changes.
-/

import Mathlib.Algebra.Group.Int.Defs
import Mathlib.Algebra.GroupWithZero.Nat
import Mathlib.Data.Finset.Sort
import Mathlib.Data.List.Dedup
import Mathlib.Data.List.Sort
import Mathlib.Data.String.Basic
import SeverinoHQ.Approvals.PayloadWords
import SeverinoHQ.Cadence.Sweeps
import SeverinoHQ.Math.Dict
import SeverinoHQ.Math.Letters

namespace SeverinoHQ.Registry

open SeverinoHQ.Math

/-! ## Values -/

/-- What a field holds: a text, a day or none, a decimal as it is written, a coefficient and a
power of ten, or a whole number. A column gives a decimal back with its own places, which is the
same number. -/
inductive Value where
  | text (value : String)
  | date (value : Option Int)
  | decimal (coefficient exponent : Int)
  | whole (value : Int)
  deriving DecidableEq, Repr

/-- `==`: decimals are equal as numbers. -/
def Value.equal : Value → Value → Bool
  | .decimal first scale, .decimal second other =>
      first * 10 ^ (scale - min scale other).toNat == second * 10 ^ (other - min scale other).toNat
  | first, second => first == second

/-- Whether Python takes a value as true. -/
def Value.truthy : Value → Bool
  | .text value => value != ""
  | .date value => value.isSome
  | .decimal coefficient _ => coefficient != 0
  | .whole value => value != 0

/-! ## The two registries -/

/-- The fields of a `ProjectCommand`, but for its slug. -/
inductive ProjectField where
  | name
  | category
  | status
  | description
  | technologiesUsed
  | repositoryUrl
  | publicUrl
  | deploymentNotes
  | securityNotes
  | notes
  deriving DecidableEq, Repr

/-- The fields of an `AssetCommand`, but for its slug and its projects. -/
inductive AssetField where
  | itemName
  | vendor
  | category
  | purchaseDate
  | totalCost
  | businessUsePercentage
  | paymentMethod
  | serialNumber
  | warrantyDate
  | status
  | notes
  | infrastructure
  deriving DecidableEq, Repr

/-- The field of an `AssetCommand` that names other records. -/
inductive AssetLink where
  | relatedProjects
  deriving DecidableEq, Repr

/-- The type a command declares for a field. -/
inductive FieldType where
  | str
  | oneOf (choices : List String)
  | date
  | decimal
  | int
  deriving DecidableEq, Repr

/-- Whether a value is of a type. -/
def FieldType.takes : FieldType → Value → Bool
  | .str, .text _ => true
  | .oneOf choices, .text value => value ∈ choices
  | .date, .date _ => true
  | .decimal, .decimal _ _ => true
  | .int, .whole _ => true
  | _, _ => false

/-- The column a model declares for a field. -/
inductive Column where
  | char (maxLength : Nat) (blank : Bool) (choices : List String)
  | text
  | url
  | date
  | decimal (maxDigits decimalPlaces : Nat)
  | share (minimum maximum : Nat)
  | reference (kinds : List String)
  deriving DecidableEq, Repr

/-- `_Kind`, with what its command and its model declare: the field before the slug, the others in
their order, each one's name, type, default and column, and which may be derived. -/
structure Kind (Field Link : Type) where
  name : String
  title : Field
  rest : List Field
  every : ∀ field, field ∈ title :: rest
  links : List Link
  everyLink : ∀ link, link ∈ links
  fieldName : Field → String
  type : Field → FieldType
  default : Field → Option Value
  takesDefault : ∀ field, ∀ value ∈ default field, (type field).takes value = true
  column : Field → Column
  derived : List Field

def Kind.fields {Field Link : Type} (kind : Kind Field Link) : List Field := kind.title :: kind.rest

/-- `PROJECT_CATEGORY_CHOICES`. -/
def projectCategories : List String :=
  ["wordpress_security", "cloudflare", "dns_email_security", "homelab", "vps", "tailscale",
    "adguard", "networking", "tls_certificates", "automation", "cybersecurity_labs", "other"]

/-- `Project.Status`. -/
def projectStatuses : List String :=
  ["idea", "active", "paused", "completed", "published", "archived"]

/-- `ASSET_CATEGORY_CHOICES`. -/
def assetCategories : List String :=
  ["networking", "server_hardware", "software", "subscription", "domain", "hosting",
    "camera_audio", "office", "tools", "training", "other"]

/-- `Asset.Status`. -/
def assetStatuses : List String := ["active", "retired", "sold", "returned", "replaced"]

/-- `PAYMENT_METHOD_CHOICES`. -/
def paymentMethods : List String := ["cash", "debit", "credit", "ach", "paypal", "other"]

/-- `_PROJECT`. -/
def projectKind : Kind ProjectField Empty where
  name := "project"
  title := .name
  rest := [.category, .status, .description, .technologiesUsed, .repositoryUrl, .publicUrl,
    .deploymentNotes, .securityNotes, .notes]
  every field := by cases field <;> decide
  links := []
  everyLink := nofun
  fieldName
    | .name => "name"
    | .category => "category"
    | .status => "status"
    | .description => "description"
    | .technologiesUsed => "technologies_used"
    | .repositoryUrl => "repository_url"
    | .publicUrl => "public_url"
    | .deploymentNotes => "deployment_notes"
    | .securityNotes => "security_notes"
    | .notes => "notes"
  type
    | .category => .oneOf projectCategories
    | .status => .oneOf projectStatuses
    | _ => .str
  default
    | .name => none
    | .category => some (.text "other")
    | .status => some (.text "idea")
    | _ => some (.text "")
  column
    | .name => .char 160 false []
    | .category => .char 40 false projectCategories
    | .status => .char 20 false projectStatuses
    | .technologiesUsed => .char 300 true []
    | .repositoryUrl => .url
    | .publicUrl => .url
    | _ => .text
  derived := [.publicUrl]
  takesDefault field := by cases field <;> simp [FieldType.takes, projectCategories, projectStatuses]

/-- `_ASSET`. -/
def assetKind : Kind AssetField AssetLink where
  name := "asset"
  title := .itemName
  rest := [.vendor, .category, .purchaseDate, .totalCost, .businessUsePercentage, .paymentMethod,
    .serialNumber, .warrantyDate, .status, .notes, .infrastructure]
  every field := by cases field <;> decide
  links := [.relatedProjects]
  everyLink link := by cases link; decide
  fieldName
    | .itemName => "item_name"
    | .vendor => "vendor"
    | .category => "category"
    | .purchaseDate => "purchase_date"
    | .totalCost => "total_cost"
    | .businessUsePercentage => "business_use_percentage"
    | .paymentMethod => "payment_method"
    | .serialNumber => "serial_number"
    | .warrantyDate => "warranty_date"
    | .status => "status"
    | .notes => "notes"
    | .infrastructure => "infrastructure"
  type
    | .category => .oneOf assetCategories
    | .purchaseDate => .date
    | .totalCost => .decimal
    | .businessUsePercentage => .int
    | .paymentMethod => .oneOf ("" :: paymentMethods)
    | .warrantyDate => .date
    | .status => .oneOf assetStatuses
    | _ => .str
  default
    | .itemName => none
    | .category => some (.text "other")
    | .purchaseDate => some (.date none)
    | .totalCost => some (.decimal 0 (-2))
    | .businessUsePercentage => some (.whole 100)
    | .warrantyDate => some (.date none)
    | .status => some (.text "active")
    | _ => some (.text "")
  column
    | .itemName => .char 160 false []
    | .vendor => .char 120 true []
    | .category => .char 30 false assetCategories
    | .purchaseDate => .date
    | .totalCost => .decimal 12 2
    | .businessUsePercentage => .share 0 100
    | .paymentMethod => .char 20 true paymentMethods
    | .serialNumber => .char 120 true []
    | .warrantyDate => .date
    | .status => .char 20 false assetStatuses
    | .notes => .text
    | .infrastructure => .reference ["machine", "zone", "certificate"]
  derived := []
  takesDefault field := by
    cases field <;> simp [FieldType.takes, assetCategories, assetStatuses]

/-- What the import reads beside the document and the registries: what pydantic says against a
value that is not of a type, the messages of a column's own checks, whether the estate holds what a
reference of some kinds names, and `repr` and `str` of a value. -/
structure Host where
  typeMessage : FieldType → Value → String
  errors : Column → Value → List String
  names : List String → Value → Bool
  repr : Value → String
  str : Value → String

section Records

variable (Field Link : Type)

/-- A command, or a row as its command's fields. -/
structure Values where
  slug : String
  field : Field → Value
  related : Link → List String

/-- A stored record, under its slug. -/
structure Row where
  field : Field → Value
  related : Link → Finset String

/-- A record of the document: its slug, and the fields to lay over the record stored under it. -/
structure Imported where
  slug : String
  field : Field → Option Value
  related : Link → Option (List String)

abbrev Rows := Dict String (Row Field Link)

end Records

/-- `HQImportCommand`, but for whether it is only checked. -/
structure ImportDocument where
  projects : List (Imported ProjectField Empty)
  assets : List (Imported AssetField AssetLink)

inductive Outcome where
  | created
  | updated
  | unchanged
  deriving DecidableEq, Repr

/-- A stored value that is kept in place of the one that was offered. -/
structure KeptValue where
  field : String
  kept : String
  offered : String
  deriving DecidableEq, Repr

/-- `_Planned`, but for its kind. -/
structure Planned (Field Link : Type) where
  index : Nat
  slug : String
  command : Values Field Link
  outcome : Outcome
  kept : List KeptValue

structure Problem where
  kind : String
  index : Nat
  slug : String
  errors : List String
  deriving DecidableEq, Repr

/-! ## Planning a record -/

/-- `counted`, with both its phrases given. -/
def counted (count : Nat) (one many : String) : String :=
  String.ofList (Approvals.grouped (toString count).toList.reverse).reverse ++ " " ++
    if count = 1 then one else many

/-- `record["slug"].strip()`. -/
def strippedSlug (slug : String) : String := String.ofList (Letters.strip slug.toList)

section Plan

variable {Field Link : Type} [DecidableEq Field] (kind : Kind Field Link) (host : Host)

/-- `_stored`: an existing row as the command's fields. -/
def stored (slug : String) (row : Row Field Link) : Values Field Link where
  slug := slug
  field := row.field
  related link := (row.related link).sort (· ≤ ·)

/-- `_slug_errors`. -/
def slugErrors (slug : String) (seen : List String) : List String :=
  if slug = "" then ["slug is required."]
  else if slug ∈ seen then ["slug appears twice in this document."]
  else []

/-- The stored value of a derived field, where another is offered. -/
def heldValue (record : Imported Field Link) (stored : Option (Values Field Link)) (field : Field) :
    Option Value :=
  match stored, record.field field with
  | some stored, some offered =>
      if field ∈ kind.derived ∧ (stored.field field).truthy = true ∧
          offered.equal (stored.field field) = false then some (stored.field field)
      else none
  | _, _ => none

/-- `_keep_derived`, as far as it is reported. -/
def keepDerived (record : Imported Field Link) (stored : Option (Values Field Link)) :
    List KeptValue :=
  kind.derived.filterMap fun field =>
    match heldValue kind record stored field, record.field field with
    | some kept, some offered => some ⟨kind.fieldName field, host.str kept, host.str offered⟩
    | _, _ => none

/-- `{**(stored or {}), **record}`, with the derived values that are kept. -/
def laidOver (record : Imported Field Link) (stored : Option (Values Field Link)) (field : Field) :
    Option Value :=
  match heldValue kind record stored field with
  | some kept => some kept
  | none =>
      match record.field field with
      | some offered => some offered
      | none => stored.map fun stored => stored.field field

def relatedOver (record : Imported Field Link) (stored : Option (Values Field Link)) (link : Link) :
    List String :=
  match record.related link with
  | some slugs => slugs
  | none => (stored.map fun stored => stored.related link).getD []

/-- What a command's type says against the value of a field, or its absence. -/
def typeError (values : Field → Option Value) (field : Field) : Option String :=
  match values field with
  | some value =>
      if (kind.type field).takes value then none
      else some (kind.fieldName field ++ ": " ++ host.typeMessage (kind.type field) value)
  | none =>
      if (kind.default field).isNone then some (kind.fieldName field ++ ": Field required") else none

/-- The value a command has for a field: a missing one takes its default. -/
def orDefault (values : Field → Option Value) (field : Field) : Value :=
  match values field with
  | some value => value
  | none => (kind.default field).getD (.text "")

/-- `_command`. -/
def command (slug : String) (values : Field → Option Value) (related : Link → List String) :
    Except (List String) (Values Field Link) :=
  match kind.fields.filterMap (typeError kind host values) with
  | [] => .ok ⟨slug, orDefault kind values, related⟩
  | errors => .error errors

/-- The checks of a slug's column. A blank one is not asked. -/
def columnSlugErrors (slug : String) : List String :=
  if slug = "" then []
  else
    (if slug.toList.all fun c => c.isAlphanum || c == '-' || c == '_' then []
      else ["Enter a valid “slug” consisting of letters, numbers, underscores or hyphens."]) ++
    if slug.length ≤ 180 then []
    else ["Ensure this value has at most 180 characters (it has " ++ toString slug.length ++ ")."]

/-- A field's `clean`, on a new record or on a stored row: a reference is to name something, or to
be the one that the row holds. -/
def fieldErrors (row : Option (Row Field Link)) (field : Field) (value : Value) : List String :=
  match host.errors (kind.column field) value, kind.column field with
  | [], .reference kinds =>
      if value.truthy && !host.names kinds value &&
          !(row.any fun row => (row.field field).equal value) then
        ["HQ has nothing called " ++ host.repr value ++ " to link this to."]
      else []
  | errors, _ => errors

/-- `full_clean`: the messages, under the fields they are of. -/
def fullClean (row : Option (Row Field Link)) (command : Values Field Link) :
    List (String × String) :=
  let cleaned := fun field => (fieldErrors kind host row field (command.field field)).map
    fun message => (kind.fieldName field, message)
  cleaned kind.title ++ (columnSlugErrors command.slug).map (fun message => ("slug", message)) ++
    kind.rest.flatMap cleaned

/-- The slugs of projects that are named and not known. -/
def missingProjects (command : Values Field Link) (known : List String) : List String :=
  ((kind.links.flatMap command.related).dedup.filter (· ∉ known)).insertionSort (· ≤ ·)

/-- `_model_errors`. -/
def modelErrors (command : Values Field Link) (known : List String) : List String :=
  (match missingProjects kind command known with
    | [] => []
    | missing => [Cadence.ended (counted missing.length "related project not found"
        "related projects not found" ++ ": " ++ String.intercalate ", " missing)]) ++
    (fullClean kind host none command).map fun error => error.1 ++ ": " ++ error.2

/-- `_outcome`. -/
def outcomeOf (command : Values Field Link) : Option (Values Field Link) → Outcome
  | none => .created
  | some stored =>
      if command.slug = stored.slug ∧
          (∀ field ∈ kind.fields, (command.field field).equal (stored.field field) = true) ∧
          ∀ link ∈ kind.links, (command.related link).insertionSort (· ≤ ·) = stored.related link then
        .unchanged
      else .updated

/-- `_plan_record`. -/
def planRecord (index : Nat) (record : Imported Field Link) (slug : String)
    (row : Option (Row Field Link)) (known : List String) :
    Except (List String) (Planned Field Link) :=
  let stored := row.map (stored slug)
  match command kind host record.slug (laidOver kind record stored) (relatedOver record stored) with
  | .error errors => .error errors
  | .ok command =>
      match modelErrors kind host command known with
      | [] => .ok ⟨index, slug, command, outcomeOf kind command stored,
          keepDerived kind host record stored⟩
      | errors => .error errors

/-- `_plan_kind`, from a record on: what is planned, and the problems. -/
def planFrom (existing : Rows Field Link) (known : List String) :
    Nat → List String → List (Imported Field Link) → List (Planned Field Link) × List Problem
  | _, _, [] => ([], [])
  | index, seen, record :: records =>
      let slug := strippedSlug record.slug
      let (planned, problems) := planFrom existing known (index + 1) (slug :: seen) records
      match slugErrors slug seen with
      | [] =>
          match planRecord kind host index record slug (existing.get? slug) known with
          | .ok plan => (plan :: planned, problems)
          | .error errors => (planned, ⟨kind.name, index, slug, errors⟩ :: problems)
      | errors => (planned, ⟨kind.name, index, slug, errors⟩ :: problems)

/-! ## Writing a record -/

/-- What an upsert raises. -/
inductive Raised where
  | validationError (messages : List String)
  | recordNotFound (text : String)
  deriving DecidableEq, Repr

/-- `upsert_project` and `upsert_asset`: the record of the command's slug, new or locked, with
every field of the command, once the projects it names are found. -/
def upsert (projects : List String) (command : Values Field Link) (rows : Rows Field Link) :
    Except Raised (Rows Field Link) :=
  if ∀ link ∈ kind.links, ∀ slug ∈ command.related link, slug ∈ projects then
    match fullClean kind host (rows.get? command.slug) command with
    | [] =>
        let found := fun link => (projects.filter (· ∈ command.related link)).toFinset
        .ok (rows.set command.slug ⟨command.field, found⟩)
    | errors => .error (.validationError (errors.map Prod.snd))
  else .error (.recordNotFound "A related project was not found.")

def Raised.messages : Raised → List String
  | .validationError messages => messages
  | .recordNotFound text => [text]

/-- `_apply`, but for the audit event. A planned record has a slug, so its save fills none. -/
def applyPlanned (projects : List String) (planned : Planned Field Link) (rows : Rows Field Link) :
    Except Problem (Rows Field Link) :=
  if planned.outcome = .unchanged then .ok rows
  else
    match upsert kind host projects planned.command rows with
    | .ok rows => .ok rows
    | .error raised => .error ⟨kind.name, planned.index, planned.slug, raised.messages⟩

end Plan

/-! ## The import -/

/-- How many records an import creates, updates and leaves, and how many values it keeps. -/
structure Summary where
  created : Nat
  updated : Nat
  unchanged : Nat
  kept : Nat
  deriving DecidableEq, Repr

/-- An `imported` row of the audit log. -/
inductive Event where
  | record (kind slug : String) (outcome : Outcome) (kept : List KeptValue)
  | registry (summary : Summary)

structure Registries where
  projects : Rows ProjectField Empty
  assets : Rows AssetField AssetLink
  events : List Event

/-- `ImportedRecord`. -/
structure Report where
  slug : String
  outcome : Outcome
  kept : List KeptValue
  deriving DecidableEq, Repr

/-- `HqImported`, or an import refused as invalid input. -/
inductive Answer where
  | imported (checkOnly : Bool) (projects assets : List Report) (summary : Summary)
  | refused (message : String) (details : List Problem)
  deriving DecidableEq, Repr

section Import

variable (host : Host)

/-- `_report`. -/
def report {Field Link : Type} (planned : Planned Field Link) : Report :=
  ⟨planned.slug, planned.outcome, planned.kept⟩

def summaryOf (reports : List Report) : Summary where
  created := reports.countP fun report => report.outcome = .created
  updated := reports.countP fun report => report.outcome = .updated
  unchanged := reports.countP fun report => report.outcome = .unchanged
  kept := (reports.map fun report => report.kept.length).sum

/-- `_apply`, of a project. -/
def applyProject (state : Registries) (planned : Planned ProjectField Empty) :
    Except Problem Registries := do
  let rows ← applyPlanned projectKind host state.projects.keys planned state.projects
  .ok { state with
    projects := rows
    events := state.events ++ [.record "project" planned.slug planned.outcome planned.kept] }

/-- `_apply`, of an asset. -/
def applyAsset (state : Registries) (planned : Planned AssetField AssetLink) :
    Except Problem Registries := do
  let rows ← applyPlanned assetKind host state.projects.keys planned state.assets
  .ok { state with
    assets := rows
    events := state.events ++ [.record "asset" planned.slug planned.outcome planned.kept] }

/-- The projects of a document, planned. -/
def planProjects (document : ImportDocument) (state : Registries) :
    List (Planned ProjectField Empty) × List Problem :=
  planFrom projectKind host state.projects [] 0 [] document.projects

/-- The slugs an asset may name: the planned projects' and the stored ones'. -/
def knownProjects (document : ImportDocument) (state : Registries) : List String :=
  (planProjects host document state).1.map Planned.slug ++ state.projects.keys

/-- The assets of a document, planned. -/
def planAssets (document : ImportDocument) (state : Registries) :
    List (Planned AssetField AssetLink) × List Problem :=
  planFrom assetKind host state.assets (knownProjects host document state) 0 []
    document.assets

/-- The transaction: every planned record, and the event of the import. -/
def applyAll (projects : List (Planned ProjectField Empty))
    (assets : List (Planned AssetField AssetLink)) (summary : Summary) (state : Registries) :
    Except Problem Registries := do
  let state ← projects.foldlM (applyProject host) state
  let state ← assets.foldlM (applyAsset host) state
  .ok { state with events := state.events ++ [.registry summary] }

/-- `import_registry`: what it answers, and the registries it leaves. -/
def importRegistry (document : ImportDocument) (checkOnly : Bool) (state : Registries) :
    Answer × Registries :=
  let total := document.projects.length + document.assets.length
  if 1000 < total then
    let limit := "The document holds " ++ counted total "record" "records" ++ "; the limit is 1000."
    (.refused limit [⟨"document", 0, "", [limit]⟩], state)
  else
    let projects := planProjects host document state
    let assets := planAssets host document state
    match projects.2 ++ assets.2 with
    | [] =>
        let reports := projects.1.map report ++ assets.1.map report
        let answer := Answer.imported checkOnly (projects.1.map report) (assets.1.map report)
          (summaryOf reports)
        match applyAll host projects.1 assets.1 (summaryOf reports) state with
        | .ok after => (answer, if checkOnly then state else after)
        | .error problem =>
            (.refused "1 record was refused while writing. Nothing was imported." [problem], state)
    | problems =>
        (.refused (counted problems.length "record" "records" ++ " refused. Nothing was imported.")
          problems, state)

end Import

end SeverinoHQ.Registry
