/-
# The kinds of record a sweep reads

What each kind's provider says of its records: the spec a record reproduces, what makes
it that record, which fields a reading cannot see. The registry's own rules for these are
parameters, as its providers differ in nothing else here; a container's, which a sweep
also removes by, are the source's own.
-/

import SeverinoHQ.ControlPlane.System
import SeverinoHQ.Math.Fallible

namespace SeverinoHQ.Inventory

open SeverinoHQ.Math SeverinoHQ.ControlPlane

/-! ## Values as Python compares them -/

/-- A text, where a value is one. -/
def asText : Json → Option String
  | .str text => some text
  | _ => none

/-- Whether a value can stand in a set or under a key. -/
def isHashable : Json → Bool
  | .arr _ | .obj _ => false
  | _ => true

/-- What a value counts as among numbers. -/
def asNumber : Json → Option Int
  | .num value => some value
  | .bool value => some (if value then 1 else 0)
  | _ => none

/-- `<` of two tuples, and none where two of their values have no order. -/
def precedes : List Json → List Json → Option Bool
  | _, [] => some false
  | [], _ :: _ => some true
  | first :: firsts, second :: seconds =>
      if first = second then precedes firsts seconds
      else
        match asText first, asText second, asNumber first, asNumber second with
        | some text, some other, _, _ => some (decide (text < other))
        | _, _, some number, some other => some (decide (number < other))
        | _, _, _, _ => none

theorem precedes_of_texts {firsts seconds : List Json}
    (hfirst : ∀ value ∈ firsts, (asText value).isSome)
    (hsecond : ∀ value ∈ seconds, (asText value).isSome) : (precedes firsts seconds).isSome := by
  induction firsts generalizing seconds with
  | nil => cases seconds <;> rfl
  | cons first firsts ih =>
      cases seconds with
      | nil => rfl
      | cons second seconds =>
          rw [precedes]
          by_cases hsame : first = second
          · rw [if_pos hsame]
            exact ih (fun value hvalue => hfirst value (List.mem_cons_of_mem _ hvalue))
              fun value hvalue => hsecond value (List.mem_cons_of_mem _ hvalue)
          · obtain ⟨text, htext⟩ := Option.isSome_iff_exists.mp (hfirst first List.mem_cons_self)
            obtain ⟨other, hother⟩ := Option.isSome_iff_exists.mp (hsecond second List.mem_cons_self)
            simp [hsame, htext, hother]

theorem isHashable_of_text {value : Json} (h : (asText value).isSome) : isHashable value = true := by
  cases value <;> simp_all [asText, isHashable]

/-! ## Providers -/

/-- `CONTAINER_KIND`. -/
def containerKind : String := "portainer.container"

/-- `RECORD_KIND`. -/
def recordKind : String := "cloudflare.dns_record"

/-- `ZONE_KIND`. -/
def zoneKind : String := "cloudflare.zone"

/-- `REPOSITORY_KIND`. -/
def repositoryKind : String := "github.repository"

/-- `ProviderSpec`, by the hooks a sweep goes through. What a hook raises on a record or a
spec is caught where it is called, and reads as none. -/
structure ProviderSpec where
  connectionProviders : List String
  declarationOnly : Bool
  adoptionGap : String
  /-- `from_record`, where the kind has one. -/
  fromRecord : Option (Json → Option Json)
  /-- `identity`, or the names a spec serves where the provider has none. -/
  identity : Json → Option (List Json)
  hostnames : Json → List String
  /-- `adopts`, which takes every record where the provider has none. -/
  adopts : Json → Bool
  unobservableFields : List String
  reportedFields : List String

/-- `_container_from_record`. -/
def containerFromRecord (record : Json) : Json :=
  .obj [("connection_ref", (record.get? "connection_ref").getD (.str "")),
    ("host", (record.get? "host").getD (.str "")), ("name", (record.get? "name").getD (.str ""))]

/-- `_container_identity`. -/
def containerIdentity (spec : Json) : Json × Json :=
  ((spec.get? "host").getD (.str ""), (spec.get? "name").getD (.str ""))

/-- `_container_adopts`. -/
def containerAdopts (record : Json) : Bool := (record.get? "stack").any Json.truthy

/-- `CONTAINER`. -/
def container : ProviderSpec where
  connectionProviders := ["portainer"]
  declarationOnly := true
  adoptionGap := ""
  fromRecord := some fun record => some (containerFromRecord record)
  identity spec := some [(containerIdentity spec).1, (containerIdentity spec).2]
  hostnames _ := []
  adopts := containerAdopts
  unobservableFields :=
    ["serves_ports", "hidden", "on_demand", "holds_docker_socket", "by_design", "source"]
  reportedFields := []

/-- `ObservationSpec`: the records a reading keeps, and what it takes from the last. -/
structure ObservationSpec where
  clean : List Json → List Json
  fromLast : List Json → List Json → List Json

/-- The project a repository is. -/
structure Project where
  slug : String
  repositoryUrl : String
  deriving DecidableEq, Repr

/-- `PROVIDERS` and `OBSERVATIONS`, and the functions over them a sweep calls. -/
structure Registry where
  providers : String → Option ProviderSpec
  observations : String → Option ObservationSpec
  /-- `record_token`, of a kind and an identity of texts. -/
  recordToken : String → List String → String
  normalizedHostname : String → String
  lower : String → String
  upper : String → String
  /-- `DNS_RECORD_TYPES_BY_ID`, by its names. -/
  dnsRecordTypes : List String
  suggestKey : Database → String → Json → String
  /-- `_canonical_document`. -/
  canonicalDocument : String → String
  /-- What a condition says of the fields that differ, by kind. -/
  differenceMessage : String → List (String × String × String) → String
  /-- `repository_key`. -/
  repositoryKey : String → Except Raised String
  /-- `_take_on`: a repository by its name, attached to a project or made one. -/
  takeOn : List Project → String → Option Project → Except Raised (List Project)
  /-- Whether a read is still forced, after what a sweep stored. -/
  isForced : Database → Moment → ReadRequest → Bool
  container_declared : providers containerKind = some container
  /-- A token is the first sixteen digits of a digest. -/
  recordToken_ne : ∀ kind identity, recordToken kind identity ≠ ""
  /-- One registry declares a kind, not both. -/
  unobserved : ∀ kind, (providers kind).isSome → observations kind = none

namespace Registry

variable (registry : Registry)

/-- `record_spec`. -/
def recordSpec (kind : String) (record : Json) : Option Json := do
  let provider ← registry.providers kind
  let fromRecord ← provider.fromRecord
  fromRecord record

/-- `record_identity`. -/
def recordIdentity (kind : String) (spec : Json) : List Json :=
  ((registry.providers kind).bind fun provider => provider.identity spec).getD []

/-- `record_token`: joining an identity that is not all texts raises. -/
def token (kind : String) (identity : List Json) : Except Raised String :=
  match identity.mapM asText with
  | some texts => .ok (registry.recordToken kind texts)
  | none => .error .typeError

theorem token_ne {kind token : String} {identity : List Json}
    (h : registry.token kind identity = .ok token) : token ≠ "" := by
  unfold Registry.token at h
  split at h
  · cases h
    exact registry.recordToken_ne _ _
  · cases h

@[simp]
theorem recordSpec_container (record : Json) :
    registry.recordSpec containerKind record = some (containerFromRecord record) := by
  simp [recordSpec, registry.container_declared, container]

@[simp]
theorem recordIdentity_container (spec : Json) :
    registry.recordIdentity containerKind spec =
      [(containerIdentity spec).1, (containerIdentity spec).2] := by
  simp [recordIdentity, registry.container_declared, container]

/-- An identity of texts: what every kind's specs have, once validated. -/
def Named (kind : String) (spec : Json) : Prop :=
  ∀ value ∈ registry.recordIdentity kind spec, (asText value).isSome

theorem Named.hashable {kind : String} {spec : Json} (h : registry.Named kind spec) :
    (registry.recordIdentity kind spec).all isHashable = true :=
  List.all_eq_true.mpr fun value hvalue => isHashable_of_text (h value hvalue)

theorem Named.token_eq_ok {kind : String} {spec : Json} (h : registry.Named kind spec) :
    ∃ token, registry.token kind (registry.recordIdentity kind spec) = .ok token := by
  obtain ⟨texts, htexts⟩ := exists_mapM_eq_some fun value hvalue =>
    Option.isSome_iff_exists.mp (h value hvalue)
  exact ⟨registry.recordToken kind texts, by simp [token, htexts]⟩

end Registry

/-! ## What was read -/

/-- `KindReport`: one kind of a sweep. -/
structure KindReport where
  ok : Bool
  records : List Json
  refusedParts : List String
  carried : Bool
  deriving DecidableEq, Repr

/-- The contract's `Inventory`: one sweep, each kind read by its name. -/
abbrev Payload := List (String × KindReport)

/-- `payload.get(kind)`. -/
def Payload.report? (payload : Payload) (kind : String) : Option KindReport :=
  (payload.find? fun entry => entry.1 == kind).map Prod.snd

/-- `ProviderConnection`, by what says whether its records may be adopted. -/
structure ProviderConnection where
  provider : String
  connectionRef : String
  manages : Bool
  deriving DecidableEq, Repr

/-- A record an operator said HQ does not manage. -/
structure NotManaged where
  kind : String
  token : String
  deriving DecidableEq, Repr

/-- The tables a sweep reads and writes. -/
structure Tables where
  db : Database
  connections : List ProviderConnection
  notManaged : List NotManaged
  projects : List Project
  deriving DecidableEq, Repr

end SeverinoHQ.Inventory
