/-
# What a declaration resolves to

A certificate names where it installs, and how each place takes a certificate is
declared on the place. Resolving one reads every declared delivery target and
the names observed at the machine each connection reaches. A Caddy route takes
the certificate directory of the target its connection reaches, and a proxy host
the identifier its certificate was given. No other kind has a resolver: it stands
for what was authored.
-/

import SeverinoHQ.ControlPlane.DesiredState
import Mathlib.Data.List.Sort

namespace SeverinoHQ.ControlPlane

/-- The checks of the specs' own types, and what is read outside the stored
declarations. -/
structure Providers where
  /-- `validate_spec`: a kind's own check of an authored spec. -/
  validateSpec : String → Json → Except Raised Json
  /-- The check of a resolved spec against a kind's resolved type. -/
  validateResolved : String → Json → Except Raised Json
  /-- `names_by_connection`, over the authored declarations. -/
  namesByConnection : List Declaration → String → List String
  /-- `normalized_hostname`. -/
  normalizedHostname : String → String

/-- `ProviderResolutionContext`, whose names every caller gives. -/
structure ResolutionContext where
  deliveryTargets : List Json
  resourceStatus : Option (String → List String → Option Json)
  resourceKey : String
  caddyRoutes : Option (List Json)
  namesAt : String → List String

/-! ## Reading a document -/

/-- `document[name]`, where a missing name is raised as the fingerprint catches it. -/
def member (document : Json) (name : String) : Except Raised Json :=
  match document.get? name with
  | some value => .ok value
  | none => .error (.valueError name)

/-- A text, and nothing for what is none. -/
def textOf : Json → String
  | .str text => text
  | _ => ""

/-- The texts of a list. -/
def textsOf : Json → List String
  | .arr items => items.map textOf
  | _ => []

/-- `sorted` of a set of names. -/
def sortedNames (names : List String) : Json :=
  .arr ((names.dedup.insertionSort (· ≤ ·)).map .str)

/-! ## Resolvers -/

/-- `certificate_covers`: a name is covered as it is, or by a wildcard for its
first label. -/
def certificateCovers (providers : Providers) (names : List String) (domain : String) : Bool :=
  let normalized := providers.normalizedHostname domain
  let rest := normalized.toList.dropWhile (· != '.')
  names.contains normalized || (!rest.isEmpty && names.contains ("*" ++ String.ofList rest))

/-- `_delivery_target`: the first declared target a connection reaches. -/
def deliveryTarget (context : ResolutionContext) (connectionRef : String) :
    Except Raised Json :=
  match context.deliveryTargets.find? fun target =>
      target.get? "connection_ref" == some (.str connectionRef) with
  | some target => .ok target
  | none => .error (.valueError
      ("'" ++ connectionRef ++ "' is not a certificate target. Add it as one first."))

/-- What a consumer says for its kind of target. -/
def consumerDetails (target : Json) (kind : String) (ownsTheName : Bool) :
    Except Raised (List (String × Json)) :=
  if kind = "caddy" then
    (member target "certificate_directory").map fun directory =>
      [("certificate_directory", directory)]
  else if kind = "npm" then
    .ok [("discover_covered_hosts",
      .bool (((target.get? "discover_covered_hosts").map Json.truthy).getD false))]
  else if kind = "cpanel" then
    .ok [("install_domains",
      if ownsTheName then .arr ((textsOf ((target.get? "install_domains").getD .null)).map .str)
      else .arr [])]
  else
    .ok []

/-- `_consumer_at`: one certificate's declaration of how it arrives at one target. -/
def consumerAt (providers : Providers) (target : Json) (certificateKey certificateName : String)
    (domains : List String) (namesAt : Option (String → List String)) : Except Raised Json := do
  let kind ← member target "kind"
  let connectionRef ← member target "connection_ref"
  let ownName ← member target "name"
  let ownsTheName := certificateKey != ""
    && target.get? "certificate_resource" == some (.str certificateKey)
  let landing := match namesAt with
    | some names => names (textOf connectionRef)
    | none => []
  let verified := textsOf ((target.get? "verify_domains").getD .null)
    ++ landing.filter (certificateCovers providers domains)
  let details ← consumerDetails target (textOf kind) ownsTheName
  return Json.dict <|
    [("kind", kind), ("connection_ref", connectionRef),
      ("name", if ownsTheName then ownName else .str (certificateName ++ "-" ++ textOf kind)),
      ("verify_domains", sortedNames verified)] ++ details

/-- `_publication_at`. -/
def publicationAt (target : Json) (certificateName : String) : Except Raised Json := do
  let connectionRef ← member target "connection_ref"
  let vault ← member target "vault"
  let item ← member target "item"
  return Json.dict [("kind", .str "onepassword"),
    ("name", .str (certificateName ++ "-onepassword")), ("connection_ref", connectionRef),
    ("vault", vault), ("item", item)]

/-- Whether a target records a certificate rather than serving it. -/
def publishes (target : Json) : Bool := target.get? "kind" == some (.str "onepassword")

/-- `_resolve_tls`. -/
def resolveTls (providers : Providers) (context : ResolutionContext) (authored : Json) :
    Except Raised Json := do
  let domains ← member authored "domains"
  let installOn ← member authored "install_on"
  let certificateName := textOf ((authored.get? "certificate_name").getD .null)
  let targets ← (textsOf installOn).mapM (deliveryTarget context)
  let consumers := targets.filter fun target => !publishes target
  if consumers.isEmpty then
    throw (.valueError (certificateName ++ " has no install target. Add one that serves it."))
  let consumed ← consumers.mapM fun target =>
    consumerAt providers target context.resourceKey certificateName (textsOf domains)
      (some context.namesAt)
  let published ← (targets.filter publishes).mapM fun target =>
    publicationAt target certificateName
  let renewalWindow ← member authored "renewal_window_days"
  return Json.dict [("certificate_name", .str certificateName), ("domains", domains),
    ("consumers", .arr consumed), ("publish_to", .arr published),
    ("renewal_window_days", renewalWindow)]

/-- `UPLOADED_CERTIFICATE_REFUSALS`. -/
def uploadedCertificateRefusal (kind : String) : Option String :=
  if kind = "cpanel" then
    some ("Uploaded certificates cannot be installed on cPanel. "
      ++ "It rejects certificates signed by a private CA.")
  else if kind = "onepassword" then
    some ("Uploaded certificates cannot be recorded in 1Password. "
      ++ "Only certificates HQ issues can.")
  else
    none

/-- One consumer of an uploaded certificate, which never checks every covered host. -/
def uploadedConsumer (providers : Providers) (context : ResolutionContext)
    (certificateName connectionRef : String) : Except Raised Json := do
  let target ← deliveryTarget context connectionRef
  let kind ← member target "kind"
  match uploadedCertificateRefusal (textOf kind) with
  | some text => throw (.valueError text)
  | none =>
      let consumer ← consumerAt providers target context.resourceKey certificateName [] none
      return match consumer with
        | .obj members => .obj (members.filter fun entry => entry.1 != "discover_covered_hosts")
        | other => other

/-- `_resolve_uploaded`. -/
def resolveUploaded (providers : Providers) (context : ResolutionContext) (authored : Json) :
    Except Raised Json := do
  let installOn ← member authored "install_on"
  let certificateName ← member authored "certificate_name"
  let consumers ← (textsOf installOn).mapM
    (uploadedConsumer providers context (textOf certificateName))
  return Json.dict [("certificate_name", certificateName), ("install_on", installOn),
    ("consumers", .arr consumers),
    ("domains", .arr ((textsOf ((authored.get? "domains").getD .null)).map .str))]

/-- `{**authored, …}`, which no value but an object has. -/
def withMembers (authored : Json) (members : List (String × Json)) : Except Raised Json :=
  match authored with
  | .obj own => .ok (.dict (own ++ members))
  | _ => .error .typeError

/-- A route as its edge's file carries it. -/
def siblingRoute (route : Json) : Json :=
  Json.dict [("domain", (route.get? "domain").getD (.str "")),
    ("upstream", (route.get? "upstream").getD (.str ""))]

/-- Caddy's `_resolve`: the directory of the last Caddy target the route's connection
reaches, and every route the same edge serves. -/
def resolveRoute (str : Json → String) (context : ResolutionContext) (authored : Json) :
    Except Raised Json :=
  let connectionRef := (authored.get? "connection_ref").getD (.str "")
  let directory := context.deliveryTargets.foldl (fun before target =>
    if target.get? "connection_ref" == some connectionRef
        && target.get? "kind" == some (.str "caddy") then
      match target.get? "certificate_directory" with
      | some value => if value.truthy then str value else ""
      | none => ""
    else before) ""
  let routes := (context.caddyRoutes.getD []).filter fun route =>
    route.get? "connection_ref" == some connectionRef
      && ((route.get? "upstream").map Json.truthy).getD false
  withMembers authored [("certificate_directory", .str directory),
    ("routes", .arr (routes.map siblingRoute))]

/-- NPM's `_resolve`: the identifier under which the proxy host's certificate was
installed, where its status is given. -/
def resolveProxyHost (context : ResolutionContext) (authored : Json) : Except Raised Json :=
  let status := match authored.get? "certificate_resource", context.resourceStatus with
    | some resource, some status =>
        if resource.truthy then
          (status (textOf resource) [certificateKind, uploadedCertificateKind]).filter Json.truthy
        else none
    | _, _ => none
  withMembers authored
    [("certificate_id", (status.bind fun status => status.get? "npm_certificate_id").getD .null)]

/-- The resolver of a kind, where it has one. -/
def Providers.resolver (providers : Providers) (str : Json → String) (kind : String) :
    Option (ResolutionContext → Json → Except Raised Json) :=
  if kind = certificateKind then some (resolveTls providers)
  else if kind = uploadedCertificateKind then some (resolveUploaded providers)
  else if kind = "caddy.route" then some (resolveRoute str)
  else if kind = "npm.proxy_host" then some resolveProxyHost
  else none

/-- `resolve_provider_spec`: the authored state validated, resolved and
validated again. -/
def Providers.resolveProviderSpec (providers : Providers) (str : Json → String) (kind : String)
    (payload : Json) (context : ResolutionContext) : Except Raised Json := do
  let authored ← providers.validateSpec kind payload
  let resolved ← match providers.resolver str kind with
    | some resolver => resolver context authored
    | none => pure authored
  providers.validateResolved kind resolved

/-! ## Over the stored declarations -/

/-- `delivery_targets`: the specs of the targets that are on, in the order the
model lists its rows. -/
def deliveryTargets (declarations : List Declaration) : List Json :=
  ((declarations.filter fun row => row.enabled && row.kind == deliveryTargetKind).insertionSort
    fun first second => first.key ≤ second.key).map Declaration.spec

/-- An environment that validates and resolves as the provider registry does. A
fingerprint gives the context neither a status nor the routes. -/
def Environment.resolving (env : Environment) (providers : Providers) : Environment :=
  { env with
    resolutionInput := fun kind => kind == deliveryTargetKind
    validateSpec := providers.validateSpec
    resolveProviderSpec := fun db key kind spec =>
      providers.resolveProviderSpec env.str kind spec
        ⟨deliveryTargets db.declarations, none, key, none,
          providers.namesByConnection db.declarations⟩ }

variable (env : Environment) (providers : Providers)

theorem resolving_authored : (env.resolving providers).Authored := by
  intro db other hsame
  unfold Environment.resolving
  simp only [hsame]

/-- A delivery target has no resolver: its fingerprint is its own. -/
theorem desiredFingerprint_deliveryTarget (db other : Database) (key otherKey : String)
    (spec : Json) (enabled : Bool) :
    desiredFingerprint (env.resolving providers) db key deliveryTargetKind spec enabled =
      desiredFingerprint (env.resolving providers) other otherKey deliveryTargetKind spec
        enabled := by
  have hresolver : providers.resolver env.str deliveryTargetKind = none := rfl
  simp only [desiredFingerprint, Environment.resolving, Providers.resolveProviderSpec, hresolver]

end SeverinoHQ.ControlPlane
