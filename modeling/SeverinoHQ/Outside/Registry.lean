/-
# Reading an image's registry, and the public lookups

Every host a registry reader reads is named by someone else, so each of its requests, the
first, each redirect and each token's, is checked before it is made. A lookup's first host
is a setting, and each redirect is checked before it is followed.
-/

import SeverinoHQ.Outside.HttpRead

namespace SeverinoHQ.Outside

open SeverinoHQ.Math Dialogue Task

/-- The client's reading of a text and a query as a URL. -/
abbrev ParseUrl := String → List (String × String) → Option Url

section Registry

variable (parse : ParseUrl)

/-- `_checked`. -/
def checked (request : Request) : Read Unit :=
  if request.url.scheme ≠ "https" ∨ request.url.host = "" then
    throw (.read "A registry pointed somewhere other than an HTTPS address.")
  else do
    if ← publicHost request.url.host then pure ()
    else throw (.read s!"{request.url.host} is not a public address, so HQ does not read it.")

/-- `_request`; that nothing answered is the reader's own problem. -/
def registryRequest (url : Option Url) (accept method token : String) : Read Response :=
  ExceptT.adapt (fun problem => match problem with
    | .unreachable => .read "Could not reach the registry"
    | other => other) (fetch checked (fun _ => pure ()) method url accept token)

/-- An image's registry, repository, tag and digest. -/
structure ImageRef where
  registry : String
  repository : String
  tag : String
  digest : String
  deriving DecidableEq, Repr

def ImageRef.name (image : ImageRef) : String :=
  if image.registry = "" then image.repository else s!"{image.registry}/{image.repository}"

/-- `_API_HOST`. -/
def ImageRef.apiHost (image : ImageRef) : String :=
  if image.registry = "docker.io" then "registry-1.docker.io" else image.registry

def maxResponseBytes : Nat := 4 * 1024 * 1024

def maxStatementBytes : Nat := 32 * 1024 * 1024

/-- `_json`. -/
def readJson (response : Response) (limit : Nat) : Read Body :=
  if limit < response.length then
    throw (.read "The registry answered with more than HQ reads for this.")
  else
    match response.payload with
    | .broken => throw (.read "The registry answered with something other than JSON.")
    | .other => throw (.read "The registry answered with something other than an object.")
    | .object body => pure body

/-- `is_success`. -/
def Response.isSuccess (response : Response) : Bool :=
  decide (200 ≤ response.status) && decide (response.status ≤ 299)

def plainJson : String := "application/json"

/-- `_anonymous_token`. -/
def anonymousToken (challenge : Challenge) (image : ImageRef) : Read String :=
  if !challenge.realm.startsWith "https://" then
    throw (.read s!"{image.name}: the registry offers no anonymous access.")
  else do
    let query := [("service", challenge.service),
      ("scope", s!"repository:{image.repository}:pull")].filter fun field => field.2 ≠ ""
    let response ← registryRequest (parse challenge.realm query) plainJson "GET" ""
    if !response.isSuccess then
      throw (.refused (s!"{image.name}: the registry refused an anonymous read "
        ++ s!"(HTTP {response.status}); the image may be private."))
    else do
      let body ← readJson response maxResponseBytes
      if body.token = "" then
        throw (.read s!"{image.name}: the registry gave no anonymous token.")
      else pure body.token

/-- What `_get` answers: the body, the response and the token it read with. -/
structure Got where
  body : Body
  response : Response
  token : String

/-- The middle of `_get`: a challenge is answered once, with a token for anyone. -/
def answerChallenge (url : Option Url) (image : ImageRef) (accept method token : String)
    (first : Response) : Read (Response × String) :=
  match first.challenge with
  | none => pure (first, token)
  | some challenge =>
      if first.status = 401 ∧ token = "" then do
        let token ← anonymousToken parse challenge image
        let response ← registryRequest url accept method token
        pure (response, token)
      else pure (first, token)

/-- `_get`. -/
def registryGet (path : String) (image : ImageRef) (token : String)
    (accept method : String) (limit : Nat) : Read Got := do
  let url := parse s!"https://{image.apiHost}{path}" []
  let first ← registryRequest url accept method token
  let answered ← answerChallenge parse url image accept method token first
  if !answered.1.isSuccess then
    throw (.read s!"{image.name}: the registry returned HTTP {answered.1.status}.")
  else if method = "HEAD" then pure ⟨{}, answered.1, answered.2⟩
  else do
    let body ← readJson answered.1 limit
    pure ⟨body, answered.1, answered.2⟩

/-- `_MANIFESTS`. -/
def manifestTypes : String :=
  ", ".intercalate ["application/vnd.oci.image.index.v1+json",
    "application/vnd.docker.distribution.manifest.list.v2+json",
    "application/vnd.oci.image.manifest.v1+json",
    "application/vnd.docker.distribution.manifest.v2+json"]

def maxPages : Nat := 5

/-- The loop of `tags`: so many pages are left to read. -/
def tagPages (image : ImageRef) : Nat → String → String → List String → Read (List String)
  | 0, _, _, found => pure found
  | left + 1, path, token, found => do
      let got ← registryGet parse path image token plainJson "GET" maxResponseBytes
      let found := found ++ got.body.tags.filter (· ≠ "")
      match got.response.following with
      | none => pure found
      | some path => tagPages image left path got.token found

/-- `tags`. -/
def tags (image : ImageRef) : Read (List String) :=
  tagPages parse image maxPages s!"/v2/{image.repository}/tags/list?n=1000" "" []

/-- `_platform`. -/
def choosePlatform : List Manifest → Manifest → Manifest := fun manifests first =>
  (manifests.find? fun item => item.os == "linux" && item.architecture == "amd64").getD first

/-- The manifest of an index that is read, or the one that was. -/
def chosenManifest (image : ImageRef) (index : Got) : Read Got :=
  match index.body.manifests with
  | [] => pure index
  | first :: rest =>
      let digest := (choosePlatform (first :: rest) first).digest
      registryGet parse s!"/v2/{image.repository}/manifests/{digest}" image index.token
        manifestTypes "GET" maxResponseBytes

/-- `labels`. -/
def labels (image : ImageRef) : Read (List (String × String)) := do
  let reference :=
    if image.digest ≠ "" then image.digest else if image.tag ≠ "" then image.tag else "latest"
  let index ← registryGet parse s!"/v2/{image.repository}/manifests/{reference}" image ""
    manifestTypes "GET" maxResponseBytes
  let manifest ← chosenManifest parse image index
  if manifest.body.config = "" then pure []
  else do
    let config ← registryGet parse s!"/v2/{image.repository}/blobs/{manifest.body.config}" image
      manifest.token plainJson "GET" maxResponseBytes
    pure config.body.labels

def attestationManifest : String := "attestation-manifest"

/-- `SBOM_PREDICATES` and `PROVENANCE_PREDICATES`. -/
def readPredicates : List String :=
  ["https://spdx.dev/Document", "https://cyclonedx.org/bom",
    "https://slsa.dev/provenance/v0.2", "https://slsa.dev/provenance/v1"]

/-- The loop of `attestations` over the layers of the manifest found. -/
def statements (image : ImageRef) :
    List Layer → String → List (String × String) → Read (List (String × String))
  | [], _, found => pure found
  | layer :: layers, token, found =>
      if !readPredicates.contains layer.predicateType then statements image layers token found
      else if maxStatementBytes < layer.size then
        throw (.read s!"{image.name}: an attestation is larger than HQ reads.")
      else do
        let got ← registryGet parse s!"/v2/{image.repository}/blobs/{layer.digest}" image token
          plainJson "GET" maxStatementBytes
        statements image layers got.token (found ++ [(layer.predicateType, got.body.predicate)])

/-- `attestations`. -/
def attestations (image : ImageRef) (digest : String) :
    Read (String × List (String × String)) := do
  let index ← registryGet parse s!"/v2/{image.repository}/manifests/{digest}" image ""
    manifestTypes "GET" maxResponseBytes
  match index.body.manifests.filter fun item => item.referenceType ≠ attestationManifest with
  | [] => pure (digest, [])
  | first :: rest =>
      let platform := (choosePlatform (first :: rest) first).digest
      match index.body.manifests.find? fun item =>
          item.referenceType == attestationManifest && item.referenceDigest == platform with
      | none => pure (platform, [])
      | some attached => do
          let manifest ← registryGet parse s!"/v2/{image.repository}/manifests/{attached.digest}"
            image index.token manifestTypes "GET" maxResponseBytes
          let found ← statements parse image manifest.body.layers manifest.token []
          pure (platform, found)

/-- `sha256:` and 64 hexadecimal digits. -/
def isDigest (text : String) : Bool :=
  text.startsWith "sha256:" && text.length == 71 &&
    (text.toList.drop 7).all "0123456789abcdef".toList.contains

/-- `digest_of`. -/
def digestOf (image : ImageRef) (tag : String) : Read String := do
  let got ← registryGet parse s!"/v2/{image.repository}/manifests/{tag}" image "" manifestTypes
    "HEAD" maxResponseBytes
  pure (if isDigest got.response.contentDigest then got.response.contentDigest else "")

end Registry

/-! ## The lookup gateway -/

/-- `_https_public_redirects`. -/
def httpsPublicRedirects (response : Response) : Read Unit := do
  match ← redirectTarget response with
  | none => pure ()
  | some target =>
      if target.scheme ≠ "https" then
        throw (.unavailable "A registry redirected away from HTTPS.")
      else if target.host = "" then
        throw (.unavailable "A registry redirected to an address that is not public.")
      else if ← publicHost target.host then pure ()
      else throw (.unavailable "A registry redirected to an address that is not public.")

def maxAnswerBytes : Nat := 1024 * 1024

/-- `_get` of the gateway. -/
def lookupGet (url : Option Url) (accept : String) : Read Body := do
  let response ← ExceptT.adapt (fun problem => match problem with
    | .unreachable => .unavailable "The registry could not be reached."
    | other => other) (fetch (fun _ => pure ()) httpsPublicRedirects "GET" url accept "")
  if response.status = 404 then throw (.notFound "The registry has no record of that.")
  else if response.status ≠ 200 then throw (.unavailable "The registry answered unexpectedly.")
  else if maxAnswerBytes < response.length then
    throw (.unavailable "The registry answered with more than an answer.")
  else
    match response.payload with
    | .object body => pure body
    | .broken | .other => throw (.unavailable "The registry answered with nothing usable.")

section Gateway

variable (parse : ParseUrl)

/-- A lookup at a configured base, where the setting is one. -/
def lookup (base : Option String) (path : String) (params : List (String × String))
    (accept : String) : Read Body :=
  match base with
  | none => throw (.unavailable "That lookup service is not set up.")
  | some base => lookupGet (parse s!"{base}/{path}" params) accept

/-- `resolve`. -/
def resolve (base : Option String) (path : String) (params : List (String × String)) : Read Body :=
  lookup parse base path params plainJson

def rdapJson : String := "application/rdap+json, application/json"

/-- `registry`. -/
def registry (base : Option String) (address : String) : Read Body :=
  lookup parse base s!"ip/{address}" [] rdapJson

/-- `domain_registry`. -/
def domainRegistry (base : Option String) (name : String) : Read Body :=
  lookup parse base s!"domain/{name}" [] rdapJson

end Gateway

end SeverinoHQ.Outside
