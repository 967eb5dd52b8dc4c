/-
# Certificates and what serves them

A certificate is deployed to its consumers one after another, each is then read until
all of them serve it, and a failure of either step puts the previous certificate back.
What a call answers is any error or anything it can answer; a provider's errors are
those that hold a `ProviderError` in their chain.
-/

import SeverinoHQ.Edge.Receiver
import SeverinoHQ.Math.Task
import Mathlib.Data.List.Dedup
import Mathlib.Data.List.Sort

namespace SeverinoHQ.Providers

open SeverinoHQ.Math Dialogue Task

/-! ## Errors -/

inductive Kind
  | npm
  | caddy
  | cpanel
  deriving DecidableEq, Repr

def Kind.text : Kind → String
  | .npm => "npm"
  | .caddy => "caddy"
  | .cpanel => "cpanel"

/-- What one consumer served when a deployment did not activate. -/
structure ConsumerEvidence where
  consumer : String
  kind : Kind
  domain : String
  fingerprint : String
  matchesExpected : Bool
  deriving DecidableEq, Repr

structure Evidence where
  expected : String
  consumers : List ConsumerEvidence
  deriving DecidableEq, Repr

/-- A `ProviderError`, without or with its cause; an error wrapped with context; any
other error. -/
inductive Err
  | provider (message : String) (status : Option Evidence)
  | caused (message : String) (status : Option Evidence) (cause : Err)
  | wrapped (said : String) (cause : Err)
  | other (text : String)
  deriving DecidableEq, Repr

/-- The status of the `ProviderError` in an error's chain, where it holds one. -/
def Err.asProvider : Err → Option (Option Evidence)
  | .provider _ status => some status
  | .caused _ status _ => some status
  | .wrapped _ cause => cause.asProvider
  | .other _ => none

/-- An error with no `ProviderError` in its chain. -/
def Err.foreign (error : Err) : Prop := error.asProvider = none

instance (error : Err) : Decidable error.foreign := inferInstanceAs (Decidable (_ = none))

def Err.text : Err → String
  | .provider message _ => message
  | .caused message _ cause => if message = "" then cause.text else message ++ ": " ++ cause.text
  | .wrapped said cause => said ++ ": " ++ cause.text
  | .other text => text

/-! ## Certificates, consumers and what is read of them -/

structure Consumer where
  kind : Kind
  name : String
  connectionRef : String
  verifyDomains : List String
  discoverCoveredHosts : Bool := false
  deriving DecidableEq, Repr

structure Spec where
  domains : List String
  consumers : List Consumer
  deriving DecidableEq, Repr

/-- What one consumer served for one name. -/
structure Observation where
  domain : String
  notAfter : String
  fingerprint : String
  issuer : String
  sans : List String
  certificatePEM : String
  consumer : String
  consumerKind : Kind
  matchesExpected : Option Bool
  deriving DecidableEq, Repr

/-- A consumer that could not be read, and where the reading was tried. -/
structure Unreachable where
  consumer : String
  domain : String
  endpoint : String
  reason : String
  deriving DecidableEq, Repr

/-- What reading one consumer gave: the names it was read on, and each one's reading. -/
structure Turn where
  consumer : Consumer
  domains : List String
  observations : List Observation
  unreachable : List Unreachable
  deriving DecidableEq, Repr

/-- What a deployment installed, for the report. -/
structure Deployment where
  npmCertificateId : Option Int := none
  npmCertificateIdentity : Option String := none
  npmCertificateIds : List (String × Int) := []
  cpanelSites : List (String × List String) := []
  deriving DecidableEq, Repr

structure Status where
  issuer : String
  notAfter : String
  artifactNotAfter : String
  certificatePEM : String
  verifiedDomains : List String
  consumers : List Observation
  unreachableConsumers : List Unreachable
  expectedFingerprint : String := ""
  deployment : Deployment := {}
  artifactSource : String := ""
  renewedFingerprint : String := ""
  deriving DecidableEq, Repr

/-- A result, with the turns its status was read in. Its one condition is that the
certificate is ready, for a reason. -/
structure Result where
  changed : Bool
  status : Status
  reason : String
  condition : String
  message : String
  turns : List Turn
  deriving DecidableEq, Repr

/-! ## Nginx Proxy Manager's records -/

structure CertificateObject where
  id : Option Int
  niceName : String
  provider : String
  deriving DecidableEq, Repr

structure ProxyHost where
  id : Option Int
  enabled : Bool
  domainNames : List String
  deriving DecidableEq, Repr

/-- The part of an NPM certificate HQ reads. -/
structure CertificateSummary where
  id : Int
  niceName : String
  provider : String
  deriving DecidableEq, Repr

/-- An NPM API address and its sign-in. -/
structure Session where
  base : String
  token : String
  deriving DecidableEq, Repr

inductive Payload
  | empty
  | create (provider niceName : String)
  | files (certificate key intermediate : Bytes)
  | attach (certificateId : Int)
  deriving DecidableEq, Repr

/-! ## The calls -/

inductive Call
  | ssh (ref operation : String) (payload : Bytes)
  | npmSession
  | request (address method : String) (session : Session) (payload : Payload)
  | peer (domain host : String)
  | now
  | sleep (interval : Int)
  deriving DecidableEq, Repr

@[reducible]
def Reply : Call → Type
  | .ssh _ _ _ => Except Err Bytes
  | .npmSession => Except Err Session
  | .request _ _ _ _ => Except Err Bytes
  | .peer _ _ => Except Err Bytes
  | .now => Int
  | .sleep _ => Except Err Unit

abbrev Act := Task Call Reply Err

def ssh (ref operation : String) (payload : Bytes) : Act Bytes :=
  ExceptT.mk (Dialogue.call (Call.ssh ref operation payload))

def npmSession : Act Session := ExceptT.mk (Dialogue.call Call.npmSession)

def request (address method : String) (session : Session) (payload : Payload) : Act Bytes :=
  ExceptT.mk (Dialogue.call (Call.request address method session payload))

def sleep (interval : Int) : Act Unit := ExceptT.mk (Dialogue.call (Call.sleep interval))

def now : Act Int := ExceptT.lift (Dialogue.call Call.now)

/-- What a certificate read from a peer says. -/
structure Parsed where
  notAfter : String
  issuer : String
  sans : List String
  pem : String
  deriving DecidableEq, Repr

/-- What the provider uses of the libraries under it, and of the connections supplied. -/
structure Library where
  edge : Edge.Library
  /-- The DER bytes and the DNS names of a chain's first certificate. -/
  leaf : Bytes → Bytes × List String
  /-- The hexadecimal SHA-256 of DER bytes. -/
  fingerprint : Bytes → String
  /-- The tar of a chain and its key. -/
  bundle : Bytes → Bytes → Bytes
  /-- The JSON a cPanel deploy is sent: its sites, the leaf, the key and the chain. -/
  cpanelPayload : List String → Bytes → Bytes → Bytes → Bytes
  decodeCertificates : Bytes → Except String (List CertificateObject)
  decodeCertificate : Bytes → Except String CertificateObject
  decodeHosts : Bytes → Except String (List ProxyHost)
  parseCertificate : Bytes → Except String Parsed
  /-- `time.Parse`, as the problem it meets. -/
  parseTime : String → Option String
  /-- Where a consumer of a kind and a connection is reached. -/
  endpoint : Kind → String → Except Err String

variable (library : Library)

/-! ## Deploying -/

/-- What ends a certificate. -/
def certificateEnd : Bytes := Bytes.ascii "-----END CERTIFICATE-----"

/-- The leaf and the rest of a chain. -/
def splitChain (fullchain : Bytes) : Except Err (Bytes × Bytes) :=
  match Bytes.splitSeq certificateEnd fullchain with
  | leaf :: rest :: others =>
      .ok (leaf ++ certificateEnd ++ [10],
        ((rest :: others).intersperse certificateEnd).flatten.dropWhile
          ([32, 9, 10, 13, 11, 12].contains ·))
  | _ => .error (.provider "certificate chain does not contain a leaf certificate" none)

/-- The leaf's fingerprint, once its key and its names are checked. -/
def validateCertificate (fullchain privateKey : Bytes) (domains : List String) : Except Err String :=
  match Edge.pair library.edge fullchain privateKey with
  | .error .mismatch => .error (.provider "certificate and private key do not match" none)
  | .error (.unreadable side problem) => .error (.caused side none (.other (side ++ "\n" ++ problem)))
  | .ok _ =>
      let leaf := library.leaf fullchain
      match (domains.dedup.insertionSort (· ≤ ·)).filter fun domain => domain ∉ leaf.2 with
      | [] => .ok (library.fingerprint leaf.1)
      | missing =>
          .error (.provider ("issued certificate is missing names: " ++ ", ".intercalate missing) none)

/-- A host name, as names are compared. -/
def hostname (value : String) : String :=
  String.ofList (((Text.trimSpace value).toLower.toList.reverse.dropWhile (· == '.')).reverse)

/-- TLS wildcard matching: a wildcard covers one label. -/
def certificateCovers (domain : String) (names : List String) : Bool :=
  let normalized := hostname domain
  normalized ∈ names ||
    match normalized.toList.dropWhile (· != '.') with
    | _ :: parent => "*." ++ String.ofList parent ∈ names
    | [] => false

/-- An NPM list answer; an empty answer is an empty list. -/
def npmDecode {α : Type} (decode : Bytes → Except String (List α)) (raw : Bytes) (what : String) :
    Except Err (List α) :=
  if raw = [] then .ok []
  else
    match decode raw with
    | .ok items => .ok items
    | .error problem => .error (.caused (what ++ " did not decode") none (.other problem))

/-- A record's id; NPM always gives one. -/
def npmID (id : Option Int) (what : String) : Except Err Int :=
  match id with
  | some id => .ok id
  | none => .error (.provider ("npm " ++ what ++ " record has no id") none)

def npmSummary (certificate : CertificateObject) : Except Err CertificateSummary :=
  match npmID certificate.id "certificate" with
  | .ok id => .ok ⟨id, certificate.niceName, certificate.provider⟩
  | .error problem => .error problem

/-- NPM's certificates, read fresh. -/
def npmCertificateList (session : Session) : Act (List CertificateSummary) := do
  let raw ← ExceptT.adapt (Err.wrapped "npm certificate list")
    (request (session.base ++ "/nginx/certificates") "GET" session .empty)
  let certificates ← given (npmDecode library.decodeCertificates raw "npm certificate list")
  given (certificates.mapM npmSummary)

/-- The proxy hosts, read fresh. -/
def npmProxyHostList (session : Session) : Act (List ProxyHost) := do
  let raw ← ExceptT.adapt (Err.wrapped "npm proxy host list")
    (request (session.base ++ "/nginx/proxy-hosts") "GET" session .empty)
  given (npmDecode library.decodeHosts raw "npm proxy host list")

/-- The display name HQ gives the certificate it installs for a consumer. -/
def npmCertificateName (consumer : Consumer) : String := "Severino HQ - " ++ consumer.name

/-- The certificate to upload into, among those NPM holds: by its recorded id, else by
its display name; none where it is to be created. -/
def npmMatch (consumer : Consumer) (certificates : List CertificateSummary) (known : Option Int) :
    Except Err (Option Int) :=
  let byId := certificates.filter fun item => some item.id == known
  let found := if byId = [] then
      certificates.filter fun item => item.niceName == npmCertificateName consumer
    else byId
  match found with
  | [] => .ok none
  | [item] =>
      if item.provider ≠ "other" then
        .error (.provider "the HQ-managed npm certificate is not a custom certificate" none)
      else .ok (some item.id)
  | _ =>
      .error (.provider ("npm holds more than one HQ-managed certificate for " ++
        npmCertificateName consumer) none)

/-- The certificate's id, made where there is none. -/
def npmCertificateId (session : Session) (consumer : Consumer) (found : Option Int) : Act Int :=
  match found with
  | some id => pure id
  | none => do
      let created ← ExceptT.adapt (Err.wrapped "npm create certificate")
        (request (session.base ++ "/nginx/certificates") "POST" session
          (.create "other" (npmCertificateName consumer)))
      match library.decodeCertificate created with
      | .error problem =>
          throw (.caused "npm create certificate answer did not decode" none (.other problem))
      | .ok answer => given (npmID answer.id "created certificate")

/-- The hosts a consumer's certificate is attached to, or the names no host serves. -/
def npmMatching (consumer : Consumer) (domains : List String) (hosts : List ProxyHost) :
    Except Err (List ProxyHost) :=
  let matching := hosts.filter fun host => host.enabled &&
    host.domainNames.any fun domain => consumer.verifyDomains.contains domain ||
      consumer.discoverCoveredHosts && certificateCovers domain domains
  let covered := matching.flatMap fun host => host.domainNames
  match (consumer.verifyDomains.dedup.insertionSort (· ≤ ·)).filter fun domain => domain ∉ covered with
  | [] => .ok matching
  | missing =>
      .error (.provider ("npm has no enabled proxy host for verification names " ++
        ", ".intercalate missing) none)

/-- The certificate attached to each host in turn. -/
def npmAttach (session : Session) (certificateId : Int) : List ProxyHost → Act Unit
  | [] => pure ()
  | host :: hosts => do
      let id ← given (npmID host.id "proxy host")
      let _ ← ExceptT.adapt (Err.wrapped ("npm attach certificate to proxy host " ++ toString id))
        (request (session.base ++ "/nginx/proxy-hosts/" ++ toString id) "PUT" session
          (.attach certificateId))
      npmAttach session certificateId hosts

/-- The certificate uploaded into the one HQ installed for this consumer, and attached. -/
def npmManagedCertificate (consumer : Consumer) (domains : List String)
    (fullchain privateKey : Bytes) (known : Option Int) : Act Int := do
  let session ← npmSession
  let certificates ← npmCertificateList library session
  let found ← given (npmMatch consumer certificates known)
  let certificateId ← npmCertificateId library session consumer found
  let (leaf, chain) ← given (splitChain fullchain)
  let files := Payload.files leaf privateKey chain
  let _ ← ExceptT.adapt (Err.wrapped "npm validate certificate")
    (request (session.base ++ "/nginx/certificates/validate") "POST" session files)
  let _ ← ExceptT.adapt (Err.wrapped "npm upload certificate")
    (request (session.base ++ "/nginx/certificates/" ++ toString certificateId ++ "/upload") "POST"
      session files)
  let hosts ← npmProxyHostList library session
  let matching ← given (npmMatching consumer domains hosts)
  npmAttach session certificateId matching
  return certificateId

/-- A value under a name: replaced where it is, else added. -/
def assign {α : Type} (entries : List (String × α)) (name : String) (value : α) : List (String × α) :=
  if entries.any (·.1 == name) then
    entries.map fun entry => if entry.1 == name then (name, value) else entry
  else entries ++ [(name, value)]

/-- One deploy's certificate and key, with what was planned and what is known of each
consumer. -/
structure Pair where
  fullchain : Bytes
  privateKey : Bytes
  deriving DecidableEq, Repr

/-- What every deploy of a transaction is made by. -/
structure Plan where
  spec : Spec
  sites : List (String × List String)
  known : List (String × Int)
  deriving DecidableEq, Repr

/-- The certificate deployed to one consumer, and what the report says of it. -/
def deployTo (plan : Plan) (pair : Pair) (deployment : Deployment) (consumer : Consumer) :
    Act Deployment :=
  ExceptT.adapt (Err.wrapped ("deploy to " ++ consumer.name ++ " (" ++ consumer.kind.text ++ ")")) <|
    match consumer.kind with
    | .npm => do
        let id ← npmManagedCertificate library consumer plan.spec.domains pair.fullchain
          pair.privateKey (plan.known.lookup consumer.name)
        return { deployment with
          npmCertificateId := some id
          npmCertificateIdentity := some (npmCertificateName consumer)
          npmCertificateIds := assign deployment.npmCertificateIds consumer.name id }
    | .caddy => do
        let _ ← ssh consumer.connectionRef "deploy" (library.bundle pair.fullchain pair.privateKey)
        return deployment
    | .cpanel => do
        let (leaf, chain) ← given (splitChain pair.fullchain)
        let sites := (plan.sites.lookup consumer.name).getD []
        let _ ← ssh consumer.connectionRef "deploy"
          (library.cpanelPayload sites leaf pair.privateKey chain)
        return { deployment with
          cpanelSites := assign deployment.cpanelSites consumer.name sites }

/-- The certificate deployed to every consumer in turn. -/
def deployFrom (plan : Plan) (pair : Pair) (deployment : Deployment) :
    List Consumer → Act Deployment
  | [] => pure deployment
  | consumer :: consumers => do
      let deployment ← deployTo library plan pair deployment consumer
      deployFrom plan pair deployment consumers

def deployCertificate (plan : Plan) (pair : Pair) : Act Deployment := do
  let _ ← given (splitChain pair.fullchain)
  deployFrom library plan pair {} plan.spec.consumers

end SeverinoHQ.Providers
