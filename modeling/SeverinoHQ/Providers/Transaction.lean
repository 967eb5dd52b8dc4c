/-
# One certificate deployed, verified or put back

Every consumer is read until all serve the certificate, the wait is over, or a call
that cannot be done without fails. Where the attempt fails the previous certificate is
deployed again, if the failure is a provider's.
-/

import Mathlib.Algebra.Group.Int.Defs
import SeverinoHQ.Providers.Certificates

namespace SeverinoHQ.Providers

open SeverinoHQ.Math Dialogue Task

variable (library : Library)

/-! ## Reading the consumers -/

/-- The serving proxy hosts with a name the certificate covers. -/
def npmCoveredHosts (domains : List String) : Act (List ProxyHost) := do
  let session ← npmSession
  let hosts ← npmProxyHostList library session
  return hosts.filter fun host =>
    host.enabled && host.domainNames.any fun domain => certificateCovers domain domains

/-- The names to read one consumer on: declared, and what NPM routes. -/
def consumerDomains (spec : Spec) (consumer : Consumer) : Act (List String) :=
  if consumer.kind = .npm ∧ consumer.discoverCoveredHosts then do
    let covered ← npmCoveredHosts library spec.domains
    return (consumer.verifyDomains ++ covered.flatMap ProxyHost.domainNames).dedup.insertionSort (· ≤ ·)
  else pure consumer.verifyDomains

/-- What a consumer serves for one name, read at its host. -/
def observe (consumer : Consumer) (domain connectHost : String) :
    Dialogue Call Reply (Except Err Observation) := do
  let host := if connectHost = "" then domain else connectHost
  let read : Except Err Bytes ← Dialogue.call (Call.peer domain host)
  match read with
  | .error problem =>
      if problem.foreign then return .error (.caused ("TLS read of " ++ domain) none problem)
      else return .error problem
  | .ok der =>
      if der = [] then
        return .error (.provider ("TLS read of " ++ domain ++ " returned no certificate") none)
      else
        match library.parseCertificate der with
        | .error problem =>
            return .error (.caused ("TLS read of " ++ domain ++ ": certificate unreadable") none
              (.other problem))
        | .ok parsed =>
            return .ok {
              domain
              notAfter := parsed.notAfter
              fingerprint := library.fingerprint der
              issuer := parsed.issuer
              sans := parsed.sans.insertionSort (· ≤ ·)
              certificatePEM := parsed.pem
              consumer := consumer.name
              consumerKind := consumer.kind
              matchesExpected := none }

/-- A consumer's names read in turn: one that cannot be read is said so. -/
def observeEach (consumer : Consumer) (connectHost : String) :
    List String → Dialogue Call Reply (List Observation × List Unreachable)
  | [] => return ([], [])
  | domain :: domains => do
      let observed ← observe library consumer domain connectHost
      let rest ← observeEach consumer connectHost domains
      match observed with
      | .error problem =>
          let endpoint := if connectHost = "" then domain else connectHost
          return (rest.1, ⟨consumer.name, domain, endpoint, problem.text⟩ :: rest.2)
      | .ok observation => return (observation :: rest.1, rest.2)

/-- A consumer read on its names, which may be none. -/
def readConsumer (consumer : Consumer) (domains : List String) : Dialogue Call Reply Turn :=
  if domains = [] then return ⟨consumer, [], [], []⟩
  else
    match library.endpoint consumer.kind consumer.connectionRef with
    | .error problem => return ⟨consumer, domains, [], [⟨consumer.name, "", "", problem.text⟩]⟩
    | .ok connectHost => do
        let read ← observeEach library consumer connectHost domains
        return ⟨consumer, domains, read.1, read.2⟩

/-- Every consumer read in turn. -/
def readTurns (spec : Spec) : List Consumer → Act (List Turn)
  | [] => pure []
  | consumer :: consumers => do
      let domains ← consumerDomains library spec consumer
      let turn ← ExceptT.lift (readConsumer library consumer domains)
      let turns ← readTurns spec consumers
      return turn :: turns

/-- The reading that expires first, and the one that expires last. -/
def soonest (first : Observation) (rest : List Observation) : Observation :=
  rest.foldl (fun kept item => if item.notAfter < kept.notAfter then item else kept) first

def newest (first : Observation) (rest : List Observation) : Observation :=
  rest.foldl (fun kept item => if kept.notAfter < item.notAfter then item else kept) first

/-- What the turns say of the certificate. -/
def statusOf (turns : List Turn) : Except Err Status :=
  let unreachable := turns.flatMap Turn.unreachable
  match turns.flatMap Turn.observations with
  | [] =>
      if unreachable = [] then .error (.provider "no domains to verify TLS on were set" none)
      else
        .error (.provider ("no service that serves the certificate could be reached: " ++
          "; ".intercalate (unreachable.map Unreachable.reason)) none)
  | first :: rest =>
      match library.parseTime (soonest first rest).notAfter with
      | some problem => .error (.caused "certificate expiry unreadable" none (.other problem))
      | none =>
          .ok {
            issuer := (newest first rest).issuer
            notAfter := (soonest first rest).notAfter
            artifactNotAfter := (newest first rest).notAfter
            certificatePEM := (newest first rest).certificatePEM
            verifiedDomains := ((first :: rest).map Observation.domain).insertionSort (· ≤ ·)
            consumers := first :: rest
            unreachableConsumers := unreachable }

/-- What every consumer serves, and what it says of the certificate. -/
def reconcileTLS (spec : Spec) : Act (List Turn × Status) := do
  let turns ← readTurns library spec spec.consumers
  let status ← given (statusOf library turns)
  return (turns, status)

/-! ## Verifying -/

/-- How long to keep checking, and how often, in whole seconds. -/
structure Policy where
  timeout : Int
  interval : Int
  deriving DecidableEq, Repr

/-- The bounds a renewal's verification policy must fall inside. -/
def verificationPolicy (policy : Option Policy) : Except Err Policy :=
  match policy with
  | none => .error (.provider "TLS renewal sets no verification policy" none)
  | some policy =>
      if policy.timeout < 30 ∨ 600 < policy.timeout ∨ policy.interval < 1 ∨ 30 < policy.interval ∨
          policy.timeout < policy.interval then
        .error (.provider "TLS renewal verification policy is out of bounds" none)
      else .ok policy

/-- Whether every consumer was read and every reading is the expected certificate, as the
readings say by the consumers' names. -/
def consumersServe (spec : Spec) (status : Status) (expected : String) : Bool :=
  let seen := (status.consumers.map Observation.fingerprint).dedup
  status.unreachableConsumers.isEmpty &&
    spec.consumers.all (fun consumer => status.consumers.any (·.consumer == consumer.name)) &&
    seen.length == 1 && seen.contains expected

/-- What was found of one name that is not shown serving the certificate. -/
def unservedLines (spec : Spec) (status : Status) (expected name : String) : List String :=
  let readings := status.consumers.filter (·.consumer == name)
  let stale := readings.filter (·.fingerprint != expected)
  let missed := status.unreachableConsumers.filter (·.consumer == name)
  let places := ((missed.map Unreachable.domain).filter (· != "")).insertionSort (· ≤ ·)
  (if stale = [] then []
    else [name ++ " still serves the previous certificate at " ++
      ", ".intercalate ((stale.map Observation.domain).insertionSort (· ≤ ·))]) ++
  (if missed = [] then []
    else [name ++ " could not be read" ++
      if places = [] then "" else " at " ++ ", ".intercalate places]) ++
  (if readings = [] ∧ missed = [] then
      (spec.consumers.filter (·.name == name)).map fun _ => name ++ " has no verification domain"
    else [])

/-- Each name not shown serving the certificate, in order, and what was found. -/
def unserved (spec : Spec) (status : Status) (expected : String) : List (String × List String) :=
  let names := (status.consumers.map Observation.consumer ++
    status.unreachableConsumers.map Unreachable.consumer ++ spec.consumers.map Consumer.name).dedup
  ((names.insertionSort (· ≤ ·)).map fun name => (name, unservedLines spec status expected name)).filter
    (·.2 != [])

/-- What is said when the wait is over. -/
def unservedError (spec : Spec) (policy : Policy) (status : Status) (expected : String) : Err :=
  let failing := unserved spec status expected
  .provider (toString failing.length ++ " of " ++ toString spec.consumers.length ++
      " services did not start serving the certificate within " ++ toString policy.timeout ++ "s: " ++
      "; ".intercalate (failing.flatMap Prod.snd))
    (some ⟨expected, status.consumers.map fun item =>
      ⟨item.consumer, item.consumerKind, item.domain, item.fingerprint, item.fingerprint == expected⟩⟩)

/-- The rounds of a verification, up to `rounds` of them; none where it is still going on
after these. -/
def verifyLoop (spec : Spec) (policy : Policy) (expected : String) (deadline : Int) :
    Nat → Act (Option (List Turn × Status))
  | 0 => pure none
  | rounds + 1 => do
      let read ← reconcileTLS library spec
      if consumersServe spec read.2 expected then return some read
      else
        let time ← now
        if ¬time < deadline then throw (unservedError spec policy read.2 expected)
        else
          sleep (policy.interval * 10 ^ 9)
          verifyLoop spec policy expected deadline rounds

/-- Every consumer read until each serves the expected certificate. -/
def verifyTLSDeployment (spec : Spec) (policy : Option Policy) (expected : String) (rounds : Nat) :
    Act (Option (List Turn × Status)) := do
  let policy ← given (verificationPolicy policy)
  let started ← now
  verifyLoop library spec policy expected (started + policy.timeout * 10 ^ 9) rounds

/-! ## The transaction -/

/-- The expected fingerprint beside every observation. -/
def matchEvidence (status : Status) (expected : String) : Status :=
  { status with
    expectedFingerprint := expected
    consumers := status.consumers.map fun item =>
      { item with matchesExpected := some (item.fingerprint == expected) } }

/-- What a transaction is asked for. -/
structure Request where
  plan : Plan
  pair : Pair
  previous : Pair
  policy : Option Policy
  artifactSource : String
  reason : String
  message : String
  deriving DecidableEq, Repr

/-- The certificate deployed to every consumer, and every consumer read until it serves it. -/
def deployAndVerify (request : Request) (expected : String) (rounds : Nat) :
    Act (Option (Deployment × List Turn × Status)) := do
  let deployment ← deployCertificate library request.plan request.pair
  let verified ← verifyTLSDeployment library request.plan.spec request.policy expected rounds
  return verified.map fun read => (deployment, read)

/-- What is said when the previous certificate could not be put back either. -/
def rollbackFailed (failed rollback : Err) : Err :=
  .provider ("certificate deployment failed (" ++ failed.text ++ "); rollback also failed (" ++
    rollback.text ++ ")") none

/-- The previous certificate put back after a failure, and what is said of both. -/
def rollBack (request : Request) (failed : Err) : Act (Option Result) :=
  match failed.asProvider with
  | none => throw failed
  | some status => ExceptT.mk do
      let redeployed ← (deployCertificate library request.plan request.previous).run
      match redeployed with
      | .error rollback => return .error (rollbackFailed failed rollback)
      | .ok _ =>
          return .error (.caused "certificate deployment failed, rollback succeeded" status failed)

/-- What is reported of a certificate every consumer serves. -/
def report (request : Request) (expected : String) (served : Deployment × List Turn × Status) : Result :=
  { changed := true
    status := { matchEvidence served.2.2 expected with
      deployment := served.1
      artifactSource := request.artifactSource
      renewedFingerprint := expected }
    reason := request.reason
    condition := "Every site is serving this certificate."
    message := request.message
    turns := served.2.1 }

/-- A certificate installed, every consumer proven to serve it, and the previous one put
back if either step fails; none where it is still verifying after these rounds. -/
def deployTransaction (request : Request) (rounds : Nat) : Act (Option Result) := do
  let expected ← given (validateCertificate library request.pair.fullchain request.pair.privateKey
    request.plan.spec.domains)
  ExceptT.mk do
    let attempted ← (deployAndVerify library request expected rounds).run
    match attempted with
    | .error failed => (rollBack library request failed).run
    | .ok served => return .ok (served.map (report request expected))

end SeverinoHQ.Providers
