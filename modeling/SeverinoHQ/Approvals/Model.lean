/-
# Held calls and their decisions

A change a credential asks for waits for a person. `hold_for_approval` stores the
call with a fingerprint of it and of the state it was read against; `approve`
takes the fingerprint again and runs the call only if it is still the same one;
`reject` and the hourly sweep end a request without running it.

Each call is one transaction. One that raises leaves everything as it was, while
`Settled` is answered, so the mark it was raised with is kept. What else the
estate holds is the environment's: the registry, the reads a baseline is made
of, and the handlers. Three histories are kept for the theorems to speak of, the
calls held, the documents digested and the held calls run, and no call reads them.
-/

import SeverinoHQ.Json
import SeverinoHQ.Math.Run
import SeverinoHQ.Math.Table

namespace SeverinoHQ.Approvals

open SeverinoHQ.Math

/-! ## Data -/

/-- `ApprovalState`. -/
inductive State where
  | pending
  | approved
  | rejected
  | expired
  | stale
  deriving DecidableEq, Repr

/-- The label of a state, as `get_state_display().lower()` writes it. -/
def State.display : State → String
  | .pending => "waiting for a person"
  | .approved => "approved and applied"
  | .rejected => "rejected"
  | .expired => "lapsed unanswered"
  | .stale => "superseded by a later change"

/-- Who acts, and through which door. -/
structure Principal where
  actor : String
  interface : String
  capabilities : List String
  approvedBy : String
  personKey : String
  device : String
  deriving DecidableEq, Repr

/-- `INTERACTIVE_INTERFACES`. -/
def interactiveInterfaces : List String := ["web", "device"]

/-- `is_interactive`: whether this act is a person's, rather than a credential's. -/
def isInteractive (principal : Principal) : Bool :=
  interactiveInterfaces.contains principal.interface

/-- What the approvals read of a registered capability. -/
structure CapabilitySpec where
  name : String
  effect : String
  subjectResource : String
  deriving DecidableEq, Repr

/-- What a baseline reads of a declaration. -/
structure ManagedResource where
  kind : String
  key : String
  spec : Json
  enabled : Bool
  generation : Nat
  status : Json
  deriving DecidableEq

/-- A canonical read of a record. -/
inductive ResourceRead where
  | found (document : Json)
  | recordNotFound
  | unsupported
  deriving DecidableEq

/-- `ApprovalSubject`. -/
structure ApprovalSubject where
  kind : String
  resourceKey : String
  baseline : Json
  deriving DecidableEq

/-- A row of `ApprovalRequest`. An empty target is none. -/
structure ApprovalRequest where
  id : Nat
  capability : String
  target : String
  payload : Json
  resourceKind : String
  resourceKey : String
  baseline : Json
  contentFingerprint : String
  requestedActor : String
  requestedInterface : String
  requestedDevice : String
  requestedPersonKey : String
  reason : String
  state : State
  expiresAt : Nat
  decidedActor : String
  decidedInterface : String
  decidedAt : Option Nat
  decisionNote : String
  result : Json
  deriving DecidableEq

/-- The estate the requests are about, as approvals read and change it. -/
structure Environment (ε : Type) where
  registry : String → Option CapabilitySpec
  /-- `authorize_capability`: what a principal without the authority is told. -/
  authorize : CapabilitySpec → Principal → Option String
  /-- `validate_command`: the command a payload becomes. -/
  validateCommand : ε → CapabilitySpec → Json → Option String → Except String Json
  /-- The declaration under a key. -/
  managedResource : ε → String → Option ManagedResource
  /-- `record_spec`: the spec a swept record reproduces. -/
  recordSpec : String → Json → Option Json
  /-- `get_resource`, read as HQ itself. -/
  getResource : ε → String → String → ResourceRead
  /-- `capability_fields`, by name. -/
  capabilityFields : CapabilitySpec → List String
  /-- Whether the brakes hold whoever asked for a request. -/
  heldAsker : ε → ApprovalRequest → Bool
  /-- `execute_approved`: the handler's answer with what it changed, or its error. -/
  executeApproved : ε → CapabilitySpec → Json → Option String → Principal → List String →
    Except String (ε × Json)
  /-- The hash of a document written out in its one canonical form. -/
  sha256 : Json → String

/-- A call that was held, with the baseline it was read against. -/
structure HeldAsk where
  id : Nat
  baseline : Json
  askedAt : Nat
  deriving DecidableEq

/-- A held call that ran: the request as the approval found it, when, and the
baseline the approval read. -/
structure HeldRun where
  request : ApprovalRequest
  ranAt : Nat
  baseline : Json
  deriving DecidableEq

/-- The estate, the requests and the histories. -/
structure World (ε : Type) where
  now : Nat
  estate : ε
  requests : List ApprovalRequest
  asks : List HeldAsk
  digested : List Json
  runs : List HeldRun

/-- Nothing is asked for yet. -/
def World.start {ε : Type} (now : Nat) (estate : ε) : World ε :=
  ⟨now, estate, [], [], [], []⟩

/-- What a decision is answered. -/
inductive Answer where
  | ok (answer : Json)
  /-- A refusal that marked its request first, and keeps the mark. -/
  | settled (reason : String)
  | refused (reason : String)
  deriving DecidableEq

/-! ## Text -/

/-- Python's `str.isspace`, of one character. -/
def isSpace (c : Char) : Bool :=
  [0x20, 0x85, 0xA0, 0x1680, 0x2028, 0x2029, 0x202F, 0x205F, 0x3000].contains c.toNat ||
    (0x09 ≤ c.toNat && c.toNat ≤ 0x0D) || (0x1C ≤ c.toNat && c.toNat ≤ 0x1F) ||
    (0x2000 ≤ c.toNat && c.toNat ≤ 0x200A)

/-- Python's `str.strip`. -/
def strip (text : String) : String :=
  String.ofList (((text.toList.dropWhile isSpace).reverse.dropWhile isSpace).reverse)

/-- Python's `text[:length]`. -/
def upTo (length : Nat) (text : String) : String := String.ofList (text.toList.take length)

/-- `str(getattr(command, name, ""))` of a text attribute. -/
def textAttribute (command : Json) (name : String) : String :=
  match command.get? name with
  | some (.str value) => value
  | _ => ""

/-- `"" if target is None else str(target)`. -/
def targetText (target : Option String) : String := target.getD ""

/-- `held.target or None`. -/
def ApprovalRequest.target? (held : ApprovalRequest) : Option String :=
  if held.target = "" then none else some held.target

/-! ## Subjects -/

/-- The document `fingerprint` digests. -/
def material (capability : String) (target : Option String) (payload baseline : Json) : Json :=
  .obj [("baseline", baseline), ("capability", .str capability), ("payload", payload),
    ("target", .str (targetText target))]

variable {ε : Type} (env : Environment ε)

/-- `fingerprint`. -/
def fingerprint (capability : String) (target : Option String) (payload baseline : Json) : String :=
  env.sha256 (material capability target payload baseline)

/-- `_baseline_of`. -/
def baselineOf (resource : ManagedResource) : Json :=
  let observed :=
    if resource.status.truthy then
      match env.recordSpec resource.kind resource.status with
      | some spec => if spec.truthy then spec else .obj []
      | none => .obj []
    else .obj []
  .obj [("enabled", .bool resource.enabled), ("generation", .num resource.generation),
    ("observed", observed), ("spec", resource.spec)]

/-- `_declaration_subject`. -/
def declarationSubject (estate : ε) (command : Json) : Option String → Option ApprovalSubject
  | some target =>
      (env.managedResource estate target).map fun resource =>
        ⟨resource.kind, resource.key, baselineOf env resource⟩
  | none => some ⟨textAttribute command "kind", textAttribute command "key", .obj []⟩

/-- `item_name`. -/
def itemName (item : Json) : String :=
  let named := ["name", "title", "label", "item_name", "item"].filterMap fun field =>
    match item.get? field with
    | some (.str candidate) => if strip candidate = "" then none else some (strip candidate)
    | _ => none
  named.headD ""

/-- What a change shows of a record: its name, and the fields the change sends. -/
def changedFields (spec : CapabilitySpec) (baseline : Json) : Json :=
  let read := (baseline.get? "resource").getD baseline
  let sent := (env.capabilityFields spec).filterMap fun key =>
    (baseline.get? key).map fun value => (key, value)
  let name := match read with
    | .obj _ => itemName read
    | _ => ""
  Json.dict (("name", .str name) :: sent)

/-- `_record_subject`. -/
def recordSubject (estate : ε) (spec : CapabilitySpec) (target : Option String) :
    Option ApprovalSubject :=
  let kind := if spec.subjectResource = "" then spec.name else spec.subjectResource
  match target with
  | none => some ⟨kind, "", .obj []⟩
  | some target =>
      if spec.subjectResource = "" then some ⟨kind, target, .obj []⟩
      else
        match env.getResource estate spec.subjectResource target with
        | .recordNotFound => none
        | .unsupported => some ⟨kind, target, .obj []⟩
        | .found baseline =>
            if baseline.truthy && spec.effect != "destructive" then
              some ⟨kind, target, changedFields env spec baseline⟩
            else some ⟨kind, target, baseline⟩

/-- `approval_subject`. -/
def approvalSubject (estate : ε) (spec : CapabilitySpec) (command : Json)
    (target : Option String) : Option ApprovalSubject :=
  if spec.effect = "read" then none
  else if spec.subjectResource = "infrastructure" then
    declarationSubject env estate command target
  else recordSubject env estate spec target

/-- The baseline an approval takes the fingerprint of: a target that cannot be
read any more has the empty one. -/
def currentBaseline (estate : ε) (spec : CapabilitySpec) (command : Json)
    (target : Option String) : Json :=
  match approvalSubject env estate spec command target with
  | some current => current.baseline
  | none => .obj []

/-! ## Asking -/

/-- `MAX_PENDING_PER_ACTOR`. -/
def maxPendingPerActor : Nat := 10

/-- `SEVERINO_APPROVAL_WINDOW_HOURS`, a day, in microseconds. -/
def window : Nat := 24 * 60 * 60 * 1000000

/-- What a caller whose call is held is told of its request. -/
def awaiting (held : ApprovalRequest) (repeated : Bool) : Json :=
  Json.dict [("ok", .bool true), ("status", .str "awaiting_approval"), ("queued", .bool false),
    ("applied", .bool false),
    ("message", .str ("This change is waiting for a person to approve it in HQ. Nothing has been " ++
      "written and nothing is queued. Tell whoever asked, with the request id, and stop; " ++
      "approving it is not something a token can do.")),
    ("repeated", .bool repeated), ("approval", .num held.id)]

/-- `_asked_already`: the pending request this caller already made for this change. -/
def World.askedAlready (world : World ε) (capability : String) (target : Option String)
    (digest : String) (principal : Principal) : Option ApprovalRequest :=
  world.requests.find? fun held =>
    held.capability == capability && held.target == targetText target &&
      held.contentFingerprint == digest && held.requestedActor == principal.actor &&
      held.requestedInterface == principal.interface &&
      held.requestedPersonKey == principal.personKey && held.state == .pending

/-- The row a held call is stored as. -/
def World.holding (world : World ε) (spec : CapabilitySpec) (payload command : Json)
    (target : Option String) (principal : Principal) (subject : ApprovalSubject) :
    ApprovalRequest where
  id := world.requests.length
  capability := spec.name
  target := targetText target
  payload := payload
  resourceKind := subject.kind
  resourceKey := subject.resourceKey
  baseline := subject.baseline
  contentFingerprint := fingerprint env spec.name target payload subject.baseline
  requestedActor := principal.actor
  requestedInterface := principal.interface
  requestedDevice := principal.device
  requestedPersonKey := principal.personKey
  reason := upTo 300 (textAttribute command "reason")
  state := .pending
  expiresAt := world.now + window
  decidedActor := ""
  decidedInterface := ""
  decidedAt := none
  decisionNote := ""
  result := .obj []

/-- `hold_for_approval`. None is answered for a call that needs no holding. -/
def holdForApproval (world : World ε) (spec : CapabilitySpec) (payload command : Json)
    (target : Option String) (principal : Principal) : World ε × Option Answer :=
  if isInteractive principal then (world, none)
  else
    match approvalSubject env world.estate spec command target with
    | none => (world, some (.refused ("This needs a person to approve it, but HQ could not read " ++
        "what it would change. Check the target and ask again.")))
    | some subject =>
        let held := world.holding env spec payload command target principal subject
        match world.askedAlready spec.name target held.contentFingerprint principal with
        | some existing => (world, some (.ok (awaiting existing true)))
        | none =>
            let outstanding := (world.requests.filter fun row =>
              row.requestedActor == principal.actor &&
                row.requestedPersonKey == principal.personKey && row.state == .pending).length
            if maxPendingPerActor ≤ outstanding then
              (world, some (.refused ("This caller already has " ++ toString outstanding ++
                " changes waiting for approval. Nothing further is accepted from it until those are answered.")))
            else
              ({ world with
                  requests := world.requests ++ [held]
                  asks := world.asks ++ [⟨held.id, subject.baseline, world.now⟩]
                  digested := world.digested ++
                    [material spec.name target payload subject.baseline] },
                some (.ok (awaiting held false)))

/-- A credential's call of a capability its policy holds, as the runner makes it. -/
def ask (world : World ε) (capability : String) (payload : Json) (target : Option String)
    (principal : Principal) : World ε × Option Answer :=
  match env.registry capability with
  | none => (world, some (.refused "unknown_capability"))
  | some spec =>
      match env.authorize spec principal with
      | some reason => (world, some (.refused reason))
      | none =>
          match env.validateCommand world.estate spec payload target with
          | .error reason => (world, some (.refused reason))
          | .ok command => holdForApproval env world spec payload command target principal

/-! ## Deciding -/

/-- A save of one request. -/
def World.save (world : World ε) (id : Nat) (write : ApprovalRequest → ApprovalRequest) : World ε :=
  { world with requests := Table.update world.requests (fun row => row.id == id) write }

/-- `_settle`: an outcome nobody chose. -/
def World.settle (world : World ε) (held : ApprovalRequest) (state : State) (note : String) :
    World ε :=
  world.save held.id fun row =>
    { row with state := state, decidedAt := some world.now, decisionNote := note }

/-- `_LAPSED_NOTE`. -/
def lapsedNote : String := "It expired without an answer."

/-- `_decidable`: the request, still undecided, or the answer in its place. -/
def decidable (world : World ε) (approvalId : Nat) : Except (World ε × Answer) ApprovalRequest :=
  match world.requests.find? fun row => row.id == approvalId with
  | none => .error (world, .refused "That approval request was not found.")
  | some held =>
      if held.state ≠ .pending then
        .error (world, .refused ("That request is already " ++ held.state.display ++ "."))
      else if held.expiresAt ≤ world.now then
        .error (world.settle held .expired lapsedNote, .settled ("That request expired before it " ++
          "was answered. Ask for it again if it is still wanted."))
      else .ok held

/-- `_require_person`: only a person, and not the caller that asked. -/
def requirePerson (principal : Principal) (held : ApprovalRequest) : Option String :=
  if !isInteractive principal then
    some "Approve this in the browser, signed in. An agent cannot approve a change."
  else if principal.actor = held.requestedActor then
    some "A request cannot be approved by whoever asked for it."
  else none

/-- `Principal(...)` of the asker, as the approver allowed it. -/
def acting (principal : Principal) (held : ApprovalRequest) : Principal where
  actor := held.requestedActor
  interface := held.requestedInterface
  capabilities := principal.capabilities
  approvedBy := principal.actor
  personKey := held.requestedPersonKey
  device := held.requestedDevice

/-- The names of the fields a payload holds. -/
def sentFields : Json → List String
  | .obj members => members.map Prod.fst
  | _ => []

/-- The application of `_apply`, in its own block: the row is read again, the
call is run, and the row says so. A decision must name who decided. -/
def applyHeld (world : World ε) (held : ApprovalRequest) (principal : Principal)
    (spec : CapabilitySpec) (command baseline : Json) : Except String (World ε × Json) :=
  match world.requests.find? fun row => row.id == held.id with
  | none => .error "ApprovalRequest.DoesNotExist"
  | some locked =>
      if locked.state ≠ .pending then
        .error ("That request is already " ++ locked.state.display ++ ".")
      else
        match env.executeApproved world.estate spec command locked.target?
            (acting principal held) (sentFields held.payload) with
        | .error reason => .error reason
        | .ok (estate, result) =>
            if principal.actor = "" then .error "approval_decision_names_who_decided"
            else
              let ran : World ε := { world with
                estate := estate
                runs := world.runs ++ [⟨locked, world.now, baseline⟩] }
              .ok (ran.save held.id fun row => { row with
                state := .approved
                decidedActor := principal.actor
                decidedInterface := principal.interface
                decidedAt := some world.now
                result := result }, result)

/-- `_apply`. -/
def apply (world : World ε) (held : ApprovalRequest) (principal : Principal) : World ε × Answer :=
  match env.registry held.capability with
  | none => (world, .refused ("What this request asks for is no longer something HQ can do, so it " ++
      "cannot be applied."))
  | some spec =>
      match requirePerson principal held with
      | some reason => (world, .refused reason)
      | none =>
          if env.heldAsker world.estate held then
            (world, .refused ("The agent that asked for this is paused or blocked. Resume or allow " ++
              "it to approve this, or decline it."))
          else
            match env.authorize spec principal with
            | some reason => (world, .refused reason)
            | none =>
                match env.validateCommand world.estate spec held.payload held.target? with
                | .error reason => (world, .refused reason)
                | .ok command =>
                    let baseline := currentBaseline env world.estate spec command held.target?
                    let digested := { world with digested := world.digested ++
                      [material held.capability held.target? held.payload baseline] }
                    if fingerprint env held.capability held.target? held.payload baseline ≠
                        held.contentFingerprint then
                      (digested.settle held .stale
                          "What it would change moved after it was requested.",
                        .settled ("This changed after the agent asked, so approving it would apply " ++
                          "something other than what is shown. Ask the agent to request it again."))
                    else
                      match applyHeld env digested held principal spec command baseline with
                      | .error reason => (world, .refused reason)
                      | .ok (applied, result) =>
                          (applied, .ok (Json.dict [("ok", .bool true),
                            ("approved", .num held.id), ("result", result)]))

/-- `approve`. -/
def approve (world : World ε) (approvalId : Nat) (principal : Principal) : World ε × Answer :=
  match decidable world approvalId with
  | .error ended => ended
  | .ok held => apply env world held principal

/-- `reject`. -/
def reject (world : World ε) (approvalId : Nat) (note : String) (principal : Principal) :
    World ε × Answer :=
  match decidable world approvalId with
  | .error ended => ended
  | .ok held =>
      match requirePerson principal held with
      | some reason => (world, .refused reason)
      | none =>
          if principal.actor = "" then
            (world, .refused "approval_decision_names_who_decided")
          else
            (world.save held.id fun row => { row with
                state := .rejected
                decidedActor := principal.actor
                decidedInterface := principal.interface
                decidedAt := some world.now
                decisionNote := upTo 300 (strip note) },
              .ok (Json.dict [("ok", .bool true), ("rejected", .num held.id)]))

/-- `lapse_expired`, of one of the requests it found: the row is read again under
its lock, and lapses if it is still pending and past its expiry. -/
def lapse (world : World ε) (approvalId : Nat) : World ε :=
  match world.requests.find? fun row =>
      row.id == approvalId && row.state == .pending && decide (row.expiresAt ≤ world.now) with
  | some held => world.settle held .expired lapsedNote
  | none => world

/-! ## Every caller at once -/

/-- What can happen next. An edit is any other change of the estate, by anyone. -/
inductive Event (ε : Type) where
  | tick (elapsed : Nat)
  | edit (change : ε → ε)
  | ask (capability : String) (payload : Json) (target : Option String) (principal : Principal)
  | approve (approvalId : Nat) (principal : Principal)
  | reject (approvalId : Nat) (note : String) (principal : Principal)
  | lapse (approvalId : Nat)

/-- One event. -/
def step (world : World ε) : Event ε → World ε
  | .tick elapsed => { world with now := world.now + elapsed }
  | .edit change => { world with estate := change world.estate }
  | .ask capability payload target principal => (ask env world capability payload target principal).1
  | .approve approvalId principal => (approve env world approvalId principal).1
  | .reject approvalId note principal => (reject world approvalId note principal).1
  | .lapse approvalId => lapse world approvalId

end SeverinoHQ.Approvals
