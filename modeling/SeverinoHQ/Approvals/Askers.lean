/-
# What an asker reads of the held requests

A hold is its asker's own, and an asker is a client at an interface as one
person. A repeated ask is looked for by all three. The two reads, of one request
by its id and of the requests still waiting, go by the client and the interface
alone, so what an agent reads is free of another asker's requests exactly when
the two differ in one of those.
-/

import SeverinoHQ.Approvals.Decisions

namespace SeverinoHQ.Approvals

open SeverinoHQ.Math

/-! ## The reads -/

/-- `OPERATOR_INTERFACES`. -/
def operatorInterfaces : List String := interactiveInterfaces ++ ["cli"]

/-- `AGENT_SURFACES`. -/
def agentSurfaces : List String := ["mcp", "api"]

/-- `is_agent`. -/
def isAgent (interface : String) : Bool := agentSurfaces.contains interface

/-- `reads_every_hold`: a person and HQ itself read every held request. -/
def readsEveryHold (principal : Principal) : Bool :=
  operatorInterfaces.contains principal.interface || principal.interface == "internal"

variable {ε : Type}

/-- `asked_by`: the held request a principal asked for, by its id. -/
def World.askedBy? (world : World ε) (approvalId : Nat) (principal : Principal) :
    Option ApprovalRequest :=
  world.requests.find? fun held =>
    held.id == approvalId && held.requestedActor == principal.actor &&
      held.requestedInterface == principal.interface

/-- `pending`: the requests still waiting that a principal may read, oldest first. -/
def World.pending (world : World ε) (principal : Principal) (limit : Option Nat) :
    Except String (List ApprovalRequest) :=
  if principal.capabilities.contains "read" then
    let waiting := world.requests.filter fun held =>
      held.state == .pending && decide (world.now < held.expiresAt) &&
        (readsEveryHold principal ||
          (held.requestedActor == principal.actor && held.requestedInterface == principal.interface))
    .ok (match limit with
      | some count => waiting.take count
      | none => waiting)
  else
    .error "read"

/-! ## Another asker's requests -/

/-- Whether a request is an asker's own: the same client, interface and person. -/
def ApprovalRequest.isOf (held : ApprovalRequest) (asker : Principal) : Bool :=
  held.requestedActor == asker.actor && held.requestedInterface == asker.interface &&
    held.requestedPersonKey == asker.personKey

/-- The held requests but an asker's own. -/
def World.requestsBut (world : World ε) (asker : Principal) : List ApprovalRequest :=
  world.requests.filter fun held => !held.isOf asker

/-- Two tables of held requests that a principal reads alike. -/
structure SameReads (reader : Principal) (world other : World ε) : Prop where
  askedBy : ∀ approvalId, world.askedBy? approvalId reader = other.askedBy? approvalId reader
  pending : ∀ limit, world.pending reader limit = other.pending reader limit
  askedAlready : ∀ capability target digest,
    world.askedAlready capability target digest reader =
      other.askedAlready capability target digest reader

/-- What a reader reads is the same whatever another asker asked for: in any two
histories that differ in that asker's requests, and before and after any more it makes. -/
structure ReadsApart (reader other : Principal) : Prop where
  histories : ∀ (ε : Type) (world world' : World ε), world.now = world'.now →
    world.requestsBut other = world'.requestsBut other → SameReads reader world world'
  asks : ∀ (ε : Type) (env : Environment ε) (world : World ε)
    (asked : List (String × Json × Option String)),
    SameReads reader world (run (step env) world
      (asked.map fun call => .ask call.1 call.2.1 call.2.2 other))

/-- A read that finds none of an asker's requests goes by the others alone. -/
theorem filter_eq_of_requestsBut {world world' : World ε} {other : Principal}
    (hsame : world.requestsBut other = world'.requestsBut other)
    {selects : ApprovalRequest → Bool}
    (hselects : ∀ held, selects held = true → held.isOf other = false) :
    world.requests.filter selects = world'.requests.filter selects := by
  have hthrough : ∀ requests : List ApprovalRequest,
      (requests.filter fun held => !held.isOf other).filter selects = requests.filter selects := by
    intro requests
    rw [List.filter_filter]
    apply List.filter_congr
    intro held _
    cases hheld : selects held with
    | true => simp [hselects held hheld]
    | false => simp
  rw [← hthrough world.requests, ← hthrough world'.requests]
  exact congrArg (List.filter selects) hsame

theorem find?_eq_of_requestsBut {world world' : World ε} {other : Principal}
    (hsame : world.requestsBut other = world'.requestsBut other)
    {selects : ApprovalRequest → Bool}
    (hselects : ∀ held, selects held = true → held.isOf other = false) :
    world.requests.find? selects = world'.requests.find? selects := by
  rw [← List.head?_filter, ← List.head?_filter, filter_eq_of_requestsBut hsame hselects]

section Apart

variable {reader other : Principal}

/-- A request by the reader's client at its interface is not the other's. -/
theorem isOf_eq_false (happart : reader.actor ≠ other.actor ∨ reader.interface ≠ other.interface)
    {held : ApprovalRequest} (hactor : held.requestedActor = reader.actor)
    (hinterface : held.requestedInterface = reader.interface) : held.isOf other = false := by
  rw [ApprovalRequest.isOf, hactor, hinterface]
  rcases happart with hactors | hinterfaces
  · simp [hactors]
  · simp [hinterfaces]

theorem readsEveryHold_of_isAgent (hagent : isAgent reader.interface = true) :
    readsEveryHold reader = false := by
  simp only [isAgent, agentSurfaces, List.contains_cons, List.contains_nil, Bool.or_false,
    Bool.or_eq_true, beq_iff_eq] at hagent
  unfold readsEveryHold
  rcases hagent with hmcp | hapi
  · rw [hmcp]
    decide
  · rw [hapi]
    decide

theorem sameReads_of_requestsBut (hagent : isAgent reader.interface = true)
    (happart : reader.actor ≠ other.actor ∨ reader.interface ≠ other.interface)
    {world world' : World ε} (hnow : world.now = world'.now)
    (hsame : world.requestsBut other = world'.requestsBut other) :
    SameReads reader world world' := by
  refine ⟨fun approvalId => ?_, fun limit => ?_, fun capability target digest => ?_⟩
  · apply find?_eq_of_requestsBut hsame
    intro held hheld
    simp only [Bool.and_eq_true, beq_iff_eq] at hheld
    exact isOf_eq_false happart hheld.1.2 hheld.2
  · unfold World.pending
    rw [hnow, filter_eq_of_requestsBut hsame]
    intro held hheld
    simp only [readsEveryHold_of_isAgent hagent, Bool.false_or, Bool.and_eq_true,
      beq_iff_eq] at hheld
    exact isOf_eq_false happart hheld.2.1 hheld.2.2
  · apply find?_eq_of_requestsBut hsame
    intro held hheld
    simp only [Bool.and_eq_true, beq_iff_eq] at hheld
    exact isOf_eq_false happart hheld.1.1.1.2 hheld.1.1.2

end Apart

/-! ## More asks -/

/-- An ask holds at most one request, its asker's own. -/
theorem ask_requests (env : Environment ε) (world : World ε) (capability : String) (payload : Json)
    (target : Option String) (asker : Principal) :
    (ask env world capability payload target asker).1.now = world.now ∧
      (ask env world capability payload target asker).1.requestsBut asker =
        world.requestsBut asker := by
  unfold ask
  split
  · exact ⟨rfl, rfl⟩
  split
  · exact ⟨rfl, rfl⟩
  split
  · exact ⟨rfl, rfl⟩
  unfold holdForApproval
  split
  · exact ⟨rfl, rfl⟩
  split
  · exact ⟨rfl, rfl⟩
  dsimp only
  split
  · exact ⟨rfl, rfl⟩
  split
  · exact ⟨rfl, rfl⟩
  · refine ⟨rfl, ?_⟩
    simp [World.requestsBut, ApprovalRequest.isOf, World.holding]

theorem run_asks_requests (env : Environment ε) (asker : Principal)
    (asked : List (String × Json × Option String)) (world : World ε) :
    (run (step env) world (asked.map fun call => .ask call.1 call.2.1 call.2.2 asker)).now =
        world.now ∧
      (run (step env) world
          (asked.map fun call => .ask call.1 call.2.1 call.2.2 asker)).requestsBut asker =
        world.requestsBut asker := by
  induction asked generalizing world with
  | nil => exact ⟨rfl, rfl⟩
  | cons call asked ih =>
      obtain ⟨hnow, hrequests⟩ := ask_requests env world call.1 call.2.1 call.2.2 asker
      obtain ⟨hrunNow, hrunRequests⟩ := ih (step env world (.ask call.1 call.2.1 call.2.2 asker))
      exact ⟨hrunNow.trans hnow, hrunRequests.trans hrequests⟩

/-! ## A person behind the same client -/

/-- A pending request of an asker. -/
def waitingRequest (asker : Principal) : ApprovalRequest where
  id := 0
  capability := "project.update"
  target := "attic"
  payload := .obj []
  resourceKind := "project"
  resourceKey := "attic"
  baseline := .obj []
  contentFingerprint := ""
  requestedActor := asker.actor
  requestedInterface := asker.interface
  requestedDevice := ""
  requestedPersonKey := asker.personKey
  reason := ""
  state := .pending
  expiresAt := 1
  decidedActor := ""
  decidedInterface := ""
  decidedAt := none
  decisionNote := ""
  result := .obj []

/-- What an agent reads is apart from what another asker asked for exactly when
the two differ in their client or their interface. -/
theorem readsApart_iff (reader other : Principal) (hagent : isAgent reader.interface = true) :
    ReadsApart reader other ↔ reader.actor ≠ other.actor ∨ reader.interface ≠ other.interface := by
  constructor
  · intro h
    by_contra hsame
    push Not at hsame
    obtain ⟨hactor, hinterface⟩ := hsame
    have hempty : (⟨0, (), [], [], [], []⟩ : World Unit).requestsBut other =
        (⟨0, (), [waitingRequest other], [], [], []⟩ : World Unit).requestsBut other := by
      simp [World.requestsBut, ApprovalRequest.isOf, waitingRequest]
    have hread := (h.histories Unit ⟨0, (), [], [], [], []⟩
      ⟨0, (), [waitingRequest other], [], [], []⟩ rfl hempty).askedBy 0
    simp [World.askedBy?, waitingRequest, hactor, hinterface] at hread
  · intro happart
    refine ⟨fun _ _ _ hnow hsame => sameReads_of_requestsBut hagent happart hnow hsame, ?_⟩
    intro _ env world asked
    obtain ⟨hnow, hrequests⟩ := run_asks_requests env other asked world
    exact sameReads_of_requestsBut hagent happart hnow.symm hrequests.symm

/-- One client, signed in by two people. -/
def signedIn (personKey : String) : Principal := ⟨"claude", "mcp", ["read"], "", personKey, ""⟩

theorem claude_reads_apart_from_codex :
    ReadsApart (signedIn "a1") ⟨"codex", "mcp", ["read"], "", "b2", ""⟩ :=
  (readsApart_iff (signedIn "a1") ⟨"codex", "mcp", ["read"], "", "b2", ""⟩ (by decide)).mpr
    (Or.inl (by decide))

/-- An estate in which a project's change is held, with nothing to read of it. -/
def holdingEnvironment : Environment Unit where
  registry name :=
    if name = "project.update" then some ⟨"project.update", "write", ""⟩ else none
  authorize _ _ := none
  validateCommand _ _ payload _ := .ok payload
  managedResource _ _ := none
  recordSpec _ _ := none
  getResource _ _ _ := .unsupported
  capabilityFields _ := []
  heldAsker _ _ := false
  executeApproved _ _ _ _ _ _ := .error ""
  sha256 _ := "28bfd30d506fba1a5d0281fc7ecdee4d143ed7a1e680796c2352fac4d0792588"

/-- The second person's ask is the only thing that happened. -/
def secondAsked : World Unit :=
  run (step holdingEnvironment) (World.start 0 ())
    [.ask "project.update" (.obj [("name", .str "Cellar")]) (some "attic") (signedIn "b2")]

/-- What the first person's agent reads holds the second person's request: by its
id, and among those that wait. -/
theorem client_reads_another_persons :
    ¬(∀ reader other : Principal, isAgent reader.interface = true →
      (reader.actor ≠ other.actor ∨ reader.interface ≠ other.interface ∨
        reader.personKey ≠ other.personKey) → ReadsApart reader other) ∧
      (secondAsked.askedBy? 0 (signedIn "a1")).map ApprovalRequest.requestedPersonKey = some "b2" ∧
      ((secondAsked.pending (signedIn "a1") (some 50)).toOption.map fun held =>
        held.map ApprovalRequest.requestedPersonKey) = some ["b2"] := by
  refine ⟨fun h => ?_, by decide, by decide⟩
  have hreads := h (signedIn "a1") (signedIn "b2") (by decide) (Or.inr (Or.inr (by decide)))
  have hsame := (hreads.asks Unit holdingEnvironment (World.start 0 ())
    [("project.update", .obj [("name", .str "Cellar")], some "attic")]).askedBy 0
  revert hsame
  decide

end SeverinoHQ.Approvals
