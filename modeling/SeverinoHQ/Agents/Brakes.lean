/-
# The brakes, at the door and behind it

A call is refused at the door by the caller's own rows: its client's block, its
device's standing and the pause. What it asked for before waits behind the door,
as a held request or a queued operation, and is withheld by a query over the rows
that asked. The query goes by the client and the device whoever signed in, so a
block or the pause withholds at least what it refuses. A device's approval is a
brake on the door alone.
-/

import SeverinoHQ.Approvals.Askers
import SeverinoHQ.ControlPlane.Controller

namespace SeverinoHQ.Agents

open SeverinoHQ.Approvals (Principal agentSurfaces ApprovalRequest)
open SeverinoHQ.ControlPlane (OperationRequest)

/-! ## What the brakes read -/

/-- `TOKEN_INTERFACES`: every interface a token reaches HQ through. -/
def tokenInterfaces : List String := agentSurfaces ++ ["device"]

/-- One client as one person, or a machine's client alone. -/
structure AgentIdentity where
  id : Nat
  clientId : String
  personKey : String
  blockedAt : Option Nat
  deriving DecidableEq, Repr

/-- A tailnet device an identity called from. -/
structure AgentDevice where
  id : Nat
  identity : Nat
  nodeId : String
  approvedAt : Option Nat
  blockedAt : Option Nat
  deriving DecidableEq, Repr

/-- The tables the brakes read, in the order the database answers, and which of
them it can answer from. A statement over one it cannot raises `DatabaseError`. -/
structure Brakes where
  identities : List AgentIdentity
  devices : List AgentDevice
  /-- The `paused` of the one row of `AgentAccess`, where there is one. -/
  access : Option Bool
  identitiesReadable : Bool
  devicesReadable : Bool
  accessReadable : Bool
  deriving DecidableEq, Repr

namespace Brakes

variable (brakes : Brakes)

/-- `agents_paused`. Fails closed. -/
def agentsPaused : Bool := !brakes.accessReadable || brakes.access.getD false

/-- `paused_interfaces`. -/
def pausedInterfaces : List String := if brakes.agentsPaused then agentSurfaces else []

/-- `_blocked_clients`. -/
def blockedClients : List AgentIdentity := brakes.identities.filter (·.blockedAt.isSome)

/-- The identities a device's row belongs to. -/
def identityOf (device : AgentDevice) : List AgentIdentity :=
  brakes.identities.filter (·.id == device.identity)

/-! ## At the door -/

/-- `blocked`: as this person. Fails closed. -/
def blocked (principal : Principal) : Bool :=
  !brakes.identitiesReadable || brakes.blockedClients.any fun identity =>
    identity.clientId == principal.actor && identity.personKey == principal.personKey

/-- `_rows_of`. -/
def rowsOf (principal : Principal) : List AgentDevice :=
  brakes.devices.filter fun device => device.nodeId == principal.device &&
    (brakes.identityOf device).any fun identity =>
      identity.clientId == principal.actor && identity.personKey == principal.personKey

/-- Whether a statement over the devices and their identities is answered. -/
def rowsReadable : Bool := brakes.identitiesReadable && brakes.devicesReadable

end Brakes

/-- What a device's record says of an agent's call from it. -/
inductive DeviceStanding where
  | unplaced
  | approved
  | awaiting
  | blocked
  deriving DecidableEq, Repr

/-- Why a caller may do nothing right now. -/
structure AgentRefusal where
  code : String
  reason : String
  deriving DecidableEq, Repr

/-- `AGENTS_PAUSED`. -/
def agentsPausedRefusal : AgentRefusal := ⟨"agents_paused", "Agents are paused by the operator."⟩

/-- `AGENT_BLOCKED`. -/
def agentBlocked : AgentRefusal := ⟨"agent_blocked", "This client is blocked by the operator."⟩

/-- `DEVICE_AWAITING_APPROVAL`. -/
def deviceAwaitingApproval : AgentRefusal :=
  ⟨"device_awaiting_approval",
    "This client has not been approved on this device. The person it acts for approves the device " ++
      "on HQ's Agents page, and the next call from it runs."⟩

/-- `DEVICE_BLOCKED`. -/
def deviceBlocked : AgentRefusal :=
  ⟨"device_blocked",
    "This client is blocked on this device by the operator. It is allowed again on HQ's Agents page."⟩

/-- `_DEVICE_REFUSALS`. -/
def deviceRefusals : DeviceStanding → Option AgentRefusal
  | .awaiting => some deviceAwaitingApproval
  | .blocked => some deviceBlocked
  | .unplaced | .approved => none

namespace Brakes

variable (brakes : Brakes)

/-- `standing`. Fails closed. -/
def standing (principal : Principal) : DeviceStanding :=
  if !agentSurfaces.contains principal.interface || principal.device == "" then .unplaced
  else if !brakes.rowsReadable then .blocked
  else
    match (brakes.rowsOf principal).head? with
    | none => .awaiting
    | some row =>
        if row.blockedAt.isSome then .blocked
        else if row.approvedAt.isNone then .awaiting
        else .approved

/-- `where`: the address of a device's row on the Agents page, or nothing. -/
def deviceRow (agentsPage : String) (principal : Principal) : String :=
  if !brakes.rowsReadable then ""
  else
    match (brakes.rowsOf principal).head? with
    | none => ""
    | some row => agentsPage ++ "#device-" ++ toString row.id

/-- `refusal`. -/
def refusal (agentsPage : String) (principal : Principal) : Option AgentRefusal :=
  if tokenInterfaces.contains principal.interface && brakes.blocked principal then
    some agentBlocked
  else
    match deviceRefusals (brakes.standing principal) with
    | some device =>
        let row := brakes.deviceRow agentsPage principal
        some (if row ≠ "" then ⟨device.code, device.reason ++ " Its row there: " ++ row⟩ else device)
    | none =>
        if brakes.pausedInterfaces.contains principal.interface then some agentsPausedRefusal
        else none

end Brakes

/-! ## Behind the door -/

/-- The columns of a stored ask that say who asked. -/
structure Asker where
  requestedActor : String
  requestedInterface : String
  requestedDevice : String
  deriving DecidableEq, Repr

/-- Who a principal's ask is stored under. -/
def askerOf (principal : Principal) : Asker :=
  ⟨principal.actor, principal.interface, principal.device⟩

/-- Who asked for a held request. -/
def heldBy (held : ApprovalRequest) : Asker :=
  ⟨held.requestedActor, held.requestedInterface, held.requestedDevice⟩

/-- Who asked for an operation. -/
def queuedBy (operation : OperationRequest) : Asker :=
  ⟨operation.requestedActor, operation.requestedInterface, operation.requestedDevice⟩

namespace Brakes

variable (brakes : Brakes)

/-- `blocked_askers`: asked from a blocked device, whoever's sign-in it was. -/
def blockedAskers (asker : Asker) : Bool :=
  (brakes.devices.any fun device => device.blockedAt.isSome &&
    (brakes.identityOf device).any (·.clientId == asker.requestedActor) &&
    device.nodeId == asker.requestedDevice) &&
  agentSurfaces.contains asker.requestedInterface

/-- `held_askers`: whether a row is one the query finds, where it is answered. -/
def heldAskers (asker : Asker) : Option Bool :=
  if !brakes.rowsReadable then none
  else some (
    (tokenInterfaces.contains asker.requestedInterface &&
      (brakes.blockedClients.map AgentIdentity.clientId).contains asker.requestedActor) ||
    brakes.blockedAskers asker ||
    brakes.pausedInterfaces.contains asker.requestedInterface)

/-- Whether a row stays where it is: the query finds it, or raises, and then the
statement that asked it ends with nothing approved and nothing claimed. -/
def withholds (asker : Asker) : Bool := (brakes.heldAskers asker).getD true

/-- Approvals, decided under these brakes. -/
def approving {ε : Type} (env : Approvals.Environment ε) : Approvals.Environment ε :=
  { env with heldAsker := fun _ held => brakes.withholds (heldBy held) }

/-- The queue, claimed from under these brakes. -/
def claiming (env : ControlPlane.Environment) : ControlPlane.Environment :=
  { env with heldAskers := fun operation => brakes.withholds (queuedBy operation) }

/-! ## A brake on the door is one behind it -/

/-- A client blocked as its person is among the blocked clients. -/
theorem withholds_of_blocked {principal : Principal}
    (htoken : tokenInterfaces.contains principal.interface = true)
    (h : brakes.blocked principal = true) : brakes.withholds (askerOf principal) = true := by
  unfold withholds heldAskers
  split
  · rfl
  · next hreadable =>
      simp only [rowsReadable, Bool.not_eq_true', Bool.and_eq_false_iff, not_or,
        Bool.not_eq_false] at hreadable
      simp only [blocked, hreadable.1, Bool.not_true, Bool.false_or, List.any_eq_true,
        Bool.and_eq_true, beq_iff_eq] at h
      obtain ⟨identity, hidentity, hclient, -⟩ := h
      have hlisted : (brakes.blockedClients.map AgentIdentity.clientId).contains principal.actor := by
        rw [List.contains_iff_mem]
        exact List.mem_map.mpr ⟨identity, hidentity, hclient⟩
      simp only [askerOf, htoken, hlisted, Bool.true_and, Bool.true_or, Option.getD_some]

/-- A device blocked for its identity is blocked for its client. -/
theorem withholds_of_standing {principal : Principal} (h : brakes.standing principal = .blocked) :
    brakes.withholds (askerOf principal) = true := by
  unfold withholds heldAskers
  split
  · rfl
  · next hreadable =>
      unfold standing at h
      split_ifs at h with hsurface
      · simp only [Bool.or_eq_true, Bool.not_eq_true', beq_iff_eq, not_or,
          Bool.not_eq_false] at hsurface
        split at h
        · exact absurd h (by simp)
        · next row hrow =>
            split_ifs at h with hblocked
            have hmem := List.mem_of_mem_head? (Option.mem_def.mpr hrow)
            simp only [rowsOf, List.mem_filter, Bool.and_eq_true, beq_iff_eq, List.any_eq_true] at hmem
            obtain ⟨hstored, hnode, identity, hidentity, hclient, -⟩ := hmem
            have hasker : brakes.blockedAskers (askerOf principal) = true := by
              simp only [blockedAskers, askerOf, hsurface.1, Bool.and_true, List.any_eq_true,
                Bool.and_eq_true, beq_iff_eq]
              exact ⟨row, hstored, ⟨hblocked, identity, hidentity, hclient⟩, hnode⟩
            simp only [hasker, Bool.or_true, Bool.true_or, Option.getD_some]

theorem withholds_of_paused {principal : Principal}
    (h : brakes.pausedInterfaces.contains principal.interface = true) :
    brakes.withholds (askerOf principal) = true := by
  unfold withholds heldAskers
  split
  · rfl
  · simp only [askerOf, h, Bool.or_true, Option.getD_some]

/-- Every refusal is a block's, the pause's, or a device's that waits for approval. -/
theorem refusal_cases {agentsPage : String} {principal : Principal} {refused : AgentRefusal}
    (h : brakes.refusal agentsPage principal = some refused) :
    (tokenInterfaces.contains principal.interface = true ∧ brakes.blocked principal = true) ∨
      brakes.standing principal = .blocked ∨
      brakes.pausedInterfaces.contains principal.interface = true ∨
      refused.code = deviceAwaitingApproval.code := by
  by_cases hpaused : brakes.pausedInterfaces.contains principal.interface = true
  · exact Or.inr (Or.inr (Or.inl hpaused))
  unfold refusal at h
  split at h
  · next hblocked => exact Or.inl (Bool.and_eq_true_iff.mp hblocked)
  · cases hstanding : brakes.standing principal with
    | blocked => exact Or.inr (Or.inl rfl)
    | awaiting =>
        rw [hstanding] at h
        obtain rfl := Option.some.inj h
        refine Or.inr (Or.inr (Or.inr ?_))
        split <;> rfl
    | unplaced => simp_all [deviceRefusals]
    | approved => simp_all [deviceRefusals]

end Brakes

/-! ## What is withheld is neither approved nor claimed -/

/-- A withheld request stays as it was, whoever decides. -/
theorem apply_withheld {ε : Type} {brakes : Brakes} (env : Approvals.Environment ε)
    (world : Approvals.World ε) {held : ApprovalRequest} (approver : Principal)
    (h : brakes.withholds (heldBy held) = true) :
    ∃ reason, Approvals.apply (brakes.approving env) world held approver =
      (world, .refused reason) := by
  unfold Approvals.apply
  split
  · exact ⟨_, rfl⟩
  · split
    · exact ⟨_, rfl⟩
    · have hheld : (brakes.approving env).heldAsker world.estate held = true := h
      rw [if_pos hheld]
      exact ⟨_, rfl⟩

/-- An approval of a withheld request runs nothing and approves nothing. -/
theorem approve_withheld {ε : Type} {brakes : Brakes} {env : Approvals.Environment ε}
    {world : Approvals.World ε} {held : ApprovalRequest} {approvalId : Nat} (approver : Principal)
    (hfound : world.requests.find? (fun row => row.id == approvalId) = some held)
    (h : brakes.withholds (heldBy held) = true) :
    (Approvals.approve (brakes.approving env) world approvalId approver).1.runs = world.runs ∧
      (Approvals.approve (brakes.approving env) world approvalId approver).1.estate =
        world.estate ∧
      ∀ result, (Approvals.approve (brakes.approving env) world approvalId approver).2 ≠
        .ok result := by
  unfold Approvals.approve Approvals.decidable
  rw [hfound]
  dsimp only
  by_cases hpending : held.state ≠ .pending
  · rw [if_pos hpending]
    exact ⟨rfl, rfl, nofun⟩
  by_cases hexpired : held.expiresAt ≤ world.now
  · rw [if_neg hpending, if_pos hexpired]
    exact ⟨rfl, rfl, nofun⟩
  · rw [if_neg hpending, if_neg hexpired]
    dsimp only
    obtain ⟨reason, happly⟩ := apply_withheld env world approver h
    rw [happly]
    exact ⟨rfl, rfl, nofun⟩

theorem mem_of_nextResolvable {env : ControlPlane.Environment} {now : ControlPlane.Moment}
    {operations : List OperationRequest} {db stored : ControlPlane.Database}
    {operation : OperationRequest} {contract : ControlPlane.Contract}
    (h : ControlPlane.nextResolvable env now operations db =
      (stored, some (operation, contract))) : operation ∈ operations := by
  induction operations generalizing db with
  | nil => simp [ControlPlane.nextResolvable] at h
  | cons first rest ih =>
      rw [ControlPlane.nextResolvable] at h
      split at h
      · exact List.mem_cons_of_mem _ (ih h)
      · split at h
        · obtain ⟨-, hpicked⟩ := Prod.mk.inj h
          obtain ⟨rfl, -⟩ := Prod.mk.inj (Option.some.inj hpicked)
          exact List.mem_cons_self
        · exact List.mem_cons_of_mem _ (ih h)

/-- What a claim hands out is not withheld. -/
theorem claimed_not_withheld {brakes : Brakes} {env : ControlPlane.Environment}
    {now : ControlPlane.Moment} {call : ControlPlane.ClaimCall}
    {db stored : ControlPlane.Database} {claimed : ControlPlane.Claimed}
    (h : ControlPlane.claimNextOperation (brakes.claiming env) now call db =
      .ok (stored, some claimed)) :
    brakes.withholds (queuedBy claimed.operation) = false := by
  unfold ControlPlane.claimNextOperation at h
  split_ifs at h
  split at h
  · exact absurd h (by simp)
  · next before operation contract hpicked =>
      obtain ⟨-, hclaimed⟩ := Prod.mk.inj (Except.ok.inj h)
      obtain rfl := Option.some.inj hclaimed
      have hmem := mem_of_nextResolvable hpicked
      rw [ControlPlane.claimable, (List.perm_insertionSort _ _).mem_iff] at hmem
      have hselected := (List.mem_filter.mp hmem).2
      simp only [Bool.and_eq_true, Bool.not_eq_true'] at hselected
      exact hselected.1.2

/-! ## A refused caller's asks -/

/-- The asks of one caller, through these brakes: withheld, approved by nobody
and claimed by no controller. -/
structure Withheld (brakes : Brakes) (principal : Principal) : Prop where
  held : brakes.withholds (askerOf principal) = true
  approved : ∀ (ε : Type) (env : Approvals.Environment ε) (world : Approvals.World ε)
    (held : ApprovalRequest) (approvalId : Nat) (approver : Principal),
    world.requests.find? (fun row => row.id == approvalId) = some held →
    heldBy held = askerOf principal → held.requestedPersonKey = principal.personKey →
    (Approvals.approve (brakes.approving env) world approvalId approver).1.runs = world.runs ∧
      (Approvals.approve (brakes.approving env) world approvalId approver).1.estate =
        world.estate ∧
      ∀ result, (Approvals.approve (brakes.approving env) world approvalId approver).2 ≠
        .ok result
  claimed : ∀ (env : ControlPlane.Environment) (now : ControlPlane.Moment)
    (call : ControlPlane.ClaimCall) (db stored : ControlPlane.Database)
    (claimed : ControlPlane.Claimed),
    ControlPlane.claimNextOperation (brakes.claiming env) now call db =
      .ok (stored, some claimed) → queuedBy claimed.operation ≠ askerOf principal

/-- A caller refused for a block or the pause has its asks withheld. -/
theorem refused_withheld (brakes : Brakes) (agentsPage : String) (principal : Principal)
    (refused : AgentRefusal) (hrefused : brakes.refusal agentsPage principal = some refused)
    (hbrake : refused.code = deviceAwaitingApproval.code →
      brakes.pausedInterfaces.contains principal.interface = true) :
    Withheld brakes principal := by
  have hheld : brakes.withholds (askerOf principal) = true := by
    rcases brakes.refusal_cases hrefused with ⟨htoken, hblocked⟩ | hstanding | hpaused | hawaiting
    · exact brakes.withholds_of_blocked htoken hblocked
    · exact brakes.withholds_of_standing hstanding
    · exact brakes.withholds_of_paused hpaused
    · exact brakes.withholds_of_paused (hbrake hawaiting)
  refine ⟨hheld, ?_, ?_⟩
  · intro ε env world held approvalId approver hfound hasker _
    exact approve_withheld approver hfound (hasker ▸ hheld)
  · intro env now call db stored claimed hclaimed hasker
    have hfree := claimed_not_withheld hclaimed
    rw [hasker, hheld] at hfree
    exact Bool.noConfusion hfree

/-- An agent on a laptop its person approved, and on the same laptop once the
person has blocked it or withdrawn the approval. -/
def laptopBrakes (approvedAt blockedAt : Option Nat) : Brakes where
  identities := [⟨1, "claude", "a1", none⟩]
  devices := [⟨4, 1, "n-laptop", approvedAt, blockedAt⟩]
  access := none
  identitiesReadable := true
  devicesReadable := true
  accessReadable := true

/-- The agent, calling from the laptop. -/
def laptopAgent : Principal := ⟨"claude", "mcp", ["read"], "", "a1", "n-laptop"⟩

theorem blocked_laptop_withheld :
    (laptopBrakes (some 1) none).refusal "/agents/" laptopAgent = none ∧
      Withheld (laptopBrakes (some 1) (some 2)) laptopAgent :=
  ⟨by decide, refused_withheld (laptopBrakes (some 1) (some 2)) "/agents/" laptopAgent
    ⟨"device_blocked", "This client is blocked on this device by the operator. It is allowed " ++
      "again on HQ's Agents page. Its row there: /agents/#device-4"⟩ (by decide) (by decide)⟩

/-- With the approval withdrawn the agent is refused, and what it asked for from
the same laptop is not withheld. -/
theorem withdrawn_laptop_not_withheld :
    ¬(∀ (brakes : Brakes) (principal : Principal),
      tokenInterfaces.contains principal.interface = true →
      (brakes.refusal "/agents/" principal).isSome = true → Withheld brakes principal) ∧
      ((laptopBrakes none none).refusal "/agents/" laptopAgent).map AgentRefusal.code =
        some "device_awaiting_approval" ∧
      (laptopBrakes none none).heldAskers (askerOf laptopAgent) = some false := by
  refine ⟨fun h => ?_, by decide, by decide⟩
  have hheld := (h (laptopBrakes none none) laptopAgent (by decide) (by decide)).held
  revert hheld
  decide

end SeverinoHQ.Agents
