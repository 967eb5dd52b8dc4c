/-
# When the controller sweeps

What each provider was last seen holding is stored with when it was tried, and a reading
somebody asked for is stored as a request until it is answered or expires. `sweepDue` says
whether a sweep is due and which kinds it reads, `settleReadRequests` forgets the requests
that ended.
-/

import Mathlib.Data.List.Dedup
import Mathlib.Data.List.Sort
import SeverinoHQ.Math.Dict
import SeverinoHQ.Math.Letters

namespace SeverinoHQ.Cadence

open SeverinoHQ.Math

/-- An instant or a length of time, in microseconds. -/
abbrev Moment := Int

/-- `timedelta(seconds=_seconds(name))`. -/
def seconds (setting : Int) : Moment := max 0 setting * 1000000

/-! ## The registries -/

/-- Who reads a kind, of `READERS`. -/
inductive Reader where
  | controller
  | hq
  | request
  deriving DecidableEq, Repr

/-- `ReadingPart`: what of a kind another provider's credential may read. -/
structure Part where
  name : String
  provider : String
  deriving DecidableEq, Repr

/-- A kind of `OBSERVATIONS`. -/
structure Observation where
  provider : String
  parts : List Part
  readBy : Reader
  every : Option Moment
  deriving DecidableEq, Repr

/-- A kind of `PROVIDERS`. -/
structure ProviderSpec where
  connectionProviders : List String
  parts : List Part
  unobservedReason : String
  deriving DecidableEq, Repr

/-- `CONNECTION_CREDENTIALS`, by its providers, `OBSERVATIONS` and `PROVIDERS`. -/
structure Registry where
  credentials : List String
  observations : Dict String Observation
  providers : Dict String ProviderSpec

namespace Registry

variable (registry : Registry)

/-- `swept`. -/
def swept (kind : String) : Bool :=
  match registry.observations.get? kind with
  | some reading => reading.readBy == .controller
  | none => (registry.providers.get? kind).any (·.unobservedReason == "")

/-- `every_sweep`. -/
def everySweep (kind : String) : Bool :=
  registry.swept kind && (registry.observations.get? kind).all (·.every.isNone)

/-- `parts_of`. -/
def partsOf (kind : String) : List Part :=
  let declared := match registry.observations.get? kind with
    | some spec => spec.parts
    | none => ((registry.providers.get? kind).map ProviderSpec.parts).getD []
  let whole : Dict String Part := Dict.empty.set "" ⟨"", ""⟩
  (declared.foldl (fun parts part => parts.set part.name part) whole).items.map Prod.snd

/-- The kinds of `_fed` under a provider. -/
def fed (provider : String) : List String :=
  if provider ∈ registry.credentials then
    (registry.observations.items.filter (·.2.provider == provider)).map Prod.fst ++
      registry.providers.items.flatMap fun item =>
        (if item.2.unobservedReason = "" then
          (item.2.connectionProviders.filter (· == provider)).map fun _ => item.1
        else []) ++
        if provider ≠ "" ∧ provider ∉ item.2.connectionProviders ∧
            (registry.partsOf item.1).any (·.provider == provider) then [item.1]
        else []
  else []

/-- `fed_kinds`. -/
def fedKinds (provider : String) : List String := (registry.fed provider).eraseDups

end Registry

/-! ## What is stored -/

/-- `ProviderInventory`: when what a provider holds was last read and last tried. -/
structure Inventory where
  kind : String
  observedAt : Option Moment
  updatedAt : Moment
  deriving DecidableEq, Repr

/-- `ProviderConnection`, as one controller last found it. -/
structure Connection where
  connectionRef : String
  controllerId : String
  provider : String
  reachable : Bool
  probed : Bool
  observedAt : Moment
  deriving DecidableEq, Repr

/-- `ReadRequest`: a connection, a kind or, with neither, everything. -/
structure ReadRequest where
  connectionRef : String
  kind : String
  requestedAt : Moment
  deriving DecidableEq, Repr

/-- What a request is for; at most one is stored for each. -/
def ReadRequest.subject (request : ReadRequest) : String × String :=
  (request.connectionRef, request.kind)

/-- The rows the cadence goes by. -/
structure Store where
  inventories : List Inventory
  connections : List Connection
  requests : List ReadRequest
  kinds_nodup : (inventories.map Inventory.kind).Nodup
  subjects_nodup : (requests.map ReadRequest.subject).Nodup

/-- The settings read, in seconds, whether HQ was used lately, the clock, and how a length of
time is worded. -/
structure Environment where
  registry : Registry
  sweepIntervalActive : Int
  sweepIntervalIdle : Int
  sshProbeInterval : Int
  readRequestLifetime : Int
  recentlyUsed : Bool
  now : Moment
  duration : Moment → String

/-! ## Read requests -/

/-- `ForcedRead`: a pending request and the kinds it forces; none is every kind. -/
structure ForcedRead where
  connectionRef : String
  kind : String
  requestedAt : Moment
  kinds : Option (List String)
  deriving DecidableEq, Repr

/-- `ForcedRead.subject`. -/
def ForcedRead.subject (read : ForcedRead) : String :=
  if read.connectionRef ≠ "" then read.connectionRef
  else if read.kind ≠ "" then read.kind
  else "every connection"

section Reads

variable (env : Environment) (store : Store)

/-- `sweep_interval`. -/
def sweepInterval : Moment :=
  seconds (if env.recentlyUsed then env.sweepIntervalActive else env.sweepIntervalIdle)

/-- `connection_providers`. -/
def connectionProviders (ref : String) : List String :=
  (((store.connections.filter (·.connectionRef == ref)).map Connection.provider).filter
    (· ≠ "")).dedup.insertionSort (· ≤ ·)

/-- `forced_kinds`. -/
def forcedKinds (ref kind : String) : Option (List String) :=
  if kind ≠ "" then some [kind]
  else if ref ≠ "" then
    some ((connectionProviders store ref).flatMap env.registry.fedKinds).eraseDups
  else none

/-- `stored`, as `forced_reads` reads it. -/
def stored : Dict String Moment where
  items := store.inventories.map fun row => (row.kind, row.updatedAt)
  nodup := by simpa [Function.comp_def] using store.kinds_nodup

/-- `probed.get(ref)`: when any controller last probed a connection. -/
def probed (ref : String) : Option Moment :=
  ((store.connections.filter (·.connectionRef == ref)).map Connection.observedAt).max?

/-- `_answered`. -/
def answered (read : ForcedRead) : Bool :=
  if read.connectionRef ≠ "" ∧
      (probed store read.connectionRef).getD read.requestedAt ≤ read.requestedAt then false
  else match read.kinds with
    | none =>
        -- Every kind: by what has been stored of all that each sweep reads.
        let sweptAt := ((stored store).items.filter (env.registry.everySweep ·.1)).map Prod.snd
        sweptAt.min?.any (read.requestedAt < ·)
    | some kinds => kinds.all fun kind =>
        read.requestedAt < ((stored store).get? kind).getD read.requestedAt

/-- The read a request forces. -/
def forcedRead (request : ReadRequest) : ForcedRead :=
  ⟨request.connectionRef, request.kind, request.requestedAt,
    forcedKinds env store request.connectionRef request.kind⟩

/-- `forced_reads`, oldest first. -/
def forcedReads : List ForcedRead :=
  let since := env.now - seconds env.readRequestLifetime
  let requests := (store.requests.filter fun request => since ≤ request.requestedAt).insertionSort
    fun first second => first.requestedAt ≤ second.requestedAt
  (requests.map (forcedRead env store)).filter fun read => !answered env store read

/-- The requests `settle_read_requests` deletes. -/
def settled : List ReadRequest :=
  let pending := (forcedReads env store).map fun read => (read.connectionRef, read.kind)
  store.requests.filter fun request => request.subject ∉ pending

/-- What the deletion of a request is recorded as. -/
def auditGone (request : ReadRequest) : String :=
  let subject := if request.connectionRef ≠ "" then request.connectionRef
    else if request.kind ≠ "" then request.kind
    else "every connection"
  "Read of " ++ subject ++ " answered"

/-- `settle_read_requests`: how many requests went, what is recorded of each, and what stays. -/
def settleReadRequests : Nat × List String × Store :=
  let gone := settled env store
  (gone.length, gone.map auditGone, { store with
    requests := store.requests.filter (· ∉ gone)
    subjects_nodup := (List.filter_sublist.map _).nodup store.subjects_nodup })

/-! ## The sweep -/

/-- `attempted_at`. -/
def Inventory.attemptedAt (row : Inventory) : Moment :=
  (row.observedAt.map (max · row.updatedAt)).getD row.updatedAt

/-- `_oldest_sweep`. -/
def oldestSweep : Option Moment :=
  ((store.inventories.filter (env.registry.everySweep ·.kind)).map Inventory.attemptedAt).min?

/-- `carried_connections`. -/
def carriedConnections (controllerId : String) (failing : Bool) : List String :=
  let freshSince := env.now - seconds env.sshProbeInterval
  let probes := store.connections.filter fun row =>
    row.controllerId == controllerId && row.provider == "ssh" && row.probed &&
      decide (freshSince ≤ row.observedAt) && (failing || row.reachable)
  (probes.map Connection.connectionRef).insertionSort (· ≤ ·)

/-- `_carry`. -/
def carry (controllerId : String) (forced : List ForcedRead) (failing : Bool) : List String :=
  if controllerId = "" then []
  else
    let asked := (forced.map ForcedRead.connectionRef).filter (· ≠ "")
    (carriedConnections env store controllerId failing).filter (· ∉ asked)

/-- `_asked_kinds`. -/
def askedKinds (forced : List ForcedRead) : List String :=
  if forced.any (·.kinds.isNone) then []
  else (forced.flatMap fun read => read.kinds.getD []).dedup.insertionSort (· ≤ ·)

/-- `ended`: a full stop unless the text ends a sentence. -/
def ended (text : String) : String :=
  let stripped := (text.toList.reverse.dropWhile Letters.isSpace).reverse
  if stripped = [] ∨ stripped.getLast? ∈ [some '.', some '!', some '?'] then String.ofList stripped
  else String.ofList (stripped ++ ['.'])

/-- What `sweep_due` says, but for the lengths of time it repeats in seconds. -/
structure Verdict where
  carry : List String
  forced : List ForcedRead
  onlyKinds : List String
  due : Bool
  reason : String
  deriving DecidableEq, Repr

/-- `sweep_due`. -/
def sweepDue (controllerId : String) : Verdict :=
  let forced := forcedReads env store
  let interval := sweepInterval env
  match oldestSweep env store with
  | none => ⟨carry env store controllerId forced false, forced, [], true,
      "Nothing has been read yet."⟩
  | some oldest =>
      let age := env.now - oldest
      let due := decide (interval ≤ age)
      let reason := "The oldest reading is " ++ env.duration age ++
        " old and everything is read every " ++ env.duration interval ++ ": " ++
        (if due then "due" else "not due") ++ "."
      if !due && !forced.isEmpty then
        -- Due only because somebody asked.
        let asked := ended (" A refresh was asked for " ++
          ", ".intercalate (forced.map ForcedRead.subject))
        ⟨carry env store controllerId forced true, forced, askedKinds forced, true,
          reason ++ asked⟩
      else ⟨carry env store controllerId forced false, forced, [], due || !forced.isEmpty, reason⟩

end Reads

end SeverinoHQ.Cadence
