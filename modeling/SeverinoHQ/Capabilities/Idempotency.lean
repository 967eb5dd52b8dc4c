/-
# Retry keys: run once, then replay

`execute_once` over the rows of `IdempotencyRecord`, statement by statement. A
transaction's writes are its own until it commits: the rows it deleted stay
visible to the others, the row it inserted does not, and the unique index on
subject and key makes a second insert wait for the first transaction's end.
These are the interleavings `READ COMMITTED` allows. SQLite, whose writers go
one at a time, has fewer of them.

What the operation does is the caller's: it raises, or it answers and leaves
writes that commit with the transaction. Three histories are kept beside the
state for the theorems to speak of: the operations run, the runs that
committed, and what every call was answered. No call reads them.
-/

import SeverinoHQ.Json
import SeverinoHQ.Math.Run
import SeverinoHQ.Math.Table
import Mathlib.Data.Fintype.Basic
import Mathlib.Data.Finset.Basic
import Mathlib.Logic.Function.Basic

namespace SeverinoHQ.Capabilities

open SeverinoHQ.Math

/-- `SEVERINO_API_IDEMPOTENCY_TTL_SECONDS`, a day, in microseconds. -/
def idempotencyTtl : Nat := 24 * 60 * 60 * 1000000

/-- A row of `IdempotencyRecord`. -/
structure IdempotencyRecord where
  pk : Nat
  actorSha256 : String
  key : String
  requestSha256 : String
  response : Option Json
  expiresAt : Nat
  deriving DecidableEq, Repr

/-- What `execute_once` is called with. The request is the capability's name and
the envelope it was sent in. -/
structure Call where
  actor : String
  key : String
  name : String
  envelope : Json
  deriving DecidableEq

/-- The document `request_fingerprint` digests, under `CURRENT_API_VERSION`. -/
def Call.request (call : Call) : Json :=
  .obj [("api_version", .num 2), ("capability", .str call.name), ("request", call.envelope)]

/-- The hash of a subject, and of a document written out in its one canonical form. -/
structure Sha256 where
  text : String → String
  document : Json → String

/-- `request_fingerprint`. -/
def Sha256.requestFingerprint (sha256 : Sha256) (call : Call) : String :=
  sha256.document call.request

/-- The unique columns of a record. -/
def IdempotencyRecord.unique (record : IdempotencyRecord) : String × String :=
  (record.actorSha256, record.key)

/-- The unique columns a call's record has. -/
def Sha256.unique (sha256 : Sha256) (call : Call) : String × String :=
  (sha256.text call.actor, call.key)

/-- What the operation did: it raised, or it answered and its writes are pending. -/
inductive Outcome (σ : Type) where
  | raised (error : String)
  | answered (answer : Json) (writes : σ → σ)

/-- `response.get("ok", False)`. -/
def isOk (answer : Json) : Bool := ((answer.get? "ok").getD (.bool false)).truthy

/-- The statement a call makes next. -/
inductive Phase (σ : Type) where
  /-- Delete the expired records. -/
  | clean
  /-- The first look of `get_or_create`. -/
  | get
  /-- Its insert. -/
  | create
  /-- Its second look, after the unique index refused the insert. -/
  | getAgain
  /-- `select_for_update().get(pk=record.pk)` on the record found. -/
  | lock (pk : Nat)
  /-- The operation, under the record inserted. -/
  | act (record : IdempotencyRecord)
  /-- The commit of an answer, with the writes of the operation. -/
  | commit (record : IdempotencyRecord) (answer : Json) (writes : σ → σ)
  /-- The return of the answer an earlier run stored. -/
  | replay (answer : Json)

/-- The record a call has inserted and not committed. -/
def Phase.reserved {σ : Type} : Phase σ → Option IdempotencyRecord
  | .act record => some record
  | .commit record _ _ => some record
  | _ => none

/-- A call between its statements: the clock it read first, the records its
transaction has deleted, and how many runs had committed when it was made. -/
structure Flight (σ : Type) where
  call : Call
  readAt : Nat
  seen : Nat
  gone : List Nat
  phase : Phase σ

/-- What a call is answered. -/
inductive Answer where
  | ran (answer : Json)
  | replayed (answer : Json)
  /-- `IdempotencyConflict`. -/
  | conflict (reason : String)
  /-- Any other exception, the operation's own or the database's. -/
  | raised (error : String)
  deriving DecidableEq

/-- `IdempotencyConflict`'s reason. -/
def conflictReason : String := "This retry key was already used for a different request."

/-- An operation that was run, and how many runs had committed before it. -/
structure Ran where
  call : Call
  seen : Nat
  ranAt : Nat

/-- A run whose transaction committed. -/
structure Settled (σ : Type) where
  call : Call
  record : IdempotencyRecord
  answer : Json
  writes : σ → σ
  settledAt : Nat

/-- A call that has ended. -/
structure Answered where
  call : Call
  seen : Nat
  answer : Answer
  answeredAt : Nat

/-- What is committed, the calls in flight, and the three histories. -/
structure World (Thread σ : Type) where
  now : Nat
  domain : σ
  records : List IdempotencyRecord
  nextPk : Nat
  flights : Thread → Option (Flight σ)
  ran : List Ran
  settled : List (Settled σ)
  answers : List Answered

variable {Thread σ : Type} [Fintype Thread] [DecidableEq Thread]

/-- Nothing is kept and nobody calls. -/
def World.start (now : Nat) (domain : σ) : World Thread σ where
  now := now
  domain := domain
  records := []
  nextPk := 0
  flights := fun _ => none
  ran := []
  settled := []
  answers := []

namespace World

/-- The thread's transaction has deleted the row and not ended. -/
def deletes (world : World Thread σ) (thread : Thread) (pk : Nat) : Prop :=
  ∃ flight, world.flights thread = some flight ∧ pk ∈ flight.gone

/-- The thread's transaction has inserted the row and not ended. -/
def reserves (world : World Thread σ) (thread : Thread) (record : IdempotencyRecord) : Prop :=
  ∃ flight, world.flights thread = some flight ∧ flight.phase.reserved = some record

/-- Another transaction has deleted the row and not ended. -/
def locked (world : World Thread σ) (thread : Thread) (pk : Nat) : Prop :=
  ∃ other, other ≠ thread ∧ world.deletes other pk

/-- Another transaction has inserted a row with these unique columns and not ended. -/
def reservedElsewhere (world : World Thread σ) (thread : Thread) (unique : String × String) : Prop :=
  ∃ other, other ≠ thread ∧ ∃ record, world.reserves other record ∧ record.unique = unique

instance (world : World Thread σ) (thread : Thread) (pk : Nat) :
    Decidable (world.locked thread pk) :=
  decidable_of_iff (∃ other, other ≠ thread ∧
      ((world.flights other).any fun flight => decide (pk ∈ flight.gone)) = true)
    (by simp [locked, deletes, Option.any_eq_true])

instance (world : World Thread σ) (thread : Thread) (unique : String × String) :
    Decidable (world.reservedElsewhere thread unique) :=
  decidable_of_iff (∃ other, other ≠ thread ∧
      ((world.flights other).any fun flight =>
        flight.phase.reserved.any fun record => decide (record.unique = unique)) = true)
    (by simp only [reservedElsewhere, reserves, Option.any_eq_true, decide_eq_true_eq]; tauto)

/-- The committed row with these unique columns that the call's own transaction
has not deleted. -/
def visible (world : World Thread σ) (flight : Flight σ) (unique : String × String) :
    Option IdempotencyRecord :=
  world.records.find? fun record => record.unique == unique && !flight.gone.contains record.pk

/-- The committed rows that had expired when the call read the clock. -/
def expired (world : World Thread σ) (flight : Flight σ) : List Nat :=
  (world.records.filter fun record => record.expiresAt ≤ flight.readAt).map IdempotencyRecord.pk

/-- The call goes on with another statement. -/
def goesOn (world : World Thread σ) (thread : Thread) (flight : Flight σ) : World Thread σ :=
  { world with flights := Function.update world.flights thread (some flight) }

/-- The call ends without a commit: its transaction rolls back. -/
def rollsBack (world : World Thread σ) (thread : Thread) : World Thread σ :=
  { world with flights := Function.update world.flights thread none }

/-- The call ends, and its caller is told. -/
def tells (world : World Thread σ) (thread : Thread) (flight : Flight σ) (answer : Answer) :
    World Thread σ :=
  { world.rollsBack thread with
    answers := world.answers ++ [⟨flight.call, flight.seen, answer, world.now⟩] }

/-- The transaction commits what it deleted. -/
def commitsDeletes (world : World Thread σ) (flight : Flight σ) : World Thread σ :=
  { world with
    records := Table.delete world.records fun record => flight.gone.contains record.pk }

/-- The operation's writes commit. An answer that ran is kept under its key; any
other frees it, for its record is deleted again. -/
def settles (world : World Thread σ) (call : Call) (stored : IdempotencyRecord) (answer : Json)
    (writes : σ → σ) : World Thread σ :=
  { world with
    domain := writes world.domain
    records := if isOk answer then world.records ++ [stored] else world.records
    settled := world.settled ++ [⟨call, stored, answer, writes, world.now⟩] }

/-- The transaction of a run commits. -/
def commitsRun (world : World Thread σ) (flight : Flight σ) (record : IdempotencyRecord)
    (answer : Json) (writes : σ → σ) : World Thread σ :=
  (world.commitsDeletes flight).settles flight.call { record with response := some answer }
    answer writes

/-- The record `get_or_create` inserts for a call. -/
def reservation (world : World Thread σ) (sha256 : Sha256) (flight : Flight σ) :
    IdempotencyRecord where
  pk := world.nextPk
  actorSha256 := sha256.text flight.call.actor
  key := flight.call.key
  requestSha256 := sha256.requestFingerprint flight.call
  response := none
  expiresAt := flight.readAt + idempotencyTtl

/-- `execute_once` reads the clock, before its transaction begins. -/
def arrives (world : World Thread σ) (thread : Thread) (call : Call) : World Thread σ :=
  match world.flights thread with
  | some _ => world
  | none => world.goesOn thread ⟨call, world.now, world.settled.length, [], .clean⟩

/-- One statement of `execute_once`. A statement that has to wait for another
transaction changes nothing, and is made again. -/
def statement (sha256 : Sha256) (world : World Thread σ) (thread : Thread)
    (flight : Flight σ) : World Thread σ :=
  match flight.phase with
  | .clean =>
      if ∃ pk ∈ world.expired flight, world.locked thread pk then world
      else world.goesOn thread { flight with gone := world.expired flight, phase := .get }
  | .get =>
      match world.visible flight (sha256.unique flight.call) with
      | some record => world.goesOn thread { flight with phase := .lock record.pk }
      | none => world.goesOn thread { flight with phase := .create }
  | .create =>
      if world.reservedElsewhere thread (sha256.unique flight.call) then world
      else
        match world.visible flight (sha256.unique flight.call) with
        | some record =>
            -- A row another transaction is deleting may yet be gone.
            if world.locked thread record.pk then world
            else world.goesOn thread { flight with phase := .getAgain }
        | none =>
            { world with nextPk := world.nextPk + 1 }.goesOn thread
              { flight with phase := .act (world.reservation sha256 flight) }
  | .getAgain =>
      match world.visible flight (sha256.unique flight.call) with
      | some record => world.goesOn thread { flight with phase := .lock record.pk }
      | none => world.tells thread flight (.raised "IntegrityError")
  | .lock pk =>
      if world.locked thread pk then world
      else
        match world.records.find? fun record => record.pk == pk with
        | none => world.tells thread flight (.raised "IdempotencyRecord.DoesNotExist")
        | some record =>
            if record.requestSha256 ≠ sha256.requestFingerprint flight.call then
              world.tells thread flight (.conflict conflictReason)
            else
              match record.response with
              | none =>
                  world.tells thread flight
                    (.raised "An idempotency record has no committed response.")
              | some answer => world.goesOn thread { flight with phase := .replay answer }
  | .act _ => world
  | .commit record answer writes =>
      (world.commitsRun flight record answer writes).tells thread flight (.ran answer)
  | .replay answer => (world.commitsDeletes flight).tells thread flight (.replayed answer)

/-- The operation of a call that holds a reservation is run. -/
def operates (world : World Thread σ) (thread : Thread) (flight : Flight σ)
    (outcome : Outcome σ) : World Thread σ :=
  match flight.phase with
  | .act record =>
      let ran : World Thread σ := { world with
        ran := world.ran ++ [⟨flight.call, world.settled.length, world.now⟩] }
      match outcome with
      | .raised error => ran.tells thread flight (.raised error)
      | .answered answer writes =>
          ran.goesOn thread { flight with phase := .commit record answer writes }
  | _ => world

end World

/-- What can happen next: time passes, a call is made, a call makes its next
statement or runs its operation, or its process dies. -/
inductive Event (Thread σ : Type) where
  | tick (elapsed : Nat)
  | arrive (thread : Thread) (call : Call)
  | advance (thread : Thread)
  | operate (thread : Thread) (outcome : Outcome σ)
  | crash (thread : Thread)

/-- One event. -/
def step (sha256 : Sha256) (world : World Thread σ) : Event Thread σ → World Thread σ
  | .tick elapsed => { world with now := world.now + elapsed }
  | .arrive thread call => world.arrives thread call
  | .advance thread =>
      match world.flights thread with
      | some flight => world.statement sha256 thread flight
      | none => world
  | .operate thread outcome =>
      match world.flights thread with
      | some flight => world.operates thread flight outcome
      | none => world
  | .crash thread => world.rollsBack thread

end SeverinoHQ.Capabilities
