/-
# Writing back to back gives way

Inside `gives_way` the statements of a connection pass a pacer, which sees when each starts and
ends and whether it takes the write lock, and never a commit. The clock is exact, and the lock is
the connection's as soon as a statement takes it.
-/

import Mathlib.Data.NNRat.Defs
import SeverinoHQ.Math.Pacing
import SeverinoHQ.Math.Run

namespace SeverinoHQ.Database

open SeverinoHQ.Math SeverinoHQ.Math.Pacing

/-- `RETRIES_EVERY`: the longest a waiting connection sleeps, in seconds. -/
def retriesEvery : ℚ := 1 / 10

/-- `HOLDS`. -/
def holdsFor : ℚ := 1

/-- `LETS_GO`. -/
def letsGo : ℚ := retriesEvery * (3 / 2)

/-! ## The pacer -/

structure Turns where
  began : Option ℚ
  last : ℚ
  deriving DecidableEq, Repr

/-- `Turns.before`: the pacer after it, and the seconds to let go before the statement. -/
def Turns.before (turns : Turns) (now : ℚ) (takesLock : Bool) : Turns × ℚ :=
  match turns.began with
  | none => ({ turns with began := some now }, 0)
  | some began =>
      if letsGo ≤ now - turns.last then ({ turns with began := some now }, 0)
      else if takesLock ∧ holdsFor ≤ now - began then
        ({ turns with began := some (now + letsGo) }, letsGo)
      else (turns, 0)

/-- `Turns.after`. -/
def Turns.after (turns : Turns) (now : ℚ) : Turns := { turns with last := now }

/-- What SQLite does with a statement: it opens a transaction, writes, or does neither. -/
inductive Effect where
  | begins
  | writes
  | reads
  deriving DecidableEq, Repr

/-- A statement: the start of its text, in capitals, what it does, and the seconds it runs. -/
structure Statement where
  head : List Char
  effect : Effect
  seconds : ℚ≥0

/-- `takes_lock`, as the wrapper reads it off the text. -/
def takesLock (inAtomicBlock : Bool) (head : List Char) : Bool :=
  "BEGIN".toList.isPrefixOf head ||
    (!inAtomicBlock &&
      ["INSERT", "UPDATE", "DELETE", "REPLACE"].any fun verb => verb.toList.isPrefixOf head)

/-! ## The connection -/

/-- The connection: the holds it has let go of, newest first, and the one it has, if any: when it
asked for the lock and when it took it. -/
structure State where
  now : ℚ
  turns : Turns
  holding : Option (ℚ × ℚ)
  ended : List (Hold ℚ)
  deriving DecidableEq, Repr

/-- Between statements time passes, and a transaction is committed or rolled back. -/
inductive Event where
  | passes (seconds : ℚ≥0)
  | finishes
  | statement (statement : Statement)

namespace State

/-- The block is entered with the lock free for a turn, or inside a transaction. -/
def initial (start : ℚ) (inside : Bool) : State :=
  ⟨start, ⟨none, 0⟩, if inside then some (start, start) else none, []⟩

/-- The holds so far, one that lasts as if let go of now. -/
def holds (state : State) : List (Hold ℚ) :=
  match state.holding with
  | none => state.ended
  | some (asked, taken) => ⟨asked, taken, state.now⟩ :: state.ended

end State

/-- `taking_turns`: the statement waits as the pacer says, and runs. -/
def execute (state : State) (statement : Statement) : State :=
  let paced := state.turns.before state.now (takesLock state.holding.isSome statement.head)
  let starts := state.now + paced.2
  let ends := starts + statement.seconds
  { now := ends
    turns := paced.1.after ends
    holding := if state.holding = none ∧ statement.effect = .begins then some (state.now, starts)
      else state.holding
    ended := if state.holding = none ∧ statement.effect = .writes then
        ⟨state.now, starts, ends⟩ :: state.ended
      else state.ended }

def step (state : State) : Event → State
  | .passes seconds => { state with now := state.now + seconds }
  | .finishes => { state with holding := none, ended := state.holds }
  | .statement statement => execute state statement

end SeverinoHQ.Database
