/-
# Derivations, their cache and the projection in progress

`derivations.py` and the `read_once` of `projection.py`, as a machine of threads.
A thread runs code that reads tables, asks the clock, reads once under a name,
opens a projection and asks derivations; each event advances one of them by one
statement, so a run is any interleaving of requests, of processes and of writers.
A writer's commit moves the rows of its tables and their revisions together.

What the source keeps by text is kept by text: tables, derivations, the names of
memoized reads, and the variant `vary` makes of a call's arguments, which is all
an answer may depend on. A name is always loaded by one loader. The digest in a
key is taken for the text it is made of, the variant and the revisions. A call
that raises ends its thread's request.

What a value rests on, `Item`s, is kept beside it for the theorems to speak of,
as are two histories. No code reads them.
-/

import SeverinoHQ.Derivations.Clock
import SeverinoHQ.Math.Run
import Mathlib.Data.List.Sort
import Mathlib.Logic.Function.Basic

namespace SeverinoHQ.Derivations

open SeverinoHQ.Math

variable {V : Type}

/-! ## Code -/

/-- Code a thread runs. Values and the rows of a table are of any type. -/
inductive Prog (V : Type) where
  | ret (value : V)
  /-- A statement that reads a table. -/
  | read (table : String) (resume : V → Prog V)
  | clock (question : Question) (resume : Reading → Prog V)
  /-- `read_once(name, loader)`. -/
  | once (name : String) (resume : V → Prog V)
  /-- `with projection_scope(apart=...)`. -/
  | scope (apart : Bool) (body : Prog V) (resume : V → Prog V)
  /-- A call of a derivation. -/
  | ask (derivation : String) (variant : String) (resume : V → Prog V)

/-- `Derivation`, as declared: the tables behind `reads`. -/
structure Declaration (V : Type) where
  declared : List String
  compute : String → Prog V
  unseen : Bool

/-- The code of an installation, and its time zone. -/
structure Environment (V : Type) where
  zone : Zone
  loader : String → Prog V
  derivation : String → Declaration V

/-! ## What a value rests on -/

/-- One thing a value rests on: rows as they stood at a revision, a question as
the clock answered it, or the expiry of a derivation that was used. -/
inductive Item (V : Type) where
  | read (table : String) (revision : Nat) (rows : V)
  | asked (question : Question) (clock : Int)
  | expiry (moment : Aware)

/-- The expiry of an answer that was used. -/
def expiryItems : Option Aware → List (Item V)
  | some moment => [.expiry moment]
  | none => []

/-! ## Projections -/

/-- What a projection remembers a value under. -/
inductive MemoName where
  | read (name : String)
  | answer (derivation variant : String)
  deriving DecidableEq, Repr

/-- A remembered value, and the expiry a derivation's answer is remembered with. -/
structure Memo (V : Type) where
  value : V
  expires : Option Aware
  evidence : List (Item V)
  loaded : Nat

/-- The dictionary of a projection. `derivation.revisions` is apart: not read yet,
unreadable, or the revisions as one statement saw them. -/
structure Scope (V : Type) where
  memo : List (MemoName × Memo V)
  revisions : Option (Option (String → Nat))

/-- A projection that has read nothing. -/
def Scope.fresh : Scope V := ⟨[], none⟩

/-- `scope.get(key)`. -/
def Scope.find? (scope : Scope V) (name : MemoName) : Option (Memo V) :=
  (scope.memo.find? fun entry => entry.1 == name).map Prod.snd

/-- `scope[key] = found`. -/
def Scope.store (name : MemoName) (memo : Memo V) (scope : Scope V) : Scope V :=
  { scope with memo := (name, memo) :: scope.memo }

/-! ## Derivations in progress -/

/-- The tables of a key, sorted, and the revisions it was made of. -/
structure Keyed where
  tables : List String
  revisions : String → Nat

/-- `found.of(sorted(tables))`. -/
def Keyed.counts (keyed : Keyed) : List Nat := keyed.tables.map keyed.revisions

/-- `_Frame`, with the call it computes. -/
structure Frame (V : Type) where
  derivation : String
  variant : String
  resume : V → Prog V
  keyed : Option Keyed
  tables : List String
  learns : Bool
  expires : Option Aware
  undeclared : List String
  evidence : List (Item V)
  started : Nat

namespace Frame

/-- `note`: a table read that the derivation did not declare is recorded. -/
def note (table : String) (frame : Frame V) : Frame V :=
  if table ∈ frame.tables then frame
  else { frame with undeclared := frame.undeclared ++ [table] }

/-- `hold_until`. -/
def holdUntil (zone : Zone) (moment : Aware) (frame : Frame V) : Frame V :=
  match frame.expires with
  | none => { frame with expires := some moment }
  | some current =>
      if moment.before zone current then { frame with expires := some moment } else frame

/-- `hold_until`, of a moment there may be none of. -/
def holdUntil? (zone : Zone) (moment : Option Aware) (frame : Frame V) : Frame V :=
  match moment with
  | some moment => frame.holdUntil zone moment
  | none => frame

/-- `_tell`: what another derivation reads, and how long it stands. -/
def told (zone : Zone) (tables : List String) (moment : Option Aware) (frame : Frame V) : Frame V :=
  { frame with
    undeclared := frame.undeclared ++ tables.filter (· ∉ frame.tables) }.holdUntil? zone moment

end Frame

/-- What a thread comes back to. -/
inductive Activation (V : Type) where
  /-- The loader of a read, to be remembered. -/
  | loading (name : String) (resume : V → Prog V) (evidence : List (Item V))
  /-- The end of a block, with the projection to go back to if it opened one. -/
  | block (saved : Option (Option (Scope V))) (resume : V → Prog V)
  /-- A derivation's computation. -/
  | computing (frame : Frame V)

/-- The derivation in progress: `_FRAME.get()`. -/
def frame? : List (Activation V) → Option (Frame V)
  | [] => none
  | .computing frame :: _ => some frame
  | _ :: rest => frame? rest

/-- A change to the derivation in progress. -/
def amend (change : Frame V → Frame V) : List (Activation V) → List (Activation V)
  | [] => []
  | .computing frame :: rest => .computing (change frame) :: rest
  | activation :: rest => activation :: amend change rest

/-- Every derivation in progress sees a statement the thread makes. -/
def note (table : String) : List (Activation V) → List (Activation V)
  | [] => []
  | .computing frame :: rest => .computing (frame.note table) :: note table rest
  | activation :: rest => activation :: note table rest

/-- What is being computed or loaded rests on `items` too. -/
def collect (items : List (Item V)) : List (Activation V) → List (Activation V)
  | [] => []
  | .loading name resume evidence :: rest => .loading name resume (evidence ++ items) :: rest
  | .computing frame :: rest =>
      .computing { frame with evidence := frame.evidence ++ items } :: rest
  | .block saved resume :: rest => .block saved resume :: collect items rest

/-- An answer on its way back to whoever asked. -/
structure Result (V : Type) where
  derivation : String
  variant : String
  resume : V → Prog V
  keyed : Option Keyed
  value : V
  expires : Option Aware
  evidence : List (Item V)
  started : Nat

/-- What a thread does next: run its code, or a statement of `_answer`. -/
inductive Code (V : Type) where
  | run (prog : Prog V)
  | key (derivation variant : String) (resume : V → Prog V) (started : Nat)
  | lookup (derivation variant : String) (resume : V → Prog V) (keyed : Option Keyed)
      (started : Nat)
  | rekey (result : Result V)
  | keep (result : Result V)

/-- A thread of a process, in the projection it is in. -/
structure Thread (V : Type) where
  process : Nat
  scope : Option (Scope V)
  code : Code V
  stack : List (Activation V)

/-- A row of the `derived` cache. -/
structure Entry (V : Type) where
  derivation : String
  variant : String
  keyed : Keyed
  value : V
  expires : Option Aware
  evidence : List (Item V)

/-- An answer served from the cache, under the key it was asked by. -/
structure Hit (V : Type) where
  keyed : Keyed
  evidence : List (Item V)

/-- An answer a process gave. -/
structure Answered (V : Type) where
  process : Nat
  derivation : String
  expires : Option Aware
  evidence : List (Item V)

/-- The database, the cache, what each process has learned, and the threads. -/
structure World (V : Type) where
  now : Int
  rows : String → V
  revision : String → Nat
  cache : List (Entry V)
  learned : Nat → String → List String
  threads : Nat → Option (Thread V)
  serial : Nat
  hits : List (Hit V)
  answered : List (Answered V)

/-- Tables as they stand, nothing cached, nobody running. -/
def World.start (now : Int) (rows : String → V) (revision : String → Nat) : World V where
  now := now
  rows := rows
  revision := revision
  cache := []
  learned := fun _ _ => []
  threads := fun _ => none
  serial := 0
  hits := []
  answered := []

/-! ## Answering -/

/-- What the database and the cache do with a statement. -/
inductive Choice where
  | fine
  /-- It fails: the revisions or the cache cannot be read, or nothing is stored. -/
  | unreadable
  /-- The revisions are read, and a table has no triggers. -/
  | untriggered
  deriving DecidableEq, Repr

/-- `Derivation.tables`, sorted: the declared ones and any the process has learned. -/
def World.tables (env : Environment V) (world : World V) (process : Nat) (derivation : String) :
    List String :=
  ((env.derivation derivation).declared ++ world.learned process derivation).dedup.insertionSort
    (· ≤ ·)

/-- `read_once("derivation.revisions", revisions.read)`. -/
def World.readRevisions (world : World V) (scope : Option (Scope V)) (choice : Choice) :
    Option (Scope V) × Option (String → Nat) :=
  let read := if choice = .unreadable then none else some world.revision
  match scope with
  | none => (none, read)
  | some scope =>
      match scope.revisions with
      | some found => (some scope, found)
      | none => (some { scope with revisions := some read }, read)

/-- `_key`, of revisions that were found. -/
def World.keyOf (env : Environment V) (world : World V) (process : Nat) (derivation : String)
    (choice : Choice) (found : Option (String → Nat)) : Option Keyed :=
  if choice = .untriggered then none
  else found.map fun revisions => ⟨world.tables env process derivation, revisions⟩

/-- An entry is under the key of a call. -/
def Entry.isUnder (entry : Entry V) (derivation variant : String) (keyed : Keyed) : Bool :=
  entry.derivation == derivation && entry.variant == variant &&
    entry.keyed.counts == keyed.counts

/-- An expiry has come. -/
def lapsed (zone : Zone) (now : Int) : Option Aware → Bool
  | some moment => decide (moment.instant zone ≤ now)
  | none => false

/-- `_stored`. -/
def World.stored? (env : Environment V) (world : World V) (derivation variant : String)
    (choice : Choice) : Option Keyed → Option (Entry V)
  | none => none
  | some keyed =>
      if choice = .unreadable then none
      else
        (world.cache.find? fun entry => entry.isUnder derivation variant keyed).filter
          fun entry => !lapsed env.zone world.now entry.expires

/-- The thread goes on. -/
def World.runs (world : World V) (id : Nat) (thread : Thread V) : World V :=
  { world with
    threads := Function.update world.threads id (some thread)
    serial := world.serial + 1 }

/-- The request of the thread ends, or raises. -/
def World.ends (world : World V) (id : Nat) : World V :=
  { world with threads := Function.update world.threads id none, serial := world.serial + 1 }

/-- An answer goes into the history of answers. -/
def World.gives (world : World V) (process : Nat) (derivation : String) (expires : Option Aware)
    (evidence : List (Item V)) : World V :=
  { world with answered := world.answered ++ [⟨process, derivation, expires, evidence⟩] }

/-- An answer from the cache goes into the history of hits. -/
def World.serves (world : World V) (keyed : Keyed) (evidence : List (Item V)) : World V :=
  { world with hits := world.hits ++ [⟨keyed, evidence⟩] }

/-- `Derivation.learn`: the process keys the derivation on more tables. -/
def World.learns (world : World V) (process : Nat) (derivation : String) (new : List String) :
    World V :=
  { world with
    learned := Function.update world.learned process
      (Function.update (world.learned process) derivation
        (world.learned process derivation ++ new)) }

/-- An answer reaches whoever asked: the projection remembers it, and the
derivation in progress is told of it. -/
def World.delivers (env : Environment V) (world : World V) (id : Nat) (thread : Thread V)
    (result : Result V) : World V :=
  let tables := world.tables env thread.process result.derivation
  (world.gives thread.process result.derivation result.expires result.evidence).runs id
    { thread with
      scope := thread.scope.map (Scope.store (.answer result.derivation result.variant)
        ⟨result.value, result.expires, result.evidence, world.serial⟩)
      code := .run (result.resume result.value)
      stack := collect (result.evidence ++ expiryItems result.expires)
        (amend (Frame.told env.zone tables result.expires) thread.stack) }

/-- The bound of a computation that may read the clock out of sight: a minute by
the wall clock, or the next midnight. -/
def unseenBound (zone : Zone) (now : Int) : Aware :=
  let ahead := (Aware.ofInstant zone now).plus (60 * 1000000)
  let midnight := Question.midnightAfter zone now
  if midnight.before zone ahead then midnight else ahead

/-- `_compute` after the function returned: what it was seen to read is learned. -/
def World.computed (env : Environment V) (world : World V) (id : Nat) (thread : Thread V)
    (frame : Frame V) (rest : List (Activation V)) (value : V) : World V :=
  let held := if (env.derivation frame.derivation).unseen
    then frame.holdUntil env.zone (unseenBound env.zone world.now) else frame
  let new := frame.undeclared.filter (· ∉ world.tables env thread.process frame.derivation)
  let result : Result V := ⟨frame.derivation, frame.variant, frame.resume, frame.keyed, value,
    held.expires, frame.evidence, frame.started⟩
  (world.learns thread.process frame.derivation new).runs id
    { thread with
      code := if new ≠ [] ∧ frame.keyed.isSome = true then .rekey result else .keep result
      stack := rest }

/-- A block or a loader comes back with a value. -/
def World.returns (env : Environment V) (world : World V) (id : Nat) (thread : Thread V)
    (value : V) : World V :=
  match thread.stack with
  | [] => world.ends id
  | .loading name resume evidence :: rest =>
      world.runs id { thread with
        scope := thread.scope.map (Scope.store (.read name) ⟨value, none, evidence, world.serial⟩)
        code := .run (resume value)
        stack := collect evidence rest }
  | .block saved resume :: rest =>
      world.runs id { thread with
        scope := saved.getD thread.scope
        code := .run (resume value)
        stack := rest }
  | .computing frame :: rest => world.computed env id thread frame rest value

/-- A statement reads a table. -/
def World.reads (world : World V) (id : Nat) (thread : Thread V) (table : String)
    (resume : V → Prog V) : World V :=
  world.runs id { thread with
    code := .run (resume (world.rows table))
    stack := collect [.read table (world.revision table) (world.rows table)]
      (note table thread.stack) }

/-- The clock is asked, and `holds_until` told. -/
def World.asksClock (env : Environment V) (world : World V) (id : Nat) (thread : Thread V)
    (question : Question) (resume : Reading → Prog V) : World V :=
  if question.raises then world.ends id
  else
    world.runs id { thread with
      code := .run (resume (question.reading env.zone world.now))
      stack := collect [.asked question world.now]
        (amend (Frame.holdUntil? env.zone (question.boundary env.zone world.now)) thread.stack) }

/-- `read_once`, of a plain read. -/
def World.readsOnce (env : Environment V) (world : World V) (id : Nat) (thread : Thread V)
    (name : String) (resume : V → Prog V) : World V :=
  match thread.scope with
  | none =>
      world.runs id { thread with
        code := .run (env.loader name)
        stack := .block none resume :: thread.stack }
  | some scope =>
      match scope.find? (.read name) with
      | some memo =>
          world.runs id { thread with
            code := .run (resume memo.value)
            stack := collect memo.evidence thread.stack }
      | none =>
          world.runs id { thread with
            code := .run (env.loader name)
            stack := .loading name resume [] :: thread.stack }

/-- `projection_scope`: a nested one reuses the active one, unless it is apart. -/
def World.opens (world : World V) (id : Nat) (thread : Thread V) (apart : Bool) (body : Prog V)
    (resume : V → Prog V) : World V :=
  if thread.scope.isSome ∧ apart = false then
    world.runs id { thread with
      code := .run body
      stack := .block none resume :: thread.stack }
  else
    world.runs id { thread with
      scope := some Scope.fresh
      code := .run body
      stack := .block (some thread.scope) resume :: thread.stack }

/-- `_may_ask`. -/
def mayAsk (env : Environment V) (derivation : String) (stack : List (Activation V)) : Bool :=
  match frame? stack with
  | none => true
  | some parent =>
      parent.learns || (env.derivation derivation).declared.all (· ∈ parent.tables)

/-- A derivation is called: refused, answered from the projection, or looked for. -/
def World.asks (env : Environment V) (world : World V) (id : Nat) (thread : Thread V)
    (derivation variant : String) (resume : V → Prog V) : World V :=
  if mayAsk env derivation thread.stack then
    match thread.scope.bind fun scope => scope.find? (.answer derivation variant) with
    | some memo =>
        let tables := world.tables env thread.process derivation
        (world.gives thread.process derivation memo.expires memo.evidence).runs id
          { thread with
            code := .run (resume memo.value)
            stack := collect (memo.evidence ++ expiryItems memo.expires)
              (amend (Frame.told env.zone tables memo.expires) thread.stack) }
    | none =>
        world.runs id { thread with code := .key derivation variant resume world.serial }
  else world.ends id

/-- `_compute` before the function: an unseen one runs in a projection of its own. -/
def World.computes (env : Environment V) (world : World V) (id : Nat) (thread : Thread V)
    (derivation variant : String) (resume : V → Prog V) (keyed : Option Keyed) (started : Nat) :
    World V :=
  let frame : Frame V := ⟨derivation, variant, resume, keyed,
    world.tables env thread.process derivation, (env.derivation derivation).unseen, none, [], [],
    started⟩
  let code : Code V := .run ((env.derivation derivation).compute variant)
  if (env.derivation derivation).unseen then
    world.runs id { thread with
      scope := some Scope.fresh
      code := code
      stack := .block (some thread.scope) .ret :: .computing frame :: thread.stack }
  else world.runs id { thread with code := code, stack := .computing frame :: thread.stack }

/-- `_keep`: the value is stored under its key, unless it has lapsed already. -/
def World.keeps (env : Environment V) (world : World V) (result : Result V) (choice : Choice) :
    World V :=
  match result.keyed with
  | none => world
  | some keyed =>
      if choice = .unreadable ∨ lapsed env.zone world.now result.expires = true then world
      else
        { world with
          cache := ⟨result.derivation, result.variant, keyed, result.value, result.expires,
              result.evidence⟩ ::
            world.cache.filter fun entry =>
              !entry.isUnder result.derivation result.variant keyed }

/-- `_key`: the revisions are read, once in a projection. -/
def World.keys (env : Environment V) (world : World V) (id : Nat) (thread : Thread V)
    (derivation variant : String) (resume : V → Prog V) (started : Nat) (choice : Choice) :
    World V :=
  let found := world.readRevisions thread.scope choice
  world.runs id { thread with
    scope := found.1
    code := .lookup derivation variant resume
      (world.keyOf env thread.process derivation choice found.2) started }

/-- The key is looked for in the cache, and the derivation computed if it is not there. -/
def World.looksUp (env : Environment V) (world : World V) (id : Nat) (thread : Thread V)
    (derivation variant : String) (resume : V → Prog V) (keyed : Option Keyed) (started : Nat)
    (choice : Choice) : World V :=
  match keyed, world.stored? env derivation variant choice keyed with
  | some under, some entry =>
      (world.serves under entry.evidence).delivers env id thread
        ⟨derivation, variant, resume, some under, entry.value, entry.expires, entry.evidence,
          started⟩
  | _, _ => world.computes env id thread derivation variant resume keyed started

/-- `_key` again, for an answer that was seen to read more. -/
def World.rekeys (env : Environment V) (world : World V) (id : Nat) (thread : Thread V)
    (result : Result V) (choice : Choice) : World V :=
  let found := world.readRevisions thread.scope choice
  world.runs id { thread with
    scope := found.1
    code := .keep { result with
      keyed := world.keyOf env thread.process result.derivation choice found.2 } }

/-- One statement of a thread. -/
def World.advance (env : Environment V) (world : World V) (id : Nat) (thread : Thread V)
    (choice : Choice) : World V :=
  match thread.code with
  | .run (.ret value) => world.returns env id thread value
  | .run (.read table resume) => world.reads id thread table resume
  | .run (.clock question resume) => world.asksClock env id thread question resume
  | .run (.once name resume) => world.readsOnce env id thread name resume
  | .run (.scope apart body resume) => world.opens id thread apart body resume
  | .run (.ask derivation variant resume) => world.asks env id thread derivation variant resume
  | .key derivation variant resume started =>
      world.keys env id thread derivation variant resume started choice
  | .lookup derivation variant resume keyed started =>
      world.looksUp env id thread derivation variant resume keyed started choice
  | .rekey result => world.rekeys env id thread result choice
  | .keep result => (world.keeps env result choice).delivers env id thread result

/-! ## Every thread at once -/

/-- A commit: each table's rows, and its revision with them. -/
def World.commits (world : World V) (changes : List (String × V)) : World V :=
  changes.foldl (fun world change => { world with
    rows := Function.update world.rows change.1 change.2
    revision := Function.update world.revision change.1 (world.revision change.1 + 1) }) world

/-- What can happen next: time passes, a writer commits, a request begins, a
thread makes its next statement or raises, or the cache drops an entry. -/
inductive Event (V : Type) where
  | tick (elapsed : Nat)
  | commit (changes : List (String × V))
  | request (id process : Nat) (prog : Prog V)
  | advance (id : Nat) (choice : Choice)
  | raise (id : Nat)
  | evict (index : Nat)

/-- One event. -/
def step (env : Environment V) (world : World V) : Event V → World V
  | .tick elapsed => { world with now := world.now + elapsed }
  | .commit changes => world.commits changes
  | .request id process prog =>
      match world.threads id with
      | none => world.runs id ⟨process, none, .run prog, []⟩
      | some _ => world
  | .advance id choice =>
      match world.threads id with
      | some thread => world.advance env id thread choice
      | none => world
  | .raise id => world.ends id
  | .evict index => { world with cache := world.cache.eraseIdx index }

end SeverinoHQ.Derivations
