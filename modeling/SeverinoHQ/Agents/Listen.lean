/-
# The listen streams, and what reaches them

An agent holds streams open on HQ's one loop. An event is delivered to the streams it is
aimed at whose caller the brakes let act, and a refused caller is owed it until a person
lifts the brake. The brakes are read on a pooled thread, one caller after another, while the
loop goes on: a task below is a publish or a settle between two of its awaits, and a turn of
it is what it does up to the next.
-/

import SeverinoHQ.Math.Run
import SeverinoHQ.Math.Slots
import SeverinoHQ.Math.Table
import Mathlib.Data.List.Dedup

namespace SeverinoHQ.Agents.Listen

open SeverinoHQ.Math

variable {κ ε : Type}

/-- One stream, told apart from every other, and who opened it. -/
structure Stream (κ : Type) where
  id : Nat
  principal : κ
  deriving DecidableEq, Repr

/-- A stream as the bus holds it; one that closed is still held by the tasks that took it. -/
structure Entry (κ ε : Type) where
  stream : Stream κ
  isOpen : Bool
  owed : List ε
  deriving DecidableEq, Repr

/-- An event that reached a stream, with the brakes' epoch its publish or settle began in and
the one it was delivered in. -/
structure Delivery (κ ε : Type) where
  stream : Stream κ
  event : ε
  begun : Nat
  delivered : Nat
  deriving DecidableEq, Repr

/-- What is in progress. A `publish` or `settle` is handed to the loop and not begun;
`toldTools` and `toldStanding` are the receivers that hand them over. -/
inductive Task (κ ε : Type)
  | ended
  | toldTools (event : ε) (aimed : κ → Bool)
  | toldStanding
  | publish (event : ε) (aimed : κ → Bool)
  | settle
  /-- `_deliver` awaits the thread that reads the brakes, then the loop. A settle goes on
  with the events that remain for the streams owed any when it began. -/
  | delivering (begun : Nat) (event : ε) (streams unread refused : List (Stream κ))
      (owing : List (Stream κ)) (remaining : List ε)
  /-- The SDK's bus called its listeners, and its publish is awaited. -/
  | published (begun : Nat) (owing : List (Stream κ)) (remaining : List ε)

instance : Inhabited (Task κ ε) := ⟨.ended⟩

/-- The bus, and the brakes: the callers refused in each epoch, from the first to now. -/
structure State (κ ε : Type) where
  epochs : List (List κ)
  entries : List (Entry κ ε)
  reaching : List (Stream κ)
  delivered : List (Delivery κ ε)
  tasks : List (Task κ ε)

/-- HQ before the first stream is opened, with the callers the brakes refuse. -/
def State.opened (refused : List κ) : State κ ε := ⟨[refused], [], [], [], []⟩

namespace State

variable (state : State κ ε)

/-- The epoch it is. -/
def epoch : Nat := state.epochs.length - 1

/-- The brakes let a caller act in an epoch. -/
def Lets (epoch : Nat) (principal : κ) : Prop :=
  ∃ refused, state.epochs[epoch]? = some refused ∧ principal ∉ refused

/-- `open_streams`. -/
def openStreams : List (Stream κ) := (state.entries.filter (·.isOpen)).map (·.stream)

def task (slot : Nat) : Task κ ε := Slots.task state.tasks slot

def put (slot : Nat) (task : Task κ ε) : State κ ε :=
  { state with tasks := state.tasks.set slot task }

def spawn (task : Task κ ε) : State κ ε := { state with tasks := state.tasks ++ [task] }

/-- `agent_access.refusal`: the brakes refuse a caller now. -/
def refuses [DecidableEq κ] (principal : κ) : Bool :=
  (state.epochs.getLast?.getD []).contains principal

/-- `event in stream.owed`. -/
def owes [DecidableEq κ] [DecidableEq ε] (stream : Stream κ) (event : ε) : Bool :=
  state.entries.any fun entry => entry.stream == stream && entry.owed.contains event

variable {state}

theorem Lets.append {epoch : Nat} {principal : κ} (h : state.Lets epoch principal)
    {next : State κ ε} {refused : List κ} (hepochs : next.epochs = state.epochs ++ [refused]) :
    next.Lets epoch principal := by
  obtain ⟨those, hthose, hlets⟩ := h
  refine ⟨those, ?_, hlets⟩
  rw [hepochs, List.getElem?_append_left (List.getElem?_eq_some_iff.mp hthose).1, hthose]

/-- Who is not refused now is let act in the epoch it is. -/
theorem lets_of_refuses [DecidableEq κ] (hepochs : state.epochs ≠ []) {principal : κ}
    (h : state.refuses principal = false) : state.Lets state.epoch principal := by
  refine ⟨state.epochs.getLast hepochs, ?_, ?_⟩
  · rw [epoch, ← List.getLast?_eq_getElem?, List.getLast?_eq_getLast_of_ne_nil hepochs]
  · simpa [refuses, List.getLast?_eq_getLast_of_ne_nil hepochs] using h

end State

section Decided

variable [DecidableEq κ] [DecidableEq ε]

/-- `soon`: there is a loop to run it on where a stream is open. -/
def soon (state : State κ ε) (slot : Nat) (task : Task κ ε) : State κ ε :=
  state.put slot (if state.openStreams.isEmpty then .ended else task)

/-- The first part of `_deliver`: without streams it returns at once. -/
def deliver (begun : Nat) (event : ε) (streams owing : List (Stream κ)) (remaining : List ε) :
    Option (Task κ ε) :=
  if streams.isEmpty then none
  else some (.delivering begun event streams streams [] owing remaining)

/-- `publish`, up to its await. -/
def publish (state : State κ ε) (slot : Nat) (event : ε) (aimed : κ → Bool) : State κ ε :=
  let streams := state.openStreams.filter fun stream => aimed stream.principal
  state.put slot ((deliver state.epoch event streams [] []).getD .ended)

/-- The loop of `settle_owed`, up to its next await. -/
def settleRest (state : State κ ε) (begun : Nat) (owing : List (Stream κ)) : List ε → Task κ ε
  | [] => .ended
  | event :: remaining =>
      (deliver begun event (owing.filter (state.owes · event)) owing remaining).getD
        (settleRest state begun owing remaining)

/-- The streams `settle_owed` finds owed anything. -/
def owingStreams (state : State κ ε) : List (Stream κ) :=
  (state.entries.filter fun entry => entry.isOpen && !entry.owed.isEmpty).map (·.stream)

/-- The events they are owed, as a set is: each once. -/
def owedEvents (state : State κ ε) : List ε :=
  ((state.entries.filter fun entry => entry.isOpen && !entry.owed.isEmpty).flatMap
    (·.owed)).dedup

/-- `settle_owed`, up to its first await; `order` is the order the set of events is gone
through in. -/
def settleOwed (state : State κ ε) (slot : Nat) (order : List ε) : State κ ε :=
  if order.isPerm (owedEvents state) then
    state.put slot (settleRest state state.epoch (owingStreams state) order)
  else state

/-- The rest of `_deliver` once the brakes are read: what is owed is recorded, and the SDK's
bus calls the listener of every stream it is to reach. -/
def record (state : State κ ε) (slot begun : Nat) (event : ε)
    (streams refused owing : List (Stream κ)) (remaining : List ε) : State κ ε :=
  let reaching := streams.filter fun stream => !refused.contains stream
  { state with
    entries := Table.update state.entries (fun entry => streams.contains entry.stream) fun entry =>
      { entry with
        owed := if refused.contains entry.stream then entry.owed.insert event
          else entry.owed.filter (· ≠ event) }
    reaching := reaching
    delivered := state.delivered ++ (state.openStreams.filter reaching.contains).map
      fun stream => (⟨stream, event, begun, state.epoch⟩ : Delivery κ ε) }.put slot
    (.published begun owing remaining)

/-- What the task at a slot does up to its next await, or the thread's next reading. -/
def turn (state : State κ ε) (slot : Nat) : State κ ε :=
  match state.task slot with
  | .ended | .settle => state
  | .toldTools event aimed => soon state slot (.publish event aimed)
  | .toldStanding => soon state slot .settle
  | .publish event aimed => publish state slot event aimed
  | .delivering begun event streams (stream :: unread) refused owing remaining =>
      state.put slot (.delivering begun event streams unread
        (if state.refuses stream.principal then stream :: refused else refused) owing remaining)
  | .delivering begun event streams [] refused owing remaining =>
      record state slot begun event streams refused owing remaining
  | .published begun owing remaining => state.put slot (settleRest state begun owing remaining)

inductive Event (κ ε : Type)
  | opens (principal : κ)
  | closes (stream : Stream κ)
  /-- A person changes a brake: the callers refused from now on. -/
  | brakes (refused : List κ)
  /-- HQ tells that tools changed. -/
  | changed (event : ε) (aimed : κ → Bool)
  | turn (slot : Nat)
  /-- A settle handed to the loop begins. -/
  | settles (slot : Nat) (order : List ε)

def step (state : State κ ε) : Event κ ε → State κ ε
  | .opens principal =>
      { state with
        entries := state.entries ++ [⟨⟨state.entries.length, principal⟩, true, []⟩] }
  | .closes stream =>
      { state with
        entries := Table.update state.entries (fun entry => entry.stream == stream) fun entry =>
          { entry with isOpen := false } }
  | .brakes refused => { state with epochs := state.epochs ++ [refused] }.spawn .toldStanding
  | .changed event aimed => state.spawn (.toldTools event aimed)
  | .turn slot => turn state slot
  | .settles slot order =>
      match state.task slot with
      | .settle => settleOwed state slot order
      | _ => state

end Decided

end SeverinoHQ.Agents.Listen
