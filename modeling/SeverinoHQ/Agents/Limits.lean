/-
# How much one agent may ask

What is held of the agents that are calling: when each one's bucket of calls is full
again, and how many calls and listen streams it has open. The clock reads in seconds; its
fractions, and the spacing of the calls, are exact here.
-/

import SeverinoHQ.Math.Bucket
import SeverinoHQ.Math.Dict
import Mathlib.Algebra.Order.Ring.Rat
import Mathlib.Data.Rat.Floor

namespace SeverinoHQ.Agents

open SeverinoHQ.Math

/-- The settings that say how much an agent may ask. -/
structure Settings where
  callsPerMinute : Nat
  callBurst : Nat
  callsAtOnce : Nat
  callsAtOnceOverall : Nat
  streamsAtOnce : Nat
  deriving DecidableEq, Repr

/-- One agent's bucket: `spacing` and `depth`. -/
def Settings.bucket (settings : Settings) : Bucket ℚ where
  spacing := 60 / settings.callsPerMinute
  depth := 60 / settings.callsPerMinute * settings.callBurst

/-- A call refused for how much its agent asks, with the whole seconds after which
asking again can succeed. -/
structure Limited where
  code : String
  reason : String
  retryAfter : Int
  deriving DecidableEq, Repr

/-- One call at once, or one open stream. -/
structure Slot where
  actor : String
  stream : Bool
  held : Bool
  deriving DecidableEq, Repr

/-- The counts and rates of the agents calling now. -/
structure Limits where
  fullAgain : Dict String ℚ
  running : Dict String Int
  listening : Dict String Int
  overall : Int

namespace Limits

/-- No agent is calling, listening or recovering. -/
def start : Limits := ⟨.empty, .empty, .empty, 0⟩

/-- `_rate_reason`. -/
def rateReason (settings : Settings) (wait : ℚ) : String :=
  s!"This agent is calling faster than {settings.callsPerMinute} calls a minute. Retry in {⌈wait⌉} seconds."

/-- A bucket full again is the same as none, so it is not kept. -/
def forgetRecovered (limits : Limits) (now : ℚ) : Limits :=
  { limits with fullAgain := limits.fullAgain.keep fun bucket => now < bucket.2 }

/-- One of the actor's calls taken from its bucket, or the refusal when it has none left. -/
def spend (settings : Settings) (limits : Limits) (actor : String) (now : ℚ) :
    Except Limited Limits :=
  let fullAgain := max ((limits.fullAgain.get? actor).getD now) now + settings.bucket.spacing
  let wait := fullAgain - now - settings.bucket.depth
  if wait > 0 then .error ⟨"rate_limited", rateReason settings wait, ⌈wait⌉⟩
  else .ok { limits with fullAgain := limits.fullAgain.set actor fullAgain }

/-- `take`: what is held after it, and the refusal, where it is one. -/
def take (settings : Settings) (limits : Limits) (actor : String) (now : ℚ) :
    Limits × Option Limited :=
  match limits.spend settings actor now with
  | .error limited => (limits, some limited)
  | .ok spent => (spent.forgetRecovered now, none)

/-- `occupy`: one of the actor's calls at once, or the refusal when it, or every agent
together, has them all. -/
def occupy (settings : Settings) (limits : Limits) (actor : String) : Limits × Except Limited Slot :=
  let running := (limits.running.get? actor).getD 0
  if limits.overall ≥ settings.callsAtOnceOverall then
    (limits, .error ⟨"too_many_calls",
      "HQ is answering all the agent calls it takes at once. Retry shortly.", 1⟩)
  else if running ≥ settings.callsAtOnce then
    (limits, .error ⟨"too_many_calls",
      s!"This agent already has {running} calls in flight. Retry when one answers.", 1⟩)
  else
    ({ limits with
        running := limits.running.set actor (running + 1)
        overall := limits.overall + 1 }, .ok ⟨actor, false, true⟩)

/-- `listen`: one of the actor's listen streams, or the refusal when it has them all open. -/
def listen (settings : Settings) (limits : Limits) (actor : String) : Limits × Except Limited Slot :=
  let listening := (limits.listening.get? actor).getD 0
  if listening ≥ settings.streamsAtOnce then
    (limits, .error ⟨"too_many_calls",
      s!"This agent already has {listening} listen streams open. Retry when one closes.", 60⟩)
  else ({ limits with listening := limits.listening.set actor (listening + 1) }, .ok ⟨actor, true, true⟩)

/-- A count popped, and put back one lower where that leaves anything; popping one that is
not there raises. -/
def less (counts : Dict String Int) (actor : String) : Option (Dict String Int) :=
  (counts.get? actor).map fun count =>
    let others := counts.keep fun entry => entry.1 ≠ actor
    if count - 1 = 0 then others else others.set actor (count - 1)

/-- `release`: a slot is given back once. Where popping its count raises, what stands is
what was written before. -/
def release (limits : Limits) (slot : Slot) : Except (Limits × Slot) (Limits × Slot) :=
  let given : Slot := { slot with held := false }
  if !slot.held then .ok (limits, given)
  else if slot.stream then
    match less limits.listening slot.actor with
    | some listening => .ok ({ limits with listening }, given)
    | none => .error (limits, given)
  else
    match less limits.running slot.actor with
    | some running => .ok ({ limits with running, overall := limits.overall - 1 }, given)
    | none => .error ({ limits with overall := limits.overall - 1 }, given)

/-- `held`: how many agents anything is held for. -/
def held (limits : Limits) (now : ℚ) : Limits × Nat :=
  let limits := limits.forgetRecovered now
  (limits, (limits.fullAgain.keys ++ limits.running.keys ++ limits.listening.keys).dedup.length)

end Limits

end SeverinoHQ.Agents
