/-
# How a moment is worded

The words of `moments.py` that are read against the clock: how long ago a moment was, how far it
lies from now, and how soon it comes. Each is worded from Django's `timesince`, and asks the clock
the question of `derivations.py` that says how long the words stand.
-/

import SeverinoHQ.Derivations.Clock
import SeverinoHQ.Math.Ages

namespace SeverinoHQ.Derivations

open SeverinoHQ.Math Calendar

/-- A datetime of one offset, in the years that are written: what the database and a provider's
stamp give. -/
structure Moment where
  instant : Int
  offset : Int
  offset_lt : -dayLength < offset ∧ offset < dayLength
  written : newYear 1 * dayLength ≤ instant + offset ∧ instant + offset < newYear 10000 * dayLength

/-- What is said. `"in "` stands before another wording. -/
inductive Words where
  | justNow
  | ago (age : Age)
  | underAMinute
  | length (age : Age)
  | ahead (words : Words)
  deriving DecidableEq, Repr

/-- A wording, and what the clock was asked for it. -/
structure Wording where
  words : Words
  asked : List Question

namespace Moment

/-- The moment by its own clock. -/
def wall (moment : Moment) : Int := moment.instant + moment.offset

/-- The moment as the clock is asked about it. -/
def aware (moment : Moment) : Aware := .utc moment.instant

/-- `ago`: the time now is read by the moment's own clock. -/
def ago (moment : Moment) (now : Int) : Wording where
  words :=
    let age := timesince moment.wall (now + moment.offset)
    if age = .nothing then .justNow else .ago age
  asked := [.since moment.aware none]

/-- `datetime(2000, 1, 1, tzinfo=UTC)`. -/
def lengthStart : Int := newYear 2000 * dayLength

/-- `length`. -/
def length (moment : Moment) (now : Int) : Wording where
  words :=
    let said := timesince lengthStart (lengthStart + |now - moment.instant|)
    if said = .nothing then .underAMinute else .length said
  asked := [.since moment.aware none]

/-- `ahead`. -/
def ahead (moment : Moment) (now : Int) : Wording :=
  let reached := .reached moment.aware none
  if moment.instant ≤ now then
    let past := moment.ago now
    ⟨past.words, reached :: past.asked⟩
  else
    let future := moment.length now
    ⟨.ahead future.words, reached :: future.asked⟩

end Moment

/-- A wording stands: it is the same at every time before all the moments its questions said. -/
def WordsStand (zone : Zone) (wording : Int → Wording) (now : Int) : Prop :=
  ∀ later, now ≤ later →
    (∀ question ∈ (wording now).asked, ∀ moment ∈ question.boundary zone now,
      later < moment.instant zone) →
    (wording later).words = (wording now).words

end SeverinoHQ.Derivations
