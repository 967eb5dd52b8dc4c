/-
# The keeper of derived answers

One thread derives again what a write unsettled. A write wakes it by a flag, which the thread
clears while it waits for the writes to settle, and stopping sets a second flag before the
first. `step` is one statement of a call of another thread, or one the keeper's thread makes
between two looks at what they share.
-/

import SeverinoHQ.Math.Run

namespace SeverinoHQ.Derivations.Ahead

open SeverinoHQ.Math

/-! ## The thread -/

/-- `RESTS`, in microseconds. -/
def rests : Nat := 1000000

/-- `SETTLES`. -/
def settles : Nat := 50000

/-- `SETTLES_WITHIN`. -/
def settlesWithin : Nat := 500000

/-- `SETTLES_LONGEST`. -/
def settlesLongest : Nat := 5000000

/-- What the thread does next. -/
inductive Place where
  /-- `_pause` -/
  | pausing
  /-- the wait of `_run` -/
  | waiting
  /-- `_run` looks at `_stopping` -/
  | looking
  /-- `_settle` takes its deadline -/
  | measuring
  /-- its loop compares the clock with it -/
  | timing
  /-- the clear of its loop -/
  | clearing
  /-- the wait of its loop -/
  | settling
  /-- its loop looks at `_stopping` -/
  | checking
  /-- the clear after its loop -/
  | lastClearing
  /-- `derive_ahead` -/
  | deriving
  /-- `interrupted` -/
  | interrupted
  | ended
  deriving DecidableEq, Repr

/-- The two flags and the thread, on the monotonic clock. `halfway` counts the stops between
their two statements; `owed` is that a wake was made since the last pass began, and `stopped`
that a stop was. -/
structure Keeper where
  woken : Bool
  stopping : Bool
  within : Nat
  clock : Nat
  place : Place
  latest : Nat
  timeout : Option Nat
  halfway : Nat
  owed : Bool
  stopped : Bool
  deriving DecidableEq, Repr

/-- One statement. The thread's reads when the next answer is due, and says whether a wait that
has timed out is told so before the flag is seen. -/
inductive Act where
  | wake
  /-- `_stopping.set()` -/
  | setStopping
  /-- the `_woken.set()` of `stop` -/
  | setWoken
  | thread (due : Option Int) (timesOut : Bool)
  deriving DecidableEq, Repr

/-- A statement, and the time that passed before it. -/
structure Event where
  elapsed : Nat
  act : Act
  deriving DecidableEq, Repr

namespace Keeper

/-- The thread as `start` leaves it. A flag from before may still be set. -/
def started (woken : Bool) (within clock : Nat) : Keeper :=
  ⟨woken, false, within, clock, .pausing, 0, none, 0, woken, false⟩

/-- The wait in progress has run out. -/
def timedOut (keeper : Keeper) : Bool := keeper.timeout.any (· ≤ keeper.clock)

/-- The thread's next statement; a wait goes on until its flag is set or it times out. -/
def advance (due : Option Int) (timesOut : Bool) (keeper : Keeper) : Keeper :=
  match keeper.place with
  | .pausing =>
      { keeper with
        timeout := due.map fun left => keeper.clock + max rests left.toNat
        place := .waiting }
  | .waiting =>
      if keeper.woken || keeper.timedOut then { keeper with place := .looking } else keeper
  | .looking => { keeper with place := if keeper.stopping then .ended else .measuring }
  | .measuring => { keeper with latest := keeper.clock + keeper.within, place := .timing }
  | .timing =>
      { keeper with place := if keeper.clock < keeper.latest then .clearing else .lastClearing }
  | .clearing =>
      { keeper with
        woken := false
        timeout := some (keeper.clock + settles)
        place := .settling }
  | .settling =>
      if timesOut && keeper.timedOut then { keeper with place := .deriving }
      else if keeper.woken then { keeper with place := .checking }
      else keeper
  | .checking => { keeper with place := if keeper.stopping then .deriving else .timing }
  | .lastClearing => { keeper with woken := false, place := .deriving }
  | .deriving => { keeper with owed := false, place := .interrupted }
  | .interrupted =>
      { keeper with
        within := if keeper.woken then min (keeper.within * 2) settlesLongest else settlesWithin
        place := .pausing }
  | .ended => keeper

/-- One statement, made by the thread or by a caller of `wake` or `stop`. -/
def step (keeper : Keeper) (event : Event) : Keeper :=
  let keeper := { keeper with clock := keeper.clock + event.elapsed }
  match event.act with
  | .wake => { keeper with woken := true, owed := true }
  | .setStopping => { keeper with stopping := true, halfway := keeper.halfway + 1 }
  | .setWoken =>
      if keeper.halfway = 0 then keeper
      else { keeper with woken := true, halfway := keeper.halfway - 1, stopped := true }
  | .thread due timesOut => advance due timesOut keeper

/-- The thread waits with its flag clear and a signal is not served: a stop, which only the
thread's end serves, or a wake with no pass on its way. The wait of `_settle` is on the way to
the pass that serves the wakes before it. -/
structure Lost (keeper : Keeper) : Prop where
  clear : keeper.woken = false
  unserved : keeper.stopped = true ∧ (keeper.place = .waiting ∨ keeper.place = .settling) ∨
    keeper.owed = true ∧ keeper.place = .waiting

/-- Between a look at `_stopping` that found nothing and the clear that comes after it. -/
def Between (keeper : Keeper) : Prop :=
  keeper.place = .measuring ∨ keeper.place = .timing ∨ keeper.place = .clearing ∨
    keeper.place = .lastClearing

/-- No stop sets the flag between a look and the clear after it. -/
def Spares (keeper : Keeper) (event : Event) : Prop :=
  event.act = .setWoken → 0 < keeper.halfway → ¬ keeper.Between

instance (keeper : Keeper) : Decidable keeper.Between :=
  inferInstanceAs (Decidable (_ ∨ _ ∨ _ ∨ _))

instance (keeper : Keeper) (event : Event) : Decidable (Spares keeper event) :=
  inferInstanceAs (Decidable (_ → _ → _))

/-! ## A wake is served -/

/-- A wake no pass began after has its flag set, or a pass is on its way: `_settle`'s wait ends
in time, or the pass is next. -/
def WakeKept (keeper : Keeper) : Prop :=
  keeper.owed = true →
    keeper.woken = true ∨ keeper.place = .deriving ∨
      keeper.place = .settling ∧ ∃ limit, keeper.timeout = some limit ∧
        limit ≤ keeper.clock + settles

theorem wakeKept_started (woken : Bool) (within clock : Nat) :
    (started woken within clock).WakeKept := fun howed => .inl howed

theorem wakeKept_later {keeper : Keeper} (h : keeper.WakeKept) (elapsed : Nat) :
    { keeper with clock := keeper.clock + elapsed }.WakeKept := by
  intro howed
  rcases h howed with hwoken | hplace | ⟨hplace, limit, htimeout, hlimit⟩
  · exact .inl hwoken
  · exact .inr (.inl hplace)
  · have hle : limit ≤ keeper.clock + elapsed + settles := by omega
    exact .inr (.inr ⟨hplace, limit, htimeout, hle⟩)

theorem wakeKept_advance {keeper : Keeper} (h : keeper.WakeKept) (due : Option Int)
    (timesOut : Bool) : (advance due timesOut keeper).WakeKept := by
  cases hplace : keeper.place with
  | waiting =>
      by_cases hwoken : keeper.woken || keeper.timedOut
      · simpa [advance, hplace, hwoken, WakeKept] using h
      · simpa [advance, hplace, hwoken, WakeKept] using h
  | settling =>
      by_cases htimeout : timesOut && keeper.timedOut
      · simp [advance, hplace, htimeout, WakeKept]
      · by_cases hwoken : keeper.woken
        · simp [advance, hplace, htimeout, hwoken, WakeKept]
        · simpa [advance, hplace, htimeout, hwoken, WakeKept] using h
  | _ => simp_all [advance, WakeKept]

theorem wakeKept_step (keeper : Keeper) (event : Event) (h : keeper.WakeKept) :
    (step keeper event).WakeKept := by
  have hlater := wakeKept_later h event.elapsed
  cases hact : event.act with
  | wake => simp [step, hact, WakeKept]
  | setStopping => simpa [step, hact, WakeKept] using hlater
  | setWoken =>
      by_cases hnone : keeper.halfway = 0
      · simpa [step, hact, hnone] using hlater
      · simp [step, hact, hnone, WakeKept]
  | thread due timesOut => simpa [step, hact] using wakeKept_advance hlater due timesOut

/-- The thread alone, for as long as the wait of `_settle` takes. -/
def tick : Event := ⟨settles, .thread none true⟩

/-- A wake whose flag `_settle` cleared is served with no other's help. -/
theorem served_of_cleared {keeper : Keeper} (h : keeper.WakeKept) (howed : keeper.owed = true)
    (hclear : keeper.woken = false) : (run step keeper [tick, tick]).owed = false := by
  rcases h howed with hwoken | hplace | ⟨hplace, limit, htimeout, hlimit⟩
  · simp [hclear] at hwoken
  · simp [step, tick, advance, hplace]
  · simp [step, tick, advance, hplace, timedOut, htimeout, hlimit]

/-! ## A stop is served where it is spared -/

/-- What a stop has set stands until the thread looks. -/
structure StopKept (keeper : Keeper) : Prop where
  halfway : 0 < keeper.halfway → keeper.stopping = true
  stopping : keeper.stopped = true → keeper.stopping = true
  woken : keeper.stopped = true → keeper.woken = true
  spared : keeper.stopped = true → ¬ keeper.Between

theorem stopKept_started (woken : Bool) (within clock : Nat) :
    (started woken within clock).StopKept := by
  constructor <;> simp [started]

section Advance

variable {keeper : Keeper} (due : Option Int) (timesOut : Bool)

@[simp]
theorem advance_halfway : (advance due timesOut keeper).halfway = keeper.halfway := by
  unfold advance
  repeat' split
  all_goals rfl

@[simp]
theorem advance_stopping : (advance due timesOut keeper).stopping = keeper.stopping := by
  unfold advance
  repeat' split
  all_goals rfl

@[simp]
theorem advance_stopped : (advance due timesOut keeper).stopped = keeper.stopped := by
  unfold advance
  repeat' split
  all_goals rfl

/-- With a stop made, the thread's next look finds it, and nothing is cleared before. -/
theorem advance_spared (hstopping : keeper.stopping = true) (hwoken : keeper.woken = true)
    (hspared : ¬ keeper.Between) :
    (advance due timesOut keeper).woken = true ∧ ¬ (advance due timesOut keeper).Between := by
  simp only [Between, not_or] at hspared
  cases hplace : keeper.place with
  | settling =>
      by_cases htimeout : timesOut && keeper.timedOut
      · simp only [advance, hplace, htimeout, if_true, Between]
        simp [hwoken]
      · simp only [advance, hplace, htimeout, hwoken, if_true, Between]
        simp
  | _ => simp_all [advance, Between]

theorem stopKept_advance (h : keeper.StopKept) : (advance due timesOut keeper).StopKept := by
  have hspared : keeper.stopped = true → _ := fun hstopped =>
    advance_spared due timesOut (h.stopping hstopped) (h.woken hstopped) (h.spared hstopped)
  constructor
  · simpa using h.halfway
  · simpa using h.stopping
  · simpa using fun hstopped => (hspared hstopped).1
  · simpa using fun hstopped => (hspared hstopped).2

end Advance

theorem stopKept_step (keeper : Keeper) (event : Event) (h : keeper.StopKept)
    (hspares : Spares keeper event) : (step keeper event).StopKept := by
  have hlater : { keeper with clock := keeper.clock + event.elapsed }.StopKept :=
    ⟨h.halfway, h.stopping, h.woken, h.spared⟩
  cases hact : event.act with
  | wake =>
      rw [step, hact]
      exact ⟨hlater.halfway, hlater.stopping, fun _ => rfl, hlater.spared⟩
  | setStopping =>
      rw [step, hact]
      exact ⟨fun _ => rfl, fun _ => rfl, hlater.woken, hlater.spared⟩
  | setWoken =>
      by_cases hnone : keeper.halfway = 0
      · simpa [step, hact, hnone] using hlater
      · have hpos : 0 < keeper.halfway := Nat.pos_of_ne_zero hnone
        have hstopping : keeper.stopping = true := h.halfway hpos
        have hbetween : ¬ keeper.Between := hspares hact hpos
        simp only [step, hact, hnone, if_false]
        exact ⟨fun _ => hstopping, fun _ => hstopping, fun _ => rfl, fun _ => hbetween⟩
  | thread due timesOut => simpa [step, hact] using stopKept_advance due timesOut hlater

/-! ## A stop that is not spared is lost -/

/-- The thread alone, at once. -/
def alone : Event := ⟨0, .thread none false⟩

theorem lost_of_timing {keeper : Keeper} (hstopped : keeper.stopped = true)
    (hplace : keeper.place = .timing) :
    ∃ count, Lost (run step keeper (List.replicate count alone)) := by
  by_cases hlate : keeper.clock < keeper.latest
  · refine ⟨2, ?_, .inl ?_⟩
    · simp [List.replicate, step, alone, advance, hplace, hlate]
    · simp [List.replicate, step, alone, advance, hplace, hlate, hstopped]
  · refine ⟨5, ?_, .inl ?_⟩
    · simp [List.replicate, step, alone, advance, hplace, hlate]
    · simp [List.replicate, step, alone, advance, hplace, hlate, hstopped]

/-- Once the flag of a stop is set between a look and the clear after it, the thread waits
with the stop unserved, unless another call wakes it. -/
theorem lost_of_between {keeper : Keeper} (hstopped : keeper.stopped = true)
    (hbetween : keeper.Between) :
    ∃ count, Lost (run step keeper (List.replicate count alone)) := by
  rcases hbetween with hplace | hplace | hplace | hplace
  · have hstep : (step keeper alone).stopped = true ∧ (step keeper alone).place = .timing := by
      simp [step, alone, advance, hplace, hstopped]
    obtain ⟨count, hlost⟩ := lost_of_timing hstep.1 hstep.2
    exact ⟨count + 1, by rwa [List.replicate_succ, run_cons]⟩
  · exact lost_of_timing hstopped hplace
  · refine ⟨1, ?_, .inl ?_⟩
    · simp [List.replicate, step, alone, advance, hplace]
    · simp [List.replicate, step, alone, advance, hplace, hstopped]
  · refine ⟨4, ?_, .inl ?_⟩
    · simp [List.replicate, step, alone, advance, hplace]
    · simp [List.replicate, step, alone, advance, hplace, hstopped]

/-! ## Runs -/

/-- In a run that spares every stop, no signal is lost in any state reached. -/
theorem signals_served (woken : Bool) (within clock : Nat) (events : List Event)
    (h : Meets step Spares (started woken within clock) events) :
    ¬ Lost (run step (started woken within clock) events) := by
  have hstop := run_invariant StopKept stopKept_step (stopKept_started woken within clock) h
  have hwake := run_always WakeKept wakeKept_step (wakeKept_started woken within clock) events
  rintro ⟨hclear, ⟨hstopped, -⟩ | ⟨howed, hplace⟩⟩
  · simp [hstop.woken hstopped] at hclear
  · rcases hwake howed with hwoken | hderiving | ⟨hsettling, -⟩
    · simp [hclear] at hwoken
    · simp [hplace] at hderiving
    · simp [hplace] at hsettling

/-- A write, then a stop while its pass begins to settle. -/
def stopsAfter : List Event :=
  [alone, ⟨0, .wake⟩, alone, alone, ⟨0, .setStopping⟩, ⟨0, .setWoken⟩]

/-- A stop made before the wake is seen is served. -/
theorem signals_served_early :
    ¬ Lost (run step (started false settlesWithin 0)
      ([⟨0, .setStopping⟩, ⟨0, .wake⟩, ⟨0, .setWoken⟩] ++ List.replicate 4 alone)) :=
  signals_served false settlesWithin 0 _ (by decide)

/-- The stop's flag is cleared, and after the pass the thread waits until something wakes it. -/
theorem stop_lost :
    ¬ ∀ events, ¬ Lost (run step (started false settlesWithin 0) events) := by
  intro hnone
  apply hnone (stopsAfter ++ List.replicate 3 alone ++ [tick] ++ List.replicate 3 alone)
  exact ⟨by decide, by decide⟩

end Keeper

end SeverinoHQ.Derivations.Ahead
