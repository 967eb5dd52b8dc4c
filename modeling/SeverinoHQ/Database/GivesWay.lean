/-
# A waiting writer gets in

The pacer counts a run of writing from the last gap it took for a turn. Where every such gap had
the lock free, that is never later than the last turn, so a statement that takes the lock once
the run has lasted lets go of it first.
-/

import Mathlib.Algebra.Order.Ring.Rat
import SeverinoHQ.Database.Turns

namespace SeverinoHQ.Database

open SeverinoHQ.Math SeverinoHQ.Math.Pacing

/-- Every hold of the lock comes after a turn or is asked for within `HOLDS` of the last, and a
waiter gets in within `HOLDS`, `LETS_GO` and the longest transaction. -/
structure GivesWay (start : ℚ) (state : State) : Prop where
  paced : Paced start letsGo holdsFor state.holds
  getsIn : ∀ longest : ℚ≥0, (∀ hold ∈ state.holds, hold.released - hold.taken ≤ longest) →
    ∀ tries : Nat → ℚ, start ≤ tries 0 → (∀ n, tries (n + 1) ≤ tries n + retriesEvery) →
      (∀ time, ∃ n, time ≤ tries n) → tries 0 + holdsFor + longest + letsGo ≤ state.now →
        ∃ n, tries n ≤ tries 0 + holdsFor + longest + letsGo ∧ FreeAt state.holds (tries n)

/-- A gap the pacer takes for a turn has the lock free for as long; it knows a statement that
takes the lock by its text; and none begins a transaction inside another. -/
structure Fair (start : ℚ) (state : State) (statement : Statement) : Prop where
  gap : state.turns.began = none ∨ letsGo ≤ state.now - state.turns.last →
    state.holding = none ∧ letsGo ≤ state.now - freed start letsGo state.ended
  seen : state.holding = none → statement.effect ≠ .reads → takesLock false statement.head = true
  apart : state.holding ≠ none → "BEGIN".toList.isPrefixOf statement.head = false

instance (start : ℚ) (state : State) (statement : Statement) :
    Decidable (Fair start state statement) :=
  decidable_of_iff
    ((state.turns.began = none ∨ letsGo ≤ state.now - state.turns.last →
        state.holding = none ∧ letsGo ≤ state.now - freed start letsGo state.ended) ∧
      (state.holding = none → statement.effect ≠ .reads → takesLock false statement.head = true) ∧
      (state.holding ≠ none → "BEGIN".toList.isPrefixOf statement.head = false))
    ⟨fun ⟨hgap, hseen, hapart⟩ => ⟨hgap, hseen, hapart⟩,
      fun ⟨hgap, hseen, hapart⟩ => ⟨hgap, hseen, hapart⟩⟩

/-- The condition on a step of the connection. -/
def Minds (start : ℚ) (state : State) : Event → Prop
  | .statement statement => Fair start state statement
  | _ => True

instance (start : ℚ) (state : State) : (event : Event) → Decidable (Minds start state event)
  | .statement statement => inferInstanceAs (Decidable (Fair start state statement))
  | .passes _ => .isTrue trivial
  | .finishes => .isTrue trivial

/-! ## What the pacer may do -/

theorem letsGo_pos : 0 < letsGo := by norm_num [letsGo, retriesEvery]

theorem Turns.before_cases (turns : Turns) (now : ℚ) (takes : Bool) :
    (turns.before now takes = ({ turns with began := some now }, 0) ∧
      (turns.began = none ∨ letsGo ≤ now - turns.last)) ∨
    (turns.before now takes = ({ turns with began := some (now + letsGo) }, letsGo) ∧
      takes = true) ∨
    (turns.before now takes = (turns, 0) ∧
      ∃ began, turns.began = some began ∧ (takes = true → now - began < holdsFor)) := by
  rw [before]
  cases hbegan : turns.began with
  | none => exact .inl ⟨rfl, .inl rfl⟩
  | some began =>
      dsimp only
      by_cases hgap : letsGo ≤ now - turns.last
      · exact .inl ⟨if_pos hgap, .inr hgap⟩
      · rw [if_neg hgap]
        by_cases hlong : takes ∧ holdsFor ≤ now - began
        · exact .inr (.inl ⟨if_pos hlong, hlong.1⟩)
        · refine .inr (.inr ⟨if_neg hlong, began, rfl, fun htakes => ?_⟩)
          exact not_le.mp fun hle => hlong ⟨htakes, hle⟩

/-- What the pacer has right: its run of writing began no later than the last turn, or the lock
has been free since a turn before it began. -/
structure Kept (start : ℚ) (state : State) : Prop where
  ordered : Ordered start letsGo state.holds
  paced : Paced start letsGo holdsFor state.holds
  start_le : start ≤ state.now
  freed_le : freed start letsGo state.holds ≤ state.now
  began_le : ∀ began ∈ state.turns.began, began ≤ state.now ∧
    (began ≤ lastTurn start letsGo state.holds ∨
      state.holding = none ∧ freed start letsGo state.holds + letsGo ≤ began)

theorem initial_kept (start : ℚ) (inside : Bool) : Kept start (State.initial start inside) := by
  have hpos := letsGo_pos
  cases inside with
  | false =>
      exact ⟨trivial, trivial, le_refl _, by simpa [State.initial, State.holds, freed] using hpos.le,
        by simp [State.initial]⟩
  | true =>
      refine ⟨⟨le_refl _, ?_, le_refl _, le_refl _, fun hlt => absurd hlt (lt_irrefl _), trivial⟩,
        ⟨.inl ?_, trivial⟩, le_refl _, le_refl _, by simp [State.initial]⟩
      · show start - letsGo ≤ start
        linarith
      · show letsGo ≤ start - (start - letsGo)
        linarith

section Step

variable {start : ℚ} {state : State}

/-- Time passes with the lock held or free as it is. -/
theorem Kept.passes (h : Kept start state) (turns : Turns) (hturns : turns.began = state.turns.began)
    (seconds : ℚ≥0) :
    Kept start { state with now := state.now + seconds, turns := turns } := by
  obtain ⟨hordered, hpaced, hstart, hfreed, hbegan⟩ := h
  have hnonneg : (0 : ℚ) ≤ seconds := seconds.coe_nonneg
  obtain ⟨now, pacer, holding, ended⟩ := state
  cases holding with
  | none =>
      refine ⟨hordered, hpaced, ?_, ?_, ?_⟩
      · exact hstart.trans (by linarith)
      · exact hfreed.trans (by linarith)
      · intro began hmem
        obtain ⟨hle, hkept⟩ := hbegan began (hturns ▸ hmem)
        exact ⟨hle.trans (by linarith), hkept⟩
  | some hold =>
      obtain ⟨hasked, hbefore, hspan, htaken, hlate, hearlier⟩ := hordered
      refine ⟨⟨hasked, hbefore, hspan, ?_, hlate, hearlier⟩, hpaced, ?_, le_refl _, ?_⟩
      · exact htaken.trans (by linarith)
      · exact hstart.trans (by linarith)
      · intro began hmem
        obtain ⟨hle, hkept⟩ := hbegan began (hturns ▸ hmem)
        refine ⟨hle.trans (by linarith), .inl ?_⟩
        rcases hkept with hlast | ⟨hnone, -⟩
        · exact hlast
        · exact absurd hnone (by simp)

theorem Kept.finishes (h : Kept start state) :
    Kept start { state with holding := none, ended := state.holds } := by
  refine ⟨h.ordered, h.paced, h.start_le, h.freed_le, fun began hmem => ?_⟩
  obtain ⟨hle, hkept⟩ := h.began_le began hmem
  exact ⟨hle, hkept.imp id fun hfree => ⟨rfl, hfree.2⟩⟩

/-- Inside a transaction the pacer lets every statement go. -/
theorem Kept.inside (h : Kept start state) {statement : Statement}
    (hfair : Fair start state statement) (hholding : state.holding ≠ none) :
    Kept start (execute state statement) := by
  have htakes : takesLock state.holding.isSome statement.head = false := by
    rw [takesLock, hfair.apart hholding, Option.isSome_iff_ne_none.mpr hholding]
    rfl
  have hpaced : state.turns.before state.now (takesLock state.holding.isSome statement.head) =
      (state.turns, 0) := by
    rcases state.turns.before_cases state.now (takesLock state.holding.isSome statement.head) with
      ⟨-, hgap⟩ | ⟨-, htrue⟩ | ⟨heq, -⟩
    · exact absurd (hfair.gap hgap).1 hholding
    · rw [htakes] at htrue
      exact absurd htrue (by decide)
    · exact heq
  have hexecute : execute state statement =
      { state with now := state.now + statement.seconds,
                   turns := state.turns.after (state.now + statement.seconds) } := by
    simp only [execute, hpaced, hholding, false_and, if_false, add_zero]
  rw [hexecute]
  exact h.passes (state.turns.after (state.now + statement.seconds)) rfl statement.seconds

/-- A statement that finds the lock free: it is let go at a time when, if it waited, the lock has
been free for a turn, and if it takes the lock, that or the last turn is within `HOLDS`. -/
theorem Kept.lets (h : Kept start state) {statement : Statement}
    (hfair : Fair start state statement) (hfree : state.holding = none) :
    ∃ turns pause,
      state.turns.before state.now (takesLock false statement.head) = (turns, pause) ∧
      0 ≤ pause ∧
      (0 < pause → letsGo ≤ state.now + pause - freed start letsGo state.ended) ∧
      (statement.effect ≠ .reads →
        letsGo ≤ state.now + pause - freed start letsGo state.ended ∨
          state.now - lastTurn start letsGo state.ended < holdsFor) ∧
      ∀ began ∈ turns.began, began ≤ state.now + pause ∧
        (began ≤ lastTurn start letsGo state.ended ∨
          freed start letsGo state.ended + letsGo ≤ began) := by
  have hpos := letsGo_pos
  have hholds : state.holds = state.ended := by rw [State.holds, hfree]
  obtain ⟨-, -, -, hfreed, hbegan⟩ := h
  rw [hholds] at hfreed hbegan
  rcases state.turns.before_cases state.now (takesLock false statement.head) with
    ⟨heq, hgap⟩ | ⟨heq, -⟩ | ⟨heq, began, hsome, hrecent⟩
  · -- The gap was a turn.
    have hturn := (hfair.gap hgap).2
    refine ⟨_, _, heq, le_refl _, fun hlt => absurd hlt (lt_irrefl _), fun _ => .inl ?_, ?_⟩
    · linarith
    · intro began hmem
      obtain rfl := Option.some.inj hmem
      exact ⟨by linarith, .inr (by linarith)⟩
  · -- It gives one.
    refine ⟨_, _, heq, hpos.le, fun _ => by linarith, fun _ => .inl (by linarith), ?_⟩
    intro began hmem
    obtain rfl := Option.some.inj hmem
    exact ⟨le_refl _, .inr (by linarith)⟩
  · -- The run is young.
    obtain ⟨hle, hkept⟩ := hbegan began hsome
    refine ⟨_, _, heq, le_refl _, fun hlt => absurd hlt (lt_irrefl _), fun htakes => ?_, ?_⟩
    · have hrecent := hrecent (hfair.seen hfree htakes)
      rcases hkept with hlast | ⟨-, hturn⟩
      · exact .inr (by linarith)
      · exact .inl (by linarith)
    · intro other hmem
      obtain rfl := Option.some.inj (hsome.symm.trans hmem)
      exact ⟨by linarith, hkept.imp id And.right⟩

/-- Outside a transaction. -/
theorem Kept.outside (h : Kept start state) {statement : Statement}
    (hfair : Fair start state statement) (hfree : state.holding = none) :
    Kept start (execute state statement) := by
  obtain ⟨turns, pause, hpaced, hpause, hwaited, htaken, hturns⟩ := h.lets hfair hfree
  have hnonneg : (0 : ℚ) ≤ statement.seconds := statement.seconds.coe_nonneg
  have hholds : state.holds = state.ended := by rw [State.holds, hfree]
  obtain ⟨hordered, hkept, hstart, hfreed, -⟩ := h
  rw [hholds] at hordered hkept hfreed
  by_cases hreads : statement.effect = .reads
  · -- The lock stays free.
    have hexecute : execute state statement =
        ⟨state.now + pause + statement.seconds,
          turns.after (state.now + pause + statement.seconds), none, state.ended⟩ := by
      simp [execute, hpaced, hreads, hfree]
    rw [hexecute]
    refine ⟨hordered, hkept, ?_, ?_, fun began hmem => ?_⟩
    · exact hstart.trans (by linarith)
    · exact hfreed.trans (by linarith)
    · obtain ⟨hle, hbegan⟩ := hturns began hmem
      exact ⟨hle.trans (by linarith), hbegan.imp id fun hturn => ⟨rfl, hturn⟩⟩
  · -- It takes the lock, for its own run or for a transaction.
    have hnew : (execute state statement).holds =
        ⟨state.now, state.now + pause, state.now + pause + statement.seconds⟩ :: state.ended := by
      cases heffect : statement.effect with
      | reads => exact absurd heffect hreads
      | begins => simp [execute, hpaced, heffect, hfree, State.holds]
      | writes => simp [execute, hpaced, heffect, hfree, State.holds]
    have hbegan : (execute state statement).turns.began = turns.began := by
      simp [execute, hfree, hpaced, Turns.after]
    have hnow : (execute state statement).now = state.now + pause + statement.seconds := by
      simp [execute, hfree, hpaced]
    constructor
    · rw [hnew]
      refine ⟨hstart, hfreed, by linarith, by linarith, fun hlt => ?_, hordered⟩
      exact hwaited (by linarith)
    · rw [hnew]
      exact ⟨htaken hreads, hkept⟩
    · rw [hnow]
      exact hstart.trans (by linarith)
    · rw [hnew, hnow]
      exact le_refl _
    · rw [hnew, hnow, hbegan]
      intro began hmem
      obtain ⟨hle, hturn⟩ := hturns began hmem
      refine ⟨hle.trans (by linarith), .inl ?_⟩
      rw [lastTurn]
      split
      · exact hle
      · next hshort =>
          rcases hturn with hlast | hfree
          · exact hlast
          · exact absurd (by linarith) hshort

theorem step_kept {event : Event} (h : Kept start state) (hminds : Minds start state event) :
    Kept start (step state event) := by
  cases event with
  | passes seconds => exact h.passes _ rfl seconds
  | finishes => exact h.finishes
  | statement statement =>
      by_cases hfree : state.holding = none
      · exact h.outside hminds hfree
      · exact h.inside hminds hfree

end Step

/-! ## The waiter -/

theorem Kept.givesWay {start : ℚ} {state : State} (h : Kept start state) :
    GivesWay start state where
  paced := h.paced
  getsIn longest hlongest tries hstart hstep hnever hnow :=
    exists_free_try h.ordered h.paced hlongest longest.coe_nonneg (by norm_num [holdsFor]) hstart
      hstep hnever (by norm_num [retriesEvery]) (by norm_num [retriesEvery, letsGo]) h.freed_le hnow

/-- In every run whose gaps of `LETS_GO` were turns, writing gives way. -/
theorem run_givesWay (start : ℚ) (inside : Bool) (events : List Event)
    (hminds : Meets step (Minds start) (State.initial start inside) events) :
    GivesWay start (run step (State.initial start inside) events) :=
  (run_invariant (Kept start) (fun _ _ h hminds => step_kept h hminds)
    (initial_kept start inside) hminds).givesWay

/-! ## Work inside a transaction -/

/-- A statement that runs for no time. -/
def instant (verb : String) (effect : Effect) : Event := .statement ⟨verb.toList, effect, 0⟩

/-- A transaction with a fifth of a second of work between its two statements. -/
def slowly : List Event :=
  [instant "BEGIN" .begins, .passes (1 / 5), instant "INSERT" .writes, .finishes]

/-- Six such transactions with no gap between them: the sixth begins as `HOLDS` has passed with
the lock never free. -/
theorem not_givesWay_slowly :
    ¬ GivesWay 0 (run step (State.initial 0 false) (List.replicate 6 slowly).flatten) := by
  intro hgives
  have hholds : (run step (State.initial 0 false) (List.replicate 6 slowly).flatten).holds =
      [⟨1, 1, 6 / 5⟩, ⟨4 / 5, 4 / 5, 1⟩, ⟨3 / 5, 3 / 5, 4 / 5⟩, ⟨2 / 5, 2 / 5, 3 / 5⟩,
        ⟨1 / 5, 1 / 5, 2 / 5⟩, ⟨0, 0, 1 / 5⟩] := by decide +kernel
  have hpaced := hgives.paced
  rw [hholds] at hpaced
  exact absurd hpaced.1 (by decide +kernel)

/-- A transaction with a tenth of a second of work between its two statements. -/
def briefly : List Event :=
  [instant "BEGIN" .begins, .passes (1 / 10), instant "INSERT" .writes, .finishes]

/-- Thirteen such transactions with no gap between them: the connection waits once `HOLDS` has
passed, and a waiter gets in. -/
theorem run_givesWay_briefly :
    let state := run step (State.initial 0 false) (List.replicate 13 briefly).flatten
    GivesWay 0 state ∧ ∃ hold ∈ state.holds, hold.asked < hold.taken :=
  ⟨run_givesWay 0 false _ (by decide +kernel), by decide +kernel⟩

end SeverinoHQ.Database
