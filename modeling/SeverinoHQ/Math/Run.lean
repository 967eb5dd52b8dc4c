/-
# Runs of a machine and the conditions their steps meet

A machine here is a total step function: a call that is refused, or an event
that cannot happen in a state, leaves the state as it is. A run takes a list of
events in order, so every interleaving of several parties is one list. The
rules below carry an invariant, or a relation to the start, over every run
whose steps all meet a condition on the state they are taken in.
-/

import Mathlib.Order.Defs.Unbundled

namespace SeverinoHQ.Math

universe u v

variable {σ : Type u} {ε : Type v} (step : σ → ε → σ)

/-- The state a machine is in after taking `events` in order. -/
def run (start : σ) (events : List ε) : σ := events.foldl step start

@[simp]
theorem run_nil (start : σ) : run step start [] = start := rfl

@[simp]
theorem run_cons (start : σ) (event : ε) (events : List ε) :
    run step start (event :: events) = run step (step start event) events := rfl

theorem run_append (start : σ) (first second : List ε) :
    run step start (first ++ second) = run step (run step start first) second := by
  simp [run, List.foldl_append]

/-- Every step of the run meets `condition` in the state it is taken in. -/
def Meets (condition : σ → ε → Prop) : σ → List ε → Prop
  | _, [] => True
  | start, event :: events => condition start event ∧ Meets condition (step start event) events

variable {step} {condition : σ → ε → Prop}

/-- Whether a run meets a decidable condition is decided step by step. -/
instance Meets.decidable [∀ state event, Decidable (condition state event)] :
    (start : σ) → (events : List ε) → Decidable (Meets step condition start events)
  | _, [] => .isTrue trivial
  | start, event :: events =>
      haveI := Meets.decidable (step start event) events
      inferInstanceAs (Decidable (condition start event ∧ Meets step condition _ events))

theorem Meets.append {start : σ} {first second : List ε}
    (h : Meets step condition start (first ++ second)) :
    Meets step condition start first ∧
      Meets step condition (run step start first) second := by
  induction first generalizing start with
  | nil => exact ⟨trivial, h⟩
  | cons event events ih =>
      obtain ⟨hfirst, hsecond⟩ := ih h.2
      exact ⟨⟨h.1, hfirst⟩, hsecond⟩

/-- A run that meets two conditions meets both at each step. -/
theorem Meets.and {other : σ → ε → Prop} {start : σ} {events : List ε}
    (h : Meets step condition start events) (hother : Meets step other start events) :
    Meets step (fun state event => condition state event ∧ other state event) start events := by
  induction events generalizing start with
  | nil => trivial
  | cons event events ih => exact ⟨⟨h.1, hother.1⟩, ih h.2 hother.2⟩

/-- A condition on the events alone is met when each of them meets it. -/
theorem meets_of_forall_mem {start : σ} {events : List ε}
    (h : ∀ event ∈ events, ∀ state, condition state event) :
    Meets step condition start events := by
  induction events generalizing start with
  | nil => trivial
  | cons event events ih =>
      refine ⟨h event List.mem_cons_self start, ih fun other hother => ?_⟩
      exact h other (List.mem_cons_of_mem event hother)

theorem meets_of_forall (h : ∀ state event, condition state event)
    (start : σ) (events : List ε) : Meets step condition start events :=
  meets_of_forall_mem fun event _ state => h state event

/-- What one conforming step keeps, a conforming run keeps. -/
theorem run_invariant (inv : σ → Prop)
    (hstep : ∀ state event, inv state → condition state event → inv (step state event))
    {start : σ} {events : List ε} (hinv : inv start)
    (hmeets : Meets step condition start events) : inv (run step start events) := by
  induction events generalizing start with
  | nil => exact hinv
  | cons event events ih => exact ih (hstep start event hinv hmeets.1) hmeets.2

/-- What every step keeps, every run keeps. -/
theorem run_always (inv : σ → Prop) (hstep : ∀ state event, inv state → inv (step state event))
    {start : σ} (hinv : inv start) (events : List ε) : inv (run step start events) := by
  induction events generalizing start with
  | nil => exact hinv
  | cons event events ih => exact ih (hstep start event hinv)

/-- What each step keeps exactly where it meets a condition, a run keeps exactly where all of its
steps do. -/
theorem run_iff_meets (inv good : σ → Prop) {given : σ → ε → Prop}
    (hstep : ∀ state event, inv state → given state event →
      inv (step state event) ∧ (good (step state event) ↔ good state ∧ condition state event))
    {start : σ} {events : List ε} (hinv : inv start) (hgiven : Meets step given start events) :
    good (run step start events) ↔ good start ∧ Meets step condition start events := by
  induction events generalizing start with
  | nil => exact ⟨fun hgood => ⟨hgood, trivial⟩, And.left⟩
  | cons event events ih =>
      obtain ⟨hnext, hgood⟩ := hstep start event hinv hgiven.1
      rw [run_cons, ih hnext hgiven.2, hgood, and_assoc]
      rfl

/-- A machine follows an abstract one, through every run and all that leads to it, exactly where
each of its steps meets the condition under which that step does. -/
theorem run_follows_iff {α : Type*} (inv : σ → Prop) (abstracted : σ → α) (follow : α → ε → α)
    (hstep : ∀ state event, inv state → inv (step state event) ∧
      (abstracted (step state event) = follow (abstracted state) event ↔ condition state event))
    {start : σ} {events : List ε} (hinv : inv start) :
    (∀ count, abstracted (run step start (events.take count)) =
      run follow (abstracted start) (events.take count)) ↔ Meets step condition start events := by
  induction events generalizing start with
  | nil => simp [Meets]
  | cons event events ih =>
      obtain ⟨hnext, hevent⟩ := hstep start event hinv
      rw [Meets, ← hevent, ← ih hnext]
      constructor
      · intro hfollows
        have hfirst : abstracted (step start event) = follow (abstracted start) event := by
          simpa using hfollows 1
        refine ⟨hfirst, fun count => ?_⟩
        have hrest := hfollows (count + 1)
        rwa [List.take_succ_cons, run_cons, run_cons, ← hfirst] at hrest
      · rintro ⟨hfirst, hrest⟩ count
        cases count with
        | zero => rfl
        | succ count =>
            rw [List.take_succ_cons, run_cons, run_cons, ← hfirst]
            exact hrest count

/-- A reflexive and transitive relation that every conforming step respects
relates the start of a conforming run to its end. -/
theorem run_related (inv : σ → Prop) (rel : σ → σ → Prop) [Std.Refl rel] [IsTrans σ rel]
    (hstep : ∀ state event, inv state → condition state event → inv (step state event))
    (hrel : ∀ state event, inv state → condition state event → rel state (step state event))
    {start : σ} {events : List ε} (hinv : inv start)
    (hmeets : Meets step condition start events) : rel start (run step start events) := by
  induction events generalizing start with
  | nil => exact refl_of rel start
  | cons event events ih =>
      exact trans_of rel (hrel start event hinv hmeets.1)
        (ih (hstep start event hinv hmeets.1) hmeets.2)

end SeverinoHQ.Math
