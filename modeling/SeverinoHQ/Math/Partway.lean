/-
# Programs stopped on the way

A run of a program may be looked at, or cut off, between any two of its calls. What holds
throughout holds at each such point, whatever the world replied before it.
-/

import SeverinoHQ.Math.Dialogue

namespace SeverinoHQ.Math.Dialogue

universe u

variable {Call : Type} {Reply : Call → Type} {α β : Type} {σ : Type u}

/-- A program, run up to some point: the exchanges it has had and the world as it is. -/
inductive Partway (world : σ → Exchange Call Reply → σ → Prop) :
    Dialogue Call Reply α → σ → List (Exchange Call Reply) → σ → Prop where
  | here (program : Dialogue Call Reply α) (state : σ) : Partway world program state [] state
  | ask {state after final : σ} {call : Call} {next : Reply call → Dialogue Call Reply α}
      {reply : Reply call} {rest : List (Exchange Call Reply)}
      (hreply : world state ⟨call, reply⟩ after)
      (hrest : Partway world (next reply) after rest final) :
      Partway world (.ask call next) state (⟨call, reply⟩ :: rest) final

/-- The world is as `kept` says at every point of every run. -/
def Throughout (world : σ → Exchange Call Reply → σ → Prop) (program : Dialogue Call Reply α)
    (state : σ) (kept : σ → Prop) : Prop :=
  ∀ exchanges between, Partway world program state exchanges between → kept between

variable {world : σ → Exchange Call Reply → σ → Prop} {state : σ} {kept : σ → Prop}

theorem Throughout.mono {program : Dialogue Call Reply α} {weaker : σ → Prop}
    (h : Throughout world program state kept) (hweaker : ∀ between, kept between → weaker between) :
    Throughout world program state weaker :=
  fun exchanges between hpartway => hweaker between (h exchanges between hpartway)

@[simp]
theorem throughout_pure {result : α} :
    Throughout world (pure result) state kept ↔ kept state := by
  constructor
  · exact fun h => h [] state (.here _ state)
  · rintro h exchanges between ⟨⟩
    exact h

theorem throughout_ask {call : Call} {next : Reply call → Dialogue Call Reply α} :
    Throughout world (.ask call next) state kept ↔
      kept state ∧ ∀ reply after, world state ⟨call, reply⟩ after →
        Throughout world (next reply) after kept := by
  constructor
  · intro h
    refine ⟨h [] state (.here _ state), fun reply after hreply exchanges between hpartway => ?_⟩
    exact h _ between (.ask hreply hpartway)
  · rintro ⟨hstate, hnext⟩ exchanges between hpartway
    cases hpartway with
    | here => exact hstate
    | ask hreply hrest => exact hnext _ _ hreply _ between hrest

end SeverinoHQ.Math.Dialogue
