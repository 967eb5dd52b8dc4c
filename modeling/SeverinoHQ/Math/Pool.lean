/-
# Many programs over one world

Each program of a pool makes its calls one at a time, in any order with the others',
and may be stopped for good between any two. What a program has said so far is a
way into its own tree, whatever the others did; what the world has become is the
work of all of them.
-/

import SeverinoHQ.Math.Dialogue
import Mathlib.Logic.Function.Basic

namespace SeverinoHQ.Math

universe u

variable {Call : Type} {Reply : Call → Type} {α β : Type} {σ : Type u} {ι : Type}

namespace Dialogue

/-! ## A way into a program -/

/-- Where a program is after these exchanges. -/
inductive Follows : Dialogue Call Reply α → List (Exchange Call Reply) → Dialogue Call Reply α →
    Prop where
  | nil (program : Dialogue Call Reply α) : Follows program [] program
  | ask {call : Call} {next : Reply call → Dialogue Call Reply α} {reply : Reply call}
      {exchanges : List (Exchange Call Reply)} {rest : Dialogue Call Reply α}
      (h : Follows (next reply) exchanges rest) :
      Follows (.ask call next) (⟨call, reply⟩ :: exchanges) rest

theorem Follows.snoc {program : Dialogue Call Reply α} {exchanges : List (Exchange Call Reply)}
    {rest : Dialogue Call Reply α} {call : Call} {next : Reply call → Dialogue Call Reply α}
    (h : Follows program exchanges rest) (hrest : rest = .ask call next) (reply : Reply call) :
    Follows program (exchanges ++ [⟨call, reply⟩]) (next reply) := by
  induction h with
  | nil => exact hrest ▸ .ask (.nil _)
  | ask h ih => exact .ask (ih hrest)

/-- A way into a program that goes on by another's result: still in the first, or
through it. -/
theorem Follows.of_bind {program : Dialogue Call Reply α} {next : α → Dialogue Call Reply β}
    {exchanges : List (Exchange Call Reply)} {rest : Dialogue Call Reply β}
    (h : Follows (program >>= next) exchanges rest) :
    (∃ call reply, Follows program exchanges (.ask call reply) ∧
      rest = .ask call fun answer => reply answer >>= next) ∨
      ∃ first second result, exchanges = first ++ second ∧ Follows program first (.done result) ∧
        Follows (next result) second rest := by
  induction program generalizing exchanges with
  | done result => exact Or.inr ⟨[], exchanges, result, rfl, .nil _, h⟩
  | ask call reply ih =>
      cases h with
      | nil => exact Or.inl ⟨call, reply, .nil _, rfl⟩
      | ask h =>
          rcases ih _ h with ⟨later, between, hbetween, rfl⟩ | ⟨first, second, result, rfl, hfirst, hsecond⟩
          · exact Or.inl ⟨later, between, .ask hbetween, rfl⟩
          · exact Or.inr ⟨_ :: first, second, result, rfl, .ask hfirst, hsecond⟩

/-- A way into one call and what follows it. -/
theorem Follows.of_call {call : Call} {next : Reply call → Dialogue Call Reply β}
    {exchanges : List (Exchange Call Reply)} {rest : Dialogue Call Reply β}
    (h : Follows (Dialogue.call call >>= next) exchanges rest) :
    exchanges = [] ∧ rest = .ask call next ∨
      ∃ reply later, exchanges = ⟨call, reply⟩ :: later ∧ Follows (next reply) later rest := by
  change Follows (.ask call next) exchanges rest at h
  cases h with
  | nil => exact Or.inl ⟨rfl, rfl⟩
  | ask h => exact Or.inr ⟨_, _, rfl, h⟩

theorem Follows.of_done {result : α} {exchanges : List (Exchange Call Reply)}
    {rest : Dialogue Call Reply α} (h : Follows (.done result) exchanges rest) :
    exchanges = [] ∧ rest = .done result := by
  cases h with
  | nil => exact ⟨rfl, rfl⟩

theorem Only.follows {allowed : Call → Prop} {program rest : Dialogue Call Reply α}
    {exchanges : List (Exchange Call Reply)} (h : program.Only allowed)
    (hfollows : Follows program exchanges rest) : ∀ exchange ∈ exchanges, allowed exchange.1 := by
  induction hfollows with
  | nil => simp
  | ask hfollows ih =>
      intro exchange hexchange
      rcases List.mem_cons.mp hexchange with rfl | hmem
      · exact h.1
      · exact ih (h.2 _) exchange hmem

/-- The call a program waits on is one it can make. -/
theorem Only.pending {allowed : Call → Prop} {program : Dialogue Call Reply α}
    {exchanges : List (Exchange Call Reply)} {call : Call}
    {next : Reply call → Dialogue Call Reply α} (h : program.Only allowed)
    (hfollows : Follows program exchanges (.ask call next)) : allowed call := by
  generalize hrest : Dialogue.ask call next = rest at hfollows
  induction hfollows with
  | nil =>
      subst hrest
      exact h.1
  | ask hfollows ih => exact ih (h.2 _) hrest

end Dialogue

/-! ## Pools -/

open Dialogue (Exchange Follows)

/-- Programs that have come some way over one world: where each is now, which were
stopped for good, and what was exchanged, the oldest first. -/
structure Pool (σ : Type u) (ι : Type) (Call : Type) (Reply : Call → Type) (α : Type) where
  world : σ
  rest : ι → Dialogue Call Reply α
  killed : ι → Bool
  history : List (ι × Exchange Call Reply)

namespace Pool

/-- The programs at their start. -/
def start (world : σ) (program : ι → Dialogue Call Reply α) : Pool σ ι Call Reply α where
  world := world
  rest := program
  killed _ := false
  history := []

variable [DecidableEq ι]

/-- One program makes its next call, or is killed. -/
inductive Step (world : σ → Exchange Call Reply → σ → Prop) :
    Pool σ ι Call Reply α → Pool σ ι Call Reply α → Prop where
  | call {pool : Pool σ ι Call Reply α} {who : ι} {call : Call}
      {next : Reply call → Dialogue Call Reply α} {reply : Reply call} {after : σ}
      (halive : pool.killed who = false) (hrest : pool.rest who = .ask call next)
      (hworld : world pool.world ⟨call, reply⟩ after) :
      Step world pool
        { pool with
          world := after
          rest := Function.update pool.rest who (next reply)
          history := pool.history ++ [(who, ⟨call, reply⟩)] }
  | kill {pool : Pool σ ι Call Reply α} (who : ι) :
      Step world pool { pool with killed := Function.update pool.killed who true }

/-- The pools an interleaving can come to. -/
inductive Reaches (world : σ → Exchange Call Reply → σ → Prop) (first : Pool σ ι Call Reply α) :
    Pool σ ι Call Reply α → Prop where
  | refl : Reaches world first first
  | step {pool next : Pool σ ι Call Reply α} (hreaches : Reaches world first pool)
      (hstep : Step world pool next) : Reaches world first next

/-- What one program has exchanged. -/
def said (history : List (ι × Exchange Call Reply)) (who : ι) : List (Exchange Call Reply) :=
  history.filterMap fun entry => if entry.1 = who then some entry.2 else none

variable {world : σ → Exchange Call Reply → σ → Prop} {program : ι → Dialogue Call Reply α}
  {begun : σ} {pool : Pool σ ι Call Reply α} {history : List (ι × Exchange Call Reply)}
  {who other : ι} {exchange : Exchange Call Reply}

theorem mem_said : exchange ∈ said history who ↔ (who, exchange) ∈ history := by
  simp only [said, List.mem_filterMap, Option.ite_none_right_eq_some, Option.some.injEq]
  constructor
  · rintro ⟨⟨_, _⟩, hmem, rfl, rfl⟩
    exact hmem
  · intro hmem
    exact ⟨_, hmem, rfl, rfl⟩

theorem said_append_self :
    said (history ++ [(who, exchange)]) who = said history who ++ [exchange] := by
  simp [said]

theorem said_append_of_ne (hother : other ≠ who) :
    said (history ++ [(other, exchange)]) who = said history who := by
  simp [said, hother]

theorem Reaches.trans {first second third : Pool σ ι Call Reply α} (h : Reaches world first second)
    (h' : Reaches world second third) : Reaches world first third := by
  induction h' with
  | refl => exact h
  | step _ hstep ih => exact .step ih hstep

/-- Whatever the others do, a program is where its own exchanges lead. -/
theorem Reaches.follows (h : Reaches world (start begun program) pool) (who : ι) :
    Follows (program who) (said pool.history who) (pool.rest who) := by
  induction h with
  | refl => exact .nil _
  | step _ hstep ih =>
      cases hstep with
      | kill => exact ih
      | @call speaker call next reply after _ hrest _ =>
          by_cases hwho : speaker = who
          · subst hwho
            dsimp only
            rw [Function.update_self, said_append_self]
            exact ih.snoc hrest reply
          · dsimp only
            rw [Function.update_of_ne (Ne.symm hwho), said_append_of_ne hwho]
            exact ih

/-- A program run to its end, while the others wait. -/
theorem Reaches.runs (pool : Pool σ ι Call Reply α) (who : ι)
    {exchanges : List (Exchange Call Reply)} {result : α} {final : σ} (halive : pool.killed who = false)
    (hruns : Dialogue.Runs world (pool.rest who) pool.world exchanges result final) :
    Reaches world pool
      { pool with
        world := final
        rest := Function.update pool.rest who (.done result)
        history := pool.history ++ exchanges.map fun exchange => (who, exchange) } := by
  generalize hrest : pool.rest who = rest at hruns
  generalize hworld : pool.world = state at hruns
  induction hruns generalizing pool with
  | done => simpa [← hrest, ← hworld] using .refl
  | @ask _ after _ call next reply _ _ hreply _ ih =>
      subst hworld
      have hstep := Step.call halive hrest hreply
      refine .trans (.step .refl hstep) ?_
      simpa using ih { pool with
        world := after
        rest := Function.update pool.rest who (next reply)
        history := pool.history ++ [(who, ⟨call, reply⟩)] } halive (by simp) rfl

/-- What holds at the start and is kept by every call, for what was exchanged so far,
holds of every pool. -/
theorem Reaches.invariant (kept : σ → List (ι × Exchange Call Reply) → Prop)
    (h : Reaches world (start begun program) pool) (hstart : kept begun [])
    (hcall : ∀ {pool : Pool σ ι Call Reply α} {who : ι} {call : Call}
      {next : Reply call → Dialogue Call Reply α} {reply : Reply call} {after : σ},
      Reaches world (start begun program) pool → pool.rest who = .ask call next →
      world pool.world ⟨call, reply⟩ after → kept pool.world pool.history →
      kept after (pool.history ++ [(who, ⟨call, reply⟩)])) :
    kept pool.world pool.history := by
  induction h with
  | refl => exact hstart
  | step hreaches hstep ih =>
      cases hstep with
      | kill => exact ih
      | call _ hrest hworld => exact hcall hreaches hrest hworld ih

end Pool

end SeverinoHQ.Math
