/-
# Programs that ask, and every answer they can be given

A program here is a tree: it is done, or it makes one call and goes on by the
reply. What the world may reply, and what it becomes, is a relation, so a
statement about every run is a statement about every order of failures and
every reply. The rules below take a program apart at its calls.
-/

import Mathlib.Logic.Basic

namespace SeverinoHQ.Math

universe u

variable {Call : Type} {Reply : Call → Type} {α β : Type} {σ : Type u}

/-- A program that makes calls and goes on by their replies. -/
inductive Dialogue (Call : Type) (Reply : Call → Type) (α : Type) where
  | done (result : α)
  | ask (call : Call) (next : Reply call → Dialogue Call Reply α)

namespace Dialogue

/-- One call. -/
def call (call : Call) : Dialogue Call Reply (Reply call) := .ask call .done

protected def bind : Dialogue Call Reply α → (α → Dialogue Call Reply β) → Dialogue Call Reply β
  | .done result, next => next result
  | .ask call reply, next => .ask call fun answer => (reply answer).bind next

instance : Monad (Dialogue Call Reply) where
  pure := .done
  bind := Dialogue.bind

theorem bind_done (program : Dialogue Call Reply α) : program.bind .done = program := by
  induction program with
  | done result => rfl
  | ask call next ih => exact congrArg (Dialogue.ask call) (funext ih)

theorem bind_bind {γ : Type} (program : Dialogue Call Reply α)
    (next : α → Dialogue Call Reply β) (after : β → Dialogue Call Reply γ) :
    (program.bind next).bind after = program.bind fun result => (next result).bind after := by
  induction program with
  | done result => rfl
  | ask call reply ih => exact congrArg (Dialogue.ask call) (funext ih)

instance : LawfulMonad (Dialogue Call Reply) :=
  LawfulMonad.mk' _ bind_done (fun _ _ => rfl) bind_bind

/-- A call and what was replied. -/
abbrev Exchange (Call : Type) (Reply : Call → Type) := (call : Call) × Reply call

/-- A program, run to its end: the exchanges it had, what it returned and the
world it left. -/
inductive Runs (world : σ → Exchange Call Reply → σ → Prop) :
    Dialogue Call Reply α → σ → List (Exchange Call Reply) → α → σ → Prop where
  | done (state : σ) (result : α) : Runs world (.done result) state [] result state
  | ask {state after final : σ} {call : Call} {next : Reply call → Dialogue Call Reply α}
      {reply : Reply call} {rest : List (Exchange Call Reply)} {result : α}
      (hreply : world state ⟨call, reply⟩ after)
      (hrest : Runs world (next reply) after rest result final) :
      Runs world (.ask call next) state (⟨call, reply⟩ :: rest) result final

/-- Every run of a program from a state ends as `ends` says. -/
def Always (world : σ → Exchange Call Reply → σ → Prop) (program : Dialogue Call Reply α)
    (state : σ) (ends : List (Exchange Call Reply) → α → σ → Prop) : Prop :=
  ∀ exchanges result final, Runs world program state exchanges result final →
    ends exchanges result final

variable {world : σ → Exchange Call Reply → σ → Prop} {state : σ}

/-- A program, run against a machine that answers every call. -/
def runWith (machine : σ → (call : Call) → Reply call × σ) :
    Dialogue Call Reply α → σ → List (Exchange Call Reply) × α × σ
  | .done result, state => ([], result, state)
  | .ask call next, state =>
      let answered := machine state call
      let ended := (next answered.1).runWith machine answered.2
      (⟨call, answered.1⟩ :: ended.1, ended.2)

/-- What a machine answers is a run of the program in any world it answers for. -/
theorem runs_runWith {machine : σ → (call : Call) → Reply call × σ}
    (hmachine : ∀ state call, world state ⟨call, (machine state call).1⟩ (machine state call).2)
    (program : Dialogue Call Reply α) (state : σ) :
    Runs world program state (program.runWith machine state).1
      (program.runWith machine state).2.1 (program.runWith machine state).2.2 := by
  induction program generalizing state with
  | done result => exact .done state result
  | ask call next ih => exact .ask (hmachine state call) (ih _ _)

@[simp]
theorem runWith_pure (machine : σ → (call : Call) → Reply call × σ) (result : α) (state : σ) :
    (pure result : Dialogue Call Reply α).runWith machine state = ([], result, state) := rfl

@[simp]
theorem runWith_call_bind (machine : σ → (call : Call) → Reply call × σ) (call : Call)
    (next : Reply call → Dialogue Call Reply α) (state : σ) :
    (Dialogue.call call >>= next).runWith machine state =
      (⟨call, (machine state call).1⟩ ::
          ((next (machine state call).1).runWith machine (machine state call).2).1,
        ((next (machine state call).1).runWith machine (machine state call).2).2) := rfl

section Rules

theorem Always.mono {program : Dialogue Call Reply α}
    {ends weaker : List (Exchange Call Reply) → α → σ → Prop}
    (h : Always world program state ends)
    (hweaker : ∀ exchanges result final, ends exchanges result final →
      weaker exchanges result final) : Always world program state weaker :=
  fun exchanges result final hruns => hweaker _ _ _ (h exchanges result final hruns)

@[simp]
theorem always_pure {result : α} {ends : List (Exchange Call Reply) → α → σ → Prop} :
    Always world (pure result) state ends ↔ ends [] result state := by
  constructor
  · intro h
    exact h [] result state (.done state result)
  · rintro h exchanges answer final ⟨⟩
    exact h

theorem always_ask {call : Call} {next : Reply call → Dialogue Call Reply α}
    {ends : List (Exchange Call Reply) → α → σ → Prop} :
    Always world (.ask call next) state ends ↔ ∀ reply after, world state ⟨call, reply⟩ after →
      Always world (next reply) after fun exchanges => ends (⟨call, reply⟩ :: exchanges) := by
  constructor
  · intro h reply after hreply exchanges result final hruns
    exact h _ result final (.ask hreply hruns)
  · rintro h exchanges result final (_ | ⟨hreply, hrest⟩)
    exact h _ _ hreply _ result final hrest

@[simp]
theorem always_call {call : Call} {ends : List (Exchange Call Reply) → Reply call → σ → Prop} :
    Always world (Dialogue.call call) state ends ↔
      ∀ reply after, world state ⟨call, reply⟩ after → ends [⟨call, reply⟩] reply after := by
  unfold Dialogue.call
  rw [always_ask]
  exact forall₃_congr fun _ _ _ => always_pure

/-- A program that goes on by another's result, taken apart. -/
theorem always_bind {program : Dialogue Call Reply α} {next : α → Dialogue Call Reply β}
    {ends : List (Exchange Call Reply) → β → σ → Prop} :
    Always world (program >>= next) state ends ↔
      Always world program state fun first result between =>
        Always world (next result) between fun second => ends (first ++ second) := by
  induction program generalizing state ends with
  | done result =>
      show Always world (next result) state ends ↔ Always world (pure result) state _
      rw [always_pure]
      rfl
  | ask call reply ih =>
      show Always world (.ask call fun answer => reply answer >>= next) state ends ↔ _
      rw [always_ask, always_ask]
      exact forall₃_congr fun _ _ _ => ih _

/-- An end that what came before cannot undo is met where the rest meets it. -/
theorem Always.bind_of_append {program : Dialogue Call Reply α} {next : α → Dialogue Call Reply β}
    {ends : List (Exchange Call Reply) → β → σ → Prop}
    (h : Always world program state fun _ result between => Always world (next result) between ends)
    (happend : ∀ first second result final, ends second result final →
      ends (first ++ second) result final) :
    Always world (program >>= next) state ends := by
  rw [always_bind]
  refine h.mono fun first result between hnext => ?_
  exact hnext.mono fun second answer final => happend first second answer final

end Rules

/-! ## The calls a program can make -/

/-- Every call a program can make, whatever it is replied, meets `allowed`. -/
def Only (allowed : Call → Prop) : Dialogue Call Reply α → Prop
  | .done _ => True
  | .ask call next => allowed call ∧ ∀ reply, (next reply).Only allowed

section Calls

variable {allowed : Call → Prop}

@[simp]
theorem only_pure (result : α) :
    (pure result : Dialogue Call Reply α).Only allowed := trivial

@[simp]
theorem only_call (call : Call) :
    (Dialogue.call call : Dialogue Call Reply (Reply call)).Only allowed ↔ allowed call := by
  simp [Dialogue.call, Only]

theorem Only.mono {wider : Call → Prop} {program : Dialogue Call Reply α}
    (h : program.Only allowed) (hwider : ∀ call, allowed call → wider call) :
    program.Only wider := by
  induction program with
  | done => trivial
  | ask call next ih => exact ⟨hwider call h.1, fun reply => ih reply (h.2 reply)⟩

theorem Only.bind {program : Dialogue Call Reply α} {next : α → Dialogue Call Reply β}
    (hprogram : program.Only allowed) (hnext : ∀ result, (next result).Only allowed) :
    (program >>= next).Only allowed := by
  induction program with
  | done result => exact hnext result
  | ask call reply ih => exact ⟨hprogram.1, fun answer => ih answer (hprogram.2 answer)⟩

/-- A call only ever made where it is allowed is made nowhere else. -/
theorem Only.ite {condition : Prop} [Decidable condition] {first second : Dialogue Call Reply α}
    (hfirst : first.Only allowed) (hsecond : second.Only allowed) :
    (if condition then first else second).Only allowed := by
  by_cases hcondition : condition
  · rwa [if_pos hcondition]
  · rwa [if_neg hcondition]

theorem Only.exchanges {program : Dialogue Call Reply α} (h : program.Only allowed) :
    Always world program state fun exchanges _ _ => ∀ exchange ∈ exchanges, allowed exchange.1 := by
  intro exchanges result final hruns
  induction hruns with
  | done => simp
  | ask hreply hrest ih =>
      intro exchange hexchange
      rcases List.mem_cons.mp hexchange with rfl | hmem
      · exact h.1
      · exact ih (h.2 _) exchange hmem

/-- What every allowed call keeps, a program of allowed calls keeps. -/
theorem Only.keeps {program : Dialogue Call Reply α} (h : program.Only allowed)
    {kept : σ → σ → Prop} (hrefl : ∀ state, kept state state)
    (htrans : ∀ first second third, kept first second → kept second third → kept first third)
    (hstep : ∀ before exchange after, allowed exchange.1 → world before exchange after →
      kept before after) :
    Always world program state fun _ _ final => kept state final := by
  intro exchanges result final hruns
  induction hruns with
  | done => exact hrefl _
  | ask hreply hrest ih => exact htrans _ _ _ (hstep _ _ _ h.1 hreply) (ih (h.2 _))

end Calls

theorem Always.and {program : Dialogue Call Reply α}
    {first second : List (Exchange Call Reply) → α → σ → Prop}
    (hfirst : Always world program state first) (hsecond : Always world program state second) :
    Always world program state fun exchanges result final =>
      first exchanges result final ∧ second exchanges result final :=
  fun exchanges result final hruns =>
    ⟨hfirst exchanges result final hruns, hsecond exchanges result final hruns⟩

/-! ## Calls among others, and worlds seen in part -/

section Within

variable {Wider : Type} {Answer : Wider → Type} {as : Call → Wider}

/-- A program whose calls are some of a wider kind. -/
def within (as : Call → Wider) :
    Dialogue Call (fun call => Answer (as call)) α → Dialogue Wider Answer α
  | .done result => .done result
  | .ask call next => .ask (as call) fun answer => (next answer).within as

/-- An exchange as the wider kind has it. -/
def Exchange.within (as : Call → Wider) (exchange : Exchange Call fun call => Answer (as call)) :
    Exchange Wider Answer := ⟨as exchange.1, exchange.2⟩

/-- What the wider world is to the calls among it. -/
theorem always_within {wide : σ → Exchange Wider Answer → σ → Prop}
    {program : Dialogue Call (fun call => Answer (as call)) α} {state : σ}
    {ends : List (Exchange Wider Answer) → α → σ → Prop} :
    Always wide (program.within as) state ends ↔
      Always (fun before exchange after => wide before (exchange.within as) after) program state
        fun exchanges => ends (exchanges.map (Exchange.within as)) := by
  induction program generalizing state ends with
  | done result =>
      show Always wide (pure result) state ends ↔ Always _ (pure result) state _
      rw [always_pure, always_pure, List.map_nil]
  | ask call next ih =>
      rw [within, always_ask, always_ask]
      exact forall₃_congr fun _ _ _ => ih _

end Within

end Dialogue

end SeverinoHQ.Math
