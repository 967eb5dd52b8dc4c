/-
# Programs that ask and can fail

A task is a program whose result is a value or an error, composed in order: the first
error ends it. A task is honest about a kind of error when it ends in one only because
a call answered one, and then makes no further call.
-/

import SeverinoHQ.Math.Dialogue

namespace SeverinoHQ.Math

universe u

variable {Call : Type} {Reply : Call → Type} {ε α β : Type} {σ : Type u}

abbrev Task (Call : Type) (Reply : Call → Type) (ε : Type) := ExceptT ε (Dialogue Call Reply)

namespace Dialogue

/-! ## One run of one program -/

/-- The world that answers anything, and is nothing. -/
def free (_ : Unit) (_ : Exchange Call Reply) (_ : Unit) : Prop := True

/-- A run in any world is a run of the program. -/
theorem Runs.free {world : σ → Exchange Call Reply → σ → Prop} {program : Dialogue Call Reply α}
    {state final : σ} {exchanges : List (Exchange Call Reply)} {result : α}
    (h : Runs world program state exchanges result final) :
    Runs Dialogue.free program () exchanges result () := by
  induction h with
  | done => exact .done _ _
  | ask _ _ ih => exact .ask trivial ih

/-- What a machine answers is a run of the program. -/
theorem free_runWith (machine : σ → (call : Call) → Reply call × σ) (program : Dialogue Call Reply α)
    (state : σ) :
    Runs Dialogue.free program () (program.runWith machine state).1
      (program.runWith machine state).2.1 () := by
  induction program generalizing state with
  | done result => exact .done () result
  | ask call next ih => exact .ask trivial (ih _ _)

section Unique

variable {τ : Type u} {world : σ → Exchange Call Reply → σ → Prop}
  {other : τ → Exchange Call Reply → τ → Prop} {program : Dialogue Call Reply α} {start final : σ}
  {begun ended : τ} {first second : α} {exchanges others rest more : List (Exchange Call Reply)}

/-- Two runs of a program that are told the same are the same run. -/
theorem Runs.unique (h : Runs world program start exchanges first final)
    (hother : Runs other program begun others second ended) (heq : exchanges ++ rest = others) :
    rest = [] ∧ first = second := by
  induction h generalizing begun others with
  | done =>
      cases hother
      exact ⟨by simpa using heq, rfl⟩
  | ask _ _ ih =>
      cases hother with
      | ask _ hnext =>
          obtain ⟨hhead, htail⟩ := List.cons.inj heq
          cases hhead
          exact ih hnext htail

/-- Of two runs of a program that begin the same, neither goes on where the other ends. -/
theorem Runs.unique_of_append (h : Runs world program start exchanges first final)
    (hother : Runs other program begun others second ended)
    (heq : exchanges ++ rest = others ++ more) : exchanges = others ∧ first = second := by
  rcases List.append_eq_append_iff.mp heq with ⟨between, hothers, -⟩ | ⟨between, hothers, -⟩
  · obtain ⟨rfl, hsame⟩ := h.unique hother hothers.symm
    exact ⟨by simpa using hothers.symm, hsame⟩
  · obtain ⟨rfl, hsame⟩ := hother.unique h hothers.symm
    exact ⟨by simpa using hothers, hsame.symm⟩

end Unique

end Dialogue

namespace Task

open Dialogue

variable {world : σ → Exchange Call Reply → σ → Prop} {state : σ}

/-! ## Rules -/

/-- A result that is there already. -/
def given (result : Except ε α) : Task Call Reply ε α := ExceptT.mk (pure result)

@[simp]
theorem always_given {result : Except ε α} {ends : List (Exchange Call Reply) → Except ε α → σ → Prop} :
    Always world (given result : Task Call Reply ε α).run state ends ↔ ends [] result state :=
  always_pure

@[simp]
theorem always_ok {value : α} {ends : List (Exchange Call Reply) → Except ε α → σ → Prop} :
    Always world (pure value : Task Call Reply ε α).run state ends ↔ ends [] (.ok value) state :=
  always_pure

@[simp]
theorem always_throw {error : ε} {ends : List (Exchange Call Reply) → Except ε α → σ → Prop} :
    Always world (throw error : Task Call Reply ε α).run state ends ↔ ends [] (.error error) state :=
  always_pure

/-- A task that goes on by another's value, taken apart. -/
theorem always_bind {task : Task Call Reply ε α} {next : α → Task Call Reply ε β}
    {ends : List (Exchange Call Reply) → Except ε β → σ → Prop} :
    Always world (task >>= next).run state ends ↔
      Always world task.run state fun first result between =>
        match result with
        | .ok value => Always world (next value).run between fun second => ends (first ++ second)
        | .error error => ends first (.error error) between := by
  rw [ExceptT.run_bind, Dialogue.always_bind]
  have hcases : ∀ first result between,
      (Always world (match (result : Except ε α) with
          | .ok value => (next value).run
          | .error error => pure (.error error)) between fun second => ends (first ++ second)) ↔
        match result with
        | .ok value => Always world (next value).run between fun second => ends (first ++ second)
        | .error error => ends first (.error error) between := by
    intro first result between
    cases result with
    | ok value => rfl
    | error error => simp
  constructor
  · exact fun h => h.mono fun first result between => (hcases first result between).mp
  · exact fun h => h.mono fun first result between => (hcases first result between).mpr

/-- A task whose errors are told another way. -/
theorem always_adapt {δ : Type} {told : ε → δ} {task : Task Call Reply ε α}
    {ends : List (Exchange Call Reply) → Except δ α → σ → Prop} :
    Always world (ExceptT.adapt told task : Task Call Reply δ α).run state ends ↔
      Always world task.run state fun exchanges result after =>
        ends exchanges (result.mapError told) after := by
  rw [ExceptT.run_adapt, ← bind_pure_comp, Dialogue.always_bind]
  constructor
  · intro h
    refine h.mono fun exchanges result after hends => ?_
    simpa using hends
  · intro h
    refine h.mono fun exchanges result after hends => ?_
    simpa using hends

/-! ## Honest errors -/

/-- A failed call is the last one of a task and ends it in an error of its own kind, and
an error of that kind comes from nowhere else. -/
def Honest (failure : Exchange Call Reply → Option ε) (foreign : ε → Prop)
    (task : Task Call Reply ε α) : Prop :=
  Always Dialogue.free task.run () fun exchanges result _ =>
    match result with
    | .ok _ => ∀ exchange ∈ exchanges, failure exchange = none
    | .error error =>
        ((∀ exchange ∈ exchanges, failure exchange = none) ∧ ¬foreign error) ∨
          ∃ before last cause, exchanges = before ++ [last] ∧
            (∀ exchange ∈ before, failure exchange = none) ∧ failure last = some cause ∧
            (foreign error ↔ foreign cause)

section Honest

variable {failure : Exchange Call Reply → Option ε} {foreign : ε → Prop}

theorem honest_ok (value : α) : Honest failure foreign (pure value : Task Call Reply ε α) := by
  simp [Honest]

theorem honest_throw {error : ε} (h : ¬foreign error) :
    Honest failure foreign (throw error : Task Call Reply ε α) := by
  simp [Honest, h]

theorem honest_given {result : Except ε α} (h : ∀ error, result = .error error → ¬foreign error) :
    Honest failure foreign (given result : Task Call Reply ε α) := by
  unfold Honest
  rw [always_given]
  cases result with
  | ok value => simp
  | error error => simp [h error rfl]

theorem Honest.bind {task : Task Call Reply ε α} {next : α → Task Call Reply ε β}
    (htask : Honest failure foreign task) (hnext : ∀ value, Honest failure foreign (next value)) :
    Honest failure foreign (task >>= next) := by
  unfold Honest
  rw [always_bind]
  refine Always.mono htask fun first result between hfirst => ?_
  cases result with
  | error error => exact hfirst
  | ok value =>
      refine Always.mono (hnext value) fun second result after hsecond => ?_
      cases result with
      | ok value =>
          intro exchange hmem
          rcases List.mem_append.mp hmem with hmem | hmem
          · exact hfirst exchange hmem
          · exact hsecond exchange hmem
      | error error =>
          rcases hsecond with ⟨hnone, hforeign⟩ | ⟨before, last, cause, rfl, hbefore, hlast, hforeign⟩
          · left
            refine ⟨fun exchange hmem => ?_, hforeign⟩
            rcases List.mem_append.mp hmem with hmem | hmem
            · exact hfirst exchange hmem
            · exact hnone exchange hmem
          · right
            refine ⟨first ++ before, last, cause, (List.append_assoc _ _ _).symm, ?_, hlast, hforeign⟩
            intro exchange hmem
            rcases List.mem_append.mp hmem with hmem | hmem
            · exact hfirst exchange hmem
            · exact hbefore exchange hmem

/-- An error told another way is of the same kind. -/
theorem Honest.adapt {told : ε → ε} {task : Task Call Reply ε α}
    (htask : Honest failure foreign task) (htold : ∀ error, foreign (told error) ↔ foreign error) :
    Honest failure foreign (ExceptT.adapt told task : Task Call Reply ε α) := by
  unfold Honest
  rw [always_adapt]
  refine Always.mono htask fun exchanges result after h => ?_
  cases result with
  | ok value => exact h
  | error error =>
      rcases h with ⟨hnone, hforeign⟩ | ⟨before, last, cause, heq, hbefore, hlast, hforeign⟩
      · exact Or.inl ⟨hnone, fun h => hforeign ((htold error).mp h)⟩
      · exact Or.inr ⟨before, last, cause, heq, hbefore, hlast, (htold error).trans hforeign⟩

/-- One call, whose reply is the task's result. -/
theorem honest_single {task : Task Call Reply ε α}
    (h : Always Dialogue.free task.run () fun exchanges result _ =>
      ∃ exchange, exchanges = [exchange] ∧
        failure exchange = match result with
          | .ok _ => none
          | .error error => some error) : Honest failure foreign task := by
  refine Always.mono h ?_
  rintro _ result _ ⟨exchange, rfl, hfailure⟩
  cases result with
  | ok value => simpa using hfailure
  | error error => exact Or.inr ⟨[], exchange, error, rfl, by simp, hfailure, Iff.rfl⟩

/-- A program none of whose calls fails it. -/
theorem honest_lift {program : Dialogue Call Reply α}
    (h : program.Only fun call => ∀ reply, failure ⟨call, reply⟩ = none) :
    Honest failure foreign (ExceptT.lift program : Task Call Reply ε α) := by
  unfold Honest
  rw [ExceptT.run_lift, ← bind_pure_comp, Dialogue.always_bind]
  refine (h.exchanges).mono fun exchanges result after hcalls => ?_
  rw [always_pure, List.append_nil]
  exact fun exchange hmem => hcalls exchange hmem exchange.2

/-- A choice between two tasks. -/
theorem Honest.ite {condition : Prop} [Decidable condition] {first second : Task Call Reply ε α}
    (hfirst : Honest failure foreign first) (hsecond : Honest failure foreign second) :
    Honest failure foreign (if condition then first else second) := by
  split
  · exact hfirst
  · exact hsecond

end Honest

end Task

end SeverinoHQ.Math
