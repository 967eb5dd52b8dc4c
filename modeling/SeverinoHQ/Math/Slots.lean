/-
# Tasks in slots

The tasks of a system that runs several at once are a list, each in the slot it began in. A
task goes on by another being put in its slot, and a new one begins in a slot of its own. A
slot no task was given is at rest.
-/

import Mathlib.Data.List.Basic

namespace SeverinoHQ.Math.Slots

universe u

variable {τ : Type u} [Inhabited τ] {tasks : List τ} {slot other : Nat} {new : τ}

/-- The task at a slot. -/
def task (tasks : List τ) (slot : Nat) : τ := tasks[slot]?.getD default

theorem task_set_of_ne (hne : other ≠ slot) : task (tasks.set slot new) other = task tasks other := by
  rw [task, List.getElem?_set_ne (Ne.symm hne), task]

theorem task_set_self (hslot : slot < tasks.length) : task (tasks.set slot new) slot = new := by
  simp [task, hslot]

theorem task_of_length_le (hslot : tasks.length ≤ slot) : task tasks slot = default := by
  rw [task, List.getElem?_eq_none hslot, Option.getD_none]

theorem lt_length_of_task_ne (h : task tasks slot ≠ default) : slot < tasks.length := by
  by_contra hslot
  exact h (task_of_length_le (Nat.le_of_not_lt hslot))

theorem task_mem (hslot : slot < tasks.length) : task tasks slot ∈ tasks := by
  simp [task, hslot]

theorem exists_task_eq (h : new ∈ tasks) : ∃ slot, task tasks slot = new := by
  obtain ⟨slot, hslot, rfl⟩ := List.mem_iff_getElem.mp h
  exact ⟨slot, by simp [task, hslot]⟩

/-- Putting a task in a slot leaves every other slot's. -/
theorem task_set (tasks : List τ) (slot other : Nat) (new : τ) :
    task (tasks.set slot new) other = task tasks other ∨
      other = slot ∧ task (tasks.set slot new) other = new := by
  by_cases hne : other = slot
  · subst hne
    by_cases hslot : other < tasks.length
    · exact .inr ⟨rfl, task_set_self hslot⟩
    · left
      rw [List.set_eq_of_length_le (Nat.le_of_not_lt hslot)]
  · exact .inl (task_set_of_ne hne)

theorem task_append_of_lt (hslot : slot < tasks.length) :
    task (tasks ++ [new]) slot = task tasks slot := by
  rw [task, List.getElem?_append_left hslot, task]

theorem task_append_length : task (tasks ++ [new]) tasks.length = new := by
  simp [task]

/-- A task that begins leaves every other slot's. -/
theorem task_append (tasks : List τ) (other : Nat) (new : τ) :
    task (tasks ++ [new]) other = task tasks other ∨ task (tasks ++ [new]) other = new := by
  rcases Nat.lt_trichotomy other tasks.length with hlt | rfl | hgt
  · exact .inl (task_append_of_lt hlt)
  · exact .inr task_append_length
  · left
    rw [task_of_length_le (Nat.le_of_lt hgt), task_of_length_le]
    rw [List.length_append, List.length_singleton]
    exact hgt

end SeverinoHQ.Math.Slots
