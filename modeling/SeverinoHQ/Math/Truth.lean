/-
# Conditions that may be unknown

A condition over a table may have no truth value: a comparison with a missing value
is neither true nor false. The connectives keep what they can say, and a guard that
acts only on a true condition lets an unknown one pass.
-/

import Mathlib.Tactic.Common

namespace SeverinoHQ.Math

/-- True, false, or unknown. -/
abbrev Truth := Option Bool

namespace Truth

/-- What is known of a negation is what is known of the condition. -/
protected def not (a : Truth) : Truth := a.map Bool.not

/-- False as soon as one side is, true when both are. -/
protected def and : Truth → Truth → Truth
  | some false, _ => some false
  | _, some false => some false
  | some true, some true => some true
  | _, _ => none

/-- True as soon as one side is, false when both are. -/
protected def or : Truth → Truth → Truth
  | some true, _ => some true
  | _, some true => some true
  | some false, some false => some false
  | _, _ => none

/-- A condition that is known. -/
def known (p : Prop) [Decidable p] : Truth := some (decide p)

variable {a b : Truth} {p : Prop} [Decidable p]

@[simp]
theorem not_eq_true : a.not = some true ↔ a = some false := by
  rcases a with _ | _ | _ <;> simp [Truth.not]

@[simp]
theorem and_eq_false : a.and b = some false ↔ a = some false ∨ b = some false := by
  rcases a with _ | _ | _ <;> rcases b with _ | _ | _ <;> simp [Truth.and]

@[simp]
theorem or_eq_false : a.or b = some false ↔ a = some false ∧ b = some false := by
  rcases a with _ | _ | _ <;> rcases b with _ | _ | _ <;> simp [Truth.or]

@[simp]
theorem known_eq_false : known p = some false ↔ ¬p := by
  simp [known]

end Truth

end SeverinoHQ.Math
