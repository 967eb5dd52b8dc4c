/-
# Multiples of a point of a curve

The points of a curve y² = x³ − 3x + b modulo a prime, by their coordinates; the point at
infinity has none. Points are added by the chord and the tangent, and a multiple is found by
doubling and adding down the bits of its scalar. The coefficient b says which points are the
curve's, and enters no sum.
-/

import Mathlib.Data.List.Basic

namespace SeverinoHQ.Math.Weierstrass

/-- A point's coordinates, and none of the point at infinity. -/
abbrev Point := Option (Nat × Nat)

variable (p : Nat)

def sub (first second : Nat) : Nat := (first + (p - second % p)) % p

/-- A power, by squaring down so many bits of the exponent. -/
def power (base exponent bits : Nat) : Nat :=
  (List.range bits).foldr (fun bit power =>
    if exponent.testBit bit then power * power % p * base % p else power * power % p) (1 % p)

/-- The inverse of a number a prime does not divide. -/
def inverse (number : Nat) : Nat := power p number (p - 2) (p.log2 + 1)

/-- The third point of a line of this slope through two points, turned over. -/
def turned (slope x₁ y₁ x₂ : Nat) : Nat × Nat :=
  let x := sub p (sub p (slope * slope) x₁) x₂
  (x, sub p (slope * sub p x₁ x) y₁)

def double : Point → Point
  | none => none
  | some (x, y) =>
      if y % p = 0 then none
      else some (turned p (sub p (3 * x * x) 3 * inverse p (2 * y) % p) x y x)

def add : Point → Point → Point
  | none, second => second
  | first, none => first
  | some (x₁, y₁), some (x₂, y₂) =>
      if x₁ = x₂ then if y₁ = y₂ then double p (some (x₁, y₁)) else none
      else some (turned p (sub p y₂ y₁ * inverse p (sub p x₂ x₁) % p) x₁ y₁ x₂)

/-- A multiple of a point, by so many bits of its scalar. -/
def multiple (point : Point) (scalar bits : Nat) : Point :=
  (List.range bits).foldr (fun bit sum =>
    if scalar.testBit bit then add p (double p sum) point else double p sum) none

/-- The point itself is its multiple by one. -/
theorem multiple_one (point : Point) (bits : Nat) : multiple p point 1 (bits + 1) = point := by
  unfold multiple
  rw [List.range_succ_eq_map, List.foldr_cons, List.foldr_map]
  have habove : (List.range bits).foldr (fun bit sum =>
      if Nat.testBit 1 (bit + 1) then add p (double p sum) point else double p sum) none = none := by
    induction List.range bits with
    | nil => rfl
    | cons bit rest ih =>
        rw [List.foldr_cons, ih, Nat.testBit_succ]
        simp [double]
  rw [habove]
  cases point with
  | none => rfl
  | some coordinates => rfl

variable {p}

/-- A point's coordinates are remainders. -/
def Reduced (p : Nat) (point : Point) : Prop := ∀ x y, point = some (x, y) → x < p ∧ y < p

theorem reduced_none : Reduced p none := by
  intro x y h
  cases h

theorem reduced_turned (hp : 0 < p) (slope x₁ y₁ x₂ : Nat) :
    Reduced p (some (turned p slope x₁ y₁ x₂)) := by
  rintro x y ⟨⟩
  exact ⟨Nat.mod_lt _ hp, Nat.mod_lt _ hp⟩

theorem reduced_double (hp : 0 < p) (point : Point) : Reduced p (double p point) := by
  cases point with
  | none => exact reduced_none
  | some coordinates =>
      rw [double]
      split
      · exact reduced_none
      · exact reduced_turned hp _ _ _ _

theorem reduced_add (hp : 0 < p) {first second : Point} (hfirst : Reduced p first)
    (hsecond : Reduced p second) : Reduced p (add p first second) := by
  cases first with
  | none => simpa [add] using hsecond
  | some first =>
      cases second with
      | none => simpa [add] using hfirst
      | some second =>
          rw [add]
          split
          · split
            · exact reduced_double hp _
            · exact reduced_none
          · exact reduced_turned hp _ _ _ _

theorem reduced_multiple (hp : 0 < p) {point : Point} (hpoint : Reduced p point)
    (scalar bits : Nat) : Reduced p (multiple p point scalar bits) := by
  unfold multiple
  induction List.range bits with
  | nil => exact reduced_none
  | cons bit rest ih =>
      rw [List.foldr_cons]
      split
      · exact reduced_add hp (reduced_double hp _) hpoint
      · exact reduced_double hp _

end SeverinoHQ.Math.Weierstrass
