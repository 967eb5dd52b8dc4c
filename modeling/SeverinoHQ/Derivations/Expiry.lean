/-
# Days until something runs out

The days every surface says of an expiry, with the moment that number stops
standing, and the days the controller says of it. Instants are exact seconds here.
-/

import Mathlib.Algebra.Order.Ring.Rat
import Mathlib.Data.Int.ConditionallyCompleteOrder
import Mathlib.Data.Rat.Floor
import Mathlib.Tactic.Linarith

namespace SeverinoHQ

/-- The seconds of a day. -/
def daySeconds : ℚ := 86400

theorem daySeconds_pos : 0 < daySeconds := by norm_num [daySeconds]

/-! ## The controller -/

/-- `daysUntil`: to the nearest day, and negative only once past. -/
def Providers.daysUntil (expiry now : ℚ) : Int :=
  let left := (expiry - now) / daySeconds
  if left < 0 then ⌊left⌋
  else if left > 0 then max 1 ⌊left + 1 / 2⌋
  else 0

namespace Derivations

/-! ## HQ -/

/-- An expiry as it is handed over, by a clock of no zone or at an instant. -/
inductive Expiry where
  | naive (clock : ℚ)
  | aware (instant : ℚ)
  deriving DecidableEq, Repr

/-- A clock of no zone is read as UTC. -/
def Expiry.instant : Expiry → ℚ
  | .naive clock => clock
  | .aware instant => instant

/-- The days said, and the moment they are held until. -/
structure DaysLeft where
  days : Int
  heldUntil : ℚ
  deriving DecidableEq, Repr

/-- `days_until`, at `now` or at the moment the derivation is made at. -/
def daysUntil (expiry : Expiry) (now : Option ℚ) (present : ℚ) : DaysLeft :=
  let left := (expiry.instant - now.getD present) / daySeconds
  if left > 0 then
    let days := max 1 ⌊left + 1 / 2⌋
    ⟨days, if days > 1 then expiry.instant - (days - 1 / 2) * daySeconds else expiry.instant⟩
  else
    let days := ⌊left⌋
    ⟨days, expiry.instant + -days * daySeconds⟩

example : daysUntil (.naive 86400) none 0 = ⟨1, 86400⟩ := by decide +kernel

/-! ## The number of days -/

/-- The number said of the days left. -/
def dayCount (left : ℚ) : Int := if left > 0 then max 1 ⌊left + 1 / 2⌋ else ⌊left⌋

theorem dayCount_mono : Monotone dayCount := by
  intro first second h
  unfold dayCount
  by_cases hfirst : first > 0
  · rw [if_pos hfirst, if_pos (hfirst.trans_le h)]
    exact max_le_max_left 1 (Int.floor_mono (by linarith))
  · rw [if_neg hfirst]
    by_cases hsecond : second > 0
    · rw [if_pos hsecond]
      have hpast : ⌊first⌋ ≤ 0 := Int.floor_nonpos (not_lt.mp hfirst)
      exact hpast.trans (Int.zero_le_ofNat 1 |>.trans (le_max_left _ _))
    · rw [if_neg hsecond]
      exact Int.floor_mono h

theorem one_le_dayCount {left : ℚ} (h : 0 < left) : 1 ≤ dayCount left := by
  rw [dayCount, if_pos h]
  exact le_max_left _ _

theorem dayCount_neg {left : ℚ} (h : left < 0) : dayCount left < 0 := by
  rw [dayCount, if_neg (by linarith)]
  exact Int.floor_lt_zero.mpr h

/-- More than one day is said as long as half a day less is left. -/
theorem le_dayCount {left : ℚ} {days : Int} (hdays : 1 < days) (h : days - 1 / 2 ≤ left) :
    days ≤ dayCount left := by
  have hmany : (1 : ℚ) < days := by exact_mod_cast hdays
  have hleft : left > 0 := by linarith
  rw [dayCount, if_pos hleft]
  apply le_max_of_le_right
  rw [Int.le_floor]
  linarith

section Days

variable {expiry : Expiry} {now : Option ℚ} {present : ℚ}

theorem daysUntil_days :
    (daysUntil expiry now present).days =
      dayCount ((expiry.instant - now.getD present) / daySeconds) := by
  unfold daysUntil dayCount
  dsimp only
  split <;> rfl

theorem controller_days (instant now : ℚ) :
    Providers.daysUntil instant now = dayCount ((instant - now) / daySeconds) := by
  unfold Providers.daysUntil dayCount
  dsimp only
  rcases lt_trichotomy ((instant - now) / daySeconds) 0 with hpast | hnow | hahead
  · rw [if_pos hpast, if_neg (not_lt.mpr hpast.le)]
  · simp [hnow]
  · rw [if_neg (not_lt.mpr hahead.le), if_pos hahead, if_pos hahead]

/-- Before the moment it is held until, as much is left as the number needs. -/
theorem le_dayCount_held {later : ℚ} (h : later < (daysUntil expiry now present).heldUntil) :
    (daysUntil expiry now present).days ≤ dayCount ((expiry.instant - later) / daySeconds) := by
  unfold daysUntil at *
  dsimp only at *
  by_cases hahead : (expiry.instant - now.getD present) / daySeconds > 0
  · rw [if_pos hahead] at h ⊢
    dsimp only at *
    generalize max 1 ⌊(expiry.instant - now.getD present) / daySeconds + 1 / 2⌋ = days at *
    by_cases hmany : days > 1
    · rw [if_pos hmany] at h
      apply le_dayCount hmany
      rw [le_div_iff₀ daySeconds_pos]
      linarith
    · rw [if_neg hmany] at h
      have hleft : 0 < (expiry.instant - later) / daySeconds := div_pos (by linarith) daySeconds_pos
      exact (not_lt.mp hmany).trans (one_le_dayCount hleft)
  · rw [if_neg hahead] at h ⊢
    dsimp only at *
    have hpast : ⌊(expiry.instant - now.getD present) / daySeconds⌋ ≤ 0 :=
      Int.floor_nonpos (not_lt.mp hahead)
    generalize ⌊(expiry.instant - now.getD present) / daySeconds⌋ = days at *
    have hleft : (days : ℚ) ≤ (expiry.instant - later) / daySeconds := by
      rw [le_div_iff₀ daySeconds_pos]
      linarith
    by_cases hlater : (expiry.instant - later) / daySeconds > 0
    · have hone := one_le_dayCount hlater
      omega
    · rw [dayCount, if_neg hlater]
      exact Int.le_floor.mpr hleft

end Days

/-! ## What the number says -/

/-- What is said of the days left, whatever the moment it is asked at. -/
structure Agreed (expiry : Expiry) (days : ℚ → DaysLeft) : Prop where
  /-- The controller says the same. -/
  controller : ∀ now, (days now).days = Providers.daysUntil expiry.instant now
  ahead : ∀ now, now < expiry.instant → 1 ≤ (days now).days
  itself : (days expiry.instant).days = 0
  past : ∀ now, expiry.instant < now → (days now).days < 0
  antitone : ∀ now later, now ≤ later → (days later).days ≤ (days now).days
  /-- The number stands until the moment recorded for it. -/
  stands : ∀ now later, now ≤ later → later < (days now).heldUntil →
    (days later).days = (days now).days

/-- HQ and the controller say one number, handed the moment or reading the clock, and it
stands as long as the derivation is told. -/
theorem daysUntil_agreed (expiry : Expiry) :
    (∀ present, Agreed expiry fun now => daysUntil expiry (some now) present) ∧
      Agreed expiry fun now => daysUntil expiry none now := by
  have hagreed : ∀ (days : ℚ → DaysLeft), (∀ now, ∃ handed present,
      Option.getD handed present = now ∧ days now = daysUntil expiry handed present) →
      Agreed expiry days := by
    intro days hdays
    have hcount : ∀ now, (days now).days = dayCount ((expiry.instant - now) / daySeconds) := by
      intro now
      obtain ⟨handed, present, hnow, hsame⟩ := hdays now
      rw [hsame, daysUntil_days, hnow]
    have hmono : ∀ now later, now ≤ later → (days later).days ≤ (days now).days := by
      intro now later hle
      rw [hcount, hcount]
      apply dayCount_mono
      have hpos := daySeconds_pos
      gcongr
    constructor
    · intro now
      rw [hcount, controller_days]
    · intro now hahead
      rw [hcount]
      exact one_le_dayCount (div_pos (sub_pos.mpr hahead) daySeconds_pos)
    · rw [hcount]
      simp [dayCount]
    · intro now hpast
      rw [hcount]
      exact dayCount_neg (div_neg_of_neg_of_pos (sub_neg.mpr hpast) daySeconds_pos)
    · exact hmono
    · intro now later hle hlater
      apply le_antisymm (hmono now later hle)
      obtain ⟨handed, present, -, hsame⟩ := hdays now
      rw [hsame] at hlater ⊢
      rw [hcount]
      exact le_dayCount_held hlater
  constructor
  · intro present
    exact hagreed _ fun now => ⟨some now, present, rfl, rfl⟩
  · exact hagreed _ fun now => ⟨none, now, rfl, rfl⟩

end Derivations

end SeverinoHQ
