/-
# The floor of a binary64 quotient

A true division of two integers is the binary64 number nearest to their
quotient, ties going to the even mantissa. The floor of that number is the
floor of the quotient as long as the dividend is below `2 ^ 53`; above it the
quotient can be rounded up to an integer it has not reached.
-/

import Mathlib.Data.Nat.Log
import Mathlib.Tactic.Linarith
import Mathlib.Tactic.Ring
import Mathlib.Tactic.Positivity
import Mathlib.Algebra.Order.Ring.Int

namespace SeverinoHQ.Math.Binary64

/-- The integer nearest to `n / d`, the even one of two. -/
def roundHalfEven (n d : Nat) : Nat :=
  let quotient := n / d
  let twice := 2 * (n % d)
  if twice < d then quotient
  else if d < twice then quotient + 1
  else quotient + quotient % 2

/-- `2 ^ s * a / b` as a numerator and a denominator. -/
def scaled (a b : Nat) (s : Int) : Nat × Nat := (a * 2 ^ s.toNat, b * 2 ^ (-s).toNat)

/-- The power of two that brings `a / b` to a mantissa of 53 bits. -/
def scale (a b : Nat) : Int :=
  let guess := 53 + (Nat.log2 b : Int) - (Nat.log2 a : Int)
  if (scaled a b guess).1 < 2 ^ 53 * (scaled a b guess).2 then guess else guess - 1

/-- The mantissa of the number nearest to `a / b`. -/
def mantissa (a b : Nat) : Nat :=
  roundHalfEven (scaled a b (scale a b)).1 (scaled a b (scale a b)).2

/-- The number nearest to `a / b`, as a numerator and a denominator. -/
def nearest (a b : Nat) : Nat × Nat := scaled (mantissa a b) 1 (-(scale a b))

/-- `math.floor(a / b)` for a positive `b`. -/
def floorDivide (a : Int) (b : Nat) : Int :=
  let quotient := nearest a.natAbs b
  if 0 ≤ a then ((quotient.1 / quotient.2 : Nat) : Int)
  else -(((quotient.1 + quotient.2 - 1) / quotient.2 : Nat) : Int)

/-- Rounding moves a quotient by at most a half. -/
theorem roundHalfEven_near {n d : Nat} (hd : 0 < d) :
    2 * n ≤ 2 * (roundHalfEven n d * d) + d ∧ 2 * (roundHalfEven n d * d) ≤ 2 * n + d := by
  have hdivide := Nat.div_add_mod n d
  have hmod := Nat.mod_lt n hd
  unfold roundHalfEven
  dsimp only
  split
  · rw [Nat.mul_comm (n / d) d]
    omega
  · split
    · rw [Nat.add_mul, Nat.mul_comm (n / d) d]
      omega
    · rcases Nat.mod_two_eq_zero_or_one (n / d) with heven | hodd
      · rw [heven, Nat.add_zero, Nat.mul_comm (n / d) d]
        omega
      · rw [hodd, Nat.add_mul, Nat.mul_comm (n / d) d]
        omega

/-- Below `2 ^ 53` the scale is a shift to the left that fills the mantissa. -/
theorem scale_fills {a : Nat} (ha : 0 < a) (b : Nat) (hsmall : a < 2 ^ 53) :
    ∃ s : Nat, scale a b = s ∧ 2 ^ 52 * b ≤ a * 2 ^ s := by
  have hlogA : Nat.log2 a < 53 := (Nat.log2_lt ha.ne').mpr hsmall
  obtain ⟨guess, hguess⟩ : ∃ guess : Nat, guess + Nat.log2 a = 53 + Nat.log2 b :=
    ⟨53 + Nat.log2 b - Nat.log2 a, by omega⟩
  have hcast : (53 + (Nat.log2 b : Int) - (Nat.log2 a : Int)) = (guess : Int) := by omega
  have hfill : 2 ^ 52 * b ≤ a * 2 ^ guess := by
    have hupper : b < 2 ^ (Nat.log2 b + 1) := Nat.lt_log2_self
    have hlower : 2 ^ Nat.log2 a ≤ a := Nat.log2_self_le ha.ne'
    calc 2 ^ 52 * b ≤ 2 ^ 52 * 2 ^ (Nat.log2 b + 1) := Nat.mul_le_mul_left _ hupper.le
      _ = 2 ^ Nat.log2 a * 2 ^ guess := by
          rw [← Nat.pow_add, ← Nat.pow_add]
          congr 1
          omega
      _ ≤ a * 2 ^ guess := Nat.mul_le_mul_right _ hlower
  unfold scale
  rw [hcast]
  dsimp only
  split
  · exact ⟨guess, rfl, hfill⟩
  · next hlarge =>
      have hpositive : 1 ≤ guess := by omega
      refine ⟨guess - 1, by omega, ?_⟩
      simp only [scaled, Int.toNat_natCast, Int.toNat_neg_natCast, pow_zero, Nat.mul_one,
        Nat.not_lt] at hlarge
      have hsplit : 2 ^ guess = 2 * 2 ^ (guess - 1) := by
        rw [← Nat.pow_succ']
        congr 1
        omega
      rw [hsplit] at hlarge
      have : (2 : Nat) ^ 53 = 2 * 2 ^ 52 := by norm_num
      nlinarith

/-- With a shift to the left the nearest number is a mantissa over the power it was shifted by. -/
theorem nearest_eq {a b s : Nat} (hs : scale a b = s) :
    nearest a b = (roundHalfEven (a * 2 ^ s) b, 2 ^ s) := by
  simp [nearest, mantissa, hs, scaled]

/-- A shifted quotient is not rounded past an integer it is on one side of. -/
theorem roundHalfEven_between {a b : Nat} (hb : 0 < b) (s : Nat) :
    (∀ q, q * b ≤ a → q * 2 ^ s ≤ roundHalfEven (a * 2 ^ s) b) ∧
      ∀ q, a ≤ q * b → roundHalfEven (a * 2 ^ s) b ≤ q * 2 ^ s := by
  obtain ⟨hlow, hhigh⟩ := @roundHalfEven_near (a * 2 ^ s) b hb
  generalize roundHalfEven (a * 2 ^ s) b = m at *
  constructor
  · intro q hq
    have hscaled : q * b * 2 ^ s ≤ a * 2 ^ s := Nat.mul_le_mul_right _ hq
    by_contra hlt
    have hnext : (m + 1) * b ≤ q * 2 ^ s * b := Nat.mul_le_mul_right _ (Nat.lt_of_not_le hlt)
    nlinarith
  · intro q hq
    have hscaled : a * 2 ^ s ≤ q * b * 2 ^ s := Nat.mul_le_mul_right _ hq
    by_contra hlt
    have hnext : (q * 2 ^ s + 1) * b ≤ m * b := Nat.mul_le_mul_right _ (Nat.lt_of_not_le hlt)
    nlinarith

/-- Below `2 ^ 53` the nearest number stays between the integers around the quotient. -/
theorem nearest_between {a b : Nat} (ha : 0 < a) (hb : 0 < b) (hsmall : a < 2 ^ 53) :
    ∃ m s : Nat, nearest a b = (m, 2 ^ s) ∧
      (∀ q, q * b ≤ a → q * 2 ^ s ≤ m) ∧ (∀ q, a < q * b → m < q * 2 ^ s) ∧
      (∀ q, a ≤ q * b → m ≤ q * 2 ^ s) ∧ ∀ q, q * b < a → q * 2 ^ s < m := by
  obtain ⟨s, hs, hfills⟩ := scale_fills ha b hsmall
  -- The step of the mantissa is finer than the distance of a quotient by `b` to an integer.
  have hfine : b < 2 * 2 ^ s := by
    have hpow : (2 : Nat) ^ 53 = 2 * 2 ^ 52 := by norm_num
    have hpos : 0 < (2 : Nat) ^ s := Nat.two_pow_pos s
    nlinarith
  obtain ⟨hlow, hhigh⟩ := @roundHalfEven_near (a * 2 ^ s) b hb
  obtain ⟨hbelow, habove⟩ := @roundHalfEven_between a b hb s
  refine ⟨_, s, nearest_eq hs, hbelow, ?_, habove, ?_⟩
  · intro q hq
    have hscaled : (a + 1) * 2 ^ s ≤ q * b * 2 ^ s := Nat.mul_le_mul_right _ hq
    by_contra hle
    have hnext : q * 2 ^ s * b ≤ roundHalfEven (a * 2 ^ s) b * b :=
      Nat.mul_le_mul_right _ (Nat.le_of_not_lt hle)
    nlinarith
  · intro q hq
    have hscaled : (q * b + 1) * 2 ^ s ≤ a * 2 ^ s := Nat.mul_le_mul_right _ hq
    by_contra hle
    have hnext : roundHalfEven (a * 2 ^ s) b * b ≤ q * 2 ^ s * b :=
      Nat.mul_le_mul_right _ (Nat.le_of_not_lt hle)
    nlinarith

/-- Below `2 ^ 53` the floor of the binary64 quotient is the floor of the quotient. -/
theorem floorDivide_eq {a : Int} {b : Nat} (hb : 0 < b) (hsmall : a.natAbs < 2 ^ 53) :
    floorDivide a b = a / (b : Int) := by
  rcases Nat.eq_zero_or_pos a.natAbs with hzero | hpos
  · obtain rfl := Int.natAbs_eq_zero.mp hzero
    simp [floorDivide, nearest, mantissa, scaled, roundHalfEven, hb]
  · obtain ⟨m, s, hnearest, hle, hlt, hle', hlt'⟩ := nearest_between hpos hb hsmall
    have hone : 0 < 2 ^ s := Nat.two_pow_pos s
    unfold floorDivide
    rw [hnearest]
    dsimp only
    split
    · next hsign =>
        lift a to Nat using hsign
        rw [Int.natAbs_natCast] at hle hlt
        norm_cast
        apply Nat.div_eq_of_lt_le
        · exact hle _ (Nat.div_mul_le_self a b)
        · exact hlt _ (by simpa [Nat.mul_comm] using Nat.lt_mul_div_succ a hb)
    · next hsign =>
        push Not at hsign
        -- The least `q` with `-a ≤ q * b`, of which both sides are the negation.
        obtain ⟨q, hbelow, habove⟩ : ∃ q, (q : Nat) * b < a.natAbs ∧ a.natAbs ≤ (q + 1) * b := by
          refine ⟨(a.natAbs - 1) / b, ?_, ?_⟩
          · have := Nat.div_mul_le_self (a.natAbs - 1) b
            omega
          · have := Nat.lt_mul_div_succ (a.natAbs - 1) hb
            rw [Nat.mul_comm] at this
            omega
        have hceil : (m + 2 ^ s - 1) / 2 ^ s = q + 1 := by
          have hbelow' := hlt' q hbelow
          have habove' := hle' (q + 1) habove
          apply Nat.div_eq_of_lt_le
          · rw [Nat.add_mul]
            omega
          · rw [Nat.add_mul]
            omega
        have hquotient : a / (b : Int) = -((q : Int) + 1) := by
          have hbelow : (q : Int) * b < -a := by zify at hbelow; rwa [abs_of_neg hsign] at hbelow
          have habove : -a ≤ ((q : Int) + 1) * b := by
            zify at habove; rwa [abs_of_neg hsign] at habove
          have hbpos : (0 : Int) < b := by exact_mod_cast hb
          apply le_antisymm
          · apply Int.le_of_lt_add_one
            rw [Int.ediv_lt_iff_lt_mul hbpos]
            nlinarith
          · rw [Int.le_ediv_iff_mul_le hbpos]
            nlinarith
        rw [hceil, hquotient]
        push_cast
        rfl

/-! ## Larger dividends -/

/-- With a quotient below `2 ^ 53` the scale is a shift to the left. -/
theorem scale_shifts {a b : Nat} (ha : 0 < a) (hquotient : a < 2 ^ 53 * b) :
    ∃ s : Nat, scale a b = s := by
  have hlog : Nat.log2 a ≤ 53 + Nat.log2 b := by
    have hupper : b < 2 ^ (Nat.log2 b + 1) := Nat.lt_log2_self
    have hlt : a < 2 ^ (53 + Nat.log2 b + 1) := by
      calc a < 2 ^ 53 * b := hquotient
        _ ≤ 2 ^ 53 * 2 ^ (Nat.log2 b + 1) := Nat.mul_le_mul_left _ hupper.le
        _ = 2 ^ (53 + Nat.log2 b + 1) := by rw [← Nat.pow_add, Nat.add_assoc]
    exact Nat.lt_succ_iff.mp ((Nat.log2_lt ha.ne').mpr hlt)
  obtain ⟨guess, hguess⟩ : ∃ guess : Nat, 53 + (Nat.log2 b : Int) - (Nat.log2 a : Int) = guess :=
    ⟨53 + Nat.log2 b - Nat.log2 a, by omega⟩
  unfold scale
  rw [hguess]
  dsimp only
  by_cases hfits : (scaled a b guess).1 < 2 ^ 53 * (scaled a b guess).2
  · rw [if_pos hfits]
    exact ⟨guess, rfl⟩
  · rw [if_neg hfits]
    have hpositive : guess ≠ 0 := by
      rintro rfl
      exact hfits (by simpa [scaled] using hquotient)
    exact ⟨guess - 1, by omega⟩

/-- The floor of the binary64 quotient is that of the quotient, or one more where the quotient
was rounded up to an integer. -/
theorem floorDivide_near {a : Int} {b : Nat} (hb : 0 < b) (hquotient : a.natAbs < 2 ^ 53 * b) :
    a / (b : Int) ≤ floorDivide a b ∧ (floorDivide a b - 1) * b < a := by
  have hbpos : (0 : Int) < b := Int.natCast_pos.mpr hb
  rcases Nat.eq_zero_or_pos a.natAbs with hzero | hpos
  · obtain rfl := Int.natAbs_eq_zero.mp hzero
    rw [floorDivide_eq hb (by decide), Int.zero_ediv]
    omega
  · obtain ⟨s, hs⟩ := scale_shifts hpos hquotient
    obtain ⟨hbelow, habove⟩ := @roundHalfEven_between a.natAbs b hb s
    have hone : 0 < 2 ^ s := Nat.two_pow_pos s
    -- The integers next to the quotient on either side, which it is not rounded past.
    obtain ⟨low, hlow, hlow'⟩ : ∃ low, low * b ≤ a.natAbs ∧ a.natAbs < (low + 1) * b :=
      ⟨a.natAbs / b, Nat.div_mul_le_self _ _, by
        rw [Nat.mul_comm]
        exact Nat.lt_mul_div_succ _ hb⟩
    obtain ⟨high, hhigh, hhigh'⟩ : ∃ high, a.natAbs ≤ high * b ∧ high * b < a.natAbs + b := by
      by_cases hexact : a.natAbs = low * b
      · exact ⟨low, hexact.le, by omega⟩
      · exact ⟨low + 1, hlow'.le, by rw [Nat.succ_mul]; omega⟩
    have hfloor := hbelow low hlow
    have hceil := habove high hhigh
    rw [floorDivide, nearest_eq hs]
    generalize roundHalfEven (a.natAbs * 2 ^ s) b = m at hfloor hceil ⊢
    by_cases hsign : 0 ≤ a
    · rw [if_pos hsign]
      have hupper : m / 2 ^ s ≤ high := Nat.div_le_of_le_mul (by rwa [Nat.mul_comm])
      have hlower : low ≤ m / 2 ^ s := (Nat.le_div_iff_mul_le hone).mpr hfloor
      generalize m / 2 ^ s = count at hupper hlower ⊢
      zify at hupper hlower hlow hlow' hhigh hhigh'
      rw [abs_of_nonneg hsign] at hlow hlow' hhigh hhigh'
      constructor
      · apply Int.le_of_lt_add_one
        rw [Int.ediv_lt_iff_lt_mul hbpos]
        nlinarith
      · nlinarith
    · rw [if_neg hsign]
      push Not at hsign
      have hupper : (m + 2 ^ s - 1) / 2 ^ s ≤ high := by
        apply Nat.le_of_lt_succ
        rw [Nat.div_lt_iff_lt_mul hone, Nat.succ_mul]
        omega
      have hlower : low ≤ (m + 2 ^ s - 1) / 2 ^ s := by
        rw [Nat.le_div_iff_mul_le hone]
        omega
      dsimp only
      generalize (m + 2 ^ s - 1) / 2 ^ s = count at hupper hlower ⊢
      zify at hupper hlower hlow hlow' hhigh hhigh'
      rw [abs_of_neg hsign] at hlow hlow' hhigh hhigh'
      constructor
      · apply Int.le_of_lt_add_one
        rw [Int.ediv_lt_iff_lt_mul hbpos]
        nlinarith
      · nlinarith

end SeverinoHQ.Math.Binary64
