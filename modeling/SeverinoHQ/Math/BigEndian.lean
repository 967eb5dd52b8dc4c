/-
# Numbers as bytes, the greatest first

A number fits a buffer of so many bytes where it is less than their power of 256. Filled into
one it fits, leading zeros included, it reads back.
-/

import Mathlib.Algebra.Order.Ring.Nat
import Mathlib.Algebra.Ring.Nat
import SeverinoHQ.Math.Bytes

namespace SeverinoHQ.Math.BigEndian

/-- The number of a byte string. -/
def ofBytes (bytes : Bytes) : Nat := bytes.foldl (fun number byte => number * 256 + byte.toNat) 0

/-- A number in so many bytes, without what does not fit. -/
def fill : Nat → Nat → Bytes
  | 0, _ => []
  | size + 1, number => fill size (number / 256) ++ [UInt8.ofNat number]

/-- How many bits a number takes. -/
def bitLength (number : Nat) : Nat := if number = 0 then 0 else number.log2 + 1

/-- How many bytes a number takes without leading zeros. -/
def byteLength (number : Nat) : Nat := (bitLength number + 7) / 8

theorem ofBytes_append_singleton (bytes : Bytes) (byte : UInt8) :
    ofBytes (bytes ++ [byte]) = ofBytes bytes * 256 + byte.toNat := by
  rw [ofBytes, List.foldl_append]
  rfl

@[simp]
theorem length_fill (size number : Nat) : (fill size number).length = size := by
  induction size generalizing number with
  | zero => rfl
  | succ size ih => rw [fill, List.length_append, ih, List.length_singleton]

/-- A number that fits reads back. -/
theorem ofBytes_fill {size number : Nat} (h : number < 256 ^ size) :
    ofBytes (fill size number) = number := by
  induction size generalizing number with
  | zero =>
      rw [pow_zero, Nat.lt_one_iff] at h
      rw [h]
      rfl
  | succ size ih =>
      have hrest : number / 256 < 256 ^ size := by
        rw [Nat.div_lt_iff_lt_mul (by decide), ← pow_succ]
        exact h
      rw [fill, ofBytes_append_singleton, ih hrest, UInt8.toNat_ofNat']
      exact Nat.div_add_mod' number 256

/-- Two numbers that fit are told apart by the bytes they fill. -/
theorem fill_inj {size first second : Nat} (hfirst : first < 256 ^ size)
    (hsecond : second < 256 ^ size) : fill size first = fill size second ↔ first = second := by
  constructor
  · intro h
    rw [← ofBytes_fill hfirst, h, ofBytes_fill hsecond]
  · exact congrArg (fill size)

theorem bitLength_le_iff {number bits : Nat} : bitLength number ≤ bits ↔ number < 2 ^ bits := by
  by_cases hzero : number = 0
  · simp [bitLength, hzero]
  · rw [bitLength, if_neg hzero, Nat.succ_le_iff, Nat.log2_lt hzero]

/-- A number takes no more bytes than it fits. -/
theorem byteLength_le_iff {number size : Nat} : byteLength number ≤ size ↔ number < 256 ^ size := by
  have hpow : (256 : Nat) ^ size = 2 ^ (8 * size) := by rw [pow_mul, show (2 : Nat) ^ 8 = 256 from rfl]
  rw [hpow, ← bitLength_le_iff, byteLength]
  omega

end SeverinoHQ.Math.BigEndian
