/-
  The integer conversions of C on an LP64 machine.

  Values are unbounded `Int` and `Nat`; a conversion is a function. `toInt32` is the conversion
  of a wider value to `int` (two's complement, as every compiler for this platform does it),
  `toInt64` what a signed 64-bit sum wraps to, `toSize` the conversion of a signed value to
  `size_t`.
-/
import Mathlib.Algebra.Ring.Int.Defs
import Mathlib.Algebra.Ring.Nat
import Mathlib.Data.List.Basic

namespace Pfs.Lib

/-- Conversion to `int`: the representative of `x` modulo `2^32` in `[-2^31, 2^31)`. -/
def toInt32 (x : Int) : Int := Int.bmod x (2 ^ 32)

/-- A sum in 64 bits, with sign. -/
def toInt64 (x : Int) : Int := Int.bmod x (2 ^ 64)

/-- Conversion of a signed value to `size_t`: the representative modulo `2^64`. -/
def toSize (x : Int) : Nat := (x % 2 ^ 64).toNat

variable {x : Int}

theorem toInt32_eq_self (h0 : -2 ^ 31 ≤ x) (h1 : x < 2 ^ 31) : toInt32 x = x := by
  unfold toInt32
  rw [Int.bmod_def]
  split <;> omega

theorem toInt32_of_lt (h0 : 0 ≤ x) (h1 : x < 2 ^ 31) : toInt32 x = x :=
  toInt32_eq_self (by omega) h1

theorem toInt64_of_lt (h0 : 0 ≤ x) (h1 : x < 2 ^ 63) : toInt64 x = x := by
  unfold toInt64
  rw [Int.bmod_def]
  split <;> omega

theorem toInt32_neg {x : Int} (h : 2 ^ 31 ≤ x % 2 ^ 32) : toInt32 x = x % 2 ^ 32 - 2 ^ 32 := by
  unfold toInt32
  rw [Int.bmod_def]
  split <;> omega

theorem toInt32_low (h : x % 2 ^ 32 < 2 ^ 31) : toInt32 x = x % 2 ^ 32 := by
  unfold toInt32
  rw [Int.bmod_def]
  split <;> omega

theorem toInt32_lt (x : Int) : toInt32 x < 2 ^ 31 := by
  unfold toInt32
  rw [Int.bmod_def]
  split <;> omega

theorem toInt32_le_mod (x : Int) : toInt32 x ≤ x % 2 ^ 32 := by
  unfold toInt32
  rw [Int.bmod_def]
  split <;> omega

theorem toInt32_lt_self {n : Nat} (h : 2 ^ 31 ≤ n) : toInt32 n < n := by
  have := toInt32_lt n
  omega

theorem toSize_of_nonneg (h0 : 0 ≤ x) (h1 : x < 2 ^ 64) : toSize x = x.toNat := by
  unfold toSize
  rw [Int.emod_eq_of_lt h0 h1]

theorem toSize_of_neg (h0 : -2 ^ 31 ≤ x) (h1 : x < 0) : 2 ^ 63 ≤ toSize x := by
  unfold toSize
  omega

end Pfs.Lib
