import Mathlib.Data.Int.ModEq

/-!
# 32-bit arithmetic

C expressions on a 32-bit machine mix `int` and `size_t`. Values are unbounded
integers here and every conversion is explicit:

- `toInt32`: what an `int` keeps of a value (two's complement).
- `toSizeT`: what a `size_t` keeps of it.

Conversions inside a sum or a difference can be left out under the outer one
(`toInt32_add_toInt32`, `toSizeT_sub_toInt32`), and neither changes a value in
its range. So counters that wrap can be compared (`toInt32_sub_toSizeT`).
-/

namespace Word

/-- Conversion to a 32-bit `int`. -/
def toInt32 (x : Int) : Int := Int.bmod x (2 ^ 32)

/-- Conversion to a 32-bit `size_t`. -/
def toSizeT (x : Int) : Nat := (x % 2 ^ 32).toNat

theorem toInt32_of_lt {n : Nat} (h : n < 2 ^ 31) : toInt32 n = n := by
  unfold toInt32
  rw [Int.bmod_def]
  omega

/-- A value from 2^31 on reads as a negative `int`. -/
theorem toInt32_of_ge {n : Nat} (h : 2 ^ 31 ≤ n) (h' : n < 2 ^ 32) :
    toInt32 n = n - 2 ^ 32 := by
  unfold toInt32
  rw [Int.bmod_def]
  omega

theorem toInt32_add_toInt32 (a b : Int) : toInt32 (toInt32 a + b) = toInt32 (a + b) := by
  unfold toInt32
  simp only [Int.bmod_def]
  omega

theorem toSizeT_of_lt {n : Nat} (h : n < 2 ^ 32) : toSizeT n = n := by
  unfold toSizeT
  omega

theorem toSizeT_add_toInt32 (a b : Int) : toSizeT (a + toInt32 b) = toSizeT (a + b) := by
  unfold toSizeT toInt32
  simp only [Int.bmod_def]
  omega

theorem toSizeT_sub_toInt32 (a b : Int) : toSizeT (a - toInt32 b) = toSizeT (a - b) := by
  unfold toSizeT toInt32
  simp only [Int.bmod_def]
  omega

/-- A sum of which one term has been converted already. -/
theorem toSizeT_toSizeT_add (a b : Nat) : toSizeT (toSizeT a + b) = toSizeT (a + b) := by
  unfold toSizeT
  omega

/-- The signed difference of two counters that wrap is the one of the numbers that they count, if
these are less than 2^31 apart. -/
theorem toInt32_sub_toSizeT {x t : Nat} (hlo : t < x + 2 ^ 31) (hhi : x < t + 2 ^ 31) :
    toInt32 ((toSizeT x : Int) - (toSizeT t : Int)) = (x : Int) - t := by
  unfold toInt32 toSizeT
  rw [Int.bmod_def]
  omega

end Word
