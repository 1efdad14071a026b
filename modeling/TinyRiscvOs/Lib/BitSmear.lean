import Mathlib.Data.Nat.Bitwise
import Mathlib.Data.Nat.Log

/-!
# Smearing the top bit of a natural number

`n ||| n >>> w` doubles the length of the run of ones below the top bit.
Repeated with doubling shifts it turns `n` into the mask of all bits up to
its top bit.
-/

namespace TinyRiscvOs.Lib.BitSmear

/-- The top bit is at most `high`, and the `width` bits from `high` down are set. -/
structure TopRun (n high width : Nat) : Prop where
  bound : n < 2 ^ (high + 1)
  set : ∀ i, i ≤ high → high < i + width → n.testBit i = true

theorem TopRun.of_log {n : Nat} (positive : n ≠ 0) :
    TopRun n (Nat.log2 n) 1 where
  bound := Nat.lt_log2_self
  set := by
    intro i upper lower
    have top : i = Nat.log2 n := by omega
    rw [top]
    exact Nat.testBit_log2 positive

/-- One smearing step. -/
theorem TopRun.smear {n high width : Nat} (run : TopRun n high width) :
    TopRun (n ||| n >>> width) high (width + width) where
  bound :=
    Nat.or_lt_two_pow run.bound
      (Nat.lt_of_le_of_lt (Nat.shiftRight_le n width) run.bound)
  set := by
    intro i upper lower
    rw [Nat.testBit_or, Nat.testBit_shiftRight]
    by_cases reached : high < i + width
    · rw [run.set i upper reached, Bool.true_or]
    · have shifted : n.testBit (width + i) = true :=
        run.set (width + i) (by omega) (by omega)
      rw [shifted, Bool.or_true]

/-- A run as long as the number is the mask of all its bits. -/
theorem TopRun.eq_mask {n high width : Nat} (run : TopRun n high width)
    (long : high < width) : n = 2 ^ (high + 1) - 1 := by
  apply Nat.eq_of_testBit_eq
  intro i
  rw [Nat.testBit_two_pow_sub_one]
  by_cases inside : i < high + 1
  · rw [run.set i (by omega) (by omega)]
    simp [inside]
  · have above : n.testBit i = false :=
      Nat.testBit_eq_false_of_lt
        (Nat.lt_of_lt_of_le run.bound
          (Nat.pow_le_pow_right (by decide) (by omega)))
    simp [above, inside]

end TinyRiscvOs.Lib.BitSmear
