import TinyRiscvOs.Lib.BitSmear
import TinyRiscvOs.Mm.Buddy

/-!
# Rounding a request to a power of two

`buddy_alloc` rounds its argument with `IS_POWER_OF_2` and `fixsize`.  For
every request between `1` and `2 ^ 63` the result is the least power of two
that is not smaller than the request; above that it is zero.
-/

namespace TinyRiscvOs.Mm

open TinyRiscvOs.Lib.BitSmear

/-- Wrapping decrement of a positive word. -/
theorem word_pred {x : Nat} (positive : 0 < x) (word : x < wordModulus) :
    (x + (wordModulus - 1)) % wordModulus = x - 1 := by
  unfold wordModulus at word ⊢
  omega

/-- On positive words the macro is the power-of-two test. -/
theorem isPowerOf2_iff {x : Nat} (positive : 0 < x) (word : x < wordModulus) :
    isPowerOf2 x = true ↔ ∃ k, x = 2 ^ k := by
  rw [isPowerOf2, word_pred positive word, beq_iff_eq,
    Nat.and_sub_one_eq_zero_iff_isPowerOfTwo (Nat.pos_iff_ne_zero.1 positive),
    Nat.isPowerOfTwo]

/-- `fixsize` doubles the top bit of the predecessor, as far as 64 bits go. -/
theorem fixsize_mod {size : Nat} (atLeast : 2 ≤ size)
    (word : size < wordModulus) :
    fixsize size = 2 ^ (Nat.log2 (size - 1) + 1) % wordModulus := by
  have highLt : Nat.log2 (size - 1) < 64 := by
    unfold wordModulus at word
    exact (Nat.log2_lt (by omega)).2 (by omega)
  have run := (TopRun.of_log (n := size - 1) (by omega)).smear.smear.smear.smear.smear.smear
  have mask := run.eq_mask (by omega)
  have positive : 0 < 2 ^ (Nat.log2 (size - 1) + 1) := Nat.two_pow_pos _
  simp only [fixsize, word_pred (by omega : 0 < size) word]
  simp only [Nat.reduceAdd] at mask
  rw [mask, Nat.sub_add_cancel positive]

/-- `fixsize` on a word whose predecessor has its top bit at `high`. -/
theorem fixsize_eq {size : Nat} (atLeast : 2 ≤ size) (word : size ≤ 2 ^ 63) :
    fixsize size = 2 ^ (Nat.log2 (size - 1) + 1) := by
  have lt : size < wordModulus := by
    unfold wordModulus
    omega
  have highLt : Nat.log2 (size - 1) < 63 :=
    (Nat.log2_lt (by omega)).2 (by omega)
  have small : 2 ^ (Nat.log2 (size - 1) + 1) < wordModulus :=
    Nat.pow_lt_pow_right (by decide) (by omega)
  rw [fixsize_mod atLeast lt, Nat.mod_eq_of_lt small]

namespace Buddy

/-- `buddy_alloc` works with the least power of two above the request. -/
theorem requestSize_eq {nrpages : Nat} (positive : 1 ≤ nrpages)
    (word : nrpages ≤ 2 ^ 63) :
    requestSize nrpages = 2 ^ Nat.clog 2 nrpages := by
  have lt : nrpages < wordModulus := by
    unfold wordModulus
    omega
  unfold requestSize
  rw [if_neg (by omega)]
  by_cases power : isPowerOf2 nrpages = true
  · rw [if_pos power]
    obtain ⟨k, equal⟩ := (isPowerOf2_iff positive lt).1 power
    rw [equal, Nat.clog_pow 2 k (by decide)]
  · rw [if_neg power]
    have notOne : nrpages ≠ 1 := by
      intro one
      exact power ((isPowerOf2_iff positive lt).2 ⟨0, by simpa using one⟩)
    rw [fixsize_eq (by omega) word]
    congr 1
    have above : nrpages ≤ 2 ^ (Nat.log2 (nrpages - 1) + 1) := by
      have bound := Nat.lt_log2_self (n := nrpages - 1)
      omega
    have below : 2 ^ Nat.log2 (nrpages - 1) < nrpages := by
      have bound := Nat.log2_self_le (n := nrpages - 1) (by omega)
      omega
    have notLe : ¬ Nat.clog 2 nrpages ≤ Nat.log2 (nrpages - 1) := by
      rw [Nat.clog_le_iff_le_pow (by decide)]
      omega
    have upper := Nat.clog_le_of_le_pow above
    omega

/-- The same for a request of no page, which asks for one. -/
theorem requestSize_le {nrpages : Nat} (word : nrpages ≤ 2 ^ 63) :
    requestSize nrpages = 2 ^ Nat.clog 2 nrpages := by
  rcases Nat.eq_zero_or_pos nrpages with rfl | positive
  · decide
  · exact requestSize_eq positive word

/-- Above `2 ^ 63` the rounding wraps to zero. -/
theorem requestSize_wraps {nrpages : Nat} (large : 2 ^ 63 < nrpages)
    (word : nrpages < wordModulus) : requestSize nrpages = 0 := by
  have notPower : ¬ isPowerOf2 nrpages = true := by
    intro power
    obtain ⟨k, rfl⟩ := (isPowerOf2_iff (by omega) word).1 power
    have lower := (Nat.pow_lt_pow_iff_right (by decide)).1 large
    have upper := (Nat.pow_lt_pow_iff_right (by decide)).1 word
    omega
  have high : Nat.log2 (nrpages - 1) = 63 := by
    have below : 2 ^ 63 ≤ nrpages - 1 := by omega
    have above : nrpages - 1 < 2 ^ 64 := by
      unfold wordModulus at word
      omega
    have lower := (Nat.le_log2 (by omega)).2 below
    have upper := (Nat.log2_lt (by omega)).2 above
    omega
  rw [requestSize, if_neg (by omega), if_neg notPower,
    fixsize_mod (by omega) word, high]
  decide

@[simp]
theorem requestSize_one : requestSize 1 = 1 := by
  decide

end Buddy

end TinyRiscvOs.Mm
