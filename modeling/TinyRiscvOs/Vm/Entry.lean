import Mathlib.Data.Nat.Bitwise

/-!
# Page-table entries

An entry is a 64-bit word: the flags of `defs.h` in its low bits and the page
number of a frame above bit ten.  The lemmas read entries that the kernel
itself writes back into these parts.
-/

namespace TinyRiscvOs.Vm

/-- `PERM_V`. -/
abbrev permV : Nat := 0b1

/-- `PERM_R`. -/
abbrev permR : Nat := 0b10

/-- `PERM_W`. -/
abbrev permW : Nat := 0b100

/-- `PERM_X`. -/
abbrev permX : Nat := 0b1000

/-- `PERM_U`. -/
abbrev permU : Nat := 0b10000

/-- `PERM_A`. -/
abbrev permA : Nat := 0b1000000

/-- `PERM_D`. -/
abbrev permD : Nat := 0b10000000

/-- `PPN_MASK`. -/
abbrev ppnMask : Nat := 0xfffffffffff

/-- `VM_ANON`. -/
abbrev vmAnon : Nat := 0x1

/-- `VM_READ`. -/
abbrev vmRead : Nat := 0x2

/-- `VM_WRITE`. -/
abbrev vmWrite : Nat := 0x4

/-- `VM_EXEC`. -/
abbrev vmExec : Nat := 0x8

/-- `~x` on 64-bit words. -/
abbrev complement (x : Nat) : Nat := (2 ^ 64 - 1) ^^^ x

/-- `(ppn << 10) | perm`. -/
def entry (ppn perm : Nat) : Nat :=
  (ppn <<< 10) ||| perm

/-- `(entry >> 10) & PPN_MASK`. -/
def entryPpn (entry : Nat) : Nat :=
  (entry >>> 10) &&& ppnMask

/-- `entry & flag` is not zero. -/
def has (flag entry : Nat) : Prop :=
  entry &&& flag ≠ 0

instance (flag entry : Nat) : Decidable (has flag entry) :=
  inferInstanceAs (Decidable (entry &&& flag ≠ 0))

/-- The permissions `do_page_fault` maps a page with. -/
def pagePerm (vmFlags : Nat) : Nat :=
  permA ||| permD ||| permU ||| (vmFlags &&& complement vmAnon) ||| permV

/-! ## Bits -/

/-- Testing a single flag reads one bit. -/
theorem has_two_pow (bit entry : Nat) :
    has (2 ^ bit) entry ↔ entry.testBit bit = true := by
  rw [has, Nat.and_two_pow]
  cases entry.testBit bit <;> simp

theorem testBit_complement {x bit : Nat} (small : bit < 64) :
    (complement x).testBit bit = !x.testBit bit := by
  rw [Nat.testBit_xor, Nat.testBit_two_pow_sub_one]
  simp [small]

/-- Packing is addition as long as the flags stay below bit ten. -/
theorem entry_eq_add {ppn perm : Nat} (permSmall : perm < 2 ^ 10) :
    entry ppn perm = 2 ^ 10 * ppn + perm := by
  rw [entry, ← Nat.shiftLeft_add_eq_or_of_lt permSmall, Nat.shiftLeft_eq,
    Nat.mul_comm]

/-- The number of a frame survives being packed into an entry. -/
theorem entryPpn_entry {ppn perm : Nat} (ppnSmall : ppn < 2 ^ 44)
    (permSmall : perm < 2 ^ 10) : entryPpn (entry ppn perm) = ppn := by
  have mask : ppnMask = 2 ^ 44 - 1 := by decide
  rw [entryPpn, entry_eq_add permSmall, mask, Nat.and_two_pow_sub_one_eq_mod,
    Nat.shiftRight_eq_div_pow]
  omega

theorem entryPpn_lt (entry : Nat) : entryPpn entry < 2 ^ 44 := by
  have mask : ppnMask = 2 ^ 44 - 1 := by decide
  rw [entryPpn, mask, Nat.and_two_pow_sub_one_eq_mod]
  exact Nat.mod_lt _ (Nat.two_pow_pos _)

/-- The flags survive being packed into an entry. -/
theorem has_entry {ppn perm bit : Nat} (low : bit < 10) :
    has (2 ^ bit) (entry ppn perm) ↔ has (2 ^ bit) perm := by
  rw [has_two_pow, has_two_pow, entry, Nat.testBit_or, Nat.testBit_shiftLeft]
  simp [Nat.not_le.2 low]

theorem entry_lt {ppn perm : Nat} (ppnSmall : ppn < 2 ^ 44)
    (permSmall : perm < 2 ^ 64) : entry ppn perm < 2 ^ 64 := by
  refine Nat.or_lt_two_pow ?_ permSmall
  rw [Nat.shiftLeft_eq]
  omega

/-- Masking the low eight bits of an entry gives its flags back. -/
theorem entry_and_ff {ppn perm : Nat} (permSmall : perm < 2 ^ 8) :
    entry ppn perm &&& 0xff = perm := by
  have mask : 0xff = 2 ^ 8 - 1 := by decide
  rw [entry_eq_add (permSmall.trans (by decide)), mask,
    Nat.and_two_pow_sub_one_eq_mod]
  omega

/-- Clearing a flag clears it in the flags. -/
theorem entry_and_complement {ppn perm flag : Nat} (ppnSmall : ppn < 2 ^ 44)
    (flagSmall : flag < 2 ^ 10) :
    entry ppn perm &&& complement flag =
      entry ppn (perm &&& complement flag) := by
  refine Nat.eq_of_testBit_eq fun bit => ?_
  simp only [entry, Nat.testBit_and, Nat.testBit_or, Nat.testBit_shiftLeft]
  by_cases high : 10 ≤ bit
  · by_cases inWord : bit < 64
    · have clear : flag.testBit bit = false :=
        Nat.testBit_lt_two_pow (flagSmall.trans_le (Nat.pow_le_pow_right (by decide) high))
      simp [testBit_complement inWord, clear, high]
    · have small : ppn.testBit (bit - 10) = false :=
        Nat.testBit_lt_two_pow (ppnSmall.trans_le
          (Nat.pow_le_pow_right (by decide) (by omega)))
      simp [small]
  · simp [high]

/-! ## Permissions of user pages -/

/-- What `do_page_fault` and `do_fork` may have left in the flags of a user page. -/
def UserPerm (vmFlags perm : Nat) : Prop :=
  perm = pagePerm vmFlags ∨ perm = pagePerm vmFlags &&& complement permW

instance (vmFlags perm : Nat) : Decidable (UserPerm vmFlags perm) :=
  inferInstanceAs (Decidable (_ ∨ _))

theorem pagePerm_lt {vmFlags : Nat} (small : vmFlags < 16) :
    pagePerm vmFlags < 2 ^ 8 := by
  revert vmFlags
  decide

theorem UserPerm.lt {vmFlags perm : Nat} (form : UserPerm vmFlags perm)
    (small : vmFlags < 16) : perm < 2 ^ 8 := by
  have whole := pagePerm_lt small
  rcases form with rfl | rfl
  · exact whole
  · exact Nat.and_le_left.trans_lt whole

/-- The flags of a user page that do not depend on sharing. -/
theorem UserPerm.flags {vmFlags perm : Nat} (form : UserPerm vmFlags perm)
    (small : vmFlags < 16) :
    has permV perm ∧ has permU perm ∧ has permA perm ∧ has permD perm ∧
      (has permR perm ↔ has vmRead vmFlags) ∧
      (has permX perm ↔ has vmExec vmFlags) ∧
      (has permW perm → has vmWrite vmFlags) := by
  have finite : ∀ flags < 16, ∀ perm ∈
      [pagePerm flags, pagePerm flags &&& complement permW],
      has permV perm ∧ has permU perm ∧ has permA perm ∧ has permD perm ∧
        (has permR perm ↔ has vmRead flags) ∧
        (has permX perm ↔ has vmExec flags) ∧
        (has permW perm → has vmWrite flags) := by
    decide
  exact finite vmFlags small perm (by simpa [UserPerm] using form)

theorem pagePerm_write {vmFlags : Nat} (small : vmFlags < 16) :
    has permW (pagePerm vmFlags) ↔ has vmWrite vmFlags := by
  revert vmFlags
  decide

/-- Clearing `PERM_W` stays within the permissions of user pages. -/
theorem UserPerm.readOnly {vmFlags perm : Nat} (form : UserPerm vmFlags perm) :
    UserPerm vmFlags (perm &&& complement permW) := by
  rcases form with rfl | rfl
  · exact Or.inr rfl
  · refine Or.inr ?_
    rw [Nat.and_assoc, Nat.and_self]

theorem not_has_permW (perm : Nat) : ¬ has permW (perm &&& complement permW) := by
  have flag : permW = 2 ^ 2 := by decide
  rw [flag, has_two_pow, Nat.testBit_and, testBit_complement (by decide),
    Nat.testBit_two_pow]
  simp

end TinyRiscvOs.Vm
