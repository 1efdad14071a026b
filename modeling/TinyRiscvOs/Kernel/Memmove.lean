import TinyRiscvOs.Lib.Bytes

/-!
# The copying functions of `string.c`

`memcpy` copies from the first byte on.  `memmove` uses it for a destination
below the source and copies from the last byte back otherwise, so that a byte
is read before the copy of another one reaches it.  Memory is a byte store over
the 64-bit addresses.
-/

namespace TinyRiscvOs.Kernel

open TinyRiscvOs.Lib

/-- The end of the address space. -/
abbrev addressEnd : Nat := 2 ^ 64

/-- The address of `p[i]`. -/
def byteAddress (p i : Nat) : Nat :=
  (p + i) % addressEnd

theorem byteAddress_eq {p i : Nat} (inside : p + i < addressEnd) :
    byteAddress p i = p + i :=
  Nat.mod_eq_of_lt inside

/-- The loop of `memcpy`, from the index `i` on. -/
def memcpyLoop (dst src : Nat) : Nat → Nat → Bytes → Bytes
  | 0, _, memory => memory
  | rest + 1, i, memory =>
      memcpyLoop dst src rest (i + 1)
        (Function.update memory (byteAddress dst i)
          (memory (byteAddress src i)))

/-- `memcpy`. -/
def memcpy (memory : Bytes) (dst src n : Nat) : Bytes :=
  memcpyLoop dst src n 0 memory

/-- The loop of `memmove`, down from the index `i`. -/
def memmoveLoop (dst src : Nat) : Nat → Bytes → Bytes
  | 0, memory => memory
  | i + 1, memory =>
      memmoveLoop dst src i
        (Function.update memory (byteAddress dst i)
          (memory (byteAddress src i)))

/-- `memmove`. -/
def memmove (memory : Bytes) (dst src n : Nat) : Bytes :=
  if dst < src then memcpy memory dst src n
  else memmoveLoop dst src n memory

/-- The bytes `[low, high)` of the destination are copied, no others changed. -/
structure Moved (memory : Bytes) (dst src low high : Nat) (moved : Bytes) :
    Prop where
  copied : ∀ i, low ≤ i → i < high → moved (dst + i) = memory (src + i)
  frame : ∀ address, address < dst + low ∨ dst + high ≤ address →
    moved address = memory address

section Loops

variable {memory moved : Bytes} {dst src n i : Nat}

theorem Moved.refl (memory : Bytes) (dst src i : Nat) :
    Moved memory dst src i i memory where
  copied _ lower upper := absurd upper (Nat.not_lt.2 lower)
  frame _ _ := rfl

/-- Below the source the next byte to read lies behind those written. -/
theorem Moved.forward (holds : Moved memory dst src 0 i moved)
    (below : dst ≤ src) :
    Moved memory dst src 0 (i + 1)
      (Function.update moved (dst + i) (moved (src + i))) where
  copied j lower upper := by
    have unread : moved (src + i) = memory (src + i) :=
      holds.frame _ (.inr (by omega))
    rw [Function.update_apply]
    by_cases last : j = i
    · rw [if_pos (by omega), unread, last]
    · rw [if_neg (by omega)]
      exact holds.copied j lower (by omega)
  frame address outside := by
    rw [Function.update_apply, if_neg (by omega)]
    exact holds.frame address (by omega)

/-- From the source on the next byte to read lies before those written. -/
theorem Moved.backward (holds : Moved memory dst src (i + 1) n moved)
    (above : src ≤ dst) (inside : i < n) :
    Moved memory dst src i n
      (Function.update moved (dst + i) (moved (src + i))) where
  copied j lower upper := by
    have unread : moved (src + i) = memory (src + i) :=
      holds.frame _ (.inl (by omega))
    rw [Function.update_apply]
    by_cases first : j = i
    · rw [if_pos (by omega), unread, first]
    · rw [if_neg (by omega)]
      exact holds.copied j (by omega) upper
  frame address outside := by
    rw [Function.update_apply, if_neg (by omega)]
    exact holds.frame address (by omega)

theorem memcpyLoop_moved (below : dst ≤ src) (dstFits : dst + n ≤ addressEnd)
    (srcFits : src + n ≤ addressEnd) {rest : Nat} (count : i + rest = n)
    (holds : Moved memory dst src 0 i moved) :
    Moved memory dst src 0 n (memcpyLoop dst src rest i moved) := by
  induction rest generalizing i moved with
  | zero =>
      rw [← count]
      exact holds
  | succ rest induction =>
      rw [memcpyLoop, byteAddress_eq (by omega), byteAddress_eq (by omega)]
      exact induction (by omega) (holds.forward below)

theorem memmoveLoop_moved (above : src ≤ dst) (dstFits : dst + n ≤ addressEnd)
    (srcFits : src + n ≤ addressEnd) (inside : i ≤ n)
    (holds : Moved memory dst src i n moved) :
    Moved memory dst src 0 n (memmoveLoop dst src i moved) := by
  induction i generalizing moved with
  | zero => exact holds
  | succ i induction =>
      rw [memmoveLoop, byteAddress_eq (by omega), byteAddress_eq (by omega)]
      exact induction (by omega) (holds.backward above inside)

end Loops

/--
`memmove` leaves a copy of the source, as it was, in the destination and no
other change, however the two ranges overlap.
-/
theorem memmove_moves (memory : Bytes) {dst src n : Nat}
    (dstFits : dst + n ≤ addressEnd) (srcFits : src + n ≤ addressEnd) :
    (∀ i, i < n →
        memmove memory dst src n (dst + i) = memory (src + i)) ∧
      ∀ address, address < dst ∨ dst + n ≤ address →
        memmove memory dst src n address = memory address := by
  have moved : Moved memory dst src 0 n (memmove memory dst src n) := by
    rw [memmove]
    split
    · next below =>
        exact memcpyLoop_moved below.le dstFits srcFits (Nat.zero_add n)
          (.refl memory dst src 0)
    · next above =>
        exact memmoveLoop_moved (Nat.not_lt.1 above) dstFits srcFits
          (Nat.le_refl n) (.refl memory dst src n)
  exact ⟨fun i inside => moved.copied i (Nat.zero_le i) inside,
    fun address outside => moved.frame address (by omega)⟩

/-- A memory in which each byte has the low bits of its address. -/
def countingMemory : Bytes := fun address =>
  BitVec.ofNat 8 address

/-- Five bytes moved up by two inside one range. -/
theorem memmove_moves_up_two :
    (∀ i, i < 5 →
        memmove countingMemory 12 10 5 (12 + i) = countingMemory (10 + i)) ∧
      ∀ address, address < 12 ∨ 12 + 5 ≤ address →
        memmove countingMemory 12 10 5 address = countingMemory address :=
  memmove_moves countingMemory (by decide) (by decide)

end TinyRiscvOs.Kernel
