import TinyRiscvOs.Lib.Bytes
import TinyRiscvOs.Vm.Process

/-!
# The assembly of `entry.S`

`_traps`, `__ret_from_fork`, `__dummy` and `__switch_to` over the registers of
a hart and its memory.  Addresses below `USER_END` are those of the program
that runs; the pages of the kernel are at their direct-mapped addresses.
-/

namespace TinyRiscvOs.Trap

open TinyRiscvOs.Lib
open TinyRiscvOs.Vm

/-! ## Registers and memory -/

/-- The integer registers, the registers of supervisor mode and the memory. -/
structure Cpu where
  x : Nat → Nat
  sepc : Nat
  sstatus : Nat
  sscratch : Nat
  satp : Nat
  mem : Bytes

/-- `base + distance` of an addressing mode. -/
def offset (base distance : Nat) : Nat :=
  (base + distance) % 2 ^ 64

/-- `base - distance`. -/
def below (base distance : Nat) : Nat :=
  (base + 2 ^ 64 - distance) % 2 ^ 64

/-- `ld`. -/
def load (mem : Bytes) (address : Nat) : Nat :=
  Bytes.littleEndian mem address 8

/-- `sd`. -/
def store (mem : Bytes) (address value : Nat) : Bytes :=
  Bytes.putLittleEndian mem address value 8

namespace Cpu

/-- The value of a register; `x0` is zero. -/
def reg (cpu : Cpu) (index : Nat) : Nat :=
  if index = 0 then 0 else cpu.x index

/-- Write a register. -/
def set (cpu : Cpu) (index value : Nat) : Cpu :=
  { cpu with x := Function.update cpu.x index value }

/-- `csrrw sp, sscratch, sp`. -/
def swap (cpu : Cpu) : Cpu :=
  { cpu with
    x := Function.update cpu.x 2 cpu.sscratch
    sscratch := cpu.x 2 }

/-- The macro `switch_stack`. -/
def switchStack (cpu : Cpu) : Cpu :=
  if cpu.swap.x 2 ≠ 0 then cpu.swap else cpu.swap.swap

/-! ## Trap frames -/

/-- The size of the frame, `(32 + 2) * 8`. -/
abbrev frameSize : Nat := 272

/-- What `_traps` stores at each word of the frame. -/
def frameValue (cpu : Cpu) (slot : Nat) : Nat :=
  if slot < 32 then cpu.reg slot
  else if slot = 32 then cpu.sepc
  else cpu.sstatus

/-- `_traps` up to the first instruction of `trap_handler`. -/
def trapEntry (cpu : Cpu) (returnAddress scause : Nat) : Cpu :=
  let cpu := cpu.switchStack
  let sp := below (cpu.x 2) frameSize
  let cpu := cpu.set 2 sp
  let mem := Bytes.putSlots cpu.mem (fun slot => offset sp (8 * slot))
    cpu.frameValue 8 (List.range 34)
  let cpu := (cpu.set 5 cpu.sstatus).set 10 scause
  let cpu := ((cpu.set 11 cpu.sepc).set 12 sp).set 1 returnAddress
  { cpu with mem }

/-- The registers from their words in the frame, `sp` as the last one. -/
def loadRegisters (cpu : Cpu) : Cpu :=
  { cpu with
    x := fun index =>
      if 1 ≤ index ∧ index < 32 then
        load cpu.mem (offset (cpu.x 2) (8 * index))
      else cpu.x index }

/-- `__ret_from_fork`, the second half of `_traps`. -/
def retFromFork (cpu : Cpu) : Cpu :=
  let cpu := { cpu with
    sstatus := load cpu.mem (offset (cpu.x 2) (33 * 8))
    sepc := load cpu.mem (offset (cpu.x 2) (32 * 8)) }
  let cpu := cpu.loadRegisters
  (cpu.set 2 (offset (cpu.x 2) frameSize)).switchStack

/-- `__dummy`. -/
def dummy (cpu : Cpu) : Cpu :=
  cpu.switchStack

/-! ## Switching -/

/-- The register `s0`, `s1`, … by its number. -/
def calleeSaved (index : Nat) : Nat :=
  if index < 2 then index + 8 else index + 16

/-- What `__switch_to` stores at each word of `thread`. -/
def threadValue (cpu : Cpu) (slot : Nat) : Nat :=
  if slot = 0 then cpu.x 1
  else if slot = 1 then cpu.x 2
  else if slot < 14 then cpu.x (calleeSaved (slot - 2))
  else if slot = 14 then cpu.sepc
  else if slot = 15 then cpu.sstatus
  else cpu.sscratch

/-- The address of a word of `thread` in a task structure. -/
def threadSlot (task slot : Nat) : Nat :=
  offset task (32 + 8 * slot)

/-- The words of `thread` in the order `__switch_to` stores them. -/
def threadOrder : List Nat :=
  List.range' 2 12 ++ [0, 1, 14, 15, 16]

/-- The word of `thread` that `__switch_to` loads into a register. -/
def threadSource (index : Nat) : Option Nat :=
  if index = 1 ∨ index = 2 then some (index - 1)
  else if 5 ≤ index ∧ index < 8 then some (index + 9)
  else if index = 8 ∨ index = 9 then some (index - 6)
  else if 18 ≤ index ∧ index < 28 then some (index - 14)
  else none

/-- `__switch_to(a0, a1)`. -/
def switchTo (cpu : Cpu) : Cpu :=
  let mem := Bytes.putSlots cpu.mem (threadSlot (cpu.x 10)) cpu.threadValue 8
    threadOrder
  let next := threadSlot (cpu.x 11)
  { cpu with
    x := fun index =>
      match threadSource index with
      | some slot => load mem (next slot)
      | none => cpu.x index
    sepc := load mem (next 14)
    sstatus := load mem (next 15)
    sscratch := load mem (next 16)
    mem }

end Cpu

/-! ## Loads and stores -/

theorem load_congr {left right : Bytes} {address : Nat}
    (agree : ∀ other, address ≤ other → other < address + 8 →
      left other = right other) :
    load left address = load right address :=
  Bytes.littleEndian_congr agree

@[simp]
theorem load_store (mem : Bytes) (address value : Nat) :
    load (store mem address value) address = value % 2 ^ 64 :=
  Bytes.littleEndian_putLittleEndian mem address value 8

theorem load_store_of_disjoint {mem : Bytes} {address value other : Nat}
    (disjoint : other + 8 ≤ address ∨ address + 8 ≤ other) :
    load (store mem address value) other = load mem other :=
  Bytes.littleEndian_putLittleEndian_of_disjoint disjoint

theorem store_outside {mem : Bytes} {address value other : Nat}
    (outside : other < address ∨ address + 8 ≤ other) :
    store mem address value other = mem other :=
  Bytes.putLittleEndian_outside outside

theorem offset_eq {base distance : Nat} (small : base + distance < 2 ^ 64) :
    offset base distance = base + distance :=
  Nat.mod_eq_of_lt small

theorem below_eq {base distance : Nat} (enough : distance ≤ base)
    (small : base < 2 ^ 64) : below base distance = base - distance := by
  have shift : base + 2 ^ 64 - distance = base - distance + 2 ^ 64 := by omega
  rw [below, shift, Nat.add_mod_right, Nat.mod_eq_of_lt (by omega)]

namespace Cpu

/-! ## Swapping stacks -/

/-- With a stack in `sscratch` the macro swaps. -/
theorem switchStack_of_ne {cpu : Cpu} (stack : cpu.sscratch ≠ 0) :
    cpu.switchStack = cpu.swap :=
  if_pos (by simpa [swap] using stack)

@[simp]
theorem switchStack_mem (cpu : Cpu) : cpu.switchStack.mem = cpu.mem := by
  rw [switchStack]
  split <;> rfl

@[simp]
theorem switchStack_satp (cpu : Cpu) : cpu.switchStack.satp = cpu.satp := by
  rw [switchStack]
  split <;> rfl

/-! ## The frame is restored as it was saved -/

/-- The context of a program: what a trap has to keep. -/
structure Context where
  x : Nat → Nat
  sepc : Nat
  sstatus : Nat

/-- The frame at `base` holds a context, with its own address for `sp`. -/
structure FrameHolds (mem : Bytes) (base : Nat) (context : Context) :
    Prop where
  registers : ∀ index, 1 ≤ index → index < 32 → index ≠ 2 →
    load mem (base + 8 * index) = context.x index
  stack : load mem (base + 8 * 2) = base
  sepc : load mem (base + 8 * 32) = context.sepc
  sstatus : load mem (base + 8 * 33) = context.sstatus

theorem FrameHolds.congr {left right : Bytes} {base : Nat}
    {context : Context} (frame : FrameHolds left base context)
    (agree : ∀ address, base ≤ address → address < base + frameSize →
      right address = left address) :
    FrameHolds right base context := by
  have same (slot : Nat) (small : slot < 34) :
      load right (base + 8 * slot) = load left (base + 8 * slot) :=
    load_congr fun address lower upper =>
      agree address (by omega) (by simp only [frameSize]; omega)
  exact
    { registers := fun index lower upper other => by
        rw [same index (by omega), frame.registers index lower upper other]
      stack := by rw [same 2 (by omega), frame.stack]
      sepc := by rw [same 32 (by omega), frame.sepc]
      sstatus := by rw [same 33 (by omega), frame.sstatus] }

/-- A register file and the two trap registers of a context. -/
structure Matches (cpu : Cpu) (context : Context) : Prop where
  registers : ∀ index, 1 ≤ index → index < 32 →
    cpu.x index = context.x index
  sepc : cpu.sepc = context.sepc
  sstatus : cpu.sstatus = context.sstatus

/-- A stack with room for a frame is not at address zero. -/
theorem ne_zero_of_frame {top : Nat} (low : frameSize ≤ top) : top ≠ 0 :=
  Nat.ne_of_gt (Nat.lt_of_lt_of_le (by decide) low)

/-- The frame lies below the value that was in `sscratch`. -/
theorem trapEntry_below {cpu : Cpu} {returnAddress scause : Nat}
    (nonzero : cpu.sscratch ≠ 0) :
    (cpu.trapEntry returnAddress scause).x 2 =
      below cpu.sscratch frameSize := by
  simp [trapEntry, set, switchStack_of_ne nonzero, swap]

section

variable {cpu : Cpu} {top returnAddress scause : Nat}
    (stack : cpu.sscratch = top) (low : frameSize ≤ top)
    (high : top < 2 ^ 64)

include stack low high

theorem trapEntry_sp :
    (cpu.trapEntry returnAddress scause).x 2 = top - frameSize := by
  have nonzero : cpu.sscratch ≠ 0 := stack ▸ ne_zero_of_frame low
  rw [trapEntry_below nonzero, stack, below_eq low high]

omit high in
theorem trapEntry_sscratch :
    (cpu.trapEntry returnAddress scause).sscratch = cpu.x 2 := by
  have nonzero : cpu.sscratch ≠ 0 := stack ▸ ne_zero_of_frame low
  simp [trapEntry, set, switchStack_of_ne nonzero, swap]

/-- The stores of `_traps`, with the addresses they really have. -/
theorem trapEntry_mem :
    ∃ value : Nat → Nat,
      (∀ index, 1 ≤ index → index < 32 → index ≠ 2 →
        value index = cpu.x index) ∧
      value 2 = top - frameSize ∧ value 32 = cpu.sepc ∧
      value 33 = cpu.sstatus ∧
      (cpu.trapEntry returnAddress scause).mem =
        Bytes.putSlots cpu.mem
          (fun slot => offset (top - frameSize) (8 * slot)) value 8
          (List.range 34) := by
  have nonzero : cpu.sscratch ≠ 0 := stack ▸ ne_zero_of_frame low
  refine ⟨((cpu.swap).set 2 (top - frameSize)).frameValue, ?_, ?_, ?_, ?_, ?_⟩
  · intro index lower upper other
    simp [frameValue, reg, set, swap, upper, other, Nat.ne_of_gt lower]
  · simp [frameValue, reg, set]
  · simp [frameValue, set, swap]
  · simp [frameValue, set, swap]
  · have sp : cpu.swap.x 2 = top := by simp [swap, stack]
    simp only [trapEntry, switchStack_of_ne nonzero, sp, below_eq low high]
    rfl

theorem trapEntry_outside {address : Nat}
    (outside : address < top - frameSize ∨ top ≤ address) :
    (cpu.trapEntry returnAddress scause).mem address = cpu.mem address := by
  rcases trapEntry_mem stack low high with ⟨value, _, _, _, _, mem⟩
  rw [mem]
  refine Bytes.putSlots_outside fun slot member => ?_
  have small := List.mem_range.1 member
  have place : offset (top - frameSize) (8 * slot) =
      top - frameSize + 8 * slot :=
    offset_eq (by simp only [frameSize] at low ⊢; omega)
  simp only [frameSize] at *
  omega

/-- A trap leaves the context of the program in the frame. -/
theorem trapEntry_frame (registers : ∀ index, cpu.x index < 2 ^ 64)
    (sepc : cpu.sepc < 2 ^ 64) (sstatus : cpu.sstatus < 2 ^ 64) :
    FrameHolds (cpu.trapEntry returnAddress scause).mem (top - frameSize)
      ⟨cpu.x, cpu.sepc, cpu.sstatus⟩ := by
  rcases trapEntry_mem stack low high with
    ⟨value, general, own, pc, status, mem⟩
  have place (slot : Nat) (small : slot < 34) :
      offset (top - frameSize) (8 * slot) = top - frameSize + 8 * slot :=
    offset_eq (by simp only [frameSize] at low ⊢; omega)
  have word (slot : Nat) (small : slot < 34) :
      load (cpu.trapEntry returnAddress scause).mem
          (top - frameSize + 8 * slot) = value slot % 2 ^ 64 := by
    rw [mem, ← place slot small]
    refine Bytes.littleEndian_putSlots (List.mem_range.2 small)
      fun one oneMember other otherMember different => ?_
    rw [place one (List.mem_range.1 oneMember),
      place other (List.mem_range.1 otherMember)]
    omega
  refine ⟨fun index lower upper other => ?_, ?_, ?_, ?_⟩
  · rw [word index (by omega), general index lower upper other]
    exact Nat.mod_eq_of_lt (registers index)
  · rw [word 2 (by decide), own]
    exact Nat.mod_eq_of_lt (by omega)
  · rw [word 32 (by decide), pc]
    exact Nat.mod_eq_of_lt sepc
  · rw [word 33 (by decide), status]
    exact Nat.mod_eq_of_lt sstatus

end

@[simp]
theorem trapEntry_satp (cpu : Cpu) (returnAddress scause : Nat) :
    (cpu.trapEntry returnAddress scause).satp = cpu.satp := by
  simp [trapEntry, set]

@[simp]
theorem retFromFork_mem (cpu : Cpu) : cpu.retFromFork.mem = cpu.mem := by
  simp [retFromFork, loadRegisters, set]

@[simp]
theorem retFromFork_satp (cpu : Cpu) : cpu.retFromFork.satp = cpu.satp := by
  simp [retFromFork, loadRegisters, set]

/-- Without a stack in `sscratch` the return stays on the kernel stack. -/
theorem retFromFork_kernel {cpu : Cpu} (kernel : cpu.sscratch = 0) :
    cpu.retFromFork.sscratch = 0 ∧
      cpu.retFromFork.x 2 =
        offset (load cpu.mem (offset (cpu.x 2) (8 * 2))) frameSize := by
  simp [retFromFork, loadRegisters, set, switchStack, swap, kernel]

section

variable {cpu : Cpu} {base : Nat} {context : Context}
    (sp : cpu.x 2 = base) (room : base + frameSize < 2 ^ 64)
    (user : cpu.sscratch ≠ 0)

include sp room user

/-- The return ends on the stack of `sscratch`, above the frame popped. -/
theorem retFromFork_stacks (own : load cpu.mem (base + 8 * 2) = base) :
    cpu.retFromFork.x 2 = cpu.sscratch ∧
      cpu.retFromFork.sscratch = base + frameSize := by
  have place : offset base (8 * 2) = base + 8 * 2 :=
    offset_eq (by simp only [frameSize] at room; omega)
  have top : offset base frameSize = base + frameSize := offset_eq room
  rw [retFromFork, switchStack_of_ne (by simpa [set, loadRegisters] using user)]
  simp [swap, set, loadRegisters, sp, place, own, top]

/-- The return restores the context in the frame. -/
theorem retFromFork_matches (frame : FrameHolds cpu.mem base context)
    (stack : cpu.sscratch = context.x 2) :
    Matches cpu.retFromFork context := by
  have place (slot : Nat) (small : slot < 34) :
      offset base (8 * slot) = base + 8 * slot :=
    offset_eq (by simp only [frameSize] at room; omega)
  refine ⟨fun index lower upper => ?_, ?_, ?_⟩
  · by_cases other : index = 2
    · rw [other, (retFromFork_stacks sp room user frame.stack).1, stack]
    · rw [retFromFork,
        switchStack_of_ne (by simpa [set, loadRegisters] using user)]
      simp [swap, set, loadRegisters, sp, other, upper,
        Nat.one_le_iff_ne_zero.1 lower, place index (by omega),
        frame.registers index lower upper other, Nat.one_le_iff_ne_zero]
  · rw [retFromFork,
      switchStack_of_ne (by simpa [set, loadRegisters] using user)]
    simpa [swap, set, loadRegisters, sp, place 32 (by decide)]
      using frame.sepc
  · rw [retFromFork,
      switchStack_of_ne (by simpa [set, loadRegisters] using user)]
    simpa [swap, set, loadRegisters, sp, place 33 (by decide)]
      using frame.sstatus

end

/-! ## The words of `thread` are restored as they were saved -/

/-- A word of `thread` in a task structure. -/
def threadWord (mem : Bytes) (task slot : Nat) : Nat :=
  load mem (task + 32 + 8 * slot)

theorem threadSlot_eq {task slot : Nat} (small : slot < 17)
    (room : task + 168 < 2 ^ 64) :
    threadSlot task slot = task + 32 + 8 * slot := by
  rw [threadSlot, offset_eq (by omega), Nat.add_assoc]

theorem mem_threadOrder {slot : Nat} : slot ∈ threadOrder ↔ slot < 17 := by
  simp only [threadOrder, List.mem_append, List.mem_range', List.mem_cons,
    List.not_mem_nil, or_false]
  constructor
  · rintro (⟨step, small, equal⟩ | other) <;> omega
  · intro small
    by_cases callee : 2 ≤ slot ∧ slot < 14
    · exact .inl ⟨slot - 2, by omega, by omega⟩
    · omega

theorem switchTo_outside {cpu : Cpu} {address : Nat}
    (room : cpu.x 10 + 168 < 2 ^ 64)
    (outside : address < cpu.x 10 + 32 ∨ cpu.x 10 + 168 ≤ address) :
    cpu.switchTo.mem address = cpu.mem address := by
  refine Bytes.putSlots_outside fun slot member => ?_
  have small := mem_threadOrder.1 member
  rw [threadSlot_eq small room]
  omega

/-- The words of the task that is left. -/
theorem switchTo_saved {cpu : Cpu} {slot : Nat} (small : slot < 17)
    (room : cpu.x 10 + 168 < 2 ^ 64) :
    threadWord cpu.switchTo.mem (cpu.x 10) slot =
      cpu.threadValue slot % 2 ^ 64 := by
  rw [threadWord, ← threadSlot_eq small room]
  refine Bytes.littleEndian_putSlots (mem_threadOrder.2 small)
    fun one oneMember other otherMember different => ?_
  rw [threadSlot_eq (mem_threadOrder.1 oneMember) room,
    threadSlot_eq (mem_threadOrder.1 otherMember) room]
  omega

/-- The registers of the task that is entered. -/
theorem switchTo_loaded {cpu : Cpu} {index slot : Nat}
    (source : threadSource index = some slot) (small : slot < 17)
    (room : cpu.x 11 + 168 < 2 ^ 64) :
    cpu.switchTo.x index = threadWord cpu.switchTo.mem (cpu.x 11) slot := by
  simp only [switchTo, source, threadSlot_eq small room]
  rfl

theorem switchTo_sscratch {cpu : Cpu} (room : cpu.x 11 + 168 < 2 ^ 64) :
    cpu.switchTo.sscratch = threadWord cpu.switchTo.mem (cpu.x 11) 16 := by
  rw [threadWord, ← threadSlot_eq (by decide) room]
  rfl

@[simp]
theorem switchTo_satp (cpu : Cpu) : cpu.switchTo.satp = cpu.satp := rfl

theorem threadWord_congr {left right : Bytes} {task slot : Nat}
    (small : slot < 17)
    (agree : ∀ address, task + 32 ≤ address → address < task + 168 →
      right address = left address) :
    threadWord right task slot = threadWord left task slot :=
  load_congr fun address _ _ => agree address (by omega) (by omega)

end Cpu

end TinyRiscvOs.Trap
