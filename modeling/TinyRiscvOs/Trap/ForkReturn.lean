import TinyRiscvOs.Trap.Context

/-!
# The two returns of `do_fork`

The caller of `do_fork` may have its frame anywhere on its kernel stack: the
frame of the child is at the same distance from the end of its page.  The
caller returns through `syscall_handler` and `_traps`, the child through
`__switch_to` and `__ret_from_fork`, and both pop the words that the trap of
the caller has pushed.
-/

namespace TinyRiscvOs.Trap

open TinyRiscvOs.Lib
open TinyRiscvOs.Vm
open TinyRiscvOs.Mm (vmStart)
open Cpu

namespace Sys

/-! ## Frames at any place -/

/-- The address of the frame of the child. -/
def childFrame (page regs child : Nat) : Nat :=
  child + pageSize - (page + pageSize - regs)

/-- The pages of the two tasks, and a frame in the page of the first one. -/
structure ForkPages (page regs child : Nat) : Prop where
  kernel : KernelPage page
  kernelChild : KernelPage child
  apart : PagesApart page child
  lower : page ≤ regs
  upper : regs + frameSize ≤ page + pageSize

theorem ForkPages.childFrame_eq {page regs child : Nat}
    (pages : ForkPages page regs child) :
    childFrame page regs child = child + (regs - page) := by
  have lower := pages.lower
  have upper := pages.upper
  simp only [childFrame, pageSize, frameSize] at *
  omega

section Stores

variable {labels : Labels} {mem : Bytes}
    {page regs child sscratch count pgd mmap : Nat}

/-- The stores into the task structure of the child and into its frame. -/
theorem forkMem_eq_answer :
    ∃ before, (∀ address, address < child ∨ child + pageSize ≤ address →
        before address = mem address) ∧
      (∀ address, child + stackFloor ≤ address →
        address < child + pageSize →
        before address = mem (page + (address - child))) ∧
      load before (child + 24) = count % 2 ^ 64 ∧
      load before (child + 168) = load mem (page + 168) ∧
      threadWord before child 0 = labels.retFromFork % 2 ^ 64 ∧
      threadWord before child 1 = childFrame page regs child % 2 ^ 64 ∧
      threadWord before child 16 = sscratch % 2 ^ 64 ∧
      forkMem labels mem page regs sscratch count child pgd mmap =
        answerMem (store before (childFrame page regs child + 8 * 2)
          (childFrame page regs child)) (childFrame page regs child)
          (some 0) := by
  refine ⟨_, ?_, ?_, ?_, ?_, ?_, ?_, ?_, rfl⟩
  · intro address outside
    simp only [pageSize] at outside
    repeat rw [store_outside (by omega)]
    exact Bytes.copy_outside (by simp only [pageSize]; omega)
  · intro address lower upper
    simp only [stackFloor] at lower
    repeat rw [store_outside (by omega)]
    exact Bytes.copy_inside (by omega) upper
  · repeat rw [load_store_of_disjoint (by omega)]
    exact load_store _ _ _
  · repeat rw [load_store_of_disjoint (by omega)]
    refine Bytes.littleEndian_shift fun index near => ?_
    rw [Bytes.copy_inside (by omega) (by simp only [pageSize]; omega)]
    congr 1
    omega
  · simp only [threadWord]
    rw [load_store_of_disjoint (by omega), load_store_of_disjoint (by omega),
      load_store_of_disjoint (by omega)]
    exact load_store _ _ _
  · simp only [threadWord]
    rw [load_store_of_disjoint (by omega), load_store_of_disjoint (by omega)]
    exact load_store _ _ _
  · exact load_store _ _ _

/-- `do_fork` stores into the page of the child only. -/
theorem forkMem_elsewhere (pages : ForkPages page regs child) {address : Nat}
    (outside : address < child ∨ child + pageSize ≤ address) :
    forkMem labels mem page regs sscratch count child pgd mmap address =
      mem address := by
  obtain ⟨before, kept, -, -, -, -, -, -, eq⟩ := @forkMem_eq_answer labels mem
    page regs child sscratch count pgd mmap
  have place := pages.childFrame_eq
  have lower := pages.lower
  have upper := pages.upper
  have away : address < childFrame page regs child ∨
      childFrame page regs child + frameSize ≤ address := by
    simp only [pageSize, frameSize] at *
    omega
  rw [eq, answerMem_outside away, store_outside (by
    simp only [frameSize] at away
    omega), kept address outside]

/-- The words of `thread` are not words of the frame. -/
theorem forkMem_below_frame (pages : ForkPages page regs child)
    (above : page + stackFloor ≤ regs) {before : Bytes} {address : Nat}
    (below : address + 8 ≤ child + stackFloor) :
    load (answerMem (store before (childFrame page regs child + 8 * 2)
        (childFrame page regs child)) (childFrame page regs child) (some 0))
      address = load before address := by
  have place := pages.childFrame_eq
  refine load_congr fun other lower upper => ?_
  simp only [stackFloor] at above below
  rw [answerMem_outside (.inl (by omega)), store_outside (.inl (by omega))]

/-- The pointer `files` of the child is the one of its parent. -/
theorem forkMem_files (pages : ForkPages page regs child)
    (above : page + stackFloor ≤ regs) :
    load (forkMem labels mem page regs sscratch count child pgd mmap)
      (child + 168) = load mem (page + 168) := by
  obtain ⟨before, -, -, -, files, -, -, -, eq⟩ := @forkMem_eq_answer labels mem
    page regs child sscratch count pgd mmap
  rw [eq, forkMem_below_frame pages above (by simp only [stackFloor]; omega),
    files]

/-- The frame of the child holds the context of the caller, with result `0`. -/
theorem forkMem_frame {context : Context} (pages : ForkPages page regs child)
    (above : page + stackFloor ≤ regs) (frame : FrameHolds mem regs context) :
    FrameHolds (forkMem labels mem page regs sscratch count child pgd mmap)
      (childFrame page regs child) (context.answer (some 0)) := by
  obtain ⟨before, -, copied, -, -, -, -, -, eq⟩ := @forkMem_eq_answer labels
    mem page regs child sscratch count pgd mmap
  have place := pages.childFrame_eq
  have lower := pages.lower
  have upper := pages.upper
  have room := pages.kernelChild.room
  simp only [stackFloor, pageSize, frameSize] at above upper room
  have word (slot : Nat) (small : slot < 34) :
      load before (childFrame page regs child + 8 * slot) =
        load mem (regs + 8 * slot) := by
    refine Bytes.littleEndian_shift fun index near => ?_
    rw [copied _ (by simp only [stackFloor]; omega)
      (by simp only [pageSize]; omega)]
    congr 1
    omega
  have other (slot : Nat) (small : slot < 34) (different : slot ≠ 2) :
      load (store before (childFrame page regs child + 8 * 2)
          (childFrame page regs child)) (childFrame page regs child + 8 * slot) =
        load mem (regs + 8 * slot) :=
    (load_store_of_disjoint (by omega)).trans (word slot small)
  rw [eq]
  refine answerMem_frame ⟨fun index lower upper different => ?_, ?_, ?_, ?_⟩
    fun value member => by
      rw [← Option.some.inj member]
      decide
  · rw [other index (by omega) different]
    exact frame.registers index lower upper different
  · rw [load_store, Nat.mod_eq_of_lt (by omega)]
  · rw [other 32 (by decide) (by decide)]
    exact frame.sepc
  · rw [other 33 (by decide) (by decide)]
    exact frame.sstatus

end Stores

/-! ## Both returns -/

/-- A call of `fork` by the program on `cpu`, whose frame is pushed at `regs`. -/
structure ForkCall where
  labels : Labels
  cpu : Cpu
  scause : Nat
  page : Nat
  regs : Nat
  child : Nat
  pid : Nat
  pgd : Nat
  mmap : Nat

namespace ForkCall

/-- The kernel stack, and numbers that fit their registers. -/
structure Proper (call : ForkCall) : Prop where
  pages : ForkPages call.page call.regs call.child
  stack : call.cpu.sscratch = call.regs + frameSize
  registers : ∀ index, call.cpu.x index < 2 ^ 64
  sepc : call.cpu.sepc < 2 ^ 64
  sstatus : call.cpu.sstatus < 2 ^ 64
  pid : call.pid < 2 ^ 64

/-- What the program left behind. -/
def context (call : ForkCall) : Context :=
  ⟨call.cpu.x, call.cpu.sepc, call.cpu.sstatus⟩

/-- The hart at the call of `trap_handler`. -/
def trapped (call : ForkCall) : Cpu :=
  call.cpu.trapEntry call.labels.retFromFork call.scause

/-- The memory after `do_fork`. -/
def forked (call : ForkCall) : Bytes :=
  forkMem call.labels call.trapped.mem call.page call.regs
    call.trapped.sscratch call.pid call.child call.pgd call.mmap

/-- The memory after `syscall_handler`. -/
def answered (call : ForkCall) : Bytes :=
  answerMem call.forked call.regs (some call.pid)

/-- The hart when `trap_handler` returns in the parent. -/
structure Returning (call : ForkCall) (back : Cpu) : Prop where
  mem : back.mem = call.answered
  sp : back.x 2 = call.regs
  sscratch : back.sscratch = call.trapped.sscratch

/-- The hart when some task switches to the child for the first time. -/
structure Entering (call : ForkCall) (later : Cpu) : Prop where
  prev : KernelPage (later.x 10)
  apart : PagesApart (later.x 10) call.child
  next : later.x 11 = call.child
  untouched : ∀ address, call.child ≤ address →
    address < call.child + pageSize → later.mem address = call.answered address

/--
The parent and the child go on behind the `ecall` with the registers and
`sstatus` of the caller but for `a0`, the frame of the child is where the
parent's is, and of the parent's page only `a0` and `sepc` in the frame change.
-/
structure ReturnsTwice (call : ForkCall) : Prop where
  parent : ∀ back, call.Returning back →
    Matches back.retFromFork (call.context.answer (some call.pid))
  child : ∀ later, call.Entering later →
    later.switchTo.x 1 = call.labels.retFromFork ∧
      later.switchTo.x 2 = call.child + (call.regs - call.page) ∧
      Matches later.switchTo.retFromFork (call.context.answer (some 0))
  kept : ∀ address, call.page ≤ address →
    address < call.page + pageSize →
    (address < call.regs + 8 * 10 ∨ call.regs + 8 * 10 + 8 ≤ address) →
    (address < call.regs + 8 * 32 ∨ call.regs + 8 * 32 + 8 ≤ address) →
    call.answered address = call.trapped.mem address

section

variable {call : ForkCall}

/-- The frame that the trap of the caller pushes. -/
theorem Proper.frame (proper : call.Proper) :
    FrameHolds call.trapped.mem call.regs call.context := by
  have room := proper.pages.kernel.room
  have upper := proper.pages.upper
  have pushed := @trapEntry_frame call.cpu (call.regs + frameSize)
    call.labels.retFromFork call.scause proper.stack (Nat.le_add_left _ _)
    (by omega) proper.registers proper.sepc proper.sstatus
  rwa [Nat.add_sub_cancel] at pushed

theorem Proper.sscratch (proper : call.Proper) :
    call.trapped.sscratch = call.cpu.x 2 :=
  trapEntry_sscratch proper.stack (Nat.le_add_left _ _)

/-- `do_fork` leaves the page of the parent alone. -/
theorem Proper.forked_parent (proper : call.Proper) {address : Nat}
    (lower : call.page ≤ address) (upper : address < call.page + pageSize) :
    call.forked address = call.trapped.mem address := by
  refine forkMem_elsewhere proper.pages ?_
  have apart := proper.pages.apart
  simp only [PagesApart] at apart
  omega

/-- The return value and the advanced `sepc` are all that changes. -/
theorem Proper.kept (proper : call.Proper) {address : Nat}
    (lower : call.page ≤ address) (upper : address < call.page + pageSize)
    (result : address < call.regs + 8 * 10 ∨
      call.regs + 8 * 10 + 8 ≤ address)
    (sepc : address < call.regs + 8 * 32 ∨
      call.regs + 8 * 32 + 8 ≤ address) :
    call.answered address = call.trapped.mem address := by
  rw [answered, answerMem, store_outside sepc, store_outside result,
    proper.forked_parent lower upper]

/-- The frame at the return of `trap_handler`. -/
theorem Proper.answered_frame (proper : call.Proper) :
    FrameHolds call.answered call.regs
      (call.context.answer (some call.pid)) := by
  have lower := proper.pages.lower
  have upper := proper.pages.upper
  refine answerMem_frame (proper.frame.congr fun address above below =>
    proper.forked_parent (by omega) (by omega)) fun value member => ?_
  rw [← Option.some.inj member]
  exact proper.pid

theorem Proper.parent (proper : call.Proper) (user : call.cpu.x 2 ≠ 0)
    {back : Cpu} (returning : call.Returning back) :
    Matches back.retFromFork (call.context.answer (some call.pid)) := by
  have room := proper.pages.kernel.room
  have upper := proper.pages.upper
  have sscratch : back.sscratch = call.cpu.x 2 :=
    returning.sscratch.trans proper.sscratch
  exact retFromFork_matches returning.sp (by omega) (sscratch ▸ user)
    (returning.mem ▸ proper.answered_frame)
    (sscratch.trans (answer_sp call.context _).symm)

/-- The page of the child as `__switch_to` leaves it. -/
theorem Proper.entered (proper : call.Proper) {later : Cpu}
    (entering : call.Entering later) {address : Nat}
    (lower : call.child ≤ address) (upper : address < call.child + pageSize) :
    later.switchTo.mem address = call.forked address := by
  have apart := entering.apart
  have room := entering.prev.room
  have parentApart := proper.pages.apart
  have inside := proper.pages.lower
  have outside := proper.pages.upper
  simp only [PagesApart, pageSize] at apart room parentApart upper outside
  rw [switchTo_outside (by omega) (by omega),
    entering.untouched address lower (by simp only [pageSize]; omega),
    answered, answerMem_outside (by omega)]

theorem Proper.child (proper : call.Proper) (user : call.cpu.x 2 ≠ 0)
    (above : call.page + stackFloor ≤ call.regs) {later : Cpu}
    (entering : call.Entering later) :
    later.switchTo.x 1 = call.labels.retFromFork ∧
      later.switchTo.x 2 = call.child + (call.regs - call.page) ∧
      Matches later.switchTo.retFromFork (call.context.answer (some 0)) := by
  have place := proper.pages.childFrame_eq
  have room := proper.pages.kernelChild.room
  have lower := proper.pages.lower
  have upper := proper.pages.upper
  simp only [pageSize, frameSize] at room upper
  obtain ⟨before, -, -, -, -, ra, sp, sscratch, eq⟩ := @forkMem_eq_answer
    call.labels call.trapped.mem call.page call.regs call.child
    call.trapped.sscratch call.pid call.pgd call.mmap
  have next : later.x 11 + 168 < 2 ^ 64 := by
    rw [entering.next]
    omega
  have word (slot : Nat) (small : slot < 17) :
      threadWord later.switchTo.mem (later.x 11) slot =
        threadWord before call.child slot := by
    rw [entering.next, threadWord_congr small fun address above below =>
      proper.entered entering (by omega) (by simp only [pageSize]; omega),
      forked, eq]
    exact forkMem_below_frame proper.pages above
      (by simp only [stackFloor]; omega)
  have stack : later.switchTo.x 2 = childFrame call.page call.regs call.child := by
    rw [switchTo_loaded (show threadSource 2 = some 1 from rfl) (by decide)
      next, word 1 (by decide), sp, Nat.mod_eq_of_lt (by omega)]
  have scratch : later.switchTo.sscratch = call.cpu.x 2 := by
    rw [switchTo_sscratch next, word 16 (by decide), sscratch, proper.sscratch,
      Nat.mod_eq_of_lt (proper.registers 2)]
  refine ⟨?_, stack.trans place, ?_⟩
  · rw [switchTo_loaded (show threadSource 1 = some 0 from rfl) (by decide)
      next, word 0 (by decide), ra,
      Nat.mod_eq_of_lt call.labels.retFromFork_lt]
  · have frame : FrameHolds call.forked
        (childFrame call.page call.regs call.child)
        (call.context.answer (some 0)) :=
      forkMem_frame proper.pages above proper.frame
    refine retFromFork_matches stack (by simp only [frameSize]; omega)
      (scratch ▸ user) (frame.congr fun address above below => ?_)
      (scratch.trans (answer_sp call.context _).symm)
    simp only [frameSize] at below
    exact proper.entered entering (by omega) (by simp only [pageSize]; omega)

end

end ForkCall

/--
`fork` returns twice with the same context, for every place of the frame above
`task_struct` and every content of the registers with a stack pointer.
-/
theorem fork_returns_twice {call : ForkCall} (proper : call.Proper)
    (above : call.page + stackFloor ≤ call.regs) (user : call.cpu.x 2 ≠ 0) :
    call.ReturnsTwice where
  parent _ returning := proper.parent user returning
  child _ entering := proper.child user above entering
  kept _ lower upper result sepc := proper.kept lower upper result sepc

/-! ## Where it does not -/

/-- A register that is popped is the word of the frame. -/
theorem retFromFork_register {cpu : Cpu} {index : Nat} (lower : 1 ≤ index)
    (upper : index < 32) (other : index ≠ 2) (user : cpu.sscratch ≠ 0) :
    cpu.retFromFork.x index = load cpu.mem (offset (cpu.x 2) (8 * index)) := by
  rw [retFromFork,
    switchStack_of_ne (by simpa [Cpu.set, loadRegisters] using user)]
  simp [swap, Cpu.set, loadRegisters, other, upper,
    Nat.one_le_iff_ne_zero.1 lower, Nat.one_le_iff_ne_zero]

/-- Words apart from the three that `do_fork` stores into the frame. -/
theorem load_answer_apart {before : Bytes} {base address : Nat}
    (stack : address + 8 ≤ base + 8 * 2 ∨ base + 8 * 2 + 8 ≤ address)
    (result : address + 8 ≤ base + 8 * 10 ∨ base + 8 * 10 + 8 ≤ address)
    (sepc : address + 8 ≤ base + 8 * 32 ∨ base + 8 * 32 + 8 ≤ address) :
    load (answerMem (store before (base + 8 * 2) base) base (some 0)) address =
      load before address := by
  rw [answerMem, load_store_of_disjoint sepc, load_store_of_disjoint result,
    load_store_of_disjoint stack]

namespace ForkCall

variable {call : ForkCall}

/-- A program without a stack pointer gets the one of the kernel. -/
theorem Proper.parent_zero (proper : call.Proper) (zero : call.cpu.x 2 = 0)
    {back : Cpu} (returning : call.Returning back) :
    back.retFromFork.x 2 = call.regs + frameSize := by
  have room := proper.pages.kernel.room
  have upper := proper.pages.upper
  simp only [pageSize, frameSize] at room upper
  have sscratch : back.sscratch = 0 :=
    (returning.sscratch.trans proper.sscratch).trans zero
  have place : offset call.regs (8 * 2) = call.regs + 8 * 2 :=
    offset_eq (by omega)
  rw [(retFromFork_kernel sscratch).2, returning.sp, returning.mem, place,
    proper.answered_frame.stack, offset_eq (by simp only [frameSize]; omega)]

/-- A frame at the start of the page is where the process number is. -/
theorem Proper.child_low (proper : call.Proper) (user : call.cpu.x 2 ≠ 0)
    (low : call.regs = call.page) {later : Cpu}
    (entering : call.Entering later) :
    later.switchTo.retFromFork.x 3 = call.pid := by
  have place : childFrame call.page call.regs call.child = call.child := by
    rw [proper.pages.childFrame_eq, low, Nat.sub_self, Nat.add_zero]
  have room := proper.pages.kernelChild.room
  simp only [pageSize] at room
  obtain ⟨before, -, -, pid, -, -, sp, sscratch, eq⟩ := @forkMem_eq_answer
    call.labels call.trapped.mem call.page call.regs call.child
    call.trapped.sscratch call.pid call.pgd call.mmap
  rw [place] at sp eq
  have next : later.x 11 + 168 < 2 ^ 64 := by
    rw [entering.next]
    omega
  have word {address : Nat} (lower : call.child ≤ address)
      (upper : address + 8 ≤ call.child + pageSize) :
      load later.switchTo.mem address =
        load (answerMem (store before (call.child + 8 * 2) call.child)
          call.child (some 0)) address := by
    rw [← eq]
    exact load_congr fun other above below =>
      proper.entered entering (by omega) (by omega)
  have stack : later.switchTo.x 2 = call.child := by
    rw [switchTo_loaded (show threadSource 2 = some 1 from rfl) (by decide)
      next, entering.next, threadWord,
      word (by omega) (by simp only [pageSize]; omega),
      load_answer_apart (by omega) (by omega) (by omega)]
    exact sp.trans (Nat.mod_eq_of_lt (by omega))
  have scratch : later.switchTo.sscratch = call.cpu.x 2 := by
    rw [switchTo_sscratch next, entering.next, threadWord,
      word (by omega) (by simp only [pageSize]; omega),
      load_answer_apart (by omega) (by omega) (by omega)]
    refine sscratch.trans ?_
    rw [proper.sscratch, Nat.mod_eq_of_lt (proper.registers 2)]
  rw [retFromFork_register (by decide) (by decide) (by decide)
    (scratch ▸ user), stack, offset_eq (by omega),
    word (by omega) (by simp only [pageSize]; omega),
    load_answer_apart (by omega) (by omega) (by omega)]
  exact pid.trans (Nat.mod_eq_of_lt proper.pid)

end ForkCall

/-! ## Calls of the first task -/

/-- The first task calls `fork` with this stack pointer and frame. -/
def exampleForkCall (sp regs : Nat) : ForkCall where
  labels := exampleLabels
  cpu :=
    { x := Function.update (fun _ => 0) 2 sp
      sepc := 0x100
      sstatus := 0
      sscratch := regs + frameSize
      satp := 0
      mem := fun _ => 0 }
  scause := 8
  page := examplePage 1
  regs
  child := examplePage 2
  pid := 2
  pgd := 0
  mmap := 0

theorem exampleForkCall_proper {sp regs : Nat} (small : sp < 2 ^ 64)
    (lower : examplePage 1 ≤ regs) (upper : regs ≤ frameBase (examplePage 1)) :
    (exampleForkCall sp regs).Proper := by
  have pages : KernelPage (examplePage 1) ∧ KernelPage (examplePage 2) ∧
      PagesApart (examplePage 1) (examplePage 2) := by
    decide
  have words : 0x100 < 2 ^ 64 ∧ 0 < 2 ^ 64 ∧ 2 < 2 ^ 64 := by decide
  refine ⟨⟨pages.1, pages.2.1, pages.2.2, lower, ?_⟩, rfl, fun index => ?_,
    words.1, words.2.1, words.2.2⟩
  · simp only [exampleForkCall, frameBase, pageSize, frameSize] at *
    omega
  · show Function.update (fun _ => 0) 2 sp index < 2 ^ 64
    rw [Function.update_apply]
    split
    · exact small
    · decide

theorem fork_returns_twice_example :
    (exampleForkCall 0x3000 (frameBase (examplePage 1))).ReturnsTwice :=
  fork_returns_twice
    (exampleForkCall_proper (by decide) (Nat.le_add_right _ _) (Nat.le_refl _))
    (by decide) (by decide)

/--
A program with stack pointer `0` goes on with the one of the kernel, and the
child of a caller whose frame lies on its `task_struct` gets another `gp`.
-/
theorem fork_not_always_returns_twice :
    (∃ call : ForkCall, call.Proper ∧ call.page + stackFloor ≤ call.regs ∧
      call.cpu.x 2 = 0 ∧ ¬ call.ReturnsTwice) ∧
    ∃ call : ForkCall, call.Proper ∧ call.cpu.x 2 ≠ 0 ∧
      call.regs = call.page ∧ ¬ call.ReturnsTwice := by
  constructor
  · have proper : (exampleForkCall 0 (frameBase (examplePage 1))).Proper :=
      exampleForkCall_proper (by decide) (Nat.le_add_right _ _)
        (Nat.le_refl _)
    refine ⟨_, proper, by decide, rfl, fun twice => ?_⟩
    have returning : ForkCall.Returning
        (exampleForkCall 0 (frameBase (examplePage 1)))
        { (exampleForkCall 0 (frameBase (examplePage 1))).trapped.set 2
            (frameBase (examplePage 1)) with
          mem := (exampleForkCall 0 (frameBase (examplePage 1))).answered } :=
      ⟨rfl, rfl, rfl⟩
    have sp := (twice.parent _ returning).registers 2 (by decide) (by decide)
    rw [proper.parent_zero rfl returning] at sp
    exact absurd sp (by decide)
  · have proper : (exampleForkCall 0x3000 (examplePage 1)).Proper :=
      exampleForkCall_proper (by decide) (Nat.le_refl _)
        (Nat.le_add_right _ _)
    refine ⟨_, proper, by decide, rfl, fun twice => ?_⟩
    have entering : ForkCall.Entering
        (exampleForkCall 0x3000 (examplePage 1))
        { x := Function.update (Function.update (fun _ => 0) 10
            (examplePage 0)) 11 (examplePage 2)
          sepc := 0
          sstatus := 0
          sscratch := 0
          satp := 0
          mem := (exampleForkCall 0x3000 (examplePage 1)).answered } :=
      ⟨by decide, by decide, rfl, fun _ _ _ => rfl⟩
    have gp := (twice.child _ entering).2.2.registers 3 (by decide) (by decide)
    rw [proper.child_low (by decide) rfl entering] at gp
    exact absurd gp (by decide)

end Sys

end TinyRiscvOs.Trap
