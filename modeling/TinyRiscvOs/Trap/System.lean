import TinyRiscvOs.Lib.Run
import TinyRiscvOs.Trap.Entry

/-!
# Tasks that trap, switch and fork

The tasks of the kernel take turns on one hart.  A user program may do
anything to its registers and its memory before it traps.  The C code below
`trap_handler` keeps the calling convention and its frames lie on the stack of
its task; only what it stores through an argument it does not check may lie
anywhere.  `task_struct` and the kernel stack share a page.
-/

namespace TinyRiscvOs.Trap

open TinyRiscvOs.Lib
open TinyRiscvOs.Vm
open TinyRiscvOs.Mm (vmStart)

/-! ## Code addresses -/

/-- Where the image has the code that `ra` points to. -/
structure Labels where
  dummy : Nat
  retFromFork : Nat
  /-- The instruction behind the call of `__switch_to` in `switch_to`. -/
  afterSwitch : Nat
  dummy_lt : dummy < 2 ^ 64
  retFromFork_lt : retFromFork < 2 ^ 64
  afterSwitch_lt : afterSwitch < 2 ^ 64
  dummy_ne_retFromFork : dummy ≠ retFromFork
  afterSwitch_ne_dummy : afterSwitch ≠ dummy
  afterSwitch_ne_retFromFork : afterSwitch ≠ retFromFork

/-! ## The page of a task -/

/-- `PGSIZE`. -/
abbrev pageSize : Nat := 0x1000

/-- `PHY_SIZE`. -/
abbrev phySize : Nat := 128 * 1024 * 1024

/-- Where `task_struct` ends and the kernel stack may begin. -/
abbrev stackFloor : Nat := 192

/-- `SSTATUS_SUM`. -/
abbrev sstatusSum : Nat := 1 <<< 18

/-- A page of the direct mapping. -/
def KernelPage (page : Nat) : Prop :=
  vmStart ≤ page ∧ page + pageSize ≤ vmStart + phySize

instance (page : Nat) : Decidable (KernelPage page) :=
  inferInstanceAs (Decidable (_ ∧ _))

/-- Two pages that do not meet. -/
def PagesApart (left right : Nat) : Prop :=
  left + pageSize ≤ right ∨ right + pageSize ≤ left

instance (left right : Nat) : Decidable (PagesApart left right) :=
  inferInstanceAs (Decidable (_ ∨ _))

/-- The bytes of a task that have to outlive its turn: `thread`, `files`,
`pgd`, `mm` and the kernel stack. -/
def Saved (page address : Nat) : Prop :=
  page + 32 ≤ address ∧ address < page + pageSize

/-- The field `pgd`. -/
def pgdOf (mem : Bytes) (page : Nat) : Nat :=
  load mem (page + 176)

/-- What `switch_mm` writes to `satp`. -/
def satpOf (pgd : Nat) : Nat :=
  ((pgd >>> 12) &&& ppnMask) ||| (8 <<< 60)

/-! ## Causes -/

/-- What `trap_handler` calls. -/
inductive Cause where
  | timer
  | pageFault
  | syscall
  | unknown
deriving DecidableEq, Repr

/-- The case distinction of `trap_handler`. -/
def causeOf (scause : Nat) : Cause :=
  let interrupt := (scause >>> 63) &&& 1
  let exceptionCode := scause &&& 0x7FFFFFFF
  if interrupt ≠ 0 then .timer
  else if exceptionCode = 13 ∨ exceptionCode = 15 ∨ exceptionCode = 12 then
    .pageFault
  else if exceptionCode = 8 then .syscall
  else .unknown

/-! ## States -/

/-- A frame that `_traps` pushed, and whether its system call has returned. -/
structure Frame where
  base : Nat
  cause : Cause
  answered : Bool

/-- What a caller of `__switch_to` expects to find again. -/
structure Call where
  x : Nat → Nat
  mem : Bytes

/-- What a task is doing. -/
inductive Phase where
  /-- Its program runs, or is about to run its next instruction. -/
  | user
  /-- The C code below `trap_handler`, under the innermost frame first. -/
  | handler (frames : List Frame)
  /-- Inside `__switch_to`. -/
  | asleep (frames : List Frame) (call : Call)
  /-- Set up by `task_init`. -/
  | fresh
  /-- Set up by `do_fork`. -/
  | forked
  /-- No code of the kernel is where the hart continues. -/
  | lost

/-- Whether the program of the task runs. -/
def Phase.isUser : Phase → Bool
  | .user => true
  | _ => false

theorem Phase.eq_user {phase : Phase} (isUser : phase.isUser = true) :
    phase = .user := by
  cases phase with
  | user => rfl
  | _ => exact absurd isUser Bool.false_ne_true

/-- The hart and the tasks.  `due` is the context each task has to return to:
it is not data of the kernel. -/
structure Sys where
  cpu : Cpu
  page : Nat → Nat
  count : Nat
  current : Nat
  phase : Nat → Phase
  due : Nat → Option Cpu.Context

/-- The context after a system call with this result. -/
def Cpu.Context.answer (context : Cpu.Context) (result : Option Nat) :
    Cpu.Context where
  x :=
    match result with
    | some value => Function.update context.x 10 value
    | none => context.x
  sepc := offset context.sepc 4
  sstatus := context.sstatus

/-- What happens next. -/
inductive Event where
  /-- The program ran and trapped. -/
  | trap (x : Nat → Nat) (sepc sstatus scause : Nat) (mem : Bytes)
  /-- The C code of the handler faulted. -/
  | nested (x : Nat → Nat) (sepc sstatus scause : Nat)
  /-- The C code stored to its stack and to data of the kernel. -/
  | work (mem : Bytes)
  /-- `sys_read` stored to its buffer. -/
  | read (data : List Byte)
  /--
  A system call stored through a number that the program chose: `printk` for
  `%n`, `sys_openat` the upper-case letters of its path and the copy of it,
  `sys_close`, `sys_read`, `sys_write` and `sys_seek` into the descriptor.
  -/
  | stray (address : Nat) (data : List Byte)
  /-- `stdout_write` or `stderr_write` filled `to_print`. -/
  | toPrint (top : Nat) (data : List Byte)
  /-- The system call stored its result, if any, and `sepc` was advanced. -/
  | answer (result : Option Nat)
  /-- `do_fork` with the pages and the list of areas of the child. -/
  | fork (page pgd mmap : Nat)
  /-- `switch_to` with the registers at the call of `__switch_to`. -/
  | switch (next : Nat) (x : Nat → Nat)
  /-- `trap_handler` returned. -/
  | finish
  /-- A call through a word that is not one of the handlers. -/
  | wild

/-- Bytes stored from an address on. -/
def storeBytes (mem : Bytes) (start : Nat) (data : List Byte) : Bytes :=
  fun address =>
    if address < 2 ^ 64 ∧ below address start < data.length then
      data.getD (below address start) 0
    else mem address

/-- `to_print` lies at the top of what is free, on a 16-byte boundary. -/
def toPrintBase (top length : Nat) : Nat :=
  below top ((length + 1 + 15) / 16 * 16)

namespace Sys

/-! ## Steps -/

/-- The frames of the running handler. -/
def frames (s : Sys) : List Frame :=
  match s.phase s.current with
  | .handler frames => frames
  | _ => []

/-- The registers of a system call. -/
def regs (s : Sys) : Nat :=
  (s.frames.head?.map Frame.base).getD 0

/-- The memory of the hart replaced. -/
def withMem (s : Sys) (mem : Bytes) : Sys :=
  { s with cpu := { s.cpu with mem } }

/-- The phase of the running task replaced. -/
def enter (s : Sys) (phase : Phase) : Sys :=
  { s with phase := Function.update s.phase s.current phase }

/-- A trap of the program. -/
def trap (labels : Labels) (s : Sys) (x : Nat → Nat)
    (sepc sstatus scause : Nat) (mem : Bytes) : Sys :=
  let cpu := { s.cpu with x, sepc, sstatus, mem }
  let cpu := cpu.trapEntry labels.retFromFork scause
  let s := { s with
    cpu
    due := Function.update s.due s.current (some ⟨x, sepc, sstatus⟩) }
  s.enter (.handler [⟨cpu.x 2, causeOf scause, false⟩])

/-- A trap of the C code of a handler. -/
def nested (labels : Labels) (s : Sys) (x : Nat → Nat)
    (sepc sstatus scause : Nat) : Sys :=
  let cpu := { s.cpu with x, sepc, sstatus }
  let cpu := cpu.trapEntry labels.retFromFork scause
  let s := { s with cpu }
  s.enter (.handler (⟨cpu.x 2, causeOf scause, false⟩ :: s.frames))

/-- `regs->x[REG_IDX_A0] = result; regs->sepc += 4`. -/
def answerMem (mem : Bytes) (regs : Nat) (result : Option Nat) : Bytes :=
  let mem :=
    match result with
    | some value => store mem (regs + 8 * 10) value
    | none => mem
  store mem (regs + 8 * 32) (offset (load mem (regs + 8 * 32)) 4)

/-- The system call of the innermost frame returns. -/
def answer (s : Sys) (result : Option Nat) : Sys :=
  let s := { s.withMem (answerMem s.cpu.mem s.regs result) with
    due := Function.update s.due s.current
      ((s.due s.current).map fun context : Cpu.Context =>
        context.answer result) }
  match s.frames with
  | frame :: rest => s.enter (.handler ({ frame with answered := true } :: rest))
  | [] => s

/-- What `do_fork` does to the page of the child. -/
def forkMem (labels : Labels) (mem : Bytes) (current regs sscratch count : Nat)
    (child pgd mmap : Nat) : Bytes :=
  let mem := Bytes.copy mem child mem current pageSize
  let mem := store mem (child + 24) count
  let mem := store mem (child + 184) mmap
  let mem := store mem (child + 176) pgd
  let spOffset := current + pageSize - regs
  let childRegs := child + pageSize - spOffset
  let mem := store mem (child + 32) labels.retFromFork
  let mem := store mem (child + 40) childRegs
  let mem := store mem (child + 32 + 8 * 15) sstatusSum
  let mem := store mem (child + 32 + 8 * 16) sscratch
  let mem := store mem (childRegs + 8 * 2) childRegs
  let mem := store mem (childRegs + 8 * 10) 0
  store mem (childRegs + 8 * 32) (offset (load mem (childRegs + 8 * 32)) 4)

/-- `do_fork`. -/
def fork (labels : Labels) (s : Sys) (child pgd mmap : Nat) : Sys :=
  let mem := forkMem labels s.cpu.mem (s.page s.current) s.regs s.cpu.sscratch
    s.count child pgd mmap
  let due := (s.due s.current).map fun context : Cpu.Context =>
    context.answer (some 0)
  { s.withMem mem with
    page := Function.update s.page s.count child
    count := s.count + 1
    phase := Function.update s.phase s.count .forked
    due := Function.update s.due s.count due }

/-- The convention that a caller of `__switch_to` relies on. -/
def Resumes (frames : List Frame) (call : Call) (cpu : Cpu) : Prop :=
  cpu.x 2 = call.x 2 ∧
    (∀ index < 12, cpu.x (Cpu.calleeSaved index) =
      call.x (Cpu.calleeSaved index)) ∧
    ∀ frame ∈ frames, ∀ distance < frame.base - call.x 2,
      cpu.mem (call.x 2 + distance) = call.mem (call.x 2 + distance)

instance (frames : List Frame) (call : Call) (cpu : Cpu) :
    Decidable (Resumes frames call cpu) := by
  unfold Resumes
  infer_instance

/-- Where the `ret` of `__switch_to` leads. -/
def arrive (labels : Labels) (cpu : Cpu) (phase : Phase) : Cpu × Phase :=
  if cpu.x 1 = labels.dummy then (cpu.dummy, .user)
  else if cpu.x 1 = labels.retFromFork then (cpu.retFromFork, .user)
  else
    match phase with
    | .asleep frames call =>
        if cpu.x 1 = labels.afterSwitch ∧ Resumes frames call cpu then
          (cpu, .handler frames)
        else (cpu, .lost)
    | _ => (cpu, .lost)

/-- `switch_to`. -/
def switch (labels : Labels) (s : Sys) (next : Nat) (x : Nat → Nat) : Sys :=
  if next = s.current then s
  else
    let s' := s.enter (.asleep s.frames ⟨x, s.cpu.mem⟩)
    let satp := satpOf (pgdOf s.cpu.mem (s.page next))
    let cpu := { s.cpu with x, satp }
    let arrived := arrive labels cpu.switchTo (s'.phase next)
    { s' with
      cpu := arrived.1
      current := next
      phase := Function.update s'.phase next arrived.2 }

/-- `trap_handler` returns to `_traps` with the stack pointer it was given. -/
def finish (s : Sys) : Sys :=
  let s := { s with cpu := (s.cpu.set 2 s.regs).retFromFork }
  match s.frames with
  | [] => s
  | [_] => s.enter .user
  | _ :: rest => s.enter (.handler rest)

/-- What an event does. -/
def apply (labels : Labels) (s : Sys) : Event → Sys
  | .trap x sepc sstatus scause mem => s.trap labels x sepc sstatus scause mem
  | .nested x sepc sstatus scause => s.nested labels x sepc sstatus scause
  | .work mem => s.withMem mem
  | .read data =>
      s.withMem
        (storeBytes s.cpu.mem (load s.cpu.mem (s.regs + 8 * 11)) data)
  | .stray address data => s.withMem (storeBytes s.cpu.mem address data)
  | .toPrint top data =>
      s.withMem
        (storeBytes s.cpu.mem (toPrintBase top data.length) (data ++ [0]))
  | .answer result => s.answer result
  | .fork page pgd mmap => s.fork labels page pgd mmap
  | .switch next x => s.switch labels next x
  | .finish => s.finish
  | .wild => s.enter .lost

/-- The handler runs a system call that has not returned. -/
def InSyscall (s : Sys) : Prop :=
  ∃ frame rest, s.phase s.current = .handler (frame :: rest) ∧
    frame.cause = .syscall ∧ frame.answered = false

/-- A stack pointer of the C code of the running task. -/
def OnStack (s : Sys) (sp : Nat) : Prop :=
  s.page s.current + stackFloor ≤ sp ∧ sp ≤ s.regs

/-- When an event may happen. -/
def legal (labels : Labels) (s : Sys) : Event → Prop
  | .trap x sepc sstatus _ mem =>
      s.phase s.current = .user ∧ (∀ index, x index < 2 ^ 64) ∧
        sepc < 2 ^ 64 ∧ sstatus < 2 ^ 64 ∧
        ∀ address, userEnd ≤ address → mem address = s.cpu.mem address
  | .nested x sepc sstatus scause =>
      s.InSyscall ∧ s.OnStack (x 2) ∧ (∀ index, x index < 2 ^ 64) ∧
        sepc < 2 ^ 64 ∧ sstatus < 2 ^ 64 ∧ causeOf scause = .pageFault
  | .work mem =>
      (∃ frames, s.phase s.current = .handler frames) ∧
        ∀ task < s.count, ∀ address, Saved (s.page task) address →
          (task = s.current →
            ¬ (s.page task + stackFloor ≤ address ∧ address < s.regs)) →
          mem address = s.cpu.mem address
  | .read data =>
      s.InSyscall ∧ data.length ≤ load s.cpu.mem (s.regs + 8 * 12)
  | .stray address _ => s.InSyscall ∧ address < 2 ^ 64
  | .toPrint top data =>
      s.InSyscall ∧ s.OnStack top ∧
        data.length = load s.cpu.mem (s.regs + 8 * 12)
  | .answer result => s.InSyscall ∧ ∀ value ∈ result, value < 2 ^ 64
  | .fork page pgd mmap =>
      s.InSyscall ∧ KernelPage page ∧
        (∀ task < s.count, PagesApart (s.page task) page) ∧
        pgd < 2 ^ 64 ∧ mmap < 2 ^ 64
  | .switch next x =>
      ((s.phase s.current = .handler [] ∧ s.current = 0) ∨
        ∃ frame rest, s.phase s.current = .handler (frame :: rest) ∧
          frame.cause = .timer ∧ s.OnStack (x 2)) ∧
        next < s.count ∧ next ≠ 0 ∧ (∀ index, x index < 2 ^ 64) ∧
        x 1 = labels.afterSwitch ∧ x 10 = s.page s.current ∧
        x 11 = s.page next
  | .finish =>
      ∃ frame rest, s.phase s.current = .handler (frame :: rest) ∧
        frame.cause ≠ .unknown ∧
        (frame.cause = .syscall → frame.answered = true)
  | .wild => s.InSyscall

/-- One step. -/
def step (labels : Labels) (s : Sys) (event : Event) (next : Sys) : Prop :=
  s.legal labels event ∧ next = s.apply labels event

/-! ## The start -/

/-- A task that `task_init` set up. -/
structure SetUp (labels : Labels) (mem : Bytes) (page : Nat) : Prop where
  ra : Cpu.threadWord mem page 0 = labels.dummy
  sp : Cpu.threadWord mem page 1 = page + pageSize
  sstatus : Cpu.threadWord mem page 15 = sstatusSum
  sscratch : Cpu.threadWord mem page 16 = userEnd

/-- `start_kernel` calls `schedule` for the first time. -/
structure Started (labels : Labels) (s : Sys) : Prop where
  current : s.current = 0
  some_task : 0 < s.count
  pages : ∀ task < s.count, KernelPage (s.page task)
  apart : ∀ task < s.count, ∀ other < s.count, task ≠ other →
    PagesApart (s.page task) (s.page other)
  idle : s.phase 0 = .handler []
  fresh : ∀ task < s.count, task ≠ 0 →
    s.phase task = .fresh ∧ s.due task = none ∧
      SetUp labels s.cpu.mem (s.page task)

end Sys

end TinyRiscvOs.Trap
