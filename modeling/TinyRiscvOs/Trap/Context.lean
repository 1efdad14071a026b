import TinyRiscvOs.Trap.Child

/-!
# Contexts across traps

Careful runs keep the frames of a task in its page and give every program its
registers back.  The two examples are a page fault inside a handler, whose
frame goes to the user stack, and a `sys_read` whose buffer is the caller's own
frame.
-/

namespace TinyRiscvOs.Trap

open TinyRiscvOs.Lib
open TinyRiscvOs.Vm
open TinyRiscvOs.Mm (vmStart)
open Cpu

namespace Sys

variable {labels : Labels} {s : Sys}

/-! ## Runs -/

theorem Started.inv (started : Started labels s) : Inv labels s where
  current := by
    rw [started.current]
    exact started.some_task
  pages := started.pages
  apart := started.apart
  running := by
    rw [started.current, started.idle]
    exact rfl
  waiting := fun task bound other => by
    rw [started.current] at other
    rcases started.fresh task bound other with ⟨fresh, noDue, setUp⟩
    rw [fresh]
    exact ⟨noDue, setUp⟩

/-- One careful step. -/
theorem Inv.step (inv : Inv labels s) {event : Event} {next : Sys}
    (taken : Guarded (step labels) Careful s event next) : Inv labels next := by
  rcases taken with ⟨⟨legal, rfl⟩, careful⟩
  cases event with
  | trap x sepc sstatus scause mem => exact inv.trap legal careful
  | nested x sepc sstatus scause => exact careful.elim
  | work mem =>
      rcases legal with ⟨⟨frames, handler⟩, agree⟩
      exact inv.withMem handler agree
  | read data =>
      rcases legal with ⟨⟨frame, rest, handler, _, _⟩, _⟩
      exact inv.storeBytes handler careful
  | stray address data =>
      rcases legal with ⟨⟨frame, rest, handler, _, _⟩, _⟩
      exact inv.storeBytes handler careful
  | toPrint top data =>
      rcases legal with ⟨⟨frame, rest, handler, _, _⟩, onStack, _⟩
      exact inv.toPrint handler onStack careful
  | answer result => exact inv.answer legal
  | fork page pgd mmap => exact inv.fork legal
  | switch next x => exact inv.switch legal
  | finish => exact inv.finish legal
  | wild => exact careful.elim

/-- Every careful run. -/
theorem Inv.run {start : Sys} {events : List Event}
    (started : Started labels start)
    (run : Run (Guarded (Sys.step labels) Careful) start events s) :
    Inv labels s :=
  run.invariant started.inv fun _ _ _ inv taken => inv.step taken

/-! ## A system with one program -/

/-- Labels in the text of the kernel. -/
def exampleLabels : Labels where
  dummy := vmStart + 0x200400
  retFromFork := vmStart + 0x200500
  afterSwitch := vmStart + 0x200600
  dummy_lt := by decide
  retFromFork_lt := by decide
  afterSwitch_lt := by decide
  dummy_ne_retFromFork := by decide
  afterSwitch_ne_dummy := by decide
  afterSwitch_ne_retFromFork := by decide

/-- The pages of `idle` and of the first task. -/
def examplePage (task : Nat) : Nat :=
  vmStart + 0x400000 + pageSize * task

/-- What `task_init` stores in `thread`. -/
def exampleMem : Bytes :=
  let page := examplePage 1
  let mem := store (fun _ => 0) (page + 32) exampleLabels.dummy
  let mem := store mem (page + 40) (page + pageSize)
  let mem := store mem (page + 32 + 8 * 15) sstatusSum
  store mem (page + 32 + 8 * 16) userEnd

/-- `start_kernel` after `task_init` made one task. -/
def exampleStart : Sys where
  cpu :=
    { x := fun _ => 0
      sepc := 0
      sstatus := 0
      sscratch := 0
      satp := 0
      mem := exampleMem }
  page := examplePage
  count := 2
  current := 0
  phase := Function.update (fun _ => .fresh) 0 (.handler [])
  due := fun _ => none

theorem exampleStart_started : Started exampleLabels exampleStart where
  current := rfl
  some_task := by decide
  pages := by decide
  apart := by decide
  idle := rfl
  fresh := fun task bound other => by
    have one : task = 1 := by
      have small : task < 2 := bound
      omega
    subst one
    exact ⟨rfl, rfl, by decide +kernel, by decide +kernel, by decide +kernel,
      by decide +kernel⟩

/-- The registers at the call of `__switch_to` in `start_kernel`. -/
def exampleSwitch (index : Nat) : Nat :=
  if index = 1 then exampleLabels.afterSwitch
  else if index = 10 then examplePage 0
  else if index = 11 then examplePage 1
  else 0

/-- `read(3, buf, 1)` with the word of `s1` in the caller's frame as `buf`. -/
def exampleRead (index : Nat) : Nat :=
  if index = 2 then 0x3000
  else if index = 10 then 3
  else if index = 11 then frameBase (examplePage 1) + 8 * 9
  else if index = 12 then 1
  else if index = 17 then 63
  else 0

/-- The first task runs. -/
def exampleRunning : Sys :=
  exampleStart.switch exampleLabels 1 exampleSwitch

/-- The first task called `sys_read`. -/
def exampleTrapped : Sys :=
  exampleRunning.trap exampleLabels exampleRead 0x100 0 8 exampleRunning.cpu.mem

/-- The events up to the system call. -/
def exampleEvents : List Event :=
  [.switch 1 exampleSwitch,
    .trap exampleRead 0x100 0 8 exampleRunning.cpu.mem]

theorem exampleRunning_user :
    exampleRunning.phase exampleRunning.current = .user :=
  Phase.eq_user (by decide +kernel)

theorem exampleTrapped_handler :
    exampleTrapped.phase exampleTrapped.current =
      .handler [⟨exampleTrapped.cpu.x 2, .syscall, false⟩] :=
  trap_handler exampleRunning exampleRead 0x100 0 8 exampleRunning.cpu.mem

theorem example_small (value : Nat → Nat) (zero : ∀ index, 18 ≤ index →
      value index = 0) (low : ∀ index < 18, value index < 2 ^ 64)
    (index : Nat) : value index < 2 ^ 64 := by
  by_cases small : index < 18
  · exact low index small
  · rw [zero index (by omega)]
    decide

theorem exampleRun :
    Run (Guarded (Sys.step exampleLabels) Careful) exampleStart exampleEvents
      exampleTrapped := by
  have first : Guarded (Sys.step exampleLabels) Careful exampleStart
      (.switch 1 exampleSwitch) exampleRunning := by
    refine ⟨⟨⟨.inl ⟨rfl, rfl⟩, by decide, by decide, ?_, by decide, by decide,
      by decide⟩, rfl⟩, trivial⟩
    refine example_small _ (fun index high => ?_) (by decide)
    simp [exampleSwitch, show index ≠ 1 by omega, show index ≠ 10 by omega,
      show index ≠ 11 by omega]
  have second : Guarded (Sys.step exampleLabels) Careful exampleRunning
      (.trap exampleRead 0x100 0 8 exampleRunning.cpu.mem) exampleTrapped := by
    refine ⟨⟨⟨exampleRunning_user, ?_, by decide, by decide,
      fun _ _ => rfl⟩, rfl⟩, ?_⟩
    · refine example_small _ (fun index high => ?_) (by decide)
      simp [exampleRead, show index ≠ 2 by omega, show index ≠ 10 by omega,
        show index ≠ 11 by omega, show index ≠ 12 by omega,
        show index ≠ 17 by omega]
    · show exampleRead 2 ≠ 0
      decide
  exact .cons first (.single second)

/-! ## Trap frames -/

/-- The frames of the running task lie in its page, and a program that runs has
its own stack pointer and the kernel's in `sscratch`. -/
def FramesInside (s : Sys) : Prop :=
  (∀ frames, s.phase s.current = .handler frames → ∀ frame ∈ frames,
    s.page s.current ≤ frame.base ∧
      frame.base + frameSize ≤ s.page s.current + pageSize) ∧
    (s.phase s.current = .user →
      s.cpu.x 2 = userSp (s.due s.current) ∧
        s.cpu.sscratch = s.page s.current + pageSize)

theorem Inv.framesInside (inv : Inv labels s) : FramesInside s := by
  constructor
  · intro frames handler frame member
    match frames, member with
    | first :: rest, member =>
        rcases inv.single_frame handler with ⟨rfl, base, _, _⟩
        have same : frame = first := List.mem_singleton.1 member
        rw [same, base]
        exact ⟨Nat.le_add_right _ _, Nat.le_refl _⟩
  · intro user
    have running := inv.running
    rw [user] at running
    exact ⟨running.2.1, running.1⟩

/-- In a careful run every trap frame is pushed on the kernel stack. -/
theorem frames_inside {start : Sys} {events : List Event}
    (started : Started labels start)
    (run : Run (Guarded (step labels) Careful) start events s) :
    FramesInside s :=
  (Inv.run started run).framesInside

theorem frames_inside_trapped : FramesInside exampleTrapped :=
  frames_inside exampleStart_started exampleRun

theorem nested_handler (s : Sys) (x : Nat → Nat) (sepc sstatus scause : Nat) :
    (s.nested labels x sepc sstatus scause).phase
        (s.nested labels x sepc sstatus scause).current =
      .handler (⟨(s.nested labels x sepc sstatus scause).cpu.x 2,
        causeOf scause, false⟩ :: s.frames) := by
  simp only [Sys.nested, Sys.enter, Function.update_self]
  rfl

theorem nested_sp {x : Nat → Nat} {sepc sstatus scause : Nat}
    (nonzero : s.cpu.sscratch ≠ 0) :
    (s.nested labels x sepc sstatus scause).cpu.x 2 =
      below s.cpu.sscratch frameSize := by
  simp only [Sys.nested, Sys.enter]
  exact @trapEntry_below { s.cpu with x, sepc, sstatus } labels.retFromFork
    scause nonzero

/-- A fault inside a handler pushes its frame below the stack pointer of the
program. -/
theorem Inv.nested_base (inv : Inv labels s) {frame : Frame}
    {rest : List Frame}
    (handler : s.phase s.current = .handler (frame :: rest))
    (x : Nat → Nat) (sepc sstatus scause : Nat) :
    (s.nested labels x sepc sstatus scause).regs =
      below (userSp (s.due s.current)) frameSize := by
  rcases inv.single_frame handler with ⟨rfl, _, ⟨context, held⟩, _⟩
  have stack : s.cpu.sscratch = userSp (s.due s.current) := by
    rw [held.due_eq]
    exact held.stack
  have nonzero : s.cpu.sscratch ≠ 0 := by
    rw [held.stack]
    exact held.nonzero
  have frames := frames_eq (@nested_handler labels s x sepc sstatus scause)
  rw [regs, frames, List.head?_cons, Option.map_some, Option.getD_some,
    ← stack, nested_sp nonzero]

/-- `sys_read` touches a page of its buffer that is not mapped. -/
def exampleFault (index : Nat) : Nat :=
  if index = 2 then examplePage 1 + 0xe00 else 0

theorem frames_not_always_inside :
    ¬ ∀ (labels : Labels) (start s : Sys) (events : List Event),
      Started labels start → Run (Sys.step labels) start events s →
        FramesInside s := by
  intro claim
  have inv := Inv.run exampleStart_started exampleRun
  have handler := exampleTrapped_handler
  have onStack : exampleTrapped.OnStack (exampleFault 2) := by
    refine ⟨by decide, ?_⟩
    rw [inv.regs_eq handler]
    decide
  have small : ∀ index, exampleFault index < 2 ^ 64 :=
    example_small _
      (fun index high => by simp [exampleFault, show index ≠ 2 by omega])
      (by decide)
  have run : Run (Sys.step exampleLabels) exampleStart
      (exampleEvents ++ [.nested exampleFault (vmStart + 0x200700) 0x100 15])
      (exampleTrapped.nested exampleLabels exampleFault (vmStart + 0x200700)
        0x100 15) :=
    .snoc (exampleRun.mono fun _ _ _ taken => taken.1)
      ⟨⟨⟨_, _, handler, rfl, rfl⟩, onStack, small, by decide, by decide,
        by decide⟩, rfl⟩
  have inside := claim _ _ _ _ exampleStart_started run
  have base : (exampleTrapped.nested exampleLabels exampleFault
      (vmStart + 0x200700) 0x100 15).regs =
        below (userSp (exampleTrapped.due exampleTrapped.current)) frameSize :=
    inv.nested_base handler exampleFault (vmStart + 0x200700) 0x100 15
  have sp : userSp (exampleTrapped.due exampleTrapped.current) = 0x3000 := by
    decide +kernel
  have phase : (exampleTrapped.nested exampleLabels exampleFault
      (vmStart + 0x200700) 0x100 15).phase _ = _ :=
    nested_handler exampleTrapped exampleFault (vmStart + 0x200700) 0x100 15
  rw [regs, frames_eq phase, List.head?_cons, Option.map_some,
    Option.getD_some, sp] at base
  have lower := (inside.1 _ phase _ List.mem_cons_self).1
  rw [base] at lower
  revert lower
  decide +kernel

/-! ## Contexts -/

/-- A program that goes on has the context it has to have, and the page table
of its task. -/
def Restored (s : Sys) : Prop :=
  s.phase s.current = .user →
    (∀ context, s.due s.current = some context → Matches s.cpu context) ∧
      s.cpu.satp &&& ppnMask =
        (pgdOf s.cpu.mem (s.page s.current) >>> 12) &&& ppnMask

theorem satpOf_ppn (pgd : Nat) :
    satpOf pgd &&& ppnMask = (pgd >>> 12) &&& ppnMask := by
  have mode : 8 <<< 60 &&& ppnMask = 0 := by decide
  rw [satpOf, Nat.and_or_distrib_right, Nat.and_assoc, Nat.and_self, mode,
    Nat.or_zero]

theorem Inv.restored (inv : Inv labels s) : Restored s := by
  intro user
  have running := inv.running
  rw [user] at running
  rcases running with ⟨_, _, registers, satp⟩
  exact ⟨registers, by rw [satp, satpOf_ppn]⟩

/-- In a careful run every program gets its context back. -/
theorem context_preserved {start : Sys} {events : List Event}
    (started : Started labels start)
    (run : Run (Guarded (step labels) Careful) start events s) :
    Restored s :=
  (Inv.run started run).restored

/-- The system call of `exampleTrapped` returned. -/
def exampleAnswered (data : List Byte) : Sys :=
  (exampleTrapped.withMem (storeBytes exampleTrapped.cpu.mem
    (load exampleTrapped.cpu.mem (exampleTrapped.regs + 8 * 11)) data)).answer
    (some data.length)

/-- The events of a whole system call that read some bytes. -/
def exampleCall (data : List Byte) : List Event :=
  exampleEvents ++ [.read data, .answer (some data.length), .finish]

theorem exampleCall_run {guard : Sys → Event → Prop} {data : List Byte}
    (run : Run (Guarded (Sys.step exampleLabels) guard) exampleStart
      exampleEvents exampleTrapped)
    (small : data.length ≤ 1) (read : guard exampleTrapped (.read data))
    (others : ∀ s event, (∃ result, event = .answer result) ∨
      event = .finish → guard s event) :
    Run (Guarded (Sys.step exampleLabels) guard) exampleStart
      (exampleCall data) (exampleAnswered data).finish := by
  have handler := exampleTrapped_handler
  have count : load exampleTrapped.cpu.mem (exampleTrapped.regs + 8 * 12) = 1 := by
    decide +kernel
  obtain ⟨filled, eq⟩ : ∃ filled, filled = exampleTrapped.withMem
      (storeBytes exampleTrapped.cpu.mem
        (load exampleTrapped.cpu.mem (exampleTrapped.regs + 8 * 11)) data) :=
    ⟨_, rfl⟩
  have filledHandler : filled.phase filled.current =
      .handler [⟨exampleTrapped.cpu.x 2, .syscall, false⟩] := by
    rw [eq]
    exact handler
  have reading : Guarded (Sys.step exampleLabels) guard exampleTrapped
      (.read data) filled :=
    ⟨⟨⟨⟨_, _, handler, rfl, rfl⟩, by rw [count]; exact small⟩, eq⟩, read⟩
  have answering : Guarded (Sys.step exampleLabels) guard filled
      (.answer (some data.length)) (filled.answer (some data.length)) := by
    refine ⟨⟨⟨⟨_, _, filledHandler, rfl, rfl⟩, fun value member => ?_⟩, rfl⟩,
      others _ _ (.inl ⟨_, rfl⟩)⟩
    rw [← Option.some.inj member]
    omega
  have finishing : Guarded (Sys.step exampleLabels) guard
      (filled.answer (some data.length)) .finish
      (filled.answer (some data.length)).finish :=
    ⟨⟨⟨_, _, answer_handler filledHandler _, by decide, fun _ => rfl⟩, rfl⟩,
      others _ _ (.inr rfl)⟩
  rw [exampleAnswered, ← eq]
  exact run.append (.cons reading (.cons answering (.single finishing)))

theorem context_preserved_call : Restored (exampleAnswered []).finish :=
  context_preserved exampleStart_started
    (exampleCall_run exampleRun (by decide)
      (fun _ _ _ _ inside => absurd inside (Nat.not_lt_zero _))
      fun _ _ which => by rcases which with ⟨_, rfl⟩ | rfl <;> trivial)

/-- No nested traps, and a stack pointer at every trap. -/
def Plain (_ : Sys) : Event → Prop
  | .trap x _ _ _ _ => x 2 ≠ 0
  | .nested _ _ _ _ => False
  | _ => True

theorem Careful.plain {event : Event} (careful : Careful s event) :
    Plain s event := by
  cases event with
  | trap => exact careful
  | nested => exact careful
  | _ => trivial

/-- `sys_read` into the frame of its caller changes what is restored. -/
theorem context_not_always_preserved :
    ¬ ∀ (labels : Labels) (start s : Sys) (events : List Event),
      Started labels start →
        Run (Guarded (Sys.step labels) Plain) start events s → Restored s := by
  intro claim
  have trapped : Run (Guarded (Sys.step exampleLabels) Plain) exampleStart
      exampleEvents exampleTrapped :=
    exampleRun.mono fun _ _ _ taken => ⟨taken.1, taken.2.plain⟩
  have run := @exampleCall_run Plain [7] trapped (by decide) trivial
    fun _ _ which => by rcases which with ⟨_, rfl⟩ | rfl <;> trivial
  have user : (exampleAnswered [7]).finish.phase
      (exampleAnswered [7]).finish.current = .user :=
    Phase.eq_user (by decide +kernel)
  have restored := (claim _ _ _ _ exampleStart_started run user).1
  have due : ((exampleAnswered [7]).finish.due
      (exampleAnswered [7]).finish.current).map (fun context => context.x 9) =
        some 0 := by
    decide +kernel
  rcases Option.map_eq_some_iff.1 due with ⟨context, due, before⟩
  have after : (exampleAnswered [7]).finish.cpu.x 9 = 7 := by decide +kernel
  have same := (restored context due).registers 9 (by decide) (by decide)
  rw [before, after] at same
  exact absurd same (by decide)

end Sys

end TinyRiscvOs.Trap
