import TinyRiscvOs.Trap.System

/-!
# What a sleeping task keeps

A task that is not running is described by the bytes of its own page alone: the
words of `thread`, the frame at the top of the page and the C frames in
between.  The running task has the same facts in registers.  Every step that
stores in no page but the running task's keeps both.
-/

namespace TinyRiscvOs.Trap

open TinyRiscvOs.Lib
open TinyRiscvOs.Vm
open TinyRiscvOs.Mm (vmStart)
open Cpu

/-! ## The invariant -/

/-- The one frame of a trap taken from user mode lies at the top of the page. -/
abbrev frameBase (page : Nat) : Nat :=
  page + (pageSize - frameSize)

/-- The stack pointer that the program of a task is to have. -/
def userSp (due : Option Context) : Nat :=
  match due with
  | some context => context.x 2
  | none => userEnd

/-- The frame of a task, and its stack pointer in `sscratch`. -/
structure Held (mem : Bytes) (page sscratch : Nat) (due : Option Context)
    (context : Context) : Prop where
  due_eq : due = some context
  frame : FrameHolds mem (frameBase page) context
  stack : sscratch = context.x 2
  nonzero : context.x 2 ≠ 0
  small : context.x 2 < 2 ^ 64

/-- The words of `thread` in the page of a task that called `__switch_to`. -/
structure Parked (labels : Labels) (mem : Bytes) (page : Nat) (call : Call) :
    Prop where
  ra : threadWord mem page 0 = labels.afterSwitch
  sp : threadWord mem page 1 = call.x 2
  callee : ∀ index < 12,
    threadWord mem page (index + 2) = call.x (calleeSaved index)
  frames : ∀ address, call.x 2 ≤ address → address < frameBase page →
    mem address = call.mem address
  floor : page + stackFloor ≤ call.x 2

/-- A task that does not run. -/
def Waiting (labels : Labels) (mem : Bytes) (page : Nat) (phase : Phase)
    (due : Option Context) (isIdle : Prop) : Prop :=
  match phase with
  | .fresh => due = none ∧ Sys.SetUp labels mem page
  | .forked =>
      threadWord mem page 0 = labels.retFromFork ∧
        threadWord mem page 1 = frameBase page ∧
        ∃ context, Held mem page (threadWord mem page 16) due context
  | .asleep [] _ => isIdle
  | .asleep [frame] call =>
      frame.base = frameBase page ∧ Parked labels mem page call ∧
        ∃ context, Held mem page (threadWord mem page 16) due context
  | _ => False

/-- The task that runs. -/
def Running (cpu : Cpu) (page : Nat) (phase : Phase) (due : Option Context)
    (isIdle : Prop) : Prop :=
  match phase with
  | .user =>
      cpu.sscratch = page + pageSize ∧ cpu.x 2 = userSp due ∧
        (∀ context, due = some context → Matches cpu context) ∧
        cpu.satp = satpOf (pgdOf cpu.mem page)
  | .handler [] => isIdle
  | .handler [frame] =>
      frame.base = frameBase page ∧
        (∃ context, Held cpu.mem page cpu.sscratch due context) ∧
        cpu.satp = satpOf (pgdOf cpu.mem page)
  | _ => False

namespace Sys

/-- The invariant of careful runs. -/
structure Inv (labels : Labels) (s : Sys) : Prop where
  current : s.current < s.count
  pages : ∀ task < s.count, KernelPage (s.page task)
  apart : ∀ task < s.count, ∀ other < s.count, task ≠ other →
    PagesApart (s.page task) (s.page other)
  running : Running s.cpu (s.page s.current) (s.phase s.current)
    (s.due s.current) (s.current = 0)
  waiting : ∀ task < s.count, task ≠ s.current →
    Waiting labels s.cpu.mem (s.page task) (s.phase task) (s.due task)
      (task = 0)

end Sys

/-! ## What the facts depend on -/

theorem KernelPage.room {page : Nat} (kernel : KernelPage page) :
    page + pageSize < 2 ^ 64 := by
  have upper := kernel.2
  simp only [vmStart, phySize] at upper
  omega

theorem KernelPage.above_user {page : Nat} (kernel : KernelPage page) :
    userEnd ≤ page :=
  Nat.le_trans (by decide) kernel.1

theorem PagesApart.symm {left right : Nat} (apart : PagesApart left right) :
    PagesApart right left :=
  apart.elim .inr .inl

theorem PagesApart.not_saved {left right address : Nat}
    (apart : PagesApart left right) (saved : Saved left address) :
    ¬ Saved right address := by
  simp only [PagesApart, Saved, pageSize] at *
  omega

section

variable {labels : Labels} {left right : Bytes} {page : Nat}
    (agree : ∀ address, Saved page address → right address = left address)

include agree

theorem threadWord_of_agree {slot : Nat} (small : slot < 17) :
    threadWord right page slot = threadWord left page slot :=
  threadWord_congr small fun address lower upper =>
    agree address ⟨lower, by simp only [pageSize]; omega⟩

theorem pgdOf_congr : pgdOf right page = pgdOf left page :=
  load_congr fun address lower upper =>
    agree address ⟨by omega, by simp only [pageSize]; omega⟩

theorem Held.congr {sscratch : Nat} {due : Option Context} {context : Context}
    (held : Held left page sscratch due context) :
    Held right page sscratch due context :=
  { held with
    frame := held.frame.congr fun address lower upper => by
      simp only [frameBase, pageSize, frameSize] at lower upper
      exact agree address ⟨by omega, by simp only [pageSize]; omega⟩ }

theorem Waiting.congr {phase : Phase} {due : Option Context} {isIdle : Prop}
    (waiting : Waiting labels left page phase due isIdle) :
    Waiting labels right page phase due isIdle := by
  have word (slot : Nat) (small : slot < 17) :=
    threadWord_of_agree agree small
  match phase, waiting with
  | .fresh, ⟨noDue, setUp⟩ =>
      exact ⟨noDue,
        { ra := by rw [word 0 (by decide), setUp.ra]
          sp := by rw [word 1 (by decide), setUp.sp]
          sstatus := by rw [word 15 (by decide), setUp.sstatus]
          sscratch := by rw [word 16 (by decide), setUp.sscratch] }⟩
  | .forked, ⟨ra, sp, context, held⟩ =>
      refine ⟨by rw [word 0 (by decide), ra], by rw [word 1 (by decide), sp],
        context, ?_⟩
      rw [word 16 (by decide)]
      exact held.congr agree
  | .asleep [] _, idle => exact idle
  | .asleep [frame] call, ⟨base, parked, context, held⟩ =>
      refine ⟨base,
        { ra := by rw [word 0 (by decide), parked.ra]
          sp := by rw [word 1 (by decide), parked.sp]
          callee := fun index small => by
            rw [word (index + 2) (by omega), parked.callee index small]
          frames := fun address lower upper => ?_
          floor := parked.floor }, context, ?_⟩
      · have floor := parked.floor
        simp only [frameBase, pageSize, frameSize, stackFloor] at upper floor
        rw [← parked.frames address lower
          (by simp only [frameBase, pageSize, frameSize]; omega)]
        exact agree address ⟨by omega, by simp only [pageSize]; omega⟩
      · rw [word 16 (by decide)]
        exact held.congr agree

end

/-! ## A trap onto the stack of a page -/

section

variable {cpu : Cpu} {page returnAddress scause : Nat}
    (kernel : KernelPage page) (stack : cpu.sscratch = page + pageSize)

include kernel stack

theorem trapEntry_base :
    (cpu.trapEntry returnAddress scause).x 2 = frameBase page := by
  rw [trapEntry_sp stack (Nat.le_add_left_of_le (by decide)) kernel.room]
  exact Nat.add_sub_assoc (by decide) _

theorem trapEntry_mem_outside {address : Nat}
    (outside : address < frameBase page ∨ page + pageSize ≤ address) :
    (cpu.trapEntry returnAddress scause).mem address = cpu.mem address := by
  refine trapEntry_outside stack (Nat.le_add_left_of_le (by decide))
    kernel.room ?_
  simp only [frameBase, pageSize, frameSize] at outside ⊢
  omega

theorem trapEntry_held {due : Option Context}
    (due_eq : due = some ⟨cpu.x, cpu.sepc, cpu.sstatus⟩)
    (registers : ∀ index, cpu.x index < 2 ^ 64) (sepc : cpu.sepc < 2 ^ 64)
    (sstatus : cpu.sstatus < 2 ^ 64) (nonzero : cpu.x 2 ≠ 0) :
    Held (cpu.trapEntry returnAddress scause).mem page
      (cpu.trapEntry returnAddress scause).sscratch due
      ⟨cpu.x, cpu.sepc, cpu.sstatus⟩ := by
  have low : frameSize ≤ page + pageSize :=
    Nat.le_add_left_of_le (by decide)
  have base : page + pageSize - frameSize = frameBase page :=
    Nat.add_sub_assoc (by decide) _
  exact
    { due_eq
      frame := base ▸ trapEntry_frame stack low kernel.room registers sepc
        sstatus
      stack := trapEntry_sscratch stack low
      nonzero
      small := registers 2 }

end

/-! ## The result of a system call -/

theorem answerMem_outside {mem : Bytes} {base address : Nat}
    {result : Option Nat}
    (outside : address < base ∨ base + frameSize ≤ address) :
    Sys.answerMem mem base result address = mem address := by
  simp only [frameSize] at outside
  cases result with
  | none => exact store_outside (by omega)
  | some value =>
      exact (store_outside (by omega)).trans (store_outside (by omega))

/-- The frame holds the context after the call. -/
theorem answerMem_frame {mem : Bytes} {base : Nat} {context : Context}
    {result : Option Nat} (frame : FrameHolds mem base context)
    (small : ∀ value ∈ result, value < 2 ^ 64) :
    FrameHolds (Sys.answerMem mem base result) base (context.answer result) := by
  cases result with
  | none =>
      have word (slot : Nat) (other : slot ≠ 32) :
          load (Sys.answerMem mem base none) (base + 8 * slot) =
            load mem (base + 8 * slot) :=
        load_store_of_disjoint (by omega)
      refine ⟨fun index lower upper different => ?_, ?_, ?_, ?_⟩
      · rw [word index (by omega), frame.registers index lower upper different]
        rfl
      · rw [word 2 (by decide), frame.stack]
      · rw [Sys.answerMem, load_store, frame.sepc]
        exact Nat.mod_mod _ _
      · rw [word 33 (by decide), frame.sstatus]
        rfl
  | some value =>
      have first (slot : Nat) (other : slot ≠ 10) :
          load (store mem (base + 8 * 10) value) (base + 8 * slot) =
            load mem (base + 8 * slot) :=
        load_store_of_disjoint (by omega)
      have second (slot : Nat) (other : slot ≠ 32) :
          load (Sys.answerMem mem base (some value)) (base + 8 * slot) =
            load (store mem (base + 8 * 10) value) (base + 8 * slot) :=
        load_store_of_disjoint (by omega)
      refine ⟨fun index lower upper different => ?_, ?_, ?_, ?_⟩
      · rw [second index (by omega)]
        by_cases result : index = 10
        · subst result
          rw [load_store]
          simpa [Context.answer] using Nat.mod_eq_of_lt (small value rfl)
        · rw [first index result, frame.registers index lower upper different]
          exact (Function.update_of_ne result _ _).symm
      · rw [second 2 (by decide), first 2 (by decide), frame.stack]
      · rw [Sys.answerMem, load_store, first 32 (by decide), frame.sepc]
        exact Nat.mod_mod _ _
      · rw [second 33 (by decide), first 33 (by decide), frame.sstatus]
        rfl

/-- A result is not the stack pointer. -/
theorem answer_sp (context : Context) (result : Option Nat) :
    (context.answer result).x 2 = context.x 2 := by
  cases result <;> rfl

/-- The facts about a held frame, once its call has returned. -/
theorem Held.answer {mem : Bytes} {page sscratch : Nat} {due : Option Context}
    {context : Context} {result : Option Nat}
    (held : Held mem page sscratch due context)
    (small : ∀ value ∈ result, value < 2 ^ 64) :
    Held (Sys.answerMem mem (frameBase page) result) page sscratch
      (due.map fun context : Context => context.answer result)
      (context.answer result) where
  due_eq := by rw [held.due_eq, Option.map_some]
  frame := answerMem_frame held.frame small
  stack := held.stack.trans (answer_sp context result).symm
  nonzero := answer_sp context result ▸ held.nonzero
  small := answer_sp context result ▸ held.small

end TinyRiscvOs.Trap
