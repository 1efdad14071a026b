import TinyRiscvOs.Trap.Invariant

/-!
# Every careful step keeps the invariant
-/

namespace TinyRiscvOs.Trap

open TinyRiscvOs.Lib
open TinyRiscvOs.Vm
open Cpu

namespace Sys

/-! ## Careful events -/

/-- The bytes from an address on are in no saved part of a task page. -/
def Misses (s : Sys) (start length : Nat) : Prop :=
  ∀ task < s.count, ∀ address, address < 2 ^ 64 →
    below address start < length → ¬ Saved (s.page task) address

/-- Traps come from user mode with a stack pointer, and what system calls store
through unchecked arguments stays out of the task pages. -/
def Careful (s : Sys) : Event → Prop
  | .trap x _ _ _ _ => x 2 ≠ 0
  | .nested _ _ _ _ => False
  | .read data =>
      s.Misses (load s.cpu.mem (s.regs + 8 * 11)) data.length
  | .stray address data => s.Misses address data.length
  | .toPrint top data =>
      s.page s.current + stackFloor + (data.length + 1 + 15) / 16 * 16 ≤ top
  | .wild => False
  | _ => True

variable {labels : Labels} {s : Sys}

/-! ## The handler of the running task -/

theorem Inv.kernelPage (inv : Inv labels s) : KernelPage (s.page s.current) :=
  inv.pages _ inv.current

/-- A handler below a frame has one frame, at the top of the page. -/
theorem Inv.single_frame (inv : Inv labels s) {frame : Frame}
    {rest : List Frame}
    (handler : s.phase s.current = .handler (frame :: rest)) :
    rest = [] ∧ frame.base = frameBase (s.page s.current) ∧
      (∃ context, Held s.cpu.mem (s.page s.current) s.cpu.sscratch
        (s.due s.current) context) ∧
      s.cpu.satp = satpOf (pgdOf s.cpu.mem (s.page s.current)) := by
  have running := inv.running
  rw [handler] at running
  match rest, running with
  | [], ⟨base, held, satp⟩ => exact ⟨rfl, base, held, satp⟩

theorem frames_eq {frames : List Frame}
    (handler : s.phase s.current = .handler frames) : s.frames = frames := by
  rw [Sys.frames, handler]

theorem Inv.regs_eq (inv : Inv labels s) {frame : Frame}
    {rest : List Frame}
    (handler : s.phase s.current = .handler (frame :: rest)) :
    s.regs = frameBase (s.page s.current) := by
  rw [regs, frames_eq handler]
  exact (inv.single_frame handler).2.1

/-! ## C code and unchecked stores -/

/-- Stores outside the saved bytes, but for the stack of the running task. -/
theorem Inv.withMem (inv : Inv labels s) {frames : List Frame} {mem : Bytes}
    (handler : s.phase s.current = .handler frames)
    (agree : ∀ task < s.count, ∀ address, Saved (s.page task) address →
      (task = s.current →
        ¬ (s.page task + stackFloor ≤ address ∧ address < s.regs)) →
      mem address = s.cpu.mem address) :
    Inv labels (s.withMem mem) := by
  refine ⟨inv.current, inv.pages, inv.apart, ?_, ?_⟩
  · show Running { s.cpu with mem } (s.page s.current) (s.phase s.current)
      (s.due s.current) (s.current = 0)
    have running := inv.running
    rw [handler] at running ⊢
    match frames, running with
    | [], idle => exact idle
    | [frame], ⟨base, ⟨context, held⟩, satp⟩ =>
        have regs : s.regs = frameBase (s.page s.current) :=
          inv.regs_eq handler
        have own (address : Nat) (saved : Saved (s.page s.current) address)
            (outside : address < s.page s.current + stackFloor ∨
              frameBase (s.page s.current) ≤ address) :
            mem address = s.cpu.mem address :=
          agree _ inv.current address saved fun _ => by rw [regs]; omega
        have pgd : pgdOf mem (s.page s.current) =
            pgdOf s.cpu.mem (s.page s.current) :=
          load_congr fun address lower upper =>
            own address ⟨by omega, by simp only [pageSize]; omega⟩
              (.inl (by simp only [stackFloor]; omega))
        refine ⟨base, ⟨context, { held with frame := ?_ }⟩, ?_⟩
        · refine held.frame.congr fun address lower upper => ?_
          simp only [frameBase, pageSize, frameSize] at lower upper
          exact own address ⟨by omega, by simp only [pageSize]; omega⟩
            (.inr (by simp only [frameBase, pageSize, frameSize]; omega))
        · show s.cpu.satp = satpOf (pgdOf mem (s.page s.current))
          rw [pgd, satp]
  · intro task bound other
    exact (inv.waiting task bound other).congr fun address saved =>
      agree task bound address saved fun same => absurd same other

/-- Stores that miss the saved bytes of every task. -/
theorem Inv.storeBytes (inv : Inv labels s) {frames : List Frame}
    {start : Nat} {data : List Byte}
    (handler : s.phase s.current = .handler frames)
    (misses : s.Misses start data.length) :
    Inv labels (s.withMem (storeBytes s.cpu.mem start data)) :=
  inv.withMem handler fun task bound address saved _ =>
    if_neg fun ⟨small, inside⟩ => misses task bound address small inside saved

/-- `to_print` on the stack of the running task. -/
theorem Inv.toPrint (inv : Inv labels s) {frame : Frame} {rest : List Frame}
    {top : Nat} {data : List Byte}
    (handler : s.phase s.current = .handler (frame :: rest))
    (onStack : s.OnStack top)
    (fits : s.page s.current + stackFloor +
      (data.length + 1 + 15) / 16 * 16 ≤ top) :
    Inv labels (s.withMem (Trap.storeBytes s.cpu.mem
      (toPrintBase top data.length) (data ++ [0]))) := by
  have regs := inv.regs_eq handler
  have room := inv.kernelPage.room
  have upper : top ≤ s.regs := onStack.2
  have covers : data.length + 1 ≤ (data.length + 1 + 15) / 16 * 16 := by omega
  rw [regs] at upper
  simp only [frameBase, pageSize, frameSize, stackFloor] at *
  have base : toPrintBase top data.length =
      top - (data.length + 1 + 15) / 16 * 16 :=
    below_eq (by omega) (by omega)
  refine inv.withMem handler fun task bound address saved outside => ?_
  refine if_neg fun ⟨small, inside⟩ => ?_
  -- A byte of the array is one of the stack below the frame.
  have lower : toPrintBase top data.length ≤ address := by
    by_contra before
    rw [Trap.below, Nat.mod_eq_of_lt (by omega)] at inside
    simp only [List.length_append, List.length_cons, List.length_nil] at inside
    omega
  rw [below_eq lower small] at inside
  simp only [List.length_append, List.length_cons, List.length_nil] at inside
  by_cases same : task = s.current
  · subst same
    exact outside rfl ⟨by simp only [stackFloor]; omega, by omega⟩
  · refine (inv.apart task bound _ inv.current same).not_saved saved
      ⟨by omega, by simp only [pageSize]; omega⟩

/-! ## Into the handler and back -/

/-- The phase of the running task replaced, in both halves of the invariant. -/
theorem Inv.enter (inv : Inv labels s) {s' : Sys} {phase : Phase}
    (current : s'.current = s.current) (count : s'.count = s.count)
    (page : s'.page = s.page)
    (others : ∀ task, task ≠ s.current →
      s'.phase task = s.phase task ∧ s'.due task = s.due task)
    (agree : ∀ task < s.count, task ≠ s.current → ∀ address,
      Saved (s.page task) address → s'.cpu.mem address = s.cpu.mem address)
    (running : Running s'.cpu (s.page s.current) phase (s'.due s.current)
      (s.current = 0)) :
    Inv labels (s'.enter phase) := by
  refine ⟨?_, ?_, ?_, ?_, ?_⟩
  · show s'.current < s'.count
    rw [current, count]
    exact inv.current
  · show ∀ task < s'.count, KernelPage (s'.page task)
    rw [count, page]
    exact inv.pages
  · show ∀ task < s'.count, ∀ other < s'.count, task ≠ other →
      PagesApart (s'.page task) (s'.page other)
    rw [count, page]
    exact inv.apart
  · show Running s'.cpu (s'.page s'.current)
      (Function.update s'.phase s'.current phase s'.current)
      (s'.due s'.current) (s'.current = 0)
    rw [Function.update_self, current, page]
    exact running
  · show ∀ task < s'.count, task ≠ s'.current →
      Waiting labels s'.cpu.mem (s'.page task)
        (Function.update s'.phase s'.current phase task) (s'.due task)
        (task = 0)
    rw [count, page, current]
    intro task bound other
    rw [Function.update_of_ne other, (others task other).1,
      (others task other).2]
    exact (inv.waiting task bound other).congr (agree task bound other)

theorem trap_handler (s : Sys) (x : Nat → Nat) (sepc sstatus scause : Nat)
    (mem : Bytes) :
    (s.trap labels x sepc sstatus scause mem).phase
        (s.trap labels x sepc sstatus scause mem).current =
      .handler [⟨(s.trap labels x sepc sstatus scause mem).cpu.x 2,
        causeOf scause, false⟩] := by
  simp only [Sys.trap, Sys.enter, Function.update_self]

theorem Inv.trap (inv : Inv labels s) {x : Nat → Nat}
    {sepc sstatus scause : Nat} {mem : Bytes}
    (legal : s.legal labels (.trap x sepc sstatus scause mem))
    (stack : x 2 ≠ 0) :
    Inv labels (s.trap labels x sepc sstatus scause mem) := by
  rcases legal with ⟨user, registers, sepcSmall, sstatusSmall, agree⟩
  have running := inv.running
  rw [user] at running
  rcases running with ⟨sscratch, _, _, satp⟩
  have kernel := inv.kernelPage
  have hart : Cpu.sscratch { s.cpu with x, sepc, sstatus, mem } =
      s.page s.current + pageSize := sscratch
  have outside (address : Nat)
      (away : address < frameBase (s.page s.current) ∨
        s.page s.current + pageSize ≤ address)
      (high : userEnd ≤ address) :
      (trapEntry { s.cpu with x, sepc, sstatus, mem } labels.retFromFork
        scause).mem address = s.cpu.mem address :=
    (trapEntry_mem_outside kernel hart away).trans (agree address high)
  refine inv.enter rfl rfl rfl
    (fun task other => ⟨rfl, Function.update_of_ne other _ _⟩)
    (fun task bound other address saved => ?_)
    ⟨?_, ⟨⟨x, sepc, sstatus⟩, ?_⟩, ?_⟩
  · have away := (inv.apart task bound _ inv.current other).not_saved saved
    have above := (inv.pages task bound).above_user
    refine outside address ?_
      (Nat.le_trans above (Nat.le_trans (Nat.le_add_right _ _) saved.1))
    simp only [Saved, frameBase, pageSize, frameSize] at away ⊢
    omega
  · exact @trapEntry_base _ _ labels.retFromFork scause kernel hart
  · exact trapEntry_held kernel hart (Function.update_self ..) registers
      sepcSmall sstatusSmall stack
  · have above := kernel.above_user
    have pgd : pgdOf (trapEntry { s.cpu with x, sepc, sstatus, mem }
        labels.retFromFork scause).mem (s.page s.current) =
        pgdOf s.cpu.mem (s.page s.current) :=
      load_congr fun address lower upper =>
        outside address
          (.inl (by simp only [frameBase, pageSize, frameSize]; omega))
          (Nat.le_trans above (by omega))
    exact (trapEntry_satp _ _ _).trans
      (satp.trans (congrArg satpOf pgd.symm))

/-! ## The result of a system call -/

theorem answer_eq {frame : Frame} {rest : List Frame}
    (handler : s.phase s.current = .handler (frame :: rest))
    (result : Option Nat) :
    s.answer result =
      { s.withMem (answerMem s.cpu.mem s.regs result) with
        due := Function.update s.due s.current
          ((s.due s.current).map fun context : Context =>
            context.answer result) : Sys }.enter
        (.handler ({ frame with answered := true } :: rest)) := by
  have frames : Sys.frames
      { s.withMem (answerMem s.cpu.mem s.regs result) with
        due := Function.update s.due s.current
          ((s.due s.current).map fun context : Context =>
            context.answer result) } = frame :: rest := frames_eq handler
  rw [Sys.answer]
  dsimp only
  rw [frames]

theorem answer_handler {frame : Frame} {rest : List Frame}
    (handler : s.phase s.current = .handler (frame :: rest))
    (result : Option Nat) :
    (s.answer result).phase (s.answer result).current =
      .handler ({ frame with answered := true } :: rest) := by
  rw [answer_eq handler]
  exact Function.update_self s.current _ _

theorem Inv.answer (inv : Inv labels s) {result : Option Nat}
    (legal : s.legal labels (.answer result)) :
    Inv labels (s.answer result) := by
  rcases legal with ⟨⟨frame, rest, handler, _, _⟩, small⟩
  rcases inv.single_frame handler with ⟨rfl, base, ⟨context, held⟩, satp⟩
  rw [answer_eq handler, inv.regs_eq handler]
  have outside (address : Nat)
      (away : address < frameBase (s.page s.current) ∨
        s.page s.current + pageSize ≤ address) :
      answerMem s.cpu.mem (frameBase (s.page s.current)) result address =
        s.cpu.mem address := by
    refine answerMem_outside ?_
    simp only [frameBase, pageSize, frameSize] at away ⊢
    omega
  refine inv.enter rfl rfl rfl
    (fun task other => ⟨rfl, Function.update_of_ne other _ _⟩)
    (fun task bound other address saved => ?_)
    ⟨base, ⟨context.answer result, ?_⟩, ?_⟩
  · have away := (inv.apart task bound _ inv.current other).not_saved saved
    refine outside address ?_
    simp only [Saved, frameBase, pageSize, frameSize] at away ⊢
    omega
  · show Held _ _ _ (Function.update s.due s.current _ s.current) _
    rw [Function.update_self]
    exact held.answer small
  · have pgd : pgdOf
        (answerMem s.cpu.mem (frameBase (s.page s.current)) result)
        (s.page s.current) = pgdOf s.cpu.mem (s.page s.current) :=
      load_congr fun address lower upper => outside address
        (.inl (by simp only [frameBase, pageSize, frameSize]; omega))
    exact satp.trans (congrArg satpOf pgd.symm)

/-! ## The return to the program -/

theorem finish_eq {frame : Frame}
    (handler : s.phase s.current = .handler [frame]) :
    s.finish =
      { s with cpu := (s.cpu.set 2 s.regs).retFromFork : Sys }.enter .user := by
  have frames : Sys.frames
      { s with cpu := (s.cpu.set 2 s.regs).retFromFork } = [frame] :=
    frames_eq handler
  rw [Sys.finish]
  rw [frames]

theorem Inv.finish (inv : Inv labels s) (legal : s.legal labels .finish) :
    Inv labels s.finish := by
  rcases legal with ⟨frame, rest, handler, _, _⟩
  rcases inv.single_frame handler with ⟨rfl, base, ⟨context, held⟩, satp⟩
  rw [finish_eq handler, inv.regs_eq handler]
  have room : frameBase (s.page s.current) + frameSize < 2 ^ 64 := by
    have room := inv.kernelPage.room
    simp only [frameBase, pageSize, frameSize] at room ⊢
    omega
  have top : frameBase (s.page s.current) + frameSize =
      s.page s.current + pageSize := rfl
  have sp : (s.cpu.set 2 (frameBase (s.page s.current))).x 2 =
      frameBase (s.page s.current) := by
    simp [Cpu.set]
  have user : (s.cpu.set 2 (frameBase (s.page s.current))).sscratch ≠ 0 := by
    show s.cpu.sscratch ≠ 0
    rw [held.stack]
    exact held.nonzero
  rcases retFromFork_stacks sp room user held.frame.stack with
    ⟨userStack, kernelStack⟩
  refine inv.enter rfl rfl rfl (fun _ _ => ⟨rfl, rfl⟩)
    (fun _ _ _ address _ => congrFun (retFromFork_mem _) address)
    ⟨kernelStack, ?_, ?_, ?_⟩
  · show _ = userSp (s.due s.current)
    rw [held.due_eq]
    exact userStack.trans held.stack
  · intro other due
    have same : context = other :=
      Option.some.inj (held.due_eq.symm.trans due)
    exact same ▸ retFromFork_matches sp room user held.frame held.stack
  · show (retFromFork _).satp = satpOf (pgdOf (retFromFork _).mem _)
    rw [retFromFork_satp, retFromFork_mem]
    exact satp

/-! ## Switching -/

/-- The registers of a task as `__switch_to` loads them. -/
structure Loaded (cpu : Cpu) (page : Nat) : Prop where
  registers : ∀ {index slot : Nat}, threadSource index = some slot →
    slot < 17 → cpu.x index = threadWord cpu.mem page slot
  sscratch : cpu.sscratch = threadWord cpu.mem page 16
  satp : cpu.satp = satpOf (pgdOf cpu.mem page)

theorem arrive_dummy {cpu : Cpu} {phase : Phase}
    (label : cpu.x 1 = labels.dummy) :
    arrive labels cpu phase = (cpu.dummy, .user) :=
  if_pos label

theorem arrive_retFromFork {cpu : Cpu} {phase : Phase}
    (label : cpu.x 1 = labels.retFromFork) :
    arrive labels cpu phase = (cpu.retFromFork, .user) :=
  (if_neg (by rw [label]; exact labels.dummy_ne_retFromFork.symm)).trans
    (if_pos label)

theorem arrive_afterSwitch {cpu : Cpu} {frames : List Frame} {call : Call}
    (label : cpu.x 1 = labels.afterSwitch)
    (resumes : Resumes frames call cpu) :
    arrive labels cpu (.asleep frames call) = (cpu, .handler frames) :=
  (if_neg (by rw [label]; exact labels.afterSwitch_ne_dummy)).trans
    ((if_neg (by rw [label]; exact labels.afterSwitch_ne_retFromFork)).trans
      (if_pos ⟨label, resumes⟩))

/-- A task that waited goes on where it has to. -/
theorem arrive_running {cpu : Cpu} {page : Nat} {phase : Phase}
    {due : Option Context} {isIdle : Prop} (kernel : KernelPage page)
    (loaded : Loaded cpu page) (awake : ¬ isIdle)
    (waiting : Waiting labels cpu.mem page phase due isIdle)
    {after : Cpu × Phase} (arrives : arrive labels cpu phase = after) :
    Running after.1 page after.2 due isIdle := by
  have ra : cpu.x 1 = threadWord cpu.mem page 0 :=
    loaded.registers rfl (by decide)
  have sp : cpu.x 2 = threadWord cpu.mem page 1 :=
    loaded.registers rfl (by decide)
  match phase, waiting with
  | .fresh, ⟨noDue, setUp⟩ =>
      have label : cpu.x 1 = labels.dummy := ra.trans setUp.ra
      have stack : cpu.sscratch = userEnd :=
        loaded.sscratch.trans setUp.sscratch
      have swapped : cpu.dummy = cpu.swap :=
        switchStack_of_ne (by rw [stack]; decide)
      rw [← arrives, arrive_dummy label, swapped]
      refine ⟨sp.trans setUp.sp, ?_, fun context due => ?_, loaded.satp⟩
      · rw [noDue]
        exact stack
      · rw [noDue] at due
        exact absurd due (Option.some_ne_none _).symm
  | .forked, ⟨label, top, context, held⟩ =>
      have label : cpu.x 1 = labels.retFromFork := ra.trans label
      have sp : cpu.x 2 = frameBase page := sp.trans top
      have room : frameBase page + frameSize < 2 ^ 64 := by
        have room := kernel.room
        simp only [frameBase, pageSize, frameSize] at room ⊢
        omega
      have stack : cpu.sscratch = context.x 2 :=
        loaded.sscratch.trans held.stack
      have user : cpu.sscratch ≠ 0 := by
        rw [stack]
        exact held.nonzero
      rcases retFromFork_stacks sp room user held.frame.stack with
        ⟨userStack, kernelStack⟩
      rw [← arrives, arrive_retFromFork label]
      refine ⟨kernelStack, ?_, fun other due => ?_, ?_⟩
      · rw [held.due_eq]
        exact userStack.trans stack
      · have same : context = other :=
          Option.some.inj (held.due_eq.symm.trans due)
        exact same ▸ retFromFork_matches sp room user held.frame stack
      · rw [retFromFork_satp, retFromFork_mem]
        exact loaded.satp
  | .asleep [] _, idle => exact absurd idle awake
  | .asleep [frame] call, ⟨base, parked, context, held⟩ =>
      have label : cpu.x 1 = labels.afterSwitch := ra.trans parked.ra
      have resumes : Resumes [frame] call cpu := by
        refine ⟨sp.trans parked.sp, fun index small => ?_,
          fun other member distance near => ?_⟩
        · have source : threadSource (calleeSaved index) =
              some (index + 2) := by
            revert small
            revert index
            decide
          rw [loaded.registers source (by omega)]
          exact parked.callee index small
        · have same : other = frame := List.mem_singleton.1 member
          subst same
          exact parked.frames _ (Nat.le_add_right _ _) (by omega)
      rw [← arrives, arrive_afterSwitch label resumes]
      refine ⟨base, ⟨context, ?_⟩, loaded.satp⟩
      rw [loaded.sscratch]
      exact held

@[simp]
theorem arrive_mem (labels : Labels) (cpu : Cpu) (phase : Phase) :
    (arrive labels cpu phase).1.mem = cpu.mem := by
  rw [arrive.eq_def]
  split
  · exact switchStack_mem cpu
  · split
    · exact retFromFork_mem cpu
    · split
      · split <;> rfl
      · rfl

/-- A task whose registers `__switch_to` stored waits for its turn. -/
theorem switchTo_waiting {cpu : Cpu} {page : Nat} {frame : Frame}
    {due : Option Context} {isIdle : Prop} {context : Context}
    (kernel : KernelPage page) (base : frame.base = frameBase page)
    (held : Held cpu.mem page cpu.sscratch due context)
    (registers : ∀ index, cpu.x index < 2 ^ 64)
    (ra : cpu.x 1 = labels.afterSwitch) (prev : cpu.x 10 = page)
    (floor : page + stackFloor ≤ cpu.x 2) :
    Waiting labels cpu.switchTo.mem page (.asleep [frame] ⟨cpu.x, cpu.mem⟩)
      due isIdle := by
  have kernelRoom := kernel.room
  simp only [pageSize] at kernelRoom
  have room : cpu.x 10 + 168 < 2 ^ 64 := by omega
  have word {slot : Nat} (small : slot < 17) :
      threadWord cpu.switchTo.mem page slot =
        cpu.threadValue slot % 2 ^ 64 :=
    prev ▸ switchTo_saved small room
  have outside (address : Nat) (upper : page + 168 ≤ address) :
      cpu.switchTo.mem address = cpu.mem address :=
    switchTo_outside room (.inr (by omega))
  have sscratchSmall : cpu.sscratch < 2 ^ 64 := by
    rw [held.stack]
    exact held.small
  refine ⟨base, ⟨?_, ?_, fun index small => ?_, fun address lower _ => ?_,
    floor⟩, context, { held with frame := ?_, stack := ?_ }⟩
  · rw [word (by decide), ← ra]
    exact Nat.mod_eq_of_lt (registers 1)
  · rw [word (by decide)]
    exact Nat.mod_eq_of_lt (registers 2)
  · have value : cpu.threadValue (index + 2) = cpu.x (calleeSaved index) := by
      simp [threadValue, show index + 2 < 14 by omega]
    rw [word (by omega), value]
    exact Nat.mod_eq_of_lt (registers _)
  · simp only [stackFloor] at floor
    exact outside address (by have := Nat.le_trans floor lower; omega)
  · refine held.frame.congr fun address lower _ => outside address ?_
    simp only [frameBase, pageSize, frameSize] at lower
    omega
  · rw [word (by decide)]
    exact (Nat.mod_eq_of_lt sscratchSmall).trans held.stack

/-- `switch_to` another task, in one record. -/
theorem switch_eq {next : Nat} (x : Nat → Nat) (other : next ≠ s.current)
    {cpu : Cpu}
    (hart : cpu =
      { s.cpu with x, satp := satpOf (pgdOf s.cpu.mem (s.page next)) }) :
    s.switch labels next x =
      { s with
        cpu := (arrive labels cpu.switchTo (s.phase next)).1
        current := next
        phase := Function.update
          (Function.update s.phase s.current
            (.asleep s.frames ⟨x, s.cpu.mem⟩))
          next (arrive labels cpu.switchTo (s.phase next)).2 } := by
  have phase : (s.enter (.asleep s.frames ⟨x, s.cpu.mem⟩)).phase next =
      s.phase next :=
    Function.update_of_ne other _ _
  rw [Sys.switch, if_neg other, hart]
  simp only [phase]
  rfl

theorem Inv.switch (inv : Inv labels s) {next : Nat} {x : Nat → Nat}
    (legal : s.legal labels (.switch next x)) :
    Inv labels (s.switch labels next x) := by
  rcases legal with ⟨place, bound, notIdle, registers, ra, prev, target⟩
  by_cases other : next = s.current
  · rw [Sys.switch, if_pos other]
    exact inv
  · obtain ⟨cpu, hart⟩ : ∃ cpu : Cpu, cpu =
        { s.cpu with x, satp := satpOf (pgdOf s.cpu.mem (s.page next)) } :=
      ⟨_, rfl⟩
    have cpuX : cpu.x = x := by rw [hart]
    have cpuMem : cpu.mem = s.cpu.mem := by rw [hart]
    have cpuSscratch : cpu.sscratch = s.cpu.sscratch := by rw [hart]
    have cpuSatp : cpu.satp = satpOf (pgdOf s.cpu.mem (s.page next)) := by
      rw [hart]
    have kernel := inv.kernelPage
    have nextKernel := inv.pages next bound
    have room : cpu.x 10 + 168 < 2 ^ 64 := by
      have room := kernel.room
      simp only [pageSize] at room
      rw [cpuX, prev]
      omega
    have nextRoom : cpu.x 11 + 168 < 2 ^ 64 := by
      have room := nextKernel.room
      simp only [pageSize] at room
      rw [cpuX, target]
      omega
    -- Only the words of `thread` in the page that is left have changed.
    have agree : ∀ task < s.count, task ≠ s.current → ∀ address,
        Saved (s.page task) address →
          cpu.switchTo.mem address = s.cpu.mem address := by
      intro task taskBound different address saved
      have away := (inv.apart task taskBound _ inv.current different).not_saved
        saved
      rw [switchTo_outside room, cpuMem]
      rw [cpuX, prev]
      simp only [Saved, pageSize] at away
      omega
    have pgd : pgdOf cpu.switchTo.mem (s.page next) =
        pgdOf s.cpu.mem (s.page next) :=
      pgdOf_congr (agree next bound other)
    have loaded : Loaded cpu.switchTo (s.page next) :=
      { registers := fun {index slot} source small => by
          rw [← target, ← congrFun cpuX 11]
          exact switchTo_loaded source small nextRoom
        sscratch := by
          rw [← target, ← congrFun cpuX 11]
          exact switchTo_sscratch nextRoom
        satp := cpuSatp.trans (congrArg satpOf pgd.symm) }
    have waiting : Waiting labels cpu.switchTo.mem (s.page next)
        (s.phase next) (s.due next) (next = 0) :=
      (inv.waiting next bound other).congr (agree next bound other)
    have mem := arrive_mem labels cpu.switchTo (s.phase next)
    rw [switch_eq x other hart]
    generalize arrives : arrive labels cpu.switchTo (s.phase next) = after
      at mem
    have arrived : Running after.1 (s.page next) after.2 (s.due next)
        (next = 0) :=
      arrive_running nextKernel loaded notIdle waiting arrives
    refine ⟨bound, inv.pages, inv.apart, ?_, fun task taskBound different => ?_⟩
    · show Running after.1 (s.page next)
        (Function.update (_ : Nat → Phase) next _ next) (s.due next) (next = 0)
      rw [Function.update_self]
      exact arrived
    · show Waiting labels after.1.mem (s.page task)
        (Function.update (_ : Nat → Phase) next _ task) (s.due task) (task = 0)
      rw [mem, Function.update_of_ne different]
      by_cases same : task = s.current
      · subst same
        rw [Function.update_self]
        rcases place with ⟨handler, idle⟩ | ⟨frame, rest, handler, _, onStack⟩
        · rw [frames_eq handler]
          exact idle
        · rcases inv.single_frame handler with
            ⟨rfl, base, ⟨context, held⟩, _⟩
          have floor : s.page s.current + stackFloor ≤ x 2 := onStack.1
          rw [← cpuMem, ← cpuSscratch] at held
          rw [← cpuX] at registers ra prev floor
          rw [frames_eq handler, ← cpuX, ← cpuMem]
          exact switchTo_waiting kernel base held registers ra prev floor
      · rw [Function.update_of_ne same]
        exact (inv.waiting task taskBound same).congr
          (agree task taskBound same)

end Sys

end TinyRiscvOs.Trap
