import TinyRiscvOs.Lib.Run
import TinyRiscvOs.Vm.Boot

/-!
# Page faults and forks of all tasks

From the boot on, the tasks fault and fork in any order, and between that bytes
change that belong to no table.  Every such run keeps the invariant of the
address spaces, as long as new tables are empty and no fork meets a missing
table.
-/

namespace TinyRiscvOs.Vm

open TinyRiscvOs.Lib
open TinyRiscvOs.Mm

/-! ## Steps -/

/-- What happens after the boot. -/
inductive SystemEvent where
  | pageFault (id : Nat) (access : Access) (badAddr : Nat)
  | fork (id : Nat)
  /-- Tasks and the kernel write memory that holds no table. -/
  | run (mem : Bytes)

/-- Steps in which no allocation fails. -/
inductive SystemStep (cfg : Config) : System → SystemEvent → System → Prop where
  | pageFault {s : System} {id badAddr : Nat} {access : Access} {t : Task}
      {after : Machine} (taskAt : s.task[id]? = some t)
      (returns : doPageFault cfg s.machine t access badAddr = .ok after)
      (succeeds : after.oom = false) :
      SystemStep cfg s (.pageFault id access badAddr)
        { s with machine := after }
  | fork {s : System} {id : Nat} {t child : Task} {after : Machine}
      (taskAt : s.task[id]? = some t)
      (returns : doFork cfg .copyOnWrite s.machine t = .ok (child, after))
      (succeeds : after.oom = false) :
      SystemStep cfg s (.fork id)
        { machine := after, task := s.task ++ [child] }
  | run {s : System} {mem : Bytes}
      (tables : ∀ frame, IsTable cfg s.task s.machine.mem frame →
        SameFrame s.machine.mem mem frame) :
      SystemStep cfg s (.run mem)
        { s with machine := { s.machine with mem } }

/-- The tables of a task for all pages of its areas are there. -/
def Task.HasTables (t : Task) (mem : Bytes) : Prop :=
  ∀ vma ∈ t.mmap, vma.HasTables mem t.pgd

/-- New tables are empty, and a task that forks has the tables of its areas. -/
def TablesThere (cfg : Config) (s : System) (event : SystemEvent) : Prop :=
  Blank cfg s.machine ∧
    match event with
    | .fork id => ∀ t, s.task[id]? = some t → t.HasTables s.machine.mem
    | _ => True

/-! ## The invariant -/

/-- The invariant of the address spaces, for some pages of the kernel. -/
def SystemInv (cfg : Config) (s : System) : Prop :=
  ∃ kernel, Inv cfg s.task kernel (2 ^ 26 * kernel.card) s.machine

variable {cfg : Config}

theorem SystemInv.step (source : cfg.absentNull = false) {s next : System}
    {event : SystemEvent} (inv : SystemInv cfg s)
    (taken : Guarded (SystemStep cfg) (TablesThere cfg) s event next) :
    SystemInv cfg next := by
  obtain ⟨kernel, inv⟩ := inv
  obtain ⟨step, blank, there⟩ := taken
  cases step with
  | pageFault taskAt returns succeeds =>
      obtain ⟨_, _, _, afterInv, _⟩ :=
        inv.doPageFault blank taskAt returns succeeds
      exact ⟨kernel, afterInv⟩
  | fork taskAt returns succeeds =>
      obtain ⟨kernel', _, nextInv⟩ :=
        inv.doFork blank source taskAt (there _ taskAt) returns succeeds
      exact ⟨kernel', nextInv⟩
  | run tables => exact ⟨kernel, inv.withMem tables⟩

/-- States reached from the boot by steps that meet `TablesThere`. -/
def Reachable (cfg : Config) (s : System) : Prop :=
  ∃ mem maps programs start events,
    Bootable cfg maps programs ∧ Blank cfg (Boot.machine cfg mem) ∧
      boot cfg mem maps programs = .ok start ∧ start.machine.oom = false ∧
      Run (Guarded (SystemStep cfg) (TablesThere cfg)) start events s

theorem Reachable.inv (source : cfg.absentNull = false) {s : System}
    (reachable : Reachable cfg s) : SystemInv cfg s := by
  obtain ⟨mem, maps, programs, start, events, bootable, blank, booted, succeeds,
    run⟩ := reachable
  obtain ⟨kernel, _, inv⟩ := boot_inv blank bootable booted succeeds
  exact run.invariant ⟨kernel, inv⟩
    fun _ _ _ inv taken => SystemInv.step source inv taken

/--
After any run in which no fork met a missing table, the next fork meets none
exactly if all pages of its areas have their tables.
-/
theorem forkScan_nonNull_iff (source : cfg.absentNull = false) {s : System}
    (reachable : Reachable cfg s) (blank : Blank cfg s.machine) {id : Nat}
    {t : Task} (taskAt : s.task[id]? = some t)
    (succeeds : (forkScan cfg s.machine t).machine.oom = false) :
    (forkScan cfg s.machine t).NonNull ↔ t.HasTables s.machine.mem := by
  obtain ⟨kernel, inv⟩ := reachable.inv source
  exact (inv.forkScan blank source taskAt succeeds).1

/-! ## A program with a page of code and a stack -/

namespace SmallProgram

/-- Thirty-two pages, of which the first two hold the kernel and the root table. -/
def config (fill : Fill) : Config where
  top := 5
  reserved := 2
  refCnt := phyStart
  swapper := ramBase + 1
  sramdisk := phyStart
  fill
  absentNull := false

/-- The page of code. -/
def code : MmapArgs where
  addr := 0x1000
  len := 0x1000
  vmPgoff := 0
  vmFilesz := 0x1000
  flags := vmRead ||| vmExec

/-- The result of a computation, or another value where it does not return. -/
def result {α : Type} (other : α) : Except Stop α → α
  | .ok value => value
  | .error _ => other

theorem eq_ok {α : Type} (other : α) {value : Except Stop α}
    (returns : value.isOk = true) : value = .ok (result other value) := by
  cases value with
  | error stop => cases returns
  | ok value => rfl

/-- A result that is a pair. -/
theorem eq_ok_pair {α β : Type} (other : α × β) {value : Except Stop (α × β)}
    (returns : value.isOk = true) :
    value = .ok ((result other value).1, (result other value).2) :=
  eq_ok other returns

/-- After the boot over cleared memory. -/
def booted (fill : Fill) : System :=
  result { machine := Boot.machine (config fill) fun _ => 0, task := [] }
    (boot (config fill) (fun _ => 0) [] [[code, stackArea]])

/-- The program. -/
def task (fill : Fill) : Task :=
  (booted fill).task.headD { pgd := 0, mmap := [] }

/-- After a page fault of the program. -/
def faulted (fill : Fill) (s : System) (access : Access) (badAddr : Nat) :
    System where
  machine := result s.machine
    (doPageFault (config fill) s.machine (task fill) access badAddr)
  task := s.task

/-- The first instruction was fetched. -/
def fetched (fill : Fill) : System :=
  faulted fill (booted fill) .fetch 0x1000

/-- The program has stored to its stack, too. -/
def pushed (fill : Fill) : System :=
  faulted fill (fetched fill) .store (userEnd - 8)

theorem bootable (fill : Fill) :
    Bootable (config fill) [] [[code, stackArea]] := by
  refine ⟨⟨?_, ?_, ?_⟩, by simp, ?_⟩
  · show 5 ≤ 25
    decide
  · show 2 ≤ 2 ^ 5
    decide
  · show ramBase < ramBase + 1 ∧ ramBase + 1 < ramBase + 2
    decide
  intro areas isProgram args isArea
  obtain rfl := List.mem_singleton.1 isProgram
  rcases List.mem_pair.1 isArea with rfl | rfl
  · exact ⟨by decide, by decide, by decide⟩
  · exact ⟨by decide, by decide, by decide⟩

theorem boot_eq (fill : Fill) :
    boot (config fill) (fun _ => 0) [] [[code, stackArea]] =
      .ok (booted fill) := by
  refine eq_ok _ ?_
  cases fill <;> decide +kernel

theorem booted_task (fill : Fill) :
    (booted fill).task[0]? = some (task fill) := by
  cases fill <;> decide +kernel

/-- The area of the stack comes first in the list. -/
example : (task .kallocZeroed).mmap = [stackArea.vma, code.vma] := by
  decide +kernel

theorem faulted_step {fill : Fill} {s : System} {access : Access}
    {badAddr : Nat} (taskAt : s.task[0]? = some (task fill))
    (returns : (doPageFault (config fill) s.machine (task fill) access
      badAddr).isOk = true)
    (succeeds : (faulted fill s access badAddr).machine.oom = false) :
    SystemStep (config fill) s (.pageFault 0 access badAddr)
      (faulted fill s access badAddr) :=
  .pageFault taskAt (eq_ok s.machine returns) succeeds

theorem fetched_step (fill : Fill) :
    SystemStep (config fill) (booted fill) (.pageFault 0 .fetch 0x1000)
      (fetched fill) := by
  refine faulted_step (booted_task fill) ?_ ?_
  · cases fill <;> decide +kernel
  · cases fill <;> decide +kernel

theorem fetched_task (fill : Fill) :
    (fetched fill).task[0]? = some (task fill) := by
  cases fill <;> decide +kernel

theorem pushed_step (fill : Fill) :
    SystemStep (config fill) (fetched fill) (.pageFault 0 .store (userEnd - 8))
      (pushed fill) := by
  refine faulted_step (fetched_task fill) ?_ ?_
  · cases fill <;> decide +kernel
  · cases fill <;> decide +kernel

/-- With cleared tables, both steps may be followed by a fork. -/
theorem pushed_run :
    Run (Guarded (SystemStep (config .kallocZeroed))
        (TablesThere (config .kallocZeroed))) (booted .kallocZeroed)
      ([.pageFault 0 .fetch 0x1000] ++ [.pageFault 0 .store (userEnd - 8)])
      (pushed .kallocZeroed) :=
  (Run.single ⟨fetched_step _, Or.inl (by decide), trivial⟩).append
    (Run.single ⟨pushed_step _, Or.inl (by decide), trivial⟩)

theorem reachable_of_run {s : System} {events : List SystemEvent}
    (run : Run (Guarded (SystemStep (config .kallocZeroed))
      (TablesThere (config .kallocZeroed))) (booted .kallocZeroed) events s) :
    Reachable (config .kallocZeroed) s :=
  ⟨fun _ => 0, [], [[code, stackArea]], booted .kallocZeroed, events,
    bootable _, Or.inl (by decide), boot_eq _, by decide +kernel, run⟩

/-- After a fork of the first task. -/
def forkOf (fill : Fill) (t : Task) (s : System) : System :=
  let forked := result (t, s.machine)
    (doFork (config fill) .copyOnWrite s.machine t)
  { machine := forked.2, task := s.task ++ [forked.1] }

theorem forkOf_step {fill : Fill} {t : Task} {s : System}
    (taskAt : s.task[0]? = some t)
    (returns : (doFork (config fill) .copyOnWrite s.machine t).isOk = true)
    (succeeds : (forkOf fill t s).machine.oom = false) :
    SystemStep (config fill) s (.fork 0) (forkOf fill t s) :=
  .fork taskAt (eq_ok_pair (t, s.machine) returns) succeeds

/-- The program has forked. -/
def forked (fill : Fill) : System :=
  forkOf fill (task fill) (pushed fill)

/-- Then it has copied the page of its stack, which it shared with the child. -/
def copied (fill : Fill) : System :=
  faulted fill (forked fill) .store (userEnd - 8)

/-- What the fork and the copy come to, evaluated. -/
theorem forked_facts :
    ((pushed .kallocZeroed).task[0]? = some (task .kallocZeroed) ∧
      (task .kallocZeroed).mmap = [stackArea.vma, code.vma] ∧
      ∀ vma ∈ [stackArea.vma, code.vma],
        findPte (pushed .kallocZeroed).machine.mem (task .kallocZeroed).pgd
          (4096 * (vma.vmStart / 4096)) ≠ none) ∧
    ((doFork (config .kallocZeroed) .copyOnWrite (pushed .kallocZeroed).machine
        (task .kallocZeroed)).isOk = true ∧
      (forked .kallocZeroed).machine.oom = false) ∧
    ((forked .kallocZeroed).task[0]? = some (task .kallocZeroed) ∧
      cowEntry (forked .kallocZeroed).machine.mem (task .kallocZeroed) .store
        (userEnd - 8) ≠ none ∧
      (doPageFault (config .kallocZeroed) (forked .kallocZeroed).machine
        (task .kallocZeroed) .store (userEnd - 8)).isOk = true ∧
      (copied .kallocZeroed).machine.oom = false) := by
  decide +kernel

theorem pushed_hasTables :
    (task .kallocZeroed).HasTables (pushed .kallocZeroed).machine.mem := by
  obtain ⟨⟨_, areas, found⟩, _⟩ := forked_facts
  intro vma isArea page lower upper
  rw [areas] at isArea
  have one : vma.pageCount = 1 := by
    rcases List.mem_pair.1 isArea with rfl | rfl <;> decide
  obtain rfl : page = vma.vmStart / 4096 := by omega
  exact found vma isArea

theorem forked_step :
    SystemStep (config .kallocZeroed) (pushed .kallocZeroed) (.fork 0)
      (forked .kallocZeroed) := by
  obtain ⟨⟨taskAt, _⟩, ⟨returns, succeeds⟩, _⟩ := forked_facts
  exact forkOf_step taskAt returns succeeds

theorem forked_tables :
    TablesThere (config .kallocZeroed) (pushed .kallocZeroed) (.fork 0) := by
  obtain ⟨⟨taskAt, _⟩, _⟩ := forked_facts
  refine ⟨Or.inl (by decide), fun t otherAt => ?_⟩
  obtain rfl := Option.some_inj.1 (taskAt.symm.trans otherAt)
  exact pushed_hasTables

theorem copied_step :
    SystemStep (config .kallocZeroed) (forked .kallocZeroed)
      (.pageFault 0 .store (userEnd - 8)) (copied .kallocZeroed) := by
  obtain ⟨_, _, taskAt, _, returns, succeeds⟩ := forked_facts
  exact faulted_step taskAt returns succeeds

/-- A fork and a copied page after both faults. -/
theorem copied_reachable :
    Reachable (config .kallocZeroed) (copied .kallocZeroed) :=
  reachable_of_run ((pushed_run.append
    (Run.single ⟨forked_step, forked_tables⟩)).append
    (Run.single ⟨copied_step, Or.inl (by decide), trivial⟩))

end SmallProgram

open SmallProgram in
/-- After a store to the stack the tables of both areas are there. -/
theorem forkScan_nonNull_pushed :
    (forkScan (config .kallocZeroed) (pushed .kallocZeroed).machine
        (task .kallocZeroed)).NonNull ↔
      (task .kallocZeroed).HasTables (pushed .kallocZeroed).machine.mem := by
  have taskAt : (pushed .kallocZeroed).task[0]? =
      some (task .kallocZeroed) := by
    decide +kernel
  exact forkScan_nonNull_iff rfl (reachable_of_run pushed_run)
    (Or.inl (by decide))
    taskAt (by decide +kernel)

open SmallProgram in
/-- A fork before the first use of the stack reads through `NULL`, and the kernel faults. -/
theorem doFork_reads_null :
    boot (config .asFound) (fun _ => 0) [] [[code, stackArea]] =
        .ok (booted .asFound) ∧
      Run (SystemStep (config .asFound)) (booted .asFound)
        [.pageFault 0 .fetch 0x1000] (fetched .asFound) ∧
      (fetched .asFound).task[0]? = some (task .asFound) ∧
      none ∈ (forkScan (config .asFound) (fetched .asFound).machine
        (task .asFound)).reads ∧
      doFork (config .asFound) .copyOnWrite (fetched .asFound).machine
        (task .asFound) = .error .wildAccess := by
  refine ⟨boot_eq _, Run.single (fetched_step _), fetched_task _, ?_, ?_⟩
  · decide +kernel
  · have stops : (match doFork (config .asFound) .copyOnWrite
        (fetched .asFound).machine (task .asFound) with
        | .error stop => some stop
        | .ok _ => none) = some Stop.wildAccess := by
      decide +kernel
    cases forked : doFork (config .asFound) .copyOnWrite
        (fetched .asFound).machine (task .asFound) with
    | error stop =>
        rw [forked] at stops
        rw [Option.some_inj.1 stops]
    | ok value =>
        rw [forked] at stops
        cases stops

end TinyRiscvOs.Vm
