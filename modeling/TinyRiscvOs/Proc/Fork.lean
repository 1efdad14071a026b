import TinyRiscvOs.Lib.Run
import TinyRiscvOs.Proc.Sched

/-!
# Filling `task[]`

`task_init` and `do_fork` append to the array of tasks.  The array has
`NR_TASKS` entries and neither function compares `nr_tasks` with it.  The
model is an array without an end that records the indices of its stores; a
store at `NR_TASKS` or later hits whatever lies behind `task[]`.
-/

namespace TinyRiscvOs.Proc

open TinyRiscvOs.Lib
open TinyRiscvOs.Vm
open TinyRiscvOs.Mm (phyStart)

/-- The macros that decide how many tasks there are. -/
structure Build where
  testSched : Bool
  fork1 : Bool
deriving DecidableEq, Repr

/-- `NR_TASKS`. -/
def Build.nrTasks (build : Build) : Nat :=
  if build.testSched then 1 + 4 else 1 + 1

/-- `up_limit` in `task_init`. -/
def Build.upLimit (build : Build) : Nat :=
  if build.fork1 then 2 else build.nrTasks

/-- The state of `proc.c`, and the indices at which `task[]` was written. -/
structure Kernel where
  sched : Sched
  machine : Machine
  seed : Nat
  stored : List Nat

/-- `rand`: the number and the next seed. -/
def rand (seed : Nat) : Nat × Nat :=
  let seed := (6364136223846793005 * seed + 1) % 2 ^ 64
  (seed >>> 33, seed)

namespace Kernel

/-- `task[nr_tasks] = task; nr_tasks++`. -/
def append (k : Kernel) (task : TaskStruct) : Kernel :=
  { k with
    sched :=
      { k.sched with
        task := Function.update k.sched.task k.sched.nrTasks task
        nrTasks := k.sched.nrTasks + 1 }
    stored := k.sched.nrTasks :: k.stored }

/-- The body of the loop of `task_init`. -/
def startTask (cfg : Config) (image : List MmapArgs) (k : Kernel) :
    Except Stop Kernel :=
  if (cfg.kalloc k.machine).1 = nullFrame then .error .wildAccess
  else do
    let (mm, machine) ← Vm.startTask cfg k.machine (image ++ [stackArea])
    let (number, seed) := rand k.seed
    return { k with machine, seed }.append
      { state := 0
        counter := 0
        priority := number % (10 - 1 + 1) + 1
        pid := k.sched.nrTasks
        mm }

/-- The loop of `task_init`. -/
def startTasks (cfg : Config) (image : List MmapArgs) :
    Nat → Kernel → Except Stop Kernel
  | 0, k => .ok k
  | count + 1, k => do
      let k ← startTask cfg image k
      startTasks cfg image count k

/--
`task_init`.  The page of `idle` is not cleared, so its `pgd` and `mm` are
what the page held, `found`; `task` is the array before the first store.
-/
def taskInit (cfg : Config) (build : Build) (image : List MmapArgs)
    (found : Vm.Task) (task : Nat → TaskStruct) (m : Machine) :
    Except Stop Kernel :=
  let (page, machine) := cfg.kalloc m
  if page = nullFrame then .error .wildAccess
  else
    let k : Kernel :=
      { sched := { task, nrTasks := 0, current := idle, refills := [] }
        machine
        seed := 2024 - 1
        stored := [] }
    startTasks cfg image (build.upLimit - 1)
      (k.append { state := 0, counter := 0, priority := 0, pid := 0, mm := found })

/--
`do_fork` by the task with index `who`, with what it returns.  A child page
that is `NULL` stops the kernel at the first copy, or below at `do_mmap`.
-/
def doFork (cfg : Config) (who : Nat) (k : Kernel) :
    Except Stop (Nat × Kernel) :=
  if (cfg.allocPage k.machine).1 = nullFrame then .error .wildAccess
  else do
    let parent := k.sched.task who
    let (mm, machine) ← Vm.doFork cfg .copyOnWrite k.machine parent.mm
    let pid := k.sched.nrTasks
    return (pid, { k with machine }.append { parent with pid, mm })

end Kernel

/-! ## Runs -/

/-- What can happen after `task_init`; a fork carries its result. -/
inductive Event where
  | fork (who result : Nat)
  | fault (who : Nat) (access : Access) (badAddr : Nat)
  | tick
deriving DecidableEq, Repr

namespace Kernel

/-- One step of a task with an address space, or of the timer. -/
inductive Step (cfg : Config) (fuel : Nat) :
    Kernel → Event → Kernel → Prop where
  | fork {k next : Kernel} {who result : Nat} (isTask : 1 ≤ who)
      (exists_ : who < k.sched.nrTasks)
      (returns : k.doFork cfg who = .ok (result, next)) :
      Step cfg fuel k (.fork who result) next
  | fault {k : Kernel} {who badAddr : Nat} {access : Access}
      {machine : Machine} (isTask : 1 ≤ who) (exists_ : who < k.sched.nrTasks)
      (returns :
        doPageFault cfg k.machine (k.sched.task who).mm access badAddr =
          .ok machine) :
      Step cfg fuel k (.fault who access badAddr) { k with machine }
  | tick {k : Kernel} {sched : Sched}
      (returns : k.sched.doTimer fuel = some sched) :
      Step cfg fuel k .tick { k with sched }

/-- The array is within its bounds and indexed by the process numbers. -/
structure TaskTable (limit : Nat) (k : Kernel) : Prop where
  bounded : k.sched.nrTasks ≤ limit
  stored : ∀ index ∈ k.stored, index < limit
  pids : ∀ i < k.sched.nrTasks, (k.sched.task i).pid = i

/-- A result that stands for an error: `(uint64_t)-1` and its like. -/
def IsError (result : Nat) : Prop :=
  2 ^ 63 ≤ result

/-- The step leads to a good table, and a fork on a full one is refused. -/
def Conforms (limit : Nat) (k : Kernel) (event : Event) (next : Kernel) :
    Prop :=
  TaskTable limit next ∧
    ∀ who result, event = .fork who result → k.sched.nrTasks = limit →
      IsError result ∧ next.sched.task = k.sched.task ∧
        next.sched.nrTasks = k.sched.nrTasks

/-- The fork finds room in the array. -/
def HasRoom (limit : Nat) (k : Kernel) : Event → Prop
  | .fork _ _ => k.sched.nrTasks < limit
  | _ => True

/-! ## The table stays good while there is room -/

variable {limit : Nat} {k next : Kernel}

theorem TaskTable.append (table : TaskTable limit k)
    (room : k.sched.nrTasks < limit) {task : TaskStruct}
    (pid : task.pid = k.sched.nrTasks) : TaskTable limit (k.append task) where
  bounded := room
  stored := by
    intro index written
    rcases List.mem_cons.1 written with rfl | earlier
    · exact room
    · exact table.stored index earlier
  pids := by
    intro i bound
    by_cases last : i = k.sched.nrTasks
    · subst last
      simp only [Kernel.append, Function.update_self, pid]
    · simp only [Kernel.append, Function.update_of_ne last] at bound ⊢
      exact table.pids i (by omega)

/-- The machine is not part of the table. -/
theorem TaskTable.congr (table : TaskTable limit k)
    (counts : next.sched.nrTasks = k.sched.nrTasks)
    (stores : next.stored = k.stored)
    (pids : ∀ i, (next.sched.task i).pid = (k.sched.task i).pid) :
    TaskTable limit next where
  bounded := counts ▸ table.bounded
  stored := stores ▸ table.stored
  pids := fun i bound => (pids i).trans (table.pids i (counts ▸ bound))

theorem startTask_append {cfg : Config} {image : List MmapArgs}
    (returns : startTask cfg image k = .ok next) :
    ∃ (before : Kernel) (task : TaskStruct), before.sched = k.sched ∧
      before.stored = k.stored ∧ task.pid = k.sched.nrTasks ∧
      next = before.append task := by
  unfold startTask at returns
  split at returns
  · cases returns
  · cases started : Vm.startTask cfg k.machine (image ++ [stackArea]) with
    | error stop =>
        rw [started] at returns
        cases returns
    | ok result =>
        rw [started] at returns
        cases returns
        exact ⟨{ k with machine := result.2, seed := (rand k.seed).2 }, _, rfl,
          rfl, rfl, rfl⟩

theorem doFork_append {cfg : Config} {who result : Nat}
    (returns : doFork cfg who k = .ok (result, next)) :
    ∃ (before : Kernel) (task : TaskStruct), before.sched = k.sched ∧
      before.stored = k.stored ∧ task.pid = k.sched.nrTasks ∧
      result = k.sched.nrTasks ∧ next = before.append task := by
  unfold doFork at returns
  split at returns
  · cases returns
  · cases forked : Vm.doFork cfg .copyOnWrite k.machine (k.sched.task who).mm with
    | error stop =>
        simp only [forked] at returns
        cases returns
    | ok outcome =>
        simp only [forked] at returns
        cases returns
        exact ⟨{ k with machine := outcome.2 }, _, rfl, rfl, rfl, rfl, rfl⟩

/-- Appending to an equal table gives an equal table. -/
theorem TaskTable.appended (table : TaskTable limit k)
    (room : k.sched.nrTasks < limit) {before : Kernel} {task : TaskStruct}
    (sameSched : before.sched = k.sched) (sameStores : before.stored = k.stored)
    (pid : task.pid = k.sched.nrTasks) :
    TaskTable limit (before.append task) := by
  refine TaskTable.append ?_ (sameSched ▸ room) (sameSched ▸ pid)
  exact table.congr (by rw [sameSched]) sameStores fun i => by rw [sameSched]

theorem startTasks_table {cfg : Config} {image : List MmapArgs} (count : Nat)
    (table : TaskTable limit k) (room : k.sched.nrTasks + count ≤ limit)
    (returns : startTasks cfg image count k = .ok next) :
    TaskTable limit next := by
  induction count generalizing k with
  | zero =>
      cases returns
      exact table
  | succ count induction =>
      unfold startTasks at returns
      cases started : startTask cfg image k with
      | error stop =>
          rw [started] at returns
          cases returns
      | ok middle =>
          rw [started] at returns
          obtain ⟨before, task, sameSched, sameStores, pid, rfl⟩ :=
            startTask_append started
          refine induction (table.appended (by omega) sameSched sameStores pid)
            ?_ returns
          simp only [append, sameSched]
          omega

/-- `task_init` starts at most `NR_TASKS` tasks. -/
theorem taskInit_table {cfg : Config} {build : Build} {image : List MmapArgs}
    {found : Vm.Task} {task : Nat → TaskStruct} {m : Machine}
    (returns : taskInit cfg build image found task m = .ok k) :
    TaskTable build.nrTasks k := by
  have limits : 1 + (build.upLimit - 1) ≤ build.nrTasks := by
    obtain ⟨testSched, fork1⟩ := build
    cases testSched <;> cases fork1 <;> decide
  unfold taskInit at returns
  dsimp only at returns
  split at returns
  · cases returns
  · refine startTasks_table _ ?_ limits returns
    refine TaskTable.append ⟨Nat.zero_le _, by simp, by simp⟩ ?_ rfl
    show 0 < build.nrTasks
    omega

end Kernel

namespace Sched

theorem refill_pid (s : Sched) (i : Nat) :
    (s.refill.task i).pid = (s.task i).pid := by
  simp only [refill, refillFrom_apply]
  split <;> rfl

/-- `schedule` starts no task and renames none. -/
theorem schedule_pids {fuel : Nat} {s next : Sched}
    (returns : s.schedule fuel = some next) :
    next.nrTasks = s.nrTasks ∧ ∀ i, (next.task i).pid = (s.task i).pid := by
  induction fuel generalizing s with
  | zero => cases returns
  | succ fuel induction =>
      rw [schedule] at returns
      split at returns
      · obtain ⟨counts, pids⟩ := induction returns
        exact ⟨counts, fun i => (pids i).trans (refill_pid s i)⟩
      · cases returns
        exact ⟨rfl, fun i => rfl⟩

theorem doTimer_pids {fuel : Nat} {s next : Sched}
    (returns : s.doTimer fuel = some next) :
    next.nrTasks = s.nrTasks ∧ ∀ i, (next.task i).pid = (s.task i).pid := by
  have charged : ∀ i counter,
      (Function.update s.task s.current
        { s.task s.current with counter } i).pid = (s.task i).pid := by
    intro i counter
    by_cases here : i = s.current
    · subst here
      rw [Function.update_self]
    · rw [Function.update_of_ne here]
  unfold doTimer at returns
  split at returns
  · exact schedule_pids returns
  · dsimp only at returns
    split at returns
    · obtain ⟨counts, pids⟩ := schedule_pids returns
      exact ⟨counts, fun i => (pids i).trans (charged i _)⟩
    · cases returns
      exact ⟨rfl, fun i => charged i _⟩

end Sched

namespace Kernel

variable {limit fuel : Nat} {cfg : Config} {k next : Kernel} {event : Event}

/-- A step with room in the array keeps the table good. -/
theorem TaskTable.step (table : TaskTable limit k)
    (taken : Step cfg fuel k event next) (room : HasRoom limit k event) :
    TaskTable limit next := by
  cases taken with
  | fork isTask exists_ returns =>
      obtain ⟨before, task, sameSched, sameStores, pid, -, rfl⟩ :=
        doFork_append returns
      exact table.appended room sameSched sameStores pid
  | fault isTask exists_ returns => exact table.congr rfl rfl fun i => rfl
  | tick returns =>
      obtain ⟨counts, pids⟩ := Sched.doTimer_pids returns
      exact table.congr counts rfl pids

/-- A fork on a full array writes behind it. -/
theorem hasRoom_of_conforms (taken : Step cfg fuel k event next)
    (conforms : Conforms limit k event next) : HasRoom limit k event := by
  cases taken with
  | fork isTask exists_ returns =>
      obtain ⟨before, task, sameSched, -, -, -, rfl⟩ := doFork_append returns
      refine conforms.1.stored k.sched.nrTasks ?_
      rw [append, sameSched]
      exact List.mem_cons_self
  | fault isTask exists_ returns => trivial
  | tick returns => trivial

theorem conforms_of_hasRoom (table : TaskTable limit k)
    (taken : Step cfg fuel k event next) (room : HasRoom limit k event) :
    Conforms limit k event next := by
  refine ⟨table.step taken room, ?_⟩
  rintro who result rfl full
  exact absurd full (Nat.ne_of_lt room)

end Kernel

/--
After `task_init` the table is good.  Every step of a run keeps it good and
refuses a fork on a full table exactly when no fork of the run meets one.
-/
theorem task_table_iff {cfg : Config} {build : Build} {image : List MmapArgs}
    {found : Vm.Task} {task : Nat → TaskStruct} {m : Machine} {fuel : Nat}
    {k last : Kernel} {events : List Event}
    (started : Kernel.taskInit cfg build image found task m = .ok k) :
    Kernel.TaskTable build.nrTasks k ∧
      (Run (fun k event next => Kernel.Step cfg fuel k event next ∧
          Kernel.Conforms build.nrTasks k event next) k events last ↔
        Run (Guarded (Kernel.Step cfg fuel) (Kernel.HasRoom build.nrTasks))
          k events last) := by
  have base := Kernel.taskInit_table started
  refine ⟨base, ?_, ?_⟩
  · intro conforming
    have both : Kernel.TaskTable build.nrTasks last ∧
        Run (Guarded (Kernel.Step cfg fuel) (Kernel.HasRoom build.nrTasks))
          k events last := by
      induction conforming with
      | nil => exact ⟨base, .nil⟩
      | snoc _ taken induction =>
          obtain ⟨table, guarded⟩ := induction
          exact ⟨taken.2.1, guarded.snoc
            ⟨taken.1, Kernel.hasRoom_of_conforms taken.1 taken.2⟩⟩
    exact both.2
  · intro guarded
    have both : Kernel.TaskTable build.nrTasks last ∧
        Run (fun k event next => Kernel.Step cfg fuel k event next ∧
          Kernel.Conforms build.nrTasks k event next) k events last := by
      induction guarded with
      | nil => exact ⟨base, .nil⟩
      | snoc _ taken induction =>
          obtain ⟨table, conforming⟩ := induction
          exact ⟨table.step taken.1 taken.2, conforming.snoc
            ⟨taken.1, Kernel.conforms_of_hasRoom table taken.1 taken.2⟩⟩
    exact both.2

/-! ## A small machine -/

namespace SmallMachine

/-- Sixteen pages, of which the first two hold the kernel and the root table. -/
def config : Config where
  top := 4
  reserved := 2
  refCnt := phyStart
  swapper := ramBase + 1
  sramdisk := phyStart
  fill := .asFound
  absentNull := false

/-- Cleared memory. -/
def machine : Machine where
  buddy := Mm.Buddy.reserve 2 (Mm.Buddy.fresh (2 ^ 4))
  mem := fun _ => 0
  oom := false

/-- A task without an address space. -/
def nobody : TaskStruct where
  state := 0
  counter := 0
  priority := 0
  pid := 0
  mm := { pgd := 0, mmap := [] }

/-- The last word of the stack. -/
def stackTop : Nat :=
  userEnd - 8

/-- `task_init` for an image without segments. -/
def started (build : Build) : Except Stop Kernel :=
  Kernel.taskInit config build [] nobody.mm (fun _ => nobody) machine

/--
`task_init`, the first store of the first task to its stack, without which
`do_fork` reads through a `NULL`, and then its fork.
-/
def firstFork (build : Build) :
    Except Stop (Kernel × Machine × Nat × Kernel) := do
  let k ← started build
  let machine ← doPageFault config k.machine (k.sched.task 1).mm .store stackTop
  let (result, next) ← Kernel.doFork config 1 { k with machine }
  return (k, machine, result, next)

/-- The two calls are steps of a run. -/
theorem exists_of_firstFork {build : Build} {count : Nat}
    (returns : (firstFork build).map
      (fun outcome => (outcome.1.sched.nrTasks, outcome.2.2.1)) =
        .ok (count, count)) (two : 2 ≤ count) :
    ∃ k machine next, started build = .ok k ∧ k.sched.nrTasks = count ∧
      Kernel.Step config 2 k (.fault 1 .store stackTop) { k with machine } ∧
      Kernel.Step config 2 { k with machine } (.fork 1 count) next := by
  unfold firstFork at returns
  cases start : started build with
  | error stop =>
      rw [start] at returns
      cases returns
  | ok k =>
      rw [start] at returns
      simp only [bind, Except.bind] at returns
      cases filled : doPageFault config k.machine (k.sched.task 1).mm .store
          stackTop with
      | error stop =>
          simp only [filled] at returns
          cases returns
      | ok machine =>
          simp only [filled] at returns
          cases forked : Kernel.doFork config 1 { k with machine } with
          | error stop =>
              simp only [forked] at returns
              cases returns
          | ok outcome =>
              obtain ⟨result, next⟩ := outcome
              simp only [forked, pure, Except.pure, Except.map,
                Except.ok.injEq, Prod.mk.injEq] at returns
              obtain ⟨counts, rfl⟩ := returns
              have isTask : 1 < k.sched.nrTasks := by omega
              exact ⟨k, machine, next, rfl, counts,
                .fault (Nat.le_refl 1) isTask filled,
                .fork (Nat.le_refl 1) isTask forked⟩

end SmallMachine

/--
With room for five tasks the started task may touch its stack and fork: both
steps conform.
-/
theorem task_table_iff_first_fork :
    ∃ k next, SmallMachine.started ⟨true, true⟩ = .ok k ∧
      Run (fun k event next =>
        Kernel.Step SmallMachine.config 2 k event next ∧
          Kernel.Conforms 5 k event next) k
        [.fault 1 .store SmallMachine.stackTop, .fork 1 2] next := by
  obtain ⟨k, machine, next, start, counts, fault, fork⟩ :=
    @SmallMachine.exists_of_firstFork ⟨true, true⟩ 2 (by decide +kernel)
      (Nat.le_refl 2)
  have room : Kernel.HasRoom 5 { k with machine } (.fork 1 2) := by
    show k.sched.nrTasks < 5
    omega
  exact ⟨k, next, start, (task_table_iff start).2.2
    ((Run.single ⟨fault, trivial⟩).snoc ⟨fork, room⟩)⟩

/--
In the default build `task_init` fills the array.  The first task touches its
stack, and its fork returns the process number `2` after a store behind the
array.
-/
theorem first_fork_leaves_array :
    ∃ k middle next, SmallMachine.started ⟨false, false⟩ = .ok k ∧
      k.sched.nrTasks = Build.nrTasks ⟨false, false⟩ ∧
      Kernel.Step SmallMachine.config 2 k
        (.fault 1 .store SmallMachine.stackTop) middle ∧
      Kernel.Step SmallMachine.config 2 middle (.fork 1 2) next ∧
      2 ∈ next.stored ∧
      ¬ Kernel.Conforms (Build.nrTasks ⟨false, false⟩) middle (.fork 1 2)
        next := by
  obtain ⟨k, machine, next, start, counts, fault, fork⟩ :=
    @SmallMachine.exists_of_firstFork ⟨false, false⟩ 2 (by decide +kernel)
      (Nat.le_refl 2)
  refine ⟨k, { k with machine }, next, start, counts, fault, fork, ?_,
    fun conforms => ?_⟩
  · cases fork with
    | fork _ _ returns =>
        obtain ⟨before, task, sameSched, _, _, -, rfl⟩ :=
          Kernel.doFork_append returns
        have index : before.sched.nrTasks = 2 := by rw [sameSched, counts]
        rw [Kernel.append, index]
        exact List.mem_cons_self
  · have room := Kernel.hasRoom_of_conforms fork conforms
    exact absurd room (by simp [Kernel.HasRoom, counts, Build.nrTasks])

end TinyRiscvOs.Proc
