import TinyRiscvOs.Vm.DemandPaging

/-!
# What is left on a page that a fault maps

`alloc_page` does not clear the page it hands out, and `do_page_fault` writes
no more of it than the bytes of the area's file.  So two runs that differ in
what other tasks stored may give a task different pages: the bytes of its
program are the same in both, and the rest of the page is what was left there.
-/

namespace TinyRiscvOs.Vm

open TinyRiscvOs.Lib
open TinyRiscvOs.Mm

/-! ## Steps of the tasks -/

/-- A byte of memory is written. -/
def System.store (s : System) (pa : Nat) (value : Byte) : System where
  machine :=
    { s.machine with mem := Function.update s.machine.mem pa value }
  task := s.task

/-- What tasks do. -/
inductive TaskEvent where
  | load (id va : Nat)
  | store (id va : Nat) (value : Byte)
  | pageFault (id : Nat) (access : Access) (badAddr : Nat)
  | fork (id : Nat)

/-- Accesses that are translated, the faults of those that are not, and forks. -/
inductive TaskStep (cfg : Config) : System → TaskEvent → System → Prop where
  | load {s : System} {id va pa : Nat} {t : Task}
      (taskAt : s.task[id]? = some t)
      (translates : translate s.machine.mem t.pgd .user .load va = some pa) :
      TaskStep cfg s (.load id va) s
  | store {s : System} {id va pa : Nat} {value : Byte} {t : Task}
      (taskAt : s.task[id]? = some t) (user : va < 2 ^ 38)
      (translates : translate s.machine.mem t.pgd .user .store va = some pa) :
      TaskStep cfg s (.store id va value) (s.store pa value)
  | pageFault {s next : System} {id badAddr : Nat} {access : Access} {t : Task}
      (taskAt : s.task[id]? = some t)
      (raised : translate s.machine.mem t.pgd .user access badAddr = none)
      (step : SystemStep cfg s (.pageFault id access badAddr) next) :
      TaskStep cfg s (.pageFault id access badAddr) next
  | fork {s next : System} {id : Nat}
      (step : SystemStep cfg s (.fork id) next) :
      TaskStep cfg s (.fork id) next

/-- New tables are empty, and a task that forks has the tables of its areas. -/
def ForksHaveTables (cfg : Config) (s : System) (event : TaskEvent) : Prop :=
  Blank cfg s.machine ∧
    match event with
    | .fork id => ∀ t, s.task[id]? = some t → t.HasTables s.machine.mem
    | _ => True

/-- The same step, except for a byte that another task than the observer stores. -/
inductive SameStep (observer : Nat) : TaskEvent → TaskEvent → Prop where
  | same (event : TaskEvent) : SameStep observer event event
  | store {id va : Nat} {value other : Byte} (hidden : id ≠ observer) :
      SameStep observer (.store id va value) (.store id va other)

/-! ## A fork leaves the kernel's pages alone -/

/-- A page that is in use and holds no table passes through the loops. -/
theorem ForkRun.keeps {cfg : Config} {task : List Task} {parent child : Nat}
    {t : Task} {m after : Machine} {visits : List (Option Nat)}
    (run : ForkRun cfg task parent child t m visits after) {frame : Nat}
    (live : Live m frame) (notTable : ¬ IsTable cfg task m.mem frame) :
    SameFrame m.mem after.mem frame := by
  have kept : Live after frame ∧ ¬ IsTable cfg task after.mem frame ∧
      SameFrame m.mem after.mem frame := by
    induction run with
    | nil => exact ⟨live, notTable, SameFrame.refl _ _⟩
    | snoc _ step induction =>
        obtain ⟨live, notTable, same⟩ := induction
        cases step with
        | claimed inv prepared =>
            exact ⟨prepared.live_of frame live,
              fun isTable => notTable ((prepared.isTable frame).1 isTable),
              same.trans (prepared.same frame fun fresh =>
                prepared.isFresh (fresh ▸ live))⟩
        | visited inv user round kernelKept =>
            rw [Round] at round
            split at round
            · exact ⟨round.live frame live,
                fun isTable => (round.isTable frame isTable).elim notTable
                  fun dead => dead live,
                same.trans (round.same frame live notTable)⟩
            · rw [round]
              exact ⟨live, notTable, same⟩
  exact kept.2.2

namespace Inv

variable {cfg : Config} {task : List Task} {kernel : Finset Nat}
    {m after : Machine} {id : Nat} {t child : Task}

theorem forkRoot_same (inv : Inv cfg task kernel (2 ^ 26 * kernel.card) m)
    (taskAt : task[id]? = some t)
    (succeeds : (Vm.forkRoot cfg m).2.oom = false) {frame : Nat}
    (live : Live m frame) :
    SameFrame m.mem (Vm.forkRoot cfg m).2.mem frame := by
  obtain ⟨firstOk, secondOk⟩ := forkRoot_oom_mono succeeds
  have areas := inv.areas t (List.mem_iff_getElem?.2 ⟨id, taskAt⟩)
  rw [forkRoot_eq]
  dsimp only
  rw [Config.allocPage] at firstOk secondOk ⊢
  obtain ⟨_, firstInv, _, first⟩ := inv.claimBounded firstOk
  rw [Config.allocPage] at secondOk ⊢
  obtain ⟨_, second, _⟩ := firstInv.plantCopy secondOk areas
  have middle := first.live_of frame live
  exact (first.same frame fun fresh => first.isFresh (fresh ▸ live)).trans
    (second.same frame fun fresh => second.isFresh (fresh ▸ middle))

theorem doFork_same (inv : Inv cfg task kernel (2 ^ 26 * kernel.card) m)
    (blank : Blank cfg m) (source : cfg.absentNull = false)
    (taskAt : task[id]? = some t) (present : t.HasTables m.mem)
    (returns : Vm.doFork cfg .copyOnWrite m t = .ok (child, after))
    (succeeds : after.oom = false) {frame : Nat} (member : frame ∈ kernel) :
    SameFrame m.mem after.mem frame := by
  have users := inv.areas t (List.mem_iff_getElem?.2 ⟨id, taskAt⟩)
  obtain ⟨rfl, _, _⟩ := forkScan_of_doFork users returns
  obtain ⟨_, _, _, _, _, _, run⟩ :=
    (inv.forkScan blank source taskAt succeeds).2 present
  rw [forkScan_eq] at succeeds
  have rootOk : (Vm.forkRoot cfg m).2.oom = false :=
    succeeds_of_mono scanVmas_oom_mono succeeds
  obtain ⟨⟨_, grown, rootInv⟩, _⟩ := inv.forkRoot taskAt rootOk
  exact (inv.forkRoot_same taskAt rootOk (inv.kernel_live frame member)).trans
    (run.keeps (rootInv.kernel_live frame (grown member))
      (rootInv.kernel_apart frame (grown member)))

end Inv

/-! ## The areas of the tasks, step by step -/

/-- A fork gives the child the areas of its parent in reverse. -/
def areasAfter (areas : List (List Vma)) : TaskEvent → List (List Vma)
  | .fork id => areas ++ [(areas.getD id []).reverse]
  | _ => areas

theorem SameStep.areasAfter_eq {observer : Nat} {event other : TaskEvent}
    (same : SameStep observer event other) (areas : List (List Vma)) :
    areasAfter areas event = areasAfter areas other := by
  cases same <;> rfl

/-- What the program and the areas of a run are, for the contents `file` of the ramdisk. -/
structure TaskInv (cfg : Config) (start : System) (events : List TaskEvent)
    (s : System) : Prop where
  spaces : ImageInv cfg s
  ramdisk : ∀ address, cfg.InRamdisk address →
    s.machine.mem address = start.machine.mem address
  areas : s.task.map Task.mmap =
    events.foldl areasAfter (start.task.map Task.mmap)

namespace TaskInv

variable {cfg : Config} {start s next : System} {events : List TaskEvent}
    {event : TaskEvent}

theorem step (source : cfg.absentNull = false)
    (inv : TaskInv cfg start events s)
    (taken : Guarded (TaskStep cfg) (ForksHaveTables cfg) s event next) :
    TaskInv cfg start (events ++ [event]) next := by
  obtain ⟨kernel, image, spaces⟩ := inv.spaces
  obtain ⟨step, blank, there⟩ := taken
  have areas : (events ++ [event]).foldl areasAfter
      (start.task.map Task.mmap) = areasAfter (s.task.map Task.mmap) event := by
    rw [List.foldl_append, ← inv.areas]
    rfl
  cases step with
  | load => exact ⟨inv.spaces, inv.ramdisk, areas.symm⟩
  | @store _ _ pa value _ taskAt user translates =>
      obtain ⟨held, _⟩ := spaces.translate_some taskAt user translates
      obtain ⟨nextSpaces, _, kept⟩ := spaces.storeByte value held
      exact
        { spaces := ⟨kernel, image, nextSpaces⟩
          ramdisk := fun address inRamdisk =>
            (inRamdisk.same image kept).trans (inv.ramdisk address inRamdisk)
          areas := areas.symm }
  | pageFault _ _ fault =>
      have nextSpaces := ImageInv.step source inv.spaces
        (⟨fault, blank, trivial⟩ : Guarded (SystemStep cfg) (TablesThere cfg)
          s _ next)
      cases fault with
      | pageFault taskAt returns succeeds =>
          obtain ⟨_, _, _, _, faulted⟩ :=
            spaces.doPageFault blank taskAt returns succeeds
          refine ⟨nextSpaces, fun address inRamdisk => ?_, areas.symm⟩
          refine (inRamdisk.same image fun frame isKernel => ?_).trans
            (inv.ramdisk address inRamdisk)
          have live := spaces.kernel_live frame isKernel
          have notTable := spaces.kernel_apart frame isKernel
          split at faulted
          · exact faulted.same frame live notTable
          · exact faulted.same frame live notTable
  | fork step =>
      have nextSpaces := ImageInv.step source inv.spaces
        (⟨step, blank, there⟩ : Guarded (SystemStep cfg) (TablesThere cfg)
          s _ next)
      cases step with
      | fork taskAt returns succeeds =>
          have member := List.mem_of_getElem? taskAt
          have words := fun vma isArea =>
            (spaces.areas _ member vma isArea).words
          refine ⟨nextSpaces, fun address inRamdisk => ?_, ?_⟩
          · exact (inRamdisk.same image fun frame isKernel =>
              spaces.doFork_same blank source taskAt (there _ taskAt) returns
                succeeds isKernel).trans (inv.ramdisk address inRamdisk)
          · rw [areas, areasAfter, List.map_append, List.map_singleton,
              doFork_mmap words returns, List.getD_eq_getElem?_getD,
              List.getElem?_map, taskAt]
            rfl

theorem run (source : cfg.absentNull = false)
    (base : ImageInv cfg start)
    (run : Run (Guarded (TaskStep cfg) (ForksHaveTables cfg)) start events s) :
    TaskInv cfg start events s := by
  refine run.invariant_history ?_ ?_
  · exact ⟨base, fun _ _ => rfl, rfl⟩
  · exact fun _ _ _ _ inv taken => inv.step source taken

/-- The same steps lead to tasks with the same areas. -/
theorem mmap_eq {observer id : Nat} {others : List TaskEvent} {s' : System}
    (inv : TaskInv cfg start events s) (inv' : TaskInv cfg start others s')
    (same : List.Forall₂ (SameStep observer) events others) {t t' : Task}
    (taskAt : s.task[id]? = some t) (taskAt' : s'.task[id]? = some t') :
    t.mmap = t'.mmap := by
  have folds : ∀ areas, events.foldl areasAfter areas =
      others.foldl areasAfter areas := by
    clear inv inv'
    induction same with
    | nil => exact fun _ => rfl
    | cons head _ induction =>
        intro areas
        rw [List.foldl_cons, List.foldl_cons, head.areasAfter_eq]
        exact induction _
  have areas : s.task.map Task.mmap = s'.task.map Task.mmap := by
    rw [inv.areas, inv'.areas, folds]
  have here := congrArg (·[id]?) areas
  simp only [List.getElem?_map, taskAt, taskAt', Option.map_some,
    Option.some_inj] at here
  exact here

end TaskInv

/-! ## The page of a fault -/

/-- The byte of the address comes from the file of the area. -/
def Vma.Copied (vma : Vma) (va : Nat) : Prop :=
  vma.vmFlags &&& vmAnon = 0 ∧ vma.Contains va

/-- The page that `alloc_page` hands out, as it is. -/
def Config.leftOver (cfg : Config) (m : Machine) (offset : Nat) : Byte :=
  (cfg.allocPage m).2.mem (4096 * (cfg.allocPage m).1 + offset)

/-- The page that a fault is about to get has the same bytes wherever the file brings none. -/
def SameLeftOver (cfg : Config) (vma : Vma) (badAddr : Nat) (m m' : Machine) :
    Prop :=
  ∀ va, va / 4096 = badAddr / 4096 → ¬ vma.Copied va →
    cfg.leftOver m (va % 4096) = cfg.leftOver m' (va % 4096)

/-- Every byte that two tasks can load from the page is the same for both. -/
def SamePage (mem mem' : Bytes) (t t' : Task) (badAddr : Nat) : Prop :=
  ∀ va pa pa', va / 4096 = badAddr / 4096 →
    translate mem t.pgd .user .load va = some pa →
    translate mem' t'.pgd .user .load va = some pa' →
    mem pa = mem' pa'

/-- The rest of the page is left as it was. -/
theorem Inv.demandFill_leftOver (cfg : Config) (m : Machine) {vma : Vma}
    {badAddr va : Nat} (small : badAddr < 2 ^ 38)
    (samePage : va / 4096 = badAddr / 4096) (notCopied : ¬ vma.Copied va) :
    demandFill cfg m vma badAddr (4096 * (cfg.allocPage m).1 + va % 4096) =
      cfg.leftOver m (va % 4096) := by
  rw [demandFill, Config.leftOver]
  split
  · rename_i fileBacked
    have outside : ¬ vma.Contains va := fun contains =>
      notCopied ⟨fileBacked, contains⟩
    have round := pgRoundUp_succ small
    have down := pgRoundDown_eq badAddr
    rw [Vma.Contains] at outside
    refine Bytes.move_outside ?_
    omega
  · rfl

theorem allows_load {vmFlags : Nat} (small : vmFlags < 16) :
    LeafEntry (pagePerm vmFlags) ∧
        allows .user .load (pagePerm vmFlags) = true ↔ has vmRead vmFlags := by
  revert vmFlags
  decide

namespace Inv

variable {cfg : Config} {task : List Task} {kernel : Finset Nat} {budget : Nat}
    {m after : Machine} {id badAddr : Nat} {access : Access} {t : Task}
    {vma : Vma}

/-- What the task loads from the page. -/
theorem demand_load (inv : Inv cfg task kernel budget m)
    (taskAt : task[id]? = some t) (found : findVma t.mmap badAddr = some vma)
    (fault : DemandFault cfg m t access badAddr after) {va pa : Nat}
    (samePage : va / 4096 = badAddr / 4096) :
    translate after.mem t.pgd .user .load va = some pa ↔
      has vmRead vma.vmFlags ∧ pa = 4096 * (cfg.allocPage m).1 + va % 4096 := by
  have member := List.mem_of_getElem? taskAt
  obtain ⟨_, area, _, small, user⟩ := inv.fault_page member found
  obtain ⟨afterInv, faulted⟩ := inv.demandFault taskAt found fault
  have ppn := (holds_eq_some.1 (faulted.holds_new afterInv area.flags)).2
  have value := faulted.pte (id, badAddr / 4096)
  rw [if_pos rfl] at value
  have granted : LeafEntry (pte after.mem task (id, badAddr / 4096)) ∧
      allows .user .load (pte after.mem task (id, badAddr / 4096)) = true ↔
      has vmRead vma.vmFlags := by
    rw [value, leafEntry_entry, allows_entry]
    exact allows_load area.flags
  rw [afterInv.translate_eq taskAt (by omega), samePage, ppn]
  by_cases read : has vmRead vma.vmFlags
  · rw [if_pos (granted.2 read), Option.some_inj]
    exact ⟨fun equal => ⟨read, equal.symm⟩, fun both => both.2.symm⟩
  · rw [if_neg fun both => read (granted.1 both)]
    exact iff_of_false (by simp) fun both => read both.1

theorem demand_filled (inv : Inv cfg task kernel budget m)
    (taskAt : task[id]? = some t) (found : findVma t.mmap badAddr = some vma)
    (fault : DemandFault cfg m t access badAddr after) (va : Nat) :
    after.mem (4096 * (cfg.allocPage m).1 + va % 4096) =
      demandFill cfg m vma badAddr
        (4096 * (cfg.allocPage m).1 + va % 4096) :=
  (inv.demandFault taskAt found fault).2.filled _ (Nat.mod_lt _ (by decide))

end Inv

/-- The bytes of the file on the page are those of the ramdisk. -/
theorem TaskInv.demand_copied {cfg : Config} {start s : System}
    {events : List TaskEvent} (inv : TaskInv cfg start events s)
    {id badAddr va : Nat} {access : Access} {t : Task} {vma : Vma}
    {after : Machine} (taskAt : s.task[id]? = some t)
    (found : findVma t.mmap badAddr = some vma)
    (fault : DemandFault cfg s.machine t access badAddr after)
    (samePage : va / 4096 = badAddr / 4096) (copied : vma.Copied va)
    (inRamdisk : cfg.InRamdisk (vma.fileAddress cfg va)) :
    after.mem (4096 * (cfg.allocPage s.machine).1 + va % 4096) =
      start.machine.mem (vma.fileAddress cfg va) := by
  obtain ⟨kernel, image, spaces⟩ := inv.spaces
  have member := List.mem_of_getElem? taskAt
  obtain ⟨_, _, _, small, _⟩ := spaces.fault_page member found
  calc
    after.mem _ = Inv.demandFill cfg s.machine vma badAddr _ :=
      spaces.demand_filled taskAt found fault va
    _ = s.machine.mem (vma.fileAddress cfg va) :=
      spaces.demandFill_byte image (spaces.demand_allocates taskAt found fault)
        small copied.1 samePage copied.2 inRamdisk.1
    _ = start.machine.mem (vma.fileAddress cfg va) :=
      inv.ramdisk _ inRamdisk

/--
In two runs with the same steps, in which only other tasks stored other bytes,
a fault without copy-on-write gives the task the same page exactly when the
page of the allocator holds the same bytes wherever the file brings none, or
when the area may not be read.
-/
theorem demandFault_same_iff {cfg : Config} (source : cfg.absentNull = false)
    {mem : Bytes} {maps : List KernelMap} {programs : List (List MmapArgs)}
    {start : System} (blank : Blank cfg (Boot.machine cfg mem))
    (bootable : Bootable cfg maps programs)
    (booted : boot cfg mem maps programs = .ok start)
    (succeeds : start.machine.oom = false)
    {observer : Nat} {events others : List TaskEvent} {s s' : System}
    (run : Run (Guarded (TaskStep cfg) (ForksHaveTables cfg)) start events s)
    (run' : Run (Guarded (TaskStep cfg) (ForksHaveTables cfg)) start others s')
    (same : List.Forall₂ (SameStep observer) events others)
    {t t' : Task} {vma : Vma} {access : Access} {badAddr : Nat}
    {after after' : Machine} (taskAt : s.task[observer]? = some t)
    (taskAt' : s'.task[observer]? = some t')
    (found : findVma t.mmap badAddr = some vma)
    (fault : DemandFault cfg s.machine t access badAddr after)
    (fault' : DemandFault cfg s'.machine t' access badAddr after')
    (inRamdisk : ∀ va, va / 4096 = badAddr / 4096 → vma.Copied va →
      cfg.InRamdisk (vma.fileAddress cfg va)) :
    SamePage after.mem after'.mem t t' badAddr ↔
      (has vmRead vma.vmFlags →
        SameLeftOver cfg vma badAddr s.machine s'.machine) := by
  have base : ImageInv cfg start := boot_inv blank bootable booted succeeds
  have inv := TaskInv.run source base run
  have inv' := TaskInv.run source base run'
  have found' : findVma t'.mmap badAddr = some vma := by
    rw [← inv.mmap_eq inv' same taskAt taskAt']
    exact found
  obtain ⟨_, _, spaces⟩ := inv.spaces
  obtain ⟨_, _, spaces'⟩ := inv'.spaces
  have member := List.mem_of_getElem? taskAt
  obtain ⟨_, _, _, small, _⟩ := spaces.fault_page member found
  -- A byte that the file does not bring is the one that was left there.
  have left (va : Nat) (samePage : va / 4096 = badAddr / 4096)
      (notCopied : ¬ vma.Copied va) :
      after.mem (4096 * (cfg.allocPage s.machine).1 + va % 4096) =
          cfg.leftOver s.machine (va % 4096) ∧
        after'.mem (4096 * (cfg.allocPage s'.machine).1 + va % 4096) =
          cfg.leftOver s'.machine (va % 4096) :=
    ⟨(spaces.demand_filled taskAt found fault va).trans
        (Inv.demandFill_leftOver cfg _ small samePage notCopied),
      (spaces'.demand_filled taskAt' found' fault' va).trans
        (Inv.demandFill_leftOver cfg _ small samePage notCopied)⟩
  constructor
  · intro samePages read va samePage notCopied
    obtain ⟨byte, byte'⟩ := left va samePage notCopied
    rw [← byte, ← byte']
    exact samePages va _ _ samePage
      ((spaces.demand_load taskAt found fault samePage).2 ⟨read, rfl⟩)
      ((spaces'.demand_load taskAt' found' fault' samePage).2 ⟨read, rfl⟩)
  · intro sameLeftOver va pa pa' samePage translates translates'
    obtain ⟨read, rfl⟩ :=
      (spaces.demand_load taskAt found fault samePage).1 translates
    obtain ⟨_, rfl⟩ :=
      (spaces'.demand_load taskAt' found' fault' samePage).1 translates'
    by_cases copied : vma.Copied va
    · have address := inRamdisk va samePage copied
      rw [inv.demand_copied taskAt found fault samePage copied address,
        inv'.demand_copied taskAt' found' fault' samePage copied address]
    · obtain ⟨byte, byte'⟩ := left va samePage copied
      rw [byte, byte']
      exact sameLeftOver read va samePage copied

/-! ## A byte on another task's stack -/

namespace StackLeak

open SmallProgram (config result eq_ok)

/-- An address on the stack. -/
abbrev top : Nat := userEnd - 8

/-- Two tasks that use nothing but their stacks. -/
def booted : System :=
  result { machine := Boot.machine (config .kallocZeroed) fun _ => 0, task := [] }
    (boot (config .kallocZeroed) (fun _ => 0) [] [[stackArea], [stackArea]])

def task (s : System) (id : Nat) : Task :=
  s.task.getD id { pgd := 0, mmap := [] }

/-- After a page fault of a task on its stack. -/
def faulted (s : System) (id : Nat) (access : Access) : System where
  machine := result s.machine
    (doPageFault (config .kallocZeroed) s.machine (task s id) access top)
  task := s.task

/-- After a fork of the first task. -/
def forked (s : System) : System :=
  let forked := result (task s 0, s.machine)
    (doFork (config .kallocZeroed) .copyOnWrite s.machine (task s 0))
  { machine := forked.2, task := s.task ++ [forked.1] }

/-- Where the first task has its stack. -/
def address : Nat :=
  (translate (faulted booted 0 .store).machine.mem (task booted 0).pgd .user
    .store top).getD 0

/-- The first task has stored a secret on its stack. -/
def stored (secret : Bool) : System :=
  (faulted booted 0 .store).store address (if secret then 1 else 2)

/-- Then it has forked, and both have written to their stacks. -/
def released (secret : Bool) : System :=
  faulted (faulted (forked (stored secret)) 0 .store) 2 .store

/-- The second task has read from its stack. -/
def read (secret : Bool) : System :=
  faulted (released secret) 1 .load

def events (secret : Bool) : List TaskEvent :=
  [.pageFault 0 .store top, .store 0 top (if secret then 1 else 2), .fork 0,
    .pageFault 0 .store top, .pageFault 2 .store top]

/-- A fault on the stack that is raised and served. -/
def Faults (s : System) (id : Nat) (access : Access) : Prop :=
  s.task[id]? = some (task s id) ∧
    translate s.machine.mem (task s id).pgd .user access top = none ∧
    (doPageFault (config .kallocZeroed) s.machine (task s id) access
      top).isOk = true ∧
    (faulted s id access).machine.oom = false

instance (s : System) (id : Nat) (access : Access) :
    Decidable (Faults s id access) :=
  inferInstanceAs (Decidable (_ ∧ _ ∧ _ ∧ _))

theorem blank (m : Machine) : Blank (config .kallocZeroed) m :=
  Or.inl (by decide)

theorem Faults.served {s : System} {id : Nat} {access : Access}
    (faults : Faults s id access) :
    doPageFault (config .kallocZeroed) s.machine (task s id) access top =
      .ok (faulted s id access).machine :=
  eq_ok s.machine faults.2.2.1

theorem Faults.taken {s : System} {id : Nat} {access : Access}
    (faults : Faults s id access) :
    Guarded (TaskStep (config .kallocZeroed))
      (ForksHaveTables (config .kallocZeroed)) s (.pageFault id access top)
      (faulted s id access) := by
  have served := faults.served
  obtain ⟨taskAt, raised, _, succeeds⟩ := faults
  exact ⟨.pageFault taskAt raised (.pageFault taskAt served succeeds),
    blank _, trivial⟩

theorem stored_taken (secret : Bool) :
    Guarded (TaskStep (config .kallocZeroed))
      (ForksHaveTables (config .kallocZeroed)) (faulted booted 0 .store)
      (.store 0 top (if secret then 1 else 2)) (stored secret) := by
  have taskAt : (faulted booted 0 .store).task[0]? = some (task booted 0) := by
    decide +kernel
  have translates : translate (faulted booted 0 .store).machine.mem
      (task booted 0).pgd .user .store top = some address := by
    decide +kernel
  exact ⟨.store taskAt (by decide) translates, blank _, trivial⟩

/-- What the two runs come to, evaluated. -/
theorem facts (secret : Bool) :
    ((stored secret).task[0]? = some (task (stored secret) 0) ∧
      (task (stored secret) 0).mmap = [stackArea.vma] ∧
      findPte (stored secret).machine.mem (task (stored secret) 0).pgd
        (4096 * (stackArea.vma.vmStart / 4096)) ≠ none) ∧
    ((doFork (config .kallocZeroed) .copyOnWrite (stored secret).machine
        (task (stored secret) 0)).isOk = true ∧
      (forked (stored secret)).machine.oom = false) ∧
    (Faults (forked (stored secret)) 0 .store ∧
      Faults (faulted (forked (stored secret)) 0 .store) 2 .store) ∧
    ((released secret).task[1]? = some (task booted 1) ∧
      task (released secret) 1 = task booted 1 ∧
      Faults (released secret) 1 .load) ∧
    (count (stored secret).machine (address / 4096) = 1 ∧
      count (released secret).machine (address / 4096) = 0) ∧
    translate (read secret).machine.mem (task booted 1).pgd .user .load top =
      some address := by
  cases secret <;> decide +kernel

theorem hasTables (secret : Bool) :
    (task (stored secret) 0).HasTables (stored secret).machine.mem := by
  obtain ⟨⟨_, areas, found⟩, _⟩ := facts secret
  intro vma isArea
  rw [areas] at isArea
  obtain rfl := List.mem_singleton.1 isArea
  intro page lower upper
  have one : stackArea.vma.pageCount = 1 := by decide
  obtain rfl : page = stackArea.vma.vmStart / 4096 := by omega
  exact found

theorem forked_step {s : System} (taskAt : s.task[0]? = some (task s 0))
    (returns : (doFork (config .kallocZeroed) .copyOnWrite s.machine
      (task s 0)).isOk = true)
    (succeeds : (forked s).machine.oom = false) :
    SystemStep (config .kallocZeroed) s (.fork 0) (forked s) :=
  .fork taskAt (SmallProgram.eq_ok_pair (task s 0, s.machine) returns) succeeds

theorem forked_taken (secret : Bool) :
    Guarded (TaskStep (config .kallocZeroed))
      (ForksHaveTables (config .kallocZeroed)) (stored secret) (.fork 0)
      (forked (stored secret)) := by
  obtain ⟨⟨taskAt, _⟩, ⟨returns, succeeds⟩, _⟩ := facts secret
  refine ⟨.fork (forked_step taskAt returns succeeds), blank _,
    fun t otherAt => ?_⟩
  have same : task (stored secret) 0 = t :=
    Option.some_inj.1 (taskAt.symm.trans otherAt)
  exact same ▸ hasTables secret

theorem released_run (secret : Bool) :
    Run (Guarded (TaskStep (config .kallocZeroed))
        (ForksHaveTables (config .kallocZeroed))) booted (events secret)
      (released secret) := by
  have first : Faults booted 0 .store := by decide +kernel
  obtain ⟨_, _, ⟨parent, child⟩, _⟩ := facts secret
  have steps := ((((Run.single first.taken).append
    (Run.single (stored_taken secret))).append
    (Run.single (forked_taken secret))).append
    (Run.single parent.taken)).append (Run.single child.taken)
  exact steps

theorem same_steps :
    List.Forall₂ (SameStep 1) (events false) (events true) :=
  .cons (.same _) (.cons (.store (by decide)) (.cons (.same _)
    (.cons (.same _) (.cons (.same _) .nil))))

theorem released_task (secret : Bool) :
    (released secret).task[1]? = some (task booted 1) := by
  obtain ⟨_, _, _, ⟨taskAt, _⟩, _⟩ := facts secret
  exact taskAt

theorem read_fault (secret : Bool) :
    DemandFault (config .kallocZeroed) (released secret).machine (task booted 1)
      .load top (read secret).machine := by
  obtain ⟨_, _, _, ⟨_, same, faults⟩, _⟩ := facts secret
  have served := faults.served
  rw [same] at served
  exact ⟨blank _, rfl, served, faults.2.2.2⟩

theorem boot_eq :
    boot (config .kallocZeroed) (fun _ => 0) [] [[stackArea], [stackArea]] =
      .ok booted :=
  eq_ok _ (by decide +kernel)

theorem bootable :
    Bootable (config .kallocZeroed) [] [[stackArea], [stackArea]] := by
  refine ⟨(SmallProgram.bootable .kallocZeroed).layout, by simp, ?_⟩
  intro areas isProgram args isArea
  rcases List.mem_pair.1 isProgram with rfl | rfl
  · obtain rfl := List.mem_singleton.1 isArea
    exact ⟨by decide, by decide, by decide⟩
  · obtain rfl := List.mem_singleton.1 isArea
    exact ⟨by decide, by decide, by decide⟩

end StackLeak

open SmallProgram (config) in
open StackLeak in
/-- The theorem for the two runs. -/
theorem demandFault_same_iff_stack :
    SamePage (read false).machine.mem (read true).machine.mem (task booted 1)
        (task booted 1) top ↔
      (has vmRead stackArea.vma.vmFlags →
        SameLeftOver (config .kallocZeroed) stackArea.vma top
          (released false).machine (released true).machine) := by
  have found : findVma (task booted 1).mmap top = some stackArea.vma := by
    decide +kernel
  refine demandFault_same_iff rfl (blank _) bootable boot_eq
    (by decide +kernel) (released_run false) (released_run true) same_steps
    (released_task false) (released_task true) found (read_fault false)
    (read_fault true) fun va _ copied => ?_
  exact absurd copied.1 (by decide)

open SmallProgram (config) in
open StackLeak in
/--
The second task reads from its stack what the first one stored on its own: the
frame was released after both sides of the fork had written, and it was not
cleared.
-/
theorem stack_leaks :
    boot (config .kallocZeroed) (fun _ => 0) [] [[stackArea], [stackArea]] =
        .ok booted ∧
      booted.machine.oom = false ∧
      (∀ secret, Run (Guarded (TaskStep (config .kallocZeroed))
        (ForksHaveTables (config .kallocZeroed))) booted (events secret)
        (released secret)) ∧
      List.Forall₂ (SameStep 1) (events false) (events true) ∧
      (∀ secret, count (stored secret).machine (address / 4096) = 1 ∧
        count (released secret).machine (address / 4096) = 0) ∧
      (∀ secret, (released secret).task[1]? = some (task booted 1)) ∧
      (∀ secret, DemandFault (config .kallocZeroed) (released secret).machine
        (task booted 1) .load top (read secret).machine) ∧
      ¬ SamePage (read false).machine.mem (read true).machine.mem
        (task booted 1) (task booted 1) top := by
  refine ⟨boot_eq, by decide +kernel, released_run, same_steps, ?_,
    released_task, read_fault, fun samePage => ?_⟩
  · intro secret
    obtain ⟨_, _, _, _, counts, _⟩ := facts secret
    exact counts
  · have translates (secret : Bool) : translate (read secret).machine.mem
        (task booted 1).pgd .user .load top = some address := by
      obtain ⟨_, _, _, _, _, translates⟩ := facts secret
      exact translates
    have same := samePage top address address rfl (translates false)
      (translates true)
    revert same
    decide +kernel

end TinyRiscvOs.Vm
