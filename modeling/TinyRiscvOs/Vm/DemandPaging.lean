import TinyRiscvOs.Vm.Counting
import TinyRiscvOs.Vm.LoadElf

/-!
# Demand paging of a program

The tasks load, store and fetch, and the page faults they raise are served in
any order.  As long as no fault is on a page of two areas, a fault that is
raised meets a page without an entry or one that no task has stored to: the
bytes of the file arrive, no page is taken for a copy-on-write page, and what a
task stored stays.  A page of two areas gets the bytes of one of them only.
-/

namespace TinyRiscvOs.Vm

open TinyRiscvOs.Lib
open TinyRiscvOs.Mm

/-! ## After the boot no user page is mapped -/

namespace Inv

variable {cfg : Config} {task : List Task} {kernel : Finset Nat} {m : Machine}

theorem doMmaps_pte (inv : Inv cfg task kernel (2 ^ 26 * kernel.card) m)
    {areas : List MmapArgs} {mmap last : List Vma} {after : Machine}
    (returns : Vm.doMmaps cfg areas mmap m = .ok (last, after))
    (succeeds : after.oom = false) (slot : Slot) :
    pte after.mem task slot = pte m.mem task slot := by
  induction areas generalizing kernel mmap m with
  | nil =>
      cases returns
      rfl
  | cons args rest induction =>
      rw [Vm.doMmaps] at returns
      cases mapped : doMmap cfg m mmap args with
      | error stop =>
          rw [mapped] at returns
          cases returns
      | ok result =>
          obtain ⟨middle, next⟩ := result
          rw [mapped] at returns
          obtain ⟨rfl, rfl⟩ := doMmap_ok mapped
          obtain ⟨_, nextInv, card, prepared⟩ :=
            inv.claimBounded (doMmaps_oom returns succeeds)
          exact (induction (nextInv.mono_budget (by rw [card]; omega))
            returns).trans (prepared.pte slot)

theorem startRoot_pte (inv : Inv cfg task kernel (2 ^ 26 * kernel.card) m)
    (succeeds : (Vm.startRoot cfg m).2.oom = false) (slot : Slot) :
    pte (Vm.startRoot cfg m).2.mem
        (task ++ [⟨(Vm.startRoot cfg m).1, []⟩]) slot =
      pte m.mem task slot := by
  obtain ⟨firstOk, secondOk, thirdOk⟩ := startRoot_oom succeeds
  rw [startRoot_eq]
  dsimp only
  rw [Config.kalloc] at firstOk secondOk thirdOk ⊢
  obtain ⟨_, firstInv, firstCard, first⟩ := inv.claimBounded firstOk
  rw [Config.allocPage] at secondOk thirdOk ⊢
  obtain ⟨_, secondInv, _, second⟩ :=
    (firstInv.mono_budget (by rw [firstCard]; omega)).claimBounded secondOk
  rw [Config.allocPage] at thirdOk ⊢
  have noAreas : ∀ vma ∈ ([] : List Vma), vma.User := by simp
  obtain ⟨_, _, ptes⟩ := secondInv.plantCopy thirdOk noAreas
  exact (ptes slot).trans ((second.pte slot).trans (first.pte slot))

theorem startTask_pte (inv : Inv cfg task kernel (2 ^ 26 * kernel.card) m)
    {areas : List MmapArgs} {t : Task} {after : Machine}
    (returns : Vm.startTask cfg m areas = .ok (t, after))
    (succeeds : after.oom = false) (slot : Slot) :
    pte after.mem (task ++ [t]) slot = pte m.mem task slot := by
  obtain ⟨mapped, pgd⟩ := startTask_ok returns
  have rootOk := doMmaps_oom mapped succeeds
  obtain ⟨_, _, rootInv⟩ := inv.startRoot rootOk
  have same : SameRoots (task ++ [⟨(Vm.startRoot cfg m).1, []⟩])
      (task ++ [t]) := by
    simp only [SameRoots, List.map_append, List.map_cons, pgd]
  rw [same.pte, rootInv.doMmaps_pte mapped succeeds, inv.startRoot_pte rootOk]

theorem startTasks_pte (inv : Inv cfg task kernel (2 ^ 26 * kernel.card) m)
    {programs : List (List MmapArgs)} {last : List Task} {after : Machine}
    (users : ∀ areas ∈ programs, ∀ args ∈ areas, args.vma.User)
    (returns : Vm.startTasks cfg programs task m = .ok (last, after))
    (succeeds : after.oom = false) (slot : Slot) :
    pte after.mem last slot = pte m.mem task slot := by
  induction programs generalizing task kernel m with
  | nil =>
      cases returns
      rfl
  | cons areas rest induction =>
      rw [Vm.startTasks] at returns
      cases started : Vm.startTask cfg m areas with
      | error stop =>
          rw [started] at returns
          cases returns
      | ok result =>
          obtain ⟨t, next⟩ := result
          rw [started] at returns
          have nextOk := startTasks_oom returns succeeds
          obtain ⟨_, _, nextInv⟩ := inv.startTask
            (users areas List.mem_cons_self) started nextOk
          exact (induction nextInv
            (fun other member => users other (List.mem_cons_of_mem _ member))
            returns).trans (inv.startTask_pte started nextOk slot)

end Inv

theorem boot_pte {cfg : Config} {mem : Bytes} {maps : List KernelMap}
    {programs : List (List MmapArgs)} {start : System}
    (blank : Blank cfg (Boot.machine cfg mem))
    (bootable : Bootable cfg maps programs)
    (returns : boot cfg mem maps programs = .ok start)
    (succeeds : start.machine.oom = false) (slot : Slot) :
    pte start.machine.mem start.task slot = 0 := by
  obtain ⟨m, task, last, mapped, started, rfl⟩ := boot_ok returns
  have lastOk := ringPages_oom succeeds
  have idleOk := startTasks_oom started lastOk
  have mappedInv := Boot.mapKernel
    (Boot.machine_inv bootable.layout mem) blank bootable.maps mapped
    (Config.kalloc_oom idleOk)
  obtain ⟨_, idleInv, card, _⟩ := mappedInv.claimBounded idleOk
  have ptes := (idleInv.mono_budget (by rw [card]; omega)).startTasks_pte
    bootable.areas started lastOk slot
  rw [pte_nil] at ptes
  exact ptes

/-! ## Accesses and faults -/

/-- The system, with the last byte that each task stored at each of its addresses. -/
structure Paged where
  system : System
  stored : Nat → Nat → Option Byte

/-- The byte of a store reaches its physical address. -/
def Paged.store (s : Paged) (id va pa : Nat) (value : Byte) : Paged where
  system :=
    { s.system with machine :=
        { s.system.machine with
          mem := Function.update s.system.machine.mem pa value } }
  stored := fun other addr =>
    if other = id ∧ addr = va then some value else s.stored other addr

/-- What tasks do to their own bytes. -/
inductive PagingEvent where
  | read (id : Nat) (access : Access) (va : Nat)
  | store (id va : Nat) (value : Byte)
  | pageFault (id : Nat) (access : Access) (badAddr : Nat)

/--
An access that is translated reads or writes a byte; one that is not raises a
fault, and no allocation of its handler fails.
-/
inductive PagingStep (cfg : Config) : Paged → PagingEvent → Paged → Prop where
  | read {s : Paged} {id va pa : Nat} {access : Access} {t : Task}
      (taskAt : s.system.task[id]? = some t) (notStore : access ≠ .store)
      (translates : translate s.system.machine.mem t.pgd .user access va =
        some pa) :
      PagingStep cfg s (.read id access va) s
  | store {s : Paged} {id va pa : Nat} {value : Byte} {t : Task}
      (taskAt : s.system.task[id]? = some t) (user : va < 2 ^ 38)
      (translates : translate s.system.machine.mem t.pgd .user .store va =
        some pa) :
      PagingStep cfg s (.store id va value) (s.store id va pa value)
  | pageFault {s : Paged} {id badAddr : Nat} {access : Access} {t : Task}
      {after : Machine} (taskAt : s.system.task[id]? = some t)
      (raised : translate s.system.machine.mem t.pgd .user access badAddr =
        none)
      (returns : doPageFault cfg s.system.machine t access badAddr = .ok after)
      (succeeds : after.oom = false) :
      PagingStep cfg s (.pageFault id access badAddr)
        { s with system := { s.system with machine := after } }

/-- At most one area of the task has addresses on the page. -/
def Task.OneArea (t : Task) (page : Nat) : Prop :=
  ∀ left ∈ t.mmap, ∀ right ∈ t.mmap, left.Covers page → right.Covers page →
    left = right

/-- New tables are empty, and a fault is not on a page of two areas. -/
def OneAreaFaults (cfg : Config) (s : Paged) (event : PagingEvent) : Prop :=
  Blank cfg s.system.machine ∧
    match event with
    | .pageFault id _ badAddr =>
        ∀ t, s.system.task[id]? = some t → t.OneArea (badAddr / 4096)
    | _ => True

/-! ## The bytes of the file -/

/-- An address of the image outside of `swapper_pg_dir`, as all those of the ramdisk are. -/
def Config.InRamdisk (cfg : Config) (address : Nat) : Prop :=
  cfg.Image address ∧ address / 4096 ≠ cfg.swapper

/-- The pages of the ramdisk are the kernel's. -/
theorem Config.InRamdisk.kernel {cfg : Config} {kernel : Finset Nat}
    {address : Nat} (inRamdisk : cfg.InRamdisk address)
    (image : Boot.kernel cfg ⊆ kernel) : address / 4096 ∈ kernel :=
  image (Boot.mem_kernel.2
    ⟨inRamdisk.2, inRamdisk.1.1, inRamdisk.1.2⟩)

/-- Where the kernel's pages keep their bytes, the ramdisk does. -/
theorem Config.InRamdisk.same {cfg : Config} {kernel : Finset Nat}
    {address : Nat} {mem other : Bytes} (inRamdisk : cfg.InRamdisk address)
    (image : Boot.kernel cfg ⊆ kernel)
    (kept : ∀ frame ∈ kernel, SameFrame mem other frame) :
    other address = mem address := by
  have same := kept _ (inRamdisk.kernel image) _
    (Nat.mod_lt address (by decide))
  rwa [Nat.div_add_mod] at same

/-- Where the byte of the area at `va` is in the ramdisk: `p_offset + o`. -/
def Vma.fileAddress (cfg : Config) (vma : Vma) (va : Nat) : Nat :=
  cfg.sramdisk + (vma.vmPgoff + (va - vma.vmStart))

/-- `va` is `vm_start + o` with `o` below `p_filesz`, in an area made from a file. -/
structure Vma.InFile (cfg : Config) (vma : Vma) (va : Nat) : Prop where
  contains : vma.Contains va
  stored : va - vma.vmStart < vma.vmFilesz
  fileBacked : vma.vmFlags &&& vmAnon = 0
  inRamdisk : cfg.InRamdisk (vma.fileAddress cfg va)

/--
Every access that is translated finds the last byte the task stored there, or
the byte of the file.
-/
def SeesProgram (cfg : Config) (file : Bytes) (s : Paged) : Prop :=
  ∀ (id : Nat) (t : Task) (vma : Vma) (va pa : Nat) (access : Access),
    s.system.task[id]? = some t → vma ∈ t.mmap → vma.InFile cfg va →
    translate s.system.machine.mem t.pgd .user access va = some pa →
    s.system.machine.mem pa =
      (s.stored id va).getD (file (vma.fileAddress cfg va))

/-! ## Translations of user pages -/

/-- A user address is translated through the entry of its page. -/
theorem Inv.translate_eq {cfg : Config} {task : List Task}
    {kernel : Finset Nat} {budget : Nat} {m : Machine}
    (inv : Inv cfg task kernel budget m) {id va : Nat} {t : Task}
    {access : Access} (taskAt : task[id]? = some t) (user : va < 2 ^ 38) :
    translate m.mem t.pgd .user access va =
      if LeafEntry (pte m.mem task (id, va / 4096)) ∧
          allows .user access (pte m.mem task (id, va / 4096)) = true then
        some (4096 * entryPpn (pte m.mem task (id, va / 4096)) + va % 4096)
      else none := by
  have page : pageNumber va = va / 4096 := by
    simp only [pageNumber]
    omega
  rw [translate, if_pos (Or.inl user), (inv.treeInv taskAt).pageWalk_eq, page,
    pte_task taskAt (by omega)]
  by_cases isLeaf : LeafEntry (leaf m.mem t.pgd (va / 4096))
  · simp [isLeaf, Nat.mod_one]
  · simp [isLeaf]

/-- A translated user address is on a mapped page that allows the access. -/
theorem Inv.translate_some {cfg : Config} {task : List Task}
    {kernel : Finset Nat} {budget : Nat} {m : Machine}
    (inv : Inv cfg task kernel budget m) {id va pa : Nat} {t : Task}
    {access : Access} (taskAt : task[id]? = some t) (user : va < 2 ^ 38)
    (translates : translate m.mem t.pgd .user access va = some pa) :
    holds m.mem task (id, va / 4096) = some (pa / 4096) ∧
      pa % 4096 = va % 4096 ∧ LeafEntry (pte m.mem task (id, va / 4096)) ∧
      allows .user access (pte m.mem task (id, va / 4096)) = true := by
  rw [inv.translate_eq taskAt user] at translates
  split at translates
  · rename_i granted
    obtain rfl := Option.some_inj.1 translates
    exact ⟨holds_eq_some.2 ⟨granted.1.1, by omega⟩, by omega, granted⟩
  · cases translates

theorem allows_store {mode : Mode} {value : Nat}
    (allowed : allows mode .store value = true) : has permW value := by
  simp only [allows, Bool.and_eq_true, decide_eq_true_eq] at allowed
  exact allowed.2.1

theorem allows_entry (mode : Mode) (access : Access) (ppn perm : Nat) :
    allows mode access (entry ppn perm) = allows mode access perm := by
  have readable : has permR (entry ppn perm) ↔ has permR perm :=
    @has_entry ppn perm 1 (by decide)
  have writable : has permW (entry ppn perm) ↔ has permW perm :=
    @has_entry ppn perm 2 (by decide)
  have executable : has permX (entry ppn perm) ↔ has permX perm :=
    @has_entry ppn perm 3 (by decide)
  have user : has permU (entry ppn perm) ↔ has permU perm :=
    @has_entry ppn perm 4 (by decide)
  have accessed : has permA (entry ppn perm) ↔ has permA perm :=
    @has_entry ppn perm 6 (by decide)
  have dirty : has permD (entry ppn perm) ↔ has permD perm :=
    @has_entry ppn perm 7 (by decide)
  cases access <;>
    simp only [allows, readable, writable, executable, user, accessed, dirty]

/-- A readable page with the permissions of its area allows what the area allows. -/
theorem pagePerm_allows {vmFlags : Nat} (small : vmFlags < 16)
    (access : Access) (allowed : has access.vmFlag vmFlags)
    (readable : has permR (pagePerm vmFlags)) :
    LeafEntry (pagePerm vmFlags) ∧
      allows .user access (pagePerm vmFlags) = true := by
  revert vmFlags
  cases access <;> decide

/-! ## One byte of a user page -/

theorem sameFrame_update (mem : Bytes) {pa frame : Nat} (value : Byte)
    (different : frame ≠ pa / 4096) :
    SameFrame mem (Function.update mem pa value) frame := by
  intro offset inside
  exact Function.update_of_ne (by omega) _ _

/-- A store to a mapped page changes no table. -/
theorem Inv.storeByte {cfg : Config} {task : List Task} {kernel : Finset Nat}
    {budget : Nat} {m : Machine} (inv : Inv cfg task kernel budget m)
    {slot : Slot} {pa : Nat} (value : Byte)
    (held : holds m.mem task slot = some (pa / 4096)) :
    Inv cfg task kernel budget
        { m with mem := Function.update m.mem pa value } ∧
      (∀ slot, pte (Function.update m.mem pa value) task slot =
        pte m.mem task slot) ∧
      ∀ frame ∈ kernel,
        SameFrame m.mem (Function.update m.mem pa value) frame := by
  obtain ⟨_, notKernel, notTable⟩ := inv.users _ _ held
  have same : ∀ frame, IsTable cfg task m.mem frame →
      SameFrame m.mem (Function.update m.mem pa value) frame :=
    fun frame isTable =>
      sameFrame_update m.mem value fun equal => notTable (equal ▸ isTable)
  exact ⟨inv.withMem same, inv.pte_congr same, fun frame member =>
    sameFrame_update m.mem value fun equal => notKernel (equal ▸ member)⟩

/-! ## A fault without copy-on-write -/

/-- A fault is served without copy-on-write, with empty pages for new tables. -/
structure DemandFault (cfg : Config) (m : Machine) (t : Task) (access : Access)
    (badAddr : Nat) (after : Machine) : Prop where
  blank : Blank cfg m
  notCow : cowEntry m.mem t access badAddr = none
  returns : doPageFault cfg m t access badAddr = .ok after
  succeeds : after.oom = false

namespace Inv

variable {cfg : Config} {task : List Task} {kernel : Finset Nat} {budget : Nat}
    {m after : Machine} {id badAddr : Nat} {access : Access} {t : Task}
    {vma : Vma}

theorem demandFault (inv : Inv cfg task kernel budget m)
    (taskAt : task[id]? = some t) (found : findVma t.mmap badAddr = some vma)
    (fault : DemandFault cfg m t access badAddr after) :
    Inv cfg task kernel budget after ∧
      Faulted cfg task m (id, badAddr / 4096) (cfg.allocPage m).1
        (pagePerm vma.vmFlags) none (demandFill cfg m vma badAddr) after := by
  obtain ⟨vma', found', _, afterInv, faulted⟩ :=
    inv.doPageFault fault.blank taskAt fault.returns fault.succeeds
  obtain rfl := Option.some_inj.1 (found'.symm.trans found)
  rw [fault.notCow] at faulted
  exact ⟨afterInv, faulted⟩

theorem demand_allocates (inv : Inv cfg task kernel budget m)
    (taskAt : task[id]? = some t) (found : findVma t.mmap badAddr = some vma)
    (fault : DemandFault cfg m t access badAddr after) :
    (cfg.allocPage m).2.oom = false := by
  obtain ⟨vma', found', allowed, _⟩ :=
    inv.doPageFault fault.blank taskAt fault.returns fault.succeeds
  obtain rfl := Option.some_inj.1 (found'.symm.trans found)
  have returns := fault.returns
  rw [doPageFault_demand found allowed fault.notCow] at returns
  have filledOk := createMapping_oom returns fault.succeeds
  exact filledOk

end Inv

/-! ## The invariant of a run -/

/-- The entry of a page is the one that the fault on its only area made. -/
structure Whole (t : Task) (page value : Nat) : Prop where
  only : t.OneArea page
  made : ∃ vma ∈ t.mmap, vma.Covers page ∧
    value = entry (entryPpn value) (pagePerm vma.vmFlags)

/-- What faults and accesses keep, for the contents `file` of the ramdisk. -/
structure PagingInv (cfg : Config) (file : Bytes) (s : Paged) : Prop where
  spaces : ImageInv cfg s.system
  /-- Without forks no frame is shared. -/
  alone : ∀ left right frame,
    holds s.system.machine.mem s.system.task left = some frame →
    holds s.system.machine.mem s.system.task right = some frame → left = right
  ramdisk : ∀ address, cfg.InRamdisk address →
    s.system.machine.mem address = file address
  whole : ∀ (id : Nat) (t : Task) (page : Nat),
    s.system.task[id]? = some t →
    has permV (pte s.system.machine.mem s.system.task (id, page)) →
    Whole t page (pte s.system.machine.mem s.system.task (id, page))
  contents : ∀ (id : Nat) (t : Task) (vma : Vma) (va frame : Nat),
    s.system.task[id]? = some t → vma ∈ t.mmap → vma.InFile cfg va →
    holds s.system.machine.mem s.system.task (id, va / 4096) = some frame →
    s.system.machine.mem (4096 * frame + va % 4096) =
      (s.stored id va).getD (file (vma.fileAddress cfg va))
  /-- Only pages that can be read and written were stored to. -/
  writable : ∀ id va, s.stored id va ≠ none →
    has permV (pte s.system.machine.mem s.system.task (id, va / 4096)) ∧
      has permR (pte s.system.machine.mem s.system.task (id, va / 4096)) ∧
      has permW (pte s.system.machine.mem s.system.task (id, va / 4096))

namespace PagingInv

variable {cfg : Config} {file : Bytes} {s : Paged}

/-- A translated access reads what the invariant says. -/
theorem sees (inv : PagingInv cfg file s) : SeesProgram cfg file s := by
  intro id t vma va pa access taskAt isArea inFile translates
  obtain ⟨kernel, _, spaces⟩ := inv.spaces
  have member := List.mem_iff_getElem?.2 ⟨id, taskAt⟩
  have below := (spaces.areas t member vma isArea).below
  have upper := inFile.contains.2
  simp only [userEnd] at below
  obtain ⟨held, offset, _⟩ :=
    spaces.translate_some taskAt (by omega) translates
  have split : pa = 4096 * (pa / 4096) + va % 4096 := by omega
  rw [split]
  exact inv.contents id t vma va _ taskAt isArea inFile held

/-! ## A store -/

theorem store (inv : PagingInv cfg file s) {id va pa : Nat} {value : Byte}
    {t : Task} (taskAt : s.system.task[id]? = some t) (user : va < 2 ^ 38)
    (translates : translate s.system.machine.mem t.pgd .user .store va =
      some pa) :
    PagingInv cfg file (s.store id va pa value) := by
  obtain ⟨kernel, image, spaces⟩ := inv.spaces
  obtain ⟨held, offset, isLeaf, allowed⟩ :=
    spaces.translate_some taskAt user translates
  obtain ⟨nextSpaces, ptes, kept⟩ := spaces.storeByte value held
  have frames := fun slot => holds_congr (ptes slot)
  refine
    { spaces := ⟨kernel, image, nextSpaces⟩
      alone := ?_
      ramdisk := ?_
      whole := ?_
      contents := ?_
      writable := ?_ }
  · intro left right frame onLeft onRight
    exact inv.alone left right frame ((frames left).symm.trans onLeft)
      ((frames right).symm.trans onRight)
  · intro address inRamdisk
    exact (inRamdisk.same image kept).trans (inv.ramdisk address inRamdisk)
  · intro id' t' page ownerAt isValid
    have same := ptes (id', page)
    have before := inv.whole id' t' page ownerAt (same ▸ isValid)
    exact same.symm ▸ before
  · intro id' t' vma addr frame ownerAt isArea inFile isHeld
    have before := (frames (id', addr / 4096)).symm.trans isHeld
    by_cases here : id' = id ∧ addr = va
    · obtain ⟨rfl, rfl⟩ := here
      obtain rfl := Option.some_inj.1 (before.symm.trans held)
      have split : 4096 * (pa / 4096) + addr % 4096 = pa := by omega
      simp [Paged.store, split]
    · have apart : 4096 * frame + addr % 4096 ≠ pa := by
        intro equal
        have sameFrame : frame = pa / 4096 := by omega
        have slots := inv.alone _ _ _ before (sameFrame ▸ held)
        simp only [Prod.mk.injEq] at slots
        exact here ⟨slots.1, by omega⟩
      simp only [Paged.store, if_neg here]
      exact (Function.update_of_ne apart _ _).trans
        (inv.contents id' t' vma addr frame ownerAt isArea inFile before)
  · intro id' addr stored
    have same : pte (s.store id va pa value).system.machine.mem
        (s.store id va pa value).system.task (id', addr / 4096) =
        pte s.system.machine.mem s.system.task (id', addr / 4096) := ptes _
    rw [same]
    by_cases here : id' = id ∧ addr = va
    · obtain ⟨rfl, rfl⟩ := here
      have write : has permW _ := (allows_store allowed)
      refine ⟨isLeaf.1, ?_, write⟩
      exact isLeaf.2.resolve_right fun executable => executable.2 write
    · simp only [Paged.store, if_neg here] at stored
      exact inv.writable id' addr stored

/-! ## A fault -/

/-- On the page of a fault nothing was stored, and its entry is not copied on write. -/
theorem unwritten (inv : PagingInv cfg file s) {id badAddr : Nat}
    {access : Access} {t : Task} {vma : Vma}
    (taskAt : s.system.task[id]? = some t)
    (oneArea : t.OneArea (badAddr / 4096))
    (raised : translate s.system.machine.mem t.pgd .user access badAddr = none)
    (found : findVma t.mmap badAddr = some vma)
    (allowed : has access.vmFlag vma.vmFlags) :
    cowEntry s.system.machine.mem t access badAddr = none ∧
      ∀ va, va / 4096 = badAddr / 4096 → s.stored id va = none := by
  obtain ⟨kernel, _, spaces⟩ := inv.spaces
  have member := List.mem_iff_getElem?.2 ⟨id, taskAt⟩
  obtain ⟨isArea, area, contains, small, user⟩ :=
    spaces.fault_page member found
  have made (valid : has permV (pte s.system.machine.mem s.system.task
      (id, badAddr / 4096))) :
      pte s.system.machine.mem s.system.task (id, badAddr / 4096) =
        entry (entryPpn (pte s.system.machine.mem s.system.task
          (id, badAddr / 4096))) (pagePerm vma.vmFlags) := by
    obtain ⟨other, otherArea, covers, value⟩ :=
      (inv.whole id t _ taskAt valid).made
    obtain rfl := oneArea other otherArea vma isArea covers
      ⟨badAddr, contains, rfl⟩
    exact value
  constructor
  · cases cow : cowEntry s.system.machine.mem t access badAddr with
    | none => rfl
    | some slot =>
        obtain ⟨table, position⟩ := slot
        obtain ⟨rfl, rfl, reached, valid, notWritable⟩ := cowEntry_eq_some cow
        have here : pte s.system.machine.mem s.system.task
            (id, badAddr / 4096) = word s.system.machine.mem table
              (index 0 (badAddr / 4096)) :=
          (pte_task taskAt user).trans (leaf_of_walk reached)
        rw [← here] at valid notWritable
        rw [made valid] at notWritable
        refine absurd ?_ notWritable
        exact (@has_entry _ _ 2 (by decide)).2
          ((pagePerm_write area.flags).2 allowed)
  · intro va samePage
    by_contra written
    obtain ⟨valid, readable, _⟩ := inv.writable id va written
    rw [samePage] at valid readable
    rw [made valid] at readable
    obtain ⟨isLeaf, allows⟩ := pagePerm_allows area.flags access allowed
      ((@has_entry _ _ 1 (by decide)).1 readable)
    rw [spaces.translate_eq taskAt small, made valid, if_pos
      ⟨(leafEntry_entry _ _).2 isLeaf,
        (allows_entry _ _ _ _).trans allows⟩] at raised
    cases raised

theorem pageFault (inv : PagingInv cfg file s)
    (blank : Blank cfg s.system.machine) {id badAddr : Nat} {access : Access}
    {t : Task} {after : Machine} (taskAt : s.system.task[id]? = some t)
    (oneArea : t.OneArea (badAddr / 4096))
    (raised : translate s.system.machine.mem t.pgd .user access badAddr = none)
    (returns : doPageFault cfg s.system.machine t access badAddr = .ok after)
    (succeeds : after.oom = false) :
    PagingInv cfg file
      { s with system := { s.system with machine := after } } := by
  obtain ⟨kernel, image, spaces⟩ := inv.spaces
  obtain ⟨vma, found, allowed, _⟩ :=
    spaces.doPageFault blank taskAt returns succeeds
  have member := List.mem_iff_getElem?.2 ⟨id, taskAt⟩
  obtain ⟨isArea, area, contains, small, user⟩ :=
    spaces.fault_page member found
  obtain ⟨notCow, clean⟩ :=
    inv.unwritten taskAt oneArea raised found allowed
  have fault : DemandFault cfg s.system.machine t access badAddr after :=
    ⟨blank, notCow, returns, succeeds⟩
  have allocOk := spaces.demand_allocates taskAt found fault
  obtain ⟨afterInv, faulted⟩ := spaces.demandFault taskAt found fault
  have holdsNew := faulted.holds_new afterInv area.flags
  have elsewhere : ∀ slot, slot ≠ (id, badAddr / 4096) →
      pte after.mem s.system.task slot =
        pte s.system.machine.mem s.system.task slot :=
    fun slot different => (faulted.pte slot).trans (if_neg different)
  have kept : ∀ slot frame, slot ≠ (id, badAddr / 4096) →
      holds after.mem s.system.task slot = some frame →
      holds s.system.machine.mem s.system.task slot = some frame ∧
        frame ≠ (cfg.allocPage s.system.machine).1 := by
    intro slot frame different isHeld
    have before := (holds_congr (elsewhere slot different)).symm.trans isHeld
    refine ⟨before, fun fresh => faulted.isFresh ?_⟩
    exact fresh ▸ (spaces.users slot frame before).1
  refine
    { spaces := ⟨kernel, image, afterInv⟩
      alone := ?_
      ramdisk := ?_
      whole := ?_
      contents := ?_
      writable := ?_ }
  · intro left right frame onLeft onRight
    by_cases leftHere : left = (id, badAddr / 4096)
    · by_cases rightHere : right = (id, badAddr / 4096)
      · exact leftHere.trans rightHere.symm
      · subst leftHere
        obtain rfl := Option.some_inj.1 (onLeft.symm.trans holdsNew)
        exact absurd rfl (kept right _ rightHere onRight).2
    · by_cases rightHere : right = (id, badAddr / 4096)
      · subst rightHere
        obtain rfl := Option.some_inj.1 (onRight.symm.trans holdsNew)
        exact absurd rfl (kept left _ leftHere onLeft).2
      · exact inv.alone left right frame (kept left _ leftHere onLeft).1
          (kept right _ rightHere onRight).1
  · intro address inRamdisk
    exact (inRamdisk.same image fun frame isKernel =>
      faulted.same frame (spaces.kernel_live _ isKernel)
        (spaces.kernel_apart _ isKernel)).trans
      (inv.ramdisk address inRamdisk)
  · intro id' t' page ownerAt isValid
    by_cases here : (id', page) = (id, badAddr / 4096)
    · obtain ⟨rfl, rfl⟩ := Prod.mk.inj here
      obtain rfl := Option.some_inj.1 (ownerAt.symm.trans taskAt)
      refine ⟨oneArea, vma, isArea, ⟨badAddr, contains, rfl⟩, ?_⟩
      rw [(holds_eq_some.1 holdsNew).2, faulted.pte, if_pos rfl]
    · have same := elsewhere _ here
      have before := inv.whole id' t' page ownerAt (same ▸ isValid)
      exact same.symm ▸ before
  · intro id' t' vma' va frame ownerAt isArea' inFile isHeld
    by_cases here : (id', va / 4096) = (id, badAddr / 4096)
    · obtain ⟨rfl, samePage⟩ := Prod.mk.inj here
      obtain rfl := Option.some_inj.1 (ownerAt.symm.trans taskAt)
      rw [samePage] at isHeld
      obtain rfl := Option.some_inj.1 (isHeld.symm.trans holdsNew)
      obtain rfl := oneArea vma' isArea' vma isArea
        ⟨va, inFile.contains, samePage⟩ ⟨badAddr, contains, rfl⟩
      calc
        after.mem _ = Inv.demandFill cfg s.system.machine vma' badAddr _ :=
          faulted.filled _ (Nat.mod_lt _ (by decide))
        _ = s.system.machine.mem (vma'.fileAddress cfg va) :=
          spaces.demandFill_byte image allocOk small inFile.fileBacked samePage
            inFile.contains inFile.inRamdisk.1
        _ = file (vma'.fileAddress cfg va) :=
          inv.ramdisk _ inFile.inRamdisk
        _ = (s.stored id' va).getD (file (vma'.fileAddress cfg va)) := by
          rw [clean va samePage]
          rfl
    · obtain ⟨before, _⟩ := kept _ _ here isHeld
      obtain ⟨live, _, notTable⟩ := spaces.users _ _ before
      exact (faulted.same frame live notTable _
        (Nat.mod_lt _ (by decide))).trans
        (inv.contents id' t' vma' va frame ownerAt isArea' inFile before)
  · intro id' va written
    have different : (id', va / 4096) ≠ (id, badAddr / 4096) := by
      intro here
      obtain ⟨rfl, samePage⟩ := Prod.mk.inj here
      exact written (clean va samePage)
    rw [elsewhere _ different]
    exact inv.writable id' va written

/-- One step. -/
theorem step (inv : PagingInv cfg file s) {next : Paged} {event : PagingEvent}
    (taken : Guarded (PagingStep cfg) (OneAreaFaults cfg) s event next) :
    PagingInv cfg file next := by
  obtain ⟨step, blank, oneArea⟩ := taken
  cases step with
  | read => exact inv
  | store taskAt user translates => exact inv.store taskAt user translates
  | pageFault taskAt raised returns succeeds =>
      exact inv.pageFault blank taskAt (oneArea _ taskAt) raised returns
        succeeds

end PagingInv

/-- After the boot nothing is mapped and nothing was stored. -/
theorem PagingInv.boot {cfg : Config} {mem : Bytes} {maps : List KernelMap}
    {programs : List (List MmapArgs)} {start : System}
    (blank : Blank cfg (Boot.machine cfg mem))
    (bootable : Bootable cfg maps programs)
    (booted : Vm.boot cfg mem maps programs = .ok start)
    (succeeds : start.machine.oom = false) :
    PagingInv cfg start.machine.mem ⟨start, fun _ _ => none⟩ := by
  have empty (slot : Slot) : pte start.machine.mem start.task slot = 0 :=
    boot_pte blank bootable booted succeeds slot
  have unheld (slot : Slot) (frame : Nat) :
      holds start.machine.mem start.task slot ≠ some frame := by
    intro isHeld
    have valid := (holds_eq_some.1 isHeld).1
    rw [empty] at valid
    exact not_has_zero permV valid
  exact
    { spaces := boot_inv blank bootable booted succeeds
      alone := fun left _ frame onLeft => absurd onLeft (unheld left frame)
      ramdisk := fun _ _ => rfl
      whole := fun id _ page _ valid =>
        absurd (holds_eq_some.2 ⟨valid, rfl⟩) (unheld (id, page) _)
      contents := fun _ _ _ _ frame _ _ _ isHeld =>
        absurd isHeld (unheld _ frame)
      writable := fun _ _ written => absurd rfl written }

/--
As long as no fault is on a page that two areas of the task cover, every access
that is translated finds the last byte the task stored there, or the byte of
the file.  The areas may be any, and so those that `load_elf` makes.
-/
theorem demandPaging_sees {cfg : Config} {mem : Bytes} {maps : List KernelMap}
    {programs : List (List MmapArgs)} {start : System}
    {events : List PagingEvent} {s : Paged}
    (blank : Blank cfg (Boot.machine cfg mem))
    (bootable : Bootable cfg maps programs)
    (booted : boot cfg mem maps programs = .ok start)
    (succeeds : start.machine.oom = false)
    (run : Run (Guarded (PagingStep cfg) (OneAreaFaults cfg))
      ⟨start, fun _ _ => none⟩ events s) :
    SeesProgram cfg start.machine.mem s := by
  have inv : PagingInv cfg start.machine.mem s :=
    run.invariant (PagingInv.boot blank bootable booted succeeds)
      fun _ _ _ inv taken => inv.step taken
  exact inv.sees

/-! ## A segment alone on its page -/

namespace SmallElf

open SmallProgram (config)

/-- The first fault, raised by a load. -/
def firstFault : Paged where
  system := { booted with machine := loaded }
  stored := fun _ _ => none

theorem booted_task : booted.task[0]? = some task := by
  decide +kernel

theorem mmap_eq : task.mmap = [stackArea.vma, data.args.vma] := by
  decide +kernel

theorem oneArea : task.OneArea (0x1000 / 4096) := by
  rintro left isLeft right isRight ⟨addr, leftIn, onPage⟩
    ⟨other, rightIn, otherOnPage⟩
  rw [mmap_eq] at isLeft isRight
  have notStack {addr : Nat} (contains : stackArea.vma.Contains addr) :
      addr / 4096 ≠ 0x1000 / 4096 := by
    have lower : userEnd - 4096 ≤ addr := contains.1
    simp only [userEnd] at lower
    omega
  rcases List.mem_pair.1 isLeft with rfl | rfl
  · exact absurd onPage (notStack leftIn)
  · rcases List.mem_pair.1 isRight with rfl | rfl
    · exact absurd otherOnPage (notStack rightIn)
    · rfl

theorem firstFault_run :
    Run (Guarded (PagingStep (config .kallocZeroed))
        (OneAreaFaults (config .kallocZeroed)))
      ⟨booted, fun _ _ => none⟩ [.pageFault 0 .load 0x1000] firstFault := by
  refine Run.single ⟨.pageFault booted_task (by decide +kernel) fault_eq
    (by decide +kernel), blank _, ?_⟩
  intro t taskAt
  have same : task = t := Option.some_inj.1 (booted_task.symm.trans taskAt)
  exact same ▸ oneArea

end SmallElf

open SmallProgram (config) in
/-- After the first fault of the small program its segment is what the file has. -/
theorem demandPaging_sees_small :
    SeesProgram (config .kallocZeroed) SmallElf.booted.machine.mem
      SmallElf.firstFault := by
  refine demandPaging_sees (SmallElf.blank _) ⟨?_, by simp, ?_⟩
    SmallElf.boot_eq (by decide +kernel) SmallElf.firstFault_run
  · exact (SmallProgram.bootable .kallocZeroed).layout
  · intro areas isProgram args isArea
    obtain rfl := List.mem_singleton.1 isProgram
    rcases List.mem_pair.1 isArea with rfl | rfl
    · exact ⟨by decide, by decide, by decide⟩
    · exact ⟨by decide, by decide, by decide⟩

/-! ## Two segments on one page -/

namespace SharedSegments

open SmallProgram (config result eq_ok)

/-- Sixteen bytes of data. -/
def data : Phdr where
  pType := ptLoad
  pFlags := pfR ||| pfW
  pOffset := 0x100
  pVaddr := 0x1000
  pFilesz := 0x10
  pMemsz := 0x10

/-- Sixteen bytes of code behind them. -/
def text : Phdr where
  pType := ptLoad
  pFlags := pfR ||| pfX
  pOffset := 0x110
  pVaddr := 0x1010
  pFilesz := 0x10
  pMemsz := 0x10

/-- A program header in memory. -/
def putHeader (mem : Bytes) (address : Nat) (phdr : Phdr) : Bytes :=
  let mem := Bytes.store mem address phdr.pType 4
  let mem := Bytes.store mem (address + 4) phdr.pFlags 4
  let mem := Bytes.store mem (address + 8) phdr.pOffset 8
  let mem := Bytes.store mem (address + 16) phdr.pVaddr 8
  let mem := Bytes.store mem (address + 32) phdr.pFilesz 8
  Bytes.store mem (address + 40) phdr.pMemsz 8

/-- The ramdisk: two headers, and the first byte of the code. -/
def ramdisk : Bytes :=
  let mem := Bytes.store (fun _ => 0) (phyStart + 32) 64 8
  let mem := Bytes.store mem (phyStart + 56) 2 2
  let mem := putHeader mem (phyStart + 64) data
  let mem := putHeader mem (phyStart + 120) text
  Bytes.store mem (phyStart + 0x110) 0x13 1

theorem loadable_eq :
    loadable (config .kallocZeroed) ramdisk = [data, text] := by
  decide +kernel

def booted : System :=
  result { machine := Boot.machine (config .kallocZeroed) ramdisk, task := [] }
    (boot (config .kallocZeroed) ramdisk []
      [[data.args, text.args, stackArea]])

def task : Task :=
  booted.task.headD { pgd := 0, mmap := [] }

/-- The areas are in the list the other way round. -/
example : task.mmap = [stackArea.vma, text.args.vma, data.args.vma] := by
  decide +kernel

/-- The first byte of the data was read. -/
def loaded : Machine :=
  result booted.machine
    (doPageFault (config .kallocZeroed) booted.machine task .load 0x1000)

theorem boot_eq :
    boot (config .kallocZeroed) ramdisk []
      [[data.args, text.args, stackArea]] = .ok booted :=
  eq_ok _ (by decide +kernel)

theorem fault_eq :
    doPageFault (config .kallocZeroed) booted.machine task .load 0x1000 =
      .ok loaded :=
  eq_ok _ (by decide +kernel)

/-- The state after this fault. -/
def firstFault : Paged where
  system := { booted with machine := loaded }
  stored := fun _ _ => none

theorem firstFault_run :
    Run (PagingStep (config .kallocZeroed)) ⟨booted, fun _ _ => none⟩
      [.pageFault 0 .load 0x1000] firstFault := by
  have taskAt : booted.task[0]? = some task := by decide +kernel
  exact Run.single
    (.pageFault taskAt (by decide +kernel) fault_eq (by decide +kernel))

/-- The first byte of the code is one of the file. -/
theorem inFile :
    text.args.vma.InFile (config .kallocZeroed) 0x1010 :=
  ⟨by decide, by decide, by decide, by decide, by decide⟩

end SharedSegments

open SmallProgram (config) in
open SharedSegments in
/-- After the fault on its data the program reads a zero for the first byte of its code. -/
theorem sharedPage_loses_code :
    loadable (config .kallocZeroed) ramdisk = [data, text] ∧
      boot (config .kallocZeroed) ramdisk []
        [[data.args, text.args, stackArea]] = .ok booted ∧
      booted.machine.oom = false ∧
      ∃ events s, Run (PagingStep (config .kallocZeroed))
          ⟨booted, fun _ _ => none⟩ events s ∧
        ¬ SeesProgram (config .kallocZeroed) booted.machine.mem s := by
  refine ⟨loadable_eq, boot_eq, by decide +kernel, _, _, firstFault_run,
    fun sees => ?_⟩
  have taskAt : firstFault.system.task[0]? = some task := by decide +kernel
  have isArea : text.args.vma ∈ task.mmap := by decide +kernel
  have translates : translate firstFault.system.machine.mem task.pgd .user .load
      0x1010 = some (4096 * entryPpn (leaf loaded.mem task.pgd 1) + 0x10) := by
    decide +kernel
  have seen := sees 0 task text.args.vma 0x1010 _ .load taskAt isArea inFile
    translates
  have byte : firstFault.system.machine.mem
      (4096 * entryPpn (leaf loaded.mem task.pgd 1) + 0x10) = 0 := by
    decide +kernel
  have code : booted.machine.mem
      (text.args.vma.fileAddress (config .kallocZeroed) 0x1010) = 0x13 := by
    decide +kernel
  have zero : (0 : Byte) = 0x13 := byte.symm.trans (seen.trans code)
  exact absurd zero (by decide)

end TinyRiscvOs.Vm
