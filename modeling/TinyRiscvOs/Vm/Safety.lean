import TinyRiscvOs.Vm.System
import TinyRiscvOs.Vm.WholeTree

/-!
# User frames are safe

What the invariant of the address spaces says about single entries: no task
maps a page that is free or holds a table, tasks share pages for reading only,
and no entry allows more than an area does.  A fork that meets a missing table
breaks it.  `do_fork` then takes the first word of the address space for an
entry, and that word belongs to the program.
-/

namespace TinyRiscvOs.Vm

open TinyRiscvOs.Lib
open TinyRiscvOs.Mm

/-- A page of the lower half that a task has mapped with this entry. -/
def UserEntry (s : System) (id page value : Nat) : Prop :=
  ∃ t, s.task[id]? = some t ∧ page < 2 ^ 26 ∧
    leaf s.machine.mem t.pgd page = value ∧ has permV value

/-- A table of any level, below `swapper_pg_dir` or the `pgd` of a task. -/
def TablePage (cfg : Config) (s : System) (frame : Nat) : Prop :=
  ∃ pgtbl, (pgtbl = cfg.swapper ∨ ∃ t ∈ s.task, pgtbl = t.pgd) ∧
    ∃ path : List Nat, path.length ≤ 2 ∧ (∀ position ∈ path, position < 512) ∧
      walk (findTable s.machine.mem) pgtbl path = some frame

/-- The permissions are among those of an area that covers the page. -/
def Permitted (t : Task) (page value : Nat) : Prop :=
  ∃ vma ∈ t.mmap, vma.Covers page ∧
    (has permR value → has vmRead vma.vmFlags) ∧
    (has permW value → has vmWrite vma.vmFlags) ∧
    (has permX value → has vmExec vma.vmFlags)

/-- What user entries never do. -/
structure FramesSafe (cfg : Config) (s : System) : Prop where
  counted : ∀ id page value, UserEntry s id page value →
    1 ≤ count s.machine (entryPpn value)
  used : ∀ id page value, UserEntry s id page value →
    ¬ Free cfg.top s.machine (entryPpn value)
  notTable : ∀ id page value, UserEntry s id page value →
    ¬ TablePage cfg s (entryPpn value)
  readOnly : ∀ id other page otherPage value otherValue, id ≠ other →
    UserEntry s id page value → UserEntry s other otherPage otherValue →
    entryPpn value = entryPpn otherValue →
    ¬ has permW value ∧ ¬ has permW otherValue
  permitted : ∀ id t page value, s.task[id]? = some t →
    UserEntry s id page value → Permitted t page value

namespace Inv

variable {cfg : Config} {s : System} {kernel : Finset Nat} {budget : Nat}

/-- The trees of the invariant have all tables. -/
theorem isTable_of_tablePage (inv : Inv cfg s.task kernel budget s.machine)
    {frame : Nat} (isTable : TablePage cfg s frame) :
    IsTable cfg s.task s.machine.mem frame := by
  obtain ⟨pgtbl, isRoot, path, short, small, reached⟩ := isTable
  rcases isRoot with rfl | ⟨t, member, rfl⟩
  · cases path with
    | nil =>
        obtain rfl := Option.some_inj.1 reached
        exact swapper_isTable
    | cons head rest =>
        by_cases high : 256 ≤ head
        · refine ⟨0, head :: rest, ⟨Nat.zero_le _, short, small, ?_⟩, reached⟩
          intro first isHead
          obtain rfl : head = first := by simpa using isHead
          exact iff_of_true rfl high
        · have absent := findTable_eq_none.2 (inv.lower head (by omega))
          rw [walk, absent] at reached
          cases reached
  · obtain ⟨id, taskAt⟩ := List.mem_iff_getElem?.1 member
    obtain ⟨root, inTree, same⟩ := inv.walk_whole taskAt ⟨short, small⟩
    exact ⟨root, path, inTree, same ▸ reached⟩

theorem holds_of_entry {id page value : Nat}
    (isEntry : UserEntry s id page value) :
    holds s.machine.mem s.task (id, page) = some (entryPpn value) ∧
      pte s.machine.mem s.task (id, page) = value := by
  obtain ⟨t, taskAt, user, rfl, valid⟩ := isEntry
  have here := @pte_task s.machine.mem _ _ _ _ taskAt user
  rw [holds_eq_some, here]
  exact ⟨⟨valid, rfl⟩, rfl⟩

theorem permitted_of_entry (inv : Inv cfg s.task kernel budget s.machine)
    {id page value : Nat} {t : Task} (taskAt : s.task[id]? = some t)
    (isEntry : UserEntry s id page value) : Permitted t page value := by
  obtain ⟨owner, ownerAt, user, rfl, valid⟩ := isEntry
  obtain rfl := Option.some_inj.1 (ownerAt.symm.trans taskAt)
  obtain ⟨vma, isArea, covers, perm, form, parts⟩ :=
    inv.granted id owner page taskAt user valid
  have area := inv.areas owner (List.mem_iff_getElem?.2 ⟨id, taskAt⟩) vma isArea
  obtain ⟨_, _, _, _, reads, executes, writes⟩ := form.flags area.flags
  have flag (bit : Nat) (low : bit < 10) :
      has (2 ^ bit) (leaf s.machine.mem owner.pgd page) ↔ has (2 ^ bit) perm := by
    rw [parts]
    exact has_entry low
  exact ⟨vma, isArea, covers,
    fun allowed => reads.1 ((flag 1 (by decide)).1 allowed),
    fun allowed => writes ((flag 2 (by decide)).1 allowed),
    fun allowed => executes.1 ((flag 3 (by decide)).1 allowed)⟩

theorem framesSafe (inv : Inv cfg s.task kernel budget s.machine) :
    FramesSafe cfg s where
  counted _ _ _ isEntry := inv.count_pos (holds_of_entry isEntry).1
  used _ _ _ isEntry := by
    rcases inv.allocator with ⟨_, allocator, _⟩
    exact allocator.not_free (inv.users _ _ (holds_of_entry isEntry).1).1
  notTable _ _ _ isEntry isTable :=
    (inv.users _ _ (holds_of_entry isEntry).1).2.2
      (inv.isTable_of_tablePage isTable)
  readOnly id other page otherPage value otherValue different isEntry isOther
      same := by
    obtain ⟨held, here⟩ := holds_of_entry isEntry
    obtain ⟨otherHeld, there⟩ := holds_of_entry isOther
    rw [← same] at otherHeld
    constructor
    · intro writes
      have sole := inv.sharing.exclusive (id, page) (other, otherPage) _
        (by rwa [writable, here]) held otherHeld
      exact different (congrArg Prod.fst sole).symm
    · intro writes
      have sole := inv.sharing.exclusive (other, otherPage) (id, page) _
        (by rwa [writable, there]) otherHeld held
      exact different (congrArg Prod.fst sole)
  permitted _ _ _ _ taskAt isEntry := inv.permitted_of_entry taskAt isEntry

end Inv

/--
In every state that faults and forks lead to from the boot, as long as no fork
meets a missing table, the entries of all tasks are safe.
-/
theorem reachable_framesSafe {cfg : Config} (source : cfg.absentNull = false)
    {s : System} (reachable : Reachable cfg s) : FramesSafe cfg s := by
  obtain ⟨kernel, inv⟩ := reachable.inv source
  exact inv.framesSafe

/-- The program after a fork and a copy of its stack. -/
theorem reachable_framesSafe_copied :
    FramesSafe (SmallProgram.config .kallocZeroed)
      (SmallProgram.copied .kallocZeroed) :=
  reachable_framesSafe rfl SmallProgram.copied_reachable

/-! ## A program that writes the entry itself -/

namespace PlantedEntry

open SmallProgram (config result eq_ok eq_ok_pair)

/-- A writable page of the program at address `0`. -/
def page : MmapArgs where
  addr := 0
  len := 0x800
  vmPgoff := 0x800
  vmFilesz := 0x800
  flags := vmRead ||| vmWrite

/-- The first word of that page: an entry for `swapper_pg_dir`. -/
def value : Nat :=
  entry (ramBase + 1) (permA ||| permD ||| permU ||| permR ||| permV)

/-- The ramdisk has the word where the page begins. -/
def memory : Bytes :=
  Bytes.store (fun _ => 0) (phyStart + page.vmPgoff) value 8

/-- After the boot. -/
def booted : System :=
  result { machine := Boot.machine (config .kallocZeroed) memory, task := [] }
    (boot (config .kallocZeroed) memory [] [[page, stackArea]])

def task : Task :=
  booted.task.headD { pgd := 0, mmap := [] }

/-- The program has read the word. -/
def loaded : System where
  machine := result booted.machine
    (doPageFault (config .kallocZeroed) booted.machine task .load 0)
  task := booted.task

/-- The child, and the machine after the fork. -/
def forked : Task × Machine :=
  result (task, loaded.machine)
    (doFork (config .kallocZeroed) .copyOnWrite loaded.machine task)

/-- The program has forked before it used its stack. -/
def after : System where
  machine := forked.2
  task := loaded.task ++ [forked.1]

theorem bootable : Bootable (config .kallocZeroed) [] [[page, stackArea]] := by
  refine ⟨(SmallProgram.bootable .kallocZeroed).layout, by simp, ?_⟩
  intro areas isProgram args isArea
  obtain rfl := List.mem_singleton.1 isProgram
  rcases List.mem_pair.1 isArea with rfl | rfl
  · exact ⟨by decide, by decide, by decide⟩
  · exact ⟨by decide, by decide, by decide⟩

theorem boot_eq :
    boot (config .kallocZeroed) memory [] [[page, stackArea]] = .ok booted :=
  eq_ok _ (by decide +kernel)

theorem loaded_step :
    SystemStep (config .kallocZeroed) booted (.pageFault 0 .load 0) loaded := by
  have taskAt : booted.task[0]? = some task := by decide +kernel
  have returns : (doPageFault (config .kallocZeroed) booted.machine task .load
      0).isOk = true := by
    decide +kernel
  have succeeds : loaded.machine.oom = false := by decide +kernel
  exact .pageFault taskAt (eq_ok booted.machine returns) succeeds

theorem forked_step :
    SystemStep (config .kallocZeroed) loaded (.fork 0) after := by
  have taskAt : loaded.task[0]? = some task := by decide +kernel
  have returns : (doFork (config .kallocZeroed) .copyOnWrite loaded.machine
      task).isOk = true := by
    decide +kernel
  have succeeds : forked.2.oom = false := by decide +kernel
  exact .fork taskAt (eq_ok_pair (task, loaded.machine) returns) succeeds

end PlantedEntry

open PlantedEntry in
open SmallProgram (config) in
/-- The stack of the child is `swapper_pg_dir`, and it may read it. -/
theorem fork_maps_table :
    Bootable (config .kallocZeroed) [] [[page, stackArea]] ∧
      boot (config .kallocZeroed) memory [] [[page, stackArea]] = .ok booted ∧
      Run (SystemStep (config .kallocZeroed)) booted
        ([.pageFault 0 .load 0] ++ [.fork 0]) after ∧
      UserEntry after 1 (2 ^ 26 - 1) value ∧
      ¬ FramesSafe (config .kallocZeroed) after := by
  have isEntry : UserEntry after 1 (2 ^ 26 - 1) value := by
    have childAt : after.task[1]? = some forked.1 := by decide +kernel
    have here : leaf after.machine.mem forked.1.pgd (2 ^ 26 - 1) = value := by
      decide +kernel
    exact ⟨forked.1, childAt, by decide, here, by decide⟩
  have isTable : TablePage (config .kallocZeroed) after (entryPpn value) := by
    refine ⟨_, Or.inl rfl, [], Nat.zero_le 2, by simp, ?_⟩
    exact congrArg some (entryPpn_entry (by decide) (by decide)).symm
  exact ⟨bootable, boot_eq,
    (Run.single loaded_step).append (Run.single forked_step), isEntry,
    fun safe => safe.notTable 1 _ _ isEntry isTable⟩

end TinyRiscvOs.Vm
