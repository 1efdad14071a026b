import TinyRiscvOs.Vm.Safety

/-!
# Address spaces are apart

The tables below the lower halves of two root tables are different pages, and
none of them is the kernel's.  So a fault or a fork of one task leaves alone
what the processor makes of an address of another task, or of the kernel.  The
exception is once more the fork that meets a missing table: the frame number it
finds in the program's own page may lead `get_page` to any word of the memory,
the entry of another task included.
-/

namespace TinyRiscvOs.Vm

open TinyRiscvOs.Lib
open TinyRiscvOs.Mm

namespace Inv

variable {cfg : Config} {task : List Task} {kernel : Finset Nat} {budget : Nat}
    {m after : Machine}

end Inv

/-! ## Steps -/

namespace StrayCount

open SmallProgram (config result eq_ok eq_ok_pair code)
open PlantedEntry (page)

/-- An entry with a frame number for which `get_page` counts in a table of the other task. -/
def value : Nat :=
  entry (ramBase + 7681) (permA ||| permD ||| permU ||| permR ||| permV)

/-- The ramdisk has the entry where the page begins. -/
def memory : Bytes :=
  Bytes.store (fun _ => 0) (phyStart + page.vmPgoff) value 8

/-- The program with the entry on its page at address `0`, and the small program. -/
def programs : List (List MmapArgs) :=
  [[page, stackArea], [code, stackArea]]

/-- After the boot. -/
def booted : System :=
  result { machine := Boot.machine (config .kallocZeroed) memory, task := [] }
    (boot (config .kallocZeroed) memory [] programs)

def task : Task :=
  booted.task.headD { pgd := 0, mmap := [] }

def other : Task :=
  (booted.task.drop 1).headD { pgd := 0, mmap := [] }

/-- The other task has fetched its first instruction. -/
def fetched : System where
  machine := result booted.machine
    (doPageFault (config .kallocZeroed) booted.machine other .fetch 0x1000)
  task := booted.task

/-- The program has read the entry. -/
def loaded : System where
  machine := result fetched.machine
    (doPageFault (config .kallocZeroed) fetched.machine task .load 0)
  task := fetched.task

/-- The child, and the machine after the fork. -/
def forked : Task × Machine :=
  result (task, loaded.machine)
    (doFork (config .kallocZeroed) .copyOnWrite loaded.machine task)

/-- The program has forked before it used its stack. -/
def after : System where
  machine := forked.2
  task := loaded.task ++ [forked.1]

theorem bootable : Bootable (config .kallocZeroed) [] programs := by
  refine ⟨(SmallProgram.bootable .kallocZeroed).layout, by simp, ?_⟩
  intro areas isProgram args isArea
  rcases List.mem_pair.1 isProgram with rfl | rfl
  · exact PlantedEntry.bootable.areas _ List.mem_cons_self args isArea
  · exact (SmallProgram.bootable .kallocZeroed).areas _ List.mem_cons_self args
      isArea

theorem boot_eq :
    boot (config .kallocZeroed) memory [] programs = .ok booted :=
  eq_ok _ (by decide +kernel)

theorem fetched_step :
    SystemStep (config .kallocZeroed) booted (.pageFault 1 .fetch 0x1000)
      fetched := by
  have taskAt : booted.task[1]? = some other := by decide +kernel
  have returns : (doPageFault (config .kallocZeroed) booted.machine other .fetch
      0x1000).isOk = true := by
    decide +kernel
  have succeeds : fetched.machine.oom = false := by decide +kernel
  exact .pageFault taskAt (eq_ok booted.machine returns) succeeds

theorem loaded_step :
    SystemStep (config .kallocZeroed) fetched (.pageFault 0 .load 0) loaded := by
  have taskAt : fetched.task[0]? = some task := by decide +kernel
  have returns : (doPageFault (config .kallocZeroed) fetched.machine task .load
      0).isOk = true := by
    decide +kernel
  have succeeds : loaded.machine.oom = false := by decide +kernel
  exact .pageFault taskAt (eq_ok fetched.machine returns) succeeds

theorem forked_step :
    SystemStep (config .kallocZeroed) loaded (.fork 0) after := by
  have taskAt : loaded.task[0]? = some task := by decide +kernel
  have returns : (doFork (config .kallocZeroed) .copyOnWrite loaded.machine
      task).isOk = true := by
    decide +kernel
  have succeeds : forked.2.oom = false := by decide +kernel
  exact .fork taskAt (eq_ok_pair (task, loaded.machine) returns) succeeds

end StrayCount

end TinyRiscvOs.Vm
