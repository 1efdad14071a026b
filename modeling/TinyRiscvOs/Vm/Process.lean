import TinyRiscvOs.Vm.Machine

/-!
# Address spaces, page faults and fork

The parts of `vm.c` and `proc.c` that create and change user address spaces.
The linked list of areas is a list with the most recent area first, as
`do_mmap` builds it, and a task is what the virtual-memory code reads of its
`task_struct`.  The pages that hold these structures are allocated as in the
source and never released.
-/

namespace TinyRiscvOs.Vm

open TinyRiscvOs.Lib
open TinyRiscvOs.Mm

/-- `struct vm_area_struct`. -/
structure Vma where
  vmStart : Nat
  vmEnd : Nat
  vmFlags : Nat
  vmPgoff : Nat
  vmFilesz : Nat
deriving DecidableEq, Repr

/-- What the virtual-memory code reads of a `task_struct`: `pgd` as a frame, and `mm.mmap`. -/
structure Task where
  pgd : Nat
  mmap : List Vma
deriving DecidableEq, Repr

/-- `USER_END`. -/
abbrev userEnd : Nat := 0x4000000000

/-- `PGROUNDDOWN`. -/
def pgRoundDown (addr : Nat) : Nat :=
  addr / 4096 * 4096

/-- `PGROUNDUP`. -/
def pgRoundUp (addr : Nat) : Nat :=
  (addr + 4095) % 2 ^ 64 / 4096 * 4096

/-! ## Areas -/

/-- The test of `find_vma`. -/
def Vma.Contains (vma : Vma) (addr : Nat) : Prop :=
  vma.vmStart ≤ addr ∧ addr < vma.vmEnd

instance (vma : Vma) (addr : Nat) : Decidable (vma.Contains addr) :=
  inferInstanceAs (Decidable (_ ∧ _))

/-- `find_vma`. -/
def findVma : List Vma → Nat → Option Vma
  | [], _ => none
  | vma :: rest, addr =>
      if vma.Contains addr then some vma else findVma rest addr

/-- The arguments of `do_mmap`. -/
structure MmapArgs where
  addr : Nat
  len : Nat
  vmPgoff : Nat
  vmFilesz : Nat
  flags : Nat
deriving DecidableEq, Repr

/-- The area `do_mmap` builds. -/
def MmapArgs.vma (args : MmapArgs) : Vma where
  vmStart := args.addr
  vmEnd := (args.addr + args.len) % 2 ^ 64
  vmFlags := args.flags
  vmPgoff := args.vmPgoff
  vmFilesz := args.vmFilesz

/-- `do_mmap`. -/
def doMmap (cfg : Config) (m : Machine) (mmap : List Vma) (args : MmapArgs) :
    Except Stop (List Vma × Machine) :=
  let (page, m) := cfg.kalloc m
  if page = nullFrame then .error .panic else .ok (args.vma :: mmap, m)

/-! ## Page faults -/

/-- The area flag that `do_page_fault` asks for. -/
def Access.vmFlag : Access → Nat
  | .fetch => vmExec
  | .store => vmWrite
  | .load => vmRead

/-- The entry of a copy-on-write page: valid, not writable, under a store fault. -/
def cowEntry (mem : Bytes) (task : Task) (access : Access) (badAddr : Nat) :
    Option (Nat × Nat) :=
  match access with
  | .store =>
      match findPte mem task.pgd (pgRoundDown badAddr) with
      | none => none
      | some (table, index) =>
          let pte := word mem table index
          if pte &&& permV ≠ 0 ∧ pte &&& permW = 0 then some (table, index)
          else none
  | _ => none

/-- The bytes of the area's file that belong on the page of `badAddr`. -/
def copyFromFile (cfg : Config) (mem : Bytes) (vma : Vma) (page badAddr : Nat) :
    Bytes :=
  let vaddrStart := max (pgRoundDown badAddr) vma.vmStart
  let vaddrEnd := min (pgRoundUp (badAddr + 1)) vma.vmEnd
  let inPageOffset := vaddrStart - pgRoundDown badAddr
  let segOffset := vaddrStart - vma.vmStart
  let segCopysz := vaddrEnd - vaddrStart
  Bytes.move mem (4096 * page + inPageOffset)
    ((cfg.sramdisk + vma.vmPgoff + segOffset) % 2 ^ 64) segCopysz

/--
`do_page_fault` for a fault of the kind `access` at `badAddr`.  When
`alloc_page` returns `NULL` the page is `nullFrame`, as in the entry that the
code makes of it, while the code copies to address `0`: results about the copy
are for an `oom` that stays clear.
-/
def doPageFault (cfg : Config) (m : Machine) (task : Task) (access : Access)
    (badAddr : Nat) : Except Stop Machine :=
  match findVma task.mmap badAddr with
  | none => .error .panic
  | some vma =>
      if vma.vmFlags &&& access.vmFlag = 0 then .error .panic
      else
        let isCow := cowEntry m.mem task access badAddr
        let (page, m) := cfg.allocPage m
        match isCow with
        | some (table, index) => do
            let src := entryPpn (word m.mem table index)
            let m ← putPage cfg { m with mem := copyFrame m.mem page src } src
            createMapping cfg m task.pgd (pgRoundDown badAddr) (4096 * page)
              4096 (pagePerm vma.vmFlags)
        | none =>
            let mem :=
              if vma.vmFlags &&& vmAnon = 0 then
                copyFromFile cfg m.mem vma page badAddr
              else m.mem
            createMapping cfg { m with mem } task.pgd (pgRoundDown badAddr)
              (4096 * page) 4096 (pagePerm vma.vmFlags)

/-! ## Fork -/

/-- How `do_fork` hands a mapped page to the child. -/
inductive ForkMode where
  /-- Share the frame and clear `PERM_W`, as the code does. -/
  | copyOnWrite
  /-- Copy the frame, as the code in the comment does. -/
  | eagerCopy
deriving DecidableEq, Repr

/--
The word that `*pte` reads or writes.  A `NULL` from `find_pte` is an access to
address `0` in the address space of the current task.
-/
def derefPte (cfg : Config) (mem : Bytes) (pgtbl : Nat) (access : Access) :
    Option (Nat × Nat) → Except Stop (Nat × Nat)
  | some slot => .ok slot
  | none =>
      match kernelAddress cfg mem pgtbl access 0 with
      | some address => .ok (address / 4096, address % 4096 / 8)
      | none => .error .wildAccess

/-- The share branch of `do_fork`: another reference, and no more writing by either task. -/
def sharePage (cfg : Config) (m : Machine) (parent : Task) (childPgd addr : Nat)
    (pte : Option (Nat × Nat)) (frame : Nat) : Except Stop Machine := do
  let (err, m) ← getPage cfg m parent.pgd frame
  if err ≠ 0 then .error .panic
  else
    let (table, index) ← derefPte cfg m.mem parent.pgd .store pte
    let old := word m.mem table index &&& complement permW
    let m := { m with mem := setWord m.mem table index old }
    createMapping cfg m childPgd addr (4096 * frame) 4096
      (old &&& 0xff &&& complement permW)

/-- The copy branch kept in the comment of `do_fork`. -/
def copyPage (cfg : Config) (m : Machine) (childPgd addr frame pte : Nat) :
    Except Stop Machine :=
  let (page, m) := cfg.allocPage m
  let m := { m with mem := copyFrame m.mem page frame }
  createMapping cfg m childPgd addr (4096 * page) 4096 (pte &&& 0xff)

/-- The body of the loop over the pages of an area. -/
def forkPage (cfg : Config) (mode : ForkMode) (m : Machine) (parent : Task)
    (childPgd addr : Nat) : Except Stop Machine :=
  let pte := findPte m.mem parent.pgd addr
  if pte = none ∧ cfg.absentNull then .ok m
  else do
    let (table, index) ← derefPte cfg m.mem parent.pgd .load pte
    let old := word m.mem table index
    if old &&& permV = 0 then .ok m
    else
      match mode with
      | .copyOnWrite =>
          sharePage cfg m parent childPgd addr pte (entryPpn old)
      | .eagerCopy => copyPage cfg m childPgd addr (entryPpn old) old

/-- The loop over the pages of an area. -/
def forkPages (cfg : Config) (mode : ForkMode) (parent : Task)
    (childPgd : Nat) : Nat → Nat → Machine → Except Stop Machine
  | 0, _, m => .ok m
  | count + 1, addr, m => do
      let m ← forkPage cfg mode m parent childPgd addr
      forkPages cfg mode parent childPgd count (addr + 4096) m

/-- The iterations of that loop: the pages from the first one up to `vm_end`. -/
def Vma.pageCount (vma : Vma) : Nat :=
  (vma.vmEnd + 4095) / 4096 - vma.vmStart / 4096

/-- The body of the loop over the areas of the parent. -/
def forkVma (cfg : Config) (mode : ForkMode) (parent child : Task)
    (m : Machine) (vma : Vma) : Except Stop (Task × Machine) := do
  let (mmap, m) ← doMmap cfg m child.mmap
    { addr := vma.vmStart
      len := (vma.vmEnd + 2 ^ 64 - vma.vmStart) % 2 ^ 64
      vmPgoff := vma.vmPgoff
      vmFilesz := vma.vmFilesz
      flags := vma.vmFlags }
  if 2 ^ 64 - 4096 < vma.vmEnd then .error .endless
  else
    let m ← forkPages cfg mode parent child.pgd vma.pageCount
      (pgRoundDown vma.vmStart) m
    return ({ child with mmap }, m)

/-- The loop over the areas of the parent. -/
def forkVmas (cfg : Config) (mode : ForkMode) (parent : Task) :
    List Vma → Task → Machine → Except Stop (Task × Machine)
  | [], child, m => .ok (child, m)
  | vma :: rest, child, m => do
      let (child, m) ← forkVma cfg mode parent child m vma
      forkVmas cfg mode parent rest child m

/-- `do_fork` up to the registers: the task of the child. -/
def doFork (cfg : Config) (mode : ForkMode) (m : Machine) (parent : Task) :
    Except Stop (Task × Machine) :=
  let (_, m) := cfg.allocPage m
  let (pgd, m) := cfg.allocPage m
  let m := { m with mem := copyFrame m.mem pgd cfg.swapper }
  forkVmas cfg mode parent parent.mmap { pgd, mmap := [] } m

/-! ## Starting tasks -/

/-- A sequence of `do_mmap` calls. -/
def doMmaps (cfg : Config) :
    List MmapArgs → List Vma → Machine → Except Stop (List Vma × Machine)
  | [], mmap, m => .ok (mmap, m)
  | args :: rest, mmap, m => do
      let (mmap, m) ← doMmap cfg m mmap args
      doMmaps cfg rest mmap m

/-- The body of the loop of `task_init`, for the areas of the image and the stack. -/
def startTask (cfg : Config) (m : Machine) (areas : List MmapArgs) :
    Except Stop (Task × Machine) := do
  let (_, m) := cfg.kalloc m
  -- `file_init`
  let (_, m) := cfg.allocPage m
  let (pgd, m) := cfg.allocPage m
  let m := { m with mem := copyFrame m.mem pgd cfg.swapper }
  let (mmap, m) ← doMmaps cfg areas [] m
  return ({ pgd, mmap }, m)

/-- The area of the user stack. -/
def stackArea : MmapArgs where
  addr := userEnd - 4096
  len := 4096
  vmPgoff := 0
  vmFilesz := 0
  flags := vmRead ||| vmWrite ||| vmAnon

/-- The loop of `task_init`. -/
def startTasks (cfg : Config) :
    List (List MmapArgs) → List Task → Machine →
      Except Stop (List Task × Machine)
  | [], tasks, m => .ok (tasks, m)
  | areas :: rest, tasks, m => do
      let (task, m) ← startTask cfg m areas
      startTasks cfg rest (tasks ++ [task]) m

/-- A range that `setup_vm_final` maps. -/
structure KernelMap where
  va : Nat
  pa : Nat
  sz : Nat
  perm : Nat
deriving DecidableEq, Repr

/-- The calls of `create_mapping` in `setup_vm_final`. -/
def mapKernel (cfg : Config) : List KernelMap → Machine → Except Stop Machine
  | [], m => .ok m
  | range :: rest, m => do
      let m ← createMapping cfg m cfg.swapper range.va range.pa range.sz
        range.perm
      mapKernel cfg rest m

/-- `alloc_pages(3)` of `virtio_blk_queue_init`, which does not test the result. -/
def ringPages (m : Machine) : Machine :=
  let (pfn, buddy) := m.buddy.alloc 3
  { m with buddy, oom := m.oom || pfn = 0 }

/-- The tasks, `task[0]` left out, and the machine they run on. -/
structure System where
  machine : Machine
  task : List Task

/--
The kernel at the call of `schedule` in `start_kernel`: `mm_init`,
`setup_vm_final`, `task_init` and the pages of `virtio_dev_init`, over memory
with any contents.
-/
def boot (cfg : Config) (mem : Bytes) (maps : List KernelMap)
    (programs : List (List MmapArgs)) : Except Stop System := do
  let m : Machine :=
    { buddy := Buddy.reserve cfg.reserved (Buddy.fresh (2 ^ cfg.top))
      mem := Bytes.fill mem (4096 * cfg.swapper) 0 4096
      oom := false }
  let m ← mapKernel cfg maps m
  -- `idle`
  let (_, m) := cfg.kalloc m
  let (task, m) ← startTasks cfg programs [] m
  return { machine := ringPages m, task }

end TinyRiscvOs.Vm
