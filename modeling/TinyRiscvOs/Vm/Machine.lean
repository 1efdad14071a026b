import TinyRiscvOs.Lib.Bytes
import TinyRiscvOs.Mm.Pages
import TinyRiscvOs.Vm.Entry

/-!
# Memory, pages and page tables

Physical memory is one store of bytes; the direct map of the kernel makes a
pointer `pa + PA2VA_OFFSET` an access to `pa`, so pointers to pages are written
as frame numbers `pa >> 12`.  The page allocator keeps its arrays beside the
memory, and a record of whether an allocation ever failed.

`create_mapping` and `find_pte` walk the tables as the source does.  The walk
of the processor, which also looks at the other flags, is `translate`.
-/

namespace TinyRiscvOs.Vm

open TinyRiscvOs.Lib
open TinyRiscvOs.Mm

/-- Which of the pages it hands out the allocator fills with zeros. -/
inductive Fill where
  /-- None, as in the source. -/
  | asFound
  /-- Those of `kalloc`, as the comments of `create_mapping` say. -/
  | kallocZeroed
  /-- All of them. -/
  | allZeroed
deriving DecidableEq, Repr

/-- The constants of a build, and the assumptions under which it is run. -/
structure Config where
  /-- `PHY_SIZE / PGSIZE` is `2 ^ top`. -/
  top : Nat
  /-- Pages of the kernel image and of the allocator's arrays. -/
  reserved : Nat
  /-- Physical address of `buddy.ref_cnt`. -/
  refCnt : Nat
  /-- Frame of `swapper_pg_dir`. -/
  swapper : Nat
  /-- Physical address of `_sramdisk`. -/
  sramdisk : Nat
  fill : Fill
  /-- `do_fork` takes a `NULL` from `find_pte` for an absent entry. -/
  absentNull : Bool
deriving DecidableEq, Repr

/-- Why a kernel function does not return. -/
inductive Stop where
  /-- `Err`: print and loop. -/
  | panic
  /-- A loop whose counter wraps before it reaches its bound. -/
  | endless
  /-- The kernel itself faults, or leaves an array of the allocator. -/
  | wildAccess
deriving DecidableEq, Repr

/-- What the kernel functions change. -/
structure Machine where
  buddy : Buddy
  mem : Bytes
  /-- An allocation has failed. -/
  oom : Bool

/-- `PHY_START >> 12`, the frame of the first page. -/
abbrev ramBase : Nat := 0x80000

/-- The frame a `NULL` page pointer stands for: `(0 - PA2VA_OFFSET) >> 12`. -/
abbrev nullFrame : Nat := 0x2080000

/-! ## Words of a frame -/

/-- `table[index]` for the page of a frame. -/
def word (mem : Bytes) (frame index : Nat) : Nat :=
  Bytes.littleEndian mem (4096 * frame + 8 * index) 8

/-- `table[index] = value`. -/
def setWord (mem : Bytes) (frame index value : Nat) : Bytes :=
  Bytes.store mem (4096 * frame + 8 * index) value 8

/-! ## Pages -/

/-- `alloc_page`, filled with zeros on demand. -/
def allocPage (zeroed : Bool) (m : Machine) : Nat × Machine :=
  let (pfn, buddy) := m.buddy.alloc 1
  if pfn = 0 then (nullFrame, { m with buddy, oom := true })
  else
    let frame := ramBase + pfn
    let mem :=
      if zeroed then Bytes.fill m.mem (4096 * frame) 0 4096 else m.mem
    (frame, { m with buddy, mem })

/-- The page that a user page, a task or a root table lives in. -/
def Config.allocPage (cfg : Config) (m : Machine) : Nat × Machine :=
  Vm.allocPage (cfg.fill = .allZeroed) m

/-- `kalloc`. -/
def Config.kalloc (cfg : Config) (m : Machine) : Nat × Machine :=
  Vm.allocPage (cfg.fill ≠ .asFound) m

/-- `memcpy` of a whole page. -/
def copyFrame (mem : Bytes) (target source : Nat) : Bytes :=
  Bytes.move mem (4096 * target) (4096 * source) 4096

/-! ## Building and searching page tables -/

/-- `(va >> (12 + 9 * level)) & 0x1ff`. -/
def vpn (level va : Nat) : Nat :=
  (va >>> (12 + 9 * level)) &&& 0x1ff

/-- One level of `create_mapping`: follow the entry, or hang a new page below it. -/
def nextTable (cfg : Config) (m : Machine) (table index : Nat) :
    Nat × Machine :=
  let old := word m.mem table index
  if old &&& permV = 0 then
    let (next, m) := cfg.kalloc m
    (next, { m with
      mem := setWord m.mem table index (entry (next &&& ppnMask) permV) })
  else (entryPpn old, m)

/-- The body of the loop of `create_mapping`; the flag reports the early `return`. -/
def mapPage (cfg : Config) (m : Machine) (pgtbl va pa perm : Nat) :
    Bool × Machine :=
  let (pmd, m) := nextTable cfg m pgtbl (vpn 2 va)
  if pmd = nullFrame then (true, m)
  else
    let (pte, m) := nextTable cfg m pmd (vpn 1 va)
    if pte = nullFrame then (true, m)
    else
      (false, { m with
        mem := setWord m.mem pte (vpn 0 va)
          (entry ((pa >>> 12) &&& ppnMask) perm) })

/-- The iterations of the loop of `create_mapping`, from `offset` on. -/
def mapPages (cfg : Config) (pgtbl va pa perm : Nat) :
    Nat → Nat → Machine → Bool × Machine
  | 0, _, m => (false, m)
  | count + 1, offset, m =>
      let (returned, m) :=
        mapPage cfg m pgtbl ((va + offset) % 2 ^ 64) ((pa + offset) % 2 ^ 64)
          perm
      if returned then (true, m)
      else mapPages cfg pgtbl va pa perm count (offset + 4096) m

/--
`create_mapping`.  The loop variable wraps when `sz` exceeds `2 ^ 64 - 4096`,
and then only the early `return` ends the loop.
-/
def createMapping (cfg : Config) (m : Machine) (pgtbl va pa sz perm : Nat) :
    Except Stop Machine :=
  let (returned, m) := mapPages cfg pgtbl va pa perm ((sz + 4095) / 4096) 0 m
  if returned ∨ sz ≤ 2 ^ 64 - 4096 then .ok m else .error .endless

/-- One level of `find_pte`. -/
def findTable (mem : Bytes) (table index : Nat) : Option Nat :=
  let old := word mem table index
  if old &&& permV = 0 then none else some (entryPpn old)

/-- `find_pte`: the table and the index of the entry, `none` for `NULL`. -/
def findPte (mem : Bytes) (pgtbl va : Nat) : Option (Nat × Nat) := do
  let pmd ← findTable mem pgtbl (vpn 2 va)
  let pte ← findTable mem pmd (vpn 1 va)
  return (pte, vpn 0 va)

/-! ## The processor -/

/-- What an instruction does to an address. -/
inductive Access where
  | fetch
  | load
  | store
deriving DecidableEq, Repr

/-- The privilege level; the kernel runs with `SUM` set. -/
inductive Mode where
  | user
  | supervisor
deriving DecidableEq, Repr

/-- The walk of the processor: the leaf entry and its level. -/
def pageWalk (mem : Bytes) (va : Nat) : Nat → Nat → Option (Nat × Nat)
  | 0, _ => none
  | level + 1, table =>
      let old := word mem table (vpn level va)
      if ¬ has permV old ∨ (¬ has permR old ∧ has permW old) then none
      else if has permR old ∨ has permX old then some (old, level)
      else pageWalk mem va level (entryPpn old)

/-- The flags of a leaf allow the access. -/
def allows (mode : Mode) (access : Access) (leaf : Nat) : Bool :=
  (mode = .supervisor || has permU leaf) && has permA leaf &&
    match access with
    | .fetch => mode = .user && has permX leaf
    | .load => has permR leaf
    | .store => has permW leaf && has permD leaf

/-- The physical address an access reaches, `none` when it faults. -/
def translate (mem : Bytes) (pgtbl : Nat) (mode : Mode) (access : Access)
    (va : Nat) : Option Nat :=
  if va < 2 ^ 38 ∨ 2 ^ 64 - 2 ^ 38 ≤ va then
    match pageWalk mem va 3 pgtbl with
    | none => none
    | some (leaf, level) =>
        if allows mode access leaf ∧ entryPpn leaf % 512 ^ level = 0 then
          some (4096 * entryPpn leaf + va % (4096 * 512 ^ level))
        else none
  else none

/-! ## The kernel's own pointers -/

/-- Where a pointer of the kernel leads while the table `pgtbl` is in `satp`. -/
def kernelAddress (cfg : Config) (mem : Bytes) (pgtbl : Nat) (access : Access)
    (va : Nat) : Option Nat :=
  if vmStart ≤ va ∧ va < vmStart + 4096 * 2 ^ cfg.top then
    some (va - pa2vaOffset)
  else if va < 2 ^ 38 then translate mem pgtbl .supervisor access va
  else none

/-- `PHYS2PFN` of a frame. -/
def pfnOf (frame : Nat) : Nat :=
  (4096 * frame + (2 ^ 64 - phyStart)) % 2 ^ 64 / 4096

/--
`get_page`.  The index is not checked: a frame beyond the memory makes it count
in whatever word lies there.
-/
def getPage (cfg : Config) (m : Machine) (pgtbl frame : Nat) :
    Except Stop (Nat × Machine) :=
  let pfn := pfnOf frame
  if pfn < 2 ^ cfg.top then
    let (err, buddy) := m.buddy.getPage pfn
    .ok (err, { m with buddy })
  else
    let va := (cfg.refCnt + pa2vaOffset + 8 * pfn) % 2 ^ 64
    match kernelAddress cfg m.mem pgtbl .load va with
    | none => .error .wildAccess
    | some address =>
        let count := Bytes.littleEndian m.mem address 8
        if count = 0 then .ok (1, m)
        else
          match kernelAddress cfg m.mem pgtbl .store va with
          | none => .error .wildAccess
          | some address =>
              .ok (0, { m with
                mem := Bytes.store m.mem address ((count + 1) % 2 ^ 64) 8 })

/-- `put_page`; a frame beyond the memory is not followed further. -/
def putPage (cfg : Config) (m : Machine) (frame : Nat) : Except Stop Machine :=
  let pfn := pfnOf frame
  if pfn < 2 ^ cfg.top then .ok { m with buddy := m.buddy.putPage pfn }
  else .error .wildAccess

end TinyRiscvOs.Vm
