import TinyRiscvOs.Fs.Fat32Content
import TinyRiscvOs.Fs.Open

/-!
# The system calls on files

A handler works on the saved registers and on the descriptor table of the
current task.  `sys_read`, `sys_write` and `sys_seek` either refuse or call the
function that the `struct file` of their descriptor names.

The last section is about `sys_openat`: the value it leaves in `a0` is the
result code of `file_open` and never the descriptor it has opened.
-/

namespace TinyRiscvOs.Kernel

open TinyRiscvOs.Lib
open TinyRiscvOs.Fs

/-- The general registers of a `struct pt_regs`. -/
structure PtRegs where
  x : Nat → Nat

/-- `REG_IDX_A0`. -/
abbrev regIdxA0 : Nat := 10

/-- `REG_IDX_A1`. -/
abbrev regIdxA1 : Nat := 11

/-- `REG_IDX_A2`. -/
abbrev regIdxA2 : Nat := 12

/-- `ERROR_FILE_NOT_OPEN`. -/
abbrev errorFileNotOpen : Nat := 255

/-- A signed value stored in a register. -/
def toRegister (value : Int) : Nat :=
  (value % word64).toNat

namespace PtRegs

/-- The registers with another `a0`. -/
def setA0 (regs : PtRegs) (value : Nat) : PtRegs :=
  ⟨Function.update regs.x regIdxA0 value⟩

@[simp]
theorem setA0_a0 (regs : PtRegs) (value : Nat) :
    (regs.setA0 value).x regIdxA0 = value := by
  simp [setA0]

end PtRegs

/-! ## Reading, writing and seeking -/

/-- What `sys_read`, `sys_write` and `sys_seek` do. -/
inductive FileCall where
  /-- The endless loop of `Err`. -/
  | stuck
  /-- Return to the task with these registers. -/
  | refused (regs : PtRegs)
  /-- Call `function` on `fd_array[fd]` with two more arguments. -/
  | call (function fd first second : Nat)

/-- The descriptor that a call works on. -/
def FileCall.target : FileCall → Option Nat
  | .call _ fd _ _ => some fd
  | _ => none

/-- `sys_seek`; `fd` and `whence` are `unsigned int`. -/
def sysSeek (files : Option FilesStruct) (regs : PtRegs) : FileCall :=
  let fd := regs.x regIdxA0 % word32
  let offset := regs.x regIdxA1
  let whence := regs.x regIdxA2 % word32
  match files with
  | none => .stuck
  | some table =>
      if table.get fd .opened = 0 then .refused regs
      else .call (table.get fd .lseek) fd offset whence

/-- The bodies of `sys_read` and `sys_write`. -/
def sysTransfer (permission : Nat) (function : Field)
    (files : Option FilesStruct) (regs : PtRegs) : FileCall :=
  let fd := regs.x regIdxA0
  let buf := regs.x regIdxA1
  let count := regs.x regIdxA2
  match files with
  | none => .stuck
  | some table =>
      if table.get fd .opened = 0 then .refused (regs.setA0 errorFileNotOpen)
      else if table.get fd .perms &&& permission = 0 then
        .refused (regs.setA0 errorFileNotOpen)
      else .call (table.get fd function) fd buf count

/-- `sys_read`. -/
def sysRead : Option FilesStruct → PtRegs → FileCall :=
  sysTransfer fileReadable .read

/-- `sys_write`. -/
def sysWrite : Option FilesStruct → PtRegs → FileCall :=
  sysTransfer fileWritable .write

/-- `sys_close`: the table afterwards; `none` is the endless loop of `Err`. -/
def sysClose (files : Option FilesStruct) (regs : PtRegs) :
    Option FilesStruct :=
  let fd := regs.x regIdxA0 % word32
  files.map fun table =>
    if table.get fd .opened = 0 then table else table.set fd .opened 0

/-! ## Opening -/

/-- The first closed descriptor from `3` on. -/
def emptyDescriptor (table : FilesStruct) : Option Nat :=
  (List.range' 3 (maxFileNumber - 3)).find? fun fd => table.get fd .opened = 0

/-- What `sys_openat` leaves behind. -/
structure Openat where
  regs : PtRegs
  files : FilesStruct
  driver : Driver
  path : CString

/--
`sys_openat` on the string at `a1`; `none` is the endless loop of `Err` or a
directory scan that has not ended.
-/
def sysOpenat (volume : Fat32Volume) (link : Linkage) (fuel : Nat)
    (files : Option FilesStruct) (driver : Driver) (regs : PtRegs)
    (pathname : CString) : Option Openat :=
  let flags := regs.x regIdxA2 % word32
  match files with
  | none => none
  | some table =>
      match emptyDescriptor table with
      | some fd =>
          (fileOpen volume link fuel table fd driver pathname flags).map
            fun opening =>
              ⟨regs.setA0 (toRegister opening.returned), opening.table,
                opening.driver, opening.path⟩
      | none =>
          some ⟨regs.setA0 (toRegister (-1)), table, driver, pathname⟩

section Openat

variable {volume : Fat32Volume} {link : Linkage} {fuel : Nat}
    {table : FilesStruct} {driver : Driver} {regs : PtRegs}
    {pathname : CString} {result : Openat}

/-- The value that reports an error. -/
def openError : Nat :=
  word64 - 1

/-- `a0` after `sys_openat` is `0` or the error value. -/
theorem sysOpenat_a0
    (ran : sysOpenat volume link fuel (some table) driver regs pathname =
      some result) :
    result.regs.x regIdxA0 = 0 ∨ result.regs.x regIdxA0 = openError := by
  rw [sysOpenat] at ran
  cases found : emptyDescriptor table with
  | none =>
      rw [found] at ran
      cases ran
      exact .inr ((PtRegs.setA0_a0 _ _).trans (by decide))
  | some fd =>
      rw [found] at ran
      obtain ⟨opening, opened, rfl⟩ := Option.map_eq_some_iff.1 ran
      rcases fileOpen_returned opened with success | failure
      · refine .inl ((PtRegs.setA0_a0 _ _).trans ?_)
        rw [success]
        decide
      · refine .inr ((PtRegs.setA0_a0 _ _).trans ?_)
        rw [failure]
        decide

/-- The entry of a path in the root directory, if it is there. -/
def lookup (volume : Fat32Volume) (fuel : Nat) (driver : Driver)
    (pathname : CString) : Option Fat32File :=
  (fat32OpenFile volume fuel driver pathname).map (·.1)

/--
The descriptor `fd` denotes the file of a path after a call of `sys_openat`:
it was closed, its value is in `a0`, its `struct file` is open on the file, and
every later call with the returned value works on it.
-/
structure Denotes (volume : Fat32Volume) (fuel : Nat) (table : FilesStruct)
    (driver : Driver) (pathname : CString) (result : Openat) (fd : Nat) :
    Prop where
  inTable : 3 ≤ fd ∧ fd < maxFileNumber
  closed : table.get fd .opened = 0
  returned : result.regs.x regIdxA0 = fd
  opened : result.files.get fd .opened ≠ 0
  file : lookup volume fuel driver pathname =
    some (result.files.file fd).fat32File
  later : ∀ (files : FilesStruct) (regs : PtRegs),
    regs.x regIdxA0 = result.regs.x regIdxA0 →
    ∀ call ∈ [sysRead (some files) regs, sysWrite (some files) regs,
      sysSeek (some files) regs],
      ∀ target ∈ call.target, target = fd

/-- The value `0` denotes no descriptor. -/
theorem not_denotes_of_zero (zero : result.regs.x regIdxA0 = 0) :
    ¬ ∃ fd, Denotes volume fuel table driver pathname result fd := by
  rintro ⟨fd, denotes⟩
  have returned := denotes.returned
  have inTable := denotes.inTable
  omega

/-- The value that a successful `sys_openat` returns denotes no descriptor. -/
theorem sysOpenat_never_denotes
    (ran : sysOpenat volume link fuel (some table) driver regs pathname =
      some result)
    (success : result.regs.x regIdxA0 ≠ openError) :
    ¬ ∃ fd, Denotes volume fuel table driver pathname result fd :=
  not_denotes_of_zero ((sysOpenat_a0 ran).resolve_right success)

/-- With a closed descriptor and a file that exists the call returns `0`. -/
theorem sysOpenat_found {fd : Nat} {file : Fat32File} {nextDriver : Driver}
    {nextPath : CString} (empty : emptyDescriptor table = some fd)
    (isFat32 : getFsType pathname = fsTypeFat32)
    (found : fat32OpenFile volume fuel driver pathname =
      some (file, nextDriver, nextPath))
    (nonzero : file.cluster ≠ 0) :
    ∃ result,
      sysOpenat volume link fuel (some table) driver regs pathname =
        some result ∧
      result.regs.x regIdxA0 = 0 := by
  obtain ⟨opening, opened, returned⟩ := fileOpen_found link table fd
    (regs.x regIdxA2 % word32) isFat32 found nonzero
  refine ⟨⟨regs.setA0 (toRegister opening.returned), opening.table,
    opening.driver, opening.path⟩, ?_, ?_⟩
  · rw [sysOpenat, empty]
    dsimp only
    rw [opened]
    rfl
  · refine (PtRegs.setA0_a0 _ _).trans ?_
    rw [returned]
    decide

end Openat

/-! ## Opening the file of the small volume -/

namespace NewTask

theorem address_positive (_ : Symbol) : 0 < 8 := by
  decide

theorem address_word (_ : Symbol) : 8 < word64 := by
  decide

/-- Some addresses. -/
def link : Linkage where
  address _ := 8
  positive := address_positive
  word := address_word

/-- The table of a new task. -/
def table : FilesStruct :=
  fileInit link fun _ => 0

theorem pathname_nonzero : ∀ byte ∈ fat32Prefix ++ [0x61], byte ≠ 0 := by
  decide

/-- The path `"/fat32/a"`. -/
def pathname : CString where
  bytes := fat32Prefix ++ [0x61]
  nonzero := pathname_nonzero

def regs : PtRegs :=
  ⟨fun _ => 0⟩

theorem table_empty : emptyDescriptor table = some 3 := by
  have closed := fileInit_closed link (fun _ => 0) (Nat.le_refl 3) (by decide)
  have range : List.range' 3 (maxFileNumber - 3) = 3 :: List.range' 4 12 := rfl
  rw [emptyDescriptor, range]
  exact List.find?_cons_of_pos (decide_eq_true closed)

theorem found : fat32OpenFile SmallVolume.volume 1 SmallVolume.world.driver
    pathname = some (⟨3, ⟨2, 0⟩⟩, SmallVolume.world.driver.load 2,
      pathname.toUpperCase) := by
  have entry : findEntry
      (virtioBlkReadSector SmallVolume.disk 2 fun _ => 0)
      (shortName pathname.toUpperCase) 1 0 = some ⟨3, ⟨2, 0⟩⟩ :=
    findEntry_first 0 _ (by decide) (by decide) (by decide)
  rw [SmallVolume.volume_eq, fat32OpenFile]
  simp only [Driver.load, SmallVolume.world]
  rw [entry]
  rfl

theorem opened : ∃ result,
    sysOpenat SmallVolume.volume link 1 (some table)
        SmallVolume.world.driver regs pathname = some result ∧
      result.regs.x regIdxA0 = 0 :=
  sysOpenat_found table_empty (by decide) found (by decide)

end NewTask

/-- A new task opens the file of the small volume. -/
theorem sysOpenat_never_denotes_new_task : ∃ result,
    sysOpenat SmallVolume.volume NewTask.link 1 (some NewTask.table)
        SmallVolume.world.driver NewTask.regs NewTask.pathname =
      some result ∧
    ¬ ∃ fd, Denotes SmallVolume.volume 1 NewTask.table
      SmallVolume.world.driver NewTask.pathname result fd := by
  obtain ⟨result, ran, zero⟩ := NewTask.opened
  refine ⟨result, ran, sysOpenat_never_denotes ran ?_⟩
  rw [zero]
  decide

/-- The call returns `0`, the descriptor of the standard input, for a file. -/
theorem sysOpenat_returns_stdin : ∃ result,
    sysOpenat SmallVolume.volume NewTask.link 1 (some NewTask.table)
        SmallVolume.world.driver NewTask.regs NewTask.pathname =
      some result ∧
    result.regs.x regIdxA0 = 0 ∧
    ¬ ∃ fd, Denotes SmallVolume.volume 1 NewTask.table
      SmallVolume.world.driver NewTask.pathname result fd := by
  obtain ⟨result, ran, zero⟩ := NewTask.opened
  exact ⟨result, ran, zero, not_denotes_of_zero zero⟩

end TinyRiscvOs.Kernel
