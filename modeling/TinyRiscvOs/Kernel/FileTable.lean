import TinyRiscvOs.Kernel.Descriptors
import TinyRiscvOs.Kernel.Openat
import TinyRiscvOs.Fs.Lookup
import Mathlib.Data.List.Find

/-!
# From paths to byte arrays

A task opens files by their paths, transfers bytes, seeks and closes, in any
order.  What it sees is a table of slots over named byte arrays: a slot is
closed, is open on a file at an offset, or is spent on a path without a file.
`sys_openat` takes the first closed slot from `3` on and answers `0` and not
the number of the slot.
-/

namespace TinyRiscvOs.Kernel

open TinyRiscvOs.Lib
open TinyRiscvOs.Fs

/-! ## The calls -/

/-- A system call on files. -/
inductive FsCall where
  | openat (regs : PtRegs) (pathname : CString)
  | close (regs : PtRegs)
  | io (fd : Nat) (call : IoCall [fd])

/-- What the task gets: `a0`, and the string of its path as the kernel leaves it. -/
inductive FsAnswer where
  | opened (a0 : Nat) (pathname : CString)
  | closed (a0 : Nat)
  | io (reply : IoReply)

/-- The handler of the call. -/
def FileState.handle (volume : Fat32Volume) (link : Linkage) (fuel : Nat)
    (s : FileState) : FsCall → Option (FsAnswer × FileState)
  | .openat regs pathname =>
      (sysOpenat volume link fuel (some s.table) s.driver regs pathname).map
        fun result =>
          (.opened (result.regs.x regIdxA0) result.path,
            ⟨result.files, result.driver⟩)
  | .close regs =>
      (sysClose (some s.table) regs).map fun table =>
        (.closed (regs.x regIdxA0), ⟨table, s.driver⟩)
  | .io _ call =>
      (s.exec volume link fuel call).map fun result =>
        (.io result.1, result.2)

/-! ## What they are for -/

/-- What is behind a descriptor. -/
inductive Slot (Name : Type) where
  | closed
  /-- Opened, and on no file. -/
  | spent
  | file (name : Name) (perms offset : Nat)

/-- No file is behind the descriptor, and it can be taken. -/
def Slot.isClosed {Name : Type} : Slot Name → Bool
  | .closed => true
  | _ => false

/-- The slots of a task, and the byte arrays they are on. -/
structure FileTable (Name : Type) where
  size : Name → Nat
  content : Name → Nat → Byte
  slots : Nat → Slot Name

/-- The answer of a closed descriptor. -/
def IoCall.onClosed {fds : List Nat} : IoCall fds → IoReply
  | .read _ buffer _ => .read errorFileNotOpen buffer
  | .write _ _ _ => .write errorFileNotOpen
  | .seek regs _ => .seek (regs.x regIdxA0)

namespace FileTable

variable {Name : Type}

/-- The table with another slot. -/
def setSlot (files : FileTable Name) (fd : Nat) (slot : Slot Name) :
    FileTable Name where
  size := files.size
  content := files.content
  slots := Function.update files.slots fd slot

/-- The slot that the next path takes. -/
def freeSlot (files : FileTable Name) : Option Nat :=
  (List.range' 3 (maxFileNumber - 3)).find? fun fd => (files.slots fd).isClosed

/-- The byte arrays as one descriptor sees them. -/
def seenAt (files : FileTable Name) (fd offset : Nat) :
    ByteFiles Name {other // other ∈ [fd]} where
  size := files.size
  content := files.content
  offset := fun _ => offset

/-- The string that is left: a path of FAT32 is in upper case. -/
def pathLeft (path : CString) : CString :=
  if getFsType path = fsTypeFat32 then path.toUpperCase else path

/-- A call on the table; `names` are the files that the paths lead to. -/
def exec [DecidableEq Name] (names : CString → Option Name)
    (files : FileTable Name) : FsCall → Option (FsAnswer × FileTable Name)
  | .openat regs path =>
      match files.freeSlot with
      | none => some (.opened openError path, files)
      | some fd =>
          match names path with
          | some name =>
              some (.opened 0 (pathLeft path),
                files.setSlot fd (.file name (regs.x regIdxA2 % word32) 0))
          | none =>
              some (.opened openError (pathLeft path), files.setSlot fd .spent)
  | .close regs =>
      some (.closed (regs.x regIdxA0),
        files.setSlot (regs.x regIdxA0 % word32) .closed)
  | .io fd call =>
      match files.slots fd with
      | .closed => some (.io call.onClosed, files)
      | .spent => none
      | .file name perms offset =>
          (ioSpec (fun _ => name) (fun _ => perms) (files.seenAt fd offset)
            call).map fun result =>
              (.io result.1,
                { size := result.2.size
                  content := result.2.content
                  slots := Function.update files.slots fd
                    (.file name perms
                      (result.2.offset ⟨fd, List.mem_singleton_self fd⟩)) })

end FileTable

/-- The first sector of the root directory decides what the path leads to. -/
def LeadsTo {Name : Type} (files : Name → StoredFile) (sector : Bytes)
    (names : CString → Option Name) (path : CString) : Prop :=
  match names path with
  | some name =>
      getFsType path = fsTypeFat32 ∧ (files name).first ≠ 0 ∧
        findEntry sector (shortName path.toUpperCase) 16 0 =
          some (files name).handle
  | none =>
      getFsType path = fsTypeFat32 →
        ∃ file, findEntry sector (shortName path.toUpperCase) 16 0 =
          some file ∧ file.cluster = 0

/--
The conditions on a call: the path fits into the slot and leads to a file or to
none, the descriptor is one of the table, it is not spent, and the sum of a seek
fits.
-/
def FsInRange {Name : Type} [DecidableEq Name] (stored : Name → StoredFile)
    (sector : Bytes) (names : CString → Option Name) (files : FileTable Name) :
    FsCall → Prop
  | .openat _ path => Fits path ∧ LeadsTo stored sector names path
  | .close regs => regs.x regIdxA0 % word32 < maxFileNumber
  | .io fd call =>
      fd < maxFileNumber ∧
        match files.slots fd with
        | .closed => True
        | .spent => False
        | .file name _ offset =>
            IoInRange (fun _ => name) (files.seenAt fd offset) call

/-! ## The root directory -/

section Directory

variable {volume : Fat32Volume} {driver : Driver} {fuel : Nat}
    {path : CString} {sector : Bytes} {file : Fat32File}

/-- A lookup that the first sixteen entries decide looks at nothing behind them. -/
theorem findEntry_agrees {buf filename : Bytes}
    (agree : ∀ offset < sectorSize, buf offset = sector offset)
    {count entry : Nat} (more : Nat) (inside : entry + count ≤ 16)
    (found : findEntry sector filename count entry = some file) :
    findEntry buf filename (count + more) entry = some file := by
  induction count generalizing entry with
  | zero => cases found
  | succ count induction =>
      have byte {offset : Nat} (small : offset < 32) :
          buf (32 * entry + offset) = sector (32 * entry + offset) :=
        agree _ (by simp only [sectorSize]; omega)
      have first : buf (32 * entry) = sector (32 * entry) :=
        byte (Nat.zero_lt_succ 31)
      have named : memcmpEqual (fun index => buf (32 * entry + index)) filename
          8 = memcmpEqual (fun index => sector (32 * entry + index)) filename
            8 := by
        rw [memcmpEqual, memcmpEqual, Bool.eq_iff_iff, List.all_eq_true,
          List.all_eq_true]
        refine forall₂_congr fun index member => ?_
        have small := List.mem_range.1 member
        rw [byte (by omega)]
      have number {start : Nat} (low : start + 2 ≤ 32) :
          buf.littleEndian (32 * entry + start) 2 =
            sector.littleEndian (32 * entry + start) 2 :=
        Bytes.littleEndian_congr fun address lower upper =>
          agree address (by simp only [sectorSize]; omega)
      have next := @induction (entry + 1) (by omega)
      rw [Nat.add_right_comm, findEntry, first, named, number (by decide),
        number (by decide)]
      rw [findEntry] at found
      split at found
      · rw [if_pos ‹_›]
        split at found
        · rw [if_pos ‹_›]
          exact next found
        · rw [if_neg ‹_›]
          split at found
          · rw [if_pos ‹_›]
            exact found
          · rw [if_neg ‹_›]
            exact next found
      · rw [if_neg ‹_›]
        exact found

/-- The driver finds what the sector says, with anything behind its buffer. -/
theorem lookup_agrees
    (directory : ∀ offset < sectorSize,
      driver.disk (volume.firstDataSec % word32) offset = sector offset)
    (enough : 16 ≤ fuel)
    (found : findEntry sector (shortName path.toUpperCase) 16 0 = some file) :
    ∃ next after, fat32OpenFile volume fuel driver path =
      some (file, next, after) := by
  obtain ⟨more, rfl⟩ := Nat.exists_eq_add_of_le enough
  have loaded : ∀ offset < sectorSize,
      (driver.load volume.firstDataSec).buf offset = sector offset :=
    fun offset small =>
      (virtioBlkReadSector_inside _ _ _ small).trans (directory offset small)
  refine ⟨driver.load volume.firstDataSec, path.toUpperCase, ?_⟩
  rw [fat32OpenFile, findEntry_agrees loaded more (Nat.le_refl 16) found]
  rfl

end Directory

/-! ## What `file_open` stores -/

section FileOpen

variable {volume : Fat32Volume} {link : Linkage} {fuel : Nat}
    {table : FilesStruct} {fd : Nat} {driver : Driver} {path : CString}
    {flags : Nat} {opening : Opening}

theorem fileOpen_perms
    (ran : fileOpen volume link fuel table fd driver path flags =
      some opening) :
    opening.table.get fd .perms = flags % word32 := by
  have width : 256 ^ Field.perms.width = word32 := by decide
  rw [fileOpen] at ran
  split at ran
  · obtain ⟨found, -, rfl⟩ := Option.map_eq_some_iff.1 ran
    dsimp only
    split <;>
      simp (disch := decide) only [FilesStruct.get_set_of_apart,
        FilesStruct.get_copyPath, FilesStruct.get_set, width]
  · cases ran
    simp (disch := decide) only [FilesStruct.get_set_of_apart,
      FilesStruct.get_copyPath, FilesStruct.get_set, width]

theorem fileOpen_cfo
    (ran : fileOpen volume link fuel table fd driver path flags =
      some opening) :
    opening.table.get fd .cfo = 0 := by
  rw [fileOpen] at ran
  split at ran
  · obtain ⟨found, -, rfl⟩ := Option.map_eq_some_iff.1 ran
    dsimp only
    split <;>
      simp (disch := decide) only [FilesStruct.get_set_of_apart,
        FilesStruct.get_copyPath, FilesStruct.get_set, Nat.zero_mod]
  · cases ran
    simp (disch := decide) only [FilesStruct.get_set_of_apart,
      FilesStruct.get_copyPath, FilesStruct.get_set, Nat.zero_mod]

/-- Looking for the file writes nothing to the disk. -/
theorem fileOpen_disk
    (ran : fileOpen volume link fuel table fd driver path flags =
      some opening) :
    opening.driver.disk = driver.disk := by
  rw [fileOpen] at ran
  split at ran
  · obtain ⟨⟨file, next, after⟩, found, rfl⟩ := Option.map_eq_some_iff.1 ran
    obtain ⟨entry, -, same⟩ := Option.map_eq_some_iff.1 found
    cases same
    dsimp only
    split <;> rfl
  · cases ran
    rfl

theorem fileOpen_pathLeft
    (ran : fileOpen volume link fuel table fd driver path flags =
      some opening) :
    opening.path = FileTable.pathLeft path := by
  rw [fileOpen] at ran
  rw [FileTable.pathLeft]
  split at ran
  · rw [if_pos ‹_›]
    obtain ⟨⟨file, next, after⟩, found, rfl⟩ := Option.map_eq_some_iff.1 ran
    obtain ⟨entry, -, same⟩ := Option.map_eq_some_iff.1 found
    cases same
    dsimp only
    split <;> rfl
  · rw [if_neg ‹_›]
    cases ran
    rfl

end FileOpen

/-! ## The bytes of a table of slots -/

section Shown

variable {Name : Type} {link : Linkage} {stored : Name → StoredFile}

/-- The descriptor is open on a file, at this offset. -/
structure OpenOn (link : Linkage) (stored : StoredFile) (table : FilesStruct)
    (fd perms offset : Nat) : Prop where
  opened : table.get fd .opened ≠ 0
  permitted : table.get fd .perms = perms
  functions : ∀ method : Method,
    table.get fd method.field = link.address (fat32Function method)
  handle : (table.file fd).fat32File = stored.handle
  position : (table.file fd).cfo = offset

/-- The bytes of `fd_array[fd]` are those of the slot. -/
def Slot.Shown (link : Linkage) (stored : Name → StoredFile)
    (table : FilesStruct) (fd : Nat) : Slot Name → Prop
  | .closed => table.get fd .opened = 0
  | .spent => table.get fd .opened ≠ 0
  | .file name perms offset => OpenOn link (stored name) table fd perms offset

theorem Slot.Shown.congr {before after : FilesStruct} {fd : Nat}
    {slot : Slot Name} (shown : slot.Shown link stored before fd)
    (same : ∀ field : Field, field.offset + field.width ≤ fileSizeOf →
      after.get fd field = before.get fd field) :
    slot.Shown link stored after fd := by
  cases slot with
  | closed =>
      rw [Slot.Shown, same _ (by decide)]
      exact shown
  | spent =>
      rw [Slot.Shown, same _ (by decide)]
      exact shown
  | file name perms offset =>
      obtain ⟨opened, permitted, functions, handle, position⟩ := shown
      refine ⟨?_, ?_, fun method => ?_, ?_, ?_⟩
      · rw [same _ (by decide)]
        exact opened
      · exact (same _ (by decide)).trans permitted
      · exact (same _ (by cases method <;> decide)).trans (functions method)
      · rw [FilesStruct.file] at handle ⊢
        dsimp only at handle ⊢
        rw [same _ (by decide), same _ (by decide), same _ (by decide)]
        exact handle
      · rw [FilesStruct.file] at position ⊢
        dsimp only at position ⊢
        rw [same _ (by decide)]
        exact position

/--
The bytes of the kernel show the table: its slots, its byte arrays, and the
sector of the root directory that the paths are looked up in.
-/
structure Shows (volume : Fat32Volume) (link : Linkage)
    (stored : Name → StoredFile) (sector : Bytes) (s : FileState)
    (files : FileTable Name) : Prop where
  slots : ∀ fd < maxFileNumber, (files.slots fd).Shown link stored s.table fd
  onDisk : ∀ name, (stored name).OnDisk volume s.driver.disk
  size : ∀ name,
    files.size name = directorySize volume s.driver.disk (stored name).index
  content : ∀ name,
    files.content name = (stored name).content volume s.driver.disk
  directory : ∀ offset < sectorSize,
    s.driver.disk (volume.firstDataSec % word32) offset = sector offset

variable {volume : Fat32Volume} {sector : Bytes} {s : FileState}
    {files : FileTable Name}

/-- A call that stores into one slot, and not to the disk. -/
theorem Shows.setSlot (shows : Shows volume link stored sector s files)
    {fd : Nat} {slot : Slot Name} {table : FilesStruct} {driver : Driver}
    (shown : slot.Shown link stored table fd)
    (others : ∀ (other : Nat) (field : Field), fd ≠ other →
      field.offset + field.width ≤ fileSizeOf →
      table.get other field = s.table.get other field)
    (disk : driver.disk = s.driver.disk) :
    Shows volume link stored sector ⟨table, driver⟩
      (files.setSlot fd slot) where
  slots other below := by
    rw [FileTable.setSlot]
    dsimp only
    rw [Function.update_apply]
    split
    · rename_i same
      exact same ▸ shown
    · rename_i different
      exact (shows.slots other below).congr fun field =>
        others other field (Ne.symm different)
  onDisk name := by
    dsimp only
    rw [disk]
    exact shows.onDisk name
  size name := by
    dsimp only
    rw [disk]
    exact shows.size name
  content name := by
    dsimp only
    rw [disk]
    exact shows.content name
  directory := by
    dsimp only
    rw [disk]
    exact shows.directory

/-- The first closed slot is the one that `sys_openat` finds. -/
theorem Shows.freeSlot (shows : Shows volume link stored sector s files) :
    files.freeSlot = emptyDescriptor s.table := by
  refine List.find?_congr fun fd member => ?_
  have below : fd < maxFileNumber := by
    have upper := (List.mem_range'_1.1 member).2
    simp only [maxFileNumber] at *
    omega
  have shown := shows.slots fd below
  cases slot : files.slots fd with
  | closed =>
      rw [slot] at shown
      have closed : s.table.get fd .opened = 0 := shown
      exact (decide_eq_true closed).symm
  | spent =>
      rw [slot] at shown
      have spent : s.table.get fd .opened ≠ 0 := shown
      exact (decide_eq_false spent).symm
  | file name perms offset =>
      rw [slot] at shown
      exact (decide_eq_false shown.opened).symm

end Shown

/-! ## Opening and closing -/

section OpenClose

variable {Name : Type} [DecidableEq Name] {volume : Fat32Volume}
    {link : Linkage} {stored : Name → StoredFile} {sector : Bytes}
    {names : CString → Option Name} {fuel : Nat} {s : FileState}
    {files : FileTable Name} {regs : PtRegs} {path : CString} {fd : Nat}
    {opening : Opening}

/-- What `file_open` leaves is the answer, and the table with another slot. -/
theorem Shows.opened (shows : Shows volume link stored sector s files)
    (found : emptyDescriptor s.table = some fd) (fits : Fits path)
    (ran : fileOpen volume link fuel s.table fd s.driver path
      (regs.x regIdxA2 % word32) = some opening)
    {slot : Slot Name} (shown : slot.Shown link stored opening.table fd)
    (meant : files.exec names (.openat regs path) =
      some (.opened (toRegister opening.returned) (FileTable.pathLeft path),
        files.setSlot fd slot)) :
    Simulated (FileState.handle volume link fuel) (FileTable.exec names)
      (Shows volume link stored sector) s files (.openat regs path) := by
  have handled : s.handle volume link fuel (.openat regs path) =
      some (.opened (toRegister opening.returned) (FileTable.pathLeft path),
        ⟨opening.table, opening.driver⟩) := by
    rw [FileState.handle, sysOpenat]
    rw [found]
    dsimp only
    rw [ran, ← fileOpen_pathLeft ran, Option.map_some, Option.map_some]
    dsimp only
    rw [PtRegs.setA0_a0]
  refine .of_some handled meant (shows.setSlot shown
    (fun other field different => fileOpen_other ran different ?_)
    (fileOpen_disk ran))
  simp only [Fits, maxPathLength] at fits
  omega

/-- `sys_openat` on a path that the root directory decides. -/
theorem Shows.openat (shows : Shows volume link stored sector s files)
    (enough : 16 ≤ fuel) (fits : Fits path)
    (leads : LeadsTo stored sector names path) :
    Simulated (FileState.handle volume link fuel) (FileTable.exec names)
      (Shows volume link stored sector) s files (.openat regs path) := by
  have free := shows.freeSlot
  cases found : emptyDescriptor s.table with
  | none =>
      rw [found] at free
      have handled : s.handle volume link fuel (.openat regs path) =
          some (.opened openError path, s) := by
        rw [FileState.handle, sysOpenat]
        rw [found]
        dsimp only
        rw [Option.map_some]
        dsimp only
        rw [PtRegs.setA0_a0]
        rfl
      have meant : files.exec names (.openat regs path) =
          some (.opened openError path, files) := by
        rw [FileTable.exec, free]
      exact .of_some handled meant shows
  | some fd =>
      rw [found] at free
      cases led : names path with
      | some name =>
          rw [LeadsTo, led] at leads
          obtain ⟨isFat32, nonzero, entry⟩ := leads
          obtain ⟨next, after, looked⟩ :=
            lookup_agrees shows.directory enough entry
          obtain ⟨opening, ran, success⟩ := fileOpen_found link s.table fd
            (regs.x regIdxA2 % word32) isFat32 looked nonzero
          obtain ⟨isOpen, handle⟩ := fileOpen_success ran success
          obtain ⟨lseek, write, read⟩ := (fileOpen_pointers ran).2 isFat32
          rw [looked] at handle
          have shown : (Slot.file name (regs.x regIdxA2 % word32) 0).Shown link
              stored opening.table fd :=
            { opened := by
                rw [isOpen]
                decide
              permitted := by
                rw [fileOpen_perms ran, Nat.mod_mod]
              functions := fun method => by
                cases method with
                | lseek => exact lseek
                | write => exact write
                | read => exact read
              handle := (Option.some_inj.1 handle).symm
              position := by
                rw [FilesStruct.file]
                dsimp only
                rw [fileOpen_cfo ran]
                rfl }
          refine shows.opened found fits ran shown ?_
          rw [FileTable.exec, free]
          dsimp only
          rw [led, success]
          rfl
      | none =>
          rw [LeadsTo, led] at leads
          have opens : ∃ opening, fileOpen volume link fuel s.table fd s.driver
              path (regs.x regIdxA2 % word32) = some opening ∧
              opening.returned = -1 := by
            by_cases isFat32 : getFsType path = fsTypeFat32
            · obtain ⟨file, entry, zero⟩ := leads isFat32
              obtain ⟨next, after, looked⟩ :=
                lookup_agrees shows.directory enough entry
              have returns : ∃ opening, fileOpen volume link fuel s.table fd
                  s.driver path (regs.x regIdxA2 % word32) = some opening := by
                rw [fileOpen, if_pos isFat32, looked]
                exact ⟨_, rfl⟩
              obtain ⟨opening, ran⟩ := returns
              exact ⟨opening, ran,
                (fileOpen_failed_iff isFat32 looked ran).2 zero⟩
            · obtain ⟨opening, ran, failed, _⟩ := fileOpen_unknown volume link
                fuel s.table fd s.driver (regs.x regIdxA2 % word32) isFat32
              exact ⟨opening, ran, failed⟩
          obtain ⟨opening, ran, failed⟩ := opens
          have shown : (Slot.spent : Slot Name).Shown link stored
              opening.table fd := by
            rw [Slot.Shown, fileOpen_opened ran]
            decide
          refine shows.opened found fits ran shown ?_
          rw [FileTable.exec, free]
          dsimp only
          rw [led, failed]
          rfl

/-- `sys_close` on an open descriptor, and on a closed one. -/
theorem Shows.close (shows : Shows volume link stored sector s files) :
    Simulated (FileState.handle volume link fuel) (FileTable.exec names)
      (Shows volume link stored sector) s files (.close regs) := by
  refine .of_some (show s.handle volume link fuel (.close regs) = some _ from
    rfl) (show files.exec names (.close regs) = some _ from rfl) ?_
  refine shows.setSlot ?_ (fun other field different inside => ?_) rfl
  · rw [Slot.Shown]
    dsimp only
    split
    · assumption
    · rw [FilesStruct.get_set]
      exact Nat.zero_mod _
  · dsimp only
    split
    · rfl
    · exact FilesStruct.get_set_of_ne different (by decide) inside

end OpenClose

/-! ## Transfers and seeks -/

/-- No call of the driver stores to the first sector of the root directory. -/
theorem exec_directory {Name Handle : Type} [DecidableEq Handle]
    {volume : Fat32Volume} {stored : Name → StoredFile}
    {denotes : Handle → Name} {fuel : Nat} {world next : OpenFiles Handle}
    (served : OpenFiles.ServedAll volume stored fuel)
    (holds : world.HoldsAll volume stored denotes) {op : FileOp Handle}
    {reply : FileReply}
    (ran : world.exec volume fuel op = some (reply, next)) {offset : Nat}
    (inside : offset < sectorSize) :
    next.driver.disk (volume.firstDataSec % word32) offset =
      world.driver.disk (volume.firstDataSec % word32) offset := by
  have isOpen (handle : Handle) :
      Volume.IsOpen (stored (denotes handle)) (world.files handle) :=
    ⟨holds.handles handle, holds.offsets handle⟩
  cases op with
  | read handle buffer len =>
      obtain ⟨result, read, same⟩ := Option.map_eq_some_iff.1 ran
      obtain ⟨_, rfl⟩ := Prod.mk.inj same
      have kept := OpenFiles.read_sameDisk (served.served _) (holds.onDisk _)
        (isOpen handle) read
      rw [OpenFiles.after]
      dsimp only
      rw [kept]
  | write handle buffer len =>
      obtain ⟨result, written, same⟩ := Option.map_eq_some_iff.1 ran
      obtain ⟨_, rfl⟩ := Prod.mk.inj same
      obtain ⟨_, again, within, frame⟩ :=
        Volume.write_confined (holds.onDisk _) (served.addressed _)
          served.nonempty (served.enough _) (isOpen handle) buffer len
      obtain rfl := Option.some_inj.1 (written.symm.trans again)
      refine frame _ offset inside fun index small located => ?_
      have behind := (holds.onDisk (denotes handle)).directory_lt
        served.nonempty (within index small) volume.firstDataSec
      have low := Nat.mod_le volume.firstDataSec word32
      omega
  | seek handle delta whence =>
      obtain ⟨result, sought, same⟩ := Option.map_eq_some_iff.1 ran
      obtain ⟨_, rfl⟩ := Prod.mk.inj same
      dsimp only
      rw [OpenFiles.fat32Lseek_disk sought]

/-- A closed descriptor refuses. -/
theorem exec_onClosed (volume : Fat32Volume) (link : Linkage) (fuel : Nat)
    {s : FileState} {fd : Nat} (below : fd < maxFileNumber)
    (closed : s.table.get fd .opened = 0) (call : IoCall [fd]) :
    s.exec volume link fuel call = some (call.onClosed, s) := by
  cases call with
  | read regs buffer onto =>
      have refuses : sysRead (some s.table) regs =
          .refused (regs.setA0 errorFileNotOpen) := by
        rw [sysRead, sysTransfer]
        rw [List.mem_singleton.1 onto, if_pos closed]
      rw [FileState.exec, refuses]
      dsimp only
      rw [PtRegs.setA0_a0, IoCall.onClosed]
  | write regs buffer onto =>
      have refuses : sysWrite (some s.table) regs =
          .refused (regs.setA0 errorFileNotOpen) := by
        rw [sysWrite, sysTransfer]
        rw [List.mem_singleton.1 onto, if_pos closed]
      rw [FileState.exec, refuses]
      dsimp only
      rw [PtRegs.setA0_a0, IoCall.onClosed]
  | seek regs onto =>
      have small : regs.x regIdxA0 % word32 = fd := by
        rw [List.mem_singleton.1 onto]
        exact Nat.mod_eq_of_lt (below.trans (by decide))
      have refuses : sysSeek (some s.table) regs = .refused regs := by
        rw [sysSeek]
        rw [small, if_pos closed]
      rw [FileState.exec, refuses, IoCall.onClosed]

section Io

variable {Name : Type} {volume : Fat32Volume} {link : Linkage}
    {stored : Name → StoredFile} {sector : Bytes} {fuel : Nat} {s : FileState}
    {files : FileTable Name} {fds : List Nat} {denotes : {fd // fd ∈ fds} → Name}
    {granted : {fd // fd ∈ fds} → Nat} {name : Name} {fd perms offset : Nat}

/-- A call stores into the slots of its own descriptors only. -/
theorem exec_others (serves : Serves volume link stored denotes granted s)
    (inTable : ∀ fd ∈ fds, fd < maxFileNumber) {call : IoCall fds}
    {result : IoReply × FileState}
    (ran : s.exec volume link fuel call = some result) {other : Nat}
    (outside : other ∉ fds) {field : Field}
    (inside : field.offset + field.width ≤ fileSizeOf) :
    result.2.table.get other field = s.table.get other field := by
  cases refused : call.refusal granted with
  | some reply =>
      rw [serves.exec_refused refused] at ran
      cases ran
      rfl
  | none =>
      rw [serves.exec_eq inTable refused] at ran
      obtain ⟨next, -, rfl⟩ := Option.map_eq_some_iff.1 ran
      exact FilesStruct.get_set_of_ne
        (fun same => outside (same ▸ call.op.handle.2)) (by decide) inside

/-- A call keeps the first sector of the root directory. -/
theorem Serves.directory (serves : Serves volume link stored denotes granted s)
    (served : OpenFiles.ServedAll volume stored fuel)
    (inTable : ∀ fd ∈ fds, fd < maxFileNumber) {call : IoCall fds}
    {result : IoReply × FileState}
    (ran : s.exec volume link fuel call = some result) {offset : Nat}
    (inside : offset < sectorSize) :
    result.2.driver.disk (volume.firstDataSec % word32) offset =
      s.driver.disk (volume.firstDataSec % word32) offset := by
  cases refused : call.refusal granted with
  | some reply =>
      rw [serves.exec_refused refused] at ran
      cases ran
      rfl
  | none =>
      rw [serves.exec_eq inTable refused] at ran
      obtain ⟨⟨reply, next⟩, called, rfl⟩ := Option.map_eq_some_iff.1 ran
      exact exec_directory served serves.holds called inside

/-- One descriptor that is open on a file. -/
theorem OpenOn.serves (shown : OpenOn link (stored name) s.table fd perms offset)
    (onDisk : ∀ name, (stored name).OnDisk volume s.driver.disk) :
    Serves volume link stored (fun _ : {other // other ∈ [fd]} => name)
      (fun _ => perms) s where
  opened := List.forall_mem_singleton.2 shown.opened
  permitted := by
    rintro ⟨other, member⟩
    obtain rfl := List.mem_singleton.1 member
    exact shown.permitted
  functions := List.forall_mem_singleton.2 shown.functions
  holds :=
    { handles := by
        rintro ⟨other, member⟩
        obtain rfl := List.mem_singleton.1 member
        exact shown.handle
      offsets := by
        rintro ⟨other, member⟩
        obtain rfl := List.mem_singleton.1 member
        have lower : 0 ≤ (s.table.file other).cfo :=
          shown.position ▸ Int.natCast_nonneg offset
        exact lower
      onDisk := onDisk }

/-- The other way round, at the offset that it has. -/
theorem Serves.openOn
    (serves : Serves volume link stored
      (fun _ : {other // other ∈ [fd]} => name) (fun _ => perms) s) :
    OpenOn link (stored name) s.table fd perms
      (s.table.file fd).cfo.toNat where
  opened := serves.opened fd (List.mem_singleton_self fd)
  permitted := serves.permitted ⟨fd, List.mem_singleton_self fd⟩
  functions := serves.functions fd (List.mem_singleton_self fd)
  handle := serves.holds.handles ⟨fd, List.mem_singleton_self fd⟩
  position := (Int.toNat_of_nonneg
    (serves.holds.offsets ⟨fd, List.mem_singleton_self fd⟩)).symm

theorem offset_world (stored : Name → StoredFile) (s : FileState) (fd : Nat)
    (member : fd ∈ [fd]) :
    ((s.world [fd]).abstractAll volume stored).offset ⟨fd, member⟩ =
      (s.table.file fd).cfo.toNat := by
  rw [OpenFiles.abstractAll, FileState.world]

/-- What the descriptor sees of the byte arrays. -/
theorem Shows.seenAt (shows : Shows volume link stored sector s files)
    (shown : OpenOn link (stored name) s.table fd perms offset) :
    (s.world [fd]).abstractAll volume stored = files.seenAt fd offset := by
  refine ByteFiles.ext (funext fun name => (shows.size name).symm)
    (funext fun name => (shows.content name).symm) (funext ?_)
  rintro ⟨other, member⟩
  obtain rfl := List.mem_singleton.1 member
  rw [offset_world, shown.position, Int.toNat_natCast, FileTable.seenAt]

variable [DecidableEq Name] {names : CString → Option Name}

/-- A call on a descriptor is the same call on its slot. -/
theorem Shows.io (shows : Shows volume link stored sector s files)
    (served : OpenFiles.ServedAll volume stored fuel) {call : IoCall [fd]}
    (inRange : FsInRange stored sector names files (.io fd call)) :
    Simulated (FileState.handle volume link fuel) (FileTable.exec names)
      (Shows volume link stored sector) s files (.io fd call) := by
  obtain ⟨below, legal⟩ := inRange
  have shown := shows.slots fd below
  cases slot : files.slots fd with
  | closed =>
      rw [slot] at shown
      have handled : s.handle volume link fuel (.io fd call) =
          some (.io call.onClosed, s) := by
        rw [FileState.handle, exec_onClosed volume link fuel below shown call]
        rfl
      have meant : files.exec names (.io fd call) =
          some (.io call.onClosed, files) := by
        rw [FileTable.exec, slot]
      exact .of_some handled meant shows
  | spent =>
      rw [slot] at legal
      exact legal.elim
  | file name perms offset =>
      rw [slot] at shown legal
      have shown : OpenOn link (stored name) s.table fd perms offset := shown
      have serves := shown.serves shows.onDisk
      have seen := shows.seenAt shown
      have inTable : ∀ other ∈ [fd], other < maxFileNumber :=
        List.forall_mem_singleton.2 below
      obtain ⟨answered, keeps⟩ :=
        @Serves.exec_refines _ _ _ volume link stored _ _ fuel s serves served
          inTable call (seen.symm ▸ legal)
      rw [seen] at answered
      have meant : files.exec names (.io fd call) =
          (ioSpec (fun _ => name) (fun _ => perms) (files.seenAt fd offset)
            call).map fun result =>
              (.io result.1,
                { size := result.2.size
                  content := result.2.content
                  slots := Function.update files.slots fd
                    (.file name perms
                      (result.2.offset ⟨fd, List.mem_singleton_self fd⟩)) }) := by
        rw [FileTable.exec, slot]
      cases ran : s.exec volume link fuel call with
      | none =>
          rw [ran, Option.map_none, id] at answered
          have stops := Option.map_eq_none_iff.1 answered.symm
          have handled : s.handle volume link fuel (.io fd call) = none := by
            rw [FileState.handle, ran]
            rfl
          refine ⟨?_, fun result other first => ?_⟩
          · rw [handled, meant, stops]
            rfl
          · rw [handled] at first
            cases first
      | some result =>
          obtain ⟨reply, next⟩ := result
          rw [ran, Option.map_some, id] at answered
          obtain ⟨⟨same, view⟩, spec, equal⟩ :=
            Option.map_eq_some_iff.1 answered.symm
          obtain ⟨sameReply, sameView⟩ := Prod.mk.inj equal
          dsimp only [id] at sameReply sameView
          subst sameReply sameView
          have handled : s.handle volume link fuel (.io fd call) =
              some (.io same, next) := by
            rw [FileState.handle, ran]
            rfl
          rw [spec, Option.map_some] at meant
          have after := keeps _ ran
          refine .of_some handled meant ⟨fun other small => ?_,
            after.holds.onDisk, fun _ => rfl, fun _ => rfl,
            fun position inside => ?_⟩
          · dsimp only
            rw [Function.update_apply]
            split
            · rename_i equal
              rw [equal, offset_world]
              exact after.openOn
            · rename_i different
              refine (shows.slots other small).congr fun field inside => ?_
              exact exec_others serves inTable ran
                (fun member => different (List.mem_singleton.1 member)) inside
          · rw [← shows.directory position inside]
            exact serves.directory served inTable ran inside

end Io

/-! ## From a new task on -/

/-- The three standard descriptors are on no file of the disk, the others are closed. -/
def FileTable.newTask {Name : Type} (volume : Fat32Volume)
    (stored : Name → StoredFile) (disk : Disk) : FileTable Name where
  size name := directorySize volume disk (stored name).index
  content name := (stored name).content volume disk
  slots fd := if fd < 3 then .spent else .closed

theorem standard_opened (table : FilesStruct) (fd perms write read : Nat)
    (name : List Byte) :
    (standard table fd perms write read name).get fd .opened = 1 := by
  simp (disch := decide) only [standard, FilesStruct.get_set_of_apart,
    FilesStruct.get_copyPath, FilesStruct.get_set]
  decide

theorem fileInit_opened (link : Linkage) (page : Bytes) {fd : Nat}
    (low : fd < 3) : (fileInit link page).get fd .opened = 1 := by
  rw [fileInit]
  have cases : fd = 0 ∨ fd = 1 ∨ fd = 2 := by omega
  rcases cases with rfl | rfl | rfl
  · rw [standard_get_of_ne (by decide) (by decide) (by decide),
      standard_get_of_ne (by decide) (by decide) (by decide), standard_opened]
  · rw [standard_get_of_ne (by decide) (by decide) (by decide),
      standard_opened]
  · exact standard_opened _ _ _ _ _ _

/-- The table that `file_init` makes. -/
theorem Shows.newTask {Name : Type} {volume : Fat32Volume}
    {stored : Name → StoredFile} {driver : Driver} (link : Linkage)
    (page : Bytes) (onDisk : ∀ name, (stored name).OnDisk volume driver.disk) :
    Shows volume link stored (driver.disk (volume.firstDataSec % word32))
      ⟨fileInit link page, driver⟩
      (FileTable.newTask volume stored driver.disk) where
  slots fd below := by
    rw [FileTable.newTask]
    dsimp only
    split
    · rename_i low
      rw [Slot.Shown, fileInit_opened link page low]
      decide
    · rename_i high
      exact fileInit_closed link page (Nat.not_lt.1 high) below
  onDisk := onDisk
  size _ := rfl
  content _ := rfl
  directory _ _ := rfl

namespace SmallTask

open SmallVolume (buffer)

def files (_ : Unit) : StoredFile :=
  SmallVolume.stored

/-- The only file is the one of `"/fat32/a"`. -/
def names (path : CString) : Option Unit :=
  if path.bytes = NewTask.pathname.bytes then some () else none

/-- The path is opened for reading and writing; the descriptor taken is `3`. -/
def calls : List FsCall :=
  [.openat (TwoDescriptors.regs 0 3) NewTask.pathname,
    .io 3 (.write (TwoDescriptors.regs 3 2) buffer (by decide)),
    .close (TwoDescriptors.regs 3 0)]

/-- What the task starts with. -/
def start : FileTable Unit :=
  FileTable.newTask SmallVolume.volume files SmallVolume.disk

theorem leads : LeadsTo files
    (SmallVolume.disk (SmallVolume.volume.firstDataSec % word32)) names
    NewTask.pathname := by
  have led : names NewTask.pathname = some () := if_pos rfl
  rw [LeadsTo, led, SmallVolume.volume_eq]
  exact ⟨by decide, by decide, by decide⟩

theorem inRange : AllLegal (FileTable.exec names)
    (FsInRange files
      (SmallVolume.disk (SmallVolume.volume.firstDataSec % word32)) names)
    start calls := by
  refine ⟨⟨by simp only [Fits]; decide, leads⟩, fun result opened => ?_⟩
  have taken : start.exec names
      (.openat (TwoDescriptors.regs 0 3) NewTask.pathname) =
        some (.opened 0 (FileTable.pathLeft NewTask.pathname),
          start.setSlot 3 (.file () 3 0)) := rfl
  obtain rfl := Option.some_inj.1 (taken.symm.trans opened)
  have small : (TwoDescriptors.regs 3 0).x regIdxA0 % word32 <
      maxFileNumber := by
    decide
  exact ⟨⟨by decide, trivial⟩, fun _ _ => ⟨small, fun _ _ => trivial⟩⟩

end SmallTask

end TinyRiscvOs.Kernel
