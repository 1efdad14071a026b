import TinyRiscvOs.Kernel.Openat
import TinyRiscvOs.Trap.ForkReturn

/-!
# The descriptor table after `do_fork`

`do_fork` copies the page of the caller byte by byte, the pointer `files`
included, so parent and child work on one table.  What a task sees of its
descriptors is independent of the other task exactly as long as the calls of
the other task leave that view alone.
-/

namespace TinyRiscvOs.Kernel

open TinyRiscvOs.Lib
open TinyRiscvOs.Fs

/-! ## Two tasks and their tables -/

/-- The two tasks that `do_fork` leaves behind. -/
inductive Side where
  | parent
  | child
deriving DecidableEq, Repr

/-- The calls that work on a table, with the string of `sys_openat`. -/
inductive TableCall where
  | openat (fuel : Nat) (regs : PtRegs) (pathname : CString)
  | close (regs : PtRegs)
  | seek (regs : PtRegs)

/-- `current->files` of both tasks, the tables by address, and the driver. -/
structure Tables where
  files : Side → Nat
  table : Nat → FilesStruct
  driver : Driver

namespace Tables

/-- The table of a task. -/
def own (s : Tables) (who : Side) : FilesStruct :=
  s.table (s.files who)

/-- The table of a task and the driver replaced. -/
def store (s : Tables) (who : Side) (files : FilesStruct) (driver : Driver) :
    Tables :=
  { s with table := Function.update s.table (s.files who) files, driver }

/-- The table that a call leaves; `none` is a call that does not return. -/
def callTable (volume : Fat32Volume) (link : Linkage) (table : FilesStruct)
    (driver : Driver) : TableCall → Option (FilesStruct × Driver)
  | .openat fuel regs pathname =>
      (sysOpenat volume link fuel (some table) driver regs pathname).map
        fun result => (result.files, result.driver)
  | .close regs =>
      (sysClose (some table) regs).map fun files => (files, driver)
  | .seek regs =>
      match sysSeek (some table) regs with
      | .stuck => none
      | .refused _ => some (table, driver)
      | .call function fd offset whence =>
          -- Another pointer than `fat32_lseek` is `NULL`.
          if function = link.address .fat32Lseek then
            (fat32Lseek volume driver (table.file fd) (toInt64 offset)
              whence).map fun (cfo, driver, _) =>
                (table.set fd .cfo (toRegister cfo), driver)
          else none

/-- A call by one of the tasks. -/
def Step (volume : Fat32Volume) (link : Linkage) (s : Tables)
    (event : Side × TableCall) (next : Tables) : Prop :=
  ∃ files driver,
    callTable volume link (s.own event.1) s.driver event.2 =
      some (files, driver) ∧
    next = s.store event.1 files driver

/-- The pointers in the pages of the tasks are those of a fork. -/
def Forked (s : Tables) (mem : Bytes) (page child : Nat) : Prop :=
  s.files .parent = Trap.load mem (page + 168) ∧
    s.files .child = Trap.load mem (child + 168)

end Tables

/-! ## What a task sees -/

/-- Whether a descriptor is open, and on what file with which permissions. -/
def descriptor (table : FilesStruct) (fd : Nat) :
    Option (Nat × Fat32File × Nat) :=
  if table.get fd .opened = 0 then none
  else some (table.get fd .fsType, (table.file fd).fat32File,
    table.get fd .perms)

/-- Two tables show the same descriptors. -/
def SameDescriptors (left right : FilesStruct) : Prop :=
  ∀ fd < maxFileNumber, descriptor left fd = descriptor right fd

/-- A call that opens no descriptor and closes none that is open. -/
def Harmless (table : FilesStruct) : TableCall → Prop
  | .openat _ _ _ => emptyDescriptor table = none
  | .close regs =>
      table.get (regs.x regIdxA0 % word32) .opened = 0
  | .seek _ => True

/-- A descriptor that is closed is one of the sixteen. -/
def TableCall.InTable : TableCall → Prop
  | .close regs => regs.x regIdxA0 % word32 < maxFileNumber
  | _ => True

/-- The bytes of the `cfo` fields. -/
def IsCfo (address : Nat) : Prop :=
  8 ≤ address % fileSizeOf ∧ address % fileSizeOf < 16

/-- Two tables differ in `cfo` fields only. -/
def SameButCfo (left right : FilesStruct) : Prop :=
  ∀ address, ¬ IsCfo address → left address = right address

section Views

variable {left right : FilesStruct}

theorem SameButCfo.get (same : SameButCfo left right) (fd : Nat)
    {field : Field} (apart : field.offset + field.width ≤ 8 ∨
      16 ≤ field.offset ∧ field.offset + field.width ≤ fileSizeOf) :
    left.get fd field = right.get fd field := by
  refine Bytes.littleEndian_congr fun address lower upper => same address ?_
  obtain ⟨rest, rfl⟩ := Nat.exists_eq_add_of_le
    (show fileSizeOf * fd ≤ address by omega)
  simp only [IsCfo, Nat.mul_add_mod]
  simp only [fileSizeOf] at *
  rw [Nat.mod_eq_of_lt (by omega)]
  omega

theorem SameButCfo.sameDescriptors (same : SameButCfo left right) :
    SameDescriptors left right := by
  intro fd _
  have field := @SameButCfo.get left right same fd
  rw [descriptor, descriptor, FilesStruct.file, FilesStruct.file,
    @field .opened (by decide), @field .fsType (by decide),
    @field .cluster (by decide), @field .dirCluster (by decide),
    @field .dirIndex (by decide), @field .perms (by decide)]

/-- A store of one number into both tables. -/
theorem SameButCfo.set (same : SameButCfo left right) (fd : Nat)
    (field : Field) (value : Nat) :
    SameButCfo (left.set fd field value) (right.set fd field value) := by
  intro address notCfo
  rw [FilesStruct.set, FilesStruct.set, Bytes.putLittleEndian_eq_store,
    Bytes.putLittleEndian_eq_store, Bytes.store, Bytes.store,
    same address notCfo]

theorem SameButCfo.copyPath (same : SameButCfo left right) (fd : Nat)
    (source : Bytes) (count : Nat) :
    SameButCfo (left.copyPath fd source count)
      (right.copyPath fd source count) := by
  intro address notCfo
  rw [FilesStruct.copyPath, FilesStruct.copyPath, Bytes.copy_apply,
    Bytes.copy_apply, same address notCfo]

/-- An offset stored into one of the tables. -/
theorem setCfo_sameButCfo (table : FilesStruct) (fd value : Nat) :
    SameButCfo (table.set fd .cfo value) table := by
  intro address notCfo
  refine Bytes.putLittleEndian_outside ?_
  by_contra inside
  refine notCfo ?_
  obtain ⟨rest, rfl⟩ := Nat.exists_eq_add_of_le
    (show fileSizeOf * fd ≤ address by omega)
  simp only [IsCfo, Nat.mul_add_mod]
  simp only [Field.cfo, fileSizeOf] at *
  rw [Nat.mod_eq_of_lt (by omega)]
  omega

/-- Any two offsets. -/
theorem SameButCfo.setCfo (same : SameButCfo left right) (fd : Nat)
    (one other : Nat) :
    SameButCfo (left.set fd .cfo one) (right.set fd .cfo other) := by
  intro address notCfo
  rw [setCfo_sameButCfo left fd one address notCfo,
    setCfo_sameButCfo right fd other address notCfo, same address notCfo]

theorem SameButCfo.refl (table : FilesStruct) : SameButCfo table table :=
  fun _ _ => rfl

theorem SameButCfo.emptyDescriptor (same : SameButCfo left right) :
    emptyDescriptor left = emptyDescriptor right := by
  rw [Kernel.emptyDescriptor, Kernel.emptyDescriptor]
  congr 1
  funext fd
  rw [@SameButCfo.get left right same fd .opened (by decide)]

end Views

/-! ## The same call on two tables -/

/-- Two driver memories that differ in the sector that is read next. -/
structure SameDisk (left right : Driver) : Prop where
  disk : left.disk = right.disk
  beyond : ∀ address, sectorSize ≤ address →
    left.buf address = right.buf address

section Calls

variable {volume : Fat32Volume} {link : Linkage}
    {left right leftFiles : FilesStruct} {leftDriver rightDriver : Driver}

theorem SameDisk.load (same : SameDisk leftDriver rightDriver)
    (sector : Nat) :
    (leftDriver.load sector).buf = (rightDriver.load sector).buf ∧
      SameDisk (leftDriver.load sector) (rightDriver.load sector) := by
  have buf : (leftDriver.load sector).buf = (rightDriver.load sector).buf := by
    funext address
    show virtioBlkReadSector leftDriver.disk sector leftDriver.buf address =
      virtioBlkReadSector rightDriver.disk sector rightDriver.buf address
    by_cases inside : address < sectorSize
    · rw [virtioBlkReadSector_inside _ _ _ inside,
        virtioBlkReadSector_inside _ _ _ inside, same.disk]
    · have beyond := Nat.not_lt.1 inside
      rw [virtioBlkReadSector_beyond _ _ _ beyond,
        virtioBlkReadSector_beyond _ _ _ beyond, same.beyond address beyond]
  exact ⟨buf, same.disk, fun address _ => congrFun buf address⟩

/-- A sector read by one of the drivers. -/
theorem SameDisk.loadLeft (same : SameDisk leftDriver rightDriver)
    (sector : Nat) : SameDisk (leftDriver.load sector) rightDriver :=
  ⟨same.disk, fun _ beyond =>
    (virtioBlkReadSector_beyond _ _ _ beyond).trans (same.beyond _ beyond)⟩

theorem fileOpen_same {fuel fd flags : Nat} {path : CString}
    {leftOpening : Opening} (same : SameButCfo left right)
    (disk : SameDisk leftDriver rightDriver)
    (ran : fileOpen volume link fuel left fd leftDriver path flags =
      some leftOpening) :
    ∃ rightOpening,
      fileOpen volume link fuel right fd rightDriver path flags =
        some rightOpening ∧
      SameButCfo leftOpening.table rightOpening.table ∧
      SameDisk leftOpening.driver rightOpening.driver := by
  have head := ((((same.set fd .opened 1).set fd .perms flags).set fd .cfo
    0).set fd .fsType (getFsType path)).copyPath fd path.get
      (path.bytes.length + 1)
  rw [fileOpen] at ran ⊢
  split at ran
  · next isFat32 =>
      obtain ⟨⟨file, next, upper⟩, found, rfl⟩ :=
        Option.map_eq_some_iff.1 ran
      obtain ⟨entry, isEntry, rest⟩ := Option.map_eq_some_iff.1 found
      cases rest
      obtain ⟨buf, disks⟩ := disk.load volume.firstDataSec
      rw [buf] at isEntry
      have other : fat32OpenFile volume fuel rightDriver path =
          some (file, rightDriver.load volume.firstDataSec,
            path.toUpperCase) := by
        rw [fat32OpenFile, isEntry, Option.map_some]
      have tables := ((((((head.set fd .lseek (link.address .fat32Lseek)).set
        fd .write (link.address .fat32Write)).set fd .read
          (link.address .fat32Read)).set fd .cluster file.cluster).set fd
            .dirCluster file.dir.cluster).set fd .dirIndex file.dir.index)
      rw [if_pos isFat32, other, Option.map_some]
      refine ⟨_, rfl, ?_, ?_⟩
      · dsimp only
        rw [@SameButCfo.get _ _ tables fd .cluster (by decide)]
        split <;> exact tables
      · dsimp only
        split <;> split <;> exact disks
  · next notFat32 =>
      cases ran
      rw [if_neg notFat32]
      exact ⟨_, rfl, head, disk⟩

/-- Whether `fat32_lseek` returns depends on `whence` only. -/
theorem fat32Lseek_same {file other : File} {offset cfo : Int} {whence : Nat}
    {next : Driver} {after : File}
    (cluster : file.fat32File.dir.cluster = other.fat32File.dir.cluster)
    (disk : SameDisk leftDriver rightDriver)
    (moved : fat32Lseek volume leftDriver file offset whence =
      some (cfo, next, after)) :
    ∃ otherCfo otherNext otherAfter,
      fat32Lseek volume rightDriver other offset whence =
        some (otherCfo, otherNext, otherAfter) ∧ SameDisk next otherNext := by
  have disks := (disk.load (clusterToSector volume
    file.fat32File.dir.cluster)).2
  rw [fat32Lseek] at moved ⊢
  dsimp only at moved ⊢
  obtain ⟨target, isTarget, rest⟩ := Option.map_eq_some_iff.1 moved
  cases rest
  rw [Driver.loadDirectory, Driver.loadDirectory, ← cluster]
  split
  · exact ⟨_, _, _, rfl, disks⟩
  · next notSet =>
      rw [if_neg notSet] at isTarget
      split
      · exact ⟨_, _, _, rfl, disks⟩
      · next notCur =>
          rw [if_neg notCur] at isTarget
          split
          · exact ⟨_, _, _, rfl, disks⟩
          · next notEnd =>
              rw [if_neg notEnd] at isTarget
              cases isTarget

/-- A call has the same effect on two tables that show the same descriptors. -/
theorem callTable_same {call : TableCall} {leftNext : Driver}
    (same : SameButCfo left right) (disk : SameDisk leftDriver rightDriver)
    (ran : Tables.callTable volume link left leftDriver call =
      some (leftFiles, leftNext)) :
    ∃ rightFiles rightNext,
      Tables.callTable volume link right rightDriver call =
        some (rightFiles, rightNext) ∧
      SameButCfo leftFiles rightFiles ∧ SameDisk leftNext rightNext := by
  cases call with
  | openat fuel regs pathname =>
      obtain ⟨result, opens, rest⟩ := Option.map_eq_some_iff.1 ran
      cases rest
      rcases sysOpenat_cases opens with
        ⟨none, rfl⟩ | ⟨fd, opening, empty, opened, rfl⟩
      · rw [same.emptyDescriptor] at none
        refine ⟨right, rightDriver, ?_, same, disk⟩
        rw [Tables.callTable, sysOpenat, none]
        rfl
      · rw [same.emptyDescriptor] at empty
        obtain ⟨other, otherOpened, tables, disks⟩ :=
          fileOpen_same same disk opened
        refine ⟨other.table, other.driver, ?_, tables, disks⟩
        rw [Tables.callTable, sysOpenat, empty]
        dsimp only
        rw [otherOpened]
        rfl
  | close regs =>
      rw [Tables.callTable] at ran
      obtain ⟨files, closes, rest⟩ := Option.map_eq_some_iff.1 ran
      cases rest
      cases closes
      refine ⟨_, rightDriver, rfl, ?_, disk⟩
      dsimp only
      rw [@SameButCfo.get _ _ same (regs.x regIdxA0 % word32) .opened
        (by decide)]
      split
      · exact same
      · exact same.set _ _ _
  | seek regs =>
      have field := @SameButCfo.get _ _ same (regs.x regIdxA0 % word32)
      rw [Tables.callTable, sysSeek] at ran ⊢
      dsimp only at ran ⊢
      rw [@field .opened (by decide), @field .lseek (by decide)] at ran
      by_cases closed : right.get (regs.x regIdxA0 % word32) .opened = 0
      · rw [if_pos closed] at ran ⊢
        cases ran
        exact ⟨_, _, rfl, same, disk⟩
      · rw [if_neg closed] at ran ⊢
        dsimp only at ran ⊢
        split at ran
        · next isLseek =>
            rw [if_pos isLseek]
            obtain ⟨⟨cfo, next, file⟩, moved, rest⟩ :=
              Option.map_eq_some_iff.1 ran
            cases rest
            obtain ⟨other, otherNext, otherFile, otherMoved, disks⟩ :=
              @fat32Lseek_same _ _ _ _
                (right.file (regs.x regIdxA0 % word32)) _ _ _ _ _
                (@field .dirCluster (by decide)) disk moved
            rw [otherMoved]
            exact ⟨_, _, rfl, same.setCfo _ _ _, disks⟩
        · cases ran

/-- A harmless call moves an offset or does nothing. -/
theorem callTable_harmless {table files : FilesStruct} {driver next : Driver}
    {call : TableCall} (harmless : Harmless table call)
    (ran : Tables.callTable volume link table driver call =
      some (files, next)) :
    SameButCfo files table ∧ SameDisk next driver := by
  cases call with
  | openat fuel regs pathname =>
      obtain ⟨result, opens, rest⟩ := Option.map_eq_some_iff.1 ran
      cases rest
      rcases sysOpenat_cases opens with ⟨-, rfl⟩ | ⟨fd, opening, empty, -⟩
      · exact ⟨.refl _, rfl, fun _ _ => rfl⟩
      · rw [Harmless, empty] at harmless
        cases harmless
  | close regs =>
      rw [Tables.callTable] at ran
      obtain ⟨files, closes, rest⟩ := Option.map_eq_some_iff.1 ran
      cases rest
      cases closes
      have closed : table.get (regs.x regIdxA0 % word32) .opened = 0 :=
        harmless
      dsimp only
      rw [if_pos closed]
      exact ⟨.refl _, rfl, fun _ _ => rfl⟩
  | seek regs =>
      rw [Tables.callTable, sysSeek] at ran
      dsimp only at ran
      split at ran
      · cases ran
      · cases ran
        exact ⟨.refl _, rfl, fun _ _ => rfl⟩
      · split at ran
        · obtain ⟨⟨cfo, after, file⟩, moved, rest⟩ :=
            Option.map_eq_some_iff.1 ran
          cases rest
          obtain ⟨target, -, rest⟩ := Option.map_eq_some_iff.1 moved
          cases rest
          exact ⟨setCfo_sameButCfo _ _ _,
            SameDisk.loadLeft ⟨rfl, fun _ _ => rfl⟩ _⟩
        · cases ran

end Calls

/-! ## Runs -/

namespace Tables

variable {volume : Fat32Volume} {link : Linkage}
    {start s next alone : Tables} {who : Side} {event : Side × TableCall}

/-- Both tasks have the same pointer. -/
def Shared (s : Tables) : Prop :=
  s.files .parent = s.files .child

theorem Shared.own (shared : s.Shared) (one other : Side) :
    s.own one = s.own other := by
  cases one <;> cases other <;> simp only [Tables.own]
  · rw [shared]
  · rw [shared]

theorem store_own (s : Tables) (who : Side) (files : FilesStruct)
    (driver : Driver) : (s.store who files driver).own who = files :=
  Function.update_self _ _ _

theorem Step.shared (taken : Step volume link s event next)
    (shared : s.Shared) : next.Shared := by
  obtain ⟨files, driver, -, rfl⟩ := taken
  exact shared

/-- The table after a step of any of the tasks. -/
theorem Step.own (taken : Step volume link s event next)
    (shared : s.Shared) (who : Side) :
    callTable volume link (s.own event.1) s.driver event.2 =
      some (next.own who, next.driver) := by
  have later := taken.shared shared
  obtain ⟨files, driver, ran, rfl⟩ := taken
  rw [later.own who event.1, ran, store_own]
  rfl

/-- Two states that show a task the same descriptors. -/
structure Related (who : Side) (left right : Tables) : Prop where
  tables : SameButCfo (left.own who) (right.own who)
  disk : SameDisk left.driver right.driver

/-- A call of the task itself is repeated in the other state. -/
theorem Related.own_step (related : Related who s alone)
    (shared : s.Shared) (aloneShared : alone.Shared) (own : event.1 = who)
    (taken : Step volume link s event next) :
    ∃ aloneNext, Step volume link alone event aloneNext ∧
      Related who next aloneNext := by
  have ran := taken.own shared who
  rw [own] at ran
  obtain ⟨files, driver, repeated, tables, disk⟩ :=
    callTable_same related.tables related.disk ran
  rw [← own] at repeated
  have stepped : Step volume link alone event
      (alone.store event.1 files driver) :=
    ⟨files, driver, repeated, rfl⟩
  have after := stepped.own aloneShared who
  rw [repeated] at after
  obtain ⟨table, memory⟩ := Prod.mk.inj (Option.some.inj after)
  exact ⟨_, stepped, table ▸ tables, memory ▸ disk⟩

/-- A harmless call of the other task is left out. -/
theorem Related.other_step (related : Related who s alone)
    (shared : s.Shared) (harmless : Harmless (s.own event.1) event.2)
    (taken : Step volume link s event next) : Related who next alone := by
  obtain ⟨tables, disk⟩ := callTable_harmless harmless (taken.own shared who)
  rw [shared.own event.1 who] at tables
  refine ⟨fun address notCfo => ?_, disk.disk.trans related.disk.disk,
    fun address beyond => ?_⟩
  · rw [tables address notCfo, related.tables address notCfo]
  · rw [disk.beyond address beyond, related.disk.beyond address beyond]

/-- A run in which the other task makes harmless calls only. -/
theorem run_related {events : List (Side × TableCall)}
    (shared : start.Shared)
    (run : Run (Guarded (Step volume link) fun s event =>
      event.1 = who ∨ Harmless (s.own event.1) event.2) start events s) :
    s.Shared ∧ ∃ alone,
      Run (Step volume link) start (events.filter fun event => event.1 = who)
        alone ∧
      alone.Shared ∧ Related who s alone := by
  induction run with
  | nil =>
      exact ⟨shared, start, .nil, shared, .refl _, rfl, fun _ _ => rfl⟩
  | @snoc events s event next _ taken induction =>
      obtain ⟨sShared, alone, aloneRun, aloneShared, related⟩ := induction
      obtain ⟨taken, guard⟩ := taken
      refine ⟨taken.shared sShared, ?_⟩
      rw [List.filter_append]
      by_cases own : event.1 = who
      · obtain ⟨aloneNext, stepped, nextRelated⟩ :=
          related.own_step sShared aloneShared own taken
        refine ⟨aloneNext, ?_, stepped.shared aloneShared, nextRelated⟩
        rw [List.filter_cons_of_pos (by simpa using own), List.filter_nil]
        exact .snoc aloneRun stepped
      · have harmless := guard.resolve_left own
        refine ⟨alone, ?_, aloneShared,
          related.other_step sShared harmless taken⟩
        rw [List.filter_cons_of_neg (by simpa using own), List.filter_nil,
          List.append_nil]
        exact aloneRun

/-- One call of the other task shows exactly when it is not harmless. -/
theorem step_sameDescriptors_iff (shared : s.Shared)
    (inTable : event.2.InTable) (taken : Step volume link s event next) :
    SameDescriptors (next.own who) (s.own who) ↔
      Harmless (s.own event.1) event.2 := by
  have ran := taken.own shared who
  rw [shared.own who event.1]
  constructor
  · intro same
    by_contra harmful
    obtain ⟨side, call⟩ := event
    cases call with
    | seek regs => exact harmful trivial
    | close regs =>
        have isOpen : (s.own side).get (regs.x regIdxA0 % word32) .opened ≠ 0 :=
          harmful
        rw [callTable, sysClose] at ran
        obtain ⟨files, closes, rest⟩ := Option.map_eq_some_iff.1 ran
        cases closes
        dsimp only at rest
        rw [if_neg isOpen] at rest
        obtain ⟨table, -⟩ := Prod.mk.inj rest
        have both := same _ inTable
        rw [← table, descriptor, descriptor, if_neg isOpen,
          FilesStruct.get_set] at both
        simp at both
    | openat fuel regs pathname =>
        obtain ⟨result, opens, rest⟩ := Option.map_eq_some_iff.1 ran
        obtain ⟨table, -⟩ := Prod.mk.inj rest
        rcases sysOpenat_cases opens with
          ⟨none, -⟩ | ⟨fd, opening, empty, opened, rfl⟩
        · exact harmful none
        · obtain ⟨-, small, closed⟩ := emptyDescriptor_spec empty
          have both := same fd small
          rw [← table, descriptor, descriptor, if_pos closed,
            if_neg (by rw [fileOpen_opened opened]; decide)] at both
          cases both
  · intro harmless
    exact (callTable_harmless harmless ran).1.sameDescriptors

/-- After a fork the two pointers are equal. -/
theorem Forked.shared {labels : Trap.Labels} {mem : Bytes}
    {page regs child sscratch count pgd mmap : Nat}
    (pages : Trap.Sys.ForkPages page regs child)
    (above : page + Trap.stackFloor ≤ regs)
    (forked : s.Forked (Trap.Sys.forkMem labels mem page regs sscratch count
      child pgd mmap) page child) : s.Shared := by
  obtain ⟨parent, childFiles⟩ := forked
  rw [Shared, parent, childFiles, Trap.Sys.forkMem_files pages above]
  refine Trap.load_congr fun address lower upper =>
    Trap.Sys.forkMem_elsewhere pages ?_
  have apart := pages.apart
  simp only [Trap.PagesApart, Trap.pageSize] at *
  omega

end Tables

/--
After a fork, a task sees the descriptors that its own calls make, as long as
the other task opens no descriptor and closes none that is open; and every
single call of the other task shows unless it is of this kind.
-/
theorem forked_descriptors {labels : Trap.Labels} {mem : Bytes}
    {page regs child sscratch count pgd mmap : Nat}
    (pages : Trap.Sys.ForkPages page regs child)
    (above : page + Trap.stackFloor ≤ regs) {volume : Fat32Volume}
    {link : Linkage} {start : Tables}
    (forked : start.Forked (Trap.Sys.forkMem labels mem page regs sscratch
      count child pgd mmap) page child) (who : Side) :
    (∀ {events : List (Side × TableCall)} {s : Tables},
      Run (Guarded (Tables.Step volume link) fun s event =>
        event.1 = who ∨ Harmless (s.own event.1) event.2) start events s →
      ∃ alone, Run (Tables.Step volume link) start
          (events.filter fun event => event.1 = who) alone ∧
        SameDescriptors (s.own who) (alone.own who)) ∧
    ∀ {event : Side × TableCall} {next : Tables}, event.2.InTable →
      Tables.Step volume link start event next →
      (SameDescriptors (next.own who) (start.own who) ↔
        Harmless (start.own event.1) event.2) := by
  have shared := forked.shared pages above
  refine ⟨fun run => ?_, fun inTable taken =>
    Tables.step_sameDescriptors_iff shared inTable taken⟩
  obtain ⟨-, alone, aloneRun, -, related⟩ := Tables.run_related shared run
  exact ⟨alone, aloneRun, related.tables.sameDescriptors⟩

/-! ## A child of a new task -/

namespace NewTask

/-- The memory of the kernel with the pointer of the first task. -/
def taskMem : Bytes :=
  Trap.store (fun _ => 0) (Trap.Sys.examplePage 1 + 168) 8

/-- The memory after the first task has forked. -/
def forkedMem : Bytes :=
  Trap.Sys.forkMem Trap.Sys.exampleLabels taskMem (Trap.Sys.examplePage 1)
    (Trap.frameBase (Trap.Sys.examplePage 1)) 0x3000 2 (Trap.Sys.examplePage 2)
    0 0

theorem forkPages : Trap.Sys.ForkPages (Trap.Sys.examplePage 1)
    (Trap.frameBase (Trap.Sys.examplePage 1)) (Trap.Sys.examplePage 2) :=
  ⟨by decide, by decide, by decide, by decide, by decide⟩

/-- Both tasks and the table of the first one. -/
def tables : Tables where
  files
    | .parent => Trap.load forkedMem (Trap.Sys.examplePage 1 + 168)
    | .child => Trap.load forkedMem (Trap.Sys.examplePage 2 + 168)
  table _ := table
  driver := SmallVolume.world.driver

theorem tables_forked : tables.Forked forkedMem (Trap.Sys.examplePage 1)
    (Trap.Sys.examplePage 2) :=
  ⟨rfl, rfl⟩

/-- The registers of `close(1)`. -/
def closeStdout : PtRegs where
  x index := if index = regIdxA0 then 1 else 0

/-- The registers of `lseek(5, 0, SEEK_SET)`. -/
def seekClosed : PtRegs where
  x index := if index = regIdxA0 then 5 else 0

/-- The child closes the standard output. -/
def stdoutClosed : Tables :=
  tables.store .child (table.set 1 .opened 0) tables.driver

theorem stdout_open : table.get 1 .opened = 1 := by
  decide +kernel

theorem close_step : Tables.Step SmallVolume.volume link tables
    (.child, .close closeStdout) stdoutClosed := by
  have target : closeStdout.x regIdxA0 % word32 = 1 := rfl
  refine ⟨_, _, ?_, rfl⟩
  show Tables.callTable SmallVolume.volume link table tables.driver
    (.close closeStdout) = _
  rw [Tables.callTable, sysClose, target]
  dsimp only [Option.map_some]
  rw [if_neg (by rw [stdout_open]; decide)]

theorem seek_step : Tables.Step SmallVolume.volume link tables
    (.child, .seek seekClosed)
    (tables.store .child table tables.driver) := by
  have closed : table.get 5 .opened = 0 :=
    fileInit_closed link _ (by decide) (by decide)
  have target : seekClosed.x regIdxA0 % word32 = 5 := rfl
  refine ⟨_, _, ?_, rfl⟩
  show Tables.callTable SmallVolume.volume link table _ _ = _
  rw [Tables.callTable, sysSeek, target]
  dsimp only
  rw [if_pos closed]

/-- The parent opens the file of the small volume after the child has sought. -/
theorem opens_step
    (shared : (tables.store .child table tables.driver).Shared) :
    ∃ next, Tables.Step SmallVolume.volume link
      (tables.store .child table tables.driver)
      (.parent, .openat 1 regs pathname) next := by
  obtain ⟨result, ran, -⟩ := opened
  have same : (tables.store .child table tables.driver).own .parent = table := by
    rw [shared.own .parent .child, Tables.store_own]
  have opens := congrArg
    (Option.map fun result : Openat => (result.files, result.driver)) ran
  refine ⟨_, result.files, result.driver, ?_, rfl⟩
  rw [same]
  exact opens

/-- After a `close` the descriptor is closed. -/
theorem closes_step (s : Tables) (who : Side) (regs : PtRegs) :
    ∃ next, Tables.Step SmallVolume.volume link s (who, .close regs) next ∧
      (next.own who).get (regs.x regIdxA0 % word32) .opened = 0 := by
  refine ⟨_, ⟨_, _, rfl, rfl⟩, ?_⟩
  rw [Tables.store_own]
  dsimp only
  split
  · next closed => exact closed
  · exact FilesStruct.get_set _ _ _ _

end NewTask

/-- The child of a new task closes the standard output of its parent. -/
theorem child_closes_stdout :
    NewTask.tables.Forked NewTask.forkedMem (Trap.Sys.examplePage 1)
      (Trap.Sys.examplePage 2) ∧
    Run (Tables.Step SmallVolume.volume NewTask.link) NewTask.tables
      [(.child, .close NewTask.closeStdout)] NewTask.stdoutClosed ∧
    (∀ alone, Run (Tables.Step SmallVolume.volume NewTask.link) NewTask.tables
        ([(Side.child, TableCall.close NewTask.closeStdout)].filter
          fun event => event.1 = .parent) alone →
      descriptor (alone.own .parent) 1 ≠ none ∧
      descriptor (NewTask.stdoutClosed.own .parent) 1 = none) := by
  refine ⟨NewTask.tables_forked, .single NewTask.close_step,
    fun alone run => ⟨?_, ?_⟩⟩
  · obtain rfl : alone = NewTask.tables := run.eq_of_nil rfl
    show descriptor NewTask.table 1 ≠ none
    rw [descriptor, NewTask.stdout_open]
    simp
  · have shared := NewTask.close_step.shared
      (NewTask.tables_forked.shared NewTask.forkPages (by decide))
    rw [shared.own .parent .child, Tables.own, NewTask.stdoutClosed,
      Tables.store]
    dsimp only
    rw [Function.update_self, descriptor, FilesStruct.get_set]
    rfl

/--
The child seeks, the parent opens a file and closes its standard output, and the
child closes the standard output, too: the parent has the descriptors that it
has alone.
-/
theorem forked_descriptors_interleaved : ∃ last alone,
    Run (Tables.Step SmallVolume.volume NewTask.link) NewTask.tables
      [(.child, .seek NewTask.seekClosed),
        (.parent, .openat 1 NewTask.regs NewTask.pathname),
        (.parent, .close NewTask.closeStdout),
        (.child, .close NewTask.closeStdout)] last ∧
    Run (Tables.Step SmallVolume.volume NewTask.link) NewTask.tables
      [(.parent, .openat 1 NewTask.regs NewTask.pathname),
        (.parent, .close NewTask.closeStdout)] alone ∧
    SameDescriptors (last.own .parent) (alone.own .parent) := by
  have sought := NewTask.seek_step
  have shared := sought.shared
    (NewTask.tables_forked.shared NewTask.forkPages (by decide))
  obtain ⟨opened, opens⟩ := NewTask.opens_step shared
  obtain ⟨closed, closes, isClosed⟩ :=
    NewTask.closes_step opened .parent NewTask.closeStdout
  obtain ⟨last, closesAgain, -⟩ :=
    NewTask.closes_step closed .child NewTask.closeStdout
  have harmless : Harmless (closed.own .child) (.close NewTask.closeStdout) := by
    rw [(closes.shared (opens.shared shared)).own .child .parent]
    exact isClosed
  have run : Run (Guarded (Tables.Step SmallVolume.volume NewTask.link)
      fun s event => event.1 = .parent ∨ Harmless (s.own event.1) event.2)
      NewTask.tables _ last :=
    .cons ⟨sought, .inr trivial⟩ (.cons ⟨opens, .inl rfl⟩
      (.cons ⟨closes, .inl rfl⟩ (.single ⟨closesAgain, .inr harmless⟩)))
  obtain ⟨alone, aloneRun, same⟩ := (forked_descriptors NewTask.forkPages
    (by decide) NewTask.tables_forked .parent).1 run
  exact ⟨last, alone, run.mono fun _ _ _ taken => taken.1, aloneRun, same⟩

end TinyRiscvOs.Kernel
