import TinyRiscvOs.Kernel.Syscall
import TinyRiscvOs.Lib.Run

/-!
# What `sys_openat` changes

`file_open` stores into the first closed `struct file` before it knows whether
the path names a file, copies the path with its own length, and
`fat32_open_file` turns the string of the caller into upper case.  So a call
may change more than its slot, may keep a slot that it has not opened, and may
not be repeated.
-/

namespace TinyRiscvOs.Kernel

open TinyRiscvOs.Lib
open TinyRiscvOs.Fs

/-! ## The bytes that a call stores -/

/-- `MAX_PATH_LENGTH`. -/
abbrev maxPathLength : Nat := 80

/-- The address lies outside of `fd_array[fd]`. -/
def OutsideSlot (fd address : Nat) : Prop :=
  address < fileSizeOf * fd ∨ fileSizeOf * (fd + 1) ≤ address

section Bytes

variable {volume : Fat32Volume} {link : Linkage} {fuel : Nat}
    {table : FilesStruct} {fd : Nat} {driver : Driver} {path : CString}
    {flags : Nat} {opening : Opening}

/-- A field before the path is stored before the path. -/
theorem set_outside {field : Field} {value address : Nat}
    (before : field.offset + field.width ≤ Field.path)
    (outside : address < fileSizeOf * fd ∨
      fileSizeOf * fd + Field.path ≤ address) :
    table.set fd field value address = table address := by
  refine Bytes.putLittleEndian_outside ?_
  omega

/-- Outside of the fields before the path the call is the copy of the path. -/
theorem fileOpen_apply
    (ran : fileOpen volume link fuel table fd driver path flags =
      some opening) {address : Nat}
    (outside : address < fileSizeOf * fd ∨
      fileSizeOf * fd + Field.path ≤ address) :
    opening.table address =
      table.copyPath fd path.get (path.bytes.length + 1) address := by
  have copied : ∀ before : FilesStruct, before address = table address →
      before.copyPath fd path.get (path.bytes.length + 1) address =
        table.copyPath fd path.get (path.bytes.length + 1) address := by
    intro before same
    rw [FilesStruct.copyPath, FilesStruct.copyPath, Bytes.copy_apply,
      Bytes.copy_apply, same]
  have stored : ∀ (before : FilesStruct) (field : Field) (value : Nat),
      field.offset + field.width ≤ Field.path →
      before.set fd field value address = before address :=
    fun _ _ _ before => set_outside before outside
  have head : (((((table.set fd .opened 1).set fd .perms flags).set fd .cfo
      0).set fd .fsType (getFsType path)).copyPath fd path.get
        (path.bytes.length + 1)) address =
      table.copyPath fd path.get (path.bytes.length + 1) address := by
    refine copied _ ?_
    simp (disch := decide) only [stored]
  rw [fileOpen] at ran
  split at ran
  · obtain ⟨found, -, rfl⟩ := Option.map_eq_some_iff.1 ran
    rw [← head]
    dsimp only
    split <;> simp (disch := decide) only [stored]
  · cases ran
    exact head

/-- The path runs out of the slot exactly with the bytes from index `80` on. -/
theorem fileOpen_outside
    (ran : fileOpen volume link fuel table fd driver path flags =
      some opening) {address : Nat} (outside : OutsideSlot fd address) :
    opening.table address =
      if fileSizeOf * (fd + 1) ≤ address ∧
          address < fileSizeOf * fd + Field.path + (path.bytes.length + 1) then
        path.get (address - (fileSizeOf * fd + Field.path))
      else table address := by
  simp only [OutsideSlot, fileSizeOf] at outside
  rw [fileOpen_apply ran (by simp only [fileSizeOf, Field.path]; omega),
    FilesStruct.copyPath, Bytes.copy_apply, Nat.zero_add]
  refine if_congr ?_ rfl rfl
  simp only [fileSizeOf, Field.path]
  omega

/-- The bytes of the path that are in the slot. -/
theorem fileOpen_path
    (ran : fileOpen volume link fuel table fd driver path flags =
      some opening) {index : Nat} (inside : index ≤ path.bytes.length) :
    opening.table (fileSizeOf * fd + Field.path + index) = path.get index := by
  rw [fileOpen_apply ran (.inr (by omega)), FilesStruct.copyPath,
    Bytes.copy_inside (by omega) (by omega)]
  congr 1
  omega

end Bytes

/-! ## Only its own slot -/

section OwnSlot

variable {volume : Fat32Volume} {link : Linkage} {fuel : Nat}
    {table : FilesStruct} {driver : Driver} {regs : PtRegs}
    {pathname : CString} {result : Openat}

/-- No byte outside of the slot taken has changed. -/
def ElsewhereKept (table : FilesStruct) (result : Openat) : Prop :=
  ∀ address, (∀ fd, emptyDescriptor table = some fd →
    OutsideSlot fd address) → result.files address = table address

/-- The call reports an error and has stored nothing. -/
def Refused (table : FilesStruct) (result : Openat) : Prop :=
  result.regs.x regIdxA0 = openError ∧ result.files = table

/-- The string in the slot ends inside of `path`. -/
def Truncated (table : FilesStruct) (result : Openat) : Prop :=
  ∃ fd, emptyDescriptor table = some fd ∧ ∃ index < maxPathLength,
    result.files (fileSizeOf * fd + Field.path + index) = 0

/-- The call keeps to its slot, with every path. -/
structure KeepsToSlot (table : FilesStruct) (pathname : CString)
    (result : Openat) : Prop where
  elsewhere : ElsewhereKept table result
  long : maxPathLength < pathname.bytes.length + 1 →
    Refused table result ∨ Truncated table result

/-- The path with its `NUL` fits into `path`. -/
def Fits (pathname : CString) : Prop :=
  pathname.bytes.length + 1 ≤ maxPathLength

/-- The two ways through `sys_openat`. -/
theorem sysOpenat_cases
    (ran : sysOpenat volume link fuel (some table) driver regs pathname =
      some result) :
    (emptyDescriptor table = none ∧
      result = ⟨regs.setA0 openError, table, driver, pathname⟩) ∨
    ∃ fd opening, emptyDescriptor table = some fd ∧
      fileOpen volume link fuel table fd driver pathname
        (regs.x regIdxA2 % word32) = some opening ∧
      result = ⟨regs.setA0 (toRegister opening.returned), opening.table,
        opening.driver, opening.path⟩ := by
  rw [sysOpenat] at ran
  cases found : emptyDescriptor table with
  | none =>
      rw [found] at ran
      cases ran
      exact .inl ⟨rfl, rfl⟩
  | some fd =>
      rw [found] at ran
      obtain ⟨opening, opened, rfl⟩ := Option.map_eq_some_iff.1 ran
      exact .inr ⟨fd, opening, rfl, opened, rfl⟩

/-- The slot taken is one of the closed ones. -/
theorem emptyDescriptor_spec {fd : Nat}
    (empty : emptyDescriptor table = some fd) :
    3 ≤ fd ∧ fd < maxFileNumber ∧ table.get fd .opened = 0 := by
  have closed := List.find?_some empty
  obtain ⟨lower, upper⟩ :=
    List.mem_range'_1.1 (List.mem_of_find?_eq_some empty)
  exact ⟨lower, by simp only [maxFileNumber] at *; omega,
    by simpa using closed⟩

/-- A call that takes a slot is never a refusal without a trace. -/
theorem not_refused {fd : Nat} {opening : Opening}
    (empty : emptyDescriptor table = some fd)
    (opened : fileOpen volume link fuel table fd driver pathname
      (regs.x regIdxA2 % word32) = some opening) :
    opening.table ≠ table := by
  intro same
  have isOpen := fileOpen_opened opened
  rw [same, (emptyDescriptor_spec empty).2.2] at isOpen
  cases isOpen

/--
`sys_openat` keeps to its slot, for every table and path, exactly when there is
no closed descriptor or the path with its `NUL` fits.  With a longer path the
bytes behind the slot stay only where they happen to be the bytes of the path.
-/
theorem keepsToSlot_iff
    (ran : sysOpenat volume link fuel (some table) driver regs pathname =
      some result) :
    (KeepsToSlot table pathname result ↔
      emptyDescriptor table = none ∨ Fits pathname) ∧
    ∀ fd, emptyDescriptor table = some fd →
      (ElsewhereKept table result ↔
        ∀ index, maxPathLength ≤ index → index ≤ pathname.bytes.length →
          table (fileSizeOf * fd + Field.path + index) =
            pathname.get index) := by
  rcases sysOpenat_cases ran with
    ⟨none, rfl⟩ | ⟨fd, opening, empty, opened, rfl⟩
  · refine ⟨iff_of_true ⟨fun _ _ => rfl, fun _ => .inl ⟨?_, rfl⟩⟩
      (.inl none), fun fd empty => ?_⟩
    · exact PtRegs.setA0_a0 _ _
    · rw [none] at empty
      cases empty
  have outside {address : Nat} :
      (∀ other, emptyDescriptor table = some other →
        OutsideSlot other address) ↔ OutsideSlot fd address := by
    simp only [empty, Option.some.injEq, forall_eq']
  have kept : ElsewhereKept table
      ⟨regs.setA0 (toRegister opening.returned), opening.table,
        opening.driver, opening.path⟩ ↔
      ∀ index, maxPathLength ≤ index → index ≤ pathname.bytes.length →
        table (fileSizeOf * fd + Field.path + index) =
          pathname.get index := by
    constructor
    · intro elsewhere index beyond inside
      rw [← fileOpen_path opened inside]
      refine (elsewhere _ (outside.2 (.inr ?_))).symm
      simp only [fileSizeOf, Field.path, maxPathLength] at *
      omega
    · intro same address isOutside
      have isOutside := outside.1 isOutside
      dsimp only
      rw [fileOpen_outside opened isOutside]
      split
      · next overrun =>
          have index := same (address - (fileSizeOf * fd + Field.path))
            (by simp only [fileSizeOf, Field.path, maxPathLength] at *; omega)
            (by omega)
          rw [← index]
          congr 1
          simp only [fileSizeOf, Field.path] at *
          omega
      · rfl
  refine ⟨⟨fun keeps => .inr ?_, fun condition => ?_⟩, fun other isEmpty => ?_⟩
  · by_contra tooLong
    rcases keeps.long (Nat.not_le.1 tooLong) with ⟨-, same⟩ | truncated
    · exact not_refused empty opened same
    · -- All eighty bytes of the array are bytes of the path.
      obtain ⟨other, isEmpty, index, small, zero⟩ := truncated
      rw [empty] at isEmpty
      cases isEmpty
      simp only [Fits, maxPathLength] at tooLong small
      have inside : index < pathname.bytes.length := by omega
      dsimp only at zero
      rw [fileOpen_path opened inside.le, CString.get,
        List.getD_eq_getElem _ _ inside] at zero
      exact pathname.nonzero _ (List.getElem_mem inside) zero
  · have fits : Fits pathname := by
      rcases condition with none | fits
      · rw [empty] at none
        cases none
      · exact fits
    simp only [Fits, maxPathLength] at fits
    refine ⟨kept.2 fun index beyond inside => ?_, fun long => ?_⟩
    · simp only [maxPathLength] at beyond
      omega
    · simp only [maxPathLength] at long
      omega
  · rw [empty] at isEmpty
    cases isEmpty
    exact kept

end OwnSlot

/-- A path of no file system is refused after the slot has been filled. -/
theorem fileOpen_unknown (volume : Fat32Volume) (link : Linkage) (fuel : Nat)
    (table : FilesStruct) (fd : Nat) (driver : Driver) {path : CString}
    (flags : Nat) (unknown : getFsType path ≠ fsTypeFat32) :
    ∃ opening, fileOpen volume link fuel table fd driver path flags =
        some opening ∧
      opening.returned = -1 ∧ opening.path = path := by
  rw [fileOpen, if_neg unknown]
  exact ⟨_, rfl, rfl, rfl⟩

/-- The same for the system call. -/
theorem sysOpenat_unknown (volume : Fat32Volume) (link : Linkage) (fuel : Nat)
    (driver : Driver) (regs : PtRegs) {table : FilesStruct}
    {pathname : CString} {fd : Nat} (empty : emptyDescriptor table = some fd)
    (unknown : getFsType pathname ≠ fsTypeFat32) :
    ∃ opening, fileOpen volume link fuel table fd driver pathname
        (regs.x regIdxA2 % word32) = some opening ∧
      sysOpenat volume link fuel (some table) driver regs pathname =
        some ⟨regs.setA0 openError, opening.table, opening.driver,
          pathname⟩ := by
  obtain ⟨opening, opened, failed, kept⟩ := fileOpen_unknown volume link fuel
    table fd driver (regs.x regIdxA2 % word32) unknown
  refine ⟨opening, opened, ?_⟩
  rw [sysOpenat, empty]
  dsimp only
  rw [opened, Option.map_some, failed, kept]
  rfl

namespace NewTask

/-- A path of 81 letters. -/
def longPathname : CString where
  bytes := List.replicate 81 0x61
  nonzero := by
    intro byte member
    rw [List.eq_of_mem_replicate member]
    decide

end NewTask

/-- The last letter of a path of 81 letters opens the next descriptor. -/
theorem sysOpenat_opens_next : ∃ result,
    sysOpenat SmallVolume.volume NewTask.link 1 (some NewTask.table)
        SmallVolume.world.driver NewTask.regs NewTask.longPathname =
      some result ∧
    NewTask.table.get 4 .opened = 0 ∧ result.files 544 = 0x61 ∧
    ¬ KeepsToSlot NewTask.table NewTask.longPathname result := by
  obtain ⟨opening, opened, ran⟩ := sysOpenat_unknown SmallVolume.volume
    NewTask.link 1 SmallVolume.world.driver NewTask.regs NewTask.table_empty
    (show getFsType NewTask.longPathname ≠ fsTypeFat32 by decide)
  have before : NewTask.table 544 = 0 := by decide +kernel
  have after : opening.table 544 = 0x61 := by
    rw [fileOpen_outside opened (.inr (by decide)), if_pos (by decide)]
    decide
  refine ⟨_, ran, fileInit_closed _ _ (by decide) (by decide), after,
    fun keeps => ?_⟩
  have same := keeps.elsewhere 544 fun fd empty => by
    rw [NewTask.table_empty] at empty
    cases empty
    exact .inr (by decide)
  dsimp only at same
  rw [before, after] at same
  exact absurd same (by decide)

/-- A new task that opens the file of the small volume keeps to the slot. -/
theorem keepsToSlot_iff_new_task : ∃ result,
    sysOpenat SmallVolume.volume NewTask.link 1 (some NewTask.table)
        SmallVolume.world.driver NewTask.regs NewTask.pathname =
      some result ∧
    KeepsToSlot NewTask.table NewTask.pathname result := by
  obtain ⟨result, ran, -⟩ := NewTask.opened
  exact ⟨result, ran, (keepsToSlot_iff ran).1.2 (.inr (by
    simp only [Fits]
    decide))⟩

/-! ## The string of the caller -/

section Again

variable {volume : Fat32Volume} {link : Linkage} {fuel : Nat}
    {table : FilesStruct} {driver : Driver} {regs : PtRegs}
    {pathname : CString} {result : Openat}

/-- What a call tells the task: `a0`, and the file if there is one. -/
def outcome (table : FilesStruct) (result : Openat) :
    Nat × Option Fat32File :=
  (result.regs.x regIdxA0,
    if result.regs.x regIdxA0 = openError then none
    else (emptyDescriptor table).map fun fd =>
      (result.files.file fd).fat32File)

/--
The call leaves the string alone, and a second call with the string it has
left, on the same disk and with a closed descriptor, has the same outcome.
-/
structure Repeatable (volume : Fat32Volume) (link : Linkage)
    (table : FilesStruct) (driver : Driver) (regs : PtRegs)
    (pathname : CString) (result : Openat) : Prop where
  kept : result.path = pathname
  again : ∀ (fuel : Nat) (files : FilesStruct) (later : Driver)
    (second : Openat), (emptyDescriptor files).isSome →
    later.disk = driver.disk →
    sysOpenat volume link fuel (some files) later regs result.path =
      some second →
    outcome files second = outcome table result

/-- The bytes of the prefix of a FAT32 path. -/
theorem get_of_fat32 (isFat32 : getFsType pathname = fsTypeFat32) {index : Nat}
    (inside : index < 7) :
    pathname.get index = ofList fat32Prefix index := by
  rw [getFsType] at isFat32
  split at isFat32
  · next same =>
      rw [memcmpEqual, List.all_eq_true] at same
      simpa using same index (List.mem_range.2 inside)
  · split at isFat32 <;> cases isFat32

theorem get_toUpperCase (string : CString) (index : Nat) :
    string.toUpperCase.get index = CString.upperByte (string.get index) := by
  have nul : CString.upperByte 0 = 0 := by decide
  rw [CString.get, CString.get, CString.toUpperCase, ← nul, List.getD_map, nul]

/-- In upper case no path is a FAT32 path. -/
theorem toUpperCase_unknown (string : CString) :
    getFsType string.toUpperCase ≠ fsTypeFat32 := by
  intro isFat32
  have second := get_of_fat32 isFat32 (show 1 < 7 by decide)
  rw [get_toUpperCase] at second
  have never : ∀ byte, CString.upperByte byte ≠ 0x66 := by decide
  exact never _ second

/-- A FAT32 path is in upper case afterwards. -/
theorem sysOpenat_path {fd : Nat} (empty : emptyDescriptor table = some fd)
    (isFat32 : getFsType pathname = fsTypeFat32)
    (ran : sysOpenat volume link fuel (some table) driver regs pathname =
      some result) :
    result.path = pathname.toUpperCase := by
  rcases sysOpenat_cases ran with ⟨none, -⟩ | ⟨other, opening, -, opened, rfl⟩
  · rw [empty] at none
    cases none
  · rw [fileOpen, if_pos isFat32] at opened
    obtain ⟨⟨file, next, path⟩, found, rfl⟩ := Option.map_eq_some_iff.1 opened
    obtain ⟨entry, -, same⟩ := Option.map_eq_some_iff.1 found
    cases same
    dsimp only
    split <;> rfl

/-- An error has no file. -/
theorem outcome_of_error (error : result.regs.x regIdxA0 = openError) :
    outcome table result = (openError, none) := by
  rw [outcome, if_pos error, error]

/-- A path of no file system is always an error, and stays. -/
theorem sysOpenat_unknown_error
    (unknown : getFsType pathname ≠ fsTypeFat32)
    (ran : sysOpenat volume link fuel (some table) driver regs pathname =
      some result) :
    result.regs.x regIdxA0 = openError ∧ result.path = pathname := by
  rcases sysOpenat_cases ran with ⟨-, rfl⟩ | ⟨fd, opening, empty, -, -⟩
  · exact ⟨PtRegs.setA0_a0 _ _, rfl⟩
  · obtain ⟨opening, -, same⟩ := sysOpenat_unknown volume link fuel driver regs
      empty unknown
    rw [ran] at same
    cases same
    exact ⟨PtRegs.setA0_a0 _ _, rfl⟩

/--
With a closed descriptor, `sys_openat` leaves the string of the caller alone
and can be repeated exactly when the path is not one of the FAT32 file system.
-/
theorem repeatable_iff {fd : Nat} (empty : emptyDescriptor table = some fd)
    (ran : sysOpenat volume link fuel (some table) driver regs pathname =
      some result) :
    Repeatable volume link table driver regs pathname result ↔
      getFsType pathname ≠ fsTypeFat32 := by
  constructor
  · intro repeatable isFat32
    have upper := sysOpenat_path empty isFat32 ran
    rw [repeatable.kept] at upper
    exact toUpperCase_unknown pathname (upper ▸ isFat32)
  · intro unknown
    obtain ⟨error, kept⟩ := sysOpenat_unknown_error unknown ran
    refine ⟨kept, fun fuel files later second _ _ secondRan => ?_⟩
    rw [kept] at secondRan
    rw [outcome_of_error error,
      outcome_of_error (sysOpenat_unknown_error unknown secondRan).1]

end Again

/--
A new task opens the file of the small volume; afterwards its string reads
`"/FAT32/A"`, and every further call with it fails.
-/
theorem sysOpenat_not_repeatable : ∃ result,
    sysOpenat SmallVolume.volume NewTask.link 1 (some NewTask.table)
        SmallVolume.world.driver NewTask.regs NewTask.pathname =
      some result ∧
    result.regs.x regIdxA0 = 0 ∧
    result.path.bytes = [0x2f, 0x46, 0x41, 0x54, 0x33, 0x32, 0x2f, 0x41] ∧
    (∀ fuel files later second,
      sysOpenat SmallVolume.volume NewTask.link fuel (some files) later
        NewTask.regs result.path = some second →
      second.regs.x regIdxA0 = openError) ∧
    ¬ Repeatable SmallVolume.volume NewTask.link NewTask.table
      SmallVolume.world.driver NewTask.regs NewTask.pathname result := by
  obtain ⟨result, ran, zero⟩ := NewTask.opened
  have upper := sysOpenat_path NewTask.table_empty (by decide) ran
  refine ⟨result, ran, zero, ?_, ?_, fun repeatable => ?_⟩
  · rw [upper]
    decide
  · intro fuel files later second secondRan
    rw [upper] at secondRan
    exact (sysOpenat_unknown_error (toUpperCase_unknown _) secondRan).1
  · have same := repeatable.kept
    rw [upper] at same
    exact absurd (congrArg CString.bytes same) (by decide)

/-- A path of no file system can be tried again. -/
theorem repeatable_iff_long_path : ∃ result,
    sysOpenat SmallVolume.volume NewTask.link 1 (some NewTask.table)
        SmallVolume.world.driver NewTask.regs NewTask.longPathname =
      some result ∧
    Repeatable SmallVolume.volume NewTask.link NewTask.table
      SmallVolume.world.driver NewTask.regs NewTask.longPathname result := by
  have unknown : getFsType NewTask.longPathname ≠ fsTypeFat32 := by decide
  obtain ⟨opening, -, ran⟩ := sysOpenat_unknown SmallVolume.volume
    NewTask.link 1 SmallVolume.world.driver NewTask.regs NewTask.table_empty
    unknown
  exact ⟨_, ran, (repeatable_iff NewTask.table_empty ran).2 unknown⟩

/-! ## Failed calls -/

/-- The closed descriptors that `sys_openat` may take. -/
def closedSlots (table : FilesStruct) : List Nat :=
  (List.range' 3 (maxFileNumber - 3)).filter fun fd => table.get fd .opened = 0

theorem emptyDescriptor_eq_head (table : FilesStruct) :
    emptyDescriptor table = (closedSlots table).head? := by
  rw [emptyDescriptor, closedSlots, List.head?_filter]

/-- A call with this string reports an error and leaves this table. -/
def FailedOpen (volume : Fat32Volume) (link : Linkage) (table : FilesStruct)
    (pathname : CString) (files : FilesStruct) : Prop :=
  ∃ fuel driver regs result,
    sysOpenat volume link fuel (some table) driver regs pathname =
      some result ∧
    result.regs.x regIdxA0 = openError ∧ result.files = files

/-- The path names a file that has a first cluster. -/
def Existing (volume : Fat32Volume) (fuel : Nat) (driver : Driver)
    (pathname : CString) : Prop :=
  getFsType pathname = fsTypeFat32 ∧
    ∃ file, lookup volume fuel driver pathname = some file ∧ file.cluster ≠ 0

/--
The table is observably the one before a failed call: the same descriptors are
open on the same files, the calls on the slot tried are refused, and it is the
next one to be taken.
-/
structure NoTrace (table files : FilesStruct) : Prop where
  opened : ∀ fd < maxFileNumber, files.get fd .opened = table.get fd .opened
  kept : ∀ fd < maxFileNumber, table.get fd .opened ≠ 0 → ∀ field : Field,
    field.offset + field.width ≤ fileSizeOf →
    files.get fd field = table.get fd field
  refuses : ∀ fd, emptyDescriptor table = some fd → ∀ regs : PtRegs,
    regs.x regIdxA0 = fd →
    ∀ call ∈ [sysRead (some files) regs, sysWrite (some files) regs,
      sysSeek (some files) regs], call.target = none
  reusable : emptyDescriptor files = emptyDescriptor table

section Failed

variable {volume : Fat32Volume} {link : Linkage} {fuel : Nat}
    {table files : FilesStruct} {driver : Driver} {regs : PtRegs}
    {pathname : CString} {result : Openat}

/-- Without a closed descriptor nothing is stored, otherwise the slot is open. -/
theorem noTrace_iff
    (ran : sysOpenat volume link fuel (some table) driver regs pathname =
      some result) :
    NoTrace table result.files ↔ emptyDescriptor table = none := by
  rcases sysOpenat_cases ran with
    ⟨none, rfl⟩ | ⟨fd, opening, empty, opened, rfl⟩
  · refine iff_of_true ⟨fun _ _ => rfl, fun _ _ _ _ _ => rfl, ?_, rfl⟩ none
    intro fd empty
    rw [none] at empty
    cases empty
  · obtain ⟨-, small, closed⟩ := emptyDescriptor_spec empty
    refine iff_of_false (fun noTrace => ?_) (by rw [empty]; simp)
    have same := noTrace.opened fd small
    rw [closed] at same
    exact absurd ((fileOpen_opened opened).symm.trans same) (by decide)

/-- A failed call with a path that fits takes one closed descriptor away. -/
theorem FailedOpen.closedSlots_length (fits : Fits pathname)
    (failed : FailedOpen volume link table pathname files) :
    (closedSlots files).length = (closedSlots table).length - 1 := by
  obtain ⟨fuel, driver, regs, result, ran, -, rfl⟩ := failed
  rcases sysOpenat_cases ran with
    ⟨none, rfl⟩ | ⟨fd, opening, empty, opened, rfl⟩
  · rw [emptyDescriptor_eq_head, List.head?_eq_none_iff] at none
    dsimp only
    rw [none]
    rfl
  · have member : fd ∈ closedSlots table :=
      List.mem_of_head? (emptyDescriptor_eq_head table ▸ empty)
    have distinct : (closedSlots table).Nodup :=
      List.Nodup.filter _ List.nodup_range'
    have erased : closedSlots opening.table = (closedSlots table).erase fd := by
      rw [distinct.erase_eq_filter, closedSlots, closedSlots,
        List.filter_filter]
      refine List.filter_congr fun other _ => ?_
      by_cases same : other = fd
      · subst same
        rw [fileOpen_opened opened]
        simp
      · have short : pathname.bytes.length < 80 := fits
        rw [fileOpen_other opened (Ne.symm same) short (by decide)]
        simp [same]
    dsimp only
    rw [erased, List.length_erase_of_mem member]

/-- Any number of failed calls with paths that fit. -/
theorem run_closedSlots_length {paths : List CString}
    (run : Run (fun table pathname files =>
      FailedOpen volume link table pathname files ∧ Fits pathname)
      table paths files) :
    (closedSlots files).length = (closedSlots table).length - paths.length := by
  induction run with
  | nil => rfl
  | snoc _ taken induction =>
      rw [taken.1.closedSlots_length taken.2, induction, List.length_append,
        List.length_singleton, Nat.sub_sub]

/-- An existing file can be opened as long as there is a closed descriptor. -/
theorem sysOpenat_existing_iff
    (ran : sysOpenat volume link fuel (some table) driver regs pathname =
      some result)
    (existing : Existing volume fuel driver pathname) :
    result.regs.x regIdxA0 ≠ openError ↔ 0 < (closedSlots table).length := by
  rw [List.length_pos_iff]
  cases empty : emptyDescriptor table with
  | none =>
      have none := empty
      rw [emptyDescriptor_eq_head, List.head?_eq_none_iff] at none
      rcases sysOpenat_cases ran with ⟨-, rfl⟩ | ⟨fd, -, some, -⟩
      · exact iff_of_false (not_not.2 (PtRegs.setA0_a0 _ _)) (not_not.2 none)
      · rw [empty] at some
        cases some
  | some fd =>
      obtain ⟨isFat32, file, isFile, nonzero⟩ := existing
      obtain ⟨⟨entry, next, path⟩, isEntry, rfl⟩ :=
        Option.map_eq_some_iff.1 isFile
      obtain ⟨other, otherRan, zero⟩ := @sysOpenat_found volume link fuel table
        driver regs pathname fd _ _ _ empty isFat32 isEntry nonzero
      rw [ran] at otherRan
      cases otherRan
      rw [zero]
      refine iff_of_true (by decide) fun nil => ?_
      rw [emptyDescriptor_eq_head, nil] at empty
      cases empty

end Failed

/--
After any number of failed calls, a failed call leaves no trace exactly when
there is no closed descriptor left, and a later call opens an existing file
exactly when there is one.  Where the paths tried fit, that is when fewer calls
have failed than there were closed descriptors.
-/
theorem failedOpen_noTrace_iff {volume : Fat32Volume} {link : Linkage}
    {table files : FilesStruct} {paths : List CString}
    (run : Run (FailedOpen volume link) table paths files) {fuel : Nat}
    {driver : Driver} {regs : PtRegs} {pathname : CString} {result : Openat}
    (ran : sysOpenat volume link fuel (some files) driver regs pathname =
      some result) :
    (result.regs.x regIdxA0 = openError →
      (NoTrace files result.files ↔ emptyDescriptor files = none)) ∧
    (Existing volume fuel driver pathname →
      (result.regs.x regIdxA0 ≠ openError ↔ emptyDescriptor files ≠ none) ∧
      ((∀ path ∈ paths, Fits path) →
        (result.regs.x regIdxA0 ≠ openError ↔
          paths.length < (closedSlots table).length))) := by
  refine ⟨fun _ => noTrace_iff ran, fun existing => ?_⟩
  have opens := sysOpenat_existing_iff ran existing
  refine ⟨?_, fun fit => ?_⟩
  · rw [opens, emptyDescriptor_eq_head, ne_eq, List.head?_eq_none_iff,
      List.length_pos_iff]
  · have fitting : Run (fun table pathname files =>
        FailedOpen volume link table pathname files ∧ Fits pathname)
        table paths files := by
      clear ran opens
      induction run with
      | nil => exact .nil
      | snoc _ taken induction =>
          refine .snoc (induction fun path member => ?_) ⟨taken, ?_⟩
          · exact fit path (List.mem_append_left _ member)
          · exact fit _ (List.mem_append_right _ List.mem_cons_self)
    rw [opens, run_closedSlots_length fitting]
    omega

namespace NewTask

/-- The path `"/ext2/a"`. -/
def ext2Pathname : CString where
  bytes := ext2Prefix ++ [0x61]
  nonzero := by decide

theorem existing : Existing SmallVolume.volume 1 SmallVolume.world.driver
    pathname :=
  ⟨by decide, ⟨3, ⟨2, 0⟩⟩, by decide +kernel, by decide⟩

end NewTask

/-- A refused path of `ext2` leaves descriptor `3` of a new task open. -/
theorem failedOpen_leaves_slot : ∃ result,
    sysOpenat SmallVolume.volume NewTask.link 1 (some NewTask.table)
        SmallVolume.world.driver NewTask.regs NewTask.ext2Pathname =
      some result ∧
    result.regs.x regIdxA0 = openError ∧
    NewTask.table.get 3 .opened = 0 ∧ result.files.get 3 .opened = 1 ∧
    ¬ NoTrace NewTask.table result.files := by
  obtain ⟨opening, opened, ran⟩ := sysOpenat_unknown SmallVolume.volume
    NewTask.link 1 SmallVolume.world.driver NewTask.regs NewTask.table_empty
    (show getFsType NewTask.ext2Pathname ≠ fsTypeFat32 by decide)
  have closed := fileInit_closed NewTask.link (fun _ => 0) (Nat.le_refl 3)
    (by decide)
  have isOpen := fileOpen_opened opened
  refine ⟨_, ran, PtRegs.setA0_a0 _ _, closed, isOpen, fun noTrace => ?_⟩
  have same := noTrace.opened 3 (by decide)
  dsimp only at same
  rw [isOpen] at same
  exact absurd (same.trans closed) (by decide)

namespace NewTask

/-- The path `"/a"`, of no file system. -/
def unknownPathname : CString where
  bytes := [0x2f, 0x61]
  nonzero := by decide

/-- All thirteen descriptors that a new task may open are closed. -/
theorem closedSlots_length : (closedSlots table).length = 13 := by
  have all : closedSlots table = List.range' 3 (maxFileNumber - 3) := by
    refine List.filter_eq_self.2 fun fd member => ?_
    obtain ⟨lower, upper⟩ := List.mem_range'_1.1 member
    exact decide_eq_true (fileInit_closed link _ lower
      (by simp only [maxFileNumber] at *; omega))
  rw [all, List.length_range']
  rfl

/-- A path of no file system fails, whatever the table. -/
theorem fails {volume : Fat32Volume} {table : FilesStruct} {pathname : CString}
    (unknown : getFsType pathname ≠ fsTypeFat32) :
    ∃ files, FailedOpen volume link table pathname files := by
  cases empty : emptyDescriptor table with
  | none =>
      refine ⟨table, 1, SmallVolume.world.driver, regs,
        ⟨regs.setA0 openError, table, SmallVolume.world.driver, pathname⟩, ?_,
        PtRegs.setA0_a0 regs openError, rfl⟩
      rw [sysOpenat, empty]
      rfl
  | some fd =>
      obtain ⟨opening, -, ran⟩ := sysOpenat_unknown volume link 1
        SmallVolume.world.driver regs empty unknown
      exact ⟨_, 1, _, regs, _, ran, PtRegs.setA0_a0 regs openError, rfl⟩

end NewTask

/--
A new task tries a path of `ext2` and one of no file system: two of its thirteen
descriptors are gone, and the file of the small volume can still be opened.
-/
theorem failedOpen_noTrace_iff_new_task : ∃ files result,
    Run (FailedOpen SmallVolume.volume NewTask.link) NewTask.table
      [NewTask.ext2Pathname, NewTask.unknownPathname] files ∧
    (closedSlots files).length = 11 ∧
    sysOpenat SmallVolume.volume NewTask.link 1 (some files)
        SmallVolume.world.driver NewTask.regs NewTask.pathname =
      some result ∧
    result.regs.x regIdxA0 ≠ openError := by
  have fitFirst : Fits NewTask.ext2Pathname := by
    simp only [Fits]
    decide
  have fitSecond : Fits NewTask.unknownPathname := by
    simp only [Fits]
    decide
  obtain ⟨middle, first⟩ := @NewTask.fails SmallVolume.volume NewTask.table
    NewTask.ext2Pathname (by decide)
  obtain ⟨files, second⟩ := @NewTask.fails SmallVolume.volume middle
    NewTask.unknownPathname (by decide)
  have run : Run (FailedOpen SmallVolume.volume NewTask.link) NewTask.table
      [NewTask.ext2Pathname, NewTask.unknownPathname] files :=
    (Run.single first).snoc second
  have left : (closedSlots files).length = 11 := by
    rw [second.closedSlots_length fitSecond, first.closedSlots_length fitFirst,
      NewTask.closedSlots_length]
  obtain ⟨fd, empty⟩ : ∃ fd, emptyDescriptor files = some fd := by
    rw [emptyDescriptor_eq_head, ← Option.isSome_iff_exists,
      List.isSome_head?, ← List.length_pos_iff, left]
    decide
  obtain ⟨result, ran, -⟩ := @sysOpenat_found SmallVolume.volume NewTask.link 1
    files SmallVolume.world.driver NewTask.regs NewTask.pathname fd _ _ _ empty
    (by decide) NewTask.found (by decide)
  have opens := (failedOpen_noTrace_iff run ran).2 NewTask.existing
  refine ⟨files, result, run, left, ran, (opens.2 ?_).2 ?_⟩
  · simp only [List.mem_cons, List.not_mem_nil, or_false, forall_eq_or_imp,
      forall_eq]
    exact ⟨fitFirst, fitSecond⟩
  · rw [NewTask.closedSlots_length]
    decide

end TinyRiscvOs.Kernel
