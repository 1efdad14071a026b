import TinyRiscvOs.Kernel.Syscall
import Mathlib.Logic.Relation

/-!
# Dispatching a system call

`syscall_handler` takes the entry of `syscall_table` that `a7` names and calls
it.  Neither it nor the handlers compare a number of the user with the length
of an array, and a handler calls whatever pointer the `struct file` holds.

`Safe` is what a call should do, read off the array accesses and the pointer
call it makes.  `Proper` is the condition on the registers and the table under
which it does.
-/

namespace TinyRiscvOs.Kernel

open TinyRiscvOs.Lib
open TinyRiscvOs.Fs

/-- `REG_IDX_A7`. -/
abbrev regIdxA7 : Nat := 17

/-- The functions that `syscall_table` lists. -/
inductive Handler where
  | openat
  | close
  | seek
  | read
  | write
  | getpid
  | clone
deriving DecidableEq, Repr

/-- The length of `syscall_table`, whose last initialiser is `[SYS_CLONE]`. -/
abbrev syscallTableLength : Nat := 221

/-- `syscall_table`; `none` is a `NULL` entry. -/
def syscallTable (index : Nat) : Option Handler :=
  if index = 56 then some .openat
  else if index = 57 then some .close
  else if index = 62 then some .seek
  else if index = 63 then some .read
  else if index = 64 then some .write
  else if index = 172 then some .getpid
  else if index = 220 then some .clone
  else none

theorem syscallTable_inside {index : Nat} {handler : Handler}
    (listed : syscallTable index = some handler) :
    index < syscallTableLength := by
  by_contra outside
  have later : 221 ≤ index := Nat.not_lt.1 outside
  simp only [syscallTable] at listed
  simp (disch := omega) only [if_neg, reduceCtorEq] at listed

/-! ## The function pointers of a file -/

/-- The function pointers of `struct file`. -/
inductive Method where
  | lseek
  | write
  | read
deriving DecidableEq, Repr

/-- Where a pointer is stored. -/
def Method.field : Method → Field
  | .lseek => .lseek
  | .write => .write
  | .read => .read

/-- The functions that `file_init` sets. -/
def standardFunction : Nat → Method → Option Symbol
  | 0, .read => some .stdinRead
  | 1, .write => some .stdoutWrite
  | 2, .write => some .stderrWrite
  | _, _ => none

/-- The functions that `file_open` sets for a FAT32 file. -/
def fat32Function : Method → Symbol
  | .lseek => .fat32Lseek
  | .write => .fat32Write
  | .read => .fat32Read

/-- The function that `fs.c` has for a file. -/
def fileFunction (fd fsType : Nat) (method : Method) : Option Symbol :=
  if fsType = fsTypeFat32 then some (fat32Function method)
  else standardFunction fd method

/-- The pointer is the function of the file in `fd_array[fd]`. -/
def IsSet (link : Linkage) (table : FilesStruct) (fd : Nat)
    (method : Method) : Prop :=
  ∃ symbol, fileFunction fd (table.get fd .fsType) method = some symbol ∧
    table.get fd method.field = link.address symbol

/-- There is a function for the file in `fd_array[fd]`. -/
def HasFunction (table : FilesStruct) (fd : Nat) (method : Method) : Prop :=
  (fileFunction fd (table.get fd .fsType) method).isSome

/-! ## What a call does -/

/-- How a handler ends. -/
inductive Outcome where
  /-- The request is carried out, by the handler or the function it calls. -/
  | served (files : FilesStruct)
  /-- The handler returns without carrying it out. -/
  | refused (regs : PtRegs) (files : FilesStruct)
  /-- The endless loop of `Err`. -/
  | stuck
  /-- The handler was read from behind `syscall_table`. -/
  | wild

/-- The array accesses and the pointer call of one system call. -/
structure Dispatch where
  /-- The entry of `syscall_table`. -/
  entry : Nat
  /-- The entry of `fd_array` that `sys_read`, `sys_write`, `sys_seek` or `sys_close` uses. -/
  touched : Option Nat
  /-- The pointer called, with its place in that entry. -/
  called : Option (Method × Nat)
  outcome : Outcome

/-- A handler that ends by calling a pointer, or refuses. -/
def FileCall.dispatch (table : FilesStruct) (entry fd : Nat)
    (method : Method) : FileCall → Dispatch
  | .stuck => ⟨entry, none, none, .stuck⟩
  | .refused regs => ⟨entry, some fd, none, .refused regs table⟩
  | .call function _ _ _ =>
      ⟨entry, some fd, some (method, function), .served table⟩

/-- What a call depends on beside the registers and the descriptor table. -/
structure Surroundings where
  volume : Fat32Volume
  link : Linkage
  /-- Bound on the entries of the root directory that are looked at. -/
  fuel : Nat
  driver : Driver
  /-- The string at `a1`. -/
  pathname : CString

/--
`syscall_handler` for a task with a descriptor table; `none` is a directory
scan that has not ended.
-/
def syscallHandler (env : Surroundings) (table : FilesStruct)
    (regs : PtRegs) : Option Dispatch :=
  let id := regs.x regIdxA7
  if syscallTableLength ≤ id then some ⟨id, none, none, .wild⟩
  else
    match syscallTable id with
    | none => some ⟨id, none, none, .stuck⟩
    | some .seek =>
        some ((sysSeek (some table) regs).dispatch table id
          (regs.x regIdxA0 % word32) .lseek)
    | some .read =>
        some ((sysRead (some table) regs).dispatch table id
          (regs.x regIdxA0) .read)
    | some .write =>
        some ((sysWrite (some table) regs).dispatch table id
          (regs.x regIdxA0) .write)
    | some .close =>
        let fd := regs.x regIdxA0 % word32
        (sysClose (some table) regs).map fun files =>
          ⟨id, some fd, none,
            if table.get fd .opened = 0 then .refused regs files
            else .served files⟩
    | some .openat =>
        (sysOpenat env.volume env.link env.fuel (some table) env.driver regs
          env.pathname).map fun result =>
            ⟨id, none, none,
              if result.regs.x regIdxA0 = openError then
                .refused result.regs result.files
              else .served result.files⟩
    | some .getpid => some ⟨id, none, none, .served table⟩
    | some .clone => some ⟨id, none, none, .served table⟩

/-- The values with which a handler reports an error. -/
def IsErrorCode (value : Nat) : Prop :=
  value = errorFileNotOpen ∨ value = openError

/--
The call stays inside the two arrays, calls only the function of the file, and
either carries the request out or reports an error and leaves the table alone.
-/
structure Safe (link : Linkage) (table : FilesStruct) (call : Dispatch) :
    Prop where
  entry : call.entry < syscallTableLength
  touched : ∀ fd ∈ call.touched, fd < maxFileNumber
  called : ∀ method pointer, call.called = some (method, pointer) →
    ∃ fd ∈ call.touched, ∃ symbol,
      fileFunction fd (table.get fd .fsType) method = some symbol ∧
        pointer = link.address symbol
  answered :
    match call.outcome with
    | .served _ => True
    | .refused regs files => IsErrorCode (regs.x regIdxA0) ∧ files = table
    | .stuck | .wild => False

/-! ## When it is safe -/

/-- A transfer with the descriptor in `a0`. -/
def ProperTransfer (usable : Nat → Method → Prop) (table : FilesStruct)
    (regs : PtRegs) (permission : Nat) (method : Method) : Prop :=
  let fd := regs.x regIdxA0
  fd < maxFileNumber ∧
    (table.get fd .opened ≠ 0 → table.get fd .perms &&& permission ≠ 0 →
      usable fd method)

/--
The request is one the handlers are up to; `usable` says which pointers may be
called.
-/
def Proper (usable : Nat → Method → Prop) (env : Surroundings)
    (table : FilesStruct) (regs : PtRegs) : Prop :=
  match syscallTable (regs.x regIdxA7) with
  | none => False
  | some .read => ProperTransfer usable table regs fileReadable .read
  | some .write => ProperTransfer usable table regs fileWritable .write
  | some .seek =>
      let fd := regs.x regIdxA0 % word32
      fd < maxFileNumber ∧ table.get fd .opened ≠ 0 ∧ usable fd .lseek
  | some .close =>
      let fd := regs.x regIdxA0 % word32
      fd < maxFileNumber ∧ table.get fd .opened ≠ 0
  | some .openat =>
      emptyDescriptor table = none ∨
        getFsType env.pathname = fsTypeFat32 ∧
          ∃ file, lookup env.volume env.fuel env.driver env.pathname =
            some file ∧ file.cluster ≠ 0
  | some .getpid | some .clone => True

section Handlers

variable {link : Linkage} {table : FilesStruct} {regs : PtRegs}
    {entry fd : Nat} {method : Method}

/-- A small descriptor in `a0` is no error code. -/
theorem not_isErrorCode (small : regs.x regIdxA0 % word32 < maxFileNumber) :
    ¬ IsErrorCode (regs.x regIdxA0) := by
  rintro (same | same)
  · rw [same] at small
    exact absurd small (by decide)
  · rw [same] at small
    exact absurd small (by decide)

/-- A pointer call is safe when the pointer is the function of the file. -/
theorem call_safe_iff (inside : entry < syscallTableLength) :
    Safe link table
        ⟨entry, some fd, some (method, table.get fd method.field),
          .served table⟩ ↔
      fd < maxFileNumber ∧ IsSet link table fd method := by
  constructor
  · intro safe
    refine ⟨safe.touched fd rfl, ?_⟩
    obtain ⟨touched, same, symbol, known, pointer⟩ := safe.called _ _ rfl
    cases same
    exact ⟨symbol, known, pointer⟩
  · rintro ⟨small, symbol, known, pointer⟩
    refine ⟨inside, ?_, ?_, trivial⟩
    · rintro touched ⟨⟩
      exact small
    · rintro called value ⟨⟩
      exact ⟨fd, rfl, symbol, known, pointer⟩

/-- A refusal is safe when it reports an error and changes nothing. -/
theorem refusal_safe_iff (inside : entry < syscallTableLength)
    {files : FilesStruct} :
    Safe link table ⟨entry, some fd, none, .refused regs files⟩ ↔
      fd < maxFileNumber ∧ IsErrorCode (regs.x regIdxA0) ∧ files = table := by
  constructor
  · exact fun safe => ⟨safe.touched fd rfl, safe.answered⟩
  · rintro ⟨small, reported⟩
    refine ⟨inside, ?_, ?_, reported⟩
    · rintro touched ⟨⟩
      exact small
    · rintro called value ⟨⟩

theorem transfer_safe_iff (inside : entry < syscallTableLength)
    (permission : Nat) :
    Safe link table
        ((sysTransfer permission method.field (some table) regs).dispatch table
          entry (regs.x regIdxA0) method) ↔
      ProperTransfer (IsSet link table) table regs permission method := by
  have reported : IsErrorCode errorFileNotOpen := .inl rfl
  rw [sysTransfer, ProperTransfer]
  by_cases closed : table.get (regs.x regIdxA0) .opened = 0
  · rw [if_pos closed, FileCall.dispatch, refusal_safe_iff inside]
    simp [reported, closed]
  · rw [if_neg closed]
    by_cases forbidden :
        table.get (regs.x regIdxA0) .perms &&& permission = 0
    · rw [if_pos forbidden, FileCall.dispatch, refusal_safe_iff inside]
      simp [reported, forbidden]
    · rw [if_neg forbidden, FileCall.dispatch, call_safe_iff inside]
      simp [closed, forbidden]

theorem seek_safe_iff (inside : entry < syscallTableLength) :
    Safe link table
        ((sysSeek (some table) regs).dispatch table entry
          (regs.x regIdxA0 % word32) .lseek) ↔
      regs.x regIdxA0 % word32 < maxFileNumber ∧
        table.get (regs.x regIdxA0 % word32) .opened ≠ 0 ∧
        IsSet link table (regs.x regIdxA0 % word32) .lseek := by
  rw [sysSeek]
  by_cases closed : table.get (regs.x regIdxA0 % word32) .opened = 0
  · rw [if_pos closed, FileCall.dispatch, refusal_safe_iff inside]
    constructor
    · rintro ⟨small, reported, -⟩
      exact absurd reported (not_isErrorCode small)
    · rintro ⟨-, isOpen, -⟩
      exact absurd closed isOpen
  · rw [if_neg closed, FileCall.dispatch]
    have call := @call_safe_iff link table entry
      (regs.x regIdxA0 % word32) .lseek inside
    simp only [Method.field] at call
    rw [call]
    simp [closed]

theorem close_safe_iff (inside : entry < syscallTableLength)
    {files : FilesStruct} :
    Safe link table
        ⟨entry, some (regs.x regIdxA0 % word32), none,
          if table.get (regs.x regIdxA0 % word32) .opened = 0 then
            .refused regs files
          else .served files⟩ ↔
      regs.x regIdxA0 % word32 < maxFileNumber ∧
        table.get (regs.x regIdxA0 % word32) .opened ≠ 0 := by
  by_cases closed : table.get (regs.x regIdxA0 % word32) .opened = 0
  · rw [if_pos closed, refusal_safe_iff inside]
    constructor
    · rintro ⟨small, reported, -⟩
      exact absurd reported (not_isErrorCode small)
    · rintro ⟨-, isOpen⟩
      exact absurd closed isOpen
  · rw [if_neg closed]
    constructor
    · exact fun safe => ⟨safe.touched _ rfl, closed⟩
    · rintro ⟨small, -⟩
      refine ⟨inside, ?_, ?_, trivial⟩
      · rintro touched ⟨⟩
        exact small
      · rintro called value ⟨⟩

/-- `sys_openat` succeeds, or reports an error and has not opened a descriptor. -/
theorem openat_safe_iff (env : Surroundings)
    (inside : entry < syscallTableLength) {result : Openat}
    (ran : sysOpenat env.volume env.link env.fuel (some table) env.driver regs
      env.pathname = some result) :
    Safe link table
        ⟨entry, none, none,
          if result.regs.x regIdxA0 = openError then
            .refused result.regs result.files
          else .served result.files⟩ ↔
      (emptyDescriptor table = none ∨
        getFsType env.pathname = fsTypeFat32 ∧
          ∃ file, lookup env.volume env.fuel env.driver env.pathname =
            some file ∧ file.cluster ≠ 0) := by
  have refused : toRegister (-1) = openError := by decide
  have success : toRegister 0 ≠ openError := by decide
  rw [sysOpenat] at ran
  cases found : emptyDescriptor table with
  | none =>
      rw [found] at ran
      cases ran
      rw [if_pos ((PtRegs.setA0_a0 _ _).trans refused)]
      refine iff_of_true ⟨inside, by simp, by simp, ?_, rfl⟩ (.inl rfl)
      exact .inr ((PtRegs.setA0_a0 _ _).trans refused)
  | some fd =>
      rw [found] at ran
      obtain ⟨opening, opened, rfl⟩ := Option.map_eq_some_iff.1 ran
      have closed := List.find?_some found
      rw [decide_eq_true_eq] at closed
      simp only [reduceCtorEq, false_or]
      rcases fileOpen_returned opened with zero | failure
      · obtain ⟨isFat32, nonzero⟩ := fileOpen_fat32 opened zero
        have isFile := (fileOpen_success opened zero).2
        have carried : (regs.setA0 (toRegister opening.returned)).x regIdxA0 ≠
            openError := by
          rw [PtRegs.setA0_a0, zero]
          exact success
        rw [if_neg carried]
        exact iff_of_true ⟨inside, by simp, by simp, trivial⟩
          ⟨isFat32, _, isFile, nonzero⟩
      · have reported : (regs.setA0 (toRegister opening.returned)).x regIdxA0 =
            openError := by
          rw [PtRegs.setA0_a0, failure]
          exact refused
        rw [if_pos reported]
        refine iff_of_false (fun safe => ?_) ?_
        · -- The slot was closed before and is open now.
          have same := safe.answered.2
          have isOpen := fileOpen_opened opened
          rw [same, closed] at isOpen
          cases isOpen
        · rintro ⟨isFat32, file, isFile, nonzero⟩
          obtain ⟨⟨entry, driver, path⟩, isEntry, rfl⟩ :=
            Option.map_eq_some_iff.1 isFile
          obtain ⟨other, sameOpening, zero⟩ := fileOpen_found env.link table fd
            (regs.x regIdxA2 % word32) isFat32 isEntry nonzero
          rw [opened] at sameOpening
          cases sameOpening
          rw [zero] at failure
          cases failure

end Handlers

/-! ## Any table -/

/-- For every table, register content and path: a call is safe exactly when it is proper. -/
theorem safe_iff_proper {env : Surroundings} {table : FilesStruct}
    {regs : PtRegs} {call : Dispatch}
    (ran : syscallHandler env table regs = some call) :
    Safe env.link table call ↔
      Proper (IsSet env.link table) env table regs := by
  rw [syscallHandler] at ran
  by_cases behind : syscallTableLength ≤ regs.x regIdxA7
  · rw [if_pos behind] at ran
    cases ran
    have unlisted : syscallTable (regs.x regIdxA7) = none := by
      by_contra listed
      obtain ⟨handler, isHandler⟩ := Option.ne_none_iff_exists'.1 listed
      exact absurd (syscallTable_inside isHandler) (Nat.not_lt.2 behind)
    rw [Proper, unlisted]
    simp only [iff_false]
    exact fun safe => absurd safe.entry (Nat.not_lt.2 behind)
  · rw [if_neg behind] at ran
    have inside := Nat.not_le.1 behind
    rw [Proper]
    cases listed : syscallTable (regs.x regIdxA7) with
    | none =>
        rw [listed] at ran
        cases ran
        simp only [iff_false]
        exact fun safe => safe.answered
    | some handler =>
        rw [listed] at ran
        cases handler with
        | openat =>
            obtain ⟨result, opened, rfl⟩ := Option.map_eq_some_iff.1 ran
            exact openat_safe_iff env inside opened
        | close =>
            obtain ⟨files, -, rfl⟩ := Option.map_eq_some_iff.1 ran
            exact close_safe_iff inside
        | seek =>
            cases ran
            exact seek_safe_iff inside
        | read =>
            cases ran
            exact transfer_safe_iff inside fileReadable
        | write =>
            cases ran
            exact transfer_safe_iff inside fileWritable
        | getpid =>
            cases ran
            simp only [iff_true]
            exact ⟨inside, by simp, by simp, trivial⟩
        | clone =>
            cases ran
            simp only [iff_true]
            exact ⟨inside, by simp, by simp, trivial⟩

/-! ## Reachable tables -/

/--
What the calls of the tasks that share a table do to it.  The functions of
`fat32.c` move the offset of their file and nothing else of it.
-/
inductive TableStep (volume : Fat32Volume) (link : Linkage) :
    FilesStruct → FilesStruct → Prop where
  | openat {table : FilesStruct} {fuel : Nat} {driver : Driver}
      {regs : PtRegs} {pathname : CString} {result : Openat}
      (fits : pathname.bytes.length < 80)
      (ran : sysOpenat volume link fuel (some table) driver regs pathname =
        some result) :
      TableStep volume link table result.files
  | close {table files : FilesStruct} {regs : PtRegs}
      (ran : sysClose (some table) regs = some files) :
      TableStep volume link table files
  | moved {table : FilesStruct} (fd cfo : Nat) :
      TableStep volume link table (table.set fd .cfo cfo)

/-- A table that calls with short paths make out of the one of a new task. -/
def Reachable (volume : Fat32Volume) (link : Linkage)
    (table : FilesStruct) : Prop :=
  ∃ page, Relation.ReflTransGen (TableStep volume link) (fileInit link page)
    table

/-- Every pointer that a file should have is set. -/
def PointersSet (link : Linkage) (table : FilesStruct) : Prop :=
  ∀ fd < maxFileNumber, ∀ method, HasFunction table fd method →
    IsSet link table fd method

section Tables

variable {volume : Fat32Volume} {link : Linkage} {table next : FilesStruct}

/-- Pointers and file types decide whether the pointers are set. -/
theorem PointersSet.congr (set : PointersSet link table)
    (types : ∀ fd < maxFileNumber,
      next.get fd .fsType = table.get fd .fsType)
    (pointers : ∀ fd < maxFileNumber, ∀ method : Method,
      next.get fd method.field = table.get fd method.field) :
    PointersSet link next := by
  intro fd small method has
  rw [HasFunction, types fd small] at has
  obtain ⟨symbol, known, pointer⟩ := set fd small method has
  exact ⟨symbol, by rw [types fd small, known],
    by rw [pointers fd small, pointer]⟩

/-- A store into another field of one file keeps the pointers. -/
theorem PointersSet.store (set : PointersSet link table) {field : Field}
    (fd value : Nat) (inside : field.offset + field.width ≤ 16) :
    PointersSet link (table.set fd field value) := by
  have kept : ∀ other (kept : Field), 16 ≤ kept.offset →
      kept.offset + kept.width ≤ Field.path →
      (table.set fd field value).get other kept = table.get other kept := by
    intro other kept above below
    by_cases same : fd = other
    · subst same
      exact FilesStruct.get_set_of_apart (Or.inr (by omega))
    · refine FilesStruct.get_set_of_ne same ?_ ?_ <;>
        simp only [fileSizeOf, Field.path] at * <;> omega
  refine set.congr (fun other _ => kept other .fsType (by decide) (by decide))
    fun other _ method => ?_
  cases method <;> exact kept other _ (by decide) (by decide)

theorem fileInit_pointersSet (page : Bytes) :
    PointersSet link (fileInit link page) := by
  intro fd small method has
  have untyped := fileInit_fsType link page small
  rw [HasFunction, untyped] at has
  rw [IsSet, untyped]
  -- The three pointers that `file_init` stores.
  have stdin : (fileInit link page).get 0 .read = link.address .stdinRead := by
    rw [fileInit, standard_get_of_ne (by decide) (by decide) (by decide),
      standard_get_of_ne (by decide) (by decide) (by decide)]
    exact standard_read (link.word _)
  have stdout : (fileInit link page).get 1 .write =
      link.address .stdoutWrite := by
    rw [fileInit, standard_get_of_ne (by decide) (by decide) (by decide)]
    exact standard_write (link.word _)
  have stderr : (fileInit link page).get 2 .write =
      link.address .stderrWrite := by
    rw [fileInit]
    exact standard_write (link.word _)
  rw [fileFunction, if_neg (by decide)] at has ⊢
  obtain rfl | rfl | rfl | ⟨later, rfl⟩ :
      fd = 0 ∨ fd = 1 ∨ fd = 2 ∨ ∃ later, fd = later + 3 := by
    by_cases standard : fd < 3
    · omega
    · exact .inr (.inr (.inr ⟨fd - 3, by omega⟩))
  · cases method with
    | read => exact ⟨_, rfl, stdin⟩
    | lseek => cases has
    | write => cases has
  · cases method with
    | write => exact ⟨_, rfl, stdout⟩
    | lseek => cases has
    | read => cases has
  · cases method with
    | write => exact ⟨_, rfl, stderr⟩
    | lseek => cases has
    | read => cases has
  · cases method <;> cases has

theorem PointersSet.openat (set : PointersSet link table) {fuel : Nat}
    {driver : Driver} {regs : PtRegs} {pathname : CString} {result : Openat}
    (fits : pathname.bytes.length < 80)
    (ran : sysOpenat volume link fuel (some table) driver regs pathname =
      some result) :
    PointersSet link result.files := by
  rw [sysOpenat] at ran
  cases found : emptyDescriptor table with
  | none =>
      rw [found] at ran
      cases ran
      exact set
  | some opened =>
      rw [found] at ran
      obtain ⟨opening, opens, rfl⟩ := Option.map_eq_some_iff.1 ran
      have atLeast : 3 ≤ opened :=
        (List.mem_range'_1.1 (List.mem_of_find?_eq_some found)).1
      obtain ⟨fsType, pointers⟩ := fileOpen_pointers opens
      intro fd small method has
      by_cases same : opened = fd
      · subst same
        rw [HasFunction, fsType] at has
        rw [IsSet, fsType]
        by_cases isFat32 : getFsType pathname = fsTypeFat32
        · obtain ⟨lseek, write, read⟩ := pointers isFat32
          refine ⟨fat32Function method, if_pos isFat32, ?_⟩
          cases method with
          | lseek => exact lseek
          | write => exact write
          | read => exact read
        · -- No function belongs to another type from descriptor `3` on.
          obtain ⟨later, rfl⟩ : ∃ later, opened = later + 3 :=
            ⟨opened - 3, by omega⟩
          rw [fileFunction, if_neg isFat32] at has
          cases method <;> cases has
      · have kept : ∀ field : Field, field.offset + field.width ≤ fileSizeOf →
            opening.table.get fd field = table.get fd field :=
          fun field inside => fileOpen_other opens same fits inside
        rw [HasFunction, kept _ (by decide)] at has
        obtain ⟨symbol, known, pointer⟩ := set fd small method has
        refine ⟨symbol, ?_, ?_⟩
        · rw [kept _ (by decide), known]
        · rw [← pointer]
          cases method <;> exact kept _ (by decide)

/-- Every step keeps the pointers that files should have. -/
theorem PointersSet.step (set : PointersSet link table)
    (taken : TableStep volume link table next) : PointersSet link next := by
  cases taken with
  | openat fits ran => exact set.openat fits ran
  | close ran =>
      simp only [sysClose, Option.map_some, Option.some.injEq] at ran
      split at ran
      · exact ran ▸ set
      · exact ran ▸ set.store _ _ (by decide)
  | moved fd cfo => exact set.store fd cfo (by decide)

/-- On a reachable table the type of a file tells whether its pointer is set. -/
theorem Reachable.isSet_iff (reachable : Reachable volume link table)
    {fd : Nat} (small : fd < maxFileNumber) {method : Method} :
    IsSet link table fd method ↔ HasFunction table fd method := by
  obtain ⟨page, run⟩ := reachable
  have set : PointersSet link table := by
    induction run with
    | refl => exact fileInit_pointersSet page
    | tail _ taken induction => exact induction.step taken
  constructor
  · rintro ⟨symbol, known, -⟩
    exact Option.isSome_iff_exists.2 ⟨symbol, known⟩
  · exact set fd small method

end Tables

/-- The condition depends on the pointers of the sixteen files only. -/
theorem Proper.congr {first second : Nat → Method → Prop}
    {env : Surroundings} {table : FilesStruct} {regs : PtRegs}
    (same : ∀ fd < maxFileNumber, ∀ method,
      first fd method ↔ second fd method) :
    Proper first env table regs ↔ Proper second env table regs := by
  have transfer : ∀ permission method,
      ProperTransfer first table regs permission method ↔
        ProperTransfer second table regs permission method := by
    intro permission method
    refine and_congr_right fun small => ?_
    rw [same _ small]
  rw [Proper, Proper]
  cases syscallTable (regs.x regIdxA7) with
  | none => exact Iff.rfl
  | some handler =>
      cases handler with
      | read => exact transfer fileReadable .read
      | write => exact transfer fileWritable .write
      | seek =>
          refine and_congr_right fun small => ?_
          rw [same _ small]
      | openat => exact Iff.rfl
      | close => exact Iff.rfl
      | getpid => exact Iff.rfl
      | clone => exact Iff.rfl

/--
A system call stays inside its arrays, calls only the function of its file and
refuses everything else with an error exactly when the request is proper.  On
reachable tables the pointer it calls may be judged by the type of the file.
-/
theorem syscall_safe_iff {env : Surroundings} {table : FilesStruct}
    {regs : PtRegs} {call : Dispatch}
    (ran : syscallHandler env table regs = some call) :
    (Safe env.link table call ↔
      Proper (IsSet env.link table) env table regs) ∧
    (Reachable env.volume env.link table →
      (Safe env.link table call ↔
        Proper (HasFunction table) env table regs)) := by
  refine ⟨safe_iff_proper ran, fun reachable => ?_⟩
  rw [safe_iff_proper ran]
  exact Proper.congr fun fd small method => reachable.isSet_iff small

/-! ## Calls of a new task -/

namespace NewTask

def env : Surroundings where
  volume := SmallVolume.volume
  link := link
  fuel := 1
  driver := SmallVolume.world.driver
  pathname := pathname

theorem reachable : Reachable env.volume env.link table :=
  ⟨fun _ => 0, .refl⟩

/-- The registers of `read(0, buf, 1)`. -/
def readStdin : PtRegs where
  x index := if index = regIdxA7 then 63 else if index = regIdxA2 then 1 else 0

/-- The registers of `lseek(0, 0, SEEK_SET)`. -/
def seekStdin : PtRegs where
  x index := if index = regIdxA7 then 62 else 0

end NewTask

/-- Reading from the standard input is safe. -/
theorem syscall_safe_iff_read_stdin : ∃ call,
    syscallHandler NewTask.env NewTask.table NewTask.readStdin = some call ∧
      Safe NewTask.env.link NewTask.table call := by
  have ran : syscallHandler NewTask.env NewTask.table NewTask.readStdin =
      some ((sysRead (some NewTask.table) NewTask.readStdin).dispatch
        NewTask.table 63 0 .read) := rfl
  refine ⟨_, ran, ((syscall_safe_iff ran).2 NewTask.reachable).2 ?_⟩
  refine ⟨by decide, fun _ _ => ?_⟩
  have untyped : NewTask.table.get 0 .fsType = 0 :=
    fileInit_fsType NewTask.link _ (by decide)
  show (fileFunction 0 (NewTask.table.get 0 .fsType) .read).isSome
  rw [untyped]
  decide

/-- `lseek` on the standard input calls the pointer that `file_init` leaves `NULL`. -/
theorem seek_stdin_calls_null : ∃ call,
    syscallHandler NewTask.env NewTask.table NewTask.seekStdin = some call ∧
      call.called = some (.lseek, 0) ∧
      ¬ Safe NewTask.env.link NewTask.table call := by
  have ran : syscallHandler NewTask.env NewTask.table NewTask.seekStdin =
      some ((sysSeek (some NewTask.table) NewTask.seekStdin).dispatch
        NewTask.table 62 0 .lseek) := rfl
  have isOpen : NewTask.table.get 0 .opened ≠ 0 := by decide +kernel
  have null : NewTask.table.get 0 .lseek = 0 := by decide +kernel
  have calls : (sysSeek (some NewTask.table) NewTask.seekStdin).dispatch
      NewTask.table 62 0 .lseek =
        ⟨62, some 0, some (.lseek, 0), .served NewTask.table⟩ := by
    have target : NewTask.seekStdin.x regIdxA0 % word32 = 0 := rfl
    rw [sysSeek]
    simp only [target, isOpen, if_false, FileCall.dispatch, null]
  rw [calls] at ran
  refine ⟨_, ran, rfl, fun safe => ?_⟩
  obtain ⟨fd, touched, symbol, -, pointer⟩ := safe.called _ _ rfl
  exact absurd pointer.symm (NewTask.link.positive symbol).ne'

end TinyRiscvOs.Kernel
