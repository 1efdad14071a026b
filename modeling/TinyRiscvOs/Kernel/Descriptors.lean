import TinyRiscvOs.Fs.SeparateFiles
import TinyRiscvOs.Kernel.Refusals
import TinyRiscvOs.Kernel.SharedTable

/-!
# Descriptors are handles on byte arrays

From the registers of the caller down to the sectors of the disk: `sys_read`,
`sys_write` and `sys_seek` on the descriptors of a task, in any order, answer
as a family of byte arrays with one offset for each descriptor does.  The
offset is the field `cfo` in the bytes of the table, and a descriptor without
the permission refuses and changes nothing.
-/

namespace TinyRiscvOs.Kernel

open TinyRiscvOs.Lib
open TinyRiscvOs.Fs

/-! ## The calls -/

/-- The table of the task and the driver. -/
structure FileState where
  table : FilesStruct
  driver : Driver

/-- A call on one of these descriptors, with the buffer of the caller. -/
inductive IoCall (fds : List Nat) where
  | read (regs : PtRegs) (buffer : Bytes) (onto : regs.x regIdxA0 ∈ fds)
  | write (regs : PtRegs) (buffer : Bytes) (onto : regs.x regIdxA0 ∈ fds)
  | seek (regs : PtRegs) (onto : regs.x regIdxA0 ∈ fds)

/-- `a0` afterwards, and after a read the buffer of the caller. -/
inductive IoReply where
  | read (a0 : Nat) (buffer : Bytes)
  | write (a0 : Nat)
  | seek (a0 : Nat)

namespace FileState

/-- A function of the driver has returned to the handler. -/
def returned (s : FileState) (fd : Nat) (cfo : Int) (driver : Driver) :
    FileState where
  table := s.table.set fd .cfo (toRegister cfo)
  driver := driver

/-- The handler of the call; `none` when it does not reach `fat32.c` or does not return. -/
def exec {fds : List Nat} (volume : Fat32Volume) (link : Linkage) (fuel : Nat)
    (s : FileState) : IoCall fds → Option (IoReply × FileState)
  | .read regs buffer _ =>
      match sysRead (some s.table) regs with
      | .stuck => none
      | .refused left => some (.read (left.x regIdxA0) buffer, s)
      | .call function fd _ count =>
          if function = link.address .fat32Read then
            (fat32Read volume fuel s.driver (s.table.file fd) buffer count).map
              fun result =>
                (.read result.returned result.memory.user,
                  s.returned fd result.file.cfo result.memory.driver)
          else none
  | .write regs buffer _ =>
      match sysWrite (some s.table) regs with
      | .stuck => none
      | .refused left => some (.write (left.x regIdxA0), s)
      | .call function fd _ count =>
          if function = link.address .fat32Write then
            (fat32Write volume fuel s.driver (s.table.file fd) buffer
              count).map fun result =>
                (.write result.returned,
                  s.returned fd result.file.cfo result.memory.driver)
          else none
  | .seek regs _ =>
      match sysSeek (some s.table) regs with
      | .stuck => none
      | .refused left => some (.seek (left.x regIdxA0), s)
      | .call function fd offset whence =>
          if function = link.address .fat32Lseek then
            (fat32Lseek volume s.driver (s.table.file fd) (toInt64 offset)
              whence).map fun result =>
                (.seek (toRegister result.1),
                  s.returned fd result.2.2.cfo result.2.1)
          else none

end FileState

/-! ## What they are for -/

section Specification

variable {Name : Type} [DecidableEq Name] {fds : List Nat}

/-- The operation that the registers ask for. -/
def IoCall.op : IoCall fds → FileOp {fd // fd ∈ fds}
  | .read regs buffer onto => .read ⟨_, onto⟩ buffer (regs.x regIdxA2)
  | .write regs buffer onto => .write ⟨_, onto⟩ buffer (regs.x regIdxA2)
  | .seek regs onto =>
      .seek ⟨_, onto⟩ (toInt64 (regs.x regIdxA1)) (regs.x regIdxA2 % word32)

/-- The answer of a descriptor that lacks the permission. -/
def IoCall.refusal (perms : {fd // fd ∈ fds} → Nat) :
    IoCall fds → Option IoReply
  | .read _ buffer onto =>
      if perms ⟨_, onto⟩ &&& fileReadable = 0 then
        some (.read errorFileNotOpen buffer)
      else none
  | .write _ _ onto =>
      if perms ⟨_, onto⟩ &&& fileWritable = 0 then
        some (.write errorFileNotOpen)
      else none
  | .seek _ _ => none

/-- The answer of a file in the registers. -/
def IoReply.of : FileReply → IoReply
  | .read count buffer => .read count buffer
  | .write count => .write count
  | .seek offset => .seek (toRegister offset)

/-- A call on the byte files. -/
def ioSpec (denotes : {fd // fd ∈ fds} → Name) (perms : {fd // fd ∈ fds} → Nat)
    (files : ByteFiles Name {fd // fd ∈ fds}) (call : IoCall fds) :
    Option (IoReply × ByteFiles Name {fd // fd ∈ fds}) :=
  match call.refusal perms with
  | some reply => some (reply, files)
  | none =>
      (files.exec denotes call.op).map fun result =>
        (IoReply.of result.1, result.2)

/-- The sum of a seek fits. -/
def IoInRange (denotes : {fd // fd ∈ fds} → Name)
    (files : ByteFiles Name {fd // fd ∈ fds}) (call : IoCall fds) : Prop :=
  files.InRange denotes call.op

end Specification

/-! ## The table as a family of handles -/

section Table

variable {Name : Type} {fds : List Nat}

/-- The `struct file` values of the descriptors. -/
def FileState.world (fds : List Nat) (s : FileState) :
    OpenFiles {fd // fd ∈ fds} where
  driver := s.driver
  files := fun fd => s.table.file fd

/-- The descriptors are open on files of the volume. -/
structure Serves (volume : Fat32Volume) (link : Linkage)
    (files : Name → StoredFile) (denotes : {fd // fd ∈ fds} → Name)
    (perms : {fd // fd ∈ fds} → Nat) (s : FileState) : Prop where
  opened : ∀ fd ∈ fds, s.table.get fd .opened ≠ 0
  permitted : ∀ fd : {fd // fd ∈ fds}, s.table.get fd .perms = perms fd
  functions : ∀ fd ∈ fds, ∀ method : Method,
    s.table.get fd method.field = link.address (fat32Function method)
  holds : (s.world fds).HoldsAll volume files denotes

/-- An offset stored into the table is read back. -/
theorem returned_cfo (s : FileState) (fd : Nat) {cfo : Int} (lower : 0 ≤ cfo)
    (upper : cfo < int64End) (driver : Driver) :
    ((s.returned fd cfo driver).table.file fd).cfo = cfo := by
  obtain ⟨value, rfl⟩ := Int.eq_ofNat_of_zero_le lower
  simp only [int64End] at upper
  have small : value < 256 ^ Field.cfo.width := by
    simp only [Field.cfo]
    omega
  have stored : (s.returned fd value driver).table.get fd .cfo = value := by
    rw [FileState.returned, FilesStruct.get_set,
      toRegister_natCast (by simp only [word64]; omega), Nat.mod_eq_of_lt small]
  rw [FilesStruct.file]
  dsimp only
  rw [stored]
  exact toInt64_of_fits (by simp only [int64End]; omega)
    (by simp only [int64End]; omega)

/-- The other fields stay. -/
theorem returned_get (s : FileState) (fd other : Nat) (cfo : Int)
    (driver : Driver) {field : Field}
    (apart : field.offset + field.width ≤ 8 ∨
      16 ≤ field.offset ∧ field.offset + field.width ≤ fileSizeOf) :
    (s.returned fd cfo driver).table.get other field =
      s.table.get other field :=
  (setCfo_sameButCfo s.table fd _).get other apart

/-- The offsets of other descriptors stay. -/
theorem returned_cfo_of_ne (s : FileState) {fd other : Nat} (cfo : Int)
    (driver : Driver) (different : fd ≠ other) :
    ((s.returned fd cfo driver).table.file other).cfo =
      (s.table.file other).cfo := by
  rw [FilesStruct.file, FilesStruct.file]
  dsimp only
  rw [FileState.returned, FilesStruct.get_set_of_ne different (by decide)
    (by decide)]

theorem returned_fat32File (s : FileState) (fd other : Nat) (cfo : Int)
    (driver : Driver) :
    ((s.returned fd cfo driver).table.file other).fat32File =
      (s.table.file other).fat32File := by
  rw [FilesStruct.file, FilesStruct.file]
  dsimp only
  rw [returned_get s fd other cfo driver (by decide),
    returned_get s fd other cfo driver (by decide),
    returned_get s fd other cfo driver (by decide)]

end Table

/-! ## One call -/

section Step

variable {Name : Type} [DecidableEq Name] {fds : List Nat}
    {volume : Fat32Volume} {link : Linkage} {files : Name → StoredFile}
    {denotes : {fd // fd ∈ fds} → Name} {perms : {fd // fd ∈ fds} → Nat}
    {fuel : Nat} {s : FileState}

omit [DecidableEq Name] in
/-- An open descriptor with the permission gets to the function of its file. -/
theorem Serves.transfer (serves : Serves volume link files denotes perms s)
    {permission : Nat} (method : Method) {regs : PtRegs}
    (onto : regs.x regIdxA0 ∈ fds)
    (allowed : perms ⟨_, onto⟩ &&& permission ≠ 0) :
    sysTransfer permission method.field (some s.table) regs =
      .call (link.address (fat32Function method)) (regs.x regIdxA0)
        (regs.x regIdxA1) (regs.x regIdxA2) := by
  have permitted := serves.permitted ⟨_, onto⟩
  rw [sysTransfer]
  dsimp only at permitted ⊢
  rw [if_neg (serves.opened _ onto), permitted, if_neg allowed,
    serves.functions _ onto]

omit [DecidableEq Name] in
/-- One without it refuses. -/
theorem Serves.transfer_refused
    (serves : Serves volume link files denotes perms s) {permission : Nat}
    (field : Field) {regs : PtRegs} (onto : regs.x regIdxA0 ∈ fds)
    (denied : perms ⟨_, onto⟩ &&& permission = 0) :
    sysTransfer permission field (some s.table) regs =
      .refused (regs.setA0 errorFileNotOpen) := by
  have permitted := serves.permitted ⟨_, onto⟩
  rw [sysTransfer]
  dsimp only at permitted ⊢
  rw [if_neg (serves.opened _ onto), permitted, if_pos denied]

omit [DecidableEq Name] in
theorem Serves.seek (serves : Serves volume link files denotes perms s)
    (inTable : ∀ fd ∈ fds, fd < maxFileNumber) {regs : PtRegs}
    (onto : regs.x regIdxA0 ∈ fds) :
    sysSeek (some s.table) regs =
      .call (link.address .fat32Lseek) (regs.x regIdxA0) (regs.x regIdxA1)
        (regs.x regIdxA2 % word32) := by
  have small : regs.x regIdxA0 % word32 = regs.x regIdxA0 :=
    Nat.mod_eq_of_lt ((inTable _ onto).trans (by decide))
  have pointer : s.table.get (regs.x regIdxA0) .lseek =
      link.address .fat32Lseek := serves.functions _ onto .lseek
  simp only [sysSeek, small, serves.opened _ onto, if_false, pointer]

omit [DecidableEq Name] in
theorem Serves.exec_refused (serves : Serves volume link files denotes perms s)
    {call : IoCall fds} {reply : IoReply}
    (refused : call.refusal perms = some reply) :
    s.exec volume link fuel call = some (reply, s) := by
  cases call with
  | read regs buffer onto =>
      simp only [IoCall.refusal] at refused
      split at refused
      · rename_i denied
        cases refused
        have refuses : sysRead (some s.table) regs =
            .refused (regs.setA0 errorFileNotOpen) :=
          serves.transfer_refused _ onto denied
        rw [FileState.exec, refuses]
        dsimp only
        rw [PtRegs.setA0_a0]
      · cases refused
  | write regs buffer onto =>
      simp only [IoCall.refusal] at refused
      split at refused
      · rename_i denied
        cases refused
        have refuses : sysWrite (some s.table) regs =
            .refused (regs.setA0 errorFileNotOpen) :=
          serves.transfer_refused _ onto denied
        rw [FileState.exec, refuses]
        dsimp only
        rw [PtRegs.setA0_a0]
      · cases refused
  | seek regs onto => cases refused

omit [DecidableEq Name] in
/-- A call that is not refused is one of the driver, with the offset stored in the table. -/
theorem Serves.exec_eq (serves : Serves volume link files denotes perms s)
    (inTable : ∀ fd ∈ fds, fd < maxFileNumber) {call : IoCall fds}
    (granted : call.refusal perms = none) :
    s.exec volume link fuel call =
      ((s.world fds).exec volume fuel call.op).map fun result =>
        (IoReply.of result.1,
          s.returned call.op.handle (result.2.files call.op.handle).cfo
            result.2.driver) := by
  cases call with
  | read regs buffer onto =>
      simp only [IoCall.refusal] at granted
      split at granted
      · cases granted
      · rename_i allowed
        have gets : sysRead (some s.table) regs =
            .call (link.address .fat32Read) (regs.x regIdxA0) (regs.x regIdxA1)
              (regs.x regIdxA2) :=
          serves.transfer .read onto allowed
        rw [FileState.exec, gets]
        dsimp only
        rw [if_pos rfl]
        simp [IoCall.op, FileOp.handle, OpenFiles.exec, OpenFiles.after,
          IoReply.of, FileState.world, Option.map_map, Function.comp_def]
  | write regs buffer onto =>
      simp only [IoCall.refusal] at granted
      split at granted
      · cases granted
      · rename_i allowed
        have gets : sysWrite (some s.table) regs =
            .call (link.address .fat32Write) (regs.x regIdxA0) (regs.x regIdxA1)
              (regs.x regIdxA2) :=
          serves.transfer .write onto allowed
        rw [FileState.exec, gets]
        dsimp only
        rw [if_pos rfl]
        simp [IoCall.op, FileOp.handle, OpenFiles.exec, OpenFiles.after,
          IoReply.of, FileState.world, Option.map_map, Function.comp_def]
  | seek regs onto =>
      rw [FileState.exec, serves.seek inTable onto]
      dsimp only
      rw [if_pos rfl]
      simp [IoCall.op, FileOp.handle, OpenFiles.exec, IoReply.of,
        FileState.world, Option.map_map, Function.comp_def]

/-- The offset that a call leaves is one that the table can keep. -/
theorem offset_lt {op : FileOp {fd // fd ∈ fds}} {reply : FileReply}
    {next : OpenFiles {fd // fd ∈ fds}}
    (answered : ((s.world fds).exec volume fuel op).map
        (fun result => (result.1, result.2.abstractAll volume files)) =
      (ByteFiles.exec denotes ((s.world fds).abstractAll volume files)
        (id op)).map fun result => (id result.1, result.2))
    (ran : (s.world fds).exec volume fuel op = some (reply, next)) :
    (next.files op.handle).cfo < int64End := by
  rw [ran, Option.map_some] at answered
  obtain ⟨result, spec, same⟩ := Option.map_eq_some_iff.1 answered.symm
  obtain ⟨file, ran, rfl⟩ := Option.map_eq_some_iff.1 spec
  have offset : (next.files op.handle).cfo.toNat = file.2.offset () := by
    have shown := congrFun
      (congrArg ByteFiles.offset (Prod.mk.inj same).2) op.handle
    simp only [ByteFiles.store, OpenFiles.abstractAll, id,
      Function.update_self] at shown
    exact shown.symm
  have bound := ByteFile.exec_offset_le ran ()
  have size : directorySize volume s.driver.disk
      (files (denotes op.handle)).index < 256 ^ 4 :=
    Bytes.littleEndian_lt _ _ _
  have before := (toInt64_bounds (s.table.get op.handle .cfo)).2
  simp only [ByteFiles.seen, OpenFiles.abstractAll, FileState.world,
    id] at bound
  have cfo : (s.table.file op.handle).cfo =
      toInt64 (s.table.get op.handle .cfo) := by
    rw [FilesStruct.file]
  simp only [int64End] at before ⊢
  omega

/-- The table after a call that a file has answered. -/
theorem Serves.returned (serves : Serves volume link files denotes perms s)
    (served : OpenFiles.ServedAll volume files fuel)
    {op : FileOp {fd // fd ∈ fds}}
    (inRange : ((s.world fds).abstractAll volume files).InRange denotes op)
    {reply : FileReply} {next : OpenFiles {fd // fd ∈ fds}}
    (ran : (s.world fds).exec volume fuel op = some (reply, next)) :
    Serves volume link files denotes perms
        (s.returned op.handle (next.files op.handle).cfo next.driver) ∧
      (((s.returned op.handle (next.files op.handle).cfo
        next.driver).world fds).abstractAll volume files) =
        next.abstractAll volume files := by
  obtain ⟨answered, keeps⟩ :=
    OpenFiles.exec_refinesAll served serves.holds inRange
  have holds := keeps _ ran
  have lower := holds.offsets op.handle
  have upper : (next.files op.handle).cfo < int64End :=
    offset_lt answered ran
  -- A call changes no other handle than its own.
  have others (fd : {fd // fd ∈ fds}) (different : fd ≠ op.handle) :
      next.files fd = s.table.file fd := by
    rw [OpenFiles.exec_alone] at ran
    obtain ⟨result, _, same⟩ := Option.map_eq_some_iff.1 ran
    obtain ⟨_, rfl⟩ := Prod.mk.inj same
    exact Function.update_of_ne different _ _
  have offsets (fd : {fd // fd ∈ fds}) :
      ((s.returned op.handle (next.files op.handle).cfo
        next.driver).table.file fd).cfo = (next.files fd).cfo := by
    by_cases same : fd = op.handle
    · rw [same]
      exact returned_cfo s _ lower upper _
    · have apart : op.handle.1 ≠ fd.1 := fun equal =>
        same (Subtype.ext equal.symm)
      rw [returned_cfo_of_ne s _ _ apart, others fd same]
  refine ⟨⟨fun fd member => ?_, fun fd => ?_, fun fd member method => ?_,
    ⟨fun fd => ?_, fun fd => ?_, holds.onDisk⟩⟩, ?_⟩
  · rw [returned_get s _ _ _ _ (by decide)]
    exact serves.opened fd member
  · rw [returned_get s _ _ _ _ (by decide)]
    exact serves.permitted fd
  · rw [returned_get s _ _ _ _ (by cases method <;> decide)]
    exact serves.functions fd member method
  · exact (returned_fat32File s _ _ _ _).trans (serves.holds.handles fd)
  · exact (offsets fd).symm ▸ holds.offsets fd
  · have sameDriver : ((s.returned op.handle (next.files op.handle).cfo
        next.driver).world fds).driver = next.driver := rfl
    have sameOffsets : (fun fd => (((s.returned op.handle
        (next.files op.handle).cfo next.driver).world fds).files
          fd).cfo.toNat) = fun fd => (next.files fd).cfo.toNat :=
      funext fun fd => congrArg Int.toNat (offsets fd)
    rw [OpenFiles.abstractAll, OpenFiles.abstractAll, sameDriver, sameOffsets]

/-- Every call is one on the byte files, or refused. -/
theorem Serves.exec_refines (serves : Serves volume link files denotes perms s)
    (served : OpenFiles.ServedAll volume files fuel)
    (inTable : ∀ fd ∈ fds, fd < maxFileNumber) {call : IoCall fds}
    (inRange : IoInRange denotes ((s.world fds).abstractAll volume files)
      call) :
    Refined (FileState.exec volume link fuel) (ioSpec denotes perms)
      (fun s => (s.world fds).abstractAll volume files) id id
      (Serves volume link files denotes perms) s call := by
  cases refused : call.refusal perms with
  | some reply =>
      have same := @Serves.exec_refused _ _ volume link files denotes perms fuel
        s serves call reply refused
      refine ⟨?_, fun result ran => ?_⟩
      · rw [same, id, ioSpec, refused]
        rfl
      · rw [same] at ran
        obtain rfl := Option.some_inj.1 ran
        exact serves
  | none =>
      have same := @Serves.exec_eq _ _ volume link files denotes perms fuel s
        serves inTable call refused
      obtain ⟨answered, _⟩ :=
        OpenFiles.exec_refinesAll served serves.holds inRange
      cases ran : (s.world fds).exec volume fuel call.op with
      | none =>
          rw [ran, Option.map_none] at same answered
          refine ⟨?_, fun result here => ?_⟩
          · simp only [id, Option.map_id'] at answered
            rw [same, id, ioSpec, refused]
            dsimp only
            rw [← answered]
            rfl
          · rw [same] at here
            cases here
      | some result =>
          obtain ⟨reply, next⟩ := result
          obtain ⟨after, shown⟩ := serves.returned served inRange ran
          rw [ran, Option.map_some] at same answered
          refine ⟨?_, fun result here => ?_⟩
          · simp only [id, Option.map_id'] at answered
            rw [same, id, ioSpec, refused, Option.map_some]
            dsimp only
            rw [← answered, shown]
            rfl
          · rw [same] at here
            obtain rfl := Option.some_inj.1 here
            exact after

end Step

namespace TwoDescriptors

/-- Descriptor `3` is open on `A` for reading, `4` on `B` for reading and writing. -/
def fds : List Nat := [3, 4]

def denotes (fd : {fd // fd ∈ fds}) : Bool :=
  fd.1 = 4

def perms (fd : {fd // fd ∈ fds}) : Nat :=
  if fd.1 = 3 then 1 else 3

/-- A `struct file` as `file_open` leaves it. -/
def openSlot (table : FilesStruct) (fd perms : Nat) (stored : StoredFile) :
    FilesStruct :=
  let table := table.set fd .opened 1
  let table := table.set fd .perms perms
  let table := table.set fd .cluster stored.handle.cluster
  let table := table.set fd .dirCluster stored.handle.dir.cluster
  let table := table.set fd .dirIndex stored.handle.dir.index
  let table := table.set fd .lseek (NewTask.link.address .fat32Lseek)
  let table := table.set fd .write (NewTask.link.address .fat32Write)
  table.set fd .read (NewTask.link.address .fat32Read)

def state : FileState where
  table := openSlot (openSlot (fun _ => 0) 3 1 (TwoFiles.files false)) 4 3
    (TwoFiles.files true)
  driver := TwoFiles.world.driver

theorem serves :
    Serves TwoFiles.volume NewTask.link TwoFiles.files denotes perms state where
  opened := by decide +kernel
  permitted := by
    rintro ⟨fd, member⟩
    rcases List.mem_pair.1 member with rfl | rfl <;>
      decide +kernel +revert
  functions fd member method := by
    revert fd
    cases method <;> decide +kernel
  holds :=
    { handles := by
        rintro ⟨fd, member⟩
        rcases List.mem_pair.1 member with rfl | rfl <;>
          decide +kernel +revert
      offsets := by
        rintro ⟨fd, member⟩
        rcases List.mem_pair.1 member with rfl | rfl <;>
          decide +kernel +revert
      onDisk := TwoFiles.onDisk }

/-- The registers of a call. -/
def regs (fd count : Nat) : PtRegs where
  x index := if index = regIdxA0 then fd else if index = regIdxA2 then count
    else 0

/-- A write that is refused, one that is not, and a read. -/
def calls : List (IoCall fds) :=
  [.write (regs 3 2) SmallVolume.buffer (by decide),
    .write (regs 4 2) SmallVolume.buffer (by decide),
    .read (regs 3 600) SmallVolume.buffer (by decide)]

theorem inRange : AllLegal (ioSpec denotes perms) (IoInRange denotes)
    ((state.world fds).abstractAll TwoFiles.volume TwoFiles.files) calls :=
  ⟨trivial, fun _ _ => ⟨trivial, fun _ _ => ⟨trivial, fun _ _ => trivial⟩⟩⟩

end TwoDescriptors

end TinyRiscvOs.Kernel
