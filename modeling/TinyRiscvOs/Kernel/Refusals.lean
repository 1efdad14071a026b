import TinyRiscvOs.Fs.ChainEnd
import TinyRiscvOs.Fs.Seek
import TinyRiscvOs.Kernel.Console

/-!
# Refusals and results

A handler that refuses leaves `255` or the registers as they came in, and one
that serves a call leaves a count of bytes, a position or again the registers.
The module says for which arguments no state of the descriptor makes a served
call leave the value of a refused one.
-/

namespace TinyRiscvOs.Kernel

open TinyRiscvOs.Lib
open TinyRiscvOs.Fs

/-! ## The values in `a0` -/

/-- The calls that work on an open descriptor. -/
inductive DescriptorCall where
  | read
  | write
  | seek
  | close
deriving DecidableEq, Repr

/-- The registers of a call that was refused. -/
def FileCall.refusal : FileCall → Option PtRegs
  | .refused regs => some regs
  | _ => none

/-- The registers that a handler leaves when it refuses a call. -/
def DescriptorCall.refusal (table : FilesStruct) (regs : PtRegs) :
    DescriptorCall → Option PtRegs
  | .read => (sysRead (some table) regs).refusal
  | .write => (sysWrite (some table) regs).refusal
  | .seek => (sysSeek (some table) regs).refusal
  -- `sys_close` stores nothing into the registers, here and when it serves.
  | .close =>
      if table.get (regs.x regIdxA0 % word32) .opened = 0 then some regs
      else none

/--
The values in `a0` when a handler has served a call: what the function of the
file returned.  A write to the console counts when it returns a number of bytes
up to the one asked for.
-/
inductive DescriptorCall.Leaves (regs : PtRegs) : DescriptorCall → Nat → Prop where
  | stdinRead {table : FilesStruct} {link : Linkage} {fd buf count : Nat}
      (call : sysRead (some table) regs =
        .call (link.address .stdinRead) fd buf count) :
      Leaves regs .read count
  | fat32Read {table : FilesStruct} {link : Linkage} {fd buf count : Nat}
      {volume : Fat32Volume} {fuel : Nat} {driver : Driver} {user : Bytes}
      {result : Transfer}
      (call : sysRead (some table) regs =
        .call (link.address .fat32Read) fd buf count)
      (offset : 0 ≤ (table.file fd).cfo)
      (ran : Fs.fat32Read volume fuel driver (table.file fd) user count =
        some result) :
      Leaves regs .read result.returned
  | fat32Write {table : FilesStruct} {link : Linkage} {fd buf count : Nat}
      {volume : Fat32Volume} {fuel : Nat} {driver : Driver} {user : Bytes}
      {result : Transfer}
      (call : sysWrite (some table) regs =
        .call (link.address .fat32Write) fd buf count)
      (offset : 0 ≤ (table.file fd).cfo)
      (ran : Fs.fat32Write volume fuel driver (table.file fd) user count =
        some result) :
      Leaves regs .write result.returned
  | consoleWrite {table : FilesStruct} {link : Linkage} {fd buf count : Nat}
      {stream : Stream} {args : Nat → Nat} {fuel room : Nat} {mem mem' : Bytes}
      {out out' : List Byte} {value taken : Nat}
      (call : sysWrite (some table) regs =
        .call (link.address stream.symbol) fd buf count)
      (ran : stream.write args fuel room mem out buf count =
        some (.returned value out' mem' taken))
      (counted : value ≤ count) :
      Leaves regs .write value
  | fat32Lseek {table : FilesStruct} {link : Linkage} {fd offset whence : Nat}
      {volume : Fat32Volume} {driver driver' : Driver} {file : File} {cfo : Int}
      (call : sysSeek (some table) regs =
        .call (link.address .fat32Lseek) fd offset whence)
      (start : 0 ≤ (table.file fd).cfo)
      (inside : (table.file fd).cfo ≤
        driver.fileSize volume (table.file fd))
      (ran : Fs.fat32Lseek volume driver (table.file fd) (toInt64 offset)
        whence = some (cfo, driver', file)) :
      Leaves regs .seek (toRegister cfo)
  | close {table files : FilesStruct}
      (opened : table.get (regs.x regIdxA0 % word32) .opened ≠ 0)
      (ran : sysClose (some table) regs = some files) :
      Leaves regs .close (regs.x regIdxA0)

/-- No state of the descriptor makes a served call look like a refused one. -/
def DescriptorCall.Distinguishes (handler : DescriptorCall) (regs : PtRegs) : Prop :=
  ∀ table left, handler.refusal table regs = some left →
    ∀ value, handler.Leaves regs value → value ≠ left.x regIdxA0

/-- A seek with this offset and origin can end at this position. -/
def CanLand (position : Nat) (offset : Int) (whence : Nat) : Prop :=
  (whence = seekSet ∨ whence = seekCur ∨ whence = seekEnd) ∧
    (position = 0 ∨ position < word32 ∧
      (whence = seekSet → position ≤ offset) ∧
      (whence ≠ seekSet → position - offset < word32) ∧
      (whence = seekEnd → position + offset < int64End))

/-- The arguments for which a handler distinguishes refusals from results. -/
def DescriptorCall.Distinct (regs : PtRegs) : DescriptorCall → Prop
  | .read => regs.x regIdxA2 < errorFileNotOpen
  | .write => regs.x regIdxA2 < errorFileNotOpen
  | .seek =>
      ¬ CanLand (regs.x regIdxA0) (toInt64 (regs.x regIdxA1))
        (regs.x regIdxA2 % word32)
  | .close => False

/-! ## Descriptors in a given state -/

/-- A table in which no descriptor is open. -/
def closedTable : FilesStruct := fun _ => 0

/-- A table with an open FAT32 file at a position. -/
def openTable (link : Linkage) (fd cfo : Nat) : FilesStruct :=
  (((((closedTable.set fd .opened 1).set fd .perms 3).set fd .cfo cfo).set fd
    .lseek (link.address .fat32Lseek)).set fd .write
      (link.address .fat32Write)).set fd .read (link.address .fat32Read)

theorem closedTable_get (fd : Nat) (field : Field) :
    closedTable.get fd field = 0 :=
  Bytes.littleEndian_eq_zero fun _ _ _ => rfl

section OpenTable

variable (link : Linkage) (fd : Nat) {cfo : Nat}

theorem openTable_opened : (openTable link fd cfo).get fd .opened = 1 := by
  simp (disch := decide) only [openTable, FilesStruct.get_set_of_apart]
  rw [FilesStruct.get_set]
  rfl

theorem openTable_perms : (openTable link fd cfo).get fd .perms = 3 := by
  simp (disch := decide) only [openTable, FilesStruct.get_set_of_apart]
  rw [FilesStruct.get_set]
  rfl

theorem openTable_method {method : Method} :
    (openTable link fd cfo).get fd method.field =
      link.address (fat32Function method) := by
  have word : ∀ symbol, link.address symbol % 256 ^ 8 = link.address symbol :=
    fun symbol => Nat.mod_eq_of_lt ((link.word symbol).trans_eq (by norm_num))
  cases method <;>
    simp (disch := decide) only [openTable, FilesStruct.get_set_of_apart,
      Method.field, FilesStruct.get_set, fat32Function] <;>
    exact word _

theorem openTable_cfo (small : cfo < word32) :
    ((openTable link fd cfo).file fd).cfo = cfo := by
  have stored : (openTable link fd cfo).get fd .cfo = cfo := by
    simp (disch := decide) only [openTable, FilesStruct.get_set_of_apart]
    rw [FilesStruct.get_set]
    exact Nat.mod_eq_of_lt (small.trans (by decide))
  simp only [FilesStruct.file, stored]
  simp only [word32] at small
  exact toInt64_of_fits (by simp only [int64End]; omega)
    (by simp only [int64End]; omega)

theorem openTable_fat32File :
    ((openTable link fd cfo).file fd).fat32File = ⟨0, ⟨0, 0⟩⟩ := by
  have zero : ∀ field : Field, field = .cluster ∨ field = .dirCluster ∨
      field = .dirIndex → (openTable link fd cfo).get fd field = 0 := by
    rintro field (rfl | rfl | rfl) <;>
      simp (disch := decide) only [openTable, FilesStruct.get_set_of_apart,
        closedTable_get]
  simp only [FilesStruct.file, zero .cluster (.inl rfl),
    zero .dirCluster (.inr (.inl rfl)), zero .dirIndex (.inr (.inr rfl))]

end OpenTable

/-! ## Counts of bytes -/

section Counts

variable {regs : PtRegs} {value : Nat}

theorem sysTransfer_call {permission function fd buf count : Nat} {field : Field}
    {table : FilesStruct}
    (call : sysTransfer permission field (some table) regs =
      .call function fd buf count) :
    table.get fd .opened ≠ 0 ∧ fd = regs.x regIdxA0 ∧ buf = regs.x regIdxA1 ∧
      count = regs.x regIdxA2 := by
  rw [sysTransfer] at call
  split at call
  · cases call
  · next opened =>
      split at call
      · cases call
      · cases call
        exact ⟨opened, rfl, rfl, rfl⟩

theorem sysTransfer_refusal {permission : Nat} {field : Field}
    {table : FilesStruct} {left : PtRegs}
    (refused : (sysTransfer permission field (some table) regs).refusal =
      some left) : left.x regIdxA0 = errorFileNotOpen := by
  rw [sysTransfer] at refused
  split at refused
  · cases refused
    exact PtRegs.setA0_a0 _ _
  · split at refused
    · cases refused
      exact PtRegs.setA0_a0 _ _
    · cases refused

/-- A closed descriptor refuses with the constant. -/
theorem sysTransfer_closed (permission : Nat) (field : Field) :
    (sysTransfer permission field (some closedTable) regs).refusal =
      some (regs.setA0 errorFileNotOpen) := by
  rw [sysTransfer]
  rw [if_pos (closedTable_get _ _)]
  rfl

/-- An open FAT32 file gets the call. -/
theorem sysTransfer_open (link : Linkage) {permission : Nat} {method : Method}
    (allowed : 3 &&& permission ≠ 0) :
    sysTransfer permission method.field
        (some (openTable link (regs.x regIdxA0) 0)) regs =
      .call (link.address (fat32Function method)) (regs.x regIdxA0)
        (regs.x regIdxA1) (regs.x regIdxA2) := by
  rw [sysTransfer]
  rw [openTable_opened, openTable_perms, if_neg Nat.one_ne_zero,
    if_neg allowed, openTable_method]

theorem leaves_read_le (left : DescriptorCall.read.Leaves regs value) :
    value ≤ regs.x regIdxA2 := by
  cases left with
  | stdinRead call => exact (sysTransfer_call call).2.2.2.le
  | fat32Read call offset ran =>
      exact (transfer_returned_le offset ran).trans
        (sysTransfer_call call).2.2.2.le

theorem leaves_write_le (left : DescriptorCall.write.Leaves regs value) :
    value ≤ regs.x regIdxA2 := by
  cases left with
  | fat32Write call offset ran =>
      exact (transfer_returned_le offset ran).trans
        (sysTransfer_call call).2.2.2.le
  | consoleWrite call ran counted =>
      exact counted.trans (sysTransfer_call call).2.2.2.le

/-- With room for 255 bytes a file of this size makes the count of them. -/
theorem leaves_error (link : Linkage)
    (room : errorFileNotOpen ≤ regs.x regIdxA2) :
    DescriptorCall.read.Leaves regs errorFileNotOpen ∧
      DescriptorCall.write.Leaves regs errorFileNotOpen := by
  have start : ((openTable link (regs.x regIdxA0) 0).file
      (regs.x regIdxA0)).cfo = 0 :=
    openTable_cfo link _ (by decide)
  have file := @openTable_fat32File link (regs.x regIdxA0) 0
  have cluster := congrArg Fat32File.cluster file
  have index := congrArg (fun handle => handle.dir.index) file
  obtain ⟨read, ranRead, readCount⟩ := transfer_sized readAccess_tableBuf
    (fun _ => 0) start cluster index (by decide) (by decide) room
  obtain ⟨write, ranWrite, writeCount⟩ := transfer_sized writeAccess_tableBuf
    (fun _ => 0) start cluster index (by decide) (by decide) room
  constructor
  · rw [← readCount]
    exact .fat32Read (@sysTransfer_open regs link _ .read (by decide)) start.ge
      ranRead
  · rw [← writeCount]
    exact .fat32Write (@sysTransfer_open regs link _ .write (by decide)) start.ge
      ranWrite

end Counts

/-! ## Positions -/

section Positions

variable {regs : PtRegs} {position : Nat}

theorem sysSeek_call {function fd offset whence : Nat} {table : FilesStruct}
    (call : sysSeek (some table) regs = .call function fd offset whence) :
    offset = regs.x regIdxA1 ∧ whence = regs.x regIdxA2 % word32 := by
  rw [sysSeek] at call
  split at call
  · cases call
  · cases call
    exact ⟨rfl, rfl⟩

theorem sysSeek_refusal {table : FilesStruct} {left : PtRegs}
    (refused : (sysSeek (some table) regs).refusal = some left) :
    left = regs := by
  rw [sysSeek] at refused
  split at refused <;> cases refused
  rfl

theorem sysSeek_closed :
    (sysSeek (some closedTable) regs).refusal = some regs := by
  rw [sysSeek]
  rw [if_pos (closedTable_get _ _)]
  rfl

theorem sysSeek_open (link : Linkage) (cfo : Nat) :
    sysSeek (some (openTable link (regs.x regIdxA0 % word32) cfo)) regs =
      .call (link.address .fat32Lseek) (regs.x regIdxA0 % word32)
        (regs.x regIdxA1) (regs.x regIdxA2 % word32) := by
  rw [sysSeek]
  have pointer := @openTable_method link (regs.x regIdxA0 % word32) cfo .lseek
  simp only [Method.field, fat32Function] at pointer
  rw [openTable_opened, if_neg Nat.one_ne_zero, pointer]

theorem toInt64_bounds (value : Int) :
    -int64End ≤ toInt64 value ∧ toInt64 value < int64End := by
  have lower := @Int.le_bmod value word64 (by decide)
  have upper := @Int.bmod_lt value word64 (by decide)
  simp only [toInt64, int64End, word64] at *
  omega

theorem toRegister_natCast {value : Nat} (small : value < word64) :
    toRegister value = value := by
  rw [toRegister, ← Int.natCast_emod, Int.toNat_natCast, Nat.mod_eq_of_lt small]

/-- A seek ends at a position where it can land. -/
theorem canLand_of_leaves (left : DescriptorCall.seek.Leaves regs position) :
    CanLand position (toInt64 (regs.x regIdxA1)) (regs.x regIdxA2 % word32) := by
  cases left with
  | @fat32Lseek table link fd offset whence volume driver _ _ cfo call start
      inside ran =>
      obtain ⟨rfl, rfl⟩ := sysSeek_call call
      obtain ⟨low, high⟩ := toInt64_bounds (regs.x regIdxA1)
      have known := fat32Lseek_known ran
      have small := driver.fileSize_lt volume (table.file fd)
      generalize toInt64 (regs.x regIdxA1) = offset at *
      generalize regs.x regIdxA2 % word32 = whence at *
      refine ⟨known, ?_⟩
      by_cases fits : seekBase (driver.fileSize volume (table.file fd))
          (table.file fd).cfo whence + offset < int64End
      · rw [fat32Lseek_of_fits known low high start inside fits] at ran
        obtain ⟨landed, -⟩ := Prod.mk.inj (Option.some.inj ran)
        have base := seekBase_bounds whence start inside
        have nonneg : 0 ≤ cfo := by
          rw [← landed, seekTarget]
          exact le_max_left _ _
        obtain ⟨position, rfl⟩ := Int.eq_ofNat_of_zero_le nonneg
        have bound : position < word32 := by
          rw [seekTarget] at landed
          omega
        rw [toRegister_natCast (bound.trans (by decide))]
        rw [seekTarget] at landed
        rcases known with rfl | rfl | rfl
        · have start : seekBase (driver.fileSize volume (table.file fd))
              (table.file fd).cfo seekSet = 0 := rfl
          simp only [seekSet, seekEnd] at *
          omega
        · simp only [seekSet, seekCur, seekEnd] at *
          omega
        · have ending : seekBase (driver.fileSize volume (table.file fd))
              (table.file fd).cfo seekEnd =
                driver.fileSize volume (table.file fd) := rfl
          simp only [seekSet, seekEnd] at *
          omega
      · rw [fat32Lseek_of_overflow known low high start inside
          (Int.not_lt.1 fits)] at ran
        obtain ⟨rfl, -⟩ := Prod.mk.inj (Option.some.inj ran)
        exact .inl rfl

/-- A file and a position in it from which a seek lands as wanted. -/
theorem exists_landing {offset : Int} {whence : Nat} (low : -int64End ≤ offset)
    (high : offset < int64End) (lands : CanLand position offset whence) :
    ∃ size cfo : Nat, size < word32 ∧ cfo ≤ size ∧
      seekBase size cfo whence + offset < int64End ∧
      seekTarget size cfo offset whence = position := by
  obtain ⟨known, start | ⟨small, fromStart, back, forth⟩⟩ := lands
  · refine ⟨0, 0, by decide, Nat.le_refl 0, ?_, ?_⟩
    · have base : seekBase (0 : Nat) (0 : Nat) whence = 0 := by
        rw [seekBase]
        split
        · rfl
        · split <;> rfl
      rw [base]
      omega
    · rw [seekTarget, start]
      omega
  · -- The file ends at the position, or as far behind it as the seek goes back.
    rcases known with rfl | rfl | rfl
    · have reached := fromStart rfl
      refine ⟨position, 0, small, Nat.zero_le _, ?_, ?_⟩
      · simp only [seekBase, if_pos]
        omega
      · simp only [seekTarget, seekBase, if_pos]
        omega
    · have reached := back (by decide)
      refine ⟨(max (position : Int) (position - offset)).toNat,
        (position - offset).toNat, by omega, by omega, ?_, ?_⟩
      · simp only [seekBase, seekSet, seekCur, if_pos, one_ne_zero, if_false]
        simp only [word32, int64End] at *
        omega
      · simp only [seekTarget, seekBase, seekSet, seekCur, if_pos, one_ne_zero,
          if_false]
        omega
    · have reached := back (by decide)
      have fits := forth rfl
      refine ⟨(max (position : Int) (position - offset)).toNat, 0, by omega,
        by omega, ?_, ?_⟩
      · simp only [seekBase, seekSet, seekCur, seekEnd]
        simp only [word32, int64End] at *
        omega
      · simp only [seekTarget, seekBase, seekSet, seekCur, seekEnd]
        omega

/-- Where a seek can land some seek does land. -/
theorem leaves_of_canLand (link : Linkage)
    (lands : CanLand position (toInt64 (regs.x regIdxA1))
      (regs.x regIdxA2 % word32)) :
    DescriptorCall.seek.Leaves regs position := by
  obtain ⟨low, high⟩ := toInt64_bounds (regs.x regIdxA1)
  obtain ⟨size, cfo, small, inside, fits, landed⟩ :=
    exists_landing low high lands
  have call := @sysSeek_open regs link cfo
  generalize tableEq : openTable link (regs.x regIdxA0 % word32) cfo = table at call
  generalize fdEq : regs.x regIdxA0 % word32 = fd at *
  have offset : (table.file fd).cfo = cfo := by
    rw [← tableEq]
    exact openTable_cfo link fd (inside.trans_lt small)
  have index : (table.file fd).fat32File.dir.index = 0 := by
    rw [← tableEq, openTable_fat32File]
  have sized := sizedDriver_fileSize small index
  have start : 0 ≤ (table.file fd).cfo := by
    rw [offset]
    exact Int.natCast_nonneg cfo
  have within : (table.file fd).cfo ≤
      (sizedDriver size).fileSize sizedVolume (table.file fd) := by
    rw [sized, offset]
    exact Int.ofNat_le.2 inside
  have ran := @fat32Lseek_of_fits sizedVolume (sizedDriver size)
    (table.file fd) (toInt64 (regs.x regIdxA1)) (regs.x regIdxA2 % word32)
    lands.1 low high start within (by rw [sized, offset]; exact fits)
  rw [sized, offset, landed] at ran
  have position_small : position < word64 := by
    obtain ⟨-, zero | ⟨below, -⟩⟩ := lands
    · rw [zero]
      decide
    · exact below.trans (by decide)
  have left := DescriptorCall.Leaves.fat32Lseek call start within ran
  rwa [toRegister_natCast position_small] at left

end Positions

/-! ## All four calls -/

theorem distinguishes_read_iff (link : Linkage) (regs : PtRegs) :
    DescriptorCall.read.Distinguishes regs ↔
      regs.x regIdxA2 < errorFileNotOpen := by
  constructor
  · intro distinguishes
    by_contra room
    have left := (leaves_error link (Nat.not_lt.1 room)).1
    exact distinguishes closedTable _ (sysTransfer_closed fileReadable .read) _
      left (PtRegs.setA0_a0 _ _).symm
  · intro few table left refused value leaves same
    rw [sysTransfer_refusal refused] at same
    have bound := leaves_read_le leaves
    omega

theorem distinguishes_write_iff (link : Linkage) (regs : PtRegs) :
    DescriptorCall.write.Distinguishes regs ↔
      regs.x regIdxA2 < errorFileNotOpen := by
  constructor
  · intro distinguishes
    by_contra room
    have left := (leaves_error link (Nat.not_lt.1 room)).2
    exact distinguishes closedTable _ (sysTransfer_closed fileWritable .write) _
      left (PtRegs.setA0_a0 _ _).symm
  · intro few table left refused value leaves same
    rw [sysTransfer_refusal refused] at same
    have bound := leaves_write_le leaves
    omega

theorem distinguishes_seek_iff (link : Linkage) (regs : PtRegs) :
    DescriptorCall.seek.Distinguishes regs ↔
      ¬ CanLand (regs.x regIdxA0) (toInt64 (regs.x regIdxA1))
        (regs.x regIdxA2 % word32) := by
  constructor
  · intro distinguishes lands
    exact distinguishes closedTable _ sysSeek_closed _
      (leaves_of_canLand link lands) rfl
  · intro apart table left refused value leaves same
    obtain rfl := sysSeek_refusal refused
    rw [same] at leaves
    exact apart (canLand_of_leaves leaves)

/-- Both ends of `sys_close` leave the descriptor in `a0`. -/
theorem not_distinguishes_close (link : Linkage) (regs : PtRegs) :
    ¬ DescriptorCall.close.Distinguishes regs := by
  intro distinguishes
  have refused : DescriptorCall.close.refusal closedTable regs = some regs := by
    rw [DescriptorCall.refusal]
    exact if_pos (closedTable_get _ _)
  have opened : (openTable link (regs.x regIdxA0 % word32) 0).get
      (regs.x regIdxA0 % word32) .opened ≠ 0 := by
    rw [openTable_opened]
    exact Nat.one_ne_zero
  exact distinguishes closedTable regs refused _ (.close opened rfl) rfl

/--
A refusal of `sys_read`, `sys_write`, `sys_seek` or `sys_close` cannot be taken
for a result exactly if fewer than 255 bytes are asked for, no seek with the
same offset and origin can land at the number of the descriptor, and never for
`sys_close`.
-/
theorem refusals_distinct_iff (call : DescriptorCall) (regs : PtRegs) :
    call.Distinguishes regs ↔ call.Distinct regs := by
  cases call with
  | read => exact distinguishes_read_iff NewTask.link regs
  | write => exact distinguishes_write_iff NewTask.link regs
  | seek => exact distinguishes_seek_iff NewTask.link regs
  | close => exact iff_false_intro (not_distinguishes_close NewTask.link regs)

/-- The registers of `read(3, buf, 509)`, as `cat` calls it. -/
def callRegs : PtRegs where
  x index :=
    if index = regIdxA0 then 3
    else if index = regIdxA1 then 509
    else if index = regIdxA2 then 509
    else 0

/-- A read of 509 bytes leaves 255 for a closed descriptor and for a short file. -/
theorem read_refusal_is_count :
    ∃ left, DescriptorCall.read.refusal closedTable callRegs = some left ∧
      left.x regIdxA0 = 255 ∧
      DescriptorCall.read.Leaves callRegs 255 ∧
      ¬ DescriptorCall.read.Distinguishes callRegs := by
  have leaves := (leaves_error NewTask.link
    (show errorFileNotOpen ≤ callRegs.x regIdxA2 by decide)).1
  have refused : DescriptorCall.read.refusal closedTable callRegs =
      some (callRegs.setA0 errorFileNotOpen) :=
    sysTransfer_closed fileReadable .read
  refine ⟨_, refused, PtRegs.setA0_a0 _ _, leaves, fun distinguishes => ?_⟩
  exact distinguishes closedTable _ refused _ leaves
    (PtRegs.setA0_a0 _ _).symm

end TinyRiscvOs.Kernel
