import TinyRiscvOs.Fs.Layout
import TinyRiscvOs.Lib.ByteFile

/-!
# An open FAT32 file is a byte array with offsets

Any number of `struct file` values are open on one file of the volume.  Every
sequence of `fat32_read`, `fat32_write` and `fat32_lseek` on them has the
results of the same sequence on the abstract byte file.
-/

namespace TinyRiscvOs.Fs

open TinyRiscvOs.Lib

/-! ## The effect of one operation -/

section Effect

variable {volume : Fat32Volume} {fuel : Nat} {driver : Driver} {file : File}
    {stored : StoredFile} {user : Bytes} {cfo : Nat}

/-- A byte of the content, on the disk. -/
def StoredFile.byte (stored : StoredFile) (volume : Fat32Volume)
    (disk : Disk) (position : Nat) : Byte :=
  disk
    (contentSector volume.firstDataSec volume.secPerCluster stored.chain
      position)
    (position % sectorSize)

/-- The content: the bytes on the disk below the size. -/
def StoredFile.content (stored : StoredFile) (volume : Fat32Volume)
    (disk : Disk) (position : Nat) : Byte :=
  if position < stored.size then stored.byte volume disk position else 0

theorem StoredFile.OnDisk.byteAt_eq
    (onDisk : stored.OnDisk volume driver.disk)
    (addressed : stored.Addressed volume)
    (open_ : file.fat32File = stored.handle) {position : Nat}
    (inside : position < stored.size) (disk : Disk) :
    byteAt disk (placeIn volume driver file) position =
      stored.byte volume disk position := by
  rw [byteAt, onDisk.placeIn_eq open_ inside,
    Nat.mod_eq_of_lt (addressed position inside)]
  rfl

/-- `fat32_read` returns the content and leaves the disk. -/
theorem StoredFile.OnDisk.read (onDisk : stored.OnDisk volume driver.disk)
    (addressed : stored.Addressed volume)
    (open_ : file.fat32File = stored.handle)
    (nonempty : 0 < volume.secPerCluster) (offset : file.cfo = cfo)
    (inside : cfo < stored.size) (enough : stored.chain.length ≤ fuel)
    (user : Bytes) (len : Nat) :
    ∃ memory,
      fat32Read volume fuel driver file user len =
        some
          ⟨min len (stored.size - cfo),
            { file with cfo := (cfo + min len (stored.size - cfo) : Nat) },
            memory,
            fullWalk volume driver file
              (cfo + min len (stored.size - cfo))⟩ ∧
      memory.driver.disk = driver.disk ∧
      ∀ index, memory.user index =
        if index < min len (stored.size - cfo) then
          stored.byte volume driver.disk (cfo + index)
        else user index := by
  have sized := (fileSize_eq open_ onDisk.index_lt).trans onDisk.sized
  obtain ⟨links, reaches⟩ := onDisk.reaches open_
    (show cfo + min len (stored.size - cfo) ≤ stored.size by omega)
    (by omega)
  obtain ⟨memory, result, soFar⟩ := fat32Read_spec user nonempty offset sized
    inside rfl reaches (Nat.lt_of_lt_of_le links enough)
  refine ⟨memory, result, soFar.sameDisk, fun index => ?_⟩
  rw [soFar.filled]
  split
  · exact onDisk.byteAt_eq addressed open_ (by omega) _
  · rfl

/-- `fat32_write` stores the buffer in the content and changes nothing else. -/
theorem StoredFile.OnDisk.write (onDisk : stored.OnDisk volume driver.disk)
    (addressed : stored.Addressed volume)
    (open_ : file.fat32File = stored.handle)
    (nonempty : 0 < volume.secPerCluster) (offset : file.cfo = cfo)
    (inside : cfo < stored.size) (enough : stored.chain.length ≤ fuel)
    (user : Bytes) (len : Nat) :
    ∃ memory,
      fat32Write volume fuel driver file user len =
        some
          ⟨min len (stored.size - cfo),
            { file with cfo := (cfo + min len (stored.size - cfo) : Nat) },
            memory,
            fullWalk volume driver file
              (cfo + min len (stored.size - cfo))⟩ ∧
      (∀ index, index < min len (stored.size - cfo) →
        stored.byte volume memory.driver.disk (cfo + index) = user index) ∧
      ∀ sector offset, offset < sectorSize →
        (∀ index, index < min len (stored.size - cfo) →
          ¬ (sector = contentSector volume.firstDataSec volume.secPerCluster
                stored.chain (cfo + index) ∧
              offset = (cfo + index) % sectorSize)) →
        memory.driver.disk sector offset = driver.disk sector offset := by
  have sized := (fileSize_eq open_ onDisk.index_lt).trans onDisk.sized
  obtain ⟨links, reaches⟩ := onDisk.reaches open_
    (show cfo + min len (stored.size - cfo) ≤ stored.size by omega)
    (by omega)
  have place : ∀ position, position < stored.size →
      placeIn volume driver file (position / sectorSize) % word32 =
        contentSector volume.firstDataSec volume.secPerCluster stored.chain
          position := by
    intro position below
    rw [onDisk.placeIn_eq open_ below,
      Nat.mod_eq_of_lt (addressed position below)]
  have apart : Apart cfo (cfo + min len (stored.size - cfo))
      (placeIn volume driver file) := by
    intro left right _ leftLt _ rightLt same
    rw [place left (by omega), place right (by omega)] at same
    exact onDisk.sector_injective nonempty (by omega) (by omega) same
  obtain ⟨memory, result, soFar⟩ := fat32Write_spec user nonempty offset sized
    inside rfl reaches (Nat.lt_of_lt_of_le links enough) apart
  refine ⟨memory, result, fun index below => ?_,
    fun sector offset inSector untouched => ?_⟩
  · rw [← soFar.written index below,
      onDisk.byteAt_eq addressed open_ (by omega)]
  · refine soFar.frame sector offset inSector fun index below located => ?_
    rw [Locates, place (cfo + index) (by omega)] at located
    exact untouched index below located

/-- A write to one file leaves the table and the directory of every file. -/
theorem StoredFile.OnDisk.write_other {other : StoredFile} {disk : Disk}
    {count : Nat} (onDisk : stored.OnDisk volume driver.disk)
    (ordered : volume.firstFatSec ≤ volume.firstDataSec)
    (nonempty : 0 < volume.secPerCluster)
    (inside : ∀ index, index < count → cfo + index < stored.size)
    (frame : ∀ sector offset, offset < sectorSize →
      (∀ index, index < count →
        ¬ (sector = contentSector volume.firstDataSec volume.secPerCluster
              stored.chain (cfo + index) ∧
            offset = (cfo + index) % sectorSize)) →
      disk sector offset = driver.disk sector offset)
    (otherOnDisk : other.OnDisk volume driver.disk) :
    other.OnDisk volume disk := by
  have kept : ∀ sector, sector ≤ volume.firstDataSec → ∀ offset,
      offset < sectorSize →
        driver.disk sector offset = disk sector offset := by
    intro sector low offset inSector
    refine (frame sector offset inSector fun index below located => ?_).symm
    have after := onDisk.directory_lt nonempty (inside index below)
      volume.firstDataSec
    omega
  have table := Nat.le_trans (Nat.mod_le volume.firstFatSec word32) ordered
  have directory := Nat.mod_le volume.firstDataSec word32
  exact otherOnDisk.congr (kept _ table) (kept _ directory)

/-- A write replaces a range of the content. -/
theorem StoredFile.OnDisk.content_splice {disk : Disk} {count : Nat}
    (onDisk : stored.OnDisk volume driver.disk)
    (nonempty : 0 < volume.secPerCluster)
    (inside : cfo + count ≤ stored.size)
    (written : ∀ index, index < count →
      stored.byte volume disk (cfo + index) = user index)
    (frame : ∀ sector offset, offset < sectorSize →
      (∀ index, index < count →
        ¬ (sector = contentSector volume.firstDataSec volume.secPerCluster
              stored.chain (cfo + index) ∧
            offset = (cfo + index) % sectorSize)) →
      disk sector offset = driver.disk sector offset)
    (position : Nat) :
    stored.content volume disk position =
      ByteFile.splice (stored.content volume driver.disk) cfo count user
        position := by
  rw [ByteFile.splice]
  by_cases range : cfo ≤ position ∧ position < cfo + count
  · have same : cfo + (position - cfo) = position := by omega
    rw [if_pos range, StoredFile.content, if_pos (by omega),
      ← written (position - cfo) (by omega), same]
  · rw [if_neg range, StoredFile.content, StoredFile.content]
    by_cases below : position < stored.size
    · rw [if_pos below, if_pos below]
      refine frame _ _ (Nat.mod_lt _ (by decide)) fun index small located => ?_
      have sector := onDisk.sector_injective nonempty below
        (show cfo + index < stored.size by omega) located.1
      have offset := located.2
      simp only [sectorSize] at sector offset
      omega
    · rw [if_neg below, if_neg below]

end Effect

/-! ## Any number of open files -/

/-- The driver and the `struct file` values that are open. -/
structure OpenFiles (Handle : Type) where
  driver : Driver
  files : Handle → File

namespace OpenFiles

variable {Handle : Type} [DecidableEq Handle]

/-- What a transfer through one handle leaves. -/
def after (world : OpenFiles Handle) (handle : Handle) (result : Transfer) :
    OpenFiles Handle :=
  ⟨result.memory.driver, Function.update world.files handle result.file⟩

/-- One call of the driver. -/
def exec (volume : Fat32Volume) (fuel : Nat) (world : OpenFiles Handle) :
    FileOp Handle → Option (FileReply × OpenFiles Handle)
  | .read handle buffer len =>
      (fat32Read volume fuel world.driver (world.files handle) buffer len).map
        fun result =>
          (.read result.returned result.memory.user,
            world.after handle result)
  | .write handle buffer len =>
      (fat32Write volume fuel world.driver (world.files handle) buffer len).map
        fun result => (.write result.returned, world.after handle result)
  | .seek handle offset whence =>
      (fat32Lseek volume world.driver (world.files handle) offset whence).map
        fun (value, driver, file) =>
          (.seek value, ⟨driver, Function.update world.files handle file⟩)

/-- The calls one after the other. -/
def execAll (volume : Fat32Volume) (fuel : Nat) (world : OpenFiles Handle) :
    List (FileOp Handle) → Option (List FileReply × OpenFiles Handle)
  | [] => some ([], world)
  | op :: rest =>
      (world.exec volume fuel op).bind fun (reply, world) =>
        (world.execAll volume fuel rest).map
          fun (replies, world) => (reply :: replies, world)

/-- The byte file that the open files show. -/
def abstract (volume : Fat32Volume) (stored : StoredFile)
    (world : OpenFiles Handle) : ByteFile Handle where
  size := directorySize volume world.driver.disk stored.index
  content := stored.content volume world.driver.disk
  offset handle := (world.files handle).cfo.toNat

/-- All handles are open on the file, which is on the disk. -/
structure Holds (volume : Fat32Volume) (stored : StoredFile)
    (world : OpenFiles Handle) : Prop where
  handles : ∀ handle, (world.files handle).fat32File = stored.handle
  offsets : ∀ handle, 0 ≤ (world.files handle).cfo
  onDisk : stored.OnDisk volume world.driver.disk

section Abstraction

variable {volume : Fat32Volume} {stored : StoredFile}
    {world : OpenFiles Handle}

omit [DecidableEq Handle]

theorem abstract_eq (holds : Holds volume stored world) :
    world.abstract volume stored =
      { size := stored.size
        content := stored.content volume world.driver.disk
        offset := fun handle => (world.files handle).cfo.toNat } := by
  rw [abstract, holds.onDisk.sized]

/-- The offset of a handle as a natural number. -/
theorem Holds.offset_eq (holds : Holds volume stored world) (handle : Handle) :
    (world.files handle).cfo = ((world.files handle).cfo.toNat : Nat) :=
  (Int.toNat_of_nonneg (holds.offsets handle)).symm

end Abstraction

/-- The conditions under which the driver serves a file. -/
structure Served (volume : Fat32Volume) (stored : StoredFile)
    (fuel : Nat) : Prop where
  nonempty : 0 < volume.secPerCluster
  ordered : volume.firstFatSec ≤ volume.firstDataSec
  addressed : stored.Addressed volume
  enough : stored.chain.length ≤ fuel

/-- One operation: the reply and the new state are the abstract ones. -/
def Refines (volume : Fat32Volume) (stored : StoredFile) (fuel : Nat)
    (world : OpenFiles Handle) (op : FileOp Handle) : Prop :=
  (world.exec volume fuel op).map
      (fun (reply, next) => (reply, next.abstract volume stored)) =
    (world.abstract volume stored).exec op ∧
  ∀ reply next, world.exec volume fuel op = some (reply, next) →
    Holds volume stored next

section Refinement

variable {volume : Fat32Volume} {stored : StoredFile} {fuel : Nat}
    {world : OpenFiles Handle}

/-- A call that leaves one handle at a new offset, compared with its specification. -/
theorem refines_of (holds : Holds volume stored world) {op : FileOp Handle}
    {reply : FileReply} {driver : Driver} {handle : Handle} {file : File}
    (ran : world.exec volume fuel op =
      some (reply, ⟨driver, Function.update world.files handle file⟩))
    (open_ : file.fat32File = (world.files handle).fat32File)
    (offset : 0 ≤ file.cfo) (onDisk : stored.OnDisk volume driver.disk)
    (spec : (world.abstract volume stored).exec op =
      some (reply,
        { size := stored.size
          content := stored.content volume driver.disk
          offset := Function.update
            (fun other => (world.files other).cfo.toNat) handle
            file.cfo.toNat })) :
    Refines volume stored fuel world op := by
  have next : Holds volume stored
      ⟨driver, Function.update world.files handle file⟩ :=
    { handles := fun other => by
        by_cases same : other = handle
        · subst same
          dsimp only
          rw [Function.update_self, open_]
          exact holds.handles other
        · dsimp only
          rw [Function.update_of_ne same]
          exact holds.handles other
      offsets := fun other => by
        by_cases same : other = handle
        · subst same
          dsimp only
          rw [Function.update_self]
          exact offset
        · dsimp only
          rw [Function.update_of_ne same]
          exact holds.offsets other
      onDisk := onDisk }
  refine ⟨?_, fun _ _ same => ?_⟩
  · have offsets : (fun other =>
          (Function.update world.files handle file other).cfo.toNat) =
        Function.update (fun other => (world.files other).cfo.toNat) handle
          file.cfo.toNat := by
      funext other
      simp only [Function.update_apply]
      split <;> rfl
    rw [ran, spec, Option.map_some]
    dsimp only
    rw [abstract_eq next]
    dsimp only
    rw [offsets]
  · rw [ran] at same
    cases same
    exact next

/-- At the end of the file a transfer moves nothing. -/
theorem transfer_refines_at_end (holds : Holds volume stored world)
    (access : Access) (fuel : Nat) {handle : Handle} (buffer : Bytes)
    (len : Nat) (beyond : ¬ (world.files handle).cfo.toNat < stored.size) :
    transfer access volume fuel world.driver (world.files handle) buffer len =
        some ⟨0, world.files handle,
          ⟨world.driver.loadDirectory volume (world.files handle), buffer⟩,
          ⟨[], [], none⟩⟩ ∧
      (world.abstract volume stored).count handle len = 0 ∧
      (world.abstract volume stored).advance handle len =
        { size := stored.size
          content := stored.content volume world.driver.disk
          offset := Function.update
            (fun other => (world.files other).cfo.toNat) handle
            (world.files handle).cfo.toNat } := by
  have reached : (world.driver.fileSize volume (world.files handle) : Int) ≤
      (world.files handle).cfo := by
    rw [fileSize_eq (holds.handles handle) holds.onDisk.index_lt,
      holds.onDisk.sized, holds.offset_eq handle]
    exact Int.ofNat_le.2 (Nat.not_lt.1 beyond)
  have none_left : (world.abstract volume stored).count handle len = 0 := by
    rw [abstract_eq holds]
    simp only [ByteFile.count]
    omega
  refine ⟨transfer_at_end reached, none_left, ?_⟩
  rw [ByteFile.advance, none_left, abstract_eq holds]
  rfl

theorem read_refines (served : Served volume stored fuel)
    (holds : Holds volume stored world) (handle : Handle) (buffer : Bytes)
    (len : Nat) :
    Refines volume stored fuel world (.read handle buffer len) := by
  by_cases inside : (world.files handle).cfo.toNat < stored.size
  · obtain ⟨memory, result, sameDisk, filled⟩ :=
      holds.onDisk.read served.addressed (holds.handles handle)
        served.nonempty (holds.offset_eq handle) inside served.enough buffer
        len
    have ran := congrArg (Option.map fun result =>
      (FileReply.read result.returned result.memory.user,
        world.after handle result)) result
    refine refines_of holds ran rfl (Int.natCast_nonneg _)
      (sameDisk ▸ holds.onDisk) ?_
    rw [abstract_eq holds, sameDisk]
    simp only [ByteFile.exec, ByteFile.count, ByteFile.advance,
      Int.toNat_natCast, StoredFile.content]
    congr 4
    funext index
    rw [filled]
    split
    · rw [if_pos (by omega)]
    · rfl
  · obtain ⟨result, none_left, stays⟩ :=
      transfer_refines_at_end holds readAccess fuel buffer len inside
    have ran := congrArg (Option.map fun result =>
      (FileReply.read result.returned result.memory.user,
        world.after handle result)) result
    refine refines_of holds ran rfl (holds.offsets handle) holds.onDisk ?_
    simp only [ByteFile.exec, none_left, stays, Nat.not_lt_zero, if_false]
    rfl

theorem write_refines (served : Served volume stored fuel)
    (holds : Holds volume stored world) (handle : Handle) (buffer : Bytes)
    (len : Nat) :
    Refines volume stored fuel world (.write handle buffer len) := by
  by_cases inside : (world.files handle).cfo.toNat < stored.size
  · obtain ⟨memory, result, written, frame⟩ :=
      holds.onDisk.write served.addressed (holds.handles handle)
        served.nonempty (holds.offset_eq handle) inside served.enough buffer
        len
    have onDisk := holds.onDisk.write_other served.ordered served.nonempty
      (fun index below => by omega) frame holds.onDisk
    have ran := congrArg (Option.map fun result =>
      (FileReply.write result.returned, world.after handle result)) result
    refine refines_of holds ran rfl (Int.natCast_nonneg _) onDisk ?_
    rw [abstract_eq holds]
    simp only [ByteFile.exec, ByteFile.count, ByteFile.advance,
      Int.toNat_natCast]
    congr 4
    funext position
    exact (holds.onDisk.content_splice served.nonempty (by omega) written
      frame position).symm
  · obtain ⟨result, none_left, stays⟩ :=
      transfer_refines_at_end holds writeAccess fuel buffer len inside
    have ran := congrArg (Option.map fun result =>
      (FileReply.write result.returned, world.after handle result)) result
    refine refines_of holds ran rfl (holds.offsets handle) holds.onDisk ?_
    simp only [ByteFile.exec, none_left, stays]
    rw [abstract_eq holds]
    simp only [ByteFile.splice_zero]
    rfl

omit [DecidableEq Handle] in
/-- `fat32_lseek` clamps the mathematical sum. -/
theorem fat32Lseek_eq (holds : Holds volume stored world) {handle : Handle}
    {delta : Int} {whence : Nat}
    (inRange :
      (world.abstract volume stored).InRange (.seek handle delta whence)) :
    fat32Lseek volume world.driver (world.files handle) delta whence =
      ((world.abstract volume stored).base handle whence).map fun base =>
        (max 0 (min (stored.size : Int) (base + delta)),
          world.driver.loadDirectory volume (world.files handle),
          { world.files handle with
            cfo := max 0 (min (stored.size : Int) (base + delta)) }) := by
  have size : (world.driver.loadDirectory volume
      (world.files handle)).entrySize (world.files handle) = stored.size :=
    (fileSize_eq (holds.handles handle) holds.onDisk.index_lt).trans
      holds.onDisk.sized
  have clamp : ∀ sum : Int,
      (if (stored.size : Int) < (if 0 > sum then 0 else sum) then
        (stored.size : Int) else if 0 > sum then 0 else sum) =
        max 0 (min (stored.size : Int) sum) := by
    intro sum
    have positive := Int.natCast_nonneg stored.size
    split <;> split <;> omega
  have fits : ∀ base ∈ (world.abstract volume stored).base handle whence,
      toInt64 (base + delta) = base + delta := by
    intro base found
    have bounds := inRange base found
    refine Int.bmod_eq_of_le_mul_two ?_ ?_
    · simp only [word64]
      omega
    · simp only [word64]
      omega
  rw [abstract_eq holds] at fits ⊢
  rw [fat32Lseek]
  dsimp only
  rw [size]
  match whence with
  | 0 =>
      rw [if_pos rfl, Option.map_some, clamp]
      simp only [ByteFile.base, Option.map_some, Int.zero_add]
  | 1 =>
      have sum := fits _ rfl
      rw [← holds.offset_eq handle] at sum
      rw [if_neg (by decide), if_pos rfl, sum, Option.map_some, clamp]
      simp only [ByteFile.base, Option.map_some, ← holds.offset_eq handle]
  | 2 =>
      have sum := fits _ rfl
      rw [if_neg (by decide), if_neg (by decide), if_pos rfl, sum,
        Option.map_some, clamp]
      rfl
  | other + 3 =>
      rw [if_neg (by simp only [seekSet]; omega),
        if_neg (by simp only [seekCur]; omega),
        if_neg (by simp only [seekEnd]; omega)]
      rfl

theorem seek_refines (holds : Holds volume stored world) {handle : Handle}
    {delta : Int} {whence : Nat}
    (inRange :
      (world.abstract volume stored).InRange (.seek handle delta whence)) :
    Refines volume stored fuel world (.seek handle delta whence) := by
  have result := fat32Lseek_eq holds inRange
  cases found : (world.abstract volume stored).base handle whence with
  | none =>
      rw [found] at result
      have ran : world.exec volume fuel (.seek handle delta whence) = none := by
        rw [exec, result]
        rfl
      refine ⟨?_, fun reply next same => ?_⟩
      · rw [ran, ByteFile.exec, found]
        rfl
      · rw [ran] at same
        cases same
  | some base =>
      rw [found] at result
      have ran := congrArg (Option.map fun (value, driver, file) =>
        (FileReply.seek value,
          (⟨driver, Function.update world.files handle file⟩ :
            OpenFiles Handle))) result
      refine refines_of holds ran rfl (Int.le_max_left _ _) holds.onDisk ?_
      rw [ByteFile.exec, found, abstract_eq holds]
      rfl

/-- Every call refines the operation on the byte file. -/
theorem exec_refines (served : Served volume stored fuel)
    (holds : Holds volume stored world) {op : FileOp Handle}
    (inRange : (world.abstract volume stored).InRange op) :
    Refines volume stored fuel world op := by
  cases op with
  | read handle buffer len => exact read_refines served holds handle buffer len
  | write handle buffer len =>
      exact write_refines served holds handle buffer len
  | seek handle delta whence => exact seek_refines holds inRange

/-- Every sequence of calls refines the operations on the byte file. -/
theorem execAll_refines (served : Served volume stored fuel)
    (holds : Holds volume stored world) {ops : List (FileOp Handle)}
    (inRange : (world.abstract volume stored).AllInRange ops) :
    (world.execAll volume fuel ops).map
        (fun (replies, last) => (replies, last.abstract volume stored)) =
      (world.abstract volume stored).execAll ops := by
  induction ops generalizing world with
  | nil => rfl
  | cons op rest induction =>
      obtain ⟨here, later⟩ := inRange
      obtain ⟨step, keeps⟩ := exec_refines served holds here
      rw [execAll, ByteFile.execAll, ← step]
      cases ran : world.exec volume fuel op with
      | none => rfl
      | some outcome =>
          obtain ⟨reply, next⟩ := outcome
          rw [ran] at step
          have follow := induction (keeps reply next ran)
            (later reply _ step.symm)
          rw [Option.map_some, Option.bind_some, Option.bind_some]
          dsimp only
          rw [← follow, Option.map_map, Option.map_map]
          rfl

end Refinement

end OpenFiles

/-- The driver places the data area after the table. -/
theorem fat32Init_ordered (disk : Disk) (header : Bytes) {lba : Nat}
    (word : lba < word32) :
    (fat32Init disk header lba).firstFatSec ≤
      (fat32Init disk header lba).firstDataSec := by
  have reserved := Bytes.littleEndian_lt
    (virtioBlkReadSector disk lba header) 14 2
  simp only [fat32Init, Fat32Bpb.ofBytes, word32, word64] at *
  generalize virtioBlkReadSector disk lba header = sector at *
  generalize sector.littleEndian 16 1 * sector.littleEndian 36 4 = tables
  omega

/--
Any number of `struct file` values open on a file whose entry is in the first
sector of the root directory and whose chain of small distinct clusters is long
enough: every sequence of reads, writes and seeks has the replies and the final
state of the sequence on a byte array with offsets.  The sectors of the content
are those that the device is asked for.
-/
theorem fat32_refines_byte_file {Handle : Type} [DecidableEq Handle]
    {disk : Disk} {header : Bytes} {lba fuel : Nat} {stored : StoredFile}
    {world : OpenFiles Handle} {ops : List (FileOp Handle)}
    (word : lba < word32)
    (nonempty : 0 < (fat32Init disk header lba).secPerCluster)
    (addressed : stored.Addressed (fat32Init disk header lba))
    (holds : world.Holds (fat32Init disk header lba) stored)
    (enough : stored.chain.length ≤ fuel)
    (inRange :
      (world.abstract (fat32Init disk header lba) stored).AllInRange ops) :
    (world.execAll (fat32Init disk header lba) fuel ops).map
        (fun (replies, last) =>
          (replies, last.abstract (fat32Init disk header lba) stored)) =
      (world.abstract (fat32Init disk header lba) stored).execAll ops :=
  OpenFiles.execAll_refines
    ⟨nonempty, fat32Init_ordered disk header word, addressed, enough⟩ holds
    inRange

/-! ## A small volume -/

namespace SmallVolume

/--
One sector a cluster: the header in sector `0`, the table in sector `1`, the
root directory in sector `2` and the file `A` of five bytes in cluster `3`,
sector `3`.
-/
def disk : Disk := fun sector offset =>
  match sector, offset with
  | 0, 13 => 1
  | 0, 14 => 1
  | 0, 16 => 1
  | 0, 36 => 1
  | 1, 12 => 0xff
  | 1, 13 => 0xff
  | 1, 14 => 0xff
  | 1, 15 => 0x0f
  | 2, 0 => 0x41
  | 2, 1 => 0x20
  | 2, 2 => 0x20
  | 2, 3 => 0x20
  | 2, 4 => 0x20
  | 2, 5 => 0x20
  | 2, 6 => 0x20
  | 2, 7 => 0x20
  | 2, 26 => 3
  | 2, 28 => 5
  | _, _ => 0

def volume : Fat32Volume :=
  fat32Init disk (fun _ => 0) 0

theorem volume_eq : volume = ⟨2, 1, 1, 1⟩ := by
  simp only [volume, fat32Init, bpb_of_read]
  decide

def stored : StoredFile :=
  ⟨3, 0, 5, [3]⟩

/-- Two handles on the file. -/
def world : OpenFiles Bool where
  driver := ⟨disk, fun _ => 0, fun _ => 0⟩
  files := fun _ =>
    { opened := 1
      perms := 3
      cfo := 0
      fsType := 1
      fat32File := stored.handle
      lseek := 1
      write := 2
      read := 3
      path := fun _ => 0 }

/-- Bytes to write. -/
def buffer : Bytes := fun index =>
  BitVec.ofNat 8 (index + 1)

end SmallVolume

namespace TwoFiles

/--
The small volume with `600` bytes in the clusters `3` and `5` for the file `A`,
and a file `B` of five bytes in cluster `4`.
-/
def disk : Disk := fun sector offset =>
  match sector, offset with
  | 1, 12 => 5
  | 1, 13 => 0
  | 1, 14 => 0
  | 1, 15 => 0
  | 1, 16 => 0xff
  | 1, 17 => 0xff
  | 1, 18 => 0xff
  | 1, 19 => 0x0f
  | 1, 20 => 0xff
  | 1, 21 => 0xff
  | 1, 22 => 0xff
  | 1, 23 => 0x0f
  | 2, 28 => 0x58
  | 2, 29 => 0x02
  | 2, 32 => 0x42
  | 2, 58 => 4
  | 2, 60 => 5
  | _, _ => SmallVolume.disk sector offset

def volume : Fat32Volume :=
  fat32Init disk (fun _ => 0) 0

theorem volume_eq : volume = ⟨2, 1, 1, 1⟩ := by
  simp only [volume, fat32Init, bpb_of_read]
  decide

theorem nonempty : 0 < volume.secPerCluster := by
  rw [volume_eq]
  decide

/-- `A` for `false`, `B` for `true`. -/
def files : Bool → StoredFile
  | false => ⟨3, 0, 600, [3, 5]⟩
  | true => ⟨4, 1, 5, [4]⟩

theorem onDisk (name : Bool) : (files name).OnDisk volume disk := by
  rw [volume_eq]
  cases name with
  | false =>
      exact
        { index_lt := by decide
          sized := by decide
          chained := .inr
            (.link (by decide) (.link (by decide) (.mark (by decide))))
          nodup := by decide
          fits := by decide }
  | true =>
      exact
        { index_lt := by decide
          sized := by decide
          chained := .inr (.link (by decide) (.mark (by decide)))
          nodup := by decide
          fits := by decide }

theorem addressed (name : Bool) : (files name).Addressed volume := by
  intro position below
  have clusters : ∀ index, (files name).chain.getD index 0 ≤ 5 := by
    intro index
    cases name <;> rcases index with _ | _ | index <;> simp [files]
  have cluster := clusters (position / (sectorSize * volume.secPerCluster))
  rw [volume_eq] at cluster ⊢
  simp only [contentSector, Nat.mod_one, word32] at *
  omega

/-- Two handles on `A`. -/
def handles : OpenFiles Bool where
  driver := ⟨disk, fun _ => 0, fun _ => 0⟩
  files := fun handle =>
    { SmallVolume.world.files handle with fat32File := (files false).handle }

theorem handles_hold : handles.Holds volume (files false) where
  handles _ := rfl
  offsets _ := Int.le_refl 0
  onDisk := onDisk false

/-- A write over the end of the first cluster, and a read of the whole file. -/
def handleOps : List (FileOp Bool) :=
  [.seek true 508 0, .write true SmallVolume.buffer 9,
    .read false SmallVolume.buffer 600]

theorem handleOps_inRange :
    (handles.abstract volume (files false)).AllInRange handleOps := by
  refine ⟨fun base found => ?_, fun _ _ _ => ⟨trivial, fun _ _ _ =>
    ⟨trivial, fun _ _ _ => trivial⟩⟩⟩
  rw [OpenFiles.abstract_eq handles_hold] at found
  cases found
  decide

end TwoFiles

open TwoFiles in
/-- The operations on a file of two clusters. -/
theorem fat32_refines_byte_file_two_handles :
    (handles.execAll volume 2 handleOps).map
        (fun (replies, last) =>
          (replies, last.abstract volume (files false))) =
      (handles.abstract volume (files false)).execAll handleOps :=
  fat32_refines_byte_file (by decide) nonempty (addressed false) handles_hold
    (by decide) handleOps_inRange

end TinyRiscvOs.Fs
