import TinyRiscvOs.Fs.Transfer

/-!
# What a read or a write moves

A read fills the caller's buffer from the sectors of the file, a write stores
the caller's buffer there and nowhere else.  Sectors are the ones the device
uses: the number handed to `virtio_blk_cmd` modulo `2 ^ 32`.
-/

namespace TinyRiscvOs.Fs

open TinyRiscvOs.Lib

/-! ## Before the loops -/

/-- The driver when the loops start. -/
def Driver.prepare (volume : Fat32Volume) (driver : Driver) (file : File) :
    Driver :=
  (driver.loadDirectory volume file).loadTable volume.firstFatSec

/-- The size that the operations find in the directory entry of a file. -/
def Driver.fileSize (volume : Fat32Volume) (driver : Driver) (file : File) :
    Nat :=
  (driver.loadDirectory volume file).entrySize file

/-- The first FAT sector as the operations load it. -/
def Driver.fatTable (volume : Fat32Volume) (driver : Driver) : Bytes :=
  virtioBlkReadSector driver.disk volume.firstFatSec driver.tableBuf

section Prepare

variable (volume : Fat32Volume) (driver : Driver) (file : File)

@[simp]
theorem Driver.prepare_disk : (driver.prepare volume file).disk = driver.disk :=
  rfl

@[simp]
theorem Driver.prepare_tableBuf :
    (driver.prepare volume file).tableBuf = driver.fatTable volume := by
  simp only [Driver.prepare, Driver.loadTable, Driver.loadDirectory,
    Driver.load, Driver.fatTable]

@[simp]
theorem Driver.loadDirectory_disk :
    (driver.loadDirectory volume file).disk = driver.disk :=
  rfl

theorem Driver.fileSize_lt : driver.fileSize volume file < word32 := by
  have bound := Bytes.littleEndian_lt (driver.loadDirectory volume file).buf
    (32 * file.fat32File.dir.index + 28) 4
  have word : 256 ^ 4 = word32 := by norm_num
  rw [word] at bound
  exact bound

end Prepare

section Entry

variable {access : Access} {volume : Fat32Volume} {fuel : Nat}
    {driver : Driver} {file : File} {user : Bytes} {len : Nat}

/-- At or after the end of the file nothing is moved. -/
theorem transfer_at_end (beyond : driver.fileSize volume file ≤ file.cfo) :
    transfer access volume fuel driver file user len =
      some ⟨0, file, ⟨driver.loadDirectory volume file, user⟩,
        ⟨[], [], none⟩⟩ := by
  rw [transfer]
  exact if_pos beyond

/-- Before the end of the file the loops run. -/
theorem transfer_before_end {cfo : Nat} (offset : file.cfo = cfo)
    (inside : cfo < driver.fileSize volume file) :
    transfer access volume fuel driver file user len =
      (clusterLoop access volume
        (cfo + min len (driver.fileSize volume file - cfo)) fuel
        file.fat32File.cluster ⟨[], [], none⟩
        ⟨cfo, 0, 0, ⟨driver.prepare volume file, user⟩⟩).map
          fun (walk, cursor) =>
            ⟨cursor.len, { file with cfo := cursor.cfo }, cursor.memory,
              walk⟩ := by
  have small := driver.fileSize_lt volume file
  have word : cfo < word64 := by
    simp only [word32, word64] at *
    omega
  have unsigned : (file.cfo % (word64 : Nat)).toNat = cfo := by
    rw [offset, ← Int.natCast_emod, Int.toNat_natCast, Nat.mod_eq_of_lt word]
  rw [transfer]
  refine (if_neg ?_).trans ?_
  · rw [offset]
    exact Int.not_le.2 (Int.ofNat_lt.2 inside)
  · rw [unsigned]
    rfl

end Entry

/-! ## Bytes of a sector -/

/-- Positions that one access covers lie in one sector. -/
theorem position_in_sector {start len count index : Nat}
    (bound : count ≤ sectorSize - (start + len) % sectorSize)
    (lower : len ≤ index) (upper : index < len + count) :
    (start + index) / sectorSize = (start + len) / sectorSize ∧
      (start + index) % sectorSize =
        (start + len) % sectorSize + (index - len) := by
  simp only [sectorSize] at *
  omega

/-! ## Reading -/

/-- The byte of the file at a position, on the device. -/
def byteAt (disk : Disk) (place : Nat → Nat) (position : Nat) : Byte :=
  disk (place (position / sectorSize) % word32) (position % sectorSize)

/-- After `len` bytes are read: they are in the buffer, the disk is unchanged. -/
structure ReadSoFar (disk : Disk) (table user : Bytes) (start : Nat)
    (place : Nat → Nat) (len : Nat) (memory : Memory) : Prop where
  sameDisk : memory.driver.disk = disk
  sameTable : memory.driver.tableBuf = table
  filled : ∀ index, memory.user index =
    if index < len then byteAt disk place (start + index) else user index

theorem readAccess_keeps (disk : Disk) (table user : Bytes)
    (start maxCfo : Nat) (place : Nat → Nat) :
    Keeps readAccess start maxCfo place
      (ReadSoFar disk table user start place) := by
  intro len memory soFar _
  generalize counted : min (sectorSize - (start + len) % sectorSize)
    (maxCfo - (start + len)) = count
  have bound : count ≤ sectorSize - (start + len) % sectorSize := by omega
  refine ⟨soFar.sameDisk, soFar.sameTable, fun index => ?_⟩
  simp only [readAccess, Driver.load]
  rw [Bytes.copy_apply]
  by_cases fresh : len ≤ index ∧ index < len + count
  · obtain ⟨quotient, remainder⟩ :=
      position_in_sector bound fresh.1 fresh.2
    have inSector :
        (start + len) % sectorSize + (index - len) < sectorSize := by omega
    rw [if_pos fresh, if_pos fresh.2,
      virtioBlkReadSector_inside _ _ _ inSector, soFar.sameDisk, byteAt,
      quotient, remainder]
  · rw [if_neg fresh, soFar.filled]
    by_cases old : index < len
    · rw [if_pos old, if_pos (by omega)]
    · rw [if_neg old, if_neg (by omega)]

/-! ## Writing -/

/-- Different sectors of the range are different sectors of the device. -/
def Apart (start maxCfo : Nat) (place : Nat → Nat) : Prop :=
  ∀ left right, start ≤ left → left < maxCfo → start ≤ right →
    right < maxCfo →
    place (left / sectorSize) % word32 = place (right / sectorSize) % word32 →
    left / sectorSize = right / sectorSize

/-- The byte is the one of the file at the position. -/
def Locates (place : Nat → Nat) (position sector offset : Nat) : Prop :=
  sector = place (position / sectorSize) % word32 ∧
    offset = position % sectorSize

/-- After `len` bytes are written: they are on the disk, nothing else changed. -/
structure WrittenSoFar (disk : Disk) (table user : Bytes) (start : Nat)
    (place : Nat → Nat) (len : Nat) (memory : Memory) : Prop where
  sameUser : memory.user = user
  sameTable : memory.driver.tableBuf = table
  written : ∀ index, index < len →
    byteAt memory.driver.disk place (start + index) = user index
  frame : ∀ sector offset, offset < sectorSize →
    (∀ index, index < len → ¬ Locates place (start + index) sector offset) →
    memory.driver.disk sector offset = disk sector offset

/-- One access changes a range of one sector of the device. -/
theorem writeAccess_disk (target secOffset count len : Nat) (memory : Memory)
    (sector : Nat) {offset : Nat} (inside : offset < sectorSize) :
    (writeAccess target secOffset count len memory).driver.disk sector offset =
      if sector = target % word32 ∧ secOffset ≤ offset ∧
          offset < secOffset + count then
        memory.user (len + (offset - secOffset))
      else memory.driver.disk sector offset := by
  simp only [writeAccess, Driver.load]
  rw [virtioBlkWriteSector_apply _ _ _ _ inside, Bytes.copy_apply]
  by_cases here : sector = target % word32
  · subst here
    rw [if_pos rfl]
    by_cases range : secOffset ≤ offset ∧ offset < secOffset + count
    · rw [if_pos range, if_pos ⟨rfl, range⟩]
    · rw [if_neg range, if_neg (fun both => range both.2),
        virtioBlkReadSector_inside _ _ _ inside]
  · rw [if_neg here, if_neg (fun both => here both.1)]

/-- One access changes nothing outside the bytes it moves. -/
theorem writeAccess_frame {place : Nat → Nat} {start len count sector : Nat}
    (bound : count ≤ sectorSize - (start + len) % sectorSize)
    (memory : Memory) {offset : Nat} (inside : offset < sectorSize)
    (untouched : ∀ index, len ≤ index → index < len + count →
      ¬ Locates place (start + index) sector offset) :
    (writeAccess (place ((start + len) / sectorSize))
        ((start + len) % sectorSize) count len memory).driver.disk sector
        offset =
      memory.driver.disk sector offset := by
  rw [writeAccess_disk _ _ _ _ _ _ inside, if_neg]
  rintro ⟨same, lower, upper⟩
  have hit := untouched (len + (offset - (start + len) % sectorSize))
    (by omega) (by omega)
  obtain ⟨quotient, remainder⟩ := @position_in_sector start len count
    (len + (offset - (start + len) % sectorSize)) bound (by omega) (by omega)
  exact hit ⟨by rw [quotient]; exact same, by omega⟩

theorem writeAccess_keeps {disk : Disk} {table user : Bytes}
    {start maxCfo : Nat} {place : Nat → Nat}
    (apart : Apart start maxCfo place) :
    Keeps writeAccess start maxCfo place
      (WrittenSoFar disk table user start place) := by
  intro len memory soFar next
  generalize counted : min (sectorSize - (start + len) % sectorSize)
    (maxCfo - (start + len)) = count
  have bound : count ≤ sectorSize - (start + len) % sectorSize := by omega
  have left : count ≤ maxCfo - (start + len) := by omega
  refine ⟨soFar.sameUser, soFar.sameTable, fun index below => ?_,
    fun sector offset inside untouched => ?_⟩
  · have inSector : (start + index) % sectorSize < sectorSize :=
      Nat.mod_lt _ (by decide)
    rw [byteAt, writeAccess_disk _ _ _ _ _ _ inSector]
    by_cases fresh : len ≤ index
    · obtain ⟨quotient, remainder⟩ := position_in_sector bound fresh below
      have range : (start + len) % sectorSize ≤ (start + index) % sectorSize ∧
          (start + index) % sectorSize <
            (start + len) % sectorSize + count := by
        omega
      have which : len + ((start + index) % sectorSize -
          (start + len) % sectorSize) = index := by
        omega
      rw [if_pos ⟨by rw [quotient], range⟩, which, soFar.sameUser]
    · rw [if_neg]
      · exact soFar.written index (Nat.not_le.1 fresh)
      · rintro ⟨same, range⟩
        have together := apart (start + index) (start + len) (by omega)
          (by omega) (by omega) (by omega) same
        simp only [sectorSize] at together range
        omega
  · rw [writeAccess_frame bound memory inside fun index _ below =>
      untouched index below]
    exact soFar.frame sector offset inside fun index below =>
      untouched index (by omega)

/-! ## The two operations on a long enough chain -/

/-- The cluster numbers that the links of a table give. -/
def clusterAt (table : Bytes) (first : Nat) : Nat → Nat
  | 0 => first
  | index + 1 => tableEntry table (clusterAt table first index)

/-- The disk sector of a sector of a file. -/
def placeIn (volume : Fat32Volume) (driver : Driver) (file : File) :
    Nat → Nat :=
  placeOf volume (clusterAt (driver.fatTable volume) file.fat32File.cluster)

/-- The operations record the same walk when all wanted links are cluster numbers. -/
def fullWalk (volume : Fat32Volume) (driver : Driver) (file : File)
    (maxCfo : Nat) : Walk :=
  let clusters :=
    clusterAt (driver.fatTable volume) file.fat32File.cluster
  ⟨(List.range (linkCount volume maxCfo + 1)).map clusters,
    (List.range (linkCount volume maxCfo)).map clusters, none⟩

section Operations

variable {volume : Fat32Volume} {fuel : Nat} {driver : Driver} {file : File}
    {len cfo size maxCfo : Nat}

/-- The chain goes on to the last byte wanted. -/
def Reaches (volume : Fat32Volume) (driver : Driver) (file : File)
    (maxCfo : Nat) : Prop :=
  ∀ index, index ≤ linkCount volume maxCfo →
    clusterAt (driver.fatTable volume) file.fat32File.cluster index <
      endOfChain

theorem transfer_spec {access : Access} {inv : Nat → Memory → Prop}
    (user : Bytes) (nonempty : 0 < volume.secPerCluster) (offset : file.cfo = cfo)
    (sized : driver.fileSize volume file = size) (inside : cfo < size)
    (last : maxCfo = cfo + min len (size - cfo))
    (reaches : Reaches volume driver file maxCfo)
    (enough : linkCount volume maxCfo < fuel)
    (keeps : Keeps access cfo maxCfo (placeIn volume driver file) inv)
    (kept : ∀ len memory, inv len memory →
      memory.driver.tableBuf = driver.fatTable volume)
    (holds : inv 0 ⟨driver.prepare volume file, user⟩) :
    ∃ memory,
      transfer access volume fuel driver file user len =
        some
          ⟨min len (size - cfo), { file with cfo := maxCfo }, memory,
            fullWalk volume driver file maxCfo⟩ ∧
      inv (min len (size - cfo)) memory := by
  have setting : Setting access volume cfo maxCfo
      (clusterAt (driver.fatTable volume) file.fat32File.cluster)
      (driver.fatTable volume) inv :=
    { nonempty := nonempty
      ordered := by omega
      keeps := keeps
      kept := kept
      linked := fun _ => rfl }
  obtain ⟨cursor, ran, cfoEq, lenEq, final⟩ :=
    clusterLoop_done setting holds reaches enough
  have moved : maxCfo - cfo = min len (size - cfo) := by omega
  rw [moved] at lenEq final
  refine ⟨cursor.memory, ?_, final⟩
  rw [transfer_before_end offset (by omega), sized, ← last]
  have start : clusterAt (driver.fatTable volume) file.fat32File.cluster 0 =
      file.fat32File.cluster := rfl
  rw [start] at ran
  rw [ran, Option.map_some]
  dsimp only
  rw [cfoEq, lenEq]
  rfl

/-- `fat32_read` before the end of the file. -/
theorem fat32Read_spec (user : Bytes)
    (nonempty : 0 < volume.secPerCluster) (offset : file.cfo = cfo)
    (sized : driver.fileSize volume file = size) (inside : cfo < size)
    (last : maxCfo = cfo + min len (size - cfo))
    (reaches : Reaches volume driver file maxCfo)
    (enough : linkCount volume maxCfo < fuel) :
    ∃ memory,
      fat32Read volume fuel driver file user len =
        some
          ⟨min len (size - cfo), { file with cfo := maxCfo }, memory,
            fullWalk volume driver file maxCfo⟩ ∧
      ReadSoFar driver.disk (driver.fatTable volume) user cfo
        (placeIn volume driver file) (min len (size - cfo)) memory := by
  refine transfer_spec user nonempty offset sized inside last reaches enough
    (readAccess_keeps _ _ _ _ _ _) (fun _ _ soFar => soFar.sameTable) ?_
  exact
    { sameDisk := rfl
      sameTable := driver.prepare_tableBuf volume file
      filled := fun index => (if_neg (Nat.not_lt_zero index)).symm }

/-- `fat32_write` before the end of the file. -/
theorem fat32Write_spec (user : Bytes)
    (nonempty : 0 < volume.secPerCluster) (offset : file.cfo = cfo)
    (sized : driver.fileSize volume file = size) (inside : cfo < size)
    (last : maxCfo = cfo + min len (size - cfo))
    (reaches : Reaches volume driver file maxCfo)
    (enough : linkCount volume maxCfo < fuel)
    (apart : Apart cfo maxCfo (placeIn volume driver file)) :
    ∃ memory,
      fat32Write volume fuel driver file user len =
        some
          ⟨min len (size - cfo), { file with cfo := maxCfo }, memory,
            fullWalk volume driver file maxCfo⟩ ∧
      WrittenSoFar driver.disk (driver.fatTable volume) user cfo
        (placeIn volume driver file) (min len (size - cfo)) memory := by
  refine transfer_spec user nonempty offset sized inside last reaches enough
    (writeAccess_keeps apart) (fun _ _ soFar => soFar.sameTable) ?_
  exact
    { sameUser := rfl
      sameTable := driver.prepare_tableBuf volume file
      written := fun index below => absurd below (Nat.not_lt_zero index)
      frame := fun _ _ _ _ => rfl }

end Operations

end TinyRiscvOs.Fs
