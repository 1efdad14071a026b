import TinyRiscvOs.Fs.Fat32Content

/-!
# What a write leaves alone

A write to one file of a volume must change nothing but the bytes it writes.
The place of these bytes is the one of the format: the data area starts after
the reserved sectors and all tables.  The driver keeps to it exactly when every
content byte has a sector number of 32 bits, since `virtio_blk_cmd` takes the
sector as a `uint32_t`.
-/

namespace TinyRiscvOs.Fs

open TinyRiscvOs.Lib

/-! ## The data area of the format -/

/-- The first sector of the data area of the volume at `lba`. -/
def formatFirstData (disk : Disk) (header : Bytes) (lba : Nat) : Nat :=
  let bpb := Fat32Bpb.ofBytes (virtioBlkReadSector disk lba header)
  lba + bpb.rsvdSecCnt + bpb.numFats * bpb.fatSz32

/-- A data area with 32-bit sector numbers starts where the driver has it. -/
theorem firstDataSec_eq {disk : Disk} {header : Bytes} {lba : Nat}
    (low : formatFirstData disk header lba < word32) :
    (fat32Init disk header lba).firstDataSec =
      formatFirstData disk header lba := by
  simp only [fat32Init, formatFirstData, Fat32Bpb.ofBytes, word32,
    word64] at *
  generalize virtioBlkReadSector disk lba header = sector at *
  generalize sector.littleEndian 16 1 * sector.littleEndian 36 4 = tables at *
  omega

/-! ## The property -/

/-- The volume at `lba` and its files. -/
structure Volume where
  disk : Disk
  header : Bytes
  lba : Nat
  files : List StoredFile

namespace Volume

/-- What the driver knows of the volume. -/
def driverVolume (volume : Volume) : Fat32Volume :=
  fat32Init volume.disk volume.header volume.lba

/--
The files are on the disk, with pairwise disjoint chains; `mbr_init` reads
`lba` from a `uint32_t`.
-/
structure WellFormed (volume : Volume) : Prop where
  word : volume.lba < word32
  nonempty : 0 < volume.driverVolume.secPerCluster
  onDisk : ∀ stored ∈ volume.files,
    stored.OnDisk volume.driverVolume volume.disk
  disjoint : volume.files.Pairwise fun left right =>
    ∀ cluster ∈ left.chain, cluster ∉ right.chain

/-- The sector of a content byte. -/
def sectorOf (volume : Volume) (stored : StoredFile) (position : Nat) : Nat :=
  contentSector (formatFirstData volume.disk volume.header volume.lba)
    volume.driverVolume.secPerCluster stored.chain position

/-- `file` is open on a file of the volume. -/
structure IsOpen (stored : StoredFile) (file : File) : Prop where
  handle : file.fat32File = stored.handle
  offset : 0 ≤ file.cfo

section Addressed

variable {driverVolume : Fat32Volume} {fuel : Nat} {driver : Driver}
    {file : File} {stored other : StoredFile}

theorem IsOpen.offset_eq (isOpen : IsOpen stored file) :
    file.cfo = (file.cfo.toNat : Nat) :=
  (Int.toNat_of_nonneg isOpen.offset).symm

theorem IsOpen.at_end (isOpen : IsOpen stored file)
    (onDisk : stored.OnDisk driverVolume driver.disk)
    (beyond : ¬ file.cfo.toNat < stored.size) :
    (driver.fileSize driverVolume file : Int) ≤ file.cfo := by
  rw [fileSize_eq isOpen.handle onDisk.index_lt, onDisk.sized,
    isOpen.offset_eq]
  exact Int.ofNat_le.2 (Nat.not_lt.1 beyond)

/-- A write at any offset returns and stays inside the content. -/
theorem write_confined (onDisk : stored.OnDisk driverVolume driver.disk)
    (addressed : stored.Addressed driverVolume)
    (nonempty : 0 < driverVolume.secPerCluster)
    (enough : stored.chain.length ≤ fuel) (isOpen : IsOpen stored file)
    (user : Bytes) (len : Nat) :
    ∃ result,
      fat32Write driverVolume fuel driver file user len = some result ∧
      (∀ index, index < result.returned →
        file.cfo.toNat + index < stored.size) ∧
      ∀ sector offset, offset < sectorSize →
        (∀ index, index < result.returned →
          ¬ (sector = contentSector driverVolume.firstDataSec
                driverVolume.secPerCluster stored.chain
                (file.cfo.toNat + index) ∧
              offset = (file.cfo.toNat + index) % sectorSize)) →
        result.memory.driver.disk sector offset = driver.disk sector offset := by
  by_cases inside : file.cfo.toNat < stored.size
  · obtain ⟨memory, result, -, frame⟩ := onDisk.write addressed isOpen.handle
      nonempty isOpen.offset_eq inside enough user len
    exact ⟨_, result, fun index below => by dsimp only at below; omega, frame⟩
  · exact ⟨_, transfer_at_end (isOpen.at_end onDisk inside),
      fun index below => absurd below (Nat.not_lt_zero index),
      fun _ _ _ _ => rfl⟩

/-- A write to one file leaves the bytes of another. -/
theorem byte_other {disk : Disk} {cfo count : Nat}
    (onDisk : stored.OnDisk driverVolume driver.disk)
    (otherOnDisk : other.OnDisk driverVolume driver.disk)
    (nonempty : 0 < driverVolume.secPerCluster)
    (disjoint : ∀ cluster ∈ stored.chain, cluster ∉ other.chain)
    (inside : ∀ index, index < count → cfo + index < stored.size)
    (frame : ∀ sector offset, offset < sectorSize →
      (∀ index, index < count →
        ¬ (sector = contentSector driverVolume.firstDataSec
              driverVolume.secPerCluster stored.chain (cfo + index) ∧
            offset = (cfo + index) % sectorSize)) →
      disk sector offset = driver.disk sector offset)
    {position : Nat} (below : position < other.size) :
    other.byte driverVolume disk position =
      other.byte driverVolume driver.disk position := by
  refine frame _ _ (Nat.mod_lt _ (by decide)) fun index small located => ?_
  have otherCluster := otherOnDisk.cluster_lt below
  have cluster := onDisk.cluster_lt (inside index small)
  have same := (contentSector_eq nonempty
    (otherOnDisk.cluster_small otherCluster) (onDisk.cluster_small cluster)
    located.1).1
  rw [List.getD_eq_getElem _ _ otherCluster,
    List.getD_eq_getElem _ _ cluster] at same
  exact disjoint _ (List.getElem_mem cluster)
    (same ▸ List.getElem_mem otherCluster)

end Addressed

/-! ## The two directions -/

variable {volume : Volume} {fuel : Nat} {stored : StoredFile}

/-- Content with 32-bit sector numbers is where the driver looks for it. -/
theorem WellFormed.addressed (wellFormed : volume.WellFormed)
    (member : stored ∈ volume.files)
    (within : ∀ position, position < stored.size →
      volume.sectorOf stored position < word32) :
    stored.Addressed volume.driverVolume ∧
      ∀ position, position < stored.size →
        volume.sectorOf stored position =
          contentSector volume.driverVolume.firstDataSec
            volume.driverVolume.secPerCluster stored.chain position := by
  have same : ∀ position, position < stored.size →
      volume.sectorOf stored position =
        contentSector volume.driverVolume.firstDataSec
          volume.driverVolume.secPerCluster stored.chain position := by
    intro position below
    have low := Nat.lt_trans
      ((wellFormed.onDisk stored member).directory_lt wellFormed.nonempty below
        (formatFirstData volume.disk volume.header volume.lba))
      (within position below)
    have start := firstDataSec_eq low
    rw [sectorOf, driverVolume, start]
  refine ⟨fun position below => ?_, same⟩
  rw [← same position below]
  exact within position below

/-- A `struct file` value at an offset of a file. -/
def fileAt (stored : StoredFile) (position : Nat) : File where
  opened := 1
  perms := 3
  cfo := position
  fsType := 1
  fat32File := stored.handle
  lseek := 1
  write := 2
  read := 3
  path := fun _ => 0

end Volume

/-! ## Two volumes -/

/-- The volume with its two files. -/
def TwoFiles.stored : Volume :=
  ⟨disk, fun _ => 0, 0, [files false, files true]⟩

theorem TwoFiles.wellFormed : TwoFiles.stored.WellFormed where
  word := by decide
  nonempty := TwoFiles.nonempty
  onDisk := List.forall_mem_cons.2
    ⟨onDisk false, List.forall_mem_singleton.2 (onDisk true)⟩
  disjoint := List.pairwise_pair.2 (by decide)

namespace HighVolume

/-- The sectors of the small volume from `lba` on. -/
def lba : Nat := 2 ^ 32 - 3

def disk : Disk := fun sector =>
  if lba ≤ sector then SmallVolume.disk (sector - lba) else fun _ => 0

def volume : Volume :=
  ⟨disk, fun _ => 0, lba, [SmallVolume.stored]⟩

theorem driverVolume_eq :
    volume.driverVolume = ⟨2 ^ 32 - 1, 2 ^ 32 - 2, 1, 1⟩ := by
  simp only [Volume.driverVolume, volume, fat32Init, bpb_of_read]
  decide

theorem wellFormed : volume.WellFormed where
  word := by decide
  nonempty := by
    rw [driverVolume_eq]
    decide
  onDisk := by
    rw [driverVolume_eq]
    exact List.forall_mem_singleton.2
      { index_lt := by decide
        sized := by decide
        chained := .inr (.link (by decide) (.mark (by decide)))
        nodup := by decide
        fits := by decide }
  disjoint := List.pairwise_singleton _ _

end HighVolume

end TinyRiscvOs.Fs
