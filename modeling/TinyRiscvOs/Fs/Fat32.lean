import TinyRiscvOs.Fs.File
import TinyRiscvOs.Fs.Virtio

/-!
# The FAT32 driver of `fat32.c`

The driver's memory is its disk and the two sector buffers `fat32_buf` and
`fat32_table_buf`.  A buffer is a byte store counted from its first byte, so
an access past its 512 bytes reads whatever memory lies there.

`fat32_read` and `fat32_write` are the same two nested loops around a different
access to one sector; the loops are `sectorLoop` and `clusterLoop`.  The cursor
counts bytes below the file size, a `uint32_t`, so its sums do not wrap.  The
loop over clusters ends when the data is moved or at an end mark, which a bad
table need not have: it runs on fuel, and `none` is a run that has used it up.
`Walk` records what the loop visits.
-/

namespace TinyRiscvOs.Fs

open TinyRiscvOs.Lib

/-! ## The volume -/

/-- The fields of `struct fat32_bpb` that the driver uses. -/
structure Fat32Bpb where
  secPerClus : Nat
  rsvdSecCnt : Nat
  numFats : Nat
  fatSz32 : Nat
  bootSectorSignature : Nat
deriving DecidableEq, Repr

/-- The packed header in a sector. -/
def Fat32Bpb.ofBytes (header : Bytes) : Fat32Bpb where
  secPerClus := header.littleEndian 13 1
  rsvdSecCnt := header.littleEndian 14 2
  numFats := header.littleEndian 16 1
  fatSz32 := header.littleEndian 36 4
  bootSectorSignature := header.littleEndian 510 2

theorem bpb_of_read (disk : Disk) (lba : Nat) (header : Bytes) :
    Fat32Bpb.ofBytes (virtioBlkReadSector disk lba header) =
      Fat32Bpb.ofBytes (disk (lba % word32)) := by
  simp (disch := decide) only [Fat32Bpb.ofBytes,
    virtioBlkReadSector_littleEndian]

/-- `struct fat32_volume`. -/
structure Fat32Volume where
  firstDataSec : Nat
  firstFatSec : Nat
  secPerCluster : Nat
  fatSz : Nat
deriving DecidableEq, Repr

/-- `fat32_init`: the volume at `lba`; `header` is the buffer before the call. -/
def fat32Init (disk : Disk) (header : Bytes) (lba : Nat) : Fat32Volume :=
  let bpb := Fat32Bpb.ofBytes (virtioBlkReadSector disk lba header)
  let firstFatSec := (lba + bpb.rsvdSecCnt) % word64
  { firstFatSec := firstFatSec
    secPerCluster := bpb.secPerClus
    -- the product of a `uint8_t` and a `uint32_t` is a `uint32_t`
    firstDataSec := (firstFatSec + bpb.numFats * bpb.fatSz32 % word32) % word64
    fatSz := bpb.fatSz32 }

/-- `is_fat32`. -/
def isFat32 (disk : Disk) (header : Bytes) (lba : Nat) : Bool :=
  (Fat32Bpb.ofBytes (virtioBlkReadSector disk lba header)).bootSectorSignature
    == 0xaa55

/-- `cluster_to_sector`. -/
def clusterToSector (volume : Fat32Volume) (cluster : Nat) : Nat :=
  ((cluster + (word64 - 2)) % word64 * volume.secPerCluster % word64 +
    volume.firstDataSec) % word64

/-- `*((uint32_t*)fat32_table_buf + cluster)`. -/
def tableEntry (table : Bytes) (cluster : Nat) : Nat :=
  table.littleEndian (4 * cluster) 4

/-- The numbers from here on end the loop over a cluster chain. -/
abbrev endOfChain : Nat := 0x0ffffff8

/-! ## The driver's memory -/

/-- The disk, `fat32_buf` and `fat32_table_buf`. -/
structure Driver where
  disk : Disk
  buf : Bytes
  tableBuf : Bytes

/-- A sector read into `fat32_buf`. -/
def Driver.load (driver : Driver) (sector : Nat) : Driver :=
  { driver with buf := virtioBlkReadSector driver.disk sector driver.buf }

/-- A sector read into `fat32_table_buf`. -/
def Driver.loadTable (driver : Driver) (sector : Nat) : Driver :=
  { driver with
    tableBuf := virtioBlkReadSector driver.disk sector driver.tableBuf }

/-- The directory sector of a file read into `fat32_buf`. -/
def Driver.loadDirectory (volume : Fat32Volume) (driver : Driver)
    (file : File) : Driver :=
  driver.load (clusterToSector volume file.fat32File.dir.cluster)

/-- The `size` field of the directory entry of a file, in `fat32_buf`. -/
def Driver.entrySize (driver : Driver) (file : File) : Nat :=
  driver.buf.littleEndian (32 * file.fat32File.dir.index + 28) 4

/-! ## Seeking -/

/-- A sum stored in an `int64_t`. -/
def toInt64 (value : Int) : Int :=
  value.bmod word64

/-- `fat32_lseek`; `none` is the endless loop of `Err`. -/
def fat32Lseek (volume : Fat32Volume) (driver : Driver) (file : File)
    (offset : Int) (whence : Nat) : Option (Int × Driver × File) :=
  let driver := driver.loadDirectory volume file
  let size : Int := driver.entrySize file
  let moved : Option Int :=
    if whence = seekSet then some offset
    else if whence = seekCur then some (toInt64 (file.cfo + offset))
    else if whence = seekEnd then some (toInt64 (size + offset))
    else none
  moved.map fun cfo =>
    let cfo := if 0 > cfo then 0 else cfo
    let cfo := if size < cfo then size else cfo
    (cfo, driver, { file with cfo := cfo })

/-! ## Moving data -/

/-- What the loop over clusters has done: clusters entered, table entries
followed, and the entry that ended it if it did not end by itself. -/
structure Walk where
  visited : List Nat
  links : List Nat
  stop : Option Nat
deriving DecidableEq, Repr

/-- The driver's memory and the buffer of the caller. -/
structure Memory where
  driver : Driver
  user : Bytes

/-- The variables of the loops: `cfo`, `read_cfo` or `write_cfo`, and
`read_len` or `write_len`. -/
structure Cursor where
  cfo : Nat
  passed : Nat
  len : Nat
  memory : Memory

/-- One access to a sector: its number, the offset in it, the number of bytes
and the bytes moved before. -/
abbrev Access := Nat → Nat → Nat → Nat → Memory → Memory

/-- The loop over the remaining sectors of a cluster. -/
def sectorLoop (access : Access) (volume : Fat32Volume) (maxCfo cluster : Nat) :
    Nat → Nat → Cursor → Cursor
  | 0, _, cursor => cursor
  | rest + 1, sector, cursor =>
      if cursor.passed + sectorSize ≤ cursor.cfo then
        sectorLoop access volume maxCfo cluster rest (sector + 1)
          { cursor with passed := cursor.passed + sectorSize }
      else if cursor.passed ≥ maxCfo then cursor
      else
        let passed := cursor.passed + (cursor.cfo - cursor.passed)
        let secOffset := passed % sectorSize
        let contentLeftSec := sectorSize - secOffset
        let contentLeft := maxCfo - passed
        let copyLen := min contentLeftSec contentLeft
        let target := (clusterToSector volume cluster + sector) % word64
        sectorLoop access volume maxCfo cluster rest (sector + 1)
          { cfo := passed + copyLen
            passed := passed + copyLen
            len := cursor.len + copyLen
            memory := access target secOffset copyLen cursor.len cursor.memory }

/-- The loop over the clusters of a file. -/
def clusterLoop (access : Access) (volume : Fat32Volume) (maxCfo : Nat) :
    Nat → Nat → Walk → Cursor → Option (Walk × Cursor)
  | 0, _, _, _ => none
  | fuel + 1, cluster, walk, cursor =>
      if cluster < endOfChain then
        let cursor :=
          sectorLoop access volume maxCfo cluster volume.secPerCluster 0 cursor
        let walk := { walk with visited := walk.visited ++ [cluster] }
        if cursor.passed ≥ maxCfo then some (walk, cursor)
        else
          clusterLoop access volume maxCfo fuel
            (tableEntry cursor.memory.driver.tableBuf cluster)
            { walk with links := walk.links ++ [cluster] } cursor
      else some ({ walk with stop := some cluster }, cursor)

/-- What `fat32_read` and `fat32_write` leave behind. -/
structure Transfer where
  returned : Nat
  file : File
  memory : Memory
  walk : Walk

/-- The frame that `fat32_read` and `fat32_write` share. -/
def transfer (access : Access) (volume : Fat32Volume) (fuel : Nat)
    (driver : Driver) (file : File) (user : Bytes) (len : Nat) :
    Option Transfer :=
  let driver := driver.loadDirectory volume file
  let size := driver.entrySize file
  if file.cfo ≥ size then some ⟨0, file, ⟨driver, user⟩, ⟨[], [], none⟩⟩
  else
    let cfo := (file.cfo % word64).toNat
    let maxCfo := cfo + min len (size - cfo)
    let driver := driver.loadTable volume.firstFatSec
    (clusterLoop access volume maxCfo fuel file.fat32File.cluster ⟨[], [], none⟩
      ⟨cfo, 0, 0, ⟨driver, user⟩⟩).map fun (walk, cursor) =>
        ⟨cursor.len, { file with cfo := cursor.cfo }, cursor.memory, walk⟩

/-- The access of `fat32_read`: from the sector to the caller's buffer. -/
def readAccess : Access := fun sector secOffset copyLen readLen memory =>
  let driver := memory.driver.load sector
  { driver := driver
    user := memory.user.copy readLen driver.buf secOffset copyLen }

/-- The access of `fat32_write`: read the sector, change it and write it back. -/
def writeAccess : Access := fun sector secOffset copyLen writeLen memory =>
  let driver := memory.driver.load sector
  let buf := driver.buf.copy secOffset memory.user writeLen copyLen
  { driver :=
      { driver with
        buf := buf
        disk := virtioBlkWriteSector driver.disk sector buf }
    user := memory.user }

/-- `fat32_read`. -/
def fat32Read (volume : Fat32Volume) (fuel : Nat) (driver : Driver)
    (file : File) (buf : Bytes) (len : Nat) : Option Transfer :=
  transfer readAccess volume fuel driver file buf len

/-- `fat32_write`. -/
def fat32Write (volume : Fat32Volume) (fuel : Nat) (driver : Driver)
    (file : File) (buf : Bytes) (len : Nat) : Option Transfer :=
  transfer writeAccess volume fuel driver file buf len

end TinyRiscvOs.Fs
