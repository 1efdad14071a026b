import TinyRiscvOs.Lib.Bytes

/-!
# The block device behind `virtio.c`

A disk is a function from sector numbers to sectors.  A request carries the
sector number that `virtio_blk_cmd` stored in its header; the device then moves
one sector between the disk and the buffer of the request.
-/

namespace TinyRiscvOs.Fs

open TinyRiscvOs.Lib

/-- `uint64_t` arithmetic of the file system is modulo this number. -/
abbrev word64 : Nat := 2 ^ 64

/-- `uint32_t` arithmetic is modulo this number. -/
abbrev word32 : Nat := 2 ^ 32

/-- `VIRTIO_BLK_SECTOR_SIZE`. -/
abbrev sectorSize : Nat := 512

/-- Sectors by number; of each sector the first `sectorSize` bytes count. -/
abbrev Disk := Nat → Bytes

/-- The request types `VIRTIO_BLK_T_IN` and `VIRTIO_BLK_T_OUT`. -/
inductive RequestType where
  | input
  | output
deriving DecidableEq, Repr

/-- The header that `virtio_blk_cmd` fills in. -/
structure VirtioBlkReq where
  type : RequestType
  sector : Nat
deriving DecidableEq, Repr

/-- `virtio_blk_cmd`: its `sector` parameter is a `uint32_t`. -/
def virtioBlkCmd (type : RequestType) (sector : Nat) : VirtioBlkReq where
  type := type
  sector := sector % word32

/-- The device serves one request on a buffer of one sector. -/
def VirtioBlkReq.serve (request : VirtioBlkReq) (disk : Disk) (buf : Bytes) :
    Disk × Bytes :=
  match request.type with
  | .input => (disk, buf.copy 0 (disk request.sector) 0 sectorSize)
  | .output =>
      (Function.update disk request.sector
        ((disk request.sector).copy 0 buf 0 sectorSize), buf)

/-- `virtio_blk_read_sector`: the buffer afterwards. -/
def virtioBlkReadSector (disk : Disk) (sector : Nat) (buf : Bytes) : Bytes :=
  ((virtioBlkCmd .input sector).serve disk buf).2

/-- `virtio_blk_write_sector`: the disk afterwards. -/
def virtioBlkWriteSector (disk : Disk) (sector : Nat) (buf : Bytes) : Disk :=
  ((virtioBlkCmd .output sector).serve disk buf).1

theorem virtioBlkReadSector_inside (disk : Disk) (sector : Nat) (buf : Bytes)
    {offset : Nat} (inside : offset < sectorSize) :
    virtioBlkReadSector disk sector buf offset =
      disk (sector % word32) offset := by
  simp only [virtioBlkReadSector, virtioBlkCmd, VirtioBlkReq.serve]
  rw [Bytes.copy_inside (Nat.zero_le offset) (by omega), Nat.zero_add,
    Nat.sub_zero]

theorem virtioBlkReadSector_beyond (disk : Disk) (sector : Nat) (buf : Bytes)
    {offset : Nat} (beyond : sectorSize ≤ offset) :
    virtioBlkReadSector disk sector buf offset = buf offset :=
  Bytes.copy_outside (Or.inr (by omega))

/-- Numbers in the buffer are numbers in the sector. -/
theorem virtioBlkReadSector_littleEndian (disk : Disk) (sector : Nat)
    (buf : Bytes) {start width : Nat} (inside : start + width ≤ sectorSize) :
    (virtioBlkReadSector disk sector buf).littleEndian start width =
      (disk (sector % word32)).littleEndian start width :=
  Bytes.littleEndian_congr fun _ _ upper =>
    virtioBlkReadSector_inside _ _ _ (Nat.lt_of_lt_of_le upper inside)

theorem virtioBlkWriteSector_apply (disk : Disk) (sector : Nat) (buf : Bytes)
    (other : Nat) {offset : Nat} (inside : offset < sectorSize) :
    virtioBlkWriteSector disk sector buf other offset =
      if other = sector % word32 then buf offset else disk other offset := by
  have moved : (disk (sector % word32)).copy 0 buf 0 sectorSize offset =
      buf offset := by
    rw [Bytes.copy_inside (Nat.zero_le offset) (by omega), Nat.zero_add,
      Nat.sub_zero]
  simp only [virtioBlkWriteSector, virtioBlkCmd, VirtioBlkReq.serve,
    Function.update_apply]
  split
  · exact moved
  · rfl

end TinyRiscvOs.Fs
