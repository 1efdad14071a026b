import TinyRiscvOs.Fs.Fat32Chain

/-!
# A single table entry

`next_cluster` reads the sector of the table that holds the entry of a cluster,
but takes the offset in that sector modulo its number of entries, `128`, where
its number of bytes is meant.  It finds the entries of the first quarter of
each sector and repeats them for the other three.
-/

namespace TinyRiscvOs.Fs

open TinyRiscvOs.Lib

/-- `fat_offset` of `next_cluster`. -/
def fatOffset (cluster : Nat) : Nat :=
  cluster * 4 % word64

/-- `fat_sector` of `next_cluster`. -/
def fatSector (volume : Fat32Volume) (cluster : Nat) : Nat :=
  (volume.firstFatSec + fatOffset cluster / sectorSize) % word64

/-- `next_cluster`: the entry, and the driver with the sector in its buffer. -/
def nextCluster (volume : Fat32Volume) (driver : Driver) (cluster : Nat) :
    Nat × Driver :=
  let driver := driver.loadTable (fatSector volume cluster)
  let indexInSector := fatOffset cluster % (sectorSize / 4)
  (driver.tableBuf.littleEndian indexInSector 4, driver)

/-- The cluster whose entry `next_cluster` returns instead. -/
def aliasOf (cluster : Nat) : Nat :=
  cluster - cluster % 128 + cluster % 32

theorem aliasOf_eq_iff {cluster : Nat} :
    aliasOf cluster = cluster ↔ cluster % 128 < 32 := by
  rw [aliasOf]
  omega

section Entries

variable {volume : Fat32Volume} {cluster : Nat}

theorem fatOffset_eq (small : cluster < 2 ^ 28) :
    fatOffset cluster = cluster * 4 :=
  Nat.mod_eq_of_lt (by simp only [word64]; omega)

/-- Both helpers name the same sector. -/
theorem fatSector_eq (small : cluster < 2 ^ 28) :
    fatSector volume cluster =
      fat32TableSectorOfCluster volume cluster % word64 := by
  have quotient : cluster * 4 / sectorSize = cluster / (sectorSize / 4) := by
    simp only [sectorSize]
    omega
  rw [fatSector, fatOffset_eq small, quotient, fat32TableSectorOfCluster]

/-- The device reads this sector if its number has 32 bits. -/
theorem fatSector_device_iff (small : cluster < 2 ^ 28) :
    fatSector volume cluster % word32 =
        fat32TableSectorOfCluster volume cluster ↔
      fat32TableSectorOfCluster volume cluster < word32 := by
  have device : fatSector volume cluster % word32 =
      fat32TableSectorOfCluster volume cluster % word32 := by
    rw [fatSector_eq small]
    exact Nat.mod_mod_of_dvd _ (by decide)
  rw [device, Nat.mod_eq_iff_lt (by decide)]

/-- The entry that `next_cluster` returns. -/
theorem nextCluster_eq (small : cluster < 2 ^ 28) (driver : Driver)
    (near : fat32TableSectorOfCluster volume cluster < word32) :
    (nextCluster volume driver cluster).1 =
      rawEntry volume driver.disk (aliasOf cluster) := by
  have sector : fat32TableSectorOfCluster volume (aliasOf cluster) =
      fat32TableSectorOfCluster volume cluster := by
    simp only [fat32TableSectorOfCluster, aliasOf, sectorSize]
    omega
  have offset : fatOffset cluster % (sectorSize / 4) =
      4 * (aliasOf cluster % (sectorSize / 4)) := by
    rw [fatOffset_eq small]
    simp only [aliasOf, sectorSize]
    omega
  have inside : 4 * (aliasOf cluster % (sectorSize / 4)) + 4 ≤ sectorSize := by
    simp only [sectorSize]
    omega
  simp only [nextCluster, Driver.loadTable]
  rw [offset, virtioBlkReadSector_littleEndian _ _ _ inside,
    (fatSector_device_iff small).2 near, rawEntry, sector]

end Entries

/--
`next_cluster` returns the entry of a cluster, from the sector of the other
helper, exactly where this sector has a 32-bit number and the cluster is in the
first quarter of its entries, or the entry that is taken instead has the same
value.
-/
theorem nextCluster_exact_iff (volume : Fat32Volume) (driver : Driver)
    {cluster : Nat} (small : cluster < 2 ^ 28) :
    ((nextCluster volume driver cluster).1 =
          rawEntry volume driver.disk cluster ∧
        fatSector volume cluster % word32 =
          fat32TableSectorOfCluster volume cluster) ↔
      fat32TableSectorOfCluster volume cluster < word32 ∧
        (cluster % 128 < 32 ∨
          rawEntry volume driver.disk (aliasOf cluster) =
            rawEntry volume driver.disk cluster) := by
  rw [fatSector_device_iff small, and_comm]
  refine and_congr_right fun near => ?_
  rw [nextCluster_eq small driver near]
  constructor
  · exact .inr
  · rintro (first | same)
    · rw [aliasOf_eq_iff.2 first]
    · exact same

/-- An entry of the first quarter of the second sector. -/
theorem nextCluster_exact_second_sector :
    (nextCluster SecondTableSector.volume SecondTableSector.driver 128).1 =
        rawEntry SecondTableSector.volume SecondTableSector.driver.disk 128 ∧
      fatSector SecondTableSector.volume 128 % word32 =
        fat32TableSectorOfCluster SecondTableSector.volume 128 :=
  (nextCluster_exact_iff _ _ (by decide)).2
    ⟨by decide, .inl (by decide)⟩

/-- For cluster `35` the end mark of cluster `3` is returned, its own entry is `0`. -/
theorem nextCluster_repeats :
    (nextCluster SecondTableSector.volume SecondTableSector.driver 35).1 =
        0x0fffffff ∧
      rawEntry SecondTableSector.volume SecondTableSector.driver.disk 35 =
        0 := by
  rw [nextCluster_eq (by decide) _ (by decide)]
  decide

end TinyRiscvOs.Fs
