import Mathlib.Data.List.GetD
import Mathlib.Data.List.Nodup
import TinyRiscvOs.Fs.ReadWrite

/-!
# Files on a FAT32 volume

The layout of a file, independently of the driver's loops: its directory entry
in the first sector of the root directory, its cluster chain in the table and
the sectors of its bytes.  The second half connects it with the sectors that
the loops address.
-/

namespace TinyRiscvOs.Fs

open TinyRiscvOs.Lib

/-! ## Cluster chains -/

/--
The clusters from `first` on, each of them allowed, up to an end mark; `entry`
is the table.
-/
inductive ChainFrom (allowed : Nat → Prop) (entry : Nat → Nat) :
    Nat → List Nat → Prop where
  | mark {first : Nat} (end_ : endOfChain ≤ first) :
      ChainFrom allowed entry first []
  | link {first : Nat} {rest : List Nat} (isAllowed : allowed first)
      (chain : ChainFrom allowed entry (entry first) rest) :
      ChainFrom allowed entry first (first :: rest)

/-- The cluster numbers that the first FAT sector and the data area share. -/
def SmallCluster (cluster : Nat) : Prop :=
  3 ≤ cluster ∧ cluster < 128

instance (cluster : Nat) : Decidable (SmallCluster cluster) :=
  inferInstanceAs (Decidable (3 ≤ cluster ∧ cluster < 128))

theorem SmallCluster.lt_endOfChain {cluster : Nat}
    (small : SmallCluster cluster) : cluster < endOfChain :=
  Nat.lt_trans small.2 (by decide)

namespace ChainFrom

variable {allowed : Nat → Prop} {entry other : Nat → Nat} {first : Nat}
    {chain : List Nat}

theorem all_allowed (isChain : ChainFrom allowed entry first chain) :
    ∀ cluster ∈ chain, allowed cluster := by
  induction isChain with
  | mark => simp
  | link isAllowed _ induction =>
      exact List.forall_mem_cons.2 ⟨isAllowed, induction⟩

/-- A chain depends on the entries of its own clusters. -/
theorem congr (isChain : ChainFrom allowed entry first chain)
    (agree : ∀ cluster ∈ chain, entry cluster = other cluster) :
    ChainFrom allowed other first chain := by
  induction isChain with
  | mark end_ => exact .mark end_
  | link isAllowed _ induction =>
      have here := agree _ List.mem_cons_self
      refine .link isAllowed (here ▸ induction fun cluster member => ?_)
      exact agree cluster (List.mem_cons_of_mem _ member)

end ChainFrom

theorem clusterAt_succ (table : Bytes) (first index : Nat) :
    clusterAt table first (index + 1) =
      clusterAt table (tableEntry table first) index := by
  induction index with
  | zero => rfl
  | succ index induction =>
      rw [clusterAt, induction]
      rfl

/--
As long as the links of the table in memory are those of the chain, the loops
follow the chain.
-/
theorem clusterAt_chain {allowed : Nat → Prop} {entry : Nat → Nat}
    {table : Bytes} {first : Nat} {chain : List Nat}
    (isChain : ChainFrom allowed entry first chain) {index : Nat}
    (inside : index < chain.length)
    (agree : ∀ earlier, earlier < index →
      tableEntry table (chain.getD earlier 0) =
        entry (chain.getD earlier 0)) :
    clusterAt table first index = chain.getD index 0 := by
  induction isChain generalizing index with
  | mark => simp at inside
  | @link first rest _ _ induction =>
      cases index with
      | zero => rfl
      | succ index =>
          have here := agree 0 (Nat.succ_pos index)
          rw [List.getD_cons_zero] at here
          rw [clusterAt_succ, here, List.getD_cons_succ]
          refine induction (by simpa using inside) fun earlier below => ?_
          simpa using agree (earlier + 1) (by omega)

/-! ## Files -/

/-- An entry of the first FAT sector. -/
def fatEntry (volume : Fat32Volume) (disk : Disk) (cluster : Nat) : Nat :=
  (disk (volume.firstFatSec % word32)).littleEndian (4 * cluster) 4

/-- The size field of an entry of the first root directory sector. -/
def directorySize (volume : Fat32Volume) (disk : Disk) (index : Nat) : Nat :=
  (disk (volume.firstDataSec % word32)).littleEndian (32 * index + 28) 4

/-- A file: its first cluster, directory entry, length and cluster chain. -/
structure StoredFile where
  first : Nat
  index : Nat
  size : Nat
  chain : List Nat
deriving DecidableEq, Repr

/-- What `fat32_open_file` returns for a file. -/
def StoredFile.handle (stored : StoredFile) : Fat32File :=
  ⟨stored.first, ⟨2, stored.index⟩⟩

/-- The sector of a byte of a file on a volume whose data area starts at `firstData`. -/
def contentSector (firstData secPerCluster : Nat) (chain : List Nat)
    (position : Nat) : Nat :=
  firstData +
    (chain.getD (position / (sectorSize * secPerCluster)) 0 - 2) *
      secPerCluster +
    position / sectorSize % secPerCluster

/--
The file is on the disk: its entry is in the first sector of the root
directory, its chain consists of distinct clusters and is long enough.  An
empty file may have no chain at all.
-/
structure StoredFile.OnDisk (stored : StoredFile) (volume : Fat32Volume)
    (disk : Disk) : Prop where
  index_lt : stored.index < 16
  sized : directorySize volume disk stored.index = stored.size
  chained : stored.chain = [] ∨
    ChainFrom SmallCluster (fatEntry volume disk) stored.first stored.chain
  nodup : stored.chain.Nodup
  fits : stored.size ≤ stored.chain.length * volume.clusterBytes

/-- Every content byte lies in a sector that a 32-bit number addresses. -/
def StoredFile.Addressed (stored : StoredFile) (volume : Fat32Volume) : Prop :=
  ∀ position, position < stored.size →
    contentSector volume.firstDataSec volume.secPerCluster stored.chain
      position < word32

namespace StoredFile

variable {stored : StoredFile} {volume : Fat32Volume} {disk other : Disk}
    {position : Nat}

theorem OnDisk.all_small (onDisk : stored.OnDisk volume disk) :
    ∀ cluster ∈ stored.chain, SmallCluster cluster := by
  rcases onDisk.chained with none | chained
  · simp [none]
  · exact chained.all_allowed

/-- The file stays on the disk while the table and the directory stay. -/
theorem OnDisk.congr (onDisk : stored.OnDisk volume disk)
    (table : ∀ offset, offset < sectorSize →
      disk (volume.firstFatSec % word32) offset =
        other (volume.firstFatSec % word32) offset)
    (directory : ∀ offset, offset < sectorSize →
      disk (volume.firstDataSec % word32) offset =
        other (volume.firstDataSec % word32) offset) :
    stored.OnDisk volume other where
  index_lt := onDisk.index_lt
  sized := by
    have index := onDisk.index_lt
    rw [← onDisk.sized]
    refine Bytes.littleEndian_congr fun offset _ upper => ?_
    exact (directory offset (by simp only [sectorSize]; omega)).symm
  chained := by
    refine onDisk.chained.imp_right fun chained =>
      chained.congr fun cluster member => ?_
    have small := onDisk.all_small cluster member
    refine Bytes.littleEndian_congr fun offset _ upper => ?_
    exact table offset (by
      have upper128 := small.2
      simp only [sectorSize]
      omega)
  nodup := onDisk.nodup
  fits := onDisk.fits

/-- A content byte belongs to a cluster of the chain. -/
theorem OnDisk.cluster_lt (onDisk : stored.OnDisk volume disk)
    (inside : position < stored.size) :
    position / (sectorSize * volume.secPerCluster) < stored.chain.length := by
  have bound := Nat.lt_of_lt_of_le inside onDisk.fits
  rw [Fat32Volume.clusterBytes] at bound
  exact Nat.div_lt_of_lt_mul (Nat.mul_comm _ _ ▸ bound)

theorem OnDisk.cluster_small (onDisk : stored.OnDisk volume disk)
    {index : Nat} (inside : index < stored.chain.length) :
    SmallCluster (stored.chain.getD index 0) := by
  rw [List.getD_eq_getElem _ _ inside]
  exact onDisk.all_small _ (List.getElem_mem inside)

/-- Content lies after the first sector of the root directory. -/
theorem OnDisk.directory_lt (onDisk : stored.OnDisk volume disk)
    (nonempty : 0 < volume.secPerCluster) (inside : position < stored.size)
    (firstData : Nat) :
    firstData <
      contentSector firstData volume.secPerCluster stored.chain position := by
  have small := onDisk.cluster_small (onDisk.cluster_lt inside)
  have first : 0 < (stored.chain.getD
      (position / (sectorSize * volume.secPerCluster)) 0 - 2) *
        volume.secPerCluster :=
    Nat.mul_pos (by have := small.1; omega) nonempty
  rw [contentSector]
  omega

end StoredFile

/-- A number below the cluster size is determined together with its cluster. -/
theorem cluster_sector_injective {left right secPerCluster low high : Nat}
    (lowLt : low < secPerCluster) (highLt : high < secPerCluster)
    (same : left * secPerCluster + low = right * secPerCluster + high) :
    left = right ∧ low = high := by
  have positive : 0 < secPerCluster := by omega
  have quotient := congrArg (· / secPerCluster) same
  have remainder := congrArg (· % secPerCluster) same
  simp only [Nat.mul_comm _ secPerCluster, Nat.mul_add_div positive,
    Nat.mul_add_mod, Nat.div_eq_of_lt lowLt, Nat.div_eq_of_lt highLt,
    Nat.mod_eq_of_lt lowLt, Nat.mod_eq_of_lt highLt] at quotient remainder
  exact ⟨by simpa using quotient, remainder⟩

/-- Equal content sectors are the same cluster and the same sector in it. -/
theorem contentSector_eq {firstData secPerCluster left right : Nat}
    {chain others : List Nat} (nonempty : 0 < secPerCluster)
    (leftSmall : SmallCluster
      (chain.getD (left / (sectorSize * secPerCluster)) 0))
    (rightSmall : SmallCluster
      (others.getD (right / (sectorSize * secPerCluster)) 0))
    (same : contentSector firstData secPerCluster chain left =
      contentSector firstData secPerCluster others right) :
    chain.getD (left / (sectorSize * secPerCluster)) 0 =
        others.getD (right / (sectorSize * secPerCluster)) 0 ∧
      left / sectorSize % secPerCluster =
        right / sectorSize % secPerCluster := by
  simp only [contentSector, Nat.add_assoc, Nat.add_left_cancel_iff] at same
  have both := cluster_sector_injective (Nat.mod_lt _ nonempty)
    (Nat.mod_lt _ nonempty) same
  have leftLower := leftSmall.1
  have rightLower := rightSmall.1
  exact ⟨by omega, both.2⟩

namespace StoredFile

variable {stored : StoredFile} {volume : Fat32Volume} {disk : Disk}

/-- Different sectors of a file are different sectors of the volume. -/
theorem OnDisk.sector_injective (onDisk : stored.OnDisk volume disk)
    (nonempty : 0 < volume.secPerCluster) {firstData left right : Nat}
    (leftInside : left < stored.size) (rightInside : right < stored.size)
    (same :
      contentSector firstData volume.secPerCluster stored.chain left =
        contentSector firstData volume.secPerCluster stored.chain right) :
    left / sectorSize = right / sectorSize := by
  have leftCluster := onDisk.cluster_lt leftInside
  have rightCluster := onDisk.cluster_lt rightInside
  obtain ⟨clusters, sectors⟩ := contentSector_eq nonempty
    (onDisk.cluster_small leftCluster) (onDisk.cluster_small rightCluster) same
  rw [List.getD_eq_getElem _ _ leftCluster,
    List.getD_eq_getElem _ _ rightCluster,
    List.Nodup.getElem_inj_iff onDisk.nodup, ← Nat.div_div_eq_div_mul,
    ← Nat.div_div_eq_div_mul] at clusters
  rw [← Nat.div_add_mod (left / sectorSize) volume.secPerCluster, clusters,
    sectors, Nat.div_add_mod]

end StoredFile

/-! ## The sectors that the loops address -/

section Driver

variable {volume : Fat32Volume} {driver : Driver} {file : File}
    {stored : StoredFile}

theorem clusterToSector_word32 {cluster sector : Nat} (lower : 2 ≤ cluster)
    (upper : cluster < word32) :
    (clusterToSector volume cluster + sector) % word64 % word32 =
      (volume.firstDataSec + (cluster - 2) * volume.secPerCluster + sector) %
        word32 := by
  have wrapped : (cluster + (word64 - 2)) % word64 = cluster - 2 := by
    simp only [word64, word32] at *
    omega
  rw [clusterToSector, wrapped]
  generalize (cluster - 2) * volume.secPerCluster = sectors
  simp only [word64, word32]
  omega

/-- The size found by the operations is the one in the directory. -/
theorem fileSize_eq (open_ : file.fat32File = stored.handle)
    (index_lt : stored.index < 16) :
    driver.fileSize volume file =
      directorySize volume driver.disk stored.index := by
  have cluster : file.fat32File.dir.cluster = 2 := by rw [open_]; rfl
  have index : file.fat32File.dir.index = stored.index := by rw [open_]; rfl
  have sector : clusterToSector volume 2 % word32 =
      volume.firstDataSec % word32 := by
    have root : (clusterToSector volume 2 + 0) % word64 % word32 =
        (volume.firstDataSec + (2 - 2) * volume.secPerCluster + 0) % word32 :=
      clusterToSector_word32 (Nat.le_refl 2) (by decide)
    simp only [clusterToSector, Nat.add_zero, Nat.mod_mod, Nat.sub_self,
      Nat.zero_mul] at root
    exact root
  rw [Driver.fileSize, Driver.entrySize, Driver.loadDirectory, Driver.load,
    directorySize, cluster, index]
  dsimp only
  rw [virtioBlkReadSector_littleEndian _ _ _
    (by simp only [sectorSize]; omega), sector]

/-- The entries in the table buffer are those of the first FAT sector. -/
theorem tableEntry_fatTable {cluster : Nat} (small : cluster < 128) :
    tableEntry (driver.fatTable volume) cluster =
      fatEntry volume driver.disk cluster :=
  virtioBlkReadSector_littleEndian _ _ _ (by simp only [sectorSize]; omega)

variable (open_ : file.fat32File = stored.handle)
    (onDisk : stored.OnDisk volume driver.disk)

include open_ onDisk

theorem StoredFile.OnDisk.clusterAt_eq {index : Nat}
    (inside : index < stored.chain.length) :
    clusterAt (driver.fatTable volume) file.fat32File.cluster index =
      stored.chain.getD index 0 := by
  have chained := onDisk.chained.resolve_left
    (List.ne_nil_of_length_pos (Nat.lt_of_le_of_lt (Nat.zero_le _) inside))
  rw [open_]
  refine clusterAt_chain chained inside fun earlier below => ?_
  exact tableEntry_fatTable (onDisk.cluster_small (by omega)).2

/-- The loops address the sectors of the content, modulo `2 ^ 32`. -/
theorem StoredFile.OnDisk.placeIn_eq {position : Nat}
    (inside : position < stored.size) :
    placeIn volume driver file (position / sectorSize) % word32 =
      contentSector volume.firstDataSec volume.secPerCluster stored.chain
        position % word32 := by
  have cluster := onDisk.cluster_lt inside
  have small := onDisk.cluster_small cluster
  rw [placeIn, placeOf, Nat.div_div_eq_div_mul,
    onDisk.clusterAt_eq open_ cluster,
    clusterToSector_word32 (by have := small.1; omega)
      (Nat.lt_trans small.2 (by decide))]
  rfl

/-- The chain reaches every byte of the file. -/
theorem StoredFile.OnDisk.reaches {maxCfo : Nat}
    (within : maxCfo ≤ stored.size) (some_byte : 0 < stored.size) :
    linkCount volume maxCfo < stored.chain.length ∧
      Reaches volume driver file maxCfo := by
  have links : linkCount volume maxCfo < stored.chain.length := by
    have last : maxCfo - 1 < stored.size := by omega
    exact onDisk.cluster_lt last
  refine ⟨links, fun index le => ?_⟩
  have inside : index < stored.chain.length := by omega
  rw [onDisk.clusterAt_eq open_ inside]
  exact (onDisk.cluster_small inside).lt_endOfChain

end Driver

end TinyRiscvOs.Fs
