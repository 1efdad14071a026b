import TinyRiscvOs.Fs.Fat32Content

/-!
# The walk along a cluster chain

The chain of a file is defined by the whole FAT: entry `c` is the 32-bit number
at byte `4 * c` of the table, without its four reserved top bits.  The loops of
`fat32_read` and `fat32_write` take every link from the one sector they have
loaded, and with its top bits.  They follow the chain exactly when the links
they need lie in that sector and have no reserved bit set.
-/

namespace TinyRiscvOs.Fs

open TinyRiscvOs.Lib

/-! ## The whole table -/

/-- `fat32_table_sector_of_cluster`. -/
def fat32TableSectorOfCluster (volume : Fat32Volume) (cluster : Nat) : Nat :=
  volume.firstFatSec + cluster / (sectorSize / 4)

/-- Entry `cluster` of the whole table. -/
def rawEntry (volume : Fat32Volume) (disk : Disk) (cluster : Nat) : Nat :=
  (disk (fat32TableSectorOfCluster volume cluster)).littleEndian
    (4 * (cluster % (sectorSize / 4))) 4

/-- The entry without its reserved bits. -/
def maskedEntry (volume : Fat32Volume) (disk : Disk) (cluster : Nat) : Nat :=
  rawEntry volume disk cluster % 2 ^ 28

/-- The numbers of data clusters. -/
def DataCluster (cluster : Nat) : Prop :=
  2 ≤ cluster ∧ cluster < endOfChain

/-- The entry is in the sector that the loops have read from the device. -/
def InLoadedSector (volume : Fat32Volume) (cluster : Nat) : Prop :=
  volume.firstFatSec % word32 = fat32TableSectorOfCluster volume cluster ∧
    4 * cluster + 4 ≤ sectorSize

theorem inLoadedSector_iff {volume : Fat32Volume} {cluster : Nat} :
    InLoadedSector volume cluster ↔
      cluster < 128 ∧ fat32TableSectorOfCluster volume cluster < word32 := by
  rw [InLoadedSector, fat32TableSectorOfCluster]
  simp only [sectorSize, word32]
  omega

/-- The table in memory has the entries of the sector that was read. -/
theorem tableEntry_eq_rawEntry {volume : Fat32Volume} {driver : Driver}
    {cluster : Nat} (loaded : InLoadedSector volume cluster) :
    tableEntry (driver.fatTable volume) cluster =
      rawEntry volume driver.disk cluster := by
  have first := (inLoadedSector_iff.1 loaded).1
  have remainder : cluster % (sectorSize / 4) = cluster := Nat.mod_eq_of_lt first
  rw [tableEntry_fatTable first, fatEntry, rawEntry, ← loaded.1, remainder]

/-- In a chain every entry but the last is the next cluster. -/
theorem ChainFrom.successor {allowed : Nat → Prop} {entry : Nat → Nat}
    {first : Nat} {chain : List Nat}
    (isChain : ChainFrom allowed entry first chain) {index : Nat}
    (inside : index + 1 < chain.length) :
    entry (chain.getD index 0) = chain.getD (index + 1) 0 := by
  induction isChain generalizing index with
  | mark => simp at inside
  | @link first rest _ tail induction =>
      cases index with
      | zero =>
          cases tail with
          | mark => simp at inside
          | link => rfl
      | succ index =>
          simp only [List.getD_cons_succ]
          exact induction (by simpa using inside)

/-- The entry of the last cluster is an end mark. -/
theorem ChainFrom.end_mark {allowed : Nat → Prop} {entry : Nat → Nat}
    {first : Nat} {chain : List Nat}
    (isChain : ChainFrom allowed entry first chain) {index : Nat}
    (last : index + 1 = chain.length) :
    endOfChain ≤ entry (chain.getD index 0) := by
  induction isChain generalizing index with
  | mark => simp at last
  | @link first rest _ tail induction =>
      cases index with
      | zero =>
          cases tail with
          | mark end_ => exact end_
          | link => simp at last
      | succ index =>
          rw [List.getD_cons_succ]
          exact induction (by simpa using last)

/-! ## The walk of the loops -/

/--
The walk is the one that the table defines: the clusters are a prefix of the
chain, it ends by itself or at an end mark, and every link is taken from the
sector of the table that was read.
-/
structure Walk.Follows (volume : Fat32Volume) (walk : Walk)
    (chain : List Nat) : Prop where
  visited : walk.visited <+: chain
  stop : ∀ entry ∈ walk.stop, endOfChain ≤ entry % 2 ^ 28
  links : ∀ cluster ∈ walk.links, InLoadedSector volume cluster

/--
The file whose chain the loops have to follow; an empty file has no chain, and
cluster `0`.
-/
structure OnChain (volume : Fat32Volume) (driver : Driver) (file : File)
    (chain : List Nat) : Prop where
  nonempty : 0 < volume.secPerCluster
  offset : 0 ≤ file.cfo
  chained : chain = [] ∧ file.fat32File.cluster = 0 ∨
    0 < chain.length ∧ ChainFrom DataCluster (maskedEntry volume driver.disk)
      file.fat32File.cluster chain

/--
The first links of the chain lie in the sector that was read and have, apart
from the end mark, no reserved bit.
-/
def PlainLinks (volume : Fat32Volume) (disk : Disk) (chain : List Nat)
    (count : Nat) : Prop :=
  ∀ index, index < count → index < chain.length →
    InLoadedSector volume (chain.getD index 0) ∧
      (index + 1 < chain.length →
        rawEntry volume disk (chain.getD index 0) < 2 ^ 28)

/-- The end of the transfer that is asked for. -/
def wantedEnd (volume : Fat32Volume) (driver : Driver) (file : File)
    (len : Nat) : Nat :=
  file.cfo.toNat + min len (driver.fileSize volume file - file.cfo.toNat)

section Walks

variable {access : Access} {volume : Fat32Volume} {fuel : Nat}
    {driver : Driver} {file : File} {user : Bytes} {len : Nat}
    {chain : List Nat}

/-- The two ways a transfer ends: at its last byte or at a large entry. -/
inductive WalkOf (clusters : Nat → Nat) (count : Nat) : Walk → Prop where
  | done (small : ∀ index, index ≤ count → clusters index < endOfChain) :
      WalkOf clusters count
        ⟨(List.range (count + 1)).map clusters, (List.range count).map clusters,
          none⟩
  | stopped {last : Nat} (wanted : last ≤ count)
      (small : ∀ index, index < last → clusters index < endOfChain)
      (large : endOfChain ≤ clusters last) :
      WalkOf clusters count
        ⟨(List.range last).map clusters, (List.range last).map clusters,
          some (clusters last)⟩

/-- The table in memory is the one that was loaded. -/
def TableIs (table : Bytes) (_ : Nat) (memory : Memory) : Prop :=
  memory.driver.tableBuf = table

theorem transfer_walk
    (keepsTable : ∀ sector secOffset copyLen done memory,
      (access sector secOffset copyLen done memory).driver.tableBuf =
        memory.driver.tableBuf)
    (nonempty : 0 < volume.secPerCluster) (offset : 0 ≤ file.cfo)
    (inside : file.cfo.toNat < driver.fileSize volume file)
    (enough : linkCount volume (wantedEnd volume driver file len) < fuel) :
    ∃ result,
      transfer access volume fuel driver file user len = some result ∧
      WalkOf (clusterAt (driver.fatTable volume) file.fat32File.cluster)
        (linkCount volume (wantedEnd volume driver file len)) result.walk := by
  generalize clustersEq :
    clusterAt (driver.fatTable volume) file.fat32File.cluster = clusters
  have first : clusters 0 = file.fat32File.cluster := clustersEq ▸ rfl
  have setting : Setting access volume file.cfo.toNat
      (wantedEnd volume driver file len) clusters (driver.fatTable volume)
      (TableIs (driver.fatTable volume)) :=
    { nonempty := nonempty
      ordered := Nat.le_add_right _ _
      keeps := fun _ _ holds _ => (keepsTable _ _ _ _ _).trans holds
      kept := fun _ _ holds => holds
      linked := clustersEq ▸ fun _ => rfl }
  have loaded : TableIs (driver.fatTable volume) 0
      ⟨driver.prepare volume file, user⟩ :=
    driver.prepare_tableBuf volume file
  rw [transfer_before_end (Int.toNat_of_nonneg offset).symm inside, ← first]
  change ∃ result, Option.map _ (clusterLoop access volume
    (wantedEnd volume driver file len) fuel (clusters 0) _ _) = _ ∧ _
  by_cases small : ∀ index,
      index ≤ linkCount volume (wantedEnd volume driver file len) →
        clusters index < endOfChain
  · obtain ⟨cursor, ran, -⟩ := clusterLoop_done setting loaded small enough
    rw [ran]
    exact ⟨_, rfl, .done small⟩
  · have large : ∃ index, index ≤ linkCount volume
        (wantedEnd volume driver file len) ∧ endOfChain ≤ clusters index := by
      simpa only [not_forall, Nat.not_lt, exists_prop] using small
    obtain ⟨wanted, mark⟩ := Nat.find_spec large
    have before : ∀ index, index < Nat.find large →
        clusters index < endOfChain := by
      intro index below
      have minimal := Nat.find_min large below
      by_contra high
      exact minimal ⟨by omega, Nat.not_lt.1 high⟩
    obtain ⟨cursor, ran, -⟩ := clusterLoop_stop setting loaded wanted before
      mark (Nat.lt_of_le_of_lt wanted enough)
    rw [ran]
    exact ⟨_, rfl, .stopped wanted before mark⟩

/-- A walk contains its first links, up to the one before a large entry. -/
theorem WalkOf.link_mem {clusters : Nat → Nat} {count : Nat} {walk : Walk}
    (walkOf : WalkOf clusters count walk) {index : Nat} (below : index < count)
    (small : ∀ earlier, earlier ≤ index → clusters earlier < endOfChain) :
    clusters index ∈ walk.links := by
  cases walkOf with
  | done =>
      exact List.mem_map_of_mem (List.mem_range.2 below)
  | @stopped last _ _ large =>
      have beyond : index < last := by
        by_contra reached
        exact Nat.not_lt.2 large (small last (Nat.not_lt.1 reached))
      exact List.mem_map_of_mem (List.mem_range.2 beyond)

/-- A walk ends at a large entry right after small ones. -/
theorem WalkOf.eq_stopped {clusters : Nat → Nat} {count : Nat} {walk : Walk}
    (walkOf : WalkOf clusters count walk) {index : Nat} (le : index ≤ count)
    (small : ∀ earlier, earlier < index → clusters earlier < endOfChain)
    (large : endOfChain ≤ clusters index) :
    walk = ⟨(List.range index).map clusters, (List.range index).map clusters,
      some (clusters index)⟩ := by
  cases walkOf with
  | done all => exact absurd (all index le) (Nat.not_lt.2 large)
  | @stopped last _ before mark =>
      have same : last = index := by
        refine Nat.le_antisymm ?_ ?_
        · by_contra later
          exact Nat.not_lt.2 large (before index (Nat.not_le.1 later))
        · by_contra earlier
          exact Nat.not_lt.2 mark (small last (Nat.not_le.1 earlier))
      rw [same]

/-- A walk over small clusters reaches its last byte. -/
theorem WalkOf.eq_done {clusters : Nat → Nat} {count : Nat} {walk : Walk}
    (walkOf : WalkOf clusters count walk)
    (small : ∀ index, index ≤ count → clusters index < endOfChain) :
    walk = ⟨(List.range (count + 1)).map clusters,
      (List.range count).map clusters, none⟩ := by
  cases walkOf with
  | done => rfl
  | stopped wanted _ large => exact absurd (small _ wanted) (Nat.not_lt.2 large)

section Follow

/-- The chain of a file that has one. -/
theorem OnChain.chainFrom (onChain : OnChain volume driver file chain)
    (hasChain : 0 < chain.length) :
    ChainFrom DataCluster (maskedEntry volume driver.disk)
      file.fat32File.cluster chain :=
  (onChain.chained.resolve_left fun none => by
    rw [none.1] at hasChain
    exact absurd hasChain (Nat.lt_irrefl 0)).2

variable (isChain : ChainFrom DataCluster (maskedEntry volume driver.disk)
  file.fat32File.cluster chain)

include isChain

/-- As long as the links are plain the loops are on the chain. -/
theorem clusterAt_of_plain {index : Nat} (below : index < chain.length)
    (plain : PlainLinks volume driver.disk chain index) :
    clusterAt (driver.fatTable volume) file.fat32File.cluster index =
      chain.getD index 0 := by
  refine clusterAt_chain isChain below fun earlier lt => ?_
  obtain ⟨loaded, unreserved⟩ := plain earlier lt (lt.trans below)
  rw [tableEntry_eq_rawEntry loaded, maskedEntry,
    Nat.mod_eq_of_lt (unreserved (by omega))]

theorem chain_lt_endOfChain {index : Nat} (below : index < chain.length) :
    chain.getD index 0 < endOfChain := by
  rw [List.getD_eq_getElem _ _ below]
  exact (isChain.all_allowed _ (List.getElem_mem below)).2

/-- Behind the last cluster the loops meet the end mark. -/
theorem clusterAt_end (hasChain : 0 < chain.length)
    (plain : PlainLinks volume driver.disk chain chain.length) :
    endOfChain ≤ clusterAt (driver.fatTable volume) file.fat32File.cluster
        chain.length % 2 ^ 28 := by
  have last : chain.length - 1 + 1 = chain.length := by omega
  have here := clusterAt_of_plain isChain
    (show chain.length - 1 < chain.length by omega)
    fun earlier lt => plain earlier (by omega)
  have loaded := (plain (chain.length - 1) (by omega) (by omega)).1
  have mark := isChain.end_mark last
  rw [maskedEntry] at mark
  rw [← last, clusterAt, here, tableEntry_eq_rawEntry loaded]
  exact mark

/-- The clusters that the loops visit are those of the chain. -/
theorem visited_eq_take {count : Nat} (below : count ≤ chain.length)
    (plain : ∀ index, index < count → PlainLinks volume driver.disk chain index) :
    (List.range count).map
        (clusterAt (driver.fatTable volume) file.fat32File.cluster) =
      chain.take count := by
  refine List.ext_getElem (by simp; omega) fun index lt _ => ?_
  have small : index < count := by simpa using lt
  rw [List.getElem_map, List.getElem_range,
    clusterAt_of_plain isChain (by omega) (plain index small),
    List.getElem_take, List.getD_eq_getElem _ _ (by omega)]

/-- The walk follows the chain exactly when the links it needs are plain. -/
theorem follows_iff {walk : Walk} {count : Nat} (hasChain : 0 < chain.length)
    (walkOf : WalkOf
      (clusterAt (driver.fatTable volume) file.fat32File.cluster) count walk) :
    walk.Follows volume chain ↔ PlainLinks volume driver.disk chain count := by
  constructor
  · -- by induction along the chain: each link is seen, hence in the sector,
    -- and a reserved bit would end the walk at a data cluster
    intro follows index
    induction index using Nat.strong_induction_on with
    | _ index induction =>
        intro below inChain
        have plain : PlainLinks volume driver.disk chain index :=
          fun earlier lt => induction earlier lt (Nat.lt_trans lt below)
        have on : ∀ earlier, earlier ≤ index →
            clusterAt (driver.fatTable volume) file.fat32File.cluster earlier =
              chain.getD earlier 0 := fun earlier le =>
          clusterAt_of_plain isChain (by omega)
            fun other lt => plain other (Nat.lt_of_lt_of_le lt le)
        have small : ∀ earlier, earlier ≤ index →
            clusterAt (driver.fatTable volume) file.fat32File.cluster earlier <
              endOfChain := fun earlier le => by
          rw [on earlier le]
          exact chain_lt_endOfChain isChain (by omega)
        have loaded : InLoadedSector volume (chain.getD index 0) := by
          have taken := follows.links _ (walkOf.link_mem below small)
          rwa [on index (Nat.le_refl _)] at taken
        refine ⟨loaded, fun further => ?_⟩
        by_contra reserved
        have next : clusterAt (driver.fatTable volume) file.fat32File.cluster
            (index + 1) = rawEntry volume driver.disk (chain.getD index 0) := by
          rw [clusterAt, on index (Nat.le_refl _),
            tableEntry_eq_rawEntry loaded]
        have stopped := walkOf.eq_stopped below
          (fun earlier lt => small earlier (Nat.lt_succ_iff.1 lt)) (by
            rw [next]
            exact Nat.le_trans (by decide) (Nat.not_lt.1 reserved))
        have mark := follows.stop (clusterAt (driver.fatTable volume)
          file.fat32File.cluster (index + 1)) (by rw [stopped]; rfl)
        have successor := isChain.successor further
        have data := chain_lt_endOfChain isChain further
        rw [next] at mark
        rw [← successor, maskedEntry] at data
        omega
  · intro plain
    have upTo (index : Nat) (le : index ≤ count) :
        PlainLinks volume driver.disk chain index :=
      fun earlier lt => plain earlier (Nat.lt_of_lt_of_le lt le)
    have taken (index : Nat) (le : index ≤ count) (inChain : index ≤ chain.length) :
        ∀ cluster ∈ (List.range index).map
          (clusterAt (driver.fatTable volume) file.fat32File.cluster),
          InLoadedSector volume cluster := by
      intro cluster member
      obtain ⟨earlier, lt, rfl⟩ := List.mem_map.1 member
      have below := List.mem_range.1 lt
      rw [clusterAt_of_plain isChain (by omega) (upTo earlier (by omega))]
      exact (plain earlier (by omega) (by omega)).1
    have small (index : Nat) (le : index ≤ count)
        (inChain : index < chain.length) :
        clusterAt (driver.fatTable volume) file.fat32File.cluster index <
          endOfChain := by
      rw [clusterAt_of_plain isChain inChain (upTo index le)]
      exact chain_lt_endOfChain isChain inChain
    by_cases reach : count < chain.length
    · rw [walkOf.eq_done fun index le => small index le (by omega)]
      refine ⟨?_, fun _ none => absurd none (Option.not_mem_none _),
        taken count (Nat.le_refl count) reach.le⟩
      dsimp only
      rw [visited_eq_take isChain reach fun index lt => upTo index (by omega)]
      exact List.take_prefix _ _
    · have whole := Nat.not_lt.1 reach
      have mark := clusterAt_end isChain hasChain (upTo _ whole)
      rw [walkOf.eq_stopped whole (fun index lt => small index (by omega) lt)
        (mark.trans (Nat.mod_le _ _))]
      refine ⟨?_, fun entry member => ?_, taken _ whole (Nat.le_refl _)⟩
      · dsimp only
        rw [visited_eq_take isChain (Nat.le_refl _)
          fun index lt => upTo index (by omega)]
        exact List.take_prefix _ _
      · obtain rfl := Option.some_inj.1 member
        exact mark

end Follow

end Walks

/-! ## Reads and writes -/

theorem readAccess_tableBuf (sector secOffset copyLen done : Nat)
    (memory : Memory) :
    (readAccess sector secOffset copyLen done memory).driver.tableBuf =
      memory.driver.tableBuf :=
  rfl

theorem writeAccess_tableBuf (sector secOffset copyLen done : Nat)
    (memory : Memory) :
    (writeAccess sector secOffset copyLen done memory).driver.tableBuf =
      memory.driver.tableBuf :=
  rfl

/-- A transfer follows the chain exactly when the links it needs are plain. -/
theorem transfer_follows {access : Access} {volume : Fat32Volume} {fuel : Nat}
    {driver : Driver} {file : File} {chain : List Nat}
    (keepsTable : ∀ sector secOffset copyLen done memory,
      (access sector secOffset copyLen done memory).driver.tableBuf =
        memory.driver.tableBuf)
    (onChain : OnChain volume driver file chain) (user : Bytes) {len : Nat}
    (enough : linkCount volume (wantedEnd volume driver file len) < fuel) :
    ∃ result,
      transfer access volume fuel driver file user len = some result ∧
      (result.walk.Follows volume chain ↔
        driver.fileSize volume file ≤ file.cfo ∨
          0 < chain.length ∧ PlainLinks volume driver.disk chain
            (linkCount volume (wantedEnd volume driver file len))) := by
  by_cases beyond : (driver.fileSize volume file : Int) ≤ file.cfo
  · refine ⟨_, transfer_at_end beyond, iff_of_true ?_ (.inl beyond)⟩
    exact
      { visited := List.nil_prefix
        stop := fun _ member => by cases member
        links := fun _ member => by cases member }
  · have inside : file.cfo.toNat < driver.fileSize volume file := by
      have offset := onChain.offset
      omega
    obtain ⟨result, ran, walkOf⟩ := transfer_walk keepsTable onChain.nonempty
      onChain.offset inside enough
    refine ⟨result, ran, ?_⟩
    rw [or_iff_right beyond]
    by_cases hasChain : 0 < chain.length
    · rw [follows_iff (onChain.chainFrom hasChain) hasChain walkOf,
        and_iff_right hasChain]
    · -- without a chain, cluster `0` is none of the file's clusters
      refine iff_of_false (fun follows => ?_) fun plain => hasChain plain.1
      obtain ⟨none, zero⟩ := onChain.chained.resolve_right
        fun isChain => hasChain isChain.1
      have visited := follows.visited
      rw [none, List.prefix_nil] at visited
      generalize result.walk = walk at walkOf visited
      cases walkOf with
      | done => simp at visited
      | @stopped last _ _ large =>
          have start : last = 0 := by simpa using visited
          rw [start, clusterAt, zero] at large
          exact absurd large (by decide)

/--
On a volume of any size, `fat32_read` and `fat32_write` visit a prefix of the
chain of the file, over links of the sector of the table they have read and up
to an end mark, exactly when the offset is at the end of the file, or the file
has a chain and every link needed has a cluster below `128` in a sector with a
32-bit number and, but for the end mark, no reserved bit.
-/
theorem fat32_follows_chain_iff {volume : Fat32Volume} {fuel : Nat}
    {driver : Driver} {file : File} {chain : List Nat}
    (onChain : OnChain volume driver file chain) (user : Bytes) {len : Nat}
    (enough : linkCount volume (wantedEnd volume driver file len) < fuel) :
    ∃ read write,
      fat32Read volume fuel driver file user len = some read ∧
      fat32Write volume fuel driver file user len = some write ∧
      (read.walk.Follows volume chain ↔
        driver.fileSize volume file ≤ file.cfo ∨
          0 < chain.length ∧ PlainLinks volume driver.disk chain
            (linkCount volume (wantedEnd volume driver file len))) ∧
      (write.walk.Follows volume chain ↔
        driver.fileSize volume file ≤ file.cfo ∨
          0 < chain.length ∧ PlainLinks volume driver.disk chain
            (linkCount volume (wantedEnd volume driver file len))) := by
  obtain ⟨read, ranRead, readIff⟩ :=
    transfer_follows readAccess_tableBuf onChain user enough
  obtain ⟨write, ranWrite, writeIff⟩ :=
    transfer_follows writeAccess_tableBuf onChain user enough
  exact ⟨read, write, ranRead, ranWrite, readIff, writeIff⟩

/-! ## Two files -/

namespace TwoFiles

/-- The table of the volume links cluster `3` to cluster `5`. -/
theorem onChain :
    OnChain volume handles.driver (handles.files true) [3, 5] where
  nonempty := nonempty
  offset := Int.le_refl 0
  chained := by
    rw [volume_eq]
    exact .inr ⟨by decide, .link ⟨by decide, by decide⟩
      (.link ⟨by decide, by decide⟩ (.mark (by decide)))⟩

theorem fileSize : handles.driver.fileSize volume (handles.files true) = 600 := by
  have handle : (handles.files true).fat32File = (files false).handle := rfl
  rw [fileSize_eq handle (by decide), volume_eq]
  decide

/-- Reading the file to its end takes one link. -/
theorem linkCount_eq : linkCount volume
    (wantedEnd volume handles.driver (handles.files true) 600) = 1 := by
  rw [wantedEnd, fileSize, volume_eq]
  decide

theorem plain : PlainLinks volume handles.driver.disk [3, 5] 1 := by
  intro index below _
  obtain rfl : index = 0 := by omega
  rw [volume_eq]
  exact ⟨⟨by decide, by decide⟩, fun _ => by decide⟩

end TwoFiles

open TwoFiles in
/-- Reading and writing a file of two clusters. -/
theorem fat32_follows_chain_iff_small :
    ∃ read write,
      fat32Read volume 2 handles.driver (handles.files true)
          SmallVolume.buffer 600 = some read ∧
      fat32Write volume 2 handles.driver (handles.files true)
          SmallVolume.buffer 600 = some write ∧
      read.walk.Follows volume [3, 5] ∧ write.walk.Follows volume [3, 5] := by
  obtain ⟨read, write, ranRead, ranWrite, readIff, writeIff⟩ :=
    fat32_follows_chain_iff onChain SmallVolume.buffer
      (show linkCount volume (wantedEnd volume handles.driver
        (handles.files true) 600) < 2 by rw [linkCount_eq]; decide)
  rw [linkCount_eq] at readIff writeIff
  exact ⟨read, write, ranRead, ranWrite, readIff.2 (.inr ⟨by decide, plain⟩),
    writeIff.2 (.inr ⟨by decide, plain⟩)⟩

namespace SecondTableSector

/--
A file of 600 bytes in the clusters `128` and `3`; the link between them is in
the second sector of the table.
-/
def disk : Disk := fun sector offset =>
  match sector, offset with
  | 1, 12 => 0xff
  | 1, 13 => 0xff
  | 1, 14 => 0xff
  | 1, 15 => 0x0f
  | 2, 0 => 3
  | 3, 28 => 0x58
  | 3, 29 => 0x02
  | _, _ => 0

def volume : Fat32Volume :=
  ⟨3, 1, 1, 2⟩

def driver : Driver :=
  ⟨disk, fun _ => 0, fun _ => 0⟩

def stored : StoredFile :=
  ⟨128, 0, 600, [128, 3]⟩

def file : File :=
  { SmallVolume.world.files true with fat32File := stored.handle }

theorem fileSize : driver.fileSize volume file = 600 := by
  have handle : file.fat32File = stored.handle := rfl
  rw [fileSize_eq handle (by decide)]
  decide

theorem onChain : OnChain volume driver file [128, 3] where
  nonempty := by decide
  offset := Int.le_refl 0
  chained :=
    .inr ⟨by decide, .link ⟨by decide, by decide⟩
      (.link ⟨by decide, by decide⟩ (.mark (by decide)))⟩

theorem linkCount_eq :
    linkCount volume (wantedEnd volume driver file 600) = 1 := by
  rw [wantedEnd, fileSize]
  decide

end SecondTableSector

/-- Reading this file takes the link of cluster `128` from behind the sector read. -/
theorem fat32_read_leaves_chain :
    OnChain SecondTableSector.volume SecondTableSector.driver
        SecondTableSector.file [128, 3] ∧
      ∃ result,
        fat32Read SecondTableSector.volume 2 SecondTableSector.driver
            SecondTableSector.file (fun _ => 0) 600 = some result ∧
        ¬ result.walk.Follows SecondTableSector.volume [128, 3] := by
  obtain ⟨result, ran, follows⟩ :=
    transfer_follows readAccess_tableBuf SecondTableSector.onChain
      (fun _ => 0) (show linkCount SecondTableSector.volume
        (wantedEnd SecondTableSector.volume SecondTableSector.driver
          SecondTableSector.file 600) < 2 by
            rw [SecondTableSector.linkCount_eq]
            decide)
  refine ⟨SecondTableSector.onChain, result, ran, fun isFollowing => ?_⟩
  rcases follows.1 isFollowing with beyond | ⟨-, plain⟩
  · rw [SecondTableSector.fileSize] at beyond
    exact absurd beyond (by decide)
  · rw [SecondTableSector.linkCount_eq] at plain
    exact absurd (plain 0 (by decide) (by decide)).1.2 (by decide)

end TinyRiscvOs.Fs
