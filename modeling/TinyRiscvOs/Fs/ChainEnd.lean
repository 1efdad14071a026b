import TinyRiscvOs.Fs.Fat32Chain

/-!
# How a transfer ends

Every cluster brings the loops of `fat32_read` and `fat32_write` nearer to the
last byte, whatever the links are: a cluster without sectors excepted, and the
boot sector may say that clusters have none.  The loop then ends at an end mark
only, and a chain that closes on itself is walked for ever.  A link is read at
four times its cluster number behind `fat32_table_buf`, however far that is;
where no memory is mapped the read faults in the kernel, `do_page_fault` finds
no area and stays in the loop of `Err`.  A transfer that does end reports no
more bytes than were asked for.
-/

namespace TinyRiscvOs.Fs

open TinyRiscvOs.Lib

/-- The entry of the cluster is in the memory mapped behind `fat32_table_buf`. -/
def InMapped (mapped cluster : Nat) : Prop :=
  4 * cluster + 4 ≤ mapped

/-- The call ends: some amount of fuel is enough, and no link faults. -/
def Returns (mapped : Nat) (call : Nat → Option Transfer) : Prop :=
  ∃ fuel result, call fuel = some result ∧
    ∀ cluster ∈ result.walk.links, InMapped mapped cluster

/-- The first links that are followed, up to an end mark, do not fault. -/
def LinksMapped (mapped : Nat) (clusters : Nat → Nat) (count : Nat) : Prop :=
  ∀ index, index < count →
    (∀ earlier, earlier ≤ index → clusters earlier < endOfChain) →
    InMapped mapped (clusters index)

/-- The links lead to an end mark. -/
def ReachesMark (mapped : Nat) (clusters : Nat → Nat) : Prop :=
  ∃ index, endOfChain ≤ clusters index ∧ LinksMapped mapped clusters index

/-- `sec_per_cluster` is the byte of the boot sector, with any value. -/
theorem fat32Init_secPerCluster (disk : Disk) (header : Bytes) (lba : Nat) :
    (fat32Init disk header lba).secPerCluster =
      (disk (lba % word32) 13).toNat := by
  have byte := virtioBlkReadSector_inside disk lba header
    (show 13 < sectorSize by decide)
  simp only [fat32Init, Fat32Bpb.ofBytes, Bytes.littleEndian, Nat.mul_zero,
    Nat.add_zero, byte]

/-! ## Clusters without sectors -/

section Empty

variable {access : Access} {volume : Fat32Volume} {maxCfo cluster fuel : Nat}
    {walk : Walk} {cursor : Cursor}

/-- One round of the loop changes no counter and no memory. -/
theorem clusterLoop_empty (empty : volume.secPerCluster = 0)
    (unfinished : cursor.passed < maxCfo) (inside : cluster < endOfChain) :
    clusterLoop access volume maxCfo (fuel + 1) cluster walk cursor =
      clusterLoop access volume maxCfo fuel
        (tableEntry cursor.memory.driver.tableBuf cluster)
        ⟨walk.visited ++ [cluster], walk.links ++ [cluster], walk.stop⟩
        cursor := by
  rw [clusterLoop, if_pos inside, empty]
  dsimp only [sectorLoop]
  rw [if_neg (Nat.not_le.2 unfinished)]

/-- A loop that ends has followed the links up to the first mark. -/
theorem clusterLoop_empty_walk (empty : volume.secPerCluster = 0)
    (unfinished : cursor.passed < maxCfo) {last : Walk} {final : Cursor}
    (ran : clusterLoop access volume maxCfo fuel cluster walk cursor =
      some (last, final)) :
    ∃ index, endOfChain ≤
        clusterAt cursor.memory.driver.tableBuf cluster index ∧
      (∀ earlier, earlier < index →
        clusterAt cursor.memory.driver.tableBuf cluster earlier <
          endOfChain) ∧
      last.links = walk.links ++ (List.range index).map
        (clusterAt cursor.memory.driver.tableBuf cluster) := by
  induction fuel generalizing cluster walk with
  | zero => cases ran
  | succ fuel induction =>
      by_cases inside : cluster < endOfChain
      · rw [clusterLoop_empty empty unfinished inside] at ran
        obtain ⟨index, mark, small, links⟩ := induction ran
        have next : (fun index => clusterAt cursor.memory.driver.tableBuf
              (tableEntry cursor.memory.driver.tableBuf cluster) index) =
            fun index => clusterAt cursor.memory.driver.tableBuf cluster
              (index + 1) :=
          funext fun index => (clusterAt_succ _ _ _).symm
        refine ⟨index + 1, (congrFun next index) ▸ mark, fun earlier below => ?_,
          ?_⟩
        · cases earlier with
          | zero => exact inside
          | succ earlier =>
              rw [clusterAt_succ]
              exact small earlier (Nat.lt_of_succ_lt_succ below)
        · rw [links, List.append_assoc, List.range_succ_eq_map, List.map_cons,
            List.map_map, List.singleton_append]
          exact congrArg (fun rest => walk.links ++ cluster :: rest)
            (List.map_congr_left fun index _ => congrFun next index)
      · rw [clusterLoop, if_neg inside] at ran
        cases ran
        refine ⟨0, Nat.not_lt.1 inside,
          fun _ below => absurd below (Nat.not_lt_zero _), ?_⟩
        rw [List.range_zero, List.map_nil, List.append_nil]

/-- At a mark the loop ends. -/
theorem clusterLoop_to_mark (empty : volume.secPerCluster = 0)
    (unfinished : cursor.passed < maxCfo) {index : Nat}
    (mark : endOfChain ≤
      clusterAt cursor.memory.driver.tableBuf cluster index) :
    ∃ result,
      clusterLoop access volume maxCfo (index + 1) cluster walk cursor =
        some result := by
  induction index generalizing cluster walk with
  | zero =>
      have atMark : ¬ cluster < endOfChain := Nat.not_lt.2 mark
      rw [clusterLoop, if_neg atMark]
      exact ⟨_, rfl⟩
  | succ index induction =>
      by_cases inside : cluster < endOfChain
      · rw [clusterLoop_empty empty unfinished inside]
        refine induction ?_
        rw [← clusterAt_succ]
        exact mark
      · rw [clusterLoop, if_neg inside]
        exact ⟨_, rfl⟩

/-- With no byte wanted the loop ends in its first round. -/
theorem clusterLoop_nothing (empty : volume.secPerCluster = 0)
    (finished : maxCfo ≤ cursor.passed) :
    ∃ last final,
      clusterLoop access volume maxCfo 1 cluster walk cursor =
        some (last, final) ∧ last.links = walk.links := by
  rw [clusterLoop, empty]
  split
  · dsimp only [sectorLoop]
    rw [if_pos finished]
    exact ⟨_, _, rfl, rfl⟩
  · exact ⟨_, _, rfl, rfl⟩

end Empty

/-! ## More fuel -/

section Fuel

variable {access : Access} {volume : Fat32Volume} {maxCfo fuel more : Nat}

theorem clusterLoop_of_le (le : fuel ≤ more) {cluster : Nat} {walk : Walk}
    {cursor : Cursor} {result : Walk × Cursor}
    (ran : clusterLoop access volume maxCfo fuel cluster walk cursor =
      some result) :
    clusterLoop access volume maxCfo more cluster walk cursor =
      some result := by
  induction fuel generalizing more cluster walk cursor with
  | zero => cases ran
  | succ fuel induction =>
      obtain ⟨rest, rfl⟩ : ∃ rest, more = rest + 1 := ⟨more - 1, by omega⟩
      rw [clusterLoop] at ran ⊢
      dsimp only at ran ⊢
      by_cases inside : cluster < endOfChain
      · rw [if_pos inside] at ran ⊢
        split at ran
        · next finished =>
            rw [if_pos finished]
            exact ran
        · next unfinished =>
            rw [if_neg unfinished]
            exact induction (Nat.le_of_succ_le_succ le) ran
      · rw [if_neg inside] at ran ⊢
        exact ran

theorem transfer_of_le (le : fuel ≤ more) {driver : Driver} {file : File}
    {user : Bytes} {len : Nat} {result : Transfer}
    (ran : transfer access volume fuel driver file user len = some result) :
    transfer access volume more driver file user len = some result := by
  rw [transfer] at ran ⊢
  dsimp only at ran ⊢
  split at ran
  · next beyond =>
      rw [if_pos beyond]
      exact ran
  · next before =>
      rw [if_neg before]
      obtain ⟨left, loop, rfl⟩ := Option.map_eq_some_iff.1 ran
      rw [clusterLoop_of_le le loop]
      rfl

end Fuel

/-! ## Both calls -/

section Returns

variable {access : Access} {volume : Fat32Volume} {driver : Driver}
    {file : File} {user : Bytes} {len mapped : Nat}

/-- Before the end of the file a call ends when its loop does. -/
theorem returns_iff_loop (offset : 0 ≤ file.cfo)
    (inside : file.cfo.toNat < driver.fileSize volume file) :
    Returns mapped
        (fun fuel => transfer access volume fuel driver file user len) ↔
      ∃ fuel last final,
        clusterLoop access volume (wantedEnd volume driver file len) fuel
            file.fat32File.cluster ⟨[], [], none⟩
            ⟨file.cfo.toNat, 0, 0, ⟨driver.prepare volume file, user⟩⟩ =
          some (last, final) ∧
        ∀ cluster ∈ last.links, InMapped mapped cluster := by
  refine exists_congr fun fuel => ?_
  dsimp only
  rw [transfer_before_end (Int.toNat_of_nonneg offset).symm inside]
  constructor
  · rintro ⟨result, ran, links⟩
    obtain ⟨⟨last, final⟩, loop, rfl⟩ := Option.map_eq_some_iff.1 ran
    exact ⟨last, final, loop, links⟩
  · rintro ⟨last, final, loop, links⟩
    exact ⟨_, Option.map_eq_some_iff.2 ⟨_, loop, rfl⟩, links⟩

/-- Clusters without sectors: the links have to lead to a mark. -/
theorem returns_iff_empty (empty : volume.secPerCluster = 0)
    (offset : 0 ≤ file.cfo)
    (inside : file.cfo.toNat < driver.fileSize volume file) :
    Returns mapped
        (fun fuel => transfer access volume fuel driver file user len) ↔
      file.cfo = 0 ∧ len = 0 ∨ ReachesMark mapped
            (clusterAt (driver.fatTable volume) file.fat32File.cluster) := by
  have nothing : wantedEnd volume driver file len ≤ 0 ↔
      file.cfo = 0 ∧ len = 0 := by
    rw [wantedEnd]
    omega
  rw [returns_iff_loop offset inside, ← nothing]
  by_cases finished : wantedEnd volume driver file len ≤ 0
  · refine iff_of_true ?_ (.inl finished)
    obtain ⟨last, final, loop, links⟩ := @clusterLoop_nothing access volume
      (wantedEnd volume driver file len) file.fat32File.cluster ⟨[], [], none⟩
      ⟨file.cfo.toNat, 0, 0, ⟨driver.prepare volume file, user⟩⟩ empty finished
    exact ⟨1, last, final, loop, by
      rw [links]
      exact fun _ member => absurd member List.not_mem_nil⟩
  rw [or_iff_right finished]
  have unfinished := Nat.not_le.1 finished
  have walked {fuel : Nat} {last : Walk} {final : Cursor}
      (loop : clusterLoop access volume (wantedEnd volume driver file len) fuel
        file.fat32File.cluster ⟨[], [], none⟩
        ⟨file.cfo.toNat, 0, 0, ⟨driver.prepare volume file, user⟩⟩ =
          some (last, final)) :=
    clusterLoop_empty_walk empty unfinished loop
  simp only [driver.prepare_tableBuf, List.nil_append] at walked
  constructor
  · rintro ⟨fuel, last, final, loop, mapped⟩
    obtain ⟨index, mark, -, links⟩ := walked loop
    refine ⟨index, mark, fun earlier below _ => mapped _ ?_⟩
    rw [links]
    exact List.mem_map_of_mem (List.mem_range.2 below)
  · rintro ⟨index, mark, mapped⟩
    obtain ⟨⟨last, final⟩, loop⟩ := @clusterLoop_to_mark access volume
      (wantedEnd volume driver file len) file.fat32File.cluster ⟨[], [], none⟩
      ⟨file.cfo.toNat, 0, 0, ⟨driver.prepare volume file, user⟩⟩ empty
      unfinished index (by rw [driver.prepare_tableBuf]; exact mark)
    obtain ⟨first, -, small, links⟩ := walked loop
    refine ⟨index + 1, last, final, loop, fun cluster member => ?_⟩
    rw [links] at member
    obtain ⟨earlier, isEarlier, rfl⟩ := List.mem_map.1 member
    have below := List.mem_range.1 isEarlier
    refine mapped earlier ?_ fun other le => small other (by omega)
    by_contra later
    exact Nat.not_lt.2 mark (small index (by omega))

/-- The links of a walk are the first ones, up to a mark. -/
theorem linksMapped_iff {clusters : Nat → Nat} {count : Nat} {walk : Walk}
    (walkOf : WalkOf clusters count walk) :
    (∀ cluster ∈ walk.links, InMapped mapped cluster) ↔
      LinksMapped mapped clusters count := by
  constructor
  · exact fun links index below small => links _ (walkOf.link_mem below small)
  · intro mapped cluster member
    cases walkOf with
    | done small =>
        obtain ⟨index, isIndex, rfl⟩ := List.mem_map.1 member
        have below := List.mem_range.1 isIndex
        exact mapped index below fun earlier le => small earlier (by omega)
    | stopped wanted small _ =>
        obtain ⟨index, isIndex, rfl⟩ := List.mem_map.1 member
        have below := List.mem_range.1 isIndex
        exact mapped index (by omega) fun earlier le => small earlier (by omega)

/-- When a transfer with the given access ends. -/
theorem transfer_returns_iff
    (keepsTable : ∀ sector secOffset copyLen done memory,
      (access sector secOffset copyLen done memory).driver.tableBuf =
        memory.driver.tableBuf)
    (offset : 0 ≤ file.cfo) :
    Returns mapped
        (fun fuel => transfer access volume fuel driver file user len) ↔
      driver.fileSize volume file ≤ file.cfo ∨
        (0 < volume.secPerCluster ∧
          LinksMapped mapped
            (clusterAt (driver.fatTable volume) file.fat32File.cluster)
            (linkCount volume (wantedEnd volume driver file len))) ∨
        (volume.secPerCluster = 0 ∧
          (file.cfo = 0 ∧ len = 0 ∨ ReachesMark mapped
            (clusterAt (driver.fatTable volume) file.fat32File.cluster))) := by
  by_cases beyond : (driver.fileSize volume file : Int) ≤ file.cfo
  · exact iff_of_true ⟨0, _, transfer_at_end beyond,
      fun _ member => absurd member List.not_mem_nil⟩ (.inl beyond)
  have inside : file.cfo.toNat < driver.fileSize volume file := by omega
  rw [or_iff_right beyond]
  rcases Nat.eq_zero_or_pos volume.secPerCluster with empty | nonempty
  · refine (returns_iff_empty empty offset inside).trans
      ⟨fun ends => .inr ⟨empty, ends⟩, ?_⟩
    rintro (⟨sectors, -⟩ | ⟨-, ends⟩)
    · exact absurd empty sectors.ne'
    · exact ends
  · rw [or_iff_left fun empty => nonempty.ne' empty.1, and_iff_right nonempty]
    obtain ⟨whole, ran, walkOf⟩ := transfer_walk keepsTable nonempty offset
      inside (Nat.lt_succ_self
        (linkCount volume (wantedEnd volume driver file len)))
    rw [← linksMapped_iff walkOf]
    refine ⟨?_, fun links => ⟨_, whole, ran, links⟩⟩
    rintro ⟨fuel, result, again, links⟩
    have most := transfer_of_le (Nat.le_max_left fuel
      (linkCount volume (wantedEnd volume driver file len)).succ) again
    rw [transfer_of_le (Nat.le_max_right fuel _) ran] at most
    cases most
    exact links

/--
`fat32_read` and `fat32_write` end, for every volume, disk, file, length and
position, exactly when there is nothing after the position, or clusters have
sectors and the links needed are in mapped memory, or clusters have none and
nothing is asked for at the start of the file, or the links lead through mapped
memory to an end mark.
-/
theorem fat32_returns_iff (offset : 0 ≤ file.cfo) :
    (Returns mapped
          (fun fuel => fat32Read volume fuel driver file user len) ∧
        Returns mapped
          (fun fuel => fat32Write volume fuel driver file user len)) ↔
      driver.fileSize volume file ≤ file.cfo ∨
        (0 < volume.secPerCluster ∧
          LinksMapped mapped
            (clusterAt (driver.fatTable volume) file.fat32File.cluster)
            (linkCount volume (wantedEnd volume driver file len))) ∨
        (volume.secPerCluster = 0 ∧
          (file.cfo = 0 ∧ len = 0 ∨ ReachesMark mapped
            (clusterAt (driver.fatTable volume) file.fat32File.cluster))) := by
  exact (and_congr (transfer_returns_iff readAccess_tableBuf offset)
    (transfer_returns_iff writeAccess_tableBuf offset)).trans and_self_iff

end Returns

open TwoFiles in
/-- A file of two clusters whose one link is in the sector that was read. -/
theorem fat32_returns_two_clusters :
    Returns sectorSize (fun fuel => fat32Read volume fuel handles.driver
        (handles.files true) SmallVolume.buffer 600) ∧
      Returns sectorSize (fun fuel => fat32Write volume fuel handles.driver
        (handles.files true) SmallVolume.buffer 600) := by
  refine (fat32_returns_iff (Int.le_refl 0)).2 (.inr (.inl ⟨nonempty, ?_⟩))
  intro index below _
  rw [linkCount_eq, Nat.lt_one_iff] at below
  rw [below]
  exact (show 4 * 3 + 4 ≤ sectorSize by decide)

namespace EmptyClusters

/--
A boot sector with the signature and no sectors in a cluster; cluster `3` of
the file of five bytes is linked to itself.
-/
def disk : Disk := fun sector offset =>
  match sector, offset with
  | 0, 13 => 0
  | 0, 510 => 0x55
  | 0, 511 => 0xaa
  | 1, 12 => 3
  | 1, 13 => 0
  | 1, 14 => 0
  | 1, 15 => 0
  | sector, offset => SmallVolume.disk sector offset

def volume : Fat32Volume :=
  fat32Init disk (fun _ => 0) 0

def driver : Driver :=
  ⟨disk, fun _ => 0, fun _ => 0⟩

/-- The first handle of the small volume. -/
def file : File :=
  SmallVolume.world.files true

theorem volume_eq : volume = ⟨2, 1, 0, 1⟩ := by
  simp only [volume, fat32Init, bpb_of_read]
  decide

theorem accepted : isFat32 disk (fun _ => 0) 0 = true := by
  simp only [isFat32, bpb_of_read]
  decide

theorem fileSize : driver.fileSize volume file = 5 := by
  have handle : file.fat32File = SmallVolume.stored.handle := rfl
  rw [volume_eq, fileSize_eq handle (by decide)]
  decide

theorem clusterAt_eq (index : Nat) :
    clusterAt (driver.fatTable volume) 3 index = 3 := by
  have self : tableEntry (driver.fatTable volume) 3 = 3 := by
    rw [tableEntry_fatTable (by decide), volume_eq]
    decide
  induction index with
  | zero => rfl
  | succ index induction => rw [clusterAt, induction, self]

end EmptyClusters

namespace FarLink

/--
The volume of two files, but the file `A` has `1500` bytes and the entry of
cluster `3` is the reserved number `0x0ffffff0`.
-/
def disk : Disk := fun sector offset =>
  match sector, offset with
  | 0, 510 => 0x55
  | 0, 511 => 0xaa
  | 1, 12 => 0xf0
  | 1, 13 => 0xff
  | 1, 14 => 0xff
  | 1, 15 => 0x0f
  | 2, 28 => 0xdc
  | 2, 29 => 0x05
  | sector, offset => TwoFiles.disk sector offset

def volume : Fat32Volume :=
  fat32Init disk (fun _ => 0) 0

def driver : Driver :=
  ⟨disk, fun _ => 0, fun _ => 0⟩

def file : File :=
  TwoFiles.handles.files true

theorem volume_eq : volume = ⟨2, 1, 1, 1⟩ := by
  simp only [volume, fat32Init, bpb_of_read]
  decide

theorem accepted : isFat32 disk (fun _ => 0) 0 = true := by
  simp only [isFat32, bpb_of_read]
  decide

theorem fileSize : driver.fileSize volume file = 1500 := by
  have handle : file.fat32File = (TwoFiles.files false).handle := rfl
  rw [volume_eq, fileSize_eq handle (by decide)]
  decide

theorem linkCount_eq :
    linkCount volume (wantedEnd volume driver file 1500) = 2 := by
  rw [wantedEnd, fileSize, volume_eq]
  decide

theorem clusterAt_zero :
    clusterAt (driver.fatTable volume) file.fat32File.cluster 0 = 3 :=
  rfl

theorem clusterAt_one :
    clusterAt (driver.fatTable volume) file.fat32File.cluster 1 =
      0x0ffffff0 := by
  rw [clusterAt, clusterAt_zero, tableEntry_fatTable (by decide), volume_eq]
  decide

end FarLink

/--
On disks that `is_fat32` accepts, a read of one byte does not end when clusters
have no sectors, and a read over three clusters does not when the link of the
second is read almost `2 ^ 30` bytes behind the buffer.
-/
theorem fat32_read_endless :
    (isFat32 EmptyClusters.disk (fun _ => 0) 0 = true ∧
      EmptyClusters.volume = fat32Init EmptyClusters.disk (fun _ => 0) 0 ∧
      EmptyClusters.driver.disk = EmptyClusters.disk ∧
      ∀ mapped, ¬ Returns mapped (fun fuel => fat32Read EmptyClusters.volume
        fuel EmptyClusters.driver EmptyClusters.file (fun _ => 0) 1)) ∧
    isFat32 FarLink.disk (fun _ => 0) 0 = true ∧
      FarLink.volume = fat32Init FarLink.disk (fun _ => 0) 0 ∧
      FarLink.driver.disk = FarLink.disk ∧
      ∀ mapped < 2 ^ 30 - 60, ¬ Returns mapped (fun fuel =>
        fat32Read FarLink.volume fuel FarLink.driver FarLink.file
          (fun _ => 0) 1500) := by
  refine ⟨⟨EmptyClusters.accepted, rfl, rfl, fun mapped returns => ?_⟩,
    FarLink.accepted, rfl, rfl, fun mapped few returns => ?_⟩
  · have ends := (transfer_returns_iff readAccess_tableBuf
      (show 0 ≤ EmptyClusters.file.cfo by decide)).1 returns
    rw [EmptyClusters.fileSize, EmptyClusters.volume_eq] at ends
    rcases ends with atEnd | ⟨sectors, -⟩ | ⟨-, ⟨-, nothing⟩ | ⟨index, mark, -⟩⟩
    · exact absurd atEnd (by decide)
    · exact absurd sectors (by decide)
    · cases nothing
    · have here : EmptyClusters.file.fat32File.cluster = 3 := rfl
      rw [← EmptyClusters.volume_eq, here, EmptyClusters.clusterAt_eq] at mark
      exact absurd mark (by decide)
  · have ends := (transfer_returns_iff readAccess_tableBuf
      (show 0 ≤ FarLink.file.cfo by decide)).1 returns
    rw [FarLink.fileSize, FarLink.linkCount_eq] at ends
    rcases ends with atEnd | ⟨-, links⟩ | ⟨empty, -⟩
    · exact absurd atEnd (by decide)
    · have second := links 1 (by decide) fun earlier le => by
        rcases Nat.le_one_iff_eq_zero_or_eq_one.1 le with rfl | rfl
        · rw [FarLink.clusterAt_zero]
          decide
        · rw [FarLink.clusterAt_one]
          decide
      rw [FarLink.clusterAt_one, InMapped] at second
      omega
    · rw [FarLink.volume_eq] at empty
      exact absurd empty (by decide)

/-! ## The bound on a transfer -/

/-- The counters within a transfer of the bytes from `start` to `maxCfo`. -/
structure Cursor.Within (start maxCfo : Nat) (cursor : Cursor) : Prop where
  lower : start ≤ cursor.cfo
  upper : cursor.cfo ≤ maxCfo
  passed : cursor.passed ≤ cursor.cfo
  len : cursor.len = cursor.cfo - start

section Within

variable {access : Access} {volume : Fat32Volume} {start maxCfo : Nat}

theorem sectorLoop_within {cluster rest sector : Nat} {cursor : Cursor}
    (within : cursor.Within start maxCfo) :
    (sectorLoop access volume maxCfo cluster rest sector cursor).Within start
      maxCfo := by
  induction rest generalizing sector cursor with
  | zero => exact within
  | succ rest induction =>
      obtain ⟨lower, upper, passed, len⟩ := within
      rw [sectorLoop]
      split
      · next skipped => exact induction ⟨lower, upper, skipped, len⟩
      · split
        · exact ⟨lower, upper, passed, len⟩
        · refine induction ⟨?_, ?_, Nat.le_refl _, ?_⟩
          · dsimp only
            omega
          · dsimp only
            omega
          · dsimp only
            omega

theorem clusterLoop_within {fuel cluster : Nat} {walk last : Walk}
    {cursor final : Cursor} (within : cursor.Within start maxCfo)
    (ran : clusterLoop access volume maxCfo fuel cluster walk cursor =
      some (last, final)) : final.Within start maxCfo := by
  induction fuel generalizing cluster walk cursor with
  | zero => cases ran
  | succ fuel induction =>
      have moved : (sectorLoop access volume maxCfo cluster
          volume.secPerCluster 0 cursor).Within start maxCfo :=
        sectorLoop_within within
      rw [clusterLoop] at ran
      split at ran
      · dsimp only at ran
        split at ran
        · cases ran
          exact moved
        · exact induction moved ran
      · cases ran
        exact within

/-- No more bytes are reported than were asked for. -/
theorem transfer_returned_le {fuel len : Nat} {driver : Driver} {file : File}
    {user : Bytes} {result : Transfer} (offset : 0 ≤ file.cfo)
    (ran : transfer access volume fuel driver file user len = some result) :
    result.returned ≤ len := by
  by_cases beyond : (driver.fileSize volume file : Int) ≤ file.cfo
  · rw [transfer_at_end beyond] at ran
    cases ran
    exact Nat.zero_le len
  · have inside : file.cfo.toNat < driver.fileSize volume file := by omega
    rw [transfer_before_end (Int.toNat_of_nonneg offset).symm inside] at ran
    obtain ⟨⟨walk, cursor⟩, loop, rfl⟩ := Option.map_eq_some_iff.1 ran
    have within : cursor.Within file.cfo.toNat (file.cfo.toNat +
        min len (driver.fileSize volume file - file.cfo.toNat)) :=
      clusterLoop_within ⟨Nat.le_refl _, Nat.le_add_right _ _, Nat.zero_le _,
        (Nat.sub_self _).symm⟩ loop
    have bound := within.upper
    have count := within.len
    dsimp only
    omega

end Within

/-! ## Files of a given size -/

/-- A disk on which every directory sector gives its first entry the size. -/
def sizedDriver (size : Nat) : Driver :=
  ⟨fun _ => Bytes.putLittleEndian (fun _ => 0) 28 size 4, fun _ => 0, fun _ => 0⟩

/-- One sector a cluster. -/
def sizedVolume : Fat32Volume :=
  ⟨0, 0, 1, 0⟩

theorem sizedDriver_fileSize {size : Nat} {file : File} (small : size < word32)
    (first : file.fat32File.dir.index = 0) :
    (sizedDriver size).fileSize sizedVolume file = size := by
  rw [Driver.fileSize, Driver.entrySize, first, Driver.loadDirectory,
    Driver.load]
  dsimp only
  rw [virtioBlkReadSector_littleEndian _ _ _ (by decide), sizedDriver,
    Bytes.littleEndian_putLittleEndian]
  exact Nat.mod_eq_of_lt (small.trans_eq (by norm_num))

/-- A transfer from the start of a file of at most one sector. -/
theorem transfer_sized {access : Access}
    (keepsTable : ∀ sector secOffset copyLen done memory,
      (access sector secOffset copyLen done memory).driver.tableBuf =
        memory.driver.tableBuf)
    {file : File} {size len : Nat} (user : Bytes) (start : file.cfo = 0)
    (cluster : file.fat32File.cluster = 0)
    (first : file.fat32File.dir.index = 0) (nonempty : 0 < size)
    (short : size ≤ sectorSize) (enough : size ≤ len) :
    ∃ result,
      transfer access sizedVolume 1 (sizedDriver size) file user len =
        some result ∧
      result.returned = size := by
  have sized : (sizedDriver size).fileSize sizedVolume file = size :=
    sizedDriver_fileSize (short.trans_lt (by decide)) first
  have clusters : linkCount sizedVolume size = 0 := by
    simp only [linkCount, Fat32Volume.clusterBytes, sizedVolume, sectorSize] at *
    omega
  have offset : file.cfo = ((0 : Nat) : Int) := start
  have last : size = 0 + min len (size - 0) := by omega
  obtain ⟨memory, ran, -⟩ :=
    @transfer_spec sizedVolume 1 (sizedDriver size) file len 0 size size access
      (TableIs ((sizedDriver size).fatTable sizedVolume)) user (by decide)
      offset sized nonempty last
      (by
        intro index bound
        rw [clusters] at bound
        obtain rfl := Nat.le_zero.1 bound
        rw [clusterAt, cluster]
        decide)
      (by rw [clusters]; decide)
      (fun _ _ holds _ => (keepsTable _ _ _ _ _).trans holds)
      (fun _ _ holds => holds)
      (Driver.prepare_tableBuf sizedVolume _ file)
  refine ⟨_, ran, ?_⟩
  dsimp only
  omega

end TinyRiscvOs.Fs
