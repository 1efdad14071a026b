import TinyRiscvOs.Fs.CountedLoops
import TinyRiscvOs.Fs.ChainEnd

/-!
# Failed requests to the block device

The device answers every request with a status byte, and moves no data when it
is not zero.  `virtio_blk_read_sector` and `virtio_blk_write_sector` wait for
the answer and do not look at the byte, so a transfer goes on with whatever the
sector buffers hold.  Requests are numbered from the start of the call: the
directory sector is request `0`, the table request `1`.
-/

namespace TinyRiscvOs.Fs

open TinyRiscvOs.Lib

/-! ## The code -/

/-- A sector read into `fat32_buf`, unless the request fails. -/
def Driver.tryLoad (driver : Driver) (status : Byte) (sector : Nat) : Driver :=
  if status = 0 then driver.load sector else driver

/-- A sector read into `fat32_table_buf`, unless the request fails. -/
def Driver.tryLoadTable (driver : Driver) (status : Byte) (sector : Nat) :
    Driver :=
  if status = 0 then driver.loadTable sector else driver

/-- `fat32_buf` written to a sector, unless the request fails. -/
def Driver.tryStore (driver : Driver) (status : Byte) (sector : Nat) : Driver :=
  if status = 0 then
    { driver with
      disk := virtioBlkWriteSector driver.disk sector driver.buf }
  else driver

/-- The access of `fat32_read` with request `k`. -/
def faultyReadAccess (status : Nat → Byte) (k : Nat) : Access :=
  fun sector secOffset copyLen readLen memory =>
    let driver := memory.driver.tryLoad (status k) sector
    { driver := driver
      user := memory.user.copy readLen driver.buf secOffset copyLen }

/-- The access of `fat32_write` with the requests `k` and `k + 1`. -/
def faultyWriteAccess (status : Nat → Byte) (k : Nat) : Access :=
  fun sector secOffset copyLen writeLen memory =>
    let driver := memory.driver.tryLoad (status k) sector
    let driver :=
      { driver with
        buf := driver.buf.copy secOffset memory.user writeLen copyLen }
    { driver := driver.tryStore (status (k + 1)) sector
      user := memory.user }

/-- What a call leaves behind, and the number of its requests. -/
structure CountedTransfer where
  returned : Nat
  file : File
  memory : Memory
  requests : Nat
  walk : Walk

/-- The end of a call whose loops have ended. -/
def Counted.transfer (counted : Counted) (file : File) : CountedTransfer where
  returned := counted.cursor.len
  file := { file with cfo := counted.cursor.cfo }
  memory := counted.cursor.memory
  requests := counted.requests
  walk := counted.walk

/-- `transfer` with a device that may fail. -/
def faultyTransfer (status : Nat → Byte) (access : Nat → Access) (each : Nat)
    (volume : Fat32Volume) (fuel : Nat) (driver : Driver) (file : File)
    (user : Bytes) (len : Nat) : Option CountedTransfer :=
  let driver := driver.tryLoad (status 0)
    (clusterToSector volume file.fat32File.dir.cluster)
  let size := driver.entrySize file
  if file.cfo ≥ size then some ⟨0, file, ⟨driver, user⟩, 1, ⟨[], [], none⟩⟩
  else
    let cfo := (file.cfo % word64).toNat
    let maxCfo := cfo + min len (size - cfo)
    let driver := driver.tryLoadTable (status 1) volume.firstFatSec
    (countedClusterLoop access each volume maxCfo fuel file.fat32File.cluster
      ⟨⟨cfo, 0, 0, ⟨driver, user⟩⟩, 2, ⟨[], [], none⟩⟩).map
        (Counted.transfer · file)

/-- `fat32_read` with a device that may fail. -/
def faultyRead (status : Nat → Byte) (volume : Fat32Volume) (fuel : Nat)
    (driver : Driver) (file : File) (buf : Bytes) (len : Nat) :
    Option CountedTransfer :=
  faultyTransfer status (faultyReadAccess status) 1 volume fuel driver file buf
    len

/-- `fat32_write` with a device that may fail. -/
def faultyWrite (status : Nat → Byte) (volume : Fat32Volume) (fuel : Nat)
    (driver : Driver) (file : File) (buf : Bytes) (len : Nat) :
    Option CountedTransfer :=
  faultyTransfer status (faultyWriteAccess status) 2 volume fuel driver file buf
    len

/-! ## What is asked of a call -/

/--
A failed request is the last one, and fewer bytes are reported than by a call
without failures.
-/
def StopsAtFailure (status : Nat → Byte) (whole : Nat → Option Transfer)
    (result : CountedTransfer) : Prop :=
  ∀ k, k < result.requests → status k ≠ 0 →
    k + 1 = result.requests ∧
      ∀ fuel complete, whole fuel = some complete →
        result.returned < complete.returned

/-- The byte of the disk is the one of the file with the chain at a position. -/
def FileByte (volume : Fat32Volume) (chain : List Nat)
    (position sector offset : Nat) : Prop :=
  position / volume.clusterBytes < chain.length ∧
    sector = contentSector volume.firstDataSec volume.secPerCluster chain
      position ∧
    offset = position % sectorSize

/-- The bytes reported as read are those of the file. -/
def ReadsContent (volume : Fat32Volume) (driver : Driver) (file : File)
    (chain : List Nat) (returned : Nat) (memory : Memory) : Prop :=
  ∀ index, index < returned → ∃ sector offset,
    FileByte volume chain (file.cfo.toNat + index) sector offset ∧
      memory.user index = driver.disk sector offset

/-- No byte of the disk outside the range of the call is changed. -/
def WritesRange (volume : Fat32Volume) (driver : Driver) (file : File)
    (chain : List Nat) (len _ : Nat) (memory : Memory) : Prop :=
  ∀ sector offset, offset < sectorSize →
    (∀ index, index < len →
      ¬ FileByte volume chain (file.cfo.toNat + index) sector offset) →
    memory.driver.disk sector offset = driver.disk sector offset

/-- A call that ends, with the right effect, and stops at a failure. -/
structure Contained (mapped : Nat) (status : Nat → Byte)
    (whole : Nat → Option Transfer) (sound : Nat → Memory → Prop)
    (run : Nat → Option CountedTransfer) : Prop where
  ends : ∃ fuel result, run fuel = some result ∧
    ∀ cluster ∈ result.walk.links, InMapped mapped cluster
  sound : ∀ fuel result, run fuel = some result →
    sound result.returned result.memory
  stops : ∀ fuel result, run fuel = some result →
    StopsAtFailure status whole result

/-! ## The condition -/

/-- The sector is wanted by the call, and the links of the table lead to it. -/
def Wanted (volume : Fat32Volume) (driver : Driver) (file : File) (len : Nat)
    (table : Bytes) (sector : Nat) : Prop :=
  file.cfo.toNat / sectorSize ≤ sector ∧
    Reached volume (clusterAt table file.fat32File.cluster)
      (wantedEnd volume driver file len) sector

/-- A call without failures moves some byte. -/
def Moves (volume : Fat32Volume) (driver : Driver) (file : File) (len : Nat) :
    Prop :=
  file.cfo.toNat < driver.fileSize volume file ∧ 0 < len ∧
    Wanted volume driver file len (driver.fatTable volume)
      (file.cfo.toNat / sectorSize)

/-- The links that a call follows in the table do not fault. -/
def LinksServed (mapped : Nat) (volume : Fat32Volume) (driver : Driver)
    (file : File) (len : Nat) (table : Bytes) : Prop :=
  LinksMapped mapped (clusterAt table file.fat32File.cluster)
    (linkCount volume (wantedEnd volume driver file len))

/--
No request of a call without failures fails; or what an earlier call left in
the buffers ends the call right after the failed request, though a byte was to
be moved.
-/
structure Spared (mapped : Nat) (status : Nat → Byte) (each : Nat)
    (volume : Fat32Volume) (driver : Driver) (file : File) (len : Nat) :
    Prop where
  directory : status 0 ≠ 0 →
    driver.entrySize file ≤ file.cfo ∧ Moves volume driver file len
  table : status 0 = 0 → file.cfo < driver.fileSize volume file →
    status 1 ≠ 0 →
      LinksServed mapped volume driver file len driver.tableBuf ∧
        ¬ Wanted volume driver file len driver.tableBuf
          (file.cfo.toNat / sectorSize) ∧
        Moves volume driver file len
  sectors : status 0 = 0 → file.cfo < driver.fileSize volume file →
    status 1 = 0 →
      LinksServed mapped volume driver file len (driver.fatTable volume) ∧
        ∀ sector,
          Wanted volume driver file len (driver.fatTable volume) sector →
            ∀ j, j < each →
              status (2 + each * (sector - file.cfo.toNat / sectorSize) + j) =
                0

/--
The bytes to which the links of the loaded table lead are those of the chain:
every link before them is in the sector of the table that was read, and their
sector has a 32-bit number.
-/
def KeepsToChain (volume : Fat32Volume) (driver : Driver) (file : File)
    (len : Nat) (chain : List Nat) : Prop :=
  ∀ position, file.cfo.toNat ≤ position →
    position < wantedEnd volume driver file len →
    Wanted volume driver file len (driver.fatTable volume)
      (position / sectorSize) →
    position / volume.clusterBytes < chain.length ∧
      (∀ index, index < position / volume.clusterBytes →
        InLoadedSector volume (chain.getD index 0)) ∧
      contentSector volume.firstDataSec volume.secPerCluster chain position <
        word32

/-! ## Before the loops -/

section Entry

variable {status : Nat → Byte} {access : Nat → Access} {healthy : Access}
    {each : Nat} {volume : Fat32Volume} {fuel : Nat} {driver : Driver}
    {file : File} {user : Bytes} {len : Nat}

/-- The driver once request `0` is answered. -/
def Driver.tryDirectory (driver : Driver) (status : Nat → Byte)
    (volume : Fat32Volume) (file : File) : Driver :=
  driver.tryLoad (status 0) (clusterToSector volume file.fat32File.dir.cluster)

theorem Driver.tryDirectory_of_failed (failed : status 0 ≠ 0) :
    driver.tryDirectory status volume file = driver :=
  if_neg failed

theorem Driver.tryDirectory_of_served (served : status 0 = 0) :
    driver.tryDirectory status volume file = driver.loadDirectory volume file :=
  if_pos served

/-- The state of the loops at their start. -/
def Counted.initial (start : Nat) (memory : Memory) : Counted :=
  ⟨⟨start, 0, 0, memory⟩, 2, ⟨[], [], none⟩⟩

/-- With nothing after the position in the entry, one request is made. -/
theorem faultyTransfer_at_end
    (beyond : (driver.tryDirectory status volume file).entrySize file ≤
      file.cfo) :
    faultyTransfer status access each volume fuel driver file user len =
      some ⟨0, file, ⟨driver.tryDirectory status volume file, user⟩, 1,
        ⟨[], [], none⟩⟩ := by
  rw [faultyTransfer]
  exact if_pos beyond

theorem faultyTransfer_before_end (offset : 0 ≤ file.cfo) {size : Nat}
    (sized : (driver.tryDirectory status volume file).entrySize file = size)
    (inside : file.cfo.toNat < size) :
    faultyTransfer status access each volume fuel driver file user len =
      (countedClusterLoop access each volume
        (file.cfo.toNat + min len (size - file.cfo.toNat)) fuel
        file.fat32File.cluster
        (.initial file.cfo.toNat
          ⟨(driver.tryDirectory status volume file).tryLoadTable (status 1)
            volume.firstFatSec, user⟩)).map (Counted.transfer · file) := by
  have small : size < 256 ^ 4 := sized ▸ Bytes.littleEndian_lt _ _ _
  have unsigned : (file.cfo % (word64 : Nat)).toNat = file.cfo.toNat := by
    have word : (256 : Nat) ^ 4 = word32 := by norm_num
    simp only [word, word32, word64] at *
    omega
  subst sized
  rw [faultyTransfer]
  refine (if_neg ?_).trans ?_
  · exact Int.not_le.2 (Int.lt_of_toNat_lt inside)
  · rw [unsigned]
    rfl

/-- A call of the driver before the end of the file, with counted requests. -/
theorem transfer_counted (each : Nat) (offset : 0 ≤ file.cfo)
    (inside : file.cfo.toNat < driver.fileSize volume file) :
    (transfer healthy volume fuel driver file user len).map
        (fun whole => (whole.returned, whole.memory)) =
      (countedClusterLoop (fun _ => healthy) each volume
        (wantedEnd volume driver file len) fuel file.fat32File.cluster
        (.initial file.cfo.toNat ⟨driver.prepare volume file, user⟩)).map
          fun counted => (counted.cursor.len, counted.cursor.memory) := by
  have forgets := @countedClusterLoop_forget healthy each volume
    (wantedEnd volume driver file len) file.fat32File.cluster fuel
    (.initial file.cfo.toNat ⟨driver.prepare volume file, user⟩)
  have pairs := congrArg (Option.map fun pair : Walk × Cursor =>
    (pair.2.len, pair.2.memory)) forgets
  rw [Option.map_map] at pairs
  rw [transfer_before_end (Int.toNat_of_nonneg offset).symm inside,
    Option.map_map]
  exact pairs.symm

end Entry

/-! ## The loops -/

section Loops

variable {access : Nat → Access} {each : Nat} {volume : Fat32Volume}
    {start maxCfo first fuel : Nat} {memory : Memory} {final : Counted}

theorem CountedProgress.initial {inv : Nat → Memory → Prop} (sectors : Nat)
    (holds : inv 0 memory) :
    CountedProgress each start maxCfo inv (0 * sectors)
      (.initial start memory) := by
  rw [Nat.zero_mul]
  refine ⟨.initial holds, ?_⟩
  rw [Nat.zero_min, Nat.zero_sub, Nat.mul_zero]
  rfl

/-- Accesses that leave the table alone. -/
theorem tableSetting (nonempty : 0 < volume.secPerCluster)
    (ordered : start ≤ maxCfo)
    (table : ∀ k sector secOffset copyLen done memory,
      (access k sector secOffset copyLen done memory).driver.tableBuf =
        memory.driver.tableBuf) (bytes : Bytes) :
    CountedSetting access volume start maxCfo (clusterAt bytes first) bytes
      (TableIs bytes) where
  nonempty := nonempty
  ordered := ordered
  keeps := fun _ _ _ holds _ => (table _ _ _ _ _ _).trans holds
  kept := fun _ _ holds => holds
  linked := fun _ => rfl

/-- The counters at the end of the loops. -/
theorem loops_outcome (nonempty : 0 < volume.secPerCluster)
    (ordered : start ≤ maxCfo)
    (table : ∀ k sector secOffset copyLen done memory,
      (access k sector secOffset copyLen done memory).driver.tableBuf =
        memory.driver.tableBuf)
    (ran : countedClusterLoop access each volume maxCfo fuel first
      (.initial start memory) = some final) :
    ∃ stop, Outcome each volume start maxCfo
      (clusterAt memory.driver.tableBuf first) stop final := by
  obtain ⟨count, ends⟩ := countedClusterLoop_end
    (tableSetting nonempty ordered table memory.driver.tableBuf)
    (.initial volume.secPerCluster rfl)
    (fun _ below => absurd below (Nat.not_lt_zero _)) (Nat.zero_le _) rfl ran
  exact ⟨_, ends.outcome nonempty⟩

theorem loops_terminate (nonempty : 0 < volume.secPerCluster)
    (ordered : start ≤ maxCfo)
    (table : ∀ k sector secOffset copyLen done memory,
      (access k sector secOffset copyLen done memory).driver.tableBuf =
        memory.driver.tableBuf) :
    ∃ fuel final,
      countedClusterLoop access each volume maxCfo fuel first
        (.initial start memory) = some final :=
  ⟨_, countedClusterLoop_terminates
    (tableSetting nonempty ordered table memory.driver.tableBuf)
    (.initial volume.secPerCluster rfl) (Nat.le_of_eq (Nat.zero_add _).symm)⟩

/-- One number of sectors is reached by all loops over a table. -/
theorem table_outcome (nonempty : 0 < volume.secPerCluster)
    (ordered : start ≤ maxCfo) (bytes : Bytes) :
    ∃ stop, ∀ {access : Nat → Access} {each fuel : Nat} {memory : Memory}
      {final : Counted},
      (∀ k sector secOffset copyLen done memory,
        (access k sector secOffset copyLen done memory).driver.tableBuf =
          memory.driver.tableBuf) →
      memory.driver.tableBuf = bytes →
      countedClusterLoop access each volume maxCfo fuel first
        (.initial start memory) = some final →
      Outcome each volume start maxCfo (clusterAt bytes first) stop final := by
  obtain ⟨fuel, final, loops⟩ := @loops_terminate
    (fun _ _ _ _ _ memory => memory) 1 volume start maxCfo first
    ⟨⟨fun _ _ => 0, fun _ => 0, bytes⟩, fun _ => 0⟩ nonempty ordered
    (fun _ _ _ _ _ _ => rfl)
  obtain ⟨stop, outcome⟩ :=
    loops_outcome nonempty ordered (fun _ _ _ _ _ _ => rfl) loops
  refine ⟨stop, fun table same ran => ?_⟩
  obtain ⟨other, later⟩ := loops_outcome nonempty ordered table ran
  rw [same] at later
  rwa [later.stop_eq outcome] at later

/-- An invariant of the accesses holds at the end of the loops. -/
theorem loops_inv {healthy : Access} {inv : Nat → Memory → Prop}
    {table : Bytes} (nonempty : 0 < volume.secPerCluster)
    (ordered : start ≤ maxCfo)
    (keeps : Keeps healthy start maxCfo
      (placeOf volume (clusterAt table first)) inv)
    (kept : ∀ len memory, inv len memory → memory.driver.tableBuf = table)
    (holds : inv 0 memory)
    (ran : countedClusterLoop (fun _ => healthy) each volume maxCfo fuel first
      (.initial start memory) = some final) :
    inv final.cursor.len final.cursor.memory := by
  have setting : CountedSetting (fun _ => healthy) volume start maxCfo
      (clusterAt table first) table inv :=
    ⟨nonempty, ordered, fun _ => keeps, kept, fun _ => rfl⟩
  obtain ⟨count, ends⟩ := countedClusterLoop_end setting
    (.initial volume.secPerCluster holds)
    (fun _ below => absurd below (Nat.not_lt_zero _)) (Nat.zero_le _) rfl ran
  exact ends.holds.progress.memory

/-- Loops without a request leave the memory alone. -/
theorem loops_untouched (positive : 0 < each)
    (nonempty : 0 < volume.secPerCluster) (ordered : start ≤ maxCfo)
    (ran : countedClusterLoop access each volume maxCfo fuel first
      (.initial start memory) = some final)
    (none : final.requests = 2) :
    final.cursor.memory = memory := by
  have same : countedClusterLoop (fun _ _ _ _ _ memory => memory) each volume
      maxCfo fuel first (.initial start memory) = some final := by
    refine countedClusterLoop_congr (fun k lower upper => ?_) ran
    have two : (Counted.initial start memory).requests = 2 := rfl
    omega
  have kept : ∀ (len : Nat) (other : Memory), other = memory →
      other.driver.tableBuf = memory.driver.tableBuf :=
    fun _ _ same => same ▸ rfl
  exact @loops_inv each volume start maxCfo first fuel memory final
    (fun _ _ _ _ memory => memory) (fun _ other => other = memory)
    memory.driver.tableBuf nonempty ordered (fun _ _ holds _ => holds) kept rfl
    same

end Loops

/-! ## One operation -/

/-- An access with failures, and the one it is without them. -/
structure FaultyVersion (status : Nat → Byte) (each : Nat) (healthy : Access)
    (faulty : Nat → Access) : Prop where
  positive : 0 < each
  table : ∀ k sector secOffset copyLen done memory,
    (faulty k sector secOffset copyLen done memory).driver.tableBuf =
      memory.driver.tableBuf
  whole : ∀ sector secOffset copyLen done memory,
    (healthy sector secOffset copyLen done memory).driver.tableBuf =
      memory.driver.tableBuf
  agrees : ∀ k, (∀ j, j < each → status (k + j) = 0) → faulty k = healthy

theorem faultyReadAccess_version (status : Nat → Byte) :
    FaultyVersion status 1 readAccess (faultyReadAccess status) where
  positive := Nat.one_pos
  table k sector _ _ _ memory := by
    dsimp only [faultyReadAccess, Driver.tryLoad]
    split <;> rfl
  whole := readAccess_tableBuf
  agrees k zero := by
    have served : status k = 0 := zero 0 Nat.one_pos
    funext sector secOffset copyLen done memory
    rw [faultyReadAccess, Driver.tryLoad, if_pos served, readAccess]

theorem faultyWriteAccess_version (status : Nat → Byte) :
    FaultyVersion status 2 writeAccess (faultyWriteAccess status) where
  positive := Nat.two_pos
  table k sector _ _ _ memory := by
    dsimp only [faultyWriteAccess, Driver.tryLoad, Driver.tryStore]
    split <;> split <;> rfl
  whole := writeAccess_tableBuf
  agrees k zero := by
    have loaded : status k = 0 := zero 0 Nat.two_pos
    have stored : status (k + 1) = 0 := zero 1 Nat.one_lt_two
    funext sector secOffset copyLen done memory
    simp only [faultyWriteAccess, Driver.tryLoad, Driver.tryStore, if_pos loaded,
      if_pos stored, writeAccess]

/-- A call that leaves before its loops follows no link. -/
theorem no_links {mapped : Nat} :
    ∀ cluster ∈ ([] : List Nat), InMapped mapped cluster :=
  fun _ member => absurd member List.not_mem_nil

section Operation

variable {status : Nat → Byte} {faulty : Nat → Access} {healthy : Access}
    {each : Nat} {volume : Fat32Volume} {fuel : Nat} {driver : Driver}
    {file : File} {user : Bytes} {len : Nat} {whole : Transfer}

/-- The loops of a call without failures. -/
theorem whole_loops (each : Nat) (offset : 0 ≤ file.cfo)
    (inside : file.cfo.toNat < driver.fileSize volume file)
    (ran : transfer healthy volume fuel driver file user len = some whole) :
    ∃ final,
      countedClusterLoop (fun _ => healthy) each volume
          (wantedEnd volume driver file len) fuel file.fat32File.cluster
          (.initial file.cfo.toNat ⟨driver.prepare volume file, user⟩) =
        some final ∧
      whole.returned = final.cursor.len ∧ whole.memory = final.cursor.memory := by
  have counted := @transfer_counted healthy volume fuel driver file user len
    each offset inside
  rw [ran, Option.map_some, eq_comm, Option.map_eq_some_iff] at counted
  obtain ⟨final, loops, pair⟩ := counted
  exact ⟨final, loops, (congrArg Prod.fst pair).symm,
    (congrArg Prod.snd pair).symm⟩

theorem whole_terminates (version : FaultyVersion status each healthy faulty)
    (nonempty : 0 < volume.secPerCluster) (offset : 0 ≤ file.cfo) :
    ∃ fuel whole,
      transfer healthy volume fuel driver file user len = some whole := by
  by_cases inside : file.cfo.toNat < driver.fileSize volume file
  · obtain ⟨whole, ran, -⟩ := @transfer_walk healthy volume
      (linkCount volume (wantedEnd volume driver file len) + 1) driver file user
      len version.whole nonempty offset inside (Nat.lt_succ_self _)
    exact ⟨_, whole, ran⟩
  · exact ⟨0, _, transfer_at_end (by omega)⟩

/-- When a call without failures reports a byte. -/
theorem whole_moves_iff (version : FaultyVersion status each healthy faulty)
    (nonempty : 0 < volume.secPerCluster) (offset : 0 ≤ file.cfo)
    (ran : transfer healthy volume fuel driver file user len = some whole) :
    0 < whole.returned ↔ Moves volume driver file len := by
  by_cases inside : file.cfo.toNat < driver.fileSize volume file
  · obtain ⟨final, loops, returned, -⟩ := whole_loops each offset inside ran
    have ordered : file.cfo.toNat ≤ wantedEnd volume driver file len :=
      Nat.le_add_right _ _
    obtain ⟨stop, outcome⟩ := loops_outcome nonempty ordered
      (fun _ => version.whole) loops
    rw [driver.prepare_tableBuf] at outcome
    have first := outcome.reached (file.cfo.toNat / sectorSize)
    have range : file.cfo.toNat < wantedEnd volume driver file len ↔
        0 < len := by
      rw [wantedEnd]
      omega
    have positive : 0 < whole.returned ↔
        file.cfo.toNat < wantedEnd volume driver file len ∧
          file.cfo.toNat / sectorSize < stop := by
      rw [returned, outcome.len]
      simp only [sectorSize]
      omega
    rw [positive, range, first, Moves, Wanted]
    exact ⟨fun both => ⟨inside, both.1, Nat.le_refl _, both.2⟩,
      fun all => ⟨all.2.1, all.2.2.2⟩⟩
  · rw [transfer_at_end (by omega)] at ran
    cases ran
    exact iff_of_false (Nat.lt_irrefl 0) fun moves => inside moves.1

/-- Nothing was reported, and a call without failures reports more. -/
theorem less_than_whole_iff
    (version : FaultyVersion status each healthy faulty)
    (nonempty : 0 < volume.secPerCluster) (offset : 0 ≤ file.cfo) :
    (∀ fuel complete,
        transfer healthy volume fuel driver file user len = some complete →
          0 < complete.returned) ↔
      Moves volume driver file len := by
  constructor
  · intro more
    obtain ⟨fuel, whole, ran⟩ := @whole_terminates status faulty healthy each
      volume driver file user len version nonempty offset
    exact (whole_moves_iff version nonempty offset ran).1 (more fuel whole ran)
  · exact fun moves _ _ ran =>
      (whole_moves_iff version nonempty offset ran).2 moves

variable {sound : Nat → Memory → Prop} {mapped : Nat}

/-- The directory request fails. -/
theorem contained_iff_directory
    (version : FaultyVersion status each healthy faulty)
    (nonempty : 0 < volume.secPerCluster) (offset : 0 ≤ file.cfo)
    (nothing : ∀ memory, memory.driver.disk = driver.disk → sound 0 memory)
    (failed : status 0 ≠ 0) :
    Contained mapped status
        (fun fuel => transfer healthy volume fuel driver file user len) sound
        (fun fuel => faultyTransfer status faulty each volume fuel driver file
          user len) ↔
      driver.entrySize file ≤ file.cfo ∧ Moves volume driver file len := by
  have stale : driver.tryDirectory status volume file = driver :=
    Driver.tryDirectory_of_failed failed
  by_cases beyond : (driver.entrySize file : Int) ≤ file.cfo
  · have run : ∀ fuel, faultyTransfer status faulty each volume fuel driver file
        user len = some ⟨0, file, ⟨driver, user⟩, 1, ⟨[], [], none⟩⟩ := by
      intro fuel
      rw [faultyTransfer_at_end (by rw [stale]; exact beyond), stale]
    rw [and_iff_right beyond, ← @less_than_whole_iff status faulty healthy each
      volume driver file user len version nonempty offset]
    constructor
    · exact fun contained => (contained.stops 0 _ (run 0) 0 Nat.one_pos failed).2
    · refine fun more => ⟨⟨0, _, run 0, no_links⟩, fun fuel result ran => ?_,
        fun fuel result ran => ?_⟩
      · cases (run fuel).symm.trans ran
        exact nothing _ rfl
      · cases (run fuel).symm.trans ran
        exact fun k below _ => ⟨show k + 1 = 1 from
          congrArg Nat.succ (Nat.lt_one_iff.1 below), more⟩
  · refine iff_of_false (fun contained => ?_) fun both => beyond both.1
    obtain ⟨fuel, result, ran, -⟩ := contained.ends
    have stops := contained.stops fuel result ran
    rw [faultyTransfer_before_end offset rfl (by rw [stale]; omega)] at ran
    obtain ⟨final, loops, rfl⟩ := Option.map_eq_some_iff.1 ran
    have count : 2 ≤ final.requests := countedClusterLoop_requests_le loops
    have last := (stops 0 (show 0 < final.requests by omega) failed).1
    have : 0 + 1 = final.requests := last
    omega

/-- Every request of the loops is served exactly when each sector is. -/
theorem served_iff {first stop : Nat} (positive : 0 < each) :
    (∀ k, 2 ≤ k → k < 2 + each * (stop - first) → status k = 0) ↔
      ∀ sector, first ≤ sector → sector < stop → ∀ j, j < each →
        status (2 + each * (sector - first) + j) = 0 := by
  constructor
  · intro served sector lower upper j below
    have room : each * (sector - first + 1) ≤ each * (stop - first) :=
      Nat.mul_le_mul_left each (by omega)
    rw [Nat.mul_add, Nat.mul_one] at room
    exact served _ (by omega) (by omega)
  · intro served k lower upper
    have split : each * ((k - 2) / each) + (k - 2) % each = k - 2 :=
      Nat.div_add_mod _ _
    have inside : (k - 2) / each < stop - first := by
      rw [Nat.div_lt_iff_lt_mul positive, Nat.mul_comm]
      omega
    have here := served (first + (k - 2) / each) (Nat.le_add_right _ _)
      (Nat.add_lt_of_lt_sub' inside) ((k - 2) % each) (Nat.mod_lt _ positive)
    rw [Nat.add_sub_cancel_left, Nat.add_assoc, split,
      Nat.add_sub_cancel' lower] at here
    exact here

/-- The directory request is served, and nothing lies after the position. -/
theorem contained_at_end
    (nothing : ∀ memory, memory.driver.disk = driver.disk → sound 0 memory)
    (served : status 0 = 0) (beyond : driver.fileSize volume file ≤ file.cfo)
    (total : Nat → Option Transfer) :
    Contained mapped status total sound
      (fun fuel => faultyTransfer status faulty each volume fuel driver file
        user len) := by
  have loaded := @Driver.tryDirectory_of_served status volume driver file served
  have run : ∀ fuel, faultyTransfer status faulty each volume fuel driver file
      user len =
        some ⟨0, file, ⟨driver.loadDirectory volume file, user⟩, 1,
          ⟨[], [], none⟩⟩ := by
    intro fuel
    rw [faultyTransfer_at_end (by rw [loaded]; exact beyond), loaded]
  refine ⟨⟨0, _, run 0, no_links⟩, fun fuel result ran => ?_,
    fun fuel result ran => ?_⟩
  · cases (run fuel).symm.trans ran
    exact nothing _ rfl
  · cases (run fuel).symm.trans ran
    intro k below failed
    cases Nat.lt_one_iff.1 below
    exact absurd served failed

/-- The directory request is served, and the loops run. -/
theorem faultyTransfer_loops (offset : 0 ≤ file.cfo) (served : status 0 = 0)
    (inside : file.cfo.toNat < driver.fileSize volume file) :
    faultyTransfer status faulty each volume fuel driver file user len =
      (countedClusterLoop faulty each volume (wantedEnd volume driver file len)
        fuel file.fat32File.cluster
        (.initial file.cfo.toNat
          ⟨(driver.loadDirectory volume file).tryLoadTable (status 1)
            volume.firstFatSec, user⟩)).map (Counted.transfer · file) := by
  have loaded := @Driver.tryDirectory_of_served status volume driver file served
  rw [faultyTransfer_before_end offset (by rw [loaded]; rfl) inside, loaded]
  rfl

/-- The table request fails. -/
theorem contained_iff_table
    (version : FaultyVersion status each healthy faulty)
    (nonempty : 0 < volume.secPerCluster) (offset : 0 ≤ file.cfo)
    (nothing : ∀ memory, memory.driver.disk = driver.disk → sound 0 memory)
    (served : status 0 = 0)
    (inside : file.cfo.toNat < driver.fileSize volume file)
    (failed : status 1 ≠ 0) :
    Contained mapped status
        (fun fuel => transfer healthy volume fuel driver file user len) sound
        (fun fuel => faultyTransfer status faulty each volume fuel driver file
          user len) ↔
      LinksServed mapped volume driver file len driver.tableBuf ∧
        ¬ Wanted volume driver file len driver.tableBuf
          (file.cfo.toNat / sectorSize) ∧
        Moves volume driver file len := by
  have ordered : file.cfo.toNat ≤ wantedEnd volume driver file len :=
    Nat.le_add_right _ _
  have stale : (driver.loadDirectory volume file).tryLoadTable (status 1)
      volume.firstFatSec = driver.loadDirectory volume file :=
    if_neg failed
  have run : ∀ fuel, faultyTransfer status faulty each volume fuel driver file
      user len =
        (countedClusterLoop faulty each volume
          (wantedEnd volume driver file len) fuel file.fat32File.cluster
          (.initial file.cfo.toNat
            ⟨driver.loadDirectory volume file, user⟩)).map
              (Counted.transfer · file) := by
    intro fuel
    rw [faultyTransfer_loops offset served inside, stale]
  have ends : ∀ {fuel final}, countedClusterLoop faulty each volume
      (wantedEnd volume driver file len) fuel file.fat32File.cluster
      (.initial file.cfo.toNat ⟨driver.loadDirectory volume file, user⟩) =
        some final →
      ∃ stop, Outcome each volume file.cfo.toNat
        (wantedEnd volume driver file len)
        (clusterAt driver.tableBuf file.fat32File.cluster) stop final :=
    fun loops => loops_outcome nonempty ordered version.table loops
  obtain ⟨fuel, final, loops⟩ := @loops_terminate faulty each volume
    file.cfo.toNat (wantedEnd volume driver file len) file.fat32File.cluster
    ⟨driver.loadDirectory volume file, user⟩ nonempty ordered version.table
  have first : Wanted volume driver file len driver.tableBuf
      (file.cfo.toNat / sectorSize) ↔
        Reached volume (clusterAt driver.tableBuf file.fat32File.cluster)
          (wantedEnd volume driver file len)
          (file.cfo.toNat / sectorSize) :=
    and_iff_right (Nat.le_refl _)
  rw [← @less_than_whole_iff status faulty healthy each volume driver file user
    len version nonempty offset, first]
  constructor
  · intro contained
    refine ⟨?_, ?_⟩
    · obtain ⟨fuel, result, ran, links⟩ := contained.ends
      rw [run fuel] at ran
      obtain ⟨final, loops, rfl⟩ := Option.map_eq_some_iff.1 ran
      obtain ⟨stop, outcome⟩ := ends loops
      exact (linksMapped_iff outcome.walk).1 links
    obtain ⟨stop, outcome⟩ := ends loops
    have ran := (run fuel).trans (congrArg _ loops)
    have requests := outcome.requests
    have last := contained.stops fuel _ ran 1
      (show 1 < final.requests by omega) failed
    have two : 1 + 1 = final.requests := last.1
    have short : stop - file.cfo.toNat / sectorSize = 0 := by
      refine (Nat.mul_eq_zero.1 ?_).resolve_left version.positive.ne'
      omega
    refine ⟨fun reached => ?_, fun fuel complete whole => ?_⟩
    · have below := (outcome.reached _).2 reached
      omega
    · exact (Nat.zero_le _).trans_lt (last.2 fuel complete whole)
  · rintro ⟨links, unreached, more⟩
    have still : ∀ {fuel final}, countedClusterLoop faulty each volume
        (wantedEnd volume driver file len) fuel file.fat32File.cluster
        (.initial file.cfo.toNat ⟨driver.loadDirectory volume file, user⟩) =
          some final →
        final.requests = 2 ∧ final.cursor.len = 0 ∧
          final.cursor.memory = ⟨driver.loadDirectory volume file, user⟩ := by
      intro fuel final loops
      obtain ⟨stop, outcome⟩ := ends loops
      have below : stop ≤ file.cfo.toNat / sectorSize :=
        Nat.not_lt.1 fun beyond => unreached ((outcome.reached _).1 beyond)
      have requests := outcome.requests
      rw [Nat.sub_eq_zero_of_le below, Nat.mul_zero, Nat.add_zero] at requests
      have len := outcome.len
      refine ⟨requests, ?_, loops_untouched version.positive nonempty ordered
        loops requests⟩
      simp only [sectorSize] at *
      omega
    obtain ⟨stop, outcome⟩ := ends loops
    refine ⟨⟨fuel, _, (run fuel).trans (congrArg _ loops),
      (linksMapped_iff outcome.walk).2 links⟩, fun fuel result ran => ?_,
      fun fuel result ran => ?_⟩
    · rw [run fuel] at ran
      obtain ⟨final, loops, rfl⟩ := Option.map_eq_some_iff.1 ran
      obtain ⟨-, len, memory⟩ := still loops
      have returned : (final.transfer file).returned = 0 := len
      rw [returned]
      exact nothing _ (congrArg (fun memory => memory.driver.disk) memory)
    · rw [run fuel] at ran
      obtain ⟨final, loops, rfl⟩ := Option.map_eq_some_iff.1 ran
      obtain ⟨requests, len, -⟩ := still loops
      have returned : (final.transfer file).returned = 0 := len
      have total : (final.transfer file).requests = 2 := requests
      intro k below bad
      rw [total] at below ⊢
      rw [returned]
      refine ⟨?_, more⟩
      rcases Nat.eq_zero_or_pos k with rfl | positive
      · exact absurd served bad
      · omega

/-- With every request served the loops are those without failures. -/
theorem served_loops (version : FaultyVersion status each healthy faulty)
    {start maxCfo first : Nat} {memory : Memory} {final : Counted}
    (zero : ∀ k, 2 ≤ k → k < final.requests → status k = 0) :
    countedClusterLoop faulty each volume maxCfo fuel first
        (.initial start memory) = some final ↔
      countedClusterLoop (fun _ => healthy) each volume maxCfo fuel first
        (.initial start memory) = some final := by
  have two : (Counted.initial start memory).requests = 2 := rfl
  have agrees : ∀ k, (Counted.initial start memory).requests ≤ k →
      k + each ≤ final.requests → faulty k = healthy :=
    fun k lower upper => version.agrees k fun j below =>
      zero (k + j) (by omega) (by omega)
  exact ⟨countedClusterLoop_congr fun k lower upper =>
      (agrees k lower upper).symm,
    countedClusterLoop_congr agrees⟩

/-- The directory and the table requests are served. -/
theorem contained_iff_sectors
    (version : FaultyVersion status each healthy faulty)
    (nonempty : 0 < volume.secPerCluster) (offset : 0 ≤ file.cfo)
    (served : status 0 = 0)
    (inside : file.cfo.toNat < driver.fileSize volume file)
    (loaded : status 1 = 0) :
    Contained mapped status
        (fun fuel => transfer healthy volume fuel driver file user len) sound
        (fun fuel => faultyTransfer status faulty each volume fuel driver file
          user len) ↔
      (LinksServed mapped volume driver file len (driver.fatTable volume) ∧
        ∀ sector,
          Wanted volume driver file len (driver.fatTable volume) sector →
            ∀ j, j < each →
              status (2 + each * (sector - file.cfo.toNat / sectorSize) + j) =
                0) ∧
        ∀ fuel whole,
          transfer healthy volume fuel driver file user len = some whole →
            sound whole.returned whole.memory := by
  have ordered : file.cfo.toNat ≤ wantedEnd volume driver file len :=
    Nat.le_add_right _ _
  have prepared : (driver.loadDirectory volume file).tryLoadTable (status 1)
      volume.firstFatSec = driver.prepare volume file :=
    if_pos loaded
  have run : ∀ fuel, faultyTransfer status faulty each volume fuel driver file
      user len =
        (countedClusterLoop faulty each volume
          (wantedEnd volume driver file len) fuel file.fat32File.cluster
          (.initial file.cfo.toNat ⟨driver.prepare volume file, user⟩)).map
            (Counted.transfer · file) := by
    intro fuel
    rw [faultyTransfer_loops offset served inside, prepared]
  obtain ⟨fuel, final, loops⟩ := @loops_terminate faulty each volume
    file.cfo.toNat (wantedEnd volume driver file len) file.fat32File.cluster
    ⟨driver.prepare volume file, user⟩ nonempty ordered version.table
  obtain ⟨stop, outcomes⟩ := @table_outcome volume file.cfo.toNat
    (wantedEnd volume driver file len) file.fat32File.cluster nonempty ordered
    (driver.fatTable volume)
  have table : (⟨driver.prepare volume file, user⟩ :
      Memory).driver.tableBuf = driver.fatTable volume :=
    driver.prepare_tableBuf volume file
  have outcome := outcomes version.table table loops
  have wanted : ∀ sector,
      Wanted volume driver file len (driver.fatTable volume) sector ↔
        file.cfo.toNat / sectorSize ≤ sector ∧ sector < stop :=
    fun sector => and_congr_right fun _ => (outcome.reached sector).symm
  have sectors : (∀ sector,
      Wanted volume driver file len (driver.fatTable volume) sector →
        ∀ j, j < each →
          status (2 + each * (sector - file.cfo.toNat / sectorSize) + j) =
            0) ↔
      ∀ k, 2 ≤ k →
        k < 2 + each * (stop - file.cfo.toNat / sectorSize) →
          status k = 0 := by
    rw [served_iff version.positive]
    simp only [wanted, and_imp]
  rw [sectors]
  constructor
  · intro contained
    have zero : ∀ k, 2 ≤ k →
        k < 2 + each * (stop - file.cfo.toNat / sectorSize) → status k = 0 := by
      intro k lower upper
      by_contra failed
      obtain ⟨fuel', whole, ran⟩ := @whole_terminates status faulty healthy each
        volume driver file user len version nonempty offset
      obtain ⟨other, wholeLoops, returned, -⟩ :=
        whole_loops each offset inside ran
      have less : final.cursor.len < whole.returned :=
        (contained.stops fuel _ ((run fuel).trans (congrArg _ loops)) k
          (show k < final.requests by rw [outcome.requests]; exact upper)
          failed).2 fuel' whole ran
      rw [returned, outcome.len,
        (outcomes (fun _ => version.whole) table wholeLoops).len] at less
      exact Nat.lt_irrefl _ less
    refine ⟨⟨?_, zero⟩, fun fuel whole ran => ?_⟩
    · obtain ⟨fuel, result, ran, links⟩ := contained.ends
      rw [run fuel] at ran
      obtain ⟨other, loops, rfl⟩ := Option.map_eq_some_iff.1 ran
      have walked := (outcomes version.table table loops).walk
      exact (linksMapped_iff walked).1 links
    · obtain ⟨other, wholeLoops, returned, memory⟩ :=
        whole_loops each offset inside ran
      have requests :=
        (outcomes (fun _ => version.whole) table wholeLoops).requests
      have loops := (served_loops version fun k lower upper =>
        zero k lower (requests ▸ upper)).2 wholeLoops
      rw [returned, memory]
      exact contained.sound fuel _ ((run fuel).trans (congrArg _ loops))
  · rintro ⟨⟨links, zero⟩, effect⟩
    refine ⟨⟨fuel, _, (run fuel).trans (congrArg _ loops),
      (linksMapped_iff outcome.walk).2 links⟩, fun fuel result ran => ?_,
      fun fuel result ran => ?_⟩
    · rw [run fuel] at ran
      obtain ⟨other, loops, rfl⟩ := Option.map_eq_some_iff.1 ran
      have requests := (outcomes version.table table loops).requests
      have same := (served_loops version fun k lower upper =>
        zero k lower (requests ▸ upper)).1 loops
      have counted := @transfer_counted healthy volume fuel driver file user len
        each offset inside
      rw [same, Option.map_some, Option.map_eq_some_iff] at counted
      obtain ⟨whole, whole_ran, pair⟩ := counted
      have holds := effect fuel whole whole_ran
      rw [show whole.returned = other.cursor.len from congrArg Prod.fst pair,
        show whole.memory = other.cursor.memory from
          congrArg Prod.snd pair] at holds
      exact holds
    · rw [run fuel] at ran
      obtain ⟨other, loops, rfl⟩ := Option.map_eq_some_iff.1 ran
      intro k below failed
      have bound : k < other.requests := below
      rw [(outcomes version.table table loops).requests] at bound
      refine absurd ?_ failed
      rcases Nat.lt_or_ge k 2 with small | large
      · have cases : k = 0 ∨ k = 1 := by omega
        rcases cases with rfl | rfl
        · exact served
        · exact loaded
      · exact zero k large bound

/--
One operation contains the failures exactly under the condition, if it is right
without them.
-/
theorem contained_iff (version : FaultyVersion status each healthy faulty)
    (nonempty : 0 < volume.secPerCluster) (offset : 0 ≤ file.cfo)
    (nothing : ∀ memory, memory.driver.disk = driver.disk → sound 0 memory) :
    Contained mapped status
        (fun fuel => transfer healthy volume fuel driver file user len) sound
        (fun fuel => faultyTransfer status faulty each volume fuel driver file
          user len) ↔
      Spared mapped status each volume driver file len ∧
        (status 0 = 0 → status 1 = 0 → ∀ fuel whole,
          transfer healthy volume fuel driver file user len = some whole →
            sound whole.returned whole.memory) := by
  by_cases served : status 0 = 0
  · by_cases before : file.cfo < driver.fileSize volume file
    · have inside : file.cfo.toNat < driver.fileSize volume file := by omega
      by_cases loaded : status 1 = 0
      · refine (contained_iff_sectors version nonempty offset served inside
          loaded).trans ⟨fun both => ?_, fun both => ?_⟩
        · exact ⟨⟨fun failed => absurd served failed,
            fun _ _ failed => absurd loaded failed, fun _ _ _ => both.1⟩,
            fun _ _ => both.2⟩
        · exact ⟨both.1.sectors served before loaded, both.2 served loaded⟩
      · refine (contained_iff_table version nonempty offset nothing served
          inside loaded).trans ⟨fun stops => ?_, fun both => ?_⟩
        · exact ⟨⟨fun failed => absurd served failed, fun _ _ _ => stops,
            fun _ _ passed => absurd passed loaded⟩,
            fun _ passed => absurd passed loaded⟩
        · exact both.1.table served before loaded
    · have beyond : driver.fileSize volume file ≤ file.cfo := Int.not_lt.1 before
      refine iff_of_true (contained_at_end nothing served beyond _)
        ⟨⟨fun failed => absurd served failed,
          fun _ inside => absurd inside before,
          fun _ inside => absurd inside before⟩, fun _ _ fuel whole ran => ?_⟩
      rw [transfer_at_end beyond] at ran
      cases ran
      exact nothing _ rfl
  · refine (contained_iff_directory version nonempty offset nothing
      served).trans ⟨fun stops => ?_, fun both => ?_⟩
    · exact ⟨⟨fun _ => stops, fun passed => absurd passed served,
        fun passed => absurd passed served⟩, fun passed => absurd passed served⟩
    · exact both.1.directory served

end Operation

/-! ## The effect without failures -/

section Effect

variable {volume : Fat32Volume} {fuel : Nat} {driver : Driver} {file : File}
    {user : Bytes} {len : Nat} {whole : Transfer} {chain : List Nat}

/-- Where the links of the loaded table lead, the driver is on the chain. -/
theorem placeIn_of_keeps (onChain : OnChain volume driver file chain)
    (keeps : KeepsToChain volume driver file len chain) {position : Nat}
    (lower : file.cfo.toNat ≤ position)
    (upper : position < wantedEnd volume driver file len)
    (wanted : Wanted volume driver file len (driver.fatTable volume)
      (position / sectorSize)) :
    FileByte volume chain position
      (placeIn volume driver file (position / sectorSize) % word32)
      (position % sectorSize) := by
  obtain ⟨inChain, loaded, small⟩ := keeps position lower upper wanted
  have cluster : position / sectorSize / volume.secPerCluster =
      position / volume.clusterBytes :=
    Nat.div_div_eq_div_mul _ _ _
  have reached := wanted.2.2
  rw [cluster] at reached
  have isChain := onChain.chainFrom (Nat.zero_lt_of_lt inChain)
  have plain : PlainLinks volume driver.disk chain
      (position / volume.clusterBytes) := by
    intro index
    induction index using Nat.strong_induction_on with
    | _ index induction =>
        intro below _
        refine ⟨loaded index below, fun _ => ?_⟩
        have here := clusterAt_of_plain isChain
          (show index < chain.length by omega)
          fun earlier lt => induction earlier lt (by omega)
        have next := reached (index + 1) below
        rw [clusterAt, here, tableEntry_eq_rawEntry (loaded index below)] at next
        exact next.trans (by decide)
  have here := clusterAt_of_plain isChain inChain plain
  have data := isChain.all_allowed _ (List.getElem_mem inChain)
  rw [← List.getD_eq_getElem _ 0 inChain] at data
  refine ⟨inChain, ?_, rfl⟩
  rw [placeIn, placeOf, cluster, here,
    clusterToSector_word32 data.1 (data.2.trans (by decide))]
  exact Nat.mod_eq_of_lt small

/-- The bytes that are moved are wanted. -/
theorem moved_wanted {each : Nat} {table : Bytes} {final : Counted} {stop : Nat}
    (outcome : Outcome each volume file.cfo.toNat
      (wantedEnd volume driver file len)
      (clusterAt table file.fat32File.cluster) stop final) {index : Nat}
    (below : index < final.cursor.len) :
    file.cfo.toNat + index < wantedEnd volume driver file len ∧
      Wanted volume driver file len table
        ((file.cfo.toNat + index) / sectorSize) := by
  have len := outcome.len
  refine ⟨by omega, Nat.div_le_div_right (Nat.le_add_right _ _),
    (outcome.reached _).1 ?_⟩
  rw [Nat.div_lt_iff_lt_mul (by decide), Nat.mul_comm]
  omega

theorem fat32Read_content (onChain : OnChain volume driver file chain)
    (keeps : KeepsToChain volume driver file len chain)
    (ran : fat32Read volume fuel driver file user len = some whole) :
    ReadsContent volume driver file chain whole.returned whole.memory := by
  by_cases inside : file.cfo.toNat < driver.fileSize volume file
  · obtain ⟨final, loops, returned, memory⟩ :=
      whole_loops 1 onChain.offset inside ran
    have before : ReadSoFar driver.disk (driver.fatTable volume) user
        file.cfo.toNat (placeIn volume driver file) 0
        ⟨driver.prepare volume file, user⟩ :=
      { sameDisk := rfl
        sameTable := driver.prepare_tableBuf volume file
        filled := fun index => (if_neg (Nat.not_lt_zero index)).symm }
    have soFar := loops_inv onChain.nonempty (Nat.le_add_right _ _)
      (readAccess_keeps _ _ _ _ _ _) (fun _ _ soFar => soFar.sameTable) before
      loops
    obtain ⟨stop, outcome⟩ := loops_outcome onChain.nonempty
      (Nat.le_add_right _ _) (fun _ => readAccess_tableBuf) loops
    rw [driver.prepare_tableBuf] at outcome
    rw [returned, memory]
    intro index below
    obtain ⟨upper, wanted⟩ := moved_wanted outcome below
    exact ⟨_, _, placeIn_of_keeps onChain keeps (Nat.le_add_right _ _) upper
      wanted, (soFar.filled index).trans (if_pos below)⟩
  · rw [fat32Read, transfer_at_end (by have := onChain.offset; omega)] at ran
    cases ran
    exact fun index below => absurd below (Nat.not_lt_zero index)

/-- After `len` bytes are written: nothing else on the disk is changed. -/
structure FramedSoFar (disk : Disk) (table : Bytes) (start : Nat)
    (place : Nat → Nat) (len : Nat) (memory : Memory) : Prop where
  sameTable : memory.driver.tableBuf = table
  frame : ∀ sector offset, offset < sectorSize →
    (∀ index, index < len → ¬ Locates place (start + index) sector offset) →
    memory.driver.disk sector offset = disk sector offset

theorem writeAccess_frames {disk : Disk} {table : Bytes} {start maxCfo : Nat}
    {place : Nat → Nat} :
    Keeps writeAccess start maxCfo place
      (FramedSoFar disk table start place) := by
  intro len memory soFar _
  generalize counted : min (sectorSize - (start + len) % sectorSize)
    (maxCfo - (start + len)) = count
  have bound : count ≤ sectorSize - (start + len) % sectorSize := by omega
  refine ⟨soFar.sameTable, fun sector offset inside untouched => ?_⟩
  rw [writeAccess_frame bound memory inside fun index _ below =>
    untouched index below]
  exact soFar.frame sector offset inside fun index below =>
    untouched index (by omega)

theorem fat32Write_range (onChain : OnChain volume driver file chain)
    (keeps : KeepsToChain volume driver file len chain)
    (ran : fat32Write volume fuel driver file user len = some whole) :
    WritesRange volume driver file chain len whole.returned whole.memory := by
  have short := transfer_returned_le onChain.offset ran
  by_cases inside : file.cfo.toNat < driver.fileSize volume file
  · obtain ⟨final, loops, returned, memory⟩ :=
      whole_loops 2 onChain.offset inside ran
    have before : FramedSoFar driver.disk (driver.fatTable volume)
        file.cfo.toNat (placeIn volume driver file) 0
        ⟨driver.prepare volume file, user⟩ :=
      ⟨driver.prepare_tableBuf volume file, fun _ _ _ _ => rfl⟩
    have soFar := loops_inv onChain.nonempty (Nat.le_add_right _ _)
      writeAccess_frames (fun _ _ soFar => soFar.sameTable) before loops
    obtain ⟨stop, outcome⟩ := loops_outcome onChain.nonempty
      (Nat.le_add_right _ _) (fun _ => writeAccess_tableBuf) loops
    rw [driver.prepare_tableBuf] at outcome
    rw [returned] at short
    rw [memory]
    refine fun sector offset inside untouched =>
      soFar.frame sector offset inside fun index below located => ?_
    obtain ⟨upper, wanted⟩ := moved_wanted outcome below
    refine untouched index (by omega) ?_
    rw [located.1, located.2]
    exact placeIn_of_keeps onChain keeps (Nat.le_add_right _ _) upper wanted
  · rw [fat32Write, transfer_at_end (by have := onChain.offset; omega)] at ran
    cases ran
    exact fun _ _ _ _ => rfl

/--
For every pattern of status bytes, file, position, buffer and length: where
both operations contain the failed requests, none of those they need fails, or
stale buffers happen to end the call at once; and then they do contain them, if
the links they follow keep to the chain of the file.
-/
theorem fat32_contains_failures (mapped : Nat) (status : Nat → Byte)
    (onChain : OnChain volume driver file chain) :
    ((Contained mapped status
            (fun fuel => fat32Write volume fuel driver file user len)
            (WritesRange volume driver file chain len)
            (fun fuel => faultyWrite status volume fuel driver file user len) ∧
          Contained mapped status
            (fun fuel => fat32Read volume fuel driver file user len)
            (ReadsContent volume driver file chain)
            (fun fuel => faultyRead status volume fuel driver file user len)) →
        Spared mapped status 2 volume driver file len ∧
          Spared mapped status 1 volume driver file len) ∧
      ((status 0 = 0 → status 1 = 0 →
          KeepsToChain volume driver file len chain) →
        Spared mapped status 2 volume driver file len →
        Spared mapped status 1 volume driver file len →
        Contained mapped status
            (fun fuel => fat32Write volume fuel driver file user len)
            (WritesRange volume driver file chain len)
            (fun fuel => faultyWrite status volume fuel driver file user len) ∧
          Contained mapped status
            (fun fuel => fat32Read volume fuel driver file user len)
            (ReadsContent volume driver file chain)
            (fun fuel => faultyRead status volume fuel driver file user len)) := by
  have write := @contained_iff status (faultyWriteAccess status) writeAccess 2
    volume driver file user len (WritesRange volume driver file chain len)
    mapped (faultyWriteAccess_version status) onChain.nonempty onChain.offset
    (fun _ same _ _ _ _ => by rw [same])
  have read := @contained_iff status (faultyReadAccess status) readAccess 1
    volume driver file user len (ReadsContent volume driver file chain) mapped
    (faultyReadAccess_version status) onChain.nonempty onChain.offset
    (fun _ _ index below => absurd below (Nat.not_lt_zero index))
  constructor
  · exact fun both => ⟨(write.1 both.1).1, (read.1 both.2).1⟩
  · intro keeps sparedWrite sparedRead
    exact ⟨write.2 ⟨sparedWrite, fun served loaded _ _ =>
        fat32Write_range onChain (keeps served loaded)⟩,
      read.2 ⟨sparedRead, fun served loaded _ _ =>
        fat32Read_content onChain (keeps served loaded)⟩⟩

end Effect

namespace TwoFiles

/-- The device fails after six requests. -/
def lateFails : Nat → Byte := fun k =>
  if k < 6 then 0 else 1

theorem keepsToChain :
    KeepsToChain volume handles.driver (handles.files true) 600 [3, 5] := by
  intro position _ upper _
  have bytes : volume.clusterBytes = 512 := by
    rw [volume_eq]
    decide
  have few : position < 600 := by
    rw [wantedEnd, fileSize] at upper
    exact upper
  rw [bytes]
  refine ⟨show position / 512 < 2 by omega, fun index below => ?_,
    addressed false position few⟩
  obtain rfl : index = 0 := by omega
  rw [volume_eq]
  exact ⟨by decide, by decide⟩

/-- Both sectors of the file are read or written with the first six requests. -/
theorem spared {each : Nat} (few : each ≤ 2) :
    Spared sectorSize lateFails each volume handles.driver (handles.files true)
      600 := by
  have position : (handles.files true).cfo.toNat = 0 := rfl
  refine ⟨fun failed => absurd rfl failed, fun _ _ failed => absurd rfl failed,
    fun _ _ _ => ⟨?_, ?_⟩⟩
  · rw [LinksServed, linkCount_eq]
    intro index below _
    obtain rfl : index = 0 := by omega
    exact (show 4 * 3 + 4 ≤ sectorSize by decide)
  · intro sector wanted j below
    have inside := wanted.2.1
    rw [wantedEnd, fileSize, position] at inside
    have first : sector ≤ 1 := by
      simp only [sectorSize] at inside
      omega
    have product : each * sector ≤ 2 * 1 := Nat.mul_le_mul few first
    rw [position, Nat.zero_div, Nat.sub_zero]
    exact if_pos (by omega)

end TwoFiles

open TwoFiles in
/-- Reading and writing a file of two clusters on a device that fails later. -/
theorem fat32_contains_failures_two_clusters :
    Contained sectorSize lateFails
        (fun fuel => fat32Write volume fuel handles.driver (handles.files true)
          SmallVolume.buffer 600)
        (WritesRange volume handles.driver (handles.files true) [3, 5] 600)
        (fun fuel => faultyWrite lateFails volume fuel handles.driver
          (handles.files true) SmallVolume.buffer 600) ∧
      Contained sectorSize lateFails
        (fun fuel => fat32Read volume fuel handles.driver (handles.files true)
          SmallVolume.buffer 600)
        (ReadsContent volume handles.driver (handles.files true) [3, 5])
        (fun fuel => faultyRead lateFails volume fuel handles.driver
          (handles.files true) SmallVolume.buffer 600) := by
  have both := @fat32_contains_failures volume handles.driver
    (handles.files true) SmallVolume.buffer 600 [3, 5] sectorSize lateFails
    onChain
  exact both.2 (fun _ _ => keepsToChain) (spared (Nat.le_refl 2))
    (spared (Nat.le_succ 1))

namespace SmallVolume

/-- Only request `2` fails, the first one for a sector of the file. -/
def dataFails : Nat → Byte := fun k =>
  if k = 2 then 1 else 0

/-- The first byte of the file is written. -/
def faultyWriteOne (fuel : Nat) : Option CountedTransfer :=
  faultyWrite dataFails volume fuel world.driver (world.files true) buffer 1

end SmallVolume

/--
The failed read leaves the directory sector in the buffer, and the write puts it
over the file: the second byte of the file becomes the padding of its name.
-/
theorem fat32_write_spreads_failure :
    OnChain SmallVolume.volume SmallVolume.world.driver
        (SmallVolume.world.files true) [3] ∧
      ∀ mapped, ¬ Contained mapped SmallVolume.dataFails
        (fun fuel => fat32Write SmallVolume.volume fuel SmallVolume.world.driver
          (SmallVolume.world.files true) SmallVolume.buffer 1)
        (WritesRange SmallVolume.volume SmallVolume.world.driver
          (SmallVolume.world.files true) [3] 1)
        (fun fuel => faultyWrite SmallVolume.dataFails SmallVolume.volume fuel
          SmallVolume.world.driver (SmallVolume.world.files true)
          SmallVolume.buffer 1) := by
  constructor
  · refine ⟨?_, Int.le_refl 0, .inr ⟨by decide, ?_⟩⟩
    · rw [SmallVolume.volume_eq]
      decide
    · rw [SmallVolume.volume_eq]
      exact .link ⟨by decide, by decide⟩ (.mark (by decide))
  intro mapped contained
  have changed : (SmallVolume.faultyWriteOne 1).map
      (fun result => result.memory.driver.disk 3 1) = some 0x20 := by
    decide +kernel
  obtain ⟨result, ran, byte⟩ := Option.map_eq_some_iff.1 changed
  have kept := contained.sound 1 result ran 3 1 (by decide) fun index below => by
    cases Nat.lt_one_iff.1 below
    exact fun located => absurd located.2.2 (by decide)
  rw [kept] at byte
  exact absurd byte (by decide)

end TinyRiscvOs.Fs
