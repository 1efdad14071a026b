import Mathlib.Data.List.Range
import Mathlib.Tactic.Ring
import TinyRiscvOs.Fs.Fat32

/-!
# The loops of `fat32_read` and `fat32_write`

Once the first sectors of a file are dealt with, the three counters of the
loops are functions of the number of these sectors (`Progress`).  One iteration
takes the counters from one sector to the next, whether it skips the sector,
moves a part of it or leaves the loop, so the effect of the loops is described
by what a single access does to a byte range (`Keeps`).
-/

namespace TinyRiscvOs.Fs

open TinyRiscvOs.Lib

/--
The counters once `sectors` sectors of the file are dealt with, in a transfer
of the bytes from `start` to `maxCfo`; `inv` relates the number of bytes moved
to the memory.
-/
structure Progress (start maxCfo : Nat) (inv : Nat → Memory → Prop)
    (sectors : Nat) (cursor : Cursor) : Prop where
  passed : cursor.passed = min (sectorSize * sectors) maxCfo
  cfo : cursor.cfo = max start cursor.passed
  len : cursor.len = cursor.cfo - start
  memory : inv cursor.len cursor.memory

/--
An access at the next byte keeps `inv`; `place` gives the sector of the disk
that holds a sector of the file.
-/
def Keeps (access : Access) (start maxCfo : Nat) (place : Nat → Nat)
    (inv : Nat → Memory → Prop) : Prop :=
  ∀ len memory, inv len memory → start + len < max maxCfo (start + 1) →
    inv
      (len + min (sectorSize - (start + len) % sectorSize)
        (maxCfo - (start + len)))
      (access (place ((start + len) / sectorSize)) ((start + len) % sectorSize)
        (min (sectorSize - (start + len) % sectorSize)
          (maxCfo - (start + len)))
        len memory)

namespace Progress

variable {access : Access} {start maxCfo sectors : Nat} {place : Nat → Nat}
    {inv : Nat → Memory → Prop} {cursor : Cursor}

/-- Nothing is moved before the first sector. -/
theorem initial {memory : Memory} (holds : inv 0 memory) :
    Progress start maxCfo inv 0 ⟨start, 0, 0, memory⟩ where
  passed := by simp
  cfo := by simp
  len := by simp
  memory := holds

/-- A sector before the first byte is skipped. -/
theorem skip (progress : Progress start maxCfo inv sectors cursor)
    (ordered : start ≤ maxCfo)
    (before : cursor.passed + sectorSize ≤ cursor.cfo) :
    Progress start maxCfo inv (sectors + 1)
      { cursor with passed := cursor.passed + sectorSize } := by
  obtain ⟨passed, cfo, len, memory⟩ := progress
  simp only [sectorSize] at *
  constructor
  · dsimp only [sectorSize]
    omega
  · dsimp only
    omega
  · exact len
  · exact memory

/-- After the last byte nothing changes. -/
theorem complete (progress : Progress start maxCfo inv sectors cursor)
    (reached : cursor.passed ≥ maxCfo) {later : Nat} (le : sectors ≤ later) :
    Progress start maxCfo inv later cursor := by
  obtain ⟨passed, cfo, len, memory⟩ := progress
  have further : sectorSize * sectors ≤ sectorSize * later :=
    Nat.mul_le_mul_left _ le
  exact ⟨by omega, cfo, len, memory⟩

/-- A part of a sector is moved. -/
theorem move (progress : Progress start maxCfo inv sectors cursor)
    (keeps : Keeps access start maxCfo place inv)
    (ordered : start ≤ maxCfo)
    (inside : ¬ cursor.passed + sectorSize ≤ cursor.cfo)
    (open_ : ¬ cursor.passed ≥ maxCfo) {passed copyLen : Nat}
    (position : passed = cursor.passed + (cursor.cfo - cursor.passed))
    (count : copyLen =
      min (sectorSize - passed % sectorSize) (maxCfo - passed)) :
    Progress start maxCfo inv (sectors + 1)
      { cfo := passed + copyLen
        passed := passed + copyLen
        len := cursor.len + copyLen
        memory :=
          access (place sectors) (passed % sectorSize) copyLen cursor.len
            cursor.memory } := by
  obtain ⟨passedEq, cfo, len, memory⟩ := progress
  have kept := keeps cursor.len cursor.memory memory
  simp only [sectorSize] at *
  have here : start + cursor.len = passed := by omega
  have sector : passed / 512 = sectors := by omega
  rw [here, sector, ← count] at kept
  constructor
  · dsimp only [sectorSize]
    omega
  · dsimp only
    omega
  · dsimp only
    omega
  · exact kept (by omega)

end Progress

section Loops

variable {access : Access} {volume : Fat32Volume} {start maxCfo : Nat}
    {inv : Nat → Memory → Prop}

/-- The disk sector of the sector `index` of a file with the given clusters. -/
def placeOf (volume : Fat32Volume) (clusters : Nat → Nat) (index : Nat) : Nat :=
  (clusterToSector volume (clusters (index / volume.secPerCluster)) +
    index % volume.secPerCluster) % word64

/-- The bytes in a cluster. -/
def Fat32Volume.clusterBytes (volume : Fat32Volume) : Nat :=
  sectorSize * volume.secPerCluster

theorem sectorLoop_progress {place : Nat → Nat} {cluster base : Nat}
    (ordered : start ≤ maxCfo) (keeps : Keeps access start maxCfo place inv)
    (placed : ∀ sector, sector < volume.secPerCluster →
      place (base + sector) =
        (clusterToSector volume cluster + sector) % word64)
    {rest sector : Nat} {cursor : Cursor}
    (bound : sector + rest ≤ volume.secPerCluster)
    (progress : Progress start maxCfo inv (base + sector) cursor) :
    Progress start maxCfo inv (base + sector + rest)
      (sectorLoop access volume maxCfo cluster rest sector cursor) := by
  induction rest generalizing sector cursor with
  | zero => exact progress
  | succ rest induction =>
      have count : base + sector + (rest + 1) = base + (sector + 1) + rest := by
        omega
      rw [sectorLoop]
      split
      · next before =>
          rw [count]
          exact induction (by omega) (progress.skip ordered before)
      · next inside =>
          split
          · next reached => exact progress.complete reached (by omega)
          · next unfinished =>
              have moved := progress.move keeps ordered inside unfinished
                rfl rfl
              rw [placed sector (by omega)] at moved
              rw [count]
              exact induction (by omega) moved

/-- The number of table entries followed on the way to the last byte. -/
def linkCount (volume : Fat32Volume) (maxCfo : Nat) : Nat :=
  (maxCfo - 1) / volume.clusterBytes

/-- The links are followed while bytes of later clusters are wanted. -/
theorem lt_linkCount_iff (nonempty : 0 < volume.secPerCluster)
    (index : Nat) :
    index < linkCount volume maxCfo ↔
      sectorSize * ((index + 1) * volume.secPerCluster) < maxCfo := by
  have positive : 0 < volume.clusterBytes :=
    Nat.mul_pos (by decide) nonempty
  have bytes : sectorSize * ((index + 1) * volume.secPerCluster) =
      (index + 1) * volume.clusterBytes := by
    rw [Fat32Volume.clusterBytes]
    ring
  have some_bytes : 0 < (index + 1) * volume.clusterBytes :=
    Nat.mul_pos (Nat.succ_pos _) positive
  rw [linkCount, Nat.lt_iff_add_one_le, Nat.le_div_iff_mul_le positive, bytes]
  omega

variable {table : Bytes} {clusters : Nat → Nat}

/-- The sectors of a cluster are consecutive sectors of the file. -/
theorem placeOf_cluster {index sector : Nat}
    (inside : sector < volume.secPerCluster) :
    placeOf volume clusters (index * volume.secPerCluster + sector) =
      (clusterToSector volume (clusters index) + sector) % word64 := by
  have quotient :
      (index * volume.secPerCluster + sector) / volume.secPerCluster =
        index := by
    rw [Nat.mul_comm, Nat.mul_add_div (by omega), Nat.div_eq_of_lt inside,
      Nat.add_zero]
  have remainder :
      (index * volume.secPerCluster + sector) % volume.secPerCluster =
        sector := by
    rw [Nat.mul_comm, Nat.mul_add_mod, Nat.mod_eq_of_lt inside]
  rw [placeOf, quotient, remainder]

/-- One cluster is dealt with. -/
theorem sectorLoop_cluster (ordered : start ≤ maxCfo)
    (keeps : Keeps access start maxCfo (placeOf volume clusters) inv)
    {index : Nat} {cursor : Cursor}
    (progress :
      Progress start maxCfo inv (index * volume.secPerCluster) cursor) :
    Progress start maxCfo inv ((index + 1) * volume.secPerCluster)
      (sectorLoop access volume maxCfo (clusters index) volume.secPerCluster 0
        cursor) := by
  have start : Progress start maxCfo inv
      (index * volume.secPerCluster + 0) cursor := progress
  have moved := sectorLoop_progress ordered keeps
    (fun _ inside => placeOf_cluster inside) (Nat.le_of_eq (Nat.zero_add _))
    start
  rw [Nat.succ_mul]
  exact moved

/-- The memory before the loops, and what the accesses leave alone. -/
structure Setting (access : Access) (volume : Fat32Volume)
    (start maxCfo : Nat) (clusters : Nat → Nat) (table : Bytes)
    (inv : Nat → Memory → Prop) : Prop where
  nonempty : 0 < volume.secPerCluster
  ordered : start ≤ maxCfo
  keeps : Keeps access start maxCfo (placeOf volume clusters) inv
  kept : ∀ len memory, inv len memory → memory.driver.tableBuf = table
  linked : ∀ index, clusters (index + 1) = tableEntry table (clusters index)

variable {memory : Memory}

/-- The loop over clusters passes as many clusters as bytes are wanted. -/
theorem clusterLoop_pass
    (setting : Setting access volume start maxCfo clusters table inv)
    (holds : inv 0 memory) {count : Nat}
    (wanted : count ≤ linkCount volume maxCfo)
    (chain : ∀ index, index < count → clusters index < endOfChain)
    (fuel : Nat) :
    ∃ cursor,
      clusterLoop access volume maxCfo (count + fuel) (clusters 0)
          ⟨[], [], none⟩ ⟨start, 0, 0, memory⟩ =
        clusterLoop access volume maxCfo fuel (clusters count)
          ⟨(List.range count).map clusters, (List.range count).map clusters,
            none⟩
          cursor ∧
      Progress start maxCfo inv (count * volume.secPerCluster) cursor := by
  induction count generalizing fuel with
  | zero =>
      refine ⟨_, by rw [Nat.zero_add]; rfl, ?_⟩
      rw [Nat.zero_mul]
      exact .initial holds
  | succ count induction =>
      obtain ⟨cursor, passed, progress⟩ := induction (Nat.le_of_succ_le wanted)
        (fun index below => chain index (Nat.lt_succ_of_lt below)) (fuel + 1)
      have later := sectorLoop_cluster setting.ordered setting.keeps progress
      have more := (lt_linkCount_iff setting.nonempty count).1 wanted
      have unfinished := later.passed
      rw [Nat.min_eq_left more.le] at unfinished
      refine ⟨_, ?_, later⟩
      rw [Nat.succ_add_eq_add_succ, passed, clusterLoop,
        if_pos (chain count (Nat.lt_succ_self count))]
      dsimp only
      rw [unfinished, if_neg (Nat.not_le.2 more), setting.linked,
        setting.kept _ _ later.memory, List.range_succ, List.map_append]
      rfl

/-- A chain that goes on far enough: the transfer is completed. -/
theorem clusterLoop_done
    (setting : Setting access volume start maxCfo clusters table inv)
    (holds : inv 0 memory)
    (chain : ∀ index, index ≤ linkCount volume maxCfo →
      clusters index < endOfChain)
    {fuel : Nat} (enough : linkCount volume maxCfo < fuel) :
    ∃ cursor,
      clusterLoop access volume maxCfo fuel (clusters 0)
          ⟨[], [], none⟩ ⟨start, 0, 0, memory⟩ =
        some
          (⟨(List.range (linkCount volume maxCfo + 1)).map clusters,
            (List.range (linkCount volume maxCfo)).map clusters, none⟩,
            cursor) ∧
      cursor.cfo = maxCfo ∧ cursor.len = maxCfo - start ∧
      inv (maxCfo - start) cursor.memory := by
  obtain ⟨spare, rfl⟩ := Nat.exists_eq_add_of_lt enough
  obtain ⟨cursor, passed, progress⟩ :=
    clusterLoop_pass setting holds (Nat.le_refl _)
      (fun index below => chain index below.le) (spare + 1)
  have later := sectorLoop_cluster setting.ordered setting.keeps progress
  have last : maxCfo ≤
      sectorSize * ((linkCount volume maxCfo + 1) * volume.secPerCluster) :=
    Nat.not_lt.1
      ((lt_linkCount_iff setting.nonempty _).not.1 (Nat.lt_irrefl _))
  have reached := later.passed
  rw [Nat.min_eq_right last] at reached
  have cfo := later.cfo
  rw [reached, Nat.max_eq_right setting.ordered] at cfo
  have len := later.len
  rw [cfo] at len
  refine ⟨_, ?_, cfo, len, len ▸ later.memory⟩
  rw [Nat.add_assoc, passed, clusterLoop, if_pos (chain _ (Nat.le_refl _))]
  dsimp only
  rw [reached, if_pos (Nat.le_refl _), List.range_succ, List.map_append]
  rfl

/-- A chain with an end mark before the last byte: the transfer stops there. -/
theorem clusterLoop_stop
    (setting : Setting access volume start maxCfo clusters table inv)
    (holds : inv 0 memory) {count : Nat}
    (wanted : count ≤ linkCount volume maxCfo)
    (chain : ∀ index, index < count → clusters index < endOfChain)
    (mark : endOfChain ≤ clusters count) {fuel : Nat} (enough : count < fuel) :
    ∃ cursor,
      clusterLoop access volume maxCfo fuel (clusters 0)
          ⟨[], [], none⟩ ⟨start, 0, 0, memory⟩ =
        some
          (⟨(List.range count).map clusters, (List.range count).map clusters,
            some (clusters count)⟩, cursor) ∧
      Progress start maxCfo inv (count * volume.secPerCluster) cursor := by
  obtain ⟨spare, rfl⟩ := Nat.exists_eq_add_of_lt enough
  obtain ⟨cursor, passed, progress⟩ :=
    clusterLoop_pass setting holds wanted chain (spare + 1)
  refine ⟨cursor, ?_, progress⟩
  rw [Nat.add_assoc, passed, clusterLoop, if_neg (Nat.not_lt.2 mark)]

end Loops

end TinyRiscvOs.Fs
