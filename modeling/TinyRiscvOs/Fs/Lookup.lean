import TinyRiscvOs.Fs.Fat32Content
import TinyRiscvOs.Fs.Open

/-!
# Looking up a name in the root directory

The root directory is the entries of all sectors of its cluster chain, which
starts at cluster `2`; the entry looked for is the first one with the name that
lies before the end mark.  `fat32_open_file` reads the first sector of the
chain and scans its buffer without a bound, and `file_open` takes cluster `0`
for a name that is not there.
-/

namespace TinyRiscvOs.Fs

open TinyRiscvOs.Lib

/-! ## The loop over the buffer -/

section Scan

variable {buf filename : Bytes} {fuel entry : Nat}

/-- An entry that the loop passes over. -/
def Passed (buf filename : Bytes) (entry : Nat) : Prop :=
  buf (32 * entry) ≠ fatDirentNeverUsed ∧
    (buf (32 * entry) = fatDirentDeleted ∨
      memcmpEqual (fun index => buf (32 * entry + index)) filename 8 = false)

instance (buf filename : Bytes) (entry : Nat) :
    Decidable (Passed buf filename entry) :=
  inferInstanceAs (Decidable (_ ∧ _))

/-- The entries whose bytes the loop looks at. -/
def scanned (buf filename : Bytes) : Nat → Nat → List Nat
  | 0, _ => []
  | fuel + 1, entry =>
      if Passed buf filename entry then
        entry :: scanned buf filename fuel (entry + 1)
      else [entry]

/-- What the loop reports for the entry it ends at. -/
def reported (buf : Bytes) (entry : Nat) : Fat32File :=
  if buf (32 * entry) = fatDirentNeverUsed then ⟨0, ⟨0, 0⟩⟩
  else
    ⟨buf.littleEndian (32 * entry + 20) 2 * 2 ^ 16 +
      buf.littleEndian (32 * entry + 26) 2, ⟨2, entry % word32⟩⟩

end Scan

/-! ## The root directory -/

/-- A root directory: its volume, and the clusters of its chain behind cluster `2`. -/
structure RootDirectory where
  volume : Fat32Volume
  disk : Disk
  rest : List Nat
  positive : 0 < volume.secPerCluster

namespace RootDirectory

/-- The entries of a cluster. -/
def perCluster (dir : RootDirectory) : Nat :=
  16 * dir.volume.secPerCluster

/-- The clusters of the chain. -/
def clusters (dir : RootDirectory) : List Nat :=
  2 :: dir.rest

/-- The number of entries. -/
def size (dir : RootDirectory) : Nat :=
  dir.perCluster * dir.clusters.length

/-- The cluster of an entry, and its index there. -/
def position (dir : RootDirectory) (index : Nat) : Fat32Dir :=
  ⟨dir.clusters.getD (index / dir.perCluster) 0, index % dir.perCluster⟩

/-- The 32 bytes of an entry. -/
def entry (dir : RootDirectory) (index : Nat) : Bytes := fun offset =>
  let place := dir.position index
  let sector := clusterToSector dir.volume place.cluster + place.index / 16
  dir.disk (sector % word32) (32 * (place.index % 16) + offset)

/-- An entry that is not deleted, with these eight bytes as its name. -/
def IsNamed (dir : RootDirectory) (name : Bytes) (index : Nat) : Prop :=
  dir.entry index 0 ≠ fatDirentDeleted ∧
    ∀ position < 8, dir.entry index position = name position

/-- The end mark. -/
def IsEnd (dir : RootDirectory) (index : Nat) : Prop :=
  dir.entry index 0 = fatDirentNeverUsed

/-- The first entry with this name before the end mark. -/
structure FirstMatch (dir : RootDirectory) (name : Bytes) (index : Nat) :
    Prop where
  inside : index < dir.size
  used : ¬ dir.IsEnd index
  named : dir.IsNamed name index
  earlier : ∀ other < index, ¬ dir.IsEnd other ∧ ¬ dir.IsNamed name other

theorem FirstMatch.unique {dir : RootDirectory} {name : Bytes}
    {one other : Nat} (first : dir.FirstMatch name one)
    (second : dir.FirstMatch name other) : one = other := by
  rcases Nat.lt_trichotomy one other with before | same | after
  · exact absurd first.named (second.earlier one before).2
  · exact same
  · exact absurd second.named (first.earlier other after).2

end RootDirectory

section Lookup

variable {link : Linkage} {dir : RootDirectory} {driver : Driver}
    {path : CString} {name : List Byte} {index : Nat}

/-- `file_open` fails on a path of FAT32 exactly when cluster `0` is reported. -/
theorem fileOpen_failed_iff {volume : Fat32Volume} {fuel fd flags : Nat}
    {table : FilesStruct} {opening : Opening} {file : Fat32File}
    {next : Driver} {after : CString} (isFat32 : getFsType path = fsTypeFat32)
    (found : fat32OpenFile volume fuel driver path = some (file, next, after))
    (ran : fileOpen volume link fuel table fd driver path flags =
      some opening) :
    opening.returned = -1 ↔ file.cluster = 0 := by
  obtain ⟨entry, isEntry, same⟩ := Option.map_eq_some_iff.1 found
  cases same
  have word : 256 ^ 4 = word32 := by norm_num
  have small := (findEntry_word isEntry).1
  rw [fileOpen, if_pos isFat32, found] at ran
  cases ran
  dsimp only
  simp (disch := decide) only [FilesStruct.get_set_of_apart]
  rw [FilesStruct.get_set, Field.cluster, word, Nat.mod_eq_of_lt small]
  split
  · next zero => exact iff_of_true rfl zero
  · next nonzero =>
      exact iff_of_false (show (0 : Int) ≠ -1 by decide) nonzero

end Lookup

namespace SmallVolume

/-- The root directory of the small volume on another disk. -/
def root (disk : Disk) : RootDirectory where
  volume := volume
  disk := disk
  rest := []
  positive := by
    rw [volume_eq]
    decide

end SmallVolume

end TinyRiscvOs.Fs
