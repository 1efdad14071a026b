import Mathlib.Tactic.NormNum
import TinyRiscvOs.Fs.Fat32

/-!
# Opening files

The descriptor table of a task is the memory of its `struct files_struct`: the
16 `struct file` values lie next to each other, 136 bytes each.  `file_open`
stores into this memory field by field, so a long path runs into the next
value.
-/

namespace TinyRiscvOs.Fs

open TinyRiscvOs.Lib

/-! ## Strings of the caller -/

/-- The bytes of a string before its terminating `NUL`. -/
structure CString where
  bytes : List Byte
  nonzero : ∀ byte ∈ bytes, byte ≠ 0

namespace CString

/-- The byte at an index; the one behind the string is its `NUL`. -/
def get (string : CString) (index : Nat) : Byte :=
  string.bytes.getD index 0

/-- One step of `to_upper_case`. -/
def upperByte (byte : Byte) : Byte :=
  if 0x61 ≤ byte ∧ byte ≤ 0x7a then byte - 32 else byte

theorem upperByte_ne_zero : ∀ byte : Byte, byte ≠ 0 → upperByte byte ≠ 0 := by
  decide

/-- `to_upper_case`: the string afterwards. -/
def toUpperCase (string : CString) : CString where
  bytes := string.bytes.map upperByte
  nonzero := by
    intro byte member
    obtain ⟨lower, present, rfl⟩ := List.mem_map.1 member
    exact upperByte_ne_zero lower (string.nonzero lower present)

end CString

/-- `memcmp(left, right, count) == 0`. -/
def memcmpEqual (left right : Bytes) (count : Nat) : Bool :=
  (List.range count).all fun index => left index == right index

theorem memcmpEqual_congr {left other right : Bytes} {count : Nat}
    (agree : ∀ index, index < count → left index = other index) :
    memcmpEqual left right count = memcmpEqual other right count := by
  rw [memcmpEqual, memcmpEqual, Bool.eq_iff_iff, List.all_eq_true,
    List.all_eq_true]
  refine forall₂_congr fun index member => ?_
  rw [agree index (List.mem_range.1 member)]

/-- A byte string as a store. -/
def ofList (bytes : List Byte) : Bytes :=
  fun index => bytes.getD index 0

/-! ## Looking up a name -/

/-- `FAT_DIRENT_NEVER_USED`. -/
abbrev fatDirentNeverUsed : Byte := 0x00

/-- `FAT_DIRENT_DELETED`. -/
abbrev fatDirentDeleted : Byte := 0xe5

/-- The local `filename`: eight bytes of the path, padded with blanks. -/
def shortName (path : CString) : Bytes := fun index =>
  if index + 7 < path.bytes.length then path.get (index + 7) else 0x20

/-- The loop over directory entries; `none` means that it has not ended. -/
def findEntry (buf filename : Bytes) : Nat → Nat → Option Fat32File
  | 0, _ => none
  | fuel + 1, entry =>
      if buf (32 * entry) ≠ fatDirentNeverUsed then
        if buf (32 * entry) = fatDirentDeleted then
          findEntry buf filename fuel (entry + 1)
        else if memcmpEqual (fun index => buf (32 * entry + index)) filename 8
          then
          some
            ⟨buf.littleEndian (32 * entry + 20) 2 * 2 ^ 16 +
              buf.littleEndian (32 * entry + 26) 2, ⟨2, entry % word32⟩⟩
        else findEntry buf filename fuel (entry + 1)
      else some ⟨0, ⟨0, 0⟩⟩

/-- The numbers found are those of a `struct fat32_file`. -/
theorem findEntry_word {buf filename : Bytes} {fuel entry : Nat}
    {file : Fat32File} (found : findEntry buf filename fuel entry = some file) :
    file.cluster < word32 ∧ file.dir.cluster < word32 ∧
      file.dir.index < word32 := by
  induction fuel generalizing entry with
  | zero => cases found
  | succ fuel induction =>
      rw [findEntry] at found
      split at found
      · split at found
        · exact induction found
        · split at found
          · cases found
            have high := buf.littleEndian_lt (32 * entry + 20) 2
            have low := buf.littleEndian_lt (32 * entry + 26) 2
            exact ⟨by simp only [word32]; omega, show 2 < word32 by decide,
              Nat.mod_lt _ (by decide)⟩
          · exact induction found
      · cases found
        exact ⟨by decide, by decide, by decide⟩

/-- The first entry of a sector is the file asked for. -/
theorem findEntry_first {disk : Disk} {sector : Nat} (fuel : Nat)
    (buf : Bytes) {filename : Bytes}
    (used : disk (sector % word32) 0 ≠ fatDirentNeverUsed)
    (present : disk (sector % word32) 0 ≠ fatDirentDeleted)
    (named : memcmpEqual (disk (sector % word32)) filename 8 = true) :
    findEntry (virtioBlkReadSector disk sector buf) filename (fuel + 1) 0 =
      some
        ⟨(disk (sector % word32)).littleEndian 20 2 * 2 ^ 16 +
          (disk (sector % word32)).littleEndian 26 2, ⟨2, 0⟩⟩ := by
  have same : memcmpEqual
      (fun index => virtioBlkReadSector disk sector buf (32 * 0 + index))
      filename 8 = true := by
    rw [← named]
    refine memcmpEqual_congr fun index below => ?_
    rw [Nat.mul_zero, Nat.zero_add]
    exact virtioBlkReadSector_inside _ _ _ (by simp only [sectorSize]; omega)
  rw [findEntry, same, Nat.mul_zero,
    virtioBlkReadSector_inside _ _ _ (show 0 < sectorSize by decide),
    if_pos used, if_neg present, if_pos rfl,
    virtioBlkReadSector_littleEndian _ _ _ (by decide),
    virtioBlkReadSector_littleEndian _ _ _ (by decide)]
  rfl

/-- `fat32_open_file`: it changes the caller's path to upper case. -/
def fat32OpenFile (volume : Fat32Volume) (fuel : Nat) (driver : Driver)
    (path : CString) : Option (Fat32File × Driver × CString) :=
  let path := path.toUpperCase
  let driver := driver.load volume.firstDataSec
  (findEntry driver.buf (shortName path) fuel 0).map
    fun file => (file, driver, path)

/-! ## The descriptor table -/

/-- `MAX_FILE_NUMBER`. -/
abbrev maxFileNumber : Nat := 16

/-- `sizeof(struct file)`. -/
abbrev fileSizeOf : Nat := 136

/-- The memory of a `struct files_struct`. -/
abbrev FilesStruct := Bytes

/-- A field of `struct file`. -/
structure Field where
  offset : Nat
  width : Nat
deriving DecidableEq, Repr

namespace Field

def opened : Field := ⟨0, 4⟩
def perms : Field := ⟨4, 4⟩
def cfo : Field := ⟨8, 8⟩
def fsType : Field := ⟨16, 4⟩
def cluster : Field := ⟨20, 4⟩
def dirCluster : Field := ⟨24, 4⟩
def dirIndex : Field := ⟨28, 4⟩
def lseek : Field := ⟨32, 8⟩
def write : Field := ⟨40, 8⟩
def read : Field := ⟨48, 8⟩

/-- The offset of the array `path`. -/
abbrev path : Nat := 56

end Field

namespace FilesStruct

/-- Read a field of `fd_array[fd]`. -/
def get (table : FilesStruct) (fd : Nat) (field : Field) : Nat :=
  Bytes.littleEndian table (fileSizeOf * fd + field.offset) field.width

/-- Store a field of `fd_array[fd]`. -/
def set (table : FilesStruct) (fd : Nat) (field : Field) (value : Nat) :
    FilesStruct :=
  Bytes.putLittleEndian table (fileSizeOf * fd + field.offset) value field.width

/-- `memcpy` into the path of `fd_array[fd]`. -/
def copyPath (table : FilesStruct) (fd : Nat) (source : Bytes) (count : Nat) :
    FilesStruct :=
  Bytes.copy table (fileSizeOf * fd + Field.path) source 0 count

/-- The value `fd_array[fd]`. -/
def file (table : FilesStruct) (fd : Nat) : File where
  opened := table.get fd .opened
  perms := table.get fd .perms
  cfo := toInt64 (table.get fd .cfo)
  fsType := table.get fd .fsType
  fat32File :=
    ⟨table.get fd .cluster, ⟨table.get fd .dirCluster, table.get fd .dirIndex⟩⟩
  lseek := table.get fd .lseek
  write := table.get fd .write
  read := table.get fd .read
  path := fun index => table (fileSizeOf * fd + Field.path + index)

theorem get_set (table : FilesStruct) (fd : Nat) (field : Field) (value : Nat) :
    (table.set fd field value).get fd field = value % 256 ^ field.width :=
  Bytes.littleEndian_putLittleEndian _ _ _ _

theorem get_set_of_apart {table : FilesStruct} {fd value : Nat}
    {stored other : Field}
    (apart : other.offset + other.width ≤ stored.offset ∨
      stored.offset + stored.width ≤ other.offset) :
    (table.set fd stored value).get fd other = table.get fd other :=
  Bytes.littleEndian_putLittleEndian_of_disjoint (by omega)

/-- A field of another value of the table is not touched. -/
theorem get_set_of_ne {table : FilesStruct} {fd other value : Nat}
    {stored field : Field} (different : fd ≠ other)
    (storedInside : stored.offset + stored.width ≤ fileSizeOf)
    (inside : field.offset + field.width ≤ fileSizeOf) :
    (table.set fd stored value).get other field = table.get other field := by
  refine Bytes.littleEndian_putLittleEndian_of_disjoint ?_
  simp only [fileSizeOf] at *
  omega

/-- A path that fits does not touch another value of the table. -/
theorem get_copyPath_of_ne {table : FilesStruct} {fd other count : Nat}
    {source : Bytes} {field : Field} (different : fd ≠ other)
    (fits : Field.path + count ≤ fileSizeOf)
    (inside : field.offset + field.width ≤ fileSizeOf) :
    (table.copyPath fd source count).get other field =
      table.get other field := by
  refine Bytes.littleEndian_congr fun address lower upper => ?_
  refine Bytes.copy_outside ?_
  simp only [fileSizeOf, Field.path] at *
  omega

/-- The path lies behind all other fields. -/
theorem get_copyPath {table : FilesStruct} {fd count : Nat} {source : Bytes}
    {field : Field} (before : field.offset + field.width ≤ Field.path) :
    (table.copyPath fd source count).get fd field = table.get fd field :=
  Bytes.littleEndian_congr fun _ _ upper =>
    Bytes.copy_outside (Or.inl (by omega))

end FilesStruct

/-! ## `fs.c` -/

/-- The functions whose addresses a `struct file` can hold. -/
inductive Symbol where
  | fat32Lseek
  | fat32Write
  | fat32Read
  | stdinRead
  | stdoutWrite
  | stderrWrite
deriving DecidableEq, Repr

/-- Where the linker has placed the functions. -/
structure Linkage where
  address : Symbol → Nat
  positive : ∀ symbol, 0 < address symbol
  word : ∀ symbol, address symbol < word64

/-- `FILE_READABLE`. -/
abbrev fileReadable : Nat := 0x1

/-- `FILE_WRITABLE`. -/
abbrev fileWritable : Nat := 0x2

/-- `FS_TYPE_FAT32`. -/
abbrev fsTypeFat32 : Nat := 0x1

/-- `FS_TYPE_EXT2`. -/
abbrev fsTypeExt2 : Nat := 0x2

/-- The string `"/fat32/"`. -/
def fat32Prefix : List Byte := [0x2f, 0x66, 0x61, 0x74, 0x33, 0x32, 0x2f]

/-- The string `"/ext2/"`. -/
def ext2Prefix : List Byte := [0x2f, 0x65, 0x78, 0x74, 0x32, 0x2f]

/-- `get_fs_type`; the `uint32_t` of an unknown type is `-1`. -/
def getFsType (filename : CString) : Nat :=
  if memcmpEqual filename.get (ofList fat32Prefix) 7 then fsTypeFat32
  else if memcmpEqual filename.get (ofList ext2Prefix) 6 then fsTypeExt2
  else word32 - 1

/-- One of the three initialisers of `file_init`, over cleared memory. -/
def standard (table : FilesStruct) (fd perms write read : Nat)
    (name : List Byte) : FilesStruct :=
  ((((table.set fd .opened 1).set fd .perms perms).set fd .write write).set
    fd .read read).copyPath fd (ofList name) (name.length + 1)

/-- `file_init` on the memory of the allocated page. -/
def fileInit (link : Linkage) (page : Bytes) : FilesStruct :=
  let table : FilesStruct :=
    page.copy 0 (fun _ => 0) 0 (fileSizeOf * maxFileNumber)
  let table := standard table 0 fileReadable 0 (link.address .stdinRead)
    [0x73, 0x74, 0x64, 0x69, 0x6e]
  let table := standard table 1 fileWritable (link.address .stdoutWrite) 0
    [0x73, 0x74, 0x64, 0x6f, 0x75, 0x74]
  standard table 2 fileWritable (link.address .stderrWrite) 0
    [0x73, 0x74, 0x64, 0x65, 0x72, 0x72]

section Standard

variable {table : FilesStruct} {fd other perms write read : Nat}
    {name : List Byte}

theorem standard_get_of_ne {field : Field} (different : fd ≠ other)
    (short : name.length < 80)
    (inside : field.offset + field.width ≤ fileSizeOf) :
    (standard table fd perms write read name).get other field =
      table.get other field := by
  rw [standard, FilesStruct.get_copyPath_of_ne different
      (by simp only [Field.path, fileSizeOf]; omega) inside]
  iterate 4
    rw [FilesStruct.get_set_of_ne different (by decide) inside]

theorem standard_fsType :
    (standard table fd perms write read name).get fd .fsType =
      table.get fd .fsType := by
  simp (disch := decide) only [standard, FilesStruct.get_set_of_apart,
    FilesStruct.get_copyPath]

theorem standard_read (word : read < word64) :
    (standard table fd perms write read name).get fd .read = read := by
  have width : 256 ^ 8 = word64 := by norm_num
  simp (disch := decide) only [standard, FilesStruct.get_copyPath,
    FilesStruct.get_set]
  rw [Field.read, width, Nat.mod_eq_of_lt word]

theorem standard_write (word : write < word64) :
    (standard table fd perms write read name).get fd .write = write := by
  have width : 256 ^ 8 = word64 := by norm_num
  simp (disch := decide) only [standard, FilesStruct.get_copyPath,
    FilesStruct.get_set_of_apart, FilesStruct.get_set]
  rw [Field.write, width, Nat.mod_eq_of_lt word]

end Standard

/-- All descriptors but the three standard ones start closed. -/
theorem fileInit_closed (link : Linkage) (page : Bytes) {fd : Nat}
    (lower : 3 ≤ fd) (upper : fd < maxFileNumber) :
    (fileInit link page).get fd .opened = 0 := by
  rw [fileInit]
  iterate 3
    rw [standard_get_of_ne (by omega) (by decide) (by decide)]
  have cleared : FilesStruct.get
      (page.copy 0 (fun _ => 0) 0 (fileSizeOf * maxFileNumber)) fd .opened =
      FilesStruct.get (fun _ => 0) fd .opened := by
    refine Bytes.littleEndian_congr fun address _ below => ?_
    simp only [Field.opened, fileSizeOf, maxFileNumber] at *
    exact Bytes.copy_inside (Nat.zero_le _) (by omega)
  rw [cleared]
  rfl

/-- No descriptor of a new task has a file system type. -/
theorem fileInit_fsType (link : Linkage) (page : Bytes) {fd : Nat}
    (upper : fd < maxFileNumber) :
    (fileInit link page).get fd .fsType = 0 := by
  have kept : ∀ (table : FilesStruct) (other perms write read : Nat)
      (name : List Byte), name.length < 80 →
      (standard table other perms write read name).get fd .fsType =
        table.get fd .fsType := by
    intro table other perms write read name short
    by_cases same : other = fd
    · subst same
      exact standard_fsType
    · exact standard_get_of_ne same short (by decide)
  rw [fileInit]
  iterate 3
    rw [kept _ _ _ _ _ _ (by decide)]
  have cleared : FilesStruct.get
      (page.copy 0 (fun _ => 0) 0 (fileSizeOf * maxFileNumber)) fd .fsType =
      FilesStruct.get (fun _ => 0) fd .fsType := by
    refine Bytes.littleEndian_congr fun address _ below => ?_
    simp only [Field.fsType, fileSizeOf, maxFileNumber] at *
    exact Bytes.copy_inside (Nat.zero_le _) (by omega)
  rw [cleared]
  rfl

/-- What `file_open` leaves behind. -/
structure Opening where
  returned : Int
  table : FilesStruct
  driver : Driver
  path : CString

/-- `file_open` on `fd_array[fd]`. -/
def fileOpen (volume : Fat32Volume) (link : Linkage) (fuel : Nat)
    (table : FilesStruct) (fd : Nat) (driver : Driver) (path : CString)
    (flags : Nat) : Option Opening :=
  let fsType := getFsType path
  let table := (((table.set fd .opened 1).set fd .perms flags).set fd .cfo
    0).set fd .fsType fsType
  let table := table.copyPath fd path.get (path.bytes.length + 1)
  if fsType = fsTypeFat32 then
    let table := ((table.set fd .lseek (link.address .fat32Lseek)).set fd .write
      (link.address .fat32Write)).set fd .read (link.address .fat32Read)
    (fat32OpenFile volume fuel driver path).map fun (file, driver, path) =>
      let table := ((table.set fd .cluster file.cluster).set fd .dirCluster
        file.dir.cluster).set fd .dirIndex file.dir.index
      if table.get fd .cluster = 0 then ⟨-1, table, driver, path⟩
      else ⟨0, table, driver, path⟩
  else some ⟨-1, table, driver, path⟩

section FileOpen

variable {volume : Fat32Volume} {link : Linkage} {fuel : Nat}
    {table : FilesStruct} {fd : Nat} {driver : Driver} {path : CString}
    {flags : Nat} {opening : Opening}

/-- `file_open` returns `0` or `-1`. -/
theorem fileOpen_returned
    (ran : fileOpen volume link fuel table fd driver path flags =
      some opening) :
    opening.returned = 0 ∨ opening.returned = -1 := by
  rw [fileOpen] at ran
  split at ran
  · obtain ⟨found, -, rfl⟩ := Option.map_eq_some_iff.1 ran
    dsimp only
    split
    · exact .inr rfl
    · exact .inl rfl
  · cases ran
    exact .inr rfl

/-- With a path that fits, `file_open` stores into its own value only. -/
theorem fileOpen_other {other : Nat} {field : Field}
    (ran : fileOpen volume link fuel table fd driver path flags =
      some opening)
    (different : fd ≠ other) (short : path.bytes.length < 80)
    (inside : field.offset + field.width ≤ fileSizeOf) :
    opening.table.get other field = table.get other field := by
  have fits : Field.path + (path.bytes.length + 1) ≤ fileSizeOf := by
    simp only [Field.path, fileSizeOf]
    omega
  have stored : ∀ (before : FilesStruct) (stored : Field) (value : Nat),
      stored.offset + stored.width ≤ fileSizeOf →
      (before.set fd stored value).get other field =
        before.get other field := fun _ _ _ storedInside =>
    FilesStruct.get_set_of_ne different storedInside inside
  rw [fileOpen] at ran
  split at ran
  · obtain ⟨found, -, rfl⟩ := Option.map_eq_some_iff.1 ran
    dsimp only
    split <;>
      simp (disch := decide) only [stored] <;>
      rw [FilesStruct.get_copyPath_of_ne different fits inside] <;>
      simp (disch := decide) only [stored]
  · cases ran
    dsimp only
    rw [FilesStruct.get_copyPath_of_ne different fits inside]
    simp (disch := decide) only [stored]

/-- The pointers and the type that `file_open` stores. -/
theorem fileOpen_pointers
    (ran : fileOpen volume link fuel table fd driver path flags =
      some opening) :
    opening.table.get fd .fsType = getFsType path ∧
      (getFsType path = fsTypeFat32 →
        opening.table.get fd .lseek = link.address .fat32Lseek ∧
        opening.table.get fd .write = link.address .fat32Write ∧
        opening.table.get fd .read = link.address .fat32Read) := by
  have small : getFsType path < 256 ^ 4 := by
    rw [getFsType]
    split
    · decide
    · split <;> decide
  have word : ∀ symbol, link.address symbol < 256 ^ 8 := by
    intro symbol
    have width : 256 ^ 8 = word64 := by norm_num
    rw [width]
    exact link.word symbol
  rw [fileOpen] at ran
  split at ran
  · next isFat32 =>
      obtain ⟨found, -, rfl⟩ := Option.map_eq_some_iff.1 ran
      dsimp only
      split <;>
        simp (disch := decide) only [FilesStruct.get_set_of_apart,
          FilesStruct.get_copyPath, FilesStruct.get_set, Field.fsType,
          Field.lseek, Field.write, Field.read, Nat.mod_eq_of_lt small,
          Nat.mod_eq_of_lt (word _)] <;>
        simp
  · next notFat32 =>
      cases ran
      dsimp only
      refine ⟨?_, fun isFat32 => absurd isFat32 notFat32⟩
      simp (disch := decide) only [FilesStruct.get_copyPath,
        FilesStruct.get_set]
      exact Nat.mod_eq_of_lt small

/-- `file_open` opens its `struct file` also when it fails. -/
theorem fileOpen_opened
    (ran : fileOpen volume link fuel table fd driver path flags =
      some opening) :
    opening.table.get fd .opened = 1 := by
  rw [fileOpen] at ran
  split at ran
  · obtain ⟨found, -, rfl⟩ := Option.map_eq_some_iff.1 ran
    dsimp only
    split <;>
      simp (disch := decide) only [FilesStruct.get_set_of_apart,
        FilesStruct.get_copyPath, FilesStruct.get_set] <;> decide
  · cases ran
    simp (disch := decide) only [FilesStruct.get_set_of_apart,
      FilesStruct.get_copyPath, FilesStruct.get_set]
    decide

/-- `file_open` returns `0` for FAT32 files with a first cluster only. -/
theorem fileOpen_fat32
    (ran : fileOpen volume link fuel table fd driver path flags =
      some opening)
    (success : opening.returned = 0) :
    getFsType path = fsTypeFat32 ∧ opening.table.get fd .cluster ≠ 0 := by
  rw [fileOpen] at ran
  split at ran
  · next isFat32 =>
      obtain ⟨found, -, rfl⟩ := Option.map_eq_some_iff.1 ran
      dsimp only at success ⊢
      split at success
      · cases success
      · next nonzero =>
          rw [if_neg nonzero]
          exact ⟨isFat32, nonzero⟩
  · cases ran
    cases success

/-- When `file_open` returns `0` its `struct file` is open on the file found. -/
theorem fileOpen_success
    (ran : fileOpen volume link fuel table fd driver path flags =
      some opening)
    (success : opening.returned = 0) :
    opening.table.get fd .opened = 1 ∧
      (fat32OpenFile volume fuel driver path).map (·.1) =
        some (opening.table.file fd).fat32File := by
  rw [fileOpen] at ran
  split at ran
  · obtain ⟨⟨file, nextDriver, nextPath⟩, found, rfl⟩ :=
      Option.map_eq_some_iff.1 ran
    obtain ⟨entry, isEntry, same⟩ := Option.map_eq_some_iff.1 found
    cases same
    obtain ⟨cluster, dirCluster, dirIndex⟩ := findEntry_word isEntry
    have word : 256 ^ 4 = word32 := by norm_num
    rw [found]
    dsimp only at success ⊢
    split at success
    · cases success
    · next nonzero =>
        rw [if_neg nonzero]
        simp (disch := decide) only [FilesStruct.file,
          FilesStruct.get_set_of_apart, FilesStruct.get_copyPath]
        simp only [FilesStruct.get_set, Field.opened, Field.cluster,
          Field.dirCluster, Field.dirIndex, word, Nat.mod_eq_of_lt cluster,
          Nat.mod_eq_of_lt dirCluster, Nat.mod_eq_of_lt dirIndex]
        exact ⟨by decide, rfl⟩
  · cases ran
    cases success

/-- `file_open` returns `0` on the path of a file with a first cluster. -/
theorem fileOpen_found (link : Linkage) (table : FilesStruct) (fd flags : Nat)
    {file : Fat32File} {nextDriver : Driver} {nextPath : CString}
    (isFat32 : getFsType path = fsTypeFat32)
    (found : fat32OpenFile volume fuel driver path =
      some (file, nextDriver, nextPath))
    (nonzero : file.cluster ≠ 0) :
    ∃ opening,
      fileOpen volume link fuel table fd driver path flags = some opening ∧
      opening.returned = 0 := by
  obtain ⟨entry, isEntry, same⟩ := Option.map_eq_some_iff.1 found
  cases same
  have word : 256 ^ 4 = word32 := by norm_num
  have small := (findEntry_word isEntry).1
  refine ⟨_, by rw [fileOpen, if_pos isFat32, found]; rfl, ?_⟩
  dsimp only
  rw [if_neg]
  simp (disch := decide) only [FilesStruct.get_set_of_apart]
  rw [FilesStruct.get_set, Field.cluster, word, Nat.mod_eq_of_lt small]
  exact nonzero

end FileOpen

end TinyRiscvOs.Fs
