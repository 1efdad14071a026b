import TinyRiscvOs.Fs.Fat32Frame
import TinyRiscvOs.Lib.ByteFiles

/-!
# The files of a volume are separate

Any number of `struct file` values are open on any number of files with
disjoint chains.  Reads, writes and seeks on all of them, in any order, are
those of a family of byte arrays: a call on one file moves one offset and leaves
the contents of all others.
-/

namespace TinyRiscvOs.Fs

open TinyRiscvOs.Lib

namespace OpenFiles

variable {Name Handle : Type} [DecidableEq Name] [DecidableEq Handle]

/-! ## One handle among many -/

/-- What is open, seen from one handle. -/
def alone (world : OpenFiles Handle) (handle : Handle) : OpenFiles Unit where
  driver := world.driver
  files := fun _ => world.files handle

/-- What is open after a call on one handle. -/
def rejoin (world : OpenFiles Handle) (handle : Handle)
    (alone : OpenFiles Unit) : OpenFiles Handle where
  driver := alone.driver
  files := Function.update world.files handle (alone.files ())

/-- A call needs no other handle than its own. -/
theorem exec_alone (volume : Fat32Volume) (fuel : Nat)
    (world : OpenFiles Handle) (op : FileOp Handle) :
    world.exec volume fuel op =
      ((world.alone op.handle).exec volume fuel op.single).map fun result =>
        (result.1, world.rejoin op.handle result.2) := by
  cases op <;>
    simp [exec, FileOp.single, FileOp.handle, alone, rejoin, after,
      Option.map_map, Function.comp_def]

/-! ## A family of files -/

/-- The byte files that the open files show. -/
def abstractAll (volume : Fat32Volume) (files : Name → StoredFile)
    (world : OpenFiles Handle) : ByteFiles Name Handle where
  size name := directorySize volume world.driver.disk (files name).index
  content name := (files name).content volume world.driver.disk
  offset handle := (world.files handle).cfo.toNat

/-- Every handle is open on a file, and all files are on the disk. -/
structure HoldsAll (volume : Fat32Volume) (files : Name → StoredFile)
    (denotes : Handle → Name) (world : OpenFiles Handle) : Prop where
  handles : ∀ handle,
    (world.files handle).fat32File = (files (denotes handle)).handle
  offsets : ∀ handle, 0 ≤ (world.files handle).cfo
  onDisk : ∀ name, (files name).OnDisk volume world.driver.disk

/-- The conditions under which the driver serves all files. -/
structure ServedAll (volume : Fat32Volume) (files : Name → StoredFile)
    (fuel : Nat) : Prop where
  nonempty : 0 < volume.secPerCluster
  ordered : volume.firstFatSec ≤ volume.firstDataSec
  addressed : ∀ name, (files name).Addressed volume
  enough : ∀ name, (files name).chain.length ≤ fuel
  disjoint : ∀ name other, name ≠ other →
    ∀ cluster ∈ (files name).chain, cluster ∉ (files other).chain

section Refinement

variable {volume : Fat32Volume} {files : Name → StoredFile}
    {denotes : Handle → Name} {fuel : Nat} {world : OpenFiles Handle}

omit [DecidableEq Name] [DecidableEq Handle] in
theorem HoldsAll.holds (holds : HoldsAll volume files denotes world)
    (handle : Handle) :
    Holds volume (files (denotes handle)) (world.alone handle) where
  handles _ := holds.handles handle
  offsets _ := holds.offsets handle
  onDisk := holds.onDisk _

omit [DecidableEq Name] in
theorem ServedAll.served (served : ServedAll volume files fuel) (name : Name) :
    Served volume (files name) fuel :=
  ⟨served.nonempty, served.ordered, served.addressed name, served.enough name⟩

/-- The disk of a file after calls on others: its entry, its chain and its bytes. -/
structure Untouched (volume : Fat32Volume) (stored : StoredFile)
    (before after : Disk) : Prop where
  onDisk : stored.OnDisk volume after
  content : stored.content volume after = stored.content volume before

/-- A write to one file does not touch another. -/
theorem write_untouched {driver : Driver} {file : File}
    {stored other : StoredFile} (served : Served volume stored fuel)
    (onDisk : stored.OnDisk volume driver.disk)
    (isOpen : Volume.IsOpen stored file)
    (disjoint : ∀ cluster ∈ stored.chain, cluster ∉ other.chain)
    (otherOnDisk : other.OnDisk volume driver.disk) {user : Bytes} {len : Nat}
    {result : Transfer}
    (ran : fat32Write volume fuel driver file user len = some result) :
    Untouched volume other driver.disk result.memory.driver.disk := by
  obtain ⟨_, again, inside, frame⟩ := Volume.write_confined onDisk
    served.addressed served.nonempty served.enough isOpen user len
  obtain rfl := Option.some_inj.1 (ran.symm.trans again)
  refine ⟨onDisk.write_other served.ordered served.nonempty inside frame
    otherOnDisk, funext fun position => ?_⟩
  rw [StoredFile.content, StoredFile.content]
  split
  · rename_i below
    exact Volume.byte_other onDisk otherOnDisk served.nonempty disjoint inside
      frame below
  · rfl

/-- What a read leaves is what was there. -/
theorem read_sameDisk {driver : Driver} {file : File} {stored : StoredFile}
    (served : Served volume stored fuel)
    (onDisk : stored.OnDisk volume driver.disk)
    (isOpen : Volume.IsOpen stored file) {user : Bytes} {len : Nat}
    {result : Transfer}
    (ran : fat32Read volume fuel driver file user len = some result) :
    result.memory.driver.disk = driver.disk := by
  by_cases inside : file.cfo.toNat < stored.size
  · obtain ⟨memory, again, same, _⟩ := onDisk.read served.addressed
      isOpen.handle served.nonempty isOpen.offset_eq inside served.enough user
      len
    obtain rfl := Option.some_inj.1 (ran.symm.trans again)
    exact same
  · have again := @transfer_at_end readAccess volume fuel driver file user len
      (isOpen.at_end onDisk inside)
    obtain rfl := Option.some_inj.1 (ran.symm.trans again)
    rfl

theorem fat32Lseek_disk {driver : Driver} {file : File} {offset : Int}
    {whence : Nat} {result : Int × Driver × File}
    (ran : fat32Lseek volume driver file offset whence = some result) :
    result.2.1.disk = driver.disk := by
  rw [fat32Lseek] at ran
  obtain ⟨_, _, rfl⟩ := Option.map_eq_some_iff.1 ran
  rfl

omit [DecidableEq Name] in
/-- A call on one file does not touch the others. -/
theorem exec_untouched (served : ServedAll volume files fuel)
    (holds : HoldsAll volume files denotes world) {op : FileOp Handle}
    {reply : FileReply} {next : OpenFiles Handle}
    (ran : world.exec volume fuel op = some (reply, next)) {name : Name}
    (different : denotes op.handle ≠ name) :
    Untouched volume (files name) world.driver.disk next.driver.disk := by
  have onDisk := holds.onDisk name
  have isOpen (handle : Handle) :
      Volume.IsOpen (files (denotes handle)) (world.files handle) :=
    ⟨holds.handles handle, holds.offsets handle⟩
  cases op with
  | read handle buffer len =>
      obtain ⟨result, read, same⟩ := Option.map_eq_some_iff.1 ran
      obtain ⟨_, rfl⟩ := Prod.mk.inj same
      have kept := read_sameDisk (served.served _) (holds.onDisk _)
        (isOpen handle) read
      rw [after]
      exact ⟨kept.symm ▸ onDisk, by rw [kept]⟩
  | write handle buffer len =>
      obtain ⟨result, written, same⟩ := Option.map_eq_some_iff.1 ran
      obtain ⟨_, rfl⟩ := Prod.mk.inj same
      exact write_untouched (served.served _) (holds.onDisk _) (isOpen handle)
        (served.disjoint _ _ different) onDisk written
  | seek handle delta whence =>
      obtain ⟨result, sought, same⟩ := Option.map_eq_some_iff.1 ran
      obtain ⟨_, rfl⟩ := Prod.mk.inj same
      have kept := fat32Lseek_disk sought
      exact ⟨kept.symm ▸ onDisk, by rw [kept]⟩

/-- The byte files after a call: the one of the handle is its own, the others stay. -/
theorem abstractAll_rejoin {handle : Handle} {next : OpenFiles Unit}
    (holds : HoldsAll volume files denotes world)
    (ownOnDisk : (files (denotes handle)).OnDisk volume next.driver.disk)
    (others : ∀ name, denotes handle ≠ name →
      Untouched volume (files name) world.driver.disk next.driver.disk) :
    (world.rejoin handle next).abstractAll volume files =
      (world.abstractAll volume files).store denotes handle
        (next.abstract volume (files (denotes handle))) := by
  have sizes (name : Name) :
      directorySize volume next.driver.disk (files name).index =
        directorySize volume world.driver.disk (files name).index := by
    rw [(holds.onDisk name).sized]
    by_cases same : denotes handle = name
    · exact same ▸ ownOnDisk.sized
    · exact (others name same).onDisk.sized
  refine ByteFiles.ext (funext sizes) (funext fun name => ?_)
    (funext fun other => ?_)
  · rw [ByteFiles.store]
    dsimp only
    rw [Function.update_apply]
    split
    · rename_i same
      rw [same]
      rfl
    · rename_i different
      exact (others name fun same => different same.symm).content
  · rw [ByteFiles.store]
    simp only [abstractAll, rejoin, Function.update_apply, abstract]
    split <;> rfl

theorem HoldsAll.rejoin {handle : Handle} {next : OpenFiles Unit}
    (holds : HoldsAll volume files denotes world)
    (own : Holds volume (files (denotes handle)) next)
    (others : ∀ name, denotes handle ≠ name →
      Untouched volume (files name) world.driver.disk next.driver.disk) :
    HoldsAll volume files denotes (world.rejoin handle next) where
  handles other := by
    by_cases same : other = handle
    · subst same
      rw [OpenFiles.rejoin]
      dsimp only
      rw [Function.update_self]
      exact own.handles ()
    · rw [OpenFiles.rejoin]
      dsimp only
      rw [Function.update_of_ne same]
      exact holds.handles other
  offsets other := by
    by_cases same : other = handle
    · subst same
      rw [OpenFiles.rejoin]
      dsimp only
      rw [Function.update_self]
      exact own.offsets ()
    · rw [OpenFiles.rejoin]
      dsimp only
      rw [Function.update_of_ne same]
      exact holds.offsets other
  onDisk name := by
    by_cases same : denotes handle = name
    · exact same ▸ own.onDisk
    · exact (others name same).onDisk

/-- One call is one operation on the byte files. -/
theorem exec_refinesAll (served : ServedAll volume files fuel)
    (holds : HoldsAll volume files denotes world) {op : FileOp Handle}
    (inRange : (world.abstractAll volume files).InRange denotes op) :
    Refined (OpenFiles.exec volume fuel) (ByteFiles.exec denotes)
      (abstractAll volume files) id id (HoldsAll volume files denotes) world
      op := by
  obtain ⟨answered, keeps⟩ := exec_refines (served.served _)
    (holds.holds op.handle) inRange
  have joined := exec_alone volume fuel world op
  cases ran : (world.alone op.handle).exec volume fuel op.single with
  | none =>
      rw [ran, Option.map_none] at joined answered
      refine ⟨?_, fun result here => ?_⟩
      · rw [joined, Option.map_none, id, ByteFiles.exec]
        rw [show ((world.abstractAll volume files).seen denotes
          op.handle).exec op.single = none from answered.symm]
        rfl
      · rw [joined] at here
        cases here
  | some result =>
      obtain ⟨reply, next⟩ := result
      rw [ran, Option.map_some] at joined answered
      have others (name : Name) (different : denotes op.handle ≠ name) :
          Untouched volume (files name) world.driver.disk next.driver.disk :=
        exec_untouched served holds joined different
      have own := keeps reply next ran
      refine ⟨?_, fun result here => ?_⟩
      · rw [joined, Option.map_some, id, ByteFiles.exec,
          abstractAll_rejoin holds own.onDisk others]
        rw [show ((world.abstractAll volume files).seen denotes
          op.handle).exec op.single = some (reply, _) from answered.symm]
        rfl
      · rw [joined] at here
        obtain rfl := Option.some_inj.1 here
        exact holds.rejoin own others

end Refinement

end OpenFiles

namespace TwoFiles

/-- A handle on each file. -/
def world : OpenFiles Bool where
  driver := ⟨disk, fun _ => 0, fun _ => 0⟩
  files := fun name => Volume.fileAt (files name) 0

theorem holds : world.HoldsAll volume files id where
  handles _ := rfl
  offsets _ := Int.le_refl 0
  onDisk := TwoFiles.onDisk

/-- Both files are written, then the rest of the first one is read. -/
def ops : List (FileOp Bool) :=
  [.write false SmallVolume.buffer 3, .write true SmallVolume.buffer 9,
    .read false SmallVolume.buffer 600]

theorem inRange : AllLegal (ByteFiles.exec id) (ByteFiles.InRange id)
    (world.abstractAll volume files) ops :=
  ⟨trivial, fun _ _ => ⟨trivial, fun _ _ => ⟨trivial, fun _ _ => trivial⟩⟩⟩

end TwoFiles

end TinyRiscvOs.Fs
