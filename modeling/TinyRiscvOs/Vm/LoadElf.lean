import TinyRiscvOs.Vm.Fill
import TinyRiscvOs.Vm.Generations

/-!
# Segments with uninitialised data

`load_elf` makes an area of every segment of the ramdisk and notes in it how
many of its bytes are in the file.  `do_page_fault` does not look at that
number: on every page it copies the area up to its end.  So the uninitialised
data of a segment is what the file has behind the segment.
-/

namespace TinyRiscvOs.Vm

open TinyRiscvOs.Lib
open TinyRiscvOs.Mm

/-! ## `load_elf` -/

/-- `PT_LOAD`. -/
abbrev ptLoad : Nat := 1

/-- `PF_X`. -/
abbrev pfX : Nat := 0b1

/-- `PF_W`. -/
abbrev pfW : Nat := 0b10

/-- `PF_R`. -/
abbrev pfR : Nat := 0b100

/-- What `load_elf` reads of an `Elf64_Phdr`. -/
structure Phdr where
  pType : Nat
  pFlags : Nat
  pOffset : Nat
  pVaddr : Nat
  pFilesz : Nat
  pMemsz : Nat
deriving DecidableEq, Repr

/-- The size of an `Elf64_Phdr`. -/
abbrev phdrSize : Nat := 56

/-- The program header at an address. -/
def Phdr.read (mem : Bytes) (address : Nat) : Phdr where
  pType := Bytes.littleEndian mem address 4
  pFlags := Bytes.littleEndian mem (address + 4) 4
  pOffset := Bytes.littleEndian mem (address + 8) 8
  pVaddr := Bytes.littleEndian mem (address + 16) 8
  pFilesz := Bytes.littleEndian mem (address + 32) 8
  pMemsz := Bytes.littleEndian mem (address + 40) 8

/-- The flags of the area for the flags of the segment. -/
def Phdr.vmFlags (phdr : Phdr) : Nat :=
  (if phdr.pFlags &&& pfR ≠ 0 then vmRead else 0) |||
    (if phdr.pFlags &&& pfW ≠ 0 then vmWrite else 0) |||
    (if phdr.pFlags &&& pfX ≠ 0 then vmExec else 0)

/-- The call of `do_mmap` for a segment. -/
def Phdr.args (phdr : Phdr) : MmapArgs where
  addr := phdr.pVaddr
  len := phdr.pMemsz
  vmPgoff := phdr.pOffset
  vmFilesz := phdr.pFilesz
  flags := phdr.vmFlags

/-- The loop of `load_elf`, for a number of program headers. -/
def loadSegments (cfg : Config) :
    Nat → Nat → List Vma → Machine → Except Stop (List Vma × Machine)
  | 0, _, mmap, m => .ok (mmap, m)
  | count + 1, address, mmap, m =>
      let phdr := Phdr.read m.mem address
      if phdr.pType ≠ ptLoad then
        loadSegments cfg count (address + phdrSize) mmap m
      else do
        let (mmap, m) ← doMmap cfg m mmap phdr.args
        loadSegments cfg count (address + phdrSize) mmap m

/-- `e_phoff`. -/
def ePhoff (cfg : Config) (mem : Bytes) : Nat :=
  Bytes.littleEndian mem (cfg.sramdisk + 32) 8

/-- `e_phnum`. -/
def ePhnum (cfg : Config) (mem : Bytes) : Nat :=
  Bytes.littleEndian mem (cfg.sramdisk + 56) 2

/-- `load_elf`: `e_entry` and the areas. -/
def loadElf (cfg : Config) (m : Machine) (mmap : List Vma) :
    Except Stop (Nat × List Vma × Machine) := do
  let (mmap, m) ← loadSegments cfg (ePhnum cfg m.mem)
    ((cfg.sramdisk + ePhoff cfg m.mem) % 2 ^ 64) mmap m
  return (Bytes.littleEndian m.mem (cfg.sramdisk + 24) 8, mmap, m)

/-- The program headers of type `PT_LOAD` from an address on. -/
def loadableFrom (mem : Bytes) : Nat → Nat → List Phdr
  | 0, _ => []
  | count + 1, address =>
      if (Phdr.read mem address).pType ≠ ptLoad then
        loadableFrom mem count (address + phdrSize)
      else Phdr.read mem address :: loadableFrom mem count (address + phdrSize)

/-- Those of the ramdisk. -/
def loadable (cfg : Config) (mem : Bytes) : List Phdr :=
  loadableFrom mem (ePhnum cfg mem)
    ((cfg.sramdisk + ePhoff cfg mem) % 2 ^ 64)

theorem Phdr.read_congr {mem other : Bytes} {address : Nat}
    (same : ∀ offset < phdrSize,
      other (address + offset) = mem (address + offset)) :
    Phdr.read other address = Phdr.read mem address := by
  have field {start width : Nat} (fits : start + width ≤ phdrSize) :
      Bytes.littleEndian other (address + start) width =
        Bytes.littleEndian mem (address + start) width := by
    refine Bytes.littleEndian_congr fun place lower upper => ?_
    have split : place = address + (place - address) := by omega
    rw [split]
    exact same _ (by omega)
  simp only [Phdr.read, Phdr.mk.injEq]
  exact ⟨@field 0 4 (by decide), field (by decide), field (by decide),
    field (by decide), field (by decide), field (by decide)⟩

theorem loadableFrom_congr {mem other : Bytes} {count address : Nat}
    (same : ∀ offset < count * phdrSize,
      other (address + offset) = mem (address + offset)) :
    loadableFrom other count address = loadableFrom mem count address := by
  induction count generalizing address with
  | zero => rfl
  | succ count induction =>
      have total : (count + 1) * phdrSize = count * phdrSize + phdrSize :=
        Nat.succ_mul count phdrSize
      have first : Phdr.read other address = Phdr.read mem address :=
        Phdr.read_congr fun offset inside => same offset (by omega)
      have rest : loadableFrom other count (address + phdrSize) =
          loadableFrom mem count (address + phdrSize) := by
        refine induction fun offset inside => ?_
        rw [Nat.add_assoc]
        exact same _ (by omega)
      rw [loadableFrom, loadableFrom, first, rest]

theorem doMmap_succeeds {cfg : Config} {m after : Machine} {args : MmapArgs}
    {mmap last : List Vma} (fine : m.oom = false)
    (returns : doMmap cfg m mmap args = .ok (last, after)) :
    after.oom = false := by
  rw [(doMmap_ok returns).1]
  rw [doMmap] at returns
  dsimp only at returns
  split at returns
  · cases returns
  · rename_i found
    rw [Config.kalloc, allocPage] at found ⊢
    dsimp only at found ⊢
    split at found
    · exact absurd rfl found
    · rename_i positive
      rw [if_neg positive]
      exact fine

/-- The areas are those of the headers there were at the start. -/
theorem Inv.loadSegments_eq {cfg : Config} {task : List Task}
    {kernel : Finset Nat} {budget count address : Nat} {m : Machine}
    (inv : Inv cfg task kernel budget m) (image : Boot.kernel cfg ⊆ kernel)
    (fine : m.oom = false)
    (headers : ∀ offset < count * phdrSize, cfg.Image (address + offset))
    (mmap : List Vma) :
    loadSegments cfg count address mmap m =
      Vm.doMmaps cfg ((loadableFrom m.mem count address).map Phdr.args) mmap
        m := by
  induction count generalizing address mmap m with
  | zero => rfl
  | succ count induction =>
      have total : (count + 1) * phdrSize = count * phdrSize + phdrSize :=
        Nat.succ_mul count phdrSize
      have rest : ∀ offset < count * phdrSize,
          cfg.Image (address + phdrSize + offset) := by
        intro offset inside
        rw [Nat.add_assoc]
        exact headers _ (by omega)
      rw [loadSegments, loadableFrom]
      dsimp only
      by_cases other : (Phdr.read m.mem address).pType ≠ ptLoad
      · rw [if_pos other, if_pos other]
        exact induction inv fine rest mmap
      · rw [if_neg other, if_neg other, List.map_cons, Vm.doMmaps]
        cases mapped : doMmap cfg m mmap (Phdr.read m.mem address).args with
        | error stop => rfl
        | ok result =>
            obtain ⟨areas, next⟩ := result
            have nextFine := doMmap_succeeds fine mapped
            obtain rfl : next = (cfg.kalloc m).2 := (doMmap_ok mapped).1
            have same : loadableFrom (cfg.kalloc m).2.mem count
                (address + phdrSize) =
                loadableFrom m.mem count (address + phdrSize) :=
              loadableFrom_congr fun offset inside =>
                inv.image_byte image nextFine (rest offset inside)
            rw [← same]
            exact induction (inv.allocated nextFine).1 nextFine rest areas

/-- `load_elf` makes an area of every segment, the last one first. -/
theorem Inv.loadElf_mmap {cfg : Config} {task : List Task}
    {kernel : Finset Nat} {budget entry : Nat} {m after : Machine}
    {mmap : List Vma} (inv : Inv cfg task kernel budget m)
    (image : Boot.kernel cfg ⊆ kernel) (fine : m.oom = false)
    (headers : ∀ offset < ePhnum cfg m.mem * phdrSize,
      cfg.Image ((cfg.sramdisk + ePhoff cfg m.mem) % 2 ^ 64 + offset))
    (returns : loadElf cfg m [] = .ok (entry, mmap, after)) :
    mmap = ((loadable cfg m.mem).map fun phdr => phdr.args.vma).reverse := by
  rw [loadElf, inv.loadSegments_eq image fine headers] at returns
  cases loaded : Vm.doMmaps cfg ((loadable cfg m.mem).map Phdr.args) [] m with
  | error stop =>
      rw [loadable] at loaded
      rw [loaded] at returns
      cases returns
  | ok result =>
      obtain ⟨areas, last⟩ := result
      have built := doMmaps_mmap loaded
      rw [loadable] at loaded
      rw [loaded] at returns
      obtain ⟨-, same⟩ := Prod.mk.inj (Except.ok.inj returns)
      obtain ⟨rfl, -⟩ := Prod.mk.inj same
      rw [built, List.append_nil, List.map_map]
      rfl

/-! ## What is copied from the file -/

/--
The bytes that `memcpy` copies for the page of `badAddr`: the offset of each in
the file and its place on the page.
-/
def fileCopies (vma : Vma) (badAddr : Nat) : List (Nat × Nat) :=
  let vaddrStart := max (pgRoundDown badAddr) vma.vmStart
  let vaddrEnd := min (pgRoundUp (badAddr + 1)) vma.vmEnd
  let inPageOffset := vaddrStart - pgRoundDown badAddr
  let segOffset := vaddrStart - vma.vmStart
  (List.range (vaddrEnd - vaddrStart)).map fun count =>
    (vma.vmPgoff + segOffset + count, inPageOffset + count)

/-- A copying loop is a fold over the bytes it copies. -/
theorem copyLoop_eq_foldl (bytes : Bytes) (start origin count : Nat) :
    Bytes.copyLoop bytes start origin count =
      (List.range count).foldl (fun bytes index =>
        Function.update bytes (start + index) (bytes (origin + index)))
        bytes := by
  induction count with
  | zero => rfl
  | succ count induction =>
      rw [List.range_succ, List.foldl_append, ← induction]
      rfl

/-- The page is filled by these copies, one after the other. -/
theorem copyFromFile_eq_foldl {cfg : Config} {mem : Bytes} {vma : Vma}
    {page badAddr : Nat}
    (fits : cfg.sramdisk + vma.vmPgoff +
      (max (pgRoundDown badAddr) vma.vmStart - vma.vmStart) < 2 ^ 64) :
    copyFromFile cfg mem vma page badAddr =
      (fileCopies vma badAddr).foldl (fun mem copied =>
        Function.update mem (4096 * page + copied.2)
          (mem (cfg.sramdisk + copied.1))) mem := by
  rw [copyFromFile, fileCopies, ← Bytes.copyLoop_eq_move, copyLoop_eq_foldl, List.foldl_map,
    Nat.mod_eq_of_lt fits]
  simp only [Nat.add_assoc]

/-- The offsets in the ramdisk of the bytes that `do_page_fault` copies. -/
def fileReads (m : Machine) (t : Task) (access : Access) (badAddr : Nat) :
    List Nat :=
  match findVma t.mmap badAddr with
  | none => []
  | some vma =>
      if vma.vmFlags &&& access.vmFlag = 0 then []
      else
        match cowEntry m.mem t access badAddr with
        | some _ => []
        | none =>
            if vma.vmFlags &&& vmAnon = 0 then
              (fileCopies vma badAddr).map Prod.fst
            else []

theorem mem_fileCopies {vma : Vma} {badAddr offset : Nat}
    (small : badAddr < 2 ^ 38) (contains : vma.Contains badAddr) :
    offset ∈ (fileCopies vma badAddr).map Prod.fst ↔
      ∃ v, v / 4096 = badAddr / 4096 ∧ vma.Contains v ∧
        offset = vma.vmPgoff + (v - vma.vmStart) := by
  obtain ⟨lower, upper⟩ := contains
  have round := pgRoundUp_succ small
  have down := pgRoundDown_eq badAddr
  simp only [fileCopies, List.map_map, List.mem_map, List.mem_range,
    Function.comp_apply, Vma.Contains]
  constructor
  · rintro ⟨count, inside, rfl⟩
    exact ⟨max (pgRoundDown badAddr) vma.vmStart + count, by omega, by omega,
      by omega⟩
  · rintro ⟨v, samePage, inArea, rfl⟩
    exact ⟨v - max (pgRoundDown badAddr) vma.vmStart, by omega, by omega⟩

/-! ## The uninitialised bytes -/

/-- A byte of the segment that is not in the file and lies on the page of `badAddr`. -/
def Phdr.Tail (phdr : Phdr) (badAddr o : Nat) : Prop :=
  phdr.pFilesz ≤ o ∧ o < phdr.pMemsz ∧
    (phdr.pVaddr + o) / 4096 = badAddr / 4096

/--
After a fault the uninitialised bytes on the page are zero, and nothing behind
the bytes of the segment was copied from the file.
-/
structure ZeroTail (m : Machine) (t : Task) (access : Access) (phdr : Phdr)
    (badAddr : Nat) (after : Machine) : Prop where
  zero : ∀ o, phdr.Tail badAddr o →
    after.mem (4096 * entryPpn (leaf after.mem t.pgd (badAddr / 4096)) +
      (phdr.pVaddr + o) % 4096) = 0
  inSegment : ∀ offset ∈ fileReads m t access badAddr,
    offset < phdr.pOffset + phdr.pFilesz

/-- The fields are words of their widths. -/
theorem Phdr.read_memsz_lt (mem : Bytes) (address : Nat) :
    (Phdr.read mem address).pMemsz < 2 ^ 64 :=
  (Bytes.littleEndian_lt mem (address + 40) 8).trans_eq (by decide)

theorem memsz_lt_of_mem {mem : Bytes} {count address : Nat} {phdr : Phdr}
    (loaded : phdr ∈ loadableFrom mem count address) :
    phdr.pMemsz < 2 ^ 64 := by
  induction count generalizing address with
  | zero => cases loaded
  | succ count induction =>
      rw [loadableFrom] at loaded
      split at loaded
      · exact induction loaded
      · rcases List.mem_cons.1 loaded with rfl | later
        · exact Phdr.read_memsz_lt mem address
        · exact induction later

/-- An area that has an address does not wrap. -/
theorem Phdr.vmEnd_eq {phdr : Phdr} {badAddr : Nat}
    (memszSmall : phdr.pMemsz < 2 ^ 64)
    (contains : phdr.args.vma.Contains badAddr) :
    phdr.args.vma.vmEnd = phdr.pVaddr + phdr.pMemsz := by
  obtain ⟨lower, upper⟩ := contains
  simp only [Phdr.args, MmapArgs.vma] at lower upper ⊢
  omega

theorem Phdr.fileBacked (phdr : Phdr) :
    phdr.args.vma.vmFlags &&& vmAnon = 0 := by
  simp only [Phdr.args, MmapArgs.vma, Phdr.vmFlags]
  split <;> split <;> split <;> rfl

section Fault

variable {cfg : Config} {s : System} {mem : Bytes} {id badAddr : Nat}
    {t : Task} {phdr : Phdr} {access : Access} {after : Machine}

theorem fileReads_demand {m : Machine} {vma : Vma}
    (found : findVma t.mmap badAddr = some vma)
    (fileBacked : vma.vmFlags &&& vmAnon = 0)
    (allowed : has access.vmFlag vma.vmFlags)
    (unmapped : ¬ Mapped m.mem t.pgd (badAddr / 4096)) :
    fileReads m t access badAddr = (fileCopies vma badAddr).map Prod.fst := by
  rw [fileReads, found]
  dsimp only
  rw [if_neg allowed, cowEntry_of_not_mapped unmapped]
  exact if_pos fileBacked

/-- A fault copies exactly the bytes of the segment on the page, to its end in memory. -/
theorem mem_fileReads (small : badAddr < 2 ^ 38)
    (loaded : phdr ∈ loadable cfg mem)
    (found : findVma t.mmap badAddr = some phdr.args.vma)
    (allowed : has access.vmFlag phdr.args.vma.vmFlags)
    (unmapped : ¬ Mapped s.machine.mem t.pgd (badAddr / 4096)) {offset : Nat} :
    offset ∈ fileReads s.machine t access badAddr ↔
      ∃ o < phdr.pMemsz, (phdr.pVaddr + o) / 4096 = badAddr / 4096 ∧
        offset = phdr.pOffset + o := by
  obtain ⟨_, contains⟩ := findVma_some found
  have last := Phdr.vmEnd_eq (memsz_lt_of_mem loaded) contains
  rw [fileReads_demand found phdr.fileBacked allowed unmapped,
    mem_fileCopies small contains]
  simp only [Vma.Contains, last]
  simp only [Phdr.args, MmapArgs.vma]
  constructor
  · rintro ⟨v, samePage, ⟨lower, upper⟩, rfl⟩
    refine ⟨v - phdr.pVaddr, by omega, ?_, rfl⟩
    rwa [Nat.add_sub_cancel' lower]
  · rintro ⟨o, within, samePage, rfl⟩
    exact ⟨phdr.pVaddr + o, samePage,
      ⟨Nat.le_add_right _ _, Nat.add_lt_add_left within _⟩,
      by rw [Nat.add_sub_cancel_left]⟩

/--
A fault on a page of a segment leaves zeros in its uninitialised data, and
copies nothing from behind the segment's bytes in the file, exactly if none of
the uninitialised data is on that page.  Otherwise that data is what the
ramdisk has behind the segment.
-/
theorem zeroTail_iff (source : cfg.absentNull = false)
    (reachable : Reachable cfg s) (blank : Blank cfg s.machine)
    (taskAt : s.task[id]? = some t) (loaded : phdr ∈ loadable cfg mem)
    (found : findVma t.mmap badAddr = some phdr.args.vma)
    (unmapped : ¬ Mapped s.machine.mem t.pgd (badAddr / 4096))
    (returns : doPageFault cfg s.machine t access badAddr = .ok after)
    (succeeds : after.oom = false) :
    (ZeroTail s.machine t access phdr badAddr after ↔
        ∀ o, ¬ phdr.Tail badAddr o) ∧
      ∀ o, phdr.Tail badAddr o →
        cfg.Image (cfg.sramdisk + (phdr.pOffset + o)) →
        after.mem (4096 * entryPpn (leaf after.mem t.pgd (badAddr / 4096)) +
            (phdr.pVaddr + o) % 4096) =
          s.machine.mem (cfg.sramdisk + (phdr.pOffset + o)) := by
  obtain ⟨kernel, image, inv⟩ := reachable.image source
  have member := List.mem_iff_getElem?.2 ⟨id, taskAt⟩
  obtain ⟨_, _, contains, small, _⟩ := inv.fault_page member found
  obtain ⟨vma, found', allowed, _⟩ :=
    inv.doPageFault blank taskAt returns succeeds
  obtain rfl : vma = phdr.args.vma :=
    Option.some_inj.1 (found'.symm.trans found)
  have isRead {offset : Nat} := @mem_fileReads cfg s mem badAddr t phdr access
    small loaded found allowed unmapped offset
  refine ⟨⟨?_, ?_⟩, ?_⟩
  · rintro zeroTail o ⟨behind, within, onPage⟩
    have inSegment := zeroTail.inSegment (phdr.pOffset + o)
      (isRead.2 ⟨o, within, onPage, rfl⟩)
    omega
  · intro noTail
    refine ⟨fun o tail => absurd tail (noTail o), fun offset copied => ?_⟩
    obtain ⟨o, within, onPage, rfl⟩ := isRead.1 copied
    have notTail := noTail o
    by_contra beyond
    exact notTail ⟨by omega, within, onPage⟩
  · rintro o ⟨_, within, onPage⟩ inImage
    have last := Phdr.vmEnd_eq (memsz_lt_of_mem loaded) contains
    have inArea : phdr.args.vma.Contains (phdr.pVaddr + o) :=
      ⟨Nat.le_add_right _ _, last ▸ Nat.add_lt_add_left within _⟩
    have place : phdr.args.vma.vmPgoff +
        (phdr.pVaddr + o - phdr.args.vma.vmStart) = phdr.pOffset + o := by
      simp only [Phdr.args, MmapArgs.vma, Nat.add_sub_cancel_left]
    rw [← place] at inImage ⊢
    exact inv.fault_byte image blank taskAt found phdr.fileBacked unmapped
      returns succeeds onPage inArea inImage

end Fault

/-! ## A segment with sixteen bytes in the file and sixteen more in memory -/

namespace SmallElf

open SmallProgram (config result eq_ok)

/-- The segment. -/
def data : Phdr where
  pType := ptLoad
  pFlags := pfR ||| pfW
  pOffset := 0x100
  pVaddr := 0x1000
  pFilesz := 0x10
  pMemsz := 0x20

/-- The ramdisk: the headers, and a byte behind the segment's bytes. -/
def ramdisk : Bytes :=
  let mem := Bytes.store (fun _ => 0) (phyStart + 32) 64 8
  let mem := Bytes.store mem (phyStart + 56) 1 2
  let mem := Bytes.store mem (phyStart + 64) data.pType 4
  let mem := Bytes.store mem (phyStart + 68) data.pFlags 4
  let mem := Bytes.store mem (phyStart + 72) data.pOffset 8
  let mem := Bytes.store mem (phyStart + 80) data.pVaddr 8
  let mem := Bytes.store mem (phyStart + 96) data.pFilesz 8
  let mem := Bytes.store mem (phyStart + 104) data.pMemsz 8
  Bytes.store mem (phyStart + 0x110) 0xff 1

theorem loadable_eq : loadable (config .kallocZeroed) ramdisk = [data] := by
  decide +kernel

def booted : System :=
  result { machine := Boot.machine (config .kallocZeroed) ramdisk, task := [] }
    (boot (config .kallocZeroed) ramdisk [] [[data.args, stackArea]])

def task : Task :=
  booted.task.headD { pgd := 0, mmap := [] }

/-- The first byte of the segment was read. -/
def loaded : Machine :=
  result booted.machine
    (doPageFault (config .kallocZeroed) booted.machine task .load 0x1000)

theorem boot_eq :
    boot (config .kallocZeroed) ramdisk [] [[data.args, stackArea]] =
      .ok booted :=
  eq_ok _ (by decide +kernel)

theorem fault_eq :
    doPageFault (config .kallocZeroed) booted.machine task .load 0x1000 =
      .ok loaded :=
  eq_ok _ (by decide +kernel)

theorem blank (m : Machine) : Blank (config .kallocZeroed) m :=
  Or.inl (by decide)

theorem reachable : Reachable (config .kallocZeroed) booted := by
  refine ⟨ramdisk, [], [[data.args, stackArea]], booted, [],
    ⟨(SmallProgram.bootable .kallocZeroed).1, by simp, ?_⟩, blank _, boot_eq,
    by decide +kernel, Run.nil⟩
  intro areas isProgram args isArea
  obtain rfl := List.mem_singleton.1 isProgram
  rcases List.mem_pair.1 isArea with rfl | rfl
  · exact ⟨by decide, by decide, by decide⟩
  · exact ⟨by decide, by decide, by decide⟩

end SmallElf

open SmallProgram (config) in
/-- The first uninitialised byte of the segment reads as the byte behind it in the file. -/
theorem uninitialised_reads_file :
    loadable (config .kallocZeroed) SmallElf.ramdisk = [SmallElf.data] ∧
      Reachable (config .kallocZeroed) SmallElf.booted ∧
      SmallElf.booted.task[0]? = some SmallElf.task ∧
      doPageFault (config .kallocZeroed) SmallElf.booted.machine SmallElf.task
        .load 0x1000 = .ok SmallElf.loaded ∧
      SmallElf.loaded.oom = false ∧ SmallElf.data.Tail 0x1000 0x10 ∧
      translate SmallElf.loaded.mem SmallElf.task.pgd .user .load 0x1010 =
        some (4096 * entryPpn (leaf SmallElf.loaded.mem SmallElf.task.pgd 1) +
          0x10) ∧
      SmallElf.loaded.mem (4096 * entryPpn
        (leaf SmallElf.loaded.mem SmallElf.task.pgd 1) + 0x10) = 0xff ∧
      ¬ ZeroTail SmallElf.booted.machine SmallElf.task .load SmallElf.data
        0x1000 SmallElf.loaded := by
  have tail : SmallElf.data.Tail 0x1000 0x10 :=
    ⟨by decide, by decide, by decide⟩
  have byte : SmallElf.loaded.mem (4096 * entryPpn
      (leaf SmallElf.loaded.mem SmallElf.task.pgd 1) + 0x10) = 0xff := by
    decide +kernel
  refine ⟨SmallElf.loadable_eq, SmallElf.reachable, by decide +kernel,
    SmallElf.fault_eq, by decide +kernel, tail, by decide +kernel, byte,
    fun zeroTail => ?_⟩
  have zero := zeroTail.zero 0x10 tail
  have place : (SmallElf.data.pVaddr + 0x10) % 4096 = 0x10 := by decide
  have page : 0x1000 / 4096 = 1 := by decide
  rw [place, page, byte] at zero
  exact absurd zero (by decide)

open SmallProgram (config) in
/-- The condition fails for the segment. -/
theorem zeroTail_iff_small :
    (ZeroTail SmallElf.booted.machine SmallElf.task .load SmallElf.data 0x1000
        SmallElf.loaded ↔ ∀ o, ¬ SmallElf.data.Tail 0x1000 o) ∧
      ∀ o, SmallElf.data.Tail 0x1000 o →
        (config .kallocZeroed).Image
          ((config .kallocZeroed).sramdisk + (SmallElf.data.pOffset + o)) →
        SmallElf.loaded.mem (4096 * entryPpn (leaf SmallElf.loaded.mem
            SmallElf.task.pgd (0x1000 / 4096)) +
            (SmallElf.data.pVaddr + o) % 4096) =
          SmallElf.booted.machine.mem
            ((config .kallocZeroed).sramdisk + (SmallElf.data.pOffset + o)) :=
  zeroTail_iff rfl SmallElf.reachable (SmallElf.blank _)
    (show SmallElf.booted.task[0]? = some SmallElf.task by decide +kernel)
    (SmallElf.loadable_eq ▸ List.mem_singleton_self SmallElf.data)
    (by decide +kernel) (by decide +kernel) SmallElf.fault_eq
    (by decide +kernel)

end TinyRiscvOs.Vm
