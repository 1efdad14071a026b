import TinyRiscvOs.Vm.System
import TinyRiscvOs.Vm.WholeTree

/-!
# What a page fault puts on its page

The ramdisk with the program is a part of the kernel image, and no page of the
image is ever released.  So the pages that faults fill are not pages of the
image, and the bytes of the file arrive on them in every position of the area
against the page.  All other pages keep their entries.
-/

namespace TinyRiscvOs.Vm

open TinyRiscvOs.Lib
open TinyRiscvOs.Mm

/-! ## The kernel image -/

/-- An address on one of the pages that `mm_init` keeps. -/
def Config.Image (cfg : Config) (address : Nat) : Prop :=
  ramBase ≤ address / 4096 ∧ address / 4096 < ramBase + cfg.reserved

instance (cfg : Config) (address : Nat) : Decidable (cfg.Image address) :=
  inferInstanceAs (Decidable (_ ∧ _))

/-- The invariant of the address spaces, with the image among the kernel's pages. -/
def ImageInv (cfg : Config) (s : System) : Prop :=
  ∃ kernel, Boot.kernel cfg ⊆ kernel ∧
    Inv cfg s.task kernel (2 ^ 26 * kernel.card) s.machine

theorem ImageInv.step {cfg : Config} (source : cfg.absentNull = false)
    {s next : System} {event : SystemEvent} (inv : ImageInv cfg s)
    (taken : Guarded (SystemStep cfg) (TablesThere cfg) s event next) :
    ImageInv cfg next := by
  obtain ⟨kernel, image, inv⟩ := inv
  obtain ⟨step, blank, there⟩ := taken
  cases step with
  | pageFault taskAt returns succeeds =>
      obtain ⟨_, _, _, afterInv, _⟩ :=
        inv.doPageFault blank taskAt returns succeeds
      exact ⟨kernel, image, afterInv⟩
  | fork taskAt returns succeeds =>
      obtain ⟨kernel', grown, nextInv⟩ :=
        inv.doFork blank source taskAt (there _ taskAt) returns succeeds
      exact ⟨kernel', image.trans grown, nextInv⟩
  | run tables => exact ⟨kernel, image, inv.withMem tables⟩

theorem Reachable.image {cfg : Config} (source : cfg.absentNull = false)
    {s : System} (reachable : Reachable cfg s) : ImageInv cfg s := by
  obtain ⟨mem, maps, programs, start, events, bootable, blank, booted, succeeds,
    run⟩ := reachable
  exact run.invariant (boot_inv blank bootable booted succeeds)
    fun _ _ _ inv taken => ImageInv.step source inv taken

/-! ## Copying from the image -/

/-- The source lies in front of the target, so the copy does not read what it wrote. -/
theorem move_front {bytes : Bytes} {start origin count offset : Nat}
    (inside : offset < count) (front : origin + offset < start) :
    Bytes.move bytes start origin count (start + offset) =
      bytes (origin + offset) := by
  rw [Bytes.move, if_pos (by omega), Nat.add_sub_cancel_left, Bytes.copySource]
  split
  · rw [Nat.mod_eq_of_lt (by omega)]
  · rfl

/-- A byte of the area on the page comes from its place in the file. -/
theorem copyFromFile_byte {cfg : Config} {mem : Bytes} {vma : Vma}
    {page badAddr v : Nat} (small : badAddr < 2 ^ 38) (pageSmall : page < 2 ^ 44)
    (samePage : v / 4096 = badAddr / 4096) (contains : vma.Contains v)
    (front : cfg.sramdisk + (vma.vmPgoff + (v - vma.vmStart)) < 4096 * page) :
    copyFromFile cfg mem vma page badAddr (4096 * page + v % 4096) =
      mem (cfg.sramdisk + (vma.vmPgoff + (v - vma.vmStart))) := by
  obtain ⟨lower, upper⟩ := contains
  have round := pgRoundUp_succ small
  have down := pgRoundDown_eq badAddr
  have first : max (pgRoundDown badAddr) vma.vmStart ≤ v := by omega
  have start : 4096 * page + v % 4096 =
      4096 * page + (max (pgRoundDown badAddr) vma.vmStart -
        pgRoundDown badAddr) +
        (v - max (pgRoundDown badAddr) vma.vmStart) := by
    omega
  have origin : (cfg.sramdisk + vma.vmPgoff +
      (max (pgRoundDown badAddr) vma.vmStart - vma.vmStart)) % 2 ^ 64 +
        (v - max (pgRoundDown badAddr) vma.vmStart) =
      cfg.sramdisk + (vma.vmPgoff + (v - vma.vmStart)) := by
    rw [Nat.mod_eq_of_lt (by omega)]
    omega
  rw [copyFromFile, start, move_front (by omega) (by omega), origin]

namespace Inv

variable {cfg : Config} {task : List Task} {kernel : Finset Nat} {budget : Nat}
    {m : Machine}

/-- The pages of the image are in use. -/
theorem image_live (inv : Inv cfg task kernel budget m)
    (image : Boot.kernel cfg ⊆ kernel) {frame : Nat} (lower : ramBase ≤ frame)
    (upper : frame < ramBase + cfg.reserved) : Live m frame := by
  by_cases isRoot : frame = cfg.swapper
  · rw [isRoot]
    exact inv.tables.live _ swapper_isTable
  · exact inv.kernel_live frame
      (image (Boot.mem_kernel.2 ⟨isRoot, lower, upper⟩))

/-- A page from the allocator lies behind the image. -/
theorem image_front (inv : Inv cfg task kernel budget m)
    (image : Boot.kernel cfg ⊆ kernel) {frame address : Nat}
    (lower : ramBase ≤ frame) (isFresh : ¬ Live m frame)
    (inImage : cfg.Image address) : address < 4096 * frame := by
  have behind : ramBase + cfg.reserved ≤ frame := by
    by_contra inside
    exact isFresh (inv.image_live image lower (by omega))
  have last := inImage.2
  omega

/-- An allocation leaves the image alone. -/
theorem image_byte (inv : Inv cfg task kernel budget m)
    (image : Boot.kernel cfg ⊆ kernel) {zeroed : Bool} {address : Nat}
    (succeeds : (allocPage zeroed m).2.oom = false)
    (inImage : cfg.Image address) :
    (allocPage zeroed m).2.mem address = m.mem address := by
  obtain ⟨_, multi, _, allocated⟩ := inv.allocated succeeds
  have live := inv.image_live image inImage.1 inImage.2
  have split : address = 4096 * (address / 4096) + address % 4096 := by omega
  rw [split]
  exact allocated.sameFrame (allocated.ne_of_live live) _
    (Nat.mod_lt _ (by decide))

/-- What the file contributes to the page of a fault. -/
theorem demandFill_byte (inv : Inv cfg task kernel budget m)
    (image : Boot.kernel cfg ⊆ kernel) {vma : Vma} {badAddr v : Nat}
    (succeeds : (cfg.allocPage m).2.oom = false) (small : badAddr < 2 ^ 38)
    (fileBacked : vma.vmFlags &&& vmAnon = 0)
    (samePage : v / 4096 = badAddr / 4096) (contains : vma.Contains v)
    (inImage : cfg.Image
      (cfg.sramdisk + (vma.vmPgoff + (v - vma.vmStart)))) :
    demandFill cfg m vma badAddr (4096 * (cfg.allocPage m).1 + v % 4096) =
      m.mem (cfg.sramdisk + (vma.vmPgoff + (v - vma.vmStart))) := by
  obtain ⟨_, multi, _, allocated⟩ := inv.allocated succeeds
  have front : _ < 4096 * (cfg.allocPage m).1 :=
    inv.image_front image allocated.live.1 allocated.isFresh inImage
  have pageSmall : (cfg.allocPage m).1 < 2 ^ 44 :=
    allocated.allocator.lt_ppn allocated.live
  rw [demandFill, if_pos fileBacked,
    copyFromFile_byte small pageSmall samePage contains front]
  exact inv.image_byte image succeeds inImage

end Inv

/-! ## The tables after the fault -/

/-- Without a valid entry there is nothing to copy on write. -/
theorem cowEntry_of_not_mapped {mem : Bytes} {t : Task} {access : Access}
    {badAddr : Nat} (unmapped : ¬ Mapped mem t.pgd (badAddr / 4096)) :
    cowEntry mem t access badAddr = none := by
  cases cow : cowEntry mem t access badAddr with
  | none => rfl
  | some slot =>
      obtain ⟨table, position⟩ := slot
      obtain ⟨_, rfl, reached, valid, _⟩ := cowEntry_eq_some cow
      refine absurd ?_ unmapped
      rw [Mapped, leaf_of_walk reached]
      exact valid

/-- The branch without copy-on-write is one call of `create_mapping`. -/
theorem doPageFault_demand {cfg : Config} {m : Machine} {t : Task} {vma : Vma}
    {access : Access} {badAddr : Nat}
    (found : findVma t.mmap badAddr = some vma)
    (allowed : has access.vmFlag vma.vmFlags)
    (cow : cowEntry m.mem t access badAddr = none) :
    doPageFault cfg m t access badAddr =
      createMapping cfg
        { (cfg.allocPage m).2 with mem := Inv.demandFill cfg m vma badAddr }
        t.pgd (pgRoundDown badAddr) (4096 * (cfg.allocPage m).1) 4096
        (pagePerm vma.vmFlags) := by
  rw [doPageFault, found]
  dsimp only
  rw [if_neg allowed, cow]
  rfl

theorem createMapping_page_returns (cfg : Config) (m : Machine)
    (pgtbl va pa perm : Nat) :
    ∃ after, createMapping cfg m pgtbl va pa 4096 perm = .ok after :=
  ⟨_, if_pos (Or.inr (by decide))⟩

/-- Frames in use keep what they hold, so the entries of a tree stay. -/
theorem TreeInv.leaf_congr {cfg : Config} {pgtbl : Nat} {m : Machine}
    (inv : TreeInv cfg pgtbl m) {mem : Bytes}
    (same : ∀ frame, Live m frame → SameFrame m.mem mem frame) (page : Nat) :
    leaf mem pgtbl page = leaf m.mem pgtbl page := by
  have inside := treePath_path page
  have agree := inv.tables.agree_of_sameFrame
    fun _ key _ frame keyInside reached => same frame
      (inv.tables.reached_live (treePath_closed () key _ keyInside) reached)
  have walks : walk (findTable mem) pgtbl (path page) =
      walk (findTable m.mem) pgtbl (path page) :=
    Forest.walk_congr treePath_closed agree inside
  rw [leaf, leaf, walks]
  cases reached : walk (findTable m.mem) pgtbl (path page) with
  | none => rfl
  | some table =>
      exact (same table (inv.tables.reached_live inside reached)).word
        (index_lt 0 page)

/-- The only page that a call for one page writes. -/
theorem written_page {addr page : Nat} (small : addr < 2 ^ 38) :
    Written (pgRoundDown addr) 4096 page ↔ page = addr / 4096 := by
  have down := pgRoundDown_eq addr
  constructor
  · rintro ⟨k, inside, rfl⟩
    simp only [pageNumber]
    omega
  · rintro rfl
    refine ⟨0, by decide, ?_⟩
    simp only [pageNumber]
    omega

/-- The mapped pages of a table before and after, except for one page. -/
structure OthersKept (before after : Bytes) (pgtbl page : Nat) : Prop where
  appears : ∀ other < 2 ^ 27, other ≠ page → Mapped after pgtbl other →
    Mapped before pgtbl other
  kept : ∀ other < 2 ^ 27, other ≠ page → Mapped before pgtbl other →
    leaf after pgtbl other = leaf before pgtbl other

namespace Inv

variable {cfg : Config} {task : List Task} {kernel : Finset Nat} {budget : Nat}
    {m after : Machine} {id badAddr : Nat} {t : Task} {vma : Vma}

/-- The whole table of the task that faults. -/
theorem fault_others (inv : Inv cfg task kernel budget m)
    (blank : Blank cfg m) (taskAt : task[id]? = some t)
    (found : findVma t.mmap badAddr = some vma)
    (returns : createMapping cfg
      { (cfg.allocPage m).2 with mem := demandFill cfg m vma badAddr } t.pgd
      (pgRoundDown badAddr) (4096 * (cfg.allocPage m).1) 4096
      (pagePerm vma.vmFlags) = .ok after) (succeeds : after.oom = false) :
    OthersKept m.mem after.mem t.pgd (badAddr / 4096) := by
  have member := List.mem_iff_getElem?.2 ⟨id, taskAt⟩
  obtain ⟨isArea, area, contains, small, user⟩ := inv.fault_page member found
  have allocOk := createMapping_oom returns succeeds
  change (cfg.allocPage m).2.oom = false at allocOk
  obtain ⟨middleInv, prepared⟩ := inv.prepare allocOk
    fun other different => sameFrame_demandFill small contains different
  have tree := middleInv.treeInv taskAt
  obtain ⟨clean, _⟩ := tree.createMapping_blank
    (blank.mono prepared.keepsFree) returns succeeds
  obtain ⟨_, _, extension⟩ := tree.createMapping clean returns succeeds
  have same := (inv.treeInv taskAt).leaf_congr fun frame live =>
    prepared.same frame fun equal => prepared.isFresh (equal ▸ live)
  constructor
  · intro other otherSmall different isMapped
    have before := extension.stray other otherSmall
      (fun isWritten => different ((written_page small).1 isWritten)) isMapped
    rwa [Mapped, same] at before
  · intro other otherSmall different isMapped
    have present : Present _ t.pgd other := Mapped.present (by
      rw [Mapped, same]
      exact isMapped)
    rw [← same]
    exact extension.kept other otherSmall
      (fun isWritten => different ((written_page small).1 isWritten)) present

end Inv

theorem pagePerm_eq {vmFlags : Nat} (small : vmFlags < 16) :
    pagePerm vmFlags =
      permU ||| permA ||| permD ||| permV |||
        (vmFlags &&& (vmRead ||| vmWrite ||| vmExec)) := by
  revert vmFlags
  decide

/-- The page of a fault is mapped with the bytes of the file, and no other page is. -/
structure Filled (cfg : Config) (task : List Task) (m : Machine) (id : Nat)
    (t : Task) (vma : Vma) (badAddr frame : Nat) (after : Machine) :
    Prop where
  entry : leaf after.mem t.pgd (badAddr / 4096) =
    entry frame (permU ||| permA ||| permD ||| permV |||
      (vma.vmFlags &&& (vmRead ||| vmWrite ||| vmExec)))
  mapped : Mapped after.mem t.pgd (badAddr / 4096)
  ppn : entryPpn (leaf after.mem t.pgd (badAddr / 4096)) = frame
  /-- The other pages of the task. -/
  own : OthersKept m.mem after.mem t.pgd (badAddr / 4096)
  /-- The pages of the other tasks. -/
  others : ∀ (other : Nat) (owner : Task), task[other]? = some owner →
    other ≠ id → ∀ page < 2 ^ 27,
    leaf after.mem owner.pgd page = leaf m.mem owner.pgd page ∨
      ¬ Mapped m.mem owner.pgd page ∧ ¬ Mapped after.mem owner.pgd page
  bytes : ∀ v, v / 4096 = badAddr / 4096 → vma.Contains v →
    v - vma.vmStart < vma.vmFilesz →
    cfg.Image (cfg.sramdisk + (vma.vmPgoff + (v - vma.vmStart))) →
    after.mem (4096 * frame + v % 4096) =
      m.mem (cfg.sramdisk + (vma.vmPgoff + (v - vma.vmStart)))

namespace Inv

variable {cfg : Config} {task : List Task} {kernel : Finset Nat} {budget : Nat}
    {m after : Machine} {id badAddr : Nat} {t : Task} {vma : Vma}

/-- Tables of the kernel are tables of all tasks. -/
theorem others_upper (inv : Inv cfg task kernel budget m)
    (afterInv : Inv cfg task kernel budget after) {other : Nat} {owner : Task}
    (taskAt : task[id]? = some t) (ownerAt : task[other]? = some owner)
    {page : Nat} (user : badAddr / 4096 < 2 ^ 26)
    (own : OthersKept m.mem after.mem t.pgd (badAddr / 4096))
    (upper : 2 ^ 26 ≤ page) (small : page < 2 ^ 27) :
    leaf after.mem owner.pgd page = leaf m.mem owner.pgd page ∨
      ¬ Mapped m.mem owner.pgd page ∧ ¬ Mapped after.mem owner.pgd page := by
  have isTask := List.mem_iff_getElem?.2 ⟨id, taskAt⟩
  have isOwner := List.mem_iff_getElem?.2 ⟨other, ownerAt⟩
  have before : leaf m.mem owner.pgd page = leaf m.mem t.pgd page :=
    (inv.leaf_upper isOwner upper small).trans
      (inv.leaf_upper isTask upper small).symm
  have later : leaf after.mem owner.pgd page = leaf after.mem t.pgd page :=
    (afterInv.leaf_upper isOwner upper small).trans
      (afterInv.leaf_upper isTask upper small).symm
  have different : page ≠ badAddr / 4096 := by omega
  rw [Mapped, Mapped, before, later]
  by_cases isMapped : Mapped m.mem t.pgd page
  · exact Or.inl (own.kept page small different isMapped)
  · exact Or.inr ⟨isMapped, fun appeared =>
      isMapped (own.appears page small different appeared)⟩

/-- The frame of a page that had no entry is the one that was allocated. -/
theorem fault_demand (inv : Inv cfg task kernel budget m)
    (blank : Blank cfg m) {access : Access} (taskAt : task[id]? = some t)
    (found : findVma t.mmap badAddr = some vma)
    (unmapped : ¬ Mapped m.mem t.pgd (badAddr / 4096))
    (returns : Vm.doPageFault cfg m t access badAddr = .ok after)
    (succeeds : after.oom = false) :
    Faulted cfg task m (id, badAddr / 4096) (cfg.allocPage m).1
        (pagePerm vma.vmFlags) none (demandFill cfg m vma badAddr) after ∧
      leaf after.mem t.pgd (badAddr / 4096) =
        entry (cfg.allocPage m).1 (pagePerm vma.vmFlags) ∧
      Mapped after.mem t.pgd (badAddr / 4096) ∧
      entryPpn (leaf after.mem t.pgd (badAddr / 4096)) =
        (cfg.allocPage m).1 := by
  have member := List.mem_iff_getElem?.2 ⟨id, taskAt⟩
  obtain ⟨_, area, _, _, user⟩ := inv.fault_page member found
  obtain ⟨vma', found', _, afterInv, faulted⟩ :=
    inv.doPageFault blank taskAt returns succeeds
  obtain rfl : vma' = vma := Option.some_inj.1 (found'.symm.trans found)
  rw [cowEntry_of_not_mapped unmapped] at faulted
  have entryHere : leaf after.mem t.pgd (badAddr / 4096) =
      entry (cfg.allocPage m).1 (pagePerm vma'.vmFlags) := by
    rw [← pte_task taskAt user, faulted.pte, if_pos rfl]
  have frameSmall : (cfg.allocPage m).1 < 2 ^ 44 := by
    rcases afterInv.allocator with ⟨_, allocator, _⟩
    have counted := faulted.counted
    rw [count] at counted
    exact allocator.lt_ppn ⟨faulted.lower, by omega⟩
  obtain ⟨valid, ppn, _⟩ := entry_holds frameSmall (pagePerm_lt area.flags)
    (UserPerm.flags (Or.inl rfl) area.flags).1
  refine ⟨faulted, entryHere, ?_, by rw [entryHere, ppn]⟩
  rw [Mapped, entryHere]
  exact valid

/-- The bytes of the area on the page are those of the file in their places. -/
theorem fault_byte (inv : Inv cfg task kernel budget m)
    (image : Boot.kernel cfg ⊆ kernel) (blank : Blank cfg m) {access : Access}
    (taskAt : task[id]? = some t) (found : findVma t.mmap badAddr = some vma)
    (fileBacked : vma.vmFlags &&& vmAnon = 0)
    (unmapped : ¬ Mapped m.mem t.pgd (badAddr / 4096))
    (returns : Vm.doPageFault cfg m t access badAddr = .ok after)
    (succeeds : after.oom = false) {v : Nat}
    (samePage : v / 4096 = badAddr / 4096) (contains : vma.Contains v)
    (inImage : cfg.Image
      (cfg.sramdisk + (vma.vmPgoff + (v - vma.vmStart)))) :
    after.mem (4096 * entryPpn (leaf after.mem t.pgd (badAddr / 4096)) +
        v % 4096) =
      m.mem (cfg.sramdisk + (vma.vmPgoff + (v - vma.vmStart))) := by
  have member := List.mem_iff_getElem?.2 ⟨id, taskAt⟩
  obtain ⟨_, _, _, small, _⟩ := inv.fault_page member found
  obtain ⟨faulted, _, _, ppn⟩ :=
    inv.fault_demand blank taskAt found unmapped returns succeeds
  obtain ⟨vma', found', allowed, _⟩ :=
    inv.doPageFault blank taskAt returns succeeds
  obtain rfl : vma' = vma := Option.some_inj.1 (found'.symm.trans found)
  rw [doPageFault_demand found allowed (cowEntry_of_not_mapped unmapped)]
    at returns
  have allocOk := createMapping_oom returns succeeds
  change (cfg.allocPage m).2.oom = false at allocOk
  rw [ppn, faulted.filled _ (Nat.mod_lt _ (by decide))]
  exact inv.demandFill_byte image allocOk small fileBacked samePage contains
    inImage

/-- A fault on a page without an entry returns, and unless memory ran out it fills the page. -/
theorem fault_fills (inv : Inv cfg task kernel budget m)
    (image : Boot.kernel cfg ⊆ kernel) (blank : Blank cfg m) {access : Access}
    (taskAt : task[id]? = some t) (found : findVma t.mmap badAddr = some vma)
    (fileBacked : vma.vmFlags &&& vmAnon = 0)
    (allowed : has access.vmFlag vma.vmFlags)
    (unmapped : ¬ Mapped m.mem t.pgd (badAddr / 4096)) :
    ∃ after, Vm.doPageFault cfg m t access badAddr = .ok after ∧
      (after.oom = false → ∃ frame,
        Filled cfg task m id t vma badAddr frame after) := by
  have member := List.mem_iff_getElem?.2 ⟨id, taskAt⟩
  obtain ⟨isArea, area, contains, small, user⟩ := inv.fault_page member found
  have cow := @cowEntry_of_not_mapped m.mem t access badAddr unmapped
  have demand := @doPageFault_demand cfg m t vma access badAddr found allowed cow
  obtain ⟨after, mapped⟩ := createMapping_page_returns cfg
    { (cfg.allocPage m).2 with mem := demandFill cfg m vma badAddr } t.pgd
    (pgRoundDown badAddr) (4096 * (cfg.allocPage m).1) (pagePerm vma.vmFlags)
  have returns := demand.trans mapped
  refine ⟨after, returns, fun succeeds => ⟨(cfg.allocPage m).1, ?_⟩⟩
  have own := inv.fault_others blank taskAt found mapped succeeds
  obtain ⟨_, _, _, afterInv, _⟩ := inv.doPageFault blank taskAt returns succeeds
  obtain ⟨faulted, entryHere, isMapped, ppn⟩ :=
    inv.fault_demand blank taskAt found unmapped returns succeeds
  exact
    { entry := by rw [entryHere, pagePerm_eq area.flags]
      mapped := isMapped
      ppn
      own
      others := fun other owner ownerAt different page pageSmall => by
        by_cases upper : 2 ^ 26 ≤ page
        · exact inv.others_upper afterInv taskAt ownerAt user own upper
            pageSmall
        · have below : page < 2 ^ 26 := by omega
          refine Or.inl ?_
          rw [← pte_task ownerAt below, ← pte_task ownerAt below, faulted.pte,
            if_neg fun same => different (congrArg Prod.fst same)]
      bytes := fun v samePage isInside _ inImage => by
        have byte := inv.fault_byte image blank taskAt found fileBacked unmapped
          returns succeeds samePage isInside inImage
        rwa [ppn] at byte }

end Inv

/--
In every state that faults and forks lead to, an allowed access to an address
of a file-backed area whose page has no valid entry maps that page and no
other, with the permissions of the area, and every byte of the file that
belongs on the page is there, unless an allocation fails.
-/
theorem doPageFault_fills {cfg : Config} (source : cfg.absentNull = false)
    {s : System} (reachable : Reachable cfg s) (blank : Blank cfg s.machine)
    {id badAddr : Nat} {t : Task} {vma : Vma} {access : Access}
    (taskAt : s.task[id]? = some t)
    (found : findVma t.mmap badAddr = some vma)
    (fileBacked : vma.vmFlags &&& vmAnon = 0)
    (allowed : has access.vmFlag vma.vmFlags)
    (unmapped : ¬ Mapped s.machine.mem t.pgd (badAddr / 4096)) :
    ∃ after, doPageFault cfg s.machine t access badAddr = .ok after ∧
      (after.oom = false → ∃ frame,
        Filled cfg s.task s.machine id t vma badAddr frame after) := by
  obtain ⟨kernel, image, inv⟩ := reachable.image source
  exact inv.fault_fills image blank taskAt found fileBacked allowed unmapped

/-- A page is left for the first fetch. -/
theorem SmallProgram.enough : (doPageFault (SmallProgram.config .kallocZeroed)
    (SmallProgram.booted .kallocZeroed).machine
    (SmallProgram.task .kallocZeroed) .fetch 0x1000).map Machine.oom =
      .ok false := by
  decide +kernel

open SmallProgram in
/-- The first fetch of the program. -/
theorem doPageFault_fills_code :
    ∃ after frame, doPageFault (config .kallocZeroed)
        (booted .kallocZeroed).machine (task .kallocZeroed) .fetch 0x1000 =
          .ok after ∧
      Filled (config .kallocZeroed) (booted .kallocZeroed).task
        (booted .kallocZeroed).machine 0 (task .kallocZeroed) code.vma 0x1000
        frame after := by
  have blank (m : Machine) : Blank (config .kallocZeroed) m :=
    Or.inl (by decide)
  have reachable : Reachable (config .kallocZeroed) (booted .kallocZeroed) :=
    ⟨fun _ => 0, [], [[code, stackArea]], booted .kallocZeroed, [],
      bootable _, blank _, boot_eq _, by decide +kernel, Run.nil⟩
  obtain ⟨after, returns, fills⟩ := doPageFault_fills rfl reachable (blank _)
    (booted_task _) (show findVma _ 0x1000 = some code.vma by decide +kernel)
    (by decide) (show has Access.fetch.vmFlag _ by decide) (by decide +kernel)
  have succeeds := enough
  rw [returns] at succeeds
  obtain ⟨frame, filled⟩ := fills (Except.ok.inj succeeds)
  exact ⟨after, frame, returns, filled⟩

end TinyRiscvOs.Vm
