import TinyRiscvOs.Vm.Boot
import TinyRiscvOs.Vm.WholeTree

/-!
# The direct map of the kernel

`setup_vm_final` maps the sections of the kernel image and the memory behind it
one after the other, each from its start in whole pages.  The linker script
puts the start of each section on the page behind the last one, so the calls
tile the memory.  Only the last page of `.bss` is written twice, with the same
entry.
-/

namespace TinyRiscvOs.Vm

open TinyRiscvOs.Lib
open TinyRiscvOs.Mm

/-! ## `setup_vm_final` -/

/-- `ALIGN(0x1000)` of the linker script. -/
def alignPage (addr : Nat) : Nat :=
  (addr + 4095) / 4096 * 4096

/-- The symbols of the linker script. -/
structure Sections where
  stext : Nat
  etext : Nat
  srodata : Nat
  erodata : Nat
  sdata : Nat
  edata : Nat
  sramdisk : Nat
  eramdisk : Nat
  sbss : Nat
  ebss : Nat
  ekernel : Nat
deriving DecidableEq, Repr

/-- `PHY_SIZE`. -/
def Config.phySize (cfg : Config) : Nat :=
  4096 * 2 ^ cfg.top

/-- `VIRTIO_START`. -/
abbrev virtioStart : Nat := 0x10001000

/-- `VIRTIO_SIZE * VIRTIO_COUNT`. -/
abbrev virtioLength : Nat := 0x1000 * 8

/-- `io_to_virt`. -/
def ioToVirt (pa : Nat) : Nat :=
  (pa + 0xffffffc800000000) % 2 ^ 64

/-- A range of the direct map, between two symbols. -/
def directRange (start stop perm : Nat) : KernelMap where
  va := start
  pa := wordSub start pa2vaOffset
  sz := wordSub stop start
  perm

/-- The arguments of the calls of `create_mapping`. -/
def Sections.kernelMaps (cfg : Config) (sections : Sections) : List KernelMap :=
  [directRange sections.stext sections.etext (permA ||| permX ||| permR ||| permV),
    directRange sections.srodata sections.erodata (permA ||| permR ||| permV),
    directRange sections.sdata sections.edata
      (permA ||| permW ||| permR ||| permV),
    directRange sections.sbss sections.ebss
      (permA ||| permD ||| permW ||| permR ||| permV),
    { va := sections.ekernel
      pa := wordSub sections.ekernel pa2vaOffset
      sz := wordSub cfg.phySize
        (wordSub (wordSub sections.ekernel pa2vaOffset) phyStart)
      perm := permA ||| permD ||| permW ||| permR ||| permV },
    directRange sections.sramdisk sections.eramdisk
      (permA ||| permR ||| permW ||| permX ||| permV),
    { va := ioToVirt virtioStart
      pa := virtioStart
      sz := virtioLength
      perm := permA ||| permR ||| permW ||| permV }]

/-- `setup_vm_final`, up to the write of `satp`. -/
def setupVmFinal (cfg : Config) (sections : Sections) (m : Machine) :
    Except Stop Machine :=
  mapKernel cfg (sections.kernelMaps cfg)
    { m with mem := Bytes.fill m.mem (4096 * cfg.swapper) 0 4096 }

/-- An address lies in the window of the devices. -/
def InWindow (addr : Nat) : Prop :=
  ioToVirt virtioStart ≤ addr ∧ addr < ioToVirt virtioStart + virtioLength

/-- In the boot it follows `mm_init`. -/
theorem setupVmFinal_boot (cfg : Config) (sections : Sections) (mem : Bytes) :
    setupVmFinal cfg sections
        { buddy := Buddy.reserve cfg.reserved (Buddy.fresh (2 ^ cfg.top))
          mem
          oom := false } =
      mapKernel cfg (sections.kernelMaps cfg) (Boot.machine cfg mem) :=
  rfl

/-! ## The linker script -/

/-- The end of the memory in the direct map. -/
def Config.directEnd (cfg : Config) : Nat :=
  vmStart + cfg.phySize

/--
Section addresses as the linker script assigns them: each section starts on the
page behind the last one, and the image fits the memory.
-/
structure Sections.Linked (cfg : Config) (sections : Sections) : Prop where
  first : vmStart ≤ sections.stext
  aligned : sections.stext % 4096 = 0
  text : sections.stext ≤ sections.etext
  srodata : sections.srodata = alignPage sections.etext
  rodata : sections.srodata ≤ sections.erodata
  sdata : sections.sdata = alignPage sections.erodata
  data : sections.sdata ≤ sections.edata
  sramdisk : sections.sramdisk = alignPage sections.edata
  ramdisk : sections.sramdisk ≤ sections.eramdisk
  sbss : sections.sbss = alignPage sections.eramdisk
  bss : sections.sbss ≤ sections.ebss
  /-- The kernel ends behind `.bss`, anywhere on its last page. -/
  ekernel : sections.ebss ≤ sections.ekernel ∧
    sections.ekernel ≤ alignPage sections.ebss
  fits : sections.ekernel ≤ cfg.directEnd

theorem alignPage_spec (addr : Nat) :
    alignPage addr % 4096 = 0 ∧ addr ≤ alignPage addr ∧
      alignPage addr < addr + 4096 := by
  rw [alignPage]
  omega

namespace Sections.Linked

variable {cfg : Config} {sections : Sections}

/-- The start of each section is on the page behind the last one. -/
theorem starts (linked : sections.Linked cfg) :
    (sections.srodata % 4096 = 0 ∧ sections.etext ≤ sections.srodata ∧
        sections.srodata < sections.etext + 4096) ∧
      (sections.sdata % 4096 = 0 ∧ sections.erodata ≤ sections.sdata ∧
        sections.sdata < sections.erodata + 4096) ∧
      (sections.sramdisk % 4096 = 0 ∧ sections.edata ≤ sections.sramdisk ∧
        sections.sramdisk < sections.edata + 4096) ∧
      (sections.sbss % 4096 = 0 ∧ sections.eramdisk ≤ sections.sbss ∧
        sections.sbss < sections.eramdisk + 4096) := by
  rw [linked.srodata, linked.sdata, linked.sramdisk, linked.sbss]
  exact ⟨alignPage_spec _, alignPage_spec _, alignPage_spec _,
    alignPage_spec _⟩

/-- The symbols are in order, and the free memory starts on the last page of `.bss`. -/
theorem order (linked : sections.Linked cfg) :
    vmStart ≤ sections.stext ∧ sections.stext ≤ sections.srodata ∧
      sections.srodata ≤ sections.sdata ∧
      sections.sdata ≤ sections.sramdisk ∧
      sections.sramdisk ≤ sections.sbss ∧ sections.sbss ≤ sections.ekernel ∧
      sections.ekernel / 4096 ≤ (sections.ebss + 4095) / 4096 := by
  obtain ⟨first, second, third, fourth⟩ := linked.starts
  have text := linked.text
  have rodata := linked.rodata
  have data := linked.data
  have ramdisk := linked.ramdisk
  have bss := linked.bss
  obtain ⟨behind, last⟩ := linked.ekernel
  rw [alignPage] at last
  exact ⟨linked.first, by omega, by omega, by omega, by omega, by omega,
    by omega⟩

end Sections.Linked

/-! ## The entries that a sequence of calls leaves -/

section Calls

variable {cfg : Config} {m after : Machine} {ranges : List KernelMap}

/-- The calls all return. -/
theorem mapKernel_returns (cfg : Config) {ranges : List KernelMap}
    (small : ∀ range ∈ ranges, range.sz ≤ 2 ^ 39) (m : Machine) :
    ∃ after, mapKernel cfg ranges m = .ok after := by
  induction ranges generalizing m with
  | nil => exact ⟨m, rfl⟩
  | cons range rest induction =>
      have fits : range.sz ≤ 2 ^ 64 - 4096 :=
        (small range List.mem_cons_self).trans (by decide)
      have mapped : createMapping cfg m cfg.swapper range.va range.pa range.sz
          range.perm = .ok _ := if_pos (Or.inr fits)
      rw [mapKernel, mapped]
      exact induction
        (fun other member => small other (List.mem_cons_of_mem _ member)) _

/-- Some call writes the page. -/
def WrittenBy (ranges : List KernelMap) (page : Nat) : Prop :=
  ∃ range ∈ ranges, Written range.va range.sz page

/-- What the calls leave in the table. -/
theorem mapKernel_extends (inv : TreeInv cfg cfg.swapper m)
    (blank : Blank cfg m) (returns : mapKernel cfg ranges m = .ok after)
    (succeeds : after.oom = false) :
    TreeInv cfg cfg.swapper after ∧
      ∀ page < 2 ^ 27, Mapped after.mem cfg.swapper page →
        Mapped m.mem cfg.swapper page ∨ WrittenBy ranges page := by
  induction ranges generalizing m with
  | nil =>
      cases returns
      exact ⟨inv, fun _ _ isMapped => Or.inl isMapped⟩
  | cons range rest induction =>
      rw [mapKernel] at returns
      cases mapped : createMapping cfg m cfg.swapper range.va range.pa range.sz
          range.perm with
      | error stop =>
          rw [mapped] at returns
          cases returns
      | ok next =>
          rw [mapped] at returns
          have fine := Boot.mapKernel_oom returns succeeds
          obtain ⟨clean, nextBlank⟩ := inv.createMapping_blank blank mapped fine
          obtain ⟨nextInv, _, extension⟩ := inv.createMapping clean mapped fine
          obtain ⟨lastInv, stray⟩ := induction nextInv nextBlank returns
          refine ⟨lastInv, fun page small isMapped => ?_⟩
          rcases stray page small isMapped with before | ⟨other, member, written⟩
          · by_cases here : Written range.va range.sz page
            · exact Or.inr ⟨range, List.mem_cons_self, here⟩
            · exact Or.inl (extension.stray page small here before)
          · exact Or.inr ⟨other, List.mem_cons_of_mem _ member, written⟩

/--
All calls that write a page agree on its entry.  Once the page has it, or if
some call is to come, the page has it in the end.
-/
theorem mapKernel_leaf (inv : TreeInv cfg cfg.swapper m) (blank : Blank cfg m)
    {page value : Nat} (pageSmall : page < 2 ^ 27)
    (small : ∀ range ∈ ranges, range.sz ≤ 2 ^ 39 ∧ range.perm < 2 ^ 64)
    (agree : ∀ range ∈ ranges, ∀ k, k * 4096 < range.sz →
      page = pageNumber (range.va + k * 4096) →
      mappedEntry range.pa range.perm k = value)
    (present : (Present m.mem cfg.swapper page ∧
      leaf m.mem cfg.swapper page = value) ∨ WrittenBy ranges page)
    (returns : mapKernel cfg ranges m = .ok after)
    (succeeds : after.oom = false) :
    leaf after.mem cfg.swapper page = value := by
  induction ranges generalizing m with
  | nil =>
      cases returns
      rcases present with ⟨_, here⟩ | ⟨_, none, _⟩
      · exact here
      · cases none
  | cons range rest induction =>
      rw [mapKernel] at returns
      cases mapped : createMapping cfg m cfg.swapper range.va range.pa range.sz
          range.perm with
      | error stop =>
          rw [mapped] at returns
          cases returns
      | ok next =>
          rw [mapped] at returns
          have fine := Boot.mapKernel_oom returns succeeds
          obtain ⟨clean, nextBlank⟩ := inv.createMapping_blank blank mapped fine
          obtain ⟨nextInv, visited, extension⟩ :=
            inv.createMapping clean mapped fine
          obtain ⟨sizeSmall, permSmall⟩ := small range List.mem_cons_self
          refine induction nextInv nextBlank
            (fun other member => small other (List.mem_cons_of_mem _ member))
            (fun other member => agree other (List.mem_cons_of_mem _ member))
            ?_ returns
          by_cases here : Written range.va range.sz page
          · obtain ⟨k, inside, same⟩ := here
            obtain ⟨isPresent, isEntry⟩ := visited k inside
              fun j within above => visited_once sizeSmall within inside above
            rw [← same] at isPresent isEntry
            refine Or.inl ⟨isPresent, (isEntry permSmall).trans ?_⟩
            exact agree range List.mem_cons_self k inside same
          · rcases present with ⟨isPresent, isEntry⟩ | ⟨other, member, written⟩
            · exact Or.inl ⟨extension.present isPresent,
                (extension.kept page pageSmall here isPresent).trans isEntry⟩
            · rcases List.mem_cons.1 member with rfl | later
              · exact absurd written here
              · exact Or.inr ⟨other, later, written⟩

end Calls

/-! ## Ranges of the upper half -/

/-- Page numbers of the upper half are told apart. -/
theorem pageNumber_upper {addr other : Nat} (addrLower : 2 ^ 64 - 2 ^ 38 ≤ addr)
    (addrUpper : addr < 2 ^ 64) (otherLower : 2 ^ 64 - 2 ^ 38 ≤ other)
    (otherUpper : other < 2 ^ 64) :
    pageNumber addr = pageNumber other ↔ addr / 4096 = other / 4096 := by
  simp only [pageNumber]
  omega

/-- A call writes the pages from that of its start on, as many as its size has. -/
theorem written_upper {va sz addr : Nat} (lower : 2 ^ 64 - 2 ^ 38 ≤ va)
    (upper : va + sz ≤ 2 ^ 64) (addrLower : 2 ^ 64 - 2 ^ 38 ≤ addr)
    (addrUpper : addr < 2 ^ 64) {k : Nat} (inside : k * 4096 < sz) :
    pageNumber addr = pageNumber (va + k * 4096) ↔
      addr / 4096 = va / 4096 + k := by
  rw [pageNumber_upper addrLower addrUpper (by omega) (by omega)]
  omega

/-- The entry of a page of the direct map. -/
def directEntry (addr perm : Nat) : Nat :=
  entry ((addr - pa2vaOffset) / 4096) perm

/-- What a call for a range of the direct map writes. -/
theorem directRange_visit {start stop perm addr k : Nat}
    (lower : vmStart ≤ start) (ordered : start ≤ stop) (upper : stop ≤ 2 ^ 64)
    (addrLower : vmStart ≤ addr) (addrUpper : addr < 2 ^ 64)
    (inside : k * 4096 < (directRange start stop perm).sz)
    (same : pageNumber addr =
      pageNumber ((directRange start stop perm).va + k * 4096)) :
    k * 4096 < stop - start ∧ addr / 4096 = start / 4096 + k ∧
      mappedEntry (directRange start stop perm).pa perm k =
        directEntry addr perm := by
  simp only [vmStart] at lower addrLower
  simp only [directRange, wordSub_of_le ordered] at inside same
  have page := (written_upper (by omega) (by omega) (by omega) addrUpper
    inside).1 same
  have physical : wordSub start pa2vaOffset = start - pa2vaOffset :=
    wordSub_of_le (by simp only [pa2vaOffset, vmStart, phyStart]; omega)
  refine ⟨inside, page, ?_⟩
  have mask : ppnMask = 2 ^ 44 - 1 := by decide
  simp only [mappedEntry, directEntry, directRange, physical]
  rw [mask, Nat.and_two_pow_sub_one_eq_mod, Nat.shiftRight_eq_div_pow]
  congr 1
  simp only [pa2vaOffset, vmStart, phyStart]
  omega

namespace Sections

variable {cfg : Config} {sections : Sections}

/-- The memory ends within the address space. -/
theorem phySize_le (small : cfg.top ≤ 25) : cfg.phySize ≤ 2 ^ 37 := by
  have pages : 2 ^ cfg.top ≤ 2 ^ 25 := Nat.pow_le_pow_right (by decide) small
  rw [Config.phySize]
  omega

/-- All calls but the last one are for ranges of the direct map. -/
theorem kernelMaps_eq (linked : sections.Linked cfg) (small : cfg.top ≤ 25) :
    sections.kernelMaps cfg =
      [directRange sections.stext sections.etext
          (permA ||| permX ||| permR ||| permV),
        directRange sections.srodata sections.erodata
          (permA ||| permR ||| permV),
        directRange sections.sdata sections.edata
          (permA ||| permW ||| permR ||| permV),
        directRange sections.sbss sections.ebss
          (permA ||| permD ||| permW ||| permR ||| permV),
        directRange sections.ekernel cfg.directEnd
          (permA ||| permD ||| permW ||| permR ||| permV),
        directRange sections.sramdisk sections.eramdisk
          (permA ||| permR ||| permW ||| permX ||| permV),
        { va := ioToVirt virtioStart
          pa := virtioStart
          sz := virtioLength
          perm := permA ||| permR ||| permW ||| permV }] := by
  have memory := phySize_le small
  have base : vmStart = 2 ^ 64 - 2 ^ 37 := by decide
  have offset : pa2vaOffset + 2 ^ 31 = vmStart := by decide
  have ram : phyStart = 2 ^ 31 := by decide
  obtain ⟨first, second, third, fourth, fifth, sixth, _⟩ := linked.order
  have fits := linked.fits
  simp only [Config.directEnd] at fits
  have physical : wordSub (wordSub sections.ekernel pa2vaOffset) phyStart =
      sections.ekernel - vmStart := by
    have inner : wordSub sections.ekernel pa2vaOffset =
        sections.ekernel - pa2vaOffset := wordSub_of_le (by omega)
    rw [inner, wordSub_of_le (by omega)]
    omega
  have size : wordSub cfg.phySize
      (wordSub (wordSub sections.ekernel pa2vaOffset) phyStart) =
      wordSub cfg.directEnd sections.ekernel := by
    rw [physical, wordSub_of_le (by omega), Config.directEnd,
      wordSub_of_le fits]
    omega
  rw [kernelMaps, size]
  rfl

/-- The permissions of the section an address lies in. -/
def perm (sections : Sections) (addr : Nat) : Nat :=
  if addr < sections.srodata then permA ||| permX ||| permR ||| permV
  else if addr < sections.sdata then permA ||| permR ||| permV
  else if addr < sections.sramdisk then permA ||| permW ||| permR ||| permV
  else if addr < sections.sbss then
    permA ||| permR ||| permW ||| permX ||| permV
  else permA ||| permD ||| permW ||| permR ||| permV

/-- All calls that write a page of the direct map agree on its entry. -/
theorem kernelMaps_agree (linked : sections.Linked cfg) (small : cfg.top ≤ 25)
    {addr : Nat} (lower : sections.stext ≤ addr) (upper : addr < cfg.directEnd)
    {range : KernelMap} (member : range ∈ sections.kernelMaps cfg) {k : Nat}
    (inside : k * 4096 < range.sz)
    (same : pageNumber addr = pageNumber (range.va + k * 4096)) :
    mappedEntry range.pa range.perm k =
      directEntry addr (sections.perm addr) := by
  have memory := phySize_le small
  have base : vmStart = 2 ^ 64 - 2 ^ 37 := by decide
  obtain ⟨first, second, third, fourth, fifth, sixth, last⟩ := linked.order
  obtain ⟨rodata, data, ramdisk, bss⟩ := linked.starts
  have aligned := linked.aligned
  have text := linked.text
  have rodataEnd := linked.rodata
  have dataEnd := linked.data
  have ramdiskEnd := linked.ramdisk
  have bssEnd := linked.bss
  have behind := linked.ekernel.1
  have fits := linked.fits
  have whole : cfg.directEnd ≤ 2 ^ 64 := by
    rw [Config.directEnd]
    omega
  simp only [Config.directEnd] at upper
  have visit {start stop flags : Nat} := @directRange_visit start stop flags
    addr k
  rw [kernelMaps_eq linked small] at member
  simp only [List.mem_cons, List.not_mem_nil, or_false] at member
  rcases member with rfl | rfl | rfl | rfl | rfl | rfl | rfl
  · obtain ⟨within, page, written⟩ := visit (by omega) (by omega) (by omega)
      (by omega) (by omega) inside same
    refine written.trans ?_
    rw [perm, if_pos (by omega)]
  · obtain ⟨within, page, written⟩ := visit (by omega) (by omega) (by omega)
      (by omega) (by omega) inside same
    refine written.trans ?_
    rw [perm, if_neg (by omega), if_pos (by omega)]
  · obtain ⟨within, page, written⟩ := visit (by omega) (by omega) (by omega)
      (by omega) (by omega) inside same
    refine written.trans ?_
    rw [perm, if_neg (by omega), if_neg (by omega), if_pos (by omega)]
  · obtain ⟨within, page, written⟩ := visit (by omega) (by omega) (by omega)
      (by omega) (by omega) inside same
    refine written.trans ?_
    rw [perm, if_neg (by omega), if_neg (by omega), if_neg (by omega),
      if_neg (by omega)]
  · obtain ⟨within, page, written⟩ := visit (by omega) fits
      whole (by omega) (by omega) inside same
    refine written.trans ?_
    rw [perm, if_neg (by omega), if_neg (by omega), if_neg (by omega),
      if_neg (by omega)]
  · obtain ⟨within, page, written⟩ := visit (by omega) (by omega) (by omega)
      (by omega) (by omega) inside same
    refine written.trans ?_
    rw [perm, if_neg (by omega), if_neg (by omega), if_neg (by omega),
      if_pos (by omega)]
  · -- The window of the devices lies below the direct map.
    simp only [ioToVirt, virtioStart, virtioLength] at inside same
    have page := (written_upper (by omega) (by omega) (by omega) (by omega)
      inside).1 same
    omega

/-- A range of the direct map writes the pages from its start to its end. -/
theorem written_directRange {start stop flags addr : Nat}
    (lower : vmStart ≤ start) (upper : stop ≤ 2 ^ 64)
    (ordered : start ≤ stop) (after : start / 4096 ≤ addr / 4096)
    (before : addr / 4096 < (stop + 4095) / 4096) (small : addr < 2 ^ 64)
    (aligned : start % 4096 = 0 ∨ stop % 4096 = 0) :
    Written (directRange start stop flags).va (directRange start stop flags).sz
      (pageNumber addr) := by
  have base : vmStart = 2 ^ 64 - 2 ^ 37 := by decide
  have inside : (addr / 4096 - start / 4096) * 4096 < stop - start := by omega
  have size : (directRange start stop flags).sz = stop - start :=
    wordSub_of_le ordered
  have page := (written_upper (by omega) (by omega) (by omega) small inside).2
    (show addr / 4096 = start / 4096 + (addr / 4096 - start / 4096) by omega)
  exact ⟨addr / 4096 - start / 4096, size ▸ inside, page⟩

/-- Every page of the direct map is written. -/
theorem kernelMaps_written (linked : sections.Linked cfg)
    (small : cfg.top ≤ 25) {addr : Nat} (lower : sections.stext ≤ addr)
    (upper : addr < cfg.directEnd) :
    WrittenBy (sections.kernelMaps cfg) (pageNumber addr) := by
  have memory := phySize_le small
  have base : vmStart = 2 ^ 64 - 2 ^ 37 := by decide
  obtain ⟨first, second, third, fourth, fifth, sixth, last⟩ := linked.order
  obtain ⟨rodata, data, ramdisk, bss⟩ := linked.starts
  have aligned := linked.aligned
  have behind := linked.ekernel.1
  have fits := linked.fits
  have whole : cfg.directEnd ≤ 2 ^ 64 := by
    rw [Config.directEnd]
    omega
  have pages : cfg.directEnd % 4096 = 0 := by
    rw [Config.directEnd, Config.phySize, base]
    omega
  have writes {start stop flags : Nat} := @written_directRange start stop flags
    addr
  rw [kernelMaps_eq linked small]
  by_cases inText : addr < sections.srodata
  · exact ⟨_, List.mem_cons_self, writes (by omega) (by omega) linked.text
      (by omega) (by omega) (by omega) (Or.inl aligned)⟩
  by_cases inRodata : addr < sections.sdata
  · exact ⟨_, by simp, @writes sections.srodata sections.erodata
      (permA ||| permR ||| permV) (by omega) (by omega) linked.rodata
      (by omega) (by omega) (by omega) (Or.inl rodata.1)⟩
  by_cases inData : addr < sections.sramdisk
  · exact ⟨_, by simp, @writes sections.sdata sections.edata
      (permA ||| permW ||| permR ||| permV) (by omega) (by omega) linked.data
      (by omega) (by omega) (by omega) (Or.inl data.1)⟩
  by_cases inRamdisk : addr < sections.sbss
  · exact ⟨_, by simp, @writes sections.sramdisk sections.eramdisk
      (permA ||| permR ||| permW ||| permX ||| permV) (by omega) (by omega)
      linked.ramdisk (by omega) (by omega) (by omega) (Or.inl ramdisk.1)⟩
  by_cases inBss : addr / 4096 < (sections.ebss + 4095) / 4096
  · exact ⟨_, by simp, @writes sections.sbss sections.ebss
      (permA ||| permD ||| permW ||| permR ||| permV) (by omega) (by omega)
      linked.bss (by omega) inBss (by omega) (Or.inl bss.1)⟩
  · exact ⟨_, by simp, @writes sections.ekernel cfg.directEnd
      (permA ||| permD ||| permW ||| permR ||| permV) (by omega) whole fits
      (by omega) (by omega) (by omega) (Or.inr pages)⟩

/-- A range between two symbols lies in the upper half. -/
theorem directRange_upper {start stop flags : Nat} (lower : vmStart ≤ start)
    (ordered : start ≤ stop) (upper : stop ≤ 2 ^ 64) (low : flags < 2 ^ 8) :
    (directRange start stop flags).Upper := by
  have base : vmStart = 2 ^ 64 - 2 ^ 37 := by decide
  have size : (directRange start stop flags).sz = stop - start :=
    wordSub_of_le ordered
  have first : (directRange start stop flags).va = start := rfl
  exact ⟨by omega, by omega, low⟩

/-- The calls are as the boot expects them. -/
theorem kernelMaps_upper (linked : sections.Linked cfg) (small : cfg.top ≤ 25)
    {range : KernelMap} (member : range ∈ sections.kernelMaps cfg) :
    range.Upper := by
  have memory := phySize_le small
  have base : vmStart = 2 ^ 64 - 2 ^ 37 := by decide
  obtain ⟨first, second, third, fourth, fifth, sixth, last⟩ := linked.order
  obtain ⟨rodata, data, ramdisk, bss⟩ := linked.starts
  have behind := linked.ekernel.1
  have fits := linked.fits
  have whole : cfg.directEnd ≤ 2 ^ 64 := by
    rw [Config.directEnd]
    omega
  rw [kernelMaps_eq linked small] at member
  simp only [List.mem_cons, List.not_mem_nil, or_false] at member
  rcases member with rfl | rfl | rfl | rfl | rfl | rfl | rfl
  · exact directRange_upper (by omega) linked.text (by omega) (by decide)
  · exact directRange_upper (by omega) linked.rodata (by omega) (by decide)
  · exact directRange_upper (by omega) linked.data (by omega) (by decide)
  · exact directRange_upper (by omega) linked.bss (by omega) (by decide)
  · exact directRange_upper (by omega) fits whole (by decide)
  · exact directRange_upper (by omega) linked.ramdisk (by omega) (by decide)
  · exact ⟨by decide, by decide, by decide⟩

/-- An address on a page that a range writes. -/
theorem written_bounds {range : KernelMap} (isUpper : range.Upper) {addr : Nat}
    (canonical : Canonical addr) (small : addr < 2 ^ 64)
    (written : Written range.va range.sz (pageNumber addr)) :
    range.va / 4096 ≤ addr / 4096 ∧
      addr / 4096 < (range.va + range.sz + 4095) / 4096 := by
  obtain ⟨k, inside, same⟩ := written
  have lower := isUpper.lower
  have upper := isUpper.upper
  rcases canonical with user | high
  · simp only [pageNumber] at same
    omega
  · have page := (written_upper lower upper high small inside).1 same
    omega

/-- The calls write nothing but the direct map and the window. -/
theorem kernelMaps_region (linked : sections.Linked cfg)
    (small : cfg.top ≤ 25) {addr : Nat} (canonical : Canonical addr)
    (addrSmall : addr < 2 ^ 64)
    (written : WrittenBy (sections.kernelMaps cfg) (pageNumber addr)) :
    sections.stext ≤ addr ∧ addr < cfg.directEnd ∨
      InWindow addr := by
  have memory := phySize_le small
  have base : vmStart = 2 ^ 64 - 2 ^ 37 := by decide
  obtain ⟨first, second, third, fourth, fifth, sixth, last⟩ := linked.order
  obtain ⟨rodata, data, ramdisk, bss⟩ := linked.starts
  have aligned := linked.aligned
  have behind := linked.ekernel.1
  have fits := linked.fits
  have pages : cfg.directEnd % 4096 = 0 := by
    rw [Config.directEnd, Config.phySize, base]
    omega
  have size {start stop flags : Nat} (ordered : start ≤ stop) :
      (directRange start stop flags).va +
        (directRange start stop flags).sz = stop := by
    rw [directRange]
    dsimp only
    rw [wordSub_of_le ordered]
    omega
  obtain ⟨range, member, visits⟩ := written
  obtain ⟨after, before⟩ := written_bounds
    (kernelMaps_upper linked small member) canonical addrSmall visits
  rw [kernelMaps_eq linked small] at member
  simp only [List.mem_cons, List.not_mem_nil, or_false] at member
  rcases member with rfl | rfl | rfl | rfl | rfl | rfl | rfl
  · rw [size linked.text] at before
    change sections.stext / 4096 ≤ addr / 4096 at after
    exact Or.inl (by omega)
  · rw [size linked.rodata] at before
    change sections.srodata / 4096 ≤ addr / 4096 at after
    exact Or.inl (by omega)
  · rw [size linked.data] at before
    change sections.sdata / 4096 ≤ addr / 4096 at after
    exact Or.inl (by omega)
  · rw [size linked.bss] at before
    change sections.sbss / 4096 ≤ addr / 4096 at after
    exact Or.inl (by omega)
  · rw [size fits] at before
    change sections.ekernel / 4096 ≤ addr / 4096 at after
    exact Or.inl (by omega)
  · rw [size linked.ramdisk] at before
    change sections.sramdisk / 4096 ≤ addr / 4096 at after
    exact Or.inl (by omega)
  · simp only [InWindow, ioToVirt, virtioStart, virtioLength] at after before ⊢
    exact Or.inr (by omega)

end Sections

/-! ## The direct map -/

/-- What `setup_vm_final` is for. -/
structure DirectMap (cfg : Config) (sections : Sections) (mem : Bytes) :
    Prop where
  /-- Every address is its physical address plus `PA2VA_OFFSET`. -/
  translates : ∀ addr, sections.stext ≤ addr → addr < cfg.directEnd →
    walkAddress mem cfg.swapper addr = some (addr - pa2vaOffset)
  text : ∀ addr, sections.stext ≤ addr → addr < sections.srodata →
    has permR (leaf mem cfg.swapper (pageNumber addr)) ∧
      has permX (leaf mem cfg.swapper (pageNumber addr)) ∧
      ¬ has permW (leaf mem cfg.swapper (pageNumber addr))
  rodata : ∀ addr, sections.srodata ≤ addr → addr < sections.sdata →
    has permR (leaf mem cfg.swapper (pageNumber addr)) ∧
      ¬ has permX (leaf mem cfg.swapper (pageNumber addr)) ∧
      ¬ has permW (leaf mem cfg.swapper (pageNumber addr))
  /-- `.bss` and the free memory behind it. -/
  writable : ∀ addr, sections.sbss ≤ addr → addr < cfg.directEnd →
    has permR (leaf mem cfg.swapper (pageNumber addr)) ∧
      ¬ has permX (leaf mem cfg.swapper (pageNumber addr)) ∧
      has permW (leaf mem cfg.swapper (pageNumber addr))
  /-- Nothing else is mapped, in either half. -/
  others : ∀ addr, Canonical addr → addr < 2 ^ 64 →
    Mapped mem cfg.swapper (pageNumber addr) →
    sections.stext ≤ addr ∧ addr < cfg.directEnd ∨ InWindow addr

theorem entry_flags (ppn perm : Nat) :
    (has permR (entry ppn perm) ↔ has permR perm) ∧
      (has permX (entry ppn perm) ↔ has permX perm) ∧
      (has permW (entry ppn perm) ↔ has permW perm) := by
  have flagR : permR = 2 ^ 1 := by decide
  have flagW : permW = 2 ^ 2 := by decide
  have flagX : permX = 2 ^ 3 := by decide
  rw [flagR, flagX, flagW]
  exact ⟨has_entry (by decide), has_entry (by decide), has_entry (by decide)⟩

/-- A page table without a valid entry in its root maps nothing. -/
theorem not_mapped_ofEmpty {pgtbl : Nat} {mem : Bytes}
    (empty : ∀ position < 512, ¬ has permV (word mem pgtbl position))
    (page : Nat) : ¬ Mapped mem pgtbl page := by
  intro isMapped
  obtain ⟨table, reached⟩ := isMapped.present
  obtain ⟨none, _⟩ := walk_ofEmpty empty (path page) table (treePath_path page)
    reached
  exact absurd none (by simp [path])

section Claims

variable {cfg : Config} {sections : Sections} {m : Machine} {multi : Set Nat}

/-- The root table, after `memset`. -/
theorem cleared_treeInv (allocator : Allocator cfg.top multi m)
    (live : Live m cfg.swapper) (blank : Blank cfg m) :
    TreeInv cfg cfg.swapper
        { m with mem := Bytes.fill m.mem (4096 * cfg.swapper) 0 4096 } ∧
      Blank cfg { m with mem := Bytes.fill m.mem (4096 * cfg.swapper) 0 4096 } ∧
      ∀ page, ¬ Mapped (Bytes.fill m.mem (4096 * cfg.swapper) 0 4096)
        cfg.swapper page := by
  have empty : ∀ position < 512, ¬ has permV
      (word (Bytes.fill m.mem (4096 * cfg.swapper) 0 4096) cfg.swapper
        position) := by
    intro position small
    rw [word_fill_zero small]
    exact not_has_zero permV
  refine ⟨TreeInv.ofEmpty
      ⟨allocator.small, allocator.pages, allocator.zero_live⟩ live empty,
    blank.mono fun frame free => ⟨free.congr rfl, sameFrame_fill ?_⟩,
    not_mapped_ofEmpty empty⟩
  rintro rfl
  exact allocator.not_free live (free.congr rfl)

/-- The entry of every page of the direct map. -/
theorem setupVmFinal_leaf (allocator : Allocator cfg.top multi m)
    (live : Live m cfg.swapper) (blank : Blank cfg m)
    (linked : sections.Linked cfg) {after : Machine}
    (returns : setupVmFinal cfg sections m = .ok after)
    (succeeds : after.oom = false) {addr : Nat}
    (lower : sections.stext ≤ addr) (upper : addr < cfg.directEnd) :
    leaf after.mem cfg.swapper (pageNumber addr) =
      directEntry addr (sections.perm addr) := by
  obtain ⟨inv, cleared, _⟩ := cleared_treeInv allocator live blank
  refine mapKernel_leaf inv cleared (pageNumber_lt addr) ?_ ?_
    (Or.inr (Sections.kernelMaps_written linked allocator.small lower upper))
    returns succeeds
  · intro range member
    have isUpper := Sections.kernelMaps_upper linked allocator.small member
    have first := isUpper.lower
    have last := isUpper.upper
    exact ⟨by omega, isUpper.perm.trans (by decide)⟩
  · intro range member k inside same
    exact Sections.kernelMaps_agree linked allocator.small lower upper member
      inside same

/--
For all section addresses that the linker script may assign, `setup_vm_final`
returns, and if no allocation failed it has mapped the kernel and the memory
behind it with the permissions of the sections, the devices, and nothing else.
-/
theorem setupVmFinal_directMap (allocator : Allocator cfg.top multi m)
    (live : Live m cfg.swapper) (blank : Blank cfg m)
    (linked : sections.Linked cfg) :
    ∃ after, setupVmFinal cfg sections m = .ok after ∧
      (after.oom = false → DirectMap cfg sections after.mem) := by
  have small := allocator.small
  have memory := Sections.phySize_le small
  have base : vmStart = 2 ^ 64 - 2 ^ 37 := by decide
  have offset : pa2vaOffset + 2 ^ 31 = vmStart := by decide
  have fourth : pa2vaOffset % 4096 = 0 := by decide
  obtain ⟨first, text, rodata, data, ramdisk, _⟩ := linked.order
  have bounds : ∀ range ∈ sections.kernelMaps cfg, range.sz ≤ 2 ^ 39 := by
    intro range member
    have isUpper := Sections.kernelMaps_upper linked small member
    have lower := isUpper.lower
    have upper := isUpper.upper
    omega
  obtain ⟨after, returns⟩ := mapKernel_returns cfg bounds
    { m with mem := Bytes.fill m.mem (4096 * cfg.swapper) 0 4096 }
  refine ⟨after, returns, fun succeeds => ?_⟩
  obtain ⟨inv, cleared, unmapped⟩ := cleared_treeInv allocator live blank
  obtain ⟨afterInv, stray⟩ := mapKernel_extends inv cleared returns succeeds
  have leafAt {addr : Nat} := @setupVmFinal_leaf cfg sections m multi allocator
    live blank linked after returns succeeds addr
  have bssEnd : sections.sbss ≤ cfg.directEnd :=
    (linked.bss.trans linked.ekernel.1).trans linked.fits
  have flags (addr perm : Nat) :=
    entry_flags ((addr - pa2vaOffset) / 4096) perm
  exact
    { translates := fun addr lower upper => by
        rw [Config.directEnd] at upper
        have leafPerm : LeafEntry (sections.perm addr) ∧
            sections.perm addr < 2 ^ 10 := by
          rw [Sections.perm]
          split_ifs <;> decide
        rw [afterInv.walkAddress_eq_some, leafAt lower upper, directEntry,
          leafEntry_entry, entryPpn_entry (by omega) leafPerm.2]
        exact ⟨Or.inr (by omega), leafPerm.1, by omega⟩
      text := fun addr lower upper => by
        have perm : sections.perm addr = permA ||| permX ||| permR ||| permV :=
          if_pos upper
        obtain ⟨read, execute, write⟩ := flags addr (sections.perm addr)
        rw [leafAt lower (by omega), directEntry, read, execute, write, perm]
        decide
      rodata := fun addr lower upper => by
        have perm : sections.perm addr = permA ||| permR ||| permV := by
          rw [Sections.perm, if_neg (by omega), if_pos upper]
        obtain ⟨read, execute, write⟩ := flags addr (sections.perm addr)
        rw [leafAt (by omega) (by omega), directEntry, read, execute, write,
          perm]
        decide
      writable := fun addr lower upper => by
        have perm : sections.perm addr =
            permA ||| permD ||| permW ||| permR ||| permV := by
          rw [Sections.perm, if_neg (by omega), if_neg (by omega),
            if_neg (by omega), if_neg (by omega)]
        obtain ⟨read, execute, write⟩ := flags addr (sections.perm addr)
        rw [leafAt (by omega) upper, directEntry, read, execute, write, perm]
        decide
      others := fun addr canonical addrSmall isMapped => by
        rcases stray _ (pageNumber_lt addr) isMapped with before | written
        · exact absurd before (unmapped _)
        · exact Sections.kernelMaps_region linked small canonical addrSmall
            written }

end Claims

/-! ## A kernel of six pages -/

namespace SmallKernel

/-- Thirty-two pages, of which six hold the kernel. -/
def config : Config where
  top := 5
  reserved := 6
  refCnt := phyStart
  swapper := ramBase + 4
  sramdisk := phyStart + 0x3000
  fill := .kallocZeroed
  absentNull := false

/-- Sections with ends inside their pages. -/
def sections : Sections where
  stext := vmStart
  etext := vmStart + 0x8f0
  srodata := vmStart + 0x1000
  erodata := vmStart + 0x1234
  sdata := vmStart + 0x2000
  edata := vmStart + 0x2008
  sramdisk := vmStart + 0x3000
  eramdisk := vmStart + 0x3abc
  sbss := vmStart + 0x4000
  ebss := vmStart + 0x5678
  ekernel := vmStart + 0x5678

theorem layout : Layout config := by
  refine ⟨?_, ?_, ?_⟩
  · show 5 ≤ 25
    decide
  · show 6 ≤ 2 ^ 5
    decide
  · show ramBase < ramBase + 4 ∧ ramBase + 4 < ramBase + 6
    decide

theorem linked : sections.Linked config := by
  constructor <;> decide

/-- The free pages are enough for the tables. -/
theorem enough : (setupVmFinal config sections
    (Boot.machine config fun _ => 0)).map Machine.oom = .ok false := by
  decide +kernel

end SmallKernel

open SmallKernel in
/-- The kernel of six pages. -/
theorem setupVmFinal_directMap_small :
    ∃ after, setupVmFinal config sections (Boot.machine config fun _ => 0) =
        .ok after ∧ DirectMap config sections after.mem := by
  have inv := Boot.machine_inv layout fun _ => 0
  obtain ⟨multi, allocator, _⟩ := inv.allocator
  obtain ⟨after, returns, direct⟩ := setupVmFinal_directMap allocator
    (inv.tables.live _ Inv.swapper_isTable) (Or.inl (by decide)) linked
  have succeeds := enough
  rw [returns] at succeeds
  exact ⟨after, returns, direct (Except.ok.inj succeeds)⟩

end TinyRiscvOs.Vm
