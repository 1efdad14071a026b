import TinyRiscvOs.Vm.ForkScan

/-!
# The address spaces after `task_init`

`mm_init` leaves every page up to the end of the allocator's arrays in use, one
of them the cleared `swapper_pg_dir`; `setup_vm_final` maps ranges of the upper
half; `task_init` gives every task a copy; the block device takes the pages of
its ring.  All of this establishes the invariant of the address spaces.
-/

namespace TinyRiscvOs.Vm

open TinyRiscvOs.Lib
open TinyRiscvOs.Mm

/-! ## The constants of a build -/

/-- The memory holds the kernel image, and `swapper_pg_dir` is a page of it. -/
structure Layout (cfg : Config) : Prop where
  small : cfg.top ≤ 25
  fits : cfg.reserved ≤ 2 ^ cfg.top
  swapper : ramBase < cfg.swapper ∧ cfg.swapper < ramBase + cfg.reserved

/-- A range of the upper half, with flags of an entry. -/
structure KernelMap.Upper (range : KernelMap) : Prop where
  lower : 2 ^ 64 - 2 ^ 38 ≤ range.va
  upper : range.va + range.sz ≤ 2 ^ 64
  perm : range.perm < 2 ^ 8

/-! ## No tasks -/

theorem pte_nil (mem : Bytes) (slot : Slot) : pte mem [] slot = 0 :=
  pte_eq_zero (by simp)

theorem holds_nil (mem : Bytes) (slot : Slot) : holds mem [] slot = none := by
  rw [holds, pte_nil, if_neg (not_has_zero permV)]

theorem sharing_nil (mem : Bytes) (counted : Nat → Nat) :
    Sharing (holds mem []) (writable mem []) counted := by
  constructor
  · intro frame holders held
    rcases holders.eq_empty_or_nonempty with rfl | ⟨slot, member⟩
    · exact Nat.zero_le _
    · have none := held slot member
      rw [holds_nil] at none
      cases none
  · intro slot other frame writes
    rw [writable, pte_nil] at writes
    exact absurd writes (not_has_zero permW)

namespace Boot

variable {cfg : Config} {m : Machine}

/-- The pages of the kernel after `mm_init`. -/
def kernel (cfg : Config) : Finset Nat :=
  ((Finset.range cfg.reserved).image (ramBase + ·)).erase cfg.swapper

/-- The machine after `mm_init`, with `swapper_pg_dir` cleared. -/
def machine (cfg : Config) (mem : Bytes) : Machine where
  buddy := Buddy.reserve cfg.reserved (Buddy.fresh (2 ^ cfg.top))
  mem := Bytes.fill mem (4096 * cfg.swapper) 0 4096
  oom := false

theorem mem_kernel {frame : Nat} :
    frame ∈ kernel cfg ↔ frame ≠ cfg.swapper ∧ ramBase ≤ frame ∧
      frame < ramBase + cfg.reserved := by
  rw [kernel, Finset.mem_erase, Finset.mem_image]
  refine and_congr_right fun _ => ⟨?_, fun bounds => ?_⟩
  · rintro ⟨pfn, member, rfl⟩
    have inside := Finset.mem_range.1 member
    omega
  · exact ⟨frame - ramBase, Finset.mem_range.2 (by omega), by omega⟩

theorem ramBase_mem (layout : Layout cfg) : ramBase ∈ kernel cfg := by
  have swapper := layout.swapper
  exact mem_kernel.2 ⟨by omega, by omega, by omega⟩

section Start

variable (layout : Layout cfg) (mem : Bytes)

theorem machine_empty {position : Nat} (small : position < 512) :
    ¬ has permV (word (machine cfg mem).mem cfg.swapper position) := by
  rw [machine, word_fill_zero small]
  exact not_has_zero permV

/-- The only table is the root. -/
theorem machine_walk {path : List Nat} {last : Nat}
    (inside : treeDom 0 0 path)
    (reached : walk (findTable (machine cfg mem).mem) cfg.swapper path =
      some last) : path = [] ∧ last = cfg.swapper := by
  cases path with
  | nil => exact ⟨rfl, (Option.some_inj.1 reached).symm⟩
  | cons head rest =>
      have absent := findTable_eq_none.2
        (@machine_empty cfg mem head (inside.2.2.1 head (by simp)))
      rw [walk, absent] at reached
      cases reached

theorem machine_isTable {frame : Nat}
    (isTable : IsTable cfg [] (machine cfg mem).mem frame) :
    frame = cfg.swapper := by
  obtain ⟨id, path, inside, reached⟩ := isTable
  obtain rfl : id = 0 := Nat.le_zero.1 inside.1
  exact (machine_walk mem inside reached).2

include layout

theorem machine_counts (pfn : Nat) :
    (machine cfg mem).buddy.refCnt pfn = if pfn < cfg.reserved then 1 else 0 :=
  (Buddy.Pages.reserve (by have := layout.small; omega) layout.fits).2 pfn

theorem machine_live {frame : Nat} (lower : ramBase ≤ frame)
    (upper : frame < ramBase + cfg.reserved) : Live (machine cfg mem) frame := by
  refine ⟨lower, ?_⟩
  rw [machine_counts layout mem, if_pos (by omega)]
  exact Nat.one_pos

/-- The invariant before anything is mapped. -/
theorem machine_inv :
    Inv cfg [] (kernel cfg) (2 ^ 26 * (kernel cfg).card) (machine cfg mem) := by
  have swapper := layout.swapper
  have zeros {position : Nat} := @machine_empty cfg mem position
  have onlyRoot : ∀ id path last, treeDom 0 id path →
      walk (findTable (machine cfg mem).mem) (treeRoot cfg [] id) path =
        some last → id = 0 ∧ path = [] ∧ last = cfg.swapper := by
    intro id path last inside reached
    obtain rfl : id = 0 := Nat.le_zero.1 inside.1
    exact ⟨rfl, machine_walk mem inside reached⟩
  refine ⟨⟨∅, ⟨layout.small, ?_, ?_⟩, by simp⟩, ⟨⟨treeDom_closed _, ?_⟩, ?_, ?_⟩,
    ramBase_mem layout, ?_, ?_, ?_, by simp, ?_, ?_, ?_, sharing_nil _ _, ?_,
    by simp⟩
  · exact (Buddy.Pages.reserve (by have := layout.small; omega) layout.fits).1
  · rw [machine_counts layout mem, if_pos (by omega)]
    exact Nat.one_pos
  · intro left leftPath right rightPath table leftInside rightInside first second
    obtain ⟨rfl, rfl, _⟩ := onlyRoot left leftPath table leftInside first
    obtain ⟨rfl, rfl, _⟩ := onlyRoot right rightPath table rightInside second
    exact ⟨rfl, rfl⟩
  · exact fun id path inside => inside.2.2.1
  · intro frame isTable
    rw [machine_isTable mem isTable]
    exact machine_live layout mem swapper.1.le swapper.2
  · intro frame member
    obtain ⟨_, lower, upper⟩ := mem_kernel.1 member
    exact machine_live layout mem lower upper
  · intro frame member isTable
    exact (mem_kernel.1 member).1 (machine_isTable mem isTable)
  · intro id path position table inside reached valid
    obtain ⟨rfl, rfl, rfl⟩ := onlyRoot id path table
      (treeDom_closed _ _ _ _ inside) reached
    exact absurd valid (zeros (inside.2.2.1 position (by simp)))
  · exact fun position low => zeros (by omega)
  · intro slot frame held
    rw [holds_nil] at held
    cases held
  · intro id t page taskAt
    cases taskAt
  · intro pfn
    have positive := Finset.card_pos.2 ⟨ramBase, ramBase_mem layout⟩
    rw [machine_counts layout mem]
    split <;> omega

end Start

/-! ## Ranges of the upper half -/

theorem index_mod {level : Nat} (low : level ≤ 2) (page : Nat) :
    index level (page % 2 ^ 27) = index level page := by
  rcases (by omega : level = 0 ∨ level = 1 ∨ level = 2) with rfl | rfl | rfl <;>
    simp only [index] <;> omega

theorem path_mod (page : Nat) : path (page % 2 ^ 27) = path page := by
  rw [path, path, index_mod (by omega), index_mod (by omega)]

/-- An address of the upper half is a page of the first tree. -/
theorem treeDom_upper {va : Nat} (lower : 2 ^ 64 - 2 ^ 38 ≤ va)
    (upper : va < 2 ^ 64) : treeDom 0 0 (path (va / 4096)) := by
  rw [← path_mod]
  refine treeDom_kernel 0 ?_ (Nat.mod_lt _ (by decide))
  omega

variable {kernel : Finset Nat} {budget : Nat}

/-- A round of `create_mapping` on `swapper_pg_dir`. -/
theorem mapPage (inv : Inv cfg [] kernel budget m)
    (blank : Blank cfg m) {va pa perm : Nat}
    (lower : 2 ^ 64 - 2 ^ 38 ≤ va) (upper : va < 2 ^ 64)
    (permSmall : perm < 2 ^ 8)
    (succeeds : (mapPage cfg m cfg.swapper va pa perm).2.oom = false) :
    (Vm.mapPage cfg m cfg.swapper va pa perm).1 = false ∧
      Inv cfg [] kernel budget (Vm.mapPage cfg m cfg.swapper va pa perm).2 ∧
      Blank cfg (Vm.mapPage cfg m cfg.swapper va pa perm).2 := by
  have inside := treeDom_upper lower upper
  obtain ⟨table, last, lastInv, reached, _, _, result⟩ :=
    @Inv.mapPage cfg [] kernel budget m inv blank 0 va pa perm inside
      (Or.inr rfl) succeeds
  have elsewhere := @Inv.mapPage_elsewhere cfg [] kernel budget m inv blank 0
    va pa perm inside (Or.inr rfl) succeeds
  refine ⟨congrArg Prod.fst result, ?_, blank.mono elsewhere.free⟩
  replace result : Vm.mapPage cfg m cfg.swapper va pa perm = _ := result
  rw [result]
  rw [← path_mod] at inside reached
  rw [← index_mod (by omega) (va / 4096)]
  have fits : entry ((pa >>> 12) &&& ppnMask) perm < 2 ^ 64 := by
    have mask : ppnMask = 2 ^ 44 - 1 := by decide
    refine entry_lt ?_ (permSmall.trans (by decide))
    rw [mask, Nat.and_two_pow_sub_one_eq_mod]
    exact Nat.mod_lt _ (Nat.two_pow_pos _)
  rcases lastInv.allocator with ⟨multi, allocator, kernelMulti⟩
  exact lastInv.write inside reached rfl (Nat.mod_lt _ (by decide)) fits
    ⟨multi, ⟨allocator.small, allocator.pages, allocator.zero_live⟩,
      kernelMulti⟩
    (fun frame isLive _ => isLive)
    (fun slot t none => absurd none (Nat.succ_ne_zero slot))
    (sharing_nil _ _) lastInv.bounded

theorem mapPages (inv : Inv cfg [] kernel budget m)
    (blank : Blank cfg m) {va pa perm count offset : Nat}
    (lower : 2 ^ 64 - 2 ^ 38 ≤ va) (permSmall : perm < 2 ^ 8)
    (upper : count = 0 ∨ va + offset + 4096 * (count - 1) < 2 ^ 64)
    (succeeds : (mapPages cfg cfg.swapper va pa perm count offset m).2.oom =
      false) :
    Inv cfg [] kernel budget
        (Vm.mapPages cfg cfg.swapper va pa perm count offset m).2 ∧
      Blank cfg (Vm.mapPages cfg cfg.swapper va pa perm count offset m).2 := by
  induction count generalizing offset m with
  | zero => exact ⟨inv, blank⟩
  | succ count induction =>
      have last : va + offset + 4096 * count < 2 ^ 64 := by omega
      have here : (va + offset) % 2 ^ 64 = va + offset :=
        Nat.mod_eq_of_lt (by omega)
      have fine := mapPages_first succeeds
      rw [here] at fine
      obtain ⟨goesOn, nextInv, nextBlank⟩ := mapPage inv blank (by omega)
        (by omega) permSmall fine
      rw [Vm.mapPages, here] at succeeds ⊢
      dsimp only at succeeds ⊢
      rw [goesOn] at succeeds ⊢
      exact induction nextInv nextBlank (by omega) succeeds

theorem mapKernel_oom {ranges : List KernelMap} {m after : Machine}
    (returns : mapKernel cfg ranges m = .ok after)
    (succeeds : after.oom = false) : m.oom = false := by
  induction ranges generalizing m with
  | nil =>
      cases returns
      exact succeeds
  | cons range rest induction =>
      rw [mapKernel] at returns
      cases mapped : createMapping cfg m cfg.swapper range.va range.pa range.sz
          range.perm with
      | error stop =>
          rw [mapped] at returns
          cases returns
      | ok next =>
          rw [mapped] at returns
          exact createMapping_oom mapped (induction returns)

/-- The calls of `create_mapping` in `setup_vm_final`. -/
theorem mapKernel (inv : Inv cfg [] kernel budget m)
    (blank : Blank cfg m) {ranges : List KernelMap} {after : Machine}
    (uppers : ∀ range ∈ ranges, range.Upper)
    (returns : mapKernel cfg ranges m = .ok after)
    (succeeds : after.oom = false) : Inv cfg [] kernel budget after := by
  induction ranges generalizing m with
  | nil =>
      cases returns
      exact inv
  | cons range rest induction =>
      rw [Vm.mapKernel] at returns
      cases mapped : createMapping cfg m cfg.swapper range.va range.pa range.sz
          range.perm with
      | error stop =>
          rw [mapped] at returns
          cases returns
      | ok next =>
          rw [mapped] at returns
          have fine : next.oom = false := mapKernel_oom returns succeeds
          have isUpper := uppers range List.mem_cons_self
          have last := isUpper.upper
          have pages := (createMapping_ok mapped).symm
          rw [← pages] at fine
          obtain ⟨nextInv, nextBlank⟩ := mapPages inv blank isUpper.lower
            isUpper.perm (by omega) fine
          rw [pages] at nextInv nextBlank
          exact induction nextInv nextBlank
            (fun other member => uppers other (List.mem_cons_of_mem _ member))
            returns

end Boot

/-! ## The tasks -/

section Tasks

variable {cfg : Config} {m : Machine}

theorem doMmap_ok {mmap last : List Vma} {args : MmapArgs} {after : Machine}
    (returns : doMmap cfg m mmap args = .ok (last, after)) :
    after = (cfg.kalloc m).2 ∧ last = args.vma :: mmap := by
  rw [doMmap] at returns
  dsimp only at returns
  split at returns
  · cases returns
  · obtain ⟨areas, machine⟩ := Prod.mk.inj (Except.ok.inj returns)
    exact ⟨machine.symm, areas.symm⟩

theorem doMmaps_oom {areas : List MmapArgs} {mmap last : List Vma}
    {after : Machine} (returns : doMmaps cfg areas mmap m = .ok (last, after))
    (succeeds : after.oom = false) : m.oom = false := by
  induction areas generalizing mmap m with
  | nil =>
      cases returns
      exact succeeds
  | cons args rest induction =>
      rw [doMmaps] at returns
      cases mapped : doMmap cfg m mmap args with
      | error stop =>
          rw [mapped] at returns
          cases returns
      | ok result =>
          obtain ⟨middle, next⟩ := result
          rw [mapped] at returns
          have fine := induction returns
          rw [(doMmap_ok mapped).1] at fine
          exact succeeds_of_mono allocPage_oom_mono fine

/-- The machine in which the areas of a new task are made, and its root. -/
def startRoot (cfg : Config) (m : Machine) : Nat × Machine :=
  let (_, m) := cfg.kalloc m
  let (_, m) := cfg.allocPage m
  let (pgd, m) := cfg.allocPage m
  (pgd, copySwapper cfg m pgd)

theorem startRoot_eq (cfg : Config) (m : Machine) :
    startRoot cfg m =
      ((cfg.allocPage (cfg.allocPage (cfg.kalloc m).2).2).1,
        copySwapper cfg (cfg.allocPage (cfg.allocPage (cfg.kalloc m).2).2).2
          (cfg.allocPage (cfg.allocPage (cfg.kalloc m).2).2).1) := by
  simp only [startRoot]

theorem Config.allocPage_oom {cfg : Config} {m : Machine}
    (succeeds : (cfg.allocPage m).2.oom = false) : m.oom = false :=
  succeeds_of_mono Vm.allocPage_oom_mono succeeds

theorem startRoot_oom (succeeds : (startRoot cfg m).2.oom = false) :
    (cfg.kalloc m).2.oom = false ∧
      (cfg.allocPage (cfg.kalloc m).2).2.oom = false ∧
      (cfg.allocPage (cfg.allocPage (cfg.kalloc m).2).2).2.oom = false := by
  simp only [startRoot_eq, copySwapper] at succeeds
  have third := succeeds
  have second := Config.allocPage_oom third
  exact ⟨Config.allocPage_oom second, second, third⟩

theorem startTask_eq (cfg : Config) (m : Machine) (areas : List MmapArgs) :
    startTask cfg m areas = do
      let (mmap, last) ← doMmaps cfg areas [] (startRoot cfg m).2
      return ({ pgd := (startRoot cfg m).1, mmap }, last) := by
  simp only [startTask, startRoot, copySwapper]

theorem startTask_ok {areas : List MmapArgs} {t : Task} {after : Machine}
    (returns : startTask cfg m areas = .ok (t, after)) :
    doMmaps cfg areas [] (startRoot cfg m).2 = .ok (t.mmap, after) ∧
      t.pgd = (startRoot cfg m).1 := by
  rw [startTask_eq] at returns
  generalize startRoot cfg m = root at returns ⊢
  cases mapped : doMmaps cfg areas [] root.2 with
  | error stop =>
      rw [mapped] at returns
      cases returns
  | ok result =>
      obtain ⟨mmap, last⟩ := result
      rw [mapped] at returns
      obtain ⟨rfl, rfl⟩ := Prod.mk.inj (Except.ok.inj returns)
      exact ⟨rfl, rfl⟩

theorem Config.kalloc_oom {cfg : Config} {m : Machine}
    (succeeds : (cfg.kalloc m).2.oom = false) : m.oom = false :=
  succeeds_of_mono Vm.allocPage_oom_mono succeeds

theorem startTask_oom {areas : List MmapArgs} {t : Task} {after : Machine}
    (returns : startTask cfg m areas = .ok (t, after))
    (succeeds : after.oom = false) : m.oom = false := by
  have rootOk := doMmaps_oom (startTask_ok returns).1 succeeds
  exact Config.kalloc_oom (startRoot_oom rootOk).1

theorem startTasks_oom {programs : List (List MmapArgs)}
    {tasks last : List Task} {after : Machine}
    (returns : startTasks cfg programs tasks m = .ok (last, after))
    (succeeds : after.oom = false) : m.oom = false := by
  induction programs generalizing tasks m with
  | nil =>
      cases returns
      exact succeeds
  | cons areas rest induction =>
      rw [startTasks] at returns
      cases started : startTask cfg m areas with
      | error stop =>
          rw [started] at returns
          cases returns
      | ok result =>
          rw [started] at returns
          exact startTask_oom started (induction returns)

end Tasks

namespace Inv

variable {cfg : Config} {task : List Task} {kernel : Finset Nat} {m : Machine}

/-- `do_mmap` calls: pages of the kernel, and the areas in reverse order. -/
theorem doMmaps (inv : Inv cfg task kernel (2 ^ 26 * kernel.card) m)
    {areas : List MmapArgs} {mmap last : List Vma} {after : Machine}
    (returns : doMmaps cfg areas mmap m = .ok (last, after))
    (succeeds : after.oom = false) :
    (∃ kernel', kernel ⊆ kernel' ∧
        Inv cfg task kernel' (2 ^ 26 * kernel'.card) after) ∧
      ∀ vma ∈ last, vma ∈ mmap ∨ ∃ args ∈ areas, args.vma = vma := by
  induction areas generalizing kernel mmap m with
  | nil =>
      cases returns
      exact ⟨⟨kernel, Finset.Subset.refl _, inv⟩,
        fun vma member => Or.inl member⟩
  | cons args rest induction =>
      rw [Vm.doMmaps] at returns
      cases mapped : doMmap cfg m mmap args with
      | error stop =>
          rw [mapped] at returns
          cases returns
      | ok result =>
          obtain ⟨middle, next⟩ := result
          rw [mapped] at returns
          obtain ⟨rfl, rfl⟩ := doMmap_ok mapped
          obtain ⟨_, nextInv, card, _⟩ :=
            inv.claimBounded (doMmaps_oom returns succeeds)
          obtain ⟨⟨last, kept, lastInv⟩, members⟩ := induction
            (nextInv.mono_budget (by rw [card]; omega)) returns
          refine ⟨⟨last, (Finset.subset_insert _ _).trans kept, lastInv⟩,
            fun vma member => ?_⟩
          rcases members vma member with old | ⟨other, isOther, same⟩
          · rcases List.mem_cons.1 old with rfl | older
            · exact Or.inr ⟨args, List.mem_cons_self, rfl⟩
            · exact Or.inl older
          · exact Or.inr ⟨other, List.mem_cons_of_mem _ isOther, same⟩

/-- Pages for the task and its files, and a root table. -/
theorem startRoot (inv : Inv cfg task kernel (2 ^ 26 * kernel.card) m)
    (succeeds : (startRoot cfg m).2.oom = false) :
    ∃ kernel', kernel ⊆ kernel' ∧
      Inv cfg (task ++ [⟨(Vm.startRoot cfg m).1, []⟩]) kernel'
        (2 ^ 26 * kernel'.card) (Vm.startRoot cfg m).2 := by
  obtain ⟨firstOk, secondOk, thirdOk⟩ := startRoot_oom succeeds
  rw [startRoot_eq]
  dsimp only
  rw [Config.kalloc] at firstOk secondOk thirdOk ⊢
  obtain ⟨_, firstInv, firstCard, _⟩ := inv.claimBounded firstOk
  rw [Config.allocPage] at secondOk thirdOk ⊢
  obtain ⟨_, secondInv, secondCard, _⟩ :=
    (firstInv.mono_budget (by rw [firstCard]; omega)).claimBounded secondOk
  rw [Config.allocPage] at thirdOk ⊢
  have noAreas : ∀ vma ∈ ([] : List Vma), vma.User := by simp
  obtain ⟨thirdInv, _⟩ := secondInv.plantCopy thirdOk noAreas
  refine ⟨_, (Finset.subset_insert _ _).trans (Finset.subset_insert _ _),
    thirdInv.mono_budget ?_⟩
  rw [secondCard]
  omega

/-- The loop body of `task_init` keeps the invariant. -/
theorem startTask (inv : Inv cfg task kernel (2 ^ 26 * kernel.card) m)
    {areas : List MmapArgs} {t : Task} {after : Machine}
    (users : ∀ args ∈ areas, args.vma.User)
    (returns : startTask cfg m areas = .ok (t, after))
    (succeeds : after.oom = false) :
    ∃ kernel', kernel ⊆ kernel' ∧
      Inv cfg (task ++ [t]) kernel' (2 ^ 26 * kernel'.card) after := by
  obtain ⟨mapped, pgd⟩ := startTask_ok returns
  obtain ⟨rootKernel, rootKept, rootInv⟩ :=
    inv.startRoot (doMmaps_oom mapped succeeds)
  generalize Vm.startRoot cfg m = root at mapped pgd rootInv
  obtain ⟨⟨lastKernel, lastKept, lastInv⟩, members⟩ :=
    rootInv.doMmaps mapped succeeds
  refine ⟨lastKernel, rootKept.trans lastKept, lastInv.withLast pgd (List.nil_subset _) ?_⟩
  intro vma member
  rcases members vma member with none | ⟨args, isArea, rfl⟩
  · cases none
  · exact users args isArea

/-- The loop of `task_init`. -/
theorem startTasks (inv : Inv cfg task kernel (2 ^ 26 * kernel.card) m)
    {programs : List (List MmapArgs)} {last : List Task} {after : Machine}
    (users : ∀ areas ∈ programs, ∀ args ∈ areas, args.vma.User)
    (returns : startTasks cfg programs task m = .ok (last, after))
    (succeeds : after.oom = false) :
    ∃ kernel', kernel ⊆ kernel' ∧
      Inv cfg last kernel' (2 ^ 26 * kernel'.card) after := by
  induction programs generalizing task kernel m with
  | nil =>
      cases returns
      exact ⟨kernel, Finset.Subset.refl _, inv⟩
  | cons areas rest induction =>
      rw [Vm.startTasks] at returns
      cases started : Vm.startTask cfg m areas with
      | error stop =>
          rw [started] at returns
          cases returns
      | ok result =>
          obtain ⟨t, next⟩ := result
          rw [started] at returns
          obtain ⟨_, nextKept, nextInv⟩ := inv.startTask
            (users areas List.mem_cons_self) started
            (startTasks_oom returns succeeds)
          obtain ⟨last, lastKept, lastInv⟩ := induction nextInv
            (fun other member => users other (List.mem_cons_of_mem _ member))
            returns
          exact ⟨last, nextKept.trans lastKept, lastInv⟩

/-- The pages of the ring are the kernel's. -/
theorem ringPages (inv : Inv cfg task kernel (2 ^ 26 * kernel.card) m)
    (succeeds : (ringPages m).oom = false) :
    ∃ kernel', kernel ⊆ kernel' ∧
      Inv cfg task kernel' (2 ^ 26 * kernel'.card) (Vm.ringPages m) := by
  rcases inv.allocator with ⟨multi, allocator, kernelMulti⟩
  have found : (m.buddy.alloc 3).1 ≠ 0 := by
    simp only [Vm.ringPages, Bool.or_eq_false_iff, decide_eq_false_iff_not]
      at succeeds
    exact succeeds.2
  have room : 4 ≤ m.buddy.bitmap 0 := by
    by_contra small
    have rounded : Buddy.requestSize 3 = 4 := by decide
    exact found (congrArg Prod.fst (Buddy.alloc_of_lt (by omega)))
  obtain ⟨small, unused, counts, pages⟩ := allocator.pages.allocThree room
  generalize allocated : m.buddy.alloc 3 = result at *
  obtain ⟨pfn, buddy⟩ := result
  have after : Vm.ringPages m = { m with buddy, oom := m.oom || pfn = 0 } := by
    rw [Vm.ringPages, allocated]
  have frame : ramBase + pfn - ramBase = pfn := Nat.add_sub_cancel_left ..
  have dead : ¬ Live m (ramBase + pfn) := by
    rintro ⟨-, counted⟩
    rw [frame, unused] at counted
    exact absurd counted (Nat.lt_irrefl 0)
  have notKernel : ramBase + pfn ∉ kernel := fun member =>
    dead (inv.kernel_live _ member)
  have grown : ∀ other, m.buddy.refCnt other ≤ buddy.refCnt other := by
    intro other
    rw [counts, Function.update_apply]
    split
    · rename_i same
      rw [same, unused]
      exact Nat.zero_le _
    · exact Nat.le_refl _
  have live : ∀ other, Live m other → Live (Vm.ringPages m) other := by
    rw [after]
    exact fun other isLive => ⟨isLive.1, isLive.2.trans_le (grown _)⟩
  have here : Live (Vm.ringPages m) (ramBase + pfn) := by
    rw [after]
    refine ⟨Nat.le_add_right _ _, ?_⟩
    show 0 < buddy.refCnt (ramBase + pfn - ramBase)
    rw [frame, counts, Function.update_self]
    exact Nat.one_pos
  refine ⟨insert (ramBase + pfn) kernel, Finset.subset_insert _ _,
    inv.congr ?_ (Finset.subset_insert _ _) ?_ live ?_ ?_ ?_⟩
  · rw [after]
    refine ⟨insert pfn multi, ⟨allocator.small, pages,
      allocator.zero_live.trans_le (grown 0)⟩, fun other member => ?_⟩
    rcases Set.mem_insert_iff.1 member with rfl | old
    · exact Finset.mem_insert_self _ _
    · exact Finset.mem_insert_of_mem (kernelMulti other old)
  · intro other member
    rcases Finset.mem_insert.1 member with rfl | old
    · exact Or.inr ⟨here, dead⟩
    · exact Or.inl old
  · rw [after]
    exact fun other _ => grown _
  · rw [after]
    exact fun other _ => SameFrame.refl _ other
  · intro other
    rw [after, Finset.card_insert_of_notMem notKernel]
    show buddy.refCnt other ≤ _
    rw [counts, Function.update_apply]
    split
    · omega
    · exact (inv.bounded other).trans (by omega)

end Inv

theorem ringPages_oom {m : Machine} (succeeds : (ringPages m).oom = false) :
    m.oom = false := by
  simp only [ringPages, Bool.or_eq_false_iff] at succeeds
  exact succeeds.1

/-- What `boot` maps and starts: ranges of the upper half, areas of the lower half. -/
structure Bootable (cfg : Config) (maps : List KernelMap)
    (programs : List (List MmapArgs)) : Prop where
  layout : Layout cfg
  maps : ∀ range ∈ maps, range.Upper
  areas : ∀ areas ∈ programs, ∀ args ∈ areas, args.vma.User

/-- The calls of a boot that returns. -/
theorem boot_ok {cfg : Config} {mem : Bytes} {maps : List KernelMap}
    {programs : List (List MmapArgs)} {start : System}
    (returns : boot cfg mem maps programs = .ok start) :
    ∃ m task last, mapKernel cfg maps (Boot.machine cfg mem) = .ok m ∧
      startTasks cfg programs [] (cfg.kalloc m).2 = .ok (task, last) ∧
      start = { machine := ringPages last, task } := by
  replace returns : (do
      let m ← mapKernel cfg maps (Boot.machine cfg mem)
      let result ← startTasks cfg programs [] (cfg.kalloc m).2
      return ({ machine := ringPages result.2, task := result.1 } : System)) =
    Except.ok start := returns
  cases mapped : mapKernel cfg maps (Boot.machine cfg mem) with
  | error stop =>
      rw [mapped] at returns
      cases returns
  | ok m =>
      rw [mapped] at returns
      cases started : startTasks cfg programs [] (cfg.kalloc m).2 with
      | error stop =>
          simp only [bind, Except.bind, started] at returns
          cases returns
      | ok result =>
          simp only [bind, Except.bind, started, pure, Except.pure,
            Except.ok.injEq] at returns
          exact ⟨m, result.1, result.2, rfl, started, returns.symm⟩

/-- The kernel reaches its scheduler with the invariant established. -/
theorem boot_inv {cfg : Config} {mem : Bytes} {maps : List KernelMap}
    {programs : List (List MmapArgs)} {start : System}
    (blank : Blank cfg (Boot.machine cfg mem))
    (bootable : Bootable cfg maps programs)
    (returns : boot cfg mem maps programs = .ok start)
    (succeeds : start.machine.oom = false) :
    ∃ kernel, Boot.kernel cfg ⊆ kernel ∧
      Inv cfg start.task kernel (2 ^ 26 * kernel.card) start.machine := by
  obtain ⟨m, task, last, mapped, started, rfl⟩ := boot_ok returns
  have idleOk := startTasks_oom started (ringPages_oom succeeds)
  have mappedInv := Boot.mapKernel
    (Boot.machine_inv bootable.layout mem) blank bootable.maps mapped
    (Config.kalloc_oom idleOk)
  obtain ⟨_, idleInv, card, _⟩ := mappedInv.claimBounded idleOk
  obtain ⟨_, lastKept, lastInv⟩ :=
    (idleInv.mono_budget (by rw [card]; omega)).startTasks
      bootable.areas started (ringPages_oom succeeds)
  obtain ⟨kernel, kept, inv⟩ := lastInv.ringPages succeeds
  exact ⟨kernel, ((Finset.subset_insert _ _).trans lastKept).trans kept, inv⟩

end TinyRiscvOs.Vm
