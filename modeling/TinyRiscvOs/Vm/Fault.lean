import TinyRiscvOs.Vm.Mapping

/-!
# Page faults

A page fault gives its page a fresh frame.  In the copy-on-write branch the
entry was there, and the frame it named loses a reference; in the other branch
nothing is released.  Both branches keep the invariant.
-/

namespace TinyRiscvOs.Vm

open TinyRiscvOs.Lib
open TinyRiscvOs.Mm

/-! ## What a fault does -/

/-- The page of a task now has a frame of its own, filled as `filled` says. -/
structure Faulted (cfg : Config) (task : List Task) (m : Machine)
    (slot : Slot) (frame perm : Nat) (released : Option Nat) (filled : Bytes)
    (after : Machine) : Prop where
  isFresh : ¬ Live m frame
  lower : ramBase ≤ frame
  counted : count after frame = 1
  pte : ∀ other, pte after.mem task other =
    if other = slot then entry frame perm else pte m.mem task other
  counts : ∀ other, Live m other → count after other =
    count m other - (if released = some other then 1 else 0)
  held : ∀ other ∈ released, holds m.mem task slot = some other
  same : ∀ other, Live m other → ¬ IsTable cfg task m.mem other →
    SameFrame m.mem after.mem other
  isTable : ∀ other, IsTable cfg task after.mem other →
    other ≠ frame ∧ (IsTable cfg task m.mem other ∨ ¬ Live m other)
  filled : SameFrame filled after.mem frame

/-- Pages that are no longer in use are free. -/
def Returned (cfg : Config) (m after : Machine) : Prop :=
  ∀ frame, Live m frame → ¬ Live after frame → Free cfg.top after frame

/-- What a fault takes out of use is the frame it releases. -/
theorem Faulted.returned {cfg : Config} {task : List Task} {m after : Machine}
    {slot : Slot} {frame perm : Nat} {released : Option Nat} {filled : Bytes}
    (faulted : Faulted cfg task m slot frame perm released filled after)
    (frees : ∀ src ∈ released, count after src = 0 → Free cfg.top after src) :
    Returned cfg m after := by
  intro other live dead
  have gone : count after other = 0 := by
    by_contra counted
    exact dead ⟨live.1, Nat.pos_of_ne_zero counted⟩
  have counts := faulted.counts other live
  have counted : 0 < count m other := live.2
  by_cases here : released = some other
  · exact frees other here gone
  · rw [if_neg here] at counts
    omega

/-! ## Small facts -/

theorem entry_holds {ppn perm : Nat} (ppnSmall : ppn < 2 ^ 44)
    (permSmall : perm < 2 ^ 8) (valid : has permV perm) :
    has permV (entry ppn perm) ∧ entryPpn (entry ppn perm) = ppn ∧
      entry ppn perm < 2 ^ 64 := by
  have flag : permV = 2 ^ 0 := by decide
  refine ⟨?_, entryPpn_entry ppnSmall (permSmall.trans (by decide)),
    entry_lt ppnSmall (permSmall.trans (by decide))⟩
  rw [flag, has_entry (by decide), ← flag]
  exact valid

theorem findVma_some {mmap : List Vma} {addr : Nat} {vma : Vma}
    (found : findVma mmap addr = some vma) :
    vma ∈ mmap ∧ vma.Contains addr := by
  induction mmap with
  | nil => cases found
  | cons first rest induction =>
      rw [findVma] at found
      split at found
      · obtain rfl := Option.some_inj.1 found
        exact ⟨List.mem_cons_self, by assumption⟩
      · obtain ⟨member, contains⟩ := induction found
        exact ⟨List.mem_cons_of_mem _ member, contains⟩

theorem pgRoundDown_eq (addr : Nat) : pgRoundDown addr = 4096 * (addr / 4096) :=
  Nat.mul_comm _ _

theorem pgRoundUp_succ {addr : Nat} (small : addr < 2 ^ 38) :
    pgRoundUp (addr + 1) = 4096 * (addr / 4096) + 4096 := by
  rw [pgRoundUp, Nat.mod_eq_of_lt (by omega)]
  omega

/-- The copy of the file stays on the page. -/
theorem sameFrame_copyFromFile {cfg : Config} {mem : Bytes} {vma : Vma}
    {page badAddr other : Nat} (small : badAddr < 2 ^ 38)
    (contains : vma.Contains badAddr) (different : other ≠ page) :
    SameFrame mem (copyFromFile cfg mem vma page badAddr) other := by
  obtain ⟨lower, upper⟩ := contains
  have round := pgRoundUp_succ small
  have down := pgRoundDown_eq badAddr
  intro offset inside
  refine Bytes.move_outside ?_
  omega

theorem Config.allocPage_oom_mono {cfg : Config} {m : Machine}
    (failed : m.oom = true) : (cfg.allocPage m).2.oom = true :=
  Vm.allocPage_oom_mono failed

namespace Inv

variable {cfg : Config} {task : List Task} {kernel : Finset Nat} {budget : Nat}
    {m after : Machine}

/-! ## A page from the allocator -/

/-- A page of which the invariant does not know yet what it is for. -/
theorem allocated (inv : Inv cfg task kernel budget m) {zeroed : Bool}
    (succeeds : (allocPage zeroed m).2.oom = false) :
    Inv cfg task kernel budget (allocPage zeroed m).2 ∧
      ∃ multi, (∀ pfn ∈ multi, ramBase + pfn ∈ kernel) ∧
        Allocated cfg.top multi zeroed m (allocPage zeroed m).1
          (allocPage zeroed m).2 := by
  rcases inv.allocator with ⟨multi, allocator, kernelMulti⟩
  have allocated := allocPage_spec allocator succeeds
  refine ⟨inv.congr ⟨multi, allocated.allocator, kernelMulti⟩
    (Finset.Subset.refl _) (fun frame member => Or.inl member)
    (fun frame live => allocated.live_iff.2 (Or.inl live))
    (fun frame live => ?_) (fun frame isTable => ?_) fun pfn => ?_,
    multi, kernelMulti, allocated⟩
  · exact (allocated.refCnt_eq live.1 (allocated.ne_of_live live)).ge
  · exact allocated.sameFrame
      (allocated.ne_of_live (inv.tables.live frame isTable))
  · rw [allocated.counts, Function.update_apply]
    split
    · exact inv.one_le_budget
    · exact inv.bounded pfn

/-- Bytes of frames that are no tables do not matter to the invariant. -/
theorem withMem (inv : Inv cfg task kernel budget m) {mem : Bytes}
    (same : ∀ frame, IsTable cfg task m.mem frame → SameFrame m.mem mem frame) :
    Inv cfg task kernel budget { m with mem } := by
  rcases inv.allocator with ⟨multi, allocator, kernelMulti⟩
  exact inv.congr
    ⟨multi, ⟨allocator.small, allocator.pages, allocator.zero_live⟩,
      kernelMulti⟩
    (Finset.Subset.refl _) (fun frame member => Or.inl member)
    (fun frame live => live)
    (fun frame _ => Nat.le_refl _) same inv.bounded

/-- The page of a fault is a user page of the task. -/
theorem fault_page (inv : Inv cfg task kernel budget m) {t : Task} {vma : Vma}
    {badAddr : Nat} (member : t ∈ task)
    (found : findVma t.mmap badAddr = some vma) :
    vma ∈ t.mmap ∧ vma.User ∧ vma.Contains badAddr ∧ badAddr < 2 ^ 38 ∧
      badAddr / 4096 < 2 ^ 26 := by
  obtain ⟨isArea, contains⟩ := findVma_some found
  have area := inv.areas t member vma isArea
  have below := area.below
  have upper := contains.2
  simp only [userEnd] at below
  exact ⟨isArea, area, contains, by omega, by omega⟩

/-! ## The slot moves to a fresh frame -/

section Move

variable {id page table frame perm : Nat} {t : Task} {released : Option Nat}
    (inv : Inv cfg task kernel budget m) (taskAt : task[id]? = some t)
    (user : page < 2 ^ 26)
    (reached : walk (findTable m.mem) (treeRoot cfg task (id + 1))
      (path page) = some table)
    (written : after.mem =
      setWord m.mem table (index 0 page) (entry frame perm))

include inv taskAt user reached written

theorem move_pte (fits : entry frame perm < 2 ^ 64) (other : Slot) :
    pte after.mem task other =
      if other = (id, page) then entry frame perm else pte m.mem task other := by
  have inside := treeDom_user taskAt user
  rw [write_pte inv inside reached written (by omega) fits other]
  by_cases here : other = (id, page)
  · rw [if_pos here, if_pos]
    rw [here]
    exact ⟨rfl, rfl, t, taskAt, user⟩
  · rw [if_neg here, if_neg]
    rintro ⟨sameId, samePage, _⟩
    exact here (Prod.ext (Nat.succ.inj sameId) samePage)

theorem moved {vma : Vma} (isArea : vma ∈ t.mmap) (covers : vma.Covers page)
    (form : UserPerm vma.vmFlags perm) (live : Live m frame)
    (unused : frame ∉ kernel ∧ ¬ IsTable cfg task m.mem frame ∧
      ∀ slot, holds m.mem task slot ≠ some frame)
    (allocator : ∃ multi, Allocator cfg.top multi after ∧
      ∀ pfn ∈ multi, ramBase + pfn ∈ kernel)
    (counts : ∀ other, ramBase ≤ other → count after other =
      count m other - (if released = some other then 1 else 0))
    (held : ∀ other ∈ released, holds m.mem task (id, page) = some other)
    (bounded : ∀ pfn, after.buddy.refCnt pfn ≤ budget) :
    Inv cfg task kernel budget after := by
  obtain ⟨notKernel, notTable, unheld⟩ := unused
  have member := List.mem_iff_getElem?.2 ⟨id, taskAt⟩
  have flagsSmall := (inv.areas t member vma isArea).flags
  have permSmall := form.lt flagsSmall
  have valid := (form.flags flagsSmall).1
  have frameSmall : frame < 2 ^ 44 := by
    rcases inv.allocator with ⟨_, allocator, _⟩
    exact allocator.lt_ppn live
  obtain ⟨hasV, ppn, fits⟩ := entry_holds frameSmall permSmall valid
  have inside := treeDom_user taskAt user
  have ptes := move_pte inv taskAt user reached written fits
  have stays : ∀ other, ramBase ≤ other → released ≠ some other →
      count after other = count m other := by
    intro other lower kept
    rw [counts other lower, if_neg kept, Nat.sub_zero]
  have moved : holds after.mem task (id, page) = some frame := by
    rw [holds_eq_some, ptes, if_pos rfl]
    exact ⟨hasV, ppn⟩
  have others : ∀ other, other ≠ (id, page) →
      holds after.mem task other = holds m.mem task other := by
    intro other different
    refine holds_congr ?_
    rw [ptes, if_neg different]
  have writes : ∀ other, other ≠ (id, page) →
      writable after.mem task other → writable m.mem task other := by
    intro other different
    refine (writable_congr ?_).1
    rw [ptes, if_neg different]
  refine inv.write inside reached written (by omega) fits allocator ?_ ?_ ?_
    bounded
  · intro other isLive away
    refine ⟨isLive.1, ?_⟩
    have kept : released ≠ some other := fun same =>
      away (id, page) rfl rfl (held other same)
    have positive := isLive.2
    show 0 < count after other
    rw [stays other isLive.1 kept]
    exact positive
  · intro slot owner sameId ownerAt _ _
    obtain rfl : slot = id := Nat.succ.inj sameId
    obtain rfl := Option.some_inj.1 (taskAt.symm.trans ownerAt)
    rw [ppn]
    exact ⟨live.1, notKernel, notTable, vma, isArea, covers, perm, form,
      by rw [ppn]⟩
  · have positive : 1 ≤ count after frame := by
      have kept : released ≠ some frame := fun same =>
        unheld _ (held frame same)
      rw [stays frame live.1 kept]
      exact live.2
    refine inv.sharing.move unheld positive moved others writes ?_ ?_
    · intro other holder heldBefore notHere
      have kept : released ≠ some other := fun same =>
        notHere (held other same)
      have lower := (inv.users holder other heldBefore).1.1
      exact (stays other lower kept).ge
    · intro other heldHere
      have lower := (inv.users _ other heldHere).1.1
      rw [counts other lower]
      split <;> omega

end Move

/-! ## The fresh frame and what is written to it -/

end Inv

/-- A fresh frame was taken and bytes were written to it only. -/
structure Prepared (cfg : Config) (task : List Task) (m : Machine)
    (frame : Nat) (after : Machine) : Prop where
  isFresh : ¬ Live m frame
  left : ∀ other, Free cfg.top after other →
    Free cfg.top m other ∧ other ≠ frame
  live : Live after frame
  counted : count after frame = 1
  live_of : ∀ other, Live m other → Live after other
  counts : ∀ other, Live m other → count after other = count m other
  same : ∀ other, other ≠ frame → SameFrame m.mem after.mem other
  pte : ∀ slot, pte after.mem task slot = pte m.mem task slot
  isTable : ∀ other, IsTable cfg task after.mem other ↔
    IsTable cfg task m.mem other

theorem Prepared.keepsFree {cfg : Config} {task : List Task} {frame : Nat}
    {m after : Machine} (prepared : Prepared cfg task m frame after) :
    KeepsFree cfg.top m after := by
  intro other free
  obtain ⟨before, different⟩ := prepared.left other free
  exact ⟨before, prepared.same other different⟩

namespace Inv

variable {cfg : Config} {task : List Task} {kernel : Finset Nat} {budget : Nat}
    {m after : Machine}

theorem prepare (inv : Inv cfg task kernel budget m) {zeroed : Bool}
    (succeeds : (allocPage zeroed m).2.oom = false) {mem : Bytes}
    (same : ∀ other, other ≠ (allocPage zeroed m).1 →
      SameFrame (allocPage zeroed m).2.mem mem other) :
    Inv cfg task kernel budget { (allocPage zeroed m).2 with mem } ∧
      Prepared cfg task m (allocPage zeroed m).1
        { (allocPage zeroed m).2 with mem } := by
  obtain ⟨allocInv, multi, _, allocated⟩ := inv.allocated succeeds
  obtain ⟨_, notTable, _⟩ := inv.apart_of_not_live allocated.isFresh
  have whole : ∀ other, other ≠ (allocPage zeroed m).1 →
      SameFrame m.mem mem other :=
    fun other different =>
      (allocated.sameFrame different).trans (same other different)
  have tables : ∀ other, IsTable cfg task m.mem other →
      SameFrame m.mem mem other := by
    intro other isTable
    refine whole other ?_
    rintro rfl
    exact notTable isTable
  have allocTables : ∀ other, IsTable cfg task m.mem other →
      SameFrame m.mem (allocPage zeroed m).2.mem other := by
    intro other isTable
    refine allocated.sameFrame ?_
    rintro rfl
    exact notTable isTable
  have still : ∀ other,
      IsTable cfg task (allocPage zeroed m).2.mem other →
        SameFrame (allocPage zeroed m).2.mem mem other := by
    intro other isTable
    refine same other ?_
    rintro rfl
    exact notTable ((inv.isTable_congr allocTables _).1 isTable)
  exact ⟨allocInv.withMem still,
    { isFresh := allocated.isFresh
      left := fun other free => allocated.left other (free.congr rfl)
      live := allocated.live
      counted := allocated.refCnt_frame
      live_of := fun other live => allocated.live_iff.2 (Or.inl live)
      counts := fun other live =>
        allocated.refCnt_eq live.1 (allocated.ne_of_live live)
      same := whole
      pte := inv.pte_congr tables
      isTable := inv.isTable_congr tables }⟩

theorem prepared_tables (inv : Inv cfg task kernel budget m) {frame : Nat}
    (prepared : Prepared cfg task m frame after) (other : Nat)
    (isTable : IsTable cfg task m.mem other) :
    SameFrame m.mem after.mem other := by
  refine prepared.same other ?_
  rintro rfl
  exact prepared.isFresh (inv.tables.live _ isTable)

theorem prepared_kernel (inv : Inv cfg task kernel budget m) {frame : Nat}
    (prepared : Prepared cfg task m frame after) : KernelKept cfg m after := by
  intro page upper small
  have entries := inv.leaf_congr (inv.prepared_tables prepared)
    (treeDom_kernel task.length upper small)
  exact entries

/-- A frame that was not in use is in no role after it was prepared. -/
theorem prepared_unused (inv : Inv cfg task kernel budget m) {frame : Nat}
    (prepared : Prepared cfg task m frame after) :
    frame ∉ kernel ∧ ¬ IsTable cfg task after.mem frame ∧
      ∀ slot, holds after.mem task slot ≠ some frame := by
  obtain ⟨notKernel, notTable, unheld⟩ :=
    inv.apart_of_not_live prepared.isFresh
  refine ⟨notKernel, fun isTable => notTable ((prepared.isTable _).1 isTable),
    fun slot held => unheld slot ?_⟩
  rw [← holds_congr (prepared.pte slot)]
  exact held

/-! ## The branch without copy-on-write -/

/-- Mapping a prepared frame where nothing is released. -/
theorem mapped (inv : Inv cfg task kernel budget m)
    {id page frame perm : Nat} {t : Task} {vma : Vma} {middle : Machine}
    (blank : Blank cfg middle) (taskAt : task[id]? = some t)
    (user : page < 2 ^ 26) (isArea : vma ∈ t.mmap) (covers : vma.Covers page)
    (form : UserPerm vma.vmFlags perm)
    (middleInv : Inv cfg task kernel budget middle)
    (prepared : Prepared cfg task m frame middle)
    (returns : createMapping cfg middle t.pgd (4096 * page) (4096 * frame) 4096
      perm = .ok after) (succeeds : after.oom = false) :
    Inv cfg task kernel budget after ∧
      Faulted cfg task m (id, page) frame perm none middle.mem after ∧
      KernelKept cfg m after := by
  have frameSmall : frame < 2 ^ 44 := by
    rcases middleInv.allocator with ⟨_, allocator, _⟩
    exact allocator.lt_ppn prepared.live
  obtain ⟨table, last, lastInv, reached, extended, lastKernel, rfl⟩ :=
    middleInv.createMapping_user blank taskAt user frameSmall returns succeeds
  obtain ⟨notKernel, notTable, unheld⟩ := inv.prepared_unused prepared
  have lastNotTable := extended.not_isTable prepared.live notTable
  have lastUnheld : ∀ slot, holds last.mem task slot ≠ some frame := by
    intro slot held
    rw [holds_congr (extended.pte slot)] at held
    exact unheld slot held
  have member := List.mem_iff_getElem?.2 ⟨id, taskAt⟩
  have flagsSmall := (inv.areas t member vma isArea).flags
  have fits := (entry_holds frameSmall (form.lt flagsSmall)
    (form.flags flagsSmall).1).2.2
  have inside := treeDom_user taskAt user
  have notHere : ∀ other, ¬ IsTable cfg task last.mem other →
      other ≠ table := by
    rintro other notTable rfl
    exact notTable ⟨id + 1, _, inside, reached⟩
  refine ⟨lastInv.moved taskAt user reached rfl isArea covers form
      (extended.live _ prepared.live) ⟨notKernel, lastNotTable, lastUnheld⟩ ?_
      (fun other _ => rfl)
      (fun other (release : other ∈ (none : Option Nat)) => by cases release)
      lastInv.bounded, ?_,
      ((inv.prepared_kernel prepared).trans lastKernel).trans
        (lastInv.write_kernel inside (Nat.succ_ne_zero id) (by omega) reached
          fits rfl)⟩
  · rcases lastInv.allocator with ⟨multi, allocator, kernelMulti⟩
    exact ⟨multi, ⟨allocator.small, allocator.pages, allocator.zero_live⟩,
      kernelMulti⟩
  · exact
      { isFresh := prepared.isFresh
        lower := prepared.live.1
        counted := (extended.count _ prepared.live).trans prepared.counted
        pte := fun other => by
          rw [move_pte lastInv taskAt user reached rfl fits other,
            extended.pte, prepared.pte]
        counts := fun other live =>
          (extended.count _ (prepared.live_of _ live)).trans
            (prepared.counts other live)
        held := fun other release => by cases release
        same := fun other live other_notTable => by
          have different : other ≠ frame := fun same =>
            prepared.isFresh (same ▸ live)
          have middleLive := prepared.live_of other live
          have middleNotTable : ¬ IsTable cfg task middle.mem other :=
            fun isTable => other_notTable ((prepared.isTable other).1 isTable)
          exact ((prepared.same other different).trans
            (extended.same other middleLive middleNotTable)).trans
            (sameFrame_setWord (index_lt _ _)
              (notHere other (extended.not_isTable middleLive middleNotTable)))
        isTable := fun other isTable => by
          have before := (write_isTable lastInv inside reached rfl other).1
            isTable
          refine ⟨fun same => lastNotTable (same ▸ before), ?_⟩
          rcases extended.isTable other before with old | dead
          · exact Or.inl ((prepared.isTable other).1 old)
          · exact Or.inr fun live => dead (prepared.live_of other live)
        filled := (extended.same _ prepared.live notTable).trans
          (sameFrame_setWord (index_lt _ _) (notHere frame lastNotTable)) }

/-! ## The copy-on-write branch -/

end Inv

theorem pfnOf_eq {frame : Nat} (lower : ramBase ≤ frame)
    (small : frame < 2 ^ 44) : pfnOf frame = frame - ramBase := by
  simp only [pfnOf, phyStart, ramBase] at *
  omega

theorem cowEntry_eq_some {mem : Bytes} {t : Task} {access : Access}
    {badAddr table position : Nat}
    (cow : cowEntry mem t access badAddr = some (table, position)) :
    access = .store ∧ position = index 0 (badAddr / 4096) ∧
      walk (findTable mem) t.pgd (path (badAddr / 4096)) = some table ∧
      has permV (word mem table position) ∧
      ¬ has permW (word mem table position) := by
  have number : pgRoundDown badAddr / 4096 = badAddr / 4096 := by
    rw [pgRoundDown_eq]
    omega
  cases access with
  | fetch => cases cow
  | load => cases cow
  | store =>
      simp only [cowEntry, findPte_eq_walk, number] at cow
      cases toLast : walk (findTable mem) t.pgd (path (badAddr / 4096)) with
      | none =>
          rw [toLast] at cow
          cases cow
      | some last =>
          rw [toLast] at cow
          simp only [Option.map_some] at cow
          split at cow
          · rename_i shared
            cases cow
            exact ⟨rfl, rfl, rfl, shared.1, fun write => write shared.2⟩
          · cases cow

theorem createMapping_oom {cfg : Config} {m after : Machine}
    {pgtbl va pa sz perm : Nat}
    (returns : createMapping cfg m pgtbl va pa sz perm = .ok after)
    (succeeds : after.oom = false) : m.oom = false := by
  rw [createMapping_ok returns] at succeeds
  exact succeeds_of_mono mapPages_oom_mono succeeds

/-- A round of `create_mapping` whose tables are there. -/
theorem mapPage_of_walk {cfg : Config} {m : Machine}
    {pgtbl va pa perm table : Nat}
    (reached : walk (findTable m.mem) pgtbl (path (va / 4096)) = some table)
    (nonNull : ∀ key frame, key <+: path (va / 4096) →
      walk (findTable m.mem) pgtbl key = some frame → frame ≠ nullFrame) :
    mapPage cfg m pgtbl va pa perm =
      (false, { m with
        mem := setWord m.mem table (index 0 (va / 4096))
          (entry ((pa >>> 12) &&& ppnMask) perm) }) := by
  have split : path (va / 4096) = [vpn 2 va] ++ [vpn 1 va] := by
    rw [vpn_eq_index, vpn_eq_index]
    rfl
  rw [split] at reached nonNull
  obtain ⟨pmd, toPmd, toTable⟩ := walk_snoc_eq_some.1 reached
  have toFirst : findTable m.mem pgtbl (vpn 2 va) = some pmd := by
    rw [← List.nil_append [vpn 2 va], walk_snoc] at toPmd
    exact toPmd
  have pmdFound : pmd ≠ nullFrame :=
    nonNull _ pmd (List.prefix_append _ _) toPmd
  have tableFound : table ≠ nullFrame :=
    nonNull _ table (List.prefix_refl _) reached
  rw [mapPage_eq pa perm (nextTable_of_some toFirst)
    (nextTable_of_some toTable) pmdFound tableFound, vpn_eq_index 0]

namespace Inv

variable {cfg : Config} {task : List Task} {kernel : Finset Nat} {budget : Nat}
    {m after : Machine}

/-- `put_page` on a frame that a user entry names. -/
theorem putPage_held (inv : Inv cfg task kernel budget m) {slot : Slot}
    {frame : Nat} (held : holds m.mem task slot = some frame) :
    ∃ buddy, putPage cfg m frame = .ok { m with buddy } ∧
      buddy.refCnt = Function.update m.buddy.refCnt (frame - ramBase)
        (m.buddy.refCnt (frame - ramBase) - 1) ∧
      (m.buddy.refCnt (frame - ramBase) = 1 →
        Free cfg.top { m with buddy } frame) ∧
      ∃ multi, Allocator cfg.top multi { m with buddy } ∧
        ∀ pfn ∈ multi, ramBase + pfn ∈ kernel := by
  rcases inv.allocator with ⟨multi, allocator, kernelMulti⟩
  obtain ⟨live, notKernel, _⟩ := inv.users slot frame held
  have pfn := pfnOf_eq live.1 (allocator.lt_ppn live)
  have back : ramBase + (frame - ramBase) = frame :=
    Nat.add_sub_cancel' live.1
  have single : frame - ramBase ∉ multi := fun member =>
    notKernel (back ▸ kernelMulti _ member)
  have notFirst : 0 ≠ frame - ramBase := by
    intro zero
    have same : frame = ramBase := by rw [← back, ← zero]
    exact notKernel (same ▸ inv.first)
  obtain ⟨counts, pages⟩ := allocator.pages.putPage live.2 single
  have inside := allocator.pages.lt_of_counted live.2
  refine ⟨m.buddy.putPage (frame - ramBase), ?_, counts, fun last =>
    ⟨live.1, by omega, allocator.pages.putPage_unused last⟩, multi,
    ⟨allocator.small, pages, ?_⟩, kernelMulti⟩
  · rw [putPage, pfn, if_pos inside]
  · show 0 < (m.buddy.putPage (frame - ramBase)).refCnt 0
    rw [counts, Function.update_of_ne notFirst]
    exact allocator.zero_live

/-- Moving a page off a shared frame. -/
theorem copied (inv : Inv cfg task kernel budget m) {id page src frame : Nat}
    {perm table : Nat} {t : Task} {vma : Vma} {middle released : Machine}
    (taskAt : task[id]? = some t) (user : page < 2 ^ 26)
    (isArea : vma ∈ t.mmap) (covers : vma.Covers page)
    (form : UserPerm vma.vmFlags perm)
    (middleInv : Inv cfg task kernel budget middle)
    (prepared : Prepared cfg task m frame middle)
    (reached : walk (findTable middle.mem) t.pgd (path page) = some table)
    (held : holds m.mem task (id, page) = some src)
    (put : putPage cfg middle src = .ok released)
    (returns : createMapping cfg released t.pgd (4096 * page) (4096 * frame)
      4096 perm = .ok after) :
    Inv cfg task kernel budget after ∧
      Faulted cfg task m (id, page) frame perm (some src) middle.mem after ∧
      KernelKept cfg m after ∧
      (count after src = 0 → Free cfg.top after src) := by
  have frameSmall : frame < 2 ^ 44 := by
    rcases middleInv.allocator with ⟨_, allocator, _⟩
    exact allocator.lt_ppn prepared.live
  have heldMiddle : holds middle.mem task (id, page) = some src := by
    rw [holds_congr (prepared.pte (id, page))]
    exact held
  obtain ⟨buddy, result, counts, frees, allocator⟩ :=
    middleInv.putPage_held heldMiddle
  rw [result] at put
  obtain rfl := Except.ok.inj put
  have inside := treeDom_user taskAt user
  have root := @treeRoot_task cfg _ _ _ taskAt
  have number : 4096 * page / 4096 = page := by omega
  have frameNumber : ((4096 * frame) >>> 12) &&& ppnMask = frame := by
    have mask : ppnMask = 2 ^ 44 - 1 := by decide
    rw [mask, Nat.and_two_pow_sub_one_eq_mod, Nat.shiftRight_eq_div_pow]
    omega
  have single := createMapping_page (by omega) (by omega) returns
  rw [mapPage_of_walk (by rw [number]; exact reached) ?_, number, frameNumber]
    at single
  · subst single
    rw [← root] at reached
    obtain ⟨notKernel, notTable, unheld⟩ := inv.prepared_unused prepared
    have member := List.mem_iff_getElem?.2 ⟨id, taskAt⟩
    have flagsSmall := (inv.areas t member vma isArea).flags
    have fits := (entry_holds frameSmall (form.lt flagsSmall)
      (form.flags flagsSmall).1).2.2
    have srcLive := (middleInv.users _ _ heldMiddle).1
    have notHere : ∀ other, ¬ IsTable cfg task middle.mem other →
        other ≠ table := by
      rintro other notTable rfl
      exact notTable ⟨id + 1, _, inside, reached⟩
    have countsOf : ∀ other, ramBase ≤ other →
        buddy.refCnt (other - ramBase) =
          count middle other - (if some src = some other then 1 else 0) := by
      intro other lower
      rw [counts, Function.update_apply]
      by_cases same : other = src
      · rw [if_pos (by rw [same]), if_pos (by rw [same]), same]
        rfl
      · rw [if_neg (by have := srcLive.1; omega),
          if_neg fun equal => same (Option.some_inj.1 equal).symm]
        rfl
    have frameNotSrc : src ≠ frame := by
      rintro rfl
      exact unheld _ heldMiddle
    refine ⟨middleInv.moved taskAt user reached rfl isArea covers form
        prepared.live ⟨notKernel, notTable, unheld⟩ ?_ countsOf ?_ ?_, ?_,
        (inv.prepared_kernel prepared).trans
          (middleInv.write_kernel inside (Nat.succ_ne_zero id) (by omega)
            reached fits rfl), fun zero => (frees ?_).congr rfl⟩
    · rcases allocator with ⟨multi, allocator, kernelMulti⟩
      exact ⟨multi, ⟨allocator.small, allocator.pages, allocator.zero_live⟩,
        kernelMulti⟩
    · intro other release
      rw [← Option.some_inj.1 release]
      exact heldMiddle
    · intro pfn
      show buddy.refCnt pfn ≤ budget
      rw [counts, Function.update_apply]
      split
      · exact (Nat.sub_le _ _).trans (middleInv.bounded _)
      · exact middleInv.bounded pfn
    · exact
        { isFresh := prepared.isFresh
          lower := prepared.live.1
          counted := by
            show buddy.refCnt (frame - ramBase) = 1
            rw [countsOf frame prepared.live.1,
              if_neg fun same => frameNotSrc (Option.some_inj.1 same),
              prepared.counted]
          pte := fun other => by
            rw [move_pte middleInv taskAt user reached rfl fits other,
              prepared.pte]
          counts := fun other live => by
            rw [← prepared.counts other live]
            exact countsOf other live.1
          held := fun other release => by
            rw [← Option.some_inj.1 release]
            exact held
          same := fun other live other_notTable => by
            have different : other ≠ frame := fun same =>
              prepared.isFresh (same ▸ live)
            exact (prepared.same other different).trans
              (sameFrame_setWord (index_lt _ _) (notHere other fun isTable =>
                other_notTable ((prepared.isTable other).1 isTable)))
          isTable := fun other isTable => by
            have before := (write_isTable middleInv inside reached rfl other).1
              isTable
            exact ⟨fun same => notTable (same ▸ before),
              Or.inl ((prepared.isTable other).1 before)⟩
          filled := sameFrame_setWord (index_lt _ _) (notHere frame notTable) }
    · have counted := srcLive.2
      replace zero : buddy.refCnt (src - ramBase) = 0 := zero
      rw [counts, Function.update_self] at zero
      omega
  · -- The tables on the way are in use, so none is the `NULL` page.
    rw [number]
    intro key other isPrefix toOther
    rcases middleInv.allocator with ⟨_, live, _⟩
    refine Nat.ne_of_lt (live.lt_nullFrame (middleInv.tables.live other ?_))
    rw [← root] at toOther
    exact ⟨id + 1, key, (treeDom_closed _).ofPrefix inside isPrefix, toOther⟩

/-! ## `do_page_fault` -/

/-- What the branch without copy-on-write puts on the page. -/
def demandFill (cfg : Config) (m : Machine) (vma : Vma) (badAddr : Nat) :
    Bytes :=
  if vma.vmFlags &&& vmAnon = 0 then
    copyFromFile cfg (cfg.allocPage m).2.mem vma (cfg.allocPage m).1 badAddr
  else (cfg.allocPage m).2.mem

/-- It fills nothing but the page. -/
theorem sameFrame_demandFill {vma : Vma} {badAddr other : Nat}
    (small : badAddr < 2 ^ 38) (contains : vma.Contains badAddr)
    (different : other ≠ (cfg.allocPage m).1) :
    SameFrame (cfg.allocPage m).2.mem (demandFill cfg m vma badAddr) other := by
  rw [demandFill]
  split
  · exact sameFrame_copyFromFile small contains different
  · exact SameFrame.refl _ _

/-- What a page fault that returns has done, and that the kernel's pages stay. -/
theorem doPageFault_kept (inv : Inv cfg task kernel budget m)
    (blank : Blank cfg m) {id badAddr : Nat} {t : Task}
    {access : Access} (taskAt : task[id]? = some t)
    (returns : Vm.doPageFault cfg m t access badAddr = .ok after)
    (succeeds : after.oom = false) :
    ∃ vma, findVma t.mmap badAddr = some vma ∧ has access.vmFlag vma.vmFlags ∧
      Inv cfg task kernel budget after ∧ KernelKept cfg m after ∧
      Returned cfg m after ∧
      match cowEntry m.mem t access badAddr with
      | none =>
          Faulted cfg task m (id, badAddr / 4096) (cfg.allocPage m).1
            (pagePerm vma.vmFlags) none (demandFill cfg m vma badAddr) after
      | some (table, position) =>
          Faulted cfg task m (id, badAddr / 4096) (cfg.allocPage m).1
            (pagePerm vma.vmFlags)
            (some (entryPpn (word m.mem table position)))
            (copyFrame (cfg.allocPage m).2.mem (cfg.allocPage m).1
              (entryPpn (word m.mem table position))) after := by
  have member := List.mem_iff_getElem?.2 ⟨id, taskAt⟩
  simp only [Vm.doPageFault] at returns
  cases found : findVma t.mmap badAddr with
  | none =>
      rw [found] at returns
      cases returns
  | some vma =>
      obtain ⟨isArea, area, contains, addrSmall, user⟩ :=
        inv.fault_page member found
      have covers : vma.Covers (badAddr / 4096) := ⟨badAddr, contains, rfl⟩
      rw [found] at returns
      dsimp only at returns
      split at returns
      · cases returns
      rename_i granted
      refine ⟨vma, rfl, granted, ?_⟩
      cases cow : cowEntry m.mem t access badAddr with
      | none =>
          rw [cow, pgRoundDown_eq] at returns
          replace returns : createMapping cfg
              { (cfg.allocPage m).2 with mem := demandFill cfg m vma badAddr }
              t.pgd _ _ 4096 _ = .ok after := returns
          have before := createMapping_oom returns succeeds
          have allocOk : (cfg.allocPage m).2.oom = false := before
          obtain ⟨middleInv, prepared⟩ := inv.prepare allocOk
            fun other different =>
              sameFrame_demandFill addrSmall contains different
          obtain ⟨afterInv, faulted, kernelKept⟩ := inv.mapped
            (blank.mono prepared.keepsFree) taskAt user isArea covers
            (Or.inl rfl) middleInv prepared returns succeeds
          refine ⟨afterInv, kernelKept, faulted.returned ?_, faulted⟩
          rintro src ⟨⟩
      | some slot =>
          obtain ⟨table, position⟩ := slot
          obtain ⟨_, rfl, reached, valid, _⟩ := cowEntry_eq_some cow
          rw [cow, pgRoundDown_eq] at returns
          dsimp only at returns
          cases put : putPage cfg
              { (cfg.allocPage m).2 with
                mem := copyFrame (cfg.allocPage m).2.mem (cfg.allocPage m).1
                  (entryPpn (word (cfg.allocPage m).2.mem table
                    (index 0 (badAddr / 4096)))) }
              (entryPpn (word (cfg.allocPage m).2.mem table
                (index 0 (badAddr / 4096)))) with
          | error stop =>
              rw [put] at returns
              cases returns
          | ok released =>
              rw [put] at returns
              replace returns : createMapping cfg released t.pgd _ _ 4096 _ =
                .ok after := returns
              have allocOk : (cfg.allocPage m).2.oom = false := by
                have before := createMapping_oom returns succeeds
                rw [putPage] at put
                split at put
                · rw [← Except.ok.inj put] at before
                  exact before
                · cases put
              obtain ⟨allocInv, multi, _, allocated⟩ := inv.allocated allocOk
              have isTable : IsTable cfg task m.mem table :=
                ⟨id + 1, _, treeDom_user taskAt user,
                  @treeRoot_task cfg _ _ _ taskAt ▸ reached⟩
              have sameEntry : word (cfg.allocPage m).2.mem table
                  (index 0 (badAddr / 4096)) =
                  word m.mem table (index 0 (badAddr / 4096)) :=
                (allocated.sameFrame (allocated.ne_of_live
                  (inv.tables.live table isTable))).word (index_lt _ _)
              rw [sameEntry] at put
              obtain ⟨middleInv, prepared⟩ := inv.prepare allocOk
                fun other different => sameFrame_copyFrame different
              have held : holds m.mem task (id, badAddr / 4096) =
                  some (entryPpn (word m.mem table
                    (index 0 (badAddr / 4096)))) := by
                rw [holds_eq_some, pte_task taskAt user, leaf_of_walk reached]
                exact ⟨valid, rfl⟩
              have tables : ∀ other, IsTable cfg task m.mem other →
                  SameFrame m.mem (copyFrame (cfg.allocPage m).2.mem
                    (cfg.allocPage m).1 (entryPpn (word m.mem table
                      (index 0 (badAddr / 4096))))) other := by
                intro other isTable
                refine prepared.same other ?_
                rintro rfl
                exact prepared.isFresh (inv.tables.live _ isTable)
              have middleReached := inv.walks_congr tables
                (treeDom_user taskAt user)
              rw [treeRoot_task taskAt, reached] at middleReached
              obtain ⟨afterInv, faulted, kernelKept, frees⟩ := inv.copied
                taskAt user isArea covers (Or.inl rfl) middleInv prepared
                middleReached held put returns
              refine ⟨afterInv, kernelKept, faulted.returned ?_, faulted⟩
              intro src release
              rw [← Option.some_inj.1 release]
              exact frees

/-- What a page fault that returns has done. -/
theorem doPageFault (inv : Inv cfg task kernel budget m)
    (blank : Blank cfg m) {id badAddr : Nat} {t : Task}
    {access : Access} (taskAt : task[id]? = some t)
    (returns : Vm.doPageFault cfg m t access badAddr = .ok after)
    (succeeds : after.oom = false) :
    ∃ vma, findVma t.mmap badAddr = some vma ∧ has access.vmFlag vma.vmFlags ∧
      Inv cfg task kernel budget after ∧
      match cowEntry m.mem t access badAddr with
      | none =>
          Faulted cfg task m (id, badAddr / 4096) (cfg.allocPage m).1
            (pagePerm vma.vmFlags) none (demandFill cfg m vma badAddr) after
      | some (table, position) =>
          Faulted cfg task m (id, badAddr / 4096) (cfg.allocPage m).1
            (pagePerm vma.vmFlags)
            (some (entryPpn (word m.mem table position)))
            (copyFrame (cfg.allocPage m).2.mem (cfg.allocPage m).1
              (entryPpn (word m.mem table position))) after := by
  obtain ⟨vma, found, allowed, afterInv, _, _, faulted⟩ :=
    inv.doPageFault_kept blank taskAt returns succeeds
  exact ⟨vma, found, allowed, afterInv, faulted⟩

end Inv

end TinyRiscvOs.Vm
