import TinyRiscvOs.Vm.Plant

/-!
# Sharing a page with a child

One round of the inner loop of `do_fork`: the frame gets another reference, the
entry of the parent loses `PERM_W`, and the child maps the frame without it.
The round keeps the invariant, and the tables of all tasks but the child's are
those there were.
-/

namespace TinyRiscvOs.Vm

open TinyRiscvOs.Lib
open TinyRiscvOs.Mm

/-! ## Trees that a mapping leaves alone -/

/-- The walks of all trees but one are as before, and so are the free pages. -/
structure Elsewhere (cfg : Config) (task : List Task) (but : Nat)
    (m after : Machine) : Prop where
  walk : ∀ id path, id ≠ but → treeDom task.length id path →
    walk (findTable after.mem) (treeRoot cfg task id) path =
      walk (findTable m.mem) (treeRoot cfg task id) path
  free : KeepsFree cfg.top m after

namespace Elsewhere

variable {cfg : Config} {task : List Task} {but : Nat} {m middle after : Machine}

theorem refl (cfg : Config) (task : List Task) (but : Nat) (m : Machine) :
    Elsewhere cfg task but m m :=
  ⟨fun _ _ _ _ => rfl, KeepsFree.refl cfg.top m⟩

theorem trans (first : Elsewhere cfg task but m middle)
    (second : Elsewhere cfg task but middle after) :
    Elsewhere cfg task but m after where
  walk id path other inside :=
    (second.walk id path other inside).trans (first.walk id path other inside)
  free := first.free.trans second.free

end Elsewhere

namespace Inv

variable {cfg : Config} {task : List Task} {kernel : Finset Nat} {budget : Nat}
    {m after : Machine}

theorem next_elsewhere (inv : Inv cfg task kernel budget m)
    (blank : Blank cfg m) {id position table : Nat} {path : List Nat}
    (inside : treeDom task.length id (path ++ [position]))
    (reached : walk (findTable m.mem) (treeRoot cfg task id) path = some table)
    (succeeds : (nextTable cfg m table position).2.oom = false) :
    Elsewhere cfg task id m (nextTable cfg m table position).2 := by
  refine ⟨fun other otherPath different otherInside => ?_,
    inv.next_keepsFree inside reached succeeds⟩
  rcases inv.allocator with ⟨multi, allocator, _⟩
  rcases nextTable_cases allocator succeeds with ⟨next, _, result⟩ | hung
  · rw [result]
  · have zeros := hung.zeros blank
      (inv.tables.reached_live (treeDom_closed _ _ _ _ inside) reached)
      (inv.tables.last_small inside)
    refine Option.ext fun last => ?_
    rw [hung_walk inv hung zeros inside reached otherInside]
    constructor
    · rintro (old | ⟨same, _⟩)
      · exact old
      · exact absurd same different
    · exact Or.inl

/-- Writing an entry leaves the free pages alone. -/
theorem write_keepsFree (inv : Inv cfg task kernel budget m)
    {id page table value : Nat} (inside : treeDom task.length id (path page))
    (reached : walk (findTable m.mem) (treeRoot cfg task id) (path page) =
      some table)
    (written : after.mem = setWord m.mem table (index 0 page) value)
    (bitmap : after.buddy.bitmap = m.buddy.bitmap) :
    KeepsFree cfg.top m after := by
  intro frame free
  have before := free.congr bitmap
  refine ⟨before, ?_⟩
  rw [written]
  refine sameFrame_setWord (index_lt _ _) ?_
  rintro rfl
  rcases inv.allocator with ⟨_, allocator, _⟩
  exact allocator.not_free (inv.tables.reached_live inside reached) before

theorem mapPage_elsewhere (inv : Inv cfg task kernel budget m)
    (blank : Blank cfg m) {id va pa perm : Nat}
    (inside : treeDom task.length id (path (va / 4096)))
    (owner : id ≠ 0 ∨ task = [])
    (succeeds : (Vm.mapPage cfg m (treeRoot cfg task id) va pa perm).2.oom =
      false) :
    Elsewhere cfg task id m
      (Vm.mapPage cfg m (treeRoot cfg task id) va pa perm).2 := by
  obtain ⟨firstOk, secondOk⟩ := mapPage_succeeds succeeds
  have split : path (va / 4096) = [vpn 2 va] ++ [vpn 1 va] := by
    rw [vpn_eq_index, vpn_eq_index]
    rfl
  have whole := inside
  rw [split] at inside
  have firstInside : treeDom task.length id ([] ++ [vpn 2 va]) :=
    treeDom_closed _ _ _ _ inside
  have live {machine : Machine} {root frame : Nat} {key : List Nat}
      (machineInv : Inv cfg task kernel budget machine)
      (keyInside : treeDom task.length root key)
      (toFrame : walk (findTable machine.mem) (treeRoot cfg task root) key =
        some frame) : frame ≠ nullFrame := by
    rcases machineInv.allocator with ⟨_, allocator, _⟩
    exact Nat.ne_of_lt (allocator.lt_nullFrame
      (machineInv.tables.reached_live keyInside toFrame))
  obtain ⟨firstInv, firstWalk, _⟩ :=
    inv.next blank firstInside rfl owner firstOk
  have firstSame := inv.next_elsewhere blank firstInside rfl firstOk
  have middleBlank := blank.mono firstSame.free
  rcases first : nextTable cfg m (treeRoot cfg task id) (vpn 2 va) with
    ⟨pmd, middle⟩
  rw [first] at firstInv firstWalk firstSame secondOk middleBlank
  have pmdFound : pmd ≠ nullFrame := live firstInv firstInside firstWalk
  obtain ⟨lastInv, lastWalk, _⟩ :=
    firstInv.next middleBlank inside firstWalk owner (secondOk pmdFound)
  have lastSame := firstInv.next_elsewhere middleBlank inside firstWalk
    (secondOk pmdFound)
  rcases second : nextTable cfg middle pmd (vpn 1 va) with ⟨table, last⟩
  rw [second] at lastInv lastWalk lastSame
  have tableFound : table ≠ nullFrame := live lastInv inside lastWalk
  rw [mapPage_eq pa perm first second pmdFound tableFound, vpn_eq_index 0]
  have lastReached : walk (findTable last.mem) (treeRoot cfg task id)
      (path (va / 4096)) = some table := by
    rw [split]
    exact lastWalk
  refine (firstSame.trans lastSame).trans ⟨fun other otherPath _ otherInside =>
    write_walk lastInv whole lastReached rfl otherInside, ?_⟩
  exact lastInv.write_keepsFree whole lastReached rfl rfl

/-- Mapping a page of a task leaves the other trees alone. -/
theorem createMapping_elsewhere (inv : Inv cfg task kernel budget m)
    (blank : Blank cfg m) {id page frame perm : Nat} {t : Task}
    (taskAt : task[id]? = some t) (user : page < 2 ^ 26)
    (frameSmall : frame < 2 ^ 44)
    (returns : createMapping cfg m t.pgd (4096 * page) (4096 * frame) 4096
      perm = .ok after) (succeeds : after.oom = false) :
    Elsewhere cfg task (id + 1) m after := by
  have single := createMapping_page (by omega) (by omega) returns
  have number : 4096 * page / 4096 = page := by omega
  have inside := treeDom_user taskAt user
  rw [← number] at inside
  rw [← @treeRoot_task cfg _ _ _ taskAt] at single
  rw [← single] at succeeds ⊢
  exact inv.mapPage_elsewhere blank inside (Or.inl (Nat.succ_ne_zero id))
    succeeds

/-! ## Another reference -/

/-- `get_page` on a frame that a user entry names. -/
theorem getPage_held (inv : Inv cfg task kernel budget m)
    (noWrap : budget + 1 < 2 ^ 64) {slot : Slot} {frame : Nat}
    (held : holds m.mem task slot = some frame) (pgtbl : Nat) :
    ∃ buddy, getPage cfg m pgtbl frame = .ok (0, { m with buddy }) ∧
      buddy.refCnt = Function.update m.buddy.refCnt (frame - ramBase)
        (m.buddy.refCnt (frame - ramBase) + 1) ∧
      buddy.bitmap = m.buddy.bitmap ∧
      Inv cfg task kernel (budget + 1) { m with buddy } := by
  rcases inv.allocator with ⟨multi, allocator, kernelMulti⟩
  obtain ⟨live, _, _⟩ := inv.users slot frame held
  have pfn := pfnOf_eq live.1 (allocator.lt_ppn live)
  have bound := inv.bounded (frame - ramBase)
  obtain ⟨fine, counts, pages⟩ := allocator.pages.getPage live.2
    (by simp only [wordModulus]; omega)
  have grown : ∀ pfn, m.buddy.refCnt pfn ≤
      (m.buddy.getPage (frame - ramBase)).2.refCnt pfn := by
    intro pfn
    rw [counts, Function.update_apply]
    split
    · rename_i same
      rw [same]
      exact Nat.le_succ _
    · exact Nat.le_refl _
  have bitmap : (m.buddy.getPage (frame - ramBase)).2.bitmap =
      m.buddy.bitmap := by
    rw [Buddy.getPage]
    split <;> rfl
  refine ⟨(m.buddy.getPage (frame - ramBase)).2, ?_, counts, bitmap, ?_⟩
  · simp only [getPage, pfn, if_pos (allocator.pages.lt_of_counted live.2),
      fine]
  · refine inv.congr ⟨multi, ⟨allocator.small, pages,
      allocator.zero_live.trans_le (grown 0)⟩, kernelMulti⟩
      (Finset.Subset.refl _) (fun other member => Or.inl member)
      (fun other isLive => ⟨isLive.1, isLive.2.trans_le (grown _)⟩)
      (fun other _ => grown _) (fun other _ => SameFrame.refl _ _) fun pfn => ?_
    show (m.buddy.getPage (frame - ramBase)).2.refCnt pfn ≤ budget + 1
    rw [counts, Function.update_apply]
    split
    · exact Nat.succ_le_succ bound
    · exact (inv.bounded pfn).trans (Nat.le_succ _)

end Inv

/-! ## No more writing -/

/-- An entry of a last table is written. -/
def setEntry (m : Machine) (table page value : Nat) : Machine :=
  { m with mem := setWord m.mem table (index 0 page) value }

/-- The entry with `PERM_W` cleared. -/
def readOnly (value : Nat) : Nat :=
  value &&& complement permW

theorem not_has_readOnly (value : Nat) : ¬ has permW (readOnly value) :=
  not_has_permW value

namespace Inv

variable {cfg : Config} {task : List Task} {kernel : Finset Nat} {budget : Nat}
    {m after : Machine}

section Protect

variable {id page table : Nat} {t : Task} (inv : Inv cfg task kernel budget m)
    (taskAt : task[id]? = some t) (user : page < 2 ^ 26)
    (reached : walk (findTable m.mem) (treeRoot cfg task (id + 1))
      (path page) = some table)
    (valid : has permV (word m.mem table (index 0 page)))

include inv taskAt user reached valid

/-- The entry of a user page in its parts. -/
theorem entry_parts :
    ∃ vma ∈ t.mmap, vma.Covers page ∧ vma.vmFlags < 16 ∧ ∃ perm,
      UserPerm vma.vmFlags perm ∧ word m.mem table (index 0 page) =
        entry (entryPpn (word m.mem table (index 0 page))) perm ∧
      readOnly (word m.mem table (index 0 page)) =
        entry (entryPpn (word m.mem table (index 0 page)))
          (perm &&& complement permW) := by
  rw [treeRoot_task taskAt] at reached
  have granted := inv.granted id t page taskAt user
    (by rw [leaf_of_walk reached]; exact valid)
  rw [leaf_of_walk reached] at granted
  obtain ⟨vma, isArea, covers, perm, form, parts⟩ := granted
  have member := List.mem_iff_getElem?.2 ⟨id, taskAt⟩
  refine ⟨vma, isArea, covers, (inv.areas t member vma isArea).flags, perm, form,
    parts, ?_⟩
  rw [readOnly, ← entry_and_complement (entryPpn_lt _) (by decide), ← parts]

/-- `PERM_W` of an entry in use is cleared. -/
theorem protect :
    Inv cfg task kernel budget (setEntry m table page
        (readOnly (word m.mem table (index 0 page)))) ∧
      has permV (readOnly (word m.mem table (index 0 page))) ∧
      entryPpn (readOnly (word m.mem table (index 0 page))) =
        entryPpn (word m.mem table (index 0 page)) ∧
      ∀ slot, pte (setEntry m table page
          (readOnly (word m.mem table (index 0 page)))).mem task slot =
        if slot = (id, page) then readOnly (word m.mem table (index 0 page))
        else pte m.mem task slot := by
  obtain ⟨vma, isArea, covers, flagsSmall, perm, form, _, clear⟩ :=
    inv.entry_parts taskAt user reached valid
  have permSmall := form.readOnly.lt flagsSmall
  obtain ⟨stillValid, samePpn, fits⟩ := entry_holds
    (entryPpn_lt (word m.mem table (index 0 page))) permSmall
    (form.readOnly.flags flagsSmall).1
  rw [← clear] at stillValid samePpn fits
  have inside := treeDom_user taskAt user
  have here : pte m.mem task (id, page) = word m.mem table (index 0 page) := by
    rw [pte_task taskAt user, ← @treeRoot_task cfg _ _ _ taskAt,
      leaf_of_walk reached]
  have ptes : ∀ slot, pte (setEntry m table page
      (readOnly (word m.mem table (index 0 page)))).mem task slot =
      if slot = (id, page) then readOnly (word m.mem table (index 0 page))
      else pte m.mem task slot := by
    intro slot
    refine (write_pte inv inside reached rfl (by omega) fits slot).trans ?_
    by_cases same : slot = (id, page)
    · rw [if_pos same, if_pos]
      rw [same]
      exact ⟨rfl, rfl, t, taskAt, user⟩
    · rw [if_neg same, if_neg]
      rintro ⟨sameId, samePage, _⟩
      exact same (Prod.ext (Nat.succ.inj sameId) samePage)
  refine ⟨?_, stillValid, samePpn, ptes⟩
  rcases inv.allocator with ⟨multi, allocator, kernelMulti⟩
  have held : holds m.mem task (id, page) =
      some (entryPpn (word m.mem table (index 0 page))) := by
    rw [holds_eq_some, here]
    exact ⟨valid, rfl⟩
  obtain ⟨live, notKernel, notTable⟩ := inv.users _ _ held
  refine inv.write inside reached rfl (by omega) fits
    ⟨multi, ⟨allocator.small, allocator.pages, allocator.zero_live⟩,
      kernelMulti⟩
    (fun frame isLive _ => isLive) ?_ ?_ inv.bounded
  · intro slot owner sameId ownerAt _ _
    obtain rfl : slot = id := Nat.succ.inj sameId
    obtain rfl := Option.some_inj.1 (taskAt.symm.trans ownerAt)
    rw [samePpn]
    refine ⟨live.1, notKernel, notTable, vma, isArea, covers, _, form.readOnly,
      ?_⟩
    rw [samePpn]
    exact clear
  · refine inv.sharing.congr (fun slot => ?_) (fun slot => ?_)
      fun frame slot _ => Nat.le_refl _
    · by_cases same : slot = (id, page)
      · subst same
        rw [held, holds_eq_some, ptes, if_pos rfl]
        exact ⟨stillValid, samePpn⟩
      · refine holds_congr ?_
        rw [ptes, if_neg same]
    · by_cases same : slot = (id, page)
      · intro writes
        rw [writable, ptes, if_pos same] at writes
        exact absurd writes (not_has_readOnly _)
      · refine (writable_congr ?_).1
        rw [ptes, if_neg same]

end Protect

end Inv

/-! ## One round of `do_fork` -/

/-- A page of the parent is now shared with the child. -/
structure Shared (cfg : Config) (task : List Task) (parent child page value : Nat)
    (m after : Machine) : Prop where
  pte : ∀ slot, pte after.mem task slot =
    if slot = (child, page) ∨ slot = (parent, page) then readOnly value
    else pte m.mem task slot
  live : ∀ frame, Live m frame → Live after frame
  counts : ∀ frame, Live m frame → count after frame =
    count m frame + (if frame = entryPpn value then 1 else 0)
  same : ∀ frame, Live m frame → ¬ IsTable cfg task m.mem frame →
    SameFrame m.mem after.mem frame
  isTable : ∀ frame, IsTable cfg task after.mem frame →
    IsTable cfg task m.mem frame ∨ ¬ Live m frame
  trees : Elsewhere cfg task (child + 1) m after

/-- `get_page` succeeds, the entry is there: what is left is the mapping. -/
theorem sharePage_eq {cfg : Config} {m : Machine} {t : Task} {buddy : Buddy}
    {childPgd addr frame table page : Nat}
    (taken : getPage cfg m t.pgd frame = .ok (0, { m with buddy })) :
    sharePage cfg m t childPgd addr (some (table, index 0 page)) frame =
      createMapping cfg
        (setEntry { m with buddy } table page
          (readOnly (word m.mem table (index 0 page))))
        childPgd addr (4096 * frame) 4096
        (readOnly (word m.mem table (index 0 page)) &&& 0xff &&&
          complement permW) := by
  rw [sharePage, taken]
  rfl

theorem createMapping_page_ok (cfg : Config) (m : Machine)
    (pgtbl va pa perm : Nat) :
    ∃ after, createMapping cfg m pgtbl va pa 4096 perm = .ok after := by
  have fits : 4096 ≤ 2 ^ 64 - 4096 := by decide
  exact ⟨_, if_pos (Or.inr fits)⟩

namespace Inv

variable {cfg : Config} {task : List Task} {kernel : Finset Nat} {budget : Nat}
    {m after : Machine}

section Share

variable {parent child page table : Nat} {t c : Task}
    (inv : Inv cfg task kernel budget m) (parentAt : task[parent]? = some t)
    (user : page < 2 ^ 26)
    (reached : walk (findTable m.mem) (treeRoot cfg task (parent + 1))
      (path page) = some table)
    (valid : has permV (word m.mem table (index 0 page)))

include inv parentAt user reached valid

/-- Once no slot writes to the frame, the child may hold it too. -/
theorem share_sharing
    (ptes : ∀ slot, pte after.mem task slot =
      if slot = (child, page) ∨ slot = (parent, page) then
        readOnly (word m.mem table (index 0 page))
      else pte m.mem task slot)
    (counts : ∀ frame, Live m frame → count m frame +
      (if frame = entryPpn (word m.mem table (index 0 page)) then 1 else 0) ≤
        count after frame)
    (stillValid : has permV (readOnly (word m.mem table (index 0 page))))
    (samePpn : entryPpn (readOnly (word m.mem table (index 0 page))) =
      entryPpn (word m.mem table (index 0 page))) :
    Sharing (holds after.mem task) (writable after.mem task) (count after) := by
  have held : holds m.mem task (parent, page) =
      some (entryPpn (word m.mem table (index 0 page))) := by
    rw [holds_eq_some, pte_task parentAt user,
      ← @treeRoot_task cfg _ _ _ parentAt, leaf_of_walk reached]
    exact ⟨valid, rfl⟩
  have live := (inv.users _ _ held).1
  have locked : ∀ slot, slot = (child, page) ∨ slot = (parent, page) →
      holds after.mem task slot =
          some (entryPpn (word m.mem table (index 0 page))) ∧
        ¬ writable after.mem task slot := by
    intro slot here
    rw [holds_eq_some, writable, ptes, if_pos here]
    exact ⟨⟨stillValid, samePpn⟩, not_has_readOnly _⟩
  have grown : Sharing (holds m.mem task) (writable m.mem task)
      (count after) :=
    inv.sharing.congr (fun slot => rfl) (fun slot => id)
      fun frame slot heldThere =>
        (Nat.le_add_right _ _).trans
          (counts frame (inv.users slot frame heldThere).1)
  have spare : Spare (holds m.mem task) (count after) (child, page)
      (entryPpn (word m.mem table (index 0 page))) := by
    refine inv.sharing.spare_of_taken ?_
    have taken := counts _ live
    rwa [if_pos rfl] at taken
  refine grown.share spare (locked _ (Or.inl rfl)).1 ?_ ?_ ?_
  · intro slot notChild
    by_cases isParent : slot = (parent, page)
    · rw [(locked slot (Or.inr isParent)).1, isParent, held]
    · refine holds_congr ?_
      rw [ptes, if_neg (not_or.2 ⟨notChild, isParent⟩)]
  · intro slot notChild writes
    by_cases isParent : slot = (parent, page)
    · exact absurd writes (locked slot (Or.inr isParent)).2
    · rw [writable, ptes, if_neg (not_or.2 ⟨notChild, isParent⟩)] at writes
      exact writes
  · intro slot heldThere writes
    by_cases here : slot = (child, page) ∨ slot = (parent, page)
    · exact (locked slot here).2 writes
    · have same : pte after.mem task slot = pte m.mem task slot := by
        rw [ptes, if_neg here]
      rw [holds_congr same] at heldThere
      rw [writable_congr same] at writes
      have sameSlot := inv.sharing.exclusive slot (parent, page) _ writes
        heldThere held
      exact here (Or.inr sameSlot.symm)

/-- The body of the loop of `do_fork` for a mapped page. -/
theorem share (blank : Blank cfg m) (noWrap : budget + 1 < 2 ^ 64)
    (childAt : task[child]? = some c) (granted : t.mmap ⊆ c.mmap) :
    ∃ after, sharePage cfg m t c.pgd (4096 * page) (some (table, index 0 page))
        (entryPpn (word m.mem table (index 0 page))) = .ok after ∧
      (after.oom = false → Inv cfg task kernel (budget + 1) after ∧
        Shared cfg task parent child page (word m.mem table (index 0 page)) m
          after ∧ KernelKept cfg m after) := by
  have held : holds m.mem task (parent, page) =
      some (entryPpn (word m.mem table (index 0 page))) := by
    rw [holds_eq_some, pte_task parentAt user,
      ← @treeRoot_task cfg _ _ _ parentAt, leaf_of_walk reached]
    exact ⟨valid, rfl⟩
  obtain ⟨vma, isArea, covers, flagsSmall, perm, form, _, clear⟩ :=
    inv.entry_parts parentAt user reached valid
  have permSmall := form.readOnly.lt flagsSmall
  obtain ⟨buddy, taken, refCnt, bitmap, takenInv⟩ :=
    inv.getPage_held noWrap held t.pgd
  obtain ⟨clearInv, stillValid, samePpn, clearPtes⟩ :=
    takenInv.protect parentAt user reached valid
  have childPerm : readOnly (word m.mem table (index 0 page)) &&& 0xff &&&
      complement permW = perm &&& complement permW := by
    rw [clear, entry_and_ff permSmall, Nat.and_assoc, Nat.and_self]
  rw [sharePage_eq taken, childPerm]
  obtain ⟨after, returns⟩ := createMapping_page_ok cfg
    (setEntry { m with buddy } table page
      (readOnly (word m.mem table (index 0 page)))) c.pgd (4096 * page)
    (4096 * entryPpn (word m.mem table (index 0 page)))
    (perm &&& complement permW)
  refine ⟨after, returns, fun succeeds => ?_⟩
  have inside := treeDom_user parentAt user
  have childInside := treeDom_user childAt user
  have fits : readOnly (word m.mem table (index 0 page)) < 2 ^ 64 :=
    Nat.and_le_left.trans_lt (word_lt _ _ _)
  have cleared : (setEntry { m with buddy } table page
      (readOnly (word m.mem table (index 0 page)))).mem =
      setWord m.mem table (index 0 page)
        (readOnly (word m.mem table (index 0 page))) := rfl
  have live : ∀ frame, Live m frame → Live { m with buddy } frame := by
    intro frame isLive
    refine ⟨isLive.1, ?_⟩
    show 0 < buddy.refCnt _
    rw [refCnt, Function.update_apply]
    split
    · exact Nat.succ_pos _
    · exact isLive.2
  have keeps := inv.write_keepsFree inside reached cleared bitmap
  have clearBlank := blank.mono keeps
  have trees := clearInv.createMapping_elsewhere clearBlank childAt user
    (entryPpn_lt _) returns succeeds
  have clearKernel := takenInv.write_kernel inside (Nat.succ_ne_zero parent)
    (by omega) reached fits cleared
  obtain ⟨childTable, last, lastInv, toChild, extended, lastKernel, result⟩ :=
    clearInv.createMapping_user clearBlank childAt user (entryPpn_lt _) returns
      succeeds
  rw [← clear] at result
  replace result : after = setEntry last childTable page
    (readOnly (word m.mem table (index 0 page))) := result
  have written : after.mem = setWord last.mem childTable (index 0 page)
      (readOnly (word m.mem table (index 0 page))) := by
    rw [result]
    rfl
  have counts : ∀ frame, Live m frame → count last frame = count m frame +
      (if frame = entryPpn (word m.mem table (index 0 page)) then 1 else 0) := by
    intro frame isLive
    have base := (inv.users _ _ held).1.1
    have lower := isLive.1
    rw [extended.count frame (live frame isLive)]
    show buddy.refCnt _ = _
    rw [refCnt, Function.update_apply]
    by_cases same : frame = entryPpn (word m.mem table (index 0 page))
    · rw [if_pos (by rw [same]), if_pos same, same]
      rfl
    · rw [if_neg (by omega), if_neg same]
      rfl
  have ptes : ∀ slot, pte after.mem task slot =
      if slot = (child, page) ∨ slot = (parent, page) then
        readOnly (word m.mem table (index 0 page))
      else pte m.mem task slot := by
    intro slot
    rw [write_pte lastInv childInside toChild written (by omega) fits slot]
    by_cases isChild : slot = (child, page)
    · rw [if_pos (Or.inl isChild), if_pos]
      rw [isChild]
      exact ⟨rfl, rfl, c, childAt, user⟩
    · rw [if_neg, extended.pte, clearPtes]
      · simp only [isChild, false_or]
      · rintro ⟨sameId, samePage, _⟩
        exact isChild (Prod.ext (Nat.succ.inj sameId) samePage)
  have afterCount : ∀ frame, count after frame = count last frame := by
    intro frame
    rw [result]
    rfl
  have sharing := inv.share_sharing parentAt user reached valid ptes
    (fun frame isLive => by rw [afterCount, counts frame isLive])
    stillValid samePpn
  obtain ⟨frameLive, notKernel, notTable⟩ := lastInv.users (parent, page)
    (entryPpn (word m.mem table (index 0 page))) (by
      rw [holds_eq_some, extended.pte, clearPtes, if_pos rfl]
      exact ⟨stillValid, samePpn⟩)
  refine ⟨lastInv.write childInside toChild written (by omega) fits ?_ ?_ ?_
    sharing ?_, ?_, (clearKernel.trans lastKernel).trans
      (lastInv.write_kernel childInside (Nat.succ_ne_zero child) (by omega)
        toChild fits written)⟩
  · rcases lastInv.allocator with ⟨multi, allocator, kernelMulti⟩
    rw [result]
    exact ⟨multi, ⟨allocator.small, allocator.pages, allocator.zero_live⟩,
      kernelMulti⟩
  · intro frame isLive _
    rw [result]
    exact isLive
  · intro slot owner sameId ownerAt _ _
    obtain rfl : slot = child := Nat.succ.inj sameId
    obtain rfl := Option.some_inj.1 (childAt.symm.trans ownerAt)
    rw [samePpn]
    refine ⟨frameLive.1, notKernel, notTable, vma, granted isArea, covers, _,
      form.readOnly, ?_⟩
    rw [samePpn]
    exact clear
  · intro pfn
    rw [result]
    exact lastInv.bounded pfn
  have clearTables : ∀ frame, IsTable cfg task
      (setEntry { m with buddy } table page
        (readOnly (word m.mem table (index 0 page)))).mem frame ↔
      IsTable cfg task m.mem frame :=
    fun frame => write_isTable takenInv inside reached cleared frame
  have isTable : IsTable cfg task m.mem table := ⟨_, _, inside, reached⟩
  have lastTable : IsTable cfg task last.mem childTable :=
    ⟨_, _, childInside, toChild⟩
  refine
    { pte := ptes
      live := fun frame isLive => ⟨isLive.1, ?_⟩
      counts := fun frame isLive => by rw [afterCount, counts frame isLive]
      same := fun frame isLive other => ?_
      isTable := fun frame after_isTable => ?_
      trees := ⟨fun id path other pathInside => ?_, keeps.trans trees.free⟩ }
  · show 0 < count after frame
    rw [afterCount, counts frame isLive]
    exact Nat.add_pos_left isLive.2 _
  · have clearOther := mt (clearTables frame).1 other
    have clearLive := live frame isLive
    have lastOther := extended.not_isTable clearLive clearOther
    have first : SameFrame m.mem (setWord m.mem table (index 0 page)
        (readOnly (word m.mem table (index 0 page)))) frame :=
      sameFrame_setWord (index_lt _ _) fun same => other (same ▸ isTable)
    have second := extended.same frame clearLive clearOther
    rw [written]
    exact (first.trans second).trans
      (sameFrame_setWord (index_lt _ _) fun same =>
        lastOther (same ▸ lastTable))
  · rw [write_isTable lastInv childInside toChild written] at after_isTable
    rcases extended.isTable frame after_isTable with old | dead
    · exact Or.inl ((clearTables frame).1 old)
    · exact Or.inr fun isLive => dead (live frame isLive)
  · rw [trees.walk id path other pathInside]
    exact write_walk takenInv inside reached cleared pathInside

end Share

end Inv

end TinyRiscvOs.Vm
