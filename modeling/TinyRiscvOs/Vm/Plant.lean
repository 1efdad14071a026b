import TinyRiscvOs.Vm.Fault

/-!
# Pages of the kernel and new tasks

The changes of the invariant when nothing is mapped: a page in use becomes one
of the kernel's, a copy of `swapper_pg_dir` becomes the root of a new task, and
the areas of a task grow.
-/

namespace TinyRiscvOs.Vm

open TinyRiscvOs.Lib
open TinyRiscvOs.Mm

/-! ## A further root -/

section Append

variable {cfg : Config} {task : List Task} {child : Task}

theorem treeRoot_append_of_le {id : Nat} (known : id ≤ task.length) :
    treeRoot cfg (task ++ [child]) id = treeRoot cfg task id := by
  cases id with
  | zero => rfl
  | succ id =>
      rw [treeRoot, treeRoot, List.getElem?_append_left (by omega)]

theorem treeRoot_append_last :
    treeRoot cfg (task ++ [child]) (task.length + 1) = child.pgd :=
  treeRoot_task (by simp)

theorem treeRoot_append_of_ne {id : Nat} (other : id ≠ task.length + 1) :
    treeRoot cfg (task ++ [child]) id = treeRoot cfg task id := by
  by_cases known : id ≤ task.length
  · exact treeRoot_append_of_le known
  · cases id with
    | zero => rfl
    | succ id =>
        rw [treeRoot, treeRoot, List.getElem?_eq_none, List.getElem?_eq_none]
        · omega
        · simp
          omega

theorem pte_append_of_ne {mem : Bytes} {slot : Slot}
    (other : slot.1 ≠ task.length) :
    pte mem (task ++ [child]) slot = pte mem task slot := by
  have same : (task ++ [child])[slot.1]? = task[slot.1]? := by
    rcases Nat.lt_or_ge slot.1 task.length with below | above
    · exact List.getElem?_append_left below
    · rw [List.getElem?_eq_none, List.getElem?_eq_none]
      · exact above
      · simp
        omega
  rw [pte, pte, same]

/-- A root without entries in its lower half maps no user page. -/
theorem leaf_eq_zero {mem : Bytes} {pgd page : Nat} (user : page < 2 ^ 26)
    (empty : ∀ position < 256, ¬ has permV (word mem pgd position)) :
    leaf mem pgd page = 0 := by
  have half := (user_page_iff (by omega : page < 2 ^ 27)).1 user
  rw [leaf, path, walk, findTable_eq_none.2 (empty _ half)]
  rfl

theorem pte_append_last {mem : Bytes} {slot : Slot}
    (empty : ∀ position < 256, ¬ has permV (word mem child.pgd position))
    (last : slot.1 = task.length) : pte mem (task ++ [child]) slot = 0 := by
  by_cases user : ∃ t, (task ++ [child])[slot.1]? = some t ∧ slot.2 < 2 ^ 26
  · obtain ⟨t, taskAt, small⟩ := user
    have isChild : t = child := by
      rw [last] at taskAt
      simpa using taskAt.symm
    rw [show slot = (slot.1, slot.2) from rfl, pte_task taskAt small, isChild,
      leaf_eq_zero small empty]
  · exact pte_eq_zero user

end Append

/-- A page filled with `swapper_pg_dir`. -/
def copySwapper (cfg : Config) (m : Machine) (frame : Nat) : Machine :=
  { m with mem := copyFrame m.mem frame cfg.swapper }

namespace Inv

variable {cfg : Config} {task : List Task} {kernel : Finset Nat} {budget : Nat}
    {m : Machine}

/-- A larger bound on the counts. -/
theorem mono_budget (inv : Inv cfg task kernel budget m) {budget' : Nat}
    (grown : budget ≤ budget') : Inv cfg task kernel budget' m :=
  { inv with bounded := fun pfn => (inv.bounded pfn).trans grown }

/-- The kernel keeps a page that is in use and has no role yet. -/
theorem keep (inv : Inv cfg task kernel budget m) {frame : Nat}
    (live : Live m frame) (notTable : ¬ IsTable cfg task m.mem frame)
    (unheld : ∀ slot, holds m.mem task slot ≠ some frame) :
    Inv cfg task (insert frame kernel) budget m where
  __ := inv
  allocator := by
    rcases inv.allocator with ⟨multi, allocator, kernelMulti⟩
    exact ⟨multi, allocator, fun pfn member =>
      Finset.mem_insert_of_mem (kernelMulti pfn member)⟩
  first := Finset.mem_insert_of_mem inv.first
  kernel_live other member := by
    rcases Finset.mem_insert.1 member with rfl | old
    · exact live
    · exact inv.kernel_live other old
  kernel_apart other member := by
    rcases Finset.mem_insert.1 member with rfl | old
    · exact notTable
    · exact inv.kernel_apart other old
  users slot other held := by
    obtain ⟨isLive, notKernel, otherNotTable⟩ := inv.users slot other held
    refine ⟨isLive, fun member => ?_, otherNotTable⟩
    rcases Finset.mem_insert.1 member with rfl | old
    · exact unheld slot held
    · exact notKernel old

/-- A page is allocated for the kernel, and nothing else happens. -/
theorem claim (inv : Inv cfg task kernel budget m) {zeroed : Bool}
    (succeeds : (allocPage zeroed m).2.oom = false) :
    Inv cfg task (insert (allocPage zeroed m).1 kernel) budget
        (allocPage zeroed m).2 ∧
      Prepared cfg task m (allocPage zeroed m).1 (allocPage zeroed m).2 := by
  obtain ⟨afterInv, prepared⟩ :=
    inv.prepare succeeds fun other _ => SameFrame.refl _ other
  obtain ⟨_, notTable, unheld⟩ := inv.prepared_unused prepared
  exact ⟨afterInv.keep prepared.live notTable unheld, prepared⟩

section Plant

variable {child : Task} (inv : Inv cfg task kernel budget m)
    (copied : ∀ position < 512, word m.mem child.pgd position =
      word m.mem cfg.swapper position)

include inv copied

theorem plant_empty : ∀ position < 256,
    ¬ has permV (word m.mem child.pgd position) := by
  intro position low
  rw [copied position (by omega)]
  exact inv.lower position low

/-- The new tree is its root. -/
theorem plant_walk {path : List Nat} {last : Nat}
    (inside : treeDom (task.length + 1) (task.length + 1) path)
    (reached : walk (findTable m.mem) child.pgd path = some last) :
    path = [] ∧ last = child.pgd := by
  cases path with
  | nil => exact ⟨rfl, (Option.some_inj.1 reached).symm⟩
  | cons head rest =>
      have half := inside.2.2.2 head rfl
      have absent := findTable_eq_none.2
        (plant_empty inv copied head (by omega))
      rw [walk, absent] at reached
      cases reached

theorem plant_isTable (frame : Nat) :
    IsTable cfg (task ++ [child]) m.mem frame ↔
      IsTable cfg task m.mem frame ∨ frame = child.pgd := by
  have length : (task ++ [child]).length = task.length + 1 := by simp
  constructor
  · rintro ⟨id, path, inside, reached⟩
    rw [length] at inside
    by_cases isNew : id = task.length + 1
    · subst isNew
      rw [treeRoot_append_last] at reached
      exact Or.inr (plant_walk inv copied inside reached).2
    · have known : id ≤ task.length := by
        have bound := inside.1
        omega
      rw [treeRoot_append_of_le known] at reached
      exact Or.inl ⟨id, path, ⟨known, inside.2⟩, reached⟩
  · rintro (⟨id, path, inside, reached⟩ | rfl)
    · refine ⟨id, path, treeDom_mono inside (by omega), ?_⟩
      rw [treeRoot_append_of_le inside.1]
      exact reached
    · have childAt : (task ++ [child])[task.length]? = some child := by simp
      exact root_isTable childAt

theorem plant_tables (live : Live m child.pgd)
    (notTable : ¬ IsTable cfg task m.mem child.pgd) :
    Tables (treeRoot cfg (task ++ [child]))
      (treeDom (task ++ [child]).length) m := by
  have length : (task ++ [child]).length = task.length + 1 := by simp
  refine ⟨?_, ?_, ?_⟩
  · refine inv.tables.forest.plant (treeDom_closed _)
      (fun id other => treeRoot_append_of_ne other) ?_ ?_ ?_
    · intro id path other inside
      rw [length] at inside
      have bound := inside.1
      exact ⟨by omega, inside.2⟩
    · rw [treeRoot_append_last]
      exact notTable
    · intro position inside
      rw [length] at inside
      rw [treeRoot_append_last]
      have half := inside.2.2.2 position rfl
      exact findTable_eq_none.2 (plant_empty inv copied position (by omega))
  · exact fun id path inside => inside.2.2.1
  · intro frame reached
    rcases (plant_isTable inv copied frame).1 reached with old | rfl
    · exact inv.tables.live frame old
    · exact live

theorem plant_pte (slot : Slot) :
    pte m.mem (task ++ [child]) slot = pte m.mem task slot := by
  by_cases last : slot.1 = task.length
  · rw [pte_append_last (plant_empty inv copied) last, pte_eq_zero]
    rintro ⟨t, taskAt, _⟩
    have bound := lt_length taskAt
    omega
  · exact pte_append_of_ne last

/-- A copy of `swapper_pg_dir` becomes the root of a new task. -/
theorem plant (live : Live m child.pgd) (notKernel : child.pgd ∉ kernel)
    (notTable : ¬ IsTable cfg task m.mem child.pgd)
    (unheld : ∀ slot, holds m.mem task slot ≠ some child.pgd)
    (areas : ∀ vma ∈ child.mmap, vma.User) :
    Inv cfg (task ++ [child]) kernel budget m := by
  have length : (task ++ [child]).length = task.length + 1 := by simp
  have ptes := plant_pte inv copied
  have isTables := plant_isTable inv copied
  have holdsEq : ∀ slot, holds m.mem (task ++ [child]) slot =
      holds m.mem task slot := by
    intro slot
    rw [holds, holds, ptes]
  refine ⟨inv.allocator, plant_tables inv copied live notTable, inv.first,
    inv.kernel_live, ?_, ?_, ?_, inv.lower, ?_, ?_, ?_, inv.bounded, ?_⟩
  · intro frame member isTable
    rcases (isTables frame).1 isTable with old | rfl
    · exact inv.kernel_apart frame member old
    · exact notKernel member
  · intro id path position table inside reached valid
    rw [length] at inside
    have bound := inside.1
    by_cases isNew : id = task.length + 1
    · subst isNew
      rw [treeRoot_append_last] at reached
      obtain ⟨rfl, rfl⟩ := plant_walk inv copied
        (treeDom_closed _ _ _ _ inside) reached
      have half := inside.2.2.2 position rfl
      exact absurd valid (plant_empty inv copied position (by omega))
    · rw [treeRoot_append_of_ne isNew] at reached
      exact inv.links id path position table ⟨by omega, inside.2⟩ reached valid
  · intro t member position high small
    rcases List.mem_append.1 member with old | new
    · exact inv.upper t old position high small
    · rw [List.mem_singleton.1 new]
      exact copied position small
  · intro slot frame held
    rw [holdsEq] at held
    obtain ⟨isLive, apart, other⟩ := inv.users slot frame held
    refine ⟨isLive, apart, fun isTable => ?_⟩
    rcases (isTables frame).1 isTable with old | rfl
    · exact other old
    · exact unheld slot held
  · intro id t page taskAt user valid
    rw [← pte_task taskAt user, ptes] at valid
    obtain ⟨owner, ownerAt, _⟩ := slot_of_valid valid
    have same : (task ++ [child])[id]? = task[id]? :=
      List.getElem?_append_left (lt_length ownerAt)
    rw [same] at taskAt
    rw [pte_task taskAt user] at valid
    exact inv.granted id t page taskAt user valid
  · refine inv.sharing.congr holdsEq (fun slot => ?_)
      fun frame slot held => Nat.le_refl _
    rw [writable, writable, ptes]
    exact id
  · intro t member
    rcases List.mem_append.1 member with old | new
    · exact inv.areas t old
    · rw [List.mem_singleton.1 new]
      exact areas

end Plant

/-- A fresh page becomes the root of a new task. -/
theorem plantCopy (inv : Inv cfg task kernel budget m) {zeroed : Bool}
    (succeeds : (allocPage zeroed m).2.oom = false) {mmap : List Vma}
    (areas : ∀ vma ∈ mmap, vma.User) :
    Inv cfg (task ++ [⟨(allocPage zeroed m).1, mmap⟩]) kernel budget
        (copySwapper cfg (allocPage zeroed m).2 (allocPage zeroed m).1) ∧
      Prepared cfg task m (allocPage zeroed m).1
        (copySwapper cfg (allocPage zeroed m).2 (allocPage zeroed m).1) ∧
      ∀ slot, pte (copySwapper cfg (allocPage zeroed m).2
          (allocPage zeroed m).1).mem
          (task ++ [⟨(allocPage zeroed m).1, mmap⟩]) slot =
        pte m.mem task slot := by
  have copy : ∀ other, other ≠ (allocPage zeroed m).1 →
      SameFrame (allocPage zeroed m).2.mem (copyFrame (allocPage zeroed m).2.mem
        (allocPage zeroed m).1 cfg.swapper) other :=
    fun other different => sameFrame_copyFrame different
  obtain ⟨rootInv, prepared⟩ := inv.prepare succeeds copy
  obtain ⟨notKernel, notTable, unheld⟩ := inv.prepared_unused prepared
  have swapper : cfg.swapper ≠ (allocPage zeroed m).1 := by
    intro same
    exact prepared.isFresh (same ▸ inv.tables.live _ swapper_isTable)
  have copied : ∀ position < 512,
      word (copyFrame (allocPage zeroed m).2.mem (allocPage zeroed m).1
        cfg.swapper) (allocPage zeroed m).1 position =
      word (copyFrame (allocPage zeroed m).2.mem (allocPage zeroed m).1
        cfg.swapper) cfg.swapper position := by
    intro position small
    rw [(copy _ swapper).word small]
    exact word_copyFrame small
  have ptes : ∀ slot, pte (copySwapper cfg (allocPage zeroed m).2
      (allocPage zeroed m).1).mem
      (task ++ [⟨(allocPage zeroed m).1, mmap⟩]) slot =
      pte (copySwapper cfg (allocPage zeroed m).2
        (allocPage zeroed m).1).mem task slot :=
    plant_pte rootInv copied
  exact ⟨rootInv.plant copied prepared.live notKernel notTable unheld areas,
    prepared, fun slot => (ptes slot).trans (prepared.pte slot)⟩

end Inv

/-! ## Areas -/

/-- The same roots in the same order. -/
def SameRoots (task task' : List Task) : Prop :=
  task'.map Task.pgd = task.map Task.pgd

namespace SameRoots

variable {cfg : Config} {task task' : List Task}

theorem length (same : SameRoots task task') : task'.length = task.length := by
  have lengths := congrArg List.length same
  rwa [List.length_map, List.length_map] at lengths

theorem pgd (same : SameRoots task task') (id : Nat) :
    (task'[id]?).map Task.pgd = (task[id]?).map Task.pgd := by
  rw [← List.getElem?_map, ← List.getElem?_map, same]

theorem treeRoot (same : SameRoots task task') (id : Nat) :
    treeRoot cfg task' id = treeRoot cfg task id := by
  cases id with
  | zero => rfl
  | succ id => rw [Vm.treeRoot, Vm.treeRoot, same.pgd]

theorem pte (same : SameRoots task task') (mem : Bytes) (slot : Slot) :
    pte mem task' slot = pte mem task slot := by
  have roots := same.pgd slot.1
  rw [Vm.pte, Vm.pte]
  rcases before : task[slot.1]? with _ | left <;>
    rcases after : task'[slot.1]? with _ | right <;>
    rw [before, after] at roots
  · cases roots
  · cases roots
  · have sameRoot : right.pgd = left.pgd := Option.some_inj.1 roots
    simp only [sameRoot]

theorem isTable (same : SameRoots task task') (mem : Bytes) (frame : Nat) :
    IsTable cfg task' mem frame ↔ IsTable cfg task mem frame := by
  simp only [IsTable, Reached, same.treeRoot, same.length]

end SameRoots

/-- The areas of the tasks may change as long as they grant what is mapped. -/
theorem Inv.withAreas {cfg : Config} {task task' : List Task}
    {kernel : Finset Nat} {budget : Nat} {m : Machine}
    (inv : Inv cfg task kernel budget m) (same : SameRoots task task')
    (grown : ∀ (id : Nat) (t t' : Task), task[id]? = some t →
      task'[id]? = some t' → t.mmap ⊆ t'.mmap)
    (areas : ∀ t ∈ task', ∀ vma ∈ t.mmap, vma.User) :
    Inv cfg task' kernel budget m := by
  have roots : Vm.treeRoot cfg task' = Vm.treeRoot cfg task :=
    funext same.treeRoot
  have holdsEq : ∀ slot, holds m.mem task' slot = holds m.mem task slot := by
    intro slot
    rw [holds, holds, same.pte]
  refine ⟨inv.allocator, ?_, inv.first, inv.kernel_live, ?_, ?_, ?_, inv.lower,
    ?_, ?_, ?_, inv.bounded, areas⟩
  · rw [roots, same.length]
    exact inv.tables
  · intro frame member isTable
    exact inv.kernel_apart frame member ((same.isTable _ _).1 isTable)
  · rw [roots, same.length]
    exact inv.links
  · intro t member
    obtain ⟨id, taskAt⟩ := List.mem_iff_getElem?.1 member
    have root := same.pgd id
    rw [taskAt, Option.map_some] at root
    obtain ⟨before, beforeAt, pgd⟩ := Option.map_eq_some_iff.1 root.symm
    rw [← pgd]
    exact inv.upper before (List.mem_iff_getElem?.2 ⟨id, beforeAt⟩)
  · intro slot frame held
    rw [holdsEq] at held
    obtain ⟨live, notKernel, notTable⟩ := inv.users slot frame held
    exact ⟨live, notKernel, fun isTable =>
      notTable ((same.isTable _ _).1 isTable)⟩
  · intro id t page taskAt user valid
    have root := same.pgd id
    rw [taskAt, Option.map_some] at root
    obtain ⟨before, beforeAt, pgd⟩ := Option.map_eq_some_iff.1 root.symm
    rw [← pgd] at valid ⊢
    obtain ⟨vma, isArea, granted⟩ :=
      inv.granted id before page beforeAt user valid
    exact ⟨vma, grown id before t beforeAt taskAt isArea, granted⟩
  · refine inv.sharing.congr holdsEq (fun slot => ?_)
      fun frame slot held => Nat.le_refl _
    rw [writable, writable, same.pte]
    exact id

/-- The areas of the last task may grow. -/
theorem Inv.withLast {cfg : Config} {task : List Task} {before after : Task}
    {kernel : Finset Nat} {budget : Nat} {m : Machine}
    (inv : Inv cfg (task ++ [before]) kernel budget m)
    (pgd : after.pgd = before.pgd) (grown : before.mmap ⊆ after.mmap)
    (users : ∀ vma ∈ after.mmap, vma.User) :
    Inv cfg (task ++ [after]) kernel budget m := by
  refine inv.withAreas ?_ ?_ ?_
  · simp only [SameRoots, List.map_append, List.map_cons, pgd]
  · intro id t t' beforeAt afterAt
    by_cases old : id < task.length
    · rw [List.getElem?_append_left old] at beforeAt afterAt
      rw [Option.some_inj.1 (beforeAt.symm.trans afterAt)]
      exact List.Subset.refl _
    · have bound := lt_length beforeAt
      rw [List.length_append, List.length_singleton] at bound
      obtain rfl : id = task.length := by omega
      obtain rfl : t = before := by simpa using beforeAt.symm
      obtain rfl : t' = after := by simpa using afterAt.symm
      exact grown
  · intro t member
    rcases List.mem_append.1 member with old | new
    · exact inv.areas t (List.mem_append_left _ old)
    · rw [List.mem_singleton.1 new]
      exact users

end TinyRiscvOs.Vm
