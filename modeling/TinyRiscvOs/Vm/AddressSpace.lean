import TinyRiscvOs.Lib.Sharing
import TinyRiscvOs.Vm.Process
import TinyRiscvOs.Vm.Tables

/-!
# The invariant of the address spaces

Every root table is a copy of `swapper_pg_dir`, so all tasks share the tables
of the upper half.  Below its lower half every task has tables of its own.
The trees looked at are therefore the upper half of `swapper_pg_dir` and the
lower half of each `pgd`; together they are a forest.

The invariant sorts the pages in use: pages the kernel keeps for itself,
tables, and frames that user entries name.  The last are counted and shared as
`Sharing` says.  The lemmas describe the elementary changes: steps the tables
do not see, a table hung below an entry, an entry of a last table written, and
a root table planted for a new task.
-/

namespace TinyRiscvOs.Vm

open TinyRiscvOs.Lib
open TinyRiscvOs.Mm

/-! ## Trees and slots -/

/-- The roots: `swapper_pg_dir`, then the tasks in order. -/
def treeRoot (cfg : Config) (task : List Task) : Nat → Nat
  | 0 => cfg.swapper
  | id + 1 => ((task[id]?).map Task.pgd).getD nullFrame

/-- The paths looked at: the upper half of the first root, the lower half of the others. -/
def treeDom (count id : Nat) (path : List Nat) : Prop :=
  id ≤ count ∧ path.length ≤ 2 ∧ (∀ position ∈ path, position < 512) ∧
    ∀ head ∈ path.head?, (id = 0 ↔ 256 ≤ head)

/-- A frame that is a table of one of the trees. -/
def IsTable (cfg : Config) (task : List Task) (mem : Bytes) (frame : Nat) :
    Prop :=
  Reached (treeRoot cfg task) (treeDom task.length) (findTable mem) frame

/-- A page of a task. -/
abbrev Slot := Nat × Nat

/-- The entry of a user page of a task. -/
def pte (mem : Bytes) (task : List Task) (slot : Slot) : Nat :=
  match task[slot.1]? with
  | some t => if slot.2 < 2 ^ 26 then leaf mem t.pgd slot.2 else 0
  | none => 0

/-- The frame a slot is mapped to. -/
def holds (mem : Bytes) (task : List Task) (slot : Slot) : Option Nat :=
  if has permV (pte mem task slot) then some (entryPpn (pte mem task slot))
  else none

/-- The slot is mapped writable. -/
def writable (mem : Bytes) (task : List Task) (slot : Slot) : Prop :=
  has permW (pte mem task slot)

/-- `ref_cnt` of a frame. -/
def count (m : Machine) (frame : Nat) : Nat :=
  m.buddy.refCnt (frame - ramBase)

/-- The area has an address on the page. -/
def Vma.Covers (vma : Vma) (page : Nat) : Prop :=
  ∃ addr, vma.Contains addr ∧ addr / 4096 = page

/-- An area below `USER_END` with flags of `vm.h`. -/
structure Vma.User (vma : Vma) : Prop where
  flags : vma.vmFlags < 16
  start : vma.vmStart ≤ userEnd
  below : vma.vmEnd ≤ userEnd

/-- An entry with the permissions of an area that covers the page. -/
def Granted (t : Task) (page value : Nat) : Prop :=
  ∃ vma ∈ t.mmap, vma.Covers page ∧ ∃ perm, UserPerm vma.vmFlags perm ∧
    value = entry (entryPpn value) perm

/-- The invariant, for the pages `kernel` that the kernel keeps and a bound on the counts. -/
structure Inv (cfg : Config) (task : List Task) (kernel : Finset Nat)
    (budget : Nat) (m : Machine) : Prop where
  allocator : ∃ multi, Allocator cfg.top multi m ∧
    ∀ pfn ∈ multi, ramBase + pfn ∈ kernel
  tables : Tables (treeRoot cfg task) (treeDom task.length) m
  /-- The first page of the memory is the kernel's. -/
  first : ramBase ∈ kernel
  kernel_live : ∀ frame ∈ kernel, Live m frame
  kernel_apart : ∀ frame ∈ kernel, ¬ IsTable cfg task m.mem frame
  /-- Entries above the last level are links and nothing else. -/
  links : ∀ id path position table,
    treeDom task.length id (path ++ [position]) →
    walk (findTable m.mem) (treeRoot cfg task id) path = some table →
    has permV (word m.mem table position) →
    word m.mem table position = entry (entryPpn (word m.mem table position)) permV
  /-- The upper half of every `pgd` is that of `swapper_pg_dir`. -/
  upper : ∀ t ∈ task, ∀ position, 256 ≤ position → position < 512 →
    word m.mem t.pgd position = word m.mem cfg.swapper position
  /-- The lower half of `swapper_pg_dir` is empty. -/
  lower : ∀ position < 256, ¬ has permV (word m.mem cfg.swapper position)
  users : ∀ slot frame, holds m.mem task slot = some frame →
    Live m frame ∧ frame ∉ kernel ∧ ¬ IsTable cfg task m.mem frame
  granted : ∀ (id : Nat) (t : Task) (page : Nat), task[id]? = some t →
    page < 2 ^ 26 →
    has permV (leaf m.mem t.pgd page) → Granted t page (leaf m.mem t.pgd page)
  sharing : Sharing (holds m.mem task) (writable m.mem task) (count m)
  bounded : ∀ pfn, m.buddy.refCnt pfn ≤ budget
  areas : ∀ t ∈ task, ∀ vma ∈ t.mmap, vma.User

/-! ## Small facts -/

theorem treeDom_closed (count : Nat) : PrefixClosed (treeDom count) := by
  rintro id path position ⟨known, short, small, half⟩
  rw [List.length_append, List.length_singleton] at short
  refine ⟨known, by omega, fun other member => small other (by simp [member]), ?_⟩
  intro head isHead
  refine half head ?_
  cases path with
  | nil => simp at isHead
  | cons first rest => simpa using isHead

theorem treeRoot_task {cfg : Config} {task : List Task} {id : Nat} {t : Task}
    (taskAt : task[id]? = some t) : treeRoot cfg task (id + 1) = t.pgd := by
  simp [treeRoot, taskAt]

theorem lt_length {task : List Task} {id : Nat} {t : Task}
    (taskAt : task[id]? = some t) : id < task.length := by
  by_contra beyond
  rw [List.getElem?_eq_none (by omega)] at taskAt
  cases taskAt

/-- The path of a user page belongs to the tree of its task. -/
theorem treeDom_user {task : List Task} {id page : Nat} {t : Task}
    (taskAt : task[id]? = some t) (user : page < 2 ^ 26) :
    treeDom task.length (id + 1) (path page) := by
  refine ⟨lt_length taskAt, Nat.le_refl 2, ?_, ?_⟩
  · intro position member
    simp only [path, List.mem_cons, List.not_mem_nil, or_false] at member
    rcases member with rfl | rfl
    · exact index_lt _ _
    · exact index_lt _ _
  · intro head isHead
    have first : index 2 page = head := by simpa [path] using isHead
    have half := (user_page_iff (by omega : page < 2 ^ 27)).1 user
    omega

/-- The path of a kernel page belongs to the first tree. -/
theorem treeDom_kernel {page : Nat} (count : Nat) (upper : 2 ^ 26 ≤ page)
    (small : page < 2 ^ 27) : treeDom count 0 (path page) := by
  refine ⟨Nat.zero_le _, Nat.le_refl 2, ?_, ?_⟩
  · intro position member
    simp only [path, List.mem_cons, List.not_mem_nil, or_false] at member
    rcases member with rfl | rfl
    · exact index_lt _ _
    · exact index_lt _ _
  · intro head isHead
    have first : index 2 page = head := by simpa [path] using isHead
    have half := user_page_iff small
    omega

theorem treeDom_nil {count id : Nat} (known : id ≤ count) :
    treeDom count id [] :=
  ⟨known, by simp, by simp, by simp⟩

theorem treeDom_mono {count more id : Nat} {path : List Nat}
    (inside : treeDom count id path) (grown : count ≤ more) :
    treeDom more id path :=
  ⟨inside.1.trans grown, inside.2⟩

theorem pte_task {mem : Bytes} {task : List Task} {id page : Nat} {t : Task}
    (taskAt : task[id]? = some t) (user : page < 2 ^ 26) :
    pte mem task (id, page) = leaf mem t.pgd page := by
  rw [pte]
  dsimp only
  rw [taskAt]
  exact if_pos user

theorem pte_eq_zero {mem : Bytes} {task : List Task} {slot : Slot}
    (outside : ¬ ∃ t, task[slot.1]? = some t ∧ slot.2 < 2 ^ 26) :
    pte mem task slot = 0 := by
  rw [pte]
  cases taskAt : task[slot.1]? with
  | none => rfl
  | some t => exact if_neg fun user => outside ⟨t, taskAt, user⟩

theorem not_has_zero (flag : Nat) : ¬ has flag 0 := by
  simp [has]

/-- A slot with a frame belongs to a task. -/
theorem slot_of_valid {mem : Bytes} {task : List Task} {slot : Slot}
    (valid : has permV (pte mem task slot)) :
    ∃ t, task[slot.1]? = some t ∧ slot.2 < 2 ^ 26 := by
  by_contra outside
  rw [pte_eq_zero outside] at valid
  exact not_has_zero permV valid

theorem holds_eq_some {mem : Bytes} {task : List Task} {slot : Slot}
    {frame : Nat} :
    holds mem task slot = some frame ↔
      has permV (pte mem task slot) ∧ entryPpn (pte mem task slot) = frame := by
  rw [holds]
  split <;> simp_all

theorem holds_congr {mem other : Bytes} {task : List Task} {slot : Slot}
    (same : pte other task slot = pte mem task slot) :
    holds other task slot = holds mem task slot := by
  rw [holds, holds, same]

theorem writable_congr {mem other : Bytes} {task : List Task} {slot : Slot}
    (same : pte other task slot = pte mem task slot) :
    writable other task slot ↔ writable mem task slot := by
  rw [writable, writable, same]

namespace Inv

variable {cfg : Config} {task : List Task} {kernel : Finset Nat} {budget : Nat}
    {m after : Machine}

section Facts

variable (inv : Inv cfg task kernel budget m)

include inv

omit inv in
theorem root_isTable {id : Nat} {t : Task} (taskAt : task[id]? = some t) :
    IsTable cfg task m.mem t.pgd := by
  refine ⟨id + 1, [], treeDom_nil (lt_length taskAt), ?_⟩
  rw [walk, treeRoot_task taskAt]

omit inv in
theorem swapper_isTable : IsTable cfg task m.mem cfg.swapper :=
  ⟨0, [], treeDom_nil (Nat.zero_le _), rfl⟩

/-- The tables of a task are told apart by their paths from those of the others. -/
theorem table_unique {left right : Nat} {leftPath rightPath : List Nat}
    {table : Nat} (leftInside : treeDom task.length left leftPath)
    (rightInside : treeDom task.length right rightPath)
    (first : walk (findTable m.mem) (treeRoot cfg task left) leftPath = some table)
    (second : walk (findTable m.mem) (treeRoot cfg task right) rightPath =
      some table) :
    left = right ∧ leftPath = rightPath :=
  inv.tables.forest.unique left leftPath right rightPath table leftInside
    rightInside first second

theorem count_pos {slot : Slot} {frame : Nat}
    (held : holds m.mem task slot = some frame) : 0 < count m frame :=
  inv.sharing.count_pos held

/-- A frame that is not in use is none of those the invariant sorts. -/
theorem apart_of_not_live {frame : Nat} (dead : ¬ Live m frame) :
    frame ∉ kernel ∧ ¬ IsTable cfg task m.mem frame ∧
      ∀ slot, holds m.mem task slot ≠ some frame :=
  ⟨fun member => dead (inv.kernel_live frame member),
    inv.tables.not_reached_of_not_live dead,
    fun slot held => dead (inv.users slot frame held).1⟩

end Facts

/-! ## Changes the tables do not see -/

/-- The tables are the same words, so the walks and the entries are the same. -/
theorem walks_congr (inv : Inv cfg task kernel budget m) {mem : Bytes}
    (same : ∀ frame, IsTable cfg task m.mem frame → SameFrame m.mem mem frame)
    {id : Nat} {path : List Nat} (inside : treeDom task.length id path) :
    walk (findTable mem) (treeRoot cfg task id) path =
      walk (findTable m.mem) (treeRoot cfg task id) path := by
  refine Forest.walk_congr inv.tables.forest.closed ?_ inside
  refine inv.tables.agree_of_sameFrame fun id path position frame inside' reached => ?_
  exact same frame ⟨id, path, treeDom_closed _ id path position inside', reached⟩

theorem leaf_congr (inv : Inv cfg task kernel budget m) {mem : Bytes}
    (same : ∀ frame, IsTable cfg task m.mem frame → SameFrame m.mem mem frame)
    {id page : Nat} (inside : treeDom task.length id (path page)) :
    leaf mem (treeRoot cfg task id) page =
      leaf m.mem (treeRoot cfg task id) page := by
  rw [leaf, leaf, inv.walks_congr same inside]
  cases reached : walk (findTable m.mem) (treeRoot cfg task id) (path page) with
  | none => rfl
  | some table => exact (same table ⟨id, _, inside, reached⟩).word (index_lt _ _)

theorem pte_congr (inv : Inv cfg task kernel budget m) {mem : Bytes}
    (same : ∀ frame, IsTable cfg task m.mem frame → SameFrame m.mem mem frame)
    (slot : Slot) : pte mem task slot = pte m.mem task slot := by
  by_cases user : ∃ t, task[slot.1]? = some t ∧ slot.2 < 2 ^ 26
  · obtain ⟨t, taskAt, small⟩ := user
    have result := inv.leaf_congr same (treeDom_user taskAt small)
    rwa [treeRoot_task taskAt, ← pte_task taskAt small,
      ← pte_task taskAt small] at result
  · rw [pte_eq_zero user, pte_eq_zero user]

theorem isTable_congr (inv : Inv cfg task kernel budget m) {mem : Bytes}
    (same : ∀ frame, IsTable cfg task m.mem frame → SameFrame m.mem mem frame)
    (frame : Nat) : IsTable cfg task mem frame ↔ IsTable cfg task m.mem frame := by
  constructor
  · rintro ⟨id, path, inside, reached⟩
    exact ⟨id, path, inside, (inv.walks_congr same inside).symm.trans reached⟩
  · rintro ⟨id, path, inside, reached⟩
    exact ⟨id, path, inside, (inv.walks_congr same inside).trans reached⟩

/--
Pages are handed out to the kernel or to nobody, counts of pages in use grow,
and frames that are no tables change.
-/
theorem congr (inv : Inv cfg task kernel budget m) {kernel' : Finset Nat}
    {budget' : Nat}
    (allocator : ∃ multi, Allocator cfg.top multi after ∧
      ∀ pfn ∈ multi, ramBase + pfn ∈ kernel')
    (kept : kernel ⊆ kernel')
    (grown : ∀ frame ∈ kernel', frame ∈ kernel ∨
      (Live after frame ∧ ¬ Live m frame))
    (live : ∀ frame, Live m frame → Live after frame)
    (counts : ∀ frame, Live m frame → count m frame ≤ count after frame)
    (same : ∀ frame, IsTable cfg task m.mem frame →
      SameFrame m.mem after.mem frame)
    (bounded : ∀ pfn, after.buddy.refCnt pfn ≤ budget') :
    Inv cfg task kernel' budget' after := by
  have ptes := inv.pte_congr same
  have tablesIff := inv.isTable_congr same
  have holdsEq : ∀ slot, holds after.mem task slot = holds m.mem task slot :=
    fun slot => holds_congr (ptes slot)
  have wordEq : ∀ table, IsTable cfg task m.mem table → ∀ position < 512,
      word after.mem table position = word m.mem table position :=
    fun table isTable position small => (same table isTable).word small
  refine ⟨allocator, ?_, kept inv.first, ?_, ?_, ?_, ?_, ?_, ?_, ?_, ?_, bounded,
    inv.areas⟩
  · refine (inv.tables.congr ?_ fun frame _ => live frame).1
    intro id path position frame inside reached
    exact same frame ⟨id, path, treeDom_closed _ id path position inside, reached⟩
  · intro frame member
    rcases grown frame member with old | new
    · exact live frame (inv.kernel_live frame old)
    · exact new.1
  · intro frame member isTable
    rw [tablesIff] at isTable
    rcases grown frame member with old | new
    · exact inv.kernel_apart frame old isTable
    · exact (inv.apart_of_not_live new.2).2.1 isTable
  · intro id path position table inside reached valid
    have prefixInside := treeDom_closed _ id path position inside
    rw [inv.walks_congr same prefixInside] at reached
    have eq := wordEq table ⟨id, path, prefixInside, reached⟩ position
      (inv.tables.last_small inside)
    rw [eq] at valid ⊢
    exact inv.links id path position table inside reached valid
  · intro t member position high small
    obtain ⟨id, taskAt⟩ := List.mem_iff_getElem?.1 member
    rw [wordEq _ (root_isTable taskAt) position small,
      wordEq _ swapper_isTable position small]
    exact inv.upper t member position high small
  · intro position low
    rw [wordEq _ swapper_isTable position (by omega)]
    exact inv.lower position low
  · intro slot frame held
    rw [holdsEq] at held
    obtain ⟨isLive, notKernel, notTable⟩ := inv.users slot frame held
    refine ⟨live frame isLive, ?_, fun isTable => notTable ((tablesIff frame).1 isTable)⟩
    intro member
    rcases grown frame member with old | new
    · exact notKernel old
    · exact new.2 isLive
  · intro id t page taskAt user valid
    rw [← pte_task taskAt user, ptes, pte_task taskAt user] at valid ⊢
    exact inv.granted id t page taskAt user valid
  · refine inv.sharing.congr holdsEq (fun slot => (writable_congr (ptes slot)).1) ?_
    intro frame slot held
    exact counts frame (inv.users slot frame held).1

end Inv

end TinyRiscvOs.Vm
