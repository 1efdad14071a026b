import TinyRiscvOs.Vm.AddressSpace

/-!
# Mapping pages

The elementary changes of the tables under the invariant: a table is hung
below an entry, and an entry of a last table is written.  With them one round
of `create_mapping` keeps the invariant and changes exactly one entry.
-/

namespace TinyRiscvOs.Vm

open TinyRiscvOs.Lib
open TinyRiscvOs.Mm

/-! ## Pages for new tables -/

/-- The next tables are empty: `kalloc` clears its pages, or the free pages hold zeros. -/
def Blank (cfg : Config) (m : Machine) : Prop :=
  cfg.fill ≠ .asFound ∨ ∀ frame, Free cfg.top m frame →
    ∀ position < 512, word m.mem frame position = 0

/-- Free pages were free before and hold what they held. -/
def KeepsFree (top : Nat) (m after : Machine) : Prop :=
  ∀ frame, Free top after frame →
    Free top m frame ∧ SameFrame m.mem after.mem frame

theorem KeepsFree.refl (top : Nat) (m : Machine) : KeepsFree top m m :=
  fun _ free => ⟨free, SameFrame.refl _ _⟩

theorem KeepsFree.trans {top : Nat} {m middle after : Machine}
    (first : KeepsFree top m middle) (second : KeepsFree top middle after) :
    KeepsFree top m after := by
  intro frame free
  obtain ⟨between, later⟩ := second frame free
  obtain ⟨before, earlier⟩ := first frame between
  exact ⟨before, earlier.trans later⟩

theorem Blank.mono {cfg : Config} {m after : Machine} (blank : Blank cfg m)
    (keeps : KeepsFree cfg.top m after) : Blank cfg after := by
  rcases blank with zeroing | zeros
  · exact Or.inl zeroing
  · refine Or.inr fun frame free position small => ?_
    obtain ⟨before, same⟩ := keeps frame free
    rw [same.word small]
    exact zeros frame before position small

theorem Hung.zeros {cfg : Config} {multi : Set Nat} {m after : Machine}
    {table position fresh : Nat}
    (hung : Hung cfg.top multi (cfg.fill ≠ .asFound) m table position fresh
      after)
    (blank : Blank cfg m) (live : Live m table) (small : position < 512) :
    ∀ other < 512, word after.mem fresh other = 0 := by
  intro other otherSmall
  by_cases zeroing : cfg.fill ≠ .asFound
  · exact hung.word_fresh live small (decide_eq_true zeroing) otherSmall
  · rw [decide_eq_false zeroing] at hung
    rw [hung.word_fresh_asFound live small otherSmall]
    exact blank.resolve_left zeroing fresh hung.free other otherSmall

theorem Hung.keepsFree {top : Nat} {multi : Set Nat} {zeroed : Bool}
    {m after : Machine} {table position fresh : Nat}
    (hung : Hung top multi zeroed m table position fresh after)
    (live : Live m table) (small : position < 512) :
    KeepsFree top m after := by
  intro frame free
  obtain ⟨before, different⟩ := hung.left frame free
  refine ⟨before, hung.sameFrame small ?_ different⟩
  rintro rfl
  exact hung.allocator.not_free (hung.live_iff.2 (Or.inl live)) free

namespace Inv

variable {cfg : Config} {task : List Task} {kernel : Finset Nat} {budget : Nat}
    {m after : Machine}

theorem one_le_budget (inv : Inv cfg task kernel budget m) : 1 ≤ budget := by
  rcases inv.allocator with ⟨_, allocator, _⟩
  exact Nat.le_trans allocator.zero_live (inv.bounded 0)

/-! ## Hanging a table -/

section Hang

variable {multi : Set Nat} {zeroed : Bool} {id position table fresh : Nat}
    {path : List Nat} (inv : Inv cfg task kernel budget m)
    (hung : Hung cfg.top multi zeroed m table position fresh after)
    (zeros : ∀ other < 512, word after.mem fresh other = 0)
    (inside : treeDom task.length id (path ++ [position]))
    (reached : walk (findTable m.mem) (treeRoot cfg task id) path = some table)

include inv hung zeros inside reached

theorem hung_walk {id' : Nat} {path' : List Nat}
    (inside' : treeDom task.length id' path') (last : Nat) :
    walk (findTable after.mem) (treeRoot cfg task id') path' = some last ↔
      walk (findTable m.mem) (treeRoot cfg task id') path' = some last ∨
        (id' = id ∧ path' = path ++ [position] ∧ last = fresh) :=
  Tables.walk_hung inv.tables hung inside reached
    (fun next nextInside => by
      rw [zeros _ (inv.tables.last_small nextInside)]
      exact not_has_zero permV)
    inside' last

theorem hung_isTable (frame : Nat) :
    IsTable cfg task after.mem frame ↔
      IsTable cfg task m.mem frame ∨ frame = fresh := by
  constructor
  · rintro ⟨id', path', inside', toFrame⟩
    rcases (hung_walk inv hung zeros inside reached inside' frame).1 toFrame with
      old | ⟨_, _, same⟩
    · exact Or.inl ⟨id', path', inside', old⟩
    · exact Or.inr same
  · rintro (⟨id', path', inside', toFrame⟩ | rfl)
    · exact ⟨id', path', inside',
        (hung_walk inv hung zeros inside reached inside' frame).2 (Or.inl toFrame)⟩
    · exact ⟨id, path ++ [position], inside,
        (hung_walk inv hung zeros inside reached inside frame).2
          (Or.inr ⟨rfl, rfl, rfl⟩)⟩

omit zeros in
/-- Words of the tables there were, but for the entry written. -/
theorem hung_word {other index : Nat} (isTable : IsTable cfg task m.mem other)
    (small : index < 512) (elsewhere : ¬ (other = table ∧ index = position)) :
    word after.mem other index = word m.mem other index := by
  have live : Live m other := inv.tables.live other isTable
  have notFresh : other ≠ fresh := fun same => hung.isFresh (same ▸ live)
  by_cases atTable : other = table
  · subst atTable
    exact hung.word_table live small fun same => elsewhere ⟨rfl, same⟩
  · exact (hung.sameFrame (inv.tables.last_small inside) atTable
      notFresh).word small

omit hung zeros in
/-- When the table is a root, the path to it is empty. -/
theorem hung_root {root : Nat} (known : root ≤ task.length)
    (isRoot : treeRoot cfg task root = table) : root = id ∧ path = [] := by
  have toRoot : walk (findTable m.mem) (treeRoot cfg task root) [] =
      some table := by rw [walk, isRoot]
  obtain ⟨sameId, samePath⟩ := inv.table_unique (treeDom_nil known)
    (treeDom_closed _ _ _ _ inside) toRoot reached
  exact ⟨sameId, samePath.symm⟩

/-- The entries of all trees are as before. -/
theorem hung_leaf {id' page : Nat}
    (pageInside : treeDom task.length id' (Vm.path page)) :
    leaf after.mem (treeRoot cfg task id') page =
      leaf m.mem (treeRoot cfg task id') page := by
  rw [leaf, leaf]
  cases old : walk (findTable m.mem) (treeRoot cfg task id') (Vm.path page) with
  | some last =>
      have new := (hung_walk inv hung zeros inside reached pageInside last).2
        (Or.inl old)
      rw [new]
      refine hung_word inv hung inside reached
        ⟨_, _, pageInside, old⟩ (index_lt _ _) ?_
      -- The table hung below another is not a last table.
      rintro ⟨rfl, _⟩
      have same := (inv.table_unique pageInside
        (treeDom_closed _ _ _ _ inside) old reached).2
      have short := inside.2.1
      rw [← same] at short
      simp [Vm.path] at short
  | none =>
      cases new : walk (findTable after.mem) (treeRoot cfg task id')
          (Vm.path page) with
      | none => rfl
      | some last =>
          rcases (hung_walk inv hung zeros inside reached pageInside last).1 new
            with before | ⟨_, _, rfl⟩
          · rw [old] at before
            cases before
          · exact zeros _ (index_lt _ _)

/-- So are those of user pages. -/
theorem hung_pte (slot : Slot) :
    pte after.mem task slot = pte m.mem task slot := by
  by_cases user : ∃ t, task[slot.1]? = some t ∧ slot.2 < 2 ^ 26
  · obtain ⟨t, taskAt, small⟩ := user
    have root := @treeRoot_task cfg _ _ _ taskAt
    rw [show slot = (slot.1, slot.2) from rfl, pte_task taskAt small,
      pte_task taskAt small, ← root]
    exact hung_leaf inv hung zeros inside reached (treeDom_user taskAt small)
  · rw [pte_eq_zero user, pte_eq_zero user]

/-- A table hung below a table of a task, or below the kernel's at the start. -/
theorem hang (kernelMulti : ∀ pfn ∈ multi, ramBase + pfn ∈ kernel)
    (owner : id ≠ 0 ∨ task = []) : Inv cfg task kernel budget after := by
  have ptes := hung_pte inv hung zeros inside reached
  have walks {id' : Nat} {path' : List Nat} := @hung_walk cfg task kernel
    budget m after multi zeroed id position table fresh path inv hung zeros inside reached
    id' path'
  have isTables := hung_isTable inv hung zeros inside reached
  have words {other index : Nat} := @hung_word cfg task kernel budget m after
    multi zeroed id position table fresh path inv hung inside reached other index
  have holdsEq : ∀ slot, holds after.mem task slot = holds m.mem task slot :=
    fun slot => holds_congr (ptes slot)
  refine ⟨⟨multi, hung.allocator, kernelMulti⟩, ?_, inv.first, ?_, ?_, ?_, ?_,
    ?_, ?_, ?_, ?_, ?_, inv.areas⟩
  · exact Tables.hung_tables inv.tables hung inside reached
      fun next nextInside => by
        rw [zeros _ (inv.tables.last_small nextInside)]
        exact not_has_zero permV
  · exact fun frame member =>
      hung.live_iff.2 (Or.inl (inv.kernel_live frame member))
  · intro frame member isTable
    rcases (isTables frame).1 isTable with old | rfl
    · exact inv.kernel_apart frame member old
    · exact hung.isFresh (inv.kernel_live frame member)
  · intro id' path' position' table' inside' toTable valid
    have prefixInside := treeDom_closed _ _ _ _ inside'
    have small := inv.tables.last_small inside'
    rcases (walks prefixInside table').1 toTable with old | ⟨_, _, rfl⟩
    · by_cases here : table' = table ∧ position' = position
      · obtain ⟨rfl, rfl⟩ := here
        have ppn := hung.allocator.lt_ppn hung.live_fresh
        rw [hung.word_here, entryPpn_entry ppn (by decide)]
      · have same := words ⟨id', path', prefixInside, old⟩ small here
        rw [same] at valid ⊢
        exact inv.links id' path' position' table' inside' old valid
    · rw [zeros _ small] at valid
      exact absurd valid (not_has_zero permV)
  · intro t member other high small
    obtain ⟨index, taskAt⟩ := List.mem_iff_getElem?.1 member
    rcases owner with notKernel | noTask
    · have half {root : Nat} (known : root ≤ task.length) :
          ¬ (treeRoot cfg task root = table ∧ other = position) := by
        rintro ⟨isRoot, rfl⟩
        obtain ⟨rfl, rfl⟩ := hung_root inv inside reached known isRoot
        have lower := inside.2.2.2 other rfl
        omega
      have ofTask := half (lt_length taskAt)
      rw [treeRoot_task taskAt] at ofTask
      rw [words (root_isTable taskAt) small ofTask,
        words swapper_isTable small (half (Nat.zero_le _))]
      exact inv.upper t member other high small
    · rw [noTask] at member
      cases member
  · intro other low
    have elsewhere : ¬ (cfg.swapper = table ∧ other = position) := by
      rintro ⟨isRoot, rfl⟩
      obtain ⟨rfl, rfl⟩ :=
        hung_root inv inside reached (Nat.zero_le _) isRoot
      have upper := (inside.2.2.2 other rfl).1 rfl
      omega
    rw [words swapper_isTable (by omega) elsewhere]
    exact inv.lower other low
  · intro slot frame held
    rw [holdsEq] at held
    obtain ⟨live, notKernel, notTable⟩ := inv.users slot frame held
    refine ⟨hung.live_iff.2 (Or.inl live), notKernel, fun isTable => ?_⟩
    rcases (isTables frame).1 isTable with old | rfl
    · exact notTable old
    · exact hung.isFresh live
  · intro id' t page taskAt user valid
    rw [← pte_task taskAt user, ptes, pte_task taskAt user] at valid ⊢
    exact inv.granted id' t page taskAt user valid
  · refine inv.sharing.congr holdsEq
      (fun slot => (writable_congr (ptes slot)).1) fun frame slot held => ?_
    exact (hung.refCnt_eq (inv.users slot frame held).1).ge
  · intro pfn
    rw [hung.counts, Function.update_apply]
    split
    · exact inv.one_le_budget
    · exact inv.bounded pfn

end Hang

/-! ## Writing an entry of a last table -/

section Write

variable {id page table value : Nat} (inv : Inv cfg task kernel budget m)
    (inside : treeDom task.length id (path page))
    (reached : walk (findTable m.mem) (treeRoot cfg task id) (path page) =
      some table)
    (written : after.mem = setWord m.mem table (index 0 page) value)

include inv inside reached

/-- Tables from which the tree goes on are not last tables. -/
theorem write_apart {id' position : Nat} {path' : List Nat} {frame : Nat}
    (inside' : treeDom task.length id' (path' ++ [position]))
    (toFrame : walk (findTable m.mem) (treeRoot cfg task id') path' =
      some frame) : frame ≠ table := by
  rintro rfl
  have same := (inv.table_unique (treeDom_closed _ _ _ _ inside') inside toFrame
    reached).2
  have short := inside'.2.1
  rw [same] at short
  simp [Vm.path] at short

include written

omit inv inside reached in
theorem write_sameFrame {other : Nat} (different : other ≠ table) :
    SameFrame m.mem after.mem other := by
  rw [written]
  exact sameFrame_setWord (index_lt _ _) different

theorem write_walk {id' : Nat} {path' : List Nat}
    (inside' : treeDom task.length id' path') :
    walk (findTable after.mem) (treeRoot cfg task id') path' =
      walk (findTable m.mem) (treeRoot cfg task id') path' := by
  refine Forest.walk_congr inv.tables.forest.closed ?_ inside'
  refine inv.tables.agree_of_sameFrame
    fun root key position frame keyInside toFrame => ?_
  exact write_sameFrame written
    (write_apart inv inside reached keyInside toFrame)

theorem write_isTable (frame : Nat) :
    IsTable cfg task after.mem frame ↔ IsTable cfg task m.mem frame := by
  constructor
  · rintro ⟨id', path', inside', toFrame⟩
    exact ⟨id', path', inside',
      (write_walk inv inside reached written inside').symm.trans toFrame⟩
  · rintro ⟨id', path', inside', toFrame⟩
    exact ⟨id', path', inside',
      (write_walk inv inside reached written inside').trans toFrame⟩

/-- One entry of all trees has changed. -/
theorem write_leaf (small : page < 2 ^ 27) (valueSmall : value < 2 ^ 64)
    {id' page' : Nat} (small' : page' < 2 ^ 27)
    (inside' : treeDom task.length id' (Vm.path page')) :
    leaf after.mem (treeRoot cfg task id') page' =
      if id' = id ∧ page' = page then value
      else leaf m.mem (treeRoot cfg task id') page' := by
  rw [leaf, leaf, write_walk inv inside reached written inside']
  cases toLast : walk (findTable m.mem) (treeRoot cfg task id')
      (Vm.path page') with
  | none =>
      rw [if_neg]
      rintro ⟨rfl, rfl⟩
      rw [reached] at toLast
      cases toLast
  | some last =>
      by_cases sameTable : last = table
      · subst sameTable
        obtain ⟨rfl, samePath⟩ := inv.table_unique inside' inside toLast reached
        by_cases samePage : page' = page
        · rw [if_pos ⟨rfl, samePage⟩, samePage]
          show word after.mem last (index 0 page) = value
          rw [written]
          exact word_setWord _ _ _ valueSmall
        · rw [if_neg fun both => samePage both.2]
          have otherIndex : index 0 page' ≠ index 0 page := fun same =>
            samePage (eq_of_indices small' small samePath same)
          show word after.mem last (index 0 page') = _
          rw [written, word_setWord_of_ne otherIndex]
      · rw [if_neg]
        · exact (write_sameFrame written sameTable).word (index_lt _ _)
        · rintro ⟨rfl, rfl⟩
          rw [reached] at toLast
          exact sameTable (Option.some_inj.1 toLast).symm

/-- One entry of a user page at most has changed. -/
theorem write_pte (small : page < 2 ^ 27) (valueSmall : value < 2 ^ 64)
    (slot : Slot) :
    pte after.mem task slot =
      if slot.1 + 1 = id ∧ slot.2 = page ∧
          ∃ t, task[slot.1]? = some t ∧ slot.2 < 2 ^ 26 then value
      else pte m.mem task slot := by
  by_cases user : ∃ t, task[slot.1]? = some t ∧ slot.2 < 2 ^ 26
  · obtain ⟨t, taskAt, low⟩ := user
    have root := @treeRoot_task cfg _ _ _ taskAt
    have known : (∃ t, task[slot.1]? = some t ∧ slot.2 < 2 ^ 26) = True :=
      eq_true ⟨t, taskAt, low⟩
    simp only [known, and_true]
    rw [show slot = (slot.1, slot.2) from rfl, pte_task taskAt low,
      pte_task taskAt low, ← root]
    exact write_leaf inv inside reached written small valueSmall (by omega)
      (treeDom_user taskAt low)
  · rw [pte_eq_zero user, pte_eq_zero user, if_neg fun both => user both.2.2]

/--
The entry of a page is replaced, and the frame it named may have lost its last
reference.
-/
theorem write (small : page < 2 ^ 27) (valueSmall : value < 2 ^ 64)
    {budget' : Nat}
    (allocator : ∃ multi, Allocator cfg.top multi after ∧
      ∀ pfn ∈ multi, ramBase + pfn ∈ kernel)
    (keep : ∀ frame, Live m frame →
      (∀ slot : Slot, slot.1 + 1 = id → slot.2 = page →
        holds m.mem task slot ≠ some frame) → Live after frame)
    (new : ∀ slot t, slot + 1 = id → task[slot]? = some t → page < 2 ^ 26 →
      has permV value → ramBase ≤ entryPpn value ∧ entryPpn value ∉ kernel ∧
        ¬ IsTable cfg task m.mem (entryPpn value) ∧ Granted t page value)
    (sharing : Sharing (holds after.mem task) (writable after.mem task)
      (count after))
    (bounded : ∀ pfn, after.buddy.refCnt pfn ≤ budget') :
    Inv cfg task kernel budget' after := by
  have walks {id' : Nat} {path' : List Nat} := @write_walk cfg task kernel
    budget m after id page table value inv inside reached written id' path'
  have isTables := write_isTable inv inside reached written
  have ptes := write_pte inv inside reached written small valueSmall
  have same {other : Nat} (different : other ≠ table) :
      SameFrame m.mem after.mem other :=
    write_sameFrame written different
  have unheld {frame : Nat} (apart : ∀ slot, holds m.mem task slot ≠ some frame)
      (live : Live m frame) : Live after frame :=
    keep frame live fun slot _ _ => apart slot
  have kernelUnheld : ∀ frame ∈ kernel, ∀ slot,
      holds m.mem task slot ≠ some frame :=
    fun frame member slot held => (inv.users slot frame held).2.1 member
  have tableUnheld : ∀ frame, IsTable cfg task m.mem frame → ∀ slot,
      holds m.mem task slot ≠ some frame :=
    fun frame isTable slot held => (inv.users slot frame held).2.2 isTable
  refine ⟨allocator, ?_, inv.first, ?_, ?_, ?_, ?_, ?_, ?_, ?_, sharing, bounded,
    inv.areas⟩
  · refine (inv.tables.congr (fun id' path' position frame inside' toFrame =>
      same (write_apart inv inside reached inside' toFrame)) ?_).1
    exact fun frame isTable live => unheld (tableUnheld frame isTable) live
  · exact fun frame member =>
      unheld (kernelUnheld frame member) (inv.kernel_live frame member)
  · exact fun frame member isTable =>
      inv.kernel_apart frame member ((isTables frame).1 isTable)
  · intro id' path' position table' inside' toTable valid
    have prefixInside := treeDom_closed _ _ _ _ inside'
    rw [walks prefixInside] at toTable
    have eq := (same (write_apart inv inside reached inside' toTable)).word
      (inv.tables.last_small inside')
    rw [eq] at valid ⊢
    exact inv.links id' path' position table' inside' toTable valid
  · intro t member position high low
    obtain ⟨id', taskAt⟩ := List.mem_iff_getElem?.1 member
    have notTask : t.pgd ≠ table := by
      rintro rfl
      have same := (inv.table_unique (treeDom_nil (lt_length taskAt)) inside
        (by rw [walk, treeRoot_task taskAt]) reached).2
      simp [Vm.path] at same
    have notSwapper : cfg.swapper ≠ table := by
      rintro rfl
      have same := (inv.table_unique (treeDom_nil (Nat.zero_le _)) inside
        (rfl : walk _ (treeRoot cfg task 0) [] = some cfg.swapper) reached).2
      simp [Vm.path] at same
    rw [(same notTask).word low, (same notSwapper).word low]
    exact inv.upper t member position high low
  · intro position low
    have notSwapper : cfg.swapper ≠ table := by
      rintro rfl
      have same := (inv.table_unique (treeDom_nil (Nat.zero_le _)) inside
        (rfl : walk _ (treeRoot cfg task 0) [] = some cfg.swapper) reached).2
      simp [Vm.path] at same
    rw [(same notSwapper).word (by omega)]
    exact inv.lower position low
  · intro slot frame held
    have counted := sharing.count_pos held
    have entryAt := holds_eq_some.1 held
    rw [ptes slot] at entryAt
    split at entryAt
    · rename_i here
      obtain ⟨rfl, rfl, t, taskAt, low⟩ := here
      obtain ⟨base, notKernel, notTable, _⟩ :=
        new slot.1 t rfl taskAt low entryAt.1
      rw [entryAt.2] at base notKernel notTable
      exact ⟨⟨base, counted⟩, notKernel, fun isTable =>
        notTable ((isTables frame).1 isTable)⟩
    · obtain ⟨live, notKernel, notTable⟩ :=
        inv.users slot frame (holds_eq_some.2 entryAt)
      exact ⟨⟨live.1, counted⟩, notKernel, fun isTable =>
        notTable ((isTables frame).1 isTable)⟩
  · intro id' t page' taskAt user valid
    rw [← pte_task taskAt user, ptes] at valid ⊢
    split at valid
    · rename_i here
      obtain ⟨rfl, rfl, _⟩ := here
      rw [if_pos ⟨rfl, rfl, t, taskAt, user⟩]
      exact (new id' t rfl taskAt user valid).2.2.2
    · rename_i elsewhere
      rw [if_neg elsewhere, pte_task taskAt user]
      rw [pte_task taskAt user] at valid
      exact inv.granted id' t page' taskAt user valid

end Write

end Inv

/-! ## Walking down and making tables -/

/-- The entries of the pages of the upper half are as before. -/
def KernelKept (cfg : Config) (m after : Machine) : Prop :=
  ∀ page, 2 ^ 26 ≤ page → page < 2 ^ 27 →
    leaf after.mem cfg.swapper page = leaf m.mem cfg.swapper page

theorem KernelKept.refl (cfg : Config) (m : Machine) : KernelKept cfg m m :=
  fun _ _ _ => rfl

theorem KernelKept.trans {cfg : Config} {m middle after : Machine}
    (first : KernelKept cfg m middle) (second : KernelKept cfg middle after) :
    KernelKept cfg m after :=
  fun page upper small =>
    (second page upper small).trans (first page upper small)

/-- Tables were added and nothing else happened. -/
structure Extended (cfg : Config) (task : List Task) (m after : Machine) :
    Prop where
  pte : ∀ slot, pte after.mem task slot = pte m.mem task slot
  live : ∀ frame, Live m frame → Live after frame
  count : ∀ frame, Live m frame → count after frame = count m frame
  same : ∀ frame, Live m frame → ¬ IsTable cfg task m.mem frame →
    SameFrame m.mem after.mem frame
  isTable : ∀ frame, IsTable cfg task after.mem frame →
    IsTable cfg task m.mem frame ∨ ¬ Live m frame
  walk : ∀ id path last, treeDom task.length id path →
    walk (findTable m.mem) (treeRoot cfg task id) path = some last →
    walk (findTable after.mem) (treeRoot cfg task id) path = some last
  oom : after.oom = m.oom

namespace Extended

variable {cfg : Config} {task : List Task} {m middle after : Machine}

theorem refl (cfg : Config) (task : List Task) (m : Machine) :
    Extended cfg task m m :=
  ⟨fun _ => rfl, fun _ => id, fun _ _ => rfl, fun _ _ _ => SameFrame.refl _ _,
    fun _ => Or.inl, fun _ _ _ _ => id, rfl⟩

theorem trans (first : Extended cfg task m middle)
    (second : Extended cfg task middle after) : Extended cfg task m after where
  pte slot := (second.pte slot).trans (first.pte slot)
  live frame live := second.live frame (first.live frame live)
  count frame live :=
    (second.count frame (first.live frame live)).trans (first.count frame live)
  same frame live notTable := by
    refine (first.same frame live notTable).trans
      (second.same frame (first.live frame live) fun isTable => ?_)
    rcases first.isTable frame isTable with old | dead
    · exact notTable old
    · exact dead live
  isTable frame isTable := by
    rcases second.isTable frame isTable with old | dead
    · exact first.isTable frame old
    · exact Or.inr fun live => dead (first.live frame live)
  walk id path last inside reached :=
    second.walk id path last inside (first.walk id path last inside reached)
  oom := second.oom.trans first.oom

/-- A frame in use that is no table does not become one. -/
theorem not_isTable (extended : Extended cfg task m after) {frame : Nat}
    (live : Live m frame) (notTable : ¬ IsTable cfg task m.mem frame) :
    ¬ IsTable cfg task after.mem frame := by
  intro isTable
  rcases extended.isTable frame isTable with old | dead
  · exact notTable old
  · exact dead live

end Extended

namespace Inv

variable {cfg : Config} {task : List Task} {kernel : Finset Nat} {budget : Nat}
    {m after : Machine}

/-- One level of `create_mapping`. -/
theorem next (inv : Inv cfg task kernel budget m)
    (blank : Blank cfg m) {id position table : Nat} {path : List Nat}
    (inside : treeDom task.length id (path ++ [position]))
    (reached : walk (findTable m.mem) (treeRoot cfg task id) path = some table)
    (owner : id ≠ 0 ∨ task = [])
    (succeeds : (nextTable cfg m table position).2.oom = false) :
    Inv cfg task kernel budget (nextTable cfg m table position).2 ∧
      walk (findTable (nextTable cfg m table position).2.mem)
        (treeRoot cfg task id) (path ++ [position]) =
          some (nextTable cfg m table position).1 ∧
      Extended cfg task m (nextTable cfg m table position).2 := by
  rcases inv.allocator with ⟨multi, allocator, kernelMulti⟩
  rcases nextTable_cases allocator succeeds with ⟨next, found, result⟩ | hung
  · rw [result]
    refine ⟨inv, ?_, Extended.refl cfg task m⟩
    rw [walk_snoc, reached]
    exact found
  · have zeros := hung.zeros blank
      (inv.tables.reached_live (treeDom_closed _ _ _ _ inside) reached)
      (inv.tables.last_small inside)
    refine ⟨inv.hang hung zeros inside reached kernelMulti owner,
      (hung_walk inv hung zeros inside reached inside _).2 (Or.inr ⟨rfl, rfl, rfl⟩),
      ⟨hung_pte inv hung zeros inside reached, fun frame live =>
        hung.live_iff.2 (Or.inl live), fun frame live => hung.refCnt_eq live,
        fun frame live notTable => ?_, fun frame isTable => ?_,
        fun root key last keyInside toLast =>
          (hung_walk inv hung zeros inside reached keyInside last).2 (Or.inl toLast),
        hung.oom⟩⟩
    · have notHere : frame ≠ table := by
        rintro rfl
        exact notTable ⟨id, path, treeDom_closed _ _ _ _ inside, reached⟩
      have notFresh : frame ≠ (nextTable cfg m table position).1 :=
        fun same => hung.isFresh (same ▸ live)
      exact hung.sameFrame (inv.tables.last_small inside) notHere notFresh
    · rcases (hung_isTable inv hung zeros inside reached frame).1 isTable with
        old | rfl
      · exact Or.inl old
      · exact Or.inr hung.isFresh

theorem next_keepsFree (inv : Inv cfg task kernel budget m)
    {id position table : Nat} {path : List Nat}
    (inside : treeDom task.length id (path ++ [position]))
    (reached : walk (findTable m.mem) (treeRoot cfg task id) path = some table)
    (succeeds : (nextTable cfg m table position).2.oom = false) :
    KeepsFree cfg.top m (nextTable cfg m table position).2 := by
  rcases inv.allocator with ⟨multi, allocator, _⟩
  rcases nextTable_cases allocator succeeds with ⟨next, _, result⟩ | hung
  · rw [result]
    exact KeepsFree.refl cfg.top m
  · exact hung.keepsFree
      (inv.tables.reached_live (treeDom_closed _ _ _ _ inside) reached)
      (inv.tables.last_small inside)

/-- A table is made, or found. -/
theorem next_kernel (inv : Inv cfg task kernel budget m)
    (blank : Blank cfg m) {id position table : Nat} {path : List Nat}
    (inside : treeDom task.length id (path ++ [position]))
    (reached : walk (findTable m.mem) (treeRoot cfg task id) path = some table)
    (succeeds : (nextTable cfg m table position).2.oom = false) :
    KernelKept cfg m (nextTable cfg m table position).2 := by
  intro page upper small
  rcases inv.allocator with ⟨multi, allocator, _⟩
  rcases nextTable_cases allocator succeeds with ⟨next, _, result⟩ | hung
  · rw [result]
  · have zeros := hung.zeros blank
      (inv.tables.reached_live (treeDom_closed _ _ _ _ inside) reached)
      (inv.tables.last_small inside)
    have same := hung_leaf inv hung zeros inside reached
      (treeDom_kernel task.length upper small)
    exact same

/-- An entry of a task is none of the kernel's. -/
theorem write_kernel (inv : Inv cfg task kernel budget m)
    {id page table value : Nat}
    (inside : treeDom task.length id (path page)) (ofTask : id ≠ 0)
    (small : page < 2 ^ 27)
    (reached : walk (findTable m.mem) (treeRoot cfg task id) (path page) =
      some table) (valueSmall : value < 2 ^ 64)
    (written : after.mem = setWord m.mem table (index 0 page) value) :
    KernelKept cfg m after := by
  intro other upper otherSmall
  have same := write_leaf inv inside reached written small valueSmall otherSmall
    (treeDom_kernel task.length upper otherSmall)
  rwa [if_neg fun both => ofTask both.1.symm] at same

/-- The round of `create_mapping` for one page: the tables, then the entry. -/
theorem mapPage (inv : Inv cfg task kernel budget m)
    (blank : Blank cfg m) {id va pa perm : Nat}
    (inside : treeDom task.length id (path (va / 4096)))
    (owner : id ≠ 0 ∨ task = [])
    (succeeds : (mapPage cfg m (treeRoot cfg task id) va pa perm).2.oom =
      false) :
    ∃ table last, Inv cfg task kernel budget last ∧
      walk (findTable last.mem) (treeRoot cfg task id) (path (va / 4096)) =
        some table ∧
      Extended cfg task m last ∧ KernelKept cfg m last ∧
      Vm.mapPage cfg m (treeRoot cfg task id) va pa perm =
        (false, { last with
          mem := setWord last.mem table (index 0 (va / 4096))
            (entry ((pa >>> 12) &&& ppnMask) perm) }) := by
  obtain ⟨firstOk, secondOk⟩ := mapPage_succeeds succeeds
  have split : path (va / 4096) =
      [vpn 2 va] ++ [vpn 1 va] := by
    rw [vpn_eq_index, vpn_eq_index]
    rfl
  rw [split] at inside ⊢
  have firstInside : treeDom task.length id ([] ++ [vpn 2 va]) :=
    treeDom_closed _ _ _ _ inside
  have live {machine : Machine} {budget : Nat} {root frame : Nat}
      {key : List Nat} (machineInv : Inv cfg task kernel budget machine)
      (keyInside : treeDom task.length root key)
      (toFrame : walk (findTable machine.mem) (treeRoot cfg task root) key =
        some frame) : frame ≠ nullFrame := by
    rcases machineInv.allocator with ⟨_, allocator, _⟩
    exact Nat.ne_of_lt (allocator.lt_nullFrame
      (machineInv.tables.reached_live keyInside toFrame))
  obtain ⟨firstInv, firstWalk, firstExtended⟩ :=
    inv.next blank firstInside rfl owner firstOk
  have firstKernel := inv.next_kernel blank firstInside rfl firstOk
  have middleBlank := blank.mono (inv.next_keepsFree firstInside rfl firstOk)
  rcases first : nextTable cfg m (treeRoot cfg task id) (vpn 2 va) with
    ⟨pmd, middle⟩
  rw [first] at firstInv firstWalk firstExtended secondOk middleBlank
  rw [first] at firstKernel
  have pmdFound : pmd ≠ nullFrame := live firstInv firstInside firstWalk
  obtain ⟨lastInv, lastWalk, lastExtended⟩ :=
    firstInv.next middleBlank inside firstWalk owner (secondOk pmdFound)
  have lastKernel := firstInv.next_kernel middleBlank inside firstWalk
    (secondOk pmdFound)
  rcases second : nextTable cfg middle pmd (vpn 1 va) with ⟨table, last⟩
  rw [second] at lastInv lastWalk lastExtended lastKernel
  have tableFound : table ≠ nullFrame := live lastInv inside lastWalk
  refine ⟨table, last, lastInv, lastWalk, firstExtended.trans lastExtended,
    firstKernel.trans lastKernel, ?_⟩
  rw [mapPage_eq pa perm first second pmdFound tableFound, vpn_eq_index 0]

end Inv

/-- `create_mapping` for a single page is one round. -/
theorem createMapping_page {cfg : Config} {m after : Machine}
    {pgtbl va pa perm : Nat} (vaSmall : va < 2 ^ 64) (paSmall : pa < 2 ^ 64)
    (returns : createMapping cfg m pgtbl va pa 4096 perm = .ok after) :
    (Vm.mapPage cfg m pgtbl va pa perm).2 = after := by
  have rounds : (4096 + 4095) / 4096 = 0 + 1 := by decide
  have fits : 4096 ≤ 2 ^ 64 - 4096 := by decide
  simp only [createMapping, rounds, mapPages, Nat.add_zero,
    Nat.mod_eq_of_lt vaSmall, Nat.mod_eq_of_lt paSmall, fits, or_true, if_true]
    at returns
  rw [← Except.ok.inj returns]
  split <;> rfl

namespace Inv

variable {cfg : Config} {task : List Task} {kernel : Finset Nat} {budget : Nat}
    {m after : Machine}

/-- Mapping a user page of a task, up to the entry. -/
theorem createMapping_user (inv : Inv cfg task kernel budget m)
    (blank : Blank cfg m) {id page frame perm : Nat} {t : Task}
    (taskAt : task[id]? = some t) (user : page < 2 ^ 26)
    (frameSmall : frame < 2 ^ 44)
    (returns : createMapping cfg m t.pgd (4096 * page) (4096 * frame) 4096
      perm = .ok after) (succeeds : after.oom = false) :
    ∃ table last, Inv cfg task kernel budget last ∧
      walk (findTable last.mem) (treeRoot cfg task (id + 1)) (path page) =
        some table ∧
      Extended cfg task m last ∧ KernelKept cfg m last ∧
      after = { last with
        mem := setWord last.mem table (index 0 page) (entry frame perm) } := by
  have single := createMapping_page (by omega) (by omega) returns
  have number : 4096 * page / 4096 = page := by omega
  have frameNumber : ((4096 * frame) >>> 12) &&& ppnMask = frame := by
    have mask : ppnMask = 2 ^ 44 - 1 := by decide
    rw [mask, Nat.and_two_pow_sub_one_eq_mod, Nat.shiftRight_eq_div_pow]
    omega
  have inside := treeDom_user taskAt user
  rw [← number] at inside
  rw [← @treeRoot_task cfg _ _ _ taskAt] at single
  have fine : (Vm.mapPage cfg m (treeRoot cfg task (id + 1)) (4096 * page)
      (4096 * frame) perm).2.oom = false := by
    rw [single]
    exact succeeds
  obtain ⟨table, last, lastInv, toTable, extended, kernelKept, result⟩ :=
    inv.mapPage blank inside (Or.inl (Nat.succ_ne_zero id)) fine
  rw [number] at toTable result
  rw [result, frameNumber] at single
  exact ⟨table, last, lastInv, toTable, extended, kernelKept, single.symm⟩

end Inv

end TinyRiscvOs.Vm
