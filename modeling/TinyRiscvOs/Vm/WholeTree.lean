import TinyRiscvOs.Vm.Fault
import TinyRiscvOs.Vm.MappedRange

/-!
# The whole table of a task

The invariant of the address spaces looks at the lower half of each root table
and at the upper half of `swapper_pg_dir`.  The root table of a task has both
halves, so it is one tree of its own, and what is known of `create_mapping` on
a single tree applies to it.  The pages that `create_mapping` takes for new
tables are empty whenever the allocator clears them or finds them cleared.
-/

namespace TinyRiscvOs.Vm

open TinyRiscvOs.Lib
open TinyRiscvOs.Mm

/-! ## Empty pages are clean pages -/

/-- A page for a new table has no valid entry. -/
theorem Blank.cleanPage {cfg : Config} {m : Machine} {multi : Set Nat}
    (blank : Blank cfg m) (allocator : Allocator cfg.top multi m)
    (succeeds : (cfg.kalloc m).2.oom = false) (allowed : Nat → Prop) :
    CleanPage cfg m allowed := by
  intro position small valid
  have allocated := allocPage_spec allocator succeeds
  have zero : word (cfg.kalloc m).2.mem (cfg.kalloc m).1 position = 0 := by
    by_cases zeroing : cfg.fill ≠ .asFound
    · exact allocated.word_zero (decide_eq_true zeroing) small
    · have unchanged : (cfg.kalloc m).2.mem = m.mem := by
        have written := allocated.mem
        rw [decide_eq_false zeroing] at written
        rw [Config.kalloc, decide_eq_false zeroing]
        exact written
      rw [unchanged]
      exact blank.resolve_left zeroing _ allocated.free position small
  rw [zero] at valid
  exact absurd valid (not_has_zero permV)

theorem nextTable_kalloc {cfg : Config} {m : Machine} {table position : Nat}
    (absent : word m.mem table position &&& permV = 0)
    (succeeds : (nextTable cfg m table position).2.oom = false) :
    (cfg.kalloc m).2.oom = false := by
  rw [nextTable] at succeeds
  simpa only [absent, if_true] using succeeds

theorem nextTable_keepsFree {cfg : Config} {m : Machine} {multi : Set Nat}
    {table position : Nat} (allocator : Allocator cfg.top multi m)
    (live : Live m table) (small : position < 512)
    (succeeds : (nextTable cfg m table position).2.oom = false) :
    KeepsFree cfg.top m (nextTable cfg m table position).2 := by
  rcases nextTable_cases allocator succeeds with ⟨next, _, result⟩ | hung
  · rw [result]
    exact KeepsFree.refl cfg.top m
  · exact hung.keepsFree live small

namespace TreeInv

variable {cfg : Config} {pgtbl : Nat} {m after : Machine}

/-- The tables that one round makes are clean, and those after it are, too. -/
theorem cleanStep (inv : TreeInv cfg pgtbl m) (blank : Blank cfg m)
    {va pa perm : Nat}
    (succeeds : (Vm.mapPage cfg m pgtbl va pa perm).2.oom = false)
    (written : Nat → Prop) :
    CleanStep cfg m pgtbl va written ∧
      Blank cfg (Vm.mapPage cfg m pgtbl va pa perm).2 := by
  obtain ⟨firstOk, secondOk⟩ := mapPage_succeeds succeeds
  obtain ⟨multi, allocator⟩ := inv.allocator
  have whole : path (pageNumber va) = [vpn 2 va] ++ [vpn 1 va] :=
    path_pageNumber va
  have inside := treePath_path (pageNumber va)
  rw [whole] at inside
  have half : [] ++ [vpn 2 va] <+: path (pageNumber va) := by
    rw [whole]
    exact List.prefix_append _ _
  have rootLive : Live m pgtbl :=
    inv.tables.reached_live (treePath_closed () [] _
      (treePath_closed () [vpn 2 va] _ inside)) rfl
  have first : word m.mem pgtbl (vpn 2 va) &&& permV = 0 →
      CleanPage cfg m fun _ => False := fun absent =>
    blank.cleanPage allocator (nextTable_kalloc absent firstOk) _
  obtain ⟨middleInv, toPmd, pmdFound, _⟩ := @next cfg pgtbl m written inv []
    pgtbl (vpn 2 va) _ half rfl
    (Or.inr fun absent position small valid =>
      (first absent position small valid).elim) firstOk
  have middleBlank := blank.mono (nextTable_keepsFree allocator rootLive
    (inside.2 (vpn 2 va) (by simp)) firstOk)
  replace secondOk := secondOk pmdFound
  rcases firstTable : nextTable cfg m pgtbl (vpn 2 va) with ⟨pmd, middle⟩
  rw [firstTable] at middleInv toPmd pmdFound middleBlank secondOk
  obtain ⟨middleMulti, middleAllocator⟩ := middleInv.allocator
  have second (allowed : Nat → Prop) :
      word middle.mem pmd (vpn 1 va) &&& permV = 0 →
        CleanPage cfg middle allowed := fun absent =>
    middleBlank.cleanPage middleAllocator (nextTable_kalloc absent secondOk) _
  refine ⟨⟨first, ?_⟩, ?_⟩
  · rw [firstTable]
    exact second _
  obtain ⟨lastInv, toPte, pteFound, _⟩ := @next cfg pgtbl middle written
    middleInv [vpn 2 va] pmd (vpn 1 va) (pageNumber va)
    (whole ▸ List.prefix_rfl) toPmd
    (Or.inr fun absent position small valid =>
      (second (fun _ => False) absent position small valid).elim) secondOk
  have pmdLive := middleInv.tables.reached_live
    (treePath_closed () [vpn 2 va] _ inside) toPmd
  have lastBlank := middleBlank.mono (nextTable_keepsFree middleAllocator
    pmdLive (inside.2 (vpn 1 va) (by simp)) secondOk)
  rcases secondTable : nextTable cfg middle pmd (vpn 1 va) with ⟨pte, last⟩
  rw [secondTable] at lastInv toPte pteFound lastBlank
  have pteLive := lastInv.tables.reached_live inside toPte
  obtain ⟨lastMulti, lastAllocator⟩ := lastInv.allocator
  rw [mapPage_eq pa perm firstTable secondTable pmdFound pteFound]
  refine lastBlank.mono fun frame free => ⟨free.congr rfl, ?_⟩
  refine sameFrame_setWord ?_ ?_
  · rw [vpn_eq_index]
    exact index_lt _ _
  · rintro rfl
    exact lastAllocator.not_free pteLive (free.congr rfl)

/-- So are those of a whole loop. -/
theorem cleanPages (inv : TreeInv cfg pgtbl m) (blank : Blank cfg m)
    {va pa perm count offset : Nat}
    (succeeds : (Vm.mapPages cfg pgtbl va pa perm count offset m).2.oom = false)
    (written : Nat → Prop) :
    CleanPages cfg pgtbl va pa perm written count offset m ∧
      Blank cfg (Vm.mapPages cfg pgtbl va pa perm count offset m).2 := by
  induction count generalizing offset m with
  | zero => exact ⟨trivial, blank⟩
  | succ count induction =>
      have fine := mapPages_first succeeds
      obtain ⟨clean, nextBlank⟩ := inv.cleanStep blank fine written
      obtain ⟨goesOn, nextInv, _⟩ := @mapPage cfg pgtbl m (fun _ => True) inv _
        _ _ trivial (Or.inr (inv.cleanStep blank fine _).1) fine
      rw [Vm.mapPages] at succeeds ⊢
      dsimp only at succeeds ⊢
      rw [goesOn] at succeeds ⊢
      obtain ⟨rest, lastBlank⟩ := induction nextInv nextBlank succeeds
      exact ⟨⟨clean, rest⟩, lastBlank⟩

theorem createMapping_blank (inv : TreeInv cfg pgtbl m) (blank : Blank cfg m)
    {va pa sz perm : Nat}
    (returns : Vm.createMapping cfg m pgtbl va pa sz perm = .ok after)
    (succeeds : after.oom = false) :
    ZeroedOrClean cfg pgtbl m (.createMapping va pa sz perm) ∧
      Blank cfg after := by
  obtain rfl := createMapping_ok returns
  obtain ⟨clean, afterBlank⟩ := inv.cleanPages blank succeeds (Written va sz)
  exact ⟨Or.inr clean, afterBlank⟩

end TreeInv

/-! ## Both halves of a root table -/

namespace Inv

variable {cfg : Config} {task : List Task} {kernel : Finset Nat} {budget : Nat}
    {m : Machine} {id : Nat} {t : Task}

/-- A walk in the upper half is one in the tables of the kernel. -/
theorem walk_upper (inv : Inv cfg task kernel budget m) (member : t ∈ task)
    {head : Nat} (high : 256 ≤ head) (small : head < 512) (rest : List Nat) :
    walk (findTable m.mem) t.pgd (head :: rest) =
      walk (findTable m.mem) cfg.swapper (head :: rest) := by
  have same : findTable m.mem t.pgd head = findTable m.mem cfg.swapper head := by
    rw [findTable, findTable, inv.upper t member head high small]
  rw [walk, walk, same]

/--
The tree in which the invariant knows a path of the whole table.  Its root is
another one for the paths of the upper half.
-/
theorem walk_tree (inv : Inv cfg task kernel budget m)
    (taskAt : task[id]? = some t) {path : List Nat}
    (inside : treePath () path) :
    ∃ root, treeDom task.length root path ∧ ∀ key, key <+: path →
      key ≠ [] ∨ path = [] →
      walk (findTable m.mem) t.pgd key =
        walk (findTable m.mem) (treeRoot cfg task root) key := by
  have member := List.mem_iff_getElem?.2 ⟨id, taskAt⟩
  have known := lt_length taskAt
  have root := @treeRoot_task cfg _ _ _ taskAt
  cases path with
  | nil => exact ⟨id + 1, treeDom_nil known, fun _ _ _ => by rw [root]⟩
  | cons head rest =>
      have small := inside.2 head List.mem_cons_self
      by_cases high : 256 ≤ head
      · refine ⟨0, ⟨Nat.zero_le _, inside.1, inside.2, ?_⟩, ?_⟩
        · rintro first isHead
          obtain rfl : head = first := by simpa using isHead
          exact iff_of_true rfl high
        · rintro key isPrefix (nonempty | none)
          · obtain ⟨first, keys, rfl⟩ := List.exists_cons_of_ne_nil nonempty
            obtain ⟨rfl, _⟩ := List.cons_prefix_cons.1 isPrefix
            exact inv.walk_upper member high small keys
          · cases none
      · refine ⟨id + 1, ⟨known, inside.1, inside.2, ?_⟩,
          fun _ _ _ => by rw [root]⟩
        rintro first isHead
        obtain rfl : head = first := by simpa using isHead
        exact iff_of_false (Nat.succ_ne_zero id) high

/-- The whole path. -/
theorem walk_whole (inv : Inv cfg task kernel budget m)
    (taskAt : task[id]? = some t) {path : List Nat}
    (inside : treePath () path) :
    ∃ root, treeDom task.length root path ∧
      walk (findTable m.mem) t.pgd path =
        walk (findTable m.mem) (treeRoot cfg task root) path := by
  obtain ⟨root, inTree, walks⟩ := inv.walk_tree taskAt inside
  refine ⟨root, inTree, walks path List.prefix_rfl ?_⟩
  exact (eq_or_ne path []).symm

/-- The root table of a task is a tree. -/
theorem treeInv (inv : Inv cfg task kernel budget m)
    (taskAt : task[id]? = some t) : TreeInv cfg t.pgd m where
  allocator := by
    rcases inv.allocator with ⟨multi, allocator, _⟩
    exact ⟨multi, allocator⟩
  tables :=
    { forest :=
        { closed := treePath_closed
          unique := by
            intro _ left _ right table leftInside rightInside first second
            obtain ⟨leftRoot, leftDom, leftWalk⟩ :=
              inv.walk_whole taskAt leftInside
            obtain ⟨rightRoot, rightDom, rightWalk⟩ :=
              inv.walk_whole taskAt rightInside
            rw [leftWalk] at first
            rw [rightWalk] at second
            exact ⟨rfl, (inv.table_unique leftDom rightDom first second).2⟩ }
      small := fun _ path inside => inside.2
      live := by
        rintro frame ⟨_, path, inside, reached⟩
        obtain ⟨root, inTree, same⟩ := inv.walk_whole taskAt inside
        rw [same] at reached
        exact inv.tables.reached_live inTree reached }
  links := by
    intro path position table inside reached valid
    have member := List.mem_iff_getElem?.2 ⟨id, taskAt⟩
    cases path with
    | cons head rest =>
        obtain ⟨root, inTree, walks⟩ := inv.walk_tree taskAt inside
        rw [walks _ (List.prefix_append _ _) (Or.inl (by simp))] at reached
        exact inv.links root _ position table inTree reached valid
    | nil =>
        obtain rfl : t.pgd = table := Option.some_inj.1 reached
        have small := inside.2 position (by simp)
        by_cases high : 256 ≤ position
        · -- The upper half of the root is that of `swapper_pg_dir`.
          rw [inv.upper t member position high small] at valid ⊢
          refine inv.links 0 [] position cfg.swapper
            ⟨Nat.zero_le _, inside.1, inside.2, ?_⟩ rfl valid
          rintro first isHead
          obtain rfl : position = first := by simpa using isHead
          exact iff_of_true rfl high
        · refine inv.links (id + 1) [] position t.pgd
            ⟨lt_length taskAt, inside.1, inside.2, ?_⟩
            (congrArg some (treeRoot_task taskAt)) valid
          rintro first isHead
          obtain rfl : position = first := by simpa using isHead
          exact iff_of_false (Nat.succ_ne_zero id) high

/-- All tasks have the kernel's entries for the pages of the upper half. -/
theorem leaf_upper (inv : Inv cfg task kernel budget m) (member : t ∈ task)
    {page : Nat} (upper : 2 ^ 26 ≤ page) (small : page < 2 ^ 27) :
    leaf m.mem t.pgd page = leaf m.mem cfg.swapper page := by
  have high : 256 ≤ index 2 page := by
    have half := user_page_iff small
    omega
  rw [leaf, leaf, path, inv.walk_upper member high (index_lt 2 page)]

end Inv

end TinyRiscvOs.Vm
