import Mathlib.Algebra.Group.Nat.Even
import TinyRiscvOs.Vm.System

/-!
# Areas over generations

A task that has been forked may fork again.  Its areas are those of the first
ancestor, in the order or in the opposite order, so what `find_vma` finds
depends on the areas that overlap and on the number of forks.
-/

namespace TinyRiscvOs.Vm

open TinyRiscvOs.Lib

/-- The second task is a descendant of the first one, that many forks later. -/
inductive Descendant (cfg : Config) (ancestor : Task) : Nat → Task → Prop where
  | self : Descendant cfg ancestor 0 ancestor
  | child {generation : Nat} {parent child : Task} {m after : Machine}
      (descends : Descendant cfg ancestor generation parent)
      (forked : doFork cfg .copyOnWrite m parent = .ok (child, after)) :
      Descendant cfg ancestor (generation + 1) child

theorem Descendant.mmap {cfg : Config} {ancestor task : Task}
    {generation : Nat} (words : ∀ vma ∈ ancestor.mmap, vma.Words)
    (descends : Descendant cfg ancestor generation task) :
    task.mmap =
      if Even generation then ancestor.mmap else ancestor.mmap.reverse := by
  induction descends with
  | self => rw [if_pos Even.zero]
  | @child generation parent child m after _ forked induction =>
      have parentWords : ∀ vma ∈ parent.mmap, vma.Words := by
        intro vma isArea
        rw [induction] at isArea
        split at isArea
        · exact words vma isArea
        · exact words vma (List.mem_reverse.1 isArea)
      rw [doFork_mmap parentWords forked, induction]
      by_cases even : Even generation
      · rw [if_pos even, if_neg (by rwa [Nat.even_add_one, not_not])]
      · rw [if_neg even, if_pos (Nat.even_add_one.2 even), List.reverse_reverse]

/-- The list that a sequence of `do_mmap` calls builds. -/
theorem doMmaps_mmap {cfg : Config} {calls : List MmapArgs}
    {mmap last : List Vma} {m after : Machine}
    (returns : doMmaps cfg calls mmap m = .ok (last, after)) :
    last = (calls.map MmapArgs.vma).reverse ++ mmap := by
  induction calls generalizing mmap m with
  | nil =>
      cases returns
      rfl
  | cons args rest induction =>
      rw [doMmaps, doMmap] at returns
      by_cases found : (cfg.kalloc m).1 = nullFrame
      · dsimp only at returns
        rw [if_pos found] at returns
        cases returns
      · dsimp only at returns
        rw [if_neg found] at returns
        rw [induction returns, List.map_cons, List.reverse_cons,
          List.append_assoc]
        rfl

/--
The areas of an ancestor come from any calls of `do_mmap`.  A descendant finds
the same area for every address exactly when an even number of forks separates
them or no address has two different areas as the most recent and the oldest
one.
-/
theorem descendant_sameAreas_iff {cfg : Config} {calls : List MmapArgs}
    {before built : Machine} {ancestor task : Task} {generation : Nat}
    (words : ∀ args ∈ calls, args.addr < 2 ^ 64)
    (areas : doMmaps cfg calls [] before = .ok (ancestor.mmap, built))
    (descends : Descendant cfg ancestor generation task) :
    SameAreas task.mmap ancestor.mmap ↔
      Even generation ∨ Unambiguous ancestor.mmap := by
  have isWords : ∀ vma ∈ ancestor.mmap, vma.Words := by
    intro vma isArea
    rw [doMmaps_mmap areas, List.append_nil, List.mem_reverse] at isArea
    obtain ⟨args, isCall, rfl⟩ := List.mem_map.1 isArea
    exact ⟨words args isCall, Nat.mod_lt _ (by decide)⟩
  rw [descends.mmap isWords]
  by_cases even : Even generation
  · rw [if_pos even]
    exact iff_of_true (fun _ => rfl) (.inl even)
  · rw [if_neg even, sameAreas_reverse_iff]
    simp [even]

/-! ## Two areas that overlap -/

namespace Overlap

open SmallProgram (config result eq_ok_pair)

/-- Two pages of code. -/
def code : MmapArgs where
  addr := 0x1000
  len := 0x2000
  vmPgoff := 0
  vmFilesz := 0x2000
  flags := vmRead ||| vmExec

/-- Two pages of data, the first one on the second page of the code. -/
def data : MmapArgs where
  addr := 0x2000
  len := 0x2000
  vmPgoff := 0x2000
  vmFilesz := 0x2000
  flags := vmRead ||| vmWrite

def booted : System :=
  result { machine := Boot.machine (config .kallocZeroed) fun _ => 0, task := [] }
    (boot (config .kallocZeroed) (fun _ => 0) [] [[code, data]])

def task : Task :=
  booted.task.headD { pgd := 0, mmap := [] }

/-- The first instruction was fetched. -/
def fetched : Machine :=
  result booted.machine
    (doPageFault (config .kallocZeroed) booted.machine task .fetch 0x1000)

/-- The child. -/
def child : Task :=
  (result (task, fetched)
    (doFork (config .kallocZeroed) .copyOnWrite fetched task)).1

theorem areas : ∃ built,
    doMmaps (config .kallocZeroed) [code, data] [] booted.machine =
      .ok (task.mmap, built) := by
  have returns := eq_ok_pair ([], booted.machine)
    (show (doMmaps (config .kallocZeroed) [code, data] []
      booted.machine).isOk = true by decide +kernel)
  have built : (result ([], booted.machine) (doMmaps (config .kallocZeroed)
      [code, data] [] booted.machine)).1 = task.mmap := by
    decide +kernel
  rw [built] at returns
  exact ⟨_, returns⟩

theorem forked : ∃ after,
    doFork (config .kallocZeroed) .copyOnWrite fetched task =
      .ok (child, after) := by
  have returns := eq_ok_pair (task, fetched)
    (show (doFork (config .kallocZeroed) .copyOnWrite fetched
      task).isOk = true by decide +kernel)
  rw [← child] at returns
  exact ⟨_, returns⟩

end Overlap

open SmallProgram (config) in
/-- On the page that both areas cover the parent may store and the child may not. -/
theorem fork_swaps_areas :
    (∃ built, doMmaps (config .kallocZeroed) [Overlap.code, Overlap.data] []
      Overlap.booted.machine = .ok (Overlap.task.mmap, built)) ∧
    (∃ after, doFork (config .kallocZeroed) .copyOnWrite Overlap.fetched
      Overlap.task = .ok (Overlap.child, after)) ∧
    findVma Overlap.task.mmap 0x2000 = some Overlap.data.vma ∧
    findVma Overlap.child.mmap 0x2000 = some Overlap.code.vma ∧
    ¬ SameAreas Overlap.child.mmap Overlap.task.mmap := by
  have parent : findVma Overlap.task.mmap 0x2000 = some Overlap.data.vma := by
    decide +kernel
  have child : findVma Overlap.child.mmap 0x2000 = some Overlap.code.vma := by
    decide +kernel
  refine ⟨Overlap.areas, Overlap.forked, parent, child, fun same => ?_⟩
  have both := same 0x2000
  rw [parent, child] at both
  exact absurd both (by decide)

open SmallProgram (config) in
/-- The condition fails for the child of the two areas. -/
theorem descendant_sameAreas_iff_overlap :
    SameAreas Overlap.child.mmap Overlap.task.mmap ↔
      Even 1 ∨ Unambiguous Overlap.task.mmap := by
  obtain ⟨built, areas⟩ := Overlap.areas
  obtain ⟨after, forked⟩ := Overlap.forked
  exact descendant_sameAreas_iff (by decide) areas (.child .self forked)

end TinyRiscvOs.Vm
