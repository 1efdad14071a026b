import TinyRiscvOs.Vm.Process

/-!
# The areas of a child

`do_mmap` puts an area in front of the list and `do_fork` walks the list from
the front, so every fork reverses it.  `find_vma` returns the first area that
contains an address; in the reversed list this is the last one.
-/

namespace TinyRiscvOs.Vm

/-! ## The first and the last match of a list -/

section Matches

variable {α : Type} (p : α → Bool)

/-- The first match of a reversed list is the last match. -/
theorem find?_reverse_eq (list : List α) :
    list.reverse.find? p = (list.filter p).getLast? := by
  rw [← List.head?_filter, List.filter_reverse, List.head?_reverse]

/-- The last match, where the first one is. -/
theorem find?_reverse_eq_iff (list : List α) :
    list.reverse.find? p = list.find? p ↔
      (list.filter p).head? = (list.filter p).getLast? := by
  rw [find?_reverse_eq, ← List.head?_filter, eq_comm]

end Matches

theorem findVma_eq_find? (mmap : List Vma) (addr : Nat) :
    findVma mmap addr = mmap.find? fun vma => vma.Contains addr := by
  induction mmap with
  | nil => rfl
  | cons vma rest induction =>
      rw [findVma, List.find?_cons, induction]
      by_cases contains : vma.Contains addr
      · simp [contains]
      · simp [contains]

/-- The areas that contain an address, the most recent one first. -/
def containing (mmap : List Vma) (addr : Nat) : List Vma :=
  mmap.filter fun vma => vma.Contains addr

/-- The most recent and the oldest area over an address are equal. -/
def Unambiguous (mmap : List Vma) : Prop :=
  ∀ addr, (containing mmap addr).head? = (containing mmap addr).getLast?

/-- `find_vma` finds equal areas for all addresses. -/
def SameAreas (left right : List Vma) : Prop :=
  ∀ addr, findVma left addr = findVma right addr

theorem sameAreas_reverse_iff (mmap : List Vma) :
    SameAreas mmap.reverse mmap ↔ Unambiguous mmap := by
  refine forall_congr' fun addr => ?_
  rw [findVma_eq_find?, findVma_eq_find?, find?_reverse_eq_iff]
  rfl

/-! ## One fork -/

/-- The bounds of an area are of type `uint64_t`. -/
structure Vma.Words (vma : Vma) : Prop where
  start : vma.vmStart < 2 ^ 64
  below : vma.vmEnd < 2 ^ 64

/-- The copy of an area that `do_fork` makes is the area. -/
theorem Vma.Words.copy {vma : Vma} (words : vma.Words) :
    MmapArgs.vma
      { addr := vma.vmStart
        len := (vma.vmEnd + 2 ^ 64 - vma.vmStart) % 2 ^ 64
        vmPgoff := vma.vmPgoff
        vmFilesz := vma.vmFilesz
        flags := vma.vmFlags } = vma := by
  have start := words.start
  have below := words.below
  have last : (vma.vmStart + (vma.vmEnd + 2 ^ 64 - vma.vmStart) % 2 ^ 64) %
      2 ^ 64 = vma.vmEnd := by
    omega
  simp only [MmapArgs.vma, last]

/-- What a round over an area that returns has done. -/
theorem forkVma_ok {cfg : Config} {mode : ForkMode} {parent child last : Task}
    {vma : Vma} {m after : Machine} (words : vma.Words)
    (returns : forkVma cfg mode parent child m vma = .ok (last, after)) :
    (cfg.kalloc m).1 ≠ nullFrame ∧
      forkPages cfg mode parent child.pgd vma.pageCount
        (pgRoundDown vma.vmStart) (cfg.kalloc m).2 = .ok after ∧
      last = { child with mmap := vma :: child.mmap } := by
  rw [forkVma, doMmap, words.copy] at returns
  by_cases found : (cfg.kalloc m).1 = nullFrame
  · dsimp only at returns
    rw [if_pos found] at returns
    cases returns
  · dsimp only at returns
    rw [if_neg found] at returns
    simp only [bind, Except.bind] at returns
    split at returns
    · cases returns
    · cases pages : forkPages cfg mode parent child.pgd vma.pageCount
          (pgRoundDown vma.vmStart) (cfg.kalloc m).2 with
      | error stop =>
          rw [pages] at returns
          cases returns
      | ok result =>
          rw [pages] at returns
          obtain ⟨rfl, rfl⟩ := Prod.mk.inj (Except.ok.inj returns)
          exact ⟨found, rfl, rfl⟩

theorem forkVmas_mmap {cfg : Config} {mode : ForkMode}
    {parent child last : Task} {areas : List Vma} {m after : Machine}
    (words : ∀ vma ∈ areas, vma.Words)
    (returns : forkVmas cfg mode parent areas child m = .ok (last, after)) :
    last.mmap = areas.reverse ++ child.mmap := by
  induction areas generalizing child m with
  | nil =>
      cases returns
      rfl
  | cons vma rest induction =>
      rw [forkVmas] at returns
      cases round : forkVma cfg mode parent child m vma with
      | error stop =>
          rw [round] at returns
          cases returns
      | ok result =>
          obtain ⟨middle, next⟩ := result
          rw [round] at returns
          obtain ⟨-, -, rfl⟩ :=
            forkVma_ok (words vma List.mem_cons_self) round
          rw [induction (fun other member =>
            words other (List.mem_cons_of_mem _ member)) returns,
            List.reverse_cons, List.append_assoc]
          rfl

/-- A child has the areas of its parent in the opposite order. -/
theorem doFork_mmap {cfg : Config} {mode : ForkMode} {parent child : Task}
    {m after : Machine} (words : ∀ vma ∈ parent.mmap, vma.Words)
    (returns : doFork cfg mode m parent = .ok (child, after)) :
    child.mmap = parent.mmap.reverse := by
  rw [doFork] at returns
  exact (forkVmas_mmap words returns).trans (List.append_nil _)

end TinyRiscvOs.Vm
