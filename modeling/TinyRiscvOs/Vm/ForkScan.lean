import TinyRiscvOs.Vm.Areas
import TinyRiscvOs.Vm.Share

/-!
# The scan of `do_fork`

`do_fork` asks `find_pte` for the entry of every page of every area and reads
through the pointer it gets.  The scan records these pointers beside the
machine.  As long as the tables of the parent are there, a round changes the
tree of the child only, so which pointers are `NULL` is decided before the
fork.
-/

namespace TinyRiscvOs.Vm

open TinyRiscvOs.Lib
open TinyRiscvOs.Mm

/-! ## The pointers read -/

/-- The pointers read so far, and the machine at the end of the scan or where it stopped. -/
structure Scan where
  reads : List (Option (Nat × Nat))
  machine : Machine
  finished : Bool

/-- Pointers read before the rest of a scan. -/
def Scan.after (reads : List (Option (Nat × Nat))) (rest : Scan) : Scan :=
  { rest with reads := reads ++ rest.reads }

theorem Scan.after_machine (reads : List (Option (Nat × Nat))) (rest : Scan) :
    (rest.after reads).machine = rest.machine :=
  rfl

theorem Scan.after_finished (reads : List (Option (Nat × Nat))) (rest : Scan) :
    (rest.after reads).finished = rest.finished :=
  rfl

/-- A round reads through the pointer it got, unless it takes a `NULL` for an absent entry. -/
def roundReads (cfg : Config) (pointer : Option (Nat × Nat)) :
    List (Option (Nat × Nat)) :=
  if pointer = none ∧ cfg.absentNull then [] else [pointer]

/-- The pointers that `forkPages` reads. -/
def scanPages (cfg : Config) (parent : Task) (childPgd : Nat) :
    Nat → Nat → Machine → Scan
  | 0, _, m => { reads := [], machine := m, finished := true }
  | count + 1, addr, m =>
      let reads := roundReads cfg (findPte m.mem parent.pgd addr)
      match forkPage cfg .copyOnWrite m parent childPgd addr with
      | .error _ => { reads, machine := m, finished := false }
      | .ok next =>
          (scanPages cfg parent childPgd count (addr + 4096) next).after reads

/-- The pointers that `forkVmas` reads. -/
def scanVmas (cfg : Config) (parent : Task) (childPgd : Nat) :
    List Vma → Machine → Scan
  | [], m => { reads := [], machine := m, finished := true }
  | vma :: rest, m =>
      let (page, m) := cfg.kalloc m
      if page = nullFrame ∨ 2 ^ 64 - 4096 < vma.vmEnd then
        { reads := [], machine := m, finished := false }
      else
        let scan := scanPages cfg parent childPgd vma.pageCount
          (pgRoundDown vma.vmStart) m
        if scan.finished then
          (scanVmas cfg parent childPgd rest scan.machine).after scan.reads
        else scan

/-- The pointers that `do_fork` reads. -/
def forkScan (cfg : Config) (m : Machine) (parent : Task) : Scan :=
  let (_, m) := cfg.allocPage m
  let (pgd, m) := cfg.allocPage m
  scanVmas cfg parent pgd parent.mmap
    { m with mem := copyFrame m.mem pgd cfg.swapper }

/-! ## Allocations that fail stay recorded -/

theorem createMapping_oom_mono {cfg : Config} {m after : Machine}
    {pgtbl va pa sz perm : Nat}
    (returns : createMapping cfg m pgtbl va pa sz perm = .ok after)
    (failed : m.oom = true) : after.oom = true := by
  by_contra fine
  have succeeds : after.oom = false := by simpa using fine
  rw [createMapping_oom returns succeeds] at failed
  cases failed

theorem getPage_oom {cfg : Config} {m after : Machine} {pgtbl frame err : Nat}
    (returns : getPage cfg m pgtbl frame = .ok (err, after)) :
    after.oom = m.oom := by
  rw [getPage] at returns
  extract_lets va at returns
  clear_value va
  split at returns
  · rw [← (Prod.mk.inj (Except.ok.inj returns)).2]
  · split at returns
    · cases returns
    · extract_lets loaded at returns
      split at returns
      · rw [← (Prod.mk.inj (Except.ok.inj returns)).2]
      · split at returns
        · cases returns
        · rw [← (Prod.mk.inj (Except.ok.inj returns)).2]

theorem sharePage_oom_mono {cfg : Config} {m after : Machine} {parent : Task}
    {childPgd addr frame : Nat} {pte : Option (Nat × Nat)}
    (returns : sharePage cfg m parent childPgd addr pte frame = .ok after)
    (failed : m.oom = true) : after.oom = true := by
  rw [sharePage] at returns
  cases taken : getPage cfg m parent.pgd frame with
  | error stop =>
      rw [taken] at returns
      cases returns
  | ok result =>
      obtain ⟨err, middle⟩ := result
      have kept := getPage_oom taken
      rw [taken] at returns
      simp only [bind, Except.bind] at returns
      split at returns
      · cases returns
      · split at returns
        · cases returns
        · exact createMapping_oom_mono returns (kept.trans failed)

theorem forkPage_oom_mono {cfg : Config} {m after : Machine} {parent : Task}
    {childPgd addr : Nat}
    (returns : forkPage cfg .copyOnWrite m parent childPgd addr = .ok after)
    (failed : m.oom = true) : after.oom = true := by
  simp only [forkPage] at returns
  split at returns
  · cases returns
    exact failed
  · simp only [bind, Except.bind] at returns
    split at returns
    · cases returns
    · split at returns
      · cases returns
        exact failed
      · exact sharePage_oom_mono returns failed

theorem scanPages_oom_mono {cfg : Config} {parent : Task} {childPgd : Nat}
    {count addr : Nat} {m : Machine} (failed : m.oom = true) :
    (scanPages cfg parent childPgd count addr m).machine.oom = true := by
  induction count generalizing addr m with
  | zero => exact failed
  | succ count induction =>
      rw [scanPages]
      split
      · exact failed
      · exact induction (forkPage_oom_mono (by assumption) failed)

theorem scanVmas_cons_oom_mono {cfg : Config} {parent : Task} {childPgd : Nat}
    {vma : Vma} {rest : List Vma} {m : Machine}
    (more : ∀ after : Machine, after.oom = true →
      (scanVmas cfg parent childPgd rest after).machine.oom = true)
    (failed : (cfg.kalloc m).2.oom = true) :
    (scanVmas cfg parent childPgd (vma :: rest) m).machine.oom = true := by
  rw [scanVmas]
  dsimp only
  split
  · exact failed
  · split
    · exact more _ (scanPages_oom_mono failed)
    · exact scanPages_oom_mono failed

theorem scanVmas_oom_mono {cfg : Config} {parent : Task} {childPgd : Nat}
    {areas : List Vma} {m : Machine} (failed : m.oom = true) :
    (scanVmas cfg parent childPgd areas m).machine.oom = true := by
  induction areas generalizing m with
  | nil => exact failed
  | cons vma rest induction =>
      exact scanVmas_cons_oom_mono (fun after => induction)
        (allocPage_oom_mono failed)

/-! ## A round where the tables are there -/

theorem findPte_page (mem : Bytes) (pgtbl page : Nat) :
    findPte mem pgtbl (4096 * page) =
      (walk (findTable mem) pgtbl (path page)).map fun table =>
        (table, index 0 page) := by
  have number : 4096 * page / 4096 = page := by omega
  rw [findPte_eq_walk, number]

theorem findPte_ne_none {mem : Bytes} {pgtbl page : Nat} :
    findPte mem pgtbl (4096 * page) ≠ none ↔
      ∃ table, walk (findTable mem) pgtbl (path page) = some table := by
  rw [findPte_page, ne_eq, Option.map_eq_none_iff, ← ne_eq,
    Option.ne_none_iff_exists']

/-- What a round does with the entry of its page. -/
def Round (cfg : Config) (task : List Task) (parent child page value : Nat)
    (m after : Machine) : Prop :=
  if has permV value then Shared cfg task parent child page value m after
  else after = m

theorem Round.trees {cfg : Config} {task : List Task}
    {parent child page value : Nat} {m after : Machine}
    (round : Round cfg task parent child page value m after) :
    Elsewhere cfg task (child + 1) m after := by
  rw [Round] at round
  split at round
  · exact round.trees
  · rw [round]
    exact Elsewhere.refl _ _ _ _

/-- Rounds leave the other tasks and the kernel alone; the parent may lose `PERM_W`. -/
structure ForkKept (cfg : Config) (task : List Task) (parent child : Nat)
    (m after : Machine) : Prop where
  trees : Elsewhere cfg task (child + 1) m after
  kernel : KernelKept cfg m after
  others : ∀ slot : Slot, slot.1 ≠ parent → slot.1 ≠ child →
    pte after.mem task slot = pte m.mem task slot
  own : ∀ page, pte after.mem task (parent, page) = pte m.mem task (parent, page) ∨
    pte after.mem task (parent, page) = readOnly (pte m.mem task (parent, page))

theorem readOnly_readOnly (value : Nat) :
    readOnly (readOnly value) = readOnly value := by
  rw [readOnly, readOnly, Nat.and_assoc, Nat.and_self]

namespace ForkKept

variable {cfg : Config} {task : List Task} {parent child : Nat}
    {m middle after : Machine}

theorem refl (cfg : Config) (task : List Task) (parent child : Nat)
    (m : Machine) : ForkKept cfg task parent child m m :=
  ⟨Elsewhere.refl _ _ _ _, KernelKept.refl _ _, fun _ _ _ => rfl,
    fun _ => Or.inl rfl⟩

theorem trans (first : ForkKept cfg task parent child m middle)
    (second : ForkKept cfg task parent child middle after) :
    ForkKept cfg task parent child m after where
  trees := first.trees.trans second.trees
  kernel := first.kernel.trans second.kernel
  others slot notParent notChild :=
    (second.others slot notParent notChild).trans
      (first.others slot notParent notChild)
  own page := by
    rcases first.own page with same | cleared
    · rw [← same]
      exact second.own page
    · refine Or.inr ?_
      rcases second.own page with same | again
      · rw [same, cleared]
      · rw [again, cleared, readOnly_readOnly]

/-- The child is not one of the tasks there were. -/
theorem ofAppend {last : Task}
    (kept : ForkKept cfg (task ++ [last]) parent task.length m after)
    (known : parent < task.length) :
    ForkKept cfg task parent task.length m after where
  trees := by
    refine ⟨fun id path other inside => ?_, kept.trees.free⟩
    have same := kept.trees.walk id path other
      (treeDom_mono inside (by simp))
    rwa [treeRoot_append_of_le inside.1] at same
  kernel := kept.kernel
  others slot notParent notChild := by
    have same := kept.others slot notParent notChild
    rwa [pte_append_of_ne notChild, pte_append_of_ne notChild] at same
  own page := by
    have same := kept.own page
    have notChild : ((parent, page) : Slot).1 ≠ task.length :=
      Nat.ne_of_lt known
    rwa [pte_append_of_ne notChild, pte_append_of_ne notChild] at same

end ForkKept

theorem Round.kept {cfg : Config} {task : List Task}
    {parent child page : Nat} {t : Task} {m after : Machine}
    (round : Round cfg task parent child page (leaf m.mem t.pgd page) m after)
    (kernel : KernelKept cfg m after) (different : parent ≠ child)
    (parentAt : task[parent]? = some t) (user : page < 2 ^ 26) :
    ForkKept cfg task parent child m after := by
  refine ⟨round.trees, kernel, fun slot notParent notChild => ?_,
    fun other => ?_⟩
  · rw [Round] at round
    split at round
    · rw [round.pte, if_neg]
      rintro (rfl | rfl)
      · exact notChild rfl
      · exact notParent rfl
    · rw [round]
  · rw [Round] at round
    split at round
    · rw [round.pte]
      split
      · rename_i here
        have samePage : other = page := by
          rcases here with isChild | isParent
          · exact absurd (congrArg Prod.fst isChild) different
          · exact congrArg Prod.snd isParent
        rw [samePage, pte_task parentAt user]
        exact Or.inr rfl
      · exact Or.inl rfl
    · rw [round]
      exact Or.inl rfl

namespace Inv

/-- Preparing a frame leaves all tables alone. -/
theorem prepared_kept {cfg : Config} {task : List Task} {kernel : Finset Nat}
    {budget : Nat} {m after : Machine} (inv : Inv cfg task kernel budget m)
    {frame : Nat} (prepared : Prepared cfg task m frame after)
    (parent child : Nat) : ForkKept cfg task parent child m after where
  trees := ⟨fun _ _ _ inside =>
    inv.walks_congr (inv.prepared_tables prepared) inside, prepared.keepsFree⟩
  kernel := inv.prepared_kernel prepared
  others slot _ _ := prepared.pte slot
  own _ := Or.inl (prepared.pte _)

end Inv

/-- A step of the loops of `do_fork`: a page for the kernel, or the round of a page. -/
inductive ForkStep (cfg : Config) (task : List Task) (parent child : Nat)
    (t : Task) : Machine → Option Nat → Machine → Prop where
  | claimed {m after : Machine} {frame budget : Nat} {kernel : Finset Nat}
      (inv : Inv cfg task kernel budget m)
      (prepared : Prepared cfg task m frame after) :
      ForkStep cfg task parent child t m none after
  | visited {m after : Machine} {page budget : Nat} {kernel : Finset Nat}
      (inv : Inv cfg task kernel budget m) (user : page < 2 ^ 26)
      (round : Round cfg task parent child page (leaf m.mem t.pgd page) m after)
      (kernelKept : KernelKept cfg m after) :
      ForkStep cfg task parent child t m (some page) after

/-- The steps of a fork, with the pages visited. -/
abbrev ForkRun (cfg : Config) (task : List Task) (parent child : Nat)
    (t : Task) : Machine → List (Option Nat) → Machine → Prop :=
  Run (ForkStep cfg task parent child t)

theorem ForkRun.kept {cfg : Config} {task : List Task} {parent child : Nat}
    {t : Task} {m after : Machine} {visits : List (Option Nat)}
    (run : ForkRun cfg task parent child t m visits after)
    (different : parent ≠ child) (parentAt : task[parent]? = some t) :
    ForkKept cfg task parent child m after := by
  refine run.invariant (ForkKept.refl _ _ _ _ _) ?_
  intro middle visit next kept step
  cases step with
  | claimed inv prepared =>
      exact kept.trans (inv.prepared_kept prepared parent child)
  | visited inv user round kernelKept =>
      exact kept.trans (round.kept kernelKept different parentAt user)

namespace Inv

variable {cfg : Config} {task : List Task} {kernel : Finset Nat} {budget : Nat}
    {m : Machine} {parent child page : Nat} {t c : Task}

theorem forkPage (inv : Inv cfg task kernel budget m)
    (blank : Blank cfg m) (noWrap : budget + 1 < 2 ^ 64)
    (parentAt : task[parent]? = some t) (childAt : task[child]? = some c)
    (granted : t.mmap ⊆ c.mmap) (user : page < 2 ^ 26)
    (present : findPte m.mem t.pgd (4096 * page) ≠ none) :
    ∃ after, forkPage cfg .copyOnWrite m t c.pgd (4096 * page) = .ok after ∧
      (after.oom = false → Inv cfg task kernel (budget + 1) after ∧
        ForkStep cfg task parent child t m (some page) after) := by
  obtain ⟨table, reached⟩ := findPte_ne_none.1 present
  have pointer : findPte m.mem t.pgd (4096 * page) =
      some (table, index 0 page) := by
    rw [findPte_page, reached]
    rfl
  have value := leaf_of_walk reached
  by_cases valid : has permV (word m.mem table (index 0 page))
  · rw [← @treeRoot_task cfg _ _ _ parentAt] at reached
    obtain ⟨after, result, effect⟩ := inv.share parentAt user reached valid
      blank noWrap childAt granted
    refine ⟨after, ?_, fun succeeds => ?_⟩
    · simp only [Vm.forkPage, pointer, derefPte, reduceCtorEq, false_and,
        if_false, bind, Except.bind, if_neg valid]
      exact result
    · obtain ⟨afterInv, shared, kernelKept⟩ := effect succeeds
      refine ⟨afterInv, .visited inv user ?_ kernelKept⟩
      rw [Round, value, if_pos valid]
      exact shared
  · refine ⟨m, ?_, fun _ => ⟨inv.mono_budget (Nat.le_succ _),
      .visited inv user ?_ (KernelKept.refl _ _)⟩⟩
    · have invalid : word m.mem table (index 0 page) &&& permV = 0 := by
        simpa [has] using valid
      simp only [Vm.forkPage, pointer, derefPte, reduceCtorEq, false_and,
        if_false, bind, Except.bind, if_pos invalid]
    · rw [Round, value, if_neg valid]

end Inv

/-! ## The pages of an area -/

/-- No pointer read is `NULL`. -/
def Scan.NonNull (scan : Scan) : Prop :=
  ∀ pointer ∈ scan.reads, pointer ≠ none

theorem Scan.nonNull_after {reads : List (Option (Nat × Nat))} {rest : Scan} :
    (rest.after reads).NonNull ↔
      (∀ pointer ∈ reads, pointer ≠ none) ∧ rest.NonNull :=
  List.forall_mem_append

theorem Scan.nonNull_after_scan {first rest : Scan} :
    (rest.after first.reads).NonNull ↔ first.NonNull ∧ rest.NonNull :=
  Scan.nonNull_after

theorem roundReads_of_ne {cfg : Config} {pointer : Option (Nat × Nat)}
    (found : pointer ≠ none) : roundReads cfg pointer = [pointer] :=
  if_neg fun both => found both.1

theorem roundReads_null {cfg : Config} (source : cfg.absentNull = false) :
    roundReads cfg none = [none] := by
  rw [roundReads, if_neg]
  rw [source]
  simp

/-- The tables for the pages from `first` on are there. -/
def HasTables (mem : Bytes) (pgtbl first count : Nat) : Prop :=
  ∀ page, first ≤ page → page < first + count →
    findPte mem pgtbl (4096 * page) ≠ none

theorem hasTables_succ {mem : Bytes} {pgtbl first count : Nat} :
    HasTables mem pgtbl first (count + 1) ↔
      findPte mem pgtbl (4096 * first) ≠ none ∧
        HasTables mem pgtbl (first + 1) count := by
  constructor
  · exact fun present => ⟨present first (Nat.le_refl _) (by omega),
      fun page lower upper => present page (by omega) (by omega)⟩
  · rintro ⟨here, rest⟩ page lower upper
    rcases Nat.eq_or_lt_of_le lower with rfl | above
    · exact here
    · exact rest page above (by omega)

/-- Tables of a tree that is left alone stay. -/
theorem Elsewhere.findPte {cfg : Config} {task : List Task} {but id page : Nat}
    {m after : Machine} {t : Task} (trees : Elsewhere cfg task but m after)
    (taskAt : task[id]? = some t) (other : id + 1 ≠ but)
    (user : page < 2 ^ 26) :
    findPte after.mem t.pgd (4096 * page) =
      findPte m.mem t.pgd (4096 * page) := by
  have same := trees.walk (id + 1) (path page) other
    (treeDom_user taskAt user)
  rw [treeRoot_task taskAt] at same
  rw [findPte_page, findPte_page, same]

theorem Elsewhere.hasTables {cfg : Config} {task : List Task}
    {but id first count : Nat} {m after : Machine} {t : Task}
    (trees : Elsewhere cfg task but m after) (taskAt : task[id]? = some t)
    (other : id + 1 ≠ but) (within : first + count ≤ 2 ^ 26) :
    HasTables after.mem t.pgd first count ↔ HasTables m.mem t.pgd first count := by
  refine forall_congr' fun page => forall_congr' fun lower =>
    forall_congr' fun upper => ?_
  rw [trees.findPte taskAt other (by omega)]

namespace Inv

variable {cfg : Config} {task : List Task} {kernel : Finset Nat} {budget : Nat}
    {m : Machine} {parent child : Nat} {t c : Task}

/-- The scan of an area meets a `NULL` exactly where a table is missing before. -/
theorem scanPages (inv : Inv cfg task kernel budget m)
    (blank : Blank cfg m) (source : cfg.absentNull = false)
    (parentAt : task[parent]? = some t)
    (childAt : task[child]? = some c) (different : parent ≠ child)
    (granted : t.mmap ⊆ c.mmap) {first count : Nat}
    (within : first + count ≤ 2 ^ 26) (noWrap : budget + count < 2 ^ 64)
    (succeeds : (scanPages cfg t c.pgd count (4096 * first) m).machine.oom =
      false) :
    ((scanPages cfg t c.pgd count (4096 * first) m).NonNull ↔
        HasTables m.mem t.pgd first count) ∧
      (HasTables m.mem t.pgd first count →
        (scanPages cfg t c.pgd count (4096 * first) m).finished = true ∧
        Inv cfg task kernel (budget + count)
          (scanPages cfg t c.pgd count (4096 * first) m).machine ∧
        ForkRun cfg task parent child t m ((List.range' first count).map some)
          (scanPages cfg t c.pgd count (4096 * first) m).machine) := by
  induction count generalizing first budget m with
  | zero =>
      refine ⟨⟨fun _ page lower upper => ?_, fun _ pointer member => ?_⟩,
        fun _ => ⟨rfl, inv, .nil⟩⟩
      · omega
      · cases member
  | succ count induction =>
      rw [hasTables_succ]
      by_cases here : findPte m.mem t.pgd (4096 * first) = none
      · refine ⟨⟨fun nonNull => ?_, fun both => absurd here both.1⟩,
          fun both => absurd here both.1⟩
        refine absurd rfl (nonNull none ?_)
        rw [Vm.scanPages, here, roundReads_null source]
        split <;> exact List.mem_cons_self
      · obtain ⟨after, result, effect⟩ := inv.forkPage blank (by omega)
          parentAt childAt granted (by omega) here
        have next : 4096 * first + 4096 = 4096 * (first + 1) := by omega
        have unfolded : Vm.scanPages cfg t c.pgd (count + 1) (4096 * first) m =
            (Vm.scanPages cfg t c.pgd count (4096 * (first + 1)) after).after
              [findPte m.mem t.pgd (4096 * first)] := by
          rw [Vm.scanPages, roundReads_of_ne here, result, next]
        rw [unfolded] at succeeds ⊢
        have fine : after.oom = false :=
          succeeds_of_mono scanPages_oom_mono succeeds
        obtain ⟨afterInv, step⟩ := effect fine
        have roundKept := ForkRun.kept (.single step) different parentAt
        have same := roundKept.trees.hasTables parentAt
          (fun equal => different (Nat.succ.inj equal))
          (by omega : first + 1 + count ≤ 2 ^ 26)
        obtain ⟨nonNull, kept⟩ := induction afterInv
          (blank.mono roundKept.trees.free) (by omega) (by omega) succeeds
        rw [Scan.nonNull_after, List.forall_mem_singleton, nonNull, same]
        refine ⟨Iff.rfl, fun both => ?_⟩
        obtain ⟨finished, lastInv, run⟩ := kept (same.2 both.2)
        exact ⟨finished, Nat.add_right_comm budget 1 count ▸ lastInv,
          .cons step run⟩

/-! ## The areas of the parent -/

/-- The kernel's pages are pages of the memory. -/
theorem kernel_card_le (inv : Inv cfg task kernel budget m) :
    kernel.card ≤ 2 ^ 25 := by
  rcases inv.allocator with ⟨_, allocator, _⟩
  have inside : kernel ⊆ (Finset.range (2 ^ cfg.top)).image (ramBase + ·) := by
    intro frame member
    have live := inv.kernel_live frame member
    refine Finset.mem_image.2 ⟨frame - ramBase, Finset.mem_range.2
      (allocator.pages.lt_of_counted live.2), Nat.add_sub_cancel' live.1⟩
  calc kernel.card ≤ ((Finset.range (2 ^ cfg.top)).image (ramBase + ·)).card :=
        Finset.card_le_card inside
    _ ≤ (Finset.range (2 ^ cfg.top)).card := Finset.card_image_le
    _ = 2 ^ cfg.top := Finset.card_range _
    _ ≤ 2 ^ 25 := Nat.pow_le_pow_right (by decide) allocator.small

/-- A page for the kernel: the bound on the counts grows with it. -/
theorem claimBounded
    (inv : Inv cfg task kernel (2 ^ 26 * kernel.card) m) {zeroed : Bool}
    (succeeds : (allocPage zeroed m).2.oom = false) :
    (allocPage zeroed m).1 ≠ nullFrame ∧
      Inv cfg task (insert (allocPage zeroed m).1 kernel)
        (2 ^ 26 * kernel.card) (allocPage zeroed m).2 ∧
      (insert (allocPage zeroed m).1 kernel).card = kernel.card + 1 ∧
      Prepared cfg task m (allocPage zeroed m).1 (allocPage zeroed m).2 := by
  obtain ⟨afterInv, prepared⟩ := inv.claim succeeds
  have fresh : (allocPage zeroed m).1 ∉ kernel := fun member =>
    prepared.isFresh (inv.kernel_live _ member)
  refine ⟨?_, afterInv, Finset.card_insert_of_notMem fresh,
    prepared⟩
  rcases afterInv.allocator with ⟨_, allocator, _⟩
  exact Nat.ne_of_lt (allocator.lt_nullFrame prepared.live)

end Inv

/-- The tables for all pages of an area are there. -/
def Vma.HasTables (vma : Vma) (mem : Bytes) (pgtbl : Nat) : Prop :=
  Vm.HasTables mem pgtbl (vma.vmStart / 4096) vma.pageCount

/-- The pages that the loop over the area visits. -/
def Vma.pages (vma : Vma) : List Nat :=
  List.range' (vma.vmStart / 4096) vma.pageCount

/-- The visits of the loop over these areas. -/
def forkVisits (areas : List Vma) : List (Option Nat) :=
  areas.flatMap fun vma => none :: vma.pages.map some

theorem Vma.User.pages_le {vma : Vma} (user : vma.User) :
    vma.vmStart / 4096 + vma.pageCount ≤ 2 ^ 26 := by
  have start := user.start
  have below := user.below
  simp only [userEnd] at start below
  rw [Vma.pageCount]
  omega

/-- The areas from the first one on, when its allocation succeeds. -/
theorem scanVmas_cons {cfg : Config} {parent : Task} {childPgd : Nat}
    {vma : Vma} {rest : List Vma} {m : Machine}
    (found : (cfg.kalloc m).1 ≠ nullFrame) (user : vma.User) :
    scanVmas cfg parent childPgd (vma :: rest) m =
      let scan := scanPages cfg parent childPgd vma.pageCount
        (4096 * (vma.vmStart / 4096)) (cfg.kalloc m).2
      if scan.finished then
        (scanVmas cfg parent childPgd rest scan.machine).after scan.reads
      else scan := by
  have below := user.below
  simp only [userEnd] at below
  rw [scanVmas, ← pgRoundDown_eq]
  dsimp only
  rw [if_neg]
  rintro (null | endless)
  · exact found null
  · omega

namespace Inv

variable {cfg : Config} {task : List Task} {kernel : Finset Nat}
    {m : Machine} {parent child : Nat} {t c : Task}

/-- The scan meets a `NULL` exactly where a table of the parent is missing before. -/
theorem scanVmas (inv : Inv cfg task kernel (2 ^ 26 * kernel.card) m)
    (blank : Blank cfg m) (source : cfg.absentNull = false)
    (parentAt : task[parent]? = some t)
    (childAt : task[child]? = some c) (different : parent ≠ child)
    (granted : t.mmap ⊆ c.mmap) {areas : List Vma}
    (users : ∀ vma ∈ areas, vma.User)
    (succeeds : (scanVmas cfg t c.pgd areas m).machine.oom = false) :
    ((scanVmas cfg t c.pgd areas m).NonNull ↔
        ∀ vma ∈ areas, vma.HasTables m.mem t.pgd) ∧
      ((∀ vma ∈ areas, vma.HasTables m.mem t.pgd) →
        (scanVmas cfg t c.pgd areas m).finished = true ∧
        (∃ kernel', kernel ⊆ kernel' ∧
          Inv cfg task kernel' (2 ^ 26 * kernel'.card)
            (scanVmas cfg t c.pgd areas m).machine) ∧
        ForkRun cfg task parent child t m (forkVisits areas)
          (scanVmas cfg t c.pgd areas m).machine) := by
  induction areas generalizing kernel m with
  | nil =>
      refine ⟨⟨fun _ vma member => ?_, fun _ pointer member => ?_⟩,
        fun _ => ⟨rfl, ⟨kernel, Finset.Subset.refl _, inv⟩, .nil⟩⟩
      · cases member
      · cases member
  | cons vma rest induction =>
      have user := users vma List.mem_cons_self
      have allocOk : (cfg.kalloc m).2.oom = false :=
        succeeds_of_mono
          (scanVmas_cons_oom_mono fun _ => scanVmas_oom_mono) succeeds
      obtain ⟨found, allocInv, card, prepared⟩ :
          (cfg.kalloc m).1 ≠ nullFrame ∧
            Inv cfg task (insert (cfg.kalloc m).1 kernel)
              (2 ^ 26 * kernel.card) (cfg.kalloc m).2 ∧
            (insert (cfg.kalloc m).1 kernel).card = kernel.card + 1 ∧
            Prepared cfg task m (cfg.kalloc m).1 (cfg.kalloc m).2 :=
        inv.claimBounded allocOk
      have allocKept := inv.prepared_kept prepared parent child
      have small := allocInv.kernel_card_le
      have pages := user.pages_le
      rw [scanVmas_cons found user] at succeeds ⊢
      dsimp only at succeeds ⊢
      have pagesOk : (Vm.scanPages cfg t c.pgd vma.pageCount
          (4096 * (vma.vmStart / 4096)) (cfg.kalloc m).2).machine.oom =
            false := by
        refine succeeds_of_mono (fun failed => ?_) succeeds
        split
        · rw [Scan.after_machine]
          exact scanVmas_oom_mono failed
        · exact failed
      obtain ⟨nonNull, kept⟩ := allocInv.scanPages
        (blank.mono allocKept.trees.free) source
        parentAt childAt different granted pages (by omega) pagesOk
      have notChild : parent + 1 ≠ child + 1 :=
        fun same => different (Nat.succ.inj same)
      have allocTables : vma.HasTables (cfg.kalloc m).2.mem t.pgd ↔
          vma.HasTables m.mem t.pgd :=
        allocKept.trees.hasTables parentAt notChild pages
      by_cases here : vma.HasTables m.mem t.pgd
      · obtain ⟨finished, pagesInv, pagesRun⟩ := kept (allocTables.2 here)
        rw [if_pos finished] at succeeds ⊢
        rw [Scan.after_machine] at succeeds ⊢
        rw [Scan.after_finished]
        have areaRun := Run.cons (.claimed inv prepared) pagesRun
        have areaKept := ForkRun.kept areaRun different parentAt
        obtain ⟨restNonNull, restKept⟩ := induction
          (pagesInv.mono_budget (by rw [card]; omega))
          (blank.mono areaKept.trees.free)
          (fun other member => users other (List.mem_cons_of_mem _ member))
          succeeds
        have same : (∀ area ∈ rest, area.HasTables (Vm.scanPages cfg t c.pgd
            vma.pageCount (4096 * (vma.vmStart / 4096))
            (cfg.kalloc m).2).machine.mem t.pgd) ↔
            ∀ area ∈ rest, area.HasTables m.mem t.pgd :=
          forall₂_congr fun area member =>
            areaKept.trees.hasTables parentAt notChild
              (users area (List.mem_cons_of_mem _ member)).pages_le
        rw [Scan.nonNull_after_scan, nonNull, restNonNull, same,
          List.forall_mem_cons]
        refine ⟨and_congr_left' allocTables, fun all => ?_⟩
        obtain ⟨restFinished, ⟨last, lastKept, lastInv⟩, restRun⟩ :=
          restKept (same.2 all.2)
        exact ⟨restFinished,
          ⟨last, (Finset.subset_insert _ _).trans lastKept, lastInv⟩,
          areaRun.append restRun⟩
      · refine ⟨⟨fun whole => ?_, fun all =>
          absurd (all vma List.mem_cons_self) here⟩,
          fun all => absurd (all vma List.mem_cons_self) here⟩
        refine absurd (allocTables.1 (nonNull.1 ?_)) here
        split at whole
        · exact (Scan.nonNull_after_scan.1 whole).1
        · exact whole

end Inv

/-! ## The whole scan -/

/-- The machine when the root table of the child is ready, and its frame. -/
def forkRoot (cfg : Config) (m : Machine) : Nat × Machine :=
  let (_, m) := cfg.allocPage m
  let (pgd, m) := cfg.allocPage m
  (pgd, copySwapper cfg m pgd)

theorem forkRoot_eq (cfg : Config) (m : Machine) :
    forkRoot cfg m =
      ((cfg.allocPage (cfg.allocPage m).2).1,
        copySwapper cfg (cfg.allocPage (cfg.allocPage m).2).2
          (cfg.allocPage (cfg.allocPage m).2).1) :=
  rfl

/-- The child as the invariant sees it during the fork: it may hold what its parent may. -/
def forkChild (cfg : Config) (m : Machine) (parent : Task) : Task where
  pgd := (forkRoot cfg m).1
  mmap := parent.mmap

theorem forkScan_eq (cfg : Config) (m : Machine) (parent : Task) :
    forkScan cfg m parent =
      scanVmas cfg parent (forkChild cfg m parent).pgd parent.mmap
        (forkRoot cfg m).2 :=
  rfl

theorem forkRoot_oom_mono {cfg : Config} {m : Machine}
    (succeeds : (forkRoot cfg m).2.oom = false) :
    (cfg.allocPage m).2.oom = false ∧
      (cfg.allocPage (cfg.allocPage m).2).2.oom = false := by
  have second : (cfg.allocPage (cfg.allocPage m).2).2.oom = false := succeeds
  exact ⟨succeeds_of_mono Config.allocPage_oom_mono second, second⟩

namespace Inv

variable {cfg : Config} {task : List Task} {kernel : Finset Nat}
    {m : Machine} {id : Nat} {t : Task}

/-- The root table of a new task is ready, and nothing else has changed. -/
structure Rooted (cfg : Config) (task : List Task) (last : Task)
    (m after : Machine) : Prop where
  kept : ∀ parent child, ForkKept cfg task parent child m after
  pte : ∀ slot, pte after.mem (task ++ [last]) slot = pte m.mem task slot
  live : ∀ frame, Live m frame → Live after frame
  counts : ∀ frame, Live m frame → count after frame = count m frame

/-- A task page and a root table for the child. -/
theorem forkRoot (inv : Inv cfg task kernel (2 ^ 26 * kernel.card) m)
    (taskAt : task[id]? = some t)
    (succeeds : (forkRoot cfg m).2.oom = false) :
    (∃ kernel', kernel ⊆ kernel' ∧
        Inv cfg (task ++ [forkChild cfg m t]) kernel'
          (2 ^ 26 * kernel'.card) (Vm.forkRoot cfg m).2) ∧
      Rooted cfg task (forkChild cfg m t) m (Vm.forkRoot cfg m).2 := by
  obtain ⟨firstOk, secondOk⟩ := forkRoot_oom_mono succeeds
  have areas := inv.areas t (List.mem_iff_getElem?.2 ⟨id, taskAt⟩)
  rw [forkChild, forkRoot_eq]
  dsimp only
  rw [Config.allocPage] at firstOk secondOk ⊢
  obtain ⟨_, firstInv, card, firstPrepared⟩ := inv.claimBounded firstOk
  rw [Config.allocPage] at secondOk ⊢
  obtain ⟨rootInv, prepared, ptes⟩ := firstInv.plantCopy secondOk areas
  constructor
  · refine ⟨_, Finset.subset_insert _ _, rootInv.mono_budget ?_⟩
    rw [card]
    omega
  · exact
      { kept := fun parent child =>
          (inv.prepared_kept firstPrepared parent child).trans
            (firstInv.prepared_kept prepared parent child)
        pte := fun slot => (ptes slot).trans (firstPrepared.pte slot)
        live := fun frame live =>
          prepared.live_of frame (firstPrepared.live_of frame live)
        counts := fun frame live =>
          (prepared.counts frame (firstPrepared.live_of frame live)).trans
            (firstPrepared.counts frame live) }

/-- Which pointers of the scan are `NULL` is decided by the tables of the parent. -/
theorem forkScan (inv : Inv cfg task kernel (2 ^ 26 * kernel.card) m)
    (blank : Blank cfg m) (source : cfg.absentNull = false)
    (taskAt : task[id]? = some t)
    (succeeds : (forkScan cfg m t).machine.oom = false) :
    ((forkScan cfg m t).NonNull ↔ ∀ vma ∈ t.mmap, vma.HasTables m.mem t.pgd) ∧
      ((∀ vma ∈ t.mmap, vma.HasTables m.mem t.pgd) →
        (forkScan cfg m t).finished = true ∧
        ∃ kernel', kernel ⊆ kernel' ∧
          Inv cfg (task ++ [forkChild cfg m t]) kernel'
            (2 ^ 26 * kernel'.card) (forkScan cfg m t).machine ∧
          ForkKept cfg task id task.length m (forkScan cfg m t).machine ∧
          Rooted cfg task (forkChild cfg m t) m (Vm.forkRoot cfg m).2 ∧
          ForkRun cfg (task ++ [forkChild cfg m t]) id task.length t
            (Vm.forkRoot cfg m).2 (forkVisits t.mmap)
            (forkScan cfg m t).machine) := by
  rw [forkScan_eq] at succeeds ⊢
  have rootOk : (Vm.forkRoot cfg m).2.oom = false :=
    succeeds_of_mono scanVmas_oom_mono succeeds
  obtain ⟨⟨rootKernel, rootSubset, rootInv⟩, rooted⟩ :=
    inv.forkRoot taskAt rootOk
  have rootKept := rooted.kept id task.length
  have known := lt_length taskAt
  have parentAt : (task ++ [forkChild cfg m t])[id]? = some t := by
    rw [List.getElem?_append_left known]
    exact taskAt
  have childAt : (task ++ [forkChild cfg m t])[task.length]? =
      some (forkChild cfg m t) := by
    simp
  have users := inv.areas t (List.mem_iff_getElem?.2 ⟨id, taskAt⟩)
  obtain ⟨nonNull, kept⟩ := rootInv.scanVmas
    (blank.mono rootKept.trees.free) source parentAt childAt
    (Nat.ne_of_lt known) (List.Subset.refl _) users succeeds
  have same : (∀ vma ∈ t.mmap, vma.HasTables (Vm.forkRoot cfg m).2.mem t.pgd) ↔
      ∀ vma ∈ t.mmap, vma.HasTables m.mem t.pgd :=
    forall₂_congr fun vma member =>
      rootKept.trees.hasTables taskAt (by omega) (users vma member).pages_le
  rw [same] at nonNull kept
  refine ⟨nonNull, fun all => ?_⟩
  obtain ⟨finished, ⟨last, lastKept, lastInv⟩, run⟩ := kept all
  have areasKept := ForkRun.kept run (Nat.ne_of_lt known) parentAt
  exact ⟨finished, last, rootSubset.trans lastKept, lastInv,
    rootKept.trans (areasKept.ofAppend known), rooted, run⟩

end Inv

/-! ## A fork that returns -/

theorem scanPages_of_forkPages {cfg : Config} {parent : Task}
    {childPgd count addr : Nat} {m after : Machine}
    (returns : forkPages cfg .copyOnWrite parent childPgd count addr m =
      .ok after) :
    (scanPages cfg parent childPgd count addr m).finished = true ∧
      (scanPages cfg parent childPgd count addr m).machine = after := by
  induction count generalizing addr m with
  | zero =>
      cases returns
      exact ⟨rfl, rfl⟩
  | succ count induction =>
      rw [forkPages] at returns
      rw [scanPages]
      cases round : forkPage cfg .copyOnWrite m parent childPgd addr with
      | error stop =>
          rw [round] at returns
          cases returns
      | ok next =>
          rw [round] at returns
          exact induction returns

theorem Vma.User.words {vma : Vma} (user : vma.User) : vma.Words :=
  ⟨Nat.lt_of_le_of_lt user.start (by decide),
    Nat.lt_of_le_of_lt user.below (by decide)⟩

theorem scanVmas_of_forkVmas {cfg : Config} {parent child last : Task}
    {areas : List Vma} {m after : Machine} (users : ∀ vma ∈ areas, vma.User)
    (returns : forkVmas cfg .copyOnWrite parent areas child m =
      .ok (last, after)) :
    (scanVmas cfg parent child.pgd areas m).machine = after ∧
      last.pgd = child.pgd ∧ last.mmap = areas.reverse ++ child.mmap := by
  induction areas generalizing child m with
  | nil =>
      cases returns
      exact ⟨rfl, rfl, rfl⟩
  | cons vma rest induction =>
      have user := users vma List.mem_cons_self
      rw [forkVmas] at returns
      cases round : forkVma cfg .copyOnWrite parent child m vma with
      | error stop =>
          rw [round] at returns
          cases returns
      | ok result =>
          obtain ⟨middle, next⟩ := result
          rw [round] at returns
          obtain ⟨found, pages, rfl⟩ := forkVma_ok user.words round
          rw [pgRoundDown_eq] at pages
          obtain ⟨finished, reached⟩ := scanPages_of_forkPages pages
          obtain ⟨machine, pgd, mmap⟩ := induction
            (fun other member => users other (List.mem_cons_of_mem _ member))
            returns
          rw [scanVmas_cons found user]
          dsimp only
          rw [if_pos finished, Scan.after_machine, reached]
          refine ⟨machine, pgd, mmap.trans ?_⟩
          rw [List.reverse_cons, List.append_assoc]
          rfl

/-- The scan follows `do_fork`, and the child gets copies of all areas. -/
theorem forkScan_of_doFork {cfg : Config} {m after : Machine}
    {parent child : Task} (users : ∀ vma ∈ parent.mmap, vma.User)
    (returns : doFork cfg .copyOnWrite m parent = .ok (child, after)) :
    (forkScan cfg m parent).machine = after ∧
      child.pgd = (forkChild cfg m parent).pgd ∧
      child.mmap = parent.mmap.reverse := by
  obtain ⟨machine, pgd, mmap⟩ := scanVmas_of_forkVmas users returns
  exact ⟨machine, pgd, mmap.trans (List.append_nil _)⟩

/-- A fork that met no `NULL` keeps the invariant, and what it leaves alone. -/
theorem Inv.doFork_kept {cfg : Config} {task : List Task} {kernel : Finset Nat}
    {m after : Machine} {id : Nat} {t child : Task}
    (inv : Inv cfg task kernel (2 ^ 26 * kernel.card) m)
    (blank : Blank cfg m) (source : cfg.absentNull = false)
    (taskAt : task[id]? = some t)
    (present : ∀ vma ∈ t.mmap, vma.HasTables m.mem t.pgd)
    (returns : doFork cfg .copyOnWrite m t = .ok (child, after))
    (succeeds : after.oom = false) :
    ∃ kernel', kernel ⊆ kernel' ∧
      Inv cfg (task ++ [child]) kernel' (2 ^ 26 * kernel'.card) after ∧
      ForkKept cfg task id task.length m after := by
  have users := inv.areas t (List.mem_iff_getElem?.2 ⟨id, taskAt⟩)
  obtain ⟨rfl, pgd, mmap⟩ := forkScan_of_doFork users returns
  obtain ⟨_, kernel', grown, lastInv, kept, _, _⟩ :=
    (inv.forkScan blank source taskAt succeeds).2 present
  refine ⟨kernel', grown, lastInv.withLast pgd ?_ ?_, kept⟩
  · rw [mmap]
    exact fun vma isArea => List.mem_reverse.2 isArea
  · rw [mmap]
    exact fun vma isArea => users vma (List.mem_reverse.1 isArea)

theorem Inv.doFork {cfg : Config} {task : List Task} {kernel : Finset Nat}
    {m after : Machine} {id : Nat} {t child : Task}
    (inv : Inv cfg task kernel (2 ^ 26 * kernel.card) m)
    (blank : Blank cfg m) (source : cfg.absentNull = false)
    (taskAt : task[id]? = some t)
    (present : ∀ vma ∈ t.mmap, vma.HasTables m.mem t.pgd)
    (returns : Vm.doFork cfg .copyOnWrite m t = .ok (child, after))
    (succeeds : after.oom = false) :
    ∃ kernel', kernel ⊆ kernel' ∧
      Inv cfg (task ++ [child]) kernel' (2 ^ 26 * kernel'.card) after := by
  obtain ⟨kernel', grown, nextInv, _⟩ :=
    inv.doFork_kept blank source taskAt present returns succeeds
  exact ⟨kernel', grown, nextInv⟩

end TinyRiscvOs.Vm
