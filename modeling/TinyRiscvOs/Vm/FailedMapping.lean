import TinyRiscvOs.Vm.StrayMapping

/-!
# `create_mapping` when memory runs out

Each level of `create_mapping` writes the parent entry from the result of
`kalloc` before it tests that result.  A failed allocation therefore leaves a
valid entry behind that names the page a `NULL` pointer stands for.  The module
lists the entries a call makes valid and shows that a failure is always among
them, in the memory as well.
-/

namespace TinyRiscvOs.Vm

open TinyRiscvOs.Lib
open TinyRiscvOs.Mm

/-! ## The entries a call makes valid -/

/-- An entry above the last level that a call makes valid, and the page it names. -/
structure Hang where
  table : Nat
  index : Nat
  page : Nat
deriving DecidableEq, Repr

/-- The entry that one level makes valid. -/
def nextTableHangs (cfg : Config) (m : Machine) (table index : Nat) :
    List Hang :=
  if word m.mem table index &&& permV = 0 then
    [⟨table, index, (cfg.kalloc m).1⟩]
  else []

/-- The entries that the body of the loop makes valid. -/
def mapPageHangs (cfg : Config) (m : Machine) (pgtbl va : Nat) : List Hang :=
  let (pmd, middle) := nextTable cfg m pgtbl (vpn 2 va)
  nextTableHangs cfg m pgtbl (vpn 2 va) ++
    if pmd = nullFrame then [] else nextTableHangs cfg middle pmd (vpn 1 va)

/-- The entries that the iterations from `offset` on make valid. -/
def mapPagesHangs (cfg : Config) (pgtbl va pa perm : Nat) :
    Nat → Nat → Machine → List Hang
  | 0, _, _ => []
  | count + 1, offset, m =>
      let (returned, next) :=
        mapPage cfg m pgtbl ((va + offset) % 2 ^ 64) ((pa + offset) % 2 ^ 64)
          perm
      mapPageHangs cfg m pgtbl ((va + offset) % 2 ^ 64) ++
        if returned then []
        else mapPagesHangs cfg pgtbl va pa perm count (offset + 4096) next

/-- The entries that a call of `create_mapping` makes valid. -/
def createMappingHangs (cfg : Config) (m : Machine) (pgtbl va pa sz perm : Nat) :
    List Hang :=
  mapPagesHangs cfg pgtbl va pa perm ((sz + 4095) / 4096) 0 m

/-- What a call leaves behind, whether or not it could allocate its tables. -/
structure FailsCleanly (hangs : List Hang) (after : Machine) : Prop where
  /-- An entry made valid names a page that was allocated for it. -/
  named : ∀ hang ∈ hangs, Live after hang.page
  /-- So a later walk through the entry does not leave the pages in use. -/
  followed : ∀ hang ∈ hangs, ∀ next,
    findTable after.mem hang.table hang.index = some next → Live after next

/-! ## A failed allocation -/

section Failure

variable {top : Nat} {multi : Set Nat} {cfg : Config} {m : Machine}

/-- The allocator is consistent after a failed allocation, too. -/
theorem Allocator.allocPage (allocator : Allocator top multi m) (zeroed : Bool) :
    Allocator top multi (allocPage zeroed m).2 := by
  by_cases room : 1 ≤ m.buddy.bitmap 0
  · obtain ⟨-, unused, counts, pages⟩ := allocator.pages.alloc room
    have nonzero : (m.buddy.alloc 1).1 ≠ 0 := by
      intro zero
      rw [zero] at unused
      exact absurd allocator.zero_live (by omega)
    simp only [Vm.allocPage, if_neg nonzero]
    refine ⟨allocator.small, pages, ?_⟩
    simp only [counts, Function.update_apply]
    split
    · exact Nat.one_pos
    · exact allocator.zero_live
  · have failed : m.buddy.alloc 1 = (0, m.buddy) :=
      Buddy.Pages.alloc_fails (by omega)
    simp only [Vm.allocPage, failed, if_true]
    exact ⟨allocator.small, allocator.pages, allocator.zero_live⟩

theorem Allocator.nextTable (allocator : Allocator top multi m)
    (cfg : Config) (table index : Nat) :
    Allocator top multi (nextTable cfg m table index).2 := by
  simp only [Vm.nextTable]
  split
  · have kept : Allocator top multi (cfg.kalloc m).2 := allocator.allocPage _
    exact ⟨kept.small, kept.pages, kept.zero_live⟩
  · exact allocator

theorem Allocator.mapPage (allocator : Allocator top multi m) (cfg : Config)
    (pgtbl va pa perm : Nat) :
    Allocator top multi (mapPage cfg m pgtbl va pa perm).2 := by
  have first := allocator.nextTable cfg pgtbl (vpn 2 va)
  have second := first.nextTable cfg (Vm.nextTable cfg m pgtbl (vpn 2 va)).1
    (vpn 1 va)
  simp only [Vm.mapPage]
  split
  · exact first
  · split
    · exact second
    · exact ⟨second.small, second.pages, second.zero_live⟩

theorem Allocator.mapPages (allocator : Allocator top multi m) (cfg : Config)
    (pgtbl va pa perm count offset : Nat) :
    Allocator top multi (mapPages cfg pgtbl va pa perm count offset m).2 := by
  induction count generalizing offset m with
  | zero => exact allocator
  | succ count induction =>
      have step := allocator.mapPage cfg pgtbl ((va + offset) % 2 ^ 64)
        ((pa + offset) % 2 ^ 64) perm
      rw [Vm.mapPages]
      dsimp only
      split
      · exact step
      · exact induction step _

/-- No page in use is the one a `NULL` pointer stands for. -/
theorem Allocator.not_live_nullFrame (allocator : Allocator top multi m) :
    ¬ Live m nullFrame :=
  fun live => Nat.lt_irrefl _ (allocator.lt_nullFrame live)

/-- An allocation that fails yields `NULL`. -/
theorem kalloc_fails (fine : m.oom = false) (failed : (cfg.kalloc m).2.oom = true) :
    (cfg.kalloc m).1 = nullFrame := by
  simp only [Config.kalloc, allocPage] at failed ⊢
  split at failed
  · rename_i none
    rw [if_pos none]
  · rw [show m.oom = true from failed] at fine
    cases fine

/-- The entry a failed level leaves behind. -/
theorem nextTable_fails {table index : Nat} (fine : m.oom = false)
    (failed : (nextTable cfg m table index).2.oom = true) :
    (nextTable cfg m table index).1 = nullFrame ∧
      nextTableHangs cfg m table index = [⟨table, index, nullFrame⟩] ∧
      findTable (nextTable cfg m table index).2.mem table index =
        some nullFrame := by
  by_cases absent : word m.mem table index &&& permV = 0
  · simp only [nextTable, nextTableHangs, if_pos absent] at failed ⊢
    have none := kalloc_fails fine failed
    have fits : entry (nullFrame &&& ppnMask) permV < 2 ^ 64 := by decide
    rw [none]
    refine ⟨rfl, rfl, ?_⟩
    rw [findTable_eq_some, word_setWord _ _ _ fits]
    decide
  · simp only [nextTable, if_neg absent] at failed
    rw [fine] at failed
    cases failed

/-- The body of the loop returns early, and the entry of the failure stays. -/
theorem mapPage_fails {pgtbl va pa perm : Nat} (fine : m.oom = false)
    (failed : (mapPage cfg m pgtbl va pa perm).2.oom = true) :
    (mapPage cfg m pgtbl va pa perm).1 = true ∧
      ∃ hang ∈ mapPageHangs cfg m pgtbl va, hang.page = nullFrame ∧
        findTable (mapPage cfg m pgtbl va pa perm).2.mem hang.table hang.index =
          some nullFrame := by
  by_cases first : (nextTable cfg m pgtbl (vpn 2 va)).2.oom = true
  · obtain ⟨null, hangs, entry⟩ := nextTable_fails fine first
    simp only [mapPage, mapPageHangs, null, if_true, hangs]
    exact ⟨trivial, _, List.mem_append_left _ List.mem_cons_self, rfl, entry⟩
  · have fine' : (nextTable cfg m pgtbl (vpn 2 va)).2.oom = false := by
      simpa using first
    by_cases null : (nextTable cfg m pgtbl (vpn 2 va)).1 = nullFrame
    · simp only [mapPage, null, if_true] at failed
      exact absurd failed first
    · have second : (nextTable cfg (nextTable cfg m pgtbl (vpn 2 va)).2
          (nextTable cfg m pgtbl (vpn 2 va)).1 (vpn 1 va)).2.oom = true := by
        simp only [mapPage, if_neg null] at failed
        split at failed
        · exact failed
        · exact failed
      obtain ⟨nullNext, hangs, entry⟩ := nextTable_fails fine' second
      simp only [mapPage, mapPageHangs, if_neg null, nullNext, if_true, hangs]
      exact ⟨trivial, _, List.mem_append_right _ List.mem_cons_self, rfl, entry⟩

/-- Wherever in the loop the failure strikes. -/
theorem mapPages_fails {pgtbl va pa perm count offset : Nat}
    (fine : m.oom = false)
    (failed : (mapPages cfg pgtbl va pa perm count offset m).2.oom = true) :
    ∃ hang ∈ mapPagesHangs cfg pgtbl va pa perm count offset m,
      hang.page = nullFrame ∧
        findTable (mapPages cfg pgtbl va pa perm count offset m).2.mem
          hang.table hang.index = some nullFrame := by
  induction count generalizing offset m with
  | zero =>
      rw [show m.oom = true from failed] at fine
      cases fine
  | succ count induction =>
      simp only [mapPages, mapPagesHangs] at failed ⊢
      by_cases here : (mapPage cfg m pgtbl ((va + offset) % 2 ^ 64)
          ((pa + offset) % 2 ^ 64) perm).2.oom = true
      · obtain ⟨returned, hang, member, page, entry⟩ :=
          mapPage_fails fine here
        rw [returned]
        exact ⟨hang, List.mem_append_left _ member, page, entry⟩
      · have fine' : (mapPage cfg m pgtbl ((va + offset) % 2 ^ 64)
            ((pa + offset) % 2 ^ 64) perm).2.oom = false := by
          simpa using here
        split at failed
        · exact absurd failed here
        · rename_i goesOn
          obtain ⟨hang, member, page, entry⟩ := induction fine' failed
          rw [if_neg goesOn, if_neg goesOn]
          exact ⟨hang, List.mem_append_right _ member, page, entry⟩

end Failure

/--
Whenever an allocation of a call of `create_mapping` fails, at whatever level
and iteration and on whatever tables, the call leaves a valid entry that names
no page in use.
-/
theorem createMapping_never_failsCleanly {cfg : Config} {m after : Machine}
    {pgtbl va pa sz perm : Nat}
    (allocator : ∃ multi, Allocator cfg.top multi m) (fine : m.oom = false)
    (returns : createMapping cfg m pgtbl va pa sz perm = .ok after)
    (failed : after.oom = true) :
    ¬ FailsCleanly (createMappingHangs cfg m pgtbl va pa sz perm) after ∧
      ∃ hang ∈ createMappingHangs cfg m pgtbl va pa sz perm,
        findTable after.mem hang.table hang.index = some nullFrame ∧
          ¬ Live after nullFrame := by
  obtain ⟨multi, allocator⟩ := allocator
  have result := createMapping_ok returns
  have dead : ¬ Live after nullFrame := by
    rw [result]
    exact (allocator.mapPages cfg pgtbl va pa perm _ _).not_live_nullFrame
  rw [result] at failed
  obtain ⟨hang, member, page, entry⟩ := mapPages_fails fine failed
  rw [← result] at entry
  constructor
  · intro clean
    have live := clean.named hang member
    rw [page] at live
    exact dead live
  · exact ⟨hang, member, entry, dead⟩

namespace RecycledPage

/-- The same memory with all but one page in use. -/
def lastPage : Machine :=
  { machine 0 with buddy := Buddy.reserve 7 (Buddy.fresh (2 ^ 3)) }

/-- The state after the last page became the middle table. -/
def exhausted : Machine :=
  (mapPages config root 0 0x80004000 0xdf 1 0 lastPage).2

theorem lastPage_allocator : Allocator config.top ∅ lastPage := by
  obtain ⟨pages, counts⟩ :=
    @Buddy.Pages.reserve 3 7 (by decide) (by decide)
  refine ⟨by decide, pages, ?_⟩
  rw [lastPage, counts, if_pos (by decide)]
  exact Nat.one_pos

theorem lastPage_returns :
    createMapping config lastPage root 0 0x80004000 4096 0xdf =
      .ok exhausted := by
  have rounds : (4096 + 4095) / 4096 = 1 := by decide
  have fits : 4096 ≤ 2 ^ 64 - 4096 := by decide
  simp only [createMapping, rounds, fits, or_true, if_true, exhausted]

/-- The last table cannot be allocated. -/
theorem createMapping_never_failsCleanly_lastPage :
    ¬ FailsCleanly
      (createMappingHangs config lastPage root 0 0x80004000 4096 0xdf)
      exhausted :=
  (createMapping_never_failsCleanly ⟨∅, lastPage_allocator⟩ rfl
    lastPage_returns (by decide +kernel)).1

/-- The entry of the middle table then names the page of `NULL`, which is not in use. -/
theorem createMapping_null_entry :
    createMapping config lastPage root 0 0x80004000 4096 0xdf =
        .ok exhausted ∧
      TableInv config root lastPage ∧
      ⟨ramBase + 7, 0, nullFrame⟩ ∈
        createMappingHangs config lastPage root 0 0x80004000 4096 0xdf ∧
      findTable exhausted.mem (ramBase + 7) 0 = some nullFrame ∧
      ¬ FailsCleanly
        (createMappingHangs config lastPage root 0 0x80004000 4096 0xdf)
        exhausted := by
  have made : ⟨ramBase + 7, 0, nullFrame⟩ ∈
      createMappingHangs config lastPage root 0 0x80004000 4096 0xdf := by
    decide +kernel
  have counts := (@Buddy.Pages.reserve 3 7 (by decide) (by decide)).2
  refine ⟨lastPage_returns, ?_, made, by decide +kernel, fun clean => ?_⟩
  · refine TableInv.ofEmpty lastPage_allocator ⟨by decide, ?_⟩ ?_
    · rw [lastPage, counts, if_pos (by decide)]
      exact Nat.one_pos
    · intro position small
      have zero : word lastPage.mem root position = 0 := by
        refine Bytes.littleEndian_eq_zero fun address _ upper => ?_
        show (machine 0).mem address = 0
        exact ite_self _
      rw [zero]
      decide
  · have live := clean.named _ made
    have none : exhausted.buddy.refCnt (nullFrame - ramBase) = 0 := by
      decide +kernel
    rw [Live, none] at live
    exact Nat.lt_irrefl 0 live.2

end RecycledPage

end TinyRiscvOs.Vm
