import TinyRiscvOs.Vm.TreeMapping

/-!
# The range a call of `create_mapping` covers

For tables built by `create_mapping`, `find_pte` and the walk of the processor
agree with the last call on the pages it visits and with the state before on
all others.  The loop visits the pages of `va + k * PGSIZE`; when `va` is not
aligned the range may reach into one page more, which is then not mapped.
-/

namespace TinyRiscvOs.Vm

open TinyRiscvOs.Lib
open TinyRiscvOs.Mm

/-! ## Runs -/

/-- Table pages are filled with zeros, or come clean. -/
def ZeroedOrClean (cfg : Config) (pgtbl : Nat) (m : Machine)
    (event : TableEvent) : Prop :=
  cfg.fill ≠ .asFound ∨ CleanEvent cfg pgtbl m event

/-- The number of iterations is the number of pages, rounded up. -/
theorem lt_iterations_iff (k sz : Nat) :
    k < (sz + 4095) / 4096 ↔ k * 4096 < sz := by
  omega

theorem visited_iff (va sz page : Nat) :
    TreeInv.Visited va 0 ((sz + 4095) / 4096) page ↔ Written va sz page := by
  simp only [TreeInv.Visited, Written, Nat.zero_add]
  exact exists_congr fun k => and_congr_left fun _ => lt_iterations_iff k sz

namespace TreeInv

variable {cfg : Config} {pgtbl : Nat} {m after : Machine}

/-- A cleared page in use. -/
theorem ofEmpty {multi : Set Nat} (allocator : Allocator cfg.top multi m)
    (live : Live m pgtbl)
    (empty : ∀ position < 512, ¬ has permV (word m.mem pgtbl position)) :
    TreeInv cfg pgtbl m where
  toTableInv := TableInv.ofEmpty allocator live empty
  links path position table inside reached valid := by
    obtain ⟨rfl, rfl⟩ := walk_ofEmpty empty path table
      (treePath_closed _ _ _ inside) reached
    exact absurd valid (empty position (inside.2 position (by simp)))

/-- What a call has done. -/
theorem createMapping (inv : TreeInv cfg pgtbl m) {va pa sz perm : Nat}
    (clean : ZeroedOrClean cfg pgtbl m (.createMapping va pa sz perm))
    (returns : createMapping cfg m pgtbl va pa sz perm = .ok after)
    (succeeds : after.oom = false) :
    TreeInv cfg pgtbl after ∧
      (∀ k, k * 4096 < sz →
        (∀ j, j * 4096 < sz → k < j →
          pageNumber (va + j * 4096) ≠ pageNumber (va + k * 4096)) →
        Present after.mem pgtbl (pageNumber (va + k * 4096)) ∧
        (perm < 2 ^ 64 →
          leaf after.mem pgtbl (pageNumber (va + k * 4096)) =
            entry ((((pa + k * 4096) % 2 ^ 64) >>> 12) &&& ppnMask) perm)) ∧
      Extends pgtbl (Written va sz) (Written va sz) m after := by
  obtain rfl := createMapping_ok returns
  obtain ⟨kept, visited, extension⟩ := inv.mapPages
    (fun page isVisited => (visited_iff va sz page).1 isVisited) clean succeeds
  refine ⟨kept, ?_, extension.mono fun page => (visited_iff va sz page).1⟩
  intro k below isLast
  have lastVisit : ∀ j < (sz + 4095) / 4096, k < j →
      pageNumber (va + (0 + j * 4096)) ≠ pageNumber (va + (0 + k * 4096)) := by
    intro j within above
    simp only [Nat.zero_add]
    exact isLast j ((lt_iterations_iff j sz).1 within) above
  have result := visited k ((lt_iterations_iff k sz).2 below) lastVisit
  simp only [Nat.zero_add] at result
  exact result

theorem environment (inv : TreeInv cfg pgtbl m)
    (step : Environment cfg pgtbl m after) : TreeInv cfg pgtbl after where
  toTableInv := inv.toTableInv.environment step
  links path position table inside reached valid := by
    have prefixInside := treePath_closed () path position inside
    have agree := inv.tables.agree_of_sameFrame
      fun _ key _ frame keyInside toFrame => (step.tables frame
        ⟨(), key, treePath_closed () key _ keyInside, toFrame⟩).2
    have walks : walk (findTable after.mem) pgtbl path =
        walk (findTable m.mem) pgtbl path :=
      Forest.walk_congr treePath_closed agree prefixInside
    rw [walks] at reached
    have same := ((step.tables table ⟨(), path, prefixInside, reached⟩).2).word
      (inv.tables.last_small inside)
    rw [same] at valid ⊢
    exact inv.links path position table inside reached valid

/-- The tree survives every run whose tables are zeroed or come clean. -/
theorem run {start : Machine} {events : List TableEvent}
    (inv : TreeInv cfg pgtbl start)
    (run : Run (Guarded (TableStep cfg pgtbl) (ZeroedOrClean cfg pgtbl)) start
      events m) : TreeInv cfg pgtbl m := by
  refine run.invariant inv ?_
  rintro state event next kept ⟨taken, clean⟩
  cases event with
  | createMapping va pa sz perm =>
      exact (kept.createMapping clean taken.1 taken.2).1
  | environment => exact kept.environment taken

end TreeInv

/-! ## Agreement of the readers -/

/-- `find_pte` returns a pointer to the entry. -/
def FindsEntry (mem : Bytes) (pgtbl addr value : Nat) : Prop :=
  ∃ table index, findPte mem pgtbl addr = some (table, index) ∧
    word mem table index = value

/-- The entry of `cur_pa` that the loop writes. -/
def mappedEntry (pa perm k : Nat) : Nat :=
  entry ((((pa + k * 4096) % 2 ^ 64) >>> 12) &&& ppnMask) perm

/-- `find_pte` and the walk agree with a call on all pages. -/
structure Agrees (pgtbl va pa sz perm : Nat) (before after : Bytes) : Prop where
  found : ∀ k, k * 4096 < sz →
    FindsEntry after pgtbl ((va + k * 4096) % 2 ^ 64) (mappedEntry pa perm k)
  walked : ∀ k, k * 4096 < sz →
    pageWalk after ((va + k * 4096) % 2 ^ 64) 3 pgtbl =
      some (mappedEntry pa perm k, 0)
  kept : ∀ addr, Mapped before pgtbl (pageNumber addr) →
    ¬ Written va sz (pageNumber addr) → ∀ value,
    FindsEntry before pgtbl addr value → FindsEntry after pgtbl addr value

/-- Up to `2 ^ 39` bytes no page is visited twice. -/
theorem visited_once {va sz j k : Nat} (small : sz ≤ 2 ^ 39)
    (jInside : j * 4096 < sz) (kInside : k * 4096 < sz) (different : k < j) :
    pageNumber (va + j * 4096) ≠ pageNumber (va + k * 4096) := by
  simp only [pageNumber]
  omega

theorem Present.findsEntry {mem : Bytes} {pgtbl addr : Nat}
    (present : Present mem pgtbl (pageNumber addr)) :
    FindsEntry mem pgtbl addr (leaf mem pgtbl (pageNumber addr)) := by
  obtain ⟨table, reached⟩ := present
  exact ⟨table, vpn 0 addr, findPte_of_walk reached,
    (leaf_pageNumber reached).symm⟩

section Claims

variable {cfg : Config} {pgtbl : Nat} {start m after : Machine}
    {events : List TableEvent} {va pa sz perm : Nat}

/--
On tables built by `create_mapping` from an empty root, with table pages filled
with zeros, the readers find what a further call has mapped, and the entries of
other mapped pages stay.  The walk of the processor reads the entry exactly
when its flags are no reserved combination.
-/
theorem createMapping_agrees {multi : Set Nat} (zeroing : cfg.fill ≠ .asFound)
    (allocator : Allocator cfg.top multi start) (live : Live start pgtbl)
    (empty : ∀ position < 512, ¬ has permV (word start.mem pgtbl position))
    (run : Run (TableStep cfg pgtbl) start events m) (small : sz ≤ 2 ^ 39)
    (permSmall : perm < 2 ^ 64)
    (taken : TableStep cfg pgtbl m (.createMapping va pa sz perm) after) :
    (∀ k, k * 4096 < sz →
      FindsEntry after.mem pgtbl ((va + k * 4096) % 2 ^ 64)
          (mappedEntry pa perm k) ∧
        pageWalk after.mem ((va + k * 4096) % 2 ^ 64) 3 pgtbl =
          if LeafEntry perm then some (mappedEntry pa perm k, 0) else none) ∧
      (LeafEntry perm → Agrees pgtbl va pa sz perm m.mem after.mem) ∧
      ∀ addr, Mapped m.mem pgtbl (pageNumber addr) →
        ¬ Written va sz (pageNumber addr) → ∀ value,
        FindsEntry m.mem pgtbl addr value →
        FindsEntry after.mem pgtbl addr value := by
  have inv := (TreeInv.ofEmpty allocator live empty).run
    (run.mono fun _ _ _ step => ⟨step, Or.inl zeroing⟩)
  obtain ⟨afterInv, visited, extension⟩ :=
    inv.createMapping (Or.inl zeroing) taken.1 taken.2
  have found : ∀ k, k * 4096 < sz →
      FindsEntry after.mem pgtbl ((va + k * 4096) % 2 ^ 64)
          (mappedEntry pa perm k) ∧
        pageWalk after.mem ((va + k * 4096) % 2 ^ 64) 3 pgtbl =
          if LeafEntry perm then some (mappedEntry pa perm k, 0) else none := by
    intro k inside
    obtain ⟨present, value⟩ := visited k inside fun j jInside above =>
      visited_once small jInside inside above
    have value : leaf after.mem pgtbl (pageNumber (va + k * 4096)) =
        mappedEntry pa perm k := value permSmall
    rw [← pageNumber_mod] at present value
    constructor
    · rw [← value]
      exact present.findsEntry
    · rw [afterInv.pageWalk_eq, value]
      simp only [mappedEntry, leafEntry_entry]
  have kept : ∀ addr, Mapped m.mem pgtbl (pageNumber addr) →
      ¬ Written va sz (pageNumber addr) → ∀ value,
      FindsEntry m.mem pgtbl addr value →
      FindsEntry after.mem pgtbl addr value := by
    rintro addr isMapped notWritten value ⟨table, index, before, here⟩
    obtain ⟨last, reached⟩ := isMapped.present
    rw [findPte_of_walk reached, Option.some_inj, Prod.mk.injEq] at before
    obtain ⟨rfl, rfl⟩ := before
    have grown := extension.walk _ _ (treePath_path _) reached
    refine ⟨last, vpn 0 addr, findPte_of_walk grown, ?_⟩
    rw [← leaf_pageNumber grown, extension.kept _ (pageNumber_lt addr) notWritten
      isMapped.present, leaf_pageNumber reached, here]
  refine ⟨found, fun leafPerm => ⟨fun k inside => (found k inside).1,
    fun k inside => ?_, kept⟩, kept⟩
  rw [(found k inside).2, if_pos leafPerm]

/-! ## The bytes covered -/

/-- The two halves of the address space that 39 bits reach. -/
def Canonical (addr : Nat) : Prop :=
  addr < 2 ^ 38 ∨ 2 ^ 64 - 2 ^ 38 ≤ addr

instance (addr : Nat) : Decidable (Canonical addr) :=
  inferInstanceAs (Decidable (_ ∨ _))

/-- The physical address of an address, whatever accesses its flags allow. -/
def walkAddress (mem : Bytes) (pgtbl addr : Nat) : Option Nat :=
  if Canonical addr then
    match pageWalk mem addr 3 pgtbl with
    | none => none
    | some (leaf, level) =>
        if entryPpn leaf % 512 ^ level = 0 then
          some (4096 * entryPpn leaf + addr % (4096 * 512 ^ level))
        else none
  else none

/-- Every byte of the range is translated to its counterpart. -/
def Covers (mem : Bytes) (pgtbl va pa sz : Nat) : Prop :=
  ∀ addr, va ≤ addr → addr < va + sz →
    walkAddress mem pgtbl addr = some (pa + (addr - va))

/-- When a call covers its range, as a condition on its arguments and the tables before. -/
structure Coverable (mem : Bytes) (pgtbl va pa sz perm : Nat) : Prop where
  leafPerm : LeafEntry perm
  canonical : va + sz ≤ 2 ^ 38 ∨ 2 ^ 64 - 2 ^ 38 ≤ va
  physical : pa + sz ≤ 2 ^ 56
  /-- Bytes behind the last page the loop visits were mapped to their place before. -/
  rest : ∀ addr, addr < va + sz →
    va / 4096 + (sz + 4095) / 4096 ≤ addr / 4096 →
    walkAddress mem pgtbl addr = some (pa + (addr - va))

theorem TreeInv.walkAddress_eq_some (inv : TreeInv cfg pgtbl m)
    {addr target : Nat} :
    walkAddress m.mem pgtbl addr = some target ↔
      Canonical addr ∧ LeafEntry (leaf m.mem pgtbl (pageNumber addr)) ∧
        4096 * entryPpn (leaf m.mem pgtbl (pageNumber addr)) + addr % 4096 =
          target := by
  rw [walkAddress, inv.pageWalk_eq]
  by_cases canonical : Canonical addr
  · by_cases isLeaf : LeafEntry (leaf m.mem pgtbl (pageNumber addr))
    · simp [canonical, isLeaf, Nat.mod_one]
    · simp [canonical, isLeaf]
  · simp [canonical]

/-- A byte on a page the loop visits. -/
theorem visit_of_addr {addr : Nat} (lower : va ≤ addr)
    (visited : addr / 4096 < va / 4096 + (sz + 4095) / 4096) :
    ∃ k, k * 4096 < sz ∧ addr / 4096 = va / 4096 + k ∧
      pageNumber addr = pageNumber (va + k * 4096) := by
  refine ⟨addr / 4096 - va / 4096, ?_, ?_, ?_⟩
  · exact (lt_iterations_iff _ _).1 (by omega)
  · omega
  · simp only [pageNumber]
    omega

/-- A byte behind them. -/
theorem not_written_of_addr {addr : Nat} (small : sz ≤ 2 ^ 38)
    (upper : addr < va + sz)
    (behind : va / 4096 + (sz + 4095) / 4096 ≤ addr / 4096) :
    ¬ Written va sz (pageNumber addr) := by
  rintro ⟨k, inside, same⟩
  have below := (lt_iterations_iff k sz).2 inside
  simp only [pageNumber] at same
  omega

/--
On tables built by `create_mapping` whose pages are zeroed or come clean, a call
covers its byte range exactly when its flags are those of a leaf, the range fits
both address spaces, and what lies behind the last page the loop visits was
mapped to its place before.
-/
theorem createMapping_covers_iff {multi : Set Nat}
    (allocator : Allocator cfg.top multi start) (live : Live start pgtbl)
    (empty : ∀ position < 512, ¬ has permV (word start.mem pgtbl position))
    (run : Run (Guarded (TableStep cfg pgtbl) (ZeroedOrClean cfg pgtbl)) start
      events m)
    (taken : Guarded (TableStep cfg pgtbl) (ZeroedOrClean cfg pgtbl) m
      (.createMapping va pa sz perm) after)
    (offset : va % 4096 = pa % 4096) (noWrap : va + sz ≤ 2 ^ 64)
    (permSmall : perm < 2 ^ 8) :
    Covers after.mem pgtbl va pa sz ↔
      sz = 0 ∨ Coverable m.mem pgtbl va pa sz perm := by
  have inv := (TreeInv.ofEmpty allocator live empty).run run
  obtain ⟨afterInv, visited, extension⟩ :=
    inv.createMapping taken.2 taken.1.1 taken.1.2
  -- Pages behind the last visit translate as before the call.
  have behind {addr target : Nat} (small : sz ≤ 2 ^ 38)
      (upper : addr < va + sz)
      (beyond : va / 4096 + (sz + 4095) / 4096 ≤ addr / 4096) :
      walkAddress after.mem pgtbl addr = some target ↔
        walkAddress m.mem pgtbl addr = some target := by
    have notWritten := not_written_of_addr small upper beyond
    have keeps (isMapped : Mapped m.mem pgtbl (pageNumber addr)) :
        leaf after.mem pgtbl (pageNumber addr) =
          leaf m.mem pgtbl (pageNumber addr) :=
      extension.kept _ (pageNumber_lt addr) notWritten isMapped.present
    rw [afterInv.walkAddress_eq_some, inv.walkAddress_eq_some]
    constructor
    · rintro ⟨canonical, isLeaf, result⟩
      have isMapped := extension.stray _ (pageNumber_lt addr) notWritten isLeaf.1
      rw [keeps isMapped] at isLeaf result
      exact ⟨canonical, isLeaf, result⟩
    · rintro ⟨canonical, isLeaf, result⟩
      rw [keeps isLeaf.1]
      exact ⟨canonical, isLeaf, result⟩
  -- Pages visited have the entry of their only visit.
  have visit {k : Nat} (small : sz ≤ 2 ^ 38) (inside : k * 4096 < sz) :
      leaf after.mem pgtbl (pageNumber (va + k * 4096)) =
        mappedEntry pa perm k :=
    (visited k inside fun j jInside above =>
      visited_once (by omega) jInside inside above).2 (by omega)
  constructor
  · intro covers
    by_cases none : sz = 0
    · exact Or.inl none
    · have first := afterInv.walkAddress_eq_some.1
        (covers va (Nat.le_refl va) (by omega))
      have last := afterInv.walkAddress_eq_some.1
        (covers (va + sz - 1) (by omega) (by omega))
      have canonical : va + sz ≤ 2 ^ 38 ∨ 2 ^ 64 - 2 ^ 38 ≤ va := by
        by_contra outside
        have between := (afterInv.walkAddress_eq_some.1
          (covers (max va (2 ^ 38)) (by omega) (by
            have upper := first.1
            simp only [Canonical] at upper
            omega))).1
        simp only [Canonical] at between
        omega
      have small : sz ≤ 2 ^ 38 := by omega
      have positive : 0 * 4096 < sz := by
        rw [Nat.zero_mul]
        exact Nat.pos_of_ne_zero none
      have here := visit small positive
      rw [Nat.zero_mul, Nat.add_zero] at here
      refine Or.inr ⟨?_, canonical, ?_, ?_⟩
      · have isLeaf := first.2.1
        rw [here, mappedEntry, leafEntry_entry] at isLeaf
        exact isLeaf
      · have bound := entryPpn_lt (leaf after.mem pgtbl
          (pageNumber (va + sz - 1)))
        have result := last.2.2
        omega
      · intro addr upper beyond
        exact (behind small upper beyond).1 (covers addr (by omega) upper)
  · rintro (rfl | coverable) addr lower upper
    · omega
    · have canonical := coverable.canonical
      have physical := coverable.physical
      have small : sz ≤ 2 ^ 38 := by omega
      by_cases beyond : va / 4096 + (sz + 4095) / 4096 ≤ addr / 4096
      · exact (behind small upper beyond).2 (coverable.rest addr upper beyond)
      · obtain ⟨k, inside, number, samePage⟩ :=
          visit_of_addr lower (Nat.not_le.1 beyond)
        have mask : ppnMask = 2 ^ 44 - 1 := by decide
        have target : 4096 * ((pa + k * 4096) / 4096) + addr % 4096 =
            pa + (addr - va) := by
          omega
        have ppnSmall : (pa + k * 4096) / 4096 < 2 ^ 44 := by omega
        have ppn : (((pa + k * 4096) % 2 ^ 64) >>> 12) &&& ppnMask =
            (pa + k * 4096) / 4096 := by
          rw [mask, Nat.and_two_pow_sub_one_eq_mod, Nat.shiftRight_eq_div_pow]
          omega
        rw [afterInv.walkAddress_eq_some, samePage, visit small inside,
          mappedEntry, ppn, leafEntry_entry,
          entryPpn_entry ppnSmall (permSmall.trans (by decide))]
        refine ⟨?_, coverable.leafPerm, target⟩
        simp only [Canonical]
        omega

end Claims

/-! ## A cleared page -/

namespace ClearedPage

open RecycledPage

/-- The configuration of the recycled page, with tables filled with zeros. -/
def zeroed : Config :=
  { config with fill := .kallocZeroed }

/-- The state after a call for one page of bytes. -/
def mapped (va pa perm : Nat) : Machine :=
  (mapPages zeroed root va pa perm 1 0 (machine 0)).2

theorem zeroed_allocator : Allocator zeroed.top ∅ (machine 0) :=
  machine_allocator 0

theorem mapped_step {va pa perm : Nat}
    (succeeds : (mapped va pa perm).oom = false) :
    TableStep zeroed root (machine 0) (.createMapping va pa 4096 perm)
      (mapped va pa perm) :=
  ⟨createMapping_one_page zeroed (machine 0) va pa perm, succeeds⟩

/-- Over memory full of junk, the page at `0x40000000` is mapped. -/
def once : Machine :=
  (mapPages zeroed root 0x40000000 0x80004000 0xdf 1 0 littered).2

/-- Then page `0`. -/
def twice : Machine :=
  (mapPages zeroed root 0 0x80005000 0xdf 1 0 once).2

theorem once_step :
    TableStep zeroed root littered
      (.createMapping 0x40000000 0x80004000 4096 0xdf) once :=
  ⟨createMapping_one_page _ _ _ _ _, by decide +kernel⟩

theorem twice_step :
    TableStep zeroed root once (.createMapping 0 0x80005000 4096 0xdf) twice :=
  ⟨createMapping_one_page _ _ _ _ _, by decide +kernel⟩

/-- Page `0`, readable, writable and executable, after another page. -/
theorem createMapping_agrees_page_zero :
    Agrees root 0 0x80005000 4096 0xdf once.mem twice.mem := by
  have allocator : Allocator zeroed.top ∅ littered := littered_allocator
  exact (createMapping_agrees (by decide) allocator littered_live
    littered_empty (Run.single once_step) (by decide) (by decide)
    twice_step).2.1 (by decide)

/-- A page that may be written but not read: the entry is there, the walk refuses it. -/
theorem createMapping_write_only :
    TableStep zeroed root (machine 0) (.createMapping 0 0x80004000 4096 0b101)
        (mapped 0 0x80004000 0b101) ∧
      TreeInv zeroed root (machine 0) ∧
      ¬ Agrees root 0 0x80004000 4096 0b101 (machine 0).mem
        (mapped 0 0x80004000 0b101).mem := by
  refine ⟨mapped_step (by decide +kernel), TreeInv.ofEmpty (zeroed_allocator)
    (machine_live 0) (machine_empty 0), fun agrees => ?_⟩
  have walked := agrees.walked 0 (by decide)
  have refused : pageWalk (mapped 0 0x80004000 0b101).mem
      ((0 + 0 * 4096) % 2 ^ 64) 3 root = none := by
    decide +kernel
  rw [refused] at walked
  cases walked

/-- Half a page, to the end of it. -/
theorem createMapping_covers_half_page :
    Covers (mapped 0x800 0x80004800 0xdf).mem root 0x800 0x80004800 0x800 := by
  have rounds : (0x800 + 4095) / 4096 = 1 := by decide
  have fits : 0x800 ≤ 2 ^ 64 - 4096 := by decide
  have taken : Guarded (TableStep zeroed root) (ZeroedOrClean zeroed root)
      (machine 0) (.createMapping 0x800 0x80004800 0x800 0xdf)
      (mapped 0x800 0x80004800 0xdf) := by
    refine ⟨⟨?_, by decide +kernel⟩, Or.inl (by decide)⟩
    simp only [createMapping, rounds, fits, or_true, if_true, mapped]
  refine (createMapping_covers_iff (zeroed_allocator) (machine_live 0)
    (machine_empty 0) Run.nil taken (by decide) (by decide) (by decide)).2
    (Or.inr ⟨by decide, Or.inl (by decide), by decide, ?_⟩)
  intro addr upper beyond
  omega

/-- A page of bytes that starts in the middle of a page: the second half is not mapped. -/
theorem createMapping_misses_last_page :
    TableStep zeroed root (machine 0)
        (.createMapping 0x800 0x80004800 4096 0xdf)
        (mapped 0x800 0x80004800 0xdf) ∧
      walkAddress (mapped 0x800 0x80004800 0xdf).mem root 0x1000 = none ∧
      ¬ Covers (mapped 0x800 0x80004800 0xdf).mem root 0x800 0x80004800
        4096 := by
  have missing : walkAddress (mapped 0x800 0x80004800 0xdf).mem root 0x1000 =
      none := by
    decide +kernel
  refine ⟨mapped_step (by decide +kernel), missing, fun covers => ?_⟩
  have covered := covers 0x1000 (by decide) (by decide)
  rw [missing] at covered
  cases covered

end ClearedPage

end TinyRiscvOs.Vm
